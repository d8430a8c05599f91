import Mathlib.Data.List.Forall2
import Mathlib.Data.List.ReduceOption
import Mathlib.Data.List.Perm.Basic
import Mathlib.Tactic.Common
import Arma.Base.Checked
import Arma.Kernel.Image
import Arma.Kernel.RelocTable

/-!
# Extracting the relocation sites

Sites come from the relocation sections of an ELF kernel or, when it has none,
from a table appended to the file. Each site is an offset into the flat image,
in one of three lists.
-/

namespace Arma.Kernel.Extract

open Base.ByteString Base.Checked Base.Intervals Image RelocTable

/-- `R_X86_64_NONE`. -/
def rX86_64None : UInt32 := 0

/-- `R_X86_64_64`. -/
def rX86_64_64 : UInt32 := 1

/-- `R_X86_64_PC32`. -/
def rX86_64Pc32 : UInt32 := 2

/-- `R_X86_64_PLT32`. -/
def rX86_64Plt32 : UInt32 := 4

/-- `R_X86_64_32`. -/
def rX86_64_32 : UInt32 := 10

/-- `R_X86_64_32S`. -/
def rX86_64_32s : UInt32 := 11

/-- `R_X86_64_PC64`. -/
def rX86_64Pc64 : UInt32 := 24

/-- `R_X86_64_REX_GOTPCRELX`. -/
def rX86_64RexGotpcrelx : UInt32 := 42

/-- `SHN_UNDEF`. -/
def shnUndef : ℕ := 0

/-- `SHN_ABS`. -/
def shnAbs : ℕ := 0xfff1

/-- `SHN_XINDEX`. -/
def shnXindex : ℕ := 0xffff

/-- `SHT_NOTE`. -/
def shtNote : UInt32 := 7

/-- `SHT_NOBITS`. -/
def shtNobits : UInt32 := 8

/-- `SHF_ALLOC`. -/
def shfAlloc : UInt64 := 0x2

/-- `str::starts_with`. -/
def startsWith (name start : String) : Bool := start.toList.isPrefixOf name.toList

/-- Absolute symbols that move with the kernel all the same. -/
def sRelNames : List String :=
  ["__init_begin","__init_end","__x86_cpu_dev_start","__x86_cpu_dev_end","__parainstructions",
    "__parainstructions_end","__alt_instructions","__alt_instructions_end","__iommu_table",
    "__iommu_table_end","__apicdrivers","__apicdrivers_end","__smp_locks","__smp_locks_end",
    "__start_builtin_fw","__end_builtin_fw","__start___ksymtab","__stop___ksymtab",
    "__start___ksymtab_gpl","__stop___ksymtab_gpl","__start___kcrctab","__stop___kcrctab",
    "__start___kcrctab_gpl","__stop___kcrctab_gpl","__start___param","__stop___param",
    "__start___modver","__stop___modver","__start___bug_table","__stop___bug_table",
    "__tracedata_start","__tracedata_end","__start_notes","__stop_notes","__end_rodata",
    "__end_rodata_aligned","__initramfs_start","jiffies","jiffies_64","__per_cpu_load",
    "__end_rodata_hpage_align","__vvar_page","_end"]

/-- A symbol on the `S_REL` list. -/
def isSRel (name : String) : Bool :=
  startsWith name "__start_pci_" || startsWith name "__end_pci_" ||
    startsWith name "init_per_cpu__" || sRelNames.contains name

/-- What is known of the per-CPU section. -/
structure PerCpu where
  /-- Its index, on an SMP kernel. -/
  shndx : Option ℕ
  /-- Value of `__per_cpu_load`. -/
  loadAddr : UInt64
deriving DecidableEq, Repr

/-- The loop over the sections, from index `i` on. -/
def findPercpuLoop (syms : List Sym) : ℕ → List SectionHeader → Outcome KernelError PerCpu
  | _,[] => .ok ⟨none,0⟩
  | i,sh::rest =>
    if sh.name≠some ".data..percpu" then findPercpuLoop syms (i+1) rest
    else if sh.addr≠0 then .ok ⟨none,0⟩
    else do
      let loadAddr ← okOr ((syms.find? fun s => decide (s.name=some "__per_cpu_load")).map Sym.value)
        (.elfMalformed "percpu section but no __per_cpu_load")
      .ok ⟨some i,loadAddr⟩

/-- Locate the per-CPU section and its load address. -/
def findPercpu (elf : Elf) : Outcome KernelError PerCpu :=
  findPercpuLoop elf.syms 0 elf.sectionHeaders

/-- The symbol is a genuine per-CPU variable. -/
def isPercpuSym (shndx : ℕ) (name : String) (percpu : PerCpu) : Bool :=
  decide (percpu.shndx=some shndx) && decide (name≠"__init_begin") &&
    decide (name≠"__per_cpu_load") && !startsWith name "init_per_cpu_"

/-- The segment at the lowest physical address. -/
def textSegment (elf : Elf) (span : ElfSpan) : Option ProgramHeader :=
  elf.programHeaders.find? fun p => p.spans && decide (p.paddr.toNat=span.minPaddr)

/-- Virtual link base of the image. -/
def textVaddr (elf : Elf) (span : ElfSpan) : Outcome KernelError UInt64 :=
  okOr ((textSegment elf span).map ProgramHeader.vaddr) (.elfMalformed "no PT_LOAD at min_paddr")

/-- Image offset of a virtual address. -/
def toImageOff (textVaddr va : UInt64) : Outcome KernelError UInt32 :=
  okOr (((subWord va.toNat textVaddr.toNat).filter fun o => decide (o<2^32)).map UInt32.ofNat)
    (.elfMalformed "reloc location outside image")

/-- The list that a site goes to. -/
inductive SiteKind where
  /-- A 4-byte field that moves up. -/
  | relocs32
  /-- A 4-byte field that moves down. -/
  | relocs32neg
  /-- An 8-byte field that moves up. -/
  | relocs64
deriving DecidableEq, Repr

/-- Bytes of the field. -/
def SiteKind.width : SiteKind → ℕ
  | .relocs32 => 4
  | .relocs32neg => 4
  | .relocs64 => 8

/-- A site and its list. -/
abbrev KindedSite : Type := SiteKind × UInt32

/-- Push a site on its list. -/
def push (r : Relocs) (site : KindedSite) : Relocs :=
  match site.1 with
  | .relocs32 => { r with relocs32 := r.relocs32++[site.2] }
  | .relocs32neg => { r with relocs32neg := r.relocs32neg++[site.2] }
  | .relocs64 => { r with relocs64 := r.relocs64++[site.2] }

/-- Virtual address of the field of an entry; those in the per-CPU section are
rebased to where it is loaded. -/
def place (percpu : PerCpu) (applies : ℕ) (rel : Rela) : UInt64 :=
  if percpu.shndx=some applies then rel.offset+percpu.loadAddr else rel.offset

/-- Relative 32-bit types. -/
def isPc32 (type : UInt32) : Bool :=
  decide (type=rX86_64Pc32) || decide (type=rX86_64Plt32) || decide (type=rX86_64RexGotpcrelx)

/-- Absolute types. -/
def isAbsolute (type : UInt32) : Bool :=
  decide (type=rX86_64_64) || decide (type=rX86_64_32) || decide (type=rX86_64_32s)

/-- An absolute symbol that is a true constant. -/
def isConstant (sym : Sym) : Bool := decide (sym.shndx=shnAbs) && !isSRel (sym.name.getD "")

/-- The site of a field, if it is recorded. -/
def siteAt (textVaddr va : UInt64) (kind : SiteKind) : Outcome KernelError (Option KindedSite) := do
  let off ← toImageOff textVaddr va
  .ok (some (kind,off))

/-- Classify the entry of a section by its type and a defined symbol. -/
def classify (percpu : PerCpu) (textVaddr : UInt64) (applies : ℕ) (rel : Rela) (sym : Sym) :
    Outcome KernelError (Option KindedSite) :=
  let percpuSym := isPercpuSym sym.shndx (sym.name.getD "") percpu
  if rel.type=rX86_64None then .ok none
  else if isPc32 rel.type then
    if percpuSym then siteAt textVaddr (place percpu applies rel) .relocs32neg else .ok none
  else if rel.type=rX86_64Pc64 then
    if percpuSym then fail (.elfMalformed "R_X86_64_PC64 against per-CPU symbol") else .ok none
  else if isAbsolute rel.type then
    if percpuSym then .ok none
    else if isConstant sym then .ok none
    else siteAt textVaddr (place percpu applies rel)
      (if rel.type=rX86_64_64 then .relocs64 else .relocs32)
  else fail (.elfMalformed "unsupported x86-64 relocation type")

/-- The body of the loop over the entries. -/
def relocSite (elf : Elf) (percpu : PerCpu) (textVaddr : UInt64) (applies : ℕ) (rel : Rela) :
    Outcome KernelError (Option KindedSite) := do
  let sym ← okOr elf.syms[rel.sym]? (.elfMalformed "reloc symbol index out of range")
  if sym.shndx=shnUndef then .ok none
  else if sym.shndx=shnXindex then fail (.elfMalformed "SHN_XINDEX symbols unsupported")
  else classify percpu textVaddr applies rel sym

/-- The loop over the entries of one section. -/
def extractEntries (elf : Elf) (percpu : PerCpu) (textVaddr : UInt64) (applies : ℕ) :
    List Rela → Relocs → Outcome KernelError Relocs
  | [],out => .ok out
  | rel::rest,out => do
    let site ← relocSite elf percpu textVaddr applies rel
    extractEntries elf percpu textVaddr applies rest (site.elim out (push out))

/-- Relocations of the section are extracted: it is allocated and no note. -/
def isWalked (applies : SectionHeader) : Bool :=
  decide (applies.flags &&& shfAlloc≠0) && decide (applies.type≠shtNote)

/-- One relocation section. -/
def extractSection (elf : Elf) (percpu : PerCpu) (textVaddr : UInt64) (sec : ℕ × List Rela)
    (out : Relocs) : Outcome KernelError Relocs := do
  let header ← unwrap elf.sectionHeaders[sec.1]?
  let applies ← okOr elf.sectionHeaders[header.info.toNat]?
    (.elfMalformed "reloc sh_info out of range")
  if isWalked applies then extractEntries elf percpu textVaddr header.info.toNat sec.2 out
  else .ok out

/-- The loop over the relocation sections. -/
def extractSections (elf : Elf) (percpu : PerCpu) (textVaddr : UInt64) :
    List (ℕ × List Rela) → Relocs → Outcome KernelError Relocs
  | [],out => .ok out
  | sec::rest,out => do
    let out ← extractSection elf percpu textVaddr sec out
    extractSections elf percpu textVaddr rest out

/-- Saturating addition of 64-bit words. -/
def saturatingAdd (a b : ℕ) : ℕ := min (a+b) (2^64-1)

/-- End of the ELF in the file, where an appended table starts. -/
def tableStart (elf : Elf) : ℕ :=
  let sections := saturatingAdd elf.shoff.toNat (elf.shnum.toNat*elf.shentsize.toNat)
  let segments := elf.programHeaders.foldl
    (fun start p => max start (saturatingAdd p.offset.toNat p.filesz.toNat)) sections
  elf.sectionHeaders.foldl (fun start s =>
    if s.type≠shtNobits then max start (saturatingAdd s.offset.toNat s.size.toNat) else start)
    segments

/-- The words of the appended table, from the end of the file backward. -/
def appendedWords (elf : Elf) (bytes : Bytes) : List UInt32 :=
  (List.range ((bytes.length-tableStart elf)/4)).map fun k =>
    fromLeBytes (slice (bytes.length-4*(k+1)) 4 bytes)

/-- A sign-extended kernel address. -/
def signExtend (v : UInt32) : ℕ :=
  if v.toNat<2^31 then v.toNat else v.toNat+(2^64-2^32)

/-- The site of a word of the appended table. -/
def appendedSite (textVaddr : UInt64) (imageSize : ℕ) (v : UInt32) : Outcome KernelError UInt32 :=
  okOr ((((subWord (signExtend v) textVaddr.toNat).filter fun o => decide (o < imageSize)).filter
    fun o => decide (o<2^32)).map UInt32.ofNat) (.elfMalformed "appended reloc site outside image")

/-- Split the words into lists at each zero; `cur` is the list being read. -/
def splitTable (textVaddr : UInt64) (imageSize : ℕ) :
    List UInt32 → List UInt32 → List (List UInt32) → Outcome KernelError (List (List UInt32))
  | [],_,lists => .ok lists
  | v::rest,cur,lists =>
    if v=0 then splitTable textVaddr imageSize rest [] (lists++[cur])
    else do
      let off ← appendedSite textVaddr imageSize v
      splitTable textVaddr imageSize rest (cur++[off]) lists

/-- The lists of the appended table, in the order they are read. -/
def appendedRelocs : List (List UInt32) → Outcome KernelError Relocs
  | [relocs32,relocs64] => .ok ⟨relocs32,[],relocs64⟩
  | [relocs32,relocs32neg,relocs64] => .ok ⟨relocs32,relocs32neg,relocs64⟩
  | _ => fail (.elfMalformed "unexpected appended reloc list count")

/-- Extract the sites of an appended table. -/
def extractAppendedRelocs (elf : Elf) (bytes : Bytes) : Outcome KernelError Relocs := do
  let span ← elfSpan elf
  let text ← textVaddr elf span
  if bytes.length≤tableStart elf then .ok ⟨[],[],[]⟩
  else do
    let lists ← splitTable text (span.maxMemEnd-span.minPaddr) (appendedWords elf bytes) [] []
    appendedRelocs lists

/-- Extract the sites of an ELF kernel. -/
def extractRelocs (elfParse : Bytes → Option Elf) (bytes : Bytes) : Outcome KernelError Relocs := do
  let elf ← parseElf elfParse bytes
  if elf.shdrRelocs.isEmpty then extractAppendedRelocs elf bytes
  else do
    let span ← elfSpan elf
    let percpu ← findPercpu elf
    let text ← textVaddr elf span
    extractSections elf percpu text elf.shdrRelocs ⟨[],[],[]⟩

/-- All sites with their lists. -/
def allSites (r : Relocs) : List KindedSite :=
  r.relocs64.map (SiteKind.relocs64,·)++r.relocs32neg.map (SiteKind.relocs32neg,·)++
    r.relocs32.map (SiteKind.relocs32,·)

/-- The symbol moves with the kernel: it is defined, no constant and no per-CPU
variable. -/
def moves (percpu : PerCpu) (sym : Sym) : Bool :=
  decide (sym.shndx≠shnUndef) && !isConstant sym &&
    !isPercpuSym sym.shndx (sym.name.getD "") percpu

/-- The list that an entry is recorded in, if any. -/
def recordedKind (percpu : PerCpu) (sym : Sym) (type : UInt32) : Option SiteKind :=
  if isPc32 type && decide (sym.shndx≠shnUndef) &&
    isPercpuSym sym.shndx (sym.name.getD "") percpu then some .relocs32neg
  else if isAbsolute type && moves percpu sym then
    some (if type=rX86_64_64 then .relocs64 else .relocs32)
  else none

/-- The entries of one relocation section, with the section they apply to. -/
def sectionEntries (keep : SectionHeader → Bool) (elf : Elf) (sec : ℕ × List Rela) :
    List (ℕ × Rela) :=
  (elf.sectionHeaders[sec.1]?).elim [] fun header =>
    (elf.sectionHeaders[header.info.toNat]?).elim [] fun applies =>
      if keep applies then sec.2.map (header.info.toNat,·) else []

/-- The entries that apply to the sections of a kind. -/
def entriesOf (keep : SectionHeader → Bool) (elf : Elf) : List (ℕ × Rela) :=
  elf.shdrRelocs.flatMap (sectionEntries keep elf)

/-- The lists of words between the zeros of the appended table, but the last. -/
def tableLists (elf : Elf) (bytes : Bytes) : List (List UInt32) :=
  ((appendedWords elf bytes).splitOn 0).dropLast

/-- A pushed site comes last, in some order of the lists. -/
theorem allSites_push (r : Relocs) (site : KindedSite) :
    (allSites (push r site)).Perm (allSites r++[site]) := by
  obtain ⟨kind,o⟩ := site
  unfold allSites
  cases kind with
  | relocs32 =>
    dsimp only [push]
    rw [List.map_append,List.append_assoc]
    exact List.Perm.of_eq (by simp)
  | relocs32neg =>
    dsimp only [push]
    rw [List.map_append,List.append_assoc,List.append_assoc,List.append_assoc,List.append_assoc]
    exact ((List.perm_append_comm).append_left _).append_left _
  | relocs64 =>
    dsimp only [push]
    rw [List.map_append,List.append_assoc,List.append_assoc,List.append_assoc,List.append_assoc]
    exact (List.perm_append_comm.trans (by rw [List.append_assoc]; rfl)).append_left _

/-- Pushing a run of sites adds them to the lists. -/
theorem allSites_foldl_push (sites : List KindedSite) (r : Relocs) :
    (allSites (sites.foldl push r)).Perm (allSites r++sites) := by
  induction sites generalizing r with
  | nil => rw [List.foldl_nil,List.append_nil]
  | cons site sites ih =>
    rw [List.foldl_cons]
    refine (ih _).trans ?_
    have hstep := (allSites_push r site).append_right sites
    rwa [List.append_assoc] at hstep

/-- An image offset is the distance from the link base, as a 32-bit word. -/
theorem toImageOff_ok {text va : UInt64} {o : UInt32} (h : toImageOff text va=.ok o) :
    text.toNat≤va.toNat ∧ o.toNat=va.toNat-text.toNat := by
  unfold toImageOff at h
  obtain ⟨n,hn,rfl⟩ := Option.map_eq_some_iff.mp (okOr_ok.mp h)
  obtain ⟨hsub,hlt⟩ := Option.filter_eq_some_iff.mp hn
  obtain ⟨hle,rfl⟩ := subWord_some.mp hsub
  rw [decide_eq_true_eq] at hlt
  exact ⟨hle,UInt32.toNat_ofNat_of_lt' hlt⟩

/-- A site is the offset of its address, with its list. -/
theorem siteAt_ok {text va : UInt64} {kind : SiteKind} {site : Option KindedSite}
    (h : siteAt text va kind=.ok site) : ∃ o, site=some (kind,o) ∧ toImageOff text va=.ok o := by
  obtain ⟨o,ho,h⟩ := bind_ok.mp h
  cases h
  exact ⟨o,rfl,ho⟩

/-- What an accepted entry records: nothing, or the offset of its field in the
list of its kind. -/
def Records (percpu : PerCpu) (text : UInt64) (e : ℕ × Rela) (sym : Sym)
    (site : Option KindedSite) : Prop :=
  match recordedKind percpu sym e.2.type with
  | some kind => ∃ o, site=some (kind,o) ∧ toImageOff text (place percpu e.1 e.2)=.ok o
  | none => site=none

/-- The two groups of types are distinct. -/
theorem isAbsolute_of_isPc32 {type : UInt32} (h : isPc32 type=true) : isAbsolute type=false := by
  simp only [isPc32,Bool.or_eq_true,decide_eq_true_eq] at h
  rcases h with (rfl|rfl)|rfl <;> decide

/-- Accepted entries against defined symbols record their field. -/
theorem classify_ok {percpu : PerCpu} {text : UInt64} {applies : ℕ} {rel : Rela} {sym : Sym}
    {site : Option KindedSite} (hdef : sym.shndx≠shnUndef)
    (h : classify percpu text applies rel sym=.ok site) :
    Records percpu text (applies,rel) sym site := by
  have hmoves : moves percpu sym=
      (!isConstant sym && !isPercpuSym sym.shndx (sym.name.getD "") percpu) := by
    simp [moves,hdef]
  unfold classify at h
  unfold Records recordedKind
  rw [hmoves]
  dsimp only at h ⊢
  generalize hp : isPercpuSym sym.shndx (sym.name.getD "") percpu=percpuSym at h ⊢
  by_cases hnone : rel.type=rX86_64None
  · have hpc : isPc32 rel.type=false := by rw [hnone]; decide
    have habs : isAbsolute rel.type=false := by rw [hnone]; decide
    rw [if_pos hnone] at h
    simp only [hpc,habs,Bool.false_and,Bool.false_eq_true,if_false]
    exact (Except.ok.inj h).symm
  · rw [if_neg hnone] at h
    by_cases hpc : isPc32 rel.type=true
    · have habs := isAbsolute_of_isPc32 hpc
      rw [if_pos hpc] at h
      cases percpuSym with
      | true =>
        rw [if_pos (by simp [hpc,hdef])]
        exact siteAt_ok h
      | false =>
        simp only [habs,Bool.and_false,Bool.false_and,Bool.false_eq_true,if_false]
        exact (Except.ok.inj h).symm
    · rw [if_neg hpc] at h
      have hpc := Bool.eq_false_iff.mpr hpc
      simp only [hpc,Bool.false_and,Bool.false_eq_true,if_false]
      by_cases hpc64 : rel.type=rX86_64Pc64
      · have habs : isAbsolute rel.type=false := by rw [hpc64]; decide
        rw [if_pos hpc64] at h
        simp only [habs,Bool.false_and,Bool.false_eq_true,if_false]
        split at h
        · exact absurd h fail_ne_ok
        · exact (Except.ok.inj h).symm
      · rw [if_neg hpc64] at h
        by_cases habs : isAbsolute rel.type=true
        · rw [if_pos habs] at h
          cases percpuSym with
          | true =>
            simp only [Bool.not_true,Bool.and_false,Bool.false_eq_true,if_false]
            exact (Except.ok.inj h).symm
          | false =>
            cases hconst : isConstant sym with
            | true =>
              rw [if_neg Bool.false_ne_true,if_pos hconst] at h
              simp only [Bool.not_true,Bool.and_false,Bool.false_and,Bool.false_eq_true,if_false]
              exact (Except.ok.inj h).symm
            | false =>
              rw [if_neg Bool.false_ne_true,if_neg (by rw [hconst]; exact Bool.false_ne_true)] at h
              rw [if_pos (by simp [habs])]
              exact siteAt_ok h
        · rw [if_neg habs] at h
          exact absurd h fail_ne_ok

/-- An accepted 64-bit relative entry is against no per-CPU variable. -/
theorem classify_pc64 {percpu : PerCpu} {text : UInt64} {applies : ℕ} {rel : Rela} {sym : Sym}
    {site : Option KindedSite} (h : classify percpu text applies rel sym=.ok site)
    (htype : rel.type=rX86_64Pc64) :
    isPercpuSym sym.shndx (sym.name.getD "") percpu=false := by
  unfold classify at h
  rw [htype] at h
  dsimp only at h
  rw [if_neg (by decide),if_neg (by decide),if_pos rfl] at h
  split at h
  · exact absurd h fail_ne_ok
  · rename_i hp
    exact Bool.eq_false_iff.mpr hp

/-- Every accepted entry names a symbol and records its field accordingly. -/
theorem relocSite_ok {elf : Elf} {percpu : PerCpu} {text : UInt64} {applies : ℕ} {rel : Rela}
    {site : Option KindedSite} (h : relocSite elf percpu text applies rel=.ok site) :
    ∃ sym, elf.syms[rel.sym]?=some sym ∧ Records percpu text (applies,rel) sym site ∧
      (sym.shndx≠shnUndef → rel.type=rX86_64Pc64 →
        isPercpuSym sym.shndx (sym.name.getD "") percpu=false) := by
  obtain ⟨sym,hsym,h⟩ := bind_ok.mp h
  refine ⟨sym,okOr_ok.mp hsym,?_⟩
  split at h
  · rename_i hundef
    cases h
    exact ⟨by simp [Records,recordedKind,moves,hundef],fun hdef => absurd hundef hdef⟩
  · rename_i hdef
    split at h
    · exact absurd h fail_ne_ok
    · exact ⟨classify_ok hdef h,fun _ => classify_pc64 h⟩

/-- The loop over the entries of a section pushes what each one records. -/
theorem extractEntries_ok {elf : Elf} {percpu : PerCpu} {text : UInt64} {applies : ℕ}
    {rels : List Rela} {out r : Relocs} (h : extractEntries elf percpu text applies rels out=.ok r) :
    ∃ sites, List.Forall₂ (fun rel site => relocSite elf percpu text applies rel=.ok site) rels sites ∧
      r=sites.reduceOption.foldl push out := by
  induction rels generalizing out with
  | nil =>
    cases h
    exact ⟨[],List.Forall₂.nil,rfl⟩
  | cons rel rels ih =>
    obtain ⟨site,hsite,h⟩ := bind_ok.mp h
    obtain ⟨sites,hsites,rfl⟩ := ih h
    refine ⟨site::sites,List.Forall₂.cons hsite hsites,?_⟩
    cases site <;> rfl

/-- The loop over the relocation sections pushes what each walked entry records. -/
theorem extractSections_ok {elf : Elf} {percpu : PerCpu} {text : UInt64}
    {secs : List (ℕ × List Rela)} {out r : Relocs}
    (h : extractSections elf percpu text secs out=.ok r) :
    ∃ sites, List.Forall₂ (fun e site => relocSite elf percpu text e.1 e.2=.ok site)
        (secs.flatMap (sectionEntries isWalked elf)) sites ∧
      r=sites.reduceOption.foldl push out := by
  induction secs generalizing out with
  | nil =>
    cases h
    exact ⟨[],List.Forall₂.nil,rfl⟩
  | cons sec secs ih =>
    obtain ⟨out1,hsec,h⟩ := bind_ok.mp h
    obtain ⟨rest,hrest,rfl⟩ := ih h
    obtain ⟨header,hheader,hsec⟩ := bind_ok.mp hsec
    obtain ⟨applies,happlies,hsec⟩ := bind_ok.mp hsec
    have hentries : sectionEntries isWalked elf sec=
        if isWalked applies then sec.2.map (header.info.toNat,·) else [] := by
      rw [sectionEntries,unwrap_ok.mp hheader,Option.elim_some,okOr_ok.mp happlies,
        Option.elim_some]
    rw [List.flatMap_cons,hentries]
    split at hsec
    · rename_i hwalked
      obtain ⟨sites,hsites,rfl⟩ := extractEntries_ok hsec
      refine ⟨sites++rest,?_,?_⟩
      · rw [if_pos hwalked]
        exact List.rel_append (List.forall₂_map_left_iff.mpr hsites) hrest
      · rw [List.reduceOption_append,List.foldl_append]
    · rename_i hskip
      cases hsec
      exact ⟨rest,by rwa [if_neg hskip],rfl⟩

/-- The words of the table become the offsets of the lists between the zeros. -/
theorem splitTable_ok {text : UInt64} {size : ℕ} {ws cur wcur : List UInt32}
    {lists wlists ls : List (List UInt32)} (h : splitTable text size ws cur lists=.ok ls)
    (hcur : List.Forall₂ (fun v o => appendedSite text size v=.ok o) wcur cur)
    (hlists : List.Forall₂ (List.Forall₂ fun v o => appendedSite text size v=.ok o) wlists lists) :
    List.Forall₂ (List.Forall₂ fun v o => appendedSite text size v=.ok o)
      (wlists++(List.splitOnPPrepend (· == 0) ws wcur.reverse).dropLast) ls := by
  induction ws generalizing cur wcur lists wlists with
  | nil =>
    cases h
    simpa using hlists
  | cons v ws ih =>
    unfold splitTable at h
    by_cases hv : v=0
    · rw [if_pos hv] at h
      have hnext := ih h List.Forall₂.nil (List.rel_append hlists (List.Forall₂.cons hcur .nil))
      rw [List.splitOnPPrepend_cons_pos (by simp [hv]),List.reverse_reverse,
        List.dropLast_cons_of_ne_nil (List.splitOnP_ne_nil _ _)]
      simpa using hnext
    · rw [if_neg hv] at h
      obtain ⟨off,hoff,h⟩ := bind_ok.mp h
      have hnext := ih h (List.rel_append hcur (List.Forall₂.cons hoff .nil)) hlists
      rw [List.splitOnPPrepend_cons_neg (by simp [hv])]
      simpa using hnext

end Arma.Kernel.Extract
