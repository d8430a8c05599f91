import Mathlib.Data.List.Induction
import Mathlib.Tactic.Common
import Arma.Base.ByteString
import Arma.Base.Checked

/-!
# Kernel input and the flat loaded image

arma detects the architecture of a kernel and lowers an ELF `vmlinux` to the
bytes of its loadable segments, laid out by physical address and without the
trailing zeros. The ELF parser is a parameter; it reports the headers, with
names looked up in the string tables.
-/

namespace Arma.Kernel.Image

open Base.ByteString Base.Checked

/-- A program header. -/
structure ProgramHeader where
  /-- `p_type`. -/
  type : UInt32
  /-- `p_offset`. -/
  offset : UInt64
  /-- `p_vaddr`. -/
  vaddr : UInt64
  /-- `p_paddr`. -/
  paddr : UInt64
  /-- `p_filesz`. -/
  filesz : UInt64
  /-- `p_memsz`. -/
  memsz : UInt64
deriving DecidableEq, Repr

/-- A section header. -/
structure SectionHeader where
  /-- `sh_name`, if it is in the string table. -/
  name : Option String
  /-- `sh_type`. -/
  type : UInt32
  /-- `sh_flags`. -/
  flags : UInt64
  /-- `sh_addr`. -/
  addr : UInt64
  /-- `sh_offset`. -/
  offset : UInt64
  /-- `sh_size`. -/
  size : UInt64
  /-- `sh_info`. -/
  info : UInt32
deriving DecidableEq, Repr

/-- A symbol. -/
structure Sym where
  /-- `st_name`, if it is in the string table. -/
  name : Option String
  /-- `st_shndx`. -/
  shndx : ℕ
  /-- `st_value`. -/
  value : UInt64
deriving DecidableEq, Repr

/-- A relocation entry. -/
structure Rela where
  /-- `r_offset`. -/
  offset : UInt64
  /-- Symbol index. -/
  sym : ℕ
  /-- Relocation type. -/
  type : UInt32
  /-- `r_addend`. -/
  addend : ℤ
deriving DecidableEq, Repr

/-- What the ELF parser reports. -/
structure Elf where
  /-- The class is 64-bit. -/
  is64 : Bool
  /-- `e_machine`. -/
  machine : UInt16
  /-- `e_entry`. -/
  entry : UInt64
  /-- `e_shoff`. -/
  shoff : UInt64
  /-- `e_shnum`. -/
  shnum : UInt16
  /-- `e_shentsize`. -/
  shentsize : UInt16
  /-- Program headers. -/
  programHeaders : List ProgramHeader
  /-- Section headers. -/
  sectionHeaders : List SectionHeader
  /-- Symbol table. -/
  syms : List Sym
  /-- Relocation sections, by index. -/
  shdrRelocs : List (ℕ × List Rela)
deriving DecidableEq, Repr

/-- Target architecture. -/
inductive Arch where
  /-- x86_64. -/
  | x86_64
  /-- aarch64. -/
  | aarch64
deriving DecidableEq, Repr

/-- Errors from kernel parsing. -/
inductive KernelError where
  /-- `kernel file too small ({0} bytes) to determine format`. -/
  | tooSmall (size : ℕ)
  /-- `kernel format not recognized. ...`. -/
  | unrecognized
  /-- `ELF kernel malformed: {0}`. -/
  | elfMalformed (msg : String)
  /-- `ELF kernel entry {entry:#x} is outside the loaded image (base {min_paddr:#x})`. -/
  | elfEntryOutOfRange (entry minPaddr : ℕ)
deriving DecidableEq, Repr

/-- ELF magic at offset zero. -/
def elfMagic : Bytes := [0x7f,0x45,0x4c,0x46]

/-- arm64 Image magic, at offset 56. -/
def arm64ImageMagic : ℕ := 0x644D5241

/-- `EM_X86_64`. -/
def emX86_64 : UInt16 := 62

/-- `PT_LOAD`. -/
def ptLoad : UInt32 := 1

/-- Placement of an ELF kernel. -/
structure ElfMeta where
  /-- Runtime footprint. -/
  allocSize : ℕ
  /-- Lowest physical address. -/
  minPaddr : ℕ
  /-- Offset of the entry in the image. -/
  entryOffset : ℕ
deriving DecidableEq, Repr

/-- Result of parsing a kernel file. -/
structure Parsed where
  /-- Architecture. -/
  arch : Arch
  /-- `image_size` of an arm64 Image. -/
  aarch64ImageSize : Option ℕ
  /-- Placement of an ELF kernel. -/
  elf : Option ElfMeta
deriving DecidableEq, Repr

/-- The physical span of the loadable segments. -/
structure ElfSpan where
  /-- Lowest `p_paddr`. -/
  minPaddr : ℕ
  /-- Highest `p_paddr + p_filesz`. -/
  maxFileEnd : ℕ
  /-- Highest `p_paddr + p_memsz`. -/
  maxMemEnd : ℕ
deriving DecidableEq, Repr

/-- The segment counts towards the span. -/
def ProgramHeader.spans (p : ProgramHeader) : Bool := decide (p.type=ptLoad) && decide (p.memsz≠0)

/-- The segment has bytes to load. -/
def ProgramHeader.loads (p : ProgramHeader) : Bool := decide (p.type=ptLoad) && decide (p.filesz≠0)

/-- Extend the span by one segment. -/
def spanStep (span : ElfSpan) (p : ProgramHeader) : Outcome KernelError ElfSpan :=
  if p.spans then do
    let fileEnd ← okOr (addWord 64 p.paddr.toNat p.filesz.toNat)
      (.elfMalformed "p_paddr + p_filesz overflows")
    let memEnd ← okOr (addWord 64 p.paddr.toNat p.memsz.toNat)
      (.elfMalformed "p_paddr + p_memsz overflows")
    .ok ⟨min span.minPaddr p.paddr.toNat,max span.maxFileEnd fileEnd,max span.maxMemEnd memEnd⟩
  else .ok span

/-- The loop over the segments. -/
def spanLoop : List ProgramHeader → ElfSpan → Outcome KernelError ElfSpan
  | [],span => .ok span
  | p::rest,span => do
    let span ← spanStep span p
    spanLoop rest span

/-- The span of all non-empty `PT_LOAD` segments. -/
def elfSpan (elf : Elf) : Outcome KernelError ElfSpan := do
  let span ← spanLoop elf.programHeaders ⟨2^64-1,0,0⟩
  if elf.programHeaders.any ProgramHeader.spans then .ok span
  else fail (.elfMalformed "no PT_LOAD segments")

/-- Run the ELF parser. -/
def parseElf (elfParse : Bytes → Option Elf) (bytes : Bytes) : Outcome KernelError Elf :=
  okOr (elfParse bytes) (.elfMalformed "goblin parse failed")

/-- Validate an ELF kernel. -/
def parseVmlinux (elf : Elf) : Outcome KernelError Parsed :=
  if !elf.is64 || decide (elf.machine≠emX86_64) then
    fail (.elfMalformed "not a 64-bit x86-64 ELF")
  else do
    let span ← elfSpan elf
    let alloc ← unwrap (subWord span.maxMemEnd span.minPaddr)
    let entryOffset ← okOr ((subWord elf.entry.toNat span.minPaddr).filter fun off =>
      decide (off<alloc)) (.elfEntryOutOfRange elf.entry.toNat span.minPaddr)
    .ok ⟨.x86_64,none,some ⟨alloc,span.minPaddr,entryOffset⟩⟩

/-- Detect and validate the architecture of a kernel. -/
def parse (elfParse : Bytes → Option Elf) (bytes : Bytes) : Outcome KernelError Parsed :=
  if bytes.length<64 then fail (.tooSmall bytes.length)
  else if slice 0 4 bytes=elfMagic then do
    let elf ← parseElf elfParse bytes
    parseVmlinux elf
  else if ofLE (slice 56 4 bytes)=arm64ImageMagic then
    .ok ⟨.aarch64,some (ofLE (slice 16 8 bytes)),none⟩
  else fail .unrecognized

/-- Copy the file bytes of one segment to its place in the image. -/
def loadSegment (bytes : Bytes) (minPaddr : ℕ) (image : Bytes) (p : ProgramHeader) :
    Outcome KernelError Bytes :=
  if p.loads then do
    let dst ← unwrap (subWord p.paddr.toNat minPaddr)
    let srcEnd ← okOr ((addWord 64 p.offset.toNat p.filesz.toNat).filter fun e =>
      decide (e≤bytes.length)) (.elfMalformed "p_offset + p_filesz out of file bounds")
    let dstEnd ← unwrap (addWord 64 dst p.filesz.toNat)
    if image.length<dstEnd then .error .panic
    else .ok (overwrite dst (slice p.offset.toNat (srcEnd-p.offset.toNat) bytes) image)
  else .ok image

/-- The loop over the segments. -/
def loadSegments (bytes : Bytes) (minPaddr : ℕ) : List ProgramHeader → Bytes →
    Outcome KernelError Bytes
  | [],image => .ok image
  | p::rest,image => do
    let image ← loadSegment bytes minPaddr image p
    loadSegments bytes minPaddr rest image

/-- Length up to the last byte that is not zero. -/
def contentEnd (image : Bytes) : ℕ := (image.reverse.dropWhile fun b => decide (b=0)).length

/-- `usize::next_multiple_of` a page. -/
def nextPage (n : ℕ) : ℕ := (n+0xfff)/0x1000*0x1000

/-- Largest allocation. -/
def maxAlloc : ℕ := 2^63-1

/-- Lower an ELF kernel to its flat image: the file bytes of the segments, cut
after the last page with contents. -/
def elfLoadImage (elfParse : Bytes → Option Elf) (bytes : Bytes) : Outcome KernelError Bytes := do
  let elf ← parseElf elfParse bytes
  let span ← elfSpan elf
  let len ← unwrap (subWord span.maxFileEnd span.minPaddr)
  if maxAlloc<len then .error .panic
  else do
    let image ← loadSegments bytes span.minPaddr elf.programHeaders (zeros len)
    .ok (image.take (min (nextPage (contentEnd image)) image.length))

/-- The segment loads the byte at a physical address. -/
def ProgramHeader.covers (p : ProgramHeader) (addr : ℕ) : Bool :=
  p.loads && decide (p.paddr.toNat≤addr) && decide (addr<p.paddr.toNat+p.filesz.toNat)

/-- The byte of the file that a segment loads at a physical address. -/
def ProgramHeader.byteAt (p : ProgramHeader) (bytes : Bytes) (addr : ℕ) : UInt8 :=
  (bytes[p.offset.toNat+(addr-p.paddr.toNat)]?).getD 0

/-- The byte loaded at a physical address: that of the last segment that covers
it, zero in the gaps. -/
def loadedByte (bytes : Bytes) (segments : List ProgramHeader) (addr : ℕ) : UInt8 :=
  ((segments.reverse.find? (·.covers addr)).map fun p => p.byteAt bytes addr).getD 0

/-- One segment overwrites the bytes it covers. -/
theorem loadSegment_ok {bytes image image' : Bytes} {minPaddr : ℕ} {p : ProgramHeader}
    (h : loadSegment bytes minPaddr image p=.ok image') :
    image'.length=image.length ∧ ∀ i < image.length, image'[i]?=
      if p.covers (minPaddr+i) then some (p.byteAt bytes (minPaddr+i)) else image[i]? := by
  unfold loadSegment at h
  split at h
  · rename_i hloads
    obtain ⟨dst,hdst,h⟩ := bind_ok.mp h
    obtain ⟨srcEnd,hsrc,h⟩ := bind_ok.mp h
    obtain ⟨dstEnd,hend,h⟩ := bind_ok.mp h
    obtain ⟨hle,rfl⟩ := subWord_some.mp (unwrap_ok.mp hdst)
    obtain ⟨hsum,hin⟩ := Option.filter_eq_some_iff.mp (okOr_ok.mp hsrc)
    obtain ⟨rfl,-⟩ := addWord_some.mp hsum
    obtain ⟨rfl,-⟩ := addWord_some.mp (unwrap_ok.mp hend)
    rw [decide_eq_true_eq] at hin
    split at h
    · cases h
    · rename_i hfit
      cases h
      have hlen : (slice p.offset.toNat p.filesz.toNat bytes).length=p.filesz.toNat :=
        length_slice hin
      have hroom : p.paddr.toNat-minPaddr+p.filesz.toNat ≤ image.length := by omega
      rw [Nat.add_sub_cancel_left]
      refine ⟨length_overwrite (by rwa [hlen]),?_⟩
      intro i hi
      rw [getElem?_overwrite (by rwa [hlen]),hlen,getElem?_slice]
      have hcovers : p.covers (minPaddr+i)=true ↔
          p.paddr.toNat-minPaddr ≤ i ∧ i<p.paddr.toNat-minPaddr+p.filesz.toNat := by
        simp only [ProgramHeader.covers,hloads,Bool.true_and,Bool.and_eq_true,decide_eq_true_eq]
        omega
      by_cases hc : p.covers (minPaddr+i)=true
      · have hrange := hcovers.mp hc
        rw [if_pos hrange,if_pos hc,if_pos (by omega)]
        have hindex : p.offset.toNat+(i-(p.paddr.toNat-minPaddr))=
            p.offset.toNat+(minPaddr+i-p.paddr.toNat) := by omega
        rw [ProgramHeader.byteAt,hindex,List.getElem?_eq_getElem (by omega),Option.getD_some]
      · rw [if_neg fun hrange => hc (hcovers.mpr hrange),if_neg hc]
  · rename_i hloads
    cases h
    refine ⟨rfl,fun i hi => ?_⟩
    have hc : p.covers (minPaddr+i)=false := by
      simp only [ProgramHeader.covers,Bool.eq_false_iff.mpr hloads,Bool.false_and]
    rw [if_neg (by rw [hc]; exact Bool.false_ne_true)]

/-- The loop leaves at each place the byte of the last segment that covers it. -/
theorem loadSegments_ok {bytes image image' : Bytes} {minPaddr : ℕ} {segments : List ProgramHeader}
    (h : loadSegments bytes minPaddr segments image=.ok image') :
    image'.length=image.length ∧ ∀ i < image.length, image'[i]?=
      ((segments.reverse.find? (·.covers (minPaddr+i))).map
        fun p => p.byteAt bytes (minPaddr+i)).or image[i]? := by
  induction segments generalizing image with
  | nil =>
    cases h
    exact ⟨rfl,fun i _ => rfl⟩
  | cons p rest ih =>
    obtain ⟨image1,hstep,h⟩ := bind_ok.mp h
    obtain ⟨hlen1,hbyte1⟩ := loadSegment_ok hstep
    obtain ⟨hlen,hbyte⟩ := ih h
    refine ⟨hlen.trans hlen1,fun i hi => ?_⟩
    rw [hbyte i (by omega),hbyte1 i hi,List.reverse_cons,List.find?_append]
    cases rest.reverse.find? (·.covers (minPaddr+i)) with
    | some q => rfl
    | none =>
      rw [List.find?_singleton]
      cases p.covers (minPaddr+i) <;> rfl

/-- A string has contents at or after a place exactly when it is shorter than
the length up to its last byte that is not zero. -/
theorem lt_contentEnd {image : Bytes} {n : ℕ} :
    n < contentEnd image ↔ ∃ i, n ≤ i ∧ ∃ b, image[i]?=some b ∧ b≠0 := by
  induction image using List.reverseRecOn with
  | nil =>
    constructor
    · intro h
      cases h
    · rintro ⟨i,-,b,hb,-⟩
      cases hb
  | append_singleton init b ih =>
    have hlast : (init++[b])[init.length]?=some b := List.getElem?_concat_length
    by_cases hb : b=0
    · have hsame : contentEnd (init++[b])=contentEnd init := by
        simp [contentEnd,hb]
      rw [hsame,ih]
      constructor
      · rintro ⟨i,hi,c,hc,hne⟩
        have hlt : i < init.length := List.getElem?_eq_some_iff.mp hc |>.1
        exact ⟨i,hi,c,by rwa [List.getElem?_append_left hlt],hne⟩
      · rintro ⟨i,hi,c,hc,hne⟩
        have hlt : i<(init++[b]).length := List.getElem?_eq_some_iff.mp hc |>.1
        rw [List.length_append,List.length_singleton] at hlt
        by_cases heq : i=init.length
        · rw [heq,hlast,Option.some.injEq] at hc
          exact absurd (hc.symm.trans hb) hne
        · exact ⟨i,hi,c,by rwa [List.getElem?_append_left (by omega)] at hc,hne⟩
    · have hfull : contentEnd (init++[b])=init.length+1 := by
        simp [contentEnd,hb]
      rw [hfull]
      constructor
      · intro h
        exact ⟨init.length,by omega,b,hlast,hb⟩
      · rintro ⟨i,hi,c,hc,-⟩
        have hlt : i<(init++[b]).length := List.getElem?_eq_some_iff.mp hc |>.1
        rw [List.length_append,List.length_singleton] at hlt
        omega

/-- A nonempty field ends within the first whole pages up to `n` exactly when
its last page starts before `n`. -/
theorem le_nextPage {o width n : ℕ} (hw : 0<width) :
    o+width≤nextPage n ↔ (o+width-1)/0x1000*0x1000<n := by
  unfold nextPage
  omega

/-- A field of the image is shipped: it ends with the bytes of a segment, and
its last page or a later one has a byte that is not zero. -/
def Shipped (elf : Elf) (bytes : Bytes) (span : ElfSpan) (o width : ℕ) : Prop :=
  span.minPaddr+o+width ≤ span.maxFileEnd ∧
    ∃ i, (o+width-1)/0x1000*0x1000 ≤ i ∧ span.minPaddr+i < span.maxFileEnd ∧
      loadedByte bytes elf.programHeaders (span.minPaddr+i)≠0

/-- The flat image holds exactly the shipped fields. -/
theorem elfLoadImage_length {elfParse : Bytes → Option Elf} {elf : Elf} {bytes image : Bytes}
    {span : ElfSpan} (h : elfLoadImage elfParse bytes=.ok image) (helf : elfParse bytes=some elf)
    (hspan : elfSpan elf=.ok span) {o width : ℕ} (hw : 0<width) :
    o+width ≤ image.length ↔ Shipped elf bytes span o width := by
  unfold elfLoadImage parseElf at h
  obtain ⟨elf',helf',h⟩ := bind_ok.mp h
  obtain rfl : elf=elf' := Option.some.inj (helf.symm.trans (okOr_ok.mp helf'))
  obtain ⟨span',hspan',h⟩ := bind_ok.mp h
  obtain rfl : span=span' := Except.ok.inj (hspan.symm.trans hspan')
  obtain ⟨len,hlen,h⟩ := bind_ok.mp h
  obtain ⟨hle,rfl⟩ := subWord_some.mp (unwrap_ok.mp hlen)
  split at h
  · cases h
  · obtain ⟨full,hfull,h⟩ := bind_ok.mp h
    cases h
    obtain ⟨hsize,hbyte⟩ := loadSegments_ok hfull
    rw [length_zeros] at hsize hbyte
    have hfit : o+width ≤ span.maxFileEnd-span.minPaddr ↔
        span.minPaddr+o+width ≤ span.maxFileEnd := by omega
    have hcontent : (∃ i, (o+width-1)/0x1000*0x1000 ≤ i ∧ ∃ b, full[i]?=some b ∧ b≠0) ↔
        ∃ i, (o+width-1)/0x1000*0x1000 ≤ i ∧ span.minPaddr+i < span.maxFileEnd ∧
          loadedByte bytes elf.programHeaders (span.minPaddr+i)≠0 := by
      refine exists_congr fun i => and_congr_right fun _ => ?_
      by_cases hi : i < span.maxFileEnd-span.minPaddr
      · have hsome : full[i]?=
            some (loadedByte bytes elf.programHeaders (span.minPaddr+i)) := by
          rw [hbyte i hi,loadedByte]
          have hzero : (zeros (span.maxFileEnd-span.minPaddr))[i]?=some 0 := by
            rw [zeros,List.getElem?_replicate,if_pos hi]
          rw [hzero]
          cases elf.programHeaders.reverse.find? (·.covers (span.minPaddr+i)) <;> rfl
        rw [hsome]
        constructor
        · rintro ⟨b,hb,hne⟩
          cases hb
          exact ⟨by omega,hne⟩
        · rintro ⟨-,hne⟩
          exact ⟨_,rfl,hne⟩
      · rw [List.getElem?_eq_none (by omega)]
        constructor
        · rintro ⟨b,hb,-⟩
          cases hb
        · rintro ⟨hlt,-⟩
          omega
    rw [List.length_take,min_eq_left (min_le_right _ _),le_min_iff,le_nextPage hw,lt_contentEnd,
      hcontent,hsize,hfit,and_comm,Shipped]

end Arma.Kernel.Image
