import Mathlib.Tactic.Common
import Mathlib.Tactic.Ring
import Arma.Base.Patch
import Arma.Kernel.Extract
import Arma.Kernel.Image
import Arma.Tatu.Kaslr

/-!
# Relocating is relinking

A relocated field holds a formula of its symbol, its addend and its place. The
extracted lists move exactly those fields whose value changes when the kernel
moves, so applying them yields the image that the linker would have made at the
new base.
-/

namespace Arma.Kernel.Relink

open Base.ByteString Base.Checked Base.Intervals Base.Patch Extract Image RelocTable Tatu.Kaslr

/-- Width of the field that a relocation type patches. -/
def fieldWidth (type : UInt32) : Option ℕ :=
  if type=rX86_64_64 ∨ type=rX86_64Pc64 then some 8
  else if type=rX86_64_32 ∨ type=rX86_64_32s ∨ isPc32 type=true then some 4
  else none

/-- The value of the type is relative to its place. -/
def isPcRelative (type : UInt32) : Bool := isPc32 type || decide (type=rX86_64Pc64)

/-- A relocated field of the image. -/
structure Field where
  /-- Offset in the image. -/
  offset : ℕ
  /-- Bytes. -/
  width : ℕ
  /-- The symbol. -/
  sym : Sym
  /-- The addend. -/
  addend : ℤ
  /-- Virtual address of the field. -/
  place : UInt64
  /-- The value is relative to the place. -/
  pcRelative : Bool
  /-- The symbol moves with the kernel. -/
  symMoves : Bool
  /-- The place moves with the kernel. -/
  placeMoves : Bool

/-- The bytes of the field. -/
def Field.region (f : Field) : Region ℕ := ⟨f.offset,f.offset+f.width⟩

/-- The linker's formula with everything that moves shifted by `delta`: `S+A`,
and `S+A-P` when relative. -/
def Field.linkValue (f : Field) (delta : ℤ) : ℤ :=
  (f.sym.value.toNat+if f.symMoves then delta else 0)+f.addend-
    if f.pcRelative then f.place.toNat+if f.placeMoves then delta else 0 else 0

/-- The field lies in the image and holds the formula, modulo its width. -/
def Field.Holds (f : Field) (image : Bytes) (delta : ℤ) : Prop :=
  f.offset+f.width ≤ image.length ∧
    (ofLE (slice f.offset f.width image) : ℤ)=(f.linkValue delta)%256^f.width

/-- Whether a field holds the formula can be checked. -/
instance (f : Field) (image : Bytes) (delta : ℤ) : Decidable (f.Holds image delta) :=
  inferInstanceAs (Decidable (_ ∧ _))

/-- The address that is loaded at the start of the image, when the segments are
linked `slide` above their physical addresses. -/
def imageBase (span : ElfSpan) (slide : UInt64) : UInt64 := slide+UInt64.ofNat span.minPaddr

/-- The field of an entry. -/
def fieldOf (elf : Elf) (percpu : PerCpu) (base : UInt64) (e : ℕ × Rela) : Option Field :=
  (fieldWidth e.2.type).bind fun width => (elf.syms[e.2.sym]?).map fun sym =>
    ⟨(place percpu e.1 e.2-base).toNat,width,sym,e.2.addend,place percpu e.1 e.2,
      isPcRelative e.2.type,moves percpu sym,decide (percpu.shndx≠some e.1)⟩

/-- The relocated fields of the sections of a kind. -/
def fieldsOf (keep : SectionHeader → Bool) (elf : Elf) (percpu : PerCpu) (base : UInt64) :
    List Field := (entriesOf keep elf).filterMap (fieldOf elf percpu base)

/-- A segment contains a section, in the file and in memory. -/
def containsSection (p : ProgramHeader) (s : SectionHeader) : Bool :=
  decide (p.offset.toNat ≤ s.offset.toNat) &&
    decide (s.offset.toNat+s.size.toNat≤p.offset.toNat+p.filesz.toNat) &&
    decide (p.vaddr.toNat ≤ s.addr.toNat) &&
    decide (s.addr.toNat+s.size.toNat≤p.vaddr.toNat+p.memsz.toNat)

/-- The segment of the per-CPU section of an SMP kernel. -/
def isPercpuSegment (elf : Elf) (percpu : PerCpu) (p : ProgramHeader) : Bool :=
  ((percpu.shndx.bind fun i => elf.sectionHeaders[i]?).map (containsSection p)).getD false

/-- The section is allocated. -/
def isAllocated (s : SectionHeader) : Bool := decide (s.flags &&& shfAlloc≠0)

/-- What the linker script of the kernel guarantees about the fields of the
sections of a kind. -/
structure LinkedKernel (keep : SectionHeader → Bool) (elf : Elf) (percpu : PerCpu)
    (span : ElfSpan) (slide : UInt64) (image : Bytes) : Prop where
  /-- The per-CPU section, if any. -/
  percpuSection : findPercpu elf=.ok percpu
  /-- The span of the segments. -/
  segments : elfSpan elf=.ok span
  /-- Every field holds its link-time value. -/
  holds : ∀ f∈fieldsOf keep elf percpu (imageBase span slide), f.Holds image 0
  /-- No two fields share a byte. -/
  separate : (fieldsOf keep elf percpu (imageBase span slide)).Pairwise fun f g =>
    f.region.Separate g.region
  /-- Relative fields lie outside the per-CPU section. -/
  relativePlace : ∀ f∈fieldsOf keep elf percpu (imageBase span slide), f.pcRelative=true →
    f.placeMoves=true
  /-- Relative fields name neither an undefined nor a constant symbol. -/
  relativeSym : ∀ f∈fieldsOf keep elf percpu (imageBase span slide), f.pcRelative=true →
    f.sym.shndx≠shnUndef ∧ isConstant f.sym=false
  /-- Every segment but the per-CPU one is linked at the same distance. -/
  uniform : ∀ p∈elf.programHeaders, p.spans=true → isPercpuSegment elf percpu p=false →
    p.vaddr-p.paddr=slide

/-- The image with every field holding its formula for the new base, and nothing
else changed. -/
structure Relinked (fields : List Field) (delta : ℤ) (image image' : Bytes) : Prop where
  /-- The length is kept. -/
  length : image'.length=image.length
  /-- Every field holds the formula. -/
  holds : ∀ f∈fields, f.Holds image' delta
  /-- Every other byte is kept. -/
  frame : ∀ i, (∀ f∈fields, i∉f.region.toSet) → image'[i]?=image[i]?

/-- How often the value of a field changes with the base. -/
def Field.shift (f : Field) : ℤ :=
  (if f.symMoves then 1 else 0)-if f.pcRelative && f.placeMoves then 1 else 0

/-- The patch that moves a field. -/
def Field.site (f : Field) (delta : ℤ) : Site :=
  ⟨f.offset,f.width,fun v => ((v+f.shift*delta)%256^f.width).toNat⟩

/-- The formula is linear in the distance. -/
theorem linkValue_shift (f : Field) (delta : ℤ) :
    f.linkValue delta=f.linkValue 0+f.shift*delta := by
  unfold Field.linkValue Field.shift
  cases f.symMoves <;> cases f.pcRelative <;> cases f.placeMoves <;>
    simp only [Bool.and_true,Bool.and_false,if_true,if_false,Bool.false_eq_true] <;> ring

/-- Moving a field that holds its formula makes it hold the moved one. -/
theorem site_update (f : Field) (v : ℕ) (delta : ℤ) (h : (v : ℤ)=f.linkValue 0%256^f.width) :
    (((f.site delta).update v%256^f.width : ℕ) : ℤ)=(f.linkValue delta)%256^f.width := by
  have hpos : (0 : ℤ)<256^f.width := Int.pow_pos (by decide)
  have hnonneg : 0≤(v+f.shift*delta)%256^f.width := Int.emod_nonneg _ hpos.ne'
  dsimp only [Field.site]
  rw [Int.natCast_mod,Int.toNat_of_nonneg hnonneg]
  push_cast
  rw [Int.emod_emod_of_dvd _ (dvd_refl _),h,Int.emod_add_emod,linkValue_shift f delta]

/-- Moving every field relinks the image. -/
theorem relinked_of_patched {fields : List Field} {delta : ℤ} {image image' : Bytes}
    (hholds : ∀ f∈fields, f.Holds image 0)
    (h : Patched (fields.map (·.site delta)) image image') : Relinked fields delta image image' := by
  refine ⟨h.length,?_,?_⟩
  · intro f hf
    obtain ⟨hin,hvalue⟩ := hholds f hf
    have hfield := h.field (f.site delta) (List.mem_map_of_mem hf)
    refine ⟨by rwa [h.length],?_⟩
    change ((f.site delta).field image' : ℤ)=_
    rw [hfield]
    exact site_update f _ delta hvalue
  · intro i hi
    refine h.frame i fun s hs => ?_
    obtain ⟨f,hf,rfl⟩ := List.mem_map.mp hs
    exact hi f hf

/-- Patching a field that does not move changes nothing. -/
theorem patch_of_shift_zero {f : Field} {delta : ℤ} {image : Bytes} (hshift : f.shift=0)
    (hin : f.offset+f.width ≤ image.length) : (f.site delta).patch image=image := by
  refine patch_eq_self ?_
  have hlt : (f.site delta).field image<256^f.width := ofLE_slice_lt hin
  have hvalue : (((f.site delta).field image : ℤ)+f.shift*delta)%256^f.width=
      (f.site delta).field image := by
    rw [hshift,zero_mul,add_zero]
    exact Int.emod_eq_of_lt (Int.natCast_nonneg _) (by exact_mod_cast hlt)
  change (((f.site delta).field image+f.shift*delta)%256^f.width).toNat%256^f.width=_
  rw [hvalue,Int.toNat_natCast,Nat.mod_eq_of_lt hlt]

/-- The patch of an extracted site. -/
def siteOf (delta : ℕ) (site : KindedSite) : Site :=
  match site.1 with
  | .relocs32 => site32 delta site.2
  | .relocs32neg => site32neg delta site.2
  | .relocs64 => site64 delta site.2

/-- The patch loops run over the extracted sites. -/
theorem sites_eq (r : Relocs) (delta : ℕ) : sites r delta=(allSites r).map (siteOf delta) := by
  unfold sites allSites
  rw [List.map_append,List.map_append,List.map_map,List.map_map,List.map_map]
  rfl

/-- The patch of a 64-bit or 32-bit site moves a field whose symbol moves. -/
theorem site_absolute {f : Field} {delta : ℕ} (hshift : f.shift=1) :
    f.site delta=⟨f.offset,f.width,fun v => (v+delta)%256^f.width⟩ := by
  unfold Field.site
  congr 1
  funext v
  rw [hshift,one_mul]
  exact_mod_cast Int.toNat_natCast ((v+delta)%256^f.width)

/-- The patch of an inverse site moves a field whose place moves. -/
theorem site_inverse {f : Field} {delta : ℕ} (hshift : f.shift=-1) (hwidth : f.width=4) :
    f.site delta=⟨f.offset,4,fun v => wrappingSub 32 v delta⟩ := by
  unfold Field.site
  rw [hwidth]
  congr 1
  funext v
  have hvalue : (v+f.shift*delta)%256^4=((wrappingSub 32 v delta : ℕ) : ℤ) := by
    rw [wrappingSub_cast,hshift]
    norm_num [sub_eq_add_neg]
  rw [hvalue,Int.toNat_natCast]

/-- The offset of a field whose address is in the image. -/
theorem offset_eq {text va : UInt64} {o : UInt32} (h : toImageOff text va=.ok o) :
    (va-text).toNat=o.toNat := by
  obtain ⟨hle,ho⟩ := toImageOff_ok h
  rw [UInt64.toNat_sub_of_le _ _ (UInt64.le_iff_toNat_le.mpr hle),ho]

/-- What an accepted entry records against its field: the patch that moves the
field, or nothing when the field does not move. -/
def EntrySite (elf : Elf) (percpu : PerCpu) (text : UInt64) (delta : ℕ) (e : ℕ × Rela)
    (site : Option KindedSite) : Prop :=
  (∃ s, site=some s ∧
    (fieldOf elf percpu text e).map (·.site delta)=some (siteOf delta s)) ∨
  (site=none ∧ ∀ f, fieldOf elf percpu text e=some f → f.shift=0)

/-- An absolute field moves with its symbol. -/
theorem shift_absolute {f : Field} (hrelative : f.pcRelative=false) :
    f.shift=if f.symMoves then 1 else 0 := by
  simp [Field.shift,hrelative]

/-- A relative field moves against its place, unless the symbol moves too. -/
theorem shift_relative {f : Field} (hrelative : f.pcRelative=true) (hplace : f.placeMoves=true) :
    f.shift=if f.symMoves then 0 else -1 := by
  cases hsym : f.symMoves <;> simp [Field.shift,hrelative,hplace,hsym]

/-- Absolute types are not relative. -/
theorem isPcRelative_of_isAbsolute {type : UInt32} (h : isAbsolute type=true) :
    isPcRelative type=false := by
  simp only [isAbsolute,Bool.or_eq_true,decide_eq_true_eq] at h
  rcases h with (rfl|rfl)|rfl <;> decide

/-- Relative 32-bit types have four bytes. -/
theorem fieldWidth_of_isPc32 {type : UInt32} (h : isPc32 type=true) : fieldWidth type=some 4 := by
  simp only [isPc32,Bool.or_eq_true,decide_eq_true_eq] at h
  rcases h with (rfl|rfl)|rfl <;> decide

/-- Absolute types have the width of their list. -/
theorem fieldWidth_of_isAbsolute {type : UInt32} (h : isAbsolute type=true) :
    fieldWidth type=some (if type=rX86_64_64 then 8 else 4) := by
  simp only [isAbsolute,Bool.or_eq_true,decide_eq_true_eq] at h
  rcases h with (rfl|rfl)|rfl <;> decide

/-- A type with a field is relative or absolute. -/
theorem isAbsolute_of_fieldWidth {type : UInt32} {width : ℕ} (h : fieldWidth type=some width)
    (hrelative : isPcRelative type=false) : isAbsolute type=true := by
  simp only [isPcRelative,Bool.or_eq_false_iff,decide_eq_false_iff_not] at hrelative
  unfold fieldWidth at h
  simp only [hrelative.1,hrelative.2,or_false,Bool.false_eq_true] at h
  unfold isAbsolute
  split at h
  · rename_i h64
    simp [h64]
  · split at h
    · rename_i h32
      rcases h32 with h32|h32 <;> simp [h32]
    · cases h

/-- The two ways to be recorded. -/
theorem recordedKind_some {percpu : PerCpu} {sym : Sym} {type : UInt32} {kind : SiteKind}
    (h : recordedKind percpu sym type=some kind) :
    kind=.relocs32neg ∧ isPc32 type=true ∧ moves percpu sym=false ∨
      isAbsolute type=true ∧ moves percpu sym=true ∧
        kind=(if type=rX86_64_64 then .relocs64 else .relocs32) := by
  unfold recordedKind at h
  split at h
  · rename_i hcond
    cases h
    simp only [Bool.and_eq_true] at hcond
    refine .inl ⟨rfl,hcond.1.1,?_⟩
    rw [moves,hcond.2,Bool.not_true,Bool.and_false]
  · split at h
    · rename_i hcond
      cases h
      rw [Bool.and_eq_true] at hcond
      exact .inr ⟨hcond.1,hcond.2,rfl⟩
    · cases h

/-- An unrecorded entry is absolute against a symbol that stays, or relative
against one that is no per-CPU variable. -/
theorem recordedKind_none {percpu : PerCpu} {sym : Sym} {type : UInt32}
    (h : recordedKind percpu sym type=none) :
    (isAbsolute type=true → moves percpu sym=false) ∧
      (isPc32 type=true → sym.shndx≠shnUndef →
        isPercpuSym sym.shndx (sym.name.getD "") percpu=false) := by
  unfold recordedKind at h
  split at h
  · cases h
  · rename_i hinverse
    split at h
    · cases h
    · rename_i habsolute
      constructor
      · intro habs
        rw [habs,Bool.true_and] at habsolute
        exact Bool.eq_false_iff.mpr habsolute
      · intro hpc hdef
        rw [hpc,decide_eq_true hdef,Bool.true_and,Bool.true_and] at hinverse
        exact Bool.eq_false_iff.mpr hinverse

/-- The field of an entry against a symbol. -/
def symField (percpu : PerCpu) (text : UInt64) (e : ℕ × Rela) (sym : Sym) (width : ℕ) : Field :=
  ⟨(place percpu e.1 e.2-text).toNat,width,sym,e.2.addend,place percpu e.1 e.2,
    isPcRelative e.2.type,moves percpu sym,decide (percpu.shndx≠some e.1)⟩

/-- The field moves with the symbol it is against. -/
theorem symField_symMoves (percpu : PerCpu) (text : UInt64) (e : ℕ × Rela) (sym : Sym) (width : ℕ) :
    (symField percpu text e sym width).symMoves=moves percpu sym := rfl

/-- A recorded field is moved by the patch of its site. -/
theorem symField_recorded {percpu : PerCpu} {text : UInt64} (delta : ℕ) {e : ℕ × Rela} {sym : Sym}
    {kind : SiteKind} {o : UInt32} (hkind : recordedKind percpu sym e.2.type=some kind)
    (ho : toImageOff text (place percpu e.1 e.2)=.ok o)
    (hplace : isPcRelative e.2.type=true → percpu.shndx≠some e.1) :
    ∃ width, fieldWidth e.2.type=some width ∧
      (symField percpu text e sym width).site delta=siteOf delta (kind,o) := by
  have hoffset := offset_eq ho
  rcases recordedKind_some hkind with ⟨rfl,hpc,hmoves⟩|⟨habs,hmoves,rfl⟩
  · have hrelative : isPcRelative e.2.type=true := by rw [isPcRelative,hpc,Bool.true_or]
    have hshift : (symField percpu text e sym 4).shift=-1 := by
      rw [shift_relative hrelative (decide_eq_true (hplace hrelative)),symField_symMoves,hmoves]
      rfl
    refine ⟨4,fieldWidth_of_isPc32 hpc,?_⟩
    rw [site_inverse hshift rfl]
    dsimp only [symField]
    rw [hoffset]
    rfl
  · have hshift : ∀ width, (symField percpu text e sym width).shift=1 := by
      intro width
      rw [shift_absolute (isPcRelative_of_isAbsolute habs),symField_symMoves,hmoves]
      rfl
    refine ⟨_,fieldWidth_of_isAbsolute habs,?_⟩
    rw [site_absolute (hshift _)]
    dsimp only [symField]
    rw [hoffset]
    by_cases h64 : e.2.type=rX86_64_64
    · rw [if_pos h64,if_pos h64]
      rfl
    · rw [if_neg h64,if_neg h64]
      rfl

/-- An unrecorded field stays. -/
theorem symField_unrecorded {percpu : PerCpu} {text : UInt64} {e : ℕ × Rela} {sym : Sym} {width : ℕ}
    (hkind : recordedKind percpu sym e.2.type=none) (hwidth : fieldWidth e.2.type=some width)
    (hpc64 : sym.shndx≠shnUndef → e.2.type=rX86_64Pc64 →
      isPercpuSym sym.shndx (sym.name.getD "") percpu=false)
    (hplace : isPcRelative e.2.type=true → percpu.shndx≠some e.1)
    (hsym : isPcRelative e.2.type=true → sym.shndx≠shnUndef ∧ isConstant sym=false) :
    (symField percpu text e sym width).shift=0 := by
  obtain ⟨habsolute,hinverse⟩ := recordedKind_none hkind
  cases hrelative : isPcRelative e.2.type with
  | true =>
    obtain ⟨hdef,hconst⟩ := hsym hrelative
    have hpercpu : isPercpuSym sym.shndx (sym.name.getD "") percpu=false := by
      rcases Bool.or_eq_true_iff.mp hrelative with hpc|hpc
      · exact hinverse hpc hdef
      · exact hpc64 hdef (of_decide_eq_true hpc)
    have hmoves : moves percpu sym=true := by simp [moves,hdef,hconst,hpercpu]
    rw [shift_relative hrelative (decide_eq_true (hplace hrelative)),symField_symMoves,hmoves]
    rfl
  | false =>
    have hmoves := habsolute (isAbsolute_of_fieldWidth hwidth hrelative)
    rw [shift_absolute hrelative,symField_symMoves,hmoves]
    rfl

/-- Every accepted entry records the patch that moves its field. -/
theorem entrySite_of_relocSite {elf : Elf} {percpu : PerCpu} {text : UInt64} (delta : ℕ)
    {e : ℕ × Rela} {site : Option KindedSite}
    (h : relocSite elf percpu text e.1 e.2=.ok site)
    (hplace : ∀ f, fieldOf elf percpu text e=some f → f.pcRelative=true → f.placeMoves=true)
    (hsym : ∀ f, fieldOf elf percpu text e=some f → f.pcRelative=true →
      f.sym.shndx≠shnUndef ∧ isConstant f.sym=false) : EntrySite elf percpu text delta e site := by
  obtain ⟨sym,hsymbol,hrecords,hpc64⟩ := relocSite_ok h
  have hfield : fieldOf elf percpu text e=
      (fieldWidth e.2.type).map (symField percpu text e sym) := by
    unfold fieldOf
    rw [hsymbol]
    cases fieldWidth e.2.type <;> rfl
  have hrelative : isPcRelative e.2.type=true → ∃ width, fieldWidth e.2.type=some width := by
    intro hrel
    rcases Bool.or_eq_true_iff.mp hrel with hpc|hpc
    · exact ⟨4,fieldWidth_of_isPc32 hpc⟩
    · exact ⟨8,if_pos (.inr (of_decide_eq_true hpc))⟩
  have hplace' : isPcRelative e.2.type=true → percpu.shndx≠some e.1 := by
    intro hrel
    obtain ⟨width,hwidth⟩ := hrelative hrel
    exact of_decide_eq_true (hplace (symField percpu text e sym width)
      (by rw [hfield,hwidth]; rfl) hrel)
  have hsym' : isPcRelative e.2.type=true → sym.shndx≠shnUndef ∧ isConstant sym=false := by
    intro hrel
    obtain ⟨width,hwidth⟩ := hrelative hrel
    exact hsym (symField percpu text e sym width) (by rw [hfield,hwidth]; rfl) hrel
  unfold EntrySite
  rw [hfield]
  unfold Records at hrecords
  split at hrecords
  · rename_i kind hkind
    obtain ⟨o,rfl,ho⟩ := hrecords
    obtain ⟨width,hwidth,hsite⟩ := symField_recorded delta hkind ho hplace'
    exact .inl ⟨(kind,o),rfl,by rw [hwidth,Option.map_some,Option.map_some,hsite]⟩
  · rename_i hkind
    refine .inr ⟨hrecords,?_⟩
    intro f hf
    obtain ⟨width,hwidth,rfl⟩ := Option.map_eq_some_iff.mp hf
    exact symField_unrecorded hkind hwidth hpc64 hplace' hsym'

/-- The extracted sites are some of the fields, in order. -/
theorem sites_sublist {elf : Elf} {percpu : PerCpu} {text : UInt64} {delta : ℕ}
    {entries : List (ℕ × Rela)} {recorded : List (Option KindedSite)}
    (h : List.Forall₂ (EntrySite elf percpu text delta) entries recorded) :
    (recorded.reduceOption.map (siteOf delta)).Sublist
      ((entries.filterMap (fieldOf elf percpu text)).map (·.site delta)) := by
  induction h with
  | nil => exact List.Sublist.refl _
  | @cons e site entries recorded hentry _ ih =>
    rcases hentry with ⟨s,rfl,hs⟩|⟨rfl,-⟩
    · obtain ⟨f,hf,hsite⟩ := Option.map_eq_some_iff.mp hs
      rw [List.filterMap_cons_some hf,List.map_cons,hsite,List.reduceOption_cons_of_some,
        List.map_cons]
      exact ih.cons_cons _
    · rw [List.reduceOption_cons_of_none]
      cases hf : fieldOf elf percpu text e with
      | none => rwa [List.filterMap_cons_none hf]
      | some f =>
        rw [List.filterMap_cons_some hf,List.map_cons]
        exact ih.cons _

/-- Patching the extracted sites is patching all fields. -/
theorem patchAll_fields {elf : Elf} {percpu : PerCpu} {text : UInt64} {delta : ℕ}
    {entries : List (ℕ × Rela)} {recorded : List (Option KindedSite)} {image : Bytes}
    (h : List.Forall₂ (EntrySite elf percpu text delta) entries recorded)
    (hin : ∀ f∈entries.filterMap (fieldOf elf percpu text), f.offset+f.width ≤ image.length) :
    patchAll ((entries.filterMap (fieldOf elf percpu text)).map (·.site delta)) image=
      patchAll (recorded.reduceOption.map (siteOf delta)) image := by
  induction h generalizing image with
  | nil => rfl
  | @cons e site entries recorded hentry _ ih =>
    rcases hentry with ⟨s,rfl,hs⟩|⟨rfl,hstay⟩
    · obtain ⟨f,hf,hsite⟩ := Option.map_eq_some_iff.mp hs
      rw [List.filterMap_cons_some hf] at hin ⊢
      rw [List.map_cons,hsite,List.reduceOption_cons_of_some,List.map_cons]
      refine ih fun g hg => ?_
      rw [length_patch]
      exact hin g (List.mem_cons_of_mem _ hg)
    · rw [List.reduceOption_cons_of_none]
      cases hf : fieldOf elf percpu text e with
      | none =>
        rw [List.filterMap_cons_none hf] at hin ⊢
        exact ih hin
      | some f =>
        rw [List.filterMap_cons_some hf] at hin ⊢
        have hself : (f.site delta).patch image=image :=
          patch_of_shift_zero (hstay f hf) (hin f List.mem_cons_self)
        rw [List.map_cons]
        change patchAll _ ((f.site delta).patch image)=_
        rw [hself]
        exact ih fun g hg => hin g (List.mem_cons_of_mem _ hg)

/-- The link base is that of the image when the lowest segment is linked like
the others. -/
theorem textVaddr_eq {elf : Elf} {percpu : PerCpu} {span : ElfSpan} {slide text : UInt64}
    (huniform : ∀ p∈elf.programHeaders, p.spans=true → isPercpuSegment elf percpu p=false →
      p.vaddr-p.paddr=slide)
    (hlowest : ∀ p, textSegment elf span=some p → isPercpuSegment elf percpu p=false)
    (htext : textVaddr elf span=.ok text) : text=imageBase span slide := by
  obtain ⟨p,hp,rfl⟩ := Option.map_eq_some_iff.mp (okOr_ok.mp htext)
  have hmem := List.mem_of_find?_eq_some hp
  have hcond := List.find?_some hp
  rw [Bool.and_eq_true,decide_eq_true_eq] at hcond
  have hslide := huniform p hmem hcond.1 (hlowest p hp)
  rw [imageBase,←hcond.2,UInt64.ofNat_toNat,←hslide,UInt64.sub_add_cancel]

/-- Applying the extracted lists of a linked kernel whose lowest segment is not
the per-CPU one relinks its image at the new base, whatever the distance. -/
theorem patchKernel_relinked {elfParse : Bytes → Option Elf} {bytes : Bytes} {elf : Elf}
    {percpu : PerCpu} {span : ElfSpan} {slide : UInt64} {image : Bytes} {r : Relocs}
    (helf : elfParse bytes=some elf) (hrela : elf.shdrRelocs≠[])
    (hextract : extractRelocs elfParse bytes=.ok r)
    (hlinked : LinkedKernel isWalked elf percpu span slide image)
    (hlowest : ∀ p, textSegment elf span=some p → isPercpuSegment elf percpu p=false) (delta : ℕ) :
    Relinked (fieldsOf isWalked elf percpu (imageBase span slide)) delta image
      (patchKernel r delta image) := by
  obtain ⟨elf',helf',h⟩ := bind_ok.mp hextract
  obtain rfl : elf=elf' := Option.some.inj (helf.symm.trans (okOr_ok.mp helf'))
  rw [if_neg fun hempty => hrela (List.isEmpty_iff.mp hempty)] at h
  obtain ⟨span',hspan,h⟩ := bind_ok.mp h
  obtain rfl : span=span' := Except.ok.inj (hlinked.segments.symm.trans hspan)
  obtain ⟨percpu',hpercpu,h⟩ := bind_ok.mp h
  obtain rfl : percpu=percpu' := Except.ok.inj (hlinked.percpuSection.symm.trans hpercpu)
  obtain ⟨text,htext,h⟩ := bind_ok.mp h
  obtain rfl := textVaddr_eq hlinked.uniform hlowest htext
  obtain ⟨recorded,hrecorded,rfl⟩ := extractSections_ok h
  have hentries : List.Forall₂ (EntrySite elf percpu (imageBase span slide) delta)
      (entriesOf isWalked elf) recorded := by
    have hmem := (List.forall₂_and_left (p := (·∈entriesOf isWalked elf)) _ _).mpr
      ⟨fun e he => he,hrecorded⟩
    refine List.Forall₂.imp (fun e site hboth => ?_) hmem
    obtain ⟨he,hsite⟩ := hboth
    refine entrySite_of_relocSite delta hsite (fun f hf => ?_) (fun f hf => ?_)
    · exact hlinked.relativePlace f (List.mem_filterMap.mpr ⟨e,he,hf⟩)
    · exact hlinked.relativeSym f (List.mem_filterMap.mpr ⟨e,he,hf⟩)
  have hin : ∀ f∈fieldsOf isWalked elf percpu (imageBase span slide),
      f.offset+f.width ≤ image.length := fun f hf => (hlinked.holds f hf).1
  have hinside : ∀ s∈(fieldsOf isWalked elf percpu (imageBase span slide)).map (·.site delta),
      s.Inside image.length := by
    intro s hs
    obtain ⟨f,hf,rfl⟩ := List.mem_map.mp hs
    exact hin f hf
  have hseparate : ((fieldsOf isWalked elf percpu (imageBase span slide)).map
      (·.site (delta : ℤ))).Pairwise fun s t => s.region.Separate t.region :=
    List.pairwise_map.mpr hlinked.separate
  have hsub := sites_sublist hentries
  have hperm : (sites (recorded.reduceOption.foldl push ⟨[],[],[]⟩) delta).Perm
      (recorded.reduceOption.map (siteOf delta)) := by
    rw [sites_eq]
    exact (allSites_foldl_push _ _).map _
  have hrun : patchKernel (recorded.reduceOption.foldl push ⟨[],[],[]⟩) delta image=
      patchAll ((fieldsOf isWalked elf percpu (imageBase span slide)).map (·.site delta)) image := by
    rw [patchKernel_eq,fieldsOf,patchAll_fields hentries hin]
    refine (patchAll_perm hperm.symm (hseparate.sublist hsub) fun s hs => ?_).symm
    exact hinside s (hsub.subset hs)
  rw [hrun]
  exact relinked_of_patched hlinked.holds (patchAll_patched hseparate hinside)

/-- Fields that do not overlap share no byte. -/
theorem separate_of_overlaps {fields : List Field}
    (h : fields.Pairwise fun f g => f.region.overlaps g.region=false) :
    fields.Pairwise fun f g => f.region.Separate g.region :=
  h.imp separate_of_overlaps_false

/-- A file with the given contents behind the headers of one or two segments. -/
def sampleFile (contents : Bytes) : Bytes := elfMagic++zeros 116++contents

/-- The null section. -/
def nullSection : SectionHeader := ⟨none,0,0,0,0,0,0⟩

/-- A kernel with absolute, inverse and per-CPU fields and an `S_REL` symbol. -/
def sampleElf : Elf :=
  ⟨true,emX86_64,0x1000,0,5,64,
    [⟨ptLoad,120,0x401000,0x1000,24,24⟩,⟨ptLoad,144,0,0x1018,8,8⟩],
    [nullSection,⟨some ".data..percpu",1,2,0,144,8,0⟩,⟨some ".text",1,6,0x401000,120,24,0⟩,
      ⟨some ".rela.text",4,0,0,0,0,2⟩,⟨some ".rela.data..percpu",4,0,0,0,0,1⟩],
    [⟨none,0,0⟩,⟨some "start",2,0x401000⟩,⟨some "counter",1,4⟩,
      ⟨some "__per_cpu_load",0xfff1,0x401018⟩],
    [(3,[⟨0x401000,1,1,0⟩,⟨0x401008,1,10,4⟩,⟨0x40100c,2,2,-4⟩,⟨0x401010,3,1,0⟩]),
      (4,[⟨0,1,1,0⟩])]⟩

/-- Its image. -/
def sampleImage : Bytes :=
  leBytes 8 0x401000++leBytes 4 0x401004++leBytes 4 0xffbfeff4++leBytes 8 0x401018++
    leBytes 8 0x401000

/-- The sample is relinked one 2 MiB unit higher. -/
theorem patchKernel_relinked_sample :
    Relinked (fieldsOf isWalked sampleElf ⟨some 1,0x401018⟩
        (imageBase ⟨0x1000,0x1020,0x1020⟩ 0x400000)) (0x200000 : ℕ) sampleImage
      (patchKernel ⟨[8],[12],[0,16,24]⟩ 0x200000 sampleImage) := by
  have hlinked : LinkedKernel isWalked sampleElf ⟨some 1,0x401018⟩ ⟨0x1000,0x1020,0x1020⟩ 0x400000
      sampleImage := by
    refine ⟨?_,?_,?_,separate_of_overlaps ?_,?_,?_,?_⟩
    all_goals decide +kernel
  have hextract : extractRelocs (fun _ => some sampleElf) (sampleFile sampleImage)=
      .ok ⟨[8],[12],[0,16,24]⟩ := by decide +kernel
  have hlowest : ∀ p, textSegment sampleElf ⟨0x1000,0x1020,0x1020⟩=some p →
      isPercpuSegment sampleElf ⟨some 1,0x401018⟩ p=false := by
    intro p hp
    obtain rfl : (⟨ptLoad,120,0x401000,0x1000,24,24⟩ : ProgramHeader)=p := Option.some.inj hp
    decide
  exact patchKernel_relinked rfl (by decide) hextract hlinked hlowest 0x200000

/-- The lists of a kernel relink its image, for the sections of a kind. -/
def Relinks (keep : SectionHeader → Bool) (elf : Elf) (bytes : Bytes) (delta : ℕ) : Prop :=
  ∀ percpu span slide image r, extractRelocs (fun _ => some elf) bytes=.ok r →
    elfLoadImage (fun _ => some elf) bytes=.ok image →
    LinkedKernel keep elf percpu span slide image →
    Relinked (fieldsOf keep elf percpu (imageBase span slide)) delta image
      (patchKernel r delta image)

/-- A kernel with a relocated note. -/
def noteElf : Elf :=
  ⟨true,emX86_64,0x1000,0,3,64,[⟨ptLoad,120,0x401000,0x1000,8,8⟩],
    [nullSection,⟨some ".notes",7,2,0x401000,120,8,0⟩,⟨some ".rela.notes",4,0,0,0,0,1⟩],
    [⟨none,0,0⟩,⟨some "start",1,0x401000⟩],[(2,[⟨0x401000,1,1,0⟩])]⟩

/-- A kernel whose per-CPU segment is loaded below its text. -/
def lowElf : Elf :=
  ⟨true,emX86_64,0x1008,0,4,64,
    [⟨ptLoad,120,0,0x1000,8,8⟩,⟨ptLoad,128,0x401008,0x1008,8,8⟩],
    [nullSection,⟨some ".data..percpu",1,2,0,120,8,0⟩,⟨some ".text",1,6,0x401008,128,8,0⟩,
      ⟨some ".rela.text",4,0,0,0,0,2⟩],
    [⟨none,0,0⟩,⟨some "start",2,0x401008⟩,⟨some "__per_cpu_load",0xfff1,0x401000⟩],
    [(3,[⟨0x401008,1,1,0⟩])]⟩

/-- A relocated note is not moved, and neither is the text above a per-CPU segment
at the lowest address. -/
theorem not_relinks : ¬Relinks isAllocated noteElf (sampleFile (leBytes 8 0x401000)) 0x200000 ∧
    ¬Relinks isAllocated lowElf (sampleFile (leBytes 8 1++leBytes 8 0x401008)) 0x200000 := by
  constructor
  · intro h
    have hlinked : LinkedKernel isAllocated noteElf ⟨none,0⟩ ⟨0x1000,0x1008,0x1008⟩ 0x400000
        (leBytes 8 0x401000) := by
      refine ⟨?_,?_,?_,separate_of_overlaps ?_,?_,?_,?_⟩
      all_goals decide +kernel
    have hmoved := (h ⟨none,0⟩ ⟨0x1000,0x1008,0x1008⟩ 0x400000 (leBytes 8 0x401000) ⟨[],[],[]⟩
      (by decide +kernel) (by decide +kernel) hlinked).holds
    revert hmoved
    decide +kernel
  · intro h
    have hlinked : LinkedKernel isAllocated lowElf ⟨some 1,0x401000⟩ ⟨0x1000,0x1010,0x1010⟩
        0x400000 (leBytes 8 1++leBytes 8 0x401008) := by
      refine ⟨?_,?_,?_,separate_of_overlaps ?_,?_,?_,?_⟩
      all_goals decide +kernel
    have hmoved := (h ⟨some 1,0x401000⟩ ⟨0x1000,0x1010,0x1010⟩ 0x400000
      (leBytes 8 1++leBytes 8 0x401008) ⟨[],[],[0x401008]⟩
      (by decide +kernel) (by decide +kernel) hlinked).holds
    revert hmoved
    decide +kernel

end Arma.Kernel.Relink
