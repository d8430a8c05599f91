import Mathlib.Tactic.Common
import Arma.Kernel.Extract
import Arma.Kernel.Image

/-!
# Sites and the shipped image

The extractor bounds sites by 32 bits or by the memory size of the segments,
the image is cut to the file contents. A site is patchable exactly when its
field ends with the bytes of the segments, at or before the last page that has
any.
-/

namespace Arma.Kernel.Coverage

open Base.ByteString Base.Checked Extract Image RelocTable

/-- What the build takes from an ELF kernel: its parsed headers, its flat image
and its relocation sites, of which there must be some. -/
structure Accepted (elfParse : Bytes → Option Elf) (bytes : Bytes) (elf : Elf) (image : Bytes)
    (r : Relocs) : Prop where
  /-- The parser reports the headers. -/
  parsed : elfParse bytes=some elf
  /-- The kernel is a valid `vmlinux`. -/
  valid : ∃ p, parse elfParse bytes=.ok p ∧ p.elf.isSome=true
  /-- It is lowered to the image. -/
  lowered : elfLoadImage elfParse bytes=.ok image
  /-- The sites are extracted. -/
  extracted : extractRelocs elfParse bytes=.ok r
  /-- There is at least one. -/
  some : r.isEmpty=false

/-- Every site can be sliced out of an image of the given length. -/
structure Patchable (r : Relocs) (kernelSize : ℕ) : Prop where
  /-- 64-bit sites. -/
  relocs64 : ∀ o∈r.relocs64, o.toNat+8≤kernelSize
  /-- 32-bit sites. -/
  relocs32 : ∀ o∈r.relocs32, o.toNat+4≤kernelSize
  /-- Inverse sites. -/
  relocs32neg : ∀ o∈r.relocs32neg, o.toNat+4≤kernelSize

/-- The lists that the words of an appended table belong to, by their number. -/
def appendedKinds : ℕ → List SiteKind
  | 2 => [.relocs32,.relocs64]
  | 3 => [.relocs32,.relocs32neg,.relocs64]
  | _ => []

/-- A relocation of the kernel that a loader must apply, with the offset of its
field from the link base. -/
inductive Recorded (elf : Elf) (bytes : Bytes) (text : UInt64) : SiteKind → ℕ → Prop
  /-- An entry of a relocation section. -/
  | rela {percpu : PerCpu} {e : ℕ × Rela} {sym : Sym} {kind : SiteKind}
    (hrela : elf.shdrRelocs≠[]) (hpercpu : findPercpu elf=.ok percpu)
    (hentry : e∈entriesOf isWalked elf) (hsym : elf.syms[e.2.sym]?=some sym)
    (hkind : recordedKind percpu sym e.2.type=some kind) :
    Recorded elf bytes text kind ((place percpu e.1 e.2).toNat-text.toNat)
  /-- A word of the appended table. -/
  | appended {kind : SiteKind} {words : List UInt32} {v : UInt32}
    (hnone : elf.shdrRelocs=[])
    (hlist : (kind,words)∈(appendedKinds (tableLists elf bytes).length).zip (tableLists elf bytes))
    (hword : v∈words) : Recorded elf bytes text kind (signExtend v-text.toNat)

/-- Every relocation has a field that is shipped. -/
def AllShipped (elf : Elf) (bytes : Bytes) : Prop :=
  ∀ span text, elfSpan elf=.ok span → textVaddr elf span=.ok text →
    ∀ kind o, Recorded elf bytes text kind o → Shipped elf bytes span o kind.width

/-- Sites are patchable exactly when every field ends inside the image. -/
theorem patchable_iff {r : Relocs} {n : ℕ} :
    Patchable r n ↔ ∀ site∈allSites r, site.2.toNat+site.1.width≤n := by
  constructor
  · intro h site hsite
    simp only [allSites,List.mem_append,List.mem_map] at hsite
    rcases hsite with (⟨o,ho,rfl⟩|⟨o,ho,rfl⟩)|⟨o,ho,rfl⟩
    · exact h.relocs64 o ho
    · exact h.relocs32neg o ho
    · exact h.relocs32 o ho
  · intro h
    refine ⟨fun o ho => h (.relocs64,o) ?_,fun o ho => h (.relocs32,o) ?_,
      fun o ho => h (.relocs32neg,o) ?_⟩ <;> simp [allSites,ho]

/-- The offset of a word of the appended table. -/
theorem appendedSite_ok {text : UInt64} {size : ℕ} {v o : UInt32}
    (h : appendedSite text size v=.ok o) : o.toNat=signExtend v-text.toNat := by
  unfold appendedSite at h
  obtain ⟨n,hn,rfl⟩ := Option.map_eq_some_iff.mp (okOr_ok.mp h)
  obtain ⟨hsite,hlt⟩ := Option.filter_eq_some_iff.mp hn
  obtain ⟨hsub,-⟩ := Option.filter_eq_some_iff.mp hsite
  obtain ⟨-,rfl⟩ := subWord_some.mp hsub
  rw [decide_eq_true_eq] at hlt
  exact UInt32.toNat_ofNat_of_lt' hlt

/-- The extracted sites are exactly the recorded relocations. -/
def Exact (elf : Elf) (bytes : Bytes) (text : UInt64) (r : Relocs) : Prop :=
  ∀ kind n, Recorded elf bytes text kind n ↔ ∃ o, (kind,o)∈allSites r ∧ o.toNat=n

/-- The sites from relocation sections are exact. -/
theorem extractSections_exact {elf : Elf} {bytes : Bytes} {percpu : PerCpu} {text : UInt64}
    {r : Relocs} (hrela : elf.shdrRelocs≠[]) (hpercpu : findPercpu elf=.ok percpu)
    (h : extractSections elf percpu text elf.shdrRelocs ⟨[],[],[]⟩=.ok r) :
    Exact elf bytes text r := by
  obtain ⟨sites,hsites,rfl⟩ := extractSections_ok h
  have hmem : ∀ site, site∈allSites (sites.reduceOption.foldl push ⟨[],[],[]⟩) ↔
      some site∈sites := by
    intro site
    rw [(allSites_foldl_push _ _).mem_iff,←List.reduceOption_mem_iff]
    rfl
  intro kind n
  constructor
  · rintro (⟨-,hpercpu',hentry,hsym,hkind⟩|⟨hnone,-,-⟩)
    · rename_i percpu' e sym
      obtain rfl : percpu=percpu' := Except.ok.inj (hpercpu.symm.trans hpercpu')
      obtain ⟨site,hsite,hrel⟩ := forall₂_mem hsites hentry
      obtain ⟨sym',hsym',hrecords,-⟩ := relocSite_ok hrel
      obtain rfl : sym=sym' := Option.some.inj (hsym.symm.trans hsym')
      unfold Records at hrecords
      rw [hkind] at hrecords
      obtain ⟨o,rfl,ho⟩ := hrecords
      exact ⟨o,(hmem _).mpr hsite,(toImageOff_ok ho).2⟩
    · exact absurd hnone hrela
  · rintro ⟨o,ho,rfl⟩
    obtain ⟨e,hentry,hrel⟩ := forall₂_mem hsites.flip ((hmem _).mp ho)
    obtain ⟨sym,hsym,hrecords,-⟩ := relocSite_ok hrel
    unfold Records at hrecords
    split at hrecords
    · rename_i kind' hkind
      obtain ⟨o',heq,ho'⟩ := hrecords
      simp only [Option.some.injEq,Prod.mk.injEq] at heq
      obtain ⟨rfl,rfl⟩ := heq
      rw [(toImageOff_ok ho').2]
      exact .rela hrela hpercpu hentry hsym hkind
    · cases hrecords

/-- The words of one list and its sites have the same offsets. -/
theorem list_offsets {text : UInt64} {size n : ℕ} {words sites : List UInt32}
    (h : List.Forall₂ (fun v o => appendedSite text size v=.ok o) words sites) :
    (∃ v∈words, signExtend v-text.toNat=n) ↔ ∃ o∈sites, o.toNat=n := by
  constructor
  · rintro ⟨v,hv,rfl⟩
    obtain ⟨o,ho,hsite⟩ := forall₂_mem h hv
    exact ⟨o,ho,appendedSite_ok hsite⟩
  · rintro ⟨o,ho,rfl⟩
    obtain ⟨v,hv,hsite⟩ := forall₂_mem h.flip ho
    exact ⟨v,hv,(appendedSite_ok hsite).symm⟩

/-- The lists of an appended table are recorded under the kinds of their number. -/
theorem appendedRelocs_sites {lists : List (List UInt32)} {r : Relocs}
    (h : appendedRelocs lists=.ok r) (kind : SiteKind) (o : UInt32) :
    (kind,o)∈allSites r ↔
      ∃ sites, (kind,sites)∈(appendedKinds lists.length).zip lists ∧ o∈sites := by
  unfold appendedRelocs at h
  split at h
  · cases h
    cases kind <;> simp [allSites,appendedKinds]
  · cases h
    cases kind <;> simp [allSites,appendedKinds]
  · exact absurd h fail_ne_ok

/-- Lists matched in order have matching members under the same kind. -/
theorem zip_offsets {text : UInt64} {size n : ℕ} {kind : SiteKind} {kinds : List SiteKind}
    {words sites : List (List UInt32)}
    (h : List.Forall₂ (List.Forall₂ fun v o => appendedSite text size v=.ok o) words sites) :
    (∃ ws, (kind,ws)∈kinds.zip words ∧ ∃ v∈ws, signExtend v-text.toNat=n) ↔
      ∃ l, (kind,l)∈kinds.zip sites ∧ ∃ o∈l, o.toNat=n := by
  induction h generalizing kinds with
  | nil => simp
  | cons hhead _ ih =>
    cases kinds with
    | nil => simp
    | cons k kinds =>
      simp only [List.zip_cons_cons,List.mem_cons,Prod.mk.injEq,or_and_right,exists_or,
        and_assoc,exists_and_left,exists_eq_left,ih,list_offsets hhead]

/-- The sites from an appended table are exact. -/
theorem extractAppendedRelocs_exact {elf : Elf} {bytes : Bytes} {span : ElfSpan} {text : UInt64}
    {r : Relocs} (hnone : elf.shdrRelocs=[]) (hspan : elfSpan elf=.ok span)
    (htext : textVaddr elf span=.ok text) (h : extractAppendedRelocs elf bytes=.ok r) :
    Exact elf bytes text r := by
  have hrecorded : ∀ kind n, Recorded elf bytes text kind n ↔
      ∃ ws, (kind,ws)∈(appendedKinds (tableLists elf bytes).length).zip (tableLists elf bytes) ∧
        ∃ v∈ws, signExtend v-text.toNat=n := by
    intro kind n
    constructor
    · rintro (⟨hrela,-,-,-,-⟩|⟨-,hlist,hword⟩)
      · exact absurd hnone hrela
      · exact ⟨_,hlist,_,hword,rfl⟩
    · rintro ⟨ws,hlist,v,hword,rfl⟩
      exact .appended hnone hlist hword
  obtain ⟨span',hspan',h⟩ := bind_ok.mp h
  obtain rfl : span=span' := Except.ok.inj (hspan.symm.trans hspan')
  obtain ⟨text',htext',h⟩ := bind_ok.mp h
  obtain rfl : text=text' := Except.ok.inj (htext.symm.trans htext')
  intro kind n
  rw [hrecorded]
  split at h
  · -- the file ends with the ELF: no words, no lists, no sites
    rename_i hend
    cases h
    have hwords : appendedWords elf bytes=[] := by
      rw [appendedWords,Nat.sub_eq_zero_of_le hend]
      rfl
    have hlists : tableLists elf bytes=[] := by
      rw [tableLists,hwords]
      rfl
    simp [hlists,allSites]
  · obtain ⟨lists,hlists,h⟩ := bind_ok.mp h
    have hsplit : List.Forall₂ (List.Forall₂ fun v o =>
        appendedSite text (span.maxMemEnd-span.minPaddr) v=.ok o) (tableLists elf bytes) lists :=
      splitTable_ok hlists List.Forall₂.nil List.Forall₂.nil
    rw [zip_offsets hsplit,hsplit.length_eq]
    simp only [appendedRelocs_sites h]
    constructor
    · rintro ⟨l,hl,o,ho,rfl⟩
      exact ⟨o,⟨l,hl,ho⟩,rfl⟩
    · rintro ⟨o,⟨l,hl,ho⟩,rfl⟩
      exact ⟨l,hl,o,ho,rfl⟩

/-- The sites of an accepted kernel are exact. -/
theorem extractRelocs_exact {elfParse : Bytes → Option Elf} {bytes : Bytes} {elf : Elf}
    {span : ElfSpan} {text : UInt64} {r : Relocs} (helf : elfParse bytes=some elf)
    (hspan : elfSpan elf=.ok span) (htext : textVaddr elf span=.ok text)
    (h : extractRelocs elfParse bytes=.ok r) : Exact elf bytes text r := by
  obtain ⟨elf',helf',h⟩ := bind_ok.mp h
  obtain rfl : elf=elf' := Option.some.inj (helf.symm.trans (okOr_ok.mp helf'))
  split at h
  · rename_i hempty
    exact extractAppendedRelocs_exact (List.isEmpty_iff.mp hempty) hspan htext h
  · rename_i hrela
    obtain ⟨span',hspan',h⟩ := bind_ok.mp h
    obtain rfl : span=span' := Except.ok.inj (hspan.symm.trans hspan')
    obtain ⟨percpu,hpercpu,h⟩ := bind_ok.mp h
    obtain ⟨text',htext',h⟩ := bind_ok.mp h
    obtain rfl : text=text' := Except.ok.inj (htext.symm.trans htext')
    exact extractSections_exact (fun hnil => hrela (List.isEmpty_iff.mpr hnil)) hpercpu h

/-- Extraction succeeds only for a kernel with a span and a link base. -/
theorem extractRelocs_base {elfParse : Bytes → Option Elf} {bytes : Bytes} {elf : Elf} {r : Relocs}
    (helf : elfParse bytes=some elf) (h : extractRelocs elfParse bytes=.ok r) :
    ∃ span text, elfSpan elf=.ok span ∧ textVaddr elf span=.ok text := by
  obtain ⟨elf',helf',h⟩ := bind_ok.mp h
  obtain rfl : elf=elf' := Option.some.inj (helf.symm.trans (okOr_ok.mp helf'))
  split at h
  · obtain ⟨span,hspan,h⟩ := bind_ok.mp h
    obtain ⟨text,htext,-⟩ := bind_ok.mp h
    exact ⟨span,text,hspan,htext⟩
  · obtain ⟨span,hspan,h⟩ := bind_ok.mp h
    obtain ⟨percpu,-,h⟩ := bind_ok.mp h
    obtain ⟨text,htext,-⟩ := bind_ok.mp h
    exact ⟨span,text,hspan,htext⟩

/-- The fields have bytes. -/
theorem width_pos (kind : SiteKind) : 0<kind.width := by cases kind <;> decide

/-- Every site of an accepted kernel is patchable in the shipped image exactly
when every relocation has its field in the shipped part. -/
theorem patchable_iff_allShipped {elfParse : Bytes → Option Elf} {bytes image : Bytes} {elf : Elf}
    {r : Relocs} (h : Accepted elfParse bytes elf image r) :
    Patchable r image.length ↔ AllShipped elf bytes := by
  obtain ⟨span,text,hspan,htext⟩ := extractRelocs_base h.parsed h.extracted
  have hexact := extractRelocs_exact h.parsed hspan htext h.extracted
  have hfit : ∀ (kind : SiteKind) (o : ℕ),
      o+kind.width ≤ image.length ↔ Shipped elf bytes span o kind.width := fun kind o =>
    elfLoadImage_length h.lowered h.parsed hspan (width_pos kind)
  rw [patchable_iff]
  constructor
  · intro hpatch span' text' hspan' htext' kind n hn
    obtain rfl : span=span' := Except.ok.inj (hspan.symm.trans hspan')
    obtain rfl : text=text' := Except.ok.inj (htext.symm.trans htext')
    obtain ⟨o,ho,rfl⟩ := (hexact kind n).mp hn
    exact (hfit kind _).mp (hpatch (kind,o) ho)
  · intro hall site hsite
    obtain ⟨kind,o⟩ := site
    exact (hfit kind _).mpr
      (hall span text hspan htext kind o.toNat ((hexact kind _).mpr ⟨o,hsite,rfl⟩))

/-- An ELF header for one program header and no sections. -/
def sampleHeader : Bytes :=
  elfMagic++[2,1,1]++zeros 9++leBytes 2 2++leBytes 2 62++leBytes 4 1++leBytes 8 0x1000000++
    leBytes 8 64++leBytes 8 0++leBytes 4 0++leBytes 2 64++leBytes 2 56++leBytes 2 1++leBytes 2 0++
    leBytes 2 0++leBytes 2 0

/-- A segment of eight bytes in the file and two pages in memory. -/
def sampleSegment : ProgramHeader := ⟨ptLoad,120,0xffffffff81000000,0x1000000,8,0x2000⟩

/-- A kernel of one segment, with an appended table of one 64-bit site. -/
def sampleFile (site : ℕ) : Bytes :=
  sampleHeader++leBytes 4 1++leBytes 4 7++leBytes 8 120++leBytes 8 0xffffffff81000000++
    leBytes 8 0x1000000++leBytes 8 8++leBytes 8 0x2000++leBytes 8 0x1000000++
    leBytes 8 0x1111111181000000++leBytes 4 0++leBytes 4 (0x81000000+site)++leBytes 4 0

/-- Its parsed headers. -/
def sampleElf : Elf := ⟨true,emX86_64,0x1000000,0,0,0,[sampleSegment],[],[],[]⟩

/-- Its flat image. -/
def sampleImage : Bytes := leBytes 8 0x1111111181000000

/-- The sample is accepted with a site in its file contents or behind them. -/
theorem accepted_sample :
    Accepted (fun _ => some sampleElf) (sampleFile 0) sampleElf sampleImage ⟨[],[],[0]⟩ ∧
      Accepted (fun _ => some sampleElf) (sampleFile 0x1000) sampleElf sampleImage ⟨[],[],[0x1000]⟩ := by
  refine ⟨⟨rfl,⟨⟨.x86_64,none,some ⟨0x2000,0x1000000,0⟩⟩,?_,rfl⟩,?_,?_,rfl⟩,
    ⟨rfl,⟨⟨.x86_64,none,some ⟨0x2000,0x1000000,0⟩⟩,?_,rfl⟩,?_,?_,rfl⟩⟩
  all_goals decide +kernel

/-- The site at the start of the contents is patchable, so all is shipped. -/
theorem patchable_iff_allShipped_sample : AllShipped sampleElf (sampleFile 0) := by
  have hsite : ∀ o∈[(0 : UInt32)], o.toNat+8 ≤ sampleImage.length :=
    List.forall_mem_singleton.mpr (by decide)
  have hpatch : Patchable ⟨[],[],[0]⟩ sampleImage.length :=
    ⟨hsite,List.forall_mem_nil _,List.forall_mem_nil _⟩
  exact (patchable_iff_allShipped accepted_sample.1).mp hpatch

/-- A kernel with a site in its zeroed tail is accepted, and the site lies
outside the shipped image. -/
theorem site_outside_image :
    Accepted (fun _ => some sampleElf) (sampleFile 0x1000) sampleElf sampleImage ⟨[],[],[0x1000]⟩ ∧
      ¬Patchable ⟨[],[],[0x1000]⟩ sampleImage.length := by
  refine ⟨accepted_sample.2,fun h => ?_⟩
  have hsite := h.relocs64 0x1000 List.mem_cons_self
  revert hsite
  decide

end Arma.Kernel.Coverage
