import Mathlib.Tactic.Common
import Arma.Acpi.Collected
import Arma.Acpi.Image

/-!
# The tables of a filled buffer

When a buffer is filled, every slot holds the table that was written for it, and the tree is
as counting has found it.
-/

namespace Arma.Acpi.Filled

open Base.ByteString Base.Checked Base.Writer Devtree Dtb Numbered Layout Sdt Tables Numa Spcr
  Count Counted Collected Jobs Populate Image

/-- What is behind the header of a table in a slot. -/
theorem drop_table {len : ℕ} {header : ℕ → Bytes} {n : ℕ} {entries : Option Bytes} {out : Bytes}
    (hheader : ∀ len, (header len).length=n) (hn : 9<n) (h : table len header entries=some out) :
    entries=some (out.drop n) := by
  unfold table at h
  split at h
  · obtain ⟨body,hbody,rfl⟩ := Option.map_eq_some_iff.mp h
    rw [drop_sealed hn,List.drop_left' (hheader len),hbody]
  · cases h

/-- The strings of a concatenation belong to the elements that they were made for. -/
theorem forall₂_of_map_some {α : Type} {f : α → Option Bytes} {xs : List α} {ds : List Bytes}
    (h : xs.map f=ds.map some) : List.Forall₂ (fun x d => f x=some d) xs ds := by
  have heq : List.Forall₂ Eq (xs.map f) (ds.map some) := List.forall₂_eq_eq_eq ▸ h
  rwa [List.forall₂_map_left_iff,List.forall₂_map_right_iff] at heq

/-- Pairs the other way round, with what is known of the elements. -/
theorem forall₂_swap {α β : Type} {r : α → β → Prop} {s : β → α → Prop} {xs : List α} {ys : List β}
    (h : List.Forall₂ r xs ys) (hstep : ∀ x∈xs, ∀ y, r x y → s y x) : List.Forall₂ s ys xs := by
  induction h with
  | nil => exact .nil
  | cons hr _ ih =>
    obtain ⟨hfirst,hrest⟩ := List.forall_mem_cons.mp hstep
    exact .cons (hfirst _ hr) (ih hrest)

variable [DevtreeLib]

/-- The tables in the slots of an image. -/
structure Holds (root : Node) (oem : OemIdentity) (l : Layouted) (kids : List DtbNode)
    (serial : Option DtbNode) (console : Option (DtbNode×Option ℕ)) (t : Bytes) : Prop where
  /-- Description of the system. -/
  dsdt : Dsdt.dsdt oem l.fadt.sleepValue kids serial l.offsets.dsdt.len=
    some (bytesIn l.offsets.dsdt t)
  /-- Interrupt controllers. -/
  madt : madt oem l.lapicBase l.cache (selected ioapicCompatible kids) l.offsets.madt.len=
    some (bytesIn l.offsets.madt t)
  /-- Configuration spaces. -/
  mcfg : ∀ s, l.offsets.mcfg=some s → mcfg oem kids s.len=some (bytesIn s t)
  /-- Console. -/
  spcr : ∀ s, l.offsets.spcr=some s → console.bind (spcr oem)=some (bytesIn s t)
  /-- Affinities. -/
  srat : ∀ s, l.offsets.srat=some s → srat oem l.cache kids s.len=some (bytesIn s t)
  /-- Distances. -/
  slit : ∀ s, l.offsets.slit=some s →
    (distanceMatrix root).bind (slit oem l.domains s.len)=some (bytesIn s t)

/-- Filling a buffer leaves the tables of the tree in their slots. -/
theorem populate_holds {root : Node} {oem : OemIdentity} {baseGpa n : ℕ} {buf buf' : Bytes}
    (h : populate root oem baseGpa buf=.ok (n,buf')) :
    ∃ l kids serial console, run root=.ok l ∧ Established root l kids serial console ∧
      Described root l ∧ Holds root oem l kids serial console (buf'.take n) := by
  obtain ⟨l,kids,serial,console,hl,hest,hall⟩ := populate_parts h
  simp only [frontJobs,backJobs,frontParts,backParts,List.cons_append,List.nil_append,
    List.forall₂_cons,Option.some.injEq,forall_eq',List.forall₂_nil_left_iff,and_true] at hall
  obtain ⟨-,hdsdt,-,hmadt,hmcfg,hspcr,hsrat,hslit,-⟩ := hall
  refine ⟨l,kids,serial,console,hl,hest,run_described hl,?_⟩
  constructor
  case dsdt => exact hdsdt
  case madt => exact hmadt
  case mcfg =>
    intro s hs
    have hpart := hmcfg s hs
    rwa [hs] at hpart
  case spcr =>
    intro s hs
    have hpart := hspcr s hs
    rwa [hs] at hpart
  case srat =>
    intro s hs
    have hpart := hsrat s hs
    rwa [hs] at hpart
  case slit =>
    intro s hs
    have hpart := hslit s hs
    rwa [hs] at hpart

/-- Filling a buffer leaves the fixed description table of the plan in its slot. -/
theorem populate_fadt {root : Node} {oem : OemIdentity} {baseGpa n : ℕ} {buf buf' : Bytes}
    (h : populate root oem baseGpa buf=.ok (n,buf')) :
    ∃ l, run root=.ok l ∧ bytesIn l.offsets.fadt (buf'.take n)=
      Fixed.fadt oem (baseGpa+l.offsets.dsdt.offset) l.fadt := by
  obtain ⟨l,kids,serial,console,hl,-,hall⟩ := populate_parts h
  simp only [frontJobs,backJobs,frontParts,backParts,List.cons_append,List.nil_append,
    List.forall₂_cons,Option.some.injEq,forall_eq',List.forall₂_nil_left_iff,and_true] at hall
  exact ⟨l,hl,hall.2.2.1.symm⟩

end Arma.Acpi.Filled
