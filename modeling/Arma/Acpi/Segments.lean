import Mathlib.Data.List.Pairwise
import Mathlib.Tactic.Common
import Arma.Acpi.Namespace

/-!
# Segments of the host bridges

The table of configuration spaces and the namespace both give every host bridge
a segment and a range of buses. The table puts all bridges into segment zero,
the namespace numbers them, so the two agree as long as there is one bridge.
-/

namespace Arma.Acpi.Segments

open Base.ByteString Base.Checked Base.Writer Devtree Dtb Bridges Layout Count Sdt Populate Image
  Namespace

/-- A segment and a range of its buses. -/
structure BusClaim where
  /-- The segment. -/
  segment : ℕ
  /-- First bus. -/
  first : ℕ
  /-- Last bus. -/
  last : ℕ
deriving DecidableEq, Repr

/-- The bus of the segment is claimed. -/
def BusClaim.Claims (b : BusClaim) (segment bus : ℕ) : Prop :=
  b.segment=segment ∧ b.first≤bus ∧ bus≤b.last

/-- What an allocation claims. -/
def allocationClaim (a : McfgAllocation) : BusClaim := ⟨a.segmentGroup,a.busStart,a.busEnd⟩

/-- What a host bridge of the namespace claims by its segment and its bus
numbers. -/
def deviceClaim (d : Bytes) : Option BusClaim := do
  let segment ← namedByteAt segSeg segmentOffset d
  let bus ← busNumbersAt busNumbersOffset d
  some ⟨segment,bus.1,bus.2⟩

/-- Both tables of an image agree about the segments and the buses. -/
structure SegmentsAgree (off : Offsets) (t : Bytes) : Prop where
  /-- The bridge of a number claims what the allocation of that number does. -/
  paired : (pciDevices off t).map deviceClaim=
    (mcfgAllocations off t).map fun a => some (allocationClaim a)
  /-- No bus of a segment is claimed by two allocations. -/
  disjoint : (mcfgAllocations off t).Pairwise fun a b => ∀ segment bus,
    ¬((allocationClaim a).Claims segment bus ∧ (allocationClaim b).Claims segment bus)

/-- A list of two is not a list of one. -/
theorem exists_pair {α : Type} {l : List α} (h : ¬l.length≤1) : ∃ a b rest, l=a::b::rest := by
  match l,h with
  | [],h => exact absurd (Nat.zero_le 1) h
  | [_],h => exact absurd (Nat.le_refl 1) h
  | a::b::rest,_ => exact ⟨a,b,rest,rfl⟩

section Populated

variable [DevtreeLib] {root : Node} {off : Offsets} {t : Bytes}

/-- The claims of the bridges in the namespace are numbered. -/
theorem deviceClaims_eq (h : Populated root off t) : (pciDevices off t).map deviceClaim=
    (hostBridges root).zipIdx.map fun p => some ⟨p.2,(buses p.1).1,(buses p.1).2⟩ := by
  have hseg := h.seg
  have hcrs := h.crs
  rw [←map_zipIdx_fst (hostBridges root)] at hcrs
  generalize (hostBridges root).zipIdx=numbered at hseg hcrs ⊢
  generalize pciDevices off t=ds at hseg hcrs ⊢
  induction ds generalizing numbered with
  | nil =>
    rw [List.map_nil] at hseg
    rw [List.map_eq_nil_iff.mp hseg.symm]
    rfl
  | cons d ds ih =>
    cases numbered with
    | nil => cases hseg
    | cons p numbered =>
      have ⟨hsegment,hsegs⟩ := List.cons.inj hseg
      have ⟨hbus,hbuses⟩ := List.cons.inj hcrs
      have hclaim : deviceClaim d=some ⟨p.2,(buses p.1).1,(buses p.1).2⟩ := by
        rw [deviceClaim,hsegment,hbus]
        rfl
      rw [List.map_cons,List.map_cons,hclaim,ih _ hsegs hbuses]

/-- The tables of an image agree exactly when there is at most one host
bridge. -/
theorem segmentsAgree_iff (h : Populated root off t) :
    SegmentsAgree off t ↔ (hostBridges root).length≤1 := by
  have hclaims := deviceClaims_eq h
  constructor
  · intro hagree
    by_contra hmany
    have ⟨c,d,rest,hbridges⟩ := exists_pair hmany
    have hpaired := hagree.paired
    rw [hclaims,h.mcfg,hbridges] at hpaired
    simp only [List.zipIdx_cons,List.map_cons,List.cons.injEq,Option.some.injEq,
      BusClaim.mk.injEq,allocationClaim] at hpaired
    omega
  · intro hone
    have hfew : hostBridges root=[] ∨ ∃ c, hostBridges root=[c] :=
      (Nat.le_one_iff_eq_zero_or_eq_one.mp hone).imp List.length_eq_zero_iff.mp
        List.length_eq_one_iff.mp
    constructor
    · rw [hclaims,h.mcfg]
      obtain hnone | ⟨c,hbridge⟩ := hfew
      · rw [hnone]
        rfl
      · rw [hbridge]
        rfl
    · rw [h.mcfg]
      obtain hnone | ⟨c,hbridge⟩ := hfew
      · rw [hnone]
        exact List.Pairwise.nil
      · rw [hbridge]
        exact List.pairwise_singleton _ _

/-- In a buffer that has been filled the table of configuration spaces and the
namespace agree about segments and buses exactly when the tree has at most one
host bridge. -/
theorem populate_segments_iff {oem : OemIdentity} {baseGpa n : ℕ} {buf buf' : Bytes}
    (h : populate root oem baseGpa buf=.ok (n,buf')) :
    ∃ l, run root=.ok l ∧
      (SegmentsAgree l.offsets (buf'.take n) ↔ (hostBridges root).length≤1) := by
  have ⟨l,hl,hpopulated⟩ := populate_populated h
  exact ⟨l,hl,segmentsAgree_iff hpopulated⟩

end Populated

/-- A host bridge with sixteen buses. -/
def sampleBridge (base firstBus lastBus size : ℕ) : Node :=
  .mk "pci" [⟨"compatible",dtString "pci-host-ecam-generic"⟩,⟨"reg",dtReg base size⟩,
    ⟨"bus-range",beBytes 4 firstBus++beBytes 4 lastBus⟩] []

/-- The sample tree with the given host bridges. -/
def bridgeTree (bridges : List Node) : Node := sampleTree (sampleKids++bridges)

/-- A tree with one bridge is written, and its tables agree. -/
theorem populate_segments_iff_sample : ∃ n buf' l,
    @populate plainLib (bridgeTree [sampleBridge 0x10000000 0 15 0x1000000]) sampleOem 0x1000
      (List.replicate 1000 7)=.ok (n,buf') ∧
    @run plainLib (bridgeTree [sampleBridge 0x10000000 0 15 0x1000000])=.ok l ∧
    SegmentsAgree l.offsets (buf'.take n) := by
  have hsome : (@populate plainLib (bridgeTree [sampleBridge 0x10000000 0 15 0x1000000])
      sampleOem 0x1000 (List.replicate 1000 7)).toOption.isSome=true := by decide +kernel
  have hone : (@hostBridges plainLib
      (bridgeTree [sampleBridge 0x10000000 0 15 0x1000000])).length≤1 := by decide +kernel
  have ⟨out,hfilled⟩ := exists_ok hsome
  have ⟨l,hl,hagree⟩ := @populate_segments_iff plainLib _ _ _ _ _ _ hfilled
  exact ⟨out.1,out.2,l,hfilled,hl,hagree.mpr hone⟩

/-- Two bridges of sixteen buses each are in segments zero and one of the
namespace, but both in segment zero of the table of configuration spaces. -/
theorem populate_two_bridges : ∃ n buf' l,
    @populate plainLib (bridgeTree [sampleBridge 0x10000000 0 15 0x1000000,
      sampleBridge 0x20000000 0 15 0x1000000]) sampleOem 0x1000 (List.replicate 1000 7)=
        .ok (n,buf') ∧
    @run plainLib (bridgeTree [sampleBridge 0x10000000 0 15 0x1000000,
      sampleBridge 0x20000000 0 15 0x1000000])=.ok l ∧
    ¬SegmentsAgree l.offsets (buf'.take n) := by
  have hsome : (@populate plainLib (bridgeTree [sampleBridge 0x10000000 0 15 0x1000000,
      sampleBridge 0x20000000 0 15 0x1000000]) sampleOem 0x1000
        (List.replicate 1000 7)).toOption.isSome=true := by decide +kernel
  have htwo : (@hostBridges plainLib (bridgeTree [sampleBridge 0x10000000 0 15 0x1000000,
      sampleBridge 0x20000000 0 15 0x1000000])).length=2 := by decide +kernel
  have ⟨out,hfilled⟩ := exists_ok hsome
  have ⟨l,hl,hpopulated⟩ := @populate_populated plainLib _ _ _ _ _ _ hfilled
  refine ⟨out.1,out.2,l,hfilled,hl,fun hagree => ?_⟩
  have hone := (@segmentsAgree_iff plainLib _ _ _ hpopulated).mp hagree
  omega

end Arma.Acpi.Segments
