import Arma.Acpi.Dtb
import Arma.Tatu.MemoryMap

/-!
# Usable memory and device space

Memory is kept apart from every device register block, whether the validator or
the ACPI emitter reads it. The windows under `ranges` are not register blocks:
the emitter publishes them, and nobody compares them with memory.
-/

namespace Arma.Tatu.DeviceSpace

open Acpi.Dtb Base.ByteString Base.Checked Devtree E820 MemoryMap Validate

/-- Records of one width may be decoded by any function that agrees on them. -/
theorem decodeRecords_map {α β : Type} {width : ℕ} {f : Bytes → α} {g : Bytes → β} {h : α → β}
    (heq : ∀ chunk, chunk.length≤width → g chunk=h (f chunk)) (count : ℕ) (bs : Bytes) :
    decodeRecords width g count bs=(decodeRecords width f count bs).map h := by
  induction count generalizing bs with
  | zero => rfl
  | succ count ih =>
    have hlen : (bs.take width).length≤width := by
      rw [List.length_take]
      exact Nat.min_le_left _ _
    rw [decodeRecords,decodeRecords,List.map_cons,heq _ hlen,ih]

/-- With two address and two size cells the emitter's pairs are the validator's
regions. -/
theorem regPairs_two (raw : Bytes) :
    regPairs 2 2 raw=(parseRegions raw).map fun r => (r.gpa,r.size) := by
  refine decodeRecords_map (fun chunk hlen => ?_) _ raw
  have hrest : slice 8 8 chunk=chunk.drop 8 := by
    rw [slice]
    refine List.take_of_length_le ?_
    rw [List.length_drop]
    omega
  rw [regPair,parseOneRegion,hrest]
  rfl

section Space

variable [DevtreeLib]

/-- Usable memory keeps clear of the device registers. -/
structure RegistersClear (root : Node) (bp : BootE820) : Prop where
  /-- No memory region has an address of a device region. -/
  regions : ∀ m∈memoryRegions root, ∀ d∈deviceRegions root, m.span.Separate d.span
  /-- Nor has a usable entry of the memory map. -/
  usable : ∀ u∈bp.used, u.kind=.usable → ∀ d∈deviceRegions root, u.span.Separate d.span
  /-- Nor has it one of the registers that the ACPI emitter reads for a device,
  on a board of two address and two size cells. -/
  published : (rootOf root).ownCells=.ok (2,2) → ∀ kids, (rootOf root).children=.ok kids →
    ∀ child∈kids, topSegment child.name≠"cpus" → topSegment child.name≠"memory" →
    ∀ site pairs, child.reg site=.ok pairs → ∀ p∈pairs, ∀ u∈bp.used, u.kind=.usable →
      u.span.Separate ⟨p.1,p.1+p.2⟩

/-- A usable entry is a memory region. -/
theorem usable_region (hlaw : CellsLaw) {root : Node} {rsdpGpa acpiSize : ℕ} {bp : BootE820}
    (h : fillE820 root rsdpGpa acpiSize=.ok bp) {u : E820Entry} (hu : u∈bp.used)
    (hkind : u.kind=.usable) : ∃ m∈memoryRegions root, u=entryOf .usable m := by
  rw [(fillE820_ok hlaw h).2.2.2.2] at hu
  obtain rfl | hu := List.mem_cons.mp hu
  · cases hkind
  obtain ⟨child,hc,hu⟩ := List.mem_flatMap.mp hu
  unfold childEntries at hu
  split at hu
  · rename_i hseg
    obtain ⟨m,hm,rfl⟩ := List.mem_map.mp hu
    exact ⟨m,List.mem_flatMap.mpr ⟨child,List.mem_filter.mpr ⟨hc,decide_eq_true hseg⟩,hm⟩,rfl⟩
  · split at hu
    · obtain ⟨sub,_,hu⟩ := List.mem_flatMap.mp hu
      obtain ⟨r,_,rfl⟩ := List.mem_map.mp hu
      cases hkind
    · split at hu
      · obtain ⟨r,_,rfl⟩ := List.mem_map.mp hu
        cases hkind
      · exact absurd hu List.not_mem_nil

/-- In every accepted tree usable memory keeps clear of the device registers. -/
theorem usable_clear {root : Node} {paBits : ℕ} (hlaw : CellsLaw)
    (h : validateMerged root paBits=.ok ()) {rsdpGpa acpiSize : ℕ} {bp : BootE820}
    (hfill : fillE820 root rsdpGpa acpiSize=.ok bp) : RegistersClear root bp := by
  have hok := accepted_of_valid h
  have husable : ∀ u∈bp.used, u.kind=.usable → ∀ d∈deviceRegions root,
      u.span.Separate d.span := by
    intro u hu hkind d hd
    obtain ⟨m,hm,rfl⟩ := usable_region hlaw hfill hu hkind
    exact hok.separate m hm d hd
  refine ⟨hok.separate,husable,fun hcells kids hkids child hc hcpus hmem site pairs hreg p hp
    u hu hkind => ?_⟩
  obtain ⟨cells,hcells',hkids⟩ := bind_ok.mp hkids
  cases hcells.symm.trans hcells'
  cases hkids
  obtain ⟨node,hnode,rfl⟩ := List.mem_map.mp hc
  obtain ⟨raw,hraw,hpairs⟩ := bind_ok.mp hreg
  have hraw : node.property "reg"=some raw := okOr_ok.mp hraw
  have hpairs : regIter raw 2 2 site=.ok pairs := hpairs
  rw [regIter,if_neg (by omega),if_neg (by omega)] at hpairs
  cases hpairs
  rw [regPairs_two] at hp
  obtain ⟨d,hd,rfl⟩ := List.mem_map.mp hp
  refine husable u hu hkind d (List.mem_flatMap.mpr ⟨node,?_,?_⟩)
  · exact List.mem_filter.mpr ⟨hnode,decide_eq_true ⟨hcpus,hmem⟩⟩
  · rw [regs,hraw]
    exact hd

end Space

/-- The registers of the sample board are clear. -/
theorem usable_clear_sample :
    ∃ bp, @fillE820 plainLib sampleBoard 0xA0000 0x1000=.ok bp ∧
      @RegistersClear plainLib sampleBoard bp := by
  have hvalid : validateMerged sampleBoard 36=.ok () := by decide
  have hfill : ∃ bp, @fillE820 plainLib sampleBoard 0xA0000 0x1000=.ok bp :=
    exists_ok (by decide)
  obtain ⟨bp,hfill⟩ := hfill
  exact ⟨bp,hfill,@usable_clear plainLib _ _ cellsLaw_plainLib hvalid _ _ _ hfill⟩

/-- A host bridge with a 64-bit window at `0x40000000`. -/
def windowBridge : Node :=
  .mk "pcie@10000000" [⟨"compatible",dtString "pci-host-ecam-generic"⟩,
    ⟨"reg",dtReg 0x10000000 0x1000000⟩,
    ⟨"ranges",beBytes 4 0x03000000++beBytes 8 0x40000000++dtReg 0x40000000 0x40000000⟩] []

/-- A board whose memory lies in that window. -/
def windowBoard : Node :=
  .mk "" [⟨"#address-cells",beBytes 4 2⟩,⟨"#size-cells",beBytes 4 2⟩]
    [.mk "memory@50000000" [⟨"reg",dtReg 0x50000000 0x1000000⟩] [],windowBridge]

/-- The board is accepted and its memory becomes usable, although the host
bridge's window takes the same addresses. -/
theorem window_in_memory : validateMerged windowBoard 40=.ok () ∧
    windowBridge∈@bridges plainLib windowBoard ∧
    (∃ ws, (⟨windowBridge,2,2,.root⟩ : DtbNode).pciRanges=.ok (some ws) ∧
      (⟨3,0x40000000,0x40000000⟩ : PciRange)∈ws) ∧
    (∃ bp, @fillE820 plainLib windowBoard 0xA0000 0x1000=.ok bp ∧
      ⟨0x50000000,0x1000000,.usable⟩∈bp.used) ∧
    ∃ m∈memoryRegions windowBoard,
      ¬m.span.Separate ⟨0x40000000,0x40000000+0x40000000⟩ := by
  refine ⟨by decide,?_,?_,?_,?_⟩
  · simp only [bridges,windowBoard,Node.children]
    exact List.mem_filter.mpr ⟨List.mem_cons_of_mem _ List.mem_cons_self,by decide⟩
  · exact ⟨[⟨3,0x40000000,0x40000000⟩],by decide,List.mem_cons_self⟩
  · have hfill : ((@fillE820 plainLib windowBoard 0xA0000 0x1000).toOption.any fun bp =>
        decide ((⟨0x50000000,0x1000000,.usable⟩ : E820Entry)∈bp.used))=true := by decide
    obtain ⟨bp,hbp,hused⟩ := exists_ok_of_any hfill
    exact ⟨bp,hbp,of_decide_eq_true hused⟩
  · refine ⟨⟨0x50000000,0x1000000⟩,by decide,fun hsep => ?_⟩
    have hmem : (0x50000000 : ℕ)∈(Region.span ⟨0x50000000,0x1000000⟩).toSet :=
      ⟨by decide,by decide⟩
    have hwindow : (0x50000000 : ℕ)∈
        (Base.Intervals.Region.mk 0x40000000 (0x40000000+0x40000000)).toSet :=
      ⟨by decide,by decide⟩
    exact Set.disjoint_left.mp hsep hmem hwindow

end Arma.Tatu.DeviceSpace
