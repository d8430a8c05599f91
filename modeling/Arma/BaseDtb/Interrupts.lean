import Mathlib.Data.List.Nodup
import Mathlib.Tactic.Common
import Arma.Acpi.Tables
import Arma.Build.Mapped
import Arma.Kernel.Config
import Arma.Planner.Devices

/-!
# Interrupts of the base devicetree

The serial port has a fixed interrupt and the virtio transports are numbered
from sixteen on. On x86 a number is a pin of the one IOAPIC, on aarch64 a shared
interrupt beside the window of the message-signalled ones. The slots decide how
far the numbers reach.
-/

namespace Arma.BaseDtb.Interrupts

open Base.ByteString Base.Checked BaseDtb Build.Header Build.Mapped Build.Run Devtree Kernel.Config
  Kernel.Image Planner.Devices

/-- The groups of cells of a node's `interrupts`. -/
def interruptCells (cells : ℕ) (n : Node) : List (List ℕ) :=
  match n.property "interrupts" with
  | none => []
  | some raw => decodeRecords (4*cells) (decodeRecords 4 ofBE cells) (raw.length/(4*cells)) raw

/-- The interrupts of a tree's devices, each a group of cells. -/
def interrupts (cells : ℕ) (root : Node) : List (List ℕ) :=
  root.children.flatMap (interruptCells cells)

/-- The pins that the devices of an x86 board use. -/
def pins (root : Node) : List ℕ := (interrupts 2 root).map fun i => i.getD 0 0

/-- Kind and number of the interrupts that the devices of an aarch64 board use. -/
def kinds (root : Node) : List (ℕ×ℕ) := (interrupts 3 root).map fun i => (i.getD 0 0,i.getD 1 0)

/-- The shared interrupts of an aarch64 board. -/
def spis (root : Node) : List ℕ := ((kinds root).filter fun i => decide (i.1=0)).map Prod.snd

/-- First number and count of the message-signalled interrupts. -/
def msiWindow (root : Node) : Option (ℕ×ℕ) :=
  root.children.findSome? fun n => do
    let first ← n.property "arm,msi-base-spi"
    let count ← n.property "arm,msi-num-spis"
    some (ofBE first,ofBE count)

/-- Every device of an x86 board has a pin of its own, and the IOAPIC has it. -/
structure PinsUsable (root : Node) : Prop where
  /-- No two devices share a pin. -/
  distinct : (pins root).Nodup
  /-- The IOAPIC has the pin. -/
  present : ∀ p∈pins root, p<Acpi.Tables.ioapicGsiStride

/-- Every device of an aarch64 board has an interrupt of its own, outside the
window of the message-signalled ones. In the numbers of the window, `first` is
the shared interrupt of number zero. -/
structure SpisUsable (first : ℕ) (root : Node) : Prop where
  /-- No two devices share an interrupt. -/
  distinct : (kinds root).Nodup
  /-- The board has message-signalled interrupts. -/
  window : ∃ w, msiWindow root=some w
  /-- No shared interrupt is message-signalled. -/
  outside : ∀ w∈msiWindow root, ∀ s∈spis root, first+s<w.1 ∨ w.1+w.2≤first+s

/-- A word of cells is read back. -/
theorem decodeRecords_cells (cells : List ℕ) (rest : Bytes) :
    decodeRecords 4 ofBE cells.length (cells.flatMap (beBytes 4)++rest)=
      cells.map fun c => c%2^32 := by
  rw [decodeRecords_flatMap ofBE (fun c _ => length_beBytes 4 c)]
  exact List.map_congr_left fun c _ => ofBE_beBytes 4 c

/-- A single group of cells is read back. -/
theorem interruptCells_one {n : Node} {cells : List ℕ} (hpos : 0 < cells.length)
    (h : n.property "interrupts"=some (cells.flatMap (beBytes 4))) :
    interruptCells cells.length n=[cells.map fun c => c%2^32] := by
  have hlen : (cells.flatMap (beBytes 4)).length=4*cells.length := by
    rw [length_flatMap_records fun c _ => length_beBytes 4 c,Nat.mul_comm]
  have hcells := decodeRecords_cells cells []
  rw [List.append_nil] at hcells
  rw [interruptCells,h]
  dsimp only
  rw [hlen,Nat.div_self (by omega),decodeRecords,decodeRecords,List.take_of_length_le (by omega),
    hcells]

/-- What each element of a numbered list gives, when it depends on the number
only. -/
theorem flatMap_mapIdx {α β γ : Type} {l : List α} {node : ℕ → α → β} {f : β → List γ} {g : ℕ → γ}
    (h : ∀ i a, f (node i a)=[g i]) : (l.mapIdx node).flatMap f=(List.range l.length).map g := by
  have hone : ∀ p∈l.zipIdx, f (node p.2 p.1)=[g p.2] := fun p _ => h p.2 p.1
  rw [List.mapIdx_eq_zipIdx_map,List.flatMap_map,List.flatMap_congr hone,
    List.range_eq_range',←List.zipIdx_map_snd 0 l,List.map_map]
  exact List.flatMap_pure_eq_map (g∘Prod.snd) l.zipIdx

/-- The nodes that are not devices with interrupts. -/
theorem interrupts_tree (cells : ℕ) (inputs : Inputs) :
    interrupts cells (tree inputs)=(addPlatform inputs).flatMap (interruptCells cells) := by
  obtain ⟨arch,cmdline,initrd,serial,virtio,ecam,window⟩ := inputs
  have hchosen : interruptCells cells
      (chosenNode ⟨arch,cmdline,initrd,serial,virtio,ecam,window⟩)=[] := by
    cases serial <;> cases initrd <;> rfl
  have haliases : (aliasesNode ⟨arch,cmdline,initrd,serial,virtio,ecam,window⟩).flatMap
      (interruptCells cells)=[] := by
    cases serial <;> rfl
  have hpci : (pciNodes ⟨arch,cmdline,initrd,serial,virtio,ecam,window⟩).flatMap
      (interruptCells cells)=[] := by
    cases ecam <;> cases window <;> cases arch <;> rfl
  unfold interrupts
  change (chosenNode _::(aliasesNode _++addPlatform _++pciNodes _)).flatMap (interruptCells cells)=_
  rw [List.flatMap_cons,List.flatMap_append,List.flatMap_append,hchosen,haliases,hpci]
  simp only [List.nil_append,List.append_nil]

/-- The interrupts of an x86 board. -/
theorem interrupts_x86 {inputs : Inputs} (h : inputs.arch=.x86_64) :
    interrupts 2 (tree inputs)=(inputs.serial.map fun _ => [4,1]).toList++
      (List.range inputs.virtio.length).map fun i => [(16+i)%2^32,1] := by
  have hvirtio : ∀ i v, interruptCells 2 (virtioNode v (interruptRouting ioapicPhandle [16+i,1]))=
      [[(16+i)%2^32,1]] := fun i v =>
    @interruptCells_one _ [16+i,1] (Nat.succ_pos 1) rfl
  have hserial : (inputs.serial.map fun s => serialNode s (interruptRouting ioapicPhandle
      [4,1])).toList.flatMap (interruptCells 2)=(inputs.serial.map fun _ => [4,1]).toList := by
    cases inputs.serial with
    | none => rfl
    | some s =>
      have hone := @interruptCells_one (serialNode s
        (interruptRouting ioapicPhandle [4,1])) [4,1] (by decide) rfl
      exact (List.append_nil _).trans hone
  have hplatform : addPlatform inputs=x86Platform inputs := by
    rw [addPlatform,h]
  rw [interrupts_tree,hplatform,x86Platform,List.flatMap_append,List.flatMap_append,hserial,
    flatMap_mapIdx hvirtio]
  rfl

/-- The interrupts of the timer of an aarch64 board. -/
def timerInterrupts : List (List ℕ) :=
  [[1,13,0xff08],[1,14,0xff08],[1,11,0xff08],[1,10,0xff08]]

/-- The interrupts of an aarch64 board. -/
theorem interrupts_aarch64 {inputs : Inputs} (h : inputs.arch=.aarch64) :
    interrupts 3 (tree inputs)=timerInterrupts++(inputs.serial.map fun _ => [0,1,4]).toList++
      (List.range inputs.virtio.length).map fun i => [0,(16+i)%2^32,1] := by
  have hvirtio : ∀ i v, interruptCells 3 (virtioNode v (interruptRouting intcPhandle [0,16+i,1]))=
      [[0,(16+i)%2^32,1]] := fun i v => @interruptCells_one _ [0,16+i,1] (Nat.succ_pos 2) rfl
  have hserial : (inputs.serial.map fun s => serialNode s (interruptRouting intcPhandle
      [0,1,4])).toList.flatMap (interruptCells 3)=(inputs.serial.map fun _ => [0,1,4]).toList := by
    cases inputs.serial with
    | none => rfl
    | some s =>
      have hone := @interruptCells_one (serialNode s (interruptRouting intcPhandle [0,1,4]))
        [0,1,4] (by decide) rfl
      exact (List.append_nil _).trans hone
  have hplatform : addPlatform inputs=aarch64Platform inputs := by
    rw [addPlatform,h]
  rw [interrupts_tree,hplatform,aarch64Platform,List.flatMap_append,List.flatMap_append,hserial,
    flatMap_mapIdx hvirtio]
  rfl

/-- The window of the message-signalled interrupts of an aarch64 board. -/
theorem msiWindow_aarch64 {inputs : Inputs} (h : inputs.arch=.aarch64) :
    msiWindow (tree inputs)=some (64,32) := by
  obtain ⟨arch,cmdline,initrd,serial,virtio,ecam,window⟩ := inputs
  cases h
  cases serial <;> cases initrd <;> rfl

/-- Numbers that fit a cell are kept apart by it. -/
theorem nodup_numbers {slots : ℕ} (h : 16+slots≤2^32) :
    ((List.range slots).map fun i => (16+i)%2^32).Nodup := by
  refine List.Nodup.map_on (fun i hi j hj heq => ?_) List.nodup_range
  rw [List.mem_range] at hi hj
  rw [Nat.mod_eq_of_lt (by omega),Nat.mod_eq_of_lt (by omega)] at heq
  omega

/-- The pins of an x86 board are usable exactly with at most eight virtio
transports. -/
theorem pinsUsable_iff {inputs : Inputs} (h : inputs.arch=.x86_64) :
    PinsUsable (tree inputs) ↔ inputs.virtio.length≤8 := by
  have hpins : pins (tree inputs)=(inputs.serial.map fun _ => 4).toList++
      (List.range inputs.virtio.length).map fun i => (16+i)%2^32 := by
    rw [pins,interrupts_x86 h,List.map_append,List.map_map]
    cases inputs.serial <;> rfl
  have hstride : Acpi.Tables.ioapicGsiStride=24 := rfl
  constructor
  · intro husable
    by_contra hmany
    have hmem : (16+8)%2^32∈pins (tree inputs) := by
      rw [hpins]
      exact List.mem_append_right _ (List.mem_map.mpr ⟨8,List.mem_range.mpr (by omega),rfl⟩)
    have hpresent := husable.present _ hmem
    rw [hstride] at hpresent
    omega
  · intro hfew
    have hnumbers : ∀ p∈(List.range inputs.virtio.length).map fun i => (16+i)%2^32,
        16≤p ∧ p<24 := by
      intro p hp
      have ⟨i,hi,hpi⟩ := List.mem_map.mp hp
      rw [List.mem_range] at hi
      omega
    have hserial : ∀ p∈(inputs.serial.map fun _ => 4).toList, p=4 := by
      intro p hp
      cases hs : inputs.serial with
      | none =>
        rw [hs] at hp
        cases hp
      | some s =>
        rw [hs] at hp
        exact List.mem_singleton.mp hp
    constructor
    · rw [hpins,List.nodup_append]
      refine ⟨?_,nodup_numbers (by omega),fun p hp q hq => ?_⟩
      · cases inputs.serial with
        | none => exact List.nodup_nil
        | some s => exact List.nodup_singleton 4
      · have hfour := hserial p hp
        have hlow := hnumbers q hq
        omega
    · intro p hp
      rw [hpins] at hp
      rcases List.mem_append.mp hp with hp | hp
      · have hfour := hserial p hp
        omega
      · exact (hnumbers p hp).2

/-- The interrupts of an aarch64 board: the timer's, the serial port's and one for each
transport. -/
theorem kinds_aarch64 {inputs : Inputs} (h : inputs.arch=.aarch64) :
    kinds (tree inputs)=[(1,13),(1,14),(1,11),(1,10)]++
      (inputs.serial.map fun _ => (0,1)).toList++
        (List.range inputs.virtio.length).map fun i => (0,(16+i)%2^32) := by
  rw [kinds,interrupts_aarch64 h,List.map_append,List.map_append,List.map_map]
  cases inputs.serial <;> rfl

/-- The shared ones among them. -/
theorem spis_aarch64 {inputs : Inputs} (h : inputs.arch=.aarch64) :
    spis (tree inputs)=(inputs.serial.map fun _ => 1).toList++
      (List.range inputs.virtio.length).map fun i => (16+i)%2^32 := by
  have hall : ((List.range inputs.virtio.length).map fun i => (0,(16+i)%2^32)).filter
      (fun i : ℕ×ℕ => decide (i.1=0))=
        (List.range inputs.virtio.length).map fun i => (0,(16+i)%2^32) := by
    refine List.filter_eq_self.mpr fun p hp => ?_
    have ⟨i,_,hpi⟩ := List.mem_map.mp hp
    rw [←hpi]
    rfl
  rw [spis,kinds_aarch64 h,List.filter_append,List.filter_append,hall,List.map_append,
    List.map_append,List.map_map]
  cases inputs.serial <;> rfl

/-- No two of them are the same when the transports are few. -/
theorem nodup_kinds_aarch64 {inputs : Inputs} (h : inputs.arch=.aarch64)
    (hfew : inputs.virtio.length≤48) : (kinds (tree inputs)).Nodup := by
  have hnumbers : ((List.range inputs.virtio.length).map fun i => (0,(16+i)%2^32)).Nodup := by
    have hmap := (@nodup_numbers inputs.virtio.length (by omega)).map
      (f := fun n => (0,n)) fun _ _ heq => (Prod.mk.inj heq).2
    rw [List.map_map] at hmap
    exact hmap
  have hhigh : ∀ p∈(List.range inputs.virtio.length).map fun i => (0,(16+i)%2^32),
      p.1=0 ∧ 16≤p.2 := by
    intro p hp
    have ⟨i,hi,hpi⟩ := List.mem_map.mp hp
    rw [List.mem_range] at hi
    rw [←hpi]
    dsimp only
    omega
  have hfixed : ([(1,13),(1,14),(1,11),(1,10)]++
      (inputs.serial.map fun _ => ((0,1) : ℕ×ℕ)).toList).Nodup ∧
      ∀ p∈[(1,13),(1,14),(1,11),(1,10)]++(inputs.serial.map fun _ => ((0,1) : ℕ×ℕ)).toList,
        p.1=1 ∨ p.2=1 := by
    cases inputs.serial with
    | none => decide
    | some s =>
      rw [Option.map_some]
      decide
  rw [kinds_aarch64 h,List.nodup_append]
  refine ⟨hfixed.1,hnumbers,fun p hp q hq heq => ?_⟩
  have hp' := hfixed.2 p hp
  have hq' := hhigh q hq
  rw [←heq] at hq'
  omega

/-- The interrupts of an aarch64 board are usable exactly when the transports
end in front of the message-signalled ones. -/
theorem spisUsable_iff {first : ℕ} (hfirst : first≤32) {inputs : Inputs}
    (h : inputs.arch=.aarch64) :
    SpisUsable first (tree inputs) ↔ first+inputs.virtio.length≤48 := by
  have hwindow := msiWindow_aarch64 h
  have hspis := spis_aarch64 h
  constructor
  · intro husable
    by_contra hmany
    have hlast : (16+(48-first))%2^32∈spis (tree inputs) := by
      rw [hspis]
      exact List.mem_append_right _
        (List.mem_map.mpr ⟨48-first,List.mem_range.mpr (by omega),rfl⟩)
    have houtside := husable.outside _ hwindow _ hlast
    dsimp only at houtside
    omega
  · intro hfew
    refine ⟨nodup_kinds_aarch64 h (by omega),⟨_,hwindow⟩,fun w hw s hs => ?_⟩
    rw [hwindow] at hw
    cases hw
    rw [hspis] at hs
    dsimp only
    rcases List.mem_append.mp hs with hs | hs
    · cases hserial : inputs.serial with
      | none =>
        rw [hserial] at hs
        cases hs
      | some r =>
        rw [hserial] at hs
        have hone : s=1 := List.mem_singleton.mp hs
        omega
    · have ⟨i,hi,hsi⟩ := List.mem_map.mp hs
      rw [List.mem_range] at hi
      omega

/-- A build has as many transports as the inferred slots. -/
theorem virtio_length {libs : Libs} {tatu : TatuImage.TatuImage} {input : BuildInput} {b : Built}
    (h : run libs tatu input=.ok b) : b.lay.virtio.length=input.mmioSlots :=
  (plan_handed (run_ok h).plan).slots

/-- For every build with inferred slots: on x86 the pins of the board are usable
exactly with at most eight virtio-mmio slots. On aarch64 its interrupts are usable
exactly with at most 48, or with at most 16 when the numbers of the window are
identifiers, in which shared interrupt zero is 32. -/
theorem interrupts_usable_iff {libs : Libs} {tatu : TatuImage.TatuImage} {input : BuildInput}
    {b : Built} {cfg : KernelConfig} {m p : Option ℕ}
    (hslots : cfg.inferSlots b.kernel.parsed.arch m p=.ok (input.mmioSlots,input.pciSlots))
    (h : run libs tatu input=.ok b) :
    (b.kernel.parsed.arch=.x86_64 → (PinsUsable (tree (dtbInputs input b.kernel b.lay)) ↔
      cfg.mmioSlots .x86_64 m p≤8)) ∧
    (b.kernel.parsed.arch=.aarch64 → (SpisUsable 0 (tree (dtbInputs input b.kernel b.lay)) ↔
      cfg.mmioSlots .aarch64 m p≤48) ∧
      (SpisUsable 32 (tree (dtbInputs input b.kernel b.lay)) ↔
        cfg.mmioSlots .aarch64 m p≤16)) := by
  have hlen : (dtbInputs input b.kernel b.lay).virtio.length=
      cfg.mmioSlots b.kernel.parsed.arch m p := (virtio_length h).trans (inferSlots_ok hslots)
  constructor
  · intro hx86
    have husable := @pinsUsable_iff (dtbInputs input b.kernel b.lay) hx86
    rw [hlen,hx86] at husable
    exact husable
  · intro haarch64
    have hcells := @spisUsable_iff 0 (by decide) (dtbInputs input b.kernel b.lay) haarch64
    have hids := @spisUsable_iff 32 (by decide) (dtbInputs input b.kernel b.lay) haarch64
    rw [hlen,haarch64] at hcells hids
    constructor
    · rw [hcells]
      omega
    · rw [hids]
      omega

/-- A kernel whose only transport is virtio-mmio. -/
def mmioConfig : KernelConfig := ⟨"CONFIG_VIRTIO_MMIO=y\n"⟩

/-- A build with eight slots has usable pins. -/
theorem interrupts_usable_iff_sample : ∃ b,
    mmioConfig.inferSlots .x86_64 (some 8) none=.ok (8,0) ∧
    run elfLibs resetTatu {elfInput with mmioSlots := 8}=.ok b ∧
    PinsUsable (tree (dtbInputs {elfInput with mmioSlots := 8} b.kernel b.lay)) := by
  have hslots : mmioConfig.inferSlots .x86_64 (some 8) none=.ok (8,0) := by decide
  have ⟨b,pe,hb,hx86⟩ := @exists_run elfLibs resetTatu {elfInput with mmioSlots := 8}
    (fun b => decide (b.kernel.parsed.arch=.x86_64)) (by decide +kernel)
  have harch : b.kernel.parsed.arch=.x86_64 := of_decide_eq_true hx86
  have husable := (@interrupts_usable_iff elfLibs resetTatu _ _ mmioConfig (some 8) none
    (by rw [harch]; exact hslots) hb).1 harch
  exact ⟨_,hslots,hb,husable.mpr (by decide)⟩

/-- The default board of that kernel has sixteen slots, whose pins reach 31. -/
theorem default_board_pins : ∃ b,
    mmioConfig.inferSlots .x86_64 none none=.ok (16,0) ∧
    run elfLibs resetTatu {elfInput with mmioSlots := 16}=.ok b ∧
    b.kernel.parsed.arch=.x86_64 ∧
    ¬PinsUsable (tree (dtbInputs {elfInput with mmioSlots := 16} b.kernel b.lay)) := by
  have hslots : mmioConfig.inferSlots .x86_64 none none=.ok (16,0) := by decide
  have ⟨b,pe,hb,hx86⟩ := @exists_run elfLibs resetTatu {elfInput with mmioSlots := 16}
    (fun b => decide (b.kernel.parsed.arch=.x86_64)) (by decide +kernel)
  have harch : b.kernel.parsed.arch=.x86_64 := of_decide_eq_true hx86
  have hlen := virtio_length hb
  refine ⟨_,hslots,hb,harch,fun husable => ?_⟩
  have hfew := (pinsUsable_iff harch).mp husable
  change b.lay.virtio.length≤8 at hfew
  dsimp only at hlen
  omega

end Arma.BaseDtb.Interrupts
