import Arma.BaseDtb.Registers
import Arma.Check.Disjoint

/-!
# A board as the check reads it

The check takes the registers from the devicetree cell by cell, where the validator takes
them word by word, and the BAR window from the `ranges` of the host bridge. On the tree of a
board it finds the registers of its devices and the window that was planned.
-/

namespace Arma.Check.Board

open Base.ByteString BaseDtb BaseDtb.Registers Check.Disjoint Devtree
open Tatu.Validate hiding Region deviceRegions

/-- The first cell of a value. -/
theorem beCells_step {bytes : Bytes} (h : 4≤bytes.length) :
    beCells bytes=ofBE (slice 0 4 bytes)::beCells (bytes.drop 4) := by
  match bytes with
  | a::b::c::d::rest => rfl

/-- A short value has no cell. -/
theorem beCells_short {bytes : Bytes} (h : bytes.length<4) : beCells bytes=[] := by
  match bytes with
  | [] | [_] | [_,_] | [_,_,_] => rfl
  | _::_::_::_::_ =>
    simp only [List.length_cons] at h
    omega

/-- A value has a cell for every four bytes. -/
theorem length_beCells (bytes : Bytes) : (beCells bytes).length=bytes.length/4 := by
  induction bytes using beCells.induct with
  | case1 a b c d rest ih =>
    rw [beCells,List.length_cons,ih]
    simp only [List.length_cons]
    omega
  | case2 bytes hshort =>
    have hlen : bytes.length<4 := by
      rcases bytes with _ | ⟨a,_ | ⟨b,_ | ⟨c,_ | ⟨d,rest⟩⟩⟩⟩
      · decide
      · exact (by decide : 1<4)
      · exact (by decide : 2<4)
      · exact (by decide : 3<4)
      · exact absurd rfl (hshort a b c d rest)
    rw [beCells_short hlen,List.length_nil]
    omega

/-- Two cells are the word that they are read from. -/
theorem cellWord_slice (bytes : Bytes) (h : 8≤bytes.length) :
    cellWord (ofBE (slice 0 4 bytes)) (ofBE (slice 4 4 bytes))=ofBE (slice 0 8 bytes) := by
  have hsplit : slice 0 8 bytes=slice 0 4 bytes++slice 4 4 bytes := slice_add 0 4 4 bytes
  have hlen : (slice 4 4 bytes).length=4 := by
    rw [slice,List.length_take,List.length_drop]
    omega
  rw [hsplit,ofBE_append,hlen,cellWord,Nat.mul_comm]
  norm_num

/-- Fewer than four cells are no pair. -/
theorem regPairs_short {cells : List ℕ} (h : cells.length<4) : regPairs cells=[] := by
  match cells with
  | [] | [_] | [_,_] | [_,_,_] => rfl
  | _::_::_::_::_ =>
    simp only [List.length_cons] at h
    omega

/-- The first pair of a value is its first region. -/
theorem regPairs_step {bytes : Bytes} (h : 16≤bytes.length) : regPairs (beCells bytes)=
    ((parseOneRegion (bytes.take 16)).gpa,(parseOneRegion (bytes.take 16)).size)::
      regPairs (beCells (bytes.drop 16)) := by
  have hcells : beCells bytes=ofBE (slice 0 4 bytes)::ofBE (slice 4 4 bytes)::
      ofBE (slice 0 4 (bytes.drop 8))::ofBE (slice 4 4 (bytes.drop 8))::
        beCells (bytes.drop 16) := by
    rw [beCells_step (by omega),beCells_step (by rw [List.length_drop]; omega),
      beCells_step (by rw [List.length_drop,List.length_drop]; omega),
      beCells_step (by rw [List.length_drop,List.length_drop,List.length_drop]; omega)]
    simp only [slice,List.drop_drop]
  have hgpa : slice 0 8 (bytes.take 16)=slice 0 8 bytes := by
    rw [slice,slice,List.drop_zero,List.drop_zero,List.take_take]
    rfl
  have hsize : slice 8 8 (bytes.take 16)=slice 0 8 (bytes.drop 8) := by
    rw [slice,slice,List.drop_take,List.take_take,List.drop_zero]
    rfl
  rw [hcells,regPairs,cellWord_slice bytes (by omega),
    cellWord_slice (bytes.drop 8) (by rw [List.length_drop]; omega),parseOneRegion,hgpa,hsize]

/-- The check and the validator read the same registers. -/
theorem regPairs_beCells (bytes : Bytes) :
    regPairs (beCells bytes)=(parseRegions bytes).map fun r => (r.gpa,r.size) := by
  unfold parseRegions
  induction hn : bytes.length/16 generalizing bytes with
  | zero =>
    rw [regPairs_short (by rw [length_beCells]; omega)]
    rfl
  | succ n ih =>
    rw [regPairs_step (by omega),decodeRecords,List.map_cons,
      ih (bytes.drop 16) (by rw [List.length_drop]; omega)]

/-- So they do from a node. -/
theorem regRanges_eq (c : Node) : regRanges c=(regs c).map Tatu.Validate.Region.span := by
  unfold regRanges regs
  cases c.property "reg" with
  | none => rfl
  | some value =>
    rw [Option.map_some,Option.getD_some,regPairs_beCells,List.map_map]
    rfl

/-- The devices that the check finds are devices. -/
theorem childDevices_kind {c : Node} : ∀ r∈childDevices c, r.kind=.device := by
  intro r hr
  unfold childDevices at hr
  split at hr
  · obtain ⟨_,-,rfl⟩ := List.mem_map.mp hr
    rfl
  · cases hr

/-- The check finds the registers of a board. -/
theorem devices_tree {inputs : Inputs} (hworded : ∀ r∈registers inputs, Worded r)
    (hnonempty : ∀ r∈registers inputs, r.start<r.stop) :
    ((tree inputs).children.flatMap childDevices).map regionRange=registers inputs := by
  have hregs : (tree inputs).children.flatMap regRanges=registers inputs := by
    have hspan : ∀ r∈registers inputs, (regionOf r).span=r := by
      intro r hr
      have hstart := hnonempty r hr
      have hstop : r.start+(r.stop-r.start)=r.stop := by omega
      change (⟨r.start,r.start+(r.stop-r.start)⟩ : Range)=r
      rw [hstop]
    calc (tree inputs).children.flatMap regRanges
        =((tree inputs).children.flatMap regs).map Tatu.Validate.Region.span := by
          rw [List.map_flatMap]
          exact List.flatMap_congr fun c _ => regRanges_eq c
      _=((registers inputs).map regionOf).map Tatu.Validate.Region.span := by
          rw [←deviceRegions_eq,deviceRegions_tree hworded]
      _=registers inputs := by
          rw [List.map_map]
          exact (List.map_congr_left hspan).trans (List.map_id _)
  rw [List.map_flatMap,List.flatMap_congr fun c _ => childDevices_range c,←List.filter_flatMap,
    hregs]
  exact List.filter_eq_self.mpr fun r hr => decide_eq_true (hnonempty r hr)

/-- The cells of a property are read back. -/
theorem beCells_flatMap {cells : List ℕ} (h : ∀ c∈cells, c<2^32) :
    beCells (cells.flatMap (beBytes 4))=cells := by
  induction cells with
  | nil => rfl
  | cons c cells ih =>
    obtain ⟨hc,h⟩ := List.forall_mem_cons.mp h
    have hlen : (beBytes 4 c).length=4 := length_beBytes 4 c
    have hcell : ofBE (beBytes 4 c)=c := by
      rw [ofBE_beBytes]
      exact Nat.mod_eq_of_lt hc
    rw [List.flatMap_cons,beCells_step (by rw [List.length_append]; omega),slice,List.drop_zero,
      List.take_left' hlen,List.drop_left' hlen,hcell,ih h]

/-- A node without `ranges` has no window. -/
theorem childWindow_none {c : Node} (h : c.property "ranges"=none) : childWindow c=none := by
  rw [childWindow,h]
  rfl

/-- The window of the host bridge is the one that was planned. -/
theorem childWindow_pci {arch : Kernel.Image.Arch} {ecam window : Range} (h : Worded window)
    (hpos : 0<BaseDtb.sizeOf window) :
    childWindow (pciNode arch ecam window)=some (window.start,BaseDtb.sizeOf window) := by
  have hword : ∀ v, v<2^64 → cellWord (v/2^32) (v%2^32)=v := by
    intro v _
    unfold cellWord
    omega
  have hcells : ∀ c∈[pciMem64]++cells64 window.start++cells64 window.start++
      cells64 (BaseDtb.sizeOf window), c<2^32 := by
    have hhalves : ∀ v, v<2^64 → ∀ c∈cells64 v, c<2^32 := by
      intro v hv c hc
      rcases List.mem_cons.mp hc with rfl | hc
      · omega
      · rw [List.mem_singleton.mp hc]
        omega
    refine List.forall_mem_append.mpr ⟨List.forall_mem_append.mpr
      ⟨List.forall_mem_append.mpr ⟨?_,hhalves _ h.start⟩,hhalves _ h.start⟩,hhalves _ h.size⟩
    intro c hc
    rw [List.mem_singleton.mp hc]
    decide
  have hranges : (pciNode arch ecam window).property "ranges"=some (([pciMem64]++
      cells64 window.start++cells64 window.start++cells64 (BaseDtb.sizeOf window)).flatMap
        (beBytes 4)) := by
    cases arch <;> rfl
  rw [childWindow,hranges,Option.map_some,beCells_flatMap hcells]
  change (if 0<cellWord (BaseDtb.sizeOf window/2^32) (BaseDtb.sizeOf window%2^32) then
    some (cellWord (window.start/2^32) (window.start%2^32),
      cellWord (BaseDtb.sizeOf window/2^32) (BaseDtb.sizeOf window%2^32)) else none)=_
  rw [hword _ h.start,hword _ h.size,if_pos hpos]

/-- The platform has no `ranges`. -/
theorem platform_ranges (inputs : Inputs) :
    ∀ c∈addPlatform inputs, c.property "ranges"=none := by
  have hserial : ∀ parent cells, ∀ c∈(inputs.serial.map fun s =>
      serialNode s (interruptRouting parent cells)).toList, c.property "ranges"=none := by
    intro parent cells c hc
    obtain ⟨s,-,rfl⟩ := Option.map_eq_some_iff.mp (Option.mem_toList.mp hc)
    rfl
  have hvirtio : ∀ parent (cells : ℕ → List ℕ), ∀ c∈inputs.virtio.mapIdx fun i v =>
      virtioNode v (interruptRouting parent (cells i)), c.property "ranges"=none := by
    intro parent cells c hc
    obtain ⟨i,hi,rfl⟩ := List.mem_mapIdx.mp hc
    rfl
  intro c hc
  rw [addPlatform] at hc
  cases harch : inputs.arch with
  | x86_64 =>
    rw [harch,x86Platform,List.mem_append,List.mem_append] at hc
    rcases hc with (hc | hc) | hc
    · simp only [List.mem_cons,List.not_mem_nil,or_false] at hc
      rcases hc with rfl | rfl | rfl | rfl <;> rfl
    · exact hserial _ _ c hc
    · exact hvirtio _ (fun i => [16+i,1]) c hc
  | aarch64 =>
    rw [harch,aarch64Platform,List.mem_append,List.mem_append] at hc
    rcases hc with (hc | hc) | hc
    · simp only [List.mem_cons,List.not_mem_nil,or_false] at hc
      rcases hc with rfl | rfl | rfl | rfl <;> rfl
    · exact hserial _ _ c hc
    · exact hvirtio _ (fun i => [0,16+i,1]) c hc

/-- Nodes without a window leave the one that was found. -/
theorem foldl_window {l : List Node} (h : ∀ c∈l, childWindow c=none) (found : Option (ℕ×ℕ)) :
    l.foldl (fun window child => (childWindow child).or window) found=found := by
  induction l with
  | nil => rfl
  | cons c l ih =>
    obtain ⟨hc,h⟩ := List.forall_mem_cons.mp h
    rw [List.foldl_cons,hc,Option.none_or,ih h]

/-- Only the host bridge has `ranges`. -/
theorem plain_ranges (inputs : Inputs) :
    ∀ c∈chosenNode inputs::(aliasesNode inputs++addPlatform inputs), c.property "ranges"=none := by
  intro c hc
  rcases List.mem_cons.mp hc with rfl | hc
  · obtain ⟨arch,cmdline,initrd,serial,virtio,ecam,window⟩ := inputs
    cases serial <;> cases initrd <;> rfl
  · rcases List.mem_append.mp hc with hc | hc
    · obtain ⟨s,-,rfl⟩ := Option.map_eq_some_iff.mp (Option.mem_toList.mp hc)
      rfl
    · exact platform_ranges inputs c hc

/-- The check finds the window of the host bridge, if there is one. -/
theorem barWindow_pci (inputs : Inputs) : barWindow (tree inputs)=
    (pciNodes inputs).foldl (fun window child => (childWindow child).or window) none := by
  have hchildren : (tree inputs).children=
      (chosenNode inputs::(aliasesNode inputs++addPlatform inputs))++pciNodes inputs := rfl
  rw [barWindow,hchildren,List.foldl_append,
    foldl_window fun c hc => childWindow_none (plain_ranges inputs c hc)]

/-- It is the one that was planned. -/
theorem barWindow_tree {inputs : Inputs}
    (h : ∀ w∈inputs.pciWindow, Worded w ∧ 0<BaseDtb.sizeOf w)
    (hbridge : inputs.ecam.isSome=inputs.pciWindow.isSome) : barWindow (tree inputs)=
      inputs.pciWindow.map fun w => (w.start,BaseDtb.sizeOf w) := by
  rw [barWindow_pci,pciNodes]
  cases hwindow : inputs.pciWindow with
  | none => cases inputs.ecam <;> rfl
  | some window =>
    rw [hwindow,Option.isSome_some] at hbridge
    obtain ⟨ecam,hecam⟩ := Option.isSome_iff_exists.mp hbridge
    obtain ⟨hworded,hpos⟩ := h window hwindow
    rw [hecam]
    dsimp only
    rw [List.foldl_cons,childWindow_pci hworded hpos]
    rfl

end Arma.Check.Board
