import Mathlib.Tactic.Common
import Arma.BaseDtb
import Arma.Tatu.Overlay

/-!
# Registers of the base devicetree

A device of the board says in its `reg` where its registers are. The validator
collects them from the children of the root: the fixed devices, the serial port,
the transports and the configuration space of the host bridge, in this order.
-/

namespace Arma.BaseDtb.Registers

open Base.ByteString BaseDtb Devtree Kernel.Image Planner.Model Tatu.Overlay Tatu.Validate

/-- The region of a range. -/
def regionOf (r : Range) : Region := ⟨r.start,BaseDtb.sizeOf r⟩

/-- The registers of the host bridge. -/
def bridgeRegisters (inputs : Inputs) : List Range :=
  match inputs.ecam,inputs.pciWindow with
  | some ecam,some _ => [ecam]
  | _,_ => []

/-- The registers of all devices, in the order of the tree. -/
def registers (inputs : Inputs) : List Range :=
  archReserved inputs.arch++inputs.serial.toList++inputs.virtio++bridgeRegisters inputs

/-- Start and size of a range are 64-bit words. -/
structure Worded (r : Range) : Prop where
  /-- The start is a word. -/
  start : r.start<2^64
  /-- The size is a word. -/
  size : BaseDtb.sizeOf r<2^64

/-- The two cells of a word are read back as one. -/
theorem ofBE_cells64 {v : ℕ} (h : v<2^64) : ofBE ((cells64 v).flatMap (beBytes 4))=v := by
  have hhigh : v/2^32%256^4=v/2^32 := Nat.mod_eq_of_lt (by omega)
  have hlow : v%2^32%256^4=v%2^32 := Nat.mod_eq_of_lt (by omega)
  rw [cells64,List.flatMap_cons,List.flatMap_singleton,ofBE_append,length_beBytes,ofBE_beBytes,
    ofBE_beBytes,hhigh,hlow]
  omega

/-- A `reg` of one range is read back. -/
theorem parseRegions_reg {r : Range} (h : Worded r) :
    parseRegions (regProperty r.start (BaseDtb.sizeOf r)).value=[regionOf r] := by
  have hvalue : (regProperty r.start (BaseDtb.sizeOf r)).value=
      (cells64 r.start).flatMap (beBytes 4)++(cells64 (BaseDtb.sizeOf r)).flatMap (beBytes 4) :=
    List.flatMap_append
  have hcells : ∀ v, ((cells64 v).flatMap (beBytes 4)).length=8 := fun v => by
    rw [length_flatMap_records fun c _ => length_beBytes 4 c]
    rfl
  have hlen : (regProperty r.start (BaseDtb.sizeOf r)).value.length=16 := by
    rw [hvalue,List.length_append,hcells,hcells]
  have hchunk : parseOneRegion (regProperty r.start (BaseDtb.sizeOf r)).value=regionOf r := by
    have hsize : ((cells64 (BaseDtb.sizeOf r)).flatMap (beBytes 4)).take 8=
        (cells64 (BaseDtb.sizeOf r)).flatMap (beBytes 4) :=
      List.take_of_length_le (hcells _).le
    rw [parseOneRegion,hvalue,slice,slice,List.drop_zero,List.take_left' (hcells _),
      List.drop_left' (hcells _),hsize,ofBE_cells64 h.start,ofBE_cells64 h.size]
    rfl
  rw [parseRegions,hlen]
  change [parseOneRegion (List.take 16 _)]=_
  rw [List.take_of_length_le hlen.le,hchunk]

/-- A node has the region of its `reg`. -/
theorem regs_reg {n : Node} {r : Range} (h : Worded r)
    (hreg : n.property "reg"=some (regProperty r.start (BaseDtb.sizeOf r)).value) :
    regs n=[regionOf r] := by
  rw [regs,hreg,Option.map_some,Option.getD_some,parseRegions_reg h]

/-- A unit address is no part of the name. -/
theorem topSegment_unitName {name : String} (h : '@'∉name.toList) (base : ℕ) :
    topSegment (unitName name base)=name := by
  have hname : ∀ c∈name.toList, (c != '@')=true := by
    intro c hc
    rw [bne_iff_ne]
    intro heq
    exact h (heq ▸ hc)
  have hlist : (unitName name base).toList=name.toList++ '@'::(hex base).toList := by
    rw [unitName,String.toList_append,String.toList_append,List.append_assoc]
    rfl
  rw [topSegment,hlist,List.takeWhile_append_of_pos hname,
    List.takeWhile_cons_of_neg (by decide),List.append_nil,String.ofList_toList]

/-- What each element of a numbered list gives, when it does not depend on the
number. -/
theorem flatMap_mapIdx_map {α β γ : Type} {l : List α} {node : ℕ → α → β} {f : β → List γ}
    {g : α → γ} (h : ∀ i, ∀ a∈l, f (node i a)=[g a]) : (l.mapIdx node).flatMap f=l.map g := by
  induction l generalizing node with
  | nil => rfl
  | cons a rest ih =>
    have hrest : ∀ i, ∀ b∈rest, f (node (i+1) b)=[g b] := fun i b hb =>
      h (i+1) b (List.mem_cons_of_mem _ hb)
    rw [List.mapIdx_cons,List.flatMap_cons,h 0 a List.mem_cons_self,ih hrest]
    rfl

/-- The names of the nodes of a board. -/
def boardNames : List String :=
  ["chosen","aliases","interrupt-controller","poweroff","reboot","msi-controller","timer","psci",
    "serial","virtio_mmio","pcie"]

/-- The name of a node with a unit address is in the list when the name is. -/
theorem unitName_mem {name : String} (hname : name∈boardNames) (base : ℕ) :
    topSegment (unitName name base)∈boardNames := by
  have hplain : ∀ n∈boardNames, '@'∉n.toList := by decide
  rw [topSegment_unitName (hplain name hname)]
  exact hname

/-- What a child of the root of a board is like. -/
structure BoardChild (c : Node) : Prop where
  /-- Its name is in the list. -/
  name : topSegment c.name∈boardNames
  /-- Its `reg` is made of pairs of words. -/
  reg : ∀ raw, c.property "reg"=some raw → raw.length%16=0

/-- A node with registers, given as cells. -/
theorem BoardChild.of_cells {c : Node} (cells : List ℕ) (hname : topSegment c.name∈boardNames)
    (hreg : c.property "reg"=some (cells.flatMap (beBytes 4))) (hcells : cells.length%4=0) :
    BoardChild c := by
  refine ⟨hname,fun raw hraw => ?_⟩
  cases hreg.symm.trans hraw
  rw [length_flatMap_records fun c _ => length_beBytes 4 c]
  omega

/-- A node with one range of registers. -/
theorem BoardChild.of_range {c : Node} {base size : ℕ} (hname : topSegment c.name∈boardNames)
    (hreg : c.property "reg"=some (regProperty base size).value) : BoardChild c :=
  .of_cells (cells64 base++cells64 size) hname hreg (Nat.mod_self 4)

/-- A node without registers. -/
theorem BoardChild.of_none {c : Node} (hname : topSegment c.name∈boardNames)
    (hreg : c.property "reg"=none) : BoardChild c := by
  refine ⟨hname,fun raw hraw => ?_⟩
  cases hreg.symm.trans hraw

/-- The nodes of the platform. -/
theorem platform_children (inputs : Inputs) : ∀ c∈addPlatform inputs, BoardChild c := by
  have hunit : ∀ name∈["interrupt-controller","poweroff","reboot","msi-controller","serial",
      "virtio_mmio"], ∀ base, topSegment (unitName name base)∈boardNames := by
    have hnames : ∀ name∈["interrupt-controller","poweroff","reboot","msi-controller","serial",
        "virtio_mmio"], name∈boardNames := by decide
    exact fun name hname => unitName_mem (hnames name hname)
  have hserial : ∀ routing : List Property,
      ∀ c∈(inputs.serial.map fun s => serialNode s routing).toList, BoardChild c := by
    intro routing c hc
    have ⟨s,_,heq⟩ := Option.map_eq_some_iff.mp (Option.mem_toList.mp hc)
    subst heq
    exact .of_range (hunit "serial" (by decide) s.start) rfl
  have hvirtio : ∀ routing : ℕ → List Property,
      ∀ c∈inputs.virtio.mapIdx fun i v => virtioNode v (routing i), BoardChild c := by
    intro routing c hc
    have ⟨i,hi,heq⟩ := List.mem_mapIdx.mp hc
    subst heq
    exact .of_range (hunit "virtio_mmio" (by decide) inputs.virtio[i].start) rfl
  intro c hc
  rw [addPlatform] at hc
  cases harch : inputs.arch with
  | x86_64 =>
    rw [harch] at hc
    rcases List.mem_append.mp hc with hc | hc
    · rcases List.mem_append.mp hc with hc | hc
      · simp only [List.mem_cons,List.not_mem_nil,or_false] at hc
        rcases hc with rfl | rfl | rfl | rfl
        · exact .of_range (hunit "interrupt-controller" (by decide) lapicBase) rfl
        · exact .of_range (hunit "interrupt-controller" (by decide) ioapicBase) rfl
        · exact .of_range (hunit "poweroff" (by decide) poweroffBase) rfl
        · exact .of_range (hunit "reboot" (by decide) rebootBase) rfl
      · exact hserial _ c hc
    · exact hvirtio (fun i => interruptRouting ioapicPhandle [16+i,1]) c hc
  | aarch64 =>
    rw [harch] at hc
    rcases List.mem_append.mp hc with hc | hc
    · rcases List.mem_append.mp hc with hc | hc
      · have htimer : topSegment "timer"∈boardNames := by decide
        have hpsci : topSegment "psci"∈boardNames := by decide
        simp only [List.mem_cons,List.not_mem_nil,or_false] at hc
        rcases hc with rfl | rfl | rfl | rfl
        · exact .of_cells (cells64 gicDistBase++cells64 gicPageSize++cells64 gicRedistBase++
            cells64 gicRedistSize) (hunit "interrupt-controller" (by decide) gicDistBase) rfl rfl
        · exact .of_range (hunit "msi-controller" (by decide) gicMsiBase) rfl
        · exact .of_none htimer rfl
        · exact .of_none hpsci rfl
      · exact hserial _ c hc
    · exact hvirtio (fun i => interruptRouting intcPhandle [0,16+i,1]) c hc

/-- The nodes of a board. -/
theorem tree_children (inputs : Inputs) : ∀ c∈(tree inputs).children, BoardChild c := by
  intro c hc
  rcases List.mem_cons.mp hc with rfl | hc
  · have hname : topSegment "chosen"∈boardNames := by decide
    obtain ⟨arch,cmdline,initrd,serial,virtio,ecam,window⟩ := inputs
    refine .of_none hname ?_
    cases serial <;> cases initrd <;> rfl
  · rcases List.mem_append.mp hc with hc | hc
    · rcases List.mem_append.mp hc with hc | hc
      · have hname : topSegment "aliases"∈boardNames := by decide
        have ⟨s,_,heq⟩ := Option.map_eq_some_iff.mp (Option.mem_toList.mp hc)
        subst heq
        exact .of_none hname rfl
      · exact platform_children inputs c hc
    · rw [pciNodes] at hc
      cases hecam : inputs.ecam with
      | none =>
        rw [hecam] at hc
        cases hc
      | some ecam =>
        cases hwindow : inputs.pciWindow with
        | none =>
          rw [hecam,hwindow] at hc
          cases hc
        | some window =>
          rw [hecam,hwindow] at hc
          cases List.mem_singleton.mp hc
          exact .of_range (unitName_mem (by decide) ecam.start) rfl

/-- A node of a board is none of those that a host may add. -/
theorem BoardChild.outside {c : Node} (h : BoardChild c) : hostSurface c.name=false := by
  have hboard : ∀ name∈boardNames, name∉["cpus","memory","distance-map"] := by decide
  exact decide_eq_false (hboard _ h.name)

/-- All nodes of a board are devices to the validator. -/
theorem deviceRegions_eq (inputs : Inputs) :
    deviceRegions (tree inputs)=(tree inputs).children.flatMap regs := by
  rw [deviceRegions,deviceNodes,List.filter_eq_self.mpr]
  intro c hc
  have hhost : topSegment c.name∉["cpus","memory","distance-map"] :=
    of_decide_eq_false (tree_children inputs c hc).outside
  refine decide_eq_true ⟨fun heq => hhost ?_,fun heq => hhost ?_⟩
  · rw [heq]
    exact List.mem_cons_self
  · rw [heq]
    exact List.mem_cons_of_mem _ List.mem_cons_self

/-- The fixed devices, the serial port and the transports have the registers of
the platform. -/
theorem platform_regs {inputs : Inputs} (hserial : ∀ r∈inputs.serial, Worded r)
    (hvirtio : ∀ r∈inputs.virtio, Worded r) :
    (addPlatform inputs).flatMap regs=
      (archReserved inputs.arch++inputs.serial.toList++inputs.virtio).map regionOf := by
  have hport : ∀ routing : List Property,
      (inputs.serial.map fun s => serialNode s routing).toList.flatMap regs=
        inputs.serial.toList.map regionOf := by
    intro routing
    cases hs : inputs.serial with
    | none => rfl
    | some s =>
      have hregs := @regs_reg (serialNode s routing) s (hserial s hs) rfl
      change regs (serialNode s routing)++[]=_
      rw [hregs]
      rfl
  have hslots : ∀ routing : ℕ → List Property,
      (inputs.virtio.mapIdx fun i v => virtioNode v (routing i)).flatMap regs=
        inputs.virtio.map regionOf := fun routing =>
    flatMap_mapIdx_map fun i v hv => @regs_reg (virtioNode v (routing i)) v (hvirtio v hv) rfl
  rw [addPlatform,List.map_append,List.map_append]
  cases inputs.arch with
  | x86_64 =>
    rw [x86Platform,List.flatMap_append,List.flatMap_append,hport,
      hslots fun i => interruptRouting ioapicPhandle [16+i,1]]
    congr 2
  | aarch64 =>
    rw [aarch64Platform,List.flatMap_append,List.flatMap_append,hport,
      hslots fun i => interruptRouting intcPhandle [0,16+i,1]]
    congr 2

/-- The validator collects the registers of a board. -/
theorem deviceRegions_tree {inputs : Inputs} (h : ∀ r∈registers inputs, Worded r) :
    deviceRegions (tree inputs)=(registers inputs).map regionOf := by
  have ⟨hplatform,hbridge⟩ := List.forall_mem_append.mp h
  have ⟨hfixed,hvirtio⟩ := List.forall_mem_append.mp hplatform
  have ⟨_,hserial⟩ := List.forall_mem_append.mp hfixed
  have hchosen : regs (chosenNode inputs)=[] := by
    obtain ⟨arch,cmdline,initrd,serial,virtio,ecam,window⟩ := inputs
    cases serial <;> cases initrd <;> rfl
  have haliases : (aliasesNode inputs).flatMap regs=[] := by
    obtain ⟨arch,cmdline,initrd,serial,virtio,ecam,window⟩ := inputs
    cases serial <;> rfl
  have hpci : (pciNodes inputs).flatMap regs=(bridgeRegisters inputs).map regionOf := by
    rw [pciNodes,bridgeRegisters]
    rw [bridgeRegisters] at hbridge
    cases hecam : inputs.ecam with
    | none => rfl
    | some ecam =>
      cases hwindow : inputs.pciWindow with
      | none => rfl
      | some window =>
        rw [hecam,hwindow] at hbridge
        have hregs := @regs_reg (pciNode inputs.arch ecam window) ecam
          (hbridge ecam List.mem_cons_self) rfl
        change regs (pciNode inputs.arch ecam window)++[]=_
        rw [hregs]
        rfl
  rw [deviceRegions_eq]
  change (chosenNode inputs::(aliasesNode inputs++addPlatform inputs++pciNodes inputs)).flatMap
    regs=_
  rw [List.flatMap_cons,List.flatMap_append,List.flatMap_append,hchosen,haliases,hpci,
    platform_regs (fun r hr => hserial r (Option.mem_toList.mpr hr)) hvirtio,List.nil_append,
    List.nil_append,←List.map_append,registers]

end Arma.BaseDtb.Registers
