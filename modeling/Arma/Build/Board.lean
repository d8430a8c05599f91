import Arma.BaseDtb.Registers
import Arma.Build.Mapped
import Arma.Planner.Devices

/-!
# The boards that tatu accepts

arma emits as many devices as it is asked for and checks only that their
devicetree fits its section. The validator collects the registers of all devices
in a vector of fixed capacity and compares each of them with the width of the
address space.
-/

namespace Arma.Build.Board

open Base.ByteString Base.Checked BaseDtb BaseDtb.Registers Build.Header Build.Mapped Build.Run
open Devtree Devtree.Merge Kernel.Image Planner.Bound Planner.Devices Planner.Model
open Planner.Separation Tatu.Overlay Tatu.Validate

/-- What the host adds to a board is well formed, and its memory is off the devices. -/
structure HostFits (base merged : Node) (paBits : ℕ) : Prop where
  /-- There are not too many cpus. -/
  cpus : cpuChildren merged.children ≤ maxCpus
  /-- The memory is in the address space. -/
  memory : ∀ node∈merged.children, topSegment node.name="memory" → RegValid paBits node
  /-- It has not too many regions. -/
  regions : (memoryRegions merged).length ≤ maxMemoryRegions
  /-- A distance map has no registers. -/
  distances : ∀ node∈merged.children, topSegment node.name="distance-map" →
    node.property "reg"=none
  /-- The memory is off every device of the board. -/
  separate : ∀ m∈memoryRegions merged, ∀ d∈deviceRegions base, m.span.Separate d.span
  /-- Every release address is safe. -/
  release : ∀ node∈cpusNodes merged.children, ∀ cpu∈node.children,
    ReleaseAddrValid merged paBits cpu

/-- The registers of a board, each of them a nonempty range of the address space. -/
structure RegistersFit (base : Node) (bits : ℕ) : Prop where
  /-- There is room for them. -/
  number : (deviceRegions base).length ≤ maxDeviceRanges
  /-- None is empty. -/
  nonempty : ∀ r∈deviceRegions base, 0 < r.size
  /-- They are in the address space. -/
  inside : ∀ r∈deviceRegions base, r.gpa+r.size≤2^bits

/-- tatu accepts a board that was planned for an address space of `bits` bits. -/
structure TatuAccepts [OverlayLib] (base : Node) (bits : ℕ) : Prop where
  /-- The registers of its devices fit. -/
  registers : RegistersFit base bits
  /-- In an address space of that width at least, the board with what a host adds
  is valid. -/
  merged : ∀ paBits, bits≤paBits → paBits<64 → ∀ overlay merged,
    validateHostDtbo overlay base=.ok () → apply base overlay=some merged →
    HostFits base merged paBits → validateMerged merged paBits=.ok ()

/-- Number of register ranges of the fixed devices and of those asked for. -/
def registerCount (arch : Arch) (args : ArgsSpec) : ℕ :=
  (archReserved arch).length+(if args.serial then 1 else 0)+args.mmioSlots+
    if 0<args.pciSlots then 1 else 0

/-- The devices are few enough and the fixed ones are in the address space. -/
structure DevicesFit (arch : Arch) (args : ArgsSpec) : Prop where
  /-- There are not too many of them. -/
  number : registerCount arch args ≤ maxDeviceRanges
  /-- The fixed ones are in the address space. -/
  fixed : ∀ r∈archReserved arch, r.stop≤2^args.addrSpaceBits

/-- Elements that give nothing do not matter. -/
theorem flatMap_filter_congr {α β : Type} {p q : α → Bool} {f : α → List β} {l : List α}
    (h : ∀ a∈l, p a=q a ∨ f a=[]) : (l.filter p).flatMap f=(l.filter q).flatMap f := by
  induction l with
  | nil => rfl
  | cons a rest ih =>
    have ⟨ha,hrest⟩ := List.forall_mem_cons.mp h
    have hstep : ∀ r : α → Bool, ((a::rest).filter r).flatMap f=
        (if r a=true then f a else [])++(rest.filter r).flatMap f := by
      intro r
      rw [List.filter_cons]
      cases r a with
      | true => rfl
      | false => rfl
    rw [hstep,hstep,ih hrest]
    rcases ha with heq | hnil
    · rw [heq]
    · rw [hnil,ite_self,ite_self]

/-- The device regions of a tree are those of the nodes that are not the host's, when
its distance maps have no registers. -/
theorem deviceRegions_outside {root : Node}
    (h : ∀ node∈root.children, topSegment node.name="distance-map" → node.property "reg"=none) :
    deviceRegions root=(outside root).flatMap regs := by
  refine flatMap_filter_congr fun c hc => ?_
  by_cases hdistance : topSegment c.name="distance-map"
  · right
    rw [regs,h c hc hdistance]
    rfl
  · left
    rw [hostSurface,←decide_not]
    simp only [List.mem_cons,List.not_mem_nil,or_false,not_or,hdistance]

/-- Domains do not change the regions. -/
theorem regs_gains {b c : Node} (h : Gains "numa-node-id" b c) : regs c=regs b := by
  rw [regs,regs,h.property (by decide)]

/-- Nodes that gain domains have their regions. -/
theorem flatMap_regs_gains {before after : List Node}
    (h : List.Forall₂ (Gains "numa-node-id") before after) :
    after.flatMap regs=before.flatMap regs := by
  induction h with
  | nil => rfl
  | cons hhead _ ih => rw [List.flatMap_cons,List.flatMap_cons,regs_gains hhead,ih]

section Overlaid

variable [OverlayLib] {inputs : Inputs} {overlay : List Fragment} {merged : Node} {paBits : ℕ}

/-- The device regions of a board stay as they are. -/
theorem deviceRegions_merged (law : PathLaw) (hok : validateHostDtbo overlay (tree inputs)=.ok ())
    (happly : apply (tree inputs) overlay=some merged)
    (hhost : HostFits (tree inputs) merged paBits) :
    deviceRegions merged=deviceRegions (tree inputs) := by
  have hbare : ∀ node∈(tree inputs).children, topSegment node.name="distance-map" →
      node.property "reg"=none := by
    intro node hnode hname
    have houtside := (tree_children inputs node hnode).outside
    have hmem : hostSurface node.name=true := by
      rw [hostSurface,hname]
      decide
    rw [houtside] at hmem
    cases hmem
  rw [deviceRegions_outside hhost.distances,deviceRegions_outside hbare]
  exact flatMap_regs_gains (frame_apply law hok happly).outside

/-- A node outside the host's reach has well-formed registers. -/
theorem outside_valid (law : PathLaw) {bits : ℕ} (hfit : RegistersFit (tree inputs) bits)
    (hbits : bits≤paBits) (hpa : paBits<64)
    (hok : validateHostDtbo overlay (tree inputs)=.ok ())
    (happly : apply (tree inputs) overlay=some merged) {c : Node} (hc : c∈merged.children)
    (hname : hostSurface c.name=false) : RegValid paBits c := by
  have houtside : c∈outside merged := List.mem_filter.mpr ⟨hc,by rw [hname]; rfl⟩
  have hframe := (frame_apply law hok happly).outside
  have ⟨b,hb,hgains⟩ := forall₂_mem hframe.flip houtside
  have hchild := (List.mem_filter.mp hb).1
  have hsame : c.property "reg"=b.property "reg" := hgains.property (by decide)
  intro raw hraw
  rw [hsame] at hraw
  refine ⟨(tree_children inputs b hchild).reg raw hraw,fun r hr => ?_⟩
  have hregion : r∈deviceRegions (tree inputs) := by
    rw [deviceRegions_eq]
    refine List.mem_flatMap.mpr ⟨b,hchild,?_⟩
    rw [regs,hraw]
    exact hr
  have hle := hfit.inside r hregion
  have hwide : 2^bits≤2^paBits := Nat.pow_le_pow_right (Nat.succ_pos 1) hbits
  have hword : 2^paBits<2^64 := Nat.pow_lt_pow_right (by decide) hpa
  exact ⟨hfit.nonempty r hregion,by omega,by omega⟩

/-- A board with registers that fit is valid with what a host adds. -/
theorem RegistersFit.valid (law : PathLaw) {bits : ℕ} (hfit : RegistersFit (tree inputs) bits)
    (hbits : bits≤paBits) (hpa : paBits<64)
    (hok : validateHostDtbo overlay (tree inputs)=.ok ())
    (happly : apply (tree inputs) overlay=some merged)
    (hhost : HostFits (tree inputs) merged paBits) : validateMerged merged paBits=.ok () := by
  have hdevices := deviceRegions_merged law hok happly hhost
  refine MergedValid.accepted hpa ?_
  constructor
  · exact hhost.cpus
  · intro node hnode hcpus
    by_cases hmemory : topSegment node.name="memory"
    · exact hhost.memory node hnode hmemory
    · by_cases hdistance : topSegment node.name="distance-map"
      · intro raw hraw
        rw [hhost.distances node hnode hdistance] at hraw
        cases hraw
      · refine outside_valid law hfit hbits hpa hok happly hnode (decide_eq_false ?_)
        intro hmem
        simp only [List.mem_cons,List.not_mem_nil,or_false] at hmem
        rcases hmem with h | h | h
        · exact hcpus h
        · exact hmemory h
        · exact hdistance h
  · exact hhost.regions
  · rw [hdevices]
    exact hfit.number
  · rw [hdevices]
    exact hhost.separate
  · exact hhost.release

end Overlaid

/-- The ranges of the fixed devices are nonempty, and end at words. -/
theorem archReserved_words (arch : Arch) :
    ∀ r∈archReserved arch, r.start < r.stop ∧ r.stop≤2^63 := by
  cases arch with
  | x86_64 => decide
  | aarch64 => decide

/-- The registers of a planned board. -/
theorem registers_planned {input : BuildInput} {tatu : TatuImage.TatuImage} {k : LoadedKernel}
    {lay : Layout} (h : (plannerFor input tatu k).plan=.ok lay) :
    registers (dtbInputs input k lay)=
      archReserved k.parsed.arch++lay.serial.toList++lay.virtio++lay.ecam.toList := by
  have hhanded := plan_handed h
  have hwindow := (plan_ok h).window
  have hbridge : bridgeRegisters (dtbInputs input k lay)=lay.ecam.toList := by
    have hinputs : (dtbInputs input k lay).ecam=lay.ecam ∧
        (dtbInputs input k lay).pciWindow=lay.pciWindow := ⟨rfl,rfl⟩
    rw [bridgeRegisters,hinputs.1,hinputs.2,hwindow]
    cases hecam : lay.ecam with
    | none => rfl
    | some ecam =>
      have hspace := hhanded.space
      rw [hecam] at hspace
      rw [if_pos (of_decide_eq_true hspace.symm)]
      rfl
  rw [registers,hbridge]
  rfl

/-- There are as many as were asked for. -/
theorem length_registers {input : BuildInput} {tatu : TatuImage.TatuImage} {k : LoadedKernel}
    {lay : Layout} (h : (plannerFor input tatu k).plan=.ok lay) :
    (registers (dtbInputs input k lay)).length=
      registerCount k.parsed.arch (plannerFor input tatu k).args := by
  have hhanded := plan_handed h
  have hcount : ∀ (o : Option Range) (b : Bool), o.isSome=b →
      o.toList.length=if b=true then 1 else 0 := by
    intro o b hb
    subst hb
    cases o with
    | none => rfl
    | some r => rfl
  rw [registers_planned h,List.length_append,List.length_append,List.length_append,
    hcount _ _ hhanded.port,hcount _ _ hhanded.space,hhanded.slots,registerCount]
  simp only [decide_eq_true_eq]

/-- The registers are nonempty and end at words, and those that were asked for are in
the address space. -/
theorem registers_words {input : BuildInput} {tatu : TatuImage.TatuImage} {k : LoadedKernel}
    {lay : Layout} (h : (plannerFor input tatu k).plan=.ok lay) :
    ∀ r∈registers (dtbInputs input k lay), (r.start < r.stop ∧ r.stop≤2^63) ∧
      (r∈archReserved k.parsed.arch ∨ r.stop≤2^(plannerFor input tatu k).args.addrSpaceBits) := by
  have hcarved : ∀ r∈carved lay, (r.start < r.stop ∧ r.stop≤2^63) ∧
      r.stop≤2^(plannerFor input tatu k).args.addrSpaceBits := by
    intro r hr
    have hbelow := devices_below h (List.mem_append_left _ hr)
    have hhalf : 2^((plannerFor input tatu k).args.addrSpaceBits-1)≤
        2^(plannerFor input tatu k).args.addrSpaceBits :=
      Nat.pow_le_pow_right (Nat.succ_pos 1) (Nat.sub_le _ 1)
    exact ⟨plan_carved h r hr,hbelow.trans hhalf⟩
  intro r hr
  rw [registers_planned h] at hr
  rcases List.mem_append.mp hr with hr | hr
  · rcases List.mem_append.mp hr with hr | hr
    · rcases List.mem_append.mp hr with hr | hr
      · exact ⟨archReserved_words k.parsed.arch r hr,.inl hr⟩
      · have ⟨hwords,hspace⟩ := hcarved r
          (List.mem_append_left _ (List.mem_append_right _ hr))
        exact ⟨hwords,.inr hspace⟩
    · have ⟨hwords,hspace⟩ := hcarved r (List.mem_append_right _ hr)
      exact ⟨hwords,.inr hspace⟩
  · have ⟨hwords,hspace⟩ := hcarved r (List.mem_append_left _ (List.mem_append_left _ hr))
    exact ⟨hwords,.inr hspace⟩

/-- The registers of a planned board fit exactly when its devices do. -/
theorem registersFit_iff {input : BuildInput} {tatu : TatuImage.TatuImage} {k : LoadedKernel}
    {lay : Layout} (h : (plannerFor input tatu k).plan=.ok lay) :
    RegistersFit (tree (dtbInputs input k lay)) (plannerFor input tatu k).args.addrSpaceBits ↔
      DevicesFit k.parsed.arch (plannerFor input tatu k).args := by
  have hwords := registers_words h
  have hregions := @deviceRegions_tree (dtbInputs input k lay) fun r hr => by
    have ⟨⟨hstart,hstop⟩,_⟩ := hwords r hr
    refine ⟨by omega,?_⟩
    rw [BaseDtb.sizeOf]
    omega
  have hlength := length_registers h
  have hend : ∀ r∈registers (dtbInputs input k lay),
      (regionOf r).gpa+(regionOf r).size=r.stop ∧ 0<(regionOf r).size := by
    intro r hr
    have ⟨⟨hstart,_⟩,_⟩ := hwords r hr
    change r.start+(r.stop-r.start)=r.stop ∧ 0 < r.stop-r.start
    omega
  constructor
  · intro hfit
    constructor
    · rw [←hlength,←List.length_map regionOf,←hregions]
      exact hfit.number
    · intro r hr
      have hmem : r∈registers (dtbInputs input k lay) := by
        rw [registers_planned h]
        exact List.mem_append_left _ (List.mem_append_left _ (List.mem_append_left _ hr))
      have hinside := hfit.inside (regionOf r) (hregions ▸ List.mem_map_of_mem hmem)
      rw [(hend r hmem).1] at hinside
      exact hinside
  · intro hfit
    constructor
    · rw [hregions,List.length_map,hlength]
      exact hfit.number
    · intro d hd
      rw [hregions] at hd
      have ⟨r,hr,heq⟩ := List.mem_map.mp hd
      subst heq
      exact (hend r hr).2
    · intro d hd
      rw [hregions] at hd
      have ⟨r,hr,heq⟩ := List.mem_map.mp hd
      subst heq
      rw [(hend r hr).1]
      rcases (hwords r hr).2 with hfixed | hspace
      · exact hfit.fixed r hfixed
      · exact hspace

/-- tatu accepts a planned board, with whatever a host may add, exactly when its
devices are few enough and the fixed ones are in the address space. -/
theorem board_accepted_iff [OverlayLib] (law : PathLaw) {input : BuildInput}
    {tatu : TatuImage.TatuImage} {k : LoadedKernel} {lay : Layout}
    (h : (plannerFor input tatu k).plan=.ok lay) :
    TatuAccepts (tree (dtbInputs input k lay)) (plannerFor input tatu k).args.addrSpaceBits ↔
      DevicesFit k.parsed.arch (plannerFor input tatu k).args := by
  rw [←registersFit_iff h]
  constructor
  · intro haccepts
    exact haccepts.registers
  · intro hfit
    refine ⟨hfit,fun paBits hbits hpa overlay merged hok happly hhost => ?_⟩
    exact hfit.valid law hbits hpa hok happly hhost

/-- The board of a small build is accepted. -/
theorem board_accepted_iff_elf : ∃ b, run elfLibs resetTatu elfInput=.ok b ∧
    @TatuAccepts plainOverlayLib (tree (dtbInputs elfInput b.kernel b.lay)) 39 := by
  have ⟨b,hb,harch⟩ := run_elfInput
  have hbits : (plannerFor elfInput resetTatu b.kernel).args.addrSpaceBits=39 := by
    change (defaultBits b.kernel.parsed.arch).1=39
    rw [harch]
    rfl
  have hfit : DevicesFit b.kernel.parsed.arch (plannerFor elfInput resetTatu b.kernel).args := by
    constructor
    · rw [harch]
      change 5 ≤ maxDeviceRanges
      decide
    · rw [hbits,harch]
      decide
  refine ⟨b,hb,?_⟩
  rw [←hbits]
  exact (@board_accepted_iff plainOverlayLib pathLaw_plain _ _ _ _ (run_ok hb).plan).mpr hfit

/-- tatu with a section of 8 KiB for the base devicetree. -/
def slotsTatu : TatuImage.TatuImage :=
  ⟨[sampleSection ".tatu.bootinfo" 0x1000 [],
    {sampleSection ".tatu.dtb" 0x2000 [] with virtualSize := 0x2000},
    sampleSection ".tatu.dtbo" 0x4000 [],sampleSection ".tatu.pgt" 0x98000 [],
    sampleSection ".tatu.gdt" 0x9e000 [],sampleSection ".tatu.reset" 0xfffff000 []],0xfffffff0⟩

/-- A build with 61 transports and neither serial port nor PCI slots. -/
def slotsInput : BuildInput :=
  ⟨Kernel.Coverage.sampleFile 0,none,"quiet",false,false,61,0,none,none,"x86-64-v3",.detached⟩

/-- Its base devicetree fits the section, and the validator has no room for its
devices. -/
theorem slots_rejected : ∃ b, run elfLibs slotsTatu slotsInput=.ok b ∧
    b.payload.dtbBytes.length=8137 ∧ b.dtb.virtualSize=0x2000 ∧
    (deviceRegions (tree (dtbInputs slotsInput b.kernel b.lay))).length=65 ∧
    validateMerged (tree (dtbInputs slotsInput b.kernel b.lay)) 46=fail .tooManyDeviceRanges ∧
    ¬@TatuAccepts plainOverlayLib (tree (dtbInputs slotsInput b.kernel b.lay)) 39 := by
  have ⟨b,pe,hb,htest⟩ := @exists_run elfLibs slotsTatu slotsInput (fun b =>
    decide (b.payload.dtbBytes.length=8137 ∧ b.dtb.virtualSize=0x2000 ∧
      (deviceRegions (tree (dtbInputs slotsInput b.kernel b.lay))).length=65 ∧
      validateMerged (tree (dtbInputs slotsInput b.kernel b.lay)) 46=fail .tooManyDeviceRanges))
    (by decide +kernel)
  have ⟨hlength,hsize,hcount,hfail⟩ := of_decide_eq_true htest
  refine ⟨_,hb,hlength,hsize,hcount,hfail,?_⟩
  intro haccepts
  have hroom : (deviceRegions (tree (dtbInputs slotsInput b.kernel b.lay))).length≤64 :=
    (@TatuAccepts.registers plainOverlayLib _ _ haccepts).number
  omega

end Arma.Build.Board
