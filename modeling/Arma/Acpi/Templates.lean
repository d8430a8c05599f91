import Mathlib.Tactic.Common
import Arma.Acpi.Objects

/-!
# The resources of the devices

The template of a device is a row of descriptors: ranges of memory, bus numbers and an interrupt,
and then its end. Each is read as what was written, and so is the template as a whole.
-/

namespace Arma.Acpi.Templates

open Base.ByteString Base.Bytecode Base.Checked Base.Frames Base.Resources Base.Writer Devtree Dtb
  Aml Bridges Serial Count Namespace Objects

/-- A range of memory in fields of a width. -/
def memoryRange (width base size : ℕ) : Address := ⟨width,0,0,base,base+size-1,0,size⟩

/-- The range of the bus numbers of a bridge. -/
def busRange (bus : ℕ×ℕ) : Address := ⟨2,2,0,bus.1,bus.2,0,min (bus.2-bus.1+1) 255⟩

/-- The ranges of a window. -/
def windowRanges (r : PciRange) : List Address :=
  if r.spaceCode=2 then [memoryRange 4 r.parentAddr r.size]
  else if r.spaceCode=3 then [memoryRange 8 r.parentAddr r.size]
  else []

/-- A word within its width is read back. -/
theorem ofLE_word_eq {n v : ℕ} (h : v<256^n) : ofLE (leBytes n v)=v := by
  rw [ofLE_leBytes,Nat.mod_eq_of_lt h]

/-- A range of 64-bit memory is read. -/
theorem frame_memory {reg : ℕ×ℕ} (h : reg.1+reg.2<2^64) :
    Frame readResource (memoryDescriptor reg) (.address (memoryRange 8 reg.1 reg.2)) := by
  have hread : interpretResource 0x8A ([resTypeMemory,genflagsFixedRange,memflagsReadwrite]++
      (leBytes 8 0++(leBytes 8 reg.1++(leBytes 8 (reg.1+reg.2-1)++
        (leBytes 8 0++leBytes 8 reg.2)))))=some (.address (memoryRange 8 reg.1 reg.2)) := by
    change some (Resource.address ⟨8,0,ofLE (leBytes 8 0),ofLE (leBytes 8 reg.1),
      ofLE (leBytes 8 (reg.1+reg.2-1)),ofLE (leBytes 8 0),ofLE (leBytes 8 reg.2)⟩)=_
    rw [ofLE_word_eq (by omega),ofLE_word_eq (by omega),ofLE_word_eq (by omega),
      ofLE_word_eq (by omega)]
    rfl
  exact @frame_large 0x8A 0x2B 0x00 _ _ (by decide) rfl hread

/-- A range of 32-bit memory is read. -/
theorem frame_dword {base size : ℕ} (h : base+size<2^32) :
    Frame readResource (dwordMemoryTo base (base+size-1) size)
      (.address (memoryRange 4 base size)) := by
  have hread : interpretResource 0x87 ([resTypeMemory,genflagsFixedRange,memflagsReadwrite]++
      (leBytes 4 0++(leBytes 4 base++(leBytes 4 (base+size-1)++(leBytes 4 0++leBytes 4 size)))))=
        some (.address (memoryRange 4 base size)) := by
    change some (Resource.address ⟨4,0,ofLE (leBytes 4 0),ofLE (leBytes 4 base),
      ofLE (leBytes 4 (base+size-1)),ofLE (leBytes 4 0),ofLE (leBytes 4 size)⟩)=_
    rw [ofLE_word_eq (by omega),ofLE_word_eq (by omega),ofLE_word_eq (by omega),
      ofLE_word_eq (by omega)]
    rfl
  exact @frame_large 0x87 0x17 0x00 _ _ (by decide) rfl hread

/-- A range of bus numbers is read. -/
theorem frame_busNumbers {bus : ℕ×ℕ} (h : bus.1≤bus.2 ∧ bus.2<256) :
    Frame readResource (wordBusNumber bus.1 bus.2) (.address (busRange bus)) := by
  have hread : interpretResource 0x88 ([resTypeBusNumber,genflagsFixedRange,0]++(leBytes 2 0++
      (leBytes 2 bus.1++(leBytes 2 bus.2++(leBytes 2 0++
        leBytes 2 (min (bus.2-bus.1+1) 255))))))=some (.address (busRange bus)) := by
    change some (Resource.address ⟨2,2,ofLE (leBytes 2 0),ofLE (leBytes 2 bus.1),
      ofLE (leBytes 2 bus.2),ofLE (leBytes 2 0),ofLE (leBytes 2 (min (bus.2-bus.1+1) 255))⟩)=_
    rw [ofLE_word_eq (by omega),ofLE_word_eq (by omega),ofLE_word_eq (by omega),
      ofLE_word_eq (by omega)]
    rfl
  exact @frame_large 0x88 0x0D 0x00 _ _ (by decide) rfl hread

/-- The flags of an interrupt of the given sense. -/
def senseFlags (sense : ℕ) : ℕ := (1 ||| triggerPolarity sense).toNat

/-- An interrupt is read. -/
theorem frame_interrupt {gsi : ℕ} (h : gsi<2^32) (sense : ℕ) :
    Frame readResource (extendedInterrupt gsi sense) (.interrupt (senseFlags sense) [gsi]) := by
  have hread : interpretResource 0x89 ([1 ||| triggerPolarity sense,1]++leBytes 4 gsi)=
      some (.interrupt (senseFlags sense) [gsi]) := by
    have hflags : ofLE [1 ||| triggerPolarity sense]=senseFlags sense := by simp [ofLE,senseFlags]
    change some (Resource.interrupt (ofLE [1 ||| triggerPolarity sense]) [ofLE (leBytes 4 gsi)])=_
    rw [ofLE_word_eq (by omega),hflags]
  exact @frame_large 0x89 0x06 0x00 _ _ (by decide) rfl hread

/-- The ranges of a window are read, and a window of another kind has none. -/
theorem row_window {r : PciRange} (h : PciRange.Fits r) : ∃ ws, windowDescriptor r=ws.flatten ∧
    Row readResource ws ((windowRanges r).map .address) := by
  unfold windowDescriptor windowRanges
  split
  · rename_i h2
    exact ⟨[_],(List.append_nil _).symm,.cons ⟨List.cons_ne_nil _ _,frame_dword (h.mem32 h2)⟩ .nil⟩
  · split
    · rename_i h3
      exact ⟨[_],(List.append_nil _).symm,
        .cons ⟨List.cons_ne_nil _ _,frame_memory (h.mem64 h3)⟩ .nil⟩
    · exact ⟨[],rfl,.nil⟩

/-- The ranges of all windows are read. -/
theorem row_windows {rs : List PciRange} (h : ∀ r∈rs, PciRange.Fits r) :
    ∃ ws, rs.flatMap windowDescriptor=ws.flatten ∧
      Row readResource ws ((rs.flatMap windowRanges).map .address) := by
  induction rs with
  | nil => exact ⟨[],rfl,.nil⟩
  | cons r rs ih =>
    obtain ⟨hr,hrs⟩ := List.forall_mem_cons.mp h
    obtain ⟨ws,hws,hrow⟩ := row_window hr
    obtain ⟨vs,hvs,hrest⟩ := ih hrs
    refine ⟨ws++vs,by rw [List.flatMap_cons,hws,hvs,List.flatten_append],?_⟩
    rw [List.flatMap_cons,List.map_append]
    exact List.rel_append hrow hrest

/-- A template of descriptors that ends with its end is read. -/
theorem readResources_eq {ws : List Bytes} {rs : List Resource} (h : Row readResource ws rs) :
    readResources (ws.flatten++endTag)=some (rs++[.endTag]) := by
  have hall : Row readResource (ws++[endTag]) (rs++[.endTag]) :=
    List.rel_append h (.cons ⟨List.cons_ne_nil _ _,frame_endTag 0⟩ .nil)
  have hflat : (ws++[endTag]).flatten=ws.flatten++endTag := by
    rw [List.flatten_append,List.flatten_cons,List.flatten_nil,List.append_nil]
  rw [readResources,←hflat]
  exact hall.readAll

/-- The resources of a device that reserves configuration space. -/
theorem readResources_mbr {c : DtbNode} (h : (regOf c .pciHost).1+(regOf c .pciHost).2<2^64) :
    readResources (mbrTemplate c)=
      some [.address (memoryRange 8 (regOf c .pciHost).1 (regOf c .pciHost).2),.endTag] := by
  have hrow : Row readResource [memoryDescriptor (regOf c .pciHost)]
      [.address (memoryRange 8 (regOf c .pciHost).1 (regOf c .pciHost).2)] :=
    .cons ⟨List.cons_ne_nil _ _,frame_memory h⟩ .nil
  have hread := readResources_eq hrow
  rwa [List.flatten_cons,List.flatten_nil,List.append_nil] at hread

/-- The resources of a host bridge. -/
theorem readResources_pci {c : DtbNode}
    (hbus : (Namespace.buses c).1≤(Namespace.buses c).2 ∧ (Namespace.buses c).2<256)
    (hfits : ∀ r∈ranges c, PciRange.Fits r) :
    readResources (pciTemplate c)=some ((busRange (Namespace.buses c)::
      (ranges c).flatMap windowRanges).map Resource.address++[.endTag]) := by
  obtain ⟨ws,hws,hrow⟩ := row_windows hfits
  have hread := readResources_eq (.cons ⟨List.cons_ne_nil _ _,frame_busNumbers hbus⟩ hrow)
  rw [List.flatten_cons,←hws,List.append_assoc] at hread
  exact hread

/-- The resources of a device with registers and an interrupt. -/
theorem readResources_line {reg irq : ℕ×ℕ} (hreg : reg.1+reg.2<2^64) (hirq : irq.1<2^32) :
    readResources (lineTemplate reg irq)=some [.address (memoryRange 8 reg.1 reg.2),
      .interrupt (senseFlags irq.2) [irq.1],.endTag] := by
  have hrow : Row readResource [memoryDescriptor reg,extendedInterrupt irq.1 irq.2]
      [.address (memoryRange 8 reg.1 reg.2),.interrupt (senseFlags irq.2) [irq.1]] :=
    .cons ⟨List.cons_ne_nil _ _,frame_memory hreg⟩
      (.cons ⟨List.cons_ne_nil _ _,frame_interrupt hirq irq.2⟩ .nil)
  have hread := readResources_eq hrow
  rwa [List.flatten_cons,List.flatten_cons,List.flatten_nil,List.append_nil,
    List.append_assoc] at hread

/-- The resources of a device. -/
def resourcesOf (o : Object) : Option (List Resource) :=
  (bufferNamed (ascii "_CRS") o.body).bind readResources

/-- A device that reserves configuration space has these. -/
theorem resourcesOf_mbr {c : DtbNode} (h : (regOf c .pciHost).1+(regOf c .pciHost).2<2^64)
    (i : ℕ) : resourcesOf (mbrObject c i)=
      some [.address (memoryRange 8 (regOf c .pciHost).1 (regOf c .pciHost).2),.endTag] :=
  readResources_mbr h

/-- A host bridge has these. -/
theorem resourcesOf_pci {c : DtbNode} {bus : ℕ×ℕ} (hbus : c.decodePciBusRange=.ok bus)
    (hfits : ∀ r∈ranges c, PciRange.Fits r) (i : ℕ) :
    resourcesOf (pciObject c i)=some ((busRange (Namespace.buses c)::
      (ranges c).flatMap windowRanges).map Resource.address++[.endTag]) := by
  have hbuses : Namespace.buses c=bus := by rw [Namespace.buses,hbus,value_ok,Option.getD_some]
  have hordered := decodePciBusRange_ok hbus
  rw [←hbuses] at hordered
  exact readResources_pci hordered hfits

/-- What the templates of a namespace say, in the order of the devices. -/
def inTemplates {β : Type} (f : List Resource → List β) (objects : List Object) : List β :=
  objects.flatMap fun o => ((resourcesOf o).map f).getD []

/-- The templates of numbered devices say what their nodes say. -/
theorem inTemplates_numbered {β : Type} {f : List Resource → List β} {nodes : List DtbNode}
    {object : DtbNode → ℕ → Object} {said : DtbNode → List β}
    (h : ∀ c∈nodes, ∀ i, ∃ rs, resourcesOf (object c i)=some rs ∧ f rs=said c) :
    inTemplates f (nodes.zipIdx.map fun p => object p.1 p.2)=nodes.flatMap said := by
  have hfirst : nodes.flatMap said=nodes.zipIdx.flatMap fun p => said p.1 := by
    conv_lhs => rw [←List.zipIdx_map_fst 0 nodes]
    rw [List.flatMap_map]
  rw [inTemplates,List.flatMap_map,hfirst]
  refine List.flatMap_congr fun p hp => ?_
  obtain ⟨rs,hrs,hsaid⟩ := h p.1 (List.fst_mem_of_mem_zipIdx hp) p.2
  rw [hrs,Option.map_some,Option.getD_some,hsaid]

section Lines

variable [DevtreeLib]

/-- A pin is a word. -/
theorem decodeInterrupts2_lt {n : DtbNode} {site : Site} {irq : ℕ×ℕ}
    (h : n.decodeInterrupts2 site=.ok irq) : irq.1<2^32 ∧ irq.2<2^32 := by
  obtain ⟨prop,-,h⟩ := bind_ok.mp h
  obtain ⟨cells,-,h⟩ := bind_ok.mp h
  split at h
  · rename_i gsi sense
    cases h
    exact ⟨gsi.toNat_lt,sense.toNat_lt⟩
  · exact absurd h fail_ne_ok

/-- What the template of a device with registers and an interrupt says. -/
def lineResources (c : DtbNode) (site : Site) : List Resource :=
  [.address (memoryRange 8 (regOf c site).1 (regOf c site).2),
    .interrupt (senseFlags (irqOf c site).2) [(irqOf c site).1],.endTag]

/-- The device of the serial port has these. -/
theorem resourcesOf_ser {n : DtbNode} (h : LineRead n .serial) :
    resourcesOf (serObject n)=some (lineResources n .serial) :=
  readResources_line h.fits (decodeInterrupts2_lt h.irq).1

/-- A virtio transport has these. -/
theorem resourcesOf_vm {c : DtbNode} (h : LineRead c .virtioMmio) (i : ℕ) :
    resourcesOf (vmObject c i)=some (lineResources c .virtioMmio) :=
  readResources_line h.fits (decodeInterrupts2_lt h.irq).1

/-- What is not said of ranges is said of the serial port and the virtio transports only. -/
theorem inTemplates_devices {β : Type} {f : List Resource → List β} {root : Node}
    (hranges : ∀ as : List Address, f (as.map .address++[.endTag])=[]) (h : NodesRead root)
    (sleepValue : ℕ) : inTemplates f (s5Object sleepValue::deviceObjects root)=
      ((serialOf root).toList.flatMap fun n => f (lineResources n .serial))++
        (virtios root).flatMap fun c => f (lineResources c .virtioMmio) := by
  have hmbr := @inTemplates_numbered _ f (hostBridges root) mbrObject (fun _ => [])
    (fun c hc i => ⟨_,resourcesOf_mbr (h.ecam c hc).2 i,
      hranges [memoryRange 8 (regOf c .pciHost).1 (regOf c .pciHost).2]⟩)
  have hpci := @inTemplates_numbered _ f (hostBridges root) pciObject (fun _ => [])
    (fun c hc i => ⟨_,resourcesOf_pci (h.buses c hc) (h.windows c hc).2 i,hranges _⟩)
  have hvirtio := @inTemplates_numbered _ f (virtios root) vmObject
    (fun c => f (lineResources c .virtioMmio))
    (fun c hc i => ⟨_,resourcesOf_vm (h.transports c hc) i,rfl⟩)
  have hserial : inTemplates f ((serialOf root).toList.map serObject)=
      (serialOf root).toList.flatMap fun n => f (lineResources n .serial) := by
    cases hn : serialOf root with
    | none => rfl
    | some n =>
      rw [inTemplates,Option.toList_some,List.map_singleton,List.flatMap_singleton,
        List.flatMap_singleton,resourcesOf_ser (h.port n hn),Option.map_some,Option.getD_some]
  have hempty : (hostBridges root).flatMap (fun _ => ([] : List β))=[] :=
    List.flatMap_eq_nil_iff.mpr fun _ _ => rfl
  have hsplit : inTemplates f (s5Object sleepValue::deviceObjects root)=
      inTemplates f ((hostBridges root).zipIdx.map fun p => mbrObject p.1 p.2)++
        (inTemplates f ((hostBridges root).zipIdx.map fun p => pciObject p.1 p.2)++
          (inTemplates f ((serialOf root).toList.map serObject)++
            inTemplates f ((virtios root).zipIdx.map fun p => vmObject p.1 p.2))) := by
    have hpower : resourcesOf (s5Object sleepValue)=none := rfl
    rw [inTemplates,List.flatMap_cons,hpower,Option.map_none,Option.getD_none,List.nil_append,
      deviceObjects]
    simp only [inTemplates,List.flatMap_append]
  rw [hsplit,hmbr,hpci,hserial,hvirtio,hempty,List.nil_append,List.nil_append]

end Lines

/-- Lists of parts of equal length are related when their parts are. -/
theorem forall₂_append_iff {α β : Type} {r : α → β → Prop} {a b : List α} {c d : List β}
    (h : a.length=c.length) :
    List.Forall₂ r (a++b) (c++d) ↔ List.Forall₂ r a c ∧ List.Forall₂ r b d := by
  induction a generalizing c with
  | nil =>
    rw [List.length_eq_zero_iff.mp h.symm]
    exact ⟨fun hall => ⟨.nil,hall⟩,fun hall => hall.2⟩
  | cons x a ih =>
    cases c with
    | nil => cases h
    | cons y c =>
      rw [List.cons_append,List.cons_append,List.forall₂_cons,List.forall₂_cons,
        ih (Nat.succ.inj h),and_assoc]

end Arma.Acpi.Templates
