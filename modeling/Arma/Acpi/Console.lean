import Mathlib.Tactic.Common
import Arma.Acpi.Ready
import Arma.Acpi.Templates

/-!
# The console in both tables

The console table is that of the node which the standard output path names, the serial device of
the namespace that of the first root child named `serial`. Both tables lead to one port when
these two nodes have the same registers and the same interrupt.
-/

namespace Arma.Acpi.Console

open Base.ByteString Base.Bytecode Base.Checked Base.Resources Base.Writer Devtree Dtb Aml Layout
  Sdt Serial Spcr Count Counted Populate Image Filled Namespace Objects Templates

/-- The address of the registers in a console table. -/
def consoleBase (table : Bytes) : ℕ := ofLE (slice 8 8 (table.drop SdtHeader.size))

/-- The interrupt in a console table. -/
def consoleGsi (table : Bytes) : ℕ := ofLE (slice 18 4 (table.drop SdtHeader.size))

/-- The namespace has a device of the serial port with the registers and the interrupt of the
console table. -/
def Described (dsdt spcr : Bytes) : Prop :=
  ∃ objects o rs, readObjects dsdt=some objects ∧ o∈objects ∧ o.isDevice=true ∧
    o.path.seg=serSeg.1 ∧ resourcesOf o=some rs ∧
    (∃ a∈addressesIn rs, a.width=8 ∧ a.kind=0 ∧ a.minimum=consoleBase spcr) ∧
    linesIn rs=[consoleGsi spcr]

section Agreement

variable [DevtreeLib]

/-- The node of the console table. -/
def consoleOf (root : Node) : Option DtbNode :=
  ((value (findStdoutSerial root)).bind id).map Prod.fst

/-- The console is the one that is found. -/
theorem consoleOf_eq {root : Node} {console : Option (DtbNode×Option ℕ)}
    (h : findStdoutSerial root=.ok console) : consoleOf root=console.map Prod.fst := by
  rw [consoleOf,h,value_ok,Option.bind_some,id]

/-- A console table has the first address of its node's `reg` and its pin. -/
theorem spcr_read {oem : OemIdentity} {console : DtbNode×Option ℕ} {table : Bytes}
    (h : spcr oem console=some table) : consoleBase table=(regOf console.1 .serial).1 ∧
      consoleGsi table=(irqOf console.1 .serial).1 ∧
        console.1.decodeInterrupts2 .serial=.ok (irqOf console.1 .serial) := by
  obtain ⟨port,hport,h⟩ := Option.bind_eq_some_iff.mp h
  obtain ⟨baudRate,-,rfl⟩ := Option.map_eq_some_iff.mp h
  have hdecode := value_eq_some.mp hport
  obtain ⟨hready,p,hp,hbase⟩ := decodeSerial_ok hdecode
  obtain ⟨irq,hirq⟩ := hready.interrupt
  have hgsi := decodeSerial_gsi hdecode hirq
  have hreg : regOf console.1 .serial=p := by rw [regOf,hp,Option.getD_some]
  have hline : irqOf console.1 .serial=irq := by rw [irqOf,hirq,value_ok,Option.getD_some]
  have hbody : (sealed 9 ((spcrHeader oem spcrSize).asBytes++spcrBody port baudRate)).drop
      SdtHeader.size=spcrBody port baudRate := by
    rw [drop_sealed (by decide),List.drop_left' (SdtHeader.length_asBytes _)]
  have hword : port.base<2^64 := by
    obtain ⟨regs,hregs,hfirst⟩ := firstReg_some.mp hp
    rw [hbase]
    exact (reg_lt hregs p (List.mem_of_head? hfirst)).1
  have hpin := (decodeInterrupts2_lt hirq).1
  rw [consoleBase,consoleGsi,hbody,hreg,hline]
  refine ⟨?_,?_,hirq⟩
  · change ofLE (leBytes 8 port.base)=p.1
    rw [ofLE_word_eq hword,hbase]
  · change ofLE (leBytes 4 port.gsi)=irq.1
    rw [ofLE_word_eq (by rw [hgsi]; exact hpin),hgsi]

/-- The console table in its slot is that of the node which the standard output path names. -/
theorem console_found {root : Node} {oem : OemIdentity} {l : Layouted} {kids : List DtbNode}
    {serial : Option DtbNode} {console : Option (DtbNode×Option ℕ)} {t : Bytes}
    (hest : Established root l kids serial console)
    (hholds : Holds root oem l kids serial console t) {c : DtbNode} (hc : consoleOf root=some c) :
    ∃ baud table, findStdoutSerial root=.ok (some (c,baud)) ∧ spcr oem (c,baud)=some table := by
  rw [consoleOf_eq hest.stdoutPort] at hc
  obtain ⟨found,hfound,rfl⟩ := Option.map_eq_some_iff.mp hc
  obtain ⟨s,hs,-⟩ := Option.map_eq_some_iff.mp (hest.spcr.trans (by rw [hfound]; rfl))
  obtain ⟨d,hd,htable⟩ := Option.bind_eq_some_iff.mp (hholds.spcr s hs)
  cases hd.symm.trans hfound
  exact ⟨found.2,_,by rw [hest.stdoutPort,hfound],htable⟩

/-- The first root child named `serial` has the address and the pin of the node that the standard
output path names. -/
def SamePort (root : Node) : Prop :=
  ∃ n c, serialOf root=some n ∧ consoleOf root=some c ∧
    (regOf n .serial).1=(regOf c .serial).1 ∧ (irqOf n .serial).1=(irqOf c .serial).1

/-- The only device with the name of the serial port is the serial port. -/
theorem serial_of_name {root : Node} {o : Object} (ho : o∈deviceObjects root)
    (hname : o.path.seg=serSeg.1) : ∃ n, serialOf root=some n ∧ o=serObject n := by
  have hhead := congrArg List.head? hname
  simp only [deviceObjects,List.mem_append,List.mem_map] at ho
  rcases ho with ⟨p,-,rfl⟩ | ⟨p,-,rfl⟩ | ⟨n,hn,rfl⟩ | ⟨p,-,rfl⟩
  · exact absurd (Option.some.inj hhead) (by decide)
  · exact absurd (Option.some.inj hhead) (by decide)
  · exact ⟨n,Option.mem_toList.mp hn,rfl⟩
  · exact absurd (Option.some.inj hhead) (by decide)

/-- The serial port is among the devices. -/
theorem mem_deviceObjects {root : Node} {n : DtbNode} (h : serialOf root=some n) :
    serObject n∈deviceObjects root := by
  rw [deviceObjects,List.mem_append,List.mem_append,List.mem_append]
  exact .inr (.inr (.inl (List.mem_map_of_mem (Option.mem_toList.mpr h))))

/-- A namespace of the devices of a tree describes a console exactly when its serial port has
these registers and this interrupt. -/
theorem described_iff {root : Node} (h : NodesRead root) {dsdt spcr : Bytes} {sleepValue : ℕ}
    (hdsdt : readObjects dsdt=some (s5Object sleepValue::deviceObjects root)) :
    Described dsdt spcr ↔ ∃ n, serialOf root=some n ∧ (regOf n .serial).1=consoleBase spcr ∧
      (irqOf n .serial).1=consoleGsi spcr := by
  constructor
  · rintro ⟨objects,o,rs,hobjects,ho,hdevice,hname,hrs,⟨a,ha,-,-,hbase⟩,hlines⟩
    cases hobjects.symm.trans hdsdt
    obtain rfl | ho := List.mem_cons.mp ho
    · cases hdevice
    · obtain ⟨n,hn,rfl⟩ := serial_of_name ho hname
      cases hrs.symm.trans (resourcesOf_ser (h.port n hn))
      refine ⟨n,hn,?_,(List.cons.inj hlines).1⟩
      rw [List.mem_singleton.mp (show a∈[memoryRange 8 (regOf n .serial).1 (regOf n .serial).2]
        from ha)] at hbase
      exact hbase
  · rintro ⟨n,hn,hbase,hgsi⟩
    refine ⟨_,serObject n,_,hdsdt,List.mem_cons_of_mem _ (mem_deviceObjects hn),rfl,rfl,
      resourcesOf_ser (h.port n hn),⟨_,List.mem_cons_self,rfl,rfl,hbase⟩,?_⟩
    exact congrArg (fun gsi => [gsi]) hgsi

/-- When a buffer with a console table is filled, the namespace describes the console exactly when
the serial port of the namespace and that of the standard output path agree. -/
theorem populate_console_iff {root : Node} {oem : OemIdentity} {baseGpa n : ℕ} {buf buf' : Bytes}
    (h : populate root oem baseGpa buf=.ok (n,buf')) :
    ∃ l, run root=.ok l ∧ ∀ s, l.offsets.spcr=some s →
      (Described (bytesIn l.offsets.dsdt (buf'.take n)) (bytesIn s (buf'.take n)) ↔
        SamePort root) := by
  obtain ⟨l,kids,serial,console,hl,hest,-,hholds⟩ := populate_holds h
  obtain ⟨hread,-,-,hdsdt⟩ := objects_of_holds hest hholds
  refine ⟨l,hl,fun s hs => ?_⟩
  obtain ⟨c,hc,hspcr⟩ := Option.bind_eq_some_iff.mp (hholds.spcr s hs)
  obtain ⟨hbase,hgsi,-⟩ := spcr_read hspcr
  have hconsole := consoleOf_eq hest.stdoutPort
  rw [hc] at hconsole
  rw [described_iff hread hdsdt,hbase,hgsi,SamePort]
  constructor
  · rintro ⟨m,hm,hregs,hirq⟩
    exact ⟨m,c.1,hm,hconsole,hregs,hirq⟩
  · rintro ⟨m,d,hm,hd,hregs,hirq⟩
    cases hd.symm.trans hconsole
    exact ⟨m,hm,hregs,hirq⟩

end Agreement

/-- A serial port with a name and an alias for it, and a standard output path. -/
def portTree (name stdoutPath : String) : Node :=
  sampleTree (sampleKids++[.mk name [⟨"compatible",dtString "ns16550a"⟩,⟨"reg",dtReg 0xa000 8⟩,
      ⟨"interrupts",beBytes 4 4++beBytes 4 1⟩,⟨"reg-shift",beBytes 4 0⟩,
      ⟨"reg-io-width",beBytes 4 1⟩,⟨"clock-frequency",beBytes 4 1843200⟩] [],
    .mk "aliases" [⟨"console",dtString ("/"++name)⟩] [],
    .mk "chosen" [⟨"stdout-path",dtString stdoutPath⟩] []])

/-- A root child named `serial` that the path names by an alias is in both tables. -/
theorem populate_console_iff_sample : ∃ n buf' l s,
    @populate plainLib (portTree "serial@a000" "console:115200") sampleOem 0x1000
      (List.replicate 1000 7)=.ok (n,buf') ∧
    @run plainLib (portTree "serial@a000" "console:115200")=.ok l ∧
    (Layouted.offsets l).spcr=some s ∧
    Described (bytesIn (Layouted.offsets l).dsdt (buf'.take n)) (bytesIn s (buf'.take n)) := by
  have hsome : (@populate plainLib (portTree "serial@a000" "console:115200") sampleOem 0x1000
      (List.replicate 1000 7)).toOption.isSome=true := by decide +kernel
  have htable : ((@run plainLib (portTree "serial@a000" "console:115200")).toOption.any fun l =>
      l.offsets.spcr.isSome)=true := by decide +kernel
  have hport : ∃ n∈@serialOf plainLib (portTree "serial@a000" "console:115200"),
      ∃ c∈@consoleOf plainLib (portTree "serial@a000" "console:115200"),
        (regOf n .serial).1=(regOf c .serial).1 ∧
          (@irqOf plainLib n .serial).1=(@irqOf plainLib c .serial).1 := by decide +kernel
  obtain ⟨out,hfilled⟩ := exists_ok hsome
  obtain ⟨l,hl,hiff⟩ := @populate_console_iff plainLib _ _ _ _ _ _ hfilled
  obtain ⟨k,hk,hslot⟩ := exists_ok_of_any htable
  cases hk.symm.trans hl
  obtain ⟨s,hs⟩ := Option.isSome_iff_exists.mp hslot
  obtain ⟨n,hn,c,hc,hsame⟩ := hport
  exact ⟨out.1,out.2,l,s,hfilled,hl,hs,(hiff s hs).mpr ⟨n,c,hn,hc,hsame⟩⟩

/-- A port named `uart` is in the console table, but the namespace has no device for it. -/
theorem populate_uart : ∃ n buf' l s,
    @populate plainLib (portTree "uart@a000" "/uart@a000") sampleOem 0x1000
      (List.replicate 1000 7)=.ok (n,buf') ∧
    @run plainLib (portTree "uart@a000" "/uart@a000")=.ok l ∧
    (Layouted.offsets l).spcr=some s ∧
    ¬Described (bytesIn (Layouted.offsets l).dsdt (buf'.take n)) (bytesIn s (buf'.take n)) := by
  have hsome : (@populate plainLib (portTree "uart@a000" "/uart@a000") sampleOem 0x1000
      (List.replicate 1000 7)).toOption.isSome=true := by decide +kernel
  have htable : ((@run plainLib (portTree "uart@a000" "/uart@a000")).toOption.any fun l =>
      l.offsets.spcr.isSome)=true := by decide +kernel
  have hnone : @serialOf plainLib (portTree "uart@a000" "/uart@a000")=none := by decide +kernel
  obtain ⟨out,hfilled⟩ := exists_ok hsome
  obtain ⟨l,hl,hread,-,-,hdsdt⟩ := @populate_objects plainLib _ _ _ _ _ _ hfilled
  obtain ⟨k,hk,hslot⟩ := exists_ok_of_any htable
  cases hk.symm.trans hl
  obtain ⟨s,hs⟩ := Option.isSome_iff_exists.mp hslot
  refine ⟨out.1,out.2,l,s,hfilled,hl,hs,fun hdescribed => ?_⟩
  obtain ⟨n,hn,-⟩ := (@described_iff plainLib _ hread _ _ _ hdsdt).mp hdescribed
  cases hnone.symm.trans hn

end Arma.Acpi.Console
