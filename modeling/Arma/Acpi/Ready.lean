import Mathlib.Tactic.Common
import Arma.Acpi.Image

/-!
# Which trees can be written

Counting does not check everything that emission needs. A counted tree is
written exactly when its devices can be described and numbered; apart from that
only the distance matrix can be rejected.
-/

namespace Arma.Acpi.Ready

open Base.ArrayVec Base.ByteString Base.Checked Base.Writer Devtree Dtb Numbered Bridges Layout
  Sdt Fixed Tables Numa Serial Virtio Dsdt Spcr Count Counted Jobs Populate Image

section Emission

variable [DevtreeLib]

/-- What a counted tree must satisfy for its tables to be written. -/
structure EmitReady (root : Node) (l : Layouted) : Prop where
  /-- The host bridges can be numbered and described. -/
  bridges : ∀ kids, (rootOf root).children=.ok kids →
    (selected pciHostCompatible kids).length≤255 ∧
      ∀ c∈selected pciHostCompatible kids, BridgeReady c
  /-- The serial port of the namespace can be described. -/
  serial : ∀ n, findSerial (rootOf root)=.ok (some n) → SerialReady n
  /-- The virtio transports can be numbered and described. -/
  virtio : ∀ kids, (rootOf root).children=.ok kids →
    (selected virtioMmioCompatible kids).length≤255 ∧
      ∀ c∈selected virtioMmioCompatible kids, VirtioReady c
  /-- The interrupt controllers can be numbered. -/
  ioapics : ∀ kids, (rootOf root).children=.ok kids →
    (selected ioapicCompatible kids).length≤255
  /-- The console can be described. -/
  console : ∀ n baud, findStdoutSerial root=.ok (some (n,baud)) → ConsoleReady n baud
  /-- The affinity table has a length that its field can hold. -/
  srat : ∀ s, l.offsets.srat=some s → s.len<2^32

/-- The distance matrix is rejected: all tables in front of the distance table
are written, and filling the buffer fails with an error of the matrix. -/
def MatrixRejected (root : Node) (oem : OemIdentity) (baseGpa : ℕ) (l : Layouted) (buf : Bytes) :
    Prop :=
  ∃ e front, DistanceError e ∧ emitFront root oem baseGpa l buf=.ok front ∧
    emitInOpt l.offsets.slit (slitEmit oem (rootOf root) l.domains) front=.error (.err e) ∧
      populate root oem baseGpa buf=.error (.err (.dtb e))

variable {root : Node} {l : Layouted} {kids : List DtbNode} {serial : Option DtbNode}
  {console : Option (DtbNode×Option ℕ)} {oem : OemIdentity} {baseGpa : ℕ}

/-- The description of the system can be written exactly when its devices can be
described and numbered. -/
theorem isSome_dsdt (h : Counted kids) {sleepValue len : ℕ} :
    (dsdt oem sleepValue kids serial len).isSome=true ↔
      ((selected pciHostCompatible kids).length≤255 ∧
        ∀ c∈selected pciHostCompatible kids, BridgeReady c) ∧
      (∀ n, serial=some n → SerialReady n) ∧
      (selected virtioMmioCompatible kids).length≤255 ∧
        ∀ c∈selected virtioMmioCompatible kids, VirtioReady c := by
  have hmotherboard : ∀ c∈selected pciHostCompatible kids, ∀ i,
      (motherboardDevice c i).isSome=true ↔ ∃ p, firstReg c .pciHost=some p ∧ p.1+p.2<2^64 :=
    fun _ _ _ => isSome_motherboardDevice
  have hvirtio : ∀ c∈selected virtioMmioCompatible kids, ∀ i,
      (virtioDevice c i).isSome=true ↔ VirtioReady c := fun _ _ _ => isSome_virtioDevice
  have hserial : (serialPart serial).isSome=true ↔ ∀ n, serial=some n → SerialReady n := by
    cases serial with
    | none =>
      refine ⟨fun _ n hn => ?_,fun _ => rfl⟩
      cases hn
    | some n =>
      rw [serialPart,isSome_serialDevice]
      refine ⟨fun hready m hm => ?_,fun hall => hall n rfl⟩
      cases hm
      exact hready
  rw [dsdt,Option.isSome_map,dsdtDevices,isSome_cat,isSome_cat,isSome_cat,Bool.and_eq_true,
    Bool.and_eq_true,Bool.and_eq_true,isSome_devices hmotherboard,isSome_devices (isSome_bridge h),
    isSome_devices hvirtio,hserial]
  constructor
  · rintro ⟨⟨hcount,hecam⟩,⟨_,hwindows⟩,hser,hvirt⟩
    exact ⟨⟨hcount,fun c hc => ⟨hecam c hc,(hwindows c hc).1,(hwindows c hc).2⟩⟩,hser,hvirt⟩
  · rintro ⟨⟨hcount,hready⟩,hser,hvirt⟩
    exact ⟨⟨hcount,fun c hc => (hready c hc).ecam⟩,
      ⟨hcount,fun c hc => ⟨(hready c hc).size,(hready c hc).windows⟩⟩,hser,hvirt⟩

/-- The table of interrupt controllers can be written exactly when they can be
numbered. -/
theorem isSome_madt (h : Established root l kids serial console) :
    (madt oem l.lapicBase l.cache (selected ioapicCompatible kids) l.offsets.madt.len).isSome=
      true ↔ (selected ioapicCompatible kids).length≤255 := by
  have hentries : (ioapicEntries (selected ioapicCompatible kids)).isSome=true ↔
      (selected ioapicCompatible kids).length≤255 := by
    unfold ioapicEntries
    split
    · rename_i hle
      rw [isSome_catAll]
      refine ⟨fun _ => hle,fun _ r hr => ?_⟩
      obtain ⟨p,hp,rfl⟩ := List.mem_map.mp hr
      obtain ⟨base,hbase⟩ := h.ioapics p.1 (List.fst_mem_of_mem_zipIdx hp)
      rw [ioapicEntry,hbase]
      rfl
    · rename_i hle
      simp only [Option.isSome_none,Bool.false_eq_true,false_iff]
      exact hle
  rw [madt,isSome_table,isSome_cat,Option.isSome_some,Bool.true_and,hentries]
  refine ⟨fun hand => hand.2,fun hle => ⟨?_,hle⟩⟩
  have hcpus := sum_vcpuBytes_le l.cache
  have hheader : madtHeaderSize=44 := rfl
  have hentry : ioApicEntrySize=12 := rfl
  rw [h.madt,hentry]
  omega

/-- The table of configuration spaces can be written when there are few host
bridges. -/
theorem isSome_mcfg (h : Established root l kids serial console)
    (hfew : (selected pciHostCompatible kids).length≤255) {s : Slot}
    (hs : l.offsets.mcfg=some s) : (mcfg oem kids s.len).isSome=true := by
  have hall : (catAll ((selected pciHostCompatible kids).map allocation)).isSome=true := by
    rw [isSome_catAll]
    intro r hr
    obtain ⟨c,hc,rfl⟩ := List.mem_map.mp hr
    obtain ⟨p,hp⟩ := h.bridges c hc
    obtain ⟨bus,hbus⟩ := h.counted.buses c hc
    rw [allocation,hp,hbus]
    rfl
  have hheader : mcfgHeaderSize=44 := rfl
  have hentry : mcfgAllocationSize=16 := rfl
  rw [mcfg,isSome_table]
  refine ⟨?_,hall⟩
  rw [(placed h.mcfg hs).2,hentry]
  omega

/-- The affinity table can be written exactly when its length field can hold its
length. -/
theorem isSome_srat (h : Established root l kids serial console) {s : Slot}
    (hs : l.offsets.srat=some s) : (srat oem l.cache kids s.len).isSome=true ↔ s.len<2^32 := by
  obtain ⟨_,hcpus,hmemories⟩ := h.srat s hs
  have hentries : (cat (cpuAffinities (entries l.cache))
      (catAll ((memories kids).map memoryPart))).isSome=true := by
    rw [isSome_cat,Bool.and_eq_true,cpuAffinities,isSome_catAll,isSome_catAll]
    constructor
    · intro r hr
      obtain ⟨e,he,rfl⟩ := List.mem_map.mp hr
      rw [Option.isSome_map]
      exact hcpus e he
    · intro r hr
      obtain ⟨c,hc,rfl⟩ := List.mem_map.mp hr
      exact isSome_memoryPart (hmemories c hc).1 (hmemories c hc).2
  rw [srat,isSome_table]
  exact and_iff_left hentries

/-- The tables up to the affinity table are all there exactly when the tree is
ready. -/
theorem isSome_frontParts (h : Established root l kids serial console) :
    (∀ r∈frontParts oem baseGpa l kids serial console, r.isSome=true) ↔ EmitReady root l := by
  have hoptPart : ∀ (slot : Option Slot) (part : Slot → Option Bytes),
      (optPart slot part).isSome=true ↔ ∀ s, slot=some s → (part s).isSome=true := by
    intro slot part
    cases slot with
    | none =>
      refine ⟨fun _ s hs => ?_,fun _ => rfl⟩
      cases hs
    | some s =>
      refine ⟨fun hpart t ht => ?_,fun hall => hall s rfl⟩
      cases ht
      exact hpart
  simp only [frontParts,List.forall_mem_cons,Option.isSome_some,true_and,isSome_dsdt h.counted,
    isSome_madt h,hoptPart]
  constructor
  · rintro ⟨⟨hbridges,hserial,hvirtio⟩,hioapics,_,hspcr,hsrat,_⟩
    have hkids : ∀ ks, (rootOf root).children=.ok ks → ks=kids := fun ks hks =>
      Except.ok.inj (hks.symm.trans h.children)
    refine ⟨fun ks hks => ?_,fun n hn => ?_,fun ks hks => ?_,fun ks hks => ?_,
      fun n baud hn => ?_,fun s hs => (isSome_srat h hs).mp (hsrat s hs)⟩
    · rw [hkids ks hks]
      exact hbridges
    · exact hserial n (Except.ok.inj (h.namespacePort.symm.trans hn))
    · rw [hkids ks hks]
      exact hvirtio
    · rw [hkids ks hks]
      exact hioapics
    · have hsame : console=some (n,baud) := Except.ok.inj (h.stdoutPort.symm.trans hn)
      have hslot := h.spcr
      rw [hsame] at hslot
      obtain ⟨s,hs,_⟩ := Option.map_eq_some_iff.mp (hslot.trans (if_pos rfl))
      have hpart := hspcr s hs
      rw [hsame] at hpart
      exact isSome_spcr.mp hpart
  · intro hready
    obtain ⟨hfew,hbridges⟩ := hready.bridges kids h.children
    refine ⟨⟨⟨hfew,hbridges⟩,fun n hn => ?_,hready.virtio kids h.children⟩,
      hready.ioapics kids h.children,fun s hs => isSome_mcfg h hfew hs,fun s hs => ?_,
      fun s hs => (isSome_srat h hs).mpr (hready.srat s hs),fun r hr => absurd hr List.not_mem_nil⟩
    · exact hready.serial n (by rw [h.namespacePort,hn])
    · obtain ⟨hconsole,_⟩ := placed h.spcr hs
      obtain ⟨c,hc⟩ := Option.isSome_iff_exists.mp hconsole
      rw [hc]
      exact isSome_spcr.mpr (hready.console c.1 c.2 (by rw [h.stdoutPort,hc]))

/-- The slots up to that of the affinity table follow one another. -/
theorem tiles_front (h : Established root l kids serial console) (oem : OemIdentity)
    (baseGpa : ℕ) : ∃ mid,
      Tiles 0 ((frontJobs root oem baseGpa l).map Job.slot).reduceOption mid ∧
        mid≤l.offsets.total := by
  obtain ⟨mid,hfront,hback⟩ := Tiles.split (show Tiles 0
    (((frontJobs root oem baseGpa l).map Job.slot).reduceOption++
      ((backJobs root oem baseGpa l).map Job.slot).reduceOption) l.offsets.total by
    rw [←List.reduceOption_append]
    exact h.tiles)
  have hstop := hback.stop_eq
  exact ⟨mid,hfront,by omega⟩

/-- The tables up to the affinity table are written exactly when they are all
there. -/
theorem emitFront_ok (h : Established root l kids serial console)
    (hbase : baseGpa+l.offsets.xsdt.offset<2^64) {buf : Bytes}
    (hroom : l.offsets.total≤buf.length) : (∃ front, emitFront root oem baseGpa l buf=.ok front) ↔
      ∀ r∈frontParts oem baseGpa l kids serial console, r.isSome=true := by
  obtain ⟨mid,hfront,hmid⟩ := tiles_front h oem baseGpa
  have hjobs := fun buf' => @runJobs_ok _ _ (writes_front h oem hbase) [] buf buf' _ hfront
    (by omega)
  rw [←isSome_catAll,Option.isSome_iff_exists]
  constructor
  · rintro ⟨front,hok⟩
    rw [emitFront_eq] at hok
    obtain ⟨t,ht,_⟩ := (hjobs front).mp hok
    exact ⟨t,ht⟩
  · rintro ⟨t,ht⟩
    refine ⟨overwrite 0 ([]++t) buf,?_⟩
    rw [emitFront_eq]
    exact (hjobs _).mpr ⟨t,ht,rfl⟩

/-- What emission leaves has the size of the buffer. -/
theorem length_emitFront (h : Established root l kids serial console)
    (hbase : baseGpa+l.offsets.xsdt.offset<2^64) {buf front : Bytes}
    (hroom : l.offsets.total≤buf.length) (hok : emitFront root oem baseGpa l buf=.ok front) :
    front.length=buf.length := by
  obtain ⟨mid,hfront,hmid⟩ := tiles_front h oem baseGpa
  rw [emitFront_eq] at hok
  obtain ⟨t,ht,rfl⟩ := (@runJobs_ok _ _ (writes_front h oem hbase) [] buf front _ hfront
    (by omega)).mp hok
  have hlen := (@slice_catAll _ _ (writes_front h oem hbase) [] t _ hfront ht).1
  rw [List.length_nil,Nat.zero_add] at hlen
  rw [List.nil_append,length_overwrite (by omega)]

/-- The distance table is written, or its matrix is rejected. -/
theorem slit_outcome (h : Established root l kids serial console) {front : Bytes}
    (hroom : l.offsets.total≤front.length) :
    (optPart l.offsets.slit fun s => (distanceMatrix root).bind
      (slit oem l.domains s.len)).isSome=true ∨
    ∃ e, DistanceError e ∧ emitInOpt l.offsets.slit (slitEmit oem (rootOf root) l.domains) front=
      .error (.err e) := by
  cases hslot : l.offsets.slit with
  | none => exact .inl rfl
  | some s =>
    obtain ⟨hsize,mapNode,raw,hmap,hraw⟩ := h.slit s hslot
    have hmatrix : distanceMatrix root=some raw := by
      rw [distanceMatrix,hmap]
      exact hraw
    have hmem : s∈l.offsets.slots := List.reduceOption_mem_iff.mpr (by
      rw [hslot]
      simp only [List.mem_cons,true_or,or_true])
    have hfit := (h.tiles.mem hmem).2
    have hslice : (slice s.offset s.len front).length=s.len := length_slice (by omega)
    cases hm : distances l.domains raw (initialMatrix l.domains.toList.length) with
    | ok m =>
      left
      rw [optPart,hmatrix,Option.bind_some,slit,hm]
      rfl
    | error f =>
      obtain ⟨e,rfl,he⟩ := distances_error hm
      refine .inr ⟨e,he,?_⟩
      change s.emitIn (slitEmit oem (rootOf root) l.domains) front=_
      unfold Slot.emitIn Slot.carveIn
      rw [if_pos (by omega)]
      change (slitEmit oem (rootOf root) l.domains (slice s.offset s.len front) >>= _)=_
      rw [slitEmit_eq hmap hraw (hslice.trans hsize),hm]
      rfl

/-- When all tables are there, the buffer is filled. -/
theorem populate_of_parts (hrun : run root=.ok l) (h : Established root l kids serial console)
    {buf : Bytes} (hroom : l.offsets.total≤buf.length) (haddr : baseGpa+l.offsets.xsdt.offset<2^64)
    (hfront : ∀ r∈frontParts oem baseGpa l kids serial console, r.isSome=true)
    (hslit : (optPart l.offsets.slit fun s => (distanceMatrix root).bind
      (slit oem l.domains s.len)).isSome=true) :
    ∃ out, populate root oem baseGpa buf=.ok out := by
  have hall : (catAll (frontParts oem baseGpa l kids serial console++
      backParts root oem baseGpa l)).isSome=true := by
    rw [isSome_catAll,List.forall_mem_append]
    refine ⟨hfront,?_⟩
    simp only [backParts,List.forall_mem_cons,Option.isSome_some,true_and]
    exact ⟨hslit,fun r hr => absurd hr List.not_mem_nil⟩
  obtain ⟨t,ht⟩ := Option.isSome_iff_exists.mp hall
  exact ⟨_,populate_ok.mpr ⟨l,hrun,hroom,_,(emission_ok h haddr hroom).mpr ⟨t,ht,rfl⟩,rfl⟩⟩

/-- A ready tree without a distance table is written. -/
theorem populate_of_ready (hrun : run root=.ok l) (hready : EmitReady root l)
    (hslit : l.offsets.slit=none) {buf : Bytes} (hroom : l.offsets.total≤buf.length)
    (hbase : baseGpa+l.offsets.total<2^64) : ∃ out, populate root oem baseGpa buf=.ok out := by
  obtain ⟨kids,serial,console,h⟩ := run_ok hrun
  have hxsdt := h.tiles.mem (List.reduceOption_mem_iff.mpr (by
    simp only [List.mem_cons,true_or,or_true]) : l.offsets.xsdt∈l.offsets.slots)
  exact populate_of_parts hrun h hroom (by omega) ((isSome_frontParts h).mpr hready)
    (by rw [hslit]; rfl)

/-- A counted tree is written, apart from a rejected distance matrix, exactly
when it is ready. -/
theorem populate_iff_ready (hrun : run root=.ok l) {buf : Bytes}
    (hroom : l.offsets.total≤buf.length) (hbase : baseGpa+l.offsets.total<2^64) :
    ((∃ out, populate root oem baseGpa buf=.ok out) ∨ MatrixRejected root oem baseGpa l buf) ↔
      EmitReady root l := by
  obtain ⟨kids,serial,console,h⟩ := run_ok hrun
  have hxsdt := h.tiles.mem (List.reduceOption_mem_iff.mpr (by
    simp only [List.mem_cons,true_or,or_true]) : l.offsets.xsdt∈l.offsets.slots)
  have haddr : baseGpa+l.offsets.xsdt.offset<2^64 := by omega
  have hfront := @emitFront_ok _ root l kids serial console oem baseGpa h haddr buf hroom
  rw [←@isSome_frontParts _ root l kids serial console oem baseGpa h,←hfront]
  constructor
  · rintro (⟨out,hout⟩ | ⟨e,front,_,hok,_⟩)
    · obtain ⟨l',hl',_,buf',hbuf,_⟩ := populate_ok.mp hout
      obtain ⟨front,hok,_⟩ := bind_ok.mp hbuf
      obtain rfl := Except.ok.inj (hl'.symm.trans hrun)
      exact ⟨front,hok⟩
    · exact ⟨front,hok⟩
  · intro hready
    obtain ⟨front,hok⟩ := hready
    have hlen := length_emitFront h haddr hroom hok
    obtain hslit | ⟨e,he,hslit⟩ := @slit_outcome _ root l kids serial console oem h front
      (by omega)
    · exact .inl (populate_of_parts hrun h hroom haddr (hfront.mp ⟨front,hok⟩) hslit)
    · right
      refine ⟨e,front,he,hok,hslit,?_⟩
      have hemission : emission root oem baseGpa l buf=.error (.err e) := by
        rw [emission,hok]
        change (emitInOpt l.offsets.slit (slitEmit oem (rootOf root) l.domains) front >>= _)=_
        rw [hslit]
        rfl
      unfold populate
      rw [hrun]
      change (if buf.length<l.offsets.total then _ else _)=_
      rw [if_neg (by omega),hemission]
      rfl

end Emission

/-- The sample tree is ready: it can be written. -/
theorem populate_iff_ready_sample :
    ∃ l, @run plainLib (sampleTree sampleKids)=.ok l ∧
      @EmitReady plainLib (sampleTree sampleKids) l := by
  have hcounted : ((@run plainLib (sampleTree sampleKids)).toOption.any fun l =>
      decide (l.offsets.total≤600))=true := by decide +kernel
  have hsome : (@populate plainLib (sampleTree sampleKids) sampleOem 0x1000
      (List.replicate 600 7)).toOption.isSome=true := by decide +kernel
  obtain ⟨l,hrun,htotal⟩ := exists_ok_of_any hcounted
  have htotal : l.offsets.total≤600 := of_decide_eq_true htotal
  have hroom : l.offsets.total≤(List.replicate 600 (7 : UInt8)).length := by
    rw [List.length_replicate]
    exact htotal
  exact ⟨l,hrun,(@populate_iff_ready plainLib _ l sampleOem 0x1000 hrun _ hroom
    (by omega)).mp (.inl (exists_ok hsome))⟩

/-- A serial port with a baud rate that has no code, and the standard output path
that names it. -/
def slowConsole : List Node :=
  [.mk "serial@a000" [⟨"compatible",dtString "ns16550a"⟩,⟨"reg",dtReg 0xa000 8⟩,
      ⟨"interrupts",beBytes 4 4++beBytes 4 1⟩,⟨"reg-shift",beBytes 4 0⟩,
      ⟨"reg-io-width",beBytes 4 1⟩,⟨"clock-frequency",beBytes 4 1843200⟩,
      ⟨"current-speed",beBytes 4 1200⟩] [],
    .mk "chosen" [⟨"stdout-path",dtString "/serial@a000"⟩] []]

/-- The tree with this console is counted, but not written. -/
theorem slowConsole_not_written :
    (∃ l, @run plainLib (sampleTree (sampleKids++slowConsole))=.ok l ∧
      l.offsets.total≤1000) ∧
    @populate plainLib (sampleTree (sampleKids++slowConsole)) sampleOem 0x1000
      (List.replicate 1000 0)=.error (.err (.dtb (.valueOutOfRange .serial "current-speed"))) ∧
    ¬DistanceError (.valueOutOfRange .serial "current-speed") := by
  have hcounted : ((@run plainLib (sampleTree (sampleKids++slowConsole))).toOption.any fun l =>
      decide (l.offsets.total≤1000))=true := by decide +kernel
  obtain ⟨l,hrun,htotal⟩ := exists_ok_of_any hcounted
  exact ⟨⟨l,hrun,of_decide_eq_true htotal⟩,by decide +kernel,
    by simp [DistanceError,malformedMatrix,distanceRange]⟩

end Arma.Acpi.Ready
