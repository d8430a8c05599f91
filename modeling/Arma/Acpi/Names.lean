import Mathlib.Data.List.Nodup
import Mathlib.Tactic.Common
import Arma.Acpi.Objects
import Arma.Acpi.Ready
import Arma.Acpi.Segments

/-!
# The names of the namespace

The description of the system is terms that follow one another up to its end. Bridges are named by
one character and transports by two digits, so the names of the devices are names, and no two of
them are the same, as long as the characters and the digits last.
-/

namespace Arma.Acpi.Names

open Base.ByteString Base.Bytecode Base.Checked Base.Writer Devtree Dtb Aml Numbered Bridges
  Layout Sdt Tables Serial Virtio Count Populate Image Ready Namespace Objects

/-- Number of characters for the index of a bridge: ten digits and 26 letters. -/
def bridgeNames : ℕ := 36

/-- Number of pairs of digits for the index of a transport. -/
def transportNames : ℕ := 100

/-- A name with an index has these characters. -/
theorem nameSegIndexed_val (stem : {bs : Bytes // bs.length=3}) (i : ℕ) : (nameSegIndexed stem i).1=
    stem.1++[UInt8.ofNat (if i<10 then min (48+i) 255 else min (65+(i-10)) 255)] := rfl

/-- A bridge with an index that has a character has a name. -/
theorem validSeg_indexed {stem : {bs : Bytes // bs.length=3}}
    (hfirst : (stem.1.take 1).all validLead=true) (hstem : stem.1.all validChar=true) {i : ℕ}
    (hi : i<bridgeNames) : validSeg (nameSegIndexed stem i).1=true := by
  have hchars : ∀ k : Fin 36, validChar (UInt8.ofNat
      (if k.1<10 then min (48+k.1) 255 else min (65+(k.1-10)) 255))=true := by decide
  have hchar := hchars ⟨i,hi⟩
  have htake : (nameSegIndexed stem i).1.take 1=stem.1.take 1 := by
    rw [nameSegIndexed_val,List.take_append_of_le_length (by rw [stem.2]; omega)]
  rw [validSeg,(nameSegIndexed stem i).2,htake,hfirst,nameSegIndexed_val,List.all_append,hstem,
    List.all_cons,List.all_nil,hchar]
  rfl

/-- Different indices give different characters. -/
theorem nameSegIndexed_inj {stem : {bs : Bytes // bs.length=3}} {i j : ℕ} (hi : i<bridgeNames)
    (hj : j<bridgeNames) (h : (nameSegIndexed stem i).1=(nameSegIndexed stem j).1) : i=j := by
  have hbytes := (List.cons.inj (List.append_cancel_left h)).1
  have hcodes : ∀ k, k<bridgeNames → (UInt8.ofNat
      (if k<10 then min (48+k) 255 else min (65+(k-10)) 255)).toNat=
        if k<10 then 48+k else 55+k := by
    intro k hk
    rw [bridgeNames] at hk
    rw [UInt8.toNat_ofNat_of_lt' (by rw [UInt8.size]; split <;> omega)]
    split <;> omega
  have hsame := congrArg UInt8.toNat hbytes
  rw [hcodes i hi,hcodes j hj] at hsame
  rw [bridgeNames] at hi hj
  split at hsame <;> split at hsame <;> omega

/-- A transport with an index of two digits has a name. -/
theorem validSeg_vm {i : ℕ} (hi : i<transportNames) : validSeg (vmSeg i).1=true := by
  have hdigits : ∀ k : Fin 10, validChar (UInt8.ofNat (48+k.1))=true := by decide
  rw [transportNames] at hi
  have htens := hdigits ⟨i/10,by omega⟩
  have hones := hdigits ⟨i%10,by omega⟩
  have hstem : (ascii "VM").all validChar=true := by decide
  change (decide _ && validLead 0x56 && (ascii "VM"++[UInt8.ofNat (48+i/10),
    UInt8.ofNat (48+i%10)]).all validChar)=true
  rw [List.all_append,hstem,List.all_cons,List.all_cons,List.all_nil,htens,hones]
  rfl

/-- Different indices give different digits. -/
theorem vmSeg_inj {i j : ℕ} (hi : i<transportNames) (hj : j<transportNames)
    (h : (vmSeg i).1=(vmSeg j).1) : i=j := by
  have hbytes := List.append_cancel_left h
  simp only [List.cons.injEq,and_true] at hbytes
  have hcodes : ∀ k, k<100 → (UInt8.ofNat (48+k)).toNat=48+k := fun k hk =>
    UInt8.toNat_ofNat_of_lt' (by rw [UInt8.size]; omega)
  rw [transportNames] at hi hj
  have htens := congrArg UInt8.toNat hbytes.1
  have hones := congrArg UInt8.toNat hbytes.2
  rw [hcodes _ (by omega),hcodes _ (by omega)] at htens hones
  omega

/-- The names of the devices for so many nodes. -/
def deviceNames (bridges : ℕ) (serial : Bool) (transports : ℕ) : List Bytes :=
  ((List.range bridges).map fun i => (mbrSeg i).1)++(((List.range bridges).map fun i =>
    (pciSeg i).1)++((if serial then [serSeg.1] else [])++
      ((List.range transports).map fun i => (vmSeg i).1)))

/-- All of them are names exactly when the characters and the digits last. -/
theorem valid_deviceNames {bridges transports : ℕ} {serial : Bool} :
    (∀ seg∈deviceNames bridges serial transports, validSeg seg=true) ↔
      bridges≤bridgeNames ∧ transports≤transportNames := by
  constructor
  · intro h
    constructor
    · by_contra hmany
      have hmem : (mbrSeg 36).1∈deviceNames bridges serial transports :=
        List.mem_append_left _ (List.mem_map_of_mem (f := fun i => (mbrSeg i).1)
          (List.mem_range.mpr (by rw [bridgeNames] at hmany; omega)))
      exact absurd (h _ hmem) (by decide)
    · by_contra hmany
      have hmem : (vmSeg 100).1∈deviceNames bridges serial transports :=
        List.mem_append_right _ (List.mem_append_right _ (List.mem_append_right _
          (List.mem_map_of_mem (f := fun i => (vmSeg i).1)
            (List.mem_range.mpr (by rw [transportNames] at hmany; omega)))))
      exact absurd (h _ hmem) (by decide)
  · rintro ⟨hbridges,htransports⟩ seg hseg
    simp only [deviceNames,List.mem_append,List.mem_map,List.mem_range] at hseg
    rcases hseg with ⟨i,hi,rfl⟩ | ⟨i,hi,rfl⟩ | hserial | ⟨i,hi,rfl⟩
    · exact validSeg_indexed (by decide) (by decide) (by omega)
    · exact validSeg_indexed (by decide) (by decide) (by omega)
    · cases serial with
      | false => exact absurd hserial List.not_mem_nil
      | true =>
        rw [List.mem_singleton.mp hserial]
        decide
    · exact validSeg_vm (by omega)

/-- Numbered names are distinct when different numbers give different names. -/
theorem nodup_numbered {name : ℕ → Bytes} {n limit : ℕ} (hn : n≤limit)
    (h : ∀ i j, i<limit → j<limit → name i=name j → i=j) : ((List.range n).map name).Nodup := by
  refine List.Nodup.map_on (fun i hi j hj hsame => ?_) List.nodup_range
  rw [List.mem_range] at hi hj
  exact h i j (by omega) (by omega) hsame

/-- Names that start with different characters are distinct. -/
theorem disjoint_of_head {xs ys : List Bytes} {a b : UInt8} (hab : a≠b)
    (hxs : ∀ x∈xs, x.head?=some a) (hys : ∀ y∈ys, y.head?=some b) : List.Disjoint xs ys := by
  intro x hx hy
  have hsame := (hxs x hx).symm.trans (hys x hy)
  exact hab (Option.some.inj hsame)

/-- No two of them are the same then. -/
theorem nodup_deviceNames {bridges transports : ℕ} {serial : Bool} (hbridges : bridges≤bridgeNames)
    (htransports : transports≤transportNames) :
    (deviceNames bridges serial transports).Nodup := by
  have hm := nodup_numbered hbridges fun i j hi hj h =>
    @nameSegIndexed_inj ⟨ascii "MBR",rfl⟩ i j hi hj h
  have hp := nodup_numbered hbridges fun i j hi hj h =>
    @nameSegIndexed_inj ⟨ascii "PCI",rfl⟩ i j hi hj h
  have hv := nodup_numbered htransports fun i j hi hj h => vmSeg_inj hi hj h
  have hs : (if serial then [serSeg.1] else [] : List Bytes).Nodup := by
    cases serial with
    | false => exact List.nodup_nil
    | true => exact List.nodup_singleton _
  have hmhead : ∀ x∈(List.range bridges).map fun i => (mbrSeg i).1, x.head?=some 0x4D :=
    List.forall_mem_map.mpr fun _ _ => rfl
  have hphead : ∀ x∈(List.range bridges).map fun i => (pciSeg i).1, x.head?=some 0x50 :=
    List.forall_mem_map.mpr fun _ _ => rfl
  have hvhead : ∀ x∈(List.range transports).map fun i => (vmSeg i).1, x.head?=some 0x56 :=
    List.forall_mem_map.mpr fun _ _ => rfl
  have hshead : ∀ x∈(if serial then [serSeg.1] else [] : List Bytes), x.head?=some 0x53 := by
    cases serial with
    | false => exact fun x hx => absurd hx List.not_mem_nil
    | true => exact List.forall_mem_singleton.mpr rfl
  refine hm.append (hp.append (hs.append hv (disjoint_of_head (by decide) hshead hvhead)) ?_) ?_
  · exact List.disjoint_append_right.mpr ⟨disjoint_of_head (by decide) hphead hshead,
      disjoint_of_head (by decide) hphead hvhead⟩
  · exact List.disjoint_append_right.mpr ⟨disjoint_of_head (by decide) hmhead hphead,
      List.disjoint_append_right.mpr ⟨disjoint_of_head (by decide) hmhead hshead,
        disjoint_of_head (by decide) hmhead hvhead⟩⟩

section Devices

variable [DevtreeLib]

/-- The names of the devices for the nodes of a tree. -/
theorem names_deviceObjects (root : Node) : ((deviceObjects root).map fun o => o.path.seg)=
    deviceNames (hostBridges root).length (serialOf root).isSome (virtios root).length := by
  have hnumbered : ∀ (nodes : List DtbNode) (object : DtbNode → ℕ → Object) (name : ℕ → Bytes),
      (∀ c i, (object c i).path.seg=name i) →
        ((nodes.zipIdx.map fun p => object p.1 p.2).map fun o => o.path.seg)=
          (List.range nodes.length).map name := by
    intro nodes object name h
    rw [List.map_map,List.range_eq_range',←List.zipIdx_map_snd,List.map_map]
    exact List.map_congr_left fun p _ => h p.1 p.2
  have hserial : ((serialOf root).toList.map serObject).map (fun o => o.path.seg)=
      if (serialOf root).isSome then [serSeg.1] else [] := by
    cases serialOf root with
    | none => rfl
    | some n => rfl
  rw [deviceObjects,List.map_append,List.map_append,List.map_append,
    hnumbered _ _ (fun i => (mbrSeg i).1) fun _ _ => rfl,
    hnumbered _ _ (fun i => (pciSeg i).1) fun _ _ => rfl,
    hnumbered _ _ (fun i => (vmSeg i).1) fun _ _ => rfl,hserial,deviceNames]

/-- The names in the scope of a device are names. -/
theorem valid_segs {root : Node} {o : Object} (ho : o∈deviceObjects root) :
    (∀ seg∈o.segs, validSeg seg=true) ↔ validSeg o.path.seg=true := by
  have hscope : ∃ scope, o.segs=o.path.seg::scope ∧ ∀ seg∈scope, validSeg seg=true := by
    simp only [deviceObjects,List.mem_append,List.mem_map] at ho
    rcases ho with ⟨_,-,rfl⟩ | ⟨_,-,rfl⟩ | ⟨_,-,rfl⟩ | ⟨_,-,rfl⟩
    · exact ⟨[hidSeg.1,uidSeg.1,crsSeg.1],rfl,by decide⟩
    · exact ⟨[hidSeg.1,cidSeg.1,segSeg.1,uidSeg.1,bbnSeg.1,crsSeg.1],rfl,by decide⟩
    · exact ⟨[hidSeg.1,uidSeg.1,crsSeg.1,dsdSeg.1],rfl,by decide⟩
    · exact ⟨[hidSeg.1,uidSeg.1,crsSeg.1],rfl,by decide⟩
  obtain ⟨scope,hsegs,hvalid⟩ := hscope
  rw [hsegs,List.forall_mem_cons]
  exact and_iff_left hvalid

/-- A table whose terms are the power-off object and then a device for every node, the last of
which ends with the table. All names are names, and those of the devices are distinct. -/
structure WellFormed (root : Node) (table : Bytes) (objects : List Object) : Prop where
  /-- The length field has the size of the table. -/
  length : ofLE (slice 4 4 table)=table.length
  /-- The terms follow one another up to that length. -/
  parsed : readObjects table=some objects
  /-- The first is the power-off object. -/
  power : ∃ sleepValue, objects.head?=some (s5Object sleepValue)
  /-- The others are the devices for the nodes. -/
  devices : objects.tail=deviceObjects root
  /-- Every name is a name. -/
  valid : ∀ seg∈segsOf objects, validSeg seg=true
  /-- The devices have different names. -/
  distinct : (objects.tail.map fun o => o.path.seg).Nodup

/-- Such a table is well formed exactly when the characters and the digits last. -/
theorem wellFormed_iff {root : Node} {table : Bytes} {sleepValue : ℕ}
    (hlength : ofLE (slice 4 4 table)=table.length)
    (hparsed : readObjects table=some (s5Object sleepValue::deviceObjects root)) :
    (∃ objects, WellFormed root table objects) ↔
      (hostBridges root).length≤bridgeNames ∧ (virtios root).length≤transportNames := by
  have hnames := names_deviceObjects root
  have hvalid : (∀ seg∈segsOf (s5Object sleepValue::deviceObjects root), validSeg seg=true) ↔
      (hostBridges root).length≤bridgeNames ∧ (virtios root).length≤transportNames := by
    rw [←@valid_deviceNames _ _ (serialOf root).isSome,←hnames,List.forall_mem_map]
    constructor
    · exact fun h o ho => (valid_segs ho).mp fun seg hseg =>
        h seg (mem_segsOf.mpr ⟨o,List.mem_cons_of_mem _ ho,hseg⟩)
    · intro h seg hseg
      obtain ⟨o,ho,hmem⟩ := mem_segsOf.mp hseg
      obtain rfl | ho := List.mem_cons.mp ho
      · rw [List.mem_singleton.mp (show seg∈[ascii "_S5_"] from hmem)]
        decide
      · exact (valid_segs ho).mpr (h o ho) seg hmem
  constructor
  · rintro ⟨objects,h⟩
    cases h.parsed.symm.trans hparsed
    exact hvalid.mp h.valid
  · intro h
    refine ⟨_,hlength,hparsed,⟨sleepValue,rfl⟩,rfl,hvalid.mpr h,?_⟩
    rw [List.tail_cons,hnames]
    exact nodup_deviceNames h.1 h.2

/-- When a buffer is filled, the description of the system is well formed exactly when there are
at most 36 host bridges and at most 100 virtio transports. -/
theorem populate_names_iff {root : Node} {oem : OemIdentity} {baseGpa n : ℕ} {buf buf' : Bytes}
    (h : populate root oem baseGpa buf=.ok (n,buf')) :
    ∃ l, run root=.ok l ∧
      ((∃ objects, WellFormed root (bytesIn l.offsets.dsdt (buf'.take n)) objects) ↔
        (hostBridges root).length≤bridgeNames ∧ (virtios root).length≤transportNames) := by
  obtain ⟨l,hl,-,hfield,hlen,htable⟩ := populate_objects h
  exact ⟨l,hl,wellFormed_iff (hfield.trans hlen.symm) htable⟩

end Devices

/-- A tree with a bridge is written, and its description of the system is well formed. -/
theorem populate_names_iff_sample : ∃ n buf' l,
    @populate plainLib (Segments.bridgeTree [Segments.sampleBridge 0x10000000 0 15 0x1000000])
      sampleOem 0x1000 (List.replicate 1000 7)=.ok (n,buf') ∧
    @run plainLib (Segments.bridgeTree [Segments.sampleBridge 0x10000000 0 15 0x1000000])=.ok l ∧
    ∃ objects, @WellFormed plainLib
      (Segments.bridgeTree [Segments.sampleBridge 0x10000000 0 15 0x1000000])
      (bytesIn (Layouted.offsets l).dsdt (buf'.take n)) objects := by
  have hsome : (@populate plainLib (Segments.bridgeTree [Segments.sampleBridge 0x10000000 0 15
      0x1000000]) sampleOem 0x1000 (List.replicate 1000 7)).toOption.isSome=true := by
    decide +kernel
  have hfew : (@hostBridges plainLib (Segments.bridgeTree [Segments.sampleBridge 0x10000000 0 15
      0x1000000])).length≤bridgeNames ∧ (@virtios plainLib (Segments.bridgeTree
        [Segments.sampleBridge 0x10000000 0 15 0x1000000])).length≤transportNames := by
    decide +kernel
  obtain ⟨out,hfilled⟩ := exists_ok hsome
  obtain ⟨l,hl,hiff⟩ := @populate_names_iff plainLib _ _ _ _ _ _ hfilled
  exact ⟨out.1,out.2,l,hfilled,hl,hiff.mpr hfew⟩

/-- A tree with so many bridges. -/
def manyBridges (n : ℕ) : Node :=
  Segments.bridgeTree (List.replicate n (Segments.sampleBridge 0x10000000 0 15 0x1000000))

/-- A tree with 37 bridges is ready to be written. -/
theorem emitReady_37 {l : Layouted} (hsrat : l.offsets.srat=none) :
    @EmitReady plainLib (manyBridges 37) l := by
  have hbridges : (@hostBridges plainLib (manyBridges 37)).length≤255 ∧
      ∀ c∈@hostBridges plainLib (manyBridges 37),
        firstReg c .pciHost=some (0x10000000,0x1000000) ∧ ranges c=[] := by decide +kernel
  have hvirtios : @virtios plainLib (manyBridges 37)=[] := by decide +kernel
  have hioapics : @selected plainLib ioapicCompatible
      ((value (@DtbNode.children plainLib (rootOf (manyBridges 37)))).getD [])=[] := by
    decide +kernel
  have hserial : @serialOf plainLib (manyBridges 37)=none := by decide +kernel
  have hconsole : ((value (@findStdoutSerial plainLib (manyBridges 37))).bind id).isNone=true := by
    decide +kernel
  refine @EmitReady.mk plainLib _ _ (fun kids hkids => ?_) (fun n hn => ?_) (fun kids hkids => ?_)
    (fun kids hkids => ?_) (fun n baud hn => ?_) fun s hs => ?_
  · rw [@hostBridges_eq plainLib _ _ hkids] at hbridges
    refine ⟨hbridges.1,fun c hc => ?_⟩
    obtain ⟨hreg,hranges⟩ := hbridges.2 c hc
    refine ⟨⟨_,hreg,by decide⟩,?_,?_⟩
    · rw [hranges]
      decide
    · rw [hranges]
      exact fun r hr => absurd hr List.not_mem_nil
  · rw [@serialOf_eq plainLib _ _ hn] at hserial
    cases hserial
  · rw [@virtios_eq plainLib _ _ hkids] at hvirtios
    rw [hvirtios]
    exact ⟨by decide,fun c hc => absurd hc List.not_mem_nil⟩
  · rw [hkids,value_ok,Option.getD_some] at hioapics
    rw [hioapics]
    decide
  · rw [hn] at hconsole
    cases hconsole
  · rw [hsrat] at hs
    cases hs

/-- A tree with 37 bridges is written, but the last of them have no name. -/
theorem populate_37_bridges : ∃ n buf' l,
    @populate plainLib (manyBridges 37) sampleOem 0x1000 (List.replicate 8000 7)=.ok (n,buf') ∧
    @run plainLib (manyBridges 37)=.ok l ∧
    ¬∃ objects, @WellFormed plainLib (manyBridges 37)
      (bytesIn (Layouted.offsets l).dsdt (buf'.take n)) objects := by
  have hcounted : ((@run plainLib (manyBridges 37)).toOption.any fun l =>
      decide (l.offsets.srat=none ∧ l.offsets.slit=none ∧ l.offsets.total≤8000))=true := by
    decide +kernel
  have hmany : ¬(@hostBridges plainLib (manyBridges 37)).length≤bridgeNames := by decide +kernel
  obtain ⟨l,hl,hfacts⟩ := exists_ok_of_any hcounted
  obtain ⟨hsrat,hslit,htotal⟩ := of_decide_eq_true hfacts
  have hroom : l.offsets.total≤(List.replicate 8000 (7 : UInt8)).length := by
    rw [List.length_replicate]
    exact htotal
  obtain ⟨out,hfilled⟩ := @populate_of_ready plainLib _ l sampleOem 0x1000 hl
    (emitReady_37 hsrat) hslit _ hroom (by omega)
  obtain ⟨k,hk,-,hfield,hlen,htable⟩ := @populate_objects plainLib _ _ _ _ _ _ hfilled
  refine ⟨out.1,out.2,k,hfilled,hk,fun hwell => hmany ?_⟩
  exact ((@wellFormed_iff plainLib _ _ _ (hfield.trans hlen.symm) htable).mp hwell).1

end Arma.Acpi.Names
