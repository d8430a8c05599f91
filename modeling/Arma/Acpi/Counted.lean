import Mathlib.Tactic.Common
import Arma.Acpi.Count

/-!
# What counting has established

When counting succeeds, the walks of emission meet the same nodes, find them
well formed and need exactly the bytes that were counted for them.
-/

namespace Arma.Acpi.Counted

open Base.ArrayVec Base.ByteString Base.Checked Base.Writer Devtree Dtb Numbered Bridges Layout
  Sdt Fixed Tables Numa Serial Virtio Dsdt Spcr Count

/-- The cpus after a push end with the pushed one. -/
theorem entries_push {cache cache' : CpuCache} {apicId : ℕ} {tag : Option ℕ} {status : DtStatus}
    (htag : ∀ pd, tag=some pd → pd≠numaTagNone)
    (h : pushCpu cache apicId tag status=.ok cache') :
    cache'.toList.length=cache.toList.length+1 ∧
      entries cache'=entries cache++[⟨cache.toList.length,apicId,tag,status⟩] := by
  have hpush := ArrayVec.tryPush_some.mp (okOr_ok.mp h)
  refine ⟨by rw [hpush,List.length_append,List.length_singleton],?_⟩
  rw [entries,hpush,List.zipIdx_append,List.map_append,Nat.zero_add,List.zipIdx_singleton,
    List.map_singleton,entry_record htag,entries]

/-- The walk over the cpus has counted what the cache holds. -/
structure CpusCounted (w : CpuWalk) : Prop where
  /-- All cpus are in the cache. -/
  count : w.nVcpus=w.cache.toList.length
  /-- The interrupt entries take the counted bytes. -/
  vcpuBytes : w.vcpuEntriesBytes=((entries w.cache).map vcpuBytes).sum
  /-- The affinity entries take the counted bytes. -/
  cpuBytes : w.cpuEntriesBytes=
    ((entries w.cache).map fun e => cpuAffinitySizeForApic e.apicId).sum
  /-- Cpus without a domain have been counted. -/
  untagged : w.cpuUntaggedCount=(entries w.cache).countP fun e => e.numa.isNone

/-- Nothing collected is sound. -/
theorem cpusCounted_start : CpusCounted .start := ⟨rfl,rfl,rfl,rfl⟩

/-- Counting a domain changes the counts of domains only. -/
theorem tagCpu_ok {w w' : CpuWalk} {tag : Option ℕ} (h : tagCpu w tag=.ok w') :
    w'.vcpuEntriesBytes=w.vcpuEntriesBytes ∧ w'.cpuEntriesBytes=w.cpuEntriesBytes ∧
      w'.nVcpus=w.nVcpus ∧ w'.cache=w.cache ∧
      w'.cpuUntaggedCount=w.cpuUntaggedCount+if tag.isNone then 1 else 0 := by
  cases tag with
  | some pd =>
    obtain ⟨n,_,h⟩ := bind_ok.mp h
    obtain ⟨domains,_,h⟩ := bind_ok.mp h
    cases h
    exact ⟨rfl,rfl,rfl,rfl,rfl⟩
  | none =>
    obtain ⟨n,hn,h⟩ := bind_ok.mp h
    rw [okOr_ok,addWord_some] at hn
    cases h
    exact ⟨rfl,rfl,rfl,rfl,hn.1.symm⟩

/-- The base of an interrupt controller is read again when it was checked. -/
theorem intcBase_ok {n : DtbNode} {base : ℕ} (h : intcBase n=.ok base) :
    intcBase32 n=some base := by
  obtain ⟨regs,hregs,h⟩ := bind_ok.mp h
  obtain ⟨first,hfirst,h⟩ := bind_ok.mp h
  rw [intcBase32,firstReg_some.mpr ⟨regs,hregs,okOr_ok.mp hfirst⟩]
  exact okOr_ok.mp h

/-- All interrupt controllers are counted and have a base. -/
theorem countIoapics_ok {nodes : List DtbNode} {count n : ℕ} (h : countIoapics nodes count=.ok n) :
    n=count+nodes.length ∧ ∀ c∈nodes, ∃ base, intcBase32 c=some base := by
  induction nodes generalizing count with
  | nil =>
    cases h
    exact ⟨rfl,fun c hc => absurd hc List.not_mem_nil⟩
  | cons node rest ih =>
    obtain ⟨base,hbase,h⟩ := bind_ok.mp h
    obtain ⟨next,hnext,h⟩ := bind_ok.mp h
    obtain ⟨hn,hrest⟩ := ih h
    rw [okOr_ok,addWord_some] at hnext
    refine ⟨?_,List.forall_mem_cons.mpr ⟨⟨base,intcBase_ok hbase⟩,hrest⟩⟩
    rw [List.length_cons]
    omega

/-- A checked host bridge counts one and has registers and bus numbers. -/
theorem checkEcam_ok {child : DtbNode} {n : ℕ} (h : checkEcam child=.ok n) :
    n=1 ∧ (∃ p, firstReg child .pciHost=some p) ∧ ∃ bus, child.decodePciBusRange=.ok bus := by
  obtain ⟨regs,hregs,h⟩ := bind_ok.mp h
  obtain ⟨first,hfirst,h⟩ := bind_ok.mp h
  obtain ⟨bus,hbus,h⟩ := bind_ok.mp h
  cases h
  exact ⟨rfl,⟨first,firstReg_some.mpr ⟨regs,hregs,okOr_ok.mp hfirst⟩⟩,bus,hbus⟩

/-- Regions are counted one by one. -/
theorem countRegions_ok {regs : List (ℕ×ℕ)} {count n : ℕ} (h : countRegions regs count=.ok n) :
    n=count+regs.length := by
  induction regs generalizing count with
  | nil =>
    cases h
    rfl
  | cons r rest ih =>
    obtain ⟨next,hnext,h⟩ := bind_ok.mp h
    rw [okOr_ok,addWord_some] at hnext
    have hn := ih h
    rw [List.length_cons]
    omega

/-- A tag counts one node and changes no other count. -/
theorem tagMemory_ok {w w' : MemoryWalk} {tag : Option ℕ} (h : tagMemory w tag=.ok w') :
    w'.regionCount=w.regionCount ∧ w'.totalCount=w.totalCount ∧
      w'.taggedCount=w.taggedCount+if tag.isSome then 1 else 0 := by
  cases tag with
  | none =>
    cases h
    exact ⟨rfl,rfl,rfl⟩
  | some pd =>
    change (if pd=numaTagNone then _ else _)=_ at h
    split at h
    · exact absurd h fail_ne_ok
    · obtain ⟨n,hn,h⟩ := bind_ok.mp h
      obtain ⟨domains,_,h⟩ := bind_ok.mp h
      rw [okOr_ok,addWord_some] at hn
      cases h
      exact ⟨rfl,rfl,hn.1.symm⟩

/-- A carved slot follows what is carved so far. -/
theorem tiles_carve {cur n : ℕ} {p : Slot×ℕ} (h : Slot.carve cur n=.ok p) :
    Tiles cur [some p.1].reduceOption p.2 ∧ p.1.len=n := by
  obtain ⟨_,rfl⟩ := carve_ok.mp h
  exact ⟨⟨rfl,rfl⟩,rfl⟩

/-- A slot that is carved under a condition follows what is carved so far. -/
theorem tiles_carveIf {cond : Bool} {cur : ℕ} {size : Outcome DtbError ℕ} {p : Option Slot×ℕ}
    {len : ℕ} (hsize : ∀ n, size=.ok n → n=len) (h : carveIf cond cur size=.ok p) :
    Tiles cur [p.1].reduceOption p.2 ∧ p.1.map Slot.len=if cond then some len else none := by
  unfold carveIf at h
  split at h
  · rename_i hcond
    obtain ⟨n,hn,h⟩ := bind_ok.mp h
    obtain ⟨q,hq,h⟩ := bind_ok.mp h
    obtain ⟨htiles,hlen⟩ := tiles_carve hq
    cases h
    refine ⟨htiles,?_⟩
    rw [if_pos hcond,Option.map_some,hlen,hsize n hn]
  · rename_i hcond
    cases h
    refine ⟨rfl,?_⟩
    rw [if_neg hcond]
    rfl

/-- The layout of a count. -/
structure LaidOut (c : Counts) (nDomains : ℕ) (off : Offsets) : Prop where
  /-- The slots follow one another from the start to the end. -/
  tiles : Tiles 0 off.slots off.total
  /-- The end is a word. -/
  word : off.total<2^64
  /-- The root pointer has its size. -/
  rsdp : off.rsdp.len=rsdpSize
  /-- The description of the system has the counted bytes. -/
  dsdt : off.dsdt.len=SdtHeader.size+(s5AmlLen+(c.motherboardDsdtBytes+(c.pciDsdtBytes+
    (c.serialDsdtBytes+c.virtioMmioDsdtBytes))))
  /-- The fixed description table has its size. -/
  fadt : off.fadt.len=fadtSize
  /-- The table of interrupt controllers has the counted entries. -/
  madt : off.madt.len=madtHeaderSize+(c.vcpuEntriesBytes+c.ioapicCount*ioApicEntrySize)
  /-- The table of configuration spaces is there when there is a host bridge. -/
  mcfg : off.mcfg.map Slot.len=if decide (0 < c.ecamCount) then
    some (mcfgHeaderSize+c.ecamCount*mcfgAllocationSize) else none
  /-- The console table is there when there is a console. -/
  spcr : off.spcr.map Slot.len=if c.hasSerial then some spcrSize else none
  /-- The affinity table is there when there are domains. -/
  srat : off.srat.map Slot.len=if c.hasNuma then
    some (sratHeaderSize+(c.cpuEntriesBytes+c.memoryRegionCount*memoryAffinitySize)) else none
  /-- The distance table is there when there are distances. -/
  slit : off.slit.map Slot.len=if c.hasNuma && c.hasDistances then
    some (slitHeaderSize+nDomains*nDomains) else none
  /-- The directory has an entry for every table it lists. -/
  xsdt : off.xsdt.len=SdtHeader.size+off.xsdtTargets.length*entrySize

/-- Bytes of a header and a number of equal parts. -/
theorem partsSize_ok {header n k size : ℕ} (h : (okOr (mulWord 64 n k) DtbError.internal >>=
    fun b => okOr (addWord 64 header b) .internal)=.ok size) : size=header+n*k := by
  obtain ⟨b,hb,h⟩ := bind_ok.mp h
  rw [okOr_ok,mulWord_some] at hb
  rw [okOr_ok,addWord_some] at h
  omega

/-- Bytes of a header, a part and a number of equal parts. -/
theorem mixedSize_ok {header a n k size : ℕ} (h : (okOr (mulWord 64 n k) DtbError.internal >>=
    fun b => okOr (addWord 64 header a) .internal >>= fun s =>
      okOr (addWord 64 s b) .internal)=.ok size) : size=header+(a+n*k) := by
  obtain ⟨b,hb,h⟩ := bind_ok.mp h
  obtain ⟨t,ht,h⟩ := bind_ok.mp h
  rw [okOr_ok,mulWord_some] at hb
  rw [okOr_ok,addWord_some] at ht h
  omega

/-- Bytes of the description of the system. -/
theorem dsdtSize_ok {c : Counts} {n : ℕ} (h : dsdtSize c=.ok n) :
    n=SdtHeader.size+(s5AmlLen+(c.motherboardDsdtBytes+(c.pciDsdtBytes+
      (c.serialDsdtBytes+c.virtioMmioDsdtBytes)))) := by
  obtain ⟨a,ha,h⟩ := bind_ok.mp h
  obtain ⟨b,hb,h⟩ := bind_ok.mp h
  obtain ⟨d,hd,h⟩ := bind_ok.mp h
  obtain ⟨e,he,h⟩ := bind_ok.mp h
  rw [okOr_ok,addWord_some] at ha hb hd he h
  omega

/-- The number of listed tables. -/
theorem length_xsdtTargets (off : Offsets) : off.xsdtTargets.length=
    2+[off.mcfg,off.spcr,off.srat,off.slit].countP Option.isSome := by
  unfold Offsets.xsdtTargets
  cases off.mcfg <;> cases off.spcr <;> cases off.srat <;> cases off.slit <;> rfl

/-- The layout lays the count out. -/
theorem offsetsNew_ok {c : Counts} {nDomains : ℕ} {off : Offsets}
    (h : offsetsNew c nDomains=.ok off) : LaidOut c nDomains off := by
  obtain ⟨rsdp,hrsdp,h⟩ := bind_ok.mp h
  obtain ⟨dsdtBytes,hdsdtBytes,h⟩ := bind_ok.mp h
  obtain ⟨dsdt,hdsdt,h⟩ := bind_ok.mp h
  obtain ⟨fadt,hfadt,h⟩ := bind_ok.mp h
  obtain ⟨madtBytes,hmadtBytes,h⟩ := bind_ok.mp h
  obtain ⟨madt,hmadt,h⟩ := bind_ok.mp h
  obtain ⟨mcfg,hmcfg,h⟩ := bind_ok.mp h
  obtain ⟨spcr,hspcr,h⟩ := bind_ok.mp h
  obtain ⟨srat,hsrat,h⟩ := bind_ok.mp h
  obtain ⟨slit,hslit,h⟩ := bind_ok.mp h
  obtain ⟨xsdtBytes,hxsdtBytes,h⟩ := bind_ok.mp h
  obtain ⟨xsdt,hxsdt,h⟩ := bind_ok.mp h
  obtain ⟨trsdp,lrsdp⟩ := tiles_carve hrsdp
  obtain ⟨tdsdt,ldsdt⟩ := tiles_carve hdsdt
  obtain ⟨tfadt,lfadt⟩ := tiles_carve hfadt
  obtain ⟨tmadt,lmadt⟩ := tiles_carve hmadt
  obtain ⟨tmcfg,lmcfg⟩ := tiles_carveIf (fun _ hn => partsSize_ok hn) hmcfg
  obtain ⟨tspcr,lspcr⟩ := tiles_carveIf (fun _ hn => (Except.ok.inj hn).symm) hspcr
  obtain ⟨tsrat,lsrat⟩ := tiles_carveIf (fun _ hn => mixedSize_ok hn) hsrat
  obtain ⟨tslit,lslit⟩ := tiles_carveIf (fun _ hn => partsSize_ok hn) hslit
  obtain ⟨txsdt,lxsdt⟩ := tiles_carve hxsdt
  have hword := (carve_ok.mp hxsdt).1
  have hend : xsdt.2=slit.2+xsdtBytes := congrArg Prod.snd (carve_ok.mp hxsdt).2
  have htiles := trsdp.append (tdsdt.append (tfadt.append (tmadt.append (tmcfg.append
    (tspcr.append (tsrat.append (tslit.append txsdt)))))))
  simp only [←List.reduceOption_append] at htiles
  cases h
  refine ⟨htiles,?_,lrsdp,?_,lfadt,?_,lmcfg,lspcr,lsrat,lslit,?_⟩
  · rw [hend]
    exact hword
  · rw [ldsdt,dsdtSize_ok hdsdtBytes]
  · rw [lmadt,mixedSize_ok hmadtBytes]
  · rw [lxsdt,partsSize_ok hxsdtBytes,length_xsdtTargets]

/-- An optional slot is there under its condition only. -/
theorem placed {o : Option Slot} {cond : Bool} {len : ℕ} {s : Slot}
    (h : o.map Slot.len=if cond then some len else none) (hs : o=some s) :
    cond=true ∧ s.len=len := by
  rw [hs,Option.map_some] at h
  split at h
  · rename_i hcond
    exact ⟨hcond,Option.some.inj h⟩
  · cases h

variable [DevtreeLib]

/-- The domain of a cpu is never the one that stands for an absent one. -/
theorem decodeCpuSubset_tag {n : DtbNode} {apicId : ℕ} {tag : Option ℕ} {status : DtStatus}
    (h : n.decodeCpuSubset=.ok (apicId,tag,status)) : ∀ pd, tag=some pd → pd≠numaTagNone := by
  obtain ⟨raw,_,h⟩ := bind_ok.mp h
  obtain ⟨pairs,_,h⟩ := bind_ok.mp h
  obtain ⟨first,_,h⟩ := bind_ok.mp h
  obtain ⟨id,_,h⟩ := bind_ok.mp h
  obtain ⟨numa,hnuma,h⟩ := bind_ok.mp h
  obtain ⟨st,_,h⟩ := bind_ok.mp h
  cases h
  unfold DtbNode.cpuNumaTag at hnuma
  split at hnuma
  · cases hnuma
    intro pd hpd
    cases hpd
  · obtain ⟨v,_,hnuma⟩ := bind_ok.mp hnuma
    split at hnuma
    · exact absurd hnuma fail_ne_ok
    · rename_i hne
      cases hnuma
      rintro pd hpd
      cases hpd
      exact hne

/-- Counting one cpu keeps the walk sound. -/
theorem CpusCounted.walkCpu {child : DtbNode} {w w' : CpuWalk} (hw : CpusCounted w)
    (h : Count.walkCpu child w=.ok w') : CpusCounted w' := by
  obtain ⟨⟨apicId,tag,status⟩,hcpu,h⟩ := bind_ok.mp h
  dsimp only at h
  split at h
  · exact absurd h fail_ne_ok
  · obtain ⟨perVcpu,hper,h⟩ := bind_ok.mp h
    obtain ⟨vb,hvb,h⟩ := bind_ok.mp h
    obtain ⟨cb,hcb,h⟩ := bind_ok.mp h
    obtain ⟨tagged,htagged,h⟩ := bind_ok.mp h
    obtain ⟨cache,hcache,h⟩ := bind_ok.mp h
    obtain ⟨n,hn,h⟩ := bind_ok.mp h
    obtain ⟨hvcpu,haff,hcount,hsame,huntagged⟩ := tagCpu_ok htagged
    rw [hsame] at hcache
    obtain ⟨hlen,hentries⟩ := entries_push (decodeCpuSubset_tag hcpu) hcache
    rw [okOr_ok,addWord_some] at hper hvb hcb hn
    rw [hcount] at hn
    dsimp only at hvcpu haff hcount hsame huntagged hcache hlen hentries hn
    cases h
    refine ⟨?_,?_,?_,?_⟩
    · dsimp only
      rw [hlen,←hw.count]
      exact hn.1.symm
    · dsimp only
      rw [hentries,List.map_append,List.sum_append,←hw.vcpuBytes,hvcpu,←hvb.1,←hper.1,hw.count]
      rfl
    · dsimp only
      rw [hentries,List.map_append,List.sum_append,←hw.cpuBytes,haff,←hcb.1]
      rfl
    · dsimp only
      rw [hentries,List.countP_append,←hw.untagged,huntagged,List.countP_singleton]

/-- Counting all cpus keeps the walk sound. -/
theorem CpusCounted.walkCpusIn {kids : List DtbNode} {w w' : CpuWalk} (hw : CpusCounted w)
    (h : Count.walkCpusIn kids w=.ok w') : CpusCounted w' := by
  induction kids generalizing w with
  | nil =>
    cases h
    exact hw
  | cons child rest ih =>
    unfold Count.walkCpusIn at h
    split at h
    · obtain ⟨w1,hw1,h⟩ := bind_ok.mp h
      exact ih (hw.walkCpu hw1) h
    · exact ih hw h

/-- The counted cpus are sound. -/
theorem walkCpus_counted {root : DtbNode} {w : CpuWalk} (h : walkCpus root=.ok w) :
    CpusCounted w := by
  obtain ⟨cpus?,_,h⟩ := bind_ok.mp h
  obtain ⟨cpus,_,h⟩ := bind_ok.mp h
  obtain ⟨kids,_,h⟩ := bind_ok.mp h
  obtain ⟨w1,hw1,h⟩ := bind_ok.mp h
  split at h
  · exact absurd h fail_ne_ok
  · cases h
    exact cpusCounted_start.walkCpusIn hw1

/-- All interrupt controllers among the root's children are counted. -/
theorem countIntc_ok {root : DtbNode} {kids : List DtbNode} (hkids : root.children=.ok kids)
    {p : ℕ×ℕ} (h : countIntc root=.ok p) :
    p.2=(selected ioapicCompatible kids).length ∧
      ∀ c∈selected ioapicCompatible kids, ∃ base, intcBase32 c=some base := by
  obtain ⟨lapic,_,hl⟩ := bind_ok.mp h
  obtain ⟨lapicBase,_,hb⟩ := bind_ok.mp hl
  obtain ⟨nodes,hnodes,hc⟩ := bind_ok.mp hb
  obtain ⟨count,hcount,hp⟩ := bind_ok.mp hc
  have hsame : nodes=selected ioapicCompatible kids := by
    rw [ioapicNodes,hkids] at hnodes
    exact (Except.ok.inj hnodes).symm
  obtain ⟨hn,hall⟩ := countIoapics_ok hcount
  rw [Nat.zero_add,hsame] at hn
  rw [hsame] at hall
  cases hp
  exact ⟨hn,hall⟩

/-- All host bridges are counted; every `compatible` is well formed. -/
theorem countMcfg_ok {root : DtbNode} {n : ℕ} (h : countMcfg root=.ok n) :
    ∃ kids, root.children=.ok kids ∧ (∀ c∈kids, c.Listed) ∧
      n=(selected pciHostCompatible kids).length ∧
      ∀ c∈selected pciHostCompatible kids,
        (∃ p, firstReg c .pciHost=some p) ∧ ∃ bus, c.decodePciBusRange=.ok bus := by
  obtain ⟨kids,hkids,h⟩ := bind_ok.mp h
  obtain ⟨hlisted,hsizes,hn⟩ := sumOver_ok h
  have hone : ∀ c∈selected pciHostCompatible kids, (value (checkEcam c)).getD 0=1 := by
    intro c hc
    obtain ⟨k,hk⟩ := hsizes c hc
    rw [hk,value_ok,Option.getD_some,(checkEcam_ok hk).1]
  have hmap : ((selected pciHostCompatible kids).map fun c => (value (checkEcam c)).getD 0)=
      (selected pciHostCompatible kids).map fun _ => 1 := List.map_congr_left hone
  rw [hmap,List.map_const',List.sum_replicate,Nat.zero_add] at hn
  refine ⟨kids,hkids,hlisted,hn.trans (Nat.mul_one _),fun c hc => ?_⟩
  obtain ⟨k,hk⟩ := hsizes c hc
  exact (checkEcam_ok hk).2

/-- The windows of all host bridges are counted. -/
theorem pciTotalBytes_ok {root : DtbNode} {kids : List DtbNode} (hkids : root.children=.ok kids)
    {n : ℕ} (h : pciTotalBytes root=.ok n) :
    (∀ c∈selected pciHostCompatible kids, ∃ w, countWindows c=.ok w) ∧
      n=((selected pciHostCompatible kids).map bridgeBytes).sum := by
  unfold pciTotalBytes at h
  rw [hkids] at h
  obtain ⟨_,hsizes,hn⟩ := sumOver_ok h
  rw [Nat.zero_add] at hn
  refine ⟨fun c hc => ?_,hn.trans ?_⟩
  · obtain ⟨k,hk⟩ := hsizes c hc
    obtain ⟨w,hw,_⟩ := bind_ok.mp hk
    exact ⟨w,hw⟩
  · congr 1
    refine List.map_congr_left fun c hc => ?_
    obtain ⟨k,hk⟩ := hsizes c hc
    obtain ⟨w,hw,_⟩ := bind_ok.mp hk
    rw [bridgeBytes,hw]
    rfl

/-- The devices that reserve configuration space are counted. -/
theorem motherboardTotalBytes_ok {root : DtbNode} {kids : List DtbNode}
    (hkids : root.children=.ok kids) {n : ℕ} (h : motherboardTotalBytes root=.ok n) :
    n=(selected pciHostCompatible kids).length*motherboardAmlBytes := by
  unfold motherboardTotalBytes at h
  rw [hkids] at h
  exact (sumOver_const h).2

/-- The virtio transports are counted. -/
theorem virtioTotalBytes_ok {root : DtbNode} {kids : List DtbNode}
    (hkids : root.children=.ok kids) {n : ℕ} (h : virtioTotalBytes root=.ok n) :
    n=(selected virtioMmioCompatible kids).length*virtioDeviceBytes := by
  unfold virtioTotalBytes at h
  rw [hkids] at h
  obtain ⟨count,hsum,htotal⟩ := bind_ok.mp (show (sumOver 64 virtioMmioCompatible (fun _ => .ok 1)
    kids 0 >>= fun n => okOr (mulWord 64 n virtioDeviceBytes) .internal)=.ok n from h)
  have hcount := (sumOver_const hsum).2
  rw [Nat.mul_one] at hcount
  rw [okOr_ok,mulWord_some,hcount] at htotal
  exact htotal.1.symm

/-- A memory node as the affinity table needs it. -/
structure MemoryCounted (child : DtbNode) : Prop where
  /-- The status is well formed. -/
  status : ∃ s, child.decodeStatus .memory=.ok s
  /-- The tag is well formed. -/
  tag : ∃ t, child.propertyU32Opt "numa-node-id"=.ok t
  /-- The regions can be read. -/
  reg : ∃ regs, child.reg .memory=.ok regs

/-- `true` iff the memory node has a tag. -/
def isTagged (child : DtbNode) : Bool :=
  ((value (child.propertyU32Opt "numa-node-id")).bind id).isSome

/-- One memory node is counted. -/
theorem walkMemory_ok {child : DtbNode} {w w' : MemoryWalk} (h : walkMemory child w=.ok w') :
    MemoryCounted child ∧ w'.totalCount=w.totalCount+1 ∧
      w'.taggedCount=w.taggedCount+(if isTagged child then 1 else 0) ∧
      w'.regionCount*memoryAffinitySize=w.regionCount*memoryAffinitySize+memoryBytes child := by
  obtain ⟨total,htotal,h⟩ := bind_ok.mp h
  obtain ⟨status,hstatus,h⟩ := bind_ok.mp h
  obtain ⟨tag,htag,h⟩ := bind_ok.mp h
  obtain ⟨tagged,htagged,h⟩ := bind_ok.mp h
  obtain ⟨regs,hregs,h⟩ := bind_ok.mp h
  obtain ⟨regions,hregions,h⟩ := bind_ok.mp h
  obtain ⟨hregion,hcount,htags⟩ := tagMemory_ok htagged
  have hsum := countRegions_ok hregions
  rw [okOr_ok,addWord_some] at htotal
  cases h
  refine ⟨⟨⟨status,hstatus⟩,⟨tag,htag⟩,regs,hregs⟩,hcount.trans htotal.1.symm,?_,?_⟩
  · rw [isTagged,htag]
    exact htags
  · dsimp only
    rw [hsum,hregion,memoryBytes,hregs,Nat.add_mul]
    rfl

/-- All memory nodes are counted. -/
theorem walkMemories_ok {kids : List DtbNode} {w w' : MemoryWalk}
    (h : walkMemories kids w=.ok w') :
    (∀ c∈memories kids, MemoryCounted c) ∧
      w'.totalCount=w.totalCount+(memories kids).length ∧
      w'.taggedCount=w.taggedCount+(memories kids).countP isTagged ∧
      w'.regionCount*memoryAffinitySize=
        w.regionCount*memoryAffinitySize+((memories kids).map memoryBytes).sum := by
  induction kids generalizing w with
  | nil =>
    cases h
    exact ⟨fun c hc => absurd hc List.not_mem_nil,rfl,rfl,rfl⟩
  | cons child rest ih =>
    unfold walkMemories at h
    cases hname : baseNameIs child.name "memory" with
    | true =>
      rw [if_pos hname] at h
      obtain ⟨w1,hw1,h⟩ := bind_ok.mp h
      obtain ⟨hchild,htotal1,htags1,hregion1⟩ := walkMemory_ok hw1
      obtain ⟨hrest,htotal,htags,hregion⟩ := ih h
      rw [memories_cons hname,List.length_cons,List.countP_cons,List.map_cons,List.sum_cons]
      refine ⟨List.forall_mem_cons.mpr ⟨hchild,hrest⟩,?_,?_,?_⟩
      · omega
      · omega
      · omega
    | false =>
      rw [hname,if_neg Bool.false_ne_true] at h
      rw [memories_skip hname]
      exact ih h

/-- Counting the domains finds that no node names one, or that every node does. -/
theorem countNuma_cases {root : DtbNode} {w : CpuWalk} {numa : NumaCount}
    (h : countNuma root w=.ok numa) :
    ∃ kids m, root.children=.ok kids ∧ walkMemories kids ⟨0,0,0,w.domains⟩=.ok m ∧
      ((w.cpuTaggedCount=0 ∧ m.taggedCount=0 ∧ numa=⟨false,0,false,m.domains⟩) ∨
        (¬(w.cpuTaggedCount=0 ∧ m.taggedCount=0) ∧ w.cpuUntaggedCount=0 ∧
          m.taggedCount=m.totalCount ∧ ∃ distances, hasDistances root m.domains=.ok distances ∧
            numa=⟨true,m.regionCount,distances,m.domains⟩)) := by
  obtain ⟨kids,hkids,h⟩ := bind_ok.mp h
  obtain ⟨m,hm,h⟩ := bind_ok.mp h
  refine ⟨kids,m,hkids,hm,?_⟩
  split at h
  · rename_i hnone
    cases h
    exact .inl ⟨hnone.1,hnone.2,rfl⟩
  · rename_i hsome
    split at h
    · exact absurd h fail_ne_ok
    · rename_i huntagged
      split at h
      · exact absurd h fail_ne_ok
      · rename_i hcomplete
        obtain ⟨distances,hdistances,h⟩ := bind_ok.mp h
        cases h
        exact .inr ⟨hsome,Nat.eq_zero_of_not_pos huntagged,not_not.mp hcomplete,distances,hdistances,
          rfl⟩

/-- When there are domains, every cpu and every memory node has one. -/
theorem countNuma_ok {root : DtbNode} {kids : List DtbNode} (hkids : root.children=.ok kids)
    {w : CpuWalk} (hw : CpusCounted w) {numa : NumaCount} (h : countNuma root w=.ok numa)
    (hnuma : numa.hasNuma=true) :
    (∀ e∈entries w.cache, e.numa.isSome=true) ∧
      (∀ c∈memories kids, MemoryCounted c ∧ isTagged c=true) ∧
      numa.memoryRegionCount*memoryAffinitySize=((memories kids).map memoryBytes).sum ∧
      hasDistances root numa.domains=.ok numa.hasDistances := by
  obtain ⟨kids',m,hkids',hm,hcases⟩ := countNuma_cases h
  cases hkids.symm.trans hkids'
  obtain ⟨hall,htotal,htags,hregion⟩ := walkMemories_ok hm
  rw [Nat.zero_mul,Nat.zero_add] at hregion
  rw [Nat.zero_add] at htotal htags
  obtain ⟨-,-,rfl⟩ | ⟨-,huntagged,hcomplete,d,hd,rfl⟩ := hcases
  · cases hnuma
  · have hlen : (memories kids).countP isTagged=(memories kids).length := by
      rw [←htags,←htotal,hcomplete]
    refine ⟨fun e he => ?_,fun c hc => ⟨hall c hc,List.countP_eq_length.mp hlen c hc⟩,hregion,hd⟩
    have hnone := List.countP_eq_zero.mp (hw.untagged.symm.trans huntagged) e he
    rw [Option.isNone_iff_eq_none] at hnone
    exact Option.isSome_iff_ne_none.mpr hnone

/-- The entries of a counted memory node with a domain can be written. -/
theorem isSome_memoryPart {child : DtbNode} (h : MemoryCounted child)
    (htagged : isTagged child=true) : (memoryPart child).isSome=true := by
  obtain ⟨status,hstatus⟩ := h.status
  obtain ⟨tag,htag⟩ := h.tag
  obtain ⟨regs,hregs⟩ := h.reg
  rw [isTagged,htag] at htagged
  cases tag with
  | none => cases htagged
  | some pd =>
    unfold memoryPart
    rw [htag,hstatus,hregs]
    rfl

/-- There is a matrix when there are distances. -/
theorem hasDistances_ok {root : DtbNode} {domains : Domains}
    (h : hasDistances root domains=.ok true) :
    ∃ mapNode raw, root.child "distance-map" .distanceMap=.ok (some mapNode) ∧
      mapNode.node.property "distance-matrix"=some raw := by
  unfold hasDistances at h
  split at h
  · obtain ⟨map,hmap,h⟩ := bind_ok.mp h
    cases map with
    | none => cases h
    | some node =>
      obtain ⟨raw,hraw,_⟩ := bind_ok.mp h
      exact ⟨node,raw,hmap,okOr_ok.mp hraw⟩
  · cases h

/-- What counting has established about the tree and the layout. -/
structure Established (root : Node) (l : Layouted) (kids : List DtbNode)
    (serial : Option DtbNode) (console : Option (DtbNode×Option ℕ)) : Prop where
  /-- The root's children. -/
  children : (rootOf root).children=.ok kids
  /-- The nodes of the devices are well formed. -/
  counted : Counted kids
  /-- The serial port of the namespace. -/
  namespacePort : findSerial (rootOf root)=.ok serial
  /-- The serial port of the console table. -/
  stdoutPort : findStdoutSerial root=.ok console
  /-- Every interrupt controller has a base. -/
  ioapics : ∀ c∈selected ioapicCompatible kids, ∃ base, intcBase32 c=some base
  /-- Every host bridge has registers. -/
  bridges : ∀ c∈selected pciHostCompatible kids, ∃ p, firstReg c .pciHost=some p
  /-- The slots follow one another from the start to the end. -/
  tiles : Tiles 0 l.offsets.slots l.offsets.total
  /-- The end is a word. -/
  word : l.offsets.total<2^64
  /-- The slot of the root pointer. -/
  rsdp : l.offsets.rsdp.len=rsdpSize
  /-- The slot of the description of the system. -/
  dsdt : l.offsets.dsdt.len=SdtHeader.size+(s5AmlLen+devicesBytes kids serial)
  /-- The slot of the fixed description table. -/
  fadt : l.offsets.fadt.len=fadtSize
  /-- The slot of the table of interrupt controllers. -/
  madt : l.offsets.madt.len=madtHeaderSize+(((entries l.cache).map vcpuBytes).sum+
    (selected ioapicCompatible kids).length*ioApicEntrySize)
  /-- The slot of the table of configuration spaces. -/
  mcfg : l.offsets.mcfg.map Slot.len=if decide (0<(selected pciHostCompatible kids).length) then
    some (mcfgHeaderSize+(selected pciHostCompatible kids).length*mcfgAllocationSize) else none
  /-- The slot of the console table. -/
  spcr : l.offsets.spcr.map Slot.len=if console.isSome then some spcrSize else none
  /-- The slot of the affinity table, and what its entries are made of. -/
  srat : ∀ s, l.offsets.srat=some s →
    s.len=sratHeaderSize+(((entries l.cache).map fun e => cpuAffinitySizeForApic e.apicId).sum+
      ((memories kids).map memoryBytes).sum) ∧
    (∀ e∈entries l.cache, e.numa.isSome=true) ∧
    ∀ c∈memories kids, MemoryCounted c ∧ isTagged c=true
  /-- The slot of the distance table, and the node of the distances. -/
  slit : ∀ s, l.offsets.slit=some s →
    s.len=slitHeaderSize+l.domains.toList.length*l.domains.toList.length ∧
    ∃ mapNode raw, (rootOf root).child "distance-map" .distanceMap=.ok (some mapNode) ∧
      mapNode.node.property "distance-matrix"=some raw
  /-- The slot of the directory. -/
  xsdt : l.offsets.xsdt.len=SdtHeader.size+l.offsets.xsdtTargets.length*entrySize

/-- The steps of counting, with what each of them hands to the next ones and to the layout. -/
structure Ran (root : Node) (l : Layouted) (walk : CpuWalk) (numa : NumaCount) (c : Counts) :
    Prop where
  /-- The cpus are walked. -/
  cpus : walkCpus (rootOf root)=.ok walk
  /-- The interrupt controllers are counted. -/
  intc : countIntc (rootOf root)=.ok (l.lapicBase,c.ioapicCount)
  /-- The registers for power-off and reset are extracted. -/
  fadt : extractFadt (rootOf root)=.ok l.fadt
  /-- The host bridges are counted. -/
  bridges : countMcfg (rootOf root)=.ok c.ecamCount
  /-- So are the reserved configuration spaces. -/
  motherboard : motherboardTotalBytes (rootOf root)=.ok c.motherboardDsdtBytes
  /-- So are the devices of the host bridges. -/
  pci : pciTotalBytes (rootOf root)=.ok c.pciDsdtBytes
  /-- So is the serial port. -/
  port : serialTotalBytes (rootOf root)=.ok c.serialDsdtBytes
  /-- So are the virtio transports. -/
  transports : virtioTotalBytes (rootOf root)=.ok c.virtioMmioDsdtBytes
  /-- The console is looked up. -/
  console : present root=.ok c.hasSerial
  /-- The domains are counted. -/
  domains : countNuma (rootOf root) walk=.ok numa
  /-- The tables are laid out. -/
  offsets : offsetsNew c numa.domains.toList.length=.ok l.offsets
  /-- The bytes for the cpus are those of the walk. -/
  cpuBytes : c.vcpuEntriesBytes=walk.vcpuEntriesBytes ∧ c.cpuEntriesBytes=walk.cpuEntriesBytes
  /-- The counts for the domains are those of the memory nodes. -/
  memory : c.hasNuma=numa.hasNuma ∧ c.memoryRegionCount=numa.memoryRegionCount ∧
    c.hasDistances=numa.hasDistances
  /-- The cpus and the domains are kept. -/
  kept : l.cache=walk.cache ∧ l.domains=numa.domains

/-- Counting runs all its steps. -/
theorem run_ran {root : Node} {l : Layouted} (h : run root=.ok l) :
    ∃ walk numa c, Ran root l walk numa c := by
  obtain ⟨walk,hwalk,h⟩ := bind_ok.mp h
  obtain ⟨intc,hintc,h⟩ := bind_ok.mp h
  obtain ⟨fadt,hfadt,h⟩ := bind_ok.mp h
  obtain ⟨ecamCount,hecam,h⟩ := bind_ok.mp h
  obtain ⟨motherboard,hmotherboard,h⟩ := bind_ok.mp h
  obtain ⟨pci,hpci,h⟩ := bind_ok.mp h
  obtain ⟨serialBytes,hserial,h⟩ := bind_ok.mp h
  obtain ⟨virtio,hvirtio,h⟩ := bind_ok.mp h
  obtain ⟨hasSerial,hpresent,h⟩ := bind_ok.mp h
  obtain ⟨numa,hnuma,h⟩ := bind_ok.mp h
  obtain ⟨off,hoff,h⟩ := bind_ok.mp h
  cases h
  exact ⟨walk,numa,⟨walk.vcpuEntriesBytes,walk.cpuEntriesBytes,intc.2,ecamCount,pci,motherboard,
    serialBytes,virtio,hasSerial,numa.hasNuma,numa.memoryRegionCount,numa.hasDistances⟩,
    hwalk,hintc,hfadt,hecam,hmotherboard,hpci,hserial,hvirtio,hpresent,hnuma,hoff,⟨rfl,rfl⟩,
    ⟨rfl,rfl,rfl⟩,rfl,rfl⟩

/-- When counting succeeds, all this is established. -/
theorem run_ok {root : Node} {l : Layouted} (h : run root=.ok l) :
    ∃ kids serial console, Established root l kids serial console := by
  obtain ⟨walk,numa,c,hran⟩ := run_ran h
  obtain ⟨kids,hkids,hlisted,hcount,hbridges⟩ := countMcfg_ok hran.bridges
  obtain ⟨serial,hserial,hserialSize⟩ := bind_ok.mp hran.port
  obtain ⟨console,hconsole,hconsolePresent⟩ := bind_ok.mp hran.console
  have hsound := walkCpus_counted hran.cpus
  obtain ⟨hioapicCount,hioapics⟩ := countIntc_ok hkids hran.intc
  have hioapicCount : c.ioapicCount=(selected ioapicCompatible kids).length := hioapicCount
  obtain ⟨hwindows,hpciSize⟩ := pciTotalBytes_ok hkids hran.pci
  have hmotherboardSize := motherboardTotalBytes_ok hkids hran.motherboard
  have hvirtioSize := virtioTotalBytes_ok hkids hran.transports
  have hlaid := offsetsNew_ok hran.offsets
  obtain ⟨hvcpuBytes,hcpuBytes⟩ := hran.cpuBytes
  obtain ⟨hnuma,hregionCount,hdistanceMap⟩ := hran.memory
  obtain ⟨hcache,hdomains⟩ := hran.kept
  have hsize : c.serialDsdtBytes=if serial.isSome then serialDeviceBytes else 0 :=
    (Except.ok.inj hserialSize).symm
  have hhas : c.hasSerial=console.isSome := (Except.ok.inj hconsolePresent).symm
  refine ⟨kids,serial,console,hkids,⟨hlisted,fun c hc => (hbridges c hc).2,hwindows⟩,hserial,
    hconsole,hioapics,fun c hc => (hbridges c hc).1,hlaid.tiles,hlaid.word,hlaid.rsdp,?_,
    hlaid.fadt,?_,?_,?_,fun s hs => ?_,fun s hs => ?_,hlaid.xsdt⟩
  · rw [hlaid.dsdt,devicesBytes,hmotherboardSize,hpciSize,hsize,hvirtioSize]
  · rw [hlaid.madt,hvcpuBytes,hcache,hsound.vcpuBytes,hioapicCount]
  · rw [hlaid.mcfg,hcount]
  · rw [hlaid.spcr,hhas]
  · obtain ⟨hhasNuma,hlen⟩ := placed hlaid.srat hs
    obtain ⟨hcpus,hmemories,hregions,_⟩ :=
      countNuma_ok hkids hsound hran.domains (hnuma.symm.trans hhasNuma)
    rw [hcache]
    refine ⟨?_,hcpus,hmemories⟩
    rw [hlen,hcpuBytes,hsound.cpuBytes,hregionCount,hregions]
  · obtain ⟨hboth,hlen⟩ := placed hlaid.slit hs
    obtain ⟨hhasNuma,hhasDistances⟩ := Bool.and_eq_true_iff.mp hboth
    obtain ⟨_,_,_,hdistances⟩ :=
      countNuma_ok hkids hsound hran.domains (hnuma.symm.trans hhasNuma)
    rw [←hdistanceMap,hhasDistances] at hdistances
    rw [hdomains]
    exact ⟨hlen,hasDistances_ok hdistances⟩

end Arma.Acpi.Counted
