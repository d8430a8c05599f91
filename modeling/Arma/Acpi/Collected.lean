import Mathlib.Tactic.Common
import Arma.Acpi.Capacity

/-!
# What counting has collected

The cpus are in the cache with their place in the tree for a UID, and the domains stand in
the order in which the nodes name them first: those of the cpus, then those of the memory.
There is an affinity table exactly when some node names a domain, and then all of them do.
-/

namespace Arma.Acpi.Collected

open Base.ArrayVec Base.ByteString Base.Checked Base.Writer Devtree Dtb Numbered Bridges Layout
  Numa Tables Count Counted Capacity

/-- The first occurrences of a longer list. -/
theorem eraseDups_concat (l : List ℕ) (a : ℕ) :
    (l++[a]).eraseDups=if a∈l then l.eraseDups else l.eraseDups++[a] := by
  rw [List.eraseDups_append,List.removeAll]
  split
  · rename_i hmem
    simp [hmem]
  · rename_i hmem
    simp [hmem,List.eraseDups_cons]

/-- They are listed once. -/
theorem nodup_eraseDups (l : List ℕ) : l.eraseDups.Nodup := by
  induction l using List.reverseRecOn with
  | nil => exact List.nodup_nil
  | append_singleton l a ih =>
    rw [eraseDups_concat]
    split
    · exact ih
    · rename_i hnew
      refine List.nodup_append.mpr ⟨ih,List.nodup_singleton a,fun b hb c hc => ?_⟩
      rw [List.mem_singleton.mp hc]
      rintro rfl
      exact hnew (List.mem_eraseDups.mp hb)

/-- A domain that is entered stands behind those that were named before. -/
theorem insertDomain_eraseDups {d d' : Domains} {tags : List ℕ} {pd : ℕ}
    (hd : d.toList=tags.eraseDups) (h : insertDomain d pd=.ok d') :
    d'.toList=(tags++[pd]).eraseDups := by
  have hmem : pd∈d.toList ↔ pd∈tags := by rw [hd,List.mem_eraseDups]
  rw [eraseDups_concat,←hd]
  unfold insertDomain at h
  by_cases hpd : pd∈tags
  · rw [if_pos (hmem.mpr hpd)] at h
    cases h
    rw [if_pos hpd]
  · rw [if_neg (fun hin => hpd (hmem.mp hin))] at h
    rw [if_neg hpd,ArrayVec.tryPush_some.mp (okOr_ok.mp h)]

/-- Counting a domain enters it. -/
theorem tagCpu_domains {w w' : CpuWalk} {tag : Option ℕ} {tags : List ℕ}
    (h : tagCpu w tag=.ok w') (hw : w.domains.toList=tags.eraseDups) :
    w'.domains.toList=(tags++tag.toList).eraseDups ∧
      w'.cpuTaggedCount=w.cpuTaggedCount+if tag.isSome then 1 else 0 := by
  cases tag with
  | none =>
    obtain ⟨n,_,h⟩ := bind_ok.mp h
    cases h
    rw [Option.toList_none,List.append_nil]
    exact ⟨hw,rfl⟩
  | some pd =>
    obtain ⟨n,hn,h⟩ := bind_ok.mp h
    obtain ⟨domains,hdomains,h⟩ := bind_ok.mp h
    obtain ⟨hcount,-⟩ := addWord_some.mp (okOr_ok.mp hn)
    cases h
    exact ⟨insertDomain_eraseDups hw hdomains,hcount.symm⟩

/-- A slot is there when it was laid out. -/
theorem isSome_placed {o : Option Slot} {cond : Bool} {len : ℕ}
    (h : o.map Slot.len=if cond then some len else none) : o.isSome=cond := by
  rw [←Option.isSome_map (f := Slot.len),h]
  cases cond <;> rfl

/-- There are few UIDs. -/
theorem processorId_lt {cache : CpuCache} {e : CpuEntry} (he : e∈entries cache) :
    e.processorId<256 := by
  obtain ⟨p,hp,rfl⟩ := List.mem_map.mp he
  have hposition : p.2<cache.toList.length := List.snd_lt_of_mem_zipIdx hp
  have hcap : cache.toList.length ≤ 256 := cache.bound
  exact hposition.trans_le hcap

/-- What no element has is collected from none. -/
theorem filterMap_nil {α β : Type} {f : α → Option β} {p : α → Bool} {l : List α}
    (hf : ∀ a∈l, (f a).isSome=p a) (hnone : ∀ a∈l, p a=false) : l.filterMap f=[] :=
  List.filterMap_eq_nil_iff.mpr fun a ha =>
    Option.isNone_iff_eq_none.mp (Option.isSome_eq_false_iff.mp ((hf a ha).trans (hnone a ha)))

variable [DevtreeLib]

/-- The cpus of a tree. -/
def cpusOf (root : Node) : List DtbNode :=
  cpusIn ((((value ((rootOf root).child "cpus" .cpus)).bind id).bind fun n =>
    value n.children).getD [])

/-- The domain that a cpu names. -/
def domainOf (c : DtbNode) : Option ℕ := (value c.cpuNumaTag).bind id

/-- The domain that a memory node names. -/
def memoryDomain (c : DtbNode) : Option ℕ := (value (c.propertyU32Opt "numa-node-id")).bind id

/-- What the properties of the cpu at a position say. -/
def cpuEntry (c : DtbNode) (i : ℕ) : CpuEntry :=
  ⟨i,((firstReg c .cpu).map Prod.fst).getD 0,domainOf c,(value (c.decodeStatus .cpu)).getD .okay⟩

/-- The cpu can be read. -/
structure CpuRead (c : DtbNode) : Prop where
  /-- Its `reg` starts with an id of 32 bits. -/
  reg : ∃ apicId size, firstReg c .cpu=some (apicId,size) ∧ apicId<2^32
  /-- Its domain is well formed. -/
  tag : ∃ tag, c.cpuNumaTag=.ok tag
  /-- So is its status. -/
  status : ∃ status, c.decodeStatus .cpu=.ok status

/-- Whether a node names a domain. -/
def carriesDomain (c : DtbNode) : Bool := (c.node.property "numa-node-id").isSome

/-- A cpu is read by its properties. -/
theorem decodeCpuSubset_read {c : DtbNode} {apicId : ℕ} {tag : Option ℕ} {status : DtStatus}
    (h : c.decodeCpuSubset=.ok (apicId,tag,status)) :
    CpuRead c ∧ ∀ i, (⟨i,apicId,tag,status⟩ : CpuEntry)=cpuEntry c i := by
  obtain ⟨raw,hraw,h⟩ := bind_ok.mp h
  obtain ⟨pairs,hpairs,h⟩ := bind_ok.mp h
  obtain ⟨first,hfirst,h⟩ := bind_ok.mp h
  obtain ⟨id,hid,h⟩ := bind_ok.mp h
  obtain ⟨numa,hnuma,h⟩ := bind_ok.mp h
  obtain ⟨st,hst,h⟩ := bind_ok.mp h
  have hreg : firstReg c .cpu=some first :=
    firstReg_some.mpr ⟨pairs,bind_ok.mpr ⟨raw,hraw,hpairs⟩,okOr_ok.mp hfirst⟩
  obtain ⟨hsame,hlt⟩ := narrow_eq_some.mp (okOr_ok.mp hid)
  cases h
  refine ⟨⟨⟨first.1,first.2,hreg,hlt⟩,⟨tag,hnuma⟩,⟨status,hst⟩⟩,fun i => ?_⟩
  subst hsame
  rw [cpuEntry,hreg,domainOf,hnuma,hst]
  rfl

/-- A cpu that is read names a domain when it has the property. -/
theorem CpuRead.carries {c : DtbNode} (h : CpuRead c) : (domainOf c).isSome=carriesDomain c := by
  obtain ⟨tag,htag⟩ := h.tag
  rw [domainOf,htag,carriesDomain]
  rw [DtbNode.cpuNumaTag] at htag
  cases hprop : c.node.property "numa-node-id" with
  | none =>
    rw [hprop] at htag
    cases htag
    rfl
  | some prop =>
    rw [hprop] at htag
    obtain ⟨v,_,htag⟩ := bind_ok.mp htag
    split at htag
    · exact absurd htag fail_ne_ok
    · cases htag
      rfl

/-- What the walk has collected after cpus. -/
structure CpusWalked (w : CpuWalk) (cpus : List DtbNode) : Prop where
  /-- They can be read. -/
  read : ∀ c∈cpus, CpuRead c
  /-- They are in the cache, in order. -/
  cached : entries w.cache=cpus.zipIdx.map fun p => cpuEntry p.1 p.2
  /-- Those with a domain are counted. -/
  tagged : w.cpuTaggedCount=cpus.countP fun c => (domainOf c).isSome
  /-- So are the others. -/
  untagged : w.cpuUntaggedCount=cpus.countP fun c => (domainOf c).isNone
  /-- Their domains stand in the order in which they are named. -/
  domains : w.domains.toList=(cpus.filterMap domainOf).eraseDups

/-- Nothing is collected at first. -/
theorem cpusWalked_start : CpusWalked .start [] := by
  refine ⟨fun c hc => absurd hc List.not_mem_nil,rfl,rfl,rfl,rfl⟩

/-- One more cpu is collected. -/
theorem CpusWalked.step {w w' : CpuWalk} {cpus : List DtbNode} {child : DtbNode}
    (hw : CpusWalked w cpus) (h : walkCpu child w=.ok w') : CpusWalked w' (cpus++[child]) := by
  obtain ⟨⟨apicId,tag,status⟩,hcpu,h⟩ := bind_ok.mp h
  dsimp only at h
  split at h
  · exact absurd h fail_ne_ok
  · obtain ⟨perVcpu,_,h⟩ := bind_ok.mp h
    obtain ⟨vb,_,h⟩ := bind_ok.mp h
    obtain ⟨cb,_,h⟩ := bind_ok.mp h
    obtain ⟨tagged,htagged,h⟩ := bind_ok.mp h
    obtain ⟨cache,hcache,h⟩ := bind_ok.mp h
    obtain ⟨n,hn,h⟩ := bind_ok.mp h
    obtain ⟨hread,hentry⟩ := decodeCpuSubset_read hcpu
    obtain ⟨_,_,_,hsame,huntagged⟩ := tagCpu_ok htagged
    obtain ⟨hdomains,hcount⟩ := tagCpu_domains htagged hw.domains
    rw [hsame] at hcache
    obtain ⟨_,hentries⟩ := entries_push (decodeCpuSubset_tag hcpu) hcache
    have htag : domainOf child=tag := congrArg CpuEntry.numa (hentry 0).symm
    have hlen : w.cache.toList.length=cpus.length := by
      have hlengths := congrArg List.length hw.cached
      rwa [entries,List.length_map,List.length_map,List.length_zipIdx,List.length_zipIdx]
        at hlengths
    have hall : ∀ c∈cpus++[child], CpuRead c := by
      intro c hc
      rcases List.mem_append.mp hc with hc | hc
      · exact hw.read c hc
      · exact List.mem_singleton.mp hc ▸ hread
    cases h
    refine ⟨hall,?_,?_,?_,?_⟩
    · dsimp only at hentries ⊢
      rw [hentries,hentry,hw.cached,hlen,List.zipIdx_append,List.map_append]
      simp
    · dsimp only at hcount ⊢
      rw [hcount,hw.tagged,List.countP_append,List.countP_singleton,htag]
    · dsimp only at huntagged ⊢
      rw [huntagged,hw.untagged,List.countP_append,List.countP_singleton,htag]
    · dsimp only at hdomains ⊢
      rw [hdomains,List.filterMap_append]
      congr 2
      rw [←htag,List.filterMap_cons]
      cases domainOf child <;> rfl

/-- All cpus among some children are collected. -/
theorem CpusWalked.run {w w' : CpuWalk} {cpus kids : List DtbNode} (hw : CpusWalked w cpus)
    (h : walkCpusIn kids w=.ok w') : CpusWalked w' (cpus++cpusIn kids) := by
  induction kids generalizing w cpus with
  | nil =>
    cases h
    rw [show cpusIn []=[] from rfl,List.append_nil]
    exact hw
  | cons child rest ih =>
    unfold walkCpusIn at h
    split at h
    · rename_i hname
      obtain ⟨w1,hw1,h⟩ := bind_ok.mp h
      rw [cpusIn_cons hname,List.append_cons]
      exact ih (hw.step hw1) h
    · rename_i hname
      rw [cpusIn_skip (Bool.eq_false_iff.mpr hname)]
      exact ih hw h

/-- The cpus of a tree are collected, and there is one. -/
theorem walkCpus_collected {root : Node} {w : CpuWalk} (h : walkCpus (rootOf root)=.ok w) :
    CpusWalked w (cpusOf root) ∧ cpusOf root≠[] := by
  obtain ⟨cpus?,hchild,h⟩ := bind_ok.mp h
  obtain ⟨cpus,hcpus,h⟩ := bind_ok.mp h
  obtain ⟨kids,hkids,h⟩ := bind_ok.mp h
  obtain ⟨w1,hw1,h⟩ := bind_ok.mp h
  have hof : cpusOf root=cpusIn kids := by
    rw [cpusOf,hchild,value_ok,Option.bind_some,id,okOr_ok.mp hcpus,Option.bind_some,hkids]
    rfl
  have hwalked := cpusWalked_start.run hw1
  have hcounted := cpusCounted_start.walkCpusIn hw1
  rw [List.nil_append,←hof] at hwalked
  split at h
  · exact absurd h fail_ne_ok
  · rename_i hsome
    cases h
    refine ⟨hwalked,fun hnil => hsome ?_⟩
    have hlengths := congrArg List.length hwalked.cached
    rw [entries,List.length_map,List.length_map,List.length_zipIdx,List.length_zipIdx,hnil]
      at hlengths
    exact hcounted.count.trans hlengths

/-- A memory node that is counted names a domain when it has the property. -/
theorem isTagged_carries {c : DtbNode} (h : MemoryCounted c) : isTagged c=carriesDomain c := by
  obtain ⟨tag,htag⟩ := h.tag
  rw [isTagged,htag,carriesDomain]
  rw [DtbNode.propertyU32Opt.eq_def] at htag
  cases hprop : c.node.property "numa-node-id" with
  | none =>
    rw [hprop] at htag
    cases htag
    rfl
  | some prop =>
    rw [hprop] at htag
    obtain ⟨v,_,htag⟩ := bind_ok.mp htag
    cases htag
    rfl

/-- The domain of a memory node is entered. -/
theorem walkMemory_domains {c : DtbNode} {m m' : MemoryWalk} {tags : List ℕ}
    (h : walkMemory c m=.ok m') (hm : m.domains.toList=tags.eraseDups) :
    m'.domains.toList=(tags++(memoryDomain c).toList).eraseDups := by
  obtain ⟨total,_,h⟩ := bind_ok.mp h
  obtain ⟨status,_,h⟩ := bind_ok.mp h
  obtain ⟨tag,htag,h⟩ := bind_ok.mp h
  obtain ⟨tagged,htagged,h⟩ := bind_ok.mp h
  obtain ⟨regs,_,h⟩ := bind_ok.mp h
  obtain ⟨regions,_,h⟩ := bind_ok.mp h
  have hdomain : memoryDomain c=tag := by
    rw [memoryDomain,htag]
    rfl
  cases h
  rw [hdomain]
  cases tag with
  | none =>
    cases htagged
    rw [Option.toList_none,List.append_nil]
    exact hm
  | some pd =>
    rw [tagMemory] at htagged
    split at htagged
    · exact absurd htagged fail_ne_ok
    · obtain ⟨n,_,htagged⟩ := bind_ok.mp htagged
      obtain ⟨domains,hdomains,htagged⟩ := bind_ok.mp htagged
      cases htagged
      exact insertDomain_eraseDups hm hdomains

/-- The domains of all memory nodes are entered. -/
theorem walkMemories_domains {kids : List DtbNode} {m m' : MemoryWalk} {tags : List ℕ}
    (h : walkMemories kids m=.ok m') (hm : m.domains.toList=tags.eraseDups) :
    m'.domains.toList=(tags++(memories kids).filterMap memoryDomain).eraseDups := by
  induction kids generalizing m tags with
  | nil =>
    cases h
    rw [show memories []=[] from rfl,List.filterMap_nil,List.append_nil]
    exact hm
  | cons child rest ih =>
    unfold walkMemories at h
    split at h
    · rename_i hname
      obtain ⟨m1,hm1,h⟩ := bind_ok.mp h
      have hrest := ih h (walkMemory_domains hm1 hm)
      rw [hrest,memories_cons hname,List.append_assoc,List.filterMap_cons]
      cases memoryDomain child <;> rfl
    · rename_i hname
      rw [memories_skip (Bool.eq_false_iff.mpr hname)]
      exact ih h hm

/-- What counting has found out about the domains of a tree. -/
structure NumaCounted (root : Node) (numa : NumaCount) : Prop where
  /-- The memory nodes can be read. -/
  memories : ∀ c∈memoriesOf root, MemoryCounted c
  /-- The domains stand in the order in which they are named. -/
  domains : numa.domains.toList=((cpusOf root).filterMap domainOf++
    (memoriesOf root).filterMap memoryDomain).eraseDups
  /-- There are affinities exactly when a node names a domain. -/
  named : numa.hasNuma=true ↔ (∃ c∈cpusOf root, carriesDomain c=true) ∨
    ∃ c∈memoriesOf root, carriesDomain c=true
  /-- Then all of them do. -/
  complete : numa.hasNuma=true → (∀ c∈cpusOf root, carriesDomain c=true) ∧
    ∀ c∈memoriesOf root, carriesDomain c=true
  /-- There are distances when there are two domains and a distance map. -/
  distances : (numa.hasNuma && numa.hasDistances)=true ↔ 1<numa.domains.toList.length ∧
    ∃ mapNode, (rootOf root).child "distance-map" .distanceMap=.ok (some mapNode)

/-- There are distances with two domains and a distance map. -/
theorem hasDistances_iff {root : DtbNode} {domains : Domains} {b : Bool}
    (h : hasDistances root domains=.ok b) : b=true ↔ 1<domains.toList.length ∧
      ∃ mapNode, root.child "distance-map" .distanceMap=.ok (some mapNode) := by
  unfold hasDistances at h
  split at h
  · rename_i hmany
    obtain ⟨map,hmap,h⟩ := bind_ok.mp h
    cases map with
    | none =>
      cases h
      refine ⟨fun hfalse => absurd hfalse Bool.false_ne_true,?_⟩
      rintro ⟨-,mapNode,hnode⟩
      rw [hmap] at hnode
      cases hnode
    | some node =>
      obtain ⟨raw,-,h⟩ := bind_ok.mp h
      cases h
      exact ⟨fun _ => ⟨hmany,node,hmap⟩,fun _ => rfl⟩
  · rename_i hfew
    cases h
    exact ⟨fun hfalse => absurd hfalse Bool.false_ne_true,fun hall => absurd hall.1 hfew⟩

/-- Counting finds it out. -/
theorem countNuma_counted {root : Node} {w : CpuWalk} {numa : NumaCount}
    (hw : CpusWalked w (cpusOf root)) (h : countNuma (rootOf root) w=.ok numa) :
    NumaCounted root numa := by
  obtain ⟨kids,m,hkids,hm,hcases⟩ := countNuma_cases h
  have hmemories : memoriesOf root=memories kids := by
    rw [memoriesOf,hkids]
    rfl
  obtain ⟨hall,htotal,htags,-⟩ := walkMemories_ok hm
  have hdomains := walkMemories_domains hm hw.domains
  rw [Nat.zero_add] at htotal htags
  rw [←hmemories] at hall htotal htags hdomains
  have hcpus : ∀ c∈cpusOf root, (domainOf c).isSome=carriesDomain c := fun c hc =>
    (hw.read c hc).carries
  have hmems : ∀ c∈memoriesOf root, isTagged c=carriesDomain c := fun c hc =>
    isTagged_carries (hall c hc)
  have htaggedCpu : w.cpuTaggedCount=(cpusOf root).countP carriesDomain :=
    hw.tagged.trans (List.countP_congr fun c hc => by rw [hcpus c hc])
  have htaggedMem : m.taggedCount=(memoriesOf root).countP carriesDomain :=
    htags.trans (List.countP_congr fun c hc => by rw [hmems c hc])
  rw [htaggedCpu,htaggedMem,htotal,hw.untagged] at hcases
  obtain ⟨hnoCpu,hnoMem,rfl⟩ | ⟨hsome,huntagged,hcomplete,d,hd,rfl⟩ := hcases
  · -- no node names a domain
    have hcpuNone : ∀ c∈cpusOf root, carriesDomain c=false := fun c hc =>
      Bool.eq_false_iff.mpr (List.countP_eq_zero.mp hnoCpu c hc)
    have hmemNone : ∀ c∈memoriesOf root, carriesDomain c=false := fun c hc =>
      Bool.eq_false_iff.mpr (List.countP_eq_zero.mp hnoMem c hc)
    have hempty : m.domains.toList=[] := by
      have hmemDomains : (memoriesOf root).filterMap memoryDomain=[] :=
        filterMap_nil hmems hmemNone
      rw [hdomains,filterMap_nil hcpus hcpuNone,hmemDomains]
      rfl
    constructor
    case memories => exact hall
    case domains => exact hdomains
    case named =>
      refine ⟨fun hfalse => absurd hfalse Bool.false_ne_true,?_⟩
      rintro (⟨c,hc,hcarries⟩ | ⟨c,hc,hcarries⟩)
      · exact absurd hcarries (Bool.eq_false_iff.mp (hcpuNone c hc))
      · exact absurd hcarries (Bool.eq_false_iff.mp (hmemNone c hc))
    case complete => exact fun hfalse => absurd hfalse Bool.false_ne_true
    case distances =>
      refine ⟨fun hfalse => absurd hfalse Bool.false_ne_true,fun hboth => ?_⟩
      have hmany := hboth.1
      rw [hempty] at hmany
      exact absurd hmany (by decide)
  · -- every node names one
    constructor
    case memories => exact hall
    case domains => exact hdomains
    case named =>
      refine ⟨fun _ => ?_,fun _ => rfl⟩
      by_cases hcpu : (cpusOf root).countP carriesDomain=0
      · right
        exact List.countP_pos_iff.mp (Nat.pos_of_ne_zero fun hmem => hsome ⟨hcpu,hmem⟩)
      · left
        exact List.countP_pos_iff.mp (Nat.pos_of_ne_zero hcpu)
    case complete =>
      refine fun _ => ⟨fun c hc => ?_,List.countP_eq_length.mp hcomplete⟩
      have hno := List.countP_eq_zero.mp huntagged c hc
      rw [←hcpus c hc]
      cases hdomain : domainOf c with
      | none => exact absurd (congrArg Option.isNone hdomain) hno
      | some pd => rfl
    case distances =>
      rw [Bool.true_and]
      exact hasDistances_iff hd

/-- What counting has found out about the cpus and the memory of a tree. -/
structure Described (root : Node) (l : Layouted) : Prop where
  /-- There is a cpu. -/
  cpus : cpusOf root≠[]
  /-- The cpus can be read. -/
  read : ∀ c∈cpusOf root, CpuRead c
  /-- So can the memory nodes. -/
  memories : ∀ c∈memoriesOf root, MemoryCounted c
  /-- The cpus are in the cache, in order. -/
  cached : entries l.cache=(cpusOf root).zipIdx.map fun p => cpuEntry p.1 p.2
  /-- The domains stand in the order in which they are named. -/
  domains : l.domains.toList=((cpusOf root).filterMap domainOf++
    (memoriesOf root).filterMap memoryDomain).eraseDups
  /-- There is an affinity table exactly when a node names a domain. -/
  srat : l.offsets.srat.isSome=true ↔ (∃ c∈cpusOf root, carriesDomain c=true) ∨
    ∃ c∈memoriesOf root, carriesDomain c=true
  /-- Then all of them do. -/
  complete : l.offsets.srat.isSome=true → (∀ c∈cpusOf root, carriesDomain c=true) ∧
    ∀ c∈memoriesOf root, carriesDomain c=true
  /-- There is a distance table when there are two domains and a distance map. -/
  slit : l.offsets.slit.isSome=true ↔ 1<l.domains.toList.length ∧
    ∃ mapNode, (rootOf root).child "distance-map" .distanceMap=.ok (some mapNode)

/-- Counting finds it out. -/
theorem run_described {root : Node} {l : Layouted} (h : run root=.ok l) : Described root l := by
  obtain ⟨walk,numa,c,hran⟩ := run_ran h
  obtain ⟨hwalked,hcpus⟩ := walkCpus_collected hran.cpus
  have hcounted := countNuma_counted hwalked hran.domains
  have hlaid := offsetsNew_ok hran.offsets
  obtain ⟨hnuma,-,hdistances⟩ := hran.memory
  obtain ⟨hcache,hdomains⟩ := hran.kept
  have hsrat : l.offsets.srat.isSome=numa.hasNuma := (isSome_placed hlaid.srat).trans hnuma
  have hslit : l.offsets.slit.isSome=(numa.hasNuma && numa.hasDistances) := by
    rw [isSome_placed hlaid.slit,hnuma,hdistances]
  constructor
  case cpus => exact hcpus
  case read => exact hwalked.read
  case memories => exact hcounted.memories
  case cached => rw [hcache]; exact hwalked.cached
  case domains => rw [hdomains]; exact hcounted.domains
  case srat => rw [hsrat,hcounted.named]
  case complete => rw [hsrat]; exact hcounted.complete
  case slit => rw [hslit,hdomains,hcounted.distances]

end Arma.Acpi.Collected
