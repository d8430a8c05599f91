import Arma.Devtree.Names
import Arma.Tatu.Overlay

/-!
# Handles below the cpus

The host contributes all of `/cpus`, without handles by which other nodes could refer
to a cpu. The check of the overlay looks for handles at the cpus alone. Whether the
host contributes one below `/cpus` is decided by the nodes inside a cpu, which the
check never visits.
-/

namespace Arma.Tatu.Handles

open Base.ByteString Base.Checked Devtree Devtree.Merge Devtree.Names Validate Overlay

/-- The names of the properties that give a node a handle. -/
def handleNames : List String := ["phandle","linux,phandle"]

/-- None of the names gives a node a handle. -/
def HandleFree (names : List String) : Prop := ∀ name∈handleNames, name∉names

instance (names : List String) : Decidable (HandleFree names) :=
  inferInstanceAs (Decidable (∀ name∈handleNames, name∉names))

/-- The nodes of a fragment that become `/cpus` or a node below. -/
def cpusAdditions (frag : Fragment) : List Node :=
  match frag.target with
  | .phandle _ => []
  | .path path => match segments path with
    | [] => cpusNodes frag.node.children
    | name::_ => if topSegment name="cpus" then [frag.node] else []

/-- The nodes inside the cpus of `/cpus`. -/
def insideCpus (cpus : Node) : List Node := cpus.children.flatMap Node.children

/-- The property names that an overlay contributes to `/cpus`, at any depth. -/
def hostNames (overlay : List Fragment) : List String :=
  overlay.flatMap fun frag => namesOfAll (cpusAdditions frag)

/-- The property names that an overlay contributes inside the cpus, at any depth. -/
def insideNames (overlay : List Fragment) : List String :=
  overlay.flatMap fun frag => namesOfAll ((cpusAdditions frag).flatMap insideCpus)

/-- The property names of a tree in `/cpus`, at any depth. -/
def cpusNames (root : Node) : List String := namesOfAll (cpusNodes root.children)

/-- A name is used in `/cpus`. -/
theorem mem_cpusNames {name : String} {root : Node} : name∈cpusNames root ↔
    ∃ c∈root.children, topSegment c.name="cpus" ∧ name∈c.propertyNames := by
  simp [cpusNames,mem_namesOfAll,cpusNodes,and_assoc]

/-- The names that give a handle are none of those that the host may use. -/
theorem handle_ne {name : String} (h : name∈handleNames) :
    name≠"#address-cells" ∧ name≠"#size-cells" ∧ name≠"numa-node-id" := by
  simp only [handleNames,List.mem_cons,List.not_mem_nil,or_false] at h
  obtain rfl | rfl := h <;> decide

/-- A cpu that is accepted has handles only inside. -/
theorem checkCpu_names {cpu : Node} (h : checkCpu cpu=.ok ()) {name : String}
    (hname : name∈handleNames) : name∈cpu.propertyNames ↔ name∈namesOfAll cpu.children := by
  unfold checkCpu at h
  split at h
  · exact absurd h fail_ne_ok
  · have hnone : ¬∃ p∈cpu.properties, p.name=name := by
      rintro ⟨p,hp,rfl⟩
      have hcheck := forM_ok.mp h p hp
      split at hcheck
      · exact absurd hcheck fail_ne_ok
      · rename_i hfree
        simp only [handleNames,List.mem_cons,List.not_mem_nil,or_false] at hname
        exact hfree hname
    rw [mem_propertyNames,mem_namesOfAll]
    exact or_iff_right hnone

/-- Contributed cpus that are accepted have handles only inside a cpu. -/
theorem checkCpusAdditions_names {cpus : Node} (h : checkCpusAdditions cpus=.ok ()) {name : String}
    (hname : name∈handleNames) :
    name∈cpus.propertyNames ↔ name∈namesOfAll (insideCpus cpus) := by
  obtain ⟨_,hcells,hkids⟩ := bind_ok.mp h
  have hnone : ¬∃ p∈cpus.properties, p.name=name := by
    rintro ⟨p,hp,rfl⟩
    have hcheck := forM_ok.mp hcells p hp
    obtain ⟨haddress,hsize,_⟩ := handle_ne hname
    rw [if_neg (not_or.mpr ⟨haddress,hsize⟩)] at hcheck
    exact absurd hcheck fail_ne_ok
  have hinside : (∃ c∈cpus.children, name∈c.propertyNames) ↔
      ∃ c∈cpus.children, ∃ n∈c.children, name∈n.propertyNames :=
    exists_congr fun c => and_congr_right fun hc => by
      rw [checkCpu_names (forM_ok.mp hkids c hc) hname,mem_namesOfAll]
  rw [mem_propertyNames,or_iff_right hnone,hinside,mem_namesOfAll,insideCpus]
  simp only [List.mem_flatMap]
  constructor
  · rintro ⟨c,hc,n,hn,hmem⟩
    exact ⟨n,⟨c,hc,hn⟩,hmem⟩
  · rintro ⟨n,⟨c,hc,hn⟩,hmem⟩
    exact ⟨c,hc,n,hn,hmem⟩

/-- A node that gets a domain and nothing else has no handles. -/
theorem tag_names {node : Node} (hprops : ∀ p∈node.properties, p.name="numa-node-id")
    (hkids : node.children=[]) {name : String} (hname : name∈handleNames) :
    name∉node.propertyNames := by
  rw [mem_propertyNames,hkids]
  rintro (⟨p,hp,rfl⟩ | ⟨c,hc,_⟩)
  · exact (handle_ne hname).2.2 (hprops p hp)
  · exact absurd hc List.not_mem_nil

section Lookups

variable [OverlayLib]

/-- What an accepted fragment contributes to `/cpus` passed the check of the cpus, or is a
domain and nothing else. -/
theorem checkFragment_cpus {base : Node} {frag : Fragment} (h : checkFragment base frag=.ok ()) :
    ∀ c∈cpusAdditions frag, checkCpusAdditions c=.ok () ∨
      (∀ p∈c.properties, p.name="numa-node-id") ∧ c.children=[] := by
  intro c hc
  unfold checkFragment at h
  unfold cpusAdditions at hc
  cases htarget : frag.target with
  | phandle handle =>
    rw [htarget] at h
    exact absurd h fail_ne_ok
  | path path =>
    rw [htarget] at h hc
    dsimp only at h hc
    -- a path of names contributes its node, and only to `/cpus`
    have hnode : ∀ {name rest}, segments path=name::rest → topSegment name="cpus" ∧ c=frag.node := by
      intro name rest hsegs
      rw [hsegs] at hc
      dsimp only at hc
      split at hc
      · exact ⟨‹_›,List.mem_singleton.mp hc⟩
      · exact absurd hc List.not_mem_nil
    cases classifyFragment_passed h with
    | root hpath hcheck =>
      rw [hpath] at hc
      obtain ⟨hc,htop⟩ := List.mem_filter.mp hc
      unfold checkRoot at hcheck
      split at hcheck
      · exact absurd hcheck fail_ne_ok
      · have hchild := forM_ok.mp hcheck c hc
        unfold checkRootChild at hchild
        rw [of_decide_eq_true htop] at hchild
        exact .inl hchild
    | cpus _ hpath hcheck =>
      obtain ⟨_,rfl⟩ := hnode hpath
      exact .inl hcheck
    | distanceMap _ hpath => exact absurd (hnode hpath).1 (by decide)
    | memory name _ hpath hmemory _ =>
      have htop := (hnode hpath).1
      rw [hmemory] at htop
      exact absurd htop (by decide)
    | tag hpath hprops hkids =>
      obtain ⟨name,rest,hsegs⟩ := List.exists_cons_of_ne_nil hpath
      obtain ⟨_,rfl⟩ := hnode hsegs
      exact .inr ⟨hprops,hkids⟩

/-- What an accepted fragment contributes to `/cpus` has handles only inside a cpu. -/
theorem checkFragment_names {base : Node} {frag : Fragment} (h : checkFragment base frag=.ok ())
    {name : String} (hname : name∈handleNames) : name∈namesOfAll (cpusAdditions frag) ↔
      name∈namesOfAll ((cpusAdditions frag).flatMap insideCpus) := by
  have hall : ∀ c∈cpusAdditions frag,
      (name∈c.propertyNames ↔ ∃ n∈insideCpus c, name∈n.propertyNames) := by
    intro c hc
    obtain hcheck | ⟨hprops,hkids⟩ := checkFragment_cpus h c hc
    · rw [checkCpusAdditions_names hcheck hname,mem_namesOfAll]
    · refine iff_of_false (tag_names hprops hkids hname) ?_
      simp [insideCpus,hkids]
  simp only [mem_namesOfAll,List.mem_flatMap]
  constructor
  · rintro ⟨c,hc,hmem⟩
    obtain ⟨n,hn,hmem⟩ := (hall c hc).mp hmem
    exact ⟨n,⟨c,hc,hn⟩,hmem⟩
  · rintro ⟨n,⟨c,hc,hn⟩,hmem⟩
    exact ⟨c,hc,(hall c hc).mpr ⟨n,hn,hmem⟩⟩

/-- What an accepted overlay contributes to `/cpus` has handles only inside a cpu. -/
theorem hostNames_iff {overlay : List Fragment} {base : Node}
    (hok : validateHostDtbo overlay base=.ok ()) {name : String} (hname : name∈handleNames) :
    name∈hostNames overlay ↔ name∈insideNames overlay := by
  rw [hostNames,insideNames,List.mem_flatMap,List.mem_flatMap]
  exact exists_congr fun frag => and_congr_right fun hfrag =>
    checkFragment_names (forM_ok.mp hok frag hfrag) hname

/-- Nodes merged into the children of the root add their names to those in `/cpus`. -/
theorem cpusNames_root (law : PathLaw) (name : String) (node cur : Node) :
    name∈cpusNames (mergeInto OverlayLib.found node cur) ↔
      name∈cpusNames cur ∨ name∈namesOfAll (cpusNodes node.children) := by
  have hall := exists_mergeAll (P := fun c => topSegment c.name="cpus" ∧ name∈c.propertyNames)
    (fun child (_ : child∈node.children) kid hfound => by
      rw [name_mergeInto,mem_mergeInto,law.found _ _ hfound,and_or_left])
    (fun child _ => by
      rw [name_mergeInto,mem_mergeInto,propertyNames_new]
      simp [Node.name]) cur.children
  have hnew : name∈namesOfAll (cpusNodes node.children) ↔
      ∃ c∈node.children, topSegment c.name="cpus" ∧ name∈c.propertyNames := mem_cpusNames
  rw [mem_cpusNames,mem_cpusNames,hnew,←hall]
  cases node with
  | mk own properties children => rfl

/-- A node merged into a child of the root adds its names to those in `/cpus` when it is the
child of that name. -/
theorem cpusNames_child (law : PathLaw) {own name : String} {node cur child : Node} {i : ℕ}
    (hchild : cur.children[i]?=some child) (hfound : OverlayLib.found own child.name=true) :
    name∈cpusNames (changeAt (mergeInto OverlayLib.found node) [i] cur) ↔
      name∈cpusNames cur ∨ topSegment own="cpus" ∧ name∈node.propertyNames := by
  rw [mem_cpusNames,mem_cpusNames]
  refine exists_modify hchild ?_
  rw [changeAt,name_mergeInto,mem_mergeInto,law.found _ _ hfound,and_or_left]

/-- A node without the name, merged below the root, adds nothing. -/
theorem cpusNames_tag {name : String} {node : Node} (hnone : name∉node.propertyNames) (i : ℕ)
    (rest : List ℕ) (cur : Node) :
    name∈cpusNames (changeAt (mergeInto OverlayLib.found node) (i::rest) cur) ↔
      name∈cpusNames cur := by
  have hmerge : ∀ n, name∈(mergeInto OverlayLib.found node n).propertyNames ↔
      name∈n.propertyNames := fun n => by
    rw [mem_mergeInto,or_iff_left hnone]
  rw [mem_cpusNames,mem_cpusNames]
  refine exists_modify_same (fun c => ?_) cur.children i
  rw [name_changeAt (name_mergeInto OverlayLib.found node),mem_changeAt hmerge]

/-- A fragment adds its handles to those in `/cpus`. -/
theorem cpusNames_step (law : PathLaw) {base cur next : Node} {frag : Fragment}
    (h : checkFragment base frag=.ok ()) (hstep : applyFragment cur frag=some next) {name : String}
    (hname : name∈handleNames) :
    name∈cpusNames next ↔ name∈cpusNames cur ∨ name∈namesOfAll (cpusAdditions frag) := by
  obtain ⟨pos,hpos,rfl⟩ := Option.map_eq_some_iff.mp hstep
  unfold checkFragment at h
  unfold cpusAdditions
  cases htarget : frag.target with
  | phandle handle =>
    rw [htarget] at h
    exact absurd h fail_ne_ok
  | path path =>
    rw [htarget] at h hpos
    dsimp only at h ⊢
    cases classifyFragment_ok h with
    | root hpath _ _ =>
      cases (law.root cur path pos hpos).mpr hpath
      rw [hpath]
      exact cpusNames_root law name frag.node cur
    | surface own hroot hpath _ =>
      rw [law.absolute cur path hroot,hpath] at hpos
      obtain ⟨i,child,rfl,hchild,hfound⟩ := positionOf_single hpos
      rw [cpusNames_child law hchild hfound,hpath]
      by_cases htop : topSegment own="cpus"
      · simp [mem_namesOfAll,htop]
      · simp [mem_namesOfAll,htop]
    | tag hpath hprops hkids =>
      have hnone := tag_names hprops hkids hname
      obtain ⟨own,rest,hsegs⟩ := List.exists_cons_of_ne_nil hpath
      cases pos with
      | nil => exact absurd ((law.root cur path [] hpos).mp rfl) hpath
      | cons i below =>
        rw [cpusNames_tag hnone,hsegs]
        dsimp only
        split
        · simp [mem_namesOfAll,hnone]
        · simp [mem_namesOfAll]

/-- An accepted overlay adds its handles to those in `/cpus`. -/
theorem cpusNames_apply (law : PathLaw) {overlay : List Fragment} {base cur merged : Node}
    (hok : validateHostDtbo overlay base=.ok ()) (happly : Merge.apply cur overlay=some merged)
    {name : String} (hname : name∈handleNames) :
    name∈cpusNames merged ↔ name∈cpusNames cur ∨ name∈hostNames overlay := by
  have hall := forM_ok.mp hok
  clear hok
  induction overlay generalizing cur with
  | nil =>
    cases happly
    simp [hostNames]
  | cons frag rest ih =>
    obtain ⟨hfrag,hrest⟩ := List.forall_mem_cons.mp hall
    obtain ⟨next,hnext,happly⟩ := Option.bind_eq_some_iff.mp happly
    refine (ih happly hrest).trans ?_
    rw [cpusNames_step law hfrag hnext hname,or_assoc,hostNames,hostNames,List.flatMap_cons,
      List.mem_append]

/-- The host contributes no handle to `/cpus`, at any depth, exactly when it contributes
none inside a cpu. Nor does the merged tree have one there then, if the base has none. -/
theorem validateHostDtbo_handles {overlay : List Fragment} {base : Node}
    (hok : validateHostDtbo overlay base=.ok ()) :
    (HandleFree (hostNames overlay) ↔ HandleFree (insideNames overlay)) ∧
      ∀ merged, PathLaw → Merge.apply base overlay=some merged →
        (HandleFree (cpusNames merged) ↔
          HandleFree (cpusNames base) ∧ HandleFree (insideNames overlay)) := by
  constructor
  · exact forall₂_congr fun name hname => not_congr (hostNames_iff hok hname)
  · intro merged law happly
    rw [HandleFree,HandleFree,HandleFree,←forall₂_and]
    refine forall₂_congr fun name hname => ?_
    rw [cpusNames_apply law hok happly hname,hostNames_iff hok hname,not_or]

end Lookups

/-- An overlay whose cpu has a cache with a handle. -/
def cacheOverlay : List Fragment :=
  [⟨.path "/",.mk "__overlay__" []
    [.mk "cpus" [⟨"#address-cells",beBytes 4 1⟩,⟨"#size-cells",beBytes 4 0⟩]
      [.mk "cpu@0" [⟨"reg",beBytes 4 0⟩]
        [.mk "l2-cache" [⟨"compatible",dtString "cache"⟩,⟨"phandle",beBytes 4 1⟩] []]],
    .mk "memory@40000000" [⟨"reg",dtReg 0x40000000 0x10000000⟩] []]⟩]

/-- The sample overlay is accepted and contributes no handle to `/cpus`. -/
theorem validateHostDtbo_handles_sample : HandleFree (hostNames sampleOverlay) ∧
    ∀ merged, @Merge.apply plainOverlayLib sampleBase sampleOverlay=some merged →
      HandleFree (cpusNames merged) := by
  obtain ⟨hhost,hmerged⟩ := @validateHostDtbo_handles plainOverlayLib sampleOverlay sampleBase
    (by decide +kernel)
  refine ⟨hhost.mpr (by decide +kernel),fun merged happly => ?_⟩
  exact (hmerged merged pathLaw_plain happly).mpr ⟨by decide +kernel,by decide +kernel⟩

/-- The cache's overlay is accepted as well, and the merged tree has the handle. -/
theorem cacheOverlay_handle :
    @validateHostDtbo plainOverlayLib cacheOverlay sampleBase=.ok () ∧
      ¬HandleFree (hostNames cacheOverlay) ∧ HandleFree (cpusNames sampleBase) ∧
      ∃ merged, @Merge.apply plainOverlayLib sampleBase cacheOverlay=some merged ∧
        ¬HandleFree (cpusNames merged) := by
  refine ⟨by decide +kernel,by decide +kernel,by decide +kernel,?_⟩
  obtain ⟨merged,happly⟩ := Option.isSome_iff_exists.mp
    (show (@Merge.apply plainOverlayLib sampleBase cacheOverlay).isSome=true by decide +kernel)
  refine ⟨merged,happly,?_⟩
  have hany : (@Merge.apply plainOverlayLib sampleBase cacheOverlay).any
      (fun m => decide (¬HandleFree (cpusNames m)))=true := by decide +kernel
  rw [happly] at hany
  exact of_decide_eq_true hany

end Arma.Tatu.Handles
