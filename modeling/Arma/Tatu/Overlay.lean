import Mathlib.Data.List.DropRight
import Arma.Base.TwoRuns
import Arma.Devtree.Merge
import Arma.Tatu.Validate

/-!
# The overlay of the host

Every fragment of the host's overlay is checked against a list of what a host may
contribute: cpus, memory, a distance map, and domains of nodes that the base
declares. Whatever passes leaves the rest of the merged tree as the base has it.
-/

namespace Arma.Tatu.Overlay

open Base.ByteString Base.Checked Base.TwoRuns Devtree Devtree.Merge Validate

/-- The path of a fragment without slashes at its end. -/
def trimPath (path : String) : String :=
  let trimmed := String.ofList (path.toList.rdropWhile (· == '/'))
  if trimmed="" then "/" else trimmed

/-- `true` iff the path is that of a memory node with a unit address. -/
def memoryPath (path : String) : Bool :=
  let rest := path.toList.drop 7
  decide ("/memory".toList<+:path.toList) && decide (rest.head?=some '@') &&
    !rest.contains '/'

/-- The `reg` of a memory node is whole pairs, none of which overflows. -/
def checkMemoryNode (node : Node) : Outcome ValidationError Unit :=
  match node.property "reg" with
  | none => .ok ()
  | some bytes =>
    if bytes.length%16≠0 then fail .hostOverlayMemoryOverflow
    else (parseRegions bytes).forM fun r =>
      if r.end.isNone then fail .hostOverlayMemoryOverflow else .ok ()

/-- A node of the cpus is a cpu, without a handle. -/
def checkCpu (child : Node) : Outcome ValidationError Unit :=
  if topSegment child.name≠"cpu" then fail .hostOverlayProhibitedPath
  else child.properties.forM fun p =>
    if p.name="phandle" ∨ p.name="linux,phandle" then fail .hostOverlayCpuPhandleProhibited
    else .ok ()

/-- The cpus have cell counts and cpus only. -/
def checkCpusAdditions (cpus : Node) : Outcome ValidationError Unit := do
  cpus.properties.forM fun p =>
    if p.name="#address-cells" ∨ p.name="#size-cells" then .ok ()
    else fail .hostOverlayConflictingProperty
  cpus.children.forM checkCpu

/-- What may be added below the root. -/
def checkRootChild (child : Node) : Outcome ValidationError Unit :=
  let name := topSegment child.name
  if name="memory" then checkMemoryNode child
  else if name="distance-map" then .ok ()
  else if name="cpus" then checkCpusAdditions child
  else fail .hostOverlayProhibitedPath

/-- Nodes are added below the root, but no properties to it. -/
def checkRoot (node : Node) : Outcome ValidationError Unit :=
  if node.properties≠[] then fail .hostOverlayProhibitedPath
  else node.children.forM checkRootChild

section Check

variable [OverlayLib]

/-- A node that the base declares gets a domain and nothing else. -/
def checkTag (path : String) (node base : Node) : Outcome ValidationError Unit :=
  if (DevtreeLib.findPath base path).isNone then fail .hostOverlayProhibitedPath
  else do
    node.properties.forM fun p =>
      if p.name≠"numa-node-id" then fail .hostOverlayConflictingProperty else .ok ()
    if node.children≠[] then fail .hostOverlayProhibitedPath
    else if node.properties=[] then fail .hostOverlayProhibitedPath
    else .ok ()

/-- Check one fragment by its path. -/
def classifyFragment (path : String) (node base : Node) : Outcome ValidationError Unit :=
  let path := trimPath path
  if path="/" then checkRoot node
  else if path="/cpus" then checkCpusAdditions node
  else if path="/distance-map" then .ok ()
  else if memoryPath path then checkMemoryNode node
  else checkTag path node base

/-- Check one fragment; its target must be a path. -/
def checkFragment (base : Node) (frag : Fragment) : Outcome ValidationError Unit :=
  match frag.target with
  | .path path => classifyFragment path frag.node base
  | .phandle _ => fail .hostOverlayUnsupportedTarget

/-- Check the overlay of the host, fragment by fragment. -/
def validateHostDtbo (overlay : List Fragment) (base : Node) : Outcome ValidationError Unit :=
  overlay.forM (checkFragment base)

end Check

/-- `true` iff a child of the root of that name is the host's. -/
def hostSurface (name : String) : Bool :=
  decide (topSegment name∈["cpus","memory","distance-map"])

/-- The children of the root that are not the host's. -/
def outside (root : Node) : List Node := root.children.filter fun c => !hostSurface c.name

/-- A child of the root keeps its name; one that is not the host's is the same, but
for domains. -/
structure Kept (before after : Node) : Prop where
  /-- The name is kept. -/
  name : after.name=before.name
  /-- The node is the same. -/
  same : hostSurface before.name=false → Gains "numa-node-id" before after

/-- The children of a root are kept in their places, and those that are new are the
host's. -/
inductive Extends : List Node → List Node → Prop where
  /-- Children of the host's are new. -/
  | new {extra : List Node} (h : ∀ c∈extra, hostSurface c.name=true) : Extends [] extra
  /-- A child is kept. -/
  | kept {b c : Node} {before after : List Node} (h : Kept b c) (hrest : Extends before after) :
    Extends (b::before) (c::after)

/-- The merged tree is the base but for the host's children of the root and for
domains. -/
structure Frame (base merged : Node) : Prop where
  /-- The root has its name. -/
  name : merged.name=base.name
  /-- The root has its properties. -/
  properties : merged.properties=base.properties
  /-- The children of the root are kept. -/
  children : Extends base.children merged.children

namespace Extends

variable {l l' l'' : List Node}

/-- Children that are the same are kept. -/
theorem of_gains (h : List.Forall₂ (Gains "numa-node-id") l l') : Extends l l' := by
  induction h with
  | nil => exact .new fun c hc => absurd hc List.not_mem_nil
  | cons hab _ ih => exact .kept ⟨hab.name,fun _ => hab⟩ ih

/-- All children are kept as they are. -/
theorem refl (l : List Node) : Extends l l := of_gains (Gains.refl_all _ l)

/-- Children of the host's stay the host's. -/
theorem host (h : Extends l l') (hl : ∀ c∈l, hostSurface c.name=true) :
    ∀ c∈l', hostSurface c.name=true := by
  induction h with
  | new hextra => exact hextra
  | @kept b c before after hkept _ ih =>
    obtain ⟨hb,hbefore⟩ := List.forall_mem_cons.mp hl
    refine List.forall_mem_cons.mpr ⟨?_,ih hbefore⟩
    rw [hkept.name]
    exact hb

/-- Children are kept in two steps. -/
theorem trans (h : Extends l l') (h' : Extends l' l'') : Extends l l'' := by
  induction h generalizing l'' with
  | new hextra => exact .new (h'.host hextra)
  | @kept b c before after hkept _ ih =>
    cases h' with
    | @kept _ d _ rest hkept' hrest =>
      refine .kept ⟨hkept'.name.trans hkept.name,fun hb => ?_⟩ (ih hrest)
      have hc : hostSurface c.name=false := by
        rw [hkept.name]
        exact hb
      exact Gains.trans _ _ _ _ (hkept.same hb) (hkept'.same hc)

/-- Changing a child of the host's, or adding one. -/
theorem upsert {hit : Node → Bool} {change : Node → Node} {new : Node} (l : List Node)
    (hhit : ∀ kid, hit kid=true → hostSurface kid.name=true)
    (hchange : ∀ kid, (change kid).name=kid.name) (hnew : hostSurface new.name=true) :
    Extends l (upsert hit change new l) := by
  induction l with
  | nil => exact .new (List.forall_mem_singleton.mpr hnew)
  | cons b rest ih =>
    unfold Merge.upsert
    by_cases hb : hit b=true
    · rw [if_pos hb]
      refine .kept ⟨hchange b,fun hhost => ?_⟩ (refl rest)
      rw [hhit b hb] at hhost
      cases hhost
    · rw [if_neg hb]
      exact .kept ⟨rfl,fun _ => Gains.refl _ b⟩ ih

/-- Changing one child of the host's. -/
theorem modify {change : Node → Node} {i : ℕ} {child : Node} {l : List Node}
    (hchild : l[i]?=some child) (hhost : hostSurface child.name=true)
    (hchange : ∀ kid, (change kid).name=kid.name) : Extends l (l.modify i change) := by
  induction l generalizing i with
  | nil => cases hchild
  | cons b rest ih =>
    cases i with
    | zero =>
      cases hchild
      refine .kept ⟨hchange child,fun hb => ?_⟩ (refl rest)
      rw [hhost] at hb
      cases hb
    | succ i => exact .kept ⟨rfl,fun _ => Gains.refl _ _⟩ (ih hchild)

/-- The children that are not the host's correspond to each other, in any way that follows
from being the same but for domains. -/
theorem outside_of {R : Node → Node → Prop} (h : Extends l l')
    (hR : ∀ (i : ℕ) (a b : Node), l[i]?=some a → l'[i]?=some b → Gains "numa-node-id" a b → R a b) :
    List.Forall₂ R (l.filter fun c => !hostSurface c.name)
      (l'.filter fun c => !hostSurface c.name) := by
  induction h with
  | @new extra hextra =>
    have hnone : (extra.filter fun c => !hostSurface c.name)=[] :=
      List.filter_eq_nil_iff.mpr fun c hc => by simp [hextra c hc]
    rw [hnone]
    exact .nil
  | @kept b c before after hkept _ ih =>
    have hrest := ih fun i a b ha hb => hR (i+1) a b ha hb
    cases hb : hostSurface b.name with
    | true =>
      rw [List.filter_cons_of_neg (by simp [hb]),List.filter_cons_of_neg (by simp [hkept.name,hb])]
      exact hrest
    | false =>
      rw [List.filter_cons_of_pos (by simp [hb]),List.filter_cons_of_pos (by simp [hkept.name,hb])]
      exact .cons (hR 0 b c rfl rfl (hkept.same hb)) hrest

/-- The children that are not the host's are the same, but for domains. -/
theorem outside (h : Extends l l') : List.Forall₂ (Gains "numa-node-id")
    (l.filter fun c => !hostSurface c.name) (l'.filter fun c => !hostSurface c.name) :=
  h.outside_of fun _ _ _ _ _ hgains => hgains

end Extends

namespace Frame

variable {a b c : Node}

/-- A tree agrees with itself. -/
theorem refl (a : Node) : Frame a a := ⟨rfl,rfl,.refl a.children⟩

/-- Trees agree in two steps. -/
theorem trans (hab : Frame a b) (hbc : Frame b c) : Frame a c :=
  ⟨hbc.name.trans hab.name,hbc.properties.trans hab.properties,hab.children.trans hbc.children⟩

/-- The children that are not the host's are the same, but for domains. -/
theorem outside (h : Frame a b) :
    List.Forall₂ (Gains "numa-node-id") (outside a) (outside b) := h.children.outside

end Frame

/-- What an accepted fragment contributes. -/
inductive Allowed (path : String) (node : Node) : Prop where
  /-- Children of the root that are the host's. -/
  | root (hpath : segments path=[]) (hprops : node.properties=[])
    (hkids : ∀ c∈node.children, hostSurface c.name=true)
  /-- A child of the root that is the host's. -/
  | surface (name : String) (hroot : path.toList.head?=some '/') (hpath : segments path=[name])
    (hname : hostSurface name=true)
  /-- The domain of some other node. -/
  | tag (hpath : segments path≠[]) (hprops : ∀ p∈node.properties, p.name="numa-node-id")
    (hkids : node.children=[])

/-- The check that an accepted fragment passed. -/
inductive Passed (path : String) (node : Node) : Prop where
  /-- The check of what is added below the root. -/
  | root (hpath : segments path=[]) (hcheck : checkRoot node=.ok ())
  /-- The check of the cpus. -/
  | cpus (hroot : path.toList.head?=some '/') (hpath : segments path=["cpus"])
    (hcheck : checkCpusAdditions node=.ok ())
  /-- None, for the distance map. -/
  | distanceMap (hroot : path.toList.head?=some '/') (hpath : segments path=["distance-map"])
  /-- The check of a memory node. -/
  | memory (name : String) (hroot : path.toList.head?=some '/') (hpath : segments path=[name])
    (hname : topSegment name="memory") (hcheck : checkMemoryNode node=.ok ())
  /-- The check of a domain. -/
  | tag (hpath : segments path≠[]) (hprops : ∀ p∈node.properties, p.name="numa-node-id")
    (hkids : node.children=[])

/-- The trimmed path is that of the root, or it names the same node and is not. -/
theorem trimPath_cases (path : String) : trimPath path="/" ∧ segments path=[] ∨
    trimPath path≠"/" ∧ segments path=segments (trimPath path) ∧ segments path≠[] ∧
      path.toList.head?=(trimPath path).toList.head? := by
  obtain ⟨short,hshort⟩ : ∃ short, path.toList.rdropWhile (· == '/')=short := ⟨_,rfl⟩
  have hsplit : path.toList=short++path.toList.rtakeWhile (· == '/') := by
    rw [←hshort,List.rdropWhile_append_rtakeWhile]
  have hslashes : path.toList.rtakeWhile (· == '/')=
      List.replicate (path.toList.rtakeWhile (· == '/')).length '/' :=
    List.eq_replicate_of_mem fun c hc => by
      have hslash := List.mem_rtakeWhile_imp hc
      exact beq_iff_eq.mp hslash
  rw [hslashes] at hsplit
  have hsame : segments path=segments (.ofList short) :=
    segments_slashes (hsplit.trans (by rw [String.toList_ofList]))
  cases hs : short with
  | nil =>
    refine .inl ⟨?_,?_⟩
    · rw [trimPath,hshort,hs]
      rfl
    · rw [hsame,hs]
      decide
  | cons c rest =>
    have hne : short≠[] := hs ▸ List.cons_ne_nil c rest
    have hlast : short.getLast hne≠ '/' := by
      have h := List.rdropWhile_last_not (· == '/') path.toList (hshort ▸ hne)
      simp only [hshort,beq_iff_eq] at h
      exact h
    have htrim : trimPath path=.ofList short := by
      rw [trimPath,hshort]
      refine if_neg fun h => hne ?_
      have hlist := congrArg String.toList h
      rw [String.toList_ofList] at hlist
      exact hlist
    refine .inr ⟨?_,by rw [htrim,hsame],?_,?_⟩
    · intro h
      rw [htrim] at h
      have hlist := congrArg String.toList h
      rw [String.toList_ofList] at hlist
      refine hlast ?_
      simp [hlist]
    · rw [hsame]
      refine segments_ne_nil (c := short.getLast hne) ?_ hlast
      rw [String.toList_ofList]
      exact List.getLast_mem hne
    · rw [htrim,String.toList_ofList,hsplit,List.head?_append_of_ne_nil _ hne]

/-- The path of a memory node is one name, that of a memory node. -/
theorem memoryPath_name {path : String} (h : memoryPath path=true) :
    path.toList.head?=some '/' ∧ ∃ name, segments path=[name] ∧ topSegment name="memory" := by
  unfold memoryPath at h
  simp only [Bool.and_eq_true,decide_eq_true_eq,Bool.not_eq_true'] at h
  obtain ⟨⟨⟨rest,hrest⟩,hat⟩,hslash⟩ := h
  have hdrop : path.toList.drop 7=rest := by
    rw [←hrest]
    exact @List.drop_left _ "/memory".toList rest
  rw [hdrop] at hat hslash
  cases rest with
  | nil => cases hat
  | cons c unit =>
    cases hat
    obtain ⟨name,hname⟩ : ∃ name, name="memory".toList++ '@'::unit := ⟨_,rfl⟩
    have hpath : path.toList= '/'::name := by
      rw [hname,←hrest]
      rfl
    have hnone : '/'∉name := by
      intro hmem
      rw [hname] at hmem
      obtain hmem | hmem := List.mem_append.mp hmem
      · exact absurd hmem (by decide)
      · rw [List.contains_iff_mem.mpr hmem] at hslash
        cases hslash
    have htop : topSegment (String.ofList name)="memory" := by
      rw [topSegment,String.toList_ofList,hname]
      rfl
    exact ⟨by rw [hpath]; rfl,_,segments_single hpath hnone (by simp [hname]),htop⟩

section Frames

variable [OverlayLib]

/-- A node that gets a domain has nothing else. -/
theorem checkTag_ok {path : String} {node base : Node} (h : checkTag path node base=.ok ()) :
    (∀ p∈node.properties, p.name="numa-node-id") ∧ node.children=[] := by
  unfold checkTag at h
  split at h
  · exact absurd h fail_ne_ok
  · obtain ⟨_,hprops,h⟩ := bind_ok.mp h
    split_ifs at h with hkids hnone
    · exact absurd h fail_ne_ok
    · exact absurd h fail_ne_ok
    · refine ⟨fun p hp => ?_,not_not.mp hkids⟩
      have hname := forM_ok.mp hprops p hp
      split at hname
      · exact absurd hname fail_ne_ok
      · rename_i htag
        exact not_not.mp htag

/-- What is accepted passed the check of its path. -/
theorem classifyFragment_passed {path : String} {node base : Node}
    (h : classifyFragment path node base=.ok ()) : Passed path node := by
  unfold classifyFragment at h
  dsimp only at h
  obtain ⟨htrim,hpath⟩ | ⟨htrim,hsame,hpath,hhead⟩ := trimPath_cases path
  · rw [if_pos htrim] at h
    exact .root hpath h
  · rw [if_neg htrim] at h
    split_ifs at h with hcpus hmap hmem
    · rw [hcpus] at hsame hhead
      exact .cpus hhead (hsame.trans (by decide)) h
    · rw [hmap] at hsame hhead
      exact .distanceMap hhead (hsame.trans (by decide))
    · obtain ⟨hroot,name,hname,htop⟩ := memoryPath_name hmem
      exact .memory name (hhead.trans hroot) (hsame.trans hname) htop h
    · obtain ⟨hprops,hkids⟩ := checkTag_ok h
      exact .tag hpath hprops hkids

/-- What is accepted is one of the contributions that are allowed. -/
theorem classifyFragment_ok {path : String} {node base : Node}
    (h : classifyFragment path node base=.ok ()) : Allowed path node := by
  cases classifyFragment_passed h with
  | root hpath hcheck =>
    unfold checkRoot at hcheck
    split at hcheck
    · exact absurd hcheck fail_ne_ok
    · rename_i hprops
      refine .root hpath (not_not.mp hprops) fun c hc => ?_
      have hchild := forM_ok.mp hcheck c hc
      unfold checkRootChild at hchild
      dsimp only at hchild
      refine decide_eq_true ?_
      split_ifs at hchild with hmem hmap hcpus
      · simp [hmem]
      · simp [hmap]
      · simp [hcpus]
      · exact absurd hchild fail_ne_ok
  | cpus hroot hpath _ => exact .surface "cpus" hroot hpath (by decide)
  | distanceMap hroot hpath => exact .surface "distance-map" hroot hpath (by decide)
  | memory name hroot hpath htop _ =>
    refine .surface name hroot hpath (decide_eq_true ?_)
    rw [htop]
    decide
  | tag hpath hprops hkids => exact .tag hpath hprops hkids

/-- Nodes that are the host's are merged into nodes that are. -/
theorem extends_mergeAll (law : PathLaw) {new : List Node}
    (hnew : ∀ c∈new, hostSurface c.name=true) (kids : List Node) :
    Extends kids (mergeAll OverlayLib.found new kids) := by
  induction new generalizing kids with
  | nil => exact .refl kids
  | cons child rest ih =>
    obtain ⟨hchild,hrest⟩ := List.forall_mem_cons.mp hnew
    rw [mergeAll]
    refine Extends.trans (Extends.upsert kids (fun kid hfound => ?_)
      (name_mergeInto OverlayLib.found child) ?_) (ih hrest _)
    · rw [hostSurface,law.found _ _ hfound]
      exact hchild
    · rw [name_mergeInto]
      exact hchild

/-- An allowed contribution leaves the rest of the tree. -/
theorem frame_changeAt (law : PathLaw) {path : String} {node cur : Node} (h : Allowed path node)
    {pos : List ℕ} (hpos : OverlayLib.position cur (.path path)=some pos) :
    Frame cur (changeAt (mergeInto OverlayLib.found node) pos cur) := by
  have hname := name_changeAt (name_mergeInto OverlayLib.found node) pos cur
  cases h with
  | root hpath hprops hkids =>
    cases (law.root cur path pos hpos).mpr hpath
    cases node with
    | mk name properties children =>
      have hnone : properties=[] := hprops
      subst hnone
      exact ⟨hname,rfl,extends_mergeAll law hkids cur.children⟩
  | surface name hroot hpath hhost =>
    rw [law.absolute cur path hroot,hpath] at hpos
    obtain ⟨i,child,rfl,hchild,hfound⟩ := positionOf_single hpos
    have hkeep : hostSurface child.name=true := by
      rw [hostSurface,law.found name child.name hfound]
      exact hhost
    exact ⟨hname,rfl,.modify hchild hkeep (name_mergeInto OverlayLib.found node)⟩
  | tag hpath hprops hkids =>
    have hgain := gains_mergeInto OverlayLib.found hprops hkids
    cases pos with
    | nil => exact absurd ((law.root cur path [] hpos).mp rfl) hpath
    | cons i rest =>
      exact ⟨hname,rfl,.of_gains (gains_changeAt hgain (i::rest) cur).children⟩

/-- An accepted overlay leaves the rest of the tree. -/
theorem frame_apply (law : PathLaw) {overlay : List Fragment} {base cur merged : Node}
    (hok : validateHostDtbo overlay base=.ok ())
    (happly : Merge.apply cur overlay=some merged) : Frame cur merged := by
  have hall := forM_ok.mp hok
  clear hok
  induction overlay generalizing cur with
  | nil =>
    cases happly
    exact .refl _
  | cons frag rest ih =>
    obtain ⟨hfrag,hrest⟩ := List.forall_mem_cons.mp hall
    obtain ⟨next,hnext,happly⟩ := Option.bind_eq_some_iff.mp happly
    obtain ⟨pos,hpos,rfl⟩ := Option.map_eq_some_iff.mp hnext
    refine Frame.trans ?_ (ih happly hrest)
    unfold checkFragment at hfrag
    cases htarget : frag.target with
    | phandle handle =>
      rw [htarget] at hfrag
      exact absurd hfrag fail_ne_ok
    | path path =>
      rw [htarget] at hfrag hpos
      exact frame_changeAt law (classifyFragment_ok hfrag) hpos

/-- A name that is not the host's finds a child of the root that is not. -/
theorem child_outside (law : PathLaw) {name : String} (hname : hostSurface name=false)
    (root : Node) : DevtreeLib.child root name=
      (outside root).find? fun c => OverlayLib.found name c.name := by
  rw [law.child,outside,List.find?_filter]
  congr 1
  funext c
  cases hfound : OverlayLib.found name c.name with
  | false => simp
  | true =>
    have hkeep : hostSurface c.name=false := by
      rw [hostSurface,law.found name c.name hfound]
      exact hname
    simp [hkeep]

/-- A name that is not the host's finds the same child of the root. -/
theorem rel_child (law : PathLaw) {base merged : Node} (h : Frame base merged) {name : String}
    (hname : hostSurface name=false) :
    Option.Rel (Gains "numa-node-id") (DevtreeLib.child base name)
      (DevtreeLib.child merged name) := by
  rw [child_outside law hname base,child_outside law hname merged]
  refine rel_find? (fun a b hab => ?_) h.outside
  rw [hab.name]

/-- The path of one name leads to the child of that name. -/
theorem findPath_single (law : PathLaw) {path name : String} (hroot : path.toList.head?=some '/')
    (hpath : segments path=[name]) (root : Node) :
    DevtreeLib.findPath root path=DevtreeLib.child root name := by
  rw [law.findPath,law.absolute root path hroot,hpath,law.child,←getElem?_findIdx?,positionOf]
  cases hi : root.children.findIdx? fun c => OverlayLib.found name c.name with
  | none => rfl
  | some i =>
    simp only [Option.bind_some,Option.bind_eq_bind]
    cases hget : root.children[i]? with
    | none => rfl
    | some child =>
      change nodeAt [i] root=some child
      rw [nodeAt,hget]
      rfl

/-- A property of `/chosen` other than a domain is the one of the base. -/
theorem chosen_property (law : PathLaw) {base merged : Node} (h : Frame base merged) {name : String}
    (hne : name≠"numa-node-id") :
    ((DevtreeLib.findPath merged "/chosen").bind fun chosen => chosen.property name)=
      (DevtreeLib.findPath base "/chosen").bind fun chosen => chosen.property name := by
  have hpath : ∀ root, DevtreeLib.findPath root "/chosen"=DevtreeLib.child root "chosen" :=
    findPath_single law rfl (by decide)
  have hhost : hostSurface "chosen"=false := by decide
  have hrel := rel_child law h hhost
  rw [hpath,hpath]
  cases hb : DevtreeLib.child base "chosen" with
  | none =>
    rw [hb] at hrel
    cases hm : DevtreeLib.child merged "chosen" with
    | none => rfl
    | some n =>
      rw [hm] at hrel
      cases hrel
  | some m =>
    rw [hb] at hrel
    cases hm : DevtreeLib.child merged "chosen" with
    | none =>
      rw [hm] at hrel
      cases hrel
    | some n =>
      rw [hm] at hrel
      cases hrel with
      | some hgain => exact hgain.property hne

/-- Whatever overlay is accepted, the merged tree is the base but for the cpus,
the memory, the distance map and domains of nodes; the root keeps its properties
and `/chosen` its command line, its initrd and its seed. -/
theorem validateHostDtbo_frame (law : PathLaw) {overlay : List Fragment} {base merged : Node}
    (hok : validateHostDtbo overlay base=.ok ())
    (happly : Merge.apply base overlay=some merged) :
    merged.name=base.name ∧ merged.properties=base.properties ∧
      List.Forall₂ (Gains "numa-node-id") (outside base) (outside merged) ∧
      ∀ name∈["bootargs","linux,initrd-start","linux,initrd-end","kaslr-seed"],
        ((DevtreeLib.findPath merged "/chosen").bind fun chosen => chosen.property name)=
          (DevtreeLib.findPath base "/chosen").bind fun chosen => chosen.property name := by
  have hframe := frame_apply law hok happly
  refine ⟨hframe.name,hframe.properties,hframe.outside,fun name hname => ?_⟩
  refine chosen_property law hframe ?_
  rintro rfl
  exact absurd hname (by decide)

end Frames

/-- A base tree with a command line and a serial port. -/
def sampleBase : Node := .mk "" [⟨"#address-cells",beBytes 4 2⟩,⟨"#size-cells",beBytes 4 2⟩]
  [.mk "chosen" [⟨"bootargs",dtString "quiet"⟩] [],
    .mk "serial@a110000" [⟨"compatible",dtString "ns16550a"⟩,⟨"reg",dtReg 0xa110000 0x1000⟩] []]

/-- An overlay with a cpu, memory and a domain of the serial port. -/
def sampleOverlay : List Fragment :=
  [⟨.path "/",.mk "__overlay__" []
    [.mk "cpus" [⟨"#address-cells",beBytes 4 1⟩,⟨"#size-cells",beBytes 4 0⟩]
      [.mk "cpu@0" [⟨"reg",beBytes 4 0⟩] []],
    .mk "memory@40000000" [⟨"reg",dtReg 0x40000000 0x10000000⟩] []]⟩,
  ⟨.path "/serial@a110000/",.mk "__overlay__" [⟨"numa-node-id",beBytes 4 0⟩] []⟩]

/-- The overlay is accepted and applies to the base tree. -/
theorem validateHostDtbo_frame_sample : ∃ merged,
    @Merge.apply plainOverlayLib sampleBase sampleOverlay=some merged ∧
      merged.properties=sampleBase.properties ∧
      List.Forall₂ (Gains "numa-node-id") (outside sampleBase) (outside merged) := by
  have hok : @validateHostDtbo plainOverlayLib sampleOverlay sampleBase=.ok () := by
    decide +kernel
  obtain ⟨merged,happly⟩ := Option.isSome_iff_exists.mp
    (show (@Merge.apply plainOverlayLib sampleBase sampleOverlay).isSome=true by decide +kernel)
  obtain ⟨_,hprops,houtside,_⟩ := @validateHostDtbo_frame plainOverlayLib pathLaw_plain _ _ _ hok happly
  exact ⟨merged,happly,hprops,houtside⟩

end Arma.Tatu.Overlay
