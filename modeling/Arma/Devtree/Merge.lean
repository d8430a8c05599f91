import Mathlib.Data.List.Forall2
import Mathlib.Tactic.Common
import Arma.Devtree

/-!
# Applying an overlay

An overlay is a list of fragments. Each names a node of the tree and is merged
into it: its properties are set, each of its children is merged into the child
that its name finds, or is added. Which child a name finds and which node a
target names is left to the devicetree library.
-/

namespace Arma.Devtree.Merge

open Base.ByteString

/-- Change the first element that is hit, or put a new one behind the others. -/
def upsert {α : Type} (hit : α → Bool) (change : α → α) (new : α) : List α → List α
  | [] => [new]
  | a::rest => if hit a then change a::rest else a::upsert hit change new rest

/-- Set a property. -/
def setProperty (properties : List Property) (p : Property) : List Property :=
  upsert (fun q => decide (q.name=p.name)) (fun _ => p) p properties

mutual

/-- Merge the first node into the second one. -/
def mergeInto (found : String → String → Bool) : Node → Node → Node
  | .mk _ properties children,target => .mk target.name
      (properties.foldl setProperty target.properties)
      (mergeAll found children target.children)

/-- Merge nodes into a list of children. -/
def mergeAll (found : String → String → Bool) : List Node → List Node → List Node
  | [],kids => kids
  | child::rest,kids => mergeAll found rest
      (upsert (fun kid => found child.name kid.name) (fun kid => mergeInto found child kid)
        (mergeInto found child (.mk child.name [] [])) kids)

end

/-- What hits nothing is put behind the others. -/
theorem upsert_new {α : Type} {hit : α → Bool} {change : α → α} {new : α} {l : List α}
    (h : ∀ a∈l, hit a=false) : upsert hit change new l=l++[new] := by
  induction l with
  | nil => rfl
  | cons a rest ih =>
    have ⟨ha,hrest⟩ := List.forall_mem_cons.mp h
    rw [upsert,ha,if_neg Bool.false_ne_true,ih hrest]
    rfl

/-- Nodes that are found nowhere, and not by one another, are put behind the others. -/
theorem mergeAll_new {found : String → String → Bool} {new kids : List Node}
    (hwhole : ∀ c∈new, mergeInto found c (.mk c.name [] [])=c)
    (hfresh : ∀ c∈new, ∀ kid∈kids, found c.name kid.name=false)
    (hapart : new.Pairwise fun c d => found d.name c.name=false) :
    mergeAll found new kids=kids++new := by
  induction new generalizing kids with
  | nil => rw [mergeAll,List.append_nil]
  | cons c rest ih =>
    have ⟨hc,hrest⟩ := List.forall_mem_cons.mp hwhole
    have ⟨hckids,hrestkids⟩ := List.forall_mem_cons.mp hfresh
    have ⟨hcrest,hapart⟩ := List.pairwise_cons.mp hapart
    rw [mergeAll,upsert_new hckids,hc,ih hrest ?_ hapart,List.append_assoc]
    · rfl
    · intro d hd kid hkid
      rcases List.mem_append.mp hkid with hkid | hkid
      · exact hrestkids d hd kid hkid
      · rw [List.mem_singleton.mp hkid]
        exact hcrest d hd

/-- The names on a path. -/
def segments (path : String) : List String :=
  (path.toList.splitOn '/').filterMap fun s => if s=[] then none else some (.ofList s)

/-- The node at a position, given by the numbers of the children on the way. -/
def nodeAt : List ℕ → Node → Option Node
  | [],n => some n
  | i::rest,n => n.children[i]?.bind (nodeAt rest)

/-- Change the node at a position. -/
def changeAt (change : Node → Node) : List ℕ → Node → Node
  | [],n => change n
  | i::rest,n => .mk n.name n.properties (n.children.modify i (changeAt change rest))

/-- The position that names lead to. -/
def positionOf (found : String → String → Bool) : List String → Node → Option (List ℕ)
  | [],_ => some []
  | name::rest,n => do
    let i ← n.children.findIdx? fun c => found name c.name
    let child ← n.children[i]?
    let pos ← positionOf found rest child
    some (i::pos)

/-- What a fragment applies to. -/
inductive Target where
  /-- The node of a path. -/
  | path (path : String)
  /-- The node of a handle. -/
  | phandle (handle : ℕ)
deriving DecidableEq, Repr

/-- A fragment of an overlay. -/
structure Fragment where
  /-- What it applies to. -/
  target : Target
  /-- What it contributes. -/
  node : Node

/-- Lookups of the devicetree library, and how it finds nodes for an overlay. -/
class OverlayLib extends DevtreeLib where
  /-- A name finds a child of another name. -/
  found : String → String → Bool
  /-- The position of a target. -/
  position : Node → Target → Option (List ℕ)

/-- A name finds a child with that name or one with the same name and a unit
address; a path that starts with a slash is descended from the root; a name in
place of a path stands for a node below the root. -/
structure PathLaw [OverlayLib] : Prop where
  /-- A name finds children of its own base name only. -/
  found : ∀ name other, OverlayLib.found name other=true → topSegment other=topSegment name
  /-- The child of a name is the first one it finds. -/
  child : ∀ n name, DevtreeLib.child n name=
    n.children.find? fun c => OverlayLib.found name c.name
  /-- An absolute path is descended name by name. -/
  absolute : ∀ root path, path.toList.head?=some '/' →
    OverlayLib.position root (.path path)=positionOf OverlayLib.found (segments path) root
  /-- Only the empty path names the root. -/
  root : ∀ root path pos, OverlayLib.position root (.path path)=some pos →
    (pos=[] ↔ segments path=[])
  /-- The node of a path is the one at its position. -/
  findPath : ∀ root path, DevtreeLib.findPath root path=
    (OverlayLib.position root (.path path)).bind fun pos => nodeAt pos root

/-- Apply one fragment. -/
def applyFragment [OverlayLib] (root : Node) (frag : Fragment) : Option Node :=
  (OverlayLib.position root frag.target).map fun pos =>
    changeAt (mergeInto OverlayLib.found frag.node) pos root

/-- Apply an overlay, fragment by fragment. -/
def apply [OverlayLib] (root : Node) (overlay : List Fragment) : Option Node :=
  overlay.foldlM applyFragment root

/-- The lookups by exact name. -/
@[reducible] def plainOverlayLib : OverlayLib where
  toDevtreeLib := plainLib
  found name other := decide (name=other)
  position root target := match target with
    | .path path => positionOf (fun name other => decide (name=other)) (segments path) root
    | .phandle _ => none

/-- Properties with a key that was set: the others are as they were, and the key
is still there if it was. -/
structure PropertiesGain (key : String) (before after : List Property) : Prop where
  /-- The other properties are as they were. -/
  others : (after.filter fun p => decide (p.name≠key))=before.filter fun p => decide (p.name≠key)
  /-- The key is not lost. -/
  kept : key∈before.map Property.name → key∈after.map Property.name

mutual

/-- The nodes are the same, but for a property that nodes gain or change. -/
def Gains (key : String) : Node → Node → Prop
  | .mk name properties children,after => after.name=name ∧
      PropertiesGain key properties after.properties ∧ GainsAll key children after.children

/-- The lists of nodes are the same, but for a property that nodes gain or
change. -/
def GainsAll (key : String) : List Node → List Node → Prop
  | [],after => after=[]
  | n::rest,after => ∃ m rest', after=m::rest' ∧ Gains key n m ∧ GainsAll key rest rest'

end

/-- What is kept of a list whose hits and whose new element are not kept. -/
theorem filter_upsert {α : Type} {hit keep : α → Bool} {change : α → α} {new : α} (l : List α)
    (hhit : ∀ a, hit a=true → keep a=false ∧ keep (change a)=false) (hnew : keep new=false) :
    (upsert hit change new l).filter keep=l.filter keep := by
  induction l with
  | nil =>
    rw [upsert,List.filter_cons_of_neg (by simp [hnew])]
  | cons a rest ih =>
    unfold upsert
    by_cases ha : hit a=true
    · obtain ⟨hold,hnow⟩ := hhit a ha
      rw [if_pos ha,List.filter_cons_of_neg (by simp [hnow]),List.filter_cons_of_neg (by simp [hold])]
    · rw [if_neg ha,List.filter_cons,List.filter_cons,ih]

/-- What is found in a list to which a new element was put. -/
theorem mem_upsert {α : Type} {hit : α → Bool} {change : α → α} {new : α} {l : List α} {P : α → Prop}
    (hhit : ∀ a, hit a=true → P a → P (change a)) (h : ∃ a∈l, P a) :
    ∃ a∈upsert hit change new l, P a := by
  induction l with
  | nil =>
    obtain ⟨a,ha,_⟩ := h
    exact absurd ha List.not_mem_nil
  | cons b rest ih =>
    obtain ⟨a,ha,hP⟩ := h
    unfold upsert
    cases hb : hit b with
    | true =>
      rw [if_pos rfl]
      obtain rfl | ha := List.mem_cons.mp ha
      · exact ⟨change a,List.mem_cons_self,hhit a hb hP⟩
      · exact ⟨a,List.mem_cons_of_mem _ ha,hP⟩
    | false =>
      rw [if_neg (by decide)]
      obtain rfl | ha := List.mem_cons.mp ha
      · exact ⟨a,List.mem_cons_self,hP⟩
      · obtain ⟨c,hc,hPc⟩ := ih ⟨a,ha,hP⟩
        exact ⟨c,List.mem_cons_of_mem _ hc,hPc⟩

namespace PropertiesGain

variable {key : String} {ps qs rs : List Property}

/-- Nothing is set. -/
theorem refl (key : String) (ps : List Property) : PropertiesGain key ps ps := ⟨rfl,id⟩

/-- The key is set twice. -/
theorem trans (h : PropertiesGain key ps qs) (h' : PropertiesGain key qs rs) :
    PropertiesGain key ps rs :=
  ⟨h'.others.trans h.others,fun hk => h'.kept (h.kept hk)⟩

/-- One property of the key is set. -/
theorem set {p : Property} (hp : p.name=key) (ps : List Property) :
    PropertiesGain key ps (setProperty ps p) := by
  constructor
  · refine filter_upsert ps (fun q hq => ?_) (by simp [hp])
    have hname : q.name=p.name := of_decide_eq_true hq
    simp [hname,hp]
  · intro hk
    obtain ⟨q,hq,hname⟩ := List.mem_map.mp hk
    have hset : ∃ r∈setProperty ps p, r.name=key :=
      mem_upsert (fun _ _ _ => hp) ⟨q,hq,hname⟩
    obtain ⟨r,hr,hname⟩ := hset
    exact List.mem_map.mpr ⟨r,hr,hname⟩

/-- Properties of the key are set one after another. -/
theorem setAll (ps : List Property) {new : List Property} (hnew : ∀ p∈new, p.name=key) :
    PropertiesGain key ps (new.foldl setProperty ps) := by
  induction new generalizing ps with
  | nil => exact refl key ps
  | cons p new ih =>
    obtain ⟨hp,hnew⟩ := List.forall_mem_cons.mp hnew
    exact (set hp ps).trans (ih (setProperty ps p) hnew)

/-- The first property of another name is the same. -/
theorem find? (h : PropertiesGain key ps qs) {name : String} (hne : name≠key) :
    (qs.find? fun p => decide (p.name=name))=ps.find? fun p => decide (p.name=name) := by
  have hskip : ∀ l : List Property, (l.find? fun p => decide (p.name=name))=
      (l.filter fun p => decide (p.name≠key)).find? fun p => decide (p.name=name) := by
    intro l
    rw [List.find?_filter]
    congr 1
    funext p
    by_cases hp : p.name=name
    · simp [hp,hne]
    · simp [hp]
  rw [hskip qs,h.others,←hskip ps]

/-- What is so of all names, when the key was there before. -/
theorem forall_name (h : PropertiesGain key ps qs)
    (hback : key∈qs.map Property.name → key∈ps.map Property.name) {Q : String → Prop} :
    (∀ q∈qs, Q q.name) ↔ ∀ p∈ps, Q p.name := by
  have hmem : ∀ p : Property, p.name≠key → (p∈qs ↔ p∈ps) := by
    intro p hne
    have hboth : p∈(qs.filter fun p => decide (p.name≠key)) ↔
        p∈ps.filter fun p => decide (p.name≠key) := by rw [h.others]
    simpa [hne] using hboth
  constructor
  · intro hall p hp
    by_cases hkey : p.name=key
    · obtain ⟨q,hq,hname⟩ := List.mem_map.mp (h.kept (List.mem_map.mpr ⟨p,hp,hkey⟩))
      have hQ := hall q hq
      rw [hname,←hkey] at hQ
      exact hQ
    · exact hall p ((hmem p hkey).mpr hp)
  · intro hall q hq
    by_cases hkey : q.name=key
    · obtain ⟨p,hp,hname⟩ := List.mem_map.mp (hback (List.mem_map.mpr ⟨q,hq,hkey⟩))
      have hQ := hall p hp
      rw [hname,←hkey] at hQ
      exact hQ
    · exact hall q ((hmem q hkey).mp hq)

end PropertiesGain

/-- The lists are the same node by node. -/
theorem gainsAll_iff {key : String} {l l' : List Node} :
    GainsAll key l l' ↔ List.Forall₂ (Gains key) l l' := by
  induction l generalizing l' with
  | nil =>
    rw [GainsAll]
    exact List.forall₂_nil_left_iff.symm
  | cons n rest ih =>
    rw [GainsAll,List.forall₂_cons_left_iff]
    constructor
    · rintro ⟨m,rest',rfl,hn,hrest⟩
      exact ⟨m,rest',hn,ih.mp hrest,rfl⟩
    · rintro ⟨m,rest',hn,hrest,rfl⟩
      exact ⟨m,rest',rfl,hn,ih.mpr hrest⟩

namespace Gains

variable {key : String} {n m : Node}

/-- The parts of two nodes that are the same but for the key. -/
theorem iff : Gains key n m ↔ m.name=n.name ∧ PropertiesGain key n.properties m.properties ∧
    List.Forall₂ (Gains key) n.children m.children := by
  cases n with
  | mk name properties children =>
    rw [Gains,gainsAll_iff]
    rfl

/-- The name is the same. -/
theorem name (h : Gains key n m) : m.name=n.name := (iff.mp h).1

/-- The children are the same but for the key. -/
theorem children (h : Gains key n m) : List.Forall₂ (Gains key) n.children m.children :=
  (iff.mp h).2.2

/-- A property of another name is the same. -/
theorem property (h : Gains key n m) {name : String} (hne : name≠key) :
    m.property name=n.property name := by
  rw [Node.property,Node.property,(iff.mp h).2.1.find? hne]

mutual

/-- A node is the same as itself. -/
theorem refl (key : String) : (n : Node) → Gains key n n
  | .mk _ properties children => iff.mpr ⟨rfl,.refl key properties,refl_all key children⟩

/-- A list of nodes is the same as itself. -/
theorem refl_all (key : String) : (l : List Node) → List.Forall₂ (Gains key) l l
  | [] => .nil
  | n::rest => .cons (refl key n) (refl_all key rest)

end

mutual

/-- Nodes gain the key in two steps. -/
theorem trans (key : String) : (a : Node) → (b c : Node) → Gains key a b → Gains key b c →
    Gains key a c
  | .mk name properties children,b,c,hab,hbc => by
    obtain ⟨hname,hprops,hkids⟩ := iff.mp hab
    obtain ⟨hname',hprops',hkids'⟩ := iff.mp hbc
    exact iff.mpr ⟨hname'.trans hname,hprops.trans hprops',
      trans_all key children b.children c.children hkids hkids'⟩

/-- Lists of nodes gain the key in two steps. -/
theorem trans_all (key : String) : (as : List Node) → (bs cs : List Node) →
    List.Forall₂ (Gains key) as bs → List.Forall₂ (Gains key) bs cs →
    List.Forall₂ (Gains key) as cs
  | [],_,_,.nil,.nil => .nil
  | a::as,b::bs,c::cs,.cons hab habs,.cons hbc hbcs =>
    .cons (trans key a b c hab hbc) (trans_all key as bs cs habs hbcs)

end

end Gains

/-- A node keeps its name when another one is merged into it. -/
theorem name_mergeInto (found : String → String → Bool) (overlay target : Node) :
    (mergeInto found overlay target).name=target.name := by
  cases overlay with
  | mk name properties children => rfl

/-- A node gains the key when one is merged into it that has nothing else. -/
theorem gains_mergeInto {key : String} {overlay : Node} (found : String → String → Bool)
    (hprops : ∀ p∈overlay.properties, p.name=key) (hkids : overlay.children=[]) (target : Node) :
    Gains key target (mergeInto found overlay target) := by
  cases overlay with
  | mk _ properties children =>
    have hnone : children=[] := hkids
    subst hnone
    refine Gains.iff.mpr ⟨rfl,.setAll target.properties hprops,?_⟩
    exact Gains.refl_all key target.children

/-- A node keeps its name when one below it is changed. -/
theorem name_changeAt {change : Node → Node} (hname : ∀ n, (change n).name=n.name) (pos : List ℕ)
    (n : Node) : (changeAt change pos n).name=n.name := by
  cases pos with
  | nil => exact hname n
  | cons i rest => rfl

/-- Two lists that differ at one place. -/
theorem forall₂_modify {α : Type} {R : α → α → Prop} (hrefl : ∀ a, R a a) {change : α → α}
    (hchange : ∀ a, R a (change a)) (l : List α) (i : ℕ) : List.Forall₂ R l (l.modify i change) := by
  induction l generalizing i with
  | nil =>
    rw [List.modify_nil]
    exact .nil
  | cons a rest ih =>
    cases i with
    | zero => exact .cons (hchange a) (List.forall₂_same.mpr fun b _ => hrefl b)
    | succ i => exact .cons (hrefl a) (ih i)

/-- A node gains the key when one below it does. -/
theorem gains_changeAt {key : String} {change : Node → Node} (hchange : ∀ n, Gains key n (change n))
    (pos : List ℕ) (n : Node) : Gains key n (changeAt change pos n) := by
  induction pos generalizing n with
  | nil => exact hchange n
  | cons i rest ih =>
    have hkids := forall₂_modify (Gains.refl key) ih n.children i
    exact Gains.iff.mpr ⟨rfl,.refl key n.properties,hkids⟩

/-- Slashes at the end of a path do not count. -/
theorem segments_slashes {path short : String} {n : ℕ}
    (h : path.toList=short.toList++List.replicate n '/') : segments path=segments short := by
  have hsplit : ∀ (cs : List Char) (n : ℕ),
      (((cs++List.replicate n '/').splitOn '/').filterMap fun s =>
        if s=[] then none else some (String.ofList s))=
      (cs.splitOn '/').filterMap fun s => if s=[] then none else some (String.ofList s) := by
    intro cs n
    induction n generalizing cs with
    | zero => rw [List.replicate_zero,List.append_nil]
    | succ n ih =>
      have hnone := ih []
      rw [List.nil_append] at hnone
      rw [List.replicate_succ,List.splitOn_append_cons_self,List.filterMap_append,hnone]
      exact List.append_nil _
  unfold segments
  rw [h,hsplit]

/-- A path of something other than slashes has a name. -/
theorem segments_ne_nil {path : String} {c : Char} (hc : c∈path.toList) (hne : c≠ '/') :
    segments path≠[] := by
  have hpart : ∀ cs : List Char, c∈cs → ∃ s∈cs.splitOn '/', s≠[] := by
    intro cs hcs
    induction cs with
    | nil => exact absurd hcs List.not_mem_nil
    | cons x rest ih =>
      rw [List.splitOn_cons_eq_if_modifyHead]
      by_cases hx : x= '/'
      · rw [if_pos (by simp [hx])]
        obtain rfl | hrest := List.mem_cons.mp hcs
        · exact absurd hx hne
        · obtain ⟨s,hs,hs'⟩ := ih hrest
          exact ⟨s,List.mem_cons_of_mem _ hs,hs'⟩
      · rw [if_neg (by simp [hx])]
        cases hsplit : rest.splitOn '/' with
        | nil => exact absurd hsplit (List.splitOn_ne_nil _ _)
        | cons s parts => exact ⟨x::s,List.mem_cons_self,List.cons_ne_nil _ _⟩
  obtain ⟨s,hs,hs'⟩ := hpart path.toList hc
  have hmem : String.ofList s∈segments path :=
    List.mem_filterMap.mpr ⟨s,hs,if_neg hs'⟩
  exact List.ne_nil_of_mem hmem

/-- The name of a path that is one name behind a slash. -/
theorem segments_single {path : String} {name : List Char} (h : path.toList= '/'::name)
    (hname : '/'∉name) (hne : name≠[]) : segments path=[.ofList name] := by
  have hsplit : path.toList.splitOn '/'=[[],name] := by
    rw [h]
    exact (List.splitOn_append_cons_self [] name).trans
      (congrArg ([[]]++·) (List.splitOn_eq_singleton hname))
  rw [segments,hsplit]
  simp [hne]

/-- Where the first name of a path leads. -/
theorem positionOf_cons {found : String → String → Bool} {name : String} {rest : List String}
    {n : Node} {pos : List ℕ} : positionOf found (name::rest) n=some pos ↔
      ∃ i child below, n.children.findIdx? (fun c => found name c.name)=some i ∧
        n.children[i]?=some child ∧ positionOf found rest child=some below ∧ pos=i::below := by
  rw [positionOf]
  simp only [Option.bind_eq_bind,Option.bind_eq_some_iff,Option.some.injEq]
  constructor
  · rintro ⟨i,hi,child,hchild,below,hbelow,rfl⟩
    exact ⟨i,child,below,hi,hchild,hbelow,rfl⟩
  · rintro ⟨i,child,below,hi,hchild,hbelow,rfl⟩
    exact ⟨i,hi,child,hchild,below,hbelow,rfl⟩

/-- The child that a path of a single name leads to. -/
theorem positionOf_single {found : String → String → Bool} {name : String} {n : Node}
    {pos : List ℕ} (h : positionOf found [name] n=some pos) :
    ∃ i child, pos=[i] ∧ n.children[i]?=some child ∧ found name child.name=true := by
  obtain ⟨i,child,below,hi,hchild,hbelow,rfl⟩ := positionOf_cons.mp h
  cases hbelow
  obtain ⟨hlt,hfound,_⟩ := List.findIdx?_eq_some_iff_getElem.mp hi
  have hget := List.getElem?_eq_getElem hlt
  rw [hget,Option.some.injEq] at hchild
  rw [hchild] at hfound
  exact ⟨i,child,rfl,hget.trans (congrArg some hchild),hfound⟩

/-- The number of the first element that is found leads to it. -/
theorem getElem?_findIdx? {α : Type} (p : α → Bool) (l : List α) :
    ((l.findIdx? p).bind fun i => l[i]?)=l.find? p := by
  induction l with
  | nil => rfl
  | cons a rest ih =>
    rw [List.findIdx?_cons,List.find?_cons]
    cases p a with
    | true => rfl
    | false =>
      rw [←ih]
      cases rest.findIdx? p <;> rfl

/-- Descending along names leads to the node at their position. -/
theorem descend_eq (names : List String) (n : Node) :
    descend n names=(positionOf (fun name other => decide (name=other)) names n).bind
      fun pos => nodeAt pos n := by
  induction names generalizing n with
  | nil => rfl
  | cons name rest ih =>
    have hchild : childNamed n name=(n.children.findIdx? fun c => decide (name=c.name)).bind
        fun i => n.children[i]? := by
      rw [getElem?_findIdx?,childNamed]
      simp only [eq_comm]
    rw [descend,hchild,positionOf]
    cases hi : n.children.findIdx? fun c => decide (name=c.name) with
    | none => rfl
    | some i =>
      simp only [Option.bind_some,Option.bind_eq_bind]
      cases hget : n.children[i]? with
      | none => rfl
      | some child =>
        simp only [Option.bind_some]
        rw [ih child]
        cases positionOf (fun name other => decide (name=other)) rest child with
        | none => rfl
        | some pos =>
          change nodeAt pos child=nodeAt (i::pos) n
          rw [nodeAt,hget]
          rfl

/-- The lookups by exact name follow the law. -/
theorem pathLaw_plain : @PathLaw plainOverlayLib := by
  let _ := plainOverlayLib
  constructor
  · intro name other h
    rw [of_decide_eq_true h]
  · intro n name
    change childNamed n name=n.children.find? fun c => decide (name=c.name)
    rw [childNamed]
    simp only [eq_comm]
  · intro root path _
    rfl
  · intro root path pos h
    have h : positionOf (fun name other => decide (name=other)) (segments path) root=some pos := h
    cases hs : segments path with
    | nil =>
      rw [hs] at h
      cases h
      exact ⟨fun _ => rfl,fun _ => rfl⟩
    | cons name rest =>
      rw [hs] at h
      obtain ⟨i,child,below,_,_,_,rfl⟩ := positionOf_cons.mp h
      exact ⟨fun h => absurd h (List.cons_ne_nil _ _),fun h => absurd h (List.cons_ne_nil _ _)⟩
  · intro root path
    exact descend_eq (segments path) root

end Arma.Devtree.Merge
