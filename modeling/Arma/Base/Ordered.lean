import Mathlib.Data.List.Sort
import Mathlib.Tactic.Common

/-!
# Ordered maps

A B-tree map is the list of its entries in strictly increasing order of their
keys. Maps that agree on every key are equal, so what is iterated over does not
depend on the order of the insertions. A set is a map without values.
-/

namespace Arma.Base.Ordered

variable {κ ν : Type} [LinearOrder κ]

/-- A map whose entries are in increasing order. -/
structure OrdMap (κ ν : Type) [LinearOrder κ] where
  /-- The entries. -/
  entries : List (κ×ν)
  /-- Their keys increase. -/
  sorted : (entries.map Prod.fst).Pairwise (· < ·)

/-- A set is a map without values. -/
abbrev OrdSet (κ : Type) [LinearOrder κ] : Type := OrdMap κ Unit

/-- The keys, in order. -/
def OrdMap.keys (m : OrdMap κ ν) : List κ := m.entries.map Prod.fst

/-- Value of a key in a list of entries. -/
def find (k : κ) (l : List (κ×ν)) : Option ν :=
  (l.find? fun e => decide (e.1=k)).map Prod.snd

/-- Value of a key. -/
def OrdMap.get? (m : OrdMap κ ν) (k : κ) : Option ν := find k m.entries

/-- `true` iff the map has the key. -/
def OrdMap.contains (m : OrdMap κ ν) (k : κ) : Bool := (m.get? k).isSome

/-- Put an entry where its key belongs; it replaces one of the same key. -/
def put (k : κ) (v : ν) : List (κ×ν) → List (κ×ν)
  | [] => [(k,v)]
  | e::rest =>
    if k<e.1 then (k,v)::e::rest
    else if k=e.1 then (k,v)::rest
    else e::put k v rest

/-- The keys after putting an entry. -/
theorem mem_put {k j : κ} {v : ν} {l : List (κ×ν)} :
    j∈(put k v l).map Prod.fst ↔ j=k ∨ j∈l.map Prod.fst := by
  induction l with
  | nil => simp [put]
  | cons e l ih =>
    unfold put
    split
    · simp
    · split
      · rename_i heq
        simp [heq]
      · rw [List.map_cons,List.mem_cons,ih,List.map_cons,List.mem_cons]
        exact or_left_comm

/-- Putting an entry keeps the order. -/
theorem sorted_put {k : κ} {v : ν} {l : List (κ×ν)}
    (h : (l.map Prod.fst).Pairwise (· < ·)) : ((put k v l).map Prod.fst).Pairwise (· < ·) := by
  induction l with
  | nil => exact List.pairwise_singleton _ _
  | cons e l ih =>
    obtain ⟨hhead,htail⟩ := List.pairwise_cons.mp h
    unfold put
    split
    · rename_i hlt
      refine List.pairwise_cons.mpr ⟨fun j hj => ?_,h⟩
      obtain rfl | hj := List.mem_cons.mp hj
      · exact hlt
      · exact hlt.trans (hhead j hj)
    · rename_i hle
      split
      · rename_i heq
        rw [List.map_cons,heq]
        exact h
      · rename_i hne
        refine List.pairwise_cons.mpr ⟨fun j hj => ?_,ih htail⟩
        obtain rfl | hj := mem_put.mp hj
        · exact lt_of_le_of_ne (not_lt.mp hle) (Ne.symm hne)
        · exact hhead j hj

/-- Looking a key up in an extended list. -/
theorem find_cons {k : κ} {e : κ×ν} {l : List (κ×ν)} :
    find k (e::l)=if e.1=k then some e.2 else find k l := by
  unfold find
  by_cases h : e.1=k
  · simp [h]
  · simp [h]

/-- A key is found exactly when it is there. -/
theorem isSome_find {k : κ} {l : List (κ×ν)} :
    (find k l).isSome=true ↔ k∈l.map Prod.fst := by
  induction l with
  | nil => simp [find]
  | cons e l ih =>
    rw [find_cons,List.map_cons,List.mem_cons]
    by_cases h : e.1=k
    · simp [h]
    · rw [if_neg h,ih]
      simp [Ne.symm h]

/-- Looking a key up after putting an entry. -/
theorem find_put {k j : κ} {v : ν} {l : List (κ×ν)} (h : (l.map Prod.fst).Pairwise (· < ·)) :
    find j (put k v l)=if k=j then some v else find j l := by
  induction l with
  | nil =>
    rw [put,find_cons]
  | cons e l ih =>
    obtain ⟨hhead,htail⟩ := List.pairwise_cons.mp h
    unfold put
    split
    · rw [find_cons]
    · split
      · rename_i heq
        rw [find_cons,find_cons]
        by_cases hk : k=j
        · rw [if_pos hk,if_pos hk]
        · rw [if_neg hk,if_neg hk,if_neg (heq ▸ hk)]
      · rename_i hne
        rw [find_cons,ih htail,find_cons]
        by_cases he : e.1=j
        · rw [if_pos he,if_pos he,if_neg (fun hk => hne (hk.trans he.symm))]
        · rw [if_neg he,if_neg he]

/-- The empty map. -/
def OrdMap.empty : OrdMap κ ν := ⟨[],List.Pairwise.nil⟩

/-- Insert an entry. -/
def OrdMap.insert (m : OrdMap κ ν) (k : κ) (v : ν) : OrdMap κ ν :=
  ⟨put k v m.entries,sorted_put m.sorted⟩

/-- The empty map has no keys. -/
@[simp] theorem OrdMap.get?_empty (k : κ) : (OrdMap.empty : OrdMap κ ν).get? k=none := rfl

/-- Looking a key up after an insertion. -/
theorem OrdMap.get?_insert (m : OrdMap κ ν) (k j : κ) (v : ν) :
    (m.insert k v).get? j=if k=j then some v else m.get? j := find_put m.sorted

/-- A key is there exactly when it has a value. -/
theorem OrdMap.mem_keys {m : OrdMap κ ν} {k : κ} : k∈m.keys ↔ ∃ v, m.get? k=some v := by
  rw [OrdMap.keys,←isSome_find,Option.isSome_iff_exists]
  rfl

/-- The same of the test for a key. -/
theorem OrdMap.contains_iff {m : OrdMap κ ν} {k : κ} : m.contains k=true ↔ k∈m.keys :=
  isSome_find

/-- The keys increase. -/
theorem OrdMap.keys_sorted (m : OrdMap κ ν) : m.keys.Pairwise (· < ·) := m.sorted

/-- No key is there twice. -/
theorem OrdMap.keys_nodup (m : OrdMap κ ν) : m.keys.Nodup :=
  m.sorted.imp fun h => ne_of_lt h

/-- The keys after an insertion. -/
theorem OrdMap.mem_keys_insert {m : OrdMap κ ν} {k j : κ} {v : ν} :
    j∈(m.insert k v).keys ↔ j=k ∨ j∈m.keys := mem_put

/-- The entries are the keys with their values. -/
theorem OrdMap.mem_entries {m : OrdMap κ ν} {k : κ} {v : ν} :
    (k,v)∈m.entries ↔ m.get? k=some v := by
  obtain ⟨l,hl⟩ := m
  unfold OrdMap.get?
  dsimp only
  induction l with
  | nil => simp [find]
  | cons e l ih =>
    obtain ⟨hhead,htail⟩ := List.pairwise_cons.mp hl
    rw [List.mem_cons,ih htail,find_cons]
    by_cases he : e.1=k
    · rw [if_pos he,Option.some.injEq]
      constructor
      · rintro (rfl | hfind)
        · rfl
        · have hmem : k∈l.map Prod.fst := isSome_find.mp (by rw [hfind]; rfl)
          exact absurd (hhead k hmem) (by rw [he]; exact lt_irrefl k)
      · intro hv
        exact .inl (Prod.ext he.symm hv.symm)
    · rw [if_neg he]
      constructor
      · rintro (rfl | hfind)
        · exact absurd rfl he
        · exact hfind
      · exact .inr

/-- Maps that agree on every key are equal. -/
theorem OrdMap.ext_get? {m n : OrdMap κ ν} (h : ∀ k, m.get? k=n.get? k) : m=n := by
  have hsub : ∀ {a b : OrdMap κ ν}, (∀ k, a.get? k=b.get? k) → a.entries⊆b.entries := by
    intro a b hab e he
    have hget : a.get? e.1=some e.2 := OrdMap.mem_entries.mp he
    exact OrdMap.mem_entries.mpr ((hab e.1).symm.trans hget)
  have hnodup : ∀ a : OrdMap κ ν, a.entries.Nodup := fun a => a.keys_nodup.of_map
  have hperm : m.entries.Perm n.entries :=
    (List.perm_ext_iff_of_nodup (hnodup m) (hnodup n)).mpr fun e =>
      ⟨fun he => hsub h he,fun he => hsub (fun k => (h k).symm) he⟩
  have horder : ∀ a : OrdMap κ ν, a.entries.Pairwise fun x y => x.1<y.1 :=
    fun a => List.pairwise_map.mp a.sorted
  have hentries : m.entries=n.entries :=
    hperm.eq_of_pairwise (fun x y _ _ hxy hyx => absurd (hxy.trans hyx) (lt_irrefl x.1))
      (horder m) (horder n)
  obtain ⟨l,hl⟩ := m
  obtain ⟨l',hl'⟩ := n
  cases hentries
  rfl

/-- Sets of the same elements are equal. -/
theorem OrdSet.ext {s t : OrdSet κ} (h : ∀ k, k∈s.keys ↔ k∈t.keys) : s=t := by
  refine OrdMap.ext_get? fun k => ?_
  have hk := h k
  rw [OrdMap.mem_keys,OrdMap.mem_keys] at hk
  cases hs : s.get? k with
  | none =>
    cases ht : t.get? k with
    | none => rfl
    | some v =>
      obtain ⟨w,hw⟩ := hk.mpr ⟨v,ht⟩
      rw [hs] at hw
      cases hw
  | some v =>
    obtain ⟨w,hw⟩ := hk.mp ⟨v,hs⟩
    rw [hw]

/-- Insert an entry whose key must be new. -/
def OrdMap.insertNew (m : OrdMap κ ν) (k : κ) (v : ν) : Option (OrdMap κ ν) :=
  if m.contains k=true then none else some (m.insert k v)

/-- Insert several entries whose keys must be new. -/
def OrdMap.insertAllNew (m : OrdMap κ ν) (l : List (κ×ν)) : Option (OrdMap κ ν) :=
  l.foldlM (fun m e => m.insertNew e.1 e.2) m

/-- Nothing is inserted. -/
@[simp] theorem OrdMap.insertAllNew_nil (m : OrdMap κ ν) : m.insertAllNew []=some m := rfl

/-- Insertions in sequence. -/
theorem OrdMap.insertAllNew_append (m : OrdMap κ ν) (a b : List (κ×ν)) :
    m.insertAllNew (a++b)=(m.insertAllNew a).bind fun n => n.insertAllNew b :=
  List.foldlM_append

/-- A single insertion. -/
theorem OrdMap.insertAllNew_singleton (m : OrdMap κ ν) (k : κ) (v : ν) :
    m.insertAllNew [(k,v)]=m.insertNew k v := by
  unfold OrdMap.insertAllNew
  rw [List.foldlM_cons]
  exact bind_pure _

/-- An entry is inserted when its key is new. -/
theorem OrdMap.insertNew_some {m n : OrdMap κ ν} {k : κ} {v : ν} :
    m.insertNew k v=some n ↔ k∉m.keys ∧ m.insert k v=n := by
  unfold OrdMap.insertNew
  rw [←OrdMap.contains_iff]
  split <;> simp_all

/-- What is there with one new entry and then more of them. -/
theorem OrdMap.get?_insert_some {m : OrdMap κ ν} {e : κ×ν} (he : e.1∉m.keys) (l : List (κ×ν))
    (k : κ) (v : ν) : ((k,v)∈l ∨ (m.insert e.1 e.2).get? k=some v) ↔
      ((k,v)=e ∨ (k,v)∈l) ∨ m.get? k=some v := by
  have hinsert : (m.insert e.1 e.2).get? k=some v ↔ (k,v)=e ∨ k≠e.1 ∧ m.get? k=some v := by
    rw [OrdMap.get?_insert,Prod.ext_iff]
    by_cases hk : e.1=k
    · simp [hk,eq_comm]
    · simp [hk,Ne.symm hk]
  have hother : k≠e.1 ∧ m.get? k=some v ↔ m.get? k=some v := by
    refine and_iff_right_of_imp fun hm => ?_
    rintro rfl
    exact he (OrdMap.mem_keys.mpr ⟨v,hm⟩)
  rw [hinsert,hother,←or_assoc,or_comm (a := (k,v)∈l)]

/-- Entries with new keys can be inserted, and are then there with what was there
before. -/
theorem OrdMap.insertAllNew_some {m n : OrdMap κ ν} {l : List (κ×ν)} :
    m.insertAllNew l=some n ↔ (l.map Prod.fst).Nodup ∧ (∀ k∈l.map Prod.fst, k∉m.keys) ∧
      ∀ k v, n.get? k=some v ↔ (k,v)∈l ∨ m.get? k=some v := by
  induction l generalizing m with
  | nil =>
    have hnil : m.insertAllNew []=some m := rfl
    rw [hnil,Option.some.injEq]
    constructor
    · rintro rfl
      exact ⟨List.nodup_nil,fun k hk => absurd hk List.not_mem_nil,fun k v => by simp⟩
    · rintro ⟨_,_,h⟩
      refine OrdMap.ext_get? fun k => Option.ext fun v => ?_
      rw [h k v]
      simp
  | cons e l ih =>
    have hcons : m.insertAllNew (e::l)=(m.insertNew e.1 e.2).bind fun m => m.insertAllNew l := rfl
    rw [hcons,Option.bind_eq_some_iff,List.map_cons,List.nodup_cons,List.forall_mem_cons]
    simp only [OrdMap.insertNew_some,List.mem_cons]
    constructor
    · rintro ⟨m',⟨he,rfl⟩,h⟩
      obtain ⟨hnodup,hkeys,hget⟩ := ih.mp h
      have hfresh : e.1∉l.map Prod.fst := fun hmem =>
        hkeys e.1 hmem (OrdMap.mem_keys_insert.mpr (.inl rfl))
      refine ⟨⟨hfresh,hnodup⟩,⟨he,fun k hk hm =>
        hkeys k hk (OrdMap.mem_keys_insert.mpr (.inr hm))⟩,fun k v => ?_⟩
      rw [hget,OrdMap.get?_insert_some he]
    · rintro ⟨⟨hfresh,hnodup⟩,⟨he,hkeys⟩,hget⟩
      refine ⟨m.insert e.1 e.2,⟨he,rfl⟩,ih.mpr ⟨hnodup,fun k hk hm => ?_,fun k v => ?_⟩⟩
      · obtain rfl | hm := OrdMap.mem_keys_insert.mp hm
        · exact hfresh hk
        · exact hkeys k hk hm
      · rw [hget,OrdMap.get?_insert_some he]

/-- Entries with distinct keys make a map, which has these entries. -/
theorem OrdMap.insertAllNew_empty {n : OrdMap κ ν} {l : List (κ×ν)} :
    (OrdMap.empty : OrdMap κ ν).insertAllNew l=some n ↔
      (l.map Prod.fst).Nodup ∧ ∀ k v, n.get? k=some v ↔ (k,v)∈l := by
  rw [OrdMap.insertAllNew_some]
  simp [OrdMap.keys,OrdMap.empty,OrdMap.get?,find]

/-- The order of the insertions does not matter. -/
theorem OrdMap.insertAllNew_perm {m n : OrdMap κ ν} {l l' : List (κ×ν)} (hperm : l.Perm l')
    (h : m.insertAllNew l=some n) : m.insertAllNew l'=some n := by
  obtain ⟨hnodup,hnew,hget⟩ := OrdMap.insertAllNew_some.mp h
  have hkeys := hperm.map Prod.fst
  refine OrdMap.insertAllNew_some.mpr ⟨hkeys.nodup_iff.mp hnodup,fun k hk =>
    hnew k (hkeys.mem_iff.mpr hk),fun k v => ?_⟩
  rw [hget,hperm.mem_iff]

/-- Insert an element. -/
def OrdMap.add (s : OrdSet κ) (k : κ) : OrdSet κ := s.insert k ()

/-- The elements after an insertion. -/
@[simp] theorem OrdMap.mem_add {s : OrdSet κ} {k j : κ} : j∈(s.add k).keys ↔ j=k ∨ j∈s.keys :=
  OrdMap.mem_keys_insert

/-- Take an element out. -/
def OrdMap.remove (s : OrdSet κ) (k : κ) : OrdSet κ :=
  ⟨s.entries.filter fun e => decide (e.1≠k),by
    refine List.Pairwise.sublist ?_ s.sorted
    exact List.filter_sublist.map Prod.fst⟩

/-- The elements after a removal. -/
@[simp] theorem OrdMap.mem_remove {s : OrdSet κ} {k j : κ} :
    j∈(s.remove k).keys ↔ j∈s.keys ∧ j≠k := by
  simp only [OrdMap.keys,OrdMap.remove,List.mem_map,List.mem_filter,decide_eq_true_eq]
  constructor
  · rintro ⟨e,⟨he,hne⟩,rfl⟩
    exact ⟨⟨e,he,rfl⟩,hne⟩
  · rintro ⟨⟨e,he,rfl⟩,hne⟩
    exact ⟨e,⟨he,hne⟩,rfl⟩

/-- Insert several elements. -/
def OrdMap.addAll (s : OrdSet κ) (l : List κ) : OrdSet κ := l.foldl OrdMap.add s

/-- The elements after several insertions. -/
@[simp] theorem OrdMap.mem_addAll {s : OrdSet κ} {l : List κ} {j : κ} :
    j∈(s.addAll l).keys ↔ j∈l ∨ j∈s.keys := by
  unfold OrdMap.addAll
  induction l generalizing s with
  | nil => simp
  | cons k l ih =>
    rw [List.foldl_cons,ih,OrdMap.mem_add,List.mem_cons]
    tauto

/-- The set of the elements of a list. -/
def OrdSet.ofList (l : List κ) : OrdSet κ := OrdMap.addAll .empty l

/-- It has these elements. -/
@[simp] theorem OrdSet.mem_ofList {l : List κ} {j : κ} : j∈(OrdSet.ofList l).keys ↔ j∈l := by
  rw [OrdSet.ofList,OrdMap.mem_addAll]
  exact or_iff_left (List.not_mem_nil (a := j))

end Arma.Base.Ordered
