import Mathlib.Algebra.GroupWithZero.Nat
import Mathlib.Order.CompletePartialOrder
import Mathlib.Order.Interval.Set.Disjoint
import Mathlib.Order.Interval.Set.Basic
import Mathlib.Order.Interval.Finset.Nat
import Mathlib.Tactic.Common

/-!
# Half-open regions and blocks

A region is a half-open interval of addresses and may be empty. Addresses fall
into blocks under an arbitrary map; a set of addresses that is a union of
blocks shares no block with anything disjoint from it.
-/

namespace Arma.Base.Intervals

/-- The addresses from `start` up to, but not including, `stop`. -/
structure Region (α : Type) where
  /-- First address. -/
  start : α
  /-- First address past the region. -/
  stop : α
deriving DecidableEq, Repr

variable {α β : Type}

/-- The addresses of a region. -/
def Region.toSet [Preorder α] (r : Region α) : Set α := Set.Ico r.start r.stop

/-- Two regions have no address in common. -/
def Region.Separate [Preorder α] (r s : Region α) : Prop := Disjoint r.toSet s.toSet

/-- The usual comparison of the four endpoints; it is conclusive only on
regions that are not empty. -/
def Region.overlaps [LT α] [DecidableLT α] (r s : Region α) : Bool :=
  decide (r.start < s.stop) && decide (s.start < r.stop)

/-- Membership in a region is a pair of comparisons. -/
@[simp] theorem mem_toSet [Preorder α] {r : Region α} {x : α} :
    x∈r.toSet ↔ r.start≤x ∧ x < r.stop := Iff.rfl

/-- Separation is symmetric. -/
theorem separate_comm [Preorder α] {r s : Region α} : r.Separate s ↔ s.Separate r := disjoint_comm

/-- Regions inside separate regions are separate. -/
theorem Region.Separate.mono [Preorder α] {r s r' s' : Region α} (h : r.Separate s)
    (hr : r'.toSet⊆r.toSet) (hs : s'.toSet⊆s.toSet) : r'.Separate s' := Disjoint.mono hr hs h

/-- Regions whose endpoint comparison fails are separate. -/
theorem separate_of_overlaps_false [LinearOrder α] {r s : Region α}
    (h : r.overlaps s=false) : r.Separate s := by
  refine Set.disjoint_left.mpr ?_
  intro x hr hs
  have hstart : r.start < s.stop := hr.1.trans_lt hs.2
  have hstop : s.start < r.stop := hs.1.trans_lt hr.2
  simp [Region.overlaps,hstart,hstop] at h

/-- On regions that are not empty the endpoint comparison decides separation. -/
theorem overlaps_false_iff [LinearOrder α] {r s : Region α} (hr : r.start < r.stop)
    (hs : s.start < s.stop) : r.overlaps s=false ↔ r.Separate s := by
  refine ⟨separate_of_overlaps_false,fun h => ?_⟩
  by_contra hne
  obtain ⟨h1,h2⟩ : r.start < s.stop ∧ s.start < r.stop := by
    simpa [Region.overlaps] using hne
  have hinr : max r.start s.start∈r.toSet := ⟨le_max_left _ _,max_lt hr h2⟩
  have hins : max r.start s.start∈s.toSet := ⟨le_max_right _ _,max_lt h1 hs⟩
  exact Set.disjoint_left.mp h hinr hins

/-- An empty region is separate from every region. -/
theorem separate_of_empty [Preorder α] {r s : Region α} (h : ¬r.start < r.stop) :
    r.Separate s := by
  refine Set.disjoint_left.mpr ?_
  intro x hx
  exact absurd (hx.1.trans_lt hx.2) h

/-- A region that ends where another starts is separate from it. -/
theorem separate_of_le [Preorder α] {r s : Region α} (h : r.stop ≤ s.start) : r.Separate s := by
  refine Set.disjoint_left.mpr ?_
  intro x hr hs
  exact absurd (hr.2.trans_le (h.trans hs.1)) (lt_irrefl x)

/-- A region that starts below another and is separate from it ends where it starts. -/
theorem stop_le_of_separate [LinearOrder α] {r s : Region α} (hstart : r.start < s.start)
    (hsome : s.start < s.stop) (h : r.Separate s) : r.stop ≤ s.start := by
  by_contra hover
  have hr : s.start∈r.toSet := mem_toSet.mpr ⟨hstart.le,not_le.mp hover⟩
  exact Set.disjoint_left.mp h hr (mem_toSet.mpr ⟨le_rfl,hsome⟩)

/-- Neighbours in sorted order decide about all pairs: a region that ends before the next one
starts ends before all that follow. -/
theorem pairwise_of_neighbours [Preorder α] {P : Region α → Prop} {l : List (Region α)}
    (hsorted : l.Pairwise fun r s => r.start≤ s.start)
    (hnext : l.IsChain fun r s => P r → r.stop≤ s.start) :
    l.Pairwise fun r s => P r → r.stop≤ s.start := by
  induction l with
  | nil => exact .nil
  | cons r l ih =>
    obtain ⟨_,hsorted⟩ := List.pairwise_cons.mp hsorted
    cases l with
    | nil => exact List.pairwise_singleton _ _
    | cons next l =>
      obtain ⟨hr,hnext⟩ := List.isChain_cons_cons.mp hnext
      refine List.pairwise_cons.mpr ⟨fun s hs hP => (hr hP).trans ?_,ih hsorted hnext⟩
      rcases List.mem_cons.mp hs with rfl | hs
      · exact le_rfl
      · exact (List.pairwise_cons.mp hsorted).1 s hs

/-- Pairwise separation does not depend on the order. -/
theorem pairwise_separate_perm [Preorder α] {l m : List (Region α)} (h : l.Perm m) :
    l.Pairwise Region.Separate ↔ m.Pairwise Region.Separate :=
  h.pairwise_iff fun hrs => separate_comm.mp hrs

/-- A set of addresses is a union of the blocks of `block`. -/
def WholeBlocks (block : α → β) (s : Set α) : Prop :=
  ∀ ⦃x y⦄, x∈s → block x=block y → y∈s

/-- No block has an address of both sets. -/
def BlocksApart (block : α → β) (s t : Set α) : Prop := ∀ x∈s, ∀ y∈t, block x≠block y

/-- Sets without a common block are disjoint. -/
theorem BlocksApart.disjoint {block : α → β} {s t : Set α} (h : BlocksApart block s t) :
    Disjoint s t := Set.disjoint_left.mpr fun x hs ht => h x hs x ht rfl

/-- A union of blocks shares no block with a set disjoint from it. -/
theorem WholeBlocks.apart {block : α → β} {s t : Set α} (hs : WholeBlocks block s)
    (h : Disjoint t s) : BlocksApart block t s := by
  intro x hx y hy hxy
  exact Set.disjoint_left.mp h hx (hs hy hxy.symm)

/-- Blocks stay apart on smaller sets. -/
theorem BlocksApart.mono {block : α → β} {s t s' t' : Set α} (h : BlocksApart block s t)
    (hs : s'⊆s) (ht : t'⊆t) : BlocksApart block s' t' :=
  fun x hx y hy => h x (hs hx) y (ht hy)

/-- Blocks being apart is symmetric. -/
theorem BlocksApart.symm {block : α → β} {s t : Set α} (h : BlocksApart block s t) :
    BlocksApart block t s := fun x hx y hy hxy => h y hy x hx hxy.symm

/-- Every address of `s` is in a block with an address of `t`. -/
def InBlocks (block : α → β) (s t : Set α) : Prop := ∀ x∈s, ∃ y∈t, block x=block y

/-- A smaller set is in the same blocks. -/
theorem inBlocks_of_subset {block : α → β} {s t : Set α} (h : s⊆t) : InBlocks block s t :=
  fun x hx => ⟨x,h hx,rfl⟩

/-- Blocks stay apart on sets that are in the same blocks. -/
theorem BlocksApart.spread {block : α → β} {s t s' t' : Set α} (h : BlocksApart block s t)
    (hs : InBlocks block s' s) (ht : InBlocks block t' t) : BlocksApart block s' t' := by
  intro x hx y hy hxy
  obtain ⟨x',hx',hsame⟩ := hs x hx
  obtain ⟨y',hy',hsame'⟩ := ht y hy
  exact h x' hx' y' hy' (hsame.symm.trans (hxy.trans hsame'))

/-- A region that ends with the last block of another is in its blocks. -/
theorem inBlocks_of_round {g : ℕ} (hg : 0<g) {r e : Region ℕ} (hsome : r.start < r.stop)
    (hstart : e.start=r.start) (hstop : e.stop≤(r.stop+(g-1))/g*g) :
    InBlocks (·/g) e.toSet r.toSet := by
  intro x hx
  obtain ⟨hlo,hhi⟩ := mem_toSet.mp hx
  by_cases hin : x < r.stop
  · exact ⟨x,mem_toSet.mpr ⟨hstart ▸ hlo,hin⟩,rfl⟩
  · -- the rest of the last block goes with the last address
    refine ⟨r.stop-1,mem_toSet.mpr ⟨by omega,by omega⟩,?_⟩
    have hround : (r.stop+(g-1))/g=(r.stop-1)/g+1 := by
      rw [show r.stop+(g-1)=r.stop-1+g by omega,Nat.add_div_right _ hg]
    have hupper : x/g<(r.stop-1)/g+1 := by
      rw [←hround]
      exact (Nat.div_lt_iff_lt_mul hg).mpr (hhi.trans_le hstop)
    have hlower : (r.stop-1)/g≤x/g := Nat.div_le_div_right (by omega)
    dsimp only
    omega

/-- A region between multiples of the block size is a union of blocks. -/
theorem wholeBlocks_of_dvd {g : ℕ} (hg : 0<g) {r : Region ℕ} (h1 : g∣r.start) (h2 : g∣r.stop) :
    WholeBlocks (·/g) r.toSet := by
  intro x y hx hxy
  obtain ⟨a,ha⟩ := h1
  obtain ⟨b,hb⟩ := h2
  obtain ⟨hlo,hhi⟩ := mem_toSet.mp hx
  have h3 : a≤x/g := (Nat.le_div_iff_mul_le hg).mpr (by rw [Nat.mul_comm]; omega)
  have h4 : x/g<b := (Nat.div_lt_iff_lt_mul hg).mpr (by rw [Nat.mul_comm]; omega)
  dsimp only at hxy
  rw [hxy] at h3 h4
  refine mem_toSet.mpr ⟨?_,?_⟩
  · rw [ha,Nat.mul_comm]
    exact (Nat.le_div_iff_mul_le hg).mp h3
  · rw [hb,Nat.mul_comm]
    exact (Nat.div_lt_iff_lt_mul hg).mp h4

/-- Every address of `s` lies in a region of the list that is a union of blocks. -/
def Covered [Preorder α] (block : α → β) (occupied : List (Region α)) (s : Set α) : Prop :=
  ∀ x∈s, ∃ o∈occupied, x∈o.toSet ∧ WholeBlocks block o.toSet

/-- A set is clear of every region of the list. -/
def Clear [Preorder α] (occupied : List (Region α)) (s : Set α) : Prop :=
  ∀ o∈occupied, Disjoint s o.toSet

/-- More regions cover at least as much. -/
theorem Covered.grow [Preorder α] {block : α → β} {occupied occupied' : List (Region α)}
    {s : Set α} (h : Covered block occupied s) (hsub : occupied⊆occupied') :
    Covered block occupied' s := by
  intro x hx
  obtain ⟨o,ho,h⟩ := h x hx
  exact ⟨o,hsub ho,h⟩

/-- A set clear of the regions shares no block with a set they cover. -/
theorem Clear.apart [Preorder α] {block : α → β} {occupied : List (Region α)} {s t : Set α}
    (hs : Clear occupied s) (ht : Covered block occupied t) : BlocksApart block s t := by
  intro x hx y hy
  obtain ⟨o,ho,hyo,hwhole⟩ := ht y hy
  exact hwhole.apart (hs o ho) x hx y hyo

/-- The state of a greedy placement: the occupied regions cover the fixed sets
and all sets placed so far, and no placed set shares a block with a fixed or
with another placed one. -/
structure Placement [Preorder α] (block : α → β) (occupied : List (Region α))
    (fixed placed : List (Set α)) : Prop where
  /-- The fixed sets are covered. -/
  coveredFixed : ∀ s∈fixed, Covered block occupied s
  /-- The placed sets are covered. -/
  coveredPlaced : ∀ s∈placed, Covered block occupied s
  /-- Placed and fixed sets share no block. -/
  apartFixed : ∀ s∈placed, ∀ t∈fixed, BlocksApart block s t
  /-- Two placed sets share no block. -/
  apartPlaced : placed.Pairwise (BlocksApart block)

/-- Placing a set that is clear of the occupied regions and covering it with
whole blocks keeps the placement. -/
theorem Placement.place [Preorder α] {block : α → β} {occupied occupied' : List (Region α)}
    {fixed placed : List (Set α)} {s : Set α} (h : Placement block occupied fixed placed)
    (hclear : Clear occupied s) (hsub : occupied⊆occupied') (hs : Covered block occupied' s) :
    Placement block occupied' fixed (s::placed) := by
  constructor
  · intro t ht
    exact (h.coveredFixed t ht).grow hsub
  · intro t ht
    obtain rfl | ht := List.mem_cons.mp ht
    · exact hs
    · exact (h.coveredPlaced t ht).grow hsub
  · intro t ht u hu
    obtain rfl | ht := List.mem_cons.mp ht
    · exact hclear.apart (h.coveredFixed u hu)
    · exact h.apartFixed t ht u hu
  · refine List.pairwise_cons.mpr ⟨?_,h.apartPlaced⟩
    intro t ht
    exact hclear.apart (h.coveredPlaced t ht)

/-- Regions laid end to end from `cur` to `stop`. -/
def Consecutive [LE α] (cur : α) : List (Region α) → α → Prop
  | [],stop => cur=stop
  | r::rest,stop => r.start=cur ∧ cur ≤ r.stop ∧ Consecutive r.stop rest stop

/-- Consecutive lists of regions concatenate. -/
theorem Consecutive.append [LE α] {cur mid stop : α} {l m : List (Region α)}
    (hl : Consecutive cur l mid) (hm : Consecutive mid m stop) :
    Consecutive cur (l++m) stop := by
  induction l generalizing cur with
  | nil =>
    obtain rfl : cur=mid := hl
    exact hm
  | cons r l ih =>
    obtain ⟨h1,h2,h3⟩ := hl
    exact ⟨h1,h2,ih h3⟩

/-- Regions in ascending order from `cur` to `stop`, possibly with gaps. -/
def Ascending [LE α] (cur : α) : List (Region α) → α → Prop
  | [],stop => cur ≤ stop
  | r::rest,stop => cur ≤ r.start ∧ r.start ≤ r.stop ∧ Ascending r.stop rest stop

/-- Ascending regions may start to be counted earlier. -/
theorem Ascending.weaken [Preorder α] {cur cur' stop : α} {l : List (Region α)}
    (h : Ascending cur l stop) (hle : cur' ≤ cur) : Ascending cur' l stop := by
  cases l with
  | nil => exact hle.trans h
  | cons r l => exact ⟨hle.trans h.1,h.2⟩

/-- Ascending lists of regions concatenate. -/
theorem Ascending.append [Preorder α] {cur mid stop : α} {l m : List (Region α)}
    (hl : Ascending cur l mid) (hm : Ascending mid m stop) : Ascending cur (l++m) stop := by
  induction l generalizing cur with
  | nil => exact hm.weaken hl
  | cons r l ih => exact ⟨hl.1,hl.2.1,ih hl.2.2⟩

/-- Consecutive regions are ascending. -/
theorem Consecutive.ascending [Preorder α] {cur stop : α} {l : List (Region α)}
    (h : Consecutive cur l stop) : Ascending cur l stop := by
  induction l generalizing cur with
  | nil => exact le_of_eq h
  | cons r l ih =>
    obtain ⟨rfl,h2,h3⟩ := h
    exact ⟨le_refl _,h2,ih h3⟩

/-- Ascending regions lie between the two ends. -/
theorem Ascending.bounds [Preorder α] {cur stop : α} {l : List (Region α)}
    (h : Ascending cur l stop) :
    cur ≤ stop ∧ ∀ r∈l, cur ≤ r.start ∧ r.start ≤ r.stop ∧ r.stop ≤ stop := by
  induction l generalizing cur with
  | nil => exact ⟨h,fun r hr => absurd hr List.not_mem_nil⟩
  | cons r l ih =>
    obtain ⟨h1,h2,h3⟩ := h
    obtain ⟨hle,hrest⟩ := ih h3
    refine ⟨h1.trans (h2.trans hle),?_⟩
    intro s hs
    rcases List.mem_cons.mp hs with rfl | hs
    · exact ⟨h1,h2,hle⟩
    · obtain ⟨h4,h5⟩ := hrest s hs
      exact ⟨h1.trans (h2.trans h4),h5⟩

/-- Ascending regions are pairwise separate. -/
theorem Ascending.pairwise [Preorder α] {cur stop : α} {l : List (Region α)}
    (h : Ascending cur l stop) : l.Pairwise Region.Separate := by
  induction l generalizing cur with
  | nil => exact List.Pairwise.nil
  | cons r l ih =>
    obtain ⟨_,_,h3⟩ := h
    refine List.pairwise_cons.mpr ⟨?_,ih h3⟩
    intro s hs
    exact separate_of_le (h3.bounds.2 s hs).1

/-- Pairwise separate regions inside a finite set have no more addresses than it. -/
theorem sum_length_le_card {l : List (Region ℕ)} {s : Finset ℕ}
    (hsep : l.Pairwise Region.Separate) (hin : ∀ r∈l, Finset.Ico r.start r.stop⊆s) :
    (l.map fun r => r.stop-r.start).sum ≤ s.card := by
  induction l generalizing s with
  | nil => exact Nat.zero_le _
  | cons r l ih =>
    obtain ⟨hfirst,hrest⟩ := List.pairwise_cons.mp hsep
    have hr := hin r List.mem_cons_self
    have hl : ∀ t∈l, Finset.Ico t.start t.stop⊆s \ Finset.Ico r.start r.stop := by
      intro t ht x hx
      have hxs := hin t (List.mem_cons_of_mem _ ht) hx
      refine Finset.mem_sdiff.mpr ⟨hxs,fun hxr => ?_⟩
      exact Set.disjoint_left.mp (hfirst t ht) (Finset.mem_Ico.mp hxr) (Finset.mem_Ico.mp hx)
    have hcard := ih hrest hl
    rw [Finset.card_sdiff_of_subset hr,Nat.card_Ico] at hcard
    have hle := Finset.card_le_card hr
    rw [Nat.card_Ico] at hle
    rw [List.map_cons,List.sum_cons]
    omega

/-- Pairwise separate regions below a bound have no more addresses than it. -/
theorem sum_length_le {l : List (Region ℕ)} {n : ℕ} (hsep : l.Pairwise Region.Separate)
    (hin : ∀ r∈l, r.stop≤n) : (l.map fun r => r.stop-r.start).sum≤n := by
  have h := sum_length_le_card (s := Finset.range n) hsep fun r hr x hx =>
    Finset.mem_range.mpr ((Finset.mem_Ico.mp hx).2.trans_le (hin r hr))
  rwa [Finset.card_range] at h

end Arma.Base.Intervals
