import Mathlib.Data.Sym.Sym2
import Mathlib.Tactic.Common
import Arma.Acpi.Filled
import Arma.Base.Agreeing

/-!
# The matrix of distances

A `distance-matrix` is a list of triples. It gives distances to unordered pairs of domains; it
is accepted when every triple is sound by itself and all of them agree. The matrix that is
filled in place holds what the triples so far have given, zero where they have given nothing.
-/

namespace Arma.Acpi.Slit

open Base.Agreeing Base.ArrayVec Base.ByteString Base.Checked Base.Writer Devtree Dtb Layout Sdt
  Numa Count Counted Collected Capacity Populate Image Filled

/-- A triple of a distance matrix. -/
structure Triple where
  /-- A domain. -/
  origin : ℕ
  /-- Another domain, or the same. -/
  dest : ℕ
  /-- Their distance. -/
  distance : ℕ
deriving DecidableEq, Repr

/-- The triples of cells. -/
def triplesOf : List ℕ → List Triple
  | a::b::v::rest => ⟨a,b,v⟩::triplesOf rest
  | _ => []

/-- The triples of a `distance-matrix`. -/
def triples (raw : Bytes) : List Triple := triplesOf (cellsAsU32s raw)

/-- The unordered pair of a triple, with its distance. -/
def Triple.entry (t : Triple) : Sym2 ℕ×ℕ := (s(t.origin,t.dest),t.distance)

/-- The triple may be entered into an empty matrix. -/
structure Triple.Sound (domains : List ℕ) (t : Triple) : Prop where
  /-- The first domain is known. -/
  origin : t.origin∈domains
  /-- So is the second. -/
  dest : t.dest∈domains
  /-- The distance is a byte. -/
  byte : t.distance≤255
  /-- Different domains are at least ten apart. -/
  far : t.origin≠t.dest → 10≤t.distance
  /-- A domain is ten apart from itself. -/
  near : t.origin=t.dest → t.distance=10

/-- The triples are sound, and no pair is given two distances. -/
structure Consistent (domains : List ℕ) (ts : List Triple) : Prop where
  /-- Every triple is sound. -/
  sound : ∀ t∈ts, t.Sound domains
  /-- A pair is given one distance, in either order. -/
  agree : Agree (ts.map Triple.entry)

/-- What a `distance-matrix` is accepted for. -/
structure Acceptable (domains : List ℕ) (raw : Bytes) : Prop where
  /-- It is not empty. -/
  nonempty : raw≠[]
  /-- It is a whole number of triples. -/
  whole : raw.length%12=0
  /-- Its triples are consistent. -/
  consistent : Consistent domains (triples raw)

/-- The distance that is given for a pair. -/
def given (ts : List Triple) (a b : ℕ) : Option ℕ := (ts.map Triple.entry).lookup s(a,b)

/-- The distance of a pair. -/
def distanceOf (ts : List Triple) (a b : ℕ) : ℕ := if a=b then 10 else (given ts a b).getD 20

/-- The matrix holds what the triples give, and zero for what they do not. -/
structure MatrixOf (domains : List ℕ) (ts : List Triple) (m : Bytes) : Prop where
  /-- The matrix is square. -/
  length : m.length=domains.length*domains.length
  /-- The cell of two domains. -/
  cells : ∀ i j a b, domains[i]?=some a → domains[j]?=some b →
    m[i*domains.length+j]?=some (UInt8.ofNat (if a=b then 10 else (given ts a b).getD 0))

/-- The distance of a pair does not depend on the order. -/
theorem given_comm (ts : List Triple) (a b : ℕ) : given ts a b=given ts b a := by
  rw [given,given,Sym2.eq_swap]

/-- A pair is given what a triple says of it. -/
theorem given_mem {domains : List ℕ} {ts : List Triple} (h : Consistent domains ts) {a b d : ℕ}
    (hmem : ⟨a,b,d⟩∈ts ∨ ⟨b,a,d⟩∈ts) : given ts a b=some d := by
  rcases hmem with hmem | hmem
  · exact h.agree.lookup (List.mem_map_of_mem (f := Triple.entry) hmem)
  · rw [given_comm]
    exact h.agree.lookup (List.mem_map_of_mem (f := Triple.entry) hmem)

/-- What a pair is given is said by a triple. -/
theorem mem_of_given {ts : List Triple} {a b d : ℕ} (h : given ts a b=some d) :
    ⟨a,b,d⟩∈ts ∨ ⟨b,a,d⟩∈ts := by
  obtain ⟨t,ht,hentry⟩ := List.mem_map.mp (mem_of_lookup h)
  obtain ⟨hpair,hdistance⟩ := Prod.mk.inj hentry
  obtain ⟨origin,dest,distance⟩ := t
  rcases Sym2.rel_iff.mp (Sym2.exact hpair) with ⟨ha,hb⟩ | ⟨ha,hb⟩
  · left
    rw [←show origin=a from ha,←show dest=b from hb,←show distance=d from hdistance]
    exact ht
  · right
    rw [←show origin=b from ha,←show dest=a from hb,←show distance=d from hdistance]
    exact ht

/-- The distance that is given for two different domains is that of a matrix. -/
theorem given_bounds {domains : List ℕ} {ts : List Triple} (h : Consistent domains ts) {a b d : ℕ}
    (hab : a≠b) (hd : given ts a b=some d) : 10≤d ∧ d≤255 := by
  rcases mem_of_given hd with hmem | hmem
  · exact ⟨(h.sound _ hmem).far hab,(h.sound _ hmem).byte⟩
  · exact ⟨(h.sound _ hmem).far (Ne.symm hab),(h.sound _ hmem).byte⟩

/-- One more triple. -/
theorem given_concat (ts : List Triple) (t : Triple) (a b : ℕ) : given (ts++[t]) a b=
    (given ts a b).or (if s(a,b)=s(t.origin,t.dest) then some t.distance else none) := by
  rw [given,List.map_append,List.map_cons,List.map_nil,Triple.entry,lookup_concat]
  rfl

/-- One more triple is consistent with the others when it is sound and says what they say. -/
theorem consistent_concat {domains : List ℕ} {ts : List Triple} {t : Triple} :
    Consistent domains (ts++[t]) ↔ Consistent domains ts ∧ t.Sound domains ∧
      ∀ w, given ts t.origin t.dest=some w → w=t.distance := by
  have hagree : Agree ((ts++[t]).map Triple.entry) ↔ Agree (ts.map Triple.entry) ∧
      ∀ w, given ts t.origin t.dest=some w → w=t.distance := by
    rw [List.map_append]
    exact agree_concat
  constructor
  · intro h
    obtain ⟨hold,hlast⟩ := hagree.mp h.agree
    obtain ⟨hsound,hnew⟩ := List.forall_mem_append.mp h.sound
    exact ⟨⟨hsound,hold⟩,hnew t List.mem_cons_self,hlast⟩
  · rintro ⟨hts,ht,hlast⟩
    refine ⟨List.forall_mem_append.mpr ⟨hts.sound,?_⟩,hagree.mpr ⟨hts.agree,hlast⟩⟩
    intro u hu
    rw [List.mem_singleton.mp hu]
    exact ht

/-- A number that fits a byte is told from others by its byte. -/
theorem ofNat_eq_iff {v w : ℕ} (hv : v≤255) (hw : w≤255) : UInt8.ofNat v=UInt8.ofNat w ↔ v=w := by
  refine ⟨fun h => ?_,fun h => congrArg _ h⟩
  have hbytes := congrArg UInt8.toNat h
  rw [UInt8.toNat_ofNat',UInt8.toNat_ofNat'] at hbytes
  omega

/-- The cell of a pair is written with another distance exactly when another one is given. -/
theorem clash_iff {o : Option ℕ} {d : ℕ} (ho : ∀ w, o=some w → 10≤w ∧ w≤255) (hd : d≤255) :
    (UInt8.ofNat (o.getD 0)≠0 ∧ UInt8.ofNat (o.getD 0)≠UInt8.ofNat d) ↔ ¬∀ w, o=some w → w=d := by
  cases o with
  | none => simp
  | some w =>
    obtain ⟨hlow,hhigh⟩ := ho w rfl
    have hzero : UInt8.ofNat w≠0 := fun h => by
      have hw := (ofNat_eq_iff hhigh (Nat.zero_le 255)).mp h
      omega
    have hother : UInt8.ofNat w≠UInt8.ofNat d ↔ w≠d := (ofNat_eq_iff hhigh hd).not
    simp only [Option.getD_some,Option.some.injEq,forall_eq']
    rw [and_iff_right hzero,hother]

/-- A cell has one place. -/
theorem cell_inj {n i j k l : ℕ} (hj : j<n) (hl : l<n) : i*n+j=k*n+l ↔ i=k ∧ j=l := by
  constructor
  · intro h
    have hmod := congrArg (· % n) h
    simp only [Nat.mul_add_mod_self_right,Nat.mod_eq_of_lt hj,Nat.mod_eq_of_lt hl] at hmod
    refine ⟨Nat.eq_of_mul_eq_mul_right (by omega) (?_ : i*n=k*n),hmod⟩
    omega
  · rintro ⟨rfl,rfl⟩
    rfl

/-- Where a domain is found, it stands. -/
theorem getElem_of_indexOf {domains : Domains} {pd i : ℕ} (h : indexOf domains pd=some i) :
    domains.toList[i]?=some pd := by
  obtain ⟨k,hk,hnarrow⟩ := Option.bind_eq_some_iff.mp h
  obtain ⟨rfl,-⟩ := narrow_eq_some.mp hnarrow
  obtain ⟨hlt,hat,-⟩ := List.findIdx?_eq_some_iff_getElem.mp hk
  rw [List.getElem?_eq_getElem hlt]
  exact congrArg some (of_decide_eq_true hat)

/-- A domain that is there is found. -/
theorem exists_indexOf {domains : Domains} {pd : ℕ} (h : pd∈domains.toList) :
    ∃ i, indexOf domains pd=some i := by
  have hcap : domains.toList.length ≤ 255 := domains.bound
  cases hfound : domains.toList.findIdx? (fun x => decide (x=pd)) with
  | none =>
    have hno := List.findIdx?_eq_none_iff.mp hfound pd h
    simp at hno
  | some i =>
    obtain ⟨hlt,-,-⟩ := List.findIdx?_eq_some_iff_getElem.mp hfound
    exact ⟨i,by rw [indexOf,hfound,Option.bind_some,narrow,if_pos (by omega)]⟩

/-- Domains that are listed once stand at one place. -/
theorem index_inj {l : List ℕ} (hl : l.Nodup) {i j : ℕ} {a : ℕ} (hi : l[i]?=some a)
    (hj : l[j]?=some a) : i=j := by
  obtain ⟨hilt,hia⟩ := List.getElem?_eq_some_iff.mp hi
  obtain ⟨hjlt,hja⟩ := List.getElem?_eq_some_iff.mp hj
  exact (hl.getElem_inj_iff).mp (hia.trans hja.symm)

/-- The cell of a pair before it is entered. -/
theorem MatrixOf.getD {domains : List ℕ} {ts : List Triple} {m : Bytes} (h : MatrixOf domains ts m)
    {i j a b : ℕ} (hi : domains[i]?=some a) (hj : domains[j]?=some b) (hab : a≠b) :
    m.getD (i*domains.length+j) 0=UInt8.ofNat ((given ts a b).getD 0) := by
  rw [List.getD_eq_getElem?_getD,h.cells i j a b hi hj,if_neg hab,Option.getD_some]

/-- A distance that is entered on both sides of the diagonal. -/
theorem MatrixOf.enter {domains : List ℕ} {ts : List Triple} {m : Bytes}
    (hnodup : domains.Nodup) (h : MatrixOf domains ts m) {t : Triple} {i j : ℕ}
    (hi : domains[i]?=some t.origin) (hj : domains[j]?=some t.dest) (hne : t.origin≠t.dest)
    (hsame : ∀ w, given ts t.origin t.dest=some w → w=t.distance) :
    MatrixOf domains (ts++[t]) ((m.set (i*domains.length+j) (UInt8.ofNat t.distance)).set
      (j*domains.length+i) (UInt8.ofNat t.distance)) := by
  have hilt : i<domains.length := (List.getElem?_eq_some_iff.mp hi).1
  have hjlt : j<domains.length := (List.getElem?_eq_some_iff.mp hj).1
  constructor
  case length => rw [List.length_set,List.length_set,h.length]
  case cells =>
    intro k l a b hk hl
    have hklt : k<domains.length := (List.getElem?_eq_some_iff.mp hk).1
    have hllt : l<domains.length := (List.getElem?_eq_some_iff.mp hl).1
    have hold := h.cells k l a b hk hl
    have hin : k*domains.length+l< m.length := (List.getElem?_eq_some_iff.mp hold).1
    rw [given_concat]
    by_cases hpair : s(a,b)=s(t.origin,t.dest)
    · -- the pair of the triple, in either order
      have hgiven : given ts a b=given ts t.origin t.dest := by rw [given,hpair,given]
      have hab : a≠b := by
        rcases Sym2.rel_iff.mp (Sym2.exact hpair) with ⟨rfl,rfl⟩ | ⟨rfl,rfl⟩
        · exact hne
        · exact Ne.symm hne
      have hvalue : ((given ts a b).or (some t.distance)).getD 0=t.distance := by
        cases hw : given ts a b with
        | none => rfl
        | some w => exact hsame w (hgiven ▸ hw)
      rw [if_neg hab,if_pos hpair,hvalue]
      rcases Sym2.rel_iff.mp (Sym2.exact hpair) with ⟨rfl,rfl⟩ | ⟨rfl,rfl⟩
      · rw [index_inj hnodup hk hi,index_inj hnodup hl hj] at hin ⊢
        by_cases hcell : j*domains.length+i=i*domains.length+j
        · rw [hcell,List.getElem?_set_self (by rw [List.length_set]; exact hin)]
        · rw [List.getElem?_set_ne hcell,List.getElem?_set_self hin]
      · rw [index_inj hnodup hk hj,index_inj hnodup hl hi] at hin ⊢
        rw [List.getElem?_set_self (by rw [List.length_set]; exact hin)]
    · -- another pair
      have hcell : ∀ {p q c d : ℕ}, domains[p]?=some c → domains[q]?=some d → q<domains.length →
          s(a,b)≠s(c,d) → p*domains.length+q≠k*domains.length+l := by
        intro p q c d hp hq hqlt hother heq
        obtain ⟨rfl,rfl⟩ := (cell_inj hqlt hllt).mp heq
        rw [hp] at hk
        rw [hq] at hl
        cases hk
        cases hl
        exact hother rfl
      rw [if_neg hpair,Option.or_none,
        List.getElem?_set_ne (hcell hj hi hilt fun heq => hpair (heq.trans Sym2.eq_swap)),
        List.getElem?_set_ne (hcell hi hj hjlt hpair)]
      exact hold

/-- A distance of a domain to itself changes nothing. -/
theorem MatrixOf.same {domains : List ℕ} {ts : List Triple} {m : Bytes} (h : MatrixOf domains ts m)
    {t : Triple} (heq : t.origin=t.dest) : MatrixOf domains (ts++[t]) m := by
  constructor
  case length => exact h.length
  case cells =>
    intro k l a b hk hl
    rw [h.cells k l a b hk hl]
    by_cases hab : a=b
    · rw [if_pos hab,if_pos hab]
    · have hpair : s(a,b)≠s(t.origin,t.dest) := by
        intro hpair
        rw [heq] at hpair
        rcases Sym2.rel_iff.mp (Sym2.exact hpair) with ⟨rfl,rfl⟩ | ⟨rfl,rfl⟩
        · exact hab rfl
        · exact hab rfl
      rw [if_neg hab,if_neg hab,given_concat,if_neg hpair,Option.or_none]

/-- A triple that is entered has known domains and a distance of a byte. -/
theorem applyTriple_known {domains : Domains} {m m' : Bytes} {t : Triple}
    (h : applyTriple domains m t.origin t.dest t.distance=.ok m') :
    t.origin∈domains.toList ∧ t.dest∈domains.toList ∧ t.distance≤255 := by
  obtain ⟨i,hi,h⟩ := bind_ok.mp h
  obtain ⟨j,hj,h⟩ := bind_ok.mp h
  obtain ⟨d,hd,h⟩ := bind_ok.mp h
  obtain ⟨-,hlt⟩ := narrow_eq_some.mp (okOr_ok.mp hd)
  exact ⟨List.mem_of_getElem? (getElem_of_indexOf (okOr_ok.mp hi)),
    List.mem_of_getElem? (getElem_of_indexOf (okOr_ok.mp hj)),by omega⟩

/-- How a triple with known domains is entered. -/
theorem applyTriple_eq {domains : Domains} {t : Triple} {i j : ℕ}
    (hi : indexOf domains t.origin=some i) (hj : indexOf domains t.dest=some j)
    (hbyte : t.distance≤255) (m : Bytes) : applyTriple domains m t.origin t.dest t.distance=
      if i=j then if t.distance≠10 then fail malformedMatrix else .ok m
      else if t.distance<10 then fail malformedMatrix
      else if (m.getD (i*domains.toList.length+j) 0≠0 ∧
          m.getD (i*domains.toList.length+j) 0≠UInt8.ofNat t.distance) ∨
          (m.getD (j*domains.toList.length+i) 0≠0 ∧
          m.getD (j*domains.toList.length+i) 0≠UInt8.ofNat t.distance) then fail malformedMatrix
      else .ok ((m.set (i*domains.toList.length+j) (UInt8.ofNat t.distance)).set
        (j*domains.toList.length+i) (UInt8.ofNat t.distance)) := by
  have hnarrow : narrow 8 t.distance=some t.distance := if_pos (by omega)
  rw [applyTriple,hi,hj,hnarrow]
  rfl

/-- A triple is entered exactly when it is consistent with those before, and the matrix then
holds it as well. -/
theorem applyTriple_ok {domains : Domains} {ts : List Triple} {m : Bytes}
    (hnodup : domains.toList.Nodup) (hts : Consistent domains.toList ts)
    (hm : MatrixOf domains.toList ts m) (t : Triple) :
    (∀ m', applyTriple domains m t.origin t.dest t.distance=.ok m' →
      Consistent domains.toList (ts++[t]) ∧ MatrixOf domains.toList (ts++[t]) m') ∧
    (Consistent domains.toList (ts++[t]) →
      ∃ m', applyTriple domains m t.origin t.dest t.distance=.ok m') := by
  rw [consistent_concat,and_iff_right hts]
  by_cases hknown : t.origin∈domains.toList ∧ t.dest∈domains.toList ∧ t.distance≤255
  case neg =>
    exact ⟨fun m' h => absurd (applyTriple_known h) hknown,
      fun h => absurd ⟨h.1.origin,h.1.dest,h.1.byte⟩ hknown⟩
  obtain ⟨horigin,hdest,hbyte⟩ := hknown
  obtain ⟨i,hi⟩ := exists_indexOf horigin
  obtain ⟨j,hj⟩ := exists_indexOf hdest
  have hati := getElem_of_indexOf hi
  have hatj := getElem_of_indexOf hj
  have hsame : i=j ↔ t.origin=t.dest := by
    refine ⟨fun h => ?_,fun h => index_inj hnodup hati (by rw [h]; exact hatj)⟩
    rw [h] at hati
    exact Option.some.inj (hati.symm.trans hatj)
  rw [applyTriple_eq hi hj hbyte m]
  by_cases heq : t.origin=t.dest
  · -- on the diagonal
    rw [if_pos (hsame.mpr heq)]
    have hgiven : ∀ w, t.distance=10 → given ts t.origin t.dest=some w → w=t.distance := by
      intro w hten hw
      rcases mem_of_given hw with hmem | hmem
      · exact ((hts.sound _ hmem).near heq).trans hten.symm
      · exact ((hts.sound _ hmem).near heq.symm).trans hten.symm
    constructor
    · intro m' h
      split at h
      · exact absurd h fail_ne_ok
      · rename_i hten
        rw [not_not] at hten
        cases h
        exact ⟨⟨⟨horigin,hdest,hbyte,fun hne => absurd heq hne,fun _ => hten⟩,
          fun w => hgiven w hten⟩,hm.same heq⟩
    · rintro ⟨hsound,-⟩
      exact ⟨m,if_neg (not_not.mpr (hsound.near heq))⟩
  · -- off the diagonal, where the two cells hold what the pair is given
    have hclash := (or_self_iff).trans
      (clash_iff (o := given ts t.origin t.dest) (fun w hw => given_bounds hts heq hw) hbyte)
    rw [if_neg (fun h => heq (hsame.mp h)),hm.getD hati hatj heq,hm.getD hatj hati (Ne.symm heq),
      given_comm ts t.dest t.origin]
    constructor
    · intro m' h
      split at h
      · exact absurd h fail_ne_ok
      · rename_i hfar
        split at h
        · exact absurd h fail_ne_ok
        · rename_i hclear
          have hagree := not_not.mp fun h => hclear (hclash.mpr h)
          cases h
          exact ⟨⟨⟨horigin,hdest,hbyte,fun _ => by omega,fun h => absurd h heq⟩,hagree⟩,
            hm.enter hnodup hati hatj heq hagree⟩
    · rintro ⟨hsound,hagree⟩
      have hfar := hsound.far heq
      exact ⟨_,by rw [if_neg (by omega),if_neg (fun h => hclash.mp h hagree)]⟩

/-- A whole number of triples is entered exactly when they are consistent with those before,
and the matrix then holds them as well. -/
theorem applyCells_ok {domains : Domains} (hnodup : domains.toList.Nodup) {cells : List ℕ}
    {m : Bytes} {ts : List Triple} (hts : Consistent domains.toList ts)
    (hm : MatrixOf domains.toList ts m) (hwhole : cells.length%3=0) :
    (∀ m', applyCells domains cells m=.ok m' → Consistent domains.toList (ts++triplesOf cells) ∧
      MatrixOf domains.toList (ts++triplesOf cells) m') ∧
    (Consistent domains.toList (ts++triplesOf cells) → ∃ m', applyCells domains cells m=.ok m') := by
  induction cells,m using applyCells.induct generalizing ts with
  | case1 m =>
    rw [triplesOf,List.append_nil]
    · refine ⟨fun m' h => ?_,fun _ => ⟨m,rfl⟩⟩
      cases h
      exact ⟨hts,hm⟩
    · intro a b v rest h
      cases h
  | case2 a b v rest m ih =>
    obtain ⟨hstep,hready⟩ := applyTriple_ok hnodup hts hm ⟨a,b,v⟩
    have hrest : rest.length%3=0 := by
      rw [List.length_cons,List.length_cons,List.length_cons] at hwhole
      omega
    have hsplit : ts++triplesOf (a::b::v::rest)=(ts++[⟨a,b,v⟩])++triplesOf rest := by
      rw [List.append_assoc]
      rfl
    rw [hsplit,applyCells]
    constructor
    · intro m' h
      obtain ⟨m1,hm1,h⟩ := bind_ok.mp h
      obtain ⟨hts1,hm1⟩ := hstep m1 hm1
      exact (ih m1 hts1 hm1 hrest).1 m' h
    · intro h
      have hfirst : Consistent domains.toList (ts++[⟨a,b,v⟩]) := by
        refine ⟨fun t ht => h.sound t (List.mem_append_left _ ht),h.agree.of_subset fun p hp => ?_⟩
        rw [List.map_append]
        exact List.mem_append_left _ hp
      obtain ⟨m1,hm1⟩ := hready hfirst
      obtain ⟨hts1,hmatrix⟩ := hstep m1 hm1
      obtain ⟨m',hm'⟩ := (ih m1 hts1 hmatrix hrest).2 h
      exact ⟨m',bind_ok.mpr ⟨m1,hm1,hm'⟩⟩
  | case3 cells m hnil hcons =>
    exfalso
    cases cells with
    | nil => exact hnil rfl
    | cons a cells =>
      cases cells with
      | nil => exact absurd hwhole (Nat.succ_ne_zero 0)
      | cons b cells =>
        cases cells with
        | nil => exact absurd hwhole (Nat.succ_ne_zero 1)
        | cons v rest => exact hcons a b v rest rfl

/-- Setting the diagonal. -/
theorem getElem_diagonal (n : ℕ) (l : List ℕ) (m : Bytes) (k : ℕ) (hk : k < m.length) :
    (l.foldl (fun m i => m.set (i*n+i) 10) m)[k]?=
      if ∃ i∈l, i*n+i=k then some 10 else m[k]? := by
  induction l generalizing m with
  | nil => simp
  | cons i l ih =>
    rw [List.foldl_cons,ih (m.set (i*n+i) 10) (by rw [List.length_set]; exact hk)]
    by_cases hrest : ∃ j∈l, j*n+j=k
    · obtain ⟨j,hj,hjk⟩ := hrest
      rw [if_pos ⟨j,hj,hjk⟩,if_pos ⟨j,List.mem_cons_of_mem _ hj,hjk⟩]
    · rw [if_neg hrest]
      by_cases hfirst : i*n+i=k
      · rw [if_pos ⟨i,List.mem_cons_self,hfirst⟩,hfirst,List.getElem?_set_self hk]
      · rw [List.getElem?_set_ne hfirst,if_neg]
        rintro ⟨j,hj,hjk⟩
        rcases List.mem_cons.mp hj with rfl | hj
        · exact hfirst hjk
        · exact hrest ⟨j,hj,hjk⟩

/-- Before any triple the matrix holds what none of them gives. -/
theorem matrixOf_initial {domains : List ℕ} (hnodup : domains.Nodup) :
    MatrixOf domains [] (initialMatrix domains.length) := by
  constructor
  case length => exact length_initialMatrix _
  case cells =>
    intro i j a b hi hj
    have hilt : i<domains.length := (List.getElem?_eq_some_iff.mp hi).1
    have hjlt : j<domains.length := (List.getElem?_eq_some_iff.mp hj).1
    have hin : i*domains.length+j<domains.length*domains.length := by
      have hrows := Nat.mul_le_mul_right domains.length (Nat.succ_le_of_lt hilt)
      rw [Nat.succ_mul] at hrows
      omega
    have hdiagonal : (∃ k∈List.range domains.length,
        k*domains.length+k=i*domains.length+j) ↔ a=b := by
      constructor
      · rintro ⟨k,hk,hkij⟩
        obtain ⟨rfl,rfl⟩ := (cell_inj (List.mem_range.mp hk) hjlt).mp hkij
        exact Option.some.inj (hi.symm.trans hj)
      · rintro rfl
        obtain rfl := index_inj hnodup hi hj
        exact ⟨i,List.mem_range.mpr hilt,rfl⟩
    rw [initialMatrix,getElem_diagonal _ _ _ _ (by rw [length_zeros]; exact hin)]
    by_cases hab : a=b
    · rw [if_pos (hdiagonal.mpr hab),if_pos hab]
      rfl
    · rw [if_neg (fun h => hab (hdiagonal.mp h)),if_neg hab,zeros,List.getElem?_replicate,
        if_pos hin]
      rfl

/-- What a complete matrix says. -/
structure Distances (domains : List ℕ) (ts : List Triple) (m : Bytes) : Prop where
  /-- The matrix is square. -/
  length : m.length=domains.length*domains.length
  /-- The cell of two domains is their distance. -/
  cells : ∀ i j a b, domains[i]?=some a → domains[j]?=some b →
    m[i*domains.length+j]?=some (UInt8.ofNat (distanceOf ts a b))

/-- Nothing is consistent. -/
theorem consistent_nil (domains : List ℕ) : Consistent domains [] :=
  ⟨fun _ h => absurd h List.not_mem_nil,fun _ h => absurd h List.not_mem_nil⟩

/-- Pairs without a distance get the default. -/
theorem MatrixOf.complete {domains : List ℕ} {ts : List Triple} {m : Bytes}
    (hts : Consistent domains ts) (h : MatrixOf domains ts m) :
    Distances domains ts (m.map fun b => if b=0 then 20 else b) := by
  constructor
  case length => rw [List.length_map,h.length]
  case cells =>
    intro i j a b hi hj
    rw [List.getElem?_map,h.cells i j a b hi hj,Option.map_some,distanceOf]
    by_cases hab : a=b
    · rw [if_pos hab,if_pos hab]
      rfl
    · rw [if_neg hab,if_neg hab]
      cases hgiven : given ts a b with
      | none => rfl
      | some w =>
        obtain ⟨hlow,hhigh⟩ := given_bounds hts hab hgiven
        have hzero : UInt8.ofNat w≠0 := fun heq => by
          have hw := (ofNat_eq_iff hhigh (Nat.zero_le 255)).mp heq
          omega
        rw [Option.getD_some,Option.getD_some,if_neg hzero]

/-- A `distance-matrix` is entered exactly when it is acceptable, and the matrix then says what
its triples give. -/
theorem distances_ok {domains : Domains} (hnodup : domains.toList.Nodup) (raw : Bytes) :
    (∀ m, distances domains raw (initialMatrix domains.toList.length)=.ok m →
      Acceptable domains.toList raw ∧ Distances domains.toList (triples raw) m) ∧
    (Acceptable domains.toList raw →
      ∃ m, distances domains raw (initialMatrix domains.toList.length)=.ok m) := by
  unfold distances
  by_cases hbad : raw=[] ∨ raw.length%12≠0
  · rw [if_pos hbad]
    refine ⟨fun m h => absurd h fail_ne_ok,fun h => ?_⟩
    rcases hbad with hempty | hcut
    · exact absurd hempty h.nonempty
    · exact absurd h.whole hcut
  · rw [if_neg hbad]
    rw [not_or,not_not] at hbad
    obtain ⟨hnonempty,hwhole⟩ := hbad
    have hcells : (cellsAsU32s raw).length%3=0 := by
      rw [cellsAsU32s,length_decodeRecords]
      omega
    obtain ⟨hsound,hready⟩ := applyCells_ok hnodup (consistent_nil _) (matrixOf_initial hnodup)
      hcells
    rw [List.nil_append] at hready
    constructor
    · intro m h
      obtain ⟨m1,hm1,h⟩ := bind_ok.mp h
      obtain ⟨hts,hm1⟩ := hsound m1 hm1
      cases h
      exact ⟨⟨hnonempty,hwhole,hts⟩,hm1.complete hts⟩
    · intro h
      obtain ⟨m1,hm1⟩ := hready h.consistent
      exact ⟨_,bind_ok.mpr ⟨m1,hm1,rfl⟩⟩

/-- Two matrices of one kind are the same. -/
theorem Distances.unique {domains : List ℕ} {ts us : List Triple} {m m' : Bytes}
    (h : Distances domains ts m) (h' : Distances domains us m')
    (hsame : ∀ a b, distanceOf ts a b=distanceOf us a b) : m=m' := by
  refine List.ext_getElem? fun k => ?_
  by_cases hk : k<domains.length*domains.length
  · have hpos : 0<domains.length := Nat.pos_of_ne_zero fun hzero => by
      rw [hzero] at hk
      omega
    have hrow : k/domains.length<domains.length := (Nat.div_lt_iff_lt_mul hpos).mpr hk
    have hcolumn := Nat.mod_lt k hpos
    have hplace : k/domains.length*domains.length+k%domains.length=k := by
      rw [Nat.mul_comm]
      exact Nat.div_add_mod k _
    have hcell := h.cells _ _ _ _ (List.getElem?_eq_getElem hrow) (List.getElem?_eq_getElem hcolumn)
    have hcell' := h'.cells _ _ _ _ (List.getElem?_eq_getElem hrow)
      (List.getElem?_eq_getElem hcolumn)
    rw [hplace] at hcell hcell'
    rw [hcell,hcell',hsame]
  · rw [List.getElem?_eq_none (by rw [h.length]; omega),
      List.getElem?_eq_none (by rw [h'.length]; omega)]

/-- The cell of a table that has `n` rows. -/
def cellAt (table : Bytes) (n i j : ℕ) : Option ℕ :=
  ((table.drop slitHeaderSize)[i*n+j]?).map UInt8.toNat

/-- A table of distances is that of the triples over the domains. -/
structure SlitExact (domains : List ℕ) (ts : List Triple) (table : Bytes) : Prop where
  /-- The number of domains stands behind the common header. -/
  count : ofLE (slice 36 8 table)=domains.length
  /-- The rest of the table is a square. -/
  length : table.length=slitHeaderSize+domains.length*domains.length
  /-- The cell of two domains is their distance. -/
  cells : ∀ i j a b, domains[i]?=some a → domains[j]?=some b →
    cellAt table domains.length i j=some (distanceOf ts a b)
  /-- The matrix is symmetric. -/
  symmetric : ∀ i<domains.length, ∀ j<domains.length,
    cellAt table domains.length i j=cellAt table domains.length j i
  /-- Every domain is ten apart from itself. -/
  diagonal : ∀ i<domains.length, cellAt table domains.length i i=some 10
  /-- Different domains are at least ten apart. -/
  far : ∀ i<domains.length, ∀ j<domains.length, i≠j →
    ∃ d, cellAt table domains.length i j=some d ∧ 10≤d
  /-- The distance of a pair is the one that a triple gives for it, in either order. -/
  given : ∀ a b d, (⟨a,b,d⟩∈ts ∨ ⟨b,a,d⟩∈ts) → distanceOf ts a b=d
  /-- It is the default if there is no such triple. -/
  default : ∀ a b, a≠b → (∀ d, ⟨a,b,d⟩∉ts ∧ ⟨b,a,d⟩∉ts) → distanceOf ts a b=20

/-- The distance of a pair does not depend on the order. -/
theorem distanceOf_comm (ts : List Triple) (a b : ℕ) : distanceOf ts a b=distanceOf ts b a := by
  rw [distanceOf,distanceOf,given_comm ts b a]
  simp only [eq_comm]

/-- Distances are bytes, and at least ten. -/
theorem distanceOf_bounds {domains : List ℕ} {ts : List Triple} (h : Consistent domains ts)
    (a b : ℕ) : 10≤distanceOf ts a b ∧ distanceOf ts a b≤255 := by
  unfold distanceOf
  by_cases hab : a=b
  · rw [if_pos hab]
    decide
  · rw [if_neg hab]
    cases hgiven : Slit.given ts a b with
    | none => decide
    | some d => exact given_bounds h hab hgiven

/-- The table of a header and a matrix. -/
theorem slitExact_sealed {domains : List ℕ} {ts : List Triple} {m : Bytes}
    (hcap : domains.length≤255) (hts : Consistent domains ts)
    (hm : Distances domains ts m) (oem : OemIdentity) (len : ℕ) :
    SlitExact domains ts (sealed 9 (slitHeader oem domains.length len++m)) := by
  have hheader : (slitHeader oem domains.length len).length=slitHeaderSize := by
    rw [slitHeader,List.length_append,SdtHeader.length_asBytes,length_leBytes]
    rfl
  have hdrop : (sealed 9 (slitHeader oem domains.length len++m)).drop slitHeaderSize=m := by
    rw [drop_sealed (by decide),List.drop_left' hheader]
  have hcells : ∀ i j a b, domains[i]?=some a → domains[j]?=some b →
      cellAt (sealed 9 (slitHeader oem domains.length len++m)) domains.length i j=
        some (distanceOf ts a b) := by
    intro i j a b hi hj
    have hbyte := (distanceOf_bounds hts a b).2
    rw [cellAt,hdrop,hm.cells i j a b hi hj,Option.map_some,UInt8.toNat_ofNat',
      Nat.mod_eq_of_lt (by omega)]
  have hat : ∀ i<domains.length, ∃ a, domains[i]?=some a := fun i hi =>
    ⟨_,List.getElem?_eq_getElem hi⟩
  constructor
  case count =>
    have hslice : slice 36 8 (slitHeader oem domains.length len++m)=leBytes 8 domains.length := by
      rw [slitHeader]
      exact slice_append (SdtHeader.length_asBytes _) (length_leBytes 8 _)
    rw [slice_sealed (.inl (by decide)),hslice,ofLE_leBytes]
    exact Nat.mod_eq_of_lt (by omega)
  case length => rw [length_sealed,List.length_append,hheader,hm.length]
  case cells => exact hcells
  case symmetric =>
    intro i hi j hj
    obtain ⟨a,ha⟩ := hat i hi
    obtain ⟨b,hb⟩ := hat j hj
    rw [hcells i j a b ha hb,hcells j i b a hb ha,distanceOf_comm]
  case diagonal =>
    intro i hi
    obtain ⟨a,ha⟩ := hat i hi
    rw [hcells i i a a ha ha,distanceOf,if_pos rfl]
  case far =>
    intro i hi j hj _
    obtain ⟨a,ha⟩ := hat i hi
    obtain ⟨b,hb⟩ := hat j hj
    exact ⟨_,hcells i j a b ha hb,(distanceOf_bounds hts a b).1⟩
  case given =>
    intro a b d hmem
    unfold distanceOf
    by_cases hab : a=b
    · rw [if_pos hab]
      rcases hmem with hmem | hmem
      · exact ((hts.sound _ hmem).near hab).symm
      · exact ((hts.sound _ hmem).near hab.symm).symm
    · rw [if_neg hab,given_mem hts hmem,Option.getD_some]
  case default =>
    intro a b hab hno
    have hnone : Slit.given ts a b=none := by
      cases hgiven : Slit.given ts a b with
      | none => rfl
      | some d =>
        rcases mem_of_given hgiven with hmem | hmem
        · exact absurd hmem (hno d).1
        · exact absurd hmem (hno d).2
    rw [distanceOf,if_neg hab,hnone,Option.getD_none]

/-- The triples of the second matrix are those of the first, in any order and any number. -/
structure Reordered (raw other : Bytes) : Prop where
  /-- The first is a whole number of triples. -/
  whole : raw.length%12=0
  /-- So is the second. -/
  otherWhole : other.length%12=0
  /-- They have the same triples. -/
  same : ∀ t, t∈triples raw ↔ t∈triples other

/-- A whole number of triples, but not none. -/
theorem triples_ne_nil {raw : Bytes} (hwhole : raw.length%12=0) :
    raw≠[] ↔ ∃ t, t∈triples raw := by
  have hlength : (cellsAsU32s raw).length=raw.length/4 := length_decodeRecords _ _ _ _
  constructor
  · intro h
    have hpos := List.length_pos_iff.mpr h
    have hthree : 3≤(cellsAsU32s raw).length := by
      rw [hlength]
      omega
    rw [triples]
    cases hcells : cellsAsU32s raw with
    | nil =>
      rw [hcells] at hthree
      exact absurd hthree (by decide)
    | cons a cells =>
      cases cells with
      | nil =>
        rw [hcells] at hthree
        exact absurd hthree (Nat.not_succ_le_self 1 ∘ Nat.le_of_succ_le)
      | cons b cells =>
        cases cells with
        | nil =>
          rw [hcells] at hthree
          exact absurd hthree (Nat.not_succ_le_self 2)
        | cons v rest => exact ⟨⟨a,b,v⟩,List.mem_cons_self⟩
  · rintro ⟨t,ht⟩ rfl
    exact absurd ht List.not_mem_nil

/-- Such a matrix is acceptable when the first is. -/
theorem Reordered.acceptable {raw other : Bytes} (h : Reordered raw other) {domains : List ℕ}
    (hraw : Acceptable domains raw) : Acceptable domains other := by
  obtain ⟨t,ht⟩ := (triples_ne_nil h.whole).mp hraw.nonempty
  refine ⟨(triples_ne_nil h.otherWhole).mpr ⟨t,(h.same t).mp ht⟩,h.otherWhole,⟨fun u hu => ?_,?_⟩⟩
  · exact hraw.consistent.sound u ((h.same u).mpr hu)
  · refine hraw.consistent.agree.of_subset fun p hp => ?_
    obtain ⟨u,hu,rfl⟩ := List.mem_map.mp hp
    exact List.mem_map_of_mem ((h.same u).mpr hu)

/-- The triples gave the first matrix. -/
theorem Reordered.symm {raw other : Bytes} (h : Reordered raw other) : Reordered other raw :=
  ⟨h.otherWhole,h.whole,fun t => (h.same t).symm⟩

/-- They give the same distances when they agree. -/
theorem Reordered.distanceOf {raw other : Bytes} (h : Reordered raw other) {domains : List ℕ}
    (hraw : Acceptable domains raw) (a b : ℕ) :
    distanceOf (triples raw) a b=distanceOf (triples other) a b := by
  have hentries : ∀ p, p∈(triples raw).map Triple.entry ↔ p∈(triples other).map Triple.entry := by
    intro p
    simp only [List.mem_map,h.same]
  have hgiven : Slit.given (triples other) a b=Slit.given (triples raw) a b :=
    hraw.consistent.agree.lookup_congr hentries _
  rw [Slit.distanceOf,Slit.distanceOf,hgiven]

section Exact

variable [DevtreeLib]

/-- Emission of the table of distances, for a tree that counting accepts with two domains and
a distance map. -/
structure SlitEmitted (root : Node) (l : Layouted) (s : Slot) (raw : Bytes) : Prop where
  /-- The domains stand in the order in which cpus and then memory nodes name them first. -/
  domains : l.domains.toList=((cpusOf root).filterMap domainOf++
    (memoriesOf root).filterMap memoryDomain).eraseDups
  /-- The table is written exactly when the matrix is acceptable. -/
  written : ∀ oem slot, slot.length=s.len →
    ((∃ out, slitEmit oem (rootOf root) l.domains slot=.ok out) ↔
      Acceptable l.domains.toList raw)
  /-- It is then the matrix of distances. -/
  exact : ∀ oem slot out, slot.length=s.len → slitEmit oem (rootOf root) l.domains slot=.ok out →
    SlitExact l.domains.toList (triples raw) out
  /-- It does not depend on the order of the triples or their repetition. -/
  reordered : ∀ oem slot (other mapNode : DtbNode) raw', slot.length=s.len →
    other.child "distance-map" .distanceMap=.ok (some mapNode) →
    mapNode.node.property "distance-matrix"=some raw' → Reordered raw raw' →
    value (slitEmit oem other l.domains slot)=value (slitEmit oem (rootOf root) l.domains slot)
  /-- In a buffer that is filled it is in its slot. -/
  populated : ∀ oem baseGpa n buf buf', populate root oem baseGpa buf=.ok (n,buf') →
    Acceptable l.domains.toList raw ∧
      SlitExact l.domains.toList (triples raw) (bytesIn s (buf'.take n))

/-- The table of a matrix, or none when the matrix is not acceptable. -/
theorem slitEmit_distances (oem : OemIdentity) {root mapNode : DtbNode} {domains : Domains}
    {raw : Bytes} (hnodup : domains.toList.Nodup)
    (hmap : root.child "distance-map" .distanceMap=.ok (some mapNode))
    (hraw : mapNode.node.property "distance-matrix"=some raw) {slot : Bytes}
    (hsize : slot.length=slitHeaderSize+domains.toList.length*domains.toList.length) :
    ((∃ out, slitEmit oem root domains slot=.ok out) ↔ Acceptable domains.toList raw) ∧
    ∀ out, slitEmit oem root domains slot=.ok out → ∃ m,
      Distances domains.toList (triples raw) m ∧
        out=sealed 9 (slitHeader oem domains.toList.length slot.length++m) := by
  obtain ⟨hsound,hready⟩ := distances_ok hnodup raw
  rw [slitEmit_eq hmap hraw hsize]
  refine ⟨⟨?_,fun h => ?_⟩,fun out h => ?_⟩
  · rintro ⟨out,h⟩
    obtain ⟨m,hm,-⟩ := bind_ok.mp h
    exact (hsound m hm).1
  · obtain ⟨m,hm⟩ := hready h
    exact ⟨_,bind_ok.mpr ⟨m,hm,rfl⟩⟩
  · obtain ⟨m,hm,h⟩ := bind_ok.mp h
    cases h
    exact ⟨m,(hsound m hm).2,rfl⟩

/-- For every tree that counting accepts with two domains and a distance map, the table of
distances is the matrix that the triples give, whatever their order, and it is written exactly
when they are acceptable. -/
theorem run_slit_emitted {root : Node} {l : Layouted} {mapNode : DtbNode} (h : run root=.ok l)
    (hmany : 1<l.domains.toList.length)
    (hmap : (rootOf root).child "distance-map" .distanceMap=.ok (some mapNode)) :
    ∃ s raw, l.offsets.slit=some s ∧ mapNode.node.property "distance-matrix"=some raw ∧
      SlitEmitted root l s raw := by
  obtain ⟨kids,serial,console,hest⟩ := run_ok h
  have hdesc := run_described h
  have hnodup : l.domains.toList.Nodup := by
    rw [hdesc.domains]
    exact nodup_eraseDups _
  have hcap : l.domains.toList.length ≤ 255 := l.domains.bound
  obtain ⟨s,hs⟩ := Option.isSome_iff_exists.mp (hdesc.slit.mpr ⟨hmany,mapNode,hmap⟩)
  obtain ⟨hlen,other,raw,hother,hraw⟩ := hest.slit s hs
  rw [hmap] at hother
  cases hother
  refine ⟨s,raw,hs,hraw,⟨hdesc.domains,?_,?_,?_,?_⟩⟩
  · exact fun oem slot hslot => (slitEmit_distances oem hnodup hmap hraw (hslot.trans hlen)).1
  · intro oem slot out hslot hout
    obtain ⟨hacceptable,hdistances⟩ := slitEmit_distances oem hnodup hmap hraw
      (hslot.trans hlen)
    obtain ⟨m,hm,rfl⟩ := hdistances out hout
    exact slitExact_sealed hcap (hacceptable.mp ⟨_,hout⟩).consistent hm oem _
  · intro oem slot other mapNode' raw' hslot hother hraw' hsame
    have hfirst := slitEmit_distances oem hnodup hmap hraw (hslot.trans hlen)
    have hsecond := slitEmit_distances oem hnodup hother hraw' (hslot.trans hlen)
    cases hout : slitEmit oem (rootOf root) l.domains slot with
    | ok out =>
      have hacceptable := hfirst.1.mp ⟨out,hout⟩
      obtain ⟨out',hout'⟩ := hsecond.1.mpr (hsame.acceptable hacceptable)
      obtain ⟨m,hm,rfl⟩ := hfirst.2 out hout
      obtain ⟨m',hm',rfl⟩ := hsecond.2 out' hout'
      rw [hout',hm.unique hm' (hsame.distanceOf hacceptable)]
    | error f =>
      cases hout' : slitEmit oem other l.domains slot with
      | error g => rfl
      | ok out' =>
        obtain ⟨out,hok⟩ := hfirst.1.mpr (hsame.symm.acceptable (hsecond.1.mp ⟨out',hout'⟩))
        rw [hout] at hok
        cases hok
  · intro oem baseGpa n buf buf' hfilled
    obtain ⟨l',kids',serial',console',hl',-,-,hholds⟩ := populate_holds hfilled
    obtain rfl : l'=l := Except.ok.inj (hl'.symm.trans h)
    have hpart := hholds.slit s hs
    rw [distanceMatrix,hmap] at hpart
    obtain ⟨raw',hraw',hpart⟩ := Option.bind_eq_some_iff.mp hpart
    rw [show mapNode.node.property "distance-matrix"=some raw' from hraw'] at hraw
    cases hraw
    obtain ⟨m,hm,hbytes⟩ := Option.map_eq_some_iff.mp hpart
    obtain ⟨hacceptable,hdistances⟩ := (distances_ok hnodup raw).1 m (value_eq_some.mp hm)
    refine ⟨hacceptable,?_⟩
    rw [←hbytes]
    exact slitExact_sealed hcap hacceptable.consistent hdistances oem _

end Exact

/-- A distance map. -/
def sampleMap : Node :=
  .mk "distance-map" [⟨"compatible",dtString "numa-distance-map-v1"⟩,
    ⟨"distance-matrix",beBytes 4 7++beBytes 4 70000++beBytes 4 30⟩] []

/-- A tree with two domains and a distance map. -/
def distanceTree : Node :=
  sampleTree [.mk "cpus" [⟨"#address-cells",beBytes 4 1⟩,⟨"#size-cells",beBytes 4 0⟩]
      [.mk "cpu@0" [⟨"reg",beBytes 4 0⟩,⟨"numa-node-id",beBytes 4 7⟩] [],
        .mk "cpu@1" [⟨"reg",beBytes 4 1⟩,⟨"numa-node-id",beBytes 4 70000⟩] []],
    .mk "memory@0" [⟨"device_type",dtString "memory"⟩,⟨"reg",dtReg 0 0xa0000⟩,
      ⟨"numa-node-id",beBytes 4 7⟩] [],
    .mk "lapic@fee00000" [⟨"compatible",dtString "intel,ce4100-lapic"⟩,
      ⟨"reg",dtReg 0xfee00000 0x1000⟩] [],
    .mk "poweroff@9000" [⟨"compatible",dtString "syscon-poweroff"⟩,
      ⟨"reg",dtReg 0x9000 0x1000⟩] [],sampleMap]

/-- The distances of that tree are written, with one that is given in one order only. -/
theorem run_slit_emitted_sample : ∃ n buf' l s raw,
    @populate plainLib distanceTree sampleOem 0x1000 (List.replicate 800 7)=.ok (n,buf') ∧
    SlitExact (Layouted.domains l).toList (triples raw) (bytesIn s (buf'.take n)) ∧
    @SlitEmitted plainLib distanceTree l s raw ∧ distanceOf (triples raw) 70000 7=30 := by
  have hsome : (@populate plainLib distanceTree sampleOem 0x1000
      (List.replicate 800 7)).toOption.isSome=true := by decide +kernel
  have hmany : (@run plainLib distanceTree).toOption.any
      (fun l => decide (1<l.domains.toList.length))=true := by decide +kernel
  obtain ⟨out,hfilled⟩ := exists_ok hsome
  obtain ⟨l,hl,htwo⟩ := exists_ok_of_any hmany
  have hmap : @DtbNode.child plainLib (rootOf distanceTree) "distance-map" .distanceMap=
      .ok (some ⟨sampleMap,2,2,.distanceMap⟩) := by rfl
  obtain ⟨s,raw,-,hraw,hemitted⟩ := @run_slit_emitted plainLib _ _ _ hl (of_decide_eq_true htwo) hmap
  obtain ⟨-,hexact⟩ := @SlitEmitted.populated plainLib _ _ _ _ hemitted _ _ _ _ _ hfilled
  have hbytes : raw=beBytes 4 7++beBytes 4 70000++beBytes 4 30 := (Option.some.inj hraw).symm
  refine ⟨out.1,out.2,l,s,raw,hfilled,hexact,hemitted,hexact.given 70000 7 30 (.inr ?_)⟩
  rw [hbytes]
  decide +kernel

end Arma.Acpi.Slit
