import Mathlib.Data.String.Basic
import Mathlib.Data.List.TakeWhile
import Arma.Base.ByteString

/-!
# Paths

A path has components; a clean relative path is its names with a `/` between
them. Its ancestors are what stands in front of its slashes, the parent what
stands in front of the last one. An ancestor comes first in the order of strings.
The extension of a path is what stands behind the last dot of its last name.
-/

namespace Arma.Base.Paths

open Base.ByteString

/-- A component of a path. -/
inductive Component where
  /-- A leading `/`. -/
  | rootDir
  /-- A leading `.`. -/
  | curDir
  /-- `..`. -/
  | parentDir
  /-- A name. -/
  | normal (name : Bytes)
deriving DecidableEq, Repr

/-- The component at a place between slashes; an empty one and a `.` count for
nothing. -/
def component (part : Bytes) : Option Component :=
  if part=[] ∨ part=[0x2e] then none
  else if part=[0x2e,0x2e] then some .parentDir
  else some (.normal part)

/-- The components of a path. -/
def components (path : Bytes) : List Component :=
  let parts := path.splitOn 0x2f
  let leading : List Component :=
    if path.head?=some 0x2f then [.rootDir]
    else if parts.head?=some [0x2e] then [.curDir]
    else []
  leading++parts.filterMap component

/-- What stands in front of the slashes of a path that is in reverse, the nearest
first. -/
def ancestorsRev : List Char → List String
  | [] => []
  | c::rest =>
    if c = '/' ∧ rest≠[] then .ofList rest.reverse::ancestorsRev rest else ancestorsRev rest

/-- The directories on the way to a clean relative path, the nearest first. -/
def ancestors (path : String) : List String := ancestorsRev path.toList.reverse

/-- What stands in front of the last slash, if there is one. -/
def parent (path : String) : Option String :=
  match path.toList.reverse.dropWhile (· != '/') with
  | [] => none
  | _::rest => some (.ofList rest.reverse)

/-- A path in reverse, from its last name on. Slashes behind that name are no part of
it, nor is a `.` between them. -/
def trimRev : List Char → List Char
  | '/'::cs => trimRev cs
  | '.' :: '/' :: cs => trimRev cs
  | cs => cs

/-- The last name of a path, in reverse, and what stands in front of it. -/
def lastName (path : String) : Option (List Char×List Char) :=
  let cs := trimRev path.toList.reverse
  let name := cs.takeWhile (· != '/')
  if name=[] ∨ name=['.'] ∨ name=['.','.'] then none else some (name,cs.dropWhile (· != '/'))

/-- The two sides of the last dot of a name, both in reverse; a dot that begins the
name does not count. -/
def splitDot (name : List Char) : Option (List Char×List Char) :=
  match name.dropWhile (· != '.') with
  | _::c::stem => some (name.takeWhile (· != '.'),c::stem)
  | _ => none

/-- `extension`. -/
def extension (path : String) : Option String :=
  (lastName path).bind fun (name,_) => (splitDot name).map fun (ext,_) => .ofList ext.reverse

/-- `set_extension("")`: the path up to the stem of its last name. -/
def clearExtension (path : String) : String :=
  match lastName path with
  | none => path
  | some (name,front) =>
    match splitDot name with
    | none => .ofList (name++front).reverse
    | some (_,stem) => .ofList (stem++front).reverse

/-- A file name with a stem and the extension ends the path. -/
def EndsIn (ext path : String) : Prop :=
  ∃ front stem, path.toList=front++stem++ '.'::ext.toList ∧ stem≠[] ∧ '/'∉stem ∧
    ∀ c∈front.getLast?, c = '/'

/-- A directory on the way to a path. -/
def Ancestor (d path : String) : Prop := ∃ rest, path.toList=d.toList++ '/'::rest

/-- A path right below a directory. -/
def Child (d path : String) : Prop := ∃ name, '/'∉name ∧ path.toList=d.toList++ '/'::name

/-- The ancestors in a reversed path. -/
theorem mem_ancestorsRev {d : String} {cs : List Char} :
    d∈ancestorsRev cs ↔ d≠"" ∧ ∃ rest, cs.reverse=d.toList++ '/'::rest := by
  induction cs with
  | nil => simp [ancestorsRev]
  | cons c cs ih =>
    have hsplit : (∃ rest, (c::cs).reverse=d.toList++ '/'::rest) ↔
        c = '/' ∧ cs.reverse=d.toList ∨ ∃ rest, cs.reverse=d.toList++ '/'::rest := by
      rw [List.reverse_cons]
      constructor
      · rintro ⟨rest,hrest⟩
        obtain rfl | ⟨init,last,rfl⟩ := List.eq_nil_or_concat' rest
        · obtain ⟨hcs,hc⟩ := List.append_inj' hrest rfl
          exact .inl ⟨List.singleton_inj.mp hc,hcs⟩
        · have hassoc : d.toList++ '/'::(init++[last])=(d.toList++ '/'::init)++[last] := by simp
          obtain ⟨hcs,_⟩ := List.append_inj' (hrest.trans hassoc) rfl
          exact .inr ⟨init,hcs⟩
      · rintro (⟨rfl,hcs⟩ | ⟨rest,hcs⟩)
        · exact ⟨[],by rw [hcs]⟩
        · exact ⟨rest++[c],by rw [hcs,List.append_assoc,List.cons_append]⟩
    have hempty : cs.reverse=d.toList → (cs≠[] ↔ d≠"") := by
      intro hcs
      rw [Ne,←List.reverse_eq_nil_iff,hcs,Ne,String.toList_eq_nil_iff]
    rw [hsplit,ancestorsRev]
    split
    · rename_i hc
      rw [List.mem_cons,ih]
      constructor
      · rintro (rfl | ⟨hne,hrest⟩)
        · have hcs : cs.reverse=(String.ofList cs.reverse).toList := String.toList_ofList.symm
          exact ⟨(hempty hcs).mp hc.2,.inl ⟨hc.1,hcs⟩⟩
        · exact ⟨hne,.inr hrest⟩
      · rintro ⟨hne,⟨_,hcs⟩ | hrest⟩
        · exact .inl (by rw [hcs,String.ofList_toList])
        · exact .inr ⟨hne,hrest⟩
    · rename_i hc
      rw [ih]
      constructor
      · rintro ⟨hne,hrest⟩
        exact ⟨hne,.inr hrest⟩
      · rintro ⟨hne,⟨hslash,hcs⟩ | hrest⟩
        · exact absurd ⟨hslash,(hempty hcs).mpr hne⟩ hc
        · exact ⟨hne,hrest⟩

/-- What the walk to the top comes by. -/
theorem mem_ancestors {d path : String} : d∈ancestors path ↔ d≠"" ∧ Ancestor d path := by
  rw [ancestors,mem_ancestorsRev,List.reverse_reverse]
  rfl

/-- A path without a slash has no parent. -/
theorem parent_none {path : String} : parent path=none ↔ '/'∉path.toList := by
  unfold parent
  split
  · rename_i h
    refine iff_of_true rfl fun hmem => ?_
    have hall := List.dropWhile_eq_nil_iff.mp h '/' (List.mem_reverse.mpr hmem)
    simp at hall
  · rename_i h
    refine iff_of_false (by simp) fun hnot => ?_
    have hnil : path.toList.reverse.dropWhile (· != '/')=[] :=
      List.dropWhile_eq_nil_iff.mpr fun c hc => by
        have hne : c≠ '/' := fun heq => hnot (heq ▸ List.mem_reverse.mp hc)
        simpa using hne
    rw [hnil] at h
    cases h

/-- A path is right below its parent. -/
theorem parent_some {d path : String} : parent path=some d ↔ Child d path := by
  have hsplit := List.takeWhile_append_dropWhile (p := (· != '/')) (l := path.toList.reverse)
  unfold parent
  split
  · rename_i h
    refine iff_of_false (by simp) ?_
    rintro ⟨name,_,hpath⟩
    have hmem : '/'∈path.toList.reverse := by rw [hpath]; simp
    have hall := List.dropWhile_eq_nil_iff.mp h '/' hmem
    simp at hall
  · rename_i c rest h
    have hslash : c = '/' := by
      have hc := List.head?_dropWhile_not (p := (· != '/')) (l := path.toList.reverse)
      rw [h] at hc
      simpa using hc
    rw [h,hslash] at hsplit
    rw [Option.some.injEq]
    constructor
    · rintro rfl
      refine ⟨(path.toList.reverse.takeWhile (· != '/')).reverse,?_,?_⟩
      · intro hmem
        have hc := List.mem_takeWhile_imp (List.mem_reverse.mp hmem)
        simp at hc
      · have hrev := congrArg List.reverse hsplit
        rw [List.reverse_append,List.reverse_cons,List.reverse_reverse,List.append_assoc] at hrev
        rw [String.toList_ofList]
        exact hrev.symm
    · rintro ⟨name,hname,hpath⟩
      have hrev : path.toList.reverse=name.reverse++ '/'::d.toList.reverse := by
        rw [hpath]
        simp
      have htake : ∀ c∈name.reverse, (c != '/')=true := fun c hc => by
        have hne : c≠ '/' := fun heq => hname (heq ▸ List.mem_reverse.mp hc)
        simpa using hne
      rw [hrev,List.dropWhile_append_of_pos htake,List.dropWhile_cons_of_neg (by simp)] at h
      obtain ⟨_,hrest⟩ := List.cons.inj h
      rw [←hrest,List.reverse_reverse,String.ofList_toList]

/-- A child has its directory for an ancestor. -/
theorem Child.ancestor {d path : String} (h : Child d path) : Ancestor d path := by
  obtain ⟨name,_,hpath⟩ := h
  exact ⟨name,hpath⟩

/-- A list comes before its extensions. -/
theorem lt_append_cons {α : Type} [LinearOrder α] (l : List α) (a : α) (rest : List α) :
    l<l++a::rest := by
  induction l with
  | nil => exact List.nil_lt_cons a rest
  | cons x l ih => exact List.cons_lt_cons_iff.mpr (.inr ⟨rfl,ih⟩)

/-- An ancestor comes first in the order of strings. -/
theorem Ancestor.lt {d path : String} (h : Ancestor d path) : d<path := by
  obtain ⟨rest,hpath⟩ := h
  rw [String.lt_iff_toList_lt,hpath]
  exact lt_append_cons d.toList '/' rest

/-- What is on the way to a path with a first character other than `/` begins with
it. -/
theorem Ancestor.head {d path : String} {c : Char} (h : Ancestor d path)
    (hhead : path.toList.head?=some c) (hc : c≠ '/') : d.toList.head?=some c := by
  obtain ⟨rest,hpath⟩ := h
  rw [hpath] at hhead
  cases hd : d.toList with
  | nil =>
    rw [hd] at hhead
    exact absurd (Option.some.inj hhead).symm hc
  | cons x xs =>
    rw [hd] at hhead
    exact hhead

/-- A list is split where a character stands for the first time. -/
theorem split_first {c : Char} {l m : List Char} (h : c∉l) (h' : ∀ d∈m.head?, d=c) :
    (l++m).takeWhile (· != c)=l ∧ (l++m).dropWhile (· != c)=m := by
  have hall : ∀ d∈l, (d != c)=true := fun d hd => bne_iff_ne.mpr fun heq => h (heq ▸ hd)
  rw [List.takeWhile_append_of_pos hall,List.dropWhile_append_of_pos hall]
  cases m with
  | nil => exact ⟨List.append_nil l,rfl⟩
  | cons d ds =>
    obtain rfl := h' d rfl
    rw [List.takeWhile_cons_of_neg (by simp),List.dropWhile_cons_of_neg (by simp),List.append_nil]
    exact ⟨rfl,rfl⟩

/-- The last name of a path that ends in a dot and a word. -/
theorem lastName_dot {path : String} {ext more : List Char} (hext : ext≠[])
    (hdot : '.'∉ext) (hslash : '/'∉ext) (hpath : path.toList.reverse=ext.reverse++ '.'::more) :
    lastName path=
      some (ext.reverse++ '.'::more.takeWhile (· != '/'),more.dropWhile (· != '/')) := by
  obtain ⟨c,cs,hcs⟩ := List.exists_cons_of_ne_nil (mt List.reverse_eq_nil_iff.mp hext)
  have hc : c∈ext := List.mem_reverse.mp (hcs ▸ List.mem_cons_self)
  have hcdot : c≠ '.' := fun h => hdot (h ▸ hc)
  have hcslash : c≠ '/' := fun h => hslash (h ▸ hc)
  have htrim : trimRev path.toList.reverse=ext.reverse++ '.'::more := by
    rw [hpath,hcs,List.cons_append,trimRev.eq_def]
    split
    · rename_i h
      exact absurd (List.cons.inj h).1 hcslash
    · rename_i h
      exact absurd (List.cons.inj h).1 hcdot
    · rfl
  have hall : ∀ d∈ext.reverse, (d != '/')=true := fun d hd =>
    bne_iff_ne.mpr fun h => hslash (h ▸ List.mem_reverse.mp hd)
  have htake : (ext.reverse++ '.'::more).takeWhile (· != '/')=
      ext.reverse++ '.'::more.takeWhile (· != '/') := by
    rw [List.takeWhile_append_of_pos hall,List.takeWhile_cons_of_pos (by rfl)]
  have hdrop : (ext.reverse++ '.'::more).dropWhile (· != '/')=more.dropWhile (· != '/') := by
    rw [List.dropWhile_append_of_pos hall,List.dropWhile_cons_of_pos (by rfl)]
  have hname : ¬(ext.reverse++ '.'::more.takeWhile (· != '/')=[] ∨
      ext.reverse++ '.'::more.takeWhile (· != '/')=['.'] ∨
      ext.reverse++ '.'::more.takeWhile (· != '/')=['.','.']) := by
    rw [hcs]
    simp [hcdot]
  unfold lastName
  rw [htrim]
  simp only [htake,hdrop]
  rw [if_neg hname]

/-- A path with a name behind its last slash ends in its extension. -/
theorem suffix_of_extension {path ext : String}
    (htrim : trimRev path.toList.reverse=path.toList.reverse) (h : extension path=some ext) :
    '.'::ext.toList<:+path.toList := by
  unfold extension lastName at h
  rw [htrim] at h
  obtain ⟨name,hname,hsplit⟩ := Option.bind_eq_some_iff.mp h
  obtain ⟨⟨rev,stem⟩,hdot,hext⟩ := Option.map_eq_some_iff.mp hsplit
  have hwhole := List.takeWhile_append_dropWhile (p := (· != '/')) (l := path.toList.reverse)
  dsimp only at hname
  split_ifs at hname
  obtain rfl := Option.some.inj hname
  unfold splitDot at hdot
  split at hdot
  · rename_i d c cs hdrop
    obtain ⟨rfl,-⟩ := Prod.mk.inj (Option.some.inj hdot)
    have hd : d = '.' := by
      have hhead := List.head?_dropWhile_not (p := (· != '.'))
        (l := path.toList.reverse.takeWhile (· != '/'))
      rw [hdrop] at hhead
      simpa using hhead
    have hparts := List.takeWhile_append_dropWhile (p := (· != '.'))
      (l := path.toList.reverse.takeWhile (· != '/'))
    rw [hdrop,hd] at hparts
    rw [←hparts] at hwhole
    have hback := congrArg List.reverse hwhole
    rw [List.reverse_reverse] at hback
    refine ⟨((c::cs)++path.toList.reverse.dropWhile (· != '/')).reverse,Eq.trans ?_ hback⟩
    rw [←hext,String.toList_ofList]
    simp
  · cases hdot

/-- The last dot of a name that ends in a dot and a word. -/
theorem splitDot_dot {ext stem : List Char} (hdot : '.'∉ext) (hstem : stem≠[]) :
    splitDot (ext.reverse++ '.'::stem)=some (ext.reverse,stem) := by
  obtain ⟨c,cs,rfl⟩ := List.exists_cons_of_ne_nil hstem
  obtain ⟨htake,hdrop⟩ := split_first (c := '.') (l := ext.reverse) (m := '.'::c::cs)
    (mt List.mem_reverse.mp hdot) fun d hd => (Option.some.inj hd).symm
  unfold splitDot
  rw [hdrop,htake]

section
variable {ext path : String}

/-- A path that ends in an extension, read backwards. -/
theorem EndsIn.reverse (h : EndsIn ext path) :
    ∃ stem front, path.toList.reverse=ext.toList.reverse++ '.'::(stem++front) ∧ stem≠[] ∧
      (stem++front).takeWhile (· != '/')=stem ∧ (stem++front).dropWhile (· != '/')=front := by
  obtain ⟨front,stem,hpath,hstem,hslash,hfront⟩ := h
  rw [←List.head?_reverse] at hfront
  obtain ⟨htake,hdrop⟩ := split_first (mt List.mem_reverse.mp hslash) hfront
  exact ⟨stem.reverse,front.reverse,by rw [hpath]; simp,mt List.reverse_eq_nil_iff.mp hstem,
    htake,hdrop⟩

/-- Clearing the extension of a path that ends in it takes the extension and its dot
away, and nothing else. -/
theorem EndsIn.clear (h : EndsIn ext path) (hext : ext≠"") (hdot : '.'∉ext.toList)
    (hslash : '/'∉ext.toList) : path=clearExtension path++"."++ext := by
  obtain ⟨stem,front,hpath,hstem,htake,hdrop⟩ := h.reverse
  have hname := lastName_dot (mt String.toList_eq_nil_iff.mp hext) hdot hslash hpath
  rw [htake,hdrop] at hname
  have hclear : clearExtension path=.ofList (stem++front).reverse := by
    unfold clearExtension
    rw [hname]
    simp only [splitDot_dot hdot hstem]
  have hback := congrArg List.reverse hpath
  rw [List.reverse_reverse] at hback
  rw [←String.toList_inj,hclear,hback]
  simp

/-- The extension of a path that has it for a suffix, behind a dot, is found exactly
when the path ends in it. -/
theorem extension_suffix (hsuffix : '.'::ext.toList<:+path.toList) (hext : ext≠"")
    (hdot : '.'∉ext.toList) (hslash : '/'∉ext.toList) :
    extension path=some ext ↔ EndsIn ext path := by
  obtain ⟨body,hbody⟩ := hsuffix
  have hrev : path.toList.reverse=ext.toList.reverse++ '.'::body.reverse := by
    rw [←hbody]
    simp
  have hname := lastName_dot (mt String.toList_eq_nil_iff.mp hext) hdot hslash hrev
  have hparts := List.takeWhile_append_dropWhile (p := (· != '/')) (l := body.reverse)
  constructor
  · intro h
    refine ⟨(body.reverse.dropWhile (· != '/')).reverse,(body.reverse.takeWhile (· != '/')).reverse,
      ?_,?_,?_,?_⟩
    · rw [←hbody,←List.reverse_append,hparts,List.reverse_reverse]
    · intro hnil
      rw [List.reverse_eq_nil_iff] at hnil
      unfold extension at h
      rw [hname,hnil,Option.bind_some] at h
      have hnone : splitDot (ext.toList.reverse++['.'])=none := by
        have hsplit := (split_first (c := '.') (l := ext.toList.reverse) (m := ['.'])
          (mt List.mem_reverse.mp hdot) fun d hd => (Option.some.inj hd).symm).2
        unfold splitDot
        rw [hsplit]
      simp only [hnone,Option.map_none,reduceCtorEq] at h
    · intro hmem
      have hc := List.mem_takeWhile_imp (List.mem_reverse.mp hmem)
      simp at hc
    · intro c hc
      rw [List.getLast?_reverse] at hc
      have hhead := List.head?_dropWhile_not (p := (· != '/')) (l := body.reverse)
      rw [Option.mem_def.mp hc] at hhead
      simpa using hhead
  · intro h
    obtain ⟨stem,front,hpath,hstem,htake,hdrop⟩ := h.reverse
    have hsame := (List.cons.inj (List.append_cancel_left (hrev.symm.trans hpath))).2
    unfold extension
    rw [hname,hsame,htake,Option.bind_some]
    simp only [splitDot_dot hdot hstem,Option.map_some,List.reverse_reverse,String.ofList_toList]

end

end Arma.Base.Paths
