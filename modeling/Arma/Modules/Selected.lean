import Arma.Modules.Dependencies

/-!
# What a request resolves to

The files of a selection are the requested modules and what they depend on, and
nothing else. Whatever is wrong with the index is an error, and neither the
order of the lines nor that of the request matters.
-/

namespace Arma.Modules.Selected

open Base.ByteString Base.Checked Base.Closure Base.Ordered Dependencies Index Kernel.Release
  Relation Resolve

/-- The lines of an index file; none when it cannot be read. -/
def indexLines (tree : Tree) (name : String) : List String :=
  ((metadata tree name).toOption.map lines).getD []

/-- The lines of `modules.dep`. -/
def depLines (tree : Tree) : List String := indexLines tree "modules.dep"

/-- The lines of `modules.builtin`. -/
def builtinLines (tree : Tree) : List String := indexLines tree "modules.builtin"

/-- The paths that are defined, with the words behind them. -/
def rawDefs (dep : List String) : List (String×List String) :=
  (dep.filter fun line => decide (line≠"")).filterMap splitLine

/-- The name of the module at a path, if it is one. -/
def moduleName (path : String) : Option String := (modulePath path).toOption

/-- A module depends on another. -/
def Needs (tree : Tree) (p q : String) : Prop := ∃ ds, (p,ds)∈rawDefs (depLines tree) ∧ q∈ds

/-- The paths that are defined. -/
def definedPaths (tree : Tree) : List String := (rawDefs (depLines tree)).map Prod.fst

/-- The paths of built-in modules. -/
def builtinPaths (tree : Tree) : List String :=
  (builtinLines tree).filter fun line => decide (line≠"")

/-- How often a name is defined in both index files. -/
def timesDefined (tree : Tree) (name : String) : ℕ :=
  ((definedPaths tree++builtinPaths tree).filter fun p => decide (moduleName p=some name)).length

/-- The selection is exactly what the request asks for. -/
structure Exact (tree : Tree) (roots : List String) (sel : Selection) : Prop where
  /-- It is of this tree. -/
  place : sel.tree=tree.path
  /-- The files are the requested modules and what they depend on. -/
  files : ∀ p, p∈sel.files.map ModuleFile.relative ↔ ∃ r∈roots, ∃ q∈definedPaths tree,
    moduleName q=some (underscored r) ∧ ReflTransGen (Needs tree) q p
  /-- Each file is there once. -/
  once : (sel.files.map ModuleFile.relative).Nodup
  /-- The contents are those of the tree. -/
  contents : ∀ f∈sel.files, tree.entry f.relative=some (.file f.bytes)
  /-- The requested files are marked, and no others. -/
  marked : ∀ f∈sel.files, f.isRoot=true ↔ ∃ r∈roots, moduleName f.relative=some (underscored r)
  /-- The built-in modules are the requested ones. -/
  builtins : ∀ n, n∈sel.builtins ↔ (∃ r∈roots, underscored r=n) ∧
    ∃ p∈builtinPaths tree, moduleName p=some n
  /-- Each built-in module is there once. -/
  builtinsOnce : sel.builtins.Nodup
  /-- Every requested name is defined once. -/
  defined : ∀ r∈roots, timesDefined tree (underscored r)=1

/-- Something is wrong with the request or the index. -/
inductive Defect (tree : Tree) (roots : List String) : Prop where
  /-- A requested name is unknown or defined several times. -/
  | name (r : String) (hr : r∈roots) (h : timesDefined tree (underscored r)≠1)
  /-- A module depends on itself. -/
  | cycle (p : String) (h : TransGen (Needs tree) p p)
  /-- A dependency is not defined. -/
  | missing (p q : String) (h : Needs tree p q) (hq : q∉definedPaths tree)
  /-- A dependency is repeated. -/
  | repeated (p : String) (ds : List String) (h : (p,ds)∈rawDefs (depLines tree)) (hds : ¬ds.Nodup)
  /-- A path is defined twice. -/
  | duplicate (h : ¬(definedPaths tree).Nodup)
  /-- The path of a definition is not safe. -/
  | unsafePath (p : String) (h : p∈definedPaths tree) (hp : ¬SafePath p)
  /-- The path of a dependency is not safe. -/
  | unsafeDependency (p q : String) (h : Needs tree p q) (hq : ¬SafePath q)

/-- A name that differs from another in dashes for underscores, behind the first
character. -/
structure Respelled (r s : String) : Prop where
  /-- The first character is the same. -/
  head : r.toList.head?=s.toList.head?
  /-- The others differ in dashes only. -/
  same : underscored r=underscored s

/-- The requests are the same but for order, repetition and spelling. -/
structure SameRequest (roots roots' : List String) : Prop where
  /-- Every name of the first is in the second. -/
  left : ∀ r∈roots, ∃ s∈roots', Respelled r s
  /-- Every name of the second is in the first. -/
  right : ∀ s∈roots', ∃ r∈roots, Respelled r s

/-- The trees are the same but for the order of the lines of the index. -/
structure SameTree (tree tree' : Tree) : Prop where
  /-- They are at the same place. -/
  path : tree.path=tree'.path
  /-- Everything but the index is the same. -/
  entry : ∀ p, p≠"modules.dep" → p≠"modules.builtin" → tree.entry p=tree'.entry p
  /-- The index files have the same lines. -/
  index : ∀ name∈["modules.dep","modules.builtin"], ∃ text text',
    metadata tree name=.ok text ∧ metadata tree' name=.ok text' ∧
      (lines text).Perm (lines text')

/-! ## The index -/

/-- What reading both index files has established. -/
structure Read (tree : Tree) (roots : OrdSet String) (index : Indexed) : Prop where
  /-- The lines of `modules.dep` are well formed. -/
  dep : ∀ line∈depLines tree, line≠"" → ∃ d, parseDep line=.ok d
  /-- So are those of `modules.builtin`. -/
  builtin : ∀ line∈builtinLines tree, line≠"" → ∃ n, modulePath line=.ok n
  /-- The definitions are those of the lines. -/
  definitions : (OrdMap.empty : Definitions).insertAllNew (byPath (depLines tree))=
    some index.definitions
  /-- The names are the requested ones of the lines. -/
  names : (OrdMap.empty : OrdMap String (Option String)).insertAllNew (requested roots
    (byName (depLines tree))++requested roots (builtinNames (builtinLines tree)))=
    some index.names

/-- Both index files are read when they can be, and are well formed. -/
theorem readIndex_ok {tree : Tree} {roots : OrdSet String} {index : Indexed} :
    readIndex tree roots=.ok index ↔ (∃ text, metadata tree "modules.dep"=.ok text) ∧
      (∃ text, metadata tree "modules.builtin"=.ok text) ∧ Read tree roots index := by
  obtain ⟨definitions,names⟩ := index
  have hlines : ∀ {name text}, metadata tree name=.ok text → indexLines tree name=lines text := by
    intro name text h
    rw [indexLines,h]
    rfl
  constructor
  · intro h
    obtain ⟨dep,hdep,h⟩ := bind_ok.mp h
    obtain ⟨st,hst,h⟩ := bind_ok.mp h
    obtain ⟨builtin,hbuiltin,h⟩ := bind_ok.mp h
    obtain ⟨ns,hns,h⟩ := bind_ok.mp h
    cases h
    rw [←hlines hdep] at hst
    rw [←hlines hbuiltin] at hns
    obtain ⟨hparsed,hdefs,hnames⟩ := depLines_ok.mp hst
    obtain ⟨hparsed',hnames'⟩ := builtinLines_ok.mp hns
    refine ⟨⟨dep,hdep⟩,⟨builtin,hbuiltin⟩,hparsed,hparsed',hdefs,?_⟩
    rw [OrdMap.insertAllNew_append]
    exact Option.bind_eq_some_iff.mpr ⟨_,hnames,hnames'⟩
  · rintro ⟨⟨dep,hdep⟩,⟨builtin,hbuiltin⟩,h⟩
    have hnames := h.names
    rw [OrdMap.insertAllNew_append] at hnames
    obtain ⟨mid,hmid,hnames⟩ := Option.bind_eq_some_iff.mp hnames
    have hst : (lines dep).foldlM (depLine roots) ⟨OrdMap.empty,OrdMap.empty⟩=.ok ⟨definitions,mid⟩ := by
      rw [←hlines hdep]
      exact depLines_ok.mpr ⟨h.dep,h.definitions,hmid⟩
    have hns : (lines builtin).foldlM (builtinLine roots) mid=.ok names := by
      rw [←hlines hbuiltin]
      exact builtinLines_ok.mpr ⟨h.builtin,hnames⟩
    exact bind_ok.mpr ⟨dep,hdep,bind_ok.mpr ⟨_,hst,bind_ok.mpr ⟨builtin,hbuiltin,
      bind_ok.mpr ⟨names,hns,rfl⟩⟩⟩⟩

/-- The definitions of well-formed lines. -/
theorem filterMap_definitionOf {dep : List String}
    (h : ∀ line∈dep, line≠"" → ∃ d, parseDep line=.ok d) :
    dep.filterMap definitionOf=
      (rawDefs dep).map (fun d => (d.1,(moduleName d.1).getD "",OrdSet.ofList d.2)) ∧
    ∀ d∈rawDefs dep, (∃ n, modulePath d.1=.ok n) ∧ d.2.Nodup ∧
      ∀ q∈d.2, ∃ n, modulePath q=.ok n := by
  induction dep with
  | nil => exact ⟨rfl,fun d hd => absurd hd List.not_mem_nil⟩
  | cons line dep ih =>
    obtain ⟨hline,hdep⟩ := List.forall_mem_cons.mp h
    obtain ⟨hmap,hall⟩ := ih hdep
    by_cases hempty : line=""
    · have hraw : rawDefs (line::dep)=rawDefs dep := by
        rw [rawDefs,List.filter_cons_of_neg (by simpa using hempty)]
        rfl
      rw [hraw,List.filterMap_cons,definitionOf,if_pos hempty]
      exact ⟨hmap,hall⟩
    · obtain ⟨⟨path,name,edges⟩,hparse⟩ := hline hempty
      obtain ⟨ds,hsplit,hname,hds,hnodup,rfl⟩ := parseDep_ok.mp hparse
      have hraw : rawDefs (line::dep)=(path,ds)::rawDefs dep := by
        rw [rawDefs,List.filter_cons_of_pos (by simpa using hempty),List.filterMap_cons,hsplit]
        rfl
      have hmodule : moduleName path=some name := by
        rw [moduleName,hname]
        rfl
      rw [hraw,List.filterMap_cons,definitionOf,if_neg hempty,hparse,List.map_cons,hmodule,←hmap]
      exact ⟨rfl,List.forall_mem_cons.mpr ⟨⟨⟨name,hname⟩,hnodup,hds⟩,hall⟩⟩

/-- The built-in modules of well-formed lines. -/
theorem filterMap_builtinOf {builtin : List String}
    (h : ∀ line∈builtin, line≠"" → ∃ n, modulePath line=.ok n) :
    builtin.filterMap builtinOf=
      (builtin.filter fun line => decide (line≠"")).map fun p => (moduleName p).getD "" := by
  induction builtin with
  | nil => rfl
  | cons line builtin ih =>
    obtain ⟨hline,hrest⟩ := List.forall_mem_cons.mp h
    by_cases hempty : line=""
    · rw [List.filterMap_cons,builtinOf,if_pos hempty,
        List.filter_cons_of_neg (by simpa using hempty)]
      exact ih hrest
    · obtain ⟨n,hn⟩ := hline hempty
      have hmodule : moduleName line=some n := by
        rw [moduleName,hn]
        rfl
      rw [List.filterMap_cons,builtinOf,if_neg hempty,hn,
        List.filter_cons_of_pos (by simpa using hempty),List.map_cons,hmodule,←ih hrest]
      rfl

variable {tree : Tree} {roots : OrdSet String} {index : Indexed}

/-- All paths in the index are those of modules. -/
theorem Read.module (h : Read tree roots index) :
    ∀ p∈definedPaths tree++builtinPaths tree, ∃ n, modulePath p=.ok n := by
  intro p hp
  obtain hp | hp := List.mem_append.mp hp
  · obtain ⟨d,hd,rfl⟩ := List.mem_map.mp hp
    exact ((filterMap_definitionOf h.dep).2 d hd).1
  · obtain ⟨hline,hempty⟩ := List.mem_filter.mp hp
    exact h.builtin p hline (of_decide_eq_true hempty)

/-- The name of such a path. -/
theorem moduleName_getD {p n : String} (h : ∃ n, modulePath p=.ok n) :
    (moduleName p).getD ""=n ↔ moduleName p=some n := by
  obtain ⟨m,hm⟩ := h
  rw [moduleName,hm]
  exact (Option.some.injEq m n).symm.to_iff

/-- The definitions are those that are written down. -/
theorem Read.get?_definitions (h : Read tree roots index) (p : String) (e : OrdSet String) :
    index.definitions.get? p=some e ↔
      ∃ ds, (p,ds)∈rawDefs (depLines tree) ∧ e=OrdSet.ofList ds := by
  rw [(OrdMap.insertAllNew_empty.mp h.definitions).2,byPath,(filterMap_definitionOf h.dep).1,
    List.map_map,List.mem_map]
  constructor
  · rintro ⟨⟨q,ds⟩,hd,heq⟩
    cases heq
    exact ⟨ds,hd,rfl⟩
  · rintro ⟨ds,hd,rfl⟩
    exact ⟨_,hd,rfl⟩

/-- A path has a definition exactly when it is defined. -/
theorem Read.mem_definitions (h : Read tree roots index) (p : String) :
    p∈index.definitions.keys ↔ p∈definedPaths tree := by
  rw [OrdMap.mem_keys,definedPaths,List.mem_map]
  simp only [h.get?_definitions]
  constructor
  · rintro ⟨e,ds,hd,_⟩
    exact ⟨_,hd,rfl⟩
  · rintro ⟨⟨q,ds⟩,hd,rfl⟩
    exact ⟨_,ds,hd,rfl⟩

/-- No path is defined twice. -/
theorem Read.distinct (h : Read tree roots index) : (definedPaths tree).Nodup := by
  have hnodup := (OrdMap.insertAllNew_empty.mp h.definitions).1
  rw [byPath,(filterMap_definitionOf h.dep).1,List.map_map,List.map_map] at hnodup
  exact hnodup

/-- The walks go along the dependencies. -/
theorem Read.edge (h : Read tree roots index) (p q : String) :
    Edge (succ index.definitions) p q ↔ Needs tree p q := by
  constructor
  · rintro ⟨next,hnext,hq⟩
    obtain ⟨e,he,rfl⟩ := Option.map_eq_some_iff.mp hnext
    obtain ⟨ds,hds,rfl⟩ := (h.get?_definitions p e).mp he
    exact ⟨ds,hds,OrdSet.mem_ofList.mp hq⟩
  · rintro ⟨ds,hds,hq⟩
    have hget := (h.get?_definitions p _).mpr ⟨ds,hds,rfl⟩
    exact ⟨(OrdSet.ofList ds).keys,by rw [succ,hget]; rfl,OrdSet.mem_ofList.mpr hq⟩

/-- The names of both index files. -/
def allNames (tree : Tree) : List String :=
  (definedPaths tree++builtinPaths tree).map fun p => (moduleName p).getD ""

/-- What is entered under the requested names. -/
theorem Read.events (h : Read tree roots index) :
    (requested roots (byName (depLines tree))++
        requested roots (builtinNames (builtinLines tree))).map Prod.fst=
      (allNames tree).filter fun n => roots.contains n := by
  rw [requested,requested,←List.filter_append,byName,builtinNames,(filterMap_definitionOf h.dep).1,
    filterMap_builtinOf h.builtin,allNames,List.map_append,List.map_map,List.map_map,definedPaths,
    List.map_map]
  have hfilter : ∀ l : List (String×Option String),
      (l.filter fun e => roots.contains e.1).map Prod.fst=
        (l.map Prod.fst).filter fun n => roots.contains n := fun l => by
    rw [List.filter_map]
    rfl
  rw [hfilter,List.map_append,List.map_map,List.map_map]
  rfl

/-- What a requested name stands for. -/
theorem Read.get?_names (h : Read tree roots index) (n : String) (v : Option String) :
    index.names.get? n=some v ↔ n∈roots.keys ∧
      ((∃ p∈definedPaths tree, moduleName p=some n ∧ v=some p) ∨
        (∃ p∈builtinPaths tree, moduleName p=some n) ∧ v=none) := by
  have hmodule := h.module
  rw [(OrdMap.insertAllNew_empty.mp h.names).2,requested,requested,←List.filter_append,
    List.mem_filter,OrdMap.contains_iff,and_comm,byName,builtinNames,
    (filterMap_definitionOf h.dep).1,filterMap_builtinOf h.builtin,List.map_map,List.map_map,
    List.mem_append]
  refine and_congr_right fun _ => or_congr ?_ ?_
  · rw [List.mem_map]
    constructor
    · rintro ⟨⟨p,ds⟩,hd,heq⟩
      cases heq
      have hp : p∈definedPaths tree := List.mem_map_of_mem hd
      exact ⟨p,hp,(moduleName_getD (hmodule p (List.mem_append_left _ hp))).mp rfl,rfl⟩
    · rintro ⟨p,hp,hname,rfl⟩
      obtain ⟨d,hd,rfl⟩ := List.mem_map.mp hp
      refine ⟨d,hd,?_⟩
      exact Prod.ext ((moduleName_getD (hmodule d.1 (List.mem_append_left _ hp))).mpr hname) rfl
  · rw [List.mem_map]
    constructor
    · rintro ⟨p,hp,heq⟩
      cases heq
      exact ⟨⟨p,hp,(moduleName_getD (hmodule p (List.mem_append_right _ hp))).mp rfl⟩,rfl⟩
    · rintro ⟨⟨p,hp,hname⟩,rfl⟩
      refine ⟨p,hp,?_⟩
      exact Prod.ext ((moduleName_getD (hmodule p (List.mem_append_right _ hp))).mpr hname) rfl

/-- A requested name that stands for something is defined once. -/
theorem Read.timesDefined (h : Read tree roots index) {n : String} (hn : n∈roots.keys)
    {v : Option String} (hv : index.names.get? n=some v) : timesDefined tree n=1 := by
  have hmodule := h.module
  have hnodup := (OrdMap.insertAllNew_empty.mp h.names).1
  rw [h.events] at hnodup
  have hcount : Selected.timesDefined tree n=(allNames tree).count n := by
    rw [Selected.timesDefined,allNames,List.count_eq_countP,List.countP_map,
      List.countP_eq_length_filter]
    refine congrArg List.length (List.filter_congr fun p hp => ?_)
    have hname := moduleName_getD (n := n) (hmodule p hp)
    simp only [Function.comp_apply,hname,Bool.beq_eq_decide_eq]
  have hle : ((allNames tree).filter fun n => roots.contains n).count n≤1 :=
    List.nodup_iff_count_le_one.mp hnodup n
  rw [List.count_filter (OrdMap.contains_iff.mpr hn)] at hle
  have hmem : n∈allNames tree := by
    obtain ⟨_,⟨p,hp,hname,_⟩ | ⟨⟨p,hp,hname⟩,_⟩⟩ := (h.get?_names n v).mp hv
    · have hp := List.mem_append_left (builtinPaths tree) hp
      exact List.mem_map.mpr ⟨p,hp,(moduleName_getD (hmodule p hp)).mpr hname⟩
    · have hp := List.mem_append_right (definedPaths tree) hp
      exact List.mem_map.mpr ⟨p,hp,(moduleName_getD (hmodule p hp)).mpr hname⟩
  have hpos : 0<(allNames tree).count n := List.count_pos_iff.mpr hmem
  omega

/-! ## The selection -/

/-- Definitions are accepted when they are of files, and so are the dependencies. -/
theorem checkDefinitions_ok {definitions : Definitions} :
    checkDefinitions tree definitions=.ok () ↔ ∀ d∈definitions.entries,
      checkedFile tree d.1=.ok () ∧ ∀ q∈d.2.keys, q∈definitions.keys := by
  unfold checkDefinitions
  rw [forM_ok]
  refine forall₂_congr fun d _ => ?_
  rw [bind_ok]
  constructor
  · rintro ⟨u,hu,h⟩
    refine ⟨hu,fun q hq => ?_⟩
    have hq := forM_ok.mp h q hq
    split at hq
    · rename_i hcontains
      exact OrdMap.contains_iff.mp hcontains
    · exact absurd hq fail_ne_ok
  · rintro ⟨hu,h⟩
    exact ⟨(),hu,forM_ok.mpr fun q hq => if_pos (OrdMap.contains_iff.mpr (h q hq))⟩

/-- Checked definitions have the successors of all their nodes. -/
theorem total_succ {definitions : Definitions} (h : checkDefinitions tree definitions=.ok ()) :
    Total (succ definitions) definitions.keys.toFinset :=
  (closed_of_entries fun e he => (checkDefinitions_ok.mp h e he).2).total

/-- What is picked: the names that stand for a built-in module, and the paths
that the others stand for. -/
theorem pick_ok {names : OrdMap String (Option String)} {rs builtins builtins' : List String}
    {selected selected' : OrdSet String}
    (h : pick names rs builtins selected=.ok (builtins',selected')) :
    (∀ r∈rs, ∃ v, names.get? r=some v) ∧
      builtins'=builtins++rs.filter (fun r => decide (names.get? r=some none)) ∧
      ∀ p, p∈selected'.keys ↔ p∈selected.keys ∨ ∃ r∈rs, names.get? r=some (some p) := by
  induction rs generalizing builtins selected with
  | nil =>
    cases h
    exact ⟨fun r hr => absurd hr List.not_mem_nil,(List.append_nil _).symm,fun p => by simp⟩
  | cons r rs ih =>
    unfold pick at h
    cases hr : names.get? r with
    | none =>
      rw [hr] at h
      exact absurd h fail_ne_ok
    | some v =>
      rw [hr] at h
      cases v with
      | none =>
        obtain ⟨hall,hbuiltins,hselected⟩ := ih h
        refine ⟨List.forall_mem_cons.mpr ⟨⟨none,hr⟩,hall⟩,?_,fun p => ?_⟩
        · have hkept : (r::rs).filter (fun r => decide (names.get? r=some none))=
              r::rs.filter fun r => decide (names.get? r=some none) :=
            List.filter_cons_of_pos (decide_eq_true hr)
          rw [hbuiltins,hkept,List.append_assoc]
          rfl
        · rw [hselected,List.exists_mem_cons_iff,hr]
          simp
      | some path =>
        obtain ⟨hall,hbuiltins,hselected⟩ := ih h
        refine ⟨List.forall_mem_cons.mpr ⟨⟨some path,hr⟩,hall⟩,?_,fun p => ?_⟩
        · have hskipped : (r::rs).filter (fun r => decide (names.get? r=some none))=
              rs.filter fun r => decide (names.get? r=some none) :=
            List.filter_cons_of_neg (by rw [hr]; simp)
          rw [hbuiltins,hskipped]
        · rw [hselected,List.exists_mem_cons_iff,hr,OrdMap.mem_add]
          simp only [Option.some.injEq]
          tauto

/-- The files that are read are those of the paths, with their contents. -/
theorem readFiles_ok {selected : OrdSet String} {paths : List String} {files : List ModuleFile}
    (h : readFiles tree selected paths=.ok files) : files.map ModuleFile.relative=paths ∧
      ∀ f∈files, readFile tree f.relative=.ok f.bytes ∧
        f.isRoot=selected.contains f.relative := by
  have hall := mapM_ok.mp h
  clear h
  induction hall with
  | nil => exact ⟨rfl,fun f hf => absurd hf List.not_mem_nil⟩
  | cons hone _ ih =>
    obtain ⟨bytes,hbytes,hone⟩ := bind_ok.mp hone
    cases hone
    obtain ⟨hmap,hall⟩ := ih
    refine ⟨?_,List.forall_mem_cons.mpr ⟨⟨hbytes,rfl⟩,hall⟩⟩
    rw [List.map_cons,hmap]

/-- A file that is read has its contents from the tree. -/
theorem readFile_entry {p : String} {bytes : Bytes} (h : readFile tree p=.ok bytes) :
    tree.entry p=some (.file bytes) := by
  obtain ⟨u,_,h⟩ := bind_ok.mp h
  cases hentry : tree.entry p with
  | none =>
    rw [hentry] at h
    exact absurd h fail_ne_ok
  | some e =>
    rw [hentry] at h
    cases e with
    | file b =>
      dsimp only at h
      split at h
      · cases h
        rfl
      · exact absurd h fail_ne_ok
    | dir => exact absurd h fail_ne_ok
    | symlink => exact absurd h fail_ne_ok
    | other => exact absurd h fail_ne_ok

/-- Steps of a selection. -/
structure Steps (tree : Tree) (roots : OrdSet String) (index : Indexed) (sel : Selection) : Prop where
  /-- The definitions are accepted. -/
  definitions : checkDefinitions tree index.definitions=.ok ()
  /-- No dependency is circular. -/
  acyclic : ∃ all, closure index.definitions index.definitions.keys=.ok all
  /-- Every requested name stands for something. -/
  known : ∀ r∈roots.keys, ∃ v, index.names.get? r=some v
  /-- The built-in modules. -/
  builtins : sel.builtins=roots.keys.filter fun r => decide (index.names.get? r=some none)
  /-- The files are those of a closure. -/
  files : ∃ selected paths, (∀ p, p∈OrdMap.keys selected ↔
      ∃ r∈roots.keys, index.names.get? r=some (some p)) ∧
    closure index.definitions (OrdMap.keys selected)=.ok paths ∧
    readFiles tree selected paths.keys=.ok sel.files
  /-- The tree. -/
  place : sel.tree=tree.path

/-- A selection has gone through its steps. -/
theorem select_ok {sel : Selection} (h : select tree roots index=.ok sel) :
    Steps tree roots index sel := by
  obtain ⟨u,hu,h⟩ := bind_ok.mp h
  obtain ⟨all,hall,h⟩ := bind_ok.mp h
  obtain ⟨⟨builtins,selected⟩,hpick,h⟩ := bind_ok.mp h
  obtain ⟨paths,hpaths,h⟩ := bind_ok.mp h
  obtain ⟨files,hfiles,h⟩ := bind_ok.mp h
  cases h
  obtain ⟨hknown,hbuiltins,hselected⟩ := pick_ok hpick
  refine ⟨hu,⟨all,hall⟩,hknown,hbuiltins,⟨selected,paths,fun p => ?_,hpaths,hfiles⟩,rfl⟩
  rw [hselected]
  exact or_iff_right List.not_mem_nil

/-- Everything that a defined module needs is defined. -/
theorem Steps.defined {sel : Selection} (h : Steps tree roots index sel)
    (hread : Read tree roots index) {p q : String} (hneeds : Needs tree p q) :
    q∈definedPaths tree := by
  obtain ⟨next,hnext,hq⟩ := (hread.edge p q).mpr hneeds
  obtain ⟨e,he,rfl⟩ := Option.map_eq_some_iff.mp hnext
  exact (hread.mem_definitions q).mp
    ((checkDefinitions_ok.mp h.definitions (p,e) (OrdMap.mem_entries.mpr he)).2 q hq)

/-- No module needs itself. -/
theorem Steps.notCircular {sel : Selection} (h : Steps tree roots index sel)
    (hread : Read tree roots index) (p : String) : ¬TransGen (Needs tree) p p := by
  intro hcycle
  obtain ⟨all,hall⟩ := h.acyclic
  have hedges : Edge (succ index.definitions)=Needs tree := by
    funext p q
    exact propext (hread.edge p q)
  obtain ⟨hreach,hacyclic⟩ := walkAll_reachable hall
  have hdefined : p∈definedPaths tree := by
    obtain ⟨q,⟨ds,hds,_⟩,_⟩ := TransGen.head'_iff.mp hcycle
    exact List.mem_map_of_mem hds
  have hp : p∈all.keys := (hreach p).mpr ⟨p,(hread.mem_definitions p).mpr hdefined,.refl⟩
  rw [hedges] at hacyclic
  exact hacyclic p hp hcycle

/-- Requests that are accepted are valid, and stand under their names without
dashes. -/
theorem mapM_validateName {rs ns : List String} (h : rs.mapM validateName=.ok ns) :
    (∀ r∈rs, ValidName r) ∧ ns=rs.map underscored := by
  have hall := mapM_ok.mp h
  clear h
  induction hall with
  | nil => exact ⟨fun r hr => absurd hr List.not_mem_nil,rfl⟩
  | cons hone _ ih =>
    obtain ⟨hvalid,rfl⟩ := validateName_ok.mp hone
    exact ⟨List.forall_mem_cons.mpr ⟨hvalid,ih.1⟩,by rw [List.map_cons,ih.2]⟩

/-- The names that a request stands for. -/
theorem mem_requested {rs : List String} {n : String} :
    n∈(OrdSet.ofList (rs.map underscored)).keys ↔ ∃ r∈rs, underscored r=n := by
  rw [OrdSet.mem_ofList,List.mem_map]

/-- The files that are selected are those of requested names. -/
theorem mem_selected {rs : List String} {selected : OrdSet String}
    (hread : Read tree (OrdSet.ofList (rs.map underscored)) index)
    (hselected : ∀ p, p∈selected.keys ↔ ∃ n∈(OrdSet.ofList (rs.map underscored)).keys,
      index.names.get? n=some (some p)) (p : String) : p∈selected.keys ↔
      ∃ r∈rs, p∈definedPaths tree ∧ moduleName p=some (underscored r) := by
  rw [hselected]
  constructor
  · rintro ⟨n,hn,hget⟩
    obtain ⟨r,hr,rfl⟩ := mem_requested.mp hn
    obtain ⟨_,⟨q,hq,hname,heq⟩ | ⟨_,heq⟩⟩ := (hread.get?_names _ _).mp hget
    · cases heq
      exact ⟨r,hr,hq,hname⟩
    · cases heq
  · rintro ⟨r,hr,hp,hname⟩
    have hn := mem_requested.mpr ⟨r,hr,rfl⟩
    exact ⟨_,hn,(hread.get?_names _ _).mpr ⟨hn,.inl ⟨p,hp,hname,rfl⟩⟩⟩

/-- The files of a closure are those that the selected ones need. -/
theorem mem_closure {rs : List String} {selected paths : OrdSet String}
    (hread : Read tree (OrdSet.ofList (rs.map underscored)) index)
    (hroots : ∀ p, p∈selected.keys ↔
      ∃ r∈rs, p∈definedPaths tree ∧ moduleName p=some (underscored r))
    (hpaths : closure index.definitions selected.keys=.ok paths) (p : String) :
    p∈paths.keys ↔ ∃ r∈rs, ∃ q∈definedPaths tree,
      moduleName q=some (underscored r) ∧ ReflTransGen (Needs tree) q p := by
  have hedges : Edge (succ index.definitions)=Needs tree := by
    funext p q
    exact propext (hread.edge p q)
  obtain ⟨hreach,_⟩ := walkAll_reachable hpaths
  rw [hreach,Reachable,hedges]
  constructor
  · rintro ⟨q,hq,hneeds⟩
    obtain ⟨r,hr,hdefined,hname⟩ := (hroots q).mp hq
    exact ⟨r,hr,q,hdefined,hname,hneeds⟩
  · rintro ⟨r,hr,q,hdefined,hname,hneeds⟩
    exact ⟨q,(hroots q).mpr ⟨r,hr,hdefined,hname⟩,hneeds⟩

/-- What a request resolves to is exactly what it asks for. -/
theorem exact_of_steps {rs : List String} {sel : Selection}
    (hread : Read tree (OrdSet.ofList (rs.map underscored)) index)
    (h : Steps tree (OrdSet.ofList (rs.map underscored)) index sel) : Exact tree rs sel := by
  obtain ⟨selected,paths,hselected,hpaths,hfiles⟩ := h.files
  obtain ⟨hrelative,hall⟩ := readFiles_ok hfiles
  have hroots := mem_selected hread hselected
  have hpath := mem_closure hread hroots hpaths
  refine ⟨h.place,fun p => ?_,?_,fun f hf => ?_,fun f hf => ?_,fun n => ?_,?_,fun r hr => ?_⟩
  · rw [hrelative]
    exact hpath p
  · rw [hrelative]
    exact paths.keys_nodup
  · exact readFile_entry (hall f hf).1
  · have hmem : f.relative∈paths.keys := hrelative ▸ List.mem_map_of_mem hf
    obtain ⟨_,_,q,hq,_,hneeds⟩ := (hpath _).mp hmem
    have hdefined : f.relative∈definedPaths tree := by
      obtain heq | ⟨p,_,hstep⟩ := ReflTransGen.cases_tail hneeds
      · rw [heq]
        exact hq
      · exact h.defined hread hstep
    rw [(hall f hf).2,OrdMap.contains_iff,hroots]
    exact ⟨fun ⟨r,hr,_,hname⟩ => ⟨r,hr,hname⟩,fun ⟨r,hr,hname⟩ => ⟨r,hr,hdefined,hname⟩⟩
  · rw [h.builtins,List.mem_filter,decide_eq_true_eq,mem_requested]
    refine and_congr_right fun hn => ?_
    rw [hread.get?_names]
    constructor
    · rintro ⟨_,⟨p,_,_,heq⟩ | ⟨hp,_⟩⟩
      · cases heq
      · exact hp
    · exact fun hp => ⟨mem_requested.mpr hn,.inr ⟨hp,rfl⟩⟩
  · rw [h.builtins]
    exact (OrdMap.keys_nodup _).filter _
  · have hn := mem_requested.mpr ⟨r,hr,rfl⟩
    obtain ⟨v,hv⟩ := h.known _ hn
    exact hread.timesDefined hn hv

/-- A request that resolves has gone through all steps. -/
theorem resolve_steps {release : String} {rs : List String} {sel : Selection}
    (h : resolve release (.ok tree) rs=.ok sel) : ∃ index,
      Read tree (OrdSet.ofList (rs.map underscored)) index ∧
      Steps tree (OrdSet.ofList (rs.map underscored)) index sel := by
  obtain ⟨u,_,h⟩ := bind_ok.mp h
  obtain ⟨ns,hns,h⟩ := bind_ok.mp h
  obtain ⟨tree',htree,h⟩ := bind_ok.mp h
  obtain ⟨index,hindex,h⟩ := bind_ok.mp h
  cases htree
  obtain ⟨_,rfl⟩ := mapM_validateName hns
  exact ⟨index,(readIndex_ok.mp hindex).2.2,select_ok h⟩

/-- A request that resolves is free of defects. -/
theorem resolve_sound {release : String} {rs : List String} {sel : Selection}
    (h : resolve release (.ok tree) rs=.ok sel) : ¬Defect tree rs := by
  obtain ⟨index,hread,hsteps⟩ := resolve_steps h
  have hlines := (filterMap_definitionOf hread.dep).2
  intro hdefect
  cases hdefect with
  | name r hr hn => exact hn ((exact_of_steps hread hsteps).defined r hr)
  | cycle p hp => exact hsteps.notCircular hread p hp
  | missing p q hneeds hq => exact hq (hsteps.defined hread hneeds)
  | repeated p ds hd hds => exact hds (hlines _ hd).2.1
  | duplicate hd => exact hd hread.distinct
  | unsafePath p hp hunsafe =>
    obtain ⟨d,hd,rfl⟩ := List.mem_map.mp hp
    obtain ⟨n,hn⟩ := (hlines d hd).1
    exact hunsafe (modulePath_safe hn)
  | unsafeDependency p q hneeds hunsafe =>
    obtain ⟨ds,hds,hq⟩ := hneeds
    obtain ⟨n,hn⟩ := (hlines _ hds).2.2 q hq
    exact hunsafe (modulePath_safe hn)

/-! ## The result is a value or an error -/

/-- Naming a module does not panic. -/
theorem noPanic_modulePath (path : String) : NoPanic (modulePath path) := by
  refine NoPanic.bind (NoPanic.ite (noPanic_ok _) (noPanic_fail _)) fun _ _ => ?_
  refine (noPanic_okOr _ _).bind fun stem _ => ?_
  unfold validateName
  split
  · exact noPanic_fail _
  · exact NoPanic.ite (noPanic_ok _) (noPanic_fail _)

/-- Collecting dependencies does not panic. -/
theorem noPanic_dependencyEdges (ds : List String) (edges : OrdSet String) :
    NoPanic (dependencyEdges ds edges) := by
  induction ds generalizing edges with
  | nil => exact noPanic_ok _
  | cons d ds ih =>
    exact (noPanic_modulePath d).bind fun _ _ => NoPanic.ite (noPanic_fail _) (ih _)

/-- Entering a name does not panic. -/
theorem noPanic_insertName (names : OrdMap String (Option String)) (roots : OrdSet String)
    (name : String) (path : Option String) : NoPanic (insertName names roots name path) :=
  NoPanic.ite (NoPanic.ite (noPanic_fail _) (noPanic_ok _)) (noPanic_ok _)

/-- Reading a line of `modules.dep` does not panic. -/
theorem noPanic_depLine (roots : OrdSet String) (st : Indexed) (line : String) :
    NoPanic (depLine roots st line) := by
  have hparse : NoPanic (parseDep line) := (noPanic_okOr _ _).bind fun d _ =>
    (noPanic_modulePath d.1).bind fun _ _ =>
      (noPanic_dependencyEdges d.2 _).bind fun _ _ => noPanic_ok _
  refine NoPanic.ite (noPanic_ok _) (hparse.bind fun d _ => ?_)
  exact NoPanic.ite (noPanic_fail _) ((noPanic_insertName _ _ _ _).bind fun _ _ => noPanic_ok _)

/-- Reading a line of `modules.builtin` does not panic. -/
theorem noPanic_builtinLine (roots : OrdSet String) (names : OrdMap String (Option String))
    (line : String) : NoPanic (builtinLine roots names line) :=
  NoPanic.ite (noPanic_ok _) ((noPanic_modulePath line).bind fun _ _ => noPanic_insertName _ _ _ _)

/-- Looking for a file does not panic. -/
theorem noPanic_checkedFile (tree : Tree) (p : String) : NoPanic (checkedFile tree p) := by
  have hsteps : ∀ (l before : List String), NoPanic (checkEntries tree before l) := by
    intro l
    induction l with
    | nil => exact fun _ => noPanic_ok _
    | cons s l ih =>
      exact fun before => (noPanic_okOr _ _).bind fun _ _ => NoPanic.ite (ih _) (noPanic_fail _)
  exact NoPanic.bind (NoPanic.ite (noPanic_ok _) (noPanic_fail _)) fun _ _ => hsteps _ _

/-- Reading a file does not panic. -/
theorem noPanic_readFile (tree : Tree) (p : String) : NoPanic (readFile tree p) := by
  refine (noPanic_checkedFile tree p).bind fun _ _ => ?_
  split
  · exact NoPanic.ite (noPanic_ok _) (noPanic_fail _)
  · exact noPanic_fail _

/-- Reading a text does not panic. -/
theorem noPanic_metadata (tree : Tree) (name : String) : NoPanic (metadata tree name) :=
  (noPanic_readFile tree name).bind fun _ _ => noPanic_okOr _ _

/-- Reading the index does not panic. -/
theorem noPanic_readIndex (tree : Tree) (roots : OrdSet String) : NoPanic (readIndex tree roots) :=
  (noPanic_metadata tree _).bind fun _ _ =>
    (NoPanic.foldlM fun st line _ => noPanic_depLine roots st line).bind fun _ _ =>
      (noPanic_metadata tree _).bind fun _ _ =>
        (NoPanic.foldlM fun names line _ => noPanic_builtinLine roots names line).bind fun _ _ =>
          noPanic_ok _

/-- Picking does not panic. -/
theorem noPanic_pick (names : OrdMap String (Option String)) (rs builtins : List String)
    (selected : OrdSet String) : NoPanic (pick names rs builtins selected) := by
  induction rs generalizing builtins selected with
  | nil => exact noPanic_ok _
  | cons r rs ih =>
    unfold pick
    split
    · exact ih _ _
    · exact ih _ _
    · exact noPanic_fail _

/-- Selecting does not panic: what is picked is defined, and the walks come to an
end. -/
theorem noPanic_select (hread : Read tree roots index) : NoPanic (select tree roots index) := by
  refine NoPanic.bind ?_ fun _ hcheck => ?_
  · exact NoPanic.forM fun d _ => (noPanic_checkedFile tree d.1).bind fun _ _ =>
      NoPanic.forM fun _ _ => NoPanic.ite (noPanic_ok _) (noPanic_fail _)
  · have htotal := total_succ hcheck
    refine NoPanic.bind (walkAll_ends htotal (fun _ hr => hr) _ _) fun _ _ => ?_
    refine (noPanic_pick _ _ _ _).bind fun picked hpick => ?_
    have hpick : pick index.names roots.keys [] OrdMap.empty=.ok (picked.1,picked.2) := hpick
    obtain ⟨_,_,hselected⟩ := pick_ok hpick
    refine NoPanic.bind (walkAll_ends htotal (fun p hp => ?_) _ _) fun paths _ => ?_
    · obtain hp | ⟨n,_,hget⟩ := (hselected p).mp hp
      · exact absurd hp List.not_mem_nil
      · obtain ⟨_,⟨q,hq,_,heq⟩ | ⟨_,heq⟩⟩ := (hread.get?_names _ _).mp hget
        · cases heq
          exact (hread.mem_definitions p).mpr hq
        · cases heq
    · refine NoPanic.bind ?_ fun _ _ => noPanic_ok _
      exact NoPanic.mapM fun p _ => (noPanic_readFile tree p).bind fun _ _ => noPanic_ok _

/-- Resolving does not panic. -/
theorem noPanic_resolve (release : String) (tree : Tree) (rs : List String) :
    NoPanic (resolve release (.ok tree) rs) := by
  have hname : ∀ r, NoPanic (validateName r) := by
    intro r
    unfold validateName
    split
    · exact noPanic_fail _
    · exact NoPanic.ite (noPanic_ok _) (noPanic_fail _)
  refine NoPanic.bind ?_ fun _ _ => (NoPanic.mapM fun r _ => hname r).bind fun ns _ => ?_
  · exact NoPanic.context (NoPanic.ite (noPanic_ok _) (noPanic_fail _))
  · refine (noPanic_ok tree).bind fun tree' _ => (noPanic_readIndex tree' _).bind fun index h => ?_
    exact noPanic_select (readIndex_ok.mp h).2.2

/-! ## The order does not matter -/

/-- A name stays valid when it is respelled. -/
theorem Respelled.valid {r s : String} (h : Respelled r s) (hr : ValidName r) : ValidName s := by
  obtain ⟨c,cs,hchars,hc,hcs⟩ := hr
  have hhead := h.head
  have hsame := h.same
  rw [hchars] at hhead
  cases hs : s.toList with
  | nil =>
    rw [hs] at hhead
    cases hhead
  | cons d ds =>
    rw [hs] at hhead
    cases hhead
    have hlists := String.ofList_injective hsame
    rw [hchars,hs,List.map_cons,List.map_cons,List.cons.injEq] at hlists
    have hall : ∀ e∈ds.map fun c => if c = '-' then '_' else c, isWord e=true := by
      rw [←hlists.2]
      intro e he
      obtain ⟨f,hf,rfl⟩ := List.mem_map.mp he
      by_cases hdash : f = '-'
      · rw [if_pos hdash]
        decide
      · rw [if_neg hdash]
        exact (hcs f hf).resolve_right hdash
    refine ⟨c,ds,hs,hc,fun e he => ?_⟩
    by_cases hdash : e = '-'
    · exact .inr hdash
    · have hword := hall _ (List.mem_map_of_mem he)
      rw [if_neg hdash] at hword
      exact .inl hword

/-- Respelling goes both ways. -/
theorem Respelled.symm {r s : String} (h : Respelled r s) : Respelled s r :=
  ⟨h.head.symm,h.same.symm⟩

/-- The same request the other way round. -/
theorem SameRequest.symm {rs rs' : List String} (h : SameRequest rs rs') : SameRequest rs' rs :=
  ⟨fun s hs => let ⟨r,hr,h⟩ := h.right s hs; ⟨r,hr,h.symm⟩,
    fun r hr => let ⟨s,hs,h⟩ := h.left r hr; ⟨s,hs,h.symm⟩⟩

/-- The same tree the other way round. -/
theorem SameTree.symm {tree tree' : Tree} (h : SameTree tree tree') : SameTree tree' tree :=
  ⟨h.path.symm,fun p hdep hbuiltin => (h.entry p hdep hbuiltin).symm,fun name hname =>
    let ⟨text,text',ht,ht',hperm⟩ := h.index name hname; ⟨text',text,ht',ht,hperm.symm⟩⟩

/-- The same request stands for the same names. -/
theorem SameRequest.names {rs rs' ns : List String} (h : SameRequest rs rs')
    (hns : rs.mapM validateName=.ok ns) : ∃ ns', rs'.mapM validateName=.ok ns' ∧
      OrdSet.ofList ns'=OrdSet.ofList ns := by
  obtain ⟨hvalid,rfl⟩ := mapM_validateName hns
  refine ⟨rs'.map underscored,mapM_ok.mpr ?_,OrdSet.ext fun n => ?_⟩
  · rw [List.forall₂_map_right_iff,List.forall₂_same]
    intro s hs
    obtain ⟨r,hr,hspell⟩ := h.right s hs
    exact validateName_ok.mpr ⟨hspell.valid (hvalid r hr),rfl⟩
  · rw [mem_requested,mem_requested]
    constructor
    · rintro ⟨s,hs,rfl⟩
      obtain ⟨r,hr,hspell⟩ := h.right s hs
      exact ⟨r,hr,hspell.same⟩
    · rintro ⟨r,hr,rfl⟩
      obtain ⟨s,hs,hspell⟩ := h.left r hr
      exact ⟨s,hs,hspell.same.symm⟩

/-- An index file is a file. -/
theorem metadata_entry {name text : String} (h : metadata tree name=.ok text) :
    ∃ bytes, tree.entry name=some (.file bytes) := by
  obtain ⟨bytes,hbytes,_⟩ := bind_ok.mp h
  exact ⟨bytes,readFile_entry hbytes⟩

/-- The same files are found. -/
theorem SameTree.checkedFile {tree tree' : Tree} (h : SameTree tree tree') (p : String) :
    checkedFile tree p=checkedFile tree' p := by
  have hindex : ∀ name∈["modules.dep","modules.builtin"], ∃ b b',
      tree.entry name=some (.file b) ∧ tree'.entry name=some (.file b') := by
    intro name hname
    obtain ⟨text,text',ht,ht',_⟩ := h.index name hname
    obtain ⟨b,hb⟩ := metadata_entry ht
    obtain ⟨b',hb'⟩ := metadata_entry ht'
    exact ⟨b,b',hb,hb'⟩
  have hsteps : ∀ l before, checkEntries tree before l=checkEntries tree' before l := by
    intro l
    induction l with
    | nil => exact fun _ => rfl
    | cons s l ih =>
      intro before
      unfold checkEntries
      dsimp only
      by_cases hname : joinSegments (before++[s])∈["modules.dep","modules.builtin"]
      · obtain ⟨b,b',hb,hb'⟩ := hindex _ hname
        rw [hb,hb',ih]
        cases l <;> rfl
      · simp only [List.mem_cons,List.not_mem_nil,or_false,not_or] at hname
        rw [h.entry _ hname.1 hname.2,ih]
  unfold Resolve.checkedFile
  rw [hsteps]

/-- The same modules are read. -/
theorem SameTree.readFile {tree tree' : Tree} (h : SameTree tree tree') {p : String}
    (hp : ∃ n, modulePath p=.ok n) : readFile tree p=readFile tree' p := by
  obtain ⟨n,hn⟩ := hp
  have hdep : p≠"modules.dep" := by
    rintro rfl
    exact absurd hn (by rw [show modulePath "modules.dep"=
      fail (.unsupportedSuffix "modules.dep") by decide +kernel]; exact fail_ne_ok)
  have hbuiltin : p≠"modules.builtin" := by
    rintro rfl
    exact absurd hn (by rw [show modulePath "modules.builtin"=
      fail (.unsupportedSuffix "modules.builtin") by decide +kernel]; exact fail_ne_ok)
  unfold Resolve.readFile
  rw [h.checkedFile,h.entry p hdep hbuiltin]

/-- The same index is read. -/
theorem SameTree.readIndex {tree tree' : Tree} (h : SameTree tree tree')
    (hindex : readIndex tree roots=.ok index) : readIndex tree' roots=.ok index := by
  obtain ⟨_,_,hread⟩ := readIndex_ok.mp hindex
  obtain ⟨dep,dep',hdep,hdep',hdepPerm⟩ := h.index "modules.dep" List.mem_cons_self
  obtain ⟨builtin,builtin',hbuiltin,hbuiltin',hbuiltinPerm⟩ :=
    h.index "modules.builtin" (List.mem_cons_of_mem _ List.mem_cons_self)
  have hlines : ∀ {t : Tree} {name text}, metadata t name=.ok text →
      indexLines t name=lines text := by
    intro t name text ht
    rw [indexLines,ht]
    rfl
  have hdepLines : (depLines tree).Perm (depLines tree') := by
    rw [depLines,depLines,hlines hdep,hlines hdep']
    exact hdepPerm
  have hbuiltinLines : (builtinLines tree).Perm (builtinLines tree') := by
    rw [builtinLines,builtinLines,hlines hbuiltin,hlines hbuiltin']
    exact hbuiltinPerm
  refine readIndex_ok.mpr ⟨⟨dep',hdep'⟩,⟨builtin',hbuiltin'⟩,fun line hline =>
    hread.dep line (hdepLines.mem_iff.mpr hline),fun line hline =>
    hread.builtin line (hbuiltinLines.mem_iff.mpr hline),?_,?_⟩
  · exact OrdMap.insertAllNew_perm ((hdepLines.filterMap _).map _) hread.definitions
  · refine OrdMap.insertAllNew_perm (List.Perm.append ?_ ?_) hread.names
    · exact ((hdepLines.filterMap _).map _).filter _
    · exact ((hbuiltinLines.filterMap _).map _).filter _

/-- The same modules are selected. -/
theorem SameTree.select {tree tree' : Tree} (h : SameTree tree tree')
    (hread : Read tree roots index) {sel : Selection} (hsel : select tree roots index=.ok sel) :
    select tree' roots index=.ok sel := by
  have hmodule := hread.module
  obtain ⟨u,hu,hsel⟩ := bind_ok.mp hsel
  obtain ⟨all,hall,hsel⟩ := bind_ok.mp hsel
  obtain ⟨⟨builtins,selected⟩,hpick,hsel⟩ := bind_ok.mp hsel
  obtain ⟨paths,hpaths,hsel⟩ := bind_ok.mp hsel
  obtain ⟨files,hfiles,hsel⟩ := bind_ok.mp hsel
  have hcheck : checkDefinitions tree' index.definitions=.ok u := by
    refine checkDefinitions_ok.mpr fun d hd => ?_
    rw [←h.checkedFile]
    exact checkDefinitions_ok.mp hu d hd
  have hall' : ∃ all, closure index.definitions index.definitions.keys=.ok all := ⟨all,hall⟩
  obtain ⟨_,_,hselected⟩ := pick_ok hpick
  have hsteps : Steps tree roots index ⟨tree.path,builtins,files⟩ :=
    select_ok (bind_ok.mpr ⟨u,hu,bind_ok.mpr ⟨all,hall,bind_ok.mpr ⟨_,hpick,
      bind_ok.mpr ⟨paths,hpaths,bind_ok.mpr ⟨files,hfiles,rfl⟩⟩⟩⟩⟩)
  have hdefined : ∀ p∈paths.keys, p∈definedPaths tree := by
    intro p hp
    obtain ⟨q,hq,hneeds⟩ := ((walkAll_reachable hpaths).1 p).mp hp
    obtain heq | ⟨r,_,hstep⟩ := ReflTransGen.cases_tail hneeds
    · obtain hq | ⟨n,_,hget⟩ := (hselected q).mp hq
      · exact absurd hq List.not_mem_nil
      · obtain ⟨_,⟨t,ht,_,hsame⟩ | ⟨_,hsame⟩⟩ := (hread.get?_names _ _).mp hget
        · cases hsame
          rw [heq]
          exact ht
        · cases hsame
    · exact hsteps.defined hread ((hread.edge r p).mp hstep)
  have hfiles' : readFiles tree' selected paths.keys=.ok files := by
    rw [←hfiles]
    refine mapM_congr fun p hp => ?_
    rw [h.readFile (hmodule p (List.mem_append_left _ (hdefined p hp)))]
  rw [h.path] at hsel
  exact bind_ok.mpr ⟨u,hcheck,bind_ok.mpr ⟨all,hall,bind_ok.mpr ⟨_,hpick,
    bind_ok.mpr ⟨paths,hpaths,bind_ok.mpr ⟨files,hfiles',hsel⟩⟩⟩⟩⟩

/-- The same request of the same tree resolves to the same. -/
theorem resolve_same {release : String} {tree tree' : Tree} {rs rs' : List String}
    (htree : SameTree tree tree') (hrequest : SameRequest rs rs') {sel : Selection}
    (h : resolve release (.ok tree) rs=.ok sel) : resolve release (.ok tree') rs'=.ok sel := by
  obtain ⟨u,hu,h⟩ := bind_ok.mp h
  obtain ⟨ns,hns,h⟩ := bind_ok.mp h
  obtain ⟨t,ht,h⟩ := bind_ok.mp h
  obtain ⟨index,hindex,h⟩ := bind_ok.mp h
  cases ht
  obtain ⟨ns',hns',hsame⟩ := hrequest.names hns
  refine bind_ok.mpr ⟨u,hu,bind_ok.mpr ⟨ns',hns',bind_ok.mpr ⟨tree',rfl,bind_ok.mpr ⟨index,?_,?_⟩⟩⟩⟩
  · rw [hsame]
    exact htree.readIndex hindex
  · rw [hsame]
    exact htree.select (readIndex_ok.mp hindex).2.2 h

/-- Resolving is exact: what a request resolves to is exactly what it asks for, a
defect is an error, and neither order nor repetition nor spelling matters. -/
theorem resolve_exact (release : String) (tree : Tree) (rs : List String) :
    (∀ sel, resolve release (.ok tree) rs=.ok sel → Exact tree rs sel) ∧
    (Defect tree rs → ∃ e, resolve release (.ok tree) rs=fail e) ∧
    ∀ tree' rs', SameTree tree tree' → SameRequest rs rs' →
      ∀ sel, resolve release (.ok tree) rs=.ok sel ↔ resolve release (.ok tree') rs'=.ok sel := by
  refine ⟨fun sel h => ?_,fun hdefect => ?_,fun tree' rs' htree hrequest sel => ?_⟩
  · obtain ⟨index,hread,hsteps⟩ := resolve_steps h
    exact exact_of_steps hread hsteps
  · exact (noPanic_resolve release tree rs).fails fun sel h => resolve_sound h hdefect
  · exact ⟨resolve_same htree hrequest,resolve_same htree.symm hrequest.symm⟩

/-- A tree with four modules. -/
def sampleTree : Tree where
  path := "/usr/lib/modules/7.2"
  entry p :=
    if p="modules.dep" then some (.file (ascii "k/b.ko: k/a.ko\nk/a.ko:\nk/_c.ko.xz:\n"))
    else if p="modules.builtin" then some (.file (ascii "k/d.ko\n"))
    else if p="k" then some .dir
    else if p="k/a.ko" then some (.file [1])
    else if p="k/b.ko" then some (.file [2])
    else if p="k/_c.ko.xz" then some (.file [3])
    else none

/-- What two of them resolve to: a built-in one, and one with its dependency. -/
def sampleSelection : Selection :=
  ⟨"/usr/lib/modules/7.2",["d"],[⟨"k/a.ko",[1],false⟩,⟨"k/b.ko",[2],true⟩]⟩

/-- This is exactly what is asked for. -/
theorem resolve_exact_sample : resolve "7.2" (.ok sampleTree) ["d","b"]=.ok sampleSelection ∧
    Exact sampleTree ["d","b"] sampleSelection := by
  have h : resolve "7.2" (.ok sampleTree) ["d","b"]=.ok sampleSelection := by decide +kernel
  exact ⟨h,(resolve_exact "7.2" sampleTree ["d","b"]).1 _ h⟩

/-- A name that starts with an underscore resolves, but not when that is written
as a dash. -/
theorem resolve_dash : (∃ sel, resolve "7.2" (.ok sampleTree) ["_c"]=.ok sel) ∧
    "_c".map (fun c => if c = '_' then '-' else c)="-c" ∧
    resolve "7.2" (.ok sampleTree) ["-c"]=fail (.invalidName "-c") := by
  have hsome : (resolve "7.2" (.ok sampleTree) ["_c"]).toOption.isSome=true := by decide +kernel
  exact ⟨exists_ok hsome,by decide +kernel,by decide +kernel⟩

end Arma.Modules.Selected
