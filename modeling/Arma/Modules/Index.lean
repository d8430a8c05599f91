import Mathlib.Data.String.Basic
import Arma.Base.ByteString
import Arma.Base.Checked
import Arma.Base.Ordered

/-!
# The index of a module tree

Two index files say which modules there are. Each line of `modules.dep` has the
path of a module and the paths of those it depends on; each line of
`modules.builtin` has the path of a module that the kernel contains. A module
has its name from its path, and names do not distinguish `-` from `_`.
-/

namespace Arma.Modules.Index

open Base.ByteString Base.Checked Base.Ordered

/-- What is wrong with a request or a tree. -/
inductive ModuleError where
  /-- `invalid module name {name:?}`. -/
  | invalidName (name : String)
  /-- `unsafe kernel release {release:?}: {error}`. -/
  | unsafeRelease (release : String)
  /-- `malformed modules.dep line {line:?}`. -/
  | malformedLine (line : String)
  /-- `duplicate dependency {dependency:?}`. -/
  | duplicateDependency (dependency : String)
  /-- `duplicate definition {path:?}`. -/
  | duplicateDefinition (path : String)
  /-- `ambiguous module name {name:?}`. -/
  | ambiguousName (name : String)
  /-- `missing dependency definition {dependency:?} from {path:?}`. -/
  | missingDependency (dependency path : String)
  /-- `module dependency cycle at {path:?}`. -/
  | dependencyCycle (path : String)
  /-- `unknown module {root:?}`. -/
  | unknownModule (root : String)
  /-- `unsafe POSIX module path {path:?}`. -/
  | unsafePath (path : String)
  /-- `unsupported module suffix {path:?}`. -/
  | unsupportedSuffix (path : String)
  /-- `{path}: {error}`, of the file system. -/
  | notFound (path : String)
  /-- `symlink or nonregular module tree entry: {path}`. -/
  | nonregular (path : String)
  /-- `not a regular newc-sized file: {path}`. -/
  | tooLarge (path : String)
  /-- `invalid UTF-8 in {name}: {error}`. -/
  | invalidUtf8 (name : String)
deriving DecidableEq, Repr

/-- `[A-Za-z0-9_]`. -/
def isWord (c : Char) : Bool := c.isAlphanum || c == '_'

/-- `name.replace('-', "_")`. -/
def underscored (name : String) : String :=
  .ofList (name.toList.map fun c => if c = '-' then '_' else c)

/-- `[A-Za-z0-9_][A-Za-z0-9_-]*`; the name with every `-` replaced. -/
def validateName (name : String) : Outcome ModuleError String :=
  match name.toList with
  | [] => fail (.invalidName name)
  | c::cs =>
    if isWord c=true ∧ ∀ d∈cs, isWord d=true ∨ d = '-' then .ok (underscored name)
    else fail (.invalidName name)

/-- The parts of a string between its slashes. -/
def segments (path : String) : List String := (path.toList.splitOn '/').map .ofList

/-- A byte that may stand in a path. -/
def isPathChar (c : Char) : Bool := c.isAlphanum || c == '.' || c == '_' || c == '+' || c == '-'

/-- A part of a safe path. -/
def SafeSegment (s : String) : Prop :=
  s≠"" ∧ s≠"." ∧ s≠".." ∧ ∀ c∈s.toList, isPathChar c=true

instance (s : String) : Decidable (SafeSegment s) := by unfold SafeSegment; infer_instance

/-- A relative path without surprises. -/
def SafePath (path : String) : Prop := path≠"" ∧ ∀ s∈segments path, SafeSegment s

instance (path : String) : Decidable (SafePath path) := by unfold SafePath; infer_instance

/-- Reject any other path. -/
def validatePath (path : String) : Outcome ModuleError Unit :=
  if SafePath path then .ok () else fail (.unsafePath path)

/-- `strip_suffix`. -/
def stripSuffix (s suffix : String) : Option String :=
  if suffix.toList<:+s.toList then
    some (.ofList (s.toList.take (s.toList.length-suffix.toList.length)))
  else none

/-- The suffixes of a module file. -/
def suffixes : List String := [".ko",".ko.xz",".ko.gz",".ko.zst"]

/-- The name of the module at a path. -/
def modulePath (path : String) : Outcome ModuleError String := do
  validatePath path
  let filename := (segments path).getLastD ""
  let stem ← okOr (suffixes.findSome? (stripSuffix filename)) (.unsupportedSuffix path)
  validateName stem

/-- A line without its end, which is in reverse; a `\r` in front of the `\n` goes
with it. -/
def closeLine : List Char → String
  | '\r'::cs => .ofList cs.reverse
  | cs => .ofList cs.reverse

/-- The lines of a text, behind an open one that is in reverse. -/
def linesFrom (line : List Char) : List Char → List String
  | [] => if line=[] then [] else [.ofList line.reverse]
  | c::cs => if c = '\n' then closeLine line::linesFrom [] cs else linesFrom (c::line) cs

/-- The lines of a text. -/
def lines (text : String) : List String := linesFrom [] text.toList

/-- `[ \t\n\x0C\r]`. -/
def isAsciiWhitespace (c : Char) : Bool :=
  c == ' ' || c == '\t' || c == '\n' || c.toNat==12 || c == '\r'

/-- The words of a text, behind an open one that is in reverse. -/
def wordsFrom (word : List Char) : List Char → List String
  | [] => if word=[] then [] else [.ofList word.reverse]
  | c::cs =>
    if isAsciiWhitespace c=true then
      (if word=[] then [] else [.ofList word.reverse])++wordsFrom [] cs
    else wordsFrom (c::word) cs

/-- `split_ascii_whitespace`. -/
def words (text : String) : List String := wordsFrom [] text.toList

/-- `line.split_once(':')`, and the words behind it. -/
def splitLine (line : String) : Option (String×List String) :=
  if ':'∈line.toList then
    some (.ofList (line.toList.takeWhile (· != ':')),
      words (.ofList ((line.toList.dropWhile (· != ':')).drop 1)))
  else none

/-- Definitions: the dependencies of each path. -/
abbrev Definitions : Type := OrdMap String (OrdSet String)

/-- What the index says: the definitions, and the requested names with the path
of each one that is not built in. -/
structure Indexed where
  /-- `definitions`. -/
  definitions : Definitions
  /-- `names`. -/
  names : OrdMap String (Option String)

/-- The dependencies on a line are paths of modules, each once. -/
def dependencyEdges : List String → OrdSet String → Outcome ModuleError (OrdSet String)
  | [],edges => .ok edges
  | dependency::rest,edges => do
    let _ ← modulePath dependency
    if edges.contains dependency=true then fail (.duplicateDependency dependency)
    else dependencyEdges rest (edges.add dependency)

/-- Enter a name if it is requested; it must not have been entered before. -/
def insertName (names : OrdMap String (Option String)) (roots : OrdSet String) (name : String)
    (path : Option String) : Outcome ModuleError (OrdMap String (Option String)) :=
  if roots.contains name=true then
    if (names.get? name).isSome=true then fail (.ambiguousName name)
    else .ok (names.insert name path)
  else .ok names

/-- A line of `modules.dep` that is not empty: path, name and dependencies. -/
def parseDep (line : String) : Outcome ModuleError (String×String×OrdSet String) := do
  let (path,dependencies) ← okOr (splitLine line) (.malformedLine line)
  let name ← modulePath path
  let edges ← dependencyEdges dependencies OrdMap.empty
  .ok (path,name,edges)

/-- Read a line of `modules.dep`. -/
def depLine (roots : OrdSet String) (st : Indexed) (line : String) :
    Outcome ModuleError Indexed :=
  if line="" then .ok st
  else do
    let (path,name,edges) ← parseDep line
    if st.definitions.contains path=true then fail (.duplicateDefinition path)
    else do
      let names ← insertName st.names roots name (some path)
      .ok ⟨st.definitions.insert path edges,names⟩

/-- Read a line of `modules.builtin`. -/
def builtinLine (roots : OrdSet String) (names : OrdMap String (Option String)) (line : String) :
    Outcome ModuleError (OrdMap String (Option String)) :=
  if line="" then .ok names
  else do
    let name ← modulePath line
    insertName names roots name none

/-- A name that is accepted: a word that may have dashes behind its first
character. -/
def ValidName (name : String) : Prop :=
  ∃ c cs, name.toList=c::cs ∧ isWord c=true ∧ ∀ d∈cs, isWord d=true ∨ d = '-'

/-- A name is accepted when it is valid, with its dashes replaced. -/
theorem validateName_ok {name n : String} :
    validateName name=.ok n ↔ ValidName name ∧ n=underscored name := by
  unfold validateName ValidName
  cases hchars : name.toList with
  | nil => simp [fail]
  | cons c cs =>
    dsimp only
    split
    · rename_i h
      rw [Except.ok.injEq,eq_comm]
      exact ⟨fun hn => ⟨⟨c,cs,rfl,h.1,h.2⟩,hn⟩,fun hn => hn.2⟩
    · rename_i h
      refine iff_of_false fail_ne_ok fun hn => ?_
      obtain ⟨⟨d,ds,hds,hword,hall⟩,_⟩ := hn
      cases hds
      exact h ⟨hword,hall⟩

/-- A path is accepted when it is safe. -/
theorem validatePath_ok {path : String} : validatePath path=.ok () ↔ SafePath path := by
  unfold validatePath
  split
  · rename_i h
    exact iff_of_true rfl h
  · rename_i h
    exact iff_of_false fail_ne_ok h

/-- Only a safe path is that of a module. -/
theorem modulePath_safe {path name : String} (h : modulePath path=.ok name) : SafePath path := by
  obtain ⟨u,hu,_⟩ := bind_ok.mp h
  exact validatePath_ok.mp hu

/-- Dependencies are accepted when all of them are modules, and each is there
once. -/
theorem dependencyEdges_ok {ds : List String} {edges edges' : OrdSet String} :
    dependencyEdges ds edges=.ok edges' ↔ (∀ d∈ds, ∃ n, modulePath d=.ok n) ∧ ds.Nodup ∧
      (∀ d∈ds, d∉edges.keys) ∧ edges'=edges.addAll ds := by
  induction ds generalizing edges with
  | nil =>
    rw [dependencyEdges,Except.ok.injEq]
    simp [OrdMap.addAll,eq_comm]
  | cons d ds ih =>
    rw [dependencyEdges,bind_ok,List.nodup_cons,List.forall_mem_cons,List.forall_mem_cons]
    have hadd : edges.addAll (d::ds)=(edges.add d).addAll ds := rfl
    rw [hadd]
    constructor
    · rintro ⟨n,hn,h⟩
      split at h
      · exact absurd h fail_ne_ok
      · rename_i hnew
        obtain ⟨hall,hnodup,hfresh,rfl⟩ := ih.mp h
        refine ⟨⟨⟨n,hn⟩,hall⟩,⟨fun hd => hfresh d hd (OrdMap.mem_add.mpr (.inl rfl)),hnodup⟩,
          ⟨fun hd => hnew (OrdMap.contains_iff.mpr hd),fun q hq hmem =>
            hfresh q hq (OrdMap.mem_add.mpr (.inr hmem))⟩,rfl⟩
    · rintro ⟨⟨⟨n,hn⟩,hall⟩,⟨hd,hnodup⟩,⟨hnew,hfresh⟩,rfl⟩
      refine ⟨n,hn,?_⟩
      rw [if_neg fun h => hnew (OrdMap.contains_iff.mp h)]
      refine ih.mpr ⟨hall,hnodup,fun q hq hmem => ?_,rfl⟩
      obtain rfl | hmem := OrdMap.mem_add.mp hmem
      · exact hd hq
      · exact hfresh q hq hmem

/-- What a well-formed line of `modules.dep` has. -/
theorem parseDep_ok {line path name : String} {edges : OrdSet String} :
    parseDep line=.ok (path,name,edges) ↔ ∃ ds, splitLine line=some (path,ds) ∧
      modulePath path=.ok name ∧ (∀ d∈ds, ∃ n, modulePath d=.ok n) ∧ ds.Nodup ∧
      edges=OrdSet.ofList ds := by
  unfold parseDep
  rw [bind_ok]
  constructor
  · rintro ⟨⟨path',ds⟩,hsplit,h⟩
    obtain ⟨name',hname,h⟩ := bind_ok.mp h
    obtain ⟨edges',hedges,h⟩ := bind_ok.mp h
    cases h
    obtain ⟨hall,hnodup,_,rfl⟩ := dependencyEdges_ok.mp hedges
    exact ⟨ds,okOr_ok.mp hsplit,hname,hall,hnodup,rfl⟩
  · rintro ⟨ds,hsplit,hname,hall,hnodup,rfl⟩
    refine ⟨_,okOr_ok.mpr hsplit,bind_ok.mpr ⟨name,hname,bind_ok.mpr ⟨_,?_,rfl⟩⟩⟩
    exact dependencyEdges_ok.mpr ⟨hall,hnodup,fun d _ hd => absurd hd List.not_mem_nil,rfl⟩

/-- The definition on a line of `modules.dep`, if there is one. -/
def definitionOf (line : String) : Option (String×String×OrdSet String) :=
  if line="" then none else (parseDep line).toOption

/-- The name on a line of `modules.builtin`, if there is one. -/
def builtinOf (line : String) : Option String :=
  if line="" then none else (modulePath line).toOption

/-- The names that are requested. -/
def requested (roots : OrdSet String) (events : List (String×Option String)) :
    List (String×Option String) := events.filter fun e => roots.contains e.1

/-- The definitions of a text, by path. -/
def byPath (ls : List String) : List (String×OrdSet String) :=
  (ls.filterMap definitionOf).map fun d => (d.1,d.2.2)

/-- The definitions of a text, by name. -/
def byName (ls : List String) : List (String×Option String) :=
  (ls.filterMap definitionOf).map fun d => (d.2.1,some d.1)

/-- The built-in modules of a text, by name. -/
def builtinNames (ls : List String) : List (String×Option String) :=
  (ls.filterMap builtinOf).map fun n => (n,none)

/-- A name is entered when it is not requested or new. -/
theorem insertName_ok {names names' : OrdMap String (Option String)} {roots : OrdSet String}
    {name : String} {path : Option String} : insertName names roots name path=.ok names' ↔
      names.insertAllNew (requested roots [(name,path)])=some names' := by
  unfold insertName requested
  by_cases hroot : roots.contains name=true
  · have hone : [(name,path)].filter (fun e => roots.contains e.1)=[(name,path)] :=
      List.filter_cons_of_pos hroot
    rw [if_pos hroot,hone,OrdMap.insertAllNew_singleton]
    unfold OrdMap.insertNew OrdMap.contains
    split
    · exact iff_of_false fail_ne_ok (by simp)
    · rw [Except.ok.injEq,Option.some.injEq]
  · have hnone : [(name,path)].filter (fun e => roots.contains e.1)=[] :=
      List.filter_cons_of_neg hroot
    rw [if_neg hroot,hnone,OrdMap.insertAllNew_nil,Except.ok.injEq,Option.some.injEq]

/-- A line of `modules.dep` is read when it is well formed, its path new, and its
name not requested or new. -/
theorem depLine_ok {roots : OrdSet String} {st st' : Indexed} {line : String} :
    depLine roots st line=.ok st' ↔ (line≠"" → ∃ d, parseDep line=.ok d) ∧
      st.definitions.insertAllNew (byPath [line])=some st'.definitions ∧
      st.names.insertAllNew (requested roots (byName [line]))=some st'.names := by
  obtain ⟨definitions',names'⟩ := st'
  unfold depLine byPath byName
  by_cases hline : line=""
  · have hnone : [line].filterMap definitionOf=[] := by
      rw [List.filterMap_cons,definitionOf,if_pos hline]
      rfl
    rw [if_pos hline,hnone]
    obtain ⟨definitions,names⟩ := st
    simp [hline,requested]
  · cases hparse : parseDep line with
    | error e =>
      rw [if_neg hline]
      refine iff_of_false (fun h => by cases h) fun h => ?_
      obtain ⟨d,hd⟩ := h.1 hline
      cases hd
    | ok d =>
      obtain ⟨path,name,edges⟩ := d
      have hone : [line].filterMap definitionOf=[(path,name,edges)] := by
        rw [List.filterMap_cons,definitionOf,if_neg hline,hparse]
        rfl
      rw [if_neg hline,hone,List.map_singleton,List.map_singleton,OrdMap.insertAllNew_singleton]
      change (if st.definitions.contains path=true then
        fail (ModuleError.duplicateDefinition path) else _)=_ ↔ _
      unfold OrdMap.insertNew
      split
      · exact iff_of_false fail_ne_ok fun h => by cases h.2.1
      · rw [bind_ok]
        simp only [insertName_ok,Except.ok.injEq,Indexed.mk.injEq,Option.some.injEq]
        constructor
        · rintro ⟨ns,hns,rfl,rfl⟩
          exact ⟨fun _ => ⟨_,rfl⟩,rfl,hns⟩
        · rintro ⟨_,rfl,hns⟩
          exact ⟨names',hns,rfl,rfl⟩

/-- A line of `modules.builtin` is read when it is well formed and its name not
requested or new. -/
theorem builtinLine_ok {roots : OrdSet String} {names names' : OrdMap String (Option String)}
    {line : String} : builtinLine roots names line=.ok names' ↔
      (line≠"" → ∃ n, modulePath line=.ok n) ∧
      names.insertAllNew (requested roots (builtinNames [line]))=some names' := by
  unfold builtinLine builtinNames
  by_cases hline : line=""
  · have hnone : [line].filterMap builtinOf=[] := by
      rw [List.filterMap_cons,builtinOf,if_pos hline]
      rfl
    rw [if_pos hline,hnone]
    simp [hline,requested]
  · cases hparse : modulePath line with
    | error e =>
      rw [if_neg hline]
      refine iff_of_false (fun h => by cases h) fun h => ?_
      obtain ⟨d,hd⟩ := h.1 hline
      cases hd
    | ok n =>
      have hone : [line].filterMap builtinOf=[n] := by
        rw [List.filterMap_cons,builtinOf,if_neg hline,hparse]
        rfl
      rw [if_neg hline,hone,List.map_singleton]
      change insertName names roots n none=_ ↔ _
      rw [insertName_ok]
      exact ⟨fun h => ⟨fun _ => ⟨n,rfl⟩,h⟩,fun h => h.2⟩

/-- All lines of `modules.dep` are read when they are well formed, their paths
distinct, and the requested names among theirs distinct. -/
theorem depLines_ok {roots : OrdSet String} {ls : List String} {st st' : Indexed} :
    ls.foldlM (depLine roots) st=.ok st' ↔
      (∀ line∈ls, line≠"" → ∃ d, parseDep line=.ok d) ∧
      st.definitions.insertAllNew (byPath ls)=some st'.definitions ∧
      st.names.insertAllNew (requested roots (byName ls))=some st'.names := by
  induction ls generalizing st with
  | nil =>
    obtain ⟨definitions,names⟩ := st
    obtain ⟨definitions',names'⟩ := st'
    simp [byPath,byName,requested,pure,Except.pure]
  | cons line ls ih =>
    have hpath : byPath (line::ls)=byPath [line]++byPath ls := by
      rw [byPath,byPath,byPath,←List.map_append,←List.filterMap_append]
      rfl
    have hname : requested roots (byName (line::ls))=
        requested roots (byName [line])++requested roots (byName ls) := by
      rw [requested,requested,requested,byName,byName,byName,←List.filter_append,←List.map_append,
        ←List.filterMap_append]
      rfl
    rw [List.foldlM_cons,bind_ok,hpath,hname,OrdMap.insertAllNew_append,OrdMap.insertAllNew_append]
    simp only [depLine_ok,ih,List.forall_mem_cons,Option.bind_eq_some_iff]
    constructor
    · rintro ⟨mid,⟨hline,hdefs,hnames⟩,hlines,hdefs',hnames'⟩
      exact ⟨⟨hline,hlines⟩,⟨_,hdefs,hdefs'⟩,⟨_,hnames,hnames'⟩⟩
    · rintro ⟨⟨hline,hlines⟩,⟨defs,hdefs,hdefs'⟩,⟨names,hnames,hnames'⟩⟩
      exact ⟨⟨defs,names⟩,⟨hline,hdefs,hnames⟩,hlines,hdefs',hnames'⟩

/-- All lines of `modules.builtin` are read when they are well formed and the
requested names among theirs are new. -/
theorem builtinLines_ok {roots : OrdSet String} {ls : List String}
    {names names' : OrdMap String (Option String)} :
    ls.foldlM (builtinLine roots) names=.ok names' ↔
      (∀ line∈ls, line≠"" → ∃ n, modulePath line=.ok n) ∧
      names.insertAllNew (requested roots (builtinNames ls))=some names' := by
  induction ls generalizing names with
  | nil => simp [builtinNames,requested,pure,Except.pure]
  | cons line ls ih =>
    have hname : requested roots (builtinNames (line::ls))=
        requested roots (builtinNames [line])++requested roots (builtinNames ls) := by
      rw [requested,requested,requested,builtinNames,builtinNames,builtinNames,←List.filter_append,
        ←List.map_append,←List.filterMap_append]
      rfl
    rw [List.foldlM_cons,bind_ok,hname,OrdMap.insertAllNew_append]
    simp only [builtinLine_ok,ih,List.forall_mem_cons,Option.bind_eq_some_iff]
    constructor
    · rintro ⟨mid,⟨hline,hmid⟩,hlines,hrest⟩
      exact ⟨⟨hline,hlines⟩,mid,hmid,hrest⟩
    · rintro ⟨⟨hline,hlines⟩,mid,hmid,hrest⟩
      exact ⟨mid,⟨hline,hmid⟩,hlines,hrest⟩

end Arma.Modules.Index
