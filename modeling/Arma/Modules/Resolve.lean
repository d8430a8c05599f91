import Arma.Base.Closure
import Arma.Kernel.Release
import Arma.Modules.Index

/-!
# Resolving module names

The requested names are looked up in both index files. A module that is not
built in comes with everything it depends on. The whole index is checked, also
where it is not needed.
-/

namespace Arma.Modules.Resolve

open Base.ByteString Base.Checked Base.Closure Base.Ordered Index Kernel.Release

/-- What a tree has at a path. -/
inductive Entry where
  | dir
  | file (bytes : Bytes)
  | symlink
  | other
deriving DecidableEq, Repr

/-- A module tree, at its canonical path. -/
structure Tree where
  /-- Where the tree is. -/
  path : String
  /-- What it has at a relative path. -/
  entry : String → Option Entry

/-- A module file with what it was read for. -/
structure ModuleFile where
  /-- Path in the tree. -/
  relative : String
  /-- Its contents. -/
  bytes : Bytes
  /-- It was requested, and is not only a dependency. -/
  isRoot : Bool
deriving DecidableEq, Repr

/-- What a request resolves to. -/
structure Selection where
  /-- Where the tree is. -/
  tree : String
  /-- Requested modules that the kernel contains. -/
  builtins : List String
  /-- The other requested modules and their dependencies. -/
  files : List ModuleFile
deriving DecidableEq, Repr

/-- `validate_release`. -/
def validateRelease (release : String) : Outcome ModuleError Unit :=
  context (fun _ => .unsafeRelease release) (validateComponent release)

/-- Parts of a path, joined. -/
def joinSegments (l : List String) : String :=
  .ofList (List.intercalate ['/'] (l.map String.toList))

/-- Directories on the way and a file at the end; a link is neither. -/
def isExpected : Entry → List String → Bool
  | .file _,[] => true
  | .dir,_::_ => true
  | _,_ => false

/-- Check every step on the way to a file. A canonical tree without links on the
way cannot be left. -/
def checkEntries (tree : Tree) (before : List String) : List String → Outcome ModuleError Unit
  | [] => .ok ()
  | s::rest => do
    let path := joinSegments (before++[s])
    let entry ← okOr (tree.entry path) (.notFound path)
    if isExpected entry rest=true then checkEntries tree (before++[s]) rest
    else fail (.nonregular path)

/-- A path leads to a file of the tree. -/
def checkedFile (tree : Tree) (relative : String) : Outcome ModuleError Unit := do
  validatePath relative
  checkEntries tree [] (segments relative)

/-- `u32::MAX`. -/
def maxFile : ℕ := 2^32-1

/-- Read a file of the tree. -/
def readFile (tree : Tree) (relative : String) : Outcome ModuleError Bytes := do
  checkedFile tree relative
  match tree.entry relative with
  | some (.file bytes) => if bytes.length ≤ maxFile then .ok bytes else fail (.tooLarge relative)
  | _ => fail (.notFound relative)

/-- Read a file of the tree as text. -/
def metadata (tree : Tree) (name : String) : Outcome ModuleError String := do
  let bytes ← readFile tree name
  okOr (String.fromUTF8? ⟨bytes.toArray⟩) (.invalidUtf8 name)

/-- The dependencies of a path, in order. -/
def succ (definitions : Definitions) (path : String) : Option (List String) :=
  (definitions.get? path).map OrdMap.keys

/-- Everything the roots depend on, with the roots; a cycle is an error. -/
def closure (definitions : Definitions) (roots : List String) :
    Outcome ModuleError (OrdSet String) :=
  walkAll (succ definitions) .dependencyCycle (enough (succ definitions) definitions.keys) roots
    OrdMap.empty OrdMap.empty

/-- Every definition is of a file, and so is every dependency. -/
def checkDefinitions (tree : Tree) (definitions : Definitions) : Outcome ModuleError Unit :=
  definitions.entries.forM fun d => do
    checkedFile tree d.1
    d.2.keys.forM fun dependency =>
      if definitions.contains dependency=true then .ok ()
      else fail (.missingDependency dependency d.1)

/-- The requested modules: the names of those that are built in, and the paths of
the others. -/
def pick (names : OrdMap String (Option String)) :
    List String → List String → OrdSet String → Outcome ModuleError (List String×OrdSet String)
  | [],builtins,selected => .ok (builtins,selected)
  | root::roots,builtins,selected =>
    match names.get? root with
    | some (some path) => pick names roots builtins (selected.add path)
    | some none => pick names roots (builtins++[root]) selected
    | none => fail (.unknownModule root)

/-- Read the files of a closure. -/
def readFiles (tree : Tree) (selected : OrdSet String) (paths : List String) :
    Outcome ModuleError (List ModuleFile) :=
  paths.mapM fun relative => do
    let bytes ← readFile tree relative
    .ok ⟨relative,bytes,selected.contains relative⟩

/-- Choose from the index what is requested. -/
def select (tree : Tree) (roots : OrdSet String) (index : Indexed) :
    Outcome ModuleError Selection := do
  checkDefinitions tree index.definitions
  let _ ← closure index.definitions index.definitions.keys
  let (builtins,selected) ← pick index.names roots.keys [] OrdMap.empty
  let paths ← closure index.definitions selected.keys
  let files ← readFiles tree selected paths.keys
  .ok ⟨tree.path,builtins,files⟩

/-- Read both index files. -/
def readIndex (tree : Tree) (roots : OrdSet String) : Outcome ModuleError Indexed := do
  let dep ← metadata tree "modules.dep"
  let st ← (lines dep).foldlM (depLine roots) ⟨OrdMap.empty,OrdMap.empty⟩
  let builtin ← metadata tree "modules.builtin"
  let names ← (lines builtin).foldlM (builtinLine roots) st.names
  .ok ⟨st.definitions,names⟩

/-- Resolve the requested names. The tree is the one that was given, or the only
one that was found for the release. -/
def resolve (release : String) (located : Outcome ModuleError Tree) (roots : List String) :
    Outcome ModuleError Selection := do
  validateRelease release
  let names ← roots.mapM validateName
  let tree ← located
  let index ← readIndex tree (OrdSet.ofList names)
  select tree (OrdSet.ofList names) index

end Arma.Modules.Resolve
