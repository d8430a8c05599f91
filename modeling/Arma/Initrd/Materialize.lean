import Arma.Base.Ordered
import Arma.Base.Paths
import Arma.Initrd.Newc
import Arma.Kernel.Image
import Arma.Kernel.Release

/-!
# The initramfs of an image

The input is an archive, which is checked and passed on, or a static executable,
which is wrapped in an archive as `/init`. With modules the archive also has a
file for each of them, and the directories on the way. The ELF parser and the
decompressors are parameters.
-/

namespace Arma.Initrd.Materialize

open Base.ByteString Base.Checked Base.Ordered Base.Paths Base.Text Kernel.Image Kernel.Release
  Initrd.Newc

/-- Errors from initrd materialization. -/
inductive InitrdError where
  /-- `init binary is {0} bytes; ...`. -/
  | initTooLarge (size : ℕ)
  /-- `initrd input is neither a cpio newc archive ... nor an ELF binary`. -/
  | unsupportedFormat
  /-- `module options require a static ELF init, not an existing initramfs`. -/
  | modulesRequireStatic
  /-- `unsafe or conflicting module archive path: {0}`. -/
  | modulePath (path : Bytes)
  /-- `initramfs entry exceeds newc field limits or addressable archive size`. -/
  | archiveTooLarge
  /-- `malformed or truncated cpio newc initramfs`. -/
  | malformedArchive
  /-- `initramfs decompression failed: {0}`. -/
  | decompress (error : String)
  /-- `failed to parse ELF initrd input`. -/
  | elfParse
  /-- `ELF init binary is dynamically linked (PT_INTERP = {0}); ...`. -/
  | dynamicallyLinked (interpreter : String)
deriving DecidableEq, Repr

/-- A member of a compressed file, decoded. -/
structure Member (input : Bytes) where
  /-- What it decodes to. -/
  output : Bytes
  /-- `content_size()`. -/
  contentSize : ℕ
  /-- `get_checksum_from_data()`. -/
  checksum : Option ℕ
  /-- `get_calculated_checksum()`. -/
  calculated : Option ℕ
  /-- What follows the member. -/
  rest : Bytes
  /-- A member is not empty. -/
  shorter : rest.length < input.length

/-- The libraries that read foreign formats. -/
structure InitrdLib where
  /-- `Elf::parse`. -/
  elfParse : Bytes → Option Elf
  /-- `elf.interpreter`. -/
  interpreter : Bytes → Option String
  /-- `GzDecoder`. -/
  gunzip : (input : Bytes) → Except String (Member input)
  /-- `StreamingDecoder`. -/
  unzstd : (input : Bytes) → Except String (Member input)

/-- `PT_INTERP`. -/
def ptInterp : UInt32 := 3

/-- `true` iff the bytes begin with the magic of an archive. -/
def isCpio (bytes : Bytes) : Bool := newcMagic.isPrefixOf bytes

/-- `true` iff the bytes begin with the magic of an ELF file. -/
def isElf (bytes : Bytes) : Bool := elfMagic.isPrefixOf bytes

/-- A static executable names no interpreter. -/
def checkStaticElf (lib : InitrdLib) (bytes : Bytes) : Outcome InitrdError Unit := do
  let elf ← okOr (lib.elfParse bytes) .elfParse
  if elf.programHeaders.any (fun ph => ph.type==ptInterp)=true then
    fail (.dynamicallyLinked ((lib.interpreter bytes).getD "<unknown>"))
  else .ok ()

/-- Decode the members of a gzip file behind what was decoded before. -/
def gunzipAll (lib : InitrdLib) (remaining decoded : Bytes) : Outcome InitrdError Bytes :=
  if remaining=[] then .ok decoded
  else
    match lib.gunzip remaining with
    | .error e => fail (.decompress e)
    | .ok m => gunzipAll lib (skipPadding m.rest) (decoded++m.output)
termination_by remaining.length
decreasing_by
  have hlt := m.shorter
  have hle := length_skipPadding m.rest
  omega

/-- What the decoder of a zstd frame leaves unchecked: the reserved bit, the size
that the frame declares and its checksum. -/
def checkFrame (descriptor : UInt8) {input : Bytes} (m : Member input) :
    Outcome InitrdError Unit := do
  if (descriptor &&& 0xe0)≠0 ∧ m.contentSize≠m.output.length then fail .malformedArchive
  else if m.checksum≠none ∧ m.calculated≠m.checksum then
    fail (.decompress "zstd initramfs checksum mismatch")
  else .ok ()

/-- Decode the frames of a zstd file behind what was decoded before. -/
def unzstdAll (lib : InitrdLib) (remaining decoded : Bytes) : Outcome InitrdError Bytes :=
  if remaining=[] then .ok decoded
  else do
    let descriptor ← okOr remaining[4]? .malformedArchive
    if (descriptor &&& 0x08)≠0 then fail .malformedArchive
    else
      match lib.unzstd remaining with
      | .error e => fail (.decompress e)
      | .ok m => do
        checkFrame descriptor m
        unzstdAll lib (skipPadding m.rest) (decoded++m.output)
termination_by remaining.length
decreasing_by
  have hlt := m.shorter
  have hle := length_skipPadding m.rest
  omega

/-- A directory. -/
def dirMode : ℕ := 0o040755

/-- A character device. -/
def consoleMode : ℕ := 0o020666

/-- An executable. -/
def initMode : ℕ := 0o100755

/-- A regular file. -/
def fileMode : ℕ := 0o100644

/-- `wrap_as_cpio`. -/
def wrapAsCpio (initBinary : Bytes) : Bytes :=
  let out := cpioEntry [] ⟨1,dirMode,3,".",[],none⟩
  let out := cpioEntry out ⟨2,dirMode,2,"dev",[],none⟩
  let out := cpioEntry out ⟨3,consoleMode,1,"dev/console",[],some (5,1)⟩
  let out := cpioEntry out ⟨4,initMode,1,"init",initBinary,none⟩
  cpioEntry out trailer

/-- `materialize`. -/
def materialize (lib : InitrdLib) (input : Bytes) : Outcome InitrdError Bytes :=
  if isCpio input=true then do
    okOr (validateCpio input) .malformedArchive
    .ok input
  else if ([0x1f,0x8b] : Bytes).isPrefixOf input=true then do
    let decoded ← gunzipAll lib input []
    okOr (validateCpio decoded) .malformedArchive
    .ok input
  else if ([0x28,0xb5,0x2f,0xfd] : Bytes).isPrefixOf input=true then do
    let decoded ← unzstdAll lib input []
    okOr (validateCpio decoded) .malformedArchive
    .ok input
  else if isElf input=true then do
    checkStaticElf lib input
    if 2^32 ≤ input.length then fail (.initTooLarge input.length)
    else .ok (wrapAsCpio input)
  else fail .unsupportedFormat

/-- A selected module, relative to the release-specific source tree. -/
structure Module where
  /-- Its path. -/
  path : Bytes
  /-- Its bytes. -/
  bytes : Bytes
deriving DecidableEq, Repr

/-- `check_module_init`. -/
def checkModuleInit (lib : InitrdLib) (input : Bytes) : Outcome InitrdError Unit :=
  if isElf input=true then checkStaticElf lib input else fail .modulesRequireStatic

/-- `checked_entry_size`. -/
def checkedEntrySize (offset nameLen size : ℕ) : Option ℕ := do
  let namesize ← addWord 64 nameLen 1
  guard (namesize<2^32 ∧ size<2^32)
  let nameStart ← addWord 64 offset 110
  let nameEnd ← addWord 64 nameStart namesize
  let dataStart ← align4 nameEnd
  let dataEnd ← addWord 64 dataStart size
  let stop ← align4 dataEnd
  subWord stop offset

/-- `checked_entry`; a vector has less than `2^63` bytes. -/
def checkedEntry (out : Bytes) (e : Node) : Outcome InitrdError Bytes := do
  let additional ← okOr (checkedEntrySize out.length e.name.utf8ByteSize e.data.length)
    .archiveTooLarge
  if out.length+additional<2^63 then .ok (cpioEntry out e) else fail .archiveTooLarge

/-- `char::is_control`. -/
def isControl (c : Char) : Bool := decide (c.toNat<32 ∨ 127 ≤ c.toNat ∧ c.toNat≤159)

/-- A name for a component of a path on every host. -/
def PartOk (p : String) : Prop :=
  p≠"" ∧ ∀ c∈p.toList, isControl c=false ∧ c≠ '/' ∧ c≠ '\\' ∧ c≠ ':'

instance (p : String) : Decidable (PartOk p) := by unfold PartOk; infer_instance

/-- The name of a component. -/
def partOf (path : Bytes) : Component → Outcome InitrdError String
  | .normal name =>
    okOr ((String.fromUTF8? ⟨name.toArray⟩).filter fun p => decide (PartOk p)) (.modulePath path)
  | _ => fail (.modulePath path)

/-- The path of a module in the archive. -/
def archivePath (release : String) (module : Module) : Outcome InitrdError String := do
  let parts ← (components module.path).mapM (partOf module.path)
  if parts=[] then fail (.modulePath module.path)
  else .ok ("usr/lib/modules/"++release++"/"++"/".intercalate parts)

/-- The directories and the files of an archive. -/
structure Tree where
  /-- `directories`. -/
  directories : OrdSet String
  /-- `files`. -/
  files : OrdMap String Bytes

/-- Enter a module. -/
def addModule (release : String) (t : Tree) (module : Module) : Outcome InitrdError Tree := do
  let path ← archivePath release module
  let directories := t.directories.addAll (ancestors path)
  match t.files.get? path with
  | some previous =>
    if previous≠module.bytes then fail (.modulePath (utf8 path))
    else .ok ⟨directories,t.files.insert path module.bytes⟩
  | none => .ok ⟨directories,t.files.insert path module.bytes⟩

/-- `directory.rsplit_once('/').map_or(".", |(p, _)| p)`. -/
def up (directory : String) : String := (parent directory).getD "."

/-- Count a directory for the one it is in. -/
def countLink (links : OrdMap String ℕ) (directory : String) :
    Outcome InitrdError (OrdMap String ℕ) :=
  if directory="." then .ok links
  else do
    let count ← okOr (addWord 32 ((links.get? (up directory)).getD 2) 1) .archiveTooLarge
    .ok (links.insert (up directory) count)

/-- Write an entry under the next inode number. -/
def numbered (st : Bytes×ℕ) (mode nlink : ℕ) (name : String) (bytes : Bytes)
    (rdev : Option (ℕ×ℕ)) : Outcome InitrdError (Bytes×ℕ) := do
  let ino ← okOr (addWord 32 st.2 1) .archiveTooLarge
  let out ← checkedEntry st.1 ⟨ino,mode,nlink,name,bytes,rdev⟩
  .ok (out,ino)

/-- Write the archive of a tree. -/
def writeTree (input : Bytes) (t : Tree) : Outcome InitrdError Bytes := do
  let links ← t.directories.keys.foldlM countLink OrdMap.empty
  let st ← t.directories.keys.foldlM
    (fun st directory => numbered st dirMode ((links.get? directory).getD 2) directory [] none)
    ([],0)
  let st ← numbered st consoleMode 1 "dev/console" [] (some (5,1))
  let st ← numbered st initMode 1 "init" input none
  let st ← t.files.entries.foldlM (fun st e => numbered st fileMode 1 e.1 e.2 none) st
  checkedEntry st.1 trailer

/-- `materialize_modules`. -/
def materializeModules (lib : InitrdLib) (input : Bytes) (release : String)
    (modules : List Module) : Outcome InitrdError Bytes := do
  checkModuleInit lib input
  let _ ← okOr (checkedEntrySize 0 4 input.length) .archiveTooLarge
  if modules=[] then materialize lib input
  else do
    context (fun _ => .modulePath (utf8 release)) (validateComponent release)
    let t ← modules.foldlM (addModule release) ⟨.ofList [".","dev"],.empty⟩
    if t.files.keys.any t.directories.contains=true then
      fail (.modulePath (utf8 "file/directory collision"))
    else writeTree input t

end Arma.Initrd.Materialize
