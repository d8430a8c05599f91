import Mathlib.Tactic.Common
import Arma.Base.ByteString
import Arma.Base.Checked
import Arma.Base.Decimal

/-!
# PE32+ writer

Names, header sizes and raw offsets are computed first; the file is then
composed by copying headers, section data and the string table into a zeroed
buffer. A copy that leaves the buffer panics.
-/

namespace Arma.Pe.Writer

open Base.ByteString Base.Checked Base.Decimal

/-- One section to emit. -/
structure Section where
  /-- Name in the section table. -/
  name : String
  /-- Guest-physical address. -/
  vaddr : ℕ
  /-- Size in memory. -/
  virtualSize : ℕ
  /-- Bytes in the file; empty for zero-filled sections. -/
  data : Bytes
  /-- Section flags. -/
  characteristics : UInt32
  /-- The section is not loaded; its address in the file is zero. -/
  nonLoaded : Bool
deriving DecidableEq, Repr

/-- `str::as_bytes`. -/
def asBytes (s : String) : Bytes := s.toUTF8.data.toList

/-- The section has no bytes in the file. -/
def Section.isZeroShape (s : Section) : Bool := s.data.isEmpty

/-- `IMAGE_SCN_CNT_CODE`. -/
def imageScnCntCode : UInt32 := 0x20

/-- `IMAGE_SCN_CNT_INITIALIZED_DATA`. -/
def imageScnCntInitializedData : UInt32 := 0x40

/-- `IMAGE_SCN_CNT_UNINITIALIZED_DATA`. -/
def imageScnCntUninitializedData : UInt32 := 0x80

/-- `IMAGE_FILE_EXECUTABLE_IMAGE | IMAGE_FILE_LARGE_ADDRESS_AWARE |
IMAGE_FILE_DEBUG_STRIPPED`. -/
def fileCharacteristics : ℕ := 0x0222

/-- `IMAGE_SUBSYSTEM_EFI_APPLICATION`. -/
def imageSubsystemEfiApplication : ℕ := 10

/-- `PE32PLUS_MAGIC`. -/
def pe32PlusMagic : ℕ := 0x020B

/-- Alignment of raw data in the file. -/
def fileAlignment : ℕ := 0x1000

/-- Alignment of sections in memory. -/
def sectionAlignment : ℕ := 0x1000

/-- Extent from which a loaded section is large. -/
def largeThreshold : ℕ := 2*1024*1024

/-- Alignment of the raw data of large sections. -/
def largeAlignment : ℕ := 2*1024*1024

/-- The section is loaded, has data and spans at least 2 MiB. -/
def isLargePayload (s : Section) : Bool :=
  !s.nonLoaded && !s.isZeroShape && decide (largeThreshold ≤ max s.virtualSize s.data.length)

/-- Alignment of the raw data of a section. -/
def alignmentFor (s : Section) : ℕ := if isLargePayload s then largeAlignment else fileAlignment

/-- Errors of the writer. -/
inductive PeError where
  /-- `section count {0} exceeds u16::MAX`. -/
  | tooManySections (count : ℕ)
  /-- `offset overflow during PE layout`. -/
  | overflow
  /-- A name contains a NUL byte. -/
  | nulInName (name : String)
  /-- `COFF string-table offset {0} exceeds 7 decimal digits`. -/
  | stringTableOffsetTooLarge (offset : ℕ)
deriving DecidableEq, Repr

/-- Size of the DOS header. -/
def dosSize : ℕ := 64

/-- Size of the COFF header. -/
def coffSize : ℕ := 20

/-- Size of the optional header with its sixteen data directories. -/
def optSize : ℕ := 240

/-- Size of a section header. -/
def sectionHdrSize : ℕ := 40

/-- `PE\\0\\0`. -/
def peSignature : Bytes := [0x50,0x45,0,0]

/-- Round a 32-bit word up to a multiple of the power of two `a`. -/
def alignUpU32 (v a : ℕ) : Option ℕ := (addWord 32 v (a-1)).map (clearBits 32 · (a-1))

/-- Round a 64-bit word up to a multiple of the power of two `a`, saturating. -/
def alignUpU64 (v a : ℕ) : ℕ := clearBits 64 (min (v+(a-1)) (2^64-1)) (a-1)

/-- `u32::try_from`. -/
def tryU32 (v : ℕ) : Outcome PeError ℕ := if v<2^32 then .ok v else fail .overflow

/-- The DOS header: `MZ`, padding and the offset of the PE header. -/
def dosHeader (peOffset : ℕ) : Bytes := leBytes 2 0x5A4D++zeros 58++leBytes 4 peOffset

/-- The COFF header. -/
def coffHeader (machine sections strtabOffset : ℕ) : Bytes :=
  leBytes 2 machine++leBytes 2 sections++leBytes 4 0++leBytes 4 strtabOffset++leBytes 4 0++
    leBytes 2 optSize++leBytes 2 fileCharacteristics

/-- The optional header; all fields not named here are zero. -/
def optionalHeader (sizeOfCode sizeOfInitData sizeOfUninitData sizeOfImage sizeOfHeaders : ℕ) :
    Bytes :=
  leBytes 2 pe32PlusMagic++[1,0]++leBytes 4 sizeOfCode++leBytes 4 sizeOfInitData++
    leBytes 4 sizeOfUninitData++leBytes 4 0++leBytes 4 0++leBytes 8 0++
    leBytes 4 sectionAlignment++leBytes 4 fileAlignment++zeros 16++
    leBytes 4 sizeOfImage++leBytes 4 sizeOfHeaders++leBytes 4 0++
    leBytes 2 imageSubsystemEfiApplication++leBytes 2 0++zeros 32++leBytes 4 0++leBytes 4 16++
    zeros 128

/-- A section header; relocations and line numbers are zero. -/
def sectionHeader (name : Bytes) (virtualSize virtualAddress sizeOfRawData pointerToRawData : ℕ)
    (characteristics : UInt32) : Bytes :=
  name++leBytes 4 virtualSize++leBytes 4 virtualAddress++leBytes 4 sizeOfRawData++
    leBytes 4 pointerToRawData++zeros 12++leBytes 4 characteristics.toNat

/-- An 8-byte name field: the bytes, padded with zeros. -/
def padName (n : Bytes) : Bytes := n++zeros (8-n.length)

/-- Names of at most eight bytes go inline; longer ones go to the string table
and are named by their offset in it. -/
def nameField (s : Section) (strtab : Bytes) : Outcome PeError (Bytes × Bytes) :=
  let n := asBytes s.name
  if n.length≤8 then .ok (padName n,strtab)
  else
    let off := strtab.length
    let sb := 0x2F::decimal off
    if 8 < sb.length then fail (.stringTableOffsetTooLarge off)
    else .ok (padName sb,strtab++n++[0])

/-- The name fields of all sections and the string table behind them. -/
def nameFields : List Section → Bytes → Outcome PeError (List Bytes × Bytes)
  | [],strtab => .ok ([],strtab)
  | s::rest,strtab => do
    let (field,strtab) ← nameField s strtab
    let (fields,strtab) ← nameFields rest strtab
    .ok (field::fields,strtab)

/-- The raw offset and size of one section, and the cursor behind it. -/
def rawExtent (s : Section) (cursor : ℕ) : Outcome PeError ((ℕ × ℕ) × ℕ) :=
  if s.isZeroShape then .ok ((0,0),cursor)
  else do
    let start ← okOr (alignUpU32 cursor (alignmentFor s)) .overflow
    let dataLen ← tryU32 s.data.length
    let rawSize ← okOr (alignUpU32 dataLen fileAlignment) .overflow
    let cursor ← okOr (addWord 32 start rawSize) .overflow
    .ok ((start,rawSize),cursor)

/-- The raw offsets and sizes of all sections in order, and the final cursor. -/
def rawExtents : List Section → ℕ → Outcome PeError (List (ℕ × ℕ) × ℕ)
  | [],cursor => .ok ([],cursor)
  | s::rest,cursor => do
    let (extent,cursor) ← rawExtent s cursor
    let (extents,cursor) ← rawExtents rest cursor
    .ok (extent::extents,cursor)

/-- End of the loaded sections in memory, at least the size of the headers. -/
def imageEnd (sections : List Section) (sizeOfHeaders : ℕ) : ℕ :=
  sections.foldl (fun size s =>
    if s.nonLoaded then size
    else max size (min (s.vaddr+alignUpU64 s.virtualSize sectionAlignment) (2^64-1))) sizeOfHeaders

/-- `SizeOfImage`, capped at 32 bits. -/
def sizeOfImage (sections : List Section) (sizeOfHeaders : ℕ) : ℕ :=
  min (alignUpU64 (imageEnd sections sizeOfHeaders) sectionAlignment) (2^32-1)

/-- The data size of a section, aligned like its raw data. -/
def alignedDataSize (s : Section) : Outcome PeError ℕ := do
  let len ← tryU32 s.data.length
  okOr (alignUpU32 len (alignmentFor s)) .overflow

/-- The memory size of a section, aligned. -/
def alignedVirtualSize (s : Section) : Outcome PeError ℕ := do
  let vsz ← tryU32 s.virtualSize
  okOr (alignUpU32 vsz sectionAlignment) .overflow

/-- Add the size of a section to a total when it has the flag. -/
def addSize (flag : UInt32) (size : Section → Outcome PeError ℕ) (s : Section) (total : ℕ) :
    Outcome PeError ℕ :=
  if s.characteristics &&& flag≠0 then do
    let n ← size s
    okOr (addWord 32 total n) .overflow
  else .ok total

/-- The three totals of the optional header. -/
def sizeTotals : List Section → ℕ × ℕ × ℕ → Outcome PeError (ℕ × ℕ × ℕ)
  | [],totals => .ok totals
  | s::rest,(code,initData,uninitData) => do
    let code ← addSize imageScnCntCode alignedDataSize s code
    let initData ← addSize imageScnCntInitializedData alignedDataSize s initData
    let uninitData ← addSize imageScnCntUninitializedData alignedVirtualSize s uninitData
    sizeTotals rest (code,initData,uninitData)

/-- Copy bytes into the buffer; leaving it panics. -/
def copyInto (off : ℕ) (bs buf : Bytes) : Outcome PeError Bytes :=
  if off+bs.length≤buf.length then .ok (overwrite off bs buf) else .error .panic

/-- The address of a section in its header. -/
def vaddr32For (s : Section) : Outcome PeError ℕ := if s.nonLoaded then .ok 0 else tryU32 s.vaddr

/-- The header of one section. -/
def headerFor (s : Section) (field : Bytes) (extent : ℕ × ℕ) : Outcome PeError Bytes := do
  let vaddr32 ← vaddr32For s
  let naturalVsize ← tryU32 s.virtualSize
  let vsize32 := if s.nonLoaded || s.isZeroShape then naturalVsize else max naturalVsize extent.2
  .ok (sectionHeader field vsize32 vaddr32 extent.2 extent.1 s.characteristics)

/-- Write the section headers one after the other from `off` on. -/
def writeHeaders : List (Section × Bytes × (ℕ × ℕ)) → ℕ → Bytes → Outcome PeError Bytes
  | [],_,buf => .ok buf
  | (s,field,extent)::rest,off,buf => do
    let hdr ← headerFor s field extent
    let buf ← copyInto off hdr buf
    writeHeaders rest (off+sectionHdrSize) buf

/-- Write the raw data of one section, if it has some. -/
def copyData (s : Section) (start : ℕ) (buf : Bytes) : Outcome PeError Bytes :=
  if s.isZeroShape then .ok buf else copyInto start s.data buf

/-- Write the raw data of all sections. -/
def writeData : List (Section × (ℕ × ℕ)) → Bytes → Outcome PeError Bytes
  | [],buf => .ok buf
  | (s,extent)::rest,buf => do
    let buf ← copyData s extent.1 buf
    writeData rest buf

/-- The offset of the string table, zero when it has no names, and the end of
the file. -/
def placeStrtab (strtab : Bytes) (cursor : ℕ) : Outcome PeError (ℕ × ℕ) :=
  if 4 < strtab.length then do
    let strtabLen ← tryU32 strtab.length
    let stop ← okOr (addWord 32 cursor strtabLen) .overflow
    .ok (cursor,stop)
  else .ok (0,cursor)

/-- Build a PE file from its sections. -/
def buildPe (machine : ℕ) (sections : List Section) : Outcome PeError Bytes := do
  if 0xFFFF < sections.length then fail (.tooManySections sections.length)
  else do
    sections.forM fun s => if (asBytes s.name).contains 0 then fail (.nulInName s.name) else .ok ()
    let (fields,strtab) ← nameFields sections (leBytes 4 0)
    let strtab := overwrite 0 (leBytes 4 strtab.length) strtab
    let peOffset ← okOr (alignUpU32 dosSize 8) .overflow
    let headersEnd ← tryU32
      (peOffset+peSignature.length+coffSize+optSize+sections.length*sectionHdrSize)
    let sizeOfHeaders ← okOr (alignUpU32 headersEnd fileAlignment) .overflow
    let (extents,cursor) ← rawExtents sections sizeOfHeaders
    let (strtabOffset,fileSize) ← placeStrtab strtab cursor
    let buf := zeros fileSize
    let buf ← copyInto 0 (dosHeader peOffset) buf
    let buf ← copyInto peOffset peSignature buf
    let off := peOffset+peSignature.length
    let (code,initData,uninitData) ← sizeTotals sections (0,0,0)
    let buf ← copyInto off (coffHeader machine sections.length strtabOffset) buf
    let off := off+coffSize
    let opt := optionalHeader code initData uninitData (sizeOfImage sections sizeOfHeaders)
      sizeOfHeaders
    let buf ← copyInto off opt buf
    let off := off+optSize
    let buf ← writeHeaders (sections.zip (fields.zip extents)) off buf
    let buf ← writeData (sections.zip extents) buf
    if 4 < strtab.length then copyInto strtabOffset strtab buf else .ok buf

end Arma.Pe.Writer
