import Mathlib.Data.List.Sort
import Arma.Base.Checked
import Arma.Devtree
import Arma.Planner.Model

/-!
# The layout check

`arma check` reads an image back and looks for problems in the map of the guest: ranges
that overlap, a BAR window that is out of place and a device island that is not aligned.
The parsers of the image, of its manifest and of the devicetree are parameters. Sums of
addresses panic or wrap when they leave 64 bits, as the build of arma has it.
-/

namespace Arma.Check

open Base.ByteString Base.Checked Devtree Planner.Model

/-- `MIB`. -/
def mib : ℕ := 1024*1024

/-- `TWO_MIB`. -/
def twoMib : ℕ := 2*mib

/-- `Kind`. -/
inductive Kind where
  /-- The registers of a device. -/
  | device
  /-- The BAR window. -/
  | window
  /-- The range above the window that stays unused. -/
  | burned
  /-- A loaded section. -/
  | payload
deriving DecidableEq, Repr

/-- `Region`. -/
structure Region where
  /-- What it is called. -/
  name : String
  /-- First address. -/
  base : ℕ
  /-- Number of addresses. -/
  size : ℕ
  /-- What it is for. -/
  kind : Kind
deriving DecidableEq, Repr

/-- What the PE parser tells of a section. -/
structure PeSection where
  /-- `name()`, if it is text. -/
  name : Option String
  /-- `virtual_address`. -/
  virtualAddress : UInt32
  /-- `virtual_size`. -/
  virtualSize : UInt32
  /-- `pointer_to_raw_data`. -/
  pointerToRawData : UInt32
  /-- `size_of_raw_data`. -/
  sizeOfRawData : UInt32
deriving DecidableEq, Repr

/-- A CBOR value. -/
inductive Value where
  /-- A map with its entries in order. -/
  | map (entries : List (Value×Value))
  /-- A text. -/
  | text (s : String)
  /-- Any other value. -/
  | other

/-- The parsers that are called. -/
structure Libs where
  /-- `goblin::pe::PE::parse`. -/
  peParse : Bytes → Option (List PeSection)
  /-- `ciborium::from_reader`. -/
  cborDecode : Bytes → Option Value
  /-- `Tree::parse`. -/
  fdtParse : Bytes → Option Node

/-- A problem of the layout. -/
inductive Problem where
  /-- `overlap: {a} [{a.base:#x}..{a_end:#x}) and {b} [{b.base:#x}..{b_end:#x})`. -/
  | overlap (a : String) (aBase aEnd : ℕ) (b : String) (bBase bEnd : ℕ)
  /-- `BAR window size {ws:#x} is not 2^B`. -/
  | windowSize (ws : ℕ)
  /-- `BAR window base {wb:#x} not 2^B-aligned`. -/
  | windowBase (wb : ℕ)
  /-- `window+burned top {space_top:#x} is not 2^X (...)`. -/
  | spaceTop (spaceTop : ℕ)
  /-- `{name} at {base:#x} is at/above the BAR window base {wb:#x}`. -/
  | aboveWindow (name : String) (base wb : ℕ)
  /-- `{name} ends above the declared address space (2^X = {space_top:#x})`. -/
  | aboveSpace (name : String) (spaceTop : ℕ)
  /-- `device island low edge {lo:#x} not 2 MiB-aligned`. -/
  | lowEdge (lo : ℕ)
deriving DecidableEq, Repr

/-- Why a check does not succeed. -/
inductive CheckError where
  /-- `parse PMI as PE`. -/
  | pe
  /-- `.pmi.vm section absent from the PMI`. -/
  | noManifest
  /-- `decode .pmi.vm CBOR`. -/
  | cbor
  /-- `.pmi.vm is not a CBOR map`. -/
  | notMap
  /-- `dt:dtb attribute is not text`. -/
  | notText
  /-- `dt:dtb names section {section}, absent from the PMI`. -/
  | noSection (name : String)
  /-- `parse base DTB`. -/
  | baseDtb
  /-- `{} layout problem(s) found`, with the problems that were printed. -/
  | problems (l : List Problem)
deriving DecidableEq, Repr

/-- A sum or a product in 64 bits. -/
def word (checks : Bool) (v : ℕ) : Outcome CheckError ℕ :=
  if v<2^64 then .ok v else if checks then .error .panic else .ok (v%2^64)

/-- A difference in 64 bits. -/
def difference (checks : Bool) (a b : ℕ) : Outcome CheckError ℕ :=
  if b≤a then .ok (a-b) else if checks then .error .panic else .ok (a+2^64-b)

/-- `trim_end_matches('\0')`. -/
def trimNul (s : String) : String :=
  .ofList (s.toList.reverse.dropWhile fun c => decide (c.toNat=0)).reverse

/-- The regions of the sections that carry an address. -/
def sectionRegions (sections : List PeSection) : List Region :=
  (sections.filter fun s => decide (0<s.virtualAddress.toNat)).map fun s =>
    ⟨trimNul (s.name.getD "?"),s.virtualAddress.toNat,s.virtualSize.toNat,.payload⟩

/-- `be_cells`. -/
def beCells : Bytes → List ℕ
  | a::b::c::d::rest => ofBE [a,b,c,d]::beCells rest
  | _ => []

/-- The word of two cells. -/
def cellWord (high low : ℕ) : ℕ := high*2^32+low

/-- The pairs of a base and a size in a `reg`. -/
def regPairs : List ℕ → List (ℕ×ℕ)
  | a::b::c::d::rest => (cellWord a b,cellWord c d)::regPairs rest
  | _ => []

/-- The device regions of a child of the root; empty ones are left out. -/
def childDevices (child : Node) : List Region :=
  match child.property "reg" with
  | some reg =>
    ((regPairs (beCells reg)).zipIdx.filter fun p => decide (p.1.2≠0)).map fun p =>
      ⟨if p.2=0 then child.name else child.name++"#"++toString p.2,p.1.1,p.1.2,.device⟩
  | none => []

/-- The BAR window of a child of the root: the first tuple of its `ranges`. -/
def childWindow (child : Node) : Option (ℕ×ℕ) :=
  match (child.property "ranges").map beCells with
  | some (_::_::_::a::b::c::d::_) =>
    if 0<cellWord c d then some (cellWord a b,cellWord c d) else none
  | _ => none

/-- The window that is kept: a later child's takes the place of an earlier one's. -/
def barWindow (root : Node) : Option (ℕ×ℕ) :=
  root.children.foldl (fun window child => (childWindow child).or window) none

/-- `base_device_regions`. -/
def baseDeviceRegions (libs : Libs) (checks : Bool) (dtb : Bytes) :
    Outcome CheckError (List Region) := do
  let root ← okOr (libs.fdtParse dtb) .baseDtb
  match barWindow root with
  | some (wb,ws) => do
    let burned ← word checks (wb+ws)
    .ok (root.children.flatMap childDevices++
      [⟨"pcie-bar-window",wb,ws,.window⟩,⟨"(burned buddy)",burned,ws,.burned⟩])
  | none => .ok (root.children.flatMap childDevices)

/-- `section_raw`. -/
def sectionRaw (bytes : Bytes) (sections : List PeSection) (name : String) : Option Bytes := do
  let s ← sections.find? fun s => decide (trimNul (s.name.getD "")=name)
  let off := s.pointerToRawData.toNat
  let len := s.sizeOfRawData.toNat
  if off+len≤bytes.length then some (slice off len bytes) else none

/-- The value of the first `dt:dtb` among the entries of the manifest. -/
def dtDtb : List (Value×Value) → Outcome CheckError (Option String)
  | [] => .ok none
  | (.text key,v)::rest =>
    if key="dt:dtb" then
      match v with
      | .text name => .ok (some name)
      | _ => fail .notText
    else dtDtb rest
  | _::rest => dtDtb rest

/-- `dt_dtb_attribute`. -/
def dtDtbAttribute (libs : Libs) (bytes : Bytes) (sections : List PeSection) :
    Outcome CheckError (Option String) := do
  let cbor ← okOr (sectionRaw bytes sections ".pmi.vm") .noManifest
  let value ← okOr (libs.cborDecode cbor) .cbor
  match value with
  | .map entries => dtDtb entries
  | _ => fail .notMap

/-- `base_dtb_bytes`. -/
def baseDtbBytes (libs : Libs) (bytes : Bytes) (sections : List PeSection) :
    Outcome CheckError (Option Bytes) := do
  match ← dtDtbAttribute libs bytes sections with
  | none => .ok none
  | some name => do
    let raw ← okOr (sectionRaw bytes sections name) (.noSection name)
    .ok (some raw)

/-- The regions of the base devicetree; a detached one is not shown. -/
def deviceRegions (libs : Libs) (checks : Bool) :
    Option Bytes → Outcome CheckError (List Region)
  | some dtb => baseDeviceRegions libs checks dtb
  | none => .ok []

/-- `sort_by_key`, which keeps the order of equal bases. -/
def sortByBase (regions : List Region) : List Region :=
  regions.insertionSort fun a b => a.base≤b.base

/-- The ends that the map shows. -/
def render (checks : Bool) (regions : List Region) : Outcome CheckError Unit :=
  regions.forM fun r => do
    let _ ← word checks (r.base+r.size)
    .ok ()

/-- Two regions that follow one another. -/
def overlap (checks : Bool) (a b : Region) : Outcome CheckError (List Problem) := do
  let aEnd ← word checks (a.base+a.size)
  if b.base<aEnd then do
    let bEnd ← word checks (b.base+b.size)
    .ok [.overlap a.name a.base aEnd b.name b.base bEnd]
  else .ok []

/-- 1. Disjoint: each region is compared with the next one. -/
def overlaps (checks : Bool) : List Region → Outcome CheckError (List Problem)
  | a::b::rest => do
    let found ← overlap checks a b
    let more ← overlaps checks (b::rest)
    .ok (found++more)
  | _ => .ok []

/-- A region that is neither the window nor burned is below the window. -/
def aboveWindow (checks : Bool) (wb spaceTop : ℕ) (r : Region) :
    Outcome CheckError (List Problem) :=
  if r.kind=.window ∨ r.kind=.burned then .ok []
  else do
    let stop ← word checks (r.base+r.size)
    .ok ((if wb≤r.base then [.aboveWindow r.name r.base wb] else [])++
      if spaceTop<stop then [.aboveSpace r.name spaceTop] else [])

/-- 2. The window is the lower buddy of the top pair of the address space. -/
def windowProblems (checks : Bool) (regions : List Region) :
    Option (ℕ×ℕ) → Outcome CheckError (List Problem)
  | none => .ok []
  | some (wb,ws) => do
    let twice ← word checks (2*ws)
    let spaceTop ← word checks (wb+twice)
    let others ← regions.mapM (aboveWindow checks wb spaceTop)
    .ok ((if isPowerOfTwo ws=false then [.windowSize ws]
        else if wb%ws≠0 then [.windowBase wb] else [])++
      (if isPowerOfTwo spaceTop=false then [.spaceTop spaceTop] else [])++others.flatten)

/-- The devices of the island. -/
def islandRegions (regions : List Region) (window : Option (ℕ×ℕ)) : List Region :=
  regions.filter fun r => decide (r.kind=.device) && window.all fun w => decide (r.base<w.1)

/-- 3. The low edge of the device island is aligned. -/
def islandProblems (checks : Bool) (regions : List Region) (window : Option (ℕ×ℕ)) :
    Outcome CheckError (List Problem) := do
  let dev := islandRegions regions window
  let ends ← dev.mapM fun r => word checks (r.base+r.size)
  match (dev.map Region.base).min?,ends.max? with
  | some lo,some hi => do
    let top ← word checks ((hi/twoMib+if hi%twoMib=0 then 0 else 1)*twoMib)
    let _ ← difference checks top lo
    .ok (if lo%twoMib≠0 then [.lowEdge lo] else [])
  | _,_ => .ok []

/-- The base and the size of the first window. -/
def windowOf (regions : List Region) : Option (ℕ×ℕ) :=
  (regions.find? fun r => decide (r.kind=.window)).map fun r => (r.base,r.size)

/-- `run`, on the bytes of the image. -/
def run (libs : Libs) (checks : Bool) (bytes : Bytes) : Outcome CheckError Unit := do
  let sections ← okOr (libs.peParse bytes) .pe
  let dtb ← baseDtbBytes libs bytes sections
  let devices ← deviceRegions libs checks dtb
  let regions := sortByBase (sectionRegions sections++devices)
  render checks regions
  let overlapping ← overlaps checks regions
  let misplaced ← windowProblems checks regions (windowOf regions)
  let unaligned ← islandProblems checks regions (windowOf regions)
  let problems := overlapping++misplaced++unaligned
  if problems=[] then .ok () else fail (.problems problems)

end Arma.Check
