import Mathlib.Tactic.Common
import Arma.Base.ByteString

/-!
# Devicetrees

A node has a name, properties in order and children in order. Looking a
property up finds the first one of that name. How children and paths are looked
up and how values are decoded is left to the devicetree library.
-/

namespace Arma.Devtree

open Base.ByteString

/-- A named property. -/
structure Property where
  /-- Name of the property. -/
  name : String
  /-- Raw value. -/
  value : Bytes
deriving DecidableEq, Repr

/-- A devicetree node. -/
inductive Node where
  /-- A node of the given name, properties and children. -/
  | mk (name : String) (properties : List Property) (children : List Node)
deriving Repr

/-- Name of a node, with its unit address. -/
def Node.name : Node → String
  | .mk name _ _ => name

/-- Properties of a node. -/
def Node.properties : Node → List Property
  | .mk _ properties _ => properties

/-- Children of a node. -/
def Node.children : Node → List Node
  | .mk _ _ children => children

/-- Value of the first property of the given name. -/
def Node.property (n : Node) (name : String) : Option Bytes :=
  (n.properties.find? fun p => decide (p.name=name)).map Property.value

/-- Node name without its unit address. -/
def topSegment (name : String) : String := .ofList (name.toList.takeWhile (· != '@'))

/-- `true` iff a node name is `stem`, optionally followed by a unit address. -/
def baseNameIs (name stem : String) : Bool := decide (topSegment name=stem)

/-- Lookups and decoders of the devicetree library. -/
class DevtreeLib where
  /-- The child found under a name. -/
  child : Node → String → Option Node
  /-- The node found under a path. -/
  findPath : Node → String → Option Node
  /-- A value that is a single cell. -/
  asU32 : Bytes → Option UInt32
  /-- A value that is a sequence of cells. -/
  asU32s : Bytes → Option (List UInt32)
  /-- A value that is a string. -/
  asStr : Bytes → Option String
  /-- A value that is a list of strings. -/
  asStrs : Bytes → Option (List String)

/-- The first child of exactly the given name. -/
def childNamed (n : Node) (name : String) : Option Node :=
  n.children.find? fun c => decide (c.name=name)

/-- Descend along the given names. -/
def descend (n : Node) : List String → Option Node
  | [] => some n
  | name::rest => (childNamed n name).bind fun c => descend c rest

/-- The string in front of the first zero byte. -/
def cString (bs : Bytes) : String :=
  .ofList ((bs.takeWhile (· != 0)).map fun b => Char.ofNat b.toNat)

/-- The strings that end with a zero byte each. -/
def cStrings (fuel : ℕ) (bs : Bytes) : List String :=
  match fuel,bs with
  | 0,_ => []
  | _,[] => []
  | fuel+1,bs => cString bs::cStrings fuel ((bs.dropWhile (· != 0)).drop 1)

/-- Lookups by exact name, and decoders of big-endian cells and of strings that
end with a zero byte. -/
def plainLib : DevtreeLib where
  child := childNamed
  findPath n path := descend n ((path.toList.splitOn '/').filterMap fun s =>
    if s=[] then none else some (.ofList s))
  asU32 bs := if bs.length=4 then some (.ofNat (ofBE bs)) else none
  asU32s bs := if bs.length%4=0 then
    some ((decodeRecords 4 ofBE (bs.length/4) bs).map .ofNat) else none
  asStr bs := if bs.getLast?=some 0 then some (cString bs) else none
  asStrs bs := if bs.getLast?=some 0 then some (cStrings bs.length bs) else none

/-- A string with its zero byte. -/
def dtString (s : String) : Bytes := ascii s++[0]

/-- A register of two address and two size cells. -/
def dtReg (base size : ℕ) : Bytes := beBytes 8 base++beBytes 8 size

/-- Pad to whole cells. -/
def pad4 (bs : Bytes) : Bytes := bs++zeros ((4-bs.length%4)%4)

mutual

/-- The property names of a tree, in order of use. -/
def Node.propertyNames : Node → List String
  | .mk _ properties children => properties.map Property.name++namesOfAll children

/-- The property names of several trees. -/
def namesOfAll : List Node → List String
  | [] => []
  | n::rest => n.propertyNames++namesOfAll rest

end

/-- Offset of a name in the strings block. -/
def nameOffset (names : List String) (name : String) : ℕ :=
  ((names.takeWhile (· != name)).map fun n => n.toUTF8.size+1).sum

mutual

/-- The structure block of a tree, without its end token. -/
def Node.structBlock (names : List String) : Node → Bytes
  | .mk name properties children => beBytes 4 1++pad4 (name.toUTF8.data.toList++[0])++
      (properties.flatMap fun p => beBytes 4 3++beBytes 4 p.value.length++
        beBytes 4 (nameOffset names p.name)++pad4 p.value)++
      structOfAll names children++beBytes 4 2

/-- The structure blocks of several trees. -/
def structOfAll (names : List String) : List Node → Bytes
  | [] => []
  | n::rest => n.structBlock names++structOfAll names rest

end

/-- The flattened tree: header, no reservations, structure block and strings. -/
def flatten (root : Node) : Bytes :=
  let names := root.propertyNames.eraseDups
  let block := root.structBlock names++beBytes 4 9
  let strings := names.flatMap fun n => n.toUTF8.data.toList++[0]
  [0xd00dfeed,56+block.length+strings.length,56,56+block.length,40,17,16,0,strings.length,
    block.length].flatMap (beBytes 4)++zeros 16++block++strings

end Arma.Devtree
