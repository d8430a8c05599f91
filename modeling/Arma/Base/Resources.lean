import Mathlib.Tactic.Common
import Arma.Base.ByteString
import Arma.Base.Frames

/-!
# Resource descriptors

A template of resources is a row of descriptors. A large one starts with its tag and the number
of bytes that follow; a range of addresses then has five fields of one width. A reader does not
check what a range says: that is the matter of `Address.Consistent`.
-/

namespace Arma.Base.Resources

open Base.ByteString Base.Frames

/-- A range of addresses. -/
structure Address where
  /-- Bytes of each field. -/
  width : ℕ
  /-- What is addressed: 0 memory, 2 bus numbers. -/
  kind : ℕ
  /-- Bits that are decoded. -/
  granularity : ℕ
  /-- First address. -/
  minimum : ℕ
  /-- Last address. -/
  maximum : ℕ
  /-- Offset on the other side of a bridge. -/
  translation : ℕ
  /-- Number of addresses. -/
  length : ℕ
deriving DecidableEq, Repr

/-- A descriptor. -/
inductive Resource where
  /-- A range of addresses. -/
  | address (a : Address)
  /-- Interrupts, with their trigger and polarity. -/
  | interrupt (flags : ℕ) (lines : List ℕ)
  /-- The end of the template. -/
  | endTag
deriving DecidableEq, Repr

/-- The fields of a range of addresses. -/
def readAddress (width : ℕ) (body : Bytes) : Address :=
  let field := fun i => ofLE (slice (3+width*i) width body)
  ⟨width,ofLE (body.take 1),field 0,field 1,field 2,field 3,field 4⟩

/-- What a large descriptor says. -/
def interpretResource (tag : UInt8) (body : Bytes) : Option Resource :=
  if tag=0x88 ∧ body.length=13 then some (.address (readAddress 2 body))
  else if tag=0x87 ∧ body.length=23 then some (.address (readAddress 4 body))
  else if tag=0x8A ∧ body.length=43 then some (.address (readAddress 8 body))
  else if tag=0x89 ∧ body.length=2+4*ofLE (slice 1 1 body) then
    some (.interrupt (ofLE (body.take 1)) (decodeRecords 4 ofLE (ofLE (slice 1 1 body))
      (body.drop 2)))
  else none

/-- Read a descriptor. -/
def readResource : Reader UInt8 Resource
  | tag::low::rest =>
    if tag=0x79 then some (.endTag,rest)
    else
      let len := low.toNat+256*ofLE (rest.take 1)
      if 1≤rest.length ∧ len≤(rest.drop 1).length then
        (interpretResource tag ((rest.drop 1).take len)).map fun r => (r,(rest.drop 1).drop len)
      else none
  | _ => none

/-- The descriptors of a template. -/
def readResources (template : Bytes) : Option (List Resource) :=
  readAll readResource template.length template

/-- The end of a template is read. -/
theorem frame_endTag (sum : UInt8) : Frame readResource [0x79,sum] .endTag := fun _ => rfl

/-- A large descriptor is read. -/
theorem frame_large {tag low high : UInt8} {body : Bytes} {r : Resource} (htag : tag≠0x79)
    (hlen : low.toNat+256*high.toNat=body.length) (h : interpretResource tag body=some r) :
    Frame readResource (tag::low::high::body) r := by
  intro rest
  have hhigh : ofLE ((high::(body++rest)).take 1)=high.toNat := by
    rw [List.take_succ_cons,List.take_zero]
    simp [ofLE]
  change (if tag=0x79 then _ else _)=_
  rw [if_neg htag]
  change (if 1≤(high::(body++rest)).length ∧
    low.toNat+256*ofLE ((high::(body++rest)).take 1)≤(body++rest).length then
      (interpretResource tag ((body++rest).take
        (low.toNat+256*ofLE ((high::(body++rest)).take 1)))).map fun r =>
          (r,(body++rest).drop (low.toNat+256*ofLE ((high::(body++rest)).take 1))) else none)=_
  rw [hhigh,hlen,if_pos ⟨by rw [List.length_cons]; omega,by rw [List.length_append]; omega⟩,
    List.take_left' rfl,List.drop_left' rfl,h]
  rfl

/-- The range is not empty, and its length is that from the first address to the last, which
the field can hold. -/
structure Address.Consistent (a : Address) : Prop where
  /-- The addresses are in order. -/
  ordered : a.minimum≤a.maximum
  /-- The length is that of the range. -/
  length : a.length=a.maximum-a.minimum+1
  /-- It did not wrap around. -/
  fits : a.length<256^a.width

/-- The ranges of a template. -/
def addressesIn (rs : List Resource) : List Address :=
  rs.filterMap fun r => match r with
    | .address a => some a
    | _ => none

/-- The interrupts of a template. -/
def linesIn (rs : List Resource) : List ℕ :=
  rs.flatMap fun r => match r with
    | .interrupt _ lines => lines
    | _ => []

/-- The triggers and polarities of the interrupts of a template. -/
def flagsIn (rs : List Resource) : List ℕ :=
  rs.filterMap fun r => match r with
    | .interrupt flags _ => some flags
    | _ => none

end Arma.Base.Resources
