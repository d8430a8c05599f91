import Mathlib.Tactic.Common
import Arma.Base.ByteString
import Arma.Base.Frames

/-!
# Entries with their kind and their length in front

An entry starts with a byte for its kind and a byte for its length, in which both of them
count. What its other bytes mean is up to its kind. Entries of a known meaning are framed,
so that a row of them is read one by one.
-/

namespace Arma.Base.Tagged

open Base.ByteString Base.Frames

variable {β : Type}

/-- Read an entry off the front of a string. -/
def readTagged (interpret : UInt8 → Bytes → Option β) : Reader UInt8 β
  | kind::len::rest =>
    if 2≤len.toNat ∧ len.toNat≤rest.length+2 then
      (interpret kind (rest.take (len.toNat-2))).map fun e => (e,rest.drop (len.toNat-2))
    else none
  | _ => none

/-- The bytes are an entry that means the value. -/
def IsEntry (interpret : UInt8 → Bytes → Option β) (bytes : Bytes) (e : β) : Prop :=
  ∃ kind len body, bytes=kind::len::body ∧ len.toNat=body.length+2 ∧ interpret kind body=some e

/-- Such an entry is read, whatever follows. -/
theorem IsEntry.frame {interpret : UInt8 → Bytes → Option β} {bytes : Bytes} {e : β}
    (h : IsEntry interpret bytes e) : bytes≠[] ∧ Frame (readTagged interpret) bytes e := by
  obtain ⟨kind,len,body,rfl,hlen,hmeans⟩ := h
  refine ⟨List.cons_ne_nil _ _,fun rest => ?_⟩
  have hsub : len.toNat-2=body.length := by omega
  rw [List.cons_append,List.cons_append,readTagged,hsub,List.take_left' rfl,List.drop_left' rfl,
    if_pos (by rw [List.length_append]; omega),hmeans]
  rfl

end Arma.Base.Tagged
