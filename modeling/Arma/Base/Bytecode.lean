import Mathlib.Tactic.Common
import Arma.Base.ByteString
import Arma.Base.Frames

/-!
# Bytecode of a namespace

The part of the ACPI machine language that declares names and devices. A block starts with its
length, in which the bytes of the length count, and holds other terms; so packages nest in
packages and devices hold named values. Every reader has a lemma that says which string is a
frame of which term.
-/

namespace Arma.Base.Bytecode

open Base.ByteString Base.Frames

/-- Read a block: its length of one to four bytes, and then what is in it. -/
def readBlock : Reader UInt8 Bytes
  | [] => none
  | lead::rest =>
    let n := lead.toNat/64
    let total := if n=0 then lead.toNat%64 else lead.toNat%16+16*ofLE (rest.take n)
    if (n=0 ∨ lead.toNat/16%4=0) ∧ n<total ∧ total≤rest.length+1 then
      some ((rest.drop n).take (total-1-n),rest.drop (total-1))
    else none

/-- A value. -/
inductive Value where
  /-- A number. -/
  | integer (v : ℕ)
  /-- A string, without its zero byte. -/
  | text (bs : Bytes)
  /-- A buffer. -/
  | buffer (bs : Bytes)
  /-- A package. -/
  | package (elements : List Value)

/-- Read a number of `n` bytes. -/
def readInteger (n : ℕ) : Reader UInt8 Value := fun bs =>
  if n≤bs.length then some (.integer (ofLE (bs.take n)),bs.drop n) else none

/-- Read a string up to its zero byte. -/
def readText : Reader UInt8 Value := fun bs =>
  if (0 : UInt8)∈bs then
    some (.text (bs.takeWhile (· != 0)),(bs.dropWhile (· != 0)).drop 1) else none

/-- The buffer of a size and bytes of that size. -/
def bufferOf : Value×Bytes → Option Value
  | (.integer n,bs) => if bs.length=n then some (.buffer bs) else none
  | _ => none

/-- Read a value. -/
def readValue : ℕ → Reader UInt8 Value
  | 0 => fun _ => none
  | fuel+1 => fun bs =>
    let rest := bs.drop 1
    if bs.head?=some 0x00 then some (.integer 0,rest)
    else if bs.head?=some 0x01 then some (.integer 1,rest)
    else if bs.head?=some 0x0A then readInteger 1 rest
    else if bs.head?=some 0x0B then readInteger 2 rest
    else if bs.head?=some 0x0C then readInteger 4 rest
    else if bs.head?=some 0x0E then readInteger 8 rest
    else if bs.head?=some 0x0D then readText rest
    else if bs.head?=some 0x11 then
      (readBlock rest).bind fun block => (readValue fuel block.1).bind fun size =>
        (bufferOf size).map fun v => (v,block.2)
    else if bs.head?=some 0x12 then
      (readBlock rest).bind fun block =>
        (readAll (readValue fuel) (block.1.drop 1).length (block.1.drop 1)).bind fun elements =>
          if block.1.head?=some (UInt8.ofNat elements.length) ∧ elements.length≤255 then
            some (Value.package elements,block.2)
          else none
    else none

/-- A name, in the current scope or in that of the root. -/
structure Path where
  /-- The name starts at the root. -/
  rooted : Bool
  /-- Its four characters. -/
  seg : Bytes
deriving DecidableEq, Repr

/-- Read the four characters of a name. -/
def readSeg (rooted : Bool) : Reader UInt8 Path := fun bs =>
  if 4≤bs.length then some (⟨rooted,bs.take 4⟩,bs.drop 4) else none

/-- Read a name. -/
def readPath : Reader UInt8 Path := fun bs =>
  if bs.head?=some 0x5C then readSeg true (bs.drop 1) else readSeg false bs

/-- A term of a namespace. -/
inductive Object where
  /-- A named value. -/
  | name (path : Path) (value : Value)
  /-- A device with the terms in its scope. -/
  | device (path : Path) (body : List Object)

/-- Read a term. -/
def readObject : ℕ → Reader UInt8 Object
  | 0 => fun _ => none
  | fuel+1 => fun bs =>
    if bs.head?=some 0x08 then
      (readPath (bs.drop 1)).bind fun p => (readValue fuel p.2).map fun v => (.name p.1 v.1,v.2)
    else if bs.take 2=[0x5B,0x82] then
      (readBlock (bs.drop 2)).bind fun block => (readPath block.1).bind fun p =>
        (readAll (readObject fuel) p.2.length p.2).map fun body => (.device p.1 body,block.2)
    else none

/-- A block whose length takes one byte. -/
theorem frame_short {content : Bytes} (h : content.length+1≤63) :
    Frame readBlock (UInt8.ofNat (content.length+1)::content) content := by
  intro rest
  have hlead : (UInt8.ofNat (content.length+1)).toNat=content.length+1 :=
    UInt8.toNat_ofNat_of_lt' (by rw [UInt8.size]; omega)
  rw [List.cons_append,readBlock,hlead,show (content.length+1)/64=0 by omega,if_pos rfl,
    show (content.length+1)%64=content.length+1 by omega,
    if_pos ⟨.inl rfl,by omega,by rw [List.length_append]; omega⟩,Nat.add_sub_cancel,Nat.sub_zero,
    List.drop_zero,List.take_left' rfl,List.drop_left' rfl]

/-- A block whose length takes two bytes. -/
theorem frame_block {content : Bytes} {v : ℕ} (hv : v=content.length+2) (hle : v≤0x0FFF) :
    Frame readBlock ([0x40 ||| UInt8.ofNat (v%16),UInt8.ofNat (v/16%256)]++content) content := by
  intro rest
  have hlow : ∀ k : Fin 16, (0x40 ||| UInt8.ofNat k.1).toNat=64+k.1 := by decide
  have hlead : (0x40 ||| UInt8.ofNat (v%16)).toNat=64+v%16 :=
    hlow ⟨v%16,Nat.mod_lt _ (by decide)⟩
  have hhigh : ofLE [UInt8.ofNat (v/16%256)]=v/16 := by
    rw [Nat.mod_eq_of_lt (by omega)]
    exact ofLE_byte (by omega)
  change readBlock ((0x40 ||| UInt8.ofNat (v%16))::(UInt8.ofNat (v/16%256)::(content++rest)))=_
  rw [readBlock,hlead,show (64+v%16)/64=1 by omega,if_neg Nat.one_ne_zero,List.take_succ_cons,List.take_zero,
    hhigh,show (64+v%16)%16+16*(v/16)=v by omega,
    if_pos ⟨.inr (by omega),by omega,by rw [List.length_cons,List.length_append]; omega⟩,
    show v-1=content.length+1 by omega,List.drop_succ_cons,List.drop_zero,Nat.add_sub_cancel,
    List.take_left' rfl,List.drop_succ_cons,List.drop_left' rfl]

/-- A byte. -/
theorem frame_byte (fuel : ℕ) {v : ℕ} (hv : v≤255) :
    Frame (readValue (fuel+1)) [0x0A,UInt8.ofNat v] (.integer v) := by
  intro rest
  change readInteger 1 (UInt8.ofNat v::rest)=_
  rw [readInteger,if_pos (by rw [List.length_cons]; omega),List.take_succ_cons,List.take_zero,
    ofLE_byte hv]
  rfl

/-- A word of `n` bytes behind its operator. -/
theorem frame_word {op : UInt8} {n : ℕ} {fuel : ℕ}
    (hop : ∀ rest, readValue (fuel+1) (op::rest)=readInteger n rest) {v : ℕ} (hv : v<256^n) :
    Frame (readValue (fuel+1)) (op::leBytes n v) (.integer v) := by
  intro rest
  rw [List.cons_append,hop,readInteger,
    if_pos (by rw [List.length_append,length_leBytes]; omega),
    List.take_left' (length_leBytes n v),List.drop_left' (length_leBytes n v),ofLE_leBytes,
    Nat.mod_eq_of_lt hv]

/-- A word of two bytes. -/
theorem frame_word2 (fuel : ℕ) {v : ℕ} (hv : v<2^16) :
    Frame (readValue (fuel+1)) (0x0B::leBytes 2 v) (.integer v) := frame_word (fun _ => rfl) hv

/-- A word of four bytes. -/
theorem frame_word4 (fuel : ℕ) {v : ℕ} (hv : v<2^32) :
    Frame (readValue (fuel+1)) (0x0C::leBytes 4 v) (.integer v) := frame_word (fun _ => rfl) hv

/-- A string. -/
theorem frame_text (fuel : ℕ) {bs : Bytes} (hbs : (0 : UInt8)∉bs) :
    Frame (readValue (fuel+1)) (0x0D::(bs++[0])) (.text bs) := by
  intro rest
  have hall : ∀ b∈bs, (b != 0)=true := fun b hb => by
    rw [bne_iff_ne]
    rintro rfl
    exact hbs hb
  have hsplit : (bs++[0])++rest=bs++(0::rest) := List.append_assoc _ _ _
  change readText ((bs++[0])++rest)=_
  rw [hsplit,readText,if_pos (List.mem_append_right _ List.mem_cons_self),
    List.takeWhile_append_of_pos hall,List.dropWhile_append_of_pos hall]
  rw [List.takeWhile_cons_of_neg (by decide),List.dropWhile_cons_of_neg (by decide),
    List.append_nil,List.drop_succ_cons,List.drop_zero]

/-- A buffer: a block with its size and its bytes. -/
theorem frame_buffer {fuel : ℕ} {block content size bs : Bytes}
    (hblock : Frame readBlock block content) (hcontent : content=size++bs)
    (hsize : Frame (readValue fuel) size (.integer bs.length)) :
    Frame (readValue (fuel+1)) (0x11::block) (.buffer bs) := by
  intro rest
  have hread := hsize bs
  rw [←hcontent] at hread
  change ((readBlock (block++rest)).bind fun b => (readValue fuel b.1).bind fun size =>
    (bufferOf size).map fun v => (v,b.2))=_
  rw [hblock rest,Option.bind_some,hread,Option.bind_some,bufferOf,if_pos rfl]
  rfl

/-- A package: a block with the number of its elements and then these. -/
theorem frame_package {fuel : ℕ} {block content : Bytes} {ws : List Bytes} {vs : List Value}
    (hblock : Frame readBlock block content)
    (hcontent : content=UInt8.ofNat vs.length::ws.flatten)
    (hrow : Row (readValue fuel) ws vs) (hfew : vs.length≤255) :
    Frame (readValue (fuel+1)) (0x12::block) (.package vs) := by
  intro rest
  change ((readBlock (block++rest)).bind fun b =>
    (readAll (readValue fuel) (b.1.drop 1).length (b.1.drop 1)).bind fun elements =>
      if b.1.head?=some (UInt8.ofNat elements.length) ∧ elements.length≤255 then
        some (Value.package elements,b.2) else none)=_
  rw [hblock rest,Option.bind_some,hcontent,List.drop_succ_cons,List.drop_zero,Row.readAll hrow,
    Option.bind_some,if_pos ⟨rfl,hfew⟩]

/-- A name in the current scope. -/
theorem frame_path {seg : Bytes} (hlen : seg.length=4) (hroot : seg.head?≠some 0x5C) :
    Frame readPath seg ⟨false,seg⟩ := by
  intro rest
  have hhead : (seg++rest).head?=seg.head? := by
    cases seg with
    | nil => cases hlen
    | cons b seg => rfl
  rw [readPath,hhead,if_neg hroot,readSeg,if_pos (by rw [List.length_append]; omega),
    List.take_left' hlen,List.drop_left' hlen]

/-- A name in the scope of the root. -/
theorem frame_rooted {seg : Bytes} (hlen : seg.length=4) :
    Frame readPath (0x5C::seg) ⟨true,seg⟩ := by
  intro rest
  change readSeg true (seg++rest)=_
  rw [readSeg,if_pos (by rw [List.length_append]; omega),List.take_left' hlen,
    List.drop_left' hlen]

/-- A named value. -/
theorem frame_name {fuel : ℕ} {path value : Bytes} {p : Path} {v : Value}
    (hpath : Frame readPath path p) (hvalue : Frame (readValue fuel) value v) :
    Frame (readObject (fuel+1)) (0x08::(path++value)) (.name p v) := by
  intro rest
  change ((readPath ((path++value)++rest)).bind fun p => (readValue fuel p.2).map fun v =>
    (Object.name p.1 v.1,v.2))=_
  rw [List.append_assoc,hpath,Option.bind_some,hvalue]
  rfl

/-- A device: a block with its name and the terms in its scope. -/
theorem frame_device {fuel : ℕ} {block content path : Bytes} {p : Path} {ws : List Bytes}
    {body : List Object} (hblock : Frame readBlock block content)
    (hcontent : content=path++ws.flatten) (hpath : Frame readPath path p)
    (hrow : Row (readObject fuel) ws body) :
    Frame (readObject (fuel+1)) (0x5B::0x82::block) (.device p body) := by
  intro rest
  change ((readBlock (block++rest)).bind fun b => (readPath b.1).bind fun p =>
    (readAll (readObject fuel) p.2.length p.2).map fun body => (Object.device p.1 body,b.2))=_
  rw [hblock rest,Option.bind_some,hcontent,hpath,Option.bind_some,Row.readAll hrow]
  rfl

/-- The characters that a name may start with. -/
def validLead (b : UInt8) : Bool := decide ((65≤b.toNat ∧ b.toNat≤90) ∨ b.toNat=95)

/-- The characters of a name. -/
def validChar (b : UInt8) : Bool := validLead b || decide (48≤b.toNat ∧ b.toNat≤57)

/-- The four characters are a name. -/
def validSeg (seg : Bytes) : Bool :=
  decide (seg.length=4) && (seg.take 1).all validLead && seg.all validChar

/-- The name of a term. -/
def Object.path : Object → Path
  | .name p _ => p
  | .device p _ => p

/-- The term is a device. -/
def Object.isDevice : Object → Bool
  | .name _ _ => false
  | .device _ _ => true

/-- The terms in the scope of a device. -/
def Object.body : Object → List Object
  | .name _ _ => []
  | .device _ body => body

mutual

/-- The names in a term: its own and those in its scope. -/
def Object.segs : Object → List Bytes
  | .name p _ => [p.seg]
  | .device p body => p.seg::segsOf body

/-- The names in terms. -/
def segsOf : List Object → List Bytes
  | [] => []
  | o::os => o.segs++segsOf os

end

/-- A name in terms is one in some of them. -/
theorem mem_segsOf {os : List Object} {seg : Bytes} : seg∈segsOf os ↔ ∃ o∈os, seg∈o.segs := by
  induction os with
  | nil => simp [segsOf]
  | cons o os ih => simp [segsOf,ih]

/-- The buffer of a name in a scope. -/
def bufferNamed (seg : Bytes) (scope : List Object) : Option Bytes :=
  scope.findSome? fun o => match o with
    | .name p (.buffer bs) => if p.seg=seg then some bs else none
    | _ => none

end Arma.Base.Bytecode
