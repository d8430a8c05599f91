import Arma.Tatu.Validate

/-!
# The memory map for Linux

The usable entries come from the `memory` children of the root, the reserved
ones from reserved-memory and from the host bridges, which are found by their
`compatible`. Slot 0 of the boot parameters' table describes the ACPI tables.
-/

namespace Arma.Tatu.E820

open Base.ByteString Base.Checked Devtree Validate

/-- Linux e820 entry type. -/
inductive E820Type where
  | invalid
  | usable
  | reserved
  | acpi
  | acpiNvs
  | unusable
  | pmem
  | pram
  | reservedKern
  | softReserved
deriving DecidableEq, Repr

/-- One e820 entry. -/
structure E820Entry where
  /-- Base of the region. -/
  addr : ℕ
  /-- Length in bytes. -/
  size : ℕ
  /-- Linux e820 type. -/
  kind : E820Type
deriving DecidableEq, Repr

/-- The placeholder of an uninitialised slot. -/
def E820Entry.default : E820Entry := ⟨0,0,.invalid⟩

/-- Errors of the walk. -/
inductive E820Error where
  /-- `e820 buffer full`. -/
  | bufferFull
  /-- `malformed reg property`. -/
  | badRegShape
deriving DecidableEq, Repr

/-- Two cells as one word. -/
def wordOf (hi lo : UInt32) : ℕ := (hi.toNat <<< 32) ||| lo.toNat

/-- Groups of four cells become entries, one for each slot of `room`. -/
def appendCells (kind : E820Type) : List UInt32 → ℕ → Outcome E820Error (List E820Entry)
  | [],_ => .ok []
  | addrHi::addrLo::sizeHi::sizeLo::cells,room =>
    match room with
    | 0 => fail .bufferFull
    | room+1 => do
      let entries ← appendCells kind cells room
      .ok (⟨wordOf addrHi addrLo,wordOf sizeHi sizeLo,kind⟩::entries)
  | _,_ => fail .badRegShape

/-- What the steps write one after the other, each in the room that is left. -/
def appendEach (step : Node → ℕ → Outcome E820Error (List E820Entry)) :
    List Node → ℕ → Outcome E820Error (List E820Entry)
  | [],_ => .ok []
  | n::rest,room => do
    let entries ← step n room
    let tail ← appendEach step rest (room-entries.length)
    .ok (entries++tail)

section Walk

variable [DevtreeLib]

/-- A node's `reg` as entries of one kind. -/
def appendReg (kind : E820Type) (node : Node) (room : ℕ) :
    Outcome E820Error (List E820Entry) :=
  match node.property "reg" with
  | none => .ok []
  | some reg => do
    let cells ← okOr (DevtreeLib.asU32s reg) .badRegShape
    appendCells kind cells room

/-- `true` iff `compatible` is well formed and lists the target. -/
def hasCompatible (node : Node) (target : String) : Bool :=
  match (node.property "compatible").bind DevtreeLib.asStrs with
  | none => false
  | some strs => decide (target∈strs)

/-- The node is a PCIe host bridge. -/
def isBridge (node : Node) : Bool := hasCompatible node "pci-host-ecam-generic"

/-- The entries of one child of the root. -/
def extractChild (child : Node) (room : ℕ) : Outcome E820Error (List E820Entry) :=
  if topSegment child.name="memory" then appendReg .usable child room
  else if topSegment child.name="reserved-memory" then
    appendEach (appendReg .reserved) child.children room
  else if isBridge child then appendReg .reserved child room
  else .ok []

/-- The entries of the tree, in a buffer of `room` slots. -/
def extractE820 (root : Node) (room : ℕ) : Outcome E820Error (List E820Entry) :=
  appendEach extractChild root.children room

/-- Slots of the table in the boot parameters. -/
def tableSlots : ℕ := 128

/-- The table in the boot parameters. -/
structure BootE820 where
  /-- `e820_table`. -/
  table : List E820Entry
  /-- `e820_entries`. -/
  entries : UInt8
deriving DecidableEq, Repr

/-- The entries that Linux reads. -/
def BootE820.used (bp : BootE820) : List E820Entry := bp.table.take bp.entries.toNat

/-- `map_e820_err`. -/
def mapE820Err : E820Error → ValidationError
  | .bufferFull => .tooManyMemoryRegions
  | .badRegShape => .badPropertyShape

/-- Fill the table: the ACPI tables in slot 0, then the entries of the tree. -/
def fillE820 (root : Node) (rsdpGpa acpiSize : ℕ) : Outcome ValidationError BootE820 := do
  let entries ← context mapE820Err (extractE820 root (tableSlots-1))
  let count ← okOr (if entries.length+1<2^8 then some (entries.length+1) else none)
    .tooManyMemoryRegions
  .ok ⟨⟨rsdpGpa,acpiSize,.acpi⟩::(entries++
    List.replicate (tableSlots-1-entries.length) E820Entry.default),.ofNat count⟩

/-- Cells are decoded as big-endian words, from values of whole cells only. -/
def CellsLaw : Prop := ∀ bs, DevtreeLib.asU32s bs=if bs.length%4=0 then
  some ((decodeRecords 4 ofBE (bs.length/4) bs).map UInt32.ofNat) else none

end Walk

/-- A region as an entry. -/
def entryOf (kind : E820Type) (r : Region) : E820Entry := ⟨r.gpa,r.size,kind⟩

/-- The addresses of an entry. -/
def E820Entry.span (e : E820Entry) : Base.Intervals.Region ℕ := ⟨e.addr,e.addr+e.size⟩

/-- Two cells read as one word. -/
theorem wordOf_ofBE {hi lo : Bytes} (hhi : hi.length=4) (hlo : lo.length=4) :
    wordOf (.ofNat (ofBE hi)) (.ofNat (ofBE lo))=ofBE (hi++lo) := by
  have hhigh := ofBE_lt hi
  have hlow := ofBE_lt lo
  rw [hhi] at hhigh
  rw [hlo] at hlow
  have hword : ∀ v, v<256^4 → (UInt32.ofNat v).toNat=v := fun v hv => UInt32.toNat_ofNat_of_lt' hv
  rw [wordOf,hword _ hhigh,hword _ hlow,ofBE_append,hlo,
    ←Nat.shiftLeft_add_eq_or_of_lt (i := 32) hlow,Nat.shiftLeft_eq,Nat.mul_comm]
  norm_num

/-- Groups of four cells as entries; cells that are left over are dropped. -/
def quads (kind : E820Type) : List UInt32 → List E820Entry
  | addrHi::addrLo::sizeHi::sizeLo::cells =>
    ⟨wordOf addrHi addrLo,wordOf sizeHi sizeLo,kind⟩::quads kind cells
  | _ => []

/-- Whole groups are appended, as far as there is room. -/
theorem appendCells_ok {kind : E820Type} {cells : List UInt32} {room : ℕ}
    {entries : List E820Entry} : appendCells kind cells room=.ok entries ↔
      cells.length%4=0 ∧ entries=quads kind cells ∧ entries.length ≤ room := by
  induction cells,room using appendCells.induct generalizing entries with
  | case1 room =>
    rw [appendCells]
    constructor
    · intro h
      cases h
      exact ⟨rfl,rfl,Nat.zero_le _⟩
    · rintro ⟨_,rfl,_⟩
      rfl
  | case2 a b c d cells =>
    rw [appendCells]
    refine ⟨fun h => absurd h fail_ne_ok,?_⟩
    rintro ⟨_,rfl,hle⟩
    exact absurd hle (by rw [quads]; exact Nat.not_succ_le_zero _)
  | case3 a b c d cells room ih =>
    rw [appendCells,bind_ok]
    constructor
    · rintro ⟨es,hes,h⟩
      cases h
      obtain ⟨hmod,rfl,hle⟩ := ih.mp hes
      refine ⟨?_,rfl,?_⟩
      · simp only [List.length_cons]
        omega
      · rw [List.length_cons]
        omega
    · rintro ⟨hmod,rfl,hle⟩
      simp only [List.length_cons,quads] at hmod hle
      exact ⟨quads kind cells,ih.mpr ⟨by omega,rfl,by omega⟩,rfl⟩
  | case4 cells room hnil hquad =>
    rw [appendCells]
    · refine ⟨fun h => absurd h fail_ne_ok,fun h => ?_⟩
      obtain ⟨hmod,_⟩ := h
      match cells with
      | [] => exact absurd rfl hnil
      | [_] => cases hmod
      | [_,_] => cases hmod
      | [_,_,_] => cases hmod
      | a::b::c::d::rest => exact absurd rfl (hquad a b c d rest)
    · exact hnil
    · exact hquad

/-- The cells of a `reg` in whole pairs are its regions. -/
theorem quads_cells (kind : E820Type) {k : ℕ} {bs : Bytes} (h : bs.length=16*k) :
    quads kind ((decodeRecords 4 ofBE (bs.length/4) bs).map UInt32.ofNat)=
      (parseRegions bs).map (entryOf kind) := by
  induction k generalizing bs with
  | zero =>
    obtain rfl := List.length_eq_zero_iff.mp h
    rfl
  | succ k ih =>
    have hcells : bs.length/4=(bs.drop 16).length/4+1+1+1+1 := by
      rw [List.length_drop]
      omega
    have hregions : bs.length/16=(bs.drop 16).length/16+1 := by
      rw [List.length_drop]
      omega
    have hrest := @ih (bs.drop 16) (by rw [List.length_drop]; omega)
    have hlen : ∀ o, o+4≤16 → ((bs.drop o).take 4).length=4 := by
      intro o ho
      rw [List.length_take,List.length_drop]
      omega
    have hpair : ∀ o, o+8≤16 → wordOf (.ofNat (ofBE ((bs.drop o).take 4)))
        (.ofNat (ofBE ((bs.drop (o+4)).take 4)))=ofBE (slice o 8 bs) := by
      intro o ho
      rw [wordOf_ofBE (hlen o (by omega)) (hlen (o+4) (by omega))]
      exact congrArg ofBE (slice_add o 4 4 bs).symm
    have hslice : ∀ o, o+8≤16 → slice o 8 (bs.take 16)=slice o 8 bs := by
      intro o ho
      rw [slice,slice,List.drop_take,List.take_take,Nat.min_eq_left (by omega)]
    rw [parseRegions,hcells,hregions]
    simp only [decodeRecords,List.map_cons,quads,List.drop_drop]
    rw [parseRegions] at hrest
    rw [hrest,parseOneRegion,hslice 0 (by omega),hslice 8 (by omega)]
    have hfirst := hpair 0 (by omega)
    have hsecond := hpair 8 (by omega)
    rw [List.drop_zero] at hfirst
    rw [entryOf,hfirst,hsecond]

/-- Steps that write what a node has, one after the other, write what all have,
as far as there is room. -/
theorem appendEach_ok {step : Node → ℕ → Outcome E820Error (List E820Entry)} {P : Node → Prop}
    {f : Node → List E820Entry}
    (hstep : ∀ n room es, step n room=.ok es ↔ P n ∧ es=f n ∧ es.length ≤ room) {l : List Node}
    {room : ℕ} {es : List E820Entry} : appendEach step l room=.ok es ↔
      (∀ n∈l, P n) ∧ es=l.flatMap f ∧ es.length ≤ room := by
  induction l generalizing room es with
  | nil =>
    rw [appendEach]
    constructor
    · intro h
      cases h
      exact ⟨fun n hn => absurd hn List.not_mem_nil,rfl,Nat.zero_le _⟩
    · rintro ⟨_,rfl,_⟩
      rfl
  | cons n rest ih =>
    rw [appendEach]
    simp only [bind_ok,hstep,ih,List.forall_mem_cons,List.flatMap_cons]
    constructor
    · rintro ⟨head,⟨hn,rfl,hle⟩,tail,⟨hrest,rfl,hle'⟩,h⟩
      cases h
      refine ⟨⟨hn,hrest⟩,rfl,?_⟩
      rw [List.length_append]
      omega
    · rintro ⟨⟨hn,hrest⟩,rfl,hle⟩
      rw [List.length_append] at hle
      exact ⟨f n,⟨hn,rfl,by omega⟩,rest.flatMap f,⟨hrest,rfl,by omega⟩,rfl⟩

/-- A node's `reg`, if it has one, is a whole number of pairs. -/
def RegShape (node : Node) : Prop := ∀ bytes∈node.property "reg", bytes.length%16=0

section Walk

variable [DevtreeLib]

/-- A node's regions are appended when its `reg` is well formed and there is
room. -/
theorem appendReg_ok (hlaw : CellsLaw) (kind : E820Type) (node : Node) (room : ℕ)
    (es : List E820Entry) : appendReg kind node room=.ok es ↔
      RegShape node ∧ es=(regs node).map (entryOf kind) ∧ es.length ≤ room := by
  unfold appendReg RegShape regs
  cases hreg : node.property "reg" with
  | none =>
    dsimp only [Option.map_none,Option.getD_none,List.map_nil]
    constructor
    · intro h
      cases h
      exact ⟨fun bytes h => (Option.not_mem_none bytes h).elim,rfl,Nat.zero_le _⟩
    · rintro ⟨_,rfl,_⟩
      rfl
  | some bytes =>
    dsimp only [Option.map_some,Option.getD_some]
    have hmem : (∀ bs∈some bytes, bs.length%16=0) ↔ bytes.length%16=0 :=
      ⟨fun h => h bytes rfl,fun h bs hbs => Option.mem_some_iff.mp hbs ▸ h⟩
    rw [hmem,bind_ok]
    simp only [okOr_ok,hlaw bytes]
    by_cases hcells : bytes.length%4=0
    · rw [if_pos hcells]
      constructor
      · rintro ⟨cells,hcells',h⟩
        cases hcells'
        obtain ⟨hmod,hes,hle⟩ := appendCells_ok.mp h
        rw [List.length_map,length_decodeRecords] at hmod
        have hwhole : bytes.length=16*(bytes.length/16) := by omega
        rw [quads_cells kind hwhole] at hes
        exact ⟨by omega,hes,hle⟩
      · rintro ⟨hmod,hes,hle⟩
        have hwhole : bytes.length=16*(bytes.length/16) := by omega
        refine ⟨_,rfl,appendCells_ok.mpr ⟨?_,?_,hle⟩⟩
        · rw [List.length_map,length_decodeRecords]
          omega
        · rw [quads_cells kind hwhole]
          exact hes
    · rw [if_neg hcells]
      constructor
      · rintro ⟨cells,hnone,_⟩
        cases hnone
      · rintro ⟨hmod,_⟩
        omega

/-- What a child of the root contributes. -/
def childEntries (child : Node) : List E820Entry :=
  if topSegment child.name="memory" then (regs child).map (entryOf .usable)
  else if topSegment child.name="reserved-memory" then
    child.children.flatMap fun sub => (regs sub).map (entryOf .reserved)
  else if isBridge child then (regs child).map (entryOf .reserved)
  else []

/-- Every `reg` that is read is well formed. -/
def ChildShape (child : Node) : Prop :=
  if topSegment child.name="memory" then RegShape child
  else if topSegment child.name="reserved-memory" then ∀ sub∈child.children, RegShape sub
  else isBridge child=true → RegShape child

/-- A child's entries are written when it is well formed and there is room. -/
theorem extractChild_ok (hlaw : CellsLaw) (child : Node) (room : ℕ) (es : List E820Entry) :
    extractChild child room=.ok es ↔
      ChildShape child ∧ es=childEntries child ∧ es.length ≤ room := by
  unfold extractChild ChildShape childEntries
  by_cases hmem : topSegment child.name="memory"
  · rw [if_pos hmem,if_pos hmem,if_pos hmem]
    exact appendReg_ok hlaw .usable child room es
  · rw [if_neg hmem,if_neg hmem,if_neg hmem]
    by_cases hres : topSegment child.name="reserved-memory"
    · rw [if_pos hres,if_pos hres,if_pos hres]
      exact appendEach_ok (fun n room es => appendReg_ok hlaw .reserved n room es)
    · rw [if_neg hres,if_neg hres,if_neg hres]
      by_cases hbridge : isBridge child=true
      · rw [if_pos hbridge,if_pos hbridge,appendReg_ok hlaw]
        simp only [hbridge,true_implies]
      · rw [if_neg hbridge,if_neg hbridge]
        constructor
        · intro h
          cases h
          exact ⟨fun h => absurd h hbridge,rfl,Nat.zero_le _⟩
        · rintro ⟨_,rfl,_⟩
          rfl

/-- The entries of the tree are written when every `reg` that is read is well
formed and there is room. -/
theorem extractE820_ok (hlaw : CellsLaw) {root : Node} {room : ℕ} {es : List E820Entry} :
    extractE820 root room=.ok es ↔ (∀ child∈root.children, ChildShape child) ∧
      es=root.children.flatMap childEntries ∧ es.length ≤ room :=
  appendEach_ok (extractChild_ok hlaw)

/-- The table is filled when the entries fit it; Linux reads the ACPI entry and
the entries of the tree. -/
theorem fillE820_ok (hlaw : CellsLaw) {root : Node} {rsdpGpa acpiSize : ℕ} {bp : BootE820}
    (h : fillE820 root rsdpGpa acpiSize=.ok bp) :
    (∀ child∈root.children, ChildShape child) ∧
      (root.children.flatMap childEntries).length≤127 ∧ bp.table.length=128 ∧
      bp.entries.toNat=(root.children.flatMap childEntries).length+1 ∧
      bp.used=⟨rsdpGpa,acpiSize,.acpi⟩::root.children.flatMap childEntries := by
  obtain ⟨es,hes,h⟩ := bind_ok.mp h
  obtain ⟨count,hcount,h⟩ := bind_ok.mp h
  cases h
  obtain ⟨hshape,rfl,hle⟩ := (extractE820_ok hlaw).mp (context_ok.mp hes)
  have hle : (root.children.flatMap childEntries).length≤127 := hle
  rw [if_pos (by omega)] at hcount
  cases okOr_ok.mp hcount
  have hentries : (UInt8.ofNat ((root.children.flatMap childEntries).length+1)).toNat=
      (root.children.flatMap childEntries).length+1 := by
    refine UInt8.toNat_ofNat_of_lt' ?_
    change _<256
    omega
  refine ⟨hshape,hle,?_,hentries,?_⟩
  · rw [List.length_cons,List.length_append,List.length_replicate]
    have hslots : tableSlots=128 := rfl
    omega
  · rw [BootE820.used,hentries,List.take_succ_cons,List.take_left]

/-- The table can be filled when every `reg` that is read is well formed and
the entries leave room for the ACPI entry. -/
theorem exists_fillE820 (hlaw : CellsLaw) {root : Node} (rsdpGpa acpiSize : ℕ)
    (hshape : ∀ child∈root.children, ChildShape child)
    (hroom : (root.children.flatMap childEntries).length≤127) :
    ∃ bp, fillE820 root rsdpGpa acpiSize=.ok bp := by
  have hes : extractE820 root (tableSlots-1)=.ok (root.children.flatMap childEntries) :=
    (extractE820_ok hlaw).mpr ⟨hshape,rfl,hroom⟩
  have hcount : okOr (if (root.children.flatMap childEntries).length+1<2^8 then
      some ((root.children.flatMap childEntries).length+1) else none)
      ValidationError.tooManyMemoryRegions=.ok ((root.children.flatMap childEntries).length+1) :=
    okOr_ok.mpr (if_pos (by omega))
  exact ⟨_,bind_ok.mpr ⟨_,context_ok.mpr hes,bind_ok.mpr ⟨_,hcount,rfl⟩⟩⟩

end Walk

end Arma.Tatu.E820
