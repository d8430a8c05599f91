import Mathlib.Data.List.Infix
import Arma.Base.Text
import Arma.Kernel.Image
import Arma.Kernel.Release

/-!
# The release of a kernel

A kernel says which release it is in a banner. arma looks for the banner under its symbol
in every symbol table of an ELF kernel and at every string of the image, and goes by it
only when all that it finds agree. The ELF parser and the readers of its tables are
parameters, and the host has words of 64 bits.
-/

namespace Arma.Kernel.Detect

open Base.ByteString Base.Checked Base.Text Release

/-- A section header. -/
structure Section where
  /-- `sh_type`. -/
  type : UInt32
  /-- `sh_flags`. -/
  flags : UInt64
  /-- `sh_addr`. -/
  addr : UInt64
  /-- `sh_offset`. -/
  offset : UInt64
  /-- `sh_size`. -/
  size : UInt64
  /-- `sh_link`. -/
  link : UInt32
  /-- `sh_entsize`. -/
  entsize : UInt64
deriving DecidableEq, Repr

/-- A symbol. -/
structure Symbol where
  /-- `st_name`. -/
  name : ℕ
  /-- `st_shndx`. -/
  shndx : ℕ
  /-- `st_value`. -/
  value : UInt64
  /-- `st_size`. -/
  size : UInt64
deriving DecidableEq, Repr

/-- A string table: the string at an offset, if there is one. -/
abbrev Strings : Type := ℕ → Option String

/-- What the ELF parser reports. -/
structure Elf where
  /-- The class is 64-bit. -/
  is64 : Bool
  /-- Little endian. -/
  littleEndian : Bool
  /-- Program headers. -/
  programHeaders : List Image.ProgramHeader
  /-- Section headers. -/
  sectionHeaders : List Section
  /-- Symbol table. -/
  syms : List Symbol
  /-- Its strings. -/
  strtab : Strings
  /-- Symbols of the dynamic segment. -/
  dynsyms : List Symbol
  /-- Their strings. -/
  dynstrtab : Strings

/-- The ELF library. -/
structure ElfLib where
  /-- `Elf::parse`. -/
  parse : Bytes → Option Elf
  /-- `Symtab::parse` for an offset, a count, the class and the byte order. -/
  symtab : Bytes → ℕ → ℕ → Bool → Bool → Option (List Symbol)
  /-- `Strtab::parse` for an offset and a size. -/
  strtab : Bytes → ℕ → ℕ → Option Strings

/-- `PREFIX`. -/
def bannerPrefix : Bytes := ascii "Linux version "

/-- `MAX_BANNER`. -/
def maxBanner : ℕ := 4096

/-- `SHT_STRTAB`. -/
def shtStrtab : UInt32 := 3

/-- `SHT_NOBITS`. -/
def shtNobits : UInt32 := 8

/-- `SHT_DYNSYM`. -/
def shtDynsym : UInt32 := 11

/-- `SHF_ALLOC`. -/
def shfAlloc : UInt64 := 2

/-- `SHN_LORESERVE`. -/
def shnLoreserve : ℕ := 0xff00

/-- `linux_banner`. -/
def linuxBanner : String := "linux_banner"

/-- The error of a dynamic symbol table. -/
def badTable : ReleaseError := .malformed "invalid ELF dynamic symbol section"

/-- The error of a symbol. -/
def badSymbol : ReleaseError := .malformed "linux_banner is not bounded file-backed ELF data"

/-- Go on when a condition holds. -/
def demand (condition : Prop) [Decidable condition] (e : ReleaseError) :
    Outcome ReleaseError Unit :=
  if condition then .ok () else fail e

/-- What is behind a prefix, which has to be there. -/
def stripPrefix (front bytes : Bytes) : Option Bytes :=
  if front<+:bytes then some (bytes.drop front.length) else none

/-- Without a line feed at the end. -/
def stripNewline (bytes : Bytes) : Bytes :=
  if bytes.getLast?=some 0x0a then bytes.dropLast else bytes

/-- `parse_banner`. -/
def parseBanner (bytes : Bytes) : Outcome ReleaseError String := do
  let bounded := bytes.take (maxBanner+1)
  let stop ← okOr (bounded.idxOf? 0) (.malformed "missing bounded NUL terminator")
  let text := stripNewline (bounded.take stop)
  let tail ← okOr (stripPrefix bannerPrefix text) (.malformed "linux_banner has wrong prefix")
  let split ← okOr (tail.idxOf? 0x20) (.malformed "missing build identity")
  let release ← okOr (String.fromUTF8? ⟨(tail.take split).toArray⟩)
    (.malformed "release is not valid UTF-8")
  validateComponent release
  let identity ← okOr (stripPrefix (ascii " (") (tail.drop split))
    (.malformed "missing parenthesized build identity")
  demand ((identity.idxOf? 0x29).any (· != 0)=true) (.malformed "incomplete build identity")
  .ok release

/-- `merge`. -/
def merge (release : Option String) (candidate : String) : Outcome ReleaseError (Option String) :=
  match release with
  | some first => if first=candidate then .ok release else fail (.conflicting first candidate)
  | none => .ok (some candidate)

/-- A turn of the loop over the segments: the length that is left of the symbol, and
whether a segment holds it. -/
def segmentStep (bytes : Bytes) (symbol : Symbol) (start : ℕ) (state : ℕ×Bool)
    (segment : Image.ProgramHeader) : Outcome ReleaseError (ℕ×Bool) :=
  if segment.type≠Image.ptLoad then .ok state
  else
    match subWord symbol.value.toNat segment.vaddr.toNat with
    | none => .ok state
    | some delta =>
      if segment.memsz.toNat≤delta then .ok state
      else do
        let remaining ← okOr ((subWord segment.filesz.toNat delta).filter (0 < ·)) badSymbol
        demand (segment.filesz≤ segment.memsz) badSymbol
        demand ((addWord 64 segment.vaddr.toNat segment.memsz.toNat).isSome=true) badSymbol
        demand ((addWord 64 segment.offset.toNat segment.filesz.toNat).any (· ≤ bytes.length)=true)
          badSymbol
        demand (addWord 64 segment.offset.toNat delta=some start) badSymbol
        demand (symbol.size=0 ∨ state.1≤remaining) badSymbol
        .ok (min state.1 remaining,true)

/-- `symbol_bytes`. -/
def symbolBytes (bytes : Bytes) (elf : Elf) (symbol : Symbol) : Outcome ReleaseError Bytes := do
  demand (symbol.shndx≠0 ∧ symbol.shndx<shnLoreserve) badSymbol
  let header ← okOr elf.sectionHeaders[symbol.shndx]? badSymbol
  demand (header.type≠shtNobits ∧ header.flags &&& shfAlloc≠0) badSymbol
  let _ ← okOr (addWord 64 header.addr.toNat header.size.toNat) badSymbol
  let headerEnd ← okOr (addWord 64 header.offset.toNat header.size.toNat) badSymbol
  demand (headerEnd≤bytes.length) badSymbol
  let relative ← okOr (subWord symbol.value.toNat header.addr.toNat) badSymbol
  let available ← okOr ((subWord header.size.toNat relative).filter (0 < ·)) badSymbol
  let length := if symbol.size=0 then available else symbol.size.toNat
  demand (length≤available) badSymbol
  let start ← okOr (addWord 64 header.offset.toNat relative) badSymbol
  let (length,backed) ← elf.programHeaders.foldlM (segmentStep bytes symbol start) (length,false)
  demand (backed=true) badSymbol
  let stop ← okOr (addWord 64 start length) badSymbol
  demand (stop≤bytes.length) badSymbol
  .ok (slice start length bytes)

/-- The symbols and the strings of a dynamic symbol section. -/
def dynamicSymbols (lib : ElfLib) (bytes : Bytes) (elf : Elf) (table : Section) :
    Outcome ReleaseError (List Symbol×Strings) := do
  let entrySize := if elf.is64=true then 24 else 16
  demand (table.entsize.toNat=entrySize ∧ table.size.toNat%entrySize=0) badTable
  let symbols ← okOr (lib.symtab bytes table.offset.toNat (table.size.toNat/entrySize) elf.is64
    elf.littleEndian) badTable
  let names ← okOr elf.sectionHeaders[table.link.toNat]? badTable
  demand (names.type=shtStrtab) badTable
  let strings ← okOr (lib.strtab bytes names.offset.toNat names.size.toNat) badTable
  .ok (symbols,strings)

/-- Merge what the elements that count say. -/
def gather {α : Type} (counts : α → Bool) (candidate : α → Outcome ReleaseError String)
    (release : Option String) (xs : List α) : Outcome ReleaseError (Option String) :=
  xs.foldlM (fun release x =>
    if counts x=true then do
      let found ← candidate x
      merge release found
    else .ok release) release

/-- What a symbol says. -/
def symbolRelease (bytes : Bytes) (elf : Elf) (symbol : Symbol) : Outcome ReleaseError String := do
  let found ← symbolBytes bytes elf symbol
  parseBanner found

/-- The loop over a symbol table. -/
def gatherSymbols (bytes : Bytes) (elf : Elf) (strings : Strings) (release : Option String)
    (symbols : List Symbol) : Outcome ReleaseError (Option String) :=
  gather (fun symbol => decide (strings symbol.name=some linuxBanner)) (symbolRelease bytes elf)
    release symbols

/-- A turn of the loop over the sections: only dynamic symbols are of interest. -/
def sectionStep (lib : ElfLib) (bytes : Bytes) (elf : Elf) (release : Option String)
    (table : Section) : Outcome ReleaseError (Option String) :=
  if table.type≠shtDynsym then .ok release
  else do
    let (symbols,strings) ← dynamicSymbols lib bytes elf table
    gatherSymbols bytes elf strings release symbols

/-- What the symbol tables of an ELF kernel say. -/
def gatherElf (lib : ElfLib) (bytes : Bytes) : Outcome ReleaseError (Option String) :=
  if slice 0 4 bytes=Image.elfMagic then do
    let elf ← okOr (lib.parse bytes) (.malformed "invalid ELF")
    let release ← elf.sectionHeaders.foldlM (sectionStep lib bytes elf) none
    let release ← gatherSymbols bytes elf elf.strtab release elf.syms
    gatherSymbols bytes elf elf.dynstrtab release elf.dynsyms
  else .ok none

/-- A banner at the start of the image or behind a zero byte. -/
def atString (bytes : Bytes) (o : ℕ) : Bool :=
  slice o bannerPrefix.length bytes==bannerPrefix && (o==0 || bytes[o-1]?==some 0)

/-- `detect`. -/
def detect (lib : ElfLib) (bytes : Bytes) : Outcome ReleaseError String := do
  let release ← gatherElf lib bytes
  let release ← gather (atString bytes) (fun o => parseBanner (bytes.drop o)) release
    (List.range (bytes.length+1-bannerPrefix.length))
  okOr release .missing

/-- A demand is met when its condition holds. -/
theorem demand_ok {condition : Prop} [Decidable condition] {e : ReleaseError} :
    demand condition e=.ok () ↔ condition := by
  unfold demand
  split
  · rename_i h
    exact iff_of_true rfl h
  · rename_i h
    exact iff_of_false fail_ne_ok h

/-- A computation goes on behind a demand that is met. -/
theorem demand_bind {condition : Prop} [Decidable condition] {e : ReleaseError} {α : Type}
    {f : Unit → Outcome ReleaseError α} {a : α} :
    (demand condition e >>= f)=.ok a ↔ condition ∧ f ()=.ok a := by
  rw [bind_ok]
  constructor
  · rintro ⟨_,hdemand,h⟩
    exact ⟨demand_ok.mp hdemand,h⟩
  · rintro ⟨hcondition,h⟩
    exact ⟨(),demand_ok.mpr hcondition,h⟩

/-- A computation goes on with a value that is there. -/
theorem okOr_bind {o : Option α} {e : ReleaseError} {f : α → Outcome ReleaseError β} {b : β} :
    (okOr o e >>= f)=.ok b ↔ ∃ a, o=some a ∧ f a=.ok b := by
  simp only [bind_ok,okOr_ok]

/-- A word that is not zero after a checked subtraction. -/
theorem positive_sub {a b c : ℕ} :
    (subWord a b).filter (0 < ·)=some c ↔ b≤a ∧ a-b=c ∧ 0<c := by
  rw [Option.filter_eq_some_iff,subWord_some,and_assoc,decide_eq_true_iff]

/-- A segment that an address is in. -/
def Contains (segment : Image.ProgramHeader) (address : ℕ) : Prop :=
  segment.type=Image.ptLoad ∧ segment.vaddr.toNat≤address ∧
    address<segment.vaddr.toNat+segment.memsz.toNat

/-- The part of a segment that is in the file has `length` bytes of an address from `start`
on. -/
def Holds (bytes : Bytes) (segment : Image.ProgramHeader) (address start length : ℕ) : Prop :=
  start+segment.vaddr.toNat=segment.offset.toNat+address ∧
    start+length≤ segment.offset.toNat+segment.filesz.toNat ∧
    segment.offset.toNat+segment.filesz.toNat≤bytes.length

/-- Fewer bytes are there, too. -/
theorem Holds.le {bytes : Bytes} {segment : Image.ProgramHeader} {address start n m : ℕ}
    (h : Holds bytes segment address start n) (hle : m≤n) :
    Holds bytes segment address start m :=
  ⟨h.1,(Nat.add_le_add_left hle start).trans h.2.1,h.2.2⟩

/-- A turn of the loop over the segments leaves a length that the segment has when the
symbol is in it. -/
theorem segmentStep_ok {bytes : Bytes} {symbol : Symbol} {start : ℕ} {state state' : ℕ×Bool}
    {segment : Image.ProgramHeader} (h : segmentStep bytes symbol start state segment=.ok state') :
    state'.1≤ state.1 ∧ (0<state.1 → 0<state'.1) ∧
      (Contains segment symbol.value.toNat →
        Holds bytes segment symbol.value.toNat start state'.1) ∧
      (state'.2=true → state.2=true ∨ Contains segment symbol.value.toNat) := by
  have hsame : ∀ {P : Prop}, ¬P → .ok state=(.ok state' : Outcome ReleaseError _) →
      state'.1≤ state.1 ∧ (0<state.1 → 0<state'.1) ∧
        (P → Holds bytes segment symbol.value.toNat start state'.1) ∧
        (state'.2=true → state.2=true ∨ P) := by
    rintro P hnot ⟨⟩
    exact ⟨le_rfl,id,fun hp => absurd hp hnot,.inl⟩
  unfold segmentStep at h
  split at h
  · rename_i htype
    exact hsame (fun hcontains => htype hcontains.1) h
  · rename_i htype
    split at h
    · rename_i hbelow
      refine hsame (fun hcontains => ?_) h
      have hsome : subWord symbol.value.toNat segment.vaddr.toNat=some _ :=
        subWord_some.mpr ⟨hcontains.2.1,rfl⟩
      rw [hbelow] at hsome
      cases hsome
    · rename_i delta hdelta
      obtain ⟨hle,rfl⟩ := subWord_some.mp hdelta
      split at h
      · rename_i hbehind
        refine hsame (fun hcontains => ?_) h
        have hlt := hcontains.2.2
        omega
      · rename_i hinside
        obtain ⟨remaining,hremaining,h⟩ := okOr_bind.mp h
        obtain ⟨hfile,rfl,hpos⟩ := positive_sub.mp hremaining
        obtain ⟨-,h⟩ := demand_bind.mp h
        obtain ⟨-,h⟩ := demand_bind.mp h
        obtain ⟨hfits,h⟩ := demand_bind.mp h
        obtain ⟨hstart,h⟩ := demand_bind.mp h
        obtain ⟨-,h⟩ := demand_bind.mp h
        obtain ⟨stop,hstop,hlen⟩ := (Option.any_eq_true _ _).mp hfits
        obtain ⟨rfl,-⟩ := addWord_some.mp hstop
        obtain ⟨hmap,-⟩ := addWord_some.mp hstart
        have hin := of_decide_eq_true hlen
        cases h
        refine ⟨min_le_left _ _,fun hleft => lt_min hleft hpos,fun _ => ⟨by omega,?_,hin⟩,
          fun _ => .inr ⟨not_not.mp htype,hle,by omega⟩⟩
        have hmin := min_le_right state.1
          (segment.filesz.toNat-(symbol.value.toNat-segment.vaddr.toNat))
        dsimp only
        omega

/-- The loop leaves a length that every segment with the symbol has, and has found one of
them when it says so. -/
theorem segments_ok {bytes : Bytes} {symbol : Symbol} {start : ℕ} {state state' : ℕ×Bool}
    {segments : List Image.ProgramHeader}
    (h : segments.foldlM (segmentStep bytes symbol start) state=.ok state') :
    state'.1≤ state.1 ∧ (0<state.1 → 0<state'.1) ∧
      (∀ segment∈segments, Contains segment symbol.value.toNat →
        Holds bytes segment symbol.value.toNat start state'.1) ∧
      (state'.2=true → state.2=true ∨ ∃ segment∈segments, Contains segment symbol.value.toNat) := by
  induction segments generalizing state with
  | nil =>
    cases h
    exact ⟨le_rfl,id,by simp,.inl⟩
  | cons segment segments ih =>
    rw [List.foldlM_cons] at h
    obtain ⟨mid,hstep,hrest⟩ := bind_ok.mp h
    obtain ⟨hle,hpos,hholds,hbacked⟩ := segmentStep_ok hstep
    obtain ⟨hles,hposs,hall,hbackeds⟩ := ih hrest
    refine ⟨hles.trans hle,fun hleft => hposs (hpos hleft),?_,fun hflag => ?_⟩
    · intro p hp hcontains
      rcases List.mem_cons.mp hp with rfl | hp
      · exact (hholds hcontains).le hles
      · exact hall p hp hcontains
    · rcases hbackeds hflag with hmid | ⟨p,hp,hcontains⟩
      · rcases hbacked hmid with hfirst | hcontains
        · exact .inl hfirst
        · exact .inr ⟨segment,List.mem_cons_self,hcontains⟩
      · exact .inr ⟨p,List.mem_cons_of_mem _ hp,hcontains⟩

/-- The bytes of a symbol are those of its section in the file, and those of every segment
that its address is in, at the same place. -/
structure Backed (bytes : Bytes) (elf : Elf) (symbol : Symbol) (found : Bytes) (start : ℕ)
    (header : Section) : Prop where
  /-- There are some. -/
  nonempty : 0<found.length
  /-- They are in the file. -/
  inFile : start+found.length≤bytes.length
  /-- From `start` on. -/
  bytes_eq : found=slice start found.length bytes
  /-- The section is the one of the symbol. -/
  header_eq : elf.sectionHeaders[symbol.shndx]?=some header
  /-- It is in memory and in the file. -/
  allocated : header.type≠shtNobits ∧ header.flags &&& shfAlloc≠0
  /-- The address of the symbol is at `start`. -/
  mapped : start+header.addr.toNat=header.offset.toNat+symbol.value.toNat
  /-- They are in the section. -/
  inSection : header.offset.toNat≤ start ∧
    start+found.length≤header.offset.toNat+header.size.toNat
  /-- They are in what the file has of every segment with the address. -/
  inSegments : ∀ segment∈elf.programHeaders, Contains segment symbol.value.toNat →
    Holds bytes segment symbol.value.toNat start found.length
  /-- There is one. -/
  loaded : ∃ segment∈elf.programHeaders, Contains segment symbol.value.toNat

/-- A symbol is read from bytes that the file has for it. -/
theorem symbolBytes_ok {bytes found : Bytes} {elf : Elf} {symbol : Symbol}
    (h : symbolBytes bytes elf symbol=.ok found) :
    ∃ start header, Backed bytes elf symbol found start header := by
  unfold symbolBytes at h
  obtain ⟨-,h⟩ := demand_bind.mp h
  obtain ⟨header,hheader,h⟩ := okOr_bind.mp h
  obtain ⟨hallocated,h⟩ := demand_bind.mp h
  obtain ⟨-,-,h⟩ := okOr_bind.mp h
  obtain ⟨stop,hstop,h⟩ := okOr_bind.mp h
  obtain ⟨rfl,-⟩ := addWord_some.mp hstop
  obtain ⟨hfile,h⟩ := demand_bind.mp h
  obtain ⟨relative,hrelative,h⟩ := okOr_bind.mp h
  obtain ⟨hle,rfl⟩ := subWord_some.mp hrelative
  obtain ⟨available,havailable,h⟩ := okOr_bind.mp h
  obtain ⟨hinside,rfl,hpos⟩ := positive_sub.mp havailable
  obtain ⟨hlength,h⟩ := demand_bind.mp h
  obtain ⟨start,hstart,h⟩ := okOr_bind.mp h
  obtain ⟨rfl,-⟩ := addWord_some.mp hstart
  obtain ⟨⟨length,backed⟩,hloop,h⟩ := bind_ok.mp h
  obtain ⟨rfl,h⟩ := demand_bind.mp h
  obtain ⟨stop,hend,h⟩ := okOr_bind.mp h
  obtain ⟨rfl,-⟩ := addWord_some.mp hend
  obtain ⟨hbound,h⟩ := demand_bind.mp h
  cases h
  obtain ⟨hless,hkeep,hholds,hloaded⟩ := segments_ok hloop
  have hlen : (slice (header.offset.toNat+(symbol.value.toNat-header.addr.toNat)) length
      bytes).length=length := length_slice hbound
  have hsize : 0 < if symbol.size=0 then header.size.toNat-(symbol.value.toNat-header.addr.toNat)
      else symbol.size.toNat := by
    split
    · exact hpos
    · rename_i hsized
      exact Nat.pos_of_ne_zero fun hzero => hsized (UInt64.toNat_inj.mp hzero)
  have hshort : length≤header.size.toNat-(symbol.value.toNat-header.addr.toNat) :=
    hless.trans hlength
  refine ⟨header.offset.toNat+(symbol.value.toNat-header.addr.toNat),header,?_⟩
  constructor
  case nonempty =>
    rw [hlen]
    exact hkeep hsize
  case inFile => rwa [hlen]
  case bytes_eq => rw [hlen]
  case header_eq => exact hheader
  case allocated => exact hallocated
  case mapped => omega
  case inSection =>
    rw [hlen]
    omega
  case inSegments =>
    rw [hlen]
    exact hholds
  case loaded => exact (hloaded rfl).resolve_left Bool.false_ne_true

/-- What is taken in is the candidate, and it is what was there, if anything was. -/
theorem merge_ok {release release' : Option String} {candidate : String} :
    merge release candidate=.ok release' ↔
      release'=some candidate ∧ ∀ r, release=some r → r=candidate := by
  cases release with
  | none =>
    constructor
    · rintro ⟨⟩
      exact ⟨rfl,by simp⟩
    · rintro ⟨rfl,-⟩
      rfl
  | some first =>
    rw [merge]
    split
    · rename_i hsame
      constructor
      · rintro ⟨⟩
        exact ⟨congrArg some hsame,by simpa using hsame⟩
      · rintro ⟨rfl,-⟩
        rw [hsame]
    · rename_i hother
      exact iff_of_false fail_ne_ok fun hall => hother (hall.2 first rfl)

/-- What is known stays, and what becomes known comes from one of some things. -/
structure Grown (release release' : Option String) (found : Prop) : Prop where
  /-- A release that was found stays. -/
  kept : ∀ r, release=some r → release'=some r
  /-- One that is new was found. -/
  new : release'=release ∨ found

/-- One growth after another. -/
theorem Grown.trans {a b c : Option String} {p q : Prop} (hab : Grown a b p) (hbc : Grown b c q) :
    Grown a c (p ∨ q) := by
  refine ⟨fun r hr => hbc.kept r (hab.kept r hr),?_⟩
  rcases hbc.new with rfl | hq
  · exact hab.new.imp_right .inl
  · exact .inr (.inr hq)

/-- What was found may be said otherwise. -/
theorem Grown.mono {a b : Option String} {p q : Prop} (h : Grown a b p) (hpq : p → q) :
    Grown a b q := ⟨h.kept,h.new.imp_right hpq⟩

/-- Every element that counts says what is known in the end. -/
theorem gather_ok {α : Type} {counts : α → Bool} {candidate : α → Outcome ReleaseError String}
    {release release' : Option String} {xs : List α}
    (h : gather counts candidate release xs=.ok release') :
    Grown release release' (∃ x∈xs, counts x=true) ∧
      ∀ x∈xs, counts x=true → ∃ c, candidate x=.ok c ∧ release'=some c := by
  unfold gather at h
  induction xs generalizing release with
  | nil =>
    cases h
    exact ⟨⟨fun _ hr => hr,.inl rfl⟩,by simp⟩
  | cons x xs ih =>
    rw [List.foldlM_cons] at h
    obtain ⟨mid,hstep,hrest⟩ := bind_ok.mp h
    obtain ⟨hgrown,hall⟩ := ih hrest
    have hlater : (∃ y∈xs, counts y=true) → ∃ y∈x::xs, counts y=true := by
      rintro ⟨y,hy,hcount⟩
      exact ⟨y,List.mem_cons_of_mem _ hy,hcount⟩
    by_cases hx : counts x=true
    · rw [if_pos hx] at hstep
      obtain ⟨found,hfound,hmerge⟩ := bind_ok.mp hstep
      obtain ⟨rfl,hsame⟩ := merge_ok.mp hmerge
      refine ⟨⟨fun r hr => ?_,.inr ⟨x,List.mem_cons_self,hx⟩⟩,fun y hy hcount => ?_⟩
      · rw [hsame r hr]
        exact hgrown.kept found rfl
      · rcases List.mem_cons.mp hy with rfl | hy
        · exact ⟨found,hfound,hgrown.kept found rfl⟩
        · exact hall y hy hcount
    · rw [if_neg hx] at hstep
      cases hstep
      refine ⟨hgrown.mono hlater,fun y hy hcount => ?_⟩
      rcases List.mem_cons.mp hy with rfl | hy
      · exact absurd hcount hx
      · exact hall y hy hcount

/-- A string that is decoded has the bytes that it was decoded from. -/
theorem utf8_fromUTF8 {bytes : Bytes} {text : String}
    (h : String.fromUTF8? ⟨bytes.toArray⟩=some text) : utf8 text=bytes := by
  unfold String.fromUTF8? at h
  split at h
  · cases h
    rfl
  · cases h

/-- What is behind a prefix. -/
theorem stripPrefix_some {front bytes rest : Bytes} (h : stripPrefix front bytes=some rest) :
    bytes=front++rest := by
  unfold stripPrefix at h
  split at h
  · rename_i hfront
    cases h
    exact (List.prefix_iff_eq_append.mp hfront).symm
  · cases h

/-- A string without its line feed is the start of it. -/
theorem stripNewline_start (bytes : Bytes) : stripNewline bytes<+:bytes := by
  unfold stripNewline
  split
  · exact List.dropLast_prefix bytes
  · exact List.prefix_rfl

/-- A banner that is accepted names a release behind the prefix and in front of an
identity. -/
theorem parseBanner_ok {bytes : Bytes} {release : String} (h : parseBanner bytes=.ok release) :
    ValidComponent release ∧ bannerPrefix++utf8 release++ascii " ("<+:bytes := by
  unfold parseBanner at h
  obtain ⟨stop,-,h⟩ := okOr_bind.mp h
  obtain ⟨tail,htail,h⟩ := okOr_bind.mp h
  obtain ⟨split,-,h⟩ := okOr_bind.mp h
  obtain ⟨found,hfound,h⟩ := okOr_bind.mp h
  obtain ⟨_,hvalid,h⟩ := bind_ok.mp h
  obtain ⟨identity,hidentity,h⟩ := okOr_bind.mp h
  obtain ⟨-,h⟩ := demand_bind.mp h
  cases h
  have htext := stripPrefix_some htail
  have hrest := stripPrefix_some hidentity
  have hwhole : tail=utf8 release++(ascii " ("++identity) := by
    rw [utf8_fromUTF8 hfound,←hrest,List.take_append_drop]
  have hfront : bannerPrefix++tail<+:bytes := by
    rw [←htext]
    exact (stripNewline_start _).trans ((List.take_prefix _ _).trans (List.take_prefix _ _))
  refine ⟨validateComponent_ok.mp hvalid,List.IsPrefix.trans ⟨identity,?_⟩ hfront⟩
  rw [hwhole]
  simp only [List.append_assoc]

/-- The ELF file that an image is. -/
def IsElf (lib : ElfLib) (bytes : Bytes) (elf : Elf) : Prop :=
  slice 0 4 bytes=Image.elfMagic ∧ lib.parse bytes=some elf

/-- The symbol tables of an ELF file. -/
inductive TableOf (lib : ElfLib) (bytes : Bytes) (elf : Elf) : List Symbol → Strings → Prop where
  /-- The symbol table. -/
  | syms : TableOf lib bytes elf elf.syms elf.strtab
  /-- The one of the dynamic segment. -/
  | dynsyms : TableOf lib bytes elf elf.dynsyms elf.dynstrtab
  /-- The one of a section. -/
  | dynamic {table : Section} {symbols : List Symbol} {strings : Strings}
      (hmem : table∈elf.sectionHeaders) (htype : table.type=shtDynsym)
      (hread : dynamicSymbols lib bytes elf table=.ok (symbols,strings)) :
      TableOf lib bytes elf symbols strings

/-- A symbol of the banner in one of the tables. -/
def IsBanner (lib : ElfLib) (bytes : Bytes) (elf : Elf) (symbol : Symbol) : Prop :=
  ∃ symbols strings, TableOf lib bytes elf symbols strings ∧ symbol∈symbols ∧
    strings symbol.name=some linuxBanner

/-- The release that is known is what a banner says. -/
def Says (release : Option String) (said : Outcome ReleaseError String) : Prop :=
  ∃ c, said=.ok c ∧ release=some c

/-- It stays so when more is known. -/
theorem Says.grown {a b : Option String} {p : Prop} {said : Outcome ReleaseError String}
    (h : Says a said) (hgrown : Grown a b p) : Says b said := by
  obtain ⟨c,hsaid,hrelease⟩ := h
  exact ⟨c,hsaid,hgrown.kept c hrelease⟩

/-- Every symbol of the banner in a table says what is known in the end. -/
theorem gatherSymbols_ok {bytes : Bytes} {elf : Elf} {strings : Strings} {symbols : List Symbol}
    {release release' : Option String}
    (h : gatherSymbols bytes elf strings release symbols=.ok release') :
    Grown release release' (∃ symbol∈symbols, strings symbol.name=some linuxBanner) ∧
      ∀ symbol∈symbols, strings symbol.name=some linuxBanner →
        Says release' (symbolRelease bytes elf symbol) := by
  obtain ⟨hgrown,hall⟩ := gather_ok h
  refine ⟨hgrown.mono fun hfound => ?_,fun symbol hsymbol hname => ?_⟩
  · obtain ⟨symbol,hsymbol,hname⟩ := hfound
    exact ⟨symbol,hsymbol,of_decide_eq_true hname⟩
  · exact hall symbol hsymbol (decide_eq_true hname)

/-- The symbols of a section are read, and every one of the banner says what is known. -/
def SectionSays (lib : ElfLib) (bytes : Bytes) (elf : Elf) (release : Option String)
    (table : Section) : Prop :=
  ∃ symbols strings, dynamicSymbols lib bytes elf table=.ok (symbols,strings) ∧
    ∀ symbol∈symbols, strings symbol.name=some linuxBanner →
      Says release (symbolRelease bytes elf symbol)

/-- It stays so when more is known. -/
theorem SectionSays.grown {lib : ElfLib} {bytes : Bytes} {elf : Elf} {a b : Option String}
    {p : Prop} {table : Section} (h : SectionSays lib bytes elf a table) (hgrown : Grown a b p) :
    SectionSays lib bytes elf b table := by
  obtain ⟨symbols,strings,hread,hall⟩ := h
  exact ⟨symbols,strings,hread,fun symbol hsymbol hname =>
    (hall symbol hsymbol hname).grown hgrown⟩

/-- A turn of the loop reads the section when it is of interest. -/
theorem sectionStep_ok {lib : ElfLib} {bytes : Bytes} {elf : Elf} {release release' : Option String}
    {table : Section} (htable : table∈elf.sectionHeaders)
    (h : sectionStep lib bytes elf release table=.ok release') :
    Grown release release' (∃ symbol, IsBanner lib bytes elf symbol) ∧
      (table.type=shtDynsym → SectionSays lib bytes elf release' table) := by
  unfold sectionStep at h
  split at h
  · rename_i hother
    cases h
    exact ⟨⟨fun _ hr => hr,.inl rfl⟩,fun htype => absurd htype hother⟩
  · rename_i htype
    obtain ⟨⟨symbols,strings⟩,hread,h⟩ := bind_ok.mp h
    obtain ⟨hgrown,hall⟩ := gatherSymbols_ok h
    refine ⟨hgrown.mono fun hfound => ?_,fun _ => ⟨symbols,strings,hread,hall⟩⟩
    obtain ⟨symbol,hsymbol,hname⟩ := hfound
    exact ⟨symbol,symbols,strings,.dynamic htable (not_not.mp htype) hread,hsymbol,hname⟩

/-- The loop reads every section of interest, and all that it finds say the same. -/
theorem sections_ok {lib : ElfLib} {bytes : Bytes} {elf : Elf} {release release' : Option String}
    {tables : List Section} (htables : ∀ table∈tables, table∈elf.sectionHeaders)
    (h : tables.foldlM (sectionStep lib bytes elf) release=.ok release') :
    Grown release release' (∃ symbol, IsBanner lib bytes elf symbol) ∧
      ∀ table∈tables, table.type=shtDynsym → SectionSays lib bytes elf release' table := by
  induction tables generalizing release with
  | nil =>
    cases h
    exact ⟨⟨fun _ hr => hr,.inl rfl⟩,by simp⟩
  | cons table tables ih =>
    obtain ⟨htable,htables⟩ := List.forall_mem_cons.mp htables
    rw [List.foldlM_cons] at h
    obtain ⟨mid,hstep,hrest⟩ := bind_ok.mp h
    obtain ⟨hfirst,htold⟩ := sectionStep_ok htable hstep
    obtain ⟨hgrown,hall⟩ := ih htables hrest
    refine ⟨(hfirst.trans hgrown).mono or_self_iff.mp,fun t ht htype => ?_⟩
    rcases List.mem_cons.mp ht with rfl | ht
    · exact (htold htype).grown hgrown
    · exact hall t ht htype

/-- The symbol tables of an ELF kernel are read, and every symbol of the banner says what is
known. -/
theorem gatherElf_ok {lib : ElfLib} {bytes : Bytes} {release : Option String}
    (h : gatherElf lib bytes=.ok release) :
    (release=none ∨ ∃ elf symbol, IsElf lib bytes elf ∧ IsBanner lib bytes elf symbol) ∧
      (slice 0 4 bytes=Image.elfMagic → ∃ elf, IsElf lib bytes elf) ∧
      ∀ elf, IsElf lib bytes elf →
        (∀ table∈elf.sectionHeaders, table.type=shtDynsym →
          ∃ read, dynamicSymbols lib bytes elf table=.ok read) ∧
        ∀ symbol, IsBanner lib bytes elf symbol → Says release (symbolRelease bytes elf symbol) := by
  unfold gatherElf at h
  split at h
  · rename_i hmagic
    obtain ⟨elf,helf,h⟩ := okOr_bind.mp h
    obtain ⟨first,hsections,h⟩ := bind_ok.mp h
    obtain ⟨second,hsyms,h⟩ := bind_ok.mp h
    obtain ⟨hgrown,hread⟩ := sections_ok (fun _ ht => ht) hsections
    obtain ⟨hgrowns,hallSyms⟩ := gatherSymbols_ok hsyms
    obtain ⟨hgrownd,hallDyn⟩ := gatherSymbols_ok h
    have hlast := hgrowns.trans hgrownd
    refine ⟨?_,fun _ => ⟨elf,hmagic,helf⟩,?_⟩
    · have hnew : ∀ {symbols : List Symbol} {strings : Strings},
          TableOf lib bytes elf symbols strings →
          (∃ symbol∈symbols, strings symbol.name=some linuxBanner) →
          ∃ elf symbol, IsElf lib bytes elf ∧ IsBanner lib bytes elf symbol := by
        rintro symbols strings htable ⟨symbol,hsymbol,hname⟩
        exact ⟨elf,symbol,⟨hmagic,helf⟩,symbols,strings,htable,hsymbol,hname⟩
      rcases (hgrown.trans hlast).new with hnone | ⟨symbol,hbanner⟩ | hfound | hfound
      · exact .inl hnone
      · exact .inr ⟨elf,symbol,⟨hmagic,helf⟩,hbanner⟩
      · exact .inr (hnew .syms hfound)
      · exact .inr (hnew .dynsyms hfound)
    · rintro other ⟨-,hother⟩
      rw [helf] at hother
      cases hother
      refine ⟨fun table htable htype => ?_,?_⟩
      · obtain ⟨symbols,strings,htab,-⟩ := hread table htable htype
        exact ⟨_,htab⟩
      · rintro symbol ⟨symbols,strings,htable,hsymbol,hname⟩
        cases htable with
        | syms => exact (hallSyms symbol hsymbol hname).grown hgrownd
        | dynsyms => exact hallDyn symbol hsymbol hname
        | dynamic hmem htype htab =>
          obtain ⟨symbols',strings',htab',hall⟩ := hread _ hmem htype
          rw [htab] at htab'
          cases htab'
          exact (hall symbol hsymbol hname).grown hlast
  · rename_i hmagic
    cases h
    exact ⟨.inl rfl,fun h => absurd h hmagic,fun elf helf => absurd helf.1 hmagic⟩

/-- A string of the image that starts with the prefix of a banner. -/
def Occurs (bytes : Bytes) (o : ℕ) : Prop :=
  bannerPrefix<+:bytes.drop o ∧ (o=0 ∨ bytes[o-1]?=some 0)

/-- The scan looks at every one of them. -/
theorem atString_iff {bytes : Bytes} {o : ℕ} :
    (o∈List.range (bytes.length+1-bannerPrefix.length) ∧ atString bytes o=true) ↔
      Occurs bytes o := by
  have hfront : slice o bannerPrefix.length bytes=bannerPrefix ↔ bannerPrefix<+:bytes.drop o := by
    rw [List.prefix_iff_eq_take,slice]
    exact eq_comm
  rw [Occurs,atString,Bool.and_eq_true,beq_iff_eq,hfront,Bool.or_eq_true,beq_iff_eq,beq_iff_eq,
    List.mem_range]
  constructor
  · exact fun hall => hall.2
  · rintro ⟨hbanner,hstart⟩
    have hlen := hbanner.length_le
    have hpos : 0<bannerPrefix.length := by decide
    rw [List.length_drop] at hlen
    exact ⟨by omega,hbanner,hstart⟩

/-- A release that is detected is one component of a path and what every banner of the image
says, under a symbol in bytes that the file has for it or at a string; there is one. -/
theorem detect_sound {lib : ElfLib} {bytes : Bytes} {release : String}
    (h : detect lib bytes=.ok release) :
    ValidComponent release ∧
      (∀ elf, IsElf lib bytes elf →
        (∀ table∈elf.sectionHeaders, table.type=shtDynsym →
          ∃ read, dynamicSymbols lib bytes elf table=.ok read) ∧
        ∀ symbol, IsBanner lib bytes elf symbol →
          ∃ found start header, symbolBytes bytes elf symbol=.ok found ∧
            Backed bytes elf symbol found start header ∧ parseBanner found=.ok release) ∧
      (slice 0 4 bytes=Image.elfMagic → ∃ elf, IsElf lib bytes elf) ∧
      (∀ o, Occurs bytes o → parseBanner (bytes.drop o)=.ok release) ∧
      ((∃ elf symbol, IsElf lib bytes elf ∧ IsBanner lib bytes elf symbol) ∨
        ∃ o, Occurs bytes o) := by
  unfold detect at h
  obtain ⟨first,helf,h⟩ := bind_ok.mp h
  obtain ⟨second,hscan,h⟩ := bind_ok.mp h
  obtain rfl := okOr_ok.mp h
  obtain ⟨hnew,hparsed,hall⟩ := gatherElf_ok helf
  obtain ⟨hgrown,hsaid⟩ := gather_ok hscan
  have hstrings : ∀ o, Occurs bytes o → parseBanner (bytes.drop o)=.ok release := by
    intro o ho
    obtain ⟨hmem,hat⟩ := atString_iff.mpr ho
    obtain ⟨c,hc,hrelease⟩ := hsaid o hmem hat
    cases hrelease
    exact hc
  have hsymbols : ∀ elf, IsElf lib bytes elf → ∀ symbol, IsBanner lib bytes elf symbol →
      ∃ found start header, symbolBytes bytes elf symbol=.ok found ∧
        Backed bytes elf symbol found start header ∧ parseBanner found=.ok release := by
    intro elf hiself symbol hbanner
    obtain ⟨c,hc,hrelease⟩ := ((hall elf hiself).2 symbol hbanner).grown hgrown
    cases hrelease
    obtain ⟨found,hfound,hparse⟩ := bind_ok.mp hc
    obtain ⟨start,header,hbacked⟩ := symbolBytes_ok hfound
    exact ⟨found,start,header,hfound,hbacked,hparse⟩
  have hsome : (∃ elf symbol, IsElf lib bytes elf ∧ IsBanner lib bytes elf symbol) ∨
      ∃ o, Occurs bytes o := by
    rcases hgrown.new with hsame | ⟨o,ho,hat⟩
    · rcases hnew with hnone | hfound
      · rw [hnone] at hsame
        cases hsame
      · exact .inl hfound
    · exact .inr ⟨o,atString_iff.mp ⟨ho,hat⟩⟩
  refine ⟨?_,fun elf hiself => ⟨(hall elf hiself).1,hsymbols elf hiself⟩,hparsed,hstrings,hsome⟩
  rcases hsome with ⟨elf,symbol,hiself,hbanner⟩ | ⟨o,ho⟩
  · obtain ⟨found,-,-,-,-,hparse⟩ := hsymbols elf hiself symbol hbanner
    exact (parseBanner_ok hparse).1
  · exact (parseBanner_ok (hstrings o ho)).1

/-- The symbol of a banner. -/
def sampleSymbol : Symbol := ⟨1,1,0x1000,39⟩

/-- A kernel with a banner in a section that is loaded. -/
def sampleElf : Elf where
  is64 := true
  littleEndian := true
  programHeaders := [⟨Image.ptLoad,120,0x1000,0x1000,39,39⟩]
  sectionHeaders := [⟨0,0,0,0,0,0,0⟩,⟨1,shfAlloc,0x1000,120,39,0,0⟩,⟨2,0,0,176,48,3,24⟩,
    ⟨shtStrtab,0,0,159,14,0,0⟩]
  syms := [⟨0,0,0,0⟩,sampleSymbol]
  strtab := fun o => if o=0 then some "" else if o=1 then some linuxBanner else none
  dynsyms := []
  dynstrtab := fun _ => none

/-- Its file: the header, the program header, the banner, the strings, the symbols and the
section headers. -/
def sampleKernel : Bytes :=
  Image.elfMagic++[2,1,1]++zeros 9++leBytes 2 2++leBytes 2 62++leBytes 4 1++leBytes 8 0x1000++
    leBytes 8 64++leBytes 8 224++zeros 4++
    [64,56,1,64,4,3].flatMap (leBytes 2)++
  (leBytes 4 1++leBytes 4 4++[120,0x1000,0x1000,39,39,0].flatMap (leBytes 8))++
  (ascii "Linux version 6.1.0 (builder@host) #1\n"++[0])++
  ([0]++ascii linuxBanner++[0])++zeros 3++
  (zeros 24++leBytes 4 1++[0x11,0]++leBytes 2 1++leBytes 8 0x1000++leBytes 8 39)++
  (zeros 64++
    (zeros 4++leBytes 4 1++[2,0x1000,120,39].flatMap (leBytes 8)++zeros 24)++
    (zeros 4++leBytes 4 2++[0,0,176,48].flatMap (leBytes 8)++leBytes 4 3++leBytes 4 1++
      zeros 8++leBytes 8 24)++
    (zeros 4++leBytes 4 3++[0,0,159,14].flatMap (leBytes 8)++zeros 24))

/-- A parser that knows it. -/
def sampleLib : ElfLib where
  parse bytes := if bytes=sampleKernel then some sampleElf else none
  symtab _ _ _ _ _ := none
  strtab _ _ _ := none

/-- The banner is found under its symbol, in the bytes of its section, and at a string. -/
theorem detect_sound_sample :
    ValidComponent "6.1.0" ∧
      (∃ found start header, symbolBytes sampleKernel sampleElf sampleSymbol=.ok found ∧
        Backed sampleKernel sampleElf sampleSymbol found start header ∧
        parseBanner found=.ok "6.1.0") ∧
      parseBanner (sampleKernel.drop 120)=.ok "6.1.0" := by
  have hdetect : detect sampleLib sampleKernel=.ok "6.1.0" := by decide +kernel
  obtain ⟨hvalid,hsymbols,-,hstrings,-⟩ := detect_sound hdetect
  have helf : IsElf sampleLib sampleKernel sampleElf := by
    refine ⟨by decide +kernel,?_⟩
    rw [sampleLib]
    dsimp only
    rw [if_pos rfl]
  have hbanner : IsBanner sampleLib sampleKernel sampleElf sampleSymbol :=
    ⟨_,_,.syms,List.mem_cons_of_mem _ (List.mem_singleton_self _),by decide +kernel⟩
  have hoccurs : Occurs sampleKernel 120 := ⟨by decide +kernel,.inr (by decide +kernel)⟩
  exact ⟨hvalid,(hsymbols sampleElf helf).2 sampleSymbol hbanner,hstrings 120 hoccurs⟩

end Arma.Kernel.Detect
