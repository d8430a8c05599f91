import Arma.Base.Intervals
import Arma.Base.Patch
import Arma.Pe.Writer

/-!
# Reading back a PE file

A reader that follows the section table recovers the sections that the writer
was given. The file is one run of writes to separate places of a zeroed
buffer: the headers, the data of each section and the string table.
-/

namespace Arma.Pe.RoundTrip

open Base.ByteString Base.Checked Base.Decimal Base.Intervals Base.Patch Writer

/-- A 16-bit word of the file. -/
def u16At (file : Bytes) (o : ℕ) : ℕ := ofLE (slice o 2 file)

/-- A 32-bit word of the file. -/
def u32At (file : Bytes) (o : ℕ) : ℕ := ofLE (slice o 4 file)

/-- What a reader learns about one section. -/
structure ReadSection where
  /-- Resolved name. -/
  name : Bytes
  /-- `VirtualAddress`. -/
  virtualAddress : ℕ
  /-- `Characteristics`. -/
  characteristics : ℕ
  /-- `PointerToRawData`. -/
  pointerToRawData : ℕ
  /-- `SizeOfRawData`. -/
  sizeOfRawData : ℕ
  /-- The raw data. -/
  rawData : Bytes
deriving DecidableEq, Repr

/-- What a reader learns about the file. -/
structure PeImage where
  /-- End of the section table. -/
  headersEnd : ℕ
  /-- `PointerToSymbolTable`; zero when there is no string table. -/
  stringTable : ℕ
  /-- The sections in the order of the table. -/
  sections : List ReadSection
deriving DecidableEq, Repr

/-- The bytes up to the first NUL. -/
def untilNul (bs : Bytes) : Bytes := bs.takeWhile fun b => decide (b≠0)

/-- Resolve a name field; `/N` refers to offset `N` of the string table. -/
def readName (file : Bytes) (stringTable : ℕ) (field : Bytes) : Bytes :=
  if field.head?=some 0x2F then
    untilNul (file.drop (stringTable+ofDecimal (untilNul field.tail)))
  else untilNul field

/-- Read one 40-byte section header. -/
def readSection (file : Bytes) (stringTable : ℕ) (hdr : Bytes) : ReadSection where
  name := readName file stringTable (slice 0 8 hdr)
  virtualAddress := u32At hdr 12
  characteristics := u32At hdr 36
  pointerToRawData := u32At hdr 20
  sizeOfRawData := u32At hdr 16
  rawData := slice (u32At hdr 20) (u32At hdr 16) file

/-- Read a PE file: from the DOS header to the COFF header and the section
table behind the optional header. The string table follows the symbols, which
have 18 bytes each. -/
def readPe (file : Bytes) : Option PeImage :=
  let pe := u32At file 60
  if u16At file 0=0x5A4D ∧ slice pe 4 file=[0x50,0x45,0,0] then
    let count := u16At file (pe+6)
    let stringTable := u32At file (pe+12)+18*u32At file (pe+16)
    let table := pe+24+u16At file (pe+20)
    some ⟨table+40*count,u32At file (pe+12),
      decodeRecords 40 (readSection file stringTable) count (file.drop table)⟩
  else none

/-- The place of a section's raw data in the file. -/
def ReadSection.extent (r : ReadSection) : Region ℕ :=
  ⟨r.pointerToRawData,r.pointerToRawData+r.sizeOfRawData⟩

/-- The raw data extents that are not empty. -/
def PeImage.extents (image : PeImage) : List (Region ℕ) :=
  (image.sections.filter fun r => decide (r.sizeOfRawData≠0)).map ReadSection.extent

/-- A section read from the file is the one that was written. -/
structure SameSection (s : Section) (r : ReadSection) : Prop where
  /-- The name is recovered, however long. -/
  name : r.name=asBytes s.name
  /-- The address is recovered; it is zero for sections that are not loaded. -/
  virtualAddress : r.virtualAddress=if s.nonLoaded then 0 else s.vaddr
  /-- The flags are recovered. -/
  characteristics : r.characteristics=s.characteristics.toNat
  /-- The data is recovered, followed by zeros. -/
  rawData : ∃ pad, r.rawData=s.data++zeros pad

/-- What a reader can rely on in a file made from the sections. -/
structure RoundTrip (sections : List Section) (file : Bytes) (image : PeImage) : Prop where
  /-- The same sections in the same order. -/
  sections : List.Forall₂ SameSection sections image.sections
  /-- No two raw data extents share a byte. -/
  disjoint : image.extents.Pairwise Region.Separate
  /-- Every extent is aligned to 4 KiB. -/
  aligned : ∀ e∈image.extents, fileAlignment∣e.start
  /-- Every extent starts after the headers. -/
  afterHeaders : ∀ e∈image.extents, image.headersEnd≤e.start
  /-- Every extent ends before the string table, if there is one. -/
  beforeStrings : image.stringTable≠0 → ∀ e∈image.extents, e.stop ≤ image.stringTable
  /-- Every extent lies in the file. -/
  inFile : ∀ e∈image.extents, e.stop≤file.length

/-- An aligned word is a multiple of the alignment, not below the word and less
than one alignment above it. -/
theorem alignUpU32_some {v k w : ℕ} (hk : k≤32) (h : alignUpU32 v (2^k)=some w) :
    2^k∣w ∧ v≤w ∧ w<2^32 := by
  unfold alignUpU32 at h
  simp only [Option.map_eq_some_iff,addWord_some] at h
  obtain ⟨x,⟨rfl,hlt⟩,rfl⟩ := h
  have hpos : 0<2^k := Nat.two_pow_pos k
  have hle : 2^k≤2^32 := Nat.pow_le_pow_right (by omega) hk
  have hsub := sub_le_clearBits hlt (m := 2^k-1) (by omega)
  refine ⟨dvd_clearBits _ hk,by omega,?_⟩
  exact lt_of_le_of_lt clearBits_le hlt

/-- An aligned word is the word in whole units. -/
theorem alignUpU32_eq {v k w : ℕ} (hk : k≤32) (h : alignUpU32 v (2^k)=some w) :
    w=(v+(2^k-1))/2^k*2^k := by
  unfold alignUpU32 at h
  simp only [Option.map_eq_some_iff,addWord_some] at h
  obtain ⟨x,⟨rfl,hlt⟩,rfl⟩ := h
  exact clearBits_low hlt hk

/-- The raw data alignment is a power of two, a multiple of 4 KiB. -/
theorem alignmentFor_eq (s : Section) : ∃ k, k≤32 ∧ 12≤k ∧ alignmentFor s=2^k := by
  unfold alignmentFor
  split
  · exact ⟨21,by omega,by omega,by decide⟩
  · exact ⟨12,by omega,by omega,by decide⟩

/-- What the layout decides about one section: nothing for a section without
data, else an aligned place with room for the data. -/
def ExtentOk (s : Section) (e : ℕ × ℕ) : Prop :=
  (s.data=[] ∧ e=(0,0)) ∨ (s.data≠[] ∧ fileAlignment∣e.1 ∧ s.data.length≤e.2 ∧ 0<e.2 ∧
    e.1+e.2<2^32)

/-- The place of an extent. -/
def extentRegion (e : ℕ × ℕ) : Region ℕ := ⟨e.1,e.1+e.2⟩

/-- The places that are not empty. -/
def usedExtents (extents : List (ℕ × ℕ)) : List (Region ℕ) :=
  (extents.filter fun e => decide (e.2≠0)).map extentRegion

/-- One step of the layout puts the section at or after the cursor. -/
theorem rawExtent_ok {s : Section} {cursor cursor' : ℕ} {e : ℕ × ℕ} (hcursor : cursor<2^32)
    (h : rawExtent s cursor=.ok (e,cursor')) :
    ExtentOk s e ∧ cursor'<2^32 ∧ ∀ rest stop, Ascending cursor' (usedExtents rest) stop →
      Ascending cursor (usedExtents (e::rest)) stop := by
  unfold rawExtent at h
  by_cases hzero : s.isZeroShape=true
  · rw [if_pos hzero] at h
    cases h
    refine ⟨Or.inl ⟨by simpa [Section.isZeroShape] using hzero,rfl⟩,hcursor,?_⟩
    exact fun rest stop hrest => hrest
  · rw [if_neg hzero] at h
    obtain ⟨start,hstart,h⟩ := bind_ok.mp h
    obtain ⟨dataLen,hlen,h⟩ := bind_ok.mp h
    obtain ⟨rawSize,hsize,h⟩ := bind_ok.mp h
    obtain ⟨stop,hstop,h⟩ := bind_ok.mp h
    cases h
    obtain ⟨k,hk32,hk12,halign⟩ := alignmentFor_eq s
    rw [okOr_ok,halign] at hstart
    rw [okOr_ok] at hsize
    obtain ⟨hdvd,hge,_⟩ := alignUpU32_some hk32 hstart
    obtain ⟨_,hsizege,_⟩ := alignUpU32_some (k := 12) (by omega) hsize
    obtain ⟨rfl,hlt⟩ := addWord_some.mp (okOr_ok.mp hstop)
    have hdata : dataLen=s.data.length := by
      unfold tryU32 at hlen
      split at hlen
      · exact (Except.ok.inj hlen).symm
      · exact absurd hlen fail_ne_ok
    have hne : s.data≠[] := by simpa [Section.isZeroShape] using hzero
    have hpos : 0 < s.data.length := List.length_pos_iff.mpr hne
    have hfile : fileAlignment∣start := (pow_dvd_pow 2 hk12).trans hdvd
    refine ⟨Or.inr ⟨hne,hfile,by dsimp only; omega,by dsimp only; omega,hlt⟩,hlt,?_⟩
    intro rest stop hrest
    have hused : usedExtents ((start,rawSize)::rest)=
        extentRegion (start,rawSize)::usedExtents rest := by
      unfold usedExtents
      rw [List.filter_cons_of_pos (by simp; omega),List.map_cons]
    rw [hused]
    exact ⟨hge,by dsimp only [extentRegion]; omega,hrest⟩

/-- The layout places all sections in ascending order. -/
theorem rawExtents_ok {sections : List Section} {cursor cursor' : ℕ} {extents : List (ℕ × ℕ)}
    (hcursor : cursor<2^32) (h : rawExtents sections cursor=.ok (extents,cursor')) :
    List.Forall₂ ExtentOk sections extents ∧ cursor'<2^32 ∧
      Ascending cursor (usedExtents extents) cursor' := by
  induction sections generalizing cursor extents with
  | nil =>
    cases h
    exact ⟨List.Forall₂.nil,hcursor,le_refl _⟩
  | cons s rest ih =>
    unfold rawExtents at h
    obtain ⟨⟨e,mid⟩,he,h⟩ := bind_ok.mp h
    obtain ⟨⟨es,stop⟩,hes,h⟩ := bind_ok.mp h
    cases h
    obtain ⟨hok,hmid,hcons⟩ := rawExtent_ok hcursor he
    obtain ⟨hrest,hstop,hasc⟩ := ih hmid hes
    exact ⟨List.Forall₂.cons hok hrest,hstop,hcons _ _ hasc⟩

/-- A name field stands for the section's name, inline or in the string table. -/
def NameOk (strtab : Bytes) (s : Section) (field : Bytes) : Prop :=
  field.length=8 ∧ ((field=padName (asBytes s.name) ∧ (asBytes s.name).length≤8) ∨
    ∃ off, field=padName (0x2F::decimal off) ∧ 4≤off ∧
      off+((asBytes s.name).length+1) ≤ strtab.length ∧
      slice off ((asBytes s.name).length+1) strtab=asBytes s.name++[0])

/-- A padded name of at most eight bytes has eight bytes. -/
theorem length_padName {n : Bytes} (h : n.length≤8) : (padName n).length=8 := by
  rw [padName,List.length_append,length_zeros]
  omega

/-- A longer string table keeps the names it has. -/
theorem NameOk.append {strtab : Bytes} {s : Section} {field : Bytes} (h : NameOk strtab s field)
    (rest : Bytes) : NameOk (strtab++rest) s field := by
  refine ⟨h.1,h.2.imp_right ?_⟩
  rintro ⟨off,hfield,hoff,hle,hslice⟩
  refine ⟨off,hfield,hoff,by rw [List.length_append]; omega,?_⟩
  rw [←hslice,slice,slice,List.drop_append_of_le_length (by omega),
    List.take_append_of_le_length (by rw [List.length_drop]; omega)]

/-- Patching the size prefix keeps the names. -/
theorem NameOk.overwrite {strtab : Bytes} {s : Section} {field : Bytes}
    (h : NameOk strtab s field) (hlen : 4 ≤ strtab.length) (n : ℕ) :
    NameOk (overwrite 0 (leBytes 4 n) strtab) s field := by
  have hbound : 0+(leBytes 4 n).length ≤ strtab.length := by
    rw [length_leBytes]
    omega
  refine ⟨h.1,h.2.imp_right ?_⟩
  rintro ⟨off,hfield,hoff,hle,hslice⟩
  refine ⟨off,hfield,hoff,by rwa [length_overwrite hbound],?_⟩
  rw [slice_overwrite_of_disjoint hbound (Or.inr (by rw [length_leBytes]; omega)),hslice]

/-- One step of the name pass. -/
theorem nameField_ok {s : Section} {strtab strtab' field : Bytes} (hlen : 4 ≤ strtab.length)
    (h : nameField s strtab=.ok (field,strtab')) :
    (∃ added, strtab'=strtab++added) ∧ NameOk strtab' s field := by
  unfold nameField at h
  dsimp only at h
  by_cases hshort : (asBytes s.name).length≤8
  · rw [if_pos hshort] at h
    cases h
    exact ⟨⟨[],(List.append_nil _).symm⟩,length_padName hshort,Or.inl ⟨rfl,hshort⟩⟩
  · rw [if_neg hshort] at h
    split at h
    · exact absurd h fail_ne_ok
    · rename_i hdigits
      cases h
      refine ⟨⟨asBytes s.name++[0],List.append_assoc _ _ _⟩,length_padName (by omega),
        Or.inr ⟨strtab.length,rfl,hlen,?_,?_⟩⟩
      · simp only [List.length_append,List.length_singleton]
        omega
      · rw [List.append_assoc]
        have hslice := slice_append (a := strtab) (b := asBytes s.name++[0]) (c := []) rfl rfl
        rwa [List.append_nil,List.length_append,List.length_singleton] at hslice

/-- The name pass gives every section a field that stands for its name. -/
theorem nameFields_ok {sections : List Section} {strtab strtab' : Bytes} {fields : List Bytes}
    (hlen : 4 ≤ strtab.length) (h : nameFields sections strtab=.ok (fields,strtab')) :
    (∃ added, strtab'=strtab++added) ∧ List.Forall₂ (NameOk strtab') sections fields := by
  induction sections generalizing strtab fields with
  | nil =>
    cases h
    exact ⟨⟨[],(List.append_nil _).symm⟩,List.Forall₂.nil⟩
  | cons s rest ih =>
    unfold nameFields at h
    obtain ⟨⟨field,mid⟩,hfield,h⟩ := bind_ok.mp h
    obtain ⟨⟨fs,stop⟩,hrest,h⟩ := bind_ok.mp h
    cases h
    obtain ⟨⟨added,rfl⟩,hname⟩ := nameField_ok hlen hfield
    obtain ⟨⟨more,rfl⟩,hnames⟩ := ih (by rw [List.length_append]; omega) hrest
    exact ⟨⟨added++more,List.append_assoc _ _ _⟩,List.Forall₂.cons (hname.append more) hnames⟩

/-- Reading up to a NUL stops behind a string without one. -/
theorem untilNul_append {n rest : Bytes} (hn : 0∉n) (hrest : ∀ b∈rest.head?, b=0) :
    untilNul (n++rest)=n := by
  unfold untilNul
  rw [List.takeWhile_append_of_pos]
  · cases rest with
    | nil => simp
    | cons b rest =>
      have hb : b=0 := hrest b rfl
      simp [hb]
  · intro b hb
    rw [decide_eq_true_eq]
    exact fun h => hn (h ▸ hb)

/-- Zeros start with a zero, if with anything. -/
theorem head?_zeros (n : ℕ) : ∀ b∈(zeros n).head?, b=0 := by
  intro b hb
  have hmem : b∈zeros n := List.mem_of_mem_head? hb
  exact List.eq_of_mem_replicate hmem

/-- A field that stands for a name is resolved to it. -/
theorem readName_eq {s : Section} {file strtab field : Bytes} {stringTable : ℕ}
    (h : NameOk strtab s field) (hdot : (asBytes s.name).head?=some 0x2E)
    (hnul : (0 : UInt8)∉asBytes s.name)
    (hstrings : 4 < strtab.length → slice stringTable strtab.length file=strtab) :
    readName file stringTable field=asBytes s.name := by
  unfold readName
  rcases h.2 with ⟨rfl,_⟩ | ⟨off,rfl,hoff,hle,hslice⟩
  · have hhead : (padName (asBytes s.name)).head?=some 0x2E := by
      rw [padName,List.head?_append,hdot]
      rfl
    rw [if_neg (by rw [hhead]; decide),padName,untilNul_append hnul (head?_zeros _)]
  · have hdigits : (0 : UInt8)∉decimal off := by
      intro hmem
      exact absurd (isDigit_decimal hmem) (by decide)
    have htail : (padName (0x2F::decimal off)).tail=
        decimal off++zeros (8-(0x2F::decimal off).length) := rfl
    have hslash : (padName (0x2F::decimal off)).head?=some 0x2F := rfl
    rw [if_pos hslash,htail,untilNul_append hdigits (head?_zeros _),ofDecimal_decimal]
    have hdrop : file.drop (stringTable+off)=
        asBytes s.name++(0::file.drop (stringTable+off+((asBytes s.name).length+1))) := by
      have hstr := hstrings (by omega)
      have hname : slice (stringTable+off) ((asBytes s.name).length+1) file=
          asBytes s.name++[0] := by
        rw [←hslice]
        conv_rhs => rw [←hstr]
        rw [slice,slice,slice,List.drop_take,List.drop_drop,List.take_take,
          Nat.min_eq_left (by omega)]
      rw [←List.take_append_drop ((asBytes s.name).length+1) (file.drop (stringTable+off)),
        List.drop_drop]
      change slice (stringTable+off) ((asBytes s.name).length+1) file++_=_
      rw [hname,List.append_assoc]
      rfl
    rw [hdrop,untilNul_append hnul]
    intro b hb
    rw [List.head?_cons,Option.mem_some_iff] at hb
    exact hb.symm

/-- A copy succeeds exactly when it stays in the buffer. -/
theorem copyInto_ok {off : ℕ} {bs buf buf' : Bytes} :
    copyInto off bs buf=.ok buf' ↔ off+bs.length≤buf.length ∧ buf'=overwrite off bs buf := by
  unfold copyInto
  split
  · rename_i h
    simp only [Except.ok.injEq]
    exact ⟨fun he => ⟨h,he.symm⟩,fun he => he.2.symm⟩
  · rename_i h
    simp only [reduceCtorEq,false_iff]
    exact fun he => h he.1

/-- A copy right behind the bytes copied so far extends them. -/
theorem copyInto_next {o : ℕ} {ys bs buf buf' : Bytes} (ho : ys.length=o) (hys : o≤buf.length)
    (h : copyInto o bs (overwrite 0 ys buf)=.ok buf') :
    o+bs.length≤buf.length ∧ buf'=overwrite 0 (ys++bs) buf := by
  obtain ⟨hle,rfl⟩ := copyInto_ok.mp h
  rw [length_overwrite (by omega)] at hle
  exact ⟨hle,overwrite_next ho hle⟩

/-- A 32-bit conversion keeps the value. -/
theorem tryU32_ok {v w : ℕ} : tryU32 v=.ok w ↔ w=v ∧ v<2^32 := by
  unfold tryU32
  split
  · rename_i h
    simp only [Except.ok.injEq]
    exact ⟨fun he => ⟨he.symm,h⟩,fun he => he.1.symm⟩
  · rename_i h
    exact ⟨fun he => absurd he fail_ne_ok,fun he => absurd he.2 h⟩

/-- The header of a section: its name field, address, raw extent and flags. -/
theorem headerFor_ok {s : Section} {field : Bytes} {e : ℕ × ℕ} {hdr : Bytes}
    (h : headerFor s field e=.ok hdr) : ∃ vsize vaddr, vaddr=(if s.nonLoaded then 0 else s.vaddr) ∧
      vaddr<2^32 ∧ hdr=sectionHeader field vsize vaddr e.2 e.1 s.characteristics := by
  unfold headerFor at h
  obtain ⟨vaddr,hvaddr,h⟩ := bind_ok.mp h
  obtain ⟨vsize,_,h⟩ := bind_ok.mp h
  cases h
  unfold vaddr32For at hvaddr
  by_cases hload : s.nonLoaded=true
  · rw [if_pos hload] at hvaddr
    cases hvaddr
    exact ⟨_,0,(if_pos hload).symm,Nat.two_pow_pos 32,rfl⟩
  · rw [if_neg hload] at hvaddr
    obtain ⟨rfl,hlt⟩ := tryU32_ok.mp hvaddr
    exact ⟨_,s.vaddr,(if_neg hload).symm,hlt,rfl⟩

/-- A section header has forty bytes. -/
theorem length_sectionHeader {name : Bytes} (vsize vaddr rawSize rawPtr : ℕ)
    (characteristics : UInt32) (h : name.length=8) :
    (sectionHeader name vsize vaddr rawSize rawPtr characteristics).length=40 := by
  simp only [sectionHeader,List.length_append,length_leBytes,length_zeros,h]

/-- The header of a section has forty bytes. -/
theorem length_headerFor {s : Section} {field hdr : Bytes} {e : ℕ × ℕ} (hfield : field.length=8)
    (h : headerFor s field e=.ok hdr) : hdr.length=40 := by
  obtain ⟨vsize,vaddr,_,_,rfl⟩ := headerFor_ok h
  exact length_sectionHeader vsize vaddr e.2 e.1 s.characteristics hfield

/-- The section headers are written one after the other. -/
theorem writeHeaders_ok {rows : List (Section × Bytes × (ℕ × ℕ))} {off : ℕ} {buf buf' : Bytes}
    (hfields : ∀ row∈rows, row.2.1.length=8) (hoff : off≤buf.length)
    (h : writeHeaders rows off buf=.ok buf') : ∃ hdrs : List Bytes,
      List.Forall₂ (fun row hdr => headerFor row.1 row.2.1 row.2.2=.ok hdr) rows hdrs ∧
      off+hdrs.flatten.length≤buf.length ∧ buf'=overwrite off hdrs.flatten buf := by
  induction rows generalizing off buf with
  | nil =>
    cases h
    refine ⟨[],List.Forall₂.nil,by simpa using hoff,?_⟩
    rw [List.flatten_nil,overwrite,List.append_nil,List.length_nil,Nat.add_zero,
      List.take_append_drop]
  | cons row rows ih =>
    obtain ⟨s,field,e⟩ := row
    obtain ⟨hfield,hfields⟩ := List.forall_mem_cons.mp hfields
    unfold writeHeaders at h
    obtain ⟨hdr,hhdr,h⟩ := bind_ok.mp h
    obtain ⟨mid,hmid,h⟩ := bind_ok.mp h
    obtain ⟨hle,rfl⟩ := copyInto_ok.mp hmid
    have hlen : hdr.length=sectionHdrSize := length_headerFor hfield hhdr
    rw [←hlen] at h
    obtain ⟨hdrs,hrows,hbound,rfl⟩ := ih hfields (by rw [length_overwrite hle]; omega) h
    rw [length_overwrite hle] at hbound
    have hall : off+(hdr++hdrs.flatten).length≤buf.length := by
      rw [List.length_append]
      omega
    refine ⟨hdr::hdrs,List.Forall₂.cons hhdr hrows,?_,?_⟩
    · rw [List.flatten_cons]
      exact hall
    · rw [List.flatten_cons,overwrite_append hall]

/-- The rows that have data. -/
def dataRows (rows : List (Section × (ℕ × ℕ))) : List (Section × (ℕ × ℕ)) :=
  rows.filter fun row => !row.1.isZeroShape

/-- The data of each section, as a write to its raw offset. -/
def dataSites (rows : List (Section × (ℕ × ℕ))) : List Site :=
  (dataRows rows).map fun row => Site.const row.2.1 row.1.data

/-- The data pass is a run of writes inside the buffer. -/
theorem writeData_ok {rows : List (Section × (ℕ × ℕ))} {buf buf' : Bytes}
    (h : writeData rows buf=.ok buf') : buf'=patchAll (dataSites rows) buf ∧
      ∀ s∈dataSites rows, s.Inside buf.length := by
  induction rows generalizing buf with
  | nil =>
    cases h
    exact ⟨rfl,fun s hs => absurd hs List.not_mem_nil⟩
  | cons row rows ih =>
    obtain ⟨s,e⟩ := row
    unfold writeData at h
    obtain ⟨mid,hmid,h⟩ := bind_ok.mp h
    unfold copyData at hmid
    by_cases hzero : s.isZeroShape=true
    · rw [if_pos hzero] at hmid
      cases hmid
      have hsites : dataSites ((s,e)::rows)=dataSites rows := by
        unfold dataSites dataRows
        rw [List.filter_cons_of_neg (by simpa using hzero)]
      rw [hsites]
      exact ih h
    · rw [if_neg hzero] at hmid
      obtain ⟨hle,rfl⟩ := copyInto_ok.mp hmid
      have hsites : dataSites ((s,e)::rows)=Site.const e.1 s.data::dataSites rows := by
        unfold dataSites dataRows
        rw [List.filter_cons_of_pos (by simpa using hzero),List.map_cons]
      obtain ⟨rfl,hin⟩ := ih h
      rw [length_overwrite hle] at hin
      rw [hsites]
      refine ⟨?_,List.forall_mem_cons.mpr ⟨hle,hin⟩⟩
      rw [patchAll,patchAll,List.foldl_cons,patch_const hle]

/-- The places of the data are ascending like the extents that hold them. -/
theorem dataSites_ascending {sections : List Section} {extents : List (ℕ × ℕ)} {cursor stop : ℕ}
    (hok : List.Forall₂ ExtentOk sections extents)
    (hasc : Ascending cursor (usedExtents extents) stop) :
    Ascending cursor ((dataSites (sections.zip extents)).map Site.region) stop := by
  induction hok generalizing cursor with
  | nil => exact hasc
  | @cons s e sections extents hse hrest ih =>
    rw [List.zip_cons_cons]
    rcases hse with ⟨hdata,rfl⟩ | ⟨hdata,_,hlen,hpos,_⟩
    · have hsites : dataSites ((s,(0,0))::sections.zip extents)=
          dataSites (sections.zip extents) := by
        unfold dataSites dataRows
        rw [List.filter_cons_of_neg (by simp [Section.isZeroShape,hdata])]
      rw [hsites]
      exact ih hasc
    · have hsites : dataSites ((s,e)::sections.zip extents)=
          Site.const e.1 s.data::dataSites (sections.zip extents) := by
        unfold dataSites dataRows
        rw [List.filter_cons_of_pos (by simp [Section.isZeroShape,hdata]),List.map_cons]
      have hused : usedExtents (e::extents)=extentRegion e::usedExtents extents := by
        unfold usedExtents
        rw [List.filter_cons_of_pos (by simp; omega),List.map_cons]
      rw [hused] at hasc
      obtain ⟨h1,_,h2⟩ := hasc
      rw [hsites,List.map_cons]
      refine ⟨h1,?_,?_⟩
      · dsimp only [Site.region,Site.const]
        omega
      · refine (ih h2).weaken ?_
        dsimp only [Site.region,Site.const,extentRegion]
        omega

/-- The headers as one block. -/
def headBlock (machine count strtabOffset : ℕ) (opt : Bytes) (hdrs : List Bytes) : Bytes :=
  dosHeader 64++peSignature++coffHeader machine count strtabOffset++opt++hdrs.flatten

/-- The string table, if it has names, as a write to its offset. -/
def strtabSites (strtabOffset : ℕ) (strtab : Bytes) : List Site :=
  if 4 < strtab.length then [Site.const strtabOffset strtab] else []

/-- How a file is put together: the parts that the passes compute, and the file
as a zeroed buffer with the parts written to separate places. -/
structure Composition (machine : ℕ) (sections : List Section) (file : Bytes)
    (fields : List Bytes) (strtab : Bytes) (extents : List (ℕ × ℕ)) (hdrs : List Bytes)
    (opt : Bytes) (strtabOffset dataStop : ℕ) : Prop where
  /-- No name contains a NUL. -/
  noNul : ∀ s∈sections, (0 : UInt8)∉asBytes s.name
  /-- The number of sections fits 16 bits. -/
  count : sections.length≤0xFFFF
  /-- The optional header has its fixed size. -/
  optLength : opt.length=optSize
  /-- Every field stands for a name. -/
  names : List.Forall₂ (NameOk strtab) sections fields
  /-- Every section has a place. -/
  places : List.Forall₂ ExtentOk sections extents
  /-- Every section has a header. -/
  headers : List.Forall₂ (fun row hdr => headerFor row.1 row.2.1 row.2.2=.ok hdr)
    (sections.zip (fields.zip extents)) hdrs
  /-- The data lies between the headers and `dataStop`. -/
  ascending : Ascending (328+40*sections.length) (usedExtents extents) dataStop
  /-- The string table, if there is one, follows the data. -/
  strings : strtabOffset≠0 → strtabOffset=dataStop
  /-- A string table with names has an offset. -/
  stringsAt : 4 < strtab.length → strtabOffset=dataStop
  /-- The data ends in the file. -/
  inFile : dataStop≤file.length
  /-- The offset of the string table fits 32 bits. -/
  fits : strtabOffset<2^32
  /-- Every part lies in the file. -/
  inside : ∀ s∈Site.const 0 (headBlock machine sections.length strtabOffset opt hdrs)::
    (dataSites (sections.zip extents)++strtabSites strtabOffset strtab), s.Inside file.length
  /-- The parts are written to the zeroed buffer. -/
  written : Patched (Site.const 0 (headBlock machine sections.length strtabOffset opt hdrs)::
    (dataSites (sections.zip extents)++strtabSites strtabOffset strtab)) (zeros file.length) file

/-- The optional header has its fixed size. -/
theorem length_optionalHeader (a b c d e : ℕ) : (optionalHeader a b c d e).length=optSize := by
  unfold optionalHeader
  simp only [List.length_append]
  simp only [length_leBytes,length_zeros,List.length_cons,List.length_nil,optSize]

/-- The size of the header block. -/
theorem length_headBlock (machine count strtabOffset : ℕ) {opt : Bytes} (hdrs : List Bytes)
    (hopt : opt.length=optSize) : (headBlock machine count strtabOffset opt hdrs).length=
      328+hdrs.flatten.length := by
  unfold headBlock dosHeader coffHeader peSignature
  simp only [List.length_append]
  simp only [length_leBytes,length_zeros,hopt,List.length_cons,List.length_nil,optSize]

/-- Headers of forty bytes each. -/
theorem length_flatten_headers {rows : List (Section × Bytes × (ℕ × ℕ))} {hdrs : List Bytes}
    (hfields : ∀ row∈rows, row.2.1.length=8)
    (h : List.Forall₂ (fun row hdr => headerFor row.1 row.2.1 row.2.2=.ok hdr) rows hdrs) :
    (∀ hdr∈hdrs, hdr.length=40) ∧ hdrs.flatten.length=40*rows.length := by
  induction h with
  | nil => exact ⟨fun hdr hh => absurd hh List.not_mem_nil,rfl⟩
  | cons hrow _ ih =>
    obtain ⟨hfield,hfields⟩ := List.forall_mem_cons.mp hfields
    obtain ⟨hall,hlen⟩ := ih hfields
    have hfirst := length_headerFor hfield hrow
    refine ⟨List.forall_mem_cons.mpr ⟨hfirst,hall⟩,?_⟩
    rw [List.flatten_cons,List.length_append,hlen,hfirst,List.length_cons]
    omega

/-- The string table comes right behind the data and ends the file. -/
theorem placeStrtab_ok {strtab : Bytes} {cursor strtabOffset fileSize : ℕ} (hcursor : cursor<2^32)
    (h : placeStrtab strtab cursor=.ok (strtabOffset,fileSize)) :
    strtabOffset<2^32 ∧ cursor≤fileSize ∧ (strtabOffset≠0 → strtabOffset=cursor) ∧
      (4 < strtab.length → strtabOffset=cursor ∧ fileSize=cursor+strtab.length) := by
  unfold placeStrtab at h
  by_cases hnames : 4 < strtab.length
  · rw [if_pos hnames] at h
    obtain ⟨len,hlen,h⟩ := bind_ok.mp h
    obtain ⟨stop,hstop,h⟩ := bind_ok.mp h
    cases h
    obtain ⟨rfl,_⟩ := tryU32_ok.mp hlen
    obtain ⟨rfl,_⟩ := addWord_some.mp (okOr_ok.mp hstop)
    exact ⟨hcursor,by omega,fun _ => rfl,fun _ => ⟨rfl,rfl⟩⟩
  · rw [if_neg hnames] at h
    cases h
    exact ⟨Nat.two_pow_pos 32,le_refl _,fun hne => absurd rfl hne,fun hn => absurd hn hnames⟩

/-- The places of the parts are separate. -/
theorem sites_separate {head strtab : Bytes} {sections : List Section}
    {extents : List (ℕ × ℕ)} {strtabOffset dataStart dataStop : ℕ}
    (hhead : head.length≤dataStart) (hok : List.Forall₂ ExtentOk sections extents)
    (hasc : Ascending dataStart (usedExtents extents) dataStop)
    (hstr : 4 < strtab.length → strtabOffset=dataStop) :
    (Site.const 0 head::(dataSites (sections.zip extents)++strtabSites strtabOffset strtab)).Pairwise
      fun s t => s.region.Separate t.region := by
  have hdata := (dataSites_ascending hok hasc).weaken hhead
  have hlast : Ascending dataStop ((strtabSites strtabOffset strtab).map Site.region)
      (dataStop+strtab.length) := by
    unfold strtabSites
    by_cases hnames : 4 < strtab.length
    · rw [if_pos hnames,hstr hnames]
      exact ⟨le_refl _,Nat.le_add_right _ _,le_refl _⟩
    · rw [if_neg hnames]
      exact Nat.le_add_right _ _
  have hall : Ascending 0 ((Site.const 0 head::(dataSites (sections.zip extents)++
      strtabSites strtabOffset strtab)).map Site.region) (dataStop+strtab.length) := by
    rw [List.map_cons,List.map_append]
    refine ⟨le_refl _,Nat.le_add_right _ _,?_⟩
    refine Ascending.append (hdata.weaken ?_) hlast
    dsimp only [Site.region,Site.const]
    omega
  exact List.pairwise_map.mp hall.pairwise

/-- The copies of the headers, the data and the string table are one run of
writes inside the buffer. -/
theorem copies_ok {head strtab file : Bytes} {rows : List (Section × (ℕ × ℕ))}
    {fileSize strtabOffset : ℕ} (hhead : head.length≤fileSize)
    (hdata : ∀ s∈dataSites rows, s.Inside fileSize)
    (h : (if 4 < strtab.length then
        copyInto strtabOffset strtab (patchAll (dataSites rows) (overwrite 0 head (zeros fileSize)))
      else .ok (patchAll (dataSites rows) (overwrite 0 head (zeros fileSize))))=.ok file) :
    file.length=fileSize ∧
      (∀ s∈Site.const 0 head::(dataSites rows++strtabSites strtabOffset strtab),
        s.Inside fileSize) ∧
      file=patchAll (Site.const 0 head::(dataSites rows++strtabSites strtabOffset strtab))
        (zeros fileSize) := by
  have hfirst : overwrite 0 head (zeros fileSize)=(Site.const 0 head).patch (zeros fileSize) :=
    (patch_const (by rwa [length_zeros,Nat.zero_add])).symm
  have hfirstIn : (Site.const 0 head).Inside fileSize := by
    dsimp only [Site.Inside,Site.const]
    omega
  have hrun : ∀ last, patchAll (Site.const 0 head::(dataSites rows++last)) (zeros fileSize)=
      patchAll last (patchAll (dataSites rows) (overwrite 0 head (zeros fileSize))) := by
    intro last
    rw [hfirst,patchAll,patchAll,patchAll,List.foldl_cons,List.foldl_append]
  have hlen : (patchAll (dataSites rows) (overwrite 0 head (zeros fileSize))).length=fileSize := by
    rw [length_patchAll,length_overwrite (by rwa [length_zeros,Nat.zero_add]),length_zeros]
  rw [hrun]
  unfold strtabSites
  by_cases hnames : 4 < strtab.length
  · rw [if_pos hnames] at h
    rw [if_pos hnames]
    obtain ⟨hle,rfl⟩ := copyInto_ok.mp h
    refine ⟨by rw [length_overwrite hle,hlen],?_,(patch_const hle).symm⟩
    rw [hlen] at hle
    refine List.forall_mem_cons.mpr ⟨hfirstIn,List.forall_mem_append.mpr ⟨hdata,?_⟩⟩
    intro s hs
    obtain rfl := List.mem_singleton.mp hs
    exact hle
  · rw [if_neg hnames] at h
    rw [if_neg hnames]
    cases h
    refine ⟨hlen,?_,rfl⟩
    rw [List.append_nil]
    exact List.forall_mem_cons.mpr ⟨hfirstIn,hdata⟩

/-- Size of the headers of so many sections in the file. -/
def headersSize (count : ℕ) : ℕ :=
  (328+40*count+(fileAlignment-1))/fileAlignment*fileAlignment

/-- The end of the headers, aligned. -/
theorem headersSize_eq {sections : List Section} (hcount : sections.length≤0xFFFF) :
    alignUpU32 (64+peSignature.length+coffSize+optSize+
      sections.length*sectionHdrSize) fileAlignment=some (headersSize sections.length) := by
  have hend : 64+peSignature.length+coffSize+optSize+sections.length*sectionHdrSize=
      328+40*sections.length := by
    rw [Nat.mul_comm 40]
    rfl
  have hfile : fileAlignment=4096 := rfl
  have hadd : addWord 32 (328+40*sections.length) (fileAlignment-1)=
      some (328+40*sections.length+(fileAlignment-1)) := if_pos (by omega)
  have hclear : clearBits 32 (328+40*sections.length+(fileAlignment-1)) (fileAlignment-1)=
      headersSize sections.length := clearBits_low (k := 12) (by omega) (by decide)
  rw [hend,alignUpU32,hadd,Option.map_some,hclear]

/-- The headers fit their size. -/
theorem le_headersSize (count : ℕ) : 328+40*count≤headersSize count := by
  have hfile : fileAlignment=4096 := rfl
  have hlt := Nat.lt_div_mul_add (show 0<fileAlignment by decide) (a := 328+40*count+(fileAlignment-1))
  unfold headersSize
  omega

/-- The headers of so many sections end below 4 GiB. -/
theorem headersSize_lt {count : ℕ} (h : count≤0xFFFF) : headersSize count<2^32 := by
  have hfile : fileAlignment=4096 := rfl
  unfold headersSize
  rw [hfile]
  omega

/-- The headers are copied one behind the other to the start of the zeroed buffer. -/
theorem headBlock_ok {machine count strtabOffset fileSize : ℕ} {opt b1 b2 b3 b4 b5 : Bytes}
    {rows : List (Section × Bytes × (ℕ × ℕ))} (hopt : opt.length=optSize)
    (hfields : ∀ row∈rows, row.2.1.length=8)
    (h1 : copyInto 0 (dosHeader 64) (zeros fileSize)=.ok b1)
    (h2 : copyInto 64 peSignature b1=.ok b2)
    (h3 : copyInto (64+peSignature.length) (coffHeader machine count strtabOffset) b2=.ok b3)
    (h4 : copyInto (64+peSignature.length+coffSize) opt b3=.ok b4)
    (h5 : writeHeaders rows (64+peSignature.length+coffSize+optSize) b4=.ok b5) :
    ∃ hdrs : List Bytes,
      List.Forall₂ (fun row hdr => headerFor row.1 row.2.1 row.2.2=.ok hdr) rows hdrs ∧
      (headBlock machine count strtabOffset opt hdrs).length=328+rows.length*40 ∧
      (headBlock machine count strtabOffset opt hdrs).length≤fileSize ∧
      b5=overwrite 0 (headBlock machine count strtabOffset opt hdrs) (zeros fileSize) := by
  obtain ⟨hle1,rfl⟩ := copyInto_ok.mp h1
  have hdos : (dosHeader 64).length=64 := rfl
  obtain ⟨hle2,rfl⟩ := copyInto_next hdos (by omega) h2
  have hsig : (dosHeader 64++peSignature).length=64+peSignature.length := rfl
  obtain ⟨hle3,rfl⟩ := copyInto_next hsig hle2 h3
  have hcoff : (dosHeader 64++peSignature++coffHeader machine count strtabOffset).length=
      64+peSignature.length+coffSize := by
    rw [List.length_append,hsig]
    rfl
  obtain ⟨hle4,rfl⟩ := copyInto_next hcoff hle3 h4
  rw [hopt] at hle4
  have hblock : (dosHeader 64++peSignature++coffHeader machine count strtabOffset++
      opt).length=64+peSignature.length+coffSize+optSize := by
    rw [List.length_append,hcoff,hopt]
  have hsame : (overwrite 0 (dosHeader 64++peSignature++coffHeader machine count strtabOffset++
      opt) (zeros fileSize)).length=(zeros fileSize).length :=
    length_overwrite (by rw [hblock,Nat.zero_add]; exact hle4)
  obtain ⟨hdrs,hhdrs,hle5,rfl⟩ := writeHeaders_ok hfields (by rw [hsame]; exact hle4) h5
  rw [hsame] at hle5
  obtain ⟨-,hflat⟩ := length_flatten_headers hfields hhdrs
  have hlength := length_headBlock machine count strtabOffset hdrs hopt
  have hinside : (headBlock machine count strtabOffset opt hdrs).length≤fileSize := by
    rw [length_zeros] at hle5
    rw [hlength]
    exact hle5
  rw [hflat,Nat.mul_comm] at hlength
  exact ⟨hdrs,hhdrs,hlength,hinside,overwrite_next hblock hle5⟩

/-- No name of a section contains a NUL. -/
def checkNames (sections : List Section) : Outcome PeError Unit :=
  sections.forM fun s => if (asBytes s.name).contains 0 then fail (.nulInName s.name) else .ok ()

/-- Names that pass the check contain no NUL. -/
theorem checkNames_ok {sections : List Section} :
    checkNames sections=.ok () ↔ ∀ s∈sections, (0 : UInt8)∉asBytes s.name := by
  rw [checkNames,forM_ok]
  refine forall₂_congr fun s _ => ?_
  by_cases hnul : (0 : UInt8)∈asBytes s.name
  · rw [if_pos (by simpa using hnul)]
    exact iff_of_false fail_ne_ok (not_not_intro hnul)
  · rw [if_neg (by simpa using hnul)]
    exact iff_of_true rfl hnul

/-- The copies into the buffer of a file, at the places that were found for them. -/
def fileCopies (machine : ℕ) (sections : List Section) (fields : List Bytes)
    (extents : List (ℕ × ℕ)) (strtab : Bytes) (strtabOffset fileSize : ℕ) :
    Outcome PeError Bytes := do
  let buf ← copyInto 0 (dosHeader 64) (zeros fileSize)
  let buf ← copyInto 64 peSignature buf
  let totals ← sizeTotals sections (0,0,0)
  let buf ← copyInto (64+peSignature.length) (coffHeader machine sections.length strtabOffset) buf
  let buf ← copyInto (64+peSignature.length+coffSize) (optionalHeader totals.1 totals.2.1 totals.2.2
    (sizeOfImage sections (headersSize sections.length)) (headersSize sections.length)) buf
  let buf ← writeHeaders (sections.zip (fields.zip extents))
    (64+peSignature.length+coffSize+optSize) buf
  let buf ← writeData (sections.zip extents) buf
  if 4 < strtab.length then copyInto strtabOffset strtab buf else .ok buf

/-- A file that is built has few sections. -/
theorem buildPe_count {machine : ℕ} {sections : List Section} {file : Bytes}
    (h : buildPe machine sections=.ok file) : sections.length≤0xFFFF := by
  unfold buildPe at h
  split at h
  · exact absurd h fail_ne_ok
  · rename_i hcount
    exact Nat.not_lt.mp hcount

/-- A file is built in passes that find the places of its parts and in copies to them. -/
theorem buildPe_eq {machine : ℕ} {sections : List Section} (hcount : sections.length≤0xFFFF) :
    buildPe machine sections=checkNames sections >>= fun _ =>
      nameFields sections (leBytes 4 0) >>= fun names =>
      rawExtents sections (headersSize sections.length) >>= fun raw =>
      placeStrtab (overwrite 0 (leBytes 4 names.2.length) names.2) raw.2 >>= fun placed =>
      fileCopies machine sections names.1 raw.1 (overwrite 0 (leBytes 4 names.2.length) names.2)
        placed.1 placed.2 := by
  have hpe : alignUpU32 dosSize 8=some 64 := by decide
  have hend : tryU32 (64+peSignature.length+coffSize+optSize+sections.length*sectionHdrSize)=
      .ok (64+peSignature.length+coffSize+optSize+sections.length*sectionHdrSize) := by
    refine tryU32_ok.mpr ⟨rfl,?_⟩
    rw [show sectionHdrSize=40 from rfl,show peSignature.length=4 from rfl,
      show coffSize=20 from rfl,show optSize=240 from rfl]
    omega
  unfold buildPe
  rw [if_neg (by omega)]
  refine congrArg (checkNames sections >>= ·) (funext fun _ => ?_)
  refine congrArg (nameFields sections (leBytes 4 0) >>= ·) (funext fun names => ?_)
  obtain ⟨fields,strtab⟩ := names
  dsimp only
  rw [hpe,ok_bind (okOr_ok.mpr rfl),ok_bind hend,headersSize_eq hcount,ok_bind (okOr_ok.mpr rfl)]
  rfl

/-- A file that is built is composed of its parts, with the name fields and the places that
the passes find for its sections. -/
theorem buildPe_passes {machine : ℕ} {sections : List Section} {file : Bytes}
    (h : buildPe machine sections=.ok file) :
    ∃ fields strtab extents hdrs opt strtabOffset dataStop,
      Composition machine sections file fields strtab extents hdrs opt strtabOffset dataStop ∧
      rawExtents sections (headersSize sections.length)=.ok (extents,dataStop) ∧
      ∃ names, nameFields sections (leBytes 4 0)=.ok (fields,names) := by
  have hcount := buildPe_count h
  rw [buildPe_eq hcount] at h
  obtain ⟨_,hnul,h⟩ := bind_ok.mp h
  obtain ⟨⟨fields,strtab0⟩,hfields,h⟩ := bind_ok.mp h
  obtain ⟨⟨extents,cursor⟩,hextents,h⟩ := bind_ok.mp h
  obtain ⟨⟨strtabOffset,fileSize⟩,hstr,h⟩ := bind_ok.mp h
  obtain ⟨buf1,hbuf1,h⟩ := bind_ok.mp h
  obtain ⟨buf2,hbuf2,h⟩ := bind_ok.mp h
  obtain ⟨⟨code,initData,uninitData⟩,_,h⟩ := bind_ok.mp h
  obtain ⟨buf3,hbuf3,h⟩ := bind_ok.mp h
  obtain ⟨buf4,hbuf4,h⟩ := bind_ok.mp h
  obtain ⟨buf5,hbuf5,h⟩ := bind_ok.mp h
  obtain ⟨buf6,hbuf6,h⟩ := bind_ok.mp h
  -- the layout: the extents behind the headers
  have hheaders := le_headersSize sections.length
  have hheaders32 := headersSize_lt hcount
  obtain ⟨hplaces,hcursor,hasc⟩ := rawExtents_ok hheaders32 hextents
  obtain ⟨hfits,hcursorle,hstrings,hstringsAt⟩ := placeStrtab_ok hcursor hstr
  obtain ⟨⟨added,hadded⟩,hnames⟩ := nameFields_ok (by rw [length_leBytes]) hfields
  have hstrtab0 : 4 ≤ strtab0.length := by
    rw [hadded,List.length_append,length_leBytes]
    omega
  have hnames' : List.Forall₂ (NameOk (overwrite 0 (leBytes 4 strtab0.length) strtab0))
      sections fields := hnames.imp fun s f hs => hs.overwrite hstrtab0 _
  have hfieldLen : ∀ row∈sections.zip (fields.zip extents), row.2.1.length=8 := by
    intro row hrow
    have hmem := (List.of_mem_zip (List.of_mem_zip hrow).2).1
    obtain ⟨s,_,hs⟩ := forall₂_mem hnames.flip hmem
    exact hs.1
  have hrows : (sections.zip (fields.zip extents)).length=sections.length := by
    rw [List.length_zip,List.length_zip,←hnames.length_eq,←hplaces.length_eq,Nat.min_self,
      Nat.min_self]
  -- the copies into the zeroed buffer
  have hoptLen := length_optionalHeader code initData uninitData
    (sizeOfImage sections (headersSize sections.length)) (headersSize sections.length)
  generalize optionalHeader code initData uninitData
    (sizeOfImage sections (headersSize sections.length)) (headersSize sections.length)=opt
    at hbuf4 hoptLen
  obtain ⟨hdrs,hhdrs,hheadLen,hheadIn,rfl⟩ :=
    headBlock_ok hoptLen hfieldLen hbuf1 hbuf2 hbuf3 hbuf4 hbuf5
  rw [hrows] at hheadLen
  obtain ⟨rfl,hdataIn⟩ := writeData_ok hbuf6
  -- the file is the run of all writes
  rw [length_overwrite (by rw [length_zeros,Nat.zero_add]; exact hheadIn),length_zeros] at hdataIn
  obtain ⟨rfl,hinside,hfile⟩ :=
    @copies_ok (headBlock machine sections.length strtabOffset opt hdrs) _ _ _ _ _ hheadIn hdataIn h
  refine ⟨fields,_,extents,hdrs,opt,strtabOffset,cursor,⟨checkNames_ok.mp hnul,hcount,hoptLen,hnames',
    hplaces,hhdrs,hasc.weaken (by omega),hstrings,fun hn => (hstringsAt hn).1,hcursorle,hfits,
    hinside,?_⟩,hextents,strtab0,hfields⟩
  conv =>
    arg 3
    rw [hfile]
  refine patchAll_patched (sites_separate ?_ hplaces hasc fun hn => (hstringsAt hn).1) ?_
  · rw [hheadLen]
    omega
  · rwa [length_zeros]

/-- A file that is built is composed of its parts, with the data laid out behind the
headers. -/
theorem buildPe_ok {machine : ℕ} {sections : List Section} {file : Bytes}
    (h : buildPe machine sections=.ok file) :
    ∃ fields strtab extents hdrs opt strtabOffset dataStop,
      Composition machine sections file fields strtab extents hdrs opt strtabOffset dataStop ∧
      rawExtents sections (headersSize sections.length)=.ok (extents,dataStop) := by
  obtain ⟨fields,strtab,extents,hdrs,opt,strtabOffset,dataStop,hc,hextents,-⟩ := buildPe_passes h
  exact ⟨fields,strtab,extents,hdrs,opt,strtabOffset,dataStop,hc,hextents⟩

/-- A word between two parts of a string is read back. -/
theorem ofLE_slice_word {n o v : ℕ} {file a c : Bytes} (h : file=a++leBytes n v++c)
    (ha : a.length=o) (hv : v<256^n) : ofLE (slice o n file)=v := by
  rw [h,slice_append ha (length_leBytes n v),ofLE_leBytes,Nat.mod_eq_of_lt hv]

/-- What is read of a section header. -/
theorem readSection_eq (file : Bytes) (stringTable : ℕ) {s : Section} {field hdr : Bytes}
    {e : ℕ × ℕ} (hfield : field.length=8) (hplace : ExtentOk s e) (hhdr : headerFor s field e=.ok hdr) :
    readSection file stringTable hdr=⟨readName file stringTable field,
      if s.nonLoaded then 0 else s.vaddr,s.characteristics.toNat,e.1,e.2,slice e.1 e.2 file⟩ := by
  obtain ⟨vsize,vaddr,hvaddr,hlt,rfl⟩ := headerFor_ok hhdr
  have he : e.1<2^32 ∧ e.2<2^32 := by
    rcases hplace with ⟨_,rfl⟩ | ⟨_,_,_,_,hsum⟩
    · exact ⟨by decide,by decide⟩
    · omega
  have hname : slice 0 8 (sectionHeader field vsize vaddr e.2 e.1 s.characteristics)=field := by
    have hsplit := slice_append (a := []) (b := field) (c := leBytes 4 vsize++leBytes 4 vaddr++
      leBytes 4 e.2++leBytes 4 e.1++zeros 12++leBytes 4 s.characteristics.toNat) rfl hfield
    simpa only [sectionHeader,List.append_assoc,List.nil_append,List.length_nil] using hsplit
  have haddr : u32At (sectionHeader field vsize vaddr e.2 e.1 s.characteristics) 12=vaddr := by
    refine ofLE_slice_word (a := field++leBytes 4 vsize) (c := leBytes 4 e.2++leBytes 4 e.1++
      zeros 12++leBytes 4 s.characteristics.toNat) ?_ ?_ hlt
    · simp only [sectionHeader,List.append_assoc]
    · rw [List.length_append,hfield,length_leBytes]
  have hsize : u32At (sectionHeader field vsize vaddr e.2 e.1 s.characteristics) 16=e.2 := by
    refine ofLE_slice_word (a := field++leBytes 4 vsize++leBytes 4 vaddr) (c := leBytes 4 e.1++
      zeros 12++leBytes 4 s.characteristics.toNat) ?_ ?_ he.2
    · simp only [sectionHeader,List.append_assoc]
    · simp only [List.length_append,hfield,length_leBytes]
  have hptr : u32At (sectionHeader field vsize vaddr e.2 e.1 s.characteristics) 20=e.1 := by
    refine ofLE_slice_word (a := field++leBytes 4 vsize++leBytes 4 vaddr++leBytes 4 e.2)
      (c := zeros 12++leBytes 4 s.characteristics.toNat) ?_ ?_ he.1
    · simp only [sectionHeader,List.append_assoc]
    · simp only [List.length_append,hfield,length_leBytes]
  have hflags : u32At (sectionHeader field vsize vaddr e.2 e.1 s.characteristics) 36=
      s.characteristics.toNat := by
    refine ofLE_slice_word (a := field++leBytes 4 vsize++leBytes 4 vaddr++leBytes 4 e.2++
      leBytes 4 e.1++zeros 12) (c := []) ?_ ?_ s.characteristics.toNat_lt
    · simp only [sectionHeader,List.append_nil]
    · simp only [List.length_append,hfield,length_leBytes,length_zeros]
  unfold readSection
  rw [hname,haddr,hsize,hptr,hflags,hvaddr]

section

variable {machine : ℕ} {sections : List Section} {file : Bytes} {fields : List Bytes}
  {strtab : Bytes} {extents : List (ℕ × ℕ)} {hdrs : List Bytes} {opt : Bytes}
  {strtabOffset dataStop : ℕ}

/-- The file starts with the header block. -/
theorem Composition.file_eq (h : Composition machine sections file fields strtab extents hdrs opt
    strtabOffset dataStop) :
    ∃ rest, file=headBlock machine sections.length strtabOffset opt hdrs++rest := by
  have hin := h.inside _ List.mem_cons_self
  have hslice := h.written.slice_const List.mem_cons_self (by rw [length_zeros]; exact hin)
  refine ⟨file.drop (headBlock machine sections.length strtabOffset opt hdrs).length,?_⟩
  rw [slice,List.drop_zero] at hslice
  conv_lhs => rw [←List.take_append_drop (headBlock machine sections.length strtabOffset opt
    hdrs).length file]
  rw [hslice]

/-- Every name field has eight bytes. -/
theorem Composition.length_field (h : Composition machine sections file fields strtab extents hdrs
    opt strtabOffset dataStop) :
    ∀ row∈sections.zip (fields.zip extents), row.2.1.length=8 := by
  intro row hrow
  have hmem := (List.of_mem_zip (List.of_mem_zip hrow).2).1
  obtain ⟨s,_,hs⟩ := forall₂_mem h.names.flip hmem
  exact hs.1

/-- There are as many headers as sections. -/
theorem Composition.length_headers (h : Composition machine sections file fields strtab extents
    hdrs opt strtabOffset dataStop) : hdrs.length=sections.length := by
  rw [←h.headers.length_eq,List.length_zip,List.length_zip,←h.names.length_eq,
    ←h.places.length_eq,Nat.min_self,Nat.min_self]

/-- The words by which a reader finds the headers of the sections. -/
structure TableAt (file : Bytes) (count strtabOffset : ℕ) (hdrs : List Bytes) : Prop where
  /-- The file starts with a DOS header. -/
  magic : u16At file 0=0x5A4D
  /-- The PE header follows it. -/
  lfanew : u32At file 60=64
  /-- The PE header starts with its signature. -/
  signature : slice 64 4 file=[0x50,0x45,0,0]
  /-- The number of sections. -/
  count : u16At file (64+6)=count
  /-- The offset of the symbols, of which there are none. -/
  strings : u32At file (64+12)=strtabOffset
  /-- The number of symbols. -/
  symbols : u32At file (64+16)=0
  /-- The size of the optional header. -/
  optional : u16At file (64+20)=240
  /-- The headers follow the optional header. -/
  headers : ∃ rest, file.drop (64+24+240)=hdrs.flatMap id++rest

/-- The words are where the format says. -/
theorem Composition.tableAt (h : Composition machine sections file fields strtab extents hdrs opt
    strtabOffset dataStop) : TableAt file sections.length strtabOffset hdrs := by
  obtain ⟨rest,hfile⟩ := h.file_eq
  have hmagic : u16At file 0=0x5A4D := by
    refine ofLE_slice_word (a := []) (c := zeros 58++leBytes 4 64++peSignature++
      coffHeader machine sections.length strtabOffset++opt++hdrs.flatten++rest) ?_ rfl (by decide)
    rw [hfile]
    simp only [headBlock,dosHeader,List.append_assoc,List.nil_append]
  have hlfanew : u32At file 60=64 := by
    refine ofLE_slice_word (a := leBytes 2 0x5A4D++zeros 58) (c := peSignature++
      coffHeader machine sections.length strtabOffset++opt++hdrs.flatten++rest) ?_ rfl (by decide)
    rw [hfile]
    simp only [headBlock,dosHeader,List.append_assoc]
  have hsig : slice 64 4 file=[0x50,0x45,0,0] := by
    rw [hfile,headBlock]
    have hsplit := slice_append (a := dosHeader 64) (b := peSignature)
      (c := coffHeader machine sections.length strtabOffset++opt++hdrs.flatten++rest)
      (o := 64) (n := 4) rfl rfl
    simp only [List.append_assoc] at hsplit ⊢
    exact hsplit
  have hcount : u16At file (64+6)=sections.length := by
    refine ofLE_slice_word (a := dosHeader 64++peSignature++leBytes 2 machine)
      (c := leBytes 4 0++leBytes 4 strtabOffset++leBytes 4 0++leBytes 2 optSize++
        leBytes 2 fileCharacteristics++opt++hdrs.flatten++rest) ?_ rfl ?_
    · rw [hfile]
      simp only [headBlock,coffHeader,List.append_assoc]
    · have := h.count
      omega
  have hstrings : u32At file (64+12)=strtabOffset := by
    refine ofLE_slice_word (a := dosHeader 64++peSignature++leBytes 2 machine++
      leBytes 2 sections.length++leBytes 4 0) (c := leBytes 4 0++leBytes 2 optSize++
        leBytes 2 fileCharacteristics++opt++hdrs.flatten++rest) ?_ rfl h.fits
    rw [hfile]
    simp only [headBlock,coffHeader,List.append_assoc]
  have hsymbols : u32At file (64+16)=0 := by
    refine ofLE_slice_word (a := dosHeader 64++peSignature++leBytes 2 machine++
      leBytes 2 sections.length++leBytes 4 0++leBytes 4 strtabOffset) (c := leBytes 2 optSize++
        leBytes 2 fileCharacteristics++opt++hdrs.flatten++rest) ?_ rfl (by decide)
    rw [hfile]
    simp only [headBlock,coffHeader,List.append_assoc]
  have hopt : u16At file (64+20)=240 := by
    refine ofLE_slice_word (a := dosHeader 64++peSignature++leBytes 2 machine++
      leBytes 2 sections.length++leBytes 4 0++leBytes 4 strtabOffset++leBytes 4 0)
      (c := leBytes 2 fileCharacteristics++opt++hdrs.flatten++rest) ?_ rfl (by decide)
    rw [hfile]
    simp only [headBlock,coffHeader,List.append_assoc]
    rfl
  have htable : file.drop (64+24+240)=hdrs.flatMap id++rest := by
    rw [hfile,List.flatMap_id]
    unfold headBlock
    rw [List.append_assoc,List.drop_left']
    simp only [List.length_append]
    rw [h.optLength]
    rfl
  exact ⟨hmagic,hlfanew,hsig,hcount,hstrings,hsymbols,hopt,rest,htable⟩

/-- The headers are read back one by one, whatever is read of each. -/
theorem Composition.decodeHeaders (h : Composition machine sections file fields strtab extents hdrs
    opt strtabOffset dataStop) {α : Type} (read : Bytes → α) (rest : Bytes) :
    decodeRecords 40 read sections.length (hdrs.flatMap id++rest)=hdrs.map read := by
  have hall := (length_flatten_headers h.length_field h.headers).1
  rw [←h.length_headers]
  exact decodeRecords_flatMap _ hall rest

/-- The reader finds the header of every section. -/
theorem Composition.readPe_eq (h : Composition machine sections file fields strtab extents hdrs opt
    strtabOffset dataStop) : readPe file=some ⟨328+40*sections.length,strtabOffset,
      hdrs.map (readSection file strtabOffset)⟩ := by
  have ht := h.tableAt
  obtain ⟨rest,htable⟩ := ht.headers
  unfold readPe
  dsimp only
  rw [ht.lfanew,if_pos ⟨ht.magic,ht.signature⟩,ht.count,ht.strings,ht.symbols,ht.optional,htable,
    Nat.mul_zero,Nat.add_zero strtabOffset,h.decodeHeaders]

/-- The string table is where the COFF header says. -/
theorem Composition.slice_strtab (h : Composition machine sections file fields strtab extents hdrs
    opt strtabOffset dataStop) (hnames : 4 < strtab.length) :
    slice strtabOffset strtab.length file=strtab := by
  have hmem : Site.const strtabOffset strtab∈
      Site.const 0 (headBlock machine sections.length strtabOffset opt hdrs)::
        (dataSites (sections.zip extents)++strtabSites strtabOffset strtab) := by
    refine List.mem_cons_of_mem _ (List.mem_append_right _ ?_)
    rw [strtabSites,if_pos hnames]
    exact List.mem_singleton_self _
  refine h.written.slice_const hmem ?_
  rw [length_zeros]
  exact h.inside _ hmem

/-- The extents of the sections with data, as a list of rows. -/
theorem usedExtents_eq (hok : List.Forall₂ ExtentOk sections extents) :
    (dataRows (sections.zip extents)).map (fun row => extentRegion row.2)=usedExtents extents := by
  induction hok with
  | nil => rfl
  | @cons s e sections extents hse _ ih =>
    unfold dataRows usedExtents at ih ⊢
    rw [List.zip_cons_cons]
    rcases hse with ⟨hdata,rfl⟩ | ⟨hdata,_,hlen,hpos,_⟩
    · rw [List.filter_cons_of_neg (by simp [Section.isZeroShape,hdata]),
        List.filter_cons_of_neg (by simp),ih]
    · rw [List.filter_cons_of_pos (by simp [Section.isZeroShape,hdata]),
        List.filter_cons_of_pos (by simp; omega),List.map_cons,List.map_cons,ih]

/-- No write touches the padding of a section's extent. -/
theorem Composition.padding_zero (h : Composition machine sections file fields strtab extents hdrs
    opt strtabOffset dataStop) {s : Section} {e : ℕ × ℕ} (hmem : (s,e)∈sections.zip extents)
    (hdata : s.data≠[]) {i : ℕ} (hlo : e.1+s.data.length ≤ i) (hhi : i<e.1+e.2) :
    file[i]?=some 0 := by
  have hrow : (s,e)∈dataRows (sections.zip extents) :=
    List.mem_filter.mpr ⟨hmem,by simp [Section.isZeroShape,hdata]⟩
  have hused : extentRegion e∈usedExtents extents := by
    rw [←usedExtents_eq h.places]
    exact List.mem_map_of_mem hrow
  obtain ⟨hstart,_,hstop⟩ := h.ascending.bounds.2 _ hused
  dsimp only [extentRegion] at hstart hstop
  have hlen := h.inFile
  have hfields : ∀ t∈Site.const 0 (headBlock machine sections.length strtabOffset opt hdrs)::
      (dataSites (sections.zip extents)++strtabSites strtabOffset strtab), i∉t.region.toSet := by
    intro t ht hi
    obtain ⟨h1,h2⟩ := mem_toSet.mp hi
    rcases List.mem_cons.mp ht with rfl | ht
    · -- the headers end before the data
      have hheadLen := length_headBlock machine sections.length strtabOffset hdrs h.optLength
      rw [(length_flatten_headers h.length_field h.headers).2,List.length_zip,List.length_zip,
        ←h.names.length_eq,←h.places.length_eq,Nat.min_self,Nat.min_self] at hheadLen
      dsimp only [Site.region,Site.const] at h1 h2
      omega
    rcases List.mem_append.mp ht with ht | ht
    · -- another section's data lies in another extent
      obtain ⟨⟨s',e'⟩,hrow',rfl⟩ := List.mem_map.mp ht
      dsimp only [Site.region,Site.const] at h1 h2
      have hsep : (dataRows (sections.zip extents)).Pairwise
          fun a b => (extentRegion a.2).Separate (extentRegion b.2) := by
        rw [←List.pairwise_map (f := fun row : Section × (ℕ × ℕ) => extentRegion row.2),
          usedExtents_eq h.places]
        exact h.ascending.pairwise
      by_cases hsame : (s,e)=(s',e')
      · obtain ⟨rfl,rfl⟩ := Prod.mk.inj hsame
        omega
      · have : Std.Symm fun a b : Section × (ℕ × ℕ) =>
            (extentRegion a.2).Separate (extentRegion b.2) := ⟨fun _ _ => separate_comm.mp⟩
        have hse : (extentRegion e).Separate (extentRegion e') := hsep.forall hrow hrow' hsame
        have hroom : s'.data.length≤e'.2 := by
          have hzip := (List.mem_filter.mp hrow').1
          rcases (List.forall₂_iff_zip.mp h.places).2 hzip with ⟨hnil,rfl⟩ | ⟨_,_,hle,_⟩
          · rw [hnil]
            exact Nat.zero_le _
          · exact hle
        have hin : i∈(extentRegion e).toSet := mem_toSet.mpr ⟨(by omega : e.1 ≤ i),hhi⟩
        have hin' : i∈(extentRegion e').toSet := mem_toSet.mpr ⟨h1,(by omega : i<e'.1+e'.2)⟩
        exact Set.disjoint_left.mp hse hin hin'
    · -- the string table follows the data
      unfold strtabSites at ht
      by_cases hnames : 4 < strtab.length
      · rw [if_pos hnames] at ht
        obtain rfl := List.mem_singleton.mp ht
        have hoff := h.stringsAt hnames
        dsimp only [Site.region,Site.const] at h1 h2
        omega
      · rw [if_neg hnames] at ht
        exact absurd ht List.not_mem_nil
  rw [h.written.frame i hfields,zeros,List.getElem?_replicate,if_pos (by omega)]

/-- The raw data of a section is its data, followed by zeros. -/
theorem Composition.rawData (h : Composition machine sections file fields strtab extents hdrs opt
    strtabOffset dataStop) {s : Section} {e : ℕ × ℕ} (hmem : (s,e)∈sections.zip extents) :
    ∃ pad, slice e.1 e.2 file=s.data++zeros pad := by
  rcases (List.forall₂_iff_zip.mp h.places).2 hmem with ⟨hnil,rfl⟩ | ⟨hdata,_,hlen,_,_⟩
  · exact ⟨0,by rw [hnil]; rfl⟩
  · refine ⟨e.2-s.data.length,?_⟩
    have hsite : Site.const e.1 s.data∈
        Site.const 0 (headBlock machine sections.length strtabOffset opt hdrs)::
          (dataSites (sections.zip extents)++strtabSites strtabOffset strtab) := by
      refine List.mem_cons_of_mem _ (List.mem_append_left _ ?_)
      exact List.mem_map_of_mem (f := fun row : Section × (ℕ × ℕ) => Site.const row.2.1 row.1.data)
        (List.mem_filter.mpr ⟨hmem,by simp [Section.isZeroShape,hdata]⟩)
    have hfirst := h.written.slice_const hsite (by rw [length_zeros]; exact h.inside _ hsite)
    have hpad : slice (e.1+s.data.length) (e.2-s.data.length) file=zeros (e.2-s.data.length) := by
      apply List.ext_getElem?
      intro i
      rw [getElem?_slice,zeros,List.getElem?_replicate]
      by_cases hi : i<e.2-s.data.length
      · rw [if_pos hi,if_pos hi]
        exact h.padding_zero hmem hdata (by omega) (by omega)
      · rw [if_neg hi,if_neg hi]
    rw [show e.2=s.data.length+(e.2-s.data.length) by omega,slice_add,hfirst]
    simpa using hpad

/-- The sections that are read are those that were written, at their extents. -/
theorem Composition.readSections (h : Composition machine sections file fields strtab extents hdrs
    opt strtabOffset dataStop) (hdot : ∀ s∈sections, (asBytes s.name).head?=some 0x2E) :
    List.Forall₂ SameSection sections (hdrs.map (readSection file strtabOffset)) ∧
      (hdrs.map (readSection file strtabOffset)).map
        (fun r => (r.pointerToRawData,r.sizeOfRawData))=extents := by
  have hraw : ∀ s e, (s,e)∈sections.zip extents → ∃ pad, slice e.1 e.2 file=s.data++zeros pad :=
    fun s e hmem => h.rawData hmem
  have hstrings := h.slice_strtab
  have hnul := h.noNul
  have hheaders := h.headers
  have hnames := h.names
  have hplaces := h.places
  clear h
  -- all three lists follow the list of sections
  induction hnames generalizing extents hdrs with
  | nil =>
    cases hplaces
    cases hheaders
    exact ⟨List.Forall₂.nil,rfl⟩
  | @cons s field sections fields hname _ ih =>
    cases hplaces with
    | @cons _ e _ extents hplace hplaces =>
      rw [List.zip_cons_cons,List.zip_cons_cons] at hheaders
      cases hheaders with
      | @cons _ hdr _ hdrs hhdr hheaders =>
        obtain ⟨hdots,hdotrest⟩ := List.forall_mem_cons.mp hdot
        obtain ⟨hnuls,hnulrest⟩ := List.forall_mem_cons.mp hnul
        have hread := readSection_eq file strtabOffset hname.1 hplace hhdr
        obtain ⟨hrest,hextents⟩ := ih hdotrest (fun s e hmem => hraw s e (by
          rw [List.zip_cons_cons]; exact List.mem_cons_of_mem _ hmem)) hnulrest hheaders hplaces
        obtain ⟨pad,hpad⟩ := hraw s e (by rw [List.zip_cons_cons]; exact List.mem_cons_self)
        rw [List.map_cons,List.map_cons,hread]
        refine ⟨List.Forall₂.cons ⟨?_,rfl,rfl,pad,hpad⟩ hrest,by rw [hextents]⟩
        exact readName_eq hname hdots hnuls hstrings

end

/-- A PE file built from sections whose names begin with a dot is read back:
the same names, addresses, flags and data in the same order, at separate and
aligned places between the headers and the string table. -/
theorem readPe_buildPe {machine : ℕ} {sections : List Section} {file : Bytes}
    (hdot : ∀ s∈sections, (asBytes s.name).head?=some 0x2E)
    (h : buildPe machine sections=.ok file) :
    ∃ image, readPe file=some image ∧ RoundTrip sections file image := by
  obtain ⟨fields,strtab,extents,hdrs,opt,strtabOffset,dataStop,hc,_⟩ := buildPe_ok h
  obtain ⟨hsame,hextents⟩ := hc.readSections hdot
  refine ⟨_,hc.readPe_eq,?_⟩
  have hused : PeImage.extents ⟨328+40*sections.length,strtabOffset,
      hdrs.map (readSection file strtabOffset)⟩=usedExtents extents := by
    rw [←hextents,usedExtents,List.filter_map,List.map_map]
    rfl
  have hbounds := hc.ascending.bounds.2
  constructor
  · exact hsame
  · rw [hused]
    exact hc.ascending.pairwise
  · rw [hused]
    intro r hr
    obtain ⟨e,he,rfl⟩ := List.mem_map.mp hr
    obtain ⟨hmem,hne⟩ := List.mem_filter.mp he
    obtain ⟨s,_,hs⟩ := forall₂_mem hc.places.flip hmem
    rcases hs with ⟨_,rfl⟩ | ⟨_,hdvd,_⟩
    · simp at hne
    · exact hdvd
  · rw [hused]
    exact fun r hr => (hbounds r hr).1
  · rw [hused]
    intro hne r hr
    have hoff : strtabOffset=dataStop := hc.strings hne
    dsimp only
    rw [hoff]
    exact (hbounds r hr).2.2
  · rw [hused]
    exact fun r hr => (hbounds r hr).2.2.trans hc.inFile

/-- A loaded section with a long name and a section that is not loaded. -/
def sampleSections : List Section :=
  [⟨".linux.relocs",0x200000,0x1000,[1,2,3],imageScnCntInitializedData,false⟩,
    ⟨".pmi.vm",0,2,[9,8],0,true⟩]

/-- The sample is built and read back. -/
theorem readPe_buildPe_sample : ∃ file, buildPe 0x8664 sampleSections=.ok file ∧
    ∃ image, readPe file=some image ∧ RoundTrip sampleSections file image := by
  have hbuild : (buildPe 0x8664 sampleSections).toOption.isSome=true := by decide +kernel
  cases h : buildPe 0x8664 sampleSections with
  | error e =>
    rw [h] at hbuild
    cases hbuild
  | ok file => exact ⟨file,rfl,readPe_buildPe (by decide) h⟩

end Arma.Pe.RoundTrip
