import Arma.Check.Image
import Arma.Kernel.Unwrap

/-!
# Unified kernel images

A PE file that the writer makes is unwrapped to the section `.linux` that it was made from.
The size of the section in memory cuts off the padding of its data in the file, so a section
that is not loaded gives back its data and a loaded one its data in whole pages.
-/

namespace Arma.Kernel.Uki

open Base.ByteString Base.Checked Base.Decimal Base.Text Check.Image Image Pe.Granularity Pe.RoundTrip Pe.Writer
open Unwrap

/-- A row of the section table, with its name field. -/
def rawHeader (hdr : Bytes) : PeRow :=
  ⟨slice 0 8 hdr,.ofNat (readMapping hdr).virtualSize,.ofNat (u32At hdr 20),.ofNat (u32At hdr 16)⟩

/-- The section table of a PE file, found as `readPe` does. -/
def rawTable (file : Bytes) : Option (List PeRow) :=
  let pe := u32At file 60
  if u16At file 0=0x5A4D ∧ slice pe 4 file=peSignature then
    some (decodeRecords 40 rawHeader (u16At file (pe+6)) (file.drop (pe+24+u16At file (pe+20))))
  else none

/-- The size of the data of a section in the file. -/
def rawSize (s : Section) : ℕ :=
  if s.isZeroShape then 0 else wholeUnits fileAlignment s.data.length

/-- The data of a section in the file. -/
def rawData (s : Section) : Bytes := s.data++zeros (rawSize s-s.data.length)

/-- The sections with the name of the kernel. -/
def linuxSections (sections : List Section) : List Section :=
  sections.filter fun s => decide (s.name=".linux")

/-- What a file with these sections of that name is unwrapped to. -/
def emittedKernel (file : Bytes) : List Section → Outcome UnwrapError Bytes
  | [] => .ok file
  | [s] =>
    if emittedSize s=0 ∨ rawSize s < emittedSize s then
      fail (.ukiMalformed ".linux is not fully file-backed")
    else .ok ((rawData s).take (emittedSize s))
  | _::_::_ => fail (.ukiMalformed "duplicate .linux sections")

/-- A section that is not loaded gives back its data. -/
theorem emittedKernel_exact {file : Bytes} {s : Section} (hload : s.nonLoaded=true)
    (hsize : s.virtualSize=s.data.length) (hdata : s.data≠[]) :
    emittedKernel file [s]=.ok s.data := by
  have hpos := List.length_pos_iff.mpr hdata
  have hemitted : emittedSize s=s.data.length := by
    rw [emittedSize,hload,Bool.true_or,if_pos rfl,hsize]
  have hraw : s.data.length≤rawSize s := by
    rw [rawSize,if_neg (by simpa [Section.isZeroShape] using hdata)]
    exact (wholeUnits_spec (by decide) _).2
  rw [emittedKernel,hemitted,if_neg (by omega),rawData,List.take_left]

/-- A row of the table is that of a section. -/
structure RawRow (file : Bytes) (s : Section) (row : PeRow) : Prop where
  /-- The name field tells whether it is the section of the kernel. -/
  name : row.name=linuxName ↔ s.name=".linux"
  /-- The size in memory. -/
  size : row.virtualSize.toNat=emittedSize s
  /-- The size in the file. -/
  raw : row.sizeOfRawData.toNat=rawSize s
  /-- The data is in the file. -/
  inFile : row.pointerToRawData.toNat+rawSize s≤file.length
  /-- It is that of the section. -/
  data : slice row.pointerToRawData.toNat (rawSize s) file=rawData s

/-- The field of a name tells whether it is that of the kernel. -/
theorem nameField_linux {s : Section} {strtab strtab' field : Bytes}
    (hnul : (0 : UInt8)∉asBytes s.name) (h : nameField s strtab=.ok (field,strtab')) :
    field=linuxName ↔ s.name=".linux" := by
  have hlinux : linuxName=padName (asBytes ".linux") := by decide
  unfold nameField at h
  dsimp only at h
  by_cases hshort : (asBytes s.name).length≤8
  · rw [if_pos hshort] at h
    cases h
    rw [hlinux]
    constructor
    · intro hpad
      have hname := congrArg untilNul hpad
      rw [padName,padName,untilNul_append hnul (head?_zeros _),
        untilNul_append (by decide) (head?_zeros _)] at hname
      exact utf8_injective hname
    · intro hname
      rw [hname]
  · rw [if_neg hshort] at h
    split at h
    · exact absurd h fail_ne_ok
    · cases h
      refine iff_of_false (fun hpad => ?_) fun hname => ?_
      · -- a long name begins with a slash
        have hslash : (padName (0x2F::decimal strtab.length)).head?=some 0x2F := rfl
        rw [hpad] at hslash
        exact absurd hslash (by decide)
      · rw [hname] at hshort
        exact hshort (by decide)

/-- So it is for all sections. -/
theorem nameFields_linux {sections : List Section} {strtab names : Bytes} {fields : List Bytes}
    (hnul : ∀ s∈sections, (0 : UInt8)∉asBytes s.name)
    (h : nameFields sections strtab=.ok (fields,names)) :
    List.Forall₂ (fun s field => field=linuxName ↔ s.name=".linux") sections fields := by
  induction sections generalizing strtab fields with
  | nil =>
    cases h
    exact .nil
  | cons s rest ih =>
    obtain ⟨hs,hrest⟩ := List.forall_mem_cons.mp hnul
    unfold nameFields at h
    obtain ⟨⟨field,mid⟩,hfield,h⟩ := bind_ok.mp h
    obtain ⟨⟨fs,stop⟩,hfields,h⟩ := bind_ok.mp h
    cases h
    exact .cons (nameField_linux hs hfield) (ih hrest hfields)

/-- A header begins with the name field. -/
theorem headerFor_name {s : Section} {field hdr : Bytes} {e : ℕ × ℕ} (hfield : field.length=8)
    (h : headerFor s field e=.ok hdr) : slice 0 8 hdr=field := by
  obtain ⟨vsize,vaddr,-,-,rfl⟩ := headerFor_ok h
  have hsplit := slice_append (a := []) (b := field) (c := leBytes 4 vsize++leBytes 4 vaddr++
    leBytes 4 e.2++leBytes 4 e.1++zeros 12++leBytes 4 s.characteristics.toNat) rfl hfield
  simpa only [sectionHeader,List.append_assoc,List.nil_append,List.length_nil] using hsplit

/-- The place of a section has the size of its data in the file. -/
theorem extent_rawSize {s : Section} {e : ℕ × ℕ} {cursor cursor' : ℕ} (hplace : ExtentOk s e)
    (h : rawExtent s cursor=.ok (e,cursor')) : e.2=rawSize s := by
  unfold rawSize
  rcases hplace with ⟨hnil,rfl⟩ | ⟨hdata,-⟩
  · rw [Section.isZeroShape,hnil]
    rfl
  · rw [(rawExtent_eq h).2 hdata,if_neg (by simpa [Section.isZeroShape] using hdata)]

/-- The row of a section. -/
theorem rawRow_header {file : Bytes} {s : Section} {field hdr : Bytes} {e : ℕ × ℕ}
    {cursor cursor' : ℕ} (hfield : field.length=8) (hname : field=linuxName ↔ s.name=".linux")
    (hplace : ExtentOk s e) (hextent : rawExtent s cursor=.ok (e,cursor'))
    (hheader : headerFor s field e=.ok hdr) (hin : e.1+e.2≤file.length)
    (hdata : ∃ pad, slice e.1 e.2 file=s.data++zeros pad) : RawRow file s (rawHeader hdr) := by
  have hread := readSection_eq file 0 hfield hplace hheader
  have hptr : u32At hdr 20=e.1 := congrArg ReadSection.pointerToRawData hread
  have hraw : u32At hdr 16=e.2 := congrArg ReadSection.sizeOfRawData hread
  have hsize := extent_rawSize hplace hextent
  have hpointer : (rawHeader hdr).pointerToRawData.toNat=e.1 := (toNat_u32At hdr 20).trans hptr
  constructor
  · change slice 0 8 hdr=linuxName ↔ _
    rw [headerFor_name hfield hheader]
    exact hname
  · exact (toNat_u32At hdr 8).trans (mapping_size hfield hplace hextent hheader)
  · exact ((toNat_u32At hdr 16).trans hraw).trans hsize
  · rwa [hpointer,←hsize]
  · obtain ⟨pad,hpad⟩ := hdata
    have hlength := congrArg List.length hpad
    rw [length_slice hin,List.length_append,length_zeros] at hlength
    have hpads : pad=rawSize s-s.data.length := by omega
    rw [hpointer,←hsize,hpad,hpads,rawData]

/-- The rows of all sections. -/
theorem rawRows_headers {file : Bytes} {sections : List Section} {fields hdrs : List Bytes}
    {extents : List (ℕ × ℕ)} {cursor stop : ℕ}
    (hnames : List.Forall₂ (fun s field => field=linuxName ↔ s.name=".linux") sections fields)
    (hfields : ∀ field∈fields, field.length=8) (hplaces : List.Forall₂ ExtentOk sections extents)
    (hextents : rawExtents sections cursor=.ok (extents,stop))
    (hheaders : List.Forall₂ (fun row hdr => headerFor row.1 row.2.1 row.2.2=.ok hdr)
      (sections.zip (fields.zip extents)) hdrs) (hin : ∀ e∈extents, e.1+e.2≤file.length)
    (hdata : ∀ s e, (s,e)∈sections.zip extents → ∃ pad, slice e.1 e.2 file=s.data++zeros pad) :
    List.Forall₂ (RawRow file) sections (hdrs.map rawHeader) := by
  -- all lists follow the list of sections, the cursor moves along
  induction hnames generalizing extents hdrs cursor with
  | nil =>
    cases hplaces
    cases hheaders
    exact .nil
  | @cons s field sections fields hname _ ih =>
    cases hplaces with
    | @cons _ e _ extents hplace hplaces =>
      rw [List.zip_cons_cons,List.zip_cons_cons] at hheaders
      cases hheaders with
      | @cons _ hdr _ hdrs hheader hheaders =>
        unfold rawExtents at hextents
        obtain ⟨⟨e',mid⟩,hextent,hextents⟩ := bind_ok.mp hextents
        obtain ⟨⟨es,stop'⟩,hrest,hextents⟩ := bind_ok.mp hextents
        cases hextents
        obtain ⟨hfirst,hfields⟩ := List.forall_mem_cons.mp hfields
        obtain ⟨hroom,hin⟩ := List.forall_mem_cons.mp hin
        have hbytes := hdata s e (by rw [List.zip_cons_cons]; exact List.mem_cons_self)
        refine .cons (rawRow_header hfirst hname hplace hextent hheader hroom hbytes) ?_
        refine ih hfields hplaces hrest hheaders hin fun s' e' hmem => hdata s' e' ?_
        rw [List.zip_cons_cons]
        exact List.mem_cons_of_mem _ hmem

/-- The table of an emitted file has the rows of its sections. -/
theorem rawTable_buildPe {machine : ℕ} {sections : List Section} {file : Bytes}
    (h : buildPe machine sections=.ok file) :
    ∃ rows, rawTable file=some rows ∧ List.Forall₂ (RawRow file) sections rows := by
  obtain ⟨fields,strtab,extents,hdrs,opt,strtabOffset,dataStop,hc,hextents,names,hnames⟩ :=
    buildPe_passes h
  have ht := hc.tableAt
  obtain ⟨rest,htable⟩ := ht.headers
  refine ⟨hdrs.map rawHeader,?_,?_⟩
  · unfold rawTable
    dsimp only
    rw [ht.lfanew,if_pos ⟨ht.magic,ht.signature⟩,ht.count,ht.optional,htable,hc.decodeHeaders]
  · refine rawRows_headers (nameFields_linux hc.noNul hnames) (fun field hfield => ?_) hc.places
      hextents hc.headers (extent_inFile hc) fun s e hmem => hc.rawData hmem
    obtain ⟨s,-,hs⟩ := forall₂_mem hc.names.flip hfield
    exact hs.1

/-- A file that begins with a DOS header is not a kernel by its first bytes. -/
theorem not_isDirect (back : Bytes) : ¬IsDirect (dosHeader 64++back) := by
  have hslice : ∀ o, o+4≤64 → slice o 4 (dosHeader 64++back)=slice o 4 (dosHeader 64) := by
    intro o ho
    have hlength : (dosHeader 64).length=64 := rfl
    rw [slice,slice,List.drop_append_of_le_length (by omega),
      List.take_append_of_le_length (by rw [List.length_drop]; omega)]
  rintro (hmz | hzimg | harm)
  · exact hmz ((by decide : mz<+:dosHeader 64).trans (List.prefix_append _ _))
  · rw [hslice 4 (by omega)] at hzimg
    exact absurd hzimg (by decide)
  · rw [hslice 56 (by omega)] at harm
    exact absurd harm (by decide)

/-- The first part of an emitted file. -/
theorem buildPe_dosHeader {machine : ℕ} {sections : List Section} {file : Bytes}
    (h : buildPe machine sections=.ok file) : ∃ back, file=dosHeader 64++back := by
  obtain ⟨fields,strtab,extents,hdrs,opt,strtabOffset,dataStop,hc,-⟩ := buildPe_ok h
  obtain ⟨rest,hfile⟩ := hc.file_eq
  rw [headBlock,List.append_assoc,List.append_assoc,List.append_assoc,List.append_assoc] at hfile
  exact ⟨_,hfile⟩

/-- The section of a row is cut to its size in memory. -/
theorem fileBacked_row {file : Bytes} {s : Section} {row : PeRow} (h : RawRow file s row) :
    fileBacked file row=emittedKernel file [s] := by
  unfold fileBacked emittedKernel
  dsimp only
  rw [h.size,h.raw]
  by_cases hsize : emittedSize s=0 ∨ rawSize s < emittedSize s
  · rw [if_pos hsize,if_pos hsize]
  · rw [if_neg hsize,if_neg hsize]
    have hfits : emittedSize s≤rawSize s := by omega
    have hin := h.inFile
    have hptr := row.pointerToRawData.toNat_lt
    have hword := row.virtualSize.toNat_lt
    rw [h.size] at hword
    refine okOr_ok.mpr (Option.map_eq_some_iff.mpr
      ⟨row.pointerToRawData.toNat+emittedSize s,?_,?_⟩)
    · rw [Option.filter_eq_some_iff,addWord_some,decide_eq_true_eq]
      exact ⟨⟨rfl,by omega⟩,by omega⟩
    · rw [Nat.add_sub_cancel_left,←h.data,slice,slice,List.take_take,Nat.min_eq_left hfits]

/-- A file that the writer makes is unwrapped to the only section `.linux` that it was made
from, whatever the other sections are. It stays as it is without one, and two of them, or one
that is larger in memory than in the file, are an error. -/
theorem unwrapUki_buildPe {lib : Codecs} {machine : ℕ} {sections : List Section} {file : Bytes}
    (h : buildPe machine sections=.ok file) (hpe : lib.peParse file=rawTable file) :
    unwrapUki lib file=emittedKernel file (linuxSections sections) := by
  obtain ⟨rows,htable,hrows⟩ := rawTable_buildPe h
  obtain ⟨back,hback⟩ := buildPe_dosHeader h
  have hnot := not_isDirect back
  rw [←hback] at hnot
  have hfound : List.Forall₂ (RawRow file) (linuxSections sections)
      (rows.filter fun row => decide (row.name=linuxName)) :=
    List.rel_filter (fun s row hrow => by simp [hrow.name]) hrows
  unfold unwrapUki
  rw [if_neg hnot,ok_bind (okOr_ok.mpr (hpe.trans htable))]
  generalize rows.filter (fun row => decide (row.name=linuxName))=found at hfound
  generalize linuxSections sections=linux at hfound
  cases hfound with
  | nil => rfl
  | cons hrow hrest =>
    cases hrest with
    | nil => exact fileBacked_row hrow
    | cons _ _ => rfl

end Arma.Kernel.Uki
