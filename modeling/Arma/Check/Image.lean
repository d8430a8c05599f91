import Arma.Base.Text
import Arma.Base.TwoRuns
import Arma.Check
import Arma.Pe.Granularity

/-!
# An emitted image as the check reads it

The PE parser hands the check one row for each section. In an image that arma emitted
the rows are the sections: their names, their addresses, the sizes they have in memory
and their data, followed by zeros.
-/

namespace Arma.Check.Image

open Base.ByteString Base.Checked Base.Text Base.TwoRuns Pe.Granularity Pe.RoundTrip Pe.Writer

/-- A row of the section table, with its name resolved. -/
def readHeader (file : Bytes) (stringTable : ℕ) (hdr : Bytes) : PeSection :=
  let s := readSection file stringTable hdr
  ⟨String.fromUTF8? ⟨s.name.toArray⟩,.ofNat s.virtualAddress,.ofNat (readMapping hdr).virtualSize,
    .ofNat s.pointerToRawData,.ofNat s.sizeOfRawData⟩

/-- The section table of a PE file, found as `readPe` does. -/
def readTable (file : Bytes) : Option (List PeSection) :=
  let pe := u32At file 60
  if u16At file 0=0x5A4D ∧ slice pe 4 file=peSignature then
    let stringTable := u32At file (pe+12)+18*u32At file (pe+16)
    some (decodeRecords 40 (readHeader file stringTable) (u16At file (pe+6))
      (file.drop (pe+24+u16At file (pe+20))))
  else none

/-- The size in memory of an emitted section: a loaded one has room for its padded data. -/
def emittedSize (s : Section) : ℕ :=
  if s.nonLoaded || s.isZeroShape then s.virtualSize
  else max s.virtualSize (wholeUnits fileAlignment s.data.length)

/-- A row of the table is that of a section. -/
structure SameRow (file : Bytes) (s : Section) (row : PeSection) : Prop where
  /-- The name is the same. -/
  name : row.name=some s.name
  /-- The address is that of the section; it is zero when the section is not loaded. -/
  address : row.virtualAddress.toNat=if s.nonLoaded then 0 else s.vaddr
  /-- The size is that of the section in memory. -/
  size : row.virtualSize.toNat=emittedSize s
  /-- The raw data is in the file. -/
  inFile : row.pointerToRawData.toNat+row.sizeOfRawData.toNat≤file.length
  /-- It is the data of the section, followed by zeros. -/
  rawData : ∃ pad, slice row.pointerToRawData.toNat row.sizeOfRawData.toNat file=s.data++zeros pad

/-- With data that fits, it is the size of the section up to padding. -/
theorem emittedSize_bounds {s : Section} (h : s.data.length≤ s.virtualSize) :
    s.virtualSize≤emittedSize s ∧ emittedSize s≤wholeUnits fileAlignment s.virtualSize := by
  have hpos : 0<fileAlignment := by decide
  obtain ⟨hdvd,hle⟩ := wholeUnits_spec hpos s.virtualSize
  unfold emittedSize
  split
  · exact ⟨le_rfl,hle⟩
  · exact ⟨le_max_left _ _,max_le hle (wholeUnits_le hpos hdvd (h.trans hle))⟩

/-- It is the size of the section when that is in whole pages. -/
theorem emittedSize_eq {s : Section} (h : s.data.length≤ s.virtualSize)
    (hpages : fileAlignment∣s.virtualSize) : emittedSize s=s.virtualSize := by
  obtain ⟨hle,hge⟩ := emittedSize_bounds h
  rw [wholeUnits_of_dvd (by decide) hpages] at hge
  exact le_antisymm hge hle

/-- The size in memory is read from the header of a section. -/
theorem mapping_size {s : Section} {field hdr : Bytes} {e : ℕ × ℕ} {cursor cursor' : ℕ}
    (hfield : field.length=8) (hplace : ExtentOk s e)
    (hextent : rawExtent s cursor=.ok (e,cursor')) (h : headerFor s field e=.ok hdr) :
    (readMapping hdr).virtualSize=emittedSize s := by
  rw [readMapping_eq hfield hplace h,emittedSize]
  by_cases hnil : s.data=[]
  · have hzero : s.isZeroShape=true := by rw [Section.isZeroShape,hnil]; rfl
    rw [hzero,Bool.or_true,if_pos rfl,if_pos rfl]
  · rw [(rawExtent_eq hextent).2 hnil]

/-- So it is from every header. -/
theorem mapping_sizes {strtab : Bytes} {sections : List Section} {fields hdrs : List Bytes}
    {extents : List (ℕ × ℕ)} {cursor stop : ℕ}
    (hnames : List.Forall₂ (NameOk strtab) sections fields)
    (hplaces : List.Forall₂ ExtentOk sections extents)
    (hextents : rawExtents sections cursor=.ok (extents,stop))
    (hheaders : List.Forall₂ (fun row hdr => headerFor row.1 row.2.1 row.2.2=.ok hdr)
      (sections.zip (fields.zip extents)) hdrs) :
    List.Forall₂ (fun s hdr => (readMapping hdr).virtualSize=emittedSize s) sections hdrs := by
  -- all lists follow the list of sections, the cursor moves along
  induction hnames generalizing extents hdrs cursor with
  | nil =>
    cases hplaces
    cases hheaders
    exact .nil
  | @cons s field sections fields hname _ ih =>
    cases hplaces with
    | @cons _ e _ extents hplace hplaces =>
      rw [List.zip_cons_cons,List.zip_cons_cons] at hheaders
      cases hheaders with
      | @cons _ hdr _ hdrs hheader hheaders =>
        unfold rawExtents at hextents
        obtain ⟨⟨e',mid⟩,hextent,hextents⟩ := bind_ok.mp hextents
        obtain ⟨⟨es,stop'⟩,hrest,hextents⟩ := bind_ok.mp hextents
        cases hextents
        exact .cons (mapping_size hname.1 hplace hextent hheader) (ih hplaces hrest hheaders)

/-- A word of the file is a 32-bit word. -/
theorem toNat_u32At (bytes : Bytes) (o : ℕ) : (UInt32.ofNat (u32At bytes o)).toNat=u32At bytes o := by
  refine UInt32.toNat_ofNat_of_lt' ((ofLE_lt _).trans_le ?_)
  have hlen : (slice o 4 bytes).length≤4 := List.length_take_le 4 _
  calc 256^(slice o 4 bytes).length
      ≤256^4 := Nat.pow_le_pow_right (by decide) hlen
    _=2^32 := by norm_num

/-- The table of an emitted image has a row for every header. -/
theorem readTable_eq {machine : ℕ} {sections : List Section} {file : Bytes} {fields : List Bytes}
    {strtab : Bytes} {extents : List (ℕ × ℕ)} {hdrs : List Bytes} {opt : Bytes}
    {strtabOffset dataStop : ℕ} (h : Composition machine sections file fields strtab extents hdrs
      opt strtabOffset dataStop) :
    readTable file=some (hdrs.map (readHeader file strtabOffset)) := by
  have ht := h.tableAt
  obtain ⟨rest,htable⟩ := ht.headers
  unfold readTable
  dsimp only
  rw [ht.lfanew,if_pos ⟨ht.magic,ht.signature⟩,ht.count,ht.strings,ht.symbols,ht.optional,htable,
    Nat.mul_zero,Nat.add_zero strtabOffset,h.decodeHeaders]

/-- The extents of the sections end in the file. -/
theorem extent_inFile {machine : ℕ} {sections : List Section} {file : Bytes} {fields : List Bytes}
    {strtab : Bytes} {extents : List (ℕ × ℕ)} {hdrs : List Bytes} {opt : Bytes}
    {strtabOffset dataStop : ℕ} (h : Composition machine sections file fields strtab extents hdrs
      opt strtabOffset dataStop) : ∀ e∈extents, e.1+e.2≤file.length := by
  intro e he
  obtain ⟨s,_,hs⟩ := forall₂_mem h.places.flip he
  rcases hs with ⟨_,rfl⟩ | ⟨_,_,_,hpos,_⟩
  · exact Nat.zero_le _
  · have hused : extentRegion e∈usedExtents extents :=
      List.mem_map_of_mem (List.mem_filter.mpr ⟨he,decide_eq_true hpos.ne'⟩)
    exact (h.ascending.bounds.2 _ hused).2.2.trans h.inFile

/-- In an emitted image the rows of the table are those of the sections. -/
theorem readTable_buildPe {machine : ℕ} {sections : List Section} {file : Bytes}
    (hdot : ∀ s∈sections, (asBytes s.name).head?=some 0x2E)
    (h : buildPe machine sections=.ok file) :
    ∃ rows, readTable file=some rows ∧ List.Forall₂ (SameRow file) sections rows := by
  obtain ⟨fields,strtab,extents,hdrs,opt,strtabOffset,dataStop,hc,hextents⟩ := buildPe_ok h
  obtain ⟨hsame,hplaces⟩ := hc.readSections hdot
  have hsizes := mapping_sizes hc.names hc.places hextents hc.headers
  rw [List.forall₂_map_right_iff] at hsame
  refine ⟨_,readTable_eq hc,List.forall₂_map_right_iff.mpr ?_⟩
  refine List.forall₂_iff_zip.mpr ⟨hsame.length_eq,fun {s hdr} hmem => ?_⟩
  have hsection := (List.forall₂_iff_zip.mp hsame).2 hmem
  have hsize := (List.forall₂_iff_zip.mp hsizes).2 hmem
  have hextent : (u32At hdr 20,u32At hdr 16)∈extents := by
    rw [←hplaces,List.map_map]
    exact List.mem_map_of_mem (f := (fun r => (r.pointerToRawData,r.sizeOfRawData)) ∘
      readSection file strtabOffset) (List.of_mem_zip hmem).2
  constructor
  · change String.fromUTF8? ⟨(readSection file strtabOffset hdr).name.toArray⟩=_
    rw [hsection.name]
    exact fromUTF8_utf8 s.name
  · exact (toNat_u32At hdr 12).trans hsection.virtualAddress
  · exact (toNat_u32At hdr 8).trans hsize
  · change (UInt32.ofNat (u32At hdr 20)).toNat+(UInt32.ofNat (u32At hdr 16)).toNat≤_
    rw [toNat_u32At,toNat_u32At]
    exact extent_inFile hc _ hextent
  · change ∃ pad, slice (UInt32.ofNat (u32At hdr 20)).toNat (UInt32.ofNat (u32At hdr 16)).toNat
      file=_
    rw [toNat_u32At,toNat_u32At]
    exact hsection.rawData

/-- The values of a key among the entries of a map. -/
def valuesOf (key : String) (entries : List (Value×Value)) : List Value :=
  entries.filterMap fun e =>
    match e with
    | (.text k,v) => if k=key then some v else none
    | _ => none

/-- The check finds the name of the base devicetree when it is the only one. -/
theorem dtDtb_eq {entries : List (Value×Value)} {name : Option String}
    (h : valuesOf "dt:dtb" entries=(name.map Value.text).toList) : dtDtb entries=.ok name := by
  induction entries with
  | nil =>
    cases name with
    | none => rfl
    | some n => cases h
  | cons e rest ih =>
    obtain ⟨k,v⟩ := e
    cases k with
    | text key =>
      by_cases hkey : key="dt:dtb"
      · have hfirst : valuesOf "dt:dtb" ((.text key,v)::rest)=v::valuesOf "dt:dtb" rest := by
          simp only [valuesOf,List.filterMap_cons,if_pos hkey]
        rw [hfirst] at h
        cases name with
        | none => cases h
        | some n =>
          obtain ⟨rfl,-⟩ := List.cons.inj h
          rw [dtDtb,if_pos hkey]
      · have hskip : valuesOf "dt:dtb" ((.text key,v)::rest)=valuesOf "dt:dtb" rest := by
          simp only [valuesOf,List.filterMap_cons,if_neg hkey]
        rw [hskip] at h
        change (if key="dt:dtb" then _ else dtDtb rest)=_
        rw [if_neg hkey]
        exact ih h
    | map _ => exact ih h
    | other => exact ih h

/-- A name without zero characters is not cut off. -/
theorem trimNul_eq {s : String} (h : (0 : UInt8)∉asBytes s) : trimNul s=s := by
  have hchars := toNat_ne_zero h
  have hkeep : (s.toList.reverse.dropWhile fun c => decide (c.toNat=0))=s.toList.reverse := by
    cases hrev : s.toList.reverse with
    | nil => rfl
    | cons c rest =>
      have hc : c∈s.toList := List.mem_reverse.mp (hrev ▸ List.mem_cons_self)
      rw [List.dropWhile_cons_of_neg (by simpa using hchars c hc)]
  rw [trimNul,hkeep,List.reverse_reverse,String.ofList_toList]

/-- What the check makes of a loaded section above address zero. -/
def payloadRegion (s : Section) : Region := ⟨s.name,s.vaddr,emittedSize s,.payload⟩

/-- The sections that the check takes for loaded. -/
def shown (sections : List Section) : List Section :=
  sections.filter fun s => !s.nonLoaded && decide (0<s.vaddr)

section Rows

variable {file : Bytes} {sections : List Section} {rows : List PeSection}

/-- The regions of the rows are those of the sections that are shown. -/
theorem sectionRegions_eq (hrows : List.Forall₂ (SameRow file) sections rows)
    (hnul : ∀ s∈sections, (0 : UInt8)∉asBytes s.name) :
    sectionRegions rows=(shown sections).map payloadRegion := by
  induction hrows with
  | nil => rfl
  | @cons s row sections rows hrow _ ih =>
    obtain ⟨hname,hnul⟩ := List.forall_mem_cons.mp hnul
    have hrest := ih hnul
    unfold sectionRegions shown at hrest ⊢
    have hshown : decide (0<row.virtualAddress.toNat)=(!s.nonLoaded && decide (0<s.vaddr)) := by
      rw [hrow.address]
      cases s.nonLoaded <;> rfl
    rw [List.filter_cons,List.filter_cons,hshown]
    split
    · rename_i hload
      rw [Bool.and_eq_true,Bool.not_eq_true'] at hload
      rw [List.map_cons,List.map_cons,hrest,hrow.name,Option.getD_some,trimNul_eq hname,
        hrow.address,hload.1,hrow.size]
      rfl
    · exact hrest

/-- The raw data of a section is found under its name. -/
theorem sectionRaw_eq (hrows : List.Forall₂ (SameRow file) sections rows)
    (hnul : ∀ s∈sections, (0 : UInt8)∉asBytes s.name) {name : String} {s : Section}
    (hfind : (sections.find? fun s => decide (s.name=name))=some s) :
    ∃ pad, sectionRaw file rows name=some (s.data++zeros pad) := by
  have hrel : List.Forall₂ (fun s row => SameRow file s row ∧ (0 : UInt8)∉asBytes s.name)
      sections rows := by
    refine List.forall₂_iff_zip.mpr ⟨hrows.length_eq,fun {s row} hmem => ?_⟩
    exact ⟨(List.forall₂_iff_zip.mp hrows).2 hmem,hnul s (List.of_mem_zip hmem).1⟩
  have hsearch := rel_find? (p := fun s => decide (s.name=name))
    (q := fun row => decide (trimNul (row.name.getD "")=name)) (fun s row ⟨hrow,hname⟩ => by
      rw [hrow.name,Option.getD_some,trimNul_eq hname]) hrel
  rw [hfind] at hsearch
  cases hrow : rows.find? fun row => decide (trimNul (row.name.getD "")=name) with
  | none =>
    rw [hrow] at hsearch
    cases hsearch
  | some row =>
    rw [hrow] at hsearch
    cases hsearch with
    | some hsame =>
      obtain ⟨pad,hraw⟩ := hsame.1.rawData
      refine ⟨pad,?_⟩
      rw [sectionRaw,hrow]
      change (if _ then some (slice row.pointerToRawData.toNat row.sizeOfRawData.toNat file)
        else none)=_
      rw [if_pos hsame.1.inFile,hraw]

end Rows

end Arma.Check.Image
