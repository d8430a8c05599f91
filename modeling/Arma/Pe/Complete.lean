import Arma.Pe.Words

/-!
# The copies of the writer fit

The passes that compute names, places and totals decide whether a file is built: once
they succeed, every copy stays in the buffer.
-/

namespace Arma.Pe.Complete

open Base.ByteString Base.Checked Base.Intervals Base.Patch Writer RoundTrip Words

/-- A copy that stays in the buffer succeeds and keeps its length. -/
theorem copyInto_fits {off : ℕ} {bs buf : Bytes} (h : off+bs.length≤buf.length) :
    ∃ buf', copyInto off bs buf=.ok buf' ∧ buf'.length=buf.length :=
  ⟨overwrite off bs buf,if_pos h,length_overwrite h⟩

/-- The header of a section whose words fit is computed. -/
theorem headerFor_exists {s : Section} {field : Bytes} {e : ℕ × ℕ} (hsize : s.virtualSize<2^32)
    (haddr : s.nonLoaded=false → s.vaddr<2^32) : ∃ hdr, headerFor s field e=.ok hdr := by
  have hvaddr : ∃ v, vaddr32For s=.ok v := by
    unfold vaddr32For
    cases hload : s.nonLoaded with
    | true => exact ⟨0,rfl⟩
    | false => exact ⟨s.vaddr,tryU32_ok.mpr ⟨rfl,haddr hload⟩⟩
  obtain ⟨v,hv⟩ := hvaddr
  have hvsize : tryU32 s.virtualSize=.ok s.virtualSize := tryU32_ok.mpr ⟨rfl,hsize⟩
  unfold headerFor
  rw [ok_bind hv,ok_bind hvsize]
  exact ⟨_,rfl⟩

/-- The headers are written when there is room for them. -/
theorem writeHeaders_fits {rows : List (Section × Bytes × (ℕ × ℕ))} {off : ℕ} {buf : Bytes}
    (hfields : ∀ row∈rows, row.2.1.length=8)
    (hrows : ∀ row∈rows, ∃ hdr, headerFor row.1 row.2.1 row.2.2=.ok hdr)
    (h : off+40*rows.length≤buf.length) :
    ∃ buf', writeHeaders rows off buf=.ok buf' ∧ buf'.length=buf.length := by
  induction rows generalizing off buf with
  | nil => exact ⟨buf,rfl,rfl⟩
  | cons row rest ih =>
    obtain ⟨s,field,e⟩ := row
    obtain ⟨hfield,hfields⟩ := List.forall_mem_cons.mp hfields
    obtain ⟨⟨hdr,hhdr⟩,hrows⟩ := List.forall_mem_cons.mp hrows
    have hlen : hdr.length=40 := length_headerFor hfield hhdr
    rw [List.length_cons] at h
    obtain ⟨mid,hmid,hmidLen⟩ := @copyInto_fits off hdr buf (by omega)
    have hsize : sectionHdrSize=40 := rfl
    obtain ⟨buf',hbuf,hbufLen⟩ := ih hfields hrows
      (show off+sectionHdrSize+40*rest.length ≤ mid.length by omega)
    refine ⟨buf',?_,hbufLen.trans hmidLen⟩
    unfold writeHeaders
    rw [ok_bind hhdr,ok_bind hmid,hbuf]

/-- The data is written when its places are in the buffer. -/
theorem writeData_fits {rows : List (Section × (ℕ × ℕ))} {buf : Bytes}
    (h : ∀ row∈rows, row.1.data≠[] → row.2.1+row.1.data.length≤buf.length) :
    ∃ buf', writeData rows buf=.ok buf' ∧ buf'.length=buf.length := by
  induction rows generalizing buf with
  | nil => exact ⟨buf,rfl,rfl⟩
  | cons row rest ih =>
    obtain ⟨s,e⟩ := row
    obtain ⟨hrow,hrest⟩ := List.forall_mem_cons.mp h
    have hcopy : ∃ mid, copyData s e.1 buf=.ok mid ∧ mid.length=buf.length := by
      unfold copyData
      by_cases hzero : s.isZeroShape=true
      · rw [if_pos hzero]
        exact ⟨buf,rfl,rfl⟩
      · rw [if_neg hzero]
        exact copyInto_fits (hrow (by simpa [Section.isZeroShape] using hzero))
    obtain ⟨mid,hmid,hmidLen⟩ := hcopy
    obtain ⟨buf',hbuf,hbufLen⟩ := ih (by rwa [hmidLen])
    refine ⟨buf',?_,hbufLen.trans hmidLen⟩
    unfold writeData
    rw [ok_bind hmid,hbuf]

/-- Every place ends at or before the end of the data. -/
theorem places_end {sections : List Section} {extents : List (ℕ × ℕ)} {cursor stop : ℕ}
    (hplaces : List.Forall₂ ExtentOk sections extents)
    (hasc : Ascending cursor (usedExtents extents) stop) {row : Section × (ℕ × ℕ)}
    (hrow : row∈sections.zip extents) (hdata : row.1.data≠[]) :
    row.2.1+row.1.data.length ≤ stop := by
  obtain ⟨s,e⟩ := row
  rcases (List.forall₂_iff_zip.mp hplaces).2 hrow with ⟨hnil,_⟩ | ⟨_,_,hlen,hpos,_⟩
  · exact absurd hnil hdata
  · have hused : extentRegion e∈usedExtents extents := by
      refine List.mem_map_of_mem (List.mem_filter.mpr ⟨(List.of_mem_zip hrow).2,?_⟩)
      rw [decide_eq_true_eq]
      omega
    have hbound := (hasc.bounds.2 _ hused).2.2
    change e.1+e.2 ≤ stop at hbound
    dsimp only
    omega

/-- What is written has room in the file. -/
structure Room (sections : List Section) (fields : List Bytes) (extents : List (ℕ × ℕ))
    (strtab : Bytes) (strtabOffset fileSize : ℕ) : Prop where
  /-- The headers. -/
  headers : 328+40*sections.length≤fileSize
  /-- There is a name of eight bytes in each of them. -/
  names : ∀ row∈sections.zip (fields.zip extents), row.2.1.length=8
  /-- The data. -/
  data : ∀ row∈sections.zip extents, row.1.data≠[] → row.2.1+row.1.data.length≤fileSize
  /-- The string table, if there is one. -/
  strings : 4<strtab.length → strtabOffset+strtab.length≤fileSize

/-- The passes find room for everything. -/
theorem room_of_passes {sections : List Section} {fields : List Bytes} {strtab : Bytes}
    {extents : List (ℕ × ℕ)} {cursor strtabOffset fileSize : ℕ} (hcount : sections.length≤0xFFFF)
    (hnames : nameFields sections (leBytes 4 0)=.ok (fields,strtab))
    (hextents : rawExtents sections (headersSize sections.length)=.ok (extents,cursor))
    (hstrtab : placeStrtab (overwrite 0 (leBytes 4 strtab.length) strtab) cursor=
      .ok (strtabOffset,fileSize)) :
    Room sections fields extents (overwrite 0 (leBytes 4 strtab.length) strtab) strtabOffset
      fileSize := by
  have hbig := le_headersSize sections.length
  obtain ⟨hplaces,hcursor,hasc⟩ := rawExtents_ok (headersSize_lt hcount) hextents
  obtain ⟨_,hcursorLe,_,hstringsAt⟩ := placeStrtab_ok hcursor hstrtab
  have hdataLe := hasc.bounds.1
  refine ⟨by omega,fun row hrow => ?_,fun row hrow hdata => ?_,fun hstrings => ?_⟩
  · have hmem := (List.of_mem_zip (List.of_mem_zip hrow).2).1
    obtain ⟨_,hall⟩ := nameFields_ok (by rw [length_leBytes]) hnames
    obtain ⟨s,_,hs⟩ := forall₂_mem hall.flip hmem
    exact hs.1
  · have hplace := places_end hplaces hasc hrow hdata
    omega
  · obtain ⟨hoff,hsize⟩ := hstringsAt hstrings
    omega

/-- The copies into a file with room for everything succeed. -/
theorem fileCopies_fits {machine : ℕ} {sections : List Section} {fields : List Bytes}
    {strtab : Bytes} {extents : List (ℕ × ℕ)} {strtabOffset fileSize : ℕ} {totals : ℕ × ℕ × ℕ}
    (hroom : Room sections fields extents strtab strtabOffset fileSize)
    (htotals : sizeTotals sections (0,0,0)=.ok totals)
    (hwords : ∀ s∈sections, s.virtualSize<2^32 ∧ (s.nonLoaded=false → s.vaddr<2^32)) :
    ∃ file, fileCopies machine sections fields extents strtab strtabOffset fileSize=.ok file := by
  have hbig := hroom.headers
  have hrows : ∀ row∈sections.zip (fields.zip extents),
      ∃ hdr, headerFor row.1 row.2.1 row.2.2=.ok hdr := fun row hrow => by
    obtain ⟨hsize,haddr⟩ := hwords row.1 (List.of_mem_zip hrow).1
    exact headerFor_exists hsize haddr
  have hcountRows : (sections.zip (fields.zip extents)).length ≤ sections.length := by
    rw [List.length_zip]
    exact Nat.min_le_left _ _
  have hsignature : peSignature.length=4 := rfl
  have hcoff : coffSize=20 := rfl
  have hopt : optSize=240 := rfl
  -- the copies, one behind the other
  have hlen0 : (zeros fileSize).length=fileSize := length_zeros fileSize
  obtain ⟨buf1,hbuf1,hlen1⟩ := @copyInto_fits 0 (dosHeader 64) (zeros fileSize) (by
    rw [hlen0,show (dosHeader 64).length=64 from rfl]
    omega)
  obtain ⟨buf2,hbuf2,hlen2⟩ := @copyInto_fits 64 peSignature buf1 (by omega)
  obtain ⟨buf3,hbuf3,hlen3⟩ := @copyInto_fits (64+peSignature.length)
    (coffHeader machine sections.length strtabOffset) buf2 (by
      rw [show (coffHeader machine sections.length strtabOffset).length=20 from rfl]
      omega)
  obtain ⟨buf4,hbuf4,hlen4⟩ := @copyInto_fits (64+peSignature.length+coffSize)
    (optionalHeader totals.1 totals.2.1 totals.2.2
      (sizeOfImage sections (headersSize sections.length)) (headersSize sections.length)) buf3 (by
        rw [length_optionalHeader]
        omega)
  obtain ⟨buf5,hbuf5,hlen5⟩ := @writeHeaders_fits (sections.zip (fields.zip extents))
    (64+peSignature.length+coffSize+optSize) buf4 hroom.names hrows (by omega)
  obtain ⟨buf6,hbuf6,hlen6⟩ := @writeData_fits (sections.zip extents) buf5 (fun row hrow hdata => by
    have hplace := hroom.data row hrow hdata
    omega)
  rw [fileCopies,ok_bind hbuf1,ok_bind hbuf2,ok_bind htotals,ok_bind hbuf3,ok_bind hbuf4,
    ok_bind hbuf5,ok_bind hbuf6]
  by_cases hstrings : 4 < strtab.length
  · rw [if_pos hstrings]
    have hstringsEnd := hroom.strings hstrings
    obtain ⟨buf7,hbuf7,_⟩ := @copyInto_fits strtabOffset strtab buf6 (by omega)
    exact ⟨buf7,hbuf7⟩
  · rw [if_neg hstrings]
    exact ⟨buf6,rfl⟩

/-- When the passes succeed the file is built. -/
theorem exists_buildPe {machine : ℕ} {sections : List Section} {fields : List Bytes}
    {strtab : Bytes} {extents : List (ℕ × ℕ)} {cursor strtabOffset fileSize : ℕ}
    {totals : ℕ × ℕ × ℕ} (hcount : sections.length≤0xFFFF)
    (hnul : ∀ s∈sections, (0 : UInt8)∉asBytes s.name)
    (hnames : nameFields sections (leBytes 4 0)=.ok (fields,strtab))
    (hextents : rawExtents sections (headersSize sections.length)=.ok (extents,cursor))
    (hstrtab : placeStrtab (overwrite 0 (leBytes 4 strtab.length) strtab) cursor=
      .ok (strtabOffset,fileSize))
    (htotals : sizeTotals sections (0,0,0)=.ok totals)
    (hwords : ∀ s∈sections, s.virtualSize<2^32 ∧ (s.nonLoaded=false → s.vaddr<2^32)) :
    ∃ file, buildPe machine sections=.ok file := by
  rw [buildPe_eq hcount,ok_bind (checkNames_ok.mpr hnul),ok_bind hnames,ok_bind hextents,
    ok_bind hstrtab]
  exact fileCopies_fits (room_of_passes hcount hnames hextents hstrtab) htotals hwords

/-- A copy that stays in the buffer does not panic. -/
theorem noPanic_copyInto {off : ℕ} {bs buf : Bytes} (h : off+bs.length≤buf.length) :
    NoPanic (copyInto off bs buf) := by
  obtain ⟨buf',hbuf,-⟩ := copyInto_fits h
  rw [hbuf]
  exact noPanic_ok _

/-- A copy keeps the length of the buffer. -/
theorem copyInto_length {off : ℕ} {bs buf buf' : Bytes} (h : copyInto off bs buf=.ok buf') :
    buf'.length=buf.length := by
  unfold copyInto at h
  split at h
  · rename_i hfit
    cases h
    exact length_overwrite hfit
  · cases h

/-- Narrowing to 32 bits does not panic. -/
theorem noPanic_tryU32 (v : ℕ) : NoPanic (tryU32 v) := (noPanic_ok _).ite (noPanic_fail _)

/-- Looking for the names does not panic. -/
theorem noPanic_nameFields (sections : List Section) (strtab : Bytes) :
    NoPanic (nameFields sections strtab) := by
  induction sections generalizing strtab with
  | nil => exact noPanic_ok _
  | cons s rest ih =>
    have hfield : NoPanic (nameField s strtab) :=
      (noPanic_ok _).ite ((noPanic_fail _).ite (noPanic_ok _))
    exact hfield.bind fun _ _ => (ih _).bind fun _ _ => noPanic_ok _

/-- Placing the data does not panic. -/
theorem noPanic_rawExtents (sections : List Section) (cursor : ℕ) :
    NoPanic (rawExtents sections cursor) := by
  induction sections generalizing cursor with
  | nil => exact noPanic_ok _
  | cons s rest ih =>
    have hextent : NoPanic (rawExtent s cursor) :=
      (noPanic_ok _).ite ((noPanic_okOr _ _).bind fun _ _ => (noPanic_tryU32 _).bind fun _ _ =>
        (noPanic_okOr _ _).bind fun _ _ => (noPanic_okOr _ _).bind fun _ _ => noPanic_ok _)
    exact hextent.bind fun _ _ => (ih _).bind fun _ _ => noPanic_ok _

/-- Adding up the sizes does not panic. -/
theorem noPanic_sizeTotals (sections : List Section) (totals : ℕ × ℕ × ℕ) :
    NoPanic (sizeTotals sections totals) := by
  have hdata : ∀ s, NoPanic (alignedDataSize s) := fun s =>
    (noPanic_tryU32 _).bind fun _ _ => noPanic_okOr _ _
  have hvirtual : ∀ s, NoPanic (alignedVirtualSize s) := fun s =>
    (noPanic_tryU32 _).bind fun _ _ => noPanic_okOr _ _
  have hadd : ∀ {flag : UInt32} {size : Section → Outcome PeError ℕ} {s : Section} {total : ℕ},
      NoPanic (size s) → NoPanic (addSize flag size s total) := fun hsize =>
    (hsize.bind fun _ _ => noPanic_okOr _ _).ite (noPanic_ok _)
  induction sections generalizing totals with
  | nil => exact noPanic_ok _
  | cons s rest ih =>
    exact (hadd (hdata s)).bind fun _ _ => (hadd (hdata s)).bind fun _ _ =>
      (hadd (hvirtual s)).bind fun _ _ => ih _

/-- Writing the headers does not panic when there is room for them. -/
theorem noPanic_writeHeaders {rows : List (Section × Bytes × (ℕ × ℕ))} {off : ℕ} {buf : Bytes}
    (hfields : ∀ row∈rows, row.2.1.length=8) (h : off+40*rows.length≤buf.length) :
    NoPanic (writeHeaders rows off buf) := by
  induction rows generalizing off buf with
  | nil => exact noPanic_ok _
  | cons row rest ih =>
    obtain ⟨s,field,e⟩ := row
    obtain ⟨hfield,hfields⟩ := List.forall_mem_cons.mp hfields
    have hheader : NoPanic (headerFor s field e) :=
      NoPanic.bind ((noPanic_ok _).ite (noPanic_tryU32 _)) fun _ _ =>
        (noPanic_tryU32 _).bind fun _ _ => noPanic_ok _
    rw [List.length_cons] at h
    refine hheader.bind fun hdr hhdr => ?_
    have hlen : hdr.length=40 := length_headerFor hfield hhdr
    have hsize : sectionHdrSize=40 := rfl
    refine (noPanic_copyInto (by omega)).bind fun mid hmid => ih hfields ?_
    rw [copyInto_length hmid]
    omega

/-- The headers keep the length of the buffer. -/
theorem writeHeaders_length {rows : List (Section × Bytes × (ℕ × ℕ))} {off : ℕ} {buf buf' : Bytes}
    (h : writeHeaders rows off buf=.ok buf') : buf'.length=buf.length := by
  induction rows generalizing off buf with
  | nil =>
    cases h
    rfl
  | cons row rest ih =>
    obtain ⟨hdr,-,h⟩ := bind_ok.mp h
    obtain ⟨mid,hmid,h⟩ := bind_ok.mp h
    exact (ih h).trans (copyInto_length hmid)

/-- The copies into a file with room for everything do not panic. -/
theorem noPanic_fileCopies (machine : ℕ) {sections : List Section} {fields : List Bytes}
    {strtab : Bytes} {extents : List (ℕ × ℕ)} {strtabOffset fileSize : ℕ}
    (hroom : Room sections fields extents strtab strtabOffset fileSize) :
    NoPanic (fileCopies machine sections fields extents strtab strtabOffset fileSize) := by
  have hbig := hroom.headers
  have hrows : (sections.zip (fields.zip extents)).length ≤ sections.length := by
    rw [List.length_zip]
    exact Nat.min_le_left _ _
  have hsignature : peSignature.length=4 := rfl
  have hcoff : coffSize=20 := rfl
  have hopt : optSize=240 := rfl
  -- the copies, one behind the other
  have hlen0 : (zeros fileSize).length=fileSize := length_zeros fileSize
  refine (noPanic_copyInto (show 0+(dosHeader 64).length≤_ by
    rw [hlen0,show (dosHeader 64).length=64 from rfl]; omega)).bind fun buf1 h1 => ?_
  have hlen1 := (copyInto_length h1).trans hlen0
  refine (noPanic_copyInto (by omega)).bind fun buf2 h2 => ?_
  have hlen2 := (copyInto_length h2).trans hlen1
  refine (noPanic_sizeTotals _ _).bind fun totals _ => ?_
  refine (noPanic_copyInto (show 64+peSignature.length+
    (coffHeader machine sections.length strtabOffset).length≤_ by
      rw [hlen2,show (coffHeader machine sections.length strtabOffset).length=20 from rfl]
      omega)).bind fun buf3 h3 => ?_
  have hlen3 := (copyInto_length h3).trans hlen2
  refine (noPanic_copyInto (by rw [length_optionalHeader]; omega)).bind fun buf4 h4 => ?_
  have hlen4 := (copyInto_length h4).trans hlen3
  refine (noPanic_writeHeaders hroom.names (by omega)).bind fun buf5 h5 => ?_
  have hlen5 := (writeHeaders_length h5).trans hlen4
  obtain ⟨buf6,hbuf6,hlen6⟩ := @writeData_fits (sections.zip extents) buf5 (fun row hrow hdata => by
    have hplace := hroom.data row hrow hdata
    omega)
  rw [ok_bind hbuf6]
  by_cases hstrings : 4 < strtab.length
  · rw [if_pos hstrings]
    have hstringsEnd := hroom.strings hstrings
    exact noPanic_copyInto (by omega)
  · rw [if_neg hstrings]
    exact noPanic_ok _

/-- Building a file does not panic. -/
theorem noPanic_buildPe (machine : ℕ) (sections : List Section) :
    NoPanic (buildPe machine sections) := by
  by_cases hcount : 0xFFFF < sections.length
  · unfold buildPe
    rw [if_pos hcount]
    exact noPanic_fail _
  · have hcount := Nat.not_lt.mp hcount
    rw [buildPe_eq hcount]
    have hnul : NoPanic (checkNames sections) :=
      NoPanic.forM fun s _ => (noPanic_fail _).ite (noPanic_ok _)
    refine hnul.bind fun _ _ => (noPanic_nameFields _ _).bind fun names hnames => ?_
    refine (noPanic_rawExtents _ _).bind fun raw hextents => ?_
    have hplace : NoPanic (placeStrtab (overwrite 0 (leBytes 4 names.2.length) names.2) raw.2) :=
      ((noPanic_tryU32 _).bind fun _ _ => (noPanic_okOr _ _).bind fun _ _ => noPanic_ok _).ite
        (noPanic_ok _)
    exact hplace.bind fun placed hstrtab =>
      noPanic_fileCopies machine (room_of_passes hcount hnames hextents hstrtab)

/-- The passes over the sections succeed, without a file being built. -/
def passes (sections : List Section) : Bool :=
  decide (sections.length≤0xFFFF) && sections.all (fun s => decide ((0 : UInt8)∉asBytes s.name)) &&
    sections.all (fun s => decide (s.virtualSize<2^32 ∧ (s.nonLoaded=false → s.vaddr<2^32))) &&
    (sizeTotals sections (0,0,0)).toOption.isSome &&
    (nameFields sections (leBytes 4 0)).toOption.any fun names =>
      (rawExtents sections (headersSize sections.length)).toOption.any fun raw =>
        (placeStrtab (overwrite 0 (leBytes 4 names.2.length) names.2) raw.2).toOption.isSome

/-- When the passes succeed the file is built. -/
theorem exists_buildPe_of_passes {machine : ℕ} {sections : List Section}
    (h : passes sections=true) : ∃ file, buildPe machine sections=.ok file := by
  simp only [passes,Bool.and_eq_true,decide_eq_true_eq,List.all_eq_true] at h
  have ⟨⟨⟨⟨hcount,hnul⟩,hwords⟩,htotals⟩,hnames⟩ := h
  have ⟨totals,htotals⟩ := exists_ok htotals
  have ⟨⟨fields,strtab⟩,hfields,hraw⟩ := exists_ok_of_any hnames
  have ⟨⟨extents,cursor⟩,hextents,hplace⟩ := exists_ok_of_any hraw
  have ⟨⟨strtabOffset,fileSize⟩,hstrtab⟩ := exists_ok hplace
  exact exists_buildPe hcount hnul hfields hextents hstrtab htotals hwords

/-- A file is built exactly when the passes succeed. -/
theorem passes_iff {machine : ℕ} {sections : List Section} :
    passes sections=true ↔ ∃ file, buildPe machine sections=.ok file := by
  refine ⟨exists_buildPe_of_passes,fun ⟨file,hfile⟩ => ?_⟩
  have hwords : ∀ s∈sections, s.virtualSize<2^32 ∧ (s.nonLoaded=false → s.vaddr<2^32) :=
    fun s hs => ⟨(buildPe_fits hfile hs).virtualSize,(buildPe_fits hfile hs).vaddr⟩
  have hcount := buildPe_count hfile
  rw [buildPe_eq hcount] at hfile
  obtain ⟨_,hnul,hfile⟩ := bind_ok.mp hfile
  obtain ⟨⟨fields,strtab⟩,hnames,hfile⟩ := bind_ok.mp hfile
  obtain ⟨⟨extents,cursor⟩,hextents,hfile⟩ := bind_ok.mp hfile
  obtain ⟨⟨strtabOffset,fileSize⟩,hstrtab,hfile⟩ := bind_ok.mp hfile
  obtain ⟨_,-,hfile⟩ := bind_ok.mp hfile
  obtain ⟨_,-,hfile⟩ := bind_ok.mp hfile
  obtain ⟨totals,htotals,-⟩ := bind_ok.mp hfile
  simp only [passes,Bool.and_eq_true,decide_eq_true_eq,List.all_eq_true]
  refine ⟨⟨⟨⟨hcount,checkNames_ok.mp hnul⟩,hwords⟩,?_⟩,?_⟩
  · rw [htotals]
    rfl
  · rw [hnames]
    simp only [Except.toOption,Option.any_some]
    rw [hextents]
    simp only [Option.any_some,hstrtab,Option.isSome_some]

end Arma.Pe.Complete
