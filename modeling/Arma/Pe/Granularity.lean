import Arma.Pe.Complete

/-!
# Granularity of the emitted sections

A section is large by its own size, but what a loader maps is the emitted
`VirtualSize`, which is at least the padded raw size. The two disagree on a section
that becomes large by the padding only.
-/

namespace Arma.Pe.Granularity

open Base.ByteString Base.Checked Base.Patch Complete Writer RoundTrip

/-- What a loader learns about the memory of one section. -/
structure Mapping where
  /-- `VirtualSize`. -/
  virtualSize : ℕ
  /-- `PointerToRawData`. -/
  pointerToRawData : ℕ
deriving DecidableEq, Repr

/-- Read one 40-byte section header. -/
def readMapping (hdr : Bytes) : Mapping := ⟨u32At hdr 8,u32At hdr 20⟩

/-- Read the section table of a PE file, as `readPe` does. -/
def readMappings (file : Bytes) : Option (List Mapping) :=
  let pe := u32At file 60
  if u16At file 0=0x5A4D ∧ slice pe 4 file=[0x50,0x45,0,0] then
    some (decodeRecords 40 readMapping (u16At file (pe+6)) (file.drop (pe+24+u16At file (pe+20))))
  else none

/-- A loaded section with raw data that spans 2 MiB starts at a multiple of 2 MiB in the
file. -/
def Granular (s : Section) (m : Mapping) : Prop :=
  s.nonLoaded=false → s.data≠[] → largeThreshold ≤ m.virtualSize →
    largeAlignment∣m.pointerToRawData

/-- The section is loaded and spans 2 MiB only once its data is padded to 4 KiB. -/
def LargeWhenPadded (s : Section) : Prop :=
  s.nonLoaded=false ∧ s.virtualSize<largeThreshold ∧ s.data.length<largeThreshold ∧
    largeThreshold-fileAlignment < s.data.length

/-- A size in whole units. -/
def wholeUnits (unit n : ℕ) : ℕ := (n+(unit-1))/unit*unit

/-- Where a file ends that is continued by the data of a section. -/
def appendSection (stop : ℕ) (s : Section) : ℕ :=
  if s.data=[] then stop
  else wholeUnits (alignmentFor s) stop+wholeUnits fileAlignment s.data.length

/-- Bytes of the file in front of a section: the headers of all sections and the data of
the sections before it. -/
def bytesBefore (count : ℕ) (before : List Section) : ℕ :=
  before.foldl appendSection (headersSize count)

/-- Every section that spans 2 MiB only once padded comes after whole 2 MiB units. -/
def PaddedInUnits (sections : List Section) : Prop :=
  ∀ before s after, sections=before++s::after → LargeWhenPadded s →
    largeAlignment∣bytesBefore sections.length before

/-- Whole units are a multiple of the unit, not below the size. -/
theorem wholeUnits_spec {unit : ℕ} (h : 0 < unit) (n : ℕ) :
    unit∣wholeUnits unit n ∧ n≤wholeUnits unit n := by
  have hlt := Nat.lt_div_mul_add h (a := n+(unit-1))
  unfold wholeUnits
  exact ⟨Nat.dvd_mul_left _ _,by omega⟩

/-- A multiple of the unit is in whole units. -/
theorem wholeUnits_of_dvd {unit n : ℕ} (h : 0 < unit) (hdvd : unit∣n) : wholeUnits unit n=n := by
  obtain ⟨q,rfl⟩ := hdvd
  unfold wholeUnits
  rw [Nat.mul_add_div h,Nat.div_eq_of_lt (by omega),Nat.add_zero,Nat.mul_comm]

/-- Whole units are the least multiple of the unit that is not below the size. -/
theorem wholeUnits_le {unit n m : ℕ} (h : 0 < unit) (hdvd : unit∣m) (hle : n≤ m) :
    wholeUnits unit n≤ m := by
  obtain ⟨q,rfl⟩ := hdvd
  have hdiv : (n+(unit-1))/unit≤q := by
    rw [←Nat.lt_succ_iff,Nat.div_lt_iff_lt_mul h,Nat.succ_mul,Nat.mul_comm q]
    omega
  unfold wholeUnits
  rw [Nat.mul_comm unit]
  exact Nat.mul_le_mul_right _ hdiv

/-- The padded data spans 2 MiB exactly when the data leaves less than 4 KiB of it. -/
theorem wholeUnits_large (n : ℕ) :
    largeThreshold≤wholeUnits fileAlignment n ↔ largeThreshold-fileAlignment<n := by
  have hlarge : largeThreshold=2097152 := rfl
  have hfile : fileAlignment=4096 := rfl
  unfold wholeUnits
  rw [hlarge,hfile]
  omega

/-- The alignment of raw data is one of two. -/
theorem alignmentFor_pos (s : Section) : 0<alignmentFor s ∧ fileAlignment∣alignmentFor s := by
  unfold alignmentFor
  split
  · exact ⟨by decide,⟨512,by decide⟩⟩
  · exact ⟨by decide,dvd_refl _⟩

/-- The file stays in whole 4 KiB units. -/
theorem appendSection_dvd {stop : ℕ} (s : Section) (h : fileAlignment∣stop) :
    fileAlignment∣appendSection stop s := by
  unfold appendSection
  split
  · exact h
  · obtain ⟨hpos,hdvd⟩ := alignmentFor_pos s
    exact Nat.dvd_add (hdvd.trans (wholeUnits_spec hpos stop).1)
      (wholeUnits_spec (by decide) s.data.length).1

/-- The layout gives a section with data the next place and moves past it. -/
theorem rawExtent_eq {s : Section} {cursor cursor' : ℕ} {e : ℕ × ℕ}
    (h : rawExtent s cursor=.ok (e,cursor')) :
    cursor'=appendSection cursor s ∧ (s.data≠[] →
      e=(wholeUnits (alignmentFor s) cursor,wholeUnits fileAlignment s.data.length)) := by
  unfold rawExtent at h
  unfold appendSection
  by_cases hnil : s.data=[]
  · rw [Section.isZeroShape,hnil] at h
    cases h
    rw [if_pos hnil]
    exact ⟨rfl,fun hne => absurd hnil hne⟩
  · rw [if_neg (by simpa [Section.isZeroShape] using hnil)] at h
    obtain ⟨start,hstart,h⟩ := bind_ok.mp h
    obtain ⟨len,hlen,h⟩ := bind_ok.mp h
    obtain ⟨size,hsize,h⟩ := bind_ok.mp h
    obtain ⟨stop,hstop,h⟩ := bind_ok.mp h
    cases h
    obtain ⟨rfl,_⟩ := tryU32_ok.mp hlen
    obtain ⟨rfl,_⟩ := addWord_some.mp (okOr_ok.mp hstop)
    obtain ⟨k,hk,_,halign⟩ := alignmentFor_eq s
    rw [okOr_ok,halign] at hstart
    have hstart := alignUpU32_eq hk hstart
    have hsize := alignUpU32_eq (k := 12) (by omega) (okOr_ok.mp hsize)
    have hstart : start=wholeUnits (alignmentFor s) cursor := by rw [hstart,wholeUnits,halign]
    have hsize : size=wholeUnits fileAlignment s.data.length := hsize
    rw [if_neg hnil,hstart,hsize]
    exact ⟨rfl,fun _ => rfl⟩

/-- What a loader reads from the header of a section. -/
theorem readMapping_eq {s : Section} {field hdr : Bytes} {e : ℕ × ℕ} (hfield : field.length=8)
    (hplace : ExtentOk s e) (h : headerFor s field e=.ok hdr) :
    readMapping hdr=⟨if s.nonLoaded || s.isZeroShape then s.virtualSize
      else max s.virtualSize e.2,e.1⟩ := by
  unfold headerFor at h
  obtain ⟨vaddr,_,h⟩ := bind_ok.mp h
  obtain ⟨vsize,hvsize,h⟩ := bind_ok.mp h
  cases h
  obtain ⟨rfl,hlt⟩ := tryU32_ok.mp hvsize
  have he : e.1<2^32 ∧ e.2<2^32 := by
    rcases hplace with ⟨_,rfl⟩ | ⟨_,_,_,_,hsum⟩
    · exact ⟨by decide,by decide⟩
    · omega
  have hvirtual : (if s.nonLoaded || s.isZeroShape then s.virtualSize
      else max s.virtualSize e.2)<256^4 := by
    split <;> omega
  unfold readMapping
  congr 1
  · refine ofLE_slice_word (a := field) (c := leBytes 4 vaddr++leBytes 4 e.2++leBytes 4 e.1++
      zeros 12++leBytes 4 s.characteristics.toNat) ?_ hfield hvirtual
    simp only [sectionHeader,List.append_assoc]
  · refine ofLE_slice_word (a := field++leBytes 4 (if s.nonLoaded || s.isZeroShape then
      s.virtualSize else max s.virtualSize e.2)++leBytes 4 vaddr++leBytes 4 e.2)
      (c := zeros 12++leBytes 4 s.characteristics.toNat) ?_ ?_ he.1
    · simp only [sectionHeader,List.append_assoc]
    · simp only [List.length_append,hfield,length_leBytes]

/-- A section is granular exactly when it does not span 2 MiB by its padding only, or
comes after whole units. -/
theorem granular_iff {s : Section} {field hdr : Bytes} {e : ℕ × ℕ} {cursor cursor' : ℕ}
    (hcursor : fileAlignment∣cursor) (hfield : field.length=8) (hplace : ExtentOk s e)
    (hextent : rawExtent s cursor=.ok (e,cursor')) (hheader : headerFor s field e=.ok hdr) :
    Granular s (readMapping hdr) ↔ (LargeWhenPadded s → largeAlignment∣cursor) := by
  have hlarge : largeThreshold=2097152 := rfl
  have hfile : fileAlignment=4096 := rfl
  rw [readMapping_eq hfield hplace hheader]
  by_cases hnil : s.data=[]
  · have hnot : ¬LargeWhenPadded s := by
      rintro ⟨_,_,_,hlen⟩
      rw [hnil,List.length_nil] at hlen
      omega
    exact ⟨fun _ hp => absurd hp hnot,fun _ _ hne => absurd hnil hne⟩
  · have hzero : s.isZeroShape=false := by simpa [Section.isZeroShape] using hnil
    obtain ⟨_,he⟩ := rawExtent_eq hextent
    rw [he hnil]
    cases hload : s.nonLoaded with
    | true =>
      have hnot : ¬LargeWhenPadded s := fun hp => by
        rw [hp.1] at hload
        cases hload
      exact ⟨fun _ hp => absurd hp hnot,fun _ hl => by rw [hload] at hl; cases hl⟩
    | false =>
      have hpadded := wholeUnits_large s.data.length
      rw [hzero]
      by_cases hbig : largeThreshold ≤ max s.virtualSize s.data.length
      · -- large by its own size: the place is aligned for it
        have halign : alignmentFor s=largeAlignment := by
          rw [alignmentFor,isLargePayload,hload,hzero,decide_eq_true hbig]
          rfl
        have hnot : ¬LargeWhenPadded s := by
          rintro ⟨_,hv,hd,_⟩
          omega
        rw [halign]
        exact ⟨fun _ hp => absurd hp hnot,fun _ _ _ _ => (wholeUnits_spec (by decide) cursor).1⟩
      · have halign : alignmentFor s=fileAlignment := by
          rw [alignmentFor,isLargePayload,hload,hzero,decide_eq_false hbig]
          rfl
        rw [halign,wholeUnits_of_dvd (by decide) hcursor]
        constructor
        · rintro hgranular ⟨_,_,_,hlen⟩
          exact hgranular hload hnil (le_max_of_le_right (hpadded.mpr hlen))
        · intro h _ _ hspan
          have hspan : largeThreshold ≤ max s.virtualSize (wholeUnits fileAlignment s.data.length) :=
            hspan
          exact h ⟨hload,by omega,by omega,hpadded.mp (by omega)⟩

/-- A property of the positions of a list is one of its head and of the positions behind. -/
theorem forall_split_cons {α : Type} {P : List α → α → Prop} {a : α} {rest : List α} :
    (∀ before b after, a::rest=before++b::after → P before b) ↔
      P [] a ∧ ∀ before b after, rest=before++b::after → P (a::before) b := by
  constructor
  · exact fun h => ⟨h [] a rest rfl,fun before b after hsplit =>
      h (a::before) b after (congrArg (a::·) hsplit)⟩
  · rintro ⟨hhead,hrest⟩ before b after hsplit
    cases before with
    | nil =>
      cases hsplit
      exact hhead
    | cons c before =>
      cases hsplit
      exact hrest before b after rfl

/-- All sections are granular exactly when those that span 2 MiB by their padding only
come after whole units. -/
theorem granular_run {strtab : Bytes} {sections : List Section} {fields hdrs : List Bytes}
    {extents : List (ℕ × ℕ)} {cursor stop : ℕ} (hcursor : fileAlignment∣cursor)
    (hnames : List.Forall₂ (NameOk strtab) sections fields)
    (hplaces : List.Forall₂ ExtentOk sections extents)
    (hextents : rawExtents sections cursor=.ok (extents,stop))
    (hheaders : List.Forall₂ (fun row hdr => headerFor row.1 row.2.1 row.2.2=.ok hdr)
      (sections.zip (fields.zip extents)) hdrs) :
    List.Forall₂ Granular sections (hdrs.map readMapping) ↔
      ∀ before s after, sections=before++s::after → LargeWhenPadded s →
        largeAlignment∣before.foldl appendSection cursor := by
  -- all lists follow the list of sections, the cursor moves along
  induction hnames generalizing extents hdrs cursor with
  | nil =>
    cases hplaces
    cases hheaders
    exact ⟨fun _ before s after hsplit => by simp at hsplit,fun _ => List.Forall₂.nil⟩
  | @cons s field sections fields hname _ ih =>
    cases hplaces with
    | @cons _ e _ extents hplace hplaces =>
      rw [List.zip_cons_cons,List.zip_cons_cons] at hheaders
      cases hheaders with
      | @cons _ hdr _ hdrs hheader hheaders =>
        unfold rawExtents at hextents
        obtain ⟨⟨e',mid⟩,hextent,hextents⟩ := bind_ok.mp hextents
        obtain ⟨⟨es,stop'⟩,hrest,hextents⟩ := bind_ok.mp hextents
        cases hextents
        have hhead := granular_iff hcursor hname.1 hplace hextent hheader
        obtain ⟨hmid,_⟩ := rawExtent_eq hextent
        have htail := ih (hmid ▸ appendSection_dvd s hcursor) hplaces hrest hheaders
        rw [hmid] at htail
        rw [List.map_cons,List.forall₂_cons,hhead,htail,forall_split_cons]
        rfl

/-- The loader reads every header of the table. -/
theorem readMappings_eq {machine : ℕ} {sections : List Section} {file : Bytes}
    {fields : List Bytes} {strtab : Bytes} {extents : List (ℕ × ℕ)} {hdrs : List Bytes}
    {opt : Bytes} {strtabOffset dataStop : ℕ} (h : Composition machine sections file fields strtab
      extents hdrs opt strtabOffset dataStop) : readMappings file=some (hdrs.map readMapping) := by
  have ht := h.tableAt
  obtain ⟨rest,htable⟩ := ht.headers
  unfold readMappings
  dsimp only
  rw [ht.lfanew,if_pos ⟨ht.magic,ht.signature⟩,ht.count,ht.optional,htable,h.decodeHeaders]

/-- In a file that is built every loaded section that spans 2 MiB starts at a multiple
of 2 MiB, exactly when the sections that span it by their padding only come after whole
units. -/
theorem buildPe_granular_iff {machine : ℕ} {sections : List Section} {file : Bytes}
    (h : buildPe machine sections=.ok file) :
    ∃ mappings, readMappings file=some mappings ∧
      (List.Forall₂ Granular sections mappings ↔ PaddedInUnits sections) := by
  obtain ⟨fields,strtab,extents,hdrs,opt,strtabOffset,dataStop,hc,hextents⟩ := buildPe_ok h
  exact ⟨_,readMappings_eq hc,
    granular_run (Nat.dvd_mul_left _ _) hc.names hc.places hextents hc.headers⟩

/-- A kernel one byte short of 2 MiB. -/
def shortKernel : Section :=
  ⟨".linux",0x200000,0x1FFFFF,zeros 0x1FFFFF,imageScnCntInitializedData,false⟩

/-- That kernel has raw data. -/
theorem shortKernel_shape : shortKernel.isZeroShape=false := by
  rw [Section.isZeroShape,List.isEmpty_eq_false_iff,ne_eq,←List.length_eq_zero_iff,shortKernel,
    length_zeros]
  decide

/-- It is not large by its own size. -/
theorem shortKernel_alignment : alignmentFor shortKernel=fileAlignment := by
  have hlen : shortKernel.data.length=0x1FFFFF := length_zeros _
  rw [alignmentFor,isLargePayload,shortKernel_shape,hlen]
  decide

/-- Its raw data starts behind the headers. -/
theorem shortKernel_extents :
    rawExtents [shortKernel] (headersSize 1)=.ok ([(4096,2097152)],2101248) := by
  have hlen : shortKernel.data.length=0x1FFFFF := length_zeros _
  have hzero := shortKernel_shape
  have halign := shortKernel_alignment
  have hstart : alignUpU32 (headersSize 1) fileAlignment=some 4096 := by decide
  have hsize : alignUpU32 0x1FFFFF fileAlignment=some 2097152 := by decide
  have hstop : addWord 32 4096 2097152=some 2101248 := by decide
  have hfits : tryU32 0x1FFFFF=.ok 0x1FFFFF := by decide
  have hextent : rawExtent shortKernel (headersSize 1)=.ok ((4096,2097152),2101248) := by
    rw [rawExtent,hzero,if_neg (by decide),halign,hstart,ok_bind (okOr_ok.mpr rfl),hlen,
      ok_bind hfits,hsize,ok_bind (okOr_ok.mpr rfl),hstop,ok_bind (okOr_ok.mpr rfl)]
  rw [rawExtents,ok_bind hextent]
  rfl

/-- The sizes in the optional header of its image. -/
theorem shortKernel_totals : sizeTotals [shortKernel] (0,0,0)=.ok (0,2097152,0) := by
  have hlen : shortKernel.data.length=0x1FFFFF := length_zeros _
  have hfits : tryU32 0x1FFFFF=.ok 0x1FFFFF := by decide
  have hsize : alignUpU32 0x1FFFFF fileAlignment=some 2097152 := by decide
  have hdata : alignedDataSize shortKernel=.ok 2097152 := by
    rw [alignedDataSize,hlen,ok_bind hfits,shortKernel_alignment,hsize]
    rfl
  have hcode : addSize imageScnCntCode alignedDataSize shortKernel 0=.ok 0 := if_neg (by decide)
  have hinit : addSize imageScnCntInitializedData alignedDataSize shortKernel 0=.ok 2097152 := by
    have hadd : addWord 32 0 2097152=some 2097152 := by decide
    rw [addSize,if_pos (by decide),ok_bind hdata,hadd]
    rfl
  have huninit : addSize imageScnCntUninitializedData alignedVirtualSize shortKernel 0=.ok 0 :=
    if_neg (by decide)
  rw [sizeTotals,ok_bind hcode,ok_bind hinit,ok_bind huninit]
  rfl

/-- The image of that kernel is built, but is not granular. -/
theorem buildPe_short_kernel : ∃ file mappings, buildPe 0x8664 [shortKernel]=.ok file ∧
    readMappings file=some mappings ∧ ¬List.Forall₂ Granular [shortKernel] mappings := by
  have hlen : shortKernel.data.length=0x1FFFFF := length_zeros _
  have hnames : nameFields [shortKernel] (leBytes 4 0)=
      .ok ([padName (asBytes ".linux")],leBytes 4 0) := by decide +kernel
  obtain ⟨file,hfile⟩ := @exists_buildPe 0x8664 [shortKernel] _ _ _ _ 0 2101248 _ (by decide)
    (by decide +kernel) hnames shortKernel_extents (by decide) shortKernel_totals (by decide)
  obtain ⟨fields,strtab,extents,hdrs,opt,strtabOffset,dataStop,hc,hextents⟩ := buildPe_ok hfile
  have hpadded : LargeWhenPadded shortKernel := by
    rw [LargeWhenPadded,hlen]
    decide
  refine ⟨file,_,hfile,readMappings_eq hc,fun hgranular => ?_⟩
  have hunits := (granular_run (Nat.dvd_mul_left _ _) hc.names hc.places hextents hc.headers).mp
    hgranular [] shortKernel [] rfl hpadded
  exact absurd hunits (by decide)

/-- An image of a small kernel is granular, and none of its sections spans 2 MiB. -/
theorem buildPe_granular_iff_sample : ∃ file, buildPe 0x8664 sampleSections=.ok file ∧
    ∃ mappings, readMappings file=some mappings ∧
      (List.Forall₂ Granular sampleSections mappings ↔ PaddedInUnits sampleSections) := by
  obtain ⟨file,hfile⟩ := exists_ok
    (show (buildPe 0x8664 sampleSections).toOption.isSome=true by decide +kernel)
  exact ⟨file,hfile,buildPe_granular_iff hfile⟩

end Arma.Pe.Granularity
