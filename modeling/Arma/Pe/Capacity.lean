import Arma.Pe.Complete

/-!
# What fits an image

The writer checks each sum where it forms it. In plain arithmetic an image is written
exactly when the sums come out below 4 GiB in the end, since none of them ever falls.
-/

namespace Arma.Pe.Capacity

open Base.ByteString Base.Checked Base.Decimal Complete RoundTrip Writer

/-- Round up to a multiple. -/
def roundUp (v a : ℕ) : ℕ := (v+(a-1))/a*a

/-- Where the data of a section ends, behind what ends at the cursor. -/
def rawNext (s : Section) (cursor : ℕ) : ℕ :=
  if s.isZeroShape then cursor
  else roundUp cursor (alignmentFor s)+roundUp s.data.length fileAlignment

/-- Where the data of all sections ends. -/
def rawEnd (sections : List Section) (cursor : ℕ) : ℕ :=
  sections.foldl (fun cursor s => rawNext s cursor) cursor

/-- Where the string table ends behind the name of a section. -/
def stringsNext (s : Section) (size : ℕ) : ℕ :=
  if (asBytes s.name).length≤8 then size else size+(asBytes s.name).length+1

/-- Where the string table ends. -/
def stringsEnd (sections : List Section) (size : ℕ) : ℕ :=
  sections.foldl (fun size s => stringsNext s size) size

/-- What the sections with a flag add to a total. -/
def totalSize (flag : UInt32) (size : Section → ℕ) (sections : List Section) (total : ℕ) : ℕ :=
  sections.foldl (fun total s =>
    if s.characteristics &&& flag≠0 then total+size s else total) total

/-- The aligned size of the data. -/
def dataSize (s : Section) : ℕ := roundUp s.data.length (alignmentFor s)

/-- The aligned size in memory. -/
def memorySize (s : Section) : ℕ := roundUp s.virtualSize sectionAlignment

/-- The sections fit an image. -/
structure Fits (sections : List Section) : Prop where
  /-- Their number is a 16-bit word. -/
  count : sections.length≤0xFFFF
  /-- No name has a NUL byte. -/
  noNul : ∀ s∈sections, (0 : UInt8)∉asBytes s.name
  /-- Sizes and loaded addresses are 32-bit words. -/
  words : ∀ s∈sections, s.virtualSize<2^32 ∧ (s.nonLoaded=false → s.vaddr<2^32)
  /-- A long name starts below ten million in the string table. -/
  names : ∀ front s back, sections=front++s::back → 8<(asBytes s.name).length →
    stringsEnd front 4<10^7
  /-- The file ends below 4 GiB. -/
  file : rawEnd sections (headersSize sections.length)+
    (if 4<stringsEnd sections 4 then stringsEnd sections 4 else 0)<2^32
  /-- So does the code. -/
  code : totalSize imageScnCntCode dataSize sections 0<2^32
  /-- So does the initialized data. -/
  initData : totalSize imageScnCntInitializedData dataSize sections 0<2^32
  /-- So does the uninitialized data. -/
  uninitData : totalSize imageScnCntUninitializedData memorySize sections 0<2^32

/-- Rounding up does not go below. -/
theorem le_roundUp {v a : ℕ} (ha : 0<a) : v≤roundUp v a := by
  have hlt := Nat.lt_div_mul_add ha (a := v+(a-1))
  unfold roundUp
  omega

/-- A word can be aligned when it stays a word. -/
theorem alignUpU32_iff {v k w : ℕ} (hk : k≤32) :
    alignUpU32 v (2^k)=some w ↔ w=roundUp v (2^k) ∧ w<2^32 := by
  refine ⟨fun h => ⟨alignUpU32_eq hk h,(alignUpU32_some hk h).2.2⟩,fun ⟨hw,hlt⟩ => ?_⟩
  have hbelow : v+(2^k-1)<2^32 := by
    rw [hw,roundUp,show 2^32=2^(32-k)*2^k by rw [←pow_add,Nat.sub_add_cancel hk]] at hlt
    have hdiv := Nat.lt_of_mul_lt_mul_right hlt
    rw [Nat.div_lt_iff_lt_mul (Nat.two_pow_pos k),←pow_add,Nat.sub_add_cancel hk] at hdiv
    exact hdiv
  rw [alignUpU32,show addWord 32 v (2^k-1)=some (v+(2^k-1)) from if_pos hbelow,Option.map_some,
    clearBits_low hbelow hk,hw,roundUp]

/-- The data of a section can be aligned as it is placed. -/
theorem alignUpU32_alignmentFor {s : Section} {v w : ℕ} :
    alignUpU32 v (alignmentFor s)=some w ↔ w=roundUp v (alignmentFor s) ∧ w<2^32 := by
  obtain ⟨k,hk,-,heq⟩ := alignmentFor_eq s
  rw [heq]
  exact alignUpU32_iff hk

/-- An alignment is positive. -/
theorem alignmentFor_pos (s : Section) : 0<alignmentFor s := by
  obtain ⟨k,-,-,heq⟩ := alignmentFor_eq s
  rw [heq]
  exact Nat.two_pow_pos k

/-- The cursor does not fall. -/
theorem le_rawNext (s : Section) (cursor : ℕ) : cursor≤rawNext s cursor := by
  have hle := @le_roundUp cursor _ (alignmentFor_pos s)
  unfold rawNext
  split
  · exact le_rfl
  · omega

/-- It does not fall over several sections. -/
theorem le_rawEnd (sections : List Section) (cursor : ℕ) : cursor≤rawEnd sections cursor := by
  induction sections generalizing cursor with
  | nil => exact le_rfl
  | cons s rest ih => exact (le_rawNext s cursor).trans (ih _)

/-- A section is placed when its data ends below 4 GiB. -/
theorem rawExtent_iff {s : Section} {cursor stop : ℕ} (hcursor : cursor<2^32) :
    (∃ extent, rawExtent s cursor=.ok (extent,stop)) ↔ stop=rawNext s cursor ∧ stop<2^32 := by
  unfold rawExtent rawNext
  split
  · constructor
    · rintro ⟨extent,h⟩
      cases h
      exact ⟨rfl,hcursor⟩
    · rintro ⟨rfl,-⟩
      exact ⟨_,rfl⟩
  · have hfile : ∀ {v w : ℕ}, alignUpU32 v fileAlignment=some w ↔
        w=roundUp v fileAlignment ∧ w<2^32 := alignUpU32_iff (k := 12) (by omega)
    constructor
    · rintro ⟨extent,h⟩
      obtain ⟨start,hstart,h⟩ := bind_ok.mp h
      obtain ⟨len,hlen,h⟩ := bind_ok.mp h
      obtain ⟨rawSize,hsize,h⟩ := bind_ok.mp h
      obtain ⟨next,hnext,h⟩ := bind_ok.mp h
      cases h
      obtain ⟨rfl,-⟩ := alignUpU32_alignmentFor.mp (okOr_ok.mp hstart)
      obtain ⟨rfl,-⟩ := tryU32_ok.mp hlen
      obtain ⟨rfl,-⟩ := hfile.mp (okOr_ok.mp hsize)
      obtain ⟨rfl,hlt⟩ := addWord_some.mp (okOr_ok.mp hnext)
      exact ⟨rfl,hlt⟩
    · rintro ⟨rfl,hlt⟩
      have hlen := @le_roundUp s.data.length fileAlignment (by decide)
      have hstart := (alignUpU32_alignmentFor (s := s) (v := cursor)).mpr ⟨rfl,by omega⟩
      have hsize := (hfile (v := s.data.length)).mpr ⟨rfl,by omega⟩
      have hwords := tryU32_ok.mpr ⟨rfl,show s.data.length<2^32 by omega⟩
      have hnext := addWord_some.mpr ⟨rfl,hlt⟩
      exact ⟨_,by rw [hstart,ok_bind (okOr_ok.mpr rfl),ok_bind hwords,hsize,
        ok_bind (okOr_ok.mpr rfl),hnext,ok_bind (okOr_ok.mpr rfl)]⟩

/-- The sections are placed when the data ends below 4 GiB. -/
theorem rawExtents_iff {sections : List Section} {cursor stop : ℕ} (hcursor : cursor<2^32) :
    (∃ extents, rawExtents sections cursor=.ok (extents,stop)) ↔
      stop=rawEnd sections cursor ∧ stop<2^32 := by
  induction sections generalizing cursor with
  | nil =>
    constructor
    · rintro ⟨extents,h⟩
      cases h
      exact ⟨rfl,hcursor⟩
    · rintro ⟨rfl,-⟩
      exact ⟨[],rfl⟩
  | cons s rest ih =>
    constructor
    · rintro ⟨extents,h⟩
      obtain ⟨⟨extent,next⟩,hextent,h⟩ := bind_ok.mp h
      obtain ⟨⟨others,last⟩,hothers,h⟩ := bind_ok.mp h
      cases h
      obtain ⟨rfl,hnext⟩ := (rawExtent_iff hcursor).mp ⟨extent,hextent⟩
      exact (ih hnext).mp ⟨others,hothers⟩
    · rintro ⟨rfl,hlt⟩
      have hnext : rawNext s cursor<2^32 := lt_of_le_of_lt (le_rawEnd rest _) hlt
      obtain ⟨extent,hextent⟩ := (rawExtent_iff hcursor).mpr ⟨rfl,hnext⟩
      obtain ⟨others,hothers⟩ := (ih hnext).mpr ⟨rfl,hlt⟩
      exact ⟨extent::others,by rw [rawExtents,ok_bind hextent]; exact ok_bind hothers⟩

/-- A number has at most seven digits when it is below ten million. -/
theorem length_decimal {n : ℕ} : (decimal n).length≤7 ↔ n<10^7 := by
  unfold decimal
  split
  · rename_i hn
    rw [hn]
    decide
  · rw [List.length_map,List.length_reverse]
    exact Nat.digits_length_le_iff (by omega) n

/-- A name is found in the string table when it is short or starts early enough. -/
theorem nameField_iff {s : Section} {strtab : Bytes} {size : ℕ} :
    (∃ field strtab', nameField s strtab=.ok (field,strtab') ∧ strtab'.length=size) ↔
      size=stringsNext s strtab.length ∧ (8<(asBytes s.name).length → strtab.length<10^7) := by
  unfold nameField stringsNext
  dsimp only
  by_cases hshort : (asBytes s.name).length≤8
  · rw [if_pos hshort,if_pos hshort]
    refine ⟨fun ⟨field,strtab',h,hsize⟩ => ?_,fun ⟨hsize,_⟩ => ⟨_,strtab,rfl,hsize.symm⟩⟩
    cases h
    exact ⟨hsize.symm,fun h => absurd hshort (by omega)⟩
  · rw [if_neg hshort,if_neg hshort]
    have hdigits := @length_decimal strtab.length
    have hlen : (strtab++asBytes s.name++[0]).length=
        strtab.length+(asBytes s.name).length+1 := by
      rw [List.length_append,List.length_append,List.length_singleton]
    refine ⟨fun ⟨field,strtab',h,hsize⟩ => ?_,fun ⟨hsize,hlong⟩ => ?_⟩
    · split at h
      · exact absurd h fail_ne_ok
      · rename_i hfits
        rw [List.length_cons] at hfits
        cases h
        rw [hlen] at hsize
        exact ⟨hsize.symm,fun _ => hdigits.mp (by omega)⟩
    · have hfits : ¬8<(0x2F::decimal strtab.length).length := by
        have hseven := hdigits.mpr (hlong (by omega))
        rw [List.length_cons]
        omega
      exact ⟨_,_,if_neg hfits,hlen.trans hsize.symm⟩

/-- All names are found when the long ones start early enough. -/
theorem nameFields_iff {sections : List Section} {strtab : Bytes} {size : ℕ} :
    (∃ fields strtab', nameFields sections strtab=.ok (fields,strtab') ∧ strtab'.length=size) ↔
      size=stringsEnd sections strtab.length ∧ ∀ front s back, sections=front++s::back →
        8<(asBytes s.name).length → stringsEnd front strtab.length<10^7 := by
  induction sections generalizing strtab with
  | nil =>
    refine ⟨fun ⟨fields,strtab',h,hsize⟩ => ?_,fun ⟨hsize,_⟩ => ⟨[],strtab,rfl,hsize.symm⟩⟩
    cases h
    exact ⟨hsize.symm,fun front s back hsplit => by simp at hsplit⟩
  | cons s rest ih =>
    refine ⟨fun ⟨fields,strtab',h,hsize⟩ => ?_,fun ⟨hsize,hlong⟩ => ?_⟩
    · obtain ⟨⟨field,mid⟩,hfield,h⟩ := bind_ok.mp h
      obtain ⟨⟨others,_⟩,hothers,h⟩ := bind_ok.mp h
      cases h
      obtain ⟨hmid,hfirst⟩ := nameField_iff.mp ⟨field,mid,hfield,rfl⟩
      obtain ⟨hlast,hrest⟩ := ih.mp ⟨others,_,hothers,hsize⟩
      rw [hmid] at hlast hrest
      refine ⟨hlast,fun front t back hsplit ht => ?_⟩
      cases front with
      | nil =>
        cases hsplit
        exact hfirst ht
      | cons _ front =>
        cases hsplit
        exact hrest front t back rfl ht
    · obtain ⟨field,mid,hfield,hmid⟩ := nameField_iff.mpr ⟨rfl,hlong [] s rest rfl⟩
      have hrest : size=stringsEnd rest mid.length ∧ ∀ front t back, rest=front++t::back →
          8<(asBytes t.name).length → stringsEnd front mid.length<10^7 := by
        rw [hmid]
        refine ⟨hsize,fun front t back hsplit ht => ?_⟩
        exact hlong (s::front) t back (by rw [hsplit]; rfl) ht
      obtain ⟨others,last,hothers,hlast⟩ := ih.mpr hrest
      exact ⟨field::others,last,by rw [nameFields,ok_bind hfield]; exact ok_bind hothers,hlast⟩

/-- A total does not fall. -/
theorem le_totalSize (flag : UInt32) (size : Section → ℕ) (sections : List Section) (total : ℕ) :
    total≤totalSize flag size sections total := by
  induction sections generalizing total with
  | nil => exact le_rfl
  | cons s rest ih =>
    refine le_trans ?_ (ih _)
    dsimp only
    split
    · exact Nat.le_add_right _ _
    · exact le_rfl

/-- A size is added when the total stays a word. -/
theorem addSize_iff {flag : UInt32} {size : Section → Outcome PeError ℕ} {plain : Section → ℕ}
    (hsize : ∀ s n, size s=.ok n ↔ n=plain s ∧ n<2^32) {s : Section} {total sum : ℕ}
    (htotal : total<2^32) : addSize flag size s total=.ok sum ↔
      sum=totalSize flag plain [s] total ∧ sum<2^32 := by
  unfold addSize totalSize
  rw [List.foldl_cons,List.foldl_nil]
  split
  · refine ⟨fun h => ?_,fun ⟨hsum,hlt⟩ => ?_⟩
    · obtain ⟨n,hn,h⟩ := bind_ok.mp h
      obtain ⟨rfl,-⟩ := (hsize s n).mp hn
      obtain ⟨rfl,hlt⟩ := addWord_some.mp (okOr_ok.mp h)
      exact ⟨rfl,hlt⟩
    · rw [ok_bind ((hsize s _).mpr ⟨rfl,by omega⟩)]
      exact okOr_ok.mpr (addWord_some.mpr ⟨hsum.symm,hlt⟩)
  · refine ⟨fun h => ?_,fun ⟨hsum,_⟩ => by rw [hsum]⟩
    cases h
    exact ⟨rfl,htotal⟩

/-- The aligned size of the data is a word. -/
theorem alignedDataSize_iff (s : Section) (n : ℕ) :
    alignedDataSize s=.ok n ↔ n=dataSize s ∧ n<2^32 := by
  unfold alignedDataSize dataSize
  refine ⟨fun h => ?_,fun ⟨heq,hlt⟩ => ?_⟩
  · obtain ⟨len,hlen,h⟩ := bind_ok.mp h
    obtain ⟨rfl,-⟩ := tryU32_ok.mp hlen
    exact alignUpU32_alignmentFor.mp (okOr_ok.mp h)
  · have hle := @le_roundUp s.data.length _ (alignmentFor_pos s)
    rw [ok_bind (tryU32_ok.mpr ⟨rfl,by omega⟩)]
    exact okOr_ok.mpr (alignUpU32_alignmentFor.mpr ⟨heq,hlt⟩)

/-- The aligned size in memory is a word. -/
theorem alignedVirtualSize_iff (s : Section) (n : ℕ) :
    alignedVirtualSize s=.ok n ↔ n=memorySize s ∧ n<2^32 := by
  have halign : ∀ {v w : ℕ}, alignUpU32 v sectionAlignment=some w ↔
      w=roundUp v sectionAlignment ∧ w<2^32 := alignUpU32_iff (k := 12) (by omega)
  unfold alignedVirtualSize memorySize
  refine ⟨fun h => ?_,fun ⟨heq,hlt⟩ => ?_⟩
  · obtain ⟨size,hsize,h⟩ := bind_ok.mp h
    obtain ⟨rfl,-⟩ := tryU32_ok.mp hsize
    exact halign.mp (okOr_ok.mp h)
  · have hle := @le_roundUp s.virtualSize sectionAlignment (by decide)
    rw [ok_bind (tryU32_ok.mpr ⟨rfl,by omega⟩)]
    exact okOr_ok.mpr (halign.mpr ⟨heq,hlt⟩)

/-- The totals are formed when each of them is a word in the end. -/
theorem sizeTotals_iff {sections : List Section} {code initData uninitData : ℕ}
    (hcode : code<2^32) (hinit : initData<2^32) (huninit : uninitData<2^32) :
    (∃ totals, sizeTotals sections (code,initData,uninitData)=.ok totals) ↔
      totalSize imageScnCntCode dataSize sections code<2^32 ∧
        totalSize imageScnCntInitializedData dataSize sections initData<2^32 ∧
          totalSize imageScnCntUninitializedData memorySize sections uninitData<2^32 := by
  induction sections generalizing code initData uninitData with
  | nil => exact ⟨fun _ => ⟨hcode,hinit,huninit⟩,fun _ => ⟨_,rfl⟩⟩
  | cons s rest ih =>
    have hstep : ∀ flag size total, totalSize flag size (s::rest) total=
        totalSize flag size rest (totalSize flag size [s] total) := fun _ _ _ => rfl
    rw [hstep,hstep,hstep]
    refine ⟨fun ⟨totals,h⟩ => ?_,fun ⟨hc,hi,hu⟩ => ?_⟩
    · obtain ⟨_,hc,h⟩ := bind_ok.mp h
      obtain ⟨_,hi,h⟩ := bind_ok.mp h
      obtain ⟨_,hu,h⟩ := bind_ok.mp h
      obtain ⟨rfl,hc⟩ := (addSize_iff alignedDataSize_iff hcode).mp hc
      obtain ⟨rfl,hi⟩ := (addSize_iff alignedDataSize_iff hinit).mp hi
      obtain ⟨rfl,hu⟩ := (addSize_iff alignedVirtualSize_iff huninit).mp hu
      exact (ih hc hi hu).mp ⟨totals,h⟩
    · have hc' := lt_of_le_of_lt (le_totalSize _ _ rest _) hc
      have hi' := lt_of_le_of_lt (le_totalSize _ _ rest _) hi
      have hu' := lt_of_le_of_lt (le_totalSize _ _ rest _) hu
      obtain ⟨totals,htotals⟩ := (ih hc' hi' hu').mpr ⟨hc,hi,hu⟩
      refine ⟨totals,?_⟩
      rw [sizeTotals,ok_bind ((addSize_iff alignedDataSize_iff hcode).mpr ⟨rfl,hc'⟩),
        ok_bind ((addSize_iff alignedDataSize_iff hinit).mpr ⟨rfl,hi'⟩),
        ok_bind ((addSize_iff alignedVirtualSize_iff huninit).mpr ⟨rfl,hu'⟩),htotals]

/-- The string table is placed when the file ends below 4 GiB. -/
theorem placeStrtab_iff {strtab : Bytes} {cursor : ℕ} (hcursor : cursor<2^32) :
    (∃ placed, placeStrtab strtab cursor=.ok placed) ↔
      cursor+(if 4<strtab.length then strtab.length else 0)<2^32 := by
  unfold placeStrtab
  split
  · refine ⟨fun ⟨placed,h⟩ => ?_,fun hlt => ?_⟩
    · obtain ⟨len,hlen,h⟩ := bind_ok.mp h
      obtain ⟨rfl,-⟩ := tryU32_ok.mp hlen
      obtain ⟨stop,hstop,h⟩ := bind_ok.mp h
      obtain ⟨rfl,hlt⟩ := addWord_some.mp (okOr_ok.mp hstop)
      exact hlt
    · refine ⟨(cursor,cursor+strtab.length),?_⟩
      rw [ok_bind (tryU32_ok.mpr ⟨rfl,show strtab.length<2^32 by omega⟩),
        ok_bind (okOr_ok.mpr (addWord_some.mpr ⟨rfl,hlt⟩))]
  · exact ⟨fun _ => hcursor,fun _ => ⟨_,rfl⟩⟩

/-- Entering its own size keeps the length of the string table. -/
theorem length_strtab {strtab : Bytes} (h : 4≤ strtab.length) :
    (overwrite 0 (leBytes 4 strtab.length) strtab).length=strtab.length :=
  length_overwrite (by rw [length_leBytes]; omega)

/-- The string table holds its own size first. -/
theorem le_stringsEnd (sections : List Section) (size : ℕ) : size≤ stringsEnd sections size := by
  induction sections generalizing size with
  | nil => exact le_rfl
  | cons s rest ih =>
    refine le_trans ?_ (ih _)
    dsimp only [stringsNext]
    split
    · exact le_rfl
    · omega

/-- An image is written exactly when the sections fit it. -/
theorem fits_iff {machine : ℕ} {sections : List Section} :
    Fits sections ↔ ∃ file, buildPe machine sections=.ok file := by
  rw [←passes_iff]
  have htotals := @sizeTotals_iff sections 0 0 0 (by decide) (by decide) (by decide)
  have hfour := le_stringsEnd sections 4
  constructor
  · intro h
    have hheaders := headersSize_lt h.count
    obtain ⟨totals,htotals⟩ := htotals.mpr ⟨h.code,h.initData,h.uninitData⟩
    obtain ⟨fields,strtab,hnames,hsize⟩ :=
      (@nameFields_iff sections (leBytes 4 0) (stringsEnd sections 4)).mpr ⟨rfl,h.names⟩
    obtain ⟨extents,hextents⟩ := (rawExtents_iff hheaders).mpr
      ⟨rfl,lt_of_le_of_lt (Nat.le_add_right _ _) h.file⟩
    have hplace := (@placeStrtab_iff (overwrite 0 (leBytes 4 strtab.length) strtab) _
      (lt_of_le_of_lt (Nat.le_add_right _ _) h.file)).mpr (by
        rw [length_strtab (by omega),hsize]
        exact h.file)
    obtain ⟨placed,hplaced⟩ := hplace
    simp only [passes,Bool.and_eq_true,decide_eq_true_eq,List.all_eq_true]
    refine ⟨⟨⟨⟨h.count,h.noNul⟩,h.words⟩,?_⟩,?_⟩
    · rw [htotals]
      rfl
    · rw [hnames]
      simp only [Except.toOption,Option.any_some]
      rw [hextents]
      simp only [Option.any_some,hplaced,Option.isSome_some]
  · intro h
    simp only [passes,Bool.and_eq_true,decide_eq_true_eq,List.all_eq_true] at h
    obtain ⟨⟨⟨⟨hcount,hnul⟩,hwords⟩,htotal⟩,hnames⟩ := h
    obtain ⟨totals,htotal⟩ := exists_ok htotal
    obtain ⟨⟨fields,strtab⟩,hnames,hraw⟩ := exists_ok_of_any hnames
    obtain ⟨⟨extents,cursor⟩,hextents,hplace⟩ := exists_ok_of_any hraw
    obtain ⟨placed,hplaced⟩ := exists_ok hplace
    obtain ⟨hcode,hinit,huninit⟩ := htotals.mp ⟨totals,htotal⟩
    obtain ⟨hsize,hlong⟩ := nameFields_iff.mp ⟨fields,strtab,hnames,rfl⟩
    rw [length_leBytes] at hsize hlong
    obtain ⟨rfl,hcursor⟩ := (rawExtents_iff (headersSize_lt hcount)).mp ⟨extents,hextents⟩
    have hfile := (placeStrtab_iff hcursor).mp ⟨placed,hplaced⟩
    dsimp only at hfile
    rw [length_strtab (by omega),hsize] at hfile
    exact ⟨hcount,hnul,hwords,hlong,hfile,hcode,hinit,huninit⟩

end Arma.Pe.Capacity
