import Mathlib.Order.Bounds.Basic
import Arma.Kernel.Image

/-!
# Loading an ELF kernel

The segments of a kernel are written into memory in the order of their headers.
The flat image is what memory then has between the lowest address and the highest
file end of the segments that count, without trailing zeros. A segment that counts
for nothing but has bytes in the file can lie outside that span.
-/

namespace Arma.Kernel.Loading

open Base.ByteString Base.Checked Image

/-- Memory after the bytes of one segment have been written. -/
def writeSegment (bytes : Bytes) (memory : ℕ → UInt8) (p : ProgramHeader) : ℕ → UInt8 :=
  fun addr => if p.covers addr=true then p.byteAt bytes addr else memory addr

/-- Zeroed memory after all segments have been written, in order. -/
def loadedMemory (bytes : Bytes) (segments : List ProgramHeader) : ℕ → UInt8 :=
  segments.foldl (writeSegment bytes) fun _ => 0

/-- Where the file contents of a segment end. -/
def fileEnd (p : ProgramHeader) : ℕ := p.paddr.toNat+p.filesz.toNat

/-- Where a segment ends in memory. -/
def memEnd (p : ProgramHeader) : ℕ := p.paddr.toNat+p.memsz.toNat

/-- Values at the segments that count towards the span. -/
def spanned (elf : Elf) (f : ProgramHeader → ℕ) : Set ℕ :=
  {n | ∃ p∈elf.programHeaders, p.spans=true ∧ f p=n}

/-- The source of a segment is in the file. -/
def InFile (bytes : Bytes) (p : ProgramHeader) : Prop :=
  p.offset.toNat+p.filesz.toNat<2^64 ∧ p.offset.toNat+p.filesz.toNat≤bytes.length

instance (bytes : Bytes) (p : ProgramHeader) : Decidable (InFile bytes p) := by
  unfold InFile
  infer_instance

/-- The file contents of all segments have a place, up to the first one whose source is
not in the file. -/
structure Loadable (elf : Elf) (bytes : Bytes) : Prop where
  /-- The span can be allocated. -/
  room : ∀ q∈elf.programHeaders, ∀ r∈elf.programHeaders, q.spans=true → r.spans=true →
    fileEnd q≤r.paddr.toNat+maxAlloc
  /-- A segment without memory starts behind the start of one that has memory, and ends in
  front of the end of one, when the source of every segment up to it is in the file. -/
  place : ∀ before p rest, elf.programHeaders=before++p::rest → p.loads=true → p.memsz=0 →
    (∀ q∈before, q.loads=true → InFile bytes q) →
      (∃ r∈elf.programHeaders, r.spans=true ∧ r.paddr.toNat≤p.paddr.toNat) ∧
        (InFile bytes p → ∃ r∈elf.programHeaders, r.spans=true ∧
          fileEnd p≤fileEnd r)

/-- The byte that is left at an address is that of the last segment there. -/
theorem loadedMemory_eq (bytes : Bytes) (segments : List ProgramHeader) (addr : ℕ) :
    loadedMemory bytes segments addr=loadedByte bytes segments addr := by
  induction segments using List.reverseRecOn with
  | nil => rfl
  | append_singleton init p ih =>
    have hstep : loadedMemory bytes (init++[p]) addr=
        writeSegment bytes (loadedMemory bytes init) p addr := by
      rw [loadedMemory,List.foldl_append]
      rfl
    rw [hstep,loadedByte,List.reverse_append,List.reverse_singleton,List.singleton_append,
      List.find?_cons]
    unfold writeSegment
    cases hc : p.covers addr with
    | true => rfl
    | false =>
      rw [ih]
      rfl

/-- One more segment that counts moves the bounds of the span. -/
theorem spanStep_ok {s t : ElfSpan} {p : ProgramHeader} (h : spanStep s p=.ok t) :
    (∀ a, a≤t.minPaddr ↔ a≤ s.minPaddr ∧ (p.spans=true → a≤p.paddr.toNat)) ∧
      (∀ b, t.maxFileEnd≤b ↔ s.maxFileEnd≤b ∧ (p.spans=true → fileEnd p≤b)) ∧
      ∀ b, t.maxMemEnd≤b ↔ s.maxMemEnd≤b ∧ (p.spans=true → memEnd p≤b) := by
  unfold spanStep at h
  split at h
  · rename_i hspans
    obtain ⟨fileSum,hfile,h⟩ := bind_ok.mp h
    obtain ⟨memSum,hmem,h⟩ := bind_ok.mp h
    cases h
    obtain ⟨rfl,-⟩ := addWord_some.mp (okOr_ok.mp hfile)
    obtain ⟨rfl,-⟩ := addWord_some.mp (okOr_ok.mp hmem)
    simp only [hspans,forall_const,fileEnd,memEnd]
    exact ⟨fun a => le_min_iff,fun b => max_le_iff,fun b => max_le_iff⟩
  · rename_i hspans
    cases h
    simp [hspans]

/-- The bounds of the span after all segments. -/
theorem spanLoop_ok {segments : List ProgramHeader} {s t : ElfSpan}
    (h : spanLoop segments s=.ok t) :
    (∀ a, a≤t.minPaddr ↔ a≤ s.minPaddr ∧ ∀ p∈segments, p.spans=true → a≤p.paddr.toNat) ∧
      (∀ b, t.maxFileEnd≤b ↔
        s.maxFileEnd≤b ∧ ∀ p∈segments, p.spans=true → fileEnd p≤b) ∧
      ∀ b, t.maxMemEnd≤b ↔
        s.maxMemEnd≤b ∧ ∀ p∈segments, p.spans=true → memEnd p≤b := by
  induction segments generalizing s with
  | nil =>
    cases h
    simp
  | cons p rest ih =>
    obtain ⟨u,hstep,h⟩ := bind_ok.mp h
    obtain ⟨hmin,hfile,hmem⟩ := spanStep_ok hstep
    obtain ⟨hmin',hfile',hmem'⟩ := ih h
    simp only [List.forall_mem_cons]
    refine ⟨fun a => ?_,fun b => ?_,fun b => ?_⟩
    · rw [hmin',hmin,and_assoc]
    · rw [hfile',hfile,and_assoc]
    · rw [hmem',hmem,and_assoc]

/-- The least value above which the segments are is that of one of them. -/
theorem isGreatest_of_bound {elf : Elf} {f : ProgramHeader → ℕ} {m : ℕ} (hne : (spanned elf f).Nonempty)
    (h : ∀ b, m≤b ↔ ∀ p∈elf.programHeaders, p.spans=true → f p≤b) : IsGreatest (spanned elf f) m := by
  have hupper := (h m).mp le_rfl
  have hmem : m∈spanned elf f := by
    by_contra hnot
    obtain ⟨n,p,hp,hspans,rfl⟩ := hne
    have hlt : ∀ q∈elf.programHeaders, q.spans=true → f q≤ m-1 := by
      intro q hq hs
      have hle := hupper q hq hs
      have hneq : f q≠m := fun heq => hnot ⟨q,hq,hs,heq⟩
      omega
    have hle := (h _).mpr hlt
    have hp' := hupper p hp hspans
    have hneq : f p≠m := fun heq => hnot ⟨p,hp,hspans,heq⟩
    omega
  exact ⟨hmem,fun n ⟨p,hp,hs,hn⟩ => hn ▸ hupper p hp hs⟩

/-- The span is from the lowest address to the highest ends of the segments that
count. -/
theorem elfSpan_ok {elf : Elf} {span : ElfSpan} (h : elfSpan elf=.ok span) :
    IsLeast (spanned elf fun p => p.paddr.toNat) span.minPaddr ∧
      IsGreatest (spanned elf fileEnd) span.maxFileEnd ∧
      IsGreatest (spanned elf memEnd) span.maxMemEnd := by
  obtain ⟨span',hloop,h⟩ := bind_ok.mp h
  split at h
  · rename_i hany
    cases h
    obtain ⟨p,hp,hspans⟩ := List.any_eq_true.mp hany
    obtain ⟨hmin,hfile,hmem⟩ := spanLoop_ok hloop
    have hlower := ((hmin _).mp le_rfl).2
    refine ⟨⟨?_,fun n ⟨q,hq,hs,hn⟩ => hn ▸ hlower q hq hs⟩,
      isGreatest_of_bound ⟨_,p,hp,hspans,rfl⟩ fun b => ?_,
      isGreatest_of_bound ⟨_,p,hp,hspans,rfl⟩ fun b => ?_⟩
    · by_contra hnot
      have hlt : ∀ q∈elf.programHeaders, q.spans=true → span.minPaddr+1≤q.paddr.toNat := by
        intro q hq hs
        have hle := hlower q hq hs
        have hneq : q.paddr.toNat≠span.minPaddr := fun heq => hnot ⟨q,hq,hs,heq⟩
        omega
      have hmax := p.paddr.toNat_lt
      have hp' := hlt p hp hspans
      have hle := (hmin (span.minPaddr+1)).mpr ⟨by dsimp only; omega,hlt⟩
      omega
    · rw [hfile]
      exact and_iff_right (Nat.zero_le b)
    · rw [hmem]
      exact and_iff_right (Nat.zero_le b)
  · exact absurd h fail_ne_ok

/-- The content of a string ends in it. -/
theorem contentEnd_le (image : Bytes) : contentEnd image≤ image.length := by
  have hsub : (image.reverse.dropWhile fun b => decide (b=0)).Sublist image.reverse :=
    List.dropWhile_sublist _
  have hle := hsub.length_le
  rwa [List.length_reverse] at hle

/-- Behind its content a string is zero. -/
theorem take_zeros {image : Bytes} {k : ℕ} (h : contentEnd image≤k) :
    image.take k++zeros (image.length-k)=image := by
  have hzero : image.drop k=zeros (image.length-k) := by
    refine List.eq_replicate_iff.mpr ⟨List.length_drop,fun b hb => ?_⟩
    obtain ⟨i,hi⟩ := List.getElem?_of_mem hb
    rw [List.getElem?_drop] at hi
    by_contra hne
    have hlt := lt_contentEnd.mpr ⟨k+i,Nat.le_add_right k i,b,hi,hne⟩
    omega
  rw [←hzero,List.take_append_drop]

/-- The flat image with zeros behind it is what the segments leave in memory, in the span
of those that count, and no more than the last page with contents. -/
theorem elfLoadImage_flat {elfParse : Bytes → Option Elf} {bytes image : Bytes} {elf : Elf}
    (helf : elfParse bytes=some elf) (h : elfLoadImage elfParse bytes=.ok image) :
    ∃ lo hi whole, IsLeast (spanned elf fun p => p.paddr.toNat) lo ∧
      IsGreatest (spanned elf fileEnd) hi ∧ lo≤hi ∧ whole.length=hi-lo ∧
      (∀ i < hi-lo, whole[i]?=some (loadedMemory bytes elf.programHeaders (lo+i))) ∧
      image++zeros (hi-lo-image.length)=whole ∧
      image.length=min (hi-lo) (nextPage (contentEnd whole)) := by
  obtain ⟨elf',helf',h⟩ := bind_ok.mp h
  obtain rfl : elf=elf' := Option.some.inj (helf.symm.trans (okOr_ok.mp helf'))
  obtain ⟨span,hspan,h⟩ := bind_ok.mp h
  obtain ⟨len,hlen,h⟩ := bind_ok.mp h
  obtain ⟨hle,rfl⟩ := subWord_some.mp (unwrap_ok.mp hlen)
  obtain ⟨hleast,hgreatest,-⟩ := elfSpan_ok hspan
  split at h
  · cases h
  · obtain ⟨whole,hwhole,h⟩ := bind_ok.mp h
    cases h
    obtain ⟨hsize,hbyte⟩ := loadSegments_ok hwhole
    rw [length_zeros] at hsize hbyte
    have hend := contentEnd_le whole
    have hpage : contentEnd whole≤nextPage (contentEnd whole) := by
      unfold nextPage
      omega
    refine ⟨span.minPaddr,span.maxFileEnd,whole,hleast,hgreatest,hle,hsize,fun i hi => ?_,?_,?_⟩
    · have hzero : (zeros (span.maxFileEnd-span.minPaddr))[i]?=some 0 := by
        rw [zeros,List.getElem?_replicate,if_pos hi]
      rw [hbyte i hi,loadedMemory_eq,loadedByte,hzero]
      cases elf.programHeaders.reverse.find? (·.covers (span.minPaddr+i)) <;> rfl
    · have hcut : (whole.take (min (nextPage (contentEnd whole)) whole.length)).length=
          min (nextPage (contentEnd whole)) whole.length := by
        rw [List.length_take,min_assoc,min_self]
      rw [hcut,←hsize]
      exact take_zeros (le_min hpage hend)
    · rw [List.length_take,min_assoc,min_self,hsize,min_comm]

/-- Finding the span does not panic. -/
theorem noPanic_elfSpan (elf : Elf) : NoPanic (elfSpan elf) := by
  have hstep : ∀ s p, NoPanic (spanStep s p) := by
    intro s p
    unfold spanStep
    exact ((noPanic_okOr _ _).bind fun _ _ => (noPanic_okOr _ _).bind fun _ _ =>
      noPanic_ok _).ite (noPanic_ok _)
  have hloop : ∀ segments s, NoPanic (spanLoop segments s) := by
    intro segments
    induction segments with
    | nil => exact fun s => noPanic_ok s
    | cons p rest ih => exact fun s => (hstep s p).bind fun t _ => ih t
  exact (hloop _ _).bind fun _ _ => (noPanic_ok _).ite (noPanic_fail _)

/-- Detecting the architecture does not panic. -/
theorem noPanic_parse (elfParse : Bytes → Option Elf) (bytes : Bytes) :
    NoPanic (parse elfParse bytes) := by
  have hvmlinux : ∀ elf, NoPanic (parseVmlinux elf) := by
    intro elf
    unfold parseVmlinux
    refine (noPanic_fail _).ite ((noPanic_elfSpan elf).bind fun span hspan => ?_)
    obtain ⟨⟨⟨p,hp,hspans,hmin⟩,-⟩,-,-,hmax⟩ := elfSpan_ok hspan
    have hle : span.minPaddr≤ span.maxMemEnd := by
      have hend := hmax ⟨p,hp,hspans,rfl⟩
      dsimp only [memEnd] at hmin hend
      omega
    exact (noPanic_unwrap.mpr ⟨_,if_pos hle⟩).bind fun _ _ =>
      (noPanic_okOr _ _).bind fun _ _ => noPanic_ok _
  unfold parse
  exact (noPanic_fail _).ite (((noPanic_okOr _ _).bind fun elf _ => hvmlinux elf).ite
    ((noPanic_ok _).ite (noPanic_fail _)))

section
variable {bytes : Bytes} {lo : ℕ}

/-- The four ways to copy a segment that has bytes in the file. -/
theorem loadSegment_eq {image : Bytes} {p : ProgramHeader} (himage : image.length<2^64)
    (hloads : p.loads=true) :
    loadSegment bytes lo image p=
      if p.paddr.toNat<lo then .error .panic
      else if InFile bytes p then
        if lo+image.length<fileEnd p then .error .panic
        else .ok (overwrite (p.paddr.toNat-lo) (slice p.offset.toNat p.filesz.toNat bytes) image)
      else fail (.elfMalformed "p_offset + p_filesz out of file bounds") := by
  unfold loadSegment
  rw [if_pos hloads]
  by_cases hle : p.paddr.toNat<lo
  · have hdst : subWord p.paddr.toNat lo=none := if_neg (by omega)
    rw [if_pos hle,unwrap_bind_none hdst]
  · have hdst : subWord p.paddr.toNat lo=some (p.paddr.toNat-lo) := if_pos (by omega)
    rw [if_neg hle,unwrap_bind hdst]
    by_cases hin : InFile bytes p
    · have hsrc : (addWord 64 p.offset.toNat p.filesz.toNat).filter
          (fun e => decide (e≤bytes.length))=some (p.offset.toNat+p.filesz.toNat) :=
        Option.filter_eq_some_iff.mpr ⟨addWord_some.mpr ⟨rfl,hin.1⟩,decide_eq_true hin.2⟩
      rw [if_pos hin,ok_bind (okOr_ok.mpr hsrc),Nat.add_sub_cancel_left]
      by_cases hend : lo+image.length<fileEnd p
      · rw [if_pos hend]
        unfold fileEnd at hend
        unfold addWord
        split
        · exact if_pos (by omega)
        · rfl
      · rw [if_neg hend]
        unfold fileEnd at hend
        have hdstEnd : addWord 64 (p.paddr.toNat-lo) p.filesz.toNat=
            some (p.paddr.toNat-lo+p.filesz.toNat) := addWord_some.mpr ⟨rfl,by omega⟩
        rw [unwrap_bind hdstEnd]
        exact if_neg (by omega)
    · have hsrc : (addWord 64 p.offset.toNat p.filesz.toNat).filter
          (fun e => decide (e≤bytes.length))=none := by
        refine Option.eq_none_iff_forall_ne_some.mpr fun e he => hin ?_
        obtain ⟨hsum,hle⟩ := Option.filter_eq_some_iff.mp he
        obtain ⟨rfl,hlt⟩ := addWord_some.mp hsum
        exact ⟨hlt,of_decide_eq_true hle⟩
      rw [if_neg hin,hsrc]
      rfl

/-- A segment is copied without a panic when it starts in the image, and ends there unless
its source is not in the file. -/
theorem noPanic_loadSegment {image : Bytes} {p : ProgramHeader} (himage : image.length<2^64)
    (hloads : p.loads=true) :
    NoPanic (loadSegment bytes lo image p) ↔
      lo≤p.paddr.toNat ∧ (InFile bytes p → fileEnd p≤lo+image.length) := by
  rw [loadSegment_eq himage hloads]
  split
  · exact iff_of_false (fun h => h rfl) fun h => by omega
  · by_cases hin : InFile bytes p
    · rw [if_pos hin]
      split
      · exact iff_of_false (fun h => h rfl) fun h => absurd (h.2 hin) (by omega)
      · exact iff_of_true (noPanic_ok _) ⟨by omega,fun _ => by omega⟩
    · rw [if_neg hin]
      exact iff_of_true (noPanic_fail _) ⟨by omega,fun h => absurd h hin⟩

/-- A segment is copied only from a source in the file. -/
theorem loadSegment_inFile {image image' : Bytes} {p : ProgramHeader}
    (himage : image.length<2^64) (hloads : p.loads=true)
    (h : loadSegment bytes lo image p=.ok image') : InFile bytes p := by
  by_contra hin
  rw [loadSegment_eq himage hloads,if_neg hin] at h
  split at h
  · cases h
  · exact fail_ne_ok h

/-- A segment whose source is in the file is copied when that does not panic. -/
theorem exists_loadSegment {image : Bytes} {p : ProgramHeader} (himage : image.length<2^64)
    (hp : NoPanic (loadSegment bytes lo image p)) (hin : p.loads=true → InFile bytes p) :
    ∃ image', loadSegment bytes lo image p=.ok image' := by
  by_cases hloads : p.loads=true
  · obtain ⟨hle,hend⟩ := (noPanic_loadSegment himage hloads).mp hp
    have hend := hend (hin hloads)
    rw [loadSegment_eq himage hloads,if_neg (by omega),if_pos (hin hloads),if_neg (by omega)]
    exact ⟨_,rfl⟩
  · rw [loadSegment,if_neg hloads]
    exact ⟨_,rfl⟩

/-- The segments are copied without a panic when every one of them has its place that is
reached, which is up to the first one whose source is not in the file. -/
theorem noPanic_loadSegments {segments : List ProgramHeader} {image : Bytes}
    (himage : image.length<2^64) :
    NoPanic (loadSegments bytes lo segments image) ↔
      ∀ before p rest, segments=before++p::rest → p.loads=true →
        (∀ q∈before, q.loads=true → InFile bytes q) →
          lo≤p.paddr.toNat ∧ (InFile bytes p → fileEnd p≤lo+image.length) := by
  induction segments generalizing image with
  | nil => exact iff_of_true (noPanic_ok _) fun before p rest h => by simp at h
  | cons p rest ih =>
    rw [loadSegments,noPanic_bind]
    constructor
    · rintro ⟨hp,hrest⟩ before q after hsplit hq hbefore
      cases before with
      | nil =>
        obtain ⟨rfl,rfl⟩ := List.cons.inj hsplit
        exact (noPanic_loadSegment himage hq).mp hp
      | cons r before =>
        obtain ⟨rfl,rfl⟩ := List.cons.inj hsplit
        obtain ⟨hr,hbefore⟩ := List.forall_mem_cons.mp hbefore
        obtain ⟨image',himage'⟩ := exists_loadSegment himage hp hr
        have hsize := (loadSegment_ok himage').1
        have hsafe := (ih (by rw [hsize]; exact himage)).mp (hrest image' himage')
        rw [hsize] at hsafe
        exact hsafe before q after rfl hq hbefore
    · intro h
      have hp : NoPanic (loadSegment bytes lo image p) := by
        by_cases hloads : p.loads=true
        · exact (noPanic_loadSegment himage hloads).mpr (h [] p rest rfl hloads (by simp))
        · rw [loadSegment,if_neg hloads]
          exact noPanic_ok _
      refine ⟨hp,fun image' himage' => ?_⟩
      have hsize := (loadSegment_ok himage').1
      refine (ih (by rw [hsize]; exact himage)).mpr fun before q after hsplit hq hbefore => ?_
      rw [hsize]
      refine h (p::before) q after (by rw [hsplit]; rfl) hq (List.forall_mem_cons.mpr ⟨?_,hbefore⟩)
      exact fun hloads => loadSegment_inFile himage hloads himage'

end

/-- An accepted ELF kernel has a span. -/
theorem exists_elfSpan {elfParse : Bytes → Option Elf} {bytes : Bytes} {elf : Elf}
    {parsed : Parsed} (helf : elfParse bytes=some elf) (hmagic : slice 0 4 bytes=elfMagic)
    (hparse : parse elfParse bytes=.ok parsed) : ∃ span, elfSpan elf=.ok span := by
  unfold parse at hparse
  rw [if_pos hmagic] at hparse
  split at hparse
  · exact absurd hparse fail_ne_ok
  · obtain ⟨elf',helf',hparse⟩ := bind_ok.mp hparse
    obtain rfl : elf=elf' := Option.some.inj (helf.symm.trans (okOr_ok.mp helf'))
    unfold parseVmlinux at hparse
    split at hparse
    · exact absurd hparse fail_ne_ok
    · obtain ⟨span,hspan,-⟩ := bind_ok.mp hparse
      exact ⟨span,hspan⟩

/-- The span can be allocated exactly when no two segments that count are too far apart. -/
theorem span_room {elf : Elf} {span : ElfSpan} (h : elfSpan elf=.ok span) :
    span.maxFileEnd-span.minPaddr≤ maxAlloc ↔ ∀ q∈elf.programHeaders,
      ∀ r∈elf.programHeaders, q.spans=true → r.spans=true → fileEnd q≤r.paddr.toNat+maxAlloc := by
  obtain ⟨⟨⟨first,hfirst,hfirstSpans,hlo⟩,hleast⟩,⟨⟨last,hlast,hlastSpans,hhi⟩,hgreatest⟩,-⟩ :=
    elfSpan_ok h
  dsimp only at hlo
  constructor
  · intro hroom q hq r hr hqs hrs
    have hqend := hgreatest ⟨q,hq,hqs,rfl⟩
    have hrlow := hleast ⟨r,hr,hrs,rfl⟩
    dsimp only at hrlow
    omega
  · intro hall
    have hmost := hall last hlast first hfirst hlastSpans hfirstSpans
    omega

/-- An accepted ELF kernel is loaded without a panic exactly when the file contents of its
segments have a place. -/
theorem loading_noPanic_iff {elfParse : Bytes → Option Elf} {bytes : Bytes} {elf : Elf}
    {parsed : Parsed} (helf : elfParse bytes=some elf) (hmagic : slice 0 4 bytes=elfMagic)
    (hparse : parse elfParse bytes=.ok parsed) :
    NoPanic (elfSpan elf) ∧ NoPanic (elfLoadImage elfParse bytes) ↔ Loadable elf bytes := by
  obtain ⟨span,hspan⟩ := exists_elfSpan helf hmagic hparse
  obtain ⟨⟨⟨first,hfirst,hfirstSpans,hlo⟩,hleast⟩,⟨⟨last,hlast,hlastSpans,hhi⟩,hgreatest⟩,-⟩ :=
    elfSpan_ok hspan
  have hle : span.minPaddr≤ span.maxFileEnd := by
    have hend := hgreatest ⟨first,hfirst,hfirstSpans,rfl⟩
    dsimp only [fileEnd] at hlo hend
    omega
  have hlen : subWord span.maxFileEnd span.minPaddr=some (span.maxFileEnd-span.minPaddr) :=
    if_pos hle
  have hroom := span_room hspan
  rw [and_iff_right (noPanic_elfSpan elf),elfLoadImage,parseElf,ok_bind (okOr_ok.mpr helf),
    ok_bind hspan,unwrap_bind hlen]
  by_cases hmax : maxAlloc<span.maxFileEnd-span.minPaddr
  · rw [if_pos hmax]
    exact iff_of_false (fun h => h rfl) fun h => absurd (hroom.mpr h.room) (by omega)
  · have himage : (zeros (span.maxFileEnd-span.minPaddr)).length<2^64 := by
      rw [length_zeros]
      unfold maxAlloc at hmax
      omega
    have hend : span.minPaddr+(span.maxFileEnd-span.minPaddr)=span.maxFileEnd := by omega
    rw [if_neg hmax,noPanic_bind,and_iff_left fun _ _ => noPanic_ok _,noPanic_loadSegments himage,
      length_zeros,hend]
    constructor
    · refine fun h => ⟨hroom.mp (by omega),fun before p rest hsplit hloads _ hbefore => ?_⟩
      obtain ⟨hlow,hhigh⟩ := h before p rest hsplit hloads hbefore
      refine ⟨⟨first,hfirst,hfirstSpans,hlo.trans_le hlow⟩,fun hin => ?_⟩
      exact ⟨last,hlast,hlastSpans,(hhigh hin).trans hhi.ge⟩
    · intro h before p rest hsplit hloads hbefore
      by_cases hmem : p.memsz=0
      · obtain ⟨⟨r,hr,hrs,hlow⟩,hhigh⟩ := h.place before p rest hsplit hloads hmem hbefore
        refine ⟨(hleast ⟨r,hr,hrs,rfl⟩).trans hlow,fun hin => ?_⟩
        obtain ⟨t,ht,hts,htop⟩ := hhigh hin
        exact htop.trans (hgreatest ⟨t,ht,hts,rfl⟩)
      · have hp : p∈elf.programHeaders := by
          rw [hsplit]
          exact List.mem_append_right _ List.mem_cons_self
        have hspans : p.spans=true := by
          unfold ProgramHeader.loads at hloads
          unfold ProgramHeader.spans
          simp_all
        exact ⟨hleast ⟨p,hp,hspans,rfl⟩,fun _ => hgreatest ⟨p,hp,hspans,rfl⟩⟩

/-- An ELF header for program headers and no sections. -/
def sampleHeader (count : ℕ) : Bytes :=
  elfMagic++[2,1,1]++zeros 9++leBytes 2 2++leBytes 2 62++leBytes 4 1++leBytes 8 0x1000000++
    leBytes 8 64++leBytes 8 0++leBytes 4 0++leBytes 2 64++leBytes 2 56++leBytes 2 count++
    leBytes 2 0++leBytes 2 0++leBytes 2 0

/-- A program header in the file. -/
def sampleProgramHeader (p : ProgramHeader) : Bytes :=
  leBytes 4 p.type.toNat++leBytes 4 5++leBytes 8 p.offset.toNat++leBytes 8 p.vaddr.toNat++
    leBytes 8 p.paddr.toNat++leBytes 8 p.filesz.toNat++leBytes 8 p.memsz.toNat++leBytes 8 0x1000

/-- Code at 16 MiB. -/
def codeSegment : ProgramHeader := ⟨ptLoad,176,0xffffffff81000000,0x1000000,8,0x2000⟩

/-- Bytes at an address, for no memory. -/
def hollowSegment (paddr : UInt64) : ProgramHeader := ⟨ptLoad,180,0,paddr,4,0⟩

/-- A kernel with both. -/
def sampleFile (paddr : UInt64) : Bytes :=
  sampleHeader 2++sampleProgramHeader codeSegment++sampleProgramHeader (hollowSegment paddr)++
    [1,2,3,4,5,6,7,8]

/-- Its parsed headers. -/
def sampleElf (paddr : UInt64) : Elf :=
  ⟨true,emX86_64,0x1000000,0,0,0,[codeSegment,hollowSegment paddr],[],[],[]⟩

/-- How the kernel is parsed. -/
def sampleParsed : Parsed := ⟨.x86_64,none,some ⟨0x2000,0x1000000,0⟩⟩

/-- The later segment is written over the code, and the image holds both. -/
theorem elfLoadImage_flat_sample :
    ∃ lo hi whole, IsLeast (spanned (sampleElf 0x1000002) fun p => p.paddr.toNat) lo ∧
      IsGreatest (spanned (sampleElf 0x1000002) fileEnd) hi ∧ lo≤hi ∧ whole.length=hi-lo ∧
      (∀ i < hi-lo, whole[i]?=
        some (loadedMemory (sampleFile 0x1000002) (sampleElf 0x1000002).programHeaders (lo+i))) ∧
      [1,2,5,6,7,8,7,8]++zeros (hi-lo-8)=whole ∧
      8=min (hi-lo) (nextPage (contentEnd whole)) := by
  have hload : elfLoadImage (fun _ => some (sampleElf 0x1000002)) (sampleFile 0x1000002)=
      .ok [1,2,5,6,7,8,7,8] := by decide +kernel
  exact elfLoadImage_flat rfl hload

/-- The segment in the code is loaded without a panic. -/
theorem loading_noPanic_iff_sample : Loadable (sampleElf 0x1000002) (sampleFile 0x1000002) := by
  have hparse : parse (fun _ => some (sampleElf 0x1000002)) (sampleFile 0x1000002)=
      .ok sampleParsed := by decide +kernel
  refine (loading_noPanic_iff rfl (by decide) hparse).mp ⟨?_,?_⟩
  · exact noPanic_elfSpan _
  · exact fun h => absurd h (by decide +kernel)

/-- A kernel is accepted with a segment of no memory below the code, and loading it
panics. -/
theorem hollowSegment_panics :
    parse (fun _ => some (sampleElf 0)) (sampleFile 0)=.ok sampleParsed ∧
      slice 0 4 (sampleFile 0)=elfMagic ∧
      elfLoadImage (fun _ => some (sampleElf 0)) (sampleFile 0)=.error .panic := by
  refine ⟨?_,?_,?_⟩
  all_goals decide +kernel

end Arma.Kernel.Loading
