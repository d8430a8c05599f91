import Mathlib.Data.List.TakeWhile
import Arma.Initrd.Newc

/-!
# What is accepted as an initramfs

A stream is a sequence of archives with zeros between and behind them; an archive
is a run of records up to its trailer. The validator accepts exactly the streams.
It measures the padding of records from the start of their archive, so records
are aligned in the stream as long as the zeros between archives are whole words.
-/

namespace Arma.Initrd.Grammar

open Base.ByteString Base.Frames Base.Text Newc

/-- The bytes of an archive from an offset on: records up to the first one named
`TRAILER!!!`, which has no data. -/
inductive ArchiveFrom : ℕ → Bytes → Prop
  /-- The trailer. -/
  | trailer {o : ℕ} {r : Record} {w : Bytes} (hrecord : RecordAt o r w)
    (hname : r.name=utf8 trailerName++[0]) (hsize : r.data=[]) : ArchiveFrom o w
  /-- Another record, and what follows it. -/
  | record {o : ℕ} {r : Record} {w rest : Bytes} (hrecord : RecordAt o r w)
    (hname : r.name≠utf8 trailerName++[0]) (hrest : ArchiveFrom (o+w.length) rest) :
    ArchiveFrom o (w++rest)

/-- An archive starts at its own offset zero. -/
def Archive (w : Bytes) : Prop := ArchiveFrom 0 w

/-- One or more archives, each with any number of zeros behind it. -/
inductive Stream : Bytes → Prop
  /-- The last archive. -/
  | last {w : Bytes} (n : ℕ) (harchive : Archive w) : Stream (w++zeros n)
  /-- An archive with others behind it. -/
  | more {w rest : Bytes} (n : ℕ) (harchive : Archive w) (hrest : Stream rest) :
    Stream (w++zeros n++rest)

/-- The trailer is told by its name. -/
theorem isTrailer_iff (r : Record) : r.isTrailer=true ↔ r.name=utf8 trailerName++[0] := beq_iff_eq

/-- Where a record starts, up to whole words, does not matter to it. -/
theorem recordAt_shift {o o' : ℕ} {r : Record} {w : Bytes} (h : RecordAt o r w) (ho : 4∣o)
    (ho' : 4∣o') : RecordAt o' r w := by
  obtain ⟨digits,gap,tail,hw,hfields,hname,⟨hgap,hgapDvd⟩,htail,htailDvd⟩ := h
  exact ⟨digits,gap,tail,hw,hfields,hname,⟨hgap,by omega⟩,htail,by omega⟩

/-- A record ends at a whole word. -/
theorem recordAt_stop {o : ℕ} {r : Record} {w : Bytes} (h : RecordAt o r w) : 4∣o+w.length := by
  obtain ⟨_,_,_,_,_,_,_,_,hdvd⟩ := h
  exact hdvd

/-- The size in the header is that of the data. -/
theorem recordAt_size {o : ℕ} {r : Record} {w : Bytes} (h : RecordAt o r w) :
    r.fields.getD 6 0=r.data.length := by
  obtain ⟨_,_,_,_,_,⟨_,hsize,_⟩,_⟩ := h
  exact hsize

/-- A record begins with a digit, which is no zero byte. -/
theorem recordAt_skip {o : ℕ} {r : Record} {w : Bytes} (h : RecordAt o r w) (rest : Bytes) :
    skipPadding (w++rest)=w++rest ∧ w≠[] := by
  obtain ⟨digits,gap,tail,rfl,-⟩ := h
  constructor
  · rfl
  · simp [newcMagic]

/-- So does an archive. -/
theorem ArchiveFrom.skip {o : ℕ} {w : Bytes} (h : ArchiveFrom o w) (rest : Bytes) :
    skipPadding (w++rest)=w++rest ∧ w≠[] := by
  cases h with
  | trailer hrecord _ _ => exact recordAt_skip hrecord rest
  | @record _ _ v tail hrecord _ _ =>
    have hskip := recordAt_skip hrecord (tail++rest)
    rw [List.append_assoc]
    exact ⟨hskip.1,by simp [hskip.2]⟩

/-- And a stream. -/
theorem Stream.skip {s : Bytes} (h : Stream s) : skipPadding s=s ∧ s≠[] := by
  cases h with
  | @last w n harchive =>
    have hskip := ArchiveFrom.skip harchive (zeros n)
    exact ⟨hskip.1,by simp [hskip.2]⟩
  | @more w rest n harchive _ =>
    have hskip := ArchiveFrom.skip harchive (zeros n++rest)
    rw [List.append_assoc]
    exact ⟨hskip.1,by simp [hskip.2]⟩

/-- Zeros are skipped. -/
theorem skipPadding_zeros (n : ℕ) (rest : Bytes) :
    skipPadding (zeros n++rest)=skipPadding rest := by
  induction n with
  | zero => rfl
  | succ n ih => exact ih

/-- What is skipped is zeros. -/
theorem exists_padding (bytes : Bytes) : ∃ n, bytes=zeros n++skipPadding bytes := by
  refine ⟨(bytes.takeWhile (· == 0)).length,?_⟩
  have hzeros : bytes.takeWhile (· == 0)=zeros (bytes.takeWhile (· == 0)).length := by
    refine List.eq_replicate_of_mem fun b hb => ?_
    have hall := List.mem_takeWhile_imp hb
    rwa [beq_iff_eq] at hall
  have hsplit := List.takeWhile_append_dropWhile (p := (· == (0 : UInt8))) (l := bytes)
  rw [←hzeros]
  exact hsplit.symm

/-- Validation begins with the record at the start. -/
theorem validateCpio_next {bytes rest : Bytes} {r : Record} (h : nextRecord bytes=some (r,rest)) :
    validateCpio bytes=
      if r.isTrailer=true then
        if r.fields.getD 6 0≠0 then none
        else if skipPadding rest=[] then some ()
        else validateCpio (skipPadding rest)
      else validateCpio rest := by
  rw [validateCpio]
  split
  · rename_i hnone
    rw [h] at hnone
    cases hnone
  · rename_i hsome
    rw [h] at hsome
    cases hsome
    rfl

/-- Without a record at the start nothing is accepted. -/
theorem validateCpio_none {bytes : Bytes} (h : nextRecord bytes=none) : validateCpio bytes=none := by
  rw [validateCpio]
  split
  · rfl
  · rename_i hsome
    rw [h] at hsome
    cases hsome

/-- The offset of an archive does not matter to it, up to whole words. -/
theorem ArchiveFrom.shift {o o' : ℕ} {w : Bytes} (h : ArchiveFrom o w) (ho : 4∣o) (ho' : 4∣o') :
    ArchiveFrom o' w := by
  induction h generalizing o' with
  | trailer hrecord hname hsize => exact .trailer (recordAt_shift hrecord ho ho') hname hsize
  | record hrecord hname _ ih =>
    have hshift := recordAt_shift hrecord ho ho'
    exact .record hshift hname (ih (recordAt_stop hrecord) (recordAt_stop hshift))

/-- Validation takes a whole archive away. -/
theorem ArchiveFrom.validate {o : ℕ} {w : Bytes} (h : ArchiveFrom o w) (ho : 4∣o) (rest : Bytes) :
    validateCpio (w++rest)=
      if skipPadding rest=[] then some () else validateCpio (skipPadding rest) := by
  induction h with
  | trailer hrecord hname hsize =>
    have hzero := recordAt_size hrecord
    rw [hsize,List.length_nil] at hzero
    rw [validateCpio_next (hrecord.frame ho rest),if_pos ((isTrailer_iff _).mpr hname),
      if_neg (not_not_intro hzero)]
  | record hrecord hname _ ih =>
    have hother := mt (isTrailer_iff _).mp hname
    rw [List.append_assoc,validateCpio_next (hrecord.frame ho _),if_neg hother,
      ih (recordAt_stop hrecord)]

/-- A stream is accepted. -/
theorem Stream.validate {s : Bytes} (h : Stream s) : validateCpio s=some () := by
  induction h with
  | last n harchive =>
    have hskip : skipPadding (zeros n)=[] := by
      rw [←List.append_nil (zeros n),skipPadding_zeros]
      rfl
    rw [ArchiveFrom.validate harchive (dvd_zero 4),if_pos hskip]
  | more n harchive hrest ih =>
    rw [List.append_assoc,ArchiveFrom.validate harchive (dvd_zero 4),skipPadding_zeros,
      hrest.skip.1,if_neg hrest.skip.2,ih]

/-- A record in front of a stream belongs to its first archive. -/
theorem Stream.cons {s w : Bytes} {r : Record} (h : Stream s) (hrecord : RecordAt 0 r w)
    (hname : r.name≠utf8 trailerName++[0]) : Stream (w++s) := by
  have hfirst : ∀ {v}, Archive v → Archive (w++v) := fun harchive =>
    .record hrecord hname (harchive.shift (dvd_zero 4) (recordAt_stop hrecord))
  cases h with
  | last n harchive =>
    rw [←List.append_assoc]
    exact .last n (hfirst harchive)
  | more n harchive hrest =>
    rw [←List.append_assoc,←List.append_assoc]
    exact .more n (hfirst harchive) hrest

/-- What is accepted is a stream. -/
theorem stream_of_validate {bytes : Bytes} (h : validateCpio bytes=some ()) : Stream bytes := by
  fun_induction validateCpio bytes with
  | case1 bytes hnone => cases h
  | case2 bytes r rest hnext htrailer hsize => cases h
  | case3 bytes r rest hnext htrailer hsize hend =>
    obtain ⟨w,rfl,hrecord⟩ := nextRecord_record hnext
    obtain ⟨n,hzeros⟩ := exists_padding rest
    rw [hzeros,hend,List.append_nil]
    refine .last n (.trailer hrecord ((isTrailer_iff r).mp htrailer) ?_)
    exact List.length_eq_zero_iff.mp ((recordAt_size hrecord).symm.trans (not_not.mp hsize))
  | case4 bytes r rest hnext htrailer hsize hmore ih =>
    obtain ⟨w,rfl,hrecord⟩ := nextRecord_record hnext
    obtain ⟨n,hzeros⟩ := exists_padding rest
    rw [hzeros,←List.append_assoc]
    refine .more n (.trailer hrecord ((isTrailer_iff r).mp htrailer) ?_) (ih h)
    exact List.length_eq_zero_iff.mp ((recordAt_size hrecord).symm.trans (not_not.mp hsize))
  | case5 bytes r rest hnext htrailer ih =>
    obtain ⟨w,rfl,hrecord⟩ := nextRecord_record hnext
    exact (ih h).cons hrecord (mt (isTrailer_iff r).mpr htrailer)

/-- An archive that is cut is not accepted. -/
theorem ArchiveFrom.cut {o : ℕ} {w : Bytes} (h : ArchiveFrom o w) (ho : 4∣o) {k : ℕ}
    (hk : k<w.length) : validateCpio (w.take k)=none := by
  induction h generalizing k with
  | trailer hrecord _ _ => exact validateCpio_none ((hrecord.frame ho).cut nextRecord_framed hk)
  | @record o r w rest hrecord hname _ ih =>
    by_cases hfirst : k<w.length
    · rw [List.take_append_of_le_length hfirst.le]
      exact validateCpio_none ((hrecord.frame ho).cut nextRecord_framed hfirst)
    · rw [List.length_append] at hk
      have hsplit : (w++rest).take k=w++rest.take (k-w.length) := by
        rw [List.take_append,List.take_of_length_le (by omega)]
      rw [hsplit,validateCpio_next (hrecord.frame ho _),if_neg (mt (isTrailer_iff r).mp hname)]
      exact ih (recordAt_stop hrecord) (by omega)

/-- Streams are closed under concatenation. -/
theorem Stream.append {a b : Bytes} (ha : Stream a) (hb : Stream b) : Stream (a++b) := by
  induction ha with
  | last n harchive => exact .more n harchive hb
  | more n harchive _ ih =>
    rw [List.append_assoc]
    exact .more n harchive ih

/-- The validator accepts exactly the streams. An archive that is cut anywhere is
rejected, and two accepted strings are accepted behind each other. -/
theorem validateCpio_exact :
    (∀ bytes, validateCpio bytes=some () ↔ Stream bytes) ∧
      (∀ w, Archive w → ∀ k < w.length, validateCpio (w.take k)=none) ∧
      ∀ a b, validateCpio a=some () → validateCpio b=some () → validateCpio (a++b)=some () := by
  refine ⟨fun bytes => ⟨stream_of_validate,Stream.validate⟩,?_,?_⟩
  · intro w harchive k hk
    exact ArchiveFrom.cut harchive (dvd_zero 4) hk
  · intro a b ha hb
    exact ((stream_of_validate ha).append (stream_of_validate hb)).validate

/-- The shortest archive. -/
theorem archive_trailer : Archive (entryBytes trailer) :=
  .trailer (recordAt_entry trailer_fits) rfl rfl

/-- Cut in its header it is rejected, and twice in a row it is accepted. -/
theorem validateCpio_exact_sample :
    validateCpio ((entryBytes trailer).take 100)=none ∧
      validateCpio (entryBytes trailer++entryBytes trailer)=some () := by
  obtain ⟨hexact,hcut,happend⟩ := validateCpio_exact
  have hone : Stream (entryBytes trailer) := by
    have hlast := Stream.last 0 archive_trailer
    rwa [zeros,List.replicate_zero,List.append_nil] at hlast
  have hone := (hexact _).mpr hone
  exact ⟨hcut _ archive_trailer 100 (by decide +kernel),happend _ _ hone hone⟩

/-- The offsets in a stream at which the validator reads records, when it reads
the given bytes from offset `o` on. -/
def recordStarts (o : ℕ) (bytes : Bytes) : List ℕ :=
  match _h : nextRecord bytes with
  | none => []
  | some (r,rest) =>
    if r.isTrailer=true then
      if skipPadding rest=[] then [o]
      else o::recordStarts (o+(bytes.length-(skipPadding rest).length)) (skipPadding rest)
    else o::recordStarts (o+(bytes.length-rest.length)) rest
termination_by bytes.length
decreasing_by
  · have hlt := nextRecord_shrinks _h
    have hle := length_skipPadding rest
    omega
  · exact nextRecord_shrinks _h

/-- The numbers of zeros between an archive and the next one. -/
def gaps (bytes : Bytes) : List ℕ :=
  match _h : nextRecord bytes with
  | none => []
  | some (r,rest) =>
    if r.isTrailer=true then
      if skipPadding rest=[] then []
      else (rest.length-(skipPadding rest).length)::gaps (skipPadding rest)
    else gaps rest
termination_by bytes.length
decreasing_by
  · have hlt := nextRecord_shrinks _h
    have hle := length_skipPadding rest
    omega
  · exact nextRecord_shrinks _h

/-- The first record starts at the offset of the bytes. -/
theorem recordStarts_next {bytes rest : Bytes} {r : Record} (o : ℕ)
    (h : nextRecord bytes=some (r,rest)) :
    recordStarts o bytes=
      if r.isTrailer=true then
        if skipPadding rest=[] then [o]
        else o::recordStarts (o+(bytes.length-(skipPadding rest).length)) (skipPadding rest)
      else o::recordStarts (o+(bytes.length-rest.length)) rest := by
  rw [recordStarts]
  split
  · rename_i hnone
    rw [h] at hnone
    cases hnone
  · rename_i hsome
    rw [h] at hsome
    cases hsome
    rfl

/-- There is a gap only behind a trailer. -/
theorem gaps_next {bytes rest : Bytes} {r : Record} (h : nextRecord bytes=some (r,rest)) :
    gaps bytes=
      if r.isTrailer=true then
        if skipPadding rest=[] then []
        else (rest.length-(skipPadding rest).length)::gaps (skipPadding rest)
      else gaps rest := by
  rw [gaps]
  split
  · rename_i hnone
    rw [h] at hnone
    cases hnone
  · rename_i hsome
    rw [h] at hsome
    cases hsome
    rfl

/-- A record that is read takes whole words away. -/
theorem nextRecord_words {bytes rest : Bytes} {r : Record} (h : nextRecord bytes=some (r,rest)) :
    rest.length ≤ bytes.length ∧ 4∣bytes.length-rest.length := by
  obtain ⟨w,rfl,hrecord⟩ := nextRecord_record h
  have hstop := recordAt_stop hrecord
  rw [List.length_append]
  constructor <;> omega

/-- In accepted bytes all records start at multiples of four exactly when the
first one does and all gaps are multiples of four. -/
theorem recordStarts_aligned {bytes : Bytes} (h : validateCpio bytes=some ()) (o : ℕ) :
    (∀ x∈recordStarts o bytes, 4∣x) ↔ 4∣o ∧ ∀ g∈gaps bytes, 4∣g := by
  fun_induction validateCpio bytes generalizing o with
  | case1 bytes hnone => cases h
  | case2 bytes r rest hnext htrailer hsize => cases h
  | case3 bytes r rest hnext htrailer hsize hend =>
    rw [recordStarts_next o hnext,gaps_next hnext,if_pos htrailer,if_pos hend,if_pos htrailer,
      if_pos hend]
    simp
  | case4 bytes r rest hnext htrailer hsize hmore ih =>
    obtain ⟨hle,hwords⟩ := nextRecord_words hnext
    have hskip := length_skipPadding rest
    rw [recordStarts_next o hnext,gaps_next hnext,if_pos htrailer,if_neg hmore,if_pos htrailer,
      if_neg hmore,List.forall_mem_cons,List.forall_mem_cons,ih h]
    constructor
    · rintro ⟨ho,hnextStart,hgaps⟩
      exact ⟨ho,by omega,hgaps⟩
    · rintro ⟨ho,hgap,hgaps⟩
      exact ⟨ho,by omega,hgaps⟩
  | case5 bytes r rest hnext htrailer ih =>
    obtain ⟨hle,hwords⟩ := nextRecord_words hnext
    rw [recordStarts_next o hnext,gaps_next hnext,if_neg htrailer,if_neg htrailer,
      List.forall_mem_cons,ih h]
    constructor
    · rintro ⟨ho,-,hgaps⟩
      exact ⟨ho,hgaps⟩
    · rintro ⟨ho,hgaps⟩
      exact ⟨ho,by omega,hgaps⟩

/-- All records of an accepted stream start at multiples of four exactly when the
numbers of zeros between its archives are multiples of four. -/
theorem aligned_iff_gaps {bytes : Bytes} (h : validateCpio bytes=some ()) :
    (∀ o∈recordStarts 0 bytes, 4∣o) ↔ ∀ g∈gaps bytes, 4∣g := by
  rw [recordStarts_aligned h 0]
  exact and_iff_right (dvd_zero 4)

/-- Two trailers, with zeros between them. -/
def twoArchives (n : ℕ) : Bytes := entryBytes trailer++zeros n++entryBytes trailer

/-- They are accepted, and the second one starts behind the zeros. -/
theorem twoArchives_starts (n : ℕ) :
    validateCpio (twoArchives n)=some () ∧ recordStarts 0 (twoArchives n)=[0,124+n] ∧
      gaps (twoArchives n)=[n] := by
  have hstream : Stream (twoArchives n) := by
    have hlast := Stream.last 0 archive_trailer
    rw [zeros,List.replicate_zero,List.append_nil] at hlast
    exact .more n archive_trailer hlast
  have hfirst : nextRecord (twoArchives n)=
      some (trailer.record,zeros n++entryBytes trailer) := by
    rw [twoArchives,List.append_assoc]
    exact nextRecord_entry trailer_fits _
  have hsecond : nextRecord (entryBytes trailer)=some (trailer.record,[]) :=
    ((recordAt_entry trailer_fits).frame (dvd_zero 4)).alone
  have hskip : skipPadding (zeros n++entryBytes trailer)=entryBytes trailer := by
    have hself := (archive_trailer.skip []).1
    rw [skipPadding_zeros]
    rwa [List.append_nil] at hself
  have htrailer : trailer.record.isTrailer=true := (isTrailer_record trailer).mpr rfl
  have hlength : (entryBytes trailer).length=124 := by decide +kernel
  have hne : entryBytes trailer≠[] := fun hnil => by
    rw [hnil] at hlength
    cases hlength
  have hall : (twoArchives n).length=124+n+124 := by
    rw [twoArchives,List.length_append,List.length_append,hlength,length_zeros]
  have hend : skipPadding []=[] := rfl
  refine ⟨hstream.validate,?_,?_⟩
  · rw [recordStarts_next 0 hfirst,if_pos htrailer,hskip,if_neg hne,recordStarts_next _ hsecond,
      if_pos htrailer,if_pos hend,hall,hlength,Nat.add_sub_cancel,Nat.zero_add]
  · rw [gaps_next hfirst,if_pos htrailer,hskip,if_neg hne,gaps_next hsecond,if_pos htrailer,
      if_pos hend,List.length_append,length_zeros,hlength,Nat.add_sub_cancel]

/-- With one zero in between, the second record is misaligned. -/
theorem twoArchives_misaligned :
    validateCpio (twoArchives 1)=some () ∧ ¬∀ o∈recordStarts 0 (twoArchives 1), 4∣o := by
  obtain ⟨haccepted,hstarts,-⟩ := twoArchives_starts 1
  rw [hstarts]
  exact ⟨haccepted,by decide⟩

/-- With four zeros in between, both are aligned. -/
theorem aligned_iff_gaps_sample :
    validateCpio (twoArchives 4)=some () ∧ ∀ o∈recordStarts 0 (twoArchives 4), 4∣o := by
  obtain ⟨haccepted,-,hgaps⟩ := twoArchives_starts 4
  refine ⟨haccepted,(aligned_iff_gaps haccepted).mpr ?_⟩
  rw [hgaps]
  decide

end Arma.Initrd.Grammar
