import Arma.Pe.RoundTrip

/-!
# Sizes and addresses fit their header words

A file is only built when the address and the sizes of every section fit the
32-bit words of the section header.
-/

namespace Arma.Pe.Words

open Base.ByteString Base.Checked RoundTrip Writer

/-- The words of a section's header. -/
structure Fits (s : Section) : Prop where
  /-- The size in memory fits. -/
  virtualSize : s.virtualSize<2^32
  /-- The size in the file fits. -/
  dataLength : s.data.length<2^32
  /-- The address of a loaded section fits. -/
  vaddr : s.nonLoaded=false → s.vaddr<2^32

/-- A header is only made from words that fit. -/
theorem headerFor_fits {s : Section} {field hdr : Bytes} {e : ℕ × ℕ}
    (h : headerFor s field e=.ok hdr) (he : ExtentOk s e) : Fits s := by
  unfold headerFor at h
  obtain ⟨vaddr,hvaddr,h⟩ := bind_ok.mp h
  obtain ⟨vsize,hvsize,h⟩ := bind_ok.mp h
  refine ⟨(tryU32_ok.mp hvsize).2,?_,fun hload => ?_⟩
  · obtain ⟨hempty,_⟩ | ⟨_,_,hlen,_,hstop⟩ := he
    · rw [hempty]
      exact Nat.two_pow_pos 32
    · omega
  · rw [vaddr32For,hload] at hvaddr
    exact (tryU32_ok.mp hvaddr).2

/-- Every section has a place and a header. -/
theorem headers_mem {sections : List Section} {fields : List Bytes} {extents : List (ℕ × ℕ)}
    {hdrs : List Bytes} (hfields : sections.length=fields.length)
    (hplaces : List.Forall₂ ExtentOk sections extents)
    (hheaders : List.Forall₂ (fun row hdr => headerFor row.1 row.2.1 row.2.2=.ok hdr)
      (sections.zip (fields.zip extents)) hdrs) {s : Section} (hs : s∈sections) :
    ∃ field e hdr, ExtentOk s e ∧ headerFor s field e=.ok hdr := by
  induction hplaces generalizing fields hdrs with
  | nil => cases hs
  | @cons t e rest es hplace _ ih =>
    match fields,hfields with
    | field::fields,hfields =>
      rw [List.zip_cons_cons,List.zip_cons_cons] at hheaders
      cases hheaders with
      | cons hhead htail =>
        obtain rfl | hmem := List.mem_cons.mp hs
        · exact ⟨field,e,_,hplace,hhead⟩
        · exact ih (Nat.succ_injective hfields) htail hmem

/-- In a file that is built the words of every section fit. -/
theorem buildPe_fits {machine : ℕ} {sections : List Section} {file : Bytes}
    (h : buildPe machine sections=.ok file) {s : Section} (hs : s∈sections) : Fits s := by
  obtain ⟨fields,strtab,extents,hdrs,opt,strtabOffset,dataStop,hcomp,_⟩ := buildPe_ok h
  obtain ⟨field,e,hdr,hplace,hheader⟩ :=
    headers_mem hcomp.names.length_eq hcomp.places hcomp.headers hs
  exact headerFor_fits hheader hplace

end Arma.Pe.Words
