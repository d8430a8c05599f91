import Mathlib.Data.List.Perm.Basic
import Mathlib.Tactic.Common
import Arma.Base.ByteString
import Arma.Base.Intervals

/-!
# In-place patching of word fields

A patch reads a little-endian field, changes its value and writes it back. A
run over pairwise separate fields inside the string changes each field once,
from its original value, keeps every other byte and does not depend on the
order of the patches.
-/

namespace Arma.Base.Patch

open ByteString Intervals

/-- One field to patch. -/
structure Site where
  /-- Position of the first byte. -/
  offset : ℕ
  /-- Number of bytes. -/
  width : ℕ
  /-- New value from the old one; only its low `width` bytes are written. -/
  update : ℕ → ℕ

/-- The bytes of the field. -/
def Site.region (s : Site) : Region ℕ := ⟨s.offset,s.offset+s.width⟩

/-- The value of the field. -/
def Site.field (s : Site) (image : Bytes) : ℕ := ofLE (slice s.offset s.width image)

/-- The field lies inside a string of length `n`. -/
def Site.Inside (s : Site) (n : ℕ) : Prop := s.offset+s.width≤n

/-- Patch one field; a field that does not lie inside the string is skipped. -/
def Site.patch (s : Site) (image : Bytes) : Bytes :=
  if s.offset+s.width ≤ image.length then
    overwrite s.offset (leBytes s.width (s.update (s.field image))) image
  else image

/-- Patch a sequence of fields. -/
def patchAll (sites : List Site) (image : Bytes) : Bytes :=
  sites.foldl (fun image s => s.patch image) image

/-- What a patched string looks like: every field has its new value and every
byte outside the fields its old one. -/
structure Patched (sites : List Site) (image image' : Bytes) : Prop where
  /-- The length is kept. -/
  length : image'.length=image.length
  /-- Every field is updated once. -/
  field : ∀ s∈sites, s.field image'=s.update (s.field image)%256^s.width
  /-- Bytes outside the fields are kept. -/
  frame : ∀ i, (∀ s∈sites, i∉s.region.toSet) → image'[i]?=image[i]?

/-- Patching keeps the length. -/
theorem length_patch (s : Site) (image : Bytes) : (s.patch image).length=image.length := by
  unfold Site.patch
  split
  · rename_i h
    exact length_overwrite (by rwa [length_leBytes])
  · rfl

/-- A run keeps the length. -/
theorem length_patchAll (sites : List Site) (image : Bytes) :
    (patchAll sites image).length=image.length := by
  induction sites generalizing image with
  | nil => rfl
  | cons s sites ih =>
    change (patchAll sites (s.patch image)).length=image.length
    rw [ih,length_patch]

/-- Patching a field gives it the new value, truncated to its width. -/
theorem field_patch {s : Site} {image : Bytes} (h : s.Inside image.length) :
    s.field (s.patch image)=s.update (s.field image)%256^s.width := by
  unfold Site.patch
  rw [if_pos (show s.offset+s.width ≤ image.length from h),←ofLE_leBytes]
  have hlen : s.offset+(leBytes s.width (s.update (s.field image))).length ≤ image.length := by
    rwa [length_leBytes]
  have hslice := slice_overwrite hlen
  rw [length_leBytes] at hslice
  rw [Site.field,hslice]

/-- Two fields that share no byte lie one before the other, or one is empty. -/
theorem separate_iff {s t : Site} : s.region.Separate t.region ↔
    s.width=0 ∨ t.width=0 ∨ s.offset+s.width≤t.offset ∨ t.offset+t.width ≤ s.offset := by
  unfold Region.Separate Site.region
  rw [Region.toSet,Region.toSet,Set.Ico_disjoint_Ico]
  dsimp only
  omega

/-- Patching a field keeps the fields separate from it. -/
theorem field_patch_of_separate {s t : Site} {image : Bytes} (h : s.region.Separate t.region) :
    t.field (s.patch image)=t.field image := by
  unfold Site.patch
  split
  · rename_i hin
    have hlen : s.offset+(leBytes s.width (s.update (s.field image))).length ≤ image.length := by
      rwa [length_leBytes]
    by_cases hs : s.width=0
    · have hid : overwrite s.offset (leBytes s.width (s.update (s.field image))) image=image := by
        rw [hs]
        simp [overwrite,leBytes]
      rw [hid]
    · by_cases ht : t.width=0
      · simp [Site.field,slice,ht]
      · have hsep := separate_iff.mp h
        rw [Site.field,slice_overwrite_of_disjoint hlen (by rw [length_leBytes]; omega),
          Site.field]
  · rfl

/-- The bytes of a field are those of its value. -/
theorem slice_eq_leBytes {s : Site} {image : Bytes} (h : s.Inside image.length) :
    slice s.offset s.width image=leBytes s.width (s.field image) := by
  have hbytes := leBytes_ofLE (slice s.offset s.width image)
  rw [length_slice h] at hbytes
  exact hbytes.symm

/-- A field that keeps its value is not changed by patching it. -/
theorem patch_eq_self {s : Site} {image : Bytes}
    (h : s.update (s.field image)%256^s.width=s.field image) : s.patch image=image := by
  by_cases hin : s.Inside image.length
  · have hlen : s.offset+(leBytes s.width (s.update (s.field image))).length ≤ image.length := by
      rwa [length_leBytes]
    have hpatch : s.patch image=overwrite s.offset (leBytes s.width (s.update (s.field image))) image :=
      if_pos hin
    rw [hpatch]
    apply List.ext_getElem?
    intro i
    rw [getElem?_overwrite hlen,length_leBytes]
    split
    · rename_i hi
      have hbytes : leBytes s.width (s.update (s.field image))=slice s.offset s.width image := by
        rw [←leBytes_mod,h,slice_eq_leBytes hin]
      rw [hbytes,getElem?_slice,if_pos (by omega),Nat.add_sub_cancel' hi.1]
    · rfl
  · exact if_neg hin

/-- Patching a field keeps the bytes outside it. -/
theorem getElem?_patch {s : Site} {image : Bytes} {i : ℕ} (h : i∉s.region.toSet) :
    (s.patch image)[i]?=image[i]? := by
  unfold Site.patch
  split
  · rename_i hin
    rw [getElem?_overwrite (by rwa [length_leBytes]),length_leBytes,if_neg]
    exact h
  · rfl

/-- A field that shares no byte with the patched ones is kept. -/
theorem Patched.field_of_separate {sites : List Site} {image image' : Bytes} {t : Site}
    (h : Patched sites image image') (ht : ∀ s∈sites, s.region.Separate t.region) :
    t.field image'=t.field image := by
  have hslice : slice t.offset t.width image'=slice t.offset t.width image := by
    apply List.ext_getElem?
    intro i
    rw [getElem?_slice,getElem?_slice]
    by_cases hi : i<t.width
    · rw [if_pos hi,if_pos hi]
      refine h.frame _ fun s hs hmem => ?_
      have hit : t.offset+i∈t.region.toSet := mem_toSet.mpr ⟨by
        dsimp only [Site.region]
        omega,by
        dsimp only [Site.region]
        omega⟩
      exact Set.disjoint_left.mp (ht s hs) hmem hit
    · rw [if_neg hi,if_neg hi]
  rw [Site.field,hslice,Site.field]

/-- Patching one field before a run over fields separate from it. -/
theorem Patched.cons {sites : List Site} {image image' : Bytes} {s : Site}
    (hs : s.Inside image.length) (hsep : ∀ t∈sites, s.region.Separate t.region)
    (h : Patched sites (s.patch image) image') : Patched (s::sites) image image' := by
  constructor
  · rw [h.length,length_patch]
  · intro t ht
    obtain rfl | ht := List.mem_cons.mp ht
    · rw [h.field_of_separate fun u hu => separate_comm.mp (hsep u hu),field_patch hs]
    · rw [h.field t ht,field_patch_of_separate (hsep t ht)]
  · intro i hi
    rw [h.frame i fun t ht => hi t (List.mem_cons_of_mem _ ht),
      getElem?_patch (hi s List.mem_cons_self)]

/-- A run over pairwise separate fields inside the string patches them all. -/
theorem patchAll_patched {sites : List Site} {image : Bytes}
    (hsep : sites.Pairwise fun s t => s.region.Separate t.region)
    (hin : ∀ s∈sites, s.Inside image.length) : Patched sites image (patchAll sites image) := by
  induction sites generalizing image with
  | nil => exact ⟨rfl,fun s hs => absurd hs List.not_mem_nil,fun _ _ => rfl⟩
  | cons s sites ih =>
    obtain ⟨hfirst,hrest⟩ := List.pairwise_cons.mp hsep
    have hinside : ∀ t∈sites, t.Inside (s.patch image).length := by
      intro t ht
      rw [length_patch]
      exact hin t (List.mem_cons_of_mem _ ht)
    have hrun := ih hrest hinside
    exact Patched.cons (hin s List.mem_cons_self) hfirst hrun

/-- Updated fields and kept bytes determine the patched string. -/
theorem Patched.unique {sites : List Site} {image a b : Bytes}
    (hin : ∀ s∈sites, s.Inside image.length) (ha : Patched sites image a)
    (hb : Patched sites image b) : a=b := by
  apply List.ext_getElem?
  intro i
  by_cases hmem : ∃ s∈sites, i∈s.region.toSet
  · obtain ⟨s,hs,hi⟩ := hmem
    obtain ⟨hlo,hhi⟩ := mem_toSet.mp hi
    dsimp only [Site.region] at hlo hhi
    have hsa : slice s.offset s.width a=leBytes s.width (s.field a) :=
      slice_eq_leBytes (by rw [ha.length]; exact hin s hs)
    have hsb : slice s.offset s.width b=leBytes s.width (s.field b) :=
      slice_eq_leBytes (by rw [hb.length]; exact hin s hs)
    rw [ha.field s hs] at hsa
    rw [hb.field s hs,←hsa] at hsb
    have hbyte := congrArg (·[i-s.offset]?) hsb
    simp only [getElem?_slice,if_pos (show i-s.offset < s.width by omega),
      Nat.add_sub_cancel' hlo] at hbyte
    exact hbyte.symm
  · rw [ha.frame i fun s hs hi => hmem ⟨s,hs,hi⟩,hb.frame i fun s hs hi => hmem ⟨s,hs,hi⟩]

/-- Reordering the fields does not change what a patched string looks like. -/
theorem Patched.perm {sites sites' : List Site} {image image' : Bytes} (hp : sites.Perm sites')
    (h : Patched sites image image') : Patched sites' image image' :=
  ⟨h.length,fun s hs => h.field s (hp.mem_iff.mpr hs),
    fun i hi => h.frame i fun s hs => hi s (hp.mem_iff.mp hs)⟩

/-- The order of the patches does not matter. -/
theorem patchAll_perm {sites sites' : List Site} {image : Bytes} (hp : sites.Perm sites')
    (hsep : sites.Pairwise fun s t => s.region.Separate t.region)
    (hin : ∀ s∈sites, s.Inside image.length) : patchAll sites image=patchAll sites' image := by
  have hsep' : sites'.Pairwise fun s t => s.region.Separate t.region :=
    hp.pairwise hsep fun h => separate_comm.mp h
  have hin' : ∀ s∈sites', s.Inside image.length := fun s hs => hin s (hp.mem_iff.mpr hs)
  exact ((patchAll_patched hsep hin).perm hp).unique hin' (patchAll_patched hsep' hin')

/-- A field that is replaced by given bytes. -/
def Site.const (o : ℕ) (bs : Bytes) : Site := ⟨o,bs.length,fun _ => ofLE bs⟩

/-- Patching a field with given bytes overwrites it. -/
theorem patch_const {o : ℕ} {bs image : Bytes} (h : o+bs.length ≤ image.length) :
    (Site.const o bs).patch image=overwrite o bs image := by
  unfold Site.patch Site.const
  rw [if_pos h]
  dsimp only
  rw [leBytes_ofLE]

/-- After the run the field has the given bytes. -/
theorem Patched.slice_const {sites : List Site} {image image' : Bytes} {o : ℕ} {bs : Bytes}
    (h : Patched sites image image') (hmem : Site.const o bs∈sites)
    (hin : o+bs.length ≤ image.length) : slice o bs.length image'=bs := by
  have hslice : slice o bs.length image'=leBytes bs.length ((Site.const o bs).field image') := by
    refine slice_eq_leBytes (s := Site.const o bs) ?_
    rw [h.length]
    exact hin
  rw [hslice,h.field _ hmem]
  dsimp only [Site.const]
  rw [Nat.mod_eq_of_lt (ofLE_lt bs),leBytes_ofLE]

end Arma.Base.Patch
