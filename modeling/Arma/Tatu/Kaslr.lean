import Arma.Base.Checked
import Arma.Base.Patch
import Arma.Kernel.RelocTable

/-!
# Applying the relocations

tatu slices the loaded relocation section apart by the three counts of the
header, draws a 2 MiB aligned delta and patches the kernel image in place. The
table and the image are two slices that do not alias, so the words are read
before the image is written.
-/

namespace Arma.Tatu.Kaslr

open Base.ByteString Base.Checked Base.Intervals Base.Patch BootInfo Kernel.RelocTable

/-- Guest memory, by guest-physical address. -/
abbrev Memory : Type := ℕ → UInt8

/-- The bytes of a region of memory. -/
def region (m : Memory) (gpa size : ℕ) : Bytes := (List.range size).map fun i => m (gpa+i)

/-- Memory after writing a string at an address. -/
def store (m : Memory) (gpa : ℕ) (bs : Bytes) : Memory := fun a =>
  if gpa≤a then (bs[a-gpa]?).getD (m a) else m a

/-- The relocation table as words; empty when there are no relocations. -/
def relocsWords (m : Memory) (info : TatuBootInfo) : List UInt32 :=
  let count := info.relocs64Count.toNat+info.relocs32negCount.toNat+info.relocs32Count.toNat
  if count=0 then []
  else decodeRecords 4 fromLeBytes count (region m info.relocsGpa.toNat (count*4))

/-- The loaded kernel image. -/
def kernelBytes (m : Memory) (info : TatuBootInfo) : Bytes :=
  region m info.kernelGpa.toNat info.kernelSize.toNat

/-- The three lists of sites, unless the counts do not match the words. -/
def splitTables (info : TatuBootInfo) (words : List UInt32) : Option Relocs :=
  let c64 := info.relocs64Count.toNat
  let c32n := info.relocs32negCount.toNat
  let c32 := info.relocs32Count.toNat
  if c64+c32n+c32≠words.length then none
  else some ⟨words.drop (c64+c32n),(words.drop c64).take c32n,words.take c64⟩

/-- Link-time offset of the kernel in the high map. -/
def loadPhysicalAddr : ℕ := 0x1000000

/-- The high-map window, 1 GiB. -/
def kernelImageSize : ℕ := 0x40000000

/-- Alignment of the delta, 2 MiB. -/
def kaslrAlign : ℕ := 0x200000

/-- The delta that a random word selects. -/
def kaslrDelta (info : TatuBootInfo) (rand : ℕ) : ℕ :=
  let headroom := kernelImageSize-info.kernelAllocSize.toNat-loadPhysicalAddr
  let slots := headroom/kaslrAlign+1
  rand%slots*kaslrAlign

/-- An 8-byte field, `*p += delta`. -/
def site64 (delta : ℕ) (o : UInt32) : Site := ⟨o.toNat,8,fun v => wrappingAdd 64 v delta⟩

/-- A per-CPU PC-relative field, `*p -= delta`. -/
def site32neg (delta : ℕ) (o : UInt32) : Site := ⟨o.toNat,4,fun v => wrappingSub 32 v delta⟩

/-- A 4-byte field, `*p += delta`. -/
def site32 (delta : ℕ) (o : UInt32) : Site := ⟨o.toNat,4,fun v => wrappingAdd 32 v delta⟩

/-- The three patch loops. -/
def patchKernel (r : Relocs) (delta : ℕ) (image : Bytes) : Bytes :=
  let image := patchAll (r.relocs64.map (site64 delta)) image
  let image := patchAll (r.relocs32neg.map (site32neg delta)) image
  patchAll (r.relocs32.map (site32 delta)) image

/-- Randomize the virtual base of the kernel image in place; `rand` is the
random word. -/
def applyKaslr (m : Memory) (info : TatuBootInfo) (rand : ℕ) : Memory :=
  let words := relocsWords m info
  if words.isEmpty then m
  else match splitTables info words with
  | none => m
  | some r =>
    let delta := kaslrDelta info rand
    if delta=0 then m
    else store m info.kernelGpa.toNat (patchKernel r delta (kernelBytes m info))

/-- A region has the requested size. -/
@[simp] theorem length_region (m : Memory) (gpa size : ℕ) : (region m gpa size).length=size := by
  rw [region,List.length_map,List.length_range]

/-- The bytes of a region are those of memory. -/
theorem getElem?_region (m : Memory) (gpa size i : ℕ) :
    (region m gpa size)[i]?=if i < size then some (m (gpa+i)) else none := by
  unfold region
  rw [List.getElem?_map]
  by_cases hi : i < size
  · rw [List.getElem?_range hi,if_pos hi]
    rfl
  · rw [List.getElem?_eq_none (by rw [List.length_range]; omega),if_neg hi]
    rfl

/-- A stored string is read back from its region. -/
theorem region_store (m : Memory) (gpa : ℕ) (bs : Bytes) :
    region (store m gpa bs) gpa bs.length=bs := by
  apply List.ext_getElem?
  intro i
  rw [getElem?_region]
  by_cases hi : i<bs.length
  · rw [if_pos hi]
    dsimp only [store]
    rw [if_pos (by omega),Nat.add_sub_cancel_left,List.getElem?_eq_getElem hi]
    rfl
  · rw [if_neg hi,List.getElem?_eq_none (by omega)]

/-- Memory outside the stored string is kept. -/
theorem store_of_notMem {m : Memory} {gpa a : ℕ} {bs : Bytes} (h : a<gpa ∨ gpa+bs.length≤a) :
    store m gpa bs a=m a := by
  unfold store
  split
  · rw [List.getElem?_eq_none (by omega)]
    rfl
  · rfl

/-- All fields of the three lists, in the order of the loops. -/
def sites (r : Relocs) (delta : ℕ) : List Site :=
  r.relocs64.map (site64 delta)++r.relocs32neg.map (site32neg delta)++r.relocs32.map (site32 delta)

/-- The three loops are one run over all fields. -/
theorem patchKernel_eq (r : Relocs) (delta : ℕ) (image : Bytes) :
    patchKernel r delta image=patchAll (sites r delta) image := by
  unfold patchKernel sites patchAll
  rw [List.foldl_append,List.foldl_append]

/-- The fields lie where the lists say, whatever the delta. -/
theorem sites_region (r : Relocs) (delta : ℕ) : (sites r delta).map Site.region=r.fields := by
  unfold sites Relocs.fields
  rw [List.map_append,List.map_append,List.map_map,List.map_map,List.map_map]
  rfl

/-- The image after adding `delta` to the 64-bit and 32-bit sites and
subtracting it from the inverse ones, and nothing else. -/
structure Relocated (r : Relocs) (delta : ℕ) (image image' : Bytes) : Prop where
  /-- The length is kept. -/
  length : image'.length=image.length
  /-- 64-bit sites are increased modulo 2^64. -/
  relocs64 : ∀ o∈r.relocs64, ofLE (slice o.toNat 8 image')=
    (ofLE (slice o.toNat 8 image)+delta)%2^64
  /-- 32-bit sites are increased modulo 2^32. -/
  relocs32 : ∀ o∈r.relocs32, ofLE (slice o.toNat 4 image')=
    (ofLE (slice o.toNat 4 image)+delta)%2^32
  /-- Inverse sites are decreased modulo 2^32. -/
  relocs32neg : ∀ o∈r.relocs32neg, (ofLE (slice o.toNat 4 image') : ℤ)=
    ((ofLE (slice o.toNat 4 image) : ℤ)-delta)%2^32
  /-- Every other byte is kept. -/
  frame : ∀ i, (∀ f∈r.fields, i∉f.toSet) → image'[i]?=image[i]?

/-- A run over all fields relocates the image. -/
theorem relocated_of_patched {r : Relocs} {delta : ℕ} {image image' : Bytes}
    (h : Patched (sites r delta) image image') : Relocated r delta image image' := by
  constructor
  · exact h.length
  · intro o ho
    have hfield := h.field (site64 delta o)
      (List.mem_append_left _ (List.mem_append_left _ (List.mem_map_of_mem ho)))
    dsimp only [Site.field,site64,wrappingAdd] at hfield
    rw [hfield]
    norm_num
  · intro o ho
    have hfield := h.field (site32 delta o) (List.mem_append_right _ (List.mem_map_of_mem ho))
    dsimp only [Site.field,site32,wrappingAdd] at hfield
    rw [hfield]
    norm_num
  · intro o ho
    have hfield := h.field (site32neg delta o)
      (List.mem_append_left _ (List.mem_append_right _ (List.mem_map_of_mem ho)))
    dsimp only [Site.field,site32neg] at hfield
    have hlt : wrappingSub 32 (ofLE (slice o.toNat 4 image)) delta<256^4 :=
      Nat.mod_lt _ (by decide)
    rw [hfield,Nat.mod_eq_of_lt hlt,wrappingSub_cast]
  · intro i hi
    refine h.frame i fun s hs => hi s.region ?_
    rw [←sites_region r delta]
    exact List.mem_map_of_mem hs

/-- Pairwise separate fields inside the image are all relocated. -/
theorem patchKernel_relocated {r : Relocs} {image : Bytes} (delta : ℕ)
    (hsep : r.fields.Pairwise Region.Separate) (hin : ∀ f∈r.fields, f.stop ≤ image.length) :
    Relocated r delta image (patchKernel r delta image) := by
  rw [patchKernel_eq]
  rw [←sites_region r delta] at hsep hin
  refine relocated_of_patched (patchAll_patched (List.pairwise_map.mp hsep) fun s hs => ?_)
  exact hin s.region (List.mem_map_of_mem hs)

/-- The order of the sites within each list does not matter. -/
theorem patchKernel_perm {r r' : Relocs} {image : Bytes} (delta : ℕ)
    (h64 : r.relocs64.Perm r'.relocs64) (h32n : r.relocs32neg.Perm r'.relocs32neg)
    (h32 : r.relocs32.Perm r'.relocs32)
    (hsep : r.fields.Pairwise Region.Separate) (hin : ∀ f∈r.fields, f.stop ≤ image.length) :
    patchKernel r delta image=patchKernel r' delta image := by
  rw [patchKernel_eq,patchKernel_eq]
  rw [←sites_region r delta] at hsep hin
  refine patchAll_perm ?_ (List.pairwise_map.mp hsep) fun s hs => ?_
  · exact ((h64.map _).append (h32n.map _)).append (h32.map _)
  · exact hin s.region (List.mem_map_of_mem hs)

/-- Moving by zero relocates an image to itself. -/
theorem relocated_zero {r : Relocs} {image : Bytes} (hin : ∀ f∈r.fields, f.stop ≤ image.length) :
    Relocated r 0 image image := by
  have hlt : ∀ n o, siteRegion n o∈r.fields → ofLE (slice o.toNat n image)<256^n :=
    fun n o hf => ofLE_slice_lt (hin _ hf)
  refine ⟨rfl,?_,?_,?_,fun _ _ => rfl⟩
  · intro o ho
    have h := hlt 8 o (by simp [Relocs.fields,List.mem_map_of_mem ho])
    norm_num at h ⊢
    omega
  · intro o ho
    have h := hlt 4 o (by simp [Relocs.fields,List.mem_map_of_mem ho])
    norm_num at h ⊢
    omega
  · intro o ho
    have h := hlt 4 o (by simp [Relocs.fields,List.mem_map_of_mem ho])
    norm_num at h ⊢
    omega

/-- What arma hands to tatu: the section is loaded where the header says, the
header has the three counts, and the patched fields are pairwise separate and
inside the image. -/
structure HandedOver (r : Relocs) (m : Memory) (info : TatuBootInfo) : Prop where
  /-- The section is loaded at its address. -/
  loaded : region m info.relocsGpa.toNat r.toSectionBytes.length=r.toSectionBytes
  /-- The header has the counts of the three lists. -/
  header : info.relocsHeader=r.header info.relocsGpa
  /-- No two patched fields share a byte. -/
  separate : r.fields.Pairwise Region.Separate
  /-- Every patched field is inside the kernel image. -/
  inside : ∀ f∈r.fields, f.stop ≤ info.kernelSize.toNat

/-- The counts of the header are the lengths of the lists. -/
theorem HandedOver.counts {r : Relocs} {m : Memory} {info : TatuBootInfo}
    (h : HandedOver r m info) : info.relocs64Count.toNat=r.relocs64.length ∧
      info.relocs32negCount.toNat=r.relocs32neg.length ∧
      info.relocs32Count.toNat=r.relocs32.length := by
  have hcounts := header_counts info.relocsGpa h.separate h.inside info.kernelSize.toNat_lt
  rw [←h.header] at hcounts
  exact hcounts

/-- Every patched field is inside the bytes of the loaded kernel. -/
theorem HandedOver.insideBytes {r : Relocs} {m : Memory} {info : TatuBootInfo}
    (h : HandedOver r m info) : ∀ f∈r.fields, f.stop≤(kernelBytes m info).length := by
  rw [kernelBytes,length_region]
  exact h.inside

/-- The words that tatu reads are the sites that arma wrote. -/
theorem HandedOver.relocsWords {r : Relocs} {m : Memory} {info : TatuBootInfo}
    (h : HandedOver r m info) : relocsWords m info=r.words := by
  obtain ⟨h64,h32n,h32⟩ := h.counts
  have hcount : info.relocs64Count.toNat+info.relocs32negCount.toNat+info.relocs32Count.toNat=
      r.words.length := by
    rw [h64,h32n,h32,Relocs.words,List.length_append,List.length_append]
  unfold Kaslr.relocsWords
  dsimp only
  rw [hcount]
  split
  · rename_i hzero
    exact (List.length_eq_zero_iff.mp hzero).symm
  · rw [←length_toSectionBytes,h.loaded,decodeRecords_toSectionBytes]

/-- The three lists come apart where arma joined them. -/
theorem HandedOver.splitTables {r : Relocs} {m : Memory} {info : TatuBootInfo}
    (h : HandedOver r m info) : splitTables info r.words=some r := by
  obtain ⟨h64,h32n,h32⟩ := h.counts
  unfold Kaslr.splitTables
  dsimp only
  rw [h64,h32n,h32,if_neg]
  · have hdrop : r.words.drop (r.relocs64.length+r.relocs32neg.length)=r.relocs32 := by
      rw [Relocs.words,List.drop_left' (by rw [List.length_append])]
    have hmid : r.words.drop r.relocs64.length=r.relocs32neg++r.relocs32 := by
      rw [Relocs.words,List.append_assoc,List.drop_left]
    have htake : r.words.take r.relocs64.length=r.relocs64 := by
      rw [Relocs.words,List.append_assoc,List.take_left]
    rw [hdrop,hmid,htake,List.take_left]
  · rw [Relocs.words,List.length_append,List.length_append]
    exact fun hne => hne rfl

/-- Applying the relocations writes the image moved by the drawn delta and
nothing else. -/
theorem applyKaslr_eq {r : Relocs} {m : Memory} {info : TatuBootInfo} (rand : ℕ)
    (h : HandedOver r m info) :
    Relocated r (kaslrDelta info rand) (kernelBytes m info)
        (kernelBytes (applyKaslr m info rand) info) ∧
      ∀ a, a∉Set.Ico info.kernelGpa.toNat (info.kernelGpa.toNat+info.kernelSize.toNat) →
        applyKaslr m info rand a=m a := by
  have hin := h.insideBytes
  unfold applyKaslr
  dsimp only
  rw [h.relocsWords]
  by_cases hempty : r.words=[]
  · -- no sites: whatever the delta, there is nothing to move
    rw [hempty,List.isEmpty_nil,if_pos rfl]
    have hnil : r.relocs64=[] ∧ r.relocs32neg=[] ∧ r.relocs32=[] := by
      simpa [Relocs.words,and_assoc] using hempty
    refine ⟨⟨rfl,?_,?_,?_,fun _ _ => rfl⟩,fun _ _ => rfl⟩
    · rw [hnil.1]
      exact fun o ho => absurd ho List.not_mem_nil
    · rw [hnil.2.2]
      exact fun o ho => absurd ho List.not_mem_nil
    · rw [hnil.2.1]
      exact fun o ho => absurd ho List.not_mem_nil
  · rw [if_neg (by simpa using hempty),h.splitTables]
    dsimp only
    by_cases hdelta : kaslrDelta info rand=0
    · rw [if_pos hdelta,hdelta]
      exact ⟨relocated_zero hin,fun _ _ => rfl⟩
    · rw [if_neg hdelta]
      have hmoved := patchKernel_relocated (kaslrDelta info rand) h.separate hin
      have hlen : (patchKernel r (kaslrDelta info rand) (kernelBytes m info)).length=
          info.kernelSize.toNat := by
        rw [hmoved.length,kernelBytes,length_region]
      constructor
      · have hback := region_store m info.kernelGpa.toNat
          (patchKernel r (kaslrDelta info rand) (kernelBytes m info))
        rw [hlen] at hback
        change Relocated r _ _ (region _ info.kernelGpa.toNat info.kernelSize.toNat)
        rw [hback]
        exact hmoved
      · intro a ha
        refine store_of_notMem ?_
        rw [hlen]
        rw [Set.mem_Ico] at ha
        omega

/-- The relocations that arma serialises are exactly those tatu recovers, and
patching moves every site once, by any delta, in whatever order they are listed. -/
theorem kaslr_end_to_end {r : Relocs} {m : Memory} {info : TatuBootInfo}
    (h : HandedOver r m info) :
    splitTables info (relocsWords m info)=some r ∧
      (∀ delta, Relocated r delta (kernelBytes m info)
        (patchKernel r delta (kernelBytes m info))) ∧
      (∀ delta r', r.relocs64.Perm r'.relocs64 → r.relocs32neg.Perm r'.relocs32neg →
        r.relocs32.Perm r'.relocs32 →
        patchKernel r delta (kernelBytes m info)=patchKernel r' delta (kernelBytes m info)) ∧
      ∀ rand, Relocated r (kaslrDelta info rand) (kernelBytes m info)
          (kernelBytes (applyKaslr m info rand) info) ∧
        ∀ a, a∉Set.Ico info.kernelGpa.toNat (info.kernelGpa.toNat+info.kernelSize.toNat) →
          applyKaslr m info rand a=m a := by
  have hin := h.insideBytes
  refine ⟨?_,?_,?_,fun rand => applyKaslr_eq rand h⟩
  · rw [h.relocsWords,h.splitTables]
  · exact fun delta => patchKernel_relocated delta h.separate hin
  · exact fun delta r' h64 h32n h32 => patchKernel_perm delta h64 h32n h32 h.separate hin

/-- Two 64-bit sites in descending order, an inverse and a 32-bit site. -/
def sampleRelocs : Relocs := ⟨[20],[16],[8,0]⟩

/-- A header for a 24-byte image at `0x200000` and its table at `0x400000`. -/
def sampleInfo : TatuBootInfo :=
  TatuBootInfo.new 0 0 0 0 0x200000 24 0x200000 0x1000 (sampleRelocs.header 0x400000)

/-- Memory with the table loaded. -/
def sampleMemory : Memory := store (fun _ => 0) 0x400000 sampleRelocs.toSectionBytes

/-- The sample is handed over properly and therefore recovered and relocated. -/
theorem kaslr_end_to_end_sample :
    splitTables sampleInfo (relocsWords sampleMemory sampleInfo)=some sampleRelocs := by
  have hsep : sampleRelocs.fields.Pairwise Region.Separate := by
    have hfields : sampleRelocs.fields=[⟨8,16⟩,⟨0,8⟩,⟨16,20⟩,⟨20,24⟩] := by decide
    rw [hfields]
    refine List.Pairwise.imp (R := fun r s => r.overlaps s=false) separate_of_overlaps_false ?_
    decide
  exact (kaslr_end_to_end ⟨region_store _ _ _,rfl,hsep,by decide⟩).1

end Arma.Tatu.Kaslr
