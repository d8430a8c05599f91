import Arma.Base.Windows
import Arma.Tatu.Overlay

/-!
# The seed of an arm64 kernel

On arm64 the seed of the kernel's base is in `/chosen`. tatu carries an overlay that adds it
with a placeholder, writes a random word over the placeholder and merges the overlay with the
measured tree before the host's.
-/

namespace Arma.Tatu.Seed

open Base.ByteString Base.Windows Devtree Devtree.Merge Overlay

/-- `KASLR_OVERLAY_TEMPLATE`. -/
def kaslrOverlayTemplate : Bytes :=
  [0xd0,0x0d,0xfe,0xed,0x00,0x00,0x00,0xaf,0x00,0x00,0x00,0x38,0x00,0x00,0x00,0x98,
    0x00,0x00,0x00,0x28,0x00,0x00,0x00,0x11,0x00,0x00,0x00,0x10,0x00,0x00,0x00,0x00,
    0x00,0x00,0x00,0x17,0x00,0x00,0x00,0x60,0x00,0x00,0x00,0x00,0x00,0x00,0x00,0x00,
    0x00,0x00,0x00,0x00,0x00,0x00,0x00,0x00,0x00,0x00,0x00,0x01,0x00,0x00,0x00,0x00,
    0x00,0x00,0x00,0x01,0x66,0x72,0x61,0x67,0x6d,0x65,0x6e,0x74,0x40,0x30,0x00,0x00,
    0x00,0x00,0x00,0x03,0x00,0x00,0x00,0x08,0x00,0x00,0x00,0x00,0x2f,0x63,0x68,0x6f,
    0x73,0x65,0x6e,0x00,0x00,0x00,0x00,0x01,0x5f,0x5f,0x6f,0x76,0x65,0x72,0x6c,0x61,
    0x79,0x5f,0x5f,0x00,0x00,0x00,0x00,0x03,0x00,0x00,0x00,0x08,0x00,0x00,0x00,0x0c,
    0x4b,0x41,0x53,0x4c,0x52,0x53,0x45,0x44,0x00,0x00,0x00,0x02,0x00,0x00,0x00,0x02,
    0x00,0x00,0x00,0x02,0x00,0x00,0x00,0x09,0x74,0x61,0x72,0x67,0x65,0x74,0x2d,0x70,
    0x61,0x74,0x68,0x00,0x6b,0x61,0x73,0x6c,0x72,0x2d,0x73,0x65,0x65,0x64,0x00]

/-- `SEED_SENTINEL`, `KASLRSED`. -/
def seedSentinel : Bytes := [0x4b,0x41,0x53,0x4c,0x52,0x53,0x45,0x44]

/-- `patch_overlay_seed`; a blob without the placeholder is left alone. -/
def patchOverlaySeed (blob : Bytes) (seed : ℕ) : Option Bytes :=
  (position seedSentinel blob).map fun pos => overwrite pos (beBytes 8 seed) blob

/-- What the overlay is when the seed is in it. -/
def seedTree (seed : ℕ) : Node :=
  .mk "" [] [.mk "fragment@0" [⟨"target-path",dtString "/chosen"⟩]
    [.mk "__overlay__" [⟨"kaslr-seed",beBytes 8 seed⟩] []]]

/-- The fragment of the overlay. -/
def seedFragment (seed : ℕ) : Fragment :=
  ⟨.path "/chosen",.mk "__overlay__" [⟨"kaslr-seed",beBytes 8 seed⟩] []⟩

/-- A blob with a seed in place of its first placeholder and nothing else changed. -/
structure Seeded (blob : Bytes) (seed : ℕ) (out : Bytes) : Prop where
  /-- The length is kept. -/
  length : out.length=blob.length
  /-- The seed is where the placeholder was first. -/
  seed : ∃ pos, IsLeast (occurrences seedSentinel blob) pos ∧ slice pos 8 out=beBytes 8 seed ∧
    ∀ i, i∉Set.Ico pos (pos+8) → out[i]?=blob[i]?

/-- Two blobs that were seeded alike are the same. -/
theorem Seeded.unique {blob out out' : Bytes} {seed : ℕ} (h : Seeded blob seed out)
    (h' : Seeded blob seed out') : out=out' := by
  obtain ⟨pos,hpos,hseed,hframe⟩ := h.seed
  obtain ⟨pos',hpos',hseed',hframe'⟩ := h'.seed
  have heq := hpos.unique hpos'
  subst heq
  refine List.ext_getElem? fun i => ?_
  by_cases hi : i∈Set.Ico pos (pos+8)
  · have hslice : (slice pos 8 out)[i-pos]?=(slice pos 8 out')[i-pos]? := by
      rw [hseed,hseed']
    obtain ⟨hle,hlt⟩ := hi
    rwa [getElem?_slice,getElem?_slice,if_pos (by omega),if_pos (by omega),
      Nat.add_sub_cancel' hle] at hslice
  · rw [hframe i hi,hframe' i hi]

/-- Patching a blob writes the seed over the first placeholder and nowhere else. -/
theorem patchOverlaySeed_seeded {blob out : Bytes} {seed : ℕ}
    (h : patchOverlaySeed blob seed=some out) : Seeded blob seed out := by
  obtain ⟨pos,hpos,hout⟩ := Option.map_eq_some_iff.mp h
  subst hout
  have hleast := position_some.mp hpos
  have hroom : pos+(beBytes 8 seed).length≤blob.length := by
    rw [length_beBytes]
    exact occurrence_le hleast.1
  have hslice := slice_overwrite hroom
  rw [length_beBytes] at hslice
  refine ⟨length_overwrite hroom,pos,hleast,hslice,fun i hi => ?_⟩
  rw [getElem?_overwrite hroom,length_beBytes,if_neg fun hin => hi ⟨hin.1,hin.2⟩]

/-- A blob is patched exactly when it has a placeholder, and then as it should be. -/
theorem patchOverlaySeed_iff {blob out : Bytes} {seed : ℕ} :
    patchOverlaySeed blob seed=some out ↔ Seeded blob seed out := by
  refine ⟨patchOverlaySeed_seeded,fun h => ?_⟩
  obtain ⟨pos,hpos,_⟩ := h.seed
  have hsome : patchOverlaySeed blob seed=some (overwrite pos (beBytes 8 seed) blob) := by
    rw [patchOverlaySeed,position_some.mpr hpos]
    rfl
  rw [hsome,(patchOverlaySeed_seeded hsome).unique h]

/-- The placeholder of the template has an offset of 128. -/
theorem patch_template (seed : ℕ) : patchOverlaySeed kaslrOverlayTemplate seed=
    some (kaslrOverlayTemplate.take 128++beBytes 8 seed++kaslrOverlayTemplate.drop 136) := by
  have hpos : position seedSentinel kaslrOverlayTemplate=some 128 := by decide +kernel
  rw [patchOverlaySeed,hpos,Option.map_some,overwrite,length_beBytes]

/-- The names of the properties, in order of use. -/
def seedNames : List String := ["target-path","kaslr-seed"]

/-- A seed needs no padding. -/
theorem pad4_seed (seed : ℕ) : pad4 (beBytes 8 seed)=beBytes 8 seed := by
  rw [pad4,length_beBytes]
  exact List.append_nil _

/-- The structure block has the seed between what is the same for every seed. -/
theorem structBlock_seedTree (seed : ℕ) : (seedTree seed).structBlock seedNames=
    slice 56 72 kaslrOverlayTemplate++beBytes 8 seed++slice 136 12 kaslrOverlayTemplate := by
  have hfront : beBytes 4 1++pad4 ("".toUTF8.data.toList++[0])++beBytes 4 1++
      pad4 ("fragment@0".toUTF8.data.toList++[0])++beBytes 4 3++
      beBytes 4 (dtString "/chosen").length++beBytes 4 (nameOffset seedNames "target-path")++
      pad4 (dtString "/chosen")++beBytes 4 1++pad4 ("__overlay__".toUTF8.data.toList++[0])++
      beBytes 4 3++beBytes 4 8++beBytes 4 (nameOffset seedNames "kaslr-seed")=
        slice 56 72 kaslrOverlayTemplate := by decide +kernel
  have hback : beBytes 4 2++beBytes 4 2++beBytes 4 2=slice 136 12 kaslrOverlayTemplate := by
    decide +kernel
  rw [←hfront,←hback]
  simp only [seedTree,Node.structBlock,structOfAll,List.flatMap_nil,List.flatMap_cons,pad4_seed,
    length_beBytes,List.append_nil,List.append_assoc]

/-- The flat form of the overlay is the template with the seed in it. -/
theorem flatten_seedTree (seed : ℕ) : flatten (seedTree seed)=
    kaslrOverlayTemplate.take 128++beBytes 8 seed++kaslrOverlayTemplate.drop 136 := by
  have hnames : (seedTree seed).propertyNames.eraseDups=seedNames := by
    simp only [seedTree,Node.propertyNames,namesOfAll,List.map_cons,List.map_nil,
      List.nil_append,List.append_nil]
    decide
  have hblock : (slice 56 72 kaslrOverlayTemplate++beBytes 8 seed++
      slice 136 12 kaslrOverlayTemplate++beBytes 4 9).length=96 := by
    simp only [List.length_append,length_beBytes]
    decide
  have hheader : [0xd00dfeed,56+96+23,56,56+96,40,17,16,0,23,96].flatMap (beBytes 4)++zeros 16++
      slice 56 72 kaslrOverlayTemplate=kaslrOverlayTemplate.take 128 := by decide +kernel
  have hstrings : slice 136 12 kaslrOverlayTemplate++beBytes 4 9++
      seedNames.flatMap (fun n => n.toUTF8.data.toList++[0])=kaslrOverlayTemplate.drop 136 := by
    decide +kernel
  have hlen : (seedNames.flatMap fun n => n.toUTF8.data.toList++[0]).length=23 := by
    decide +kernel
  rw [flatten,hnames,structBlock_seedTree,hblock,hlen,←hheader,←hstrings]
  simp only [List.append_assoc]

/-- Whatever the seed, the patched template is the flat form of the overlay with that seed. -/
theorem patch_flat (seed : ℕ) :
    patchOverlaySeed kaslrOverlayTemplate seed=some (flatten (seedTree seed)) := by
  rw [patch_template,flatten_seedTree]

end Arma.Tatu.Seed
