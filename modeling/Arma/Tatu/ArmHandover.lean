import Arma.Tatu.Handover

/-!
# What an arm64 kernel is handed

On arm64 the merged tree is all that the kernel is handed. The seed in it is the word that tatu
has drawn: the measured tree gets it first, and no overlay of the host's can change it.
-/

namespace Arma.Tatu.ArmHandover

open Base.ByteString Base.Checked Base.TwoRuns BootInfo BootParams CpuRoom Devtree Devtree.Merge
open Handover hiding Trusted
open Kaslr Kernel.Image Lifecycle Overlay Seed Validate

/-- A property that is set is the first of its name. -/
theorem find?_setProperty (properties : List Property) (p : Property) :
    ((setProperty properties p).find? fun q => decide (q.name=p.name))=some p := by
  unfold setProperty
  induction properties with
  | nil => exact List.find?_cons_of_pos (decide_eq_true rfl)
  | cons q rest ih =>
    unfold upsert
    by_cases hq : q.name=p.name
    · rw [if_pos (decide_eq_true hq)]
      exact List.find?_cons_of_pos (decide_eq_true rfl)
    · rw [if_neg (by simpa using hq),List.find?_cons_of_neg (by simpa using hq)]
      exact ih

/-- Changing the first element that is found changes what is found. -/
theorem find?_modify {α : Type} {p : α → Bool} {change : α → α} (hkeep : ∀ a, p (change a)=p a)
    {l : List α} {i : ℕ} {a : α} (hi : l.findIdx? p=some i) (ha : l[i]?=some a) :
    (l.modify i change).find? p=some (change a) := by
  induction l generalizing i with
  | nil => cases ha
  | cons b rest ih =>
    rw [List.findIdx?_cons] at hi
    cases hb : p b with
    | true =>
      rw [hb,if_pos rfl,Option.some.injEq] at hi
      subst hi
      cases ha
      exact List.find?_cons_of_pos ((hkeep a).trans hb)
    | false =>
      rw [hb,if_neg Bool.false_ne_true,Option.map_eq_some_iff] at hi
      obtain ⟨j,hj,rfl⟩ := hi
      rw [List.modify_succ_cons,List.find?_cons_of_neg (by simp [hb])]
      exact ih hj ha

section Boots

variable [BootLib] {cpu : Cpu} {ws : Workspace} {info : TatuBootInfo} {m : Memory}
  {base merged seeded : Node} {overlay : List Fragment} {blob prepared : Bytes}

/-- The library parses the overlay of the seed. -/
def SeedLaw : Prop := ∀ seed<2^64,
  BootLib.parseOverlay (flatten (seedTree seed))=some [seedFragment seed]

/-- A property of `/chosen`. -/
def chosenProperty (root : Node) (name : String) : Option Bytes :=
  (DevtreeLib.findPath root "/chosen").bind fun chosen => chosen.property name

/-- `/chosen` is the child of the root that its name finds. -/
theorem chosen_child (law : PathLaw) (root : Node) :
    DevtreeLib.findPath root "/chosen"=DevtreeLib.child root "chosen" :=
  findPath_single law rfl (by decide) root

/-- A tree that gains a key has the other properties of `/chosen`. -/
theorem chosenProperty_gains (law : PathLaw) {key name : String} (h : Gains key base merged)
    (hne : name≠key) : chosenProperty merged name=chosenProperty base name := by
  have hrel : Option.Rel (Gains key) (DevtreeLib.child base "chosen")
      (DevtreeLib.child merged "chosen") := by
    rw [law.child,law.child]
    refine rel_find? (fun a b hab => ?_) h.children
    rw [hab.name]
  rw [chosenProperty,chosenProperty,chosen_child law,chosen_child law]
  cases hb : DevtreeLib.child base "chosen" with
  | none =>
    cases hm : DevtreeLib.child merged "chosen" with
    | none => rfl
    | some n =>
      rw [hb,hm] at hrel
      cases hrel
  | some c =>
    cases hm : DevtreeLib.child merged "chosen" with
    | none =>
      rw [hb,hm] at hrel
      cases hrel
    | some n =>
      rw [hb,hm] at hrel
      cases hrel with
      | some hgain => exact hgain.property hne

/-- Merging the seed sets it in `/chosen` and changes nothing else. -/
theorem apply_seed (law : PathLaw) {seed : ℕ} (h : Merge.apply base [seedFragment seed]=some seeded) :
    Gains "kaslr-seed" base seeded ∧ chosenProperty seeded "kaslr-seed"=some (beBytes 8 seed) := by
  obtain ⟨next,hnext,hrest⟩ := Option.bind_eq_some_iff.mp h
  cases hrest
  obtain ⟨pos,hpos,rfl⟩ := Option.map_eq_some_iff.mp hnext
  have hprops : ∀ p∈(seedFragment seed).node.properties, p.name="kaslr-seed" := by
    intro p hp
    cases List.mem_singleton.mp hp
    rfl
  have hgain := gains_mergeInto OverlayLib.found hprops rfl
  refine ⟨gains_changeAt hgain pos base,?_⟩
  change OverlayLib.position base (.path "/chosen")=some pos at hpos
  rw [law.absolute base _ rfl,show segments "/chosen"=["chosen"] by decide] at hpos
  obtain ⟨i,child,below,hi,hchild,hbelow,rfl⟩ := positionOf_cons.mp hpos
  cases hbelow
  rw [chosenProperty,chosen_child law,law.child]
  have hkeep : ∀ c : Node, OverlayLib.found "chosen"
      (mergeInto OverlayLib.found (seedFragment seed).node c).name=
        OverlayLib.found "chosen" c.name := by
    intro c
    rw [name_mergeInto]
  have hfind : (base.children.modify i (mergeInto OverlayLib.found (seedFragment seed).node)).find?
      (fun c => OverlayLib.found "chosen" c.name)=
        some (mergeInto OverlayLib.found (seedFragment seed).node child) :=
    find?_modify hkeep hi hchild
  change ((base.children.modify i (mergeInto OverlayLib.found (seedFragment seed).node)).find?
    fun c => OverlayLib.found "chosen" c.name).bind (fun chosen => chosen.property "kaslr-seed")=_
  rw [hfind,Option.bind_some]
  exact congrArg (Option.map Property.value)
    (find?_setProperty child.properties ⟨"kaslr-seed",beBytes 8 seed⟩)

/-- What the measured tree is prepared as: it has the seed. -/
theorem prepare_seeded (blobs : BlobLaw) (hseed : SeedLaw) {bytes : Bytes}
    (h : prepareMergeBase .aarch64 cpu bytes=some prepared) :
    ∃ base seeded, BootLib.parseTree bytes=some base ∧
      Merge.apply base [seedFragment (seedWord cpu).toNat]=some seeded ∧
      BootLib.parseTree prepared=some seeded := by
  have hroom : ¬templateRoom<kaslrOverlayTemplate.length := by decide +kernel
  unfold prepareMergeBase at h
  dsimp only at h
  rw [if_neg hroom,patch_template,←flatten_seedTree] at h
  simp only [Option.bind_eq_bind,Option.bind_some,hseed _ (seedWord cpu).toNat_lt,
    Option.bind_eq_some_iff] at h
  obtain ⟨base,hbase,hmerge⟩ := h
  obtain ⟨seeded,happly,hwritten,_⟩ := mergeTree_some.mp hmerge
  exact ⟨base,seeded,hbase,happly,blobs.written seeded prepared hwritten⟩

/-- What is not the host's of what an arm64 kernel is handed. -/
structure Trusted (cpu : Cpu) (ws : Workspace) (info : TatuBootInfo) (m : Memory)
    (base merged : Node) (out : ArmHandoff) : Prop where
  /-- It is entered where it is loaded. -/
  entry : out.entry=info.kernelGpa.toNat
  /-- `x0` leads to the merged tree. -/
  tree : ∃ blob, region out.memory out.x0 blob.length=blob ∧ BootLib.parseTree blob=some merged
  /-- The seed is the word that was drawn. -/
  seed : chosenProperty merged "kaslr-seed"=some (beBytes 8 (seedWord cpu).toNat)
  /-- The command line is the measured one. -/
  cmdLine : chosenProperty merged "bootargs"=chosenProperty base "bootargs"
  /-- The initrd is the measured one. -/
  ramdisk : Initrd.fromDtb merged=Initrd.fromDtb base
  /-- The rest of the tree is the measured one but for the seed and what the host may add. -/
  frame : ∃ seeded, Gains "kaslr-seed" base seeded ∧ Frame seeded merged
  /-- The rest of memory is as it was, the kernel included. -/
  rest : Set.EqOn out.memory m (treeSet ws)ᶜ

/-- Whatever the host supplies, a boot that reaches an arm64 kernel hands it a tree with the seed
that was drawn and with the measured command line and initrd, and leaves the kernel alone. -/
theorem rustMainArm_trusted (law : PathLaw) (blobs : BlobLaw) (hseed : SeedLaw) {out : ArmHandoff}
    (h : rustMainArm cpu ws info m=.ok out) :
    ∃ base merged, BootLib.parseTree (baseDtbBytes m info)=some base ∧
      validateMerged merged (guestPaBits .aarch64 cpu)=.ok () ∧
      Trusted cpu ws info m base merged out := by
  obtain ⟨⟨merged,blob⟩,hmerge,h⟩ := bind_ok.mp h
  cases h
  obtain ⟨measured,overlay,hmerges⟩ := (mergeStage_ok blobs).mp hmerge
  obtain ⟨prepared,hprepared,hparse⟩ := hmerges.measured
  obtain ⟨base,seeded,hbase,happly,hsame⟩ := prepare_seeded blobs hseed hprepared
  cases hsame.symm.trans hparse
  obtain ⟨hgains,hdrawn⟩ := apply_seed law happly
  have hframe := hmerges.frame law
  have hkept : ∀ name, name≠"numa-node-id" →
      chosenProperty merged name=chosenProperty measured name :=
    fun name hne => chosen_property law hframe hne
  have hline : chosenProperty merged "bootargs"=chosenProperty base "bootargs" :=
    (hkept _ (by decide)).trans (chosenProperty_gains law hgains (by decide))
  refine ⟨base,merged,hbase,hmerges.valid,?_⟩
  constructor
  · rfl
  · exact ⟨blob,region_store m ws.dtbm blob,blobs.written merged blob hmerges.written⟩
  · exact (hkept _ (by decide)).trans hdrawn
  · exact hline
  · refine Build.Handoff.fromDtb_congr fun name hname => ?_
    have hne : name≠"numa-node-id" ∧ name≠"kaslr-seed" := by
      constructor <;> rintro rfl <;> exact absurd hname (by decide)
    exact (hkept name hne.1).trans (chosenProperty_gains law hgains hne.2)
  · exact ⟨measured,hgains,hframe⟩
  · exact store_eqOn hmerges.room

/-- A boot whose steps succeed reaches the kernel. -/
theorem rustMainArm_reaches (blobs : BlobLaw)
    (h : Merges .aarch64 cpu info m base overlay merged blob) :
    rustMainArm cpu ws info m=.ok ⟨info.kernelGpa.toNat,ws.dtbm,store m ws.dtbm blob⟩ := by
  unfold rustMainArm
  rw [ok_bind ((mergeStage_ok blobs).mpr ⟨base,overlay,h⟩)]

end Boots

/-- The measured tree of a plain arm64 board. -/
def armBase : Node := BaseDtb.tree ⟨.aarch64,"quiet",none,none,[],none,none⟩

/-- The tree with a seed of 5. -/
def armSeeded : Node := (@Merge.apply plainOverlayLib armBase [seedFragment 5]).getD armBase

/-- The tree with a cpu and memory of the host's. -/
def armMerged : Node := (@Merge.apply plainOverlayLib armSeeded (cpusOverlay 1)).getD armBase

/-- `true` iff a blob is the template but for the seed. -/
def seedBlob (blob : Bytes) : Bool :=
  decide (blob.take 128=kaslrOverlayTemplate.take 128 ∧ blob.length=175 ∧
    blob.drop 136=kaslrOverlayTemplate.drop 136)

/-- A value that there is is the one that it is got as. -/
theorem eq_some_getD {α : Type} {o : Option α} {d : α} (h : o.isSome=true) :
    o=some (o.getD d) := by
  cases o with
  | none => cases h
  | some a => rfl

/-- A library that knows these trees, the overlay of the host and every seed. -/
@[reducible] def armLib : BootLib :=
  knownLib [armBase,armSeeded,armMerged] fun blob =>
    if seedBlob blob then some [seedFragment (ofBE (slice 128 8 blob))]
    else if blob=overlayBlob 1 then some (cpusOverlay 1)
    else none

/-- Every seed is parsed. -/
theorem armLib_seed : @SeedLaw armLib := by
  intro seed hseed
  have hfront : (kaslrOverlayTemplate.take 128).length=128 := by decide +kernel
  have hback : (kaslrOverlayTemplate.drop 136).length=39 := by decide +kernel
  have hblob := flatten_seedTree seed
  have hslice : slice 128 8 (flatten (seedTree seed))=beBytes 8 seed := by
    rw [hblob,List.append_assoc,slice,List.drop_left' hfront]
    exact List.take_left' (length_beBytes 8 seed)
  have hknown : seedBlob (flatten (seedTree seed))=true := by
    refine decide_eq_true ⟨?_,?_,?_⟩
    · rw [hblob,List.append_assoc]
      exact List.take_left' hfront
    · rw [hblob,List.length_append,List.length_append,hfront,hback,length_beBytes]
    · rw [hblob]
      exact List.drop_left' (by rw [List.length_append,hfront,length_beBytes])
  have hvalue : ofBE (beBytes 8 seed)=seed := by
    rw [ofBE_beBytes,Nat.mod_eq_of_lt (by rw [show 256^8=2^64 by decide]; exact hseed)]
  refine (if_pos hknown).trans ?_
  rw [hslice,hvalue]

/-- The library is as it should be. -/
theorem armLib_law : @BlobLaw armLib := by
  refine knownLib_law (by decide +kernel) ?_
  decide +kernel

/-- A processor of 48 address bits with a random word. -/
def armCpu : Cpu := ⟨0,5,0x1000000000000000,0,fun _ => some 5⟩

/-- A header with a kernel of 64 KiB. -/
def armInfo : TatuBootInfo :=
  .new 0x20000 901 0x30000 1024 0x200000 0x10000 0x200000 0x10000
    (Kernel.RelocTable.Relocs.header ⟨[],[],[]⟩ 0)

/-- Memory of the board, with the overlay of the host. -/
def armMemory : Memory :=
  store (store (fun _ => 0) 0x20000 (flatten armBase)) 0x30000 (overlayBlob 1)

/-- The board merges the seed and then the overlay of the host. -/
theorem arm_merges : @Merges armLib .aarch64 armCpu armInfo armMemory armSeeded (cpusOverlay 1)
    armMerged (flatten armMerged) := by
  let _ := armLib
  have hbaseLen : (flatten armBase).length=901 := by decide +kernel
  have hbase : baseDtbBytes armMemory armInfo=flatten armBase := by
    have hback := region_store (fun _ => 0) 0x20000 (flatten armBase)
    rw [hbaseLen] at hback
    refine Eq.trans (region_congr fun a ha => ?_) hback
    have hle : 0x20000≤a ∧ a<0x20000+901 := ha
    rw [armMemory,store_of_notMem (by omega)]
  have hlen : (overlayBlob 1).length=1024 := by decide +kernel
  have hhost : hostDtboBytes armMemory armInfo=overlayBlob 1 := by
    have hback := region_store (store (fun _ => 0) 0x20000 (flatten armBase)) 0x30000
      (overlayBlob 1)
    rw [hlen] at hback
    exact hback
  have hseeded : Merge.apply armBase [seedFragment 5]=some armSeeded :=
    eq_some_getD (by decide +kernel)
  have hmerged : Merge.apply armSeeded (cpusOverlay 1)=some armMerged :=
    eq_some_getD (by decide +kernel)
  have hword : (seedWord armCpu).toNat=5 := by decide
  constructor
  · rfl
  · refine ⟨flatten armSeeded,?_,armLib_law.written _ _ (if_pos (by decide +kernel))⟩
    have hparse : BootLib.parseTree (flatten armBase)=some armBase :=
      armLib_law.written _ _ (if_pos (by decide +kernel))
    have htree : mergeTree armBase [seedFragment 5] kaslrScratch=some (flatten armSeeded) :=
      mergeTree_some.mpr ⟨armSeeded,hseeded,if_pos (by decide +kernel),by decide +kernel⟩
    have hroom : ¬templateRoom<kaslrOverlayTemplate.length := by decide +kernel
    unfold prepareMergeBase
    dsimp only
    rw [if_neg hroom,hword,patch_template,←flatten_seedTree,hbase]
    simp only [Option.bind_eq_bind,Option.bind_some,armLib_seed 5 (by decide),hparse,htree]
  · decide
  · rw [hhost]
    exact (if_neg (by decide +kernel)).trans (if_pos rfl)
  · decide +kernel
  · exact hmerged
  · exact if_pos (by decide +kernel)
  · decide +kernel
  · decide +kernel

/-- The board boots with the seed that was drawn. -/
theorem rustMainArm_trusted_board : ∃ out base merged,
    @rustMainArm armLib armCpu boardWs armInfo armMemory=.ok out ∧
      @Trusted armLib armCpu boardWs armInfo armMemory base merged out := by
  let _ := armLib
  have hout := @rustMainArm_reaches armLib armCpu boardWs armInfo armMemory _ _ _ _ armLib_law
    arm_merges
  obtain ⟨base,merged,_,_,htrusted⟩ :=
    rustMainArm_trusted pathLaw_plain armLib_law armLib_seed hout
  exact ⟨_,base,merged,hout,htrusted⟩

end Arma.Tatu.ArmHandover
