import Mathlib.Data.Set.Function
import Arma.Acpi.Image
import Arma.Build.Handoff
import Arma.Tatu.Lifecycle

/-!
# What a kernel is handed

The host supplies the overlay and nothing else. A boot that reaches the kernel enters it where
the measured header says, with the command line, the initrd and the kernel of the measured
part, whatever the overlay adds.
-/

namespace Arma.Tatu.Handover

open Acpi.Count Acpi.Image Acpi.Layout Acpi.Populate
open Base.ByteString Base.Checked Base.Patch Base.Windows BootInfo BootParams CpuRoom
open Devtree Devtree.Merge E820 Kaslr Kernel.Image Kernel.RelocTable Lifecycle Overlay Seed Validate

/-- What the devicetree library is relied on for. -/
structure BlobLaw [BootLib] : Prop where
  /-- What a merge writes is parsed as the merged tree. -/
  written : ∀ tree blob, BootLib.writeTree tree=some blob → BootLib.parseTree blob=some tree
  /-- The value of the command line is borrowed from the blob. -/
  borrowed : ∀ tree blob, BootLib.parseTree blob=some tree → ∀ value, bootargs tree=some value →
    slice (BootLib.bootargsOffset blob) value.length blob=value

/-- The addresses of the buffer for the merged tree. -/
def treeSet (ws : Workspace) : Set ℕ := Set.Ico ws.dtbm (ws.dtbm+dtbmSize)

/-- The addresses of the buffer for the tables. -/
def tablesSet (ws : Workspace) : Set ℕ := Set.Ico ws.acpi (ws.acpi+acpiWorkspaceSize)

/-- The addresses of the kernel. -/
def kernelSet (info : TatuBootInfo) : Set ℕ :=
  Set.Ico info.kernelGpa.toNat (info.kernelGpa.toNat+info.kernelSize.toNat)

/-- The number of relocation sites. -/
def siteCount (info : TatuBootInfo) : ℕ :=
  info.relocs64Count.toNat+info.relocs32negCount.toNat+info.relocs32Count.toNat

/-- The addresses of the relocation table. -/
def relocsSet (info : TatuBootInfo) : Set ℕ :=
  Set.Ico info.relocsGpa.toNat (info.relocsGpa.toNat+siteCount info*4)

/-- tatu's buffers are apart from one another, from the kernel and from its relocations. -/
structure Apart (ws : Workspace) (info : TatuBootInfo) : Prop where
  /-- The buffers are apart. -/
  own : Disjoint (treeSet ws) (tablesSet ws)
  /-- The kernel is apart from them. -/
  kernel : Disjoint (kernelSet info) (treeSet ws∪tablesSet ws)
  /-- The relocations are apart from them. -/
  relocs : Disjoint (relocsSet info) (treeSet ws∪tablesSet ws)

/-- Memories that agree on a range have the same bytes there. -/
theorem region_congr {m m' : Memory} {gpa size : ℕ}
    (h : Set.EqOn m m' (Set.Ico gpa (gpa+size))) : region m gpa size=region m' gpa size := by
  refine List.map_congr_left fun i hi => h ⟨Nat.le_add_right gpa i,?_⟩
  have hlt := List.mem_range.mp hi
  omega

/-- Storing a string changes what is under it only. -/
theorem store_eqOn {m : Memory} {gpa size : ℕ} {bs : Bytes} (h : bs.length≤ size) :
    Set.EqOn (store m gpa bs) m (Set.Ico gpa (gpa+size))ᶜ := by
  intro a ha
  rw [Set.mem_compl_iff,Set.mem_Ico] at ha
  exact store_of_notMem (by omega)

/-- A region that starts with a string, of which a part is looked at. -/
theorem slice_region (m : Memory) (gpa size o n : ℕ) (h : o+n≤ size) :
    slice o n (region m gpa size)=region m (gpa+o) n := by
  refine List.ext_getElem? fun i => ?_
  rw [getElem?_slice,getElem?_region,getElem?_region,Nat.add_assoc]
  by_cases hi : i<n
  · rw [if_pos hi,if_pos (by omega),if_pos hi]
  · rw [if_neg hi,if_neg hi]

/-- The words that relocating reads depend on the table of relocations only. -/
theorem relocsWords_congr {m m' : Memory} {info : TatuBootInfo}
    (h : Set.EqOn m m' (relocsSet info)) : relocsWords m info=relocsWords m' info := by
  have hregion : region m info.relocsGpa.toNat (siteCount info*4)=
      region m' info.relocsGpa.toNat (siteCount info*4) := region_congr h
  change (if siteCount info=0 then [] else decodeRecords 4 fromLeBytes (siteCount info)
    (region m info.relocsGpa.toNat (siteCount info*4)))=_
  rw [hregion]
  rfl

/-- The bytes of the relocated kernel, if it is to be moved at all. -/
def moved (info : TatuBootInfo) (words : List UInt32) (kernel : Bytes) (rand : ℕ) : Option Bytes :=
  (if words.isEmpty then none else splitTables info words).bind fun r =>
    if kaslrDelta info rand=0 then none else some (patchKernel r (kaslrDelta info rand) kernel)

/-- Without words nothing is moved. -/
theorem moved_nil (info : TatuBootInfo) (kernel : Bytes) (rand : ℕ) :
    moved info [] kernel rand=none := rfl

/-- Words that do not match the counts move nothing. -/
theorem moved_unsplit {info : TatuBootInfo} {words : List UInt32} (kernel : Bytes) (rand : ℕ)
    (h : splitTables info words=none) : moved info words kernel rand=none := by
  rw [moved,h,ite_self]
  rfl

/-- A delta of zero moves nothing, any other what the words list. -/
theorem moved_split {info : TatuBootInfo} {words : List UInt32} {r : Relocs} (kernel : Bytes)
    (rand : ℕ) (hsome : words.isEmpty=false) (h : splitTables info words=some r) :
    moved info words kernel rand=
      if kaslrDelta info rand=0 then none
      else some (patchKernel r (kaslrDelta info rand) kernel) := by
  rw [moved,hsome,if_neg Bool.false_ne_true,h,Option.bind_some]

/-- Relocating stores them in place of the kernel. -/
theorem applyKaslr_moved (m : Memory) (info : TatuBootInfo) (rand : ℕ) : applyKaslr m info rand=
    ((moved info (relocsWords m info) (kernelBytes m info) rand).map
      (store m info.kernelGpa.toNat)).getD m := by
  unfold applyKaslr
  dsimp only
  cases hempty : (relocsWords m info).isEmpty with
  | true =>
    rw [List.isEmpty_iff.mp hempty,moved_nil]
    rfl
  | false =>
    rw [if_neg Bool.false_ne_true]
    cases hsplit : splitTables info (relocsWords m info) with
    | none =>
      rw [moved_unsplit _ rand hsplit]
      rfl
    | some r =>
      rw [moved_split _ rand hempty hsplit,apply_ite (Option.map _),apply_ite (Option.getD · m)]
      rfl

/-- The relocated kernel is as long as it was. -/
theorem length_moved {info : TatuBootInfo} {words : List UInt32} {kernel out : Bytes} {rand : ℕ}
    (h : moved info words kernel rand=some out) : out.length=kernel.length := by
  obtain ⟨r,_,hr⟩ := Option.bind_eq_some_iff.mp h
  split at hr
  · cases hr
  · cases hr
    unfold patchKernel
    rw [length_patchAll,length_patchAll,length_patchAll]

/-- Relocating changes the kernel only. -/
theorem applyKaslr_eqOn (m : Memory) (info : TatuBootInfo) (rand : ℕ) :
    Set.EqOn (applyKaslr m info rand) m (kernelSet info)ᶜ := by
  rw [applyKaslr_moved]
  cases hmoved : moved info (relocsWords m info) (kernelBytes m info) rand with
  | none => exact Set.eqOn_refl m _
  | some out =>
    refine store_eqOn ?_
    rw [length_moved hmoved,kernelBytes,length_region]

/-- The relocated kernel depends on the relocations and on the kernel only. -/
theorem applyKaslr_congr {m m' : Memory} {info : TatuBootInfo}
    (hrelocs : Set.EqOn m m' (relocsSet info)) (hkernel : Set.EqOn m m' (kernelSet info))
    (rand : ℕ) : Set.EqOn (applyKaslr m info rand) (applyKaslr m' info rand) (kernelSet info) := by
  have hbytes : kernelBytes m info=kernelBytes m' info := region_congr hkernel
  rw [applyKaslr_moved,applyKaslr_moved,relocsWords_congr hrelocs,hbytes]
  cases moved info (relocsWords m' info) (kernelBytes m' info) rand with
  | none => exact hkernel
  | some out =>
    intro a ha
    change store m info.kernelGpa.toNat out a=store m' info.kernelGpa.toNat out a
    rw [store,store,hkernel ha]

/-- Drawing a word and relocating changes the kernel only. -/
theorem randomize_eqOn {cpu : Cpu} {info : TatuBootInfo} {m out : Memory}
    (h : randomize cpu info m=.ok out) : Set.EqOn out m (kernelSet info)ᶜ := by
  unfold randomize at h
  split at h
  · cases h
    exact Set.eqOn_refl m _
  · obtain ⟨rand,_,h⟩ := bind_ok.mp h
    cases h
    exact applyKaslr_eqOn m info rand.toNat

/-- It leaves the same kernel wherever the relocations and the kernel are the same. -/
theorem randomize_congr {cpu : Cpu} {info : TatuBootInfo} {m m' out : Memory}
    (hrelocs : Set.EqOn m m' (relocsSet info)) (hkernel : Set.EqOn m m' (kernelSet info))
    (h : randomize cpu info m=.ok out) :
    ∃ out', randomize cpu info m'=.ok out' ∧ Set.EqOn out out' (kernelSet info) := by
  unfold randomize at h
  unfold randomize
  rw [←relocsWords_congr hrelocs]
  split at h
  · rename_i hnothing
    cases h
    rw [if_pos hnothing]
    exact ⟨m',rfl,hkernel⟩
  · rename_i hsome
    obtain ⟨rand,hrand,h⟩ := bind_ok.mp h
    cases h
    rw [if_neg hsome,ok_bind hrand]
    exact ⟨_,rfl,applyKaslr_congr hrelocs hkernel rand.toNat⟩


/-- A random word that is drawn is enough to randomize. -/
theorem randomize_drawn {cpu : Cpu} {word : UInt64} (info : TatuBootInfo) (m : Memory)
    (h : drawn cpu=some word) :
    ∃ out, randomize cpu info m=.ok out := by
  unfold randomize
  split
  · exact ⟨m,rfl⟩
  · rw [ok_bind (okOr_ok.mpr h)]
    exact ⟨_,rfl⟩

section Boots

variable [BootLib] {arch : Arch} {cpu : Cpu} {ws : Workspace} {info : TatuBootInfo} {m m' : Memory}
  {base merged : Node} {overlay : List Fragment} {blob : Bytes}

/-- How the merged tree comes about. -/
structure Merges (arch : Arch) (cpu : Cpu) (info : TatuBootInfo) (m : Memory) (base : Node)
    (overlay : List Fragment) (merged : Node) (blob : Bytes) : Prop where
  /-- The header is filled in. -/
  magic : info.magic=BootInfo.magic
  /-- The measured tree, prepared for the merge. -/
  measured : ∃ prepared, prepareMergeBase arch cpu (baseDtbBytes m info)=some prepared ∧
    BootLib.parseTree prepared=some base
  /-- The overlay is not too large. -/
  size : info.hostDtboSize.toNat≤hostDtboMax
  /-- It is what the host has filled in. -/
  filled : BootLib.parseOverlay (hostDtboBytes m info)=some overlay
  /-- It is accepted. -/
  accepted : validateHostDtbo overlay base=.ok ()
  /-- It applies. -/
  applied : Merge.apply base overlay=some merged
  /-- The merged tree is written. -/
  written : BootLib.writeTree merged=some blob
  /-- It fits its buffer. -/
  room : blob.length≤dtbmSize
  /-- It is valid. -/
  valid : validateMerged merged (guestPaBits arch cpu)=.ok ()

/-- A merge applies the overlay and writes the tree, if there is room. -/
theorem mergeTree_some {room : ℕ} : mergeTree base overlay room=some blob ↔
    ∃ merged, Merge.apply base overlay=some merged ∧ BootLib.writeTree merged=some blob ∧
      blob.length≤room := by
  unfold mergeTree
  simp only [Option.bind_eq_bind,Option.bind_eq_some_iff,Option.ite_none_right_eq_some,
    Option.some.injEq]
  constructor
  · rintro ⟨merged,happly,_,hwritten,hroom,rfl⟩
    exact ⟨merged,happly,hwritten,hroom⟩
  · rintro ⟨merged,happly,hwritten,hroom⟩
    exact ⟨merged,happly,blob,hwritten,hroom,rfl⟩

/-- Merging succeeds exactly when each of its steps does. -/
theorem mergeStage_ok (blobs : BlobLaw) : mergeStage arch cpu info m=.ok (merged,blob) ↔
    ∃ base overlay, Merges arch cpu info m base overlay merged blob := by
  unfold mergeStage
  constructor
  · intro h
    split at h
    · exact absurd h fail_ne_ok
    rename_i hmagic
    obtain ⟨prepared,hprepared,h⟩ := bind_ok.mp h
    obtain ⟨base,hbase,h⟩ := bind_ok.mp h
    split at h
    · exact absurd h fail_ne_ok
    rename_i hsize
    obtain ⟨overlay,hoverlay,h⟩ := bind_ok.mp h
    obtain ⟨_,haccepted,h⟩ := bind_ok.mp h
    obtain ⟨written,hwritten,h⟩ := bind_ok.mp h
    obtain ⟨tree,htree,h⟩ := bind_ok.mp h
    obtain ⟨_,hvalid,h⟩ := bind_ok.mp h
    cases h
    obtain ⟨whole,happlied,hblob,hroom⟩ := mergeTree_some.mp (okOr_ok.mp hwritten)
    have hsame : whole=merged :=
      Option.some.inj ((blobs.written whole blob hblob).symm.trans (okOr_ok.mp htree))
    subst hsame
    exact ⟨base,overlay,not_not.mp hmagic,⟨prepared,okOr_ok.mp hprepared,okOr_ok.mp hbase⟩,
      not_lt.mp hsize,okOr_ok.mp hoverlay,context_ok.mp haccepted,happlied,hblob,hroom,
      context_ok.mp hvalid⟩
  · rintro ⟨base,overlay,h⟩
    obtain ⟨prepared,hprepared,hbase⟩ := h.measured
    have hblob : mergeTree base overlay dtbmSize=some blob :=
      mergeTree_some.mpr ⟨merged,h.applied,h.written,h.room⟩
    rw [if_neg (not_not.mpr h.magic),ok_bind (okOr_ok.mpr hprepared),ok_bind (okOr_ok.mpr hbase),
      if_neg (not_lt.mpr h.size),ok_bind (okOr_ok.mpr h.filled),
      ok_bind (context_ok.mpr h.accepted),ok_bind (okOr_ok.mpr hblob),
      ok_bind (okOr_ok.mpr (blobs.written merged blob h.written)),
      ok_bind (context_ok.mpr h.valid)]

/-- The merged tree is the measured one but for what the host may add. -/
theorem Merges.frame (law : PathLaw) (h : Merges arch cpu info m base overlay merged blob) :
    Frame base merged :=
  frame_apply law h.accepted h.applied

/-- The command line is the measured one. -/
theorem Merges.bootargs (law : PathLaw) (h : Merges arch cpu info m base overlay merged blob) :
    bootargs merged=Lifecycle.bootargs base :=
  chosen_property law (h.frame law) (by decide)

/-- The initrd is the measured one. -/
theorem Merges.initrd (law : PathLaw) (h : Merges arch cpu info m base overlay merged blob) :
    Initrd.fromDtb merged=Initrd.fromDtb base := by
  refine Build.Handoff.fromDtb_congr fun name hname => chosen_property law (h.frame law) ?_
  rintro rfl
  exact absurd hname (by decide)

/-- Filling keeps the length of the buffer and leaves a consistent image in front. -/
theorem populate_leaves {oem : Acpi.Sdt.OemIdentity} {gpa n : ℕ} {buf buf' : Bytes}
    (h : populate merged oem gpa buf=.ok (n,buf')) :
    ∃ l, run merged=.ok l ∧ n=l.offsets.total ∧ n≤buf.length ∧ buf'.length=buf.length ∧
      gpa<2^64 ∧ IsImage gpa l.offsets (buf'.take n) := by
  obtain ⟨l,hl,hroom,filled,hfilled,hout⟩ := populate_ok.mp h
  obtain ⟨kids,serial,console,hest⟩ := Acpi.Counted.run_ok hl
  have hbase := emission_base hfilled
  obtain ⟨t,ht,rfl⟩ := (emission_ok hest hbase hroom).mp hfilled
  obtain ⟨hlen,himage⟩ := isImage hest hbase ht
  cases hout
  refine ⟨l,hl,rfl,hroom,length_overwrite (by omega),by omega,?_⟩
  rw [overwrite,List.take_zero,List.nil_append,List.take_left' hlen]
  exact himage

/-- A tree whose tables fit one buffer fills any other that is large enough. -/
theorem populate_again {oem : Acpi.Sdt.OemIdentity} {gpa n : ℕ} {buf buf' other : Bytes}
    (h : populate merged oem gpa buf=.ok (n,buf')) (hroom : n≤other.length) :
    ∃ other', populate merged oem gpa other=.ok (n,other') := by
  obtain ⟨l,hl,hroom',filled,hfilled,hout⟩ := populate_ok.mp h
  obtain ⟨kids,serial,console,hest⟩ := Acpi.Counted.run_ok hl
  have hbase := emission_base hfilled
  obtain ⟨t,ht,_⟩ := (emission_ok hest hbase hroom').mp hfilled
  cases hout
  exact ⟨_,populate_ok.mpr ⟨l,hl,hroom,_,(emission_ok hest hbase hroom).mpr ⟨t,ht,rfl⟩,rfl⟩⟩

/-- Generating the tables leaves a consistent image in their buffer and changes nothing else. -/
theorem generate_ok {gpa : ℕ} {out : Memory} (h : generate merged gpa m=.ok out) :
    gpa<2^64 ∧ Set.EqOn out m (Set.Ico gpa (gpa+acpiWorkspaceSize))ᶜ ∧
      ∃ l, run merged=.ok l ∧ l.offsets.total≤acpiWorkspaceSize ∧
        IsImage gpa l.offsets (region out gpa l.offsets.total) := by
  obtain ⟨⟨n,buf⟩,hfilled,h⟩ := bind_ok.mp h
  cases h
  obtain ⟨l,hl,hn,hroom,hlen,hgpa,himage⟩ := populate_leaves (context_ok.mp hfilled)
  rw [length_region] at hroom hlen
  refine ⟨hgpa,store_eqOn hlen.le,l,hl,hn ▸ hroom,?_⟩
  have hback := slice_region (store m gpa buf) gpa acpiWorkspaceSize 0 n (by omega)
  have hwhole := region_store m gpa buf
  rw [hlen] at hwhole
  rw [hwhole,Nat.add_zero] at hback
  rw [←hn,←hback]
  exact himage

/-- What is not the host's of what an x86 kernel is handed. -/
structure Trusted (cpu : Cpu) (ws : Workspace) (info : TatuBootInfo) (m : Memory)
    (base merged : Node) (out : Handoff) : Prop where
  /-- It is entered where the header says. -/
  entry : out.entry=info.kernelEntryGpa.toNat
  /-- The command line is in memory, as measured. -/
  cmdLine : ∃ value, bootargs base=some value ∧
    region out.memory out.params.setupHeader.cmdLinePtr.toNat value.length=value
  /-- The initrd is the measured one. -/
  ramdisk : Initrd.fromDtb base=⟨out.params.setupHeader.ramdiskImage.toNat,
    out.params.setupHeader.ramdiskSize.toNat⟩
  /-- The tables are where the parameters say. -/
  rsdp : out.params.acpiRsdpAddr.toNat=ws.acpi
  /-- They are consistent. -/
  tables : ∃ l, run merged=.ok l ∧ l.offsets.total≤acpiWorkspaceSize ∧
    IsImage ws.acpi l.offsets (region out.memory ws.acpi l.offsets.total)
  /-- The memory map is the one of the merged tree. -/
  memoryMap : fillE820 merged ws.acpi acpiWorkspaceSize=.ok out.params.e820
  /-- The kernel is what relocating leaves of the one that was loaded. -/
  kernel : ∃ left, randomize cpu info m=.ok left ∧ Set.EqOn out.memory left (kernelSet info)
  /-- The rest of memory is as it was. -/
  rest : Set.EqOn out.memory m (kernelSet info∪(treeSet ws∪tablesSet ws))ᶜ

/-- Boot parameters have what they were made of. -/
theorem fillElf_ok {ptr gpa size : ℕ} {initrd : Initrd} {params : LinuxBootParams}
    (h : fillElf ptr initrd gpa size merged=.ok params) :
    params.setupHeader.cmdLinePtr.toNat=ptr ∧
      initrd=⟨params.setupHeader.ramdiskImage.toNat,params.setupHeader.ramdiskSize.toNat⟩ ∧
      params.acpiRsdpAddr=.ofNat gpa ∧ fillE820 merged gpa size=.ok params.e820 := by
  have hword : ∀ {v : ℕ} {w : UInt32}, tryU32 v=.ok w → w.toNat=v := by
    intro v w hw
    unfold tryU32 at hw
    split at hw
    · rename_i hlt
      cases hw
      exact UInt32.toNat_ofNat_of_lt' hlt
    · exact absurd hw fail_ne_ok
  obtain ⟨cmdLinePtr,hptr,h⟩ := bind_ok.mp h
  obtain ⟨image,himage,h⟩ := bind_ok.mp h
  obtain ⟨size',hsize,h⟩ := bind_ok.mp h
  obtain ⟨e820,he820,h⟩ := bind_ok.mp h
  cases h
  refine ⟨hword hptr,?_,rfl,he820⟩
  change initrd=⟨image.toNat,size'.toNat⟩
  rw [hword himage,hword hsize]

/-- The memories of a boot: with the merged tree, with the tables and with the kernel moved. -/
structure Memories (cpu : Cpu) (ws : Workspace) (info : TatuBootInfo) (m : Memory) (merged : Node)
    (blob : Bytes) (tabled out : Memory) : Prop where
  /-- The blob fits its buffer. -/
  room : blob.length≤dtbmSize
  /-- The tables are generated. -/
  generated : generate merged ws.acpi (store m ws.dtbm blob)=.ok tabled
  /-- The kernel is moved. -/
  randomized : randomize cpu info tabled=.ok out

namespace Memories

variable {tabled out : Memory}

/-- Outside the buffers nothing happens in front of the kernel's move. -/
theorem tabled_eqOn (h : Memories cpu ws info m merged blob tabled out) :
    Set.EqOn tabled m (treeSet ws∪tablesSet ws)ᶜ := by
  intro a ha
  rw [Set.compl_union] at ha
  exact ((generate_ok h.generated).2.1 ha.2).trans (store_eqOn h.room ha.1)

/-- The kernel is moved as if nothing had happened before. -/
theorem kernel (apart : Apart ws info) (h : Memories cpu ws info m merged blob tabled out) :
    ∃ left, randomize cpu info m=.ok left ∧ Set.EqOn out left (kernelSet info) :=
  randomize_congr (h.tabled_eqOn.mono apart.relocs.subset_compl_right)
    (h.tabled_eqOn.mono apart.kernel.subset_compl_right) h.randomized

/-- The rest of memory is as it was. -/
theorem rest (h : Memories cpu ws info m merged blob tabled out) :
    Set.EqOn out m (kernelSet info∪(treeSet ws∪tablesSet ws))ᶜ := by
  intro a ha
  rw [Set.compl_union] at ha
  exact (randomize_eqOn h.randomized ha.1).trans (h.tabled_eqOn ha.2)

/-- The merged tree stays in its buffer. -/
theorem tree (apart : Apart ws info) (h : Memories cpu ws info m merged blob tabled out) :
    region out ws.dtbm blob.length=blob := by
  have hsub : Set.Ico ws.dtbm (ws.dtbm+blob.length)⊆treeSet ws :=
    Set.Ico_subset_Ico_right (Nat.add_le_add_left h.room _)
  have hkernel : treeSet ws⊆(kernelSet info)ᶜ :=
    (apart.kernel.symm.mono_left Set.subset_union_left).subset_compl_right
  have hmoved : region out ws.dtbm blob.length=region tabled ws.dtbm blob.length :=
    region_congr ((randomize_eqOn h.randomized).mono (hsub.trans hkernel))
  have htabled : region tabled ws.dtbm blob.length=
      region (store m ws.dtbm blob) ws.dtbm blob.length :=
    region_congr ((generate_ok h.generated).2.1.mono (hsub.trans apart.own.subset_compl_right))
  rw [hmoved,htabled,region_store]

/-- The tables stay in theirs. -/
theorem tables (apart : Apart ws info) (h : Memories cpu ws info m merged blob tabled out) :
    ∃ l, run merged=.ok l ∧ l.offsets.total≤acpiWorkspaceSize ∧
      IsImage ws.acpi l.offsets (region out ws.acpi l.offsets.total) := by
  obtain ⟨_,_,l,hl,hroom,himage⟩ := generate_ok h.generated
  have hkernel : tablesSet ws⊆(kernelSet info)ᶜ :=
    (apart.kernel.symm.mono_left Set.subset_union_right).subset_compl_right
  have hsub : Set.Ico ws.acpi (ws.acpi+l.offsets.total)⊆tablesSet ws :=
    Set.Ico_subset_Ico_right (Nat.add_le_add_left hroom _)
  have hmoved : region out ws.acpi l.offsets.total=region tabled ws.acpi l.offsets.total :=
    region_congr ((randomize_eqOn h.randomized).mono (hsub.trans hkernel))
  rw [hmoved.symm] at himage
  exact ⟨l,hl,hroom,himage⟩

end Memories

/-- The command line is borrowed from the blob, so that it is where the blob is. -/
theorem cmdLine_region (blobs : BlobLaw) {gpa : ℕ} {value : Bytes}
    (hblob : BootLib.writeTree merged=some blob) (hvalue : Lifecycle.bootargs merged=some value)
    (hregion : region m gpa blob.length=blob) :
    region m (gpa+BootLib.bootargsOffset blob) value.length=value := by
  have hslice := blobs.borrowed merged blob (blobs.written merged blob hblob) value hvalue
  by_cases hempty : value.length=0
  · rw [hempty,List.length_eq_zero_iff.mp hempty]
    rfl
  · have hlen := congrArg List.length hslice
    rw [slice,List.length_take,List.length_drop] at hlen
    rw [←slice_region m gpa blob.length _ _ (by omega),hregion]
    exact hslice

/-- What a boot that reaches the kernel has gone through. -/
theorem rustMain_ok (blobs : BlobLaw) {out : Handoff} (h : rustMain cpu ws info m=.ok out) :
    ∃ base overlay merged blob tabled value,
      Merges .x86_64 cpu info m base overlay merged blob ∧
      Memories cpu ws info m merged blob tabled out.memory ∧
      Lifecycle.bootargs merged=some value ∧
      fillElf (ws.dtbm+BootLib.bootargsOffset blob) (Initrd.fromDtb merged) ws.acpi
        acpiWorkspaceSize merged=.ok out.params ∧ out.entry=info.kernelEntryGpa.toNat := by
  obtain ⟨⟨merged,blob⟩,hmerge,h⟩ := bind_ok.mp h
  obtain ⟨base,overlay,hmerges⟩ := (mergeStage_ok blobs).mp hmerge
  obtain ⟨tabled,htabled,h⟩ := bind_ok.mp h
  obtain ⟨ptr,hptr,h⟩ := bind_ok.mp h
  obtain ⟨params,hparams,h⟩ := bind_ok.mp h
  obtain ⟨left,hmoved,h⟩ := bind_ok.mp h
  cases h
  obtain ⟨value,hvalue,rfl⟩ := Option.map_eq_some_iff.mp (okOr_ok.mp hptr)
  exact ⟨base,overlay,merged,blob,tabled,value,hmerges,⟨hmerges.room,htabled,hmoved⟩,hvalue,
    context_ok.mp hparams,rfl⟩

/-- A boot whose steps succeed reaches the kernel; which buffer the tables are tried in does not
matter. -/
theorem rustMain_reaches (blobs : BlobLaw) {buf buf' value : Bytes} {n : ℕ} {word : UInt64}
    {params : LinuxBootParams} (hmerges : Merges .x86_64 cpu info m base overlay merged blob)
    (htables : populate merged oem ws.acpi buf=.ok (n,buf')) (hroom : n≤acpiWorkspaceSize)
    (hvalue : Lifecycle.bootargs merged=some value)
    (hparams : fillElf (ws.dtbm+BootLib.bootargsOffset blob) (Initrd.fromDtb merged) ws.acpi
      acpiWorkspaceSize merged=.ok params)
    (hdrawn : drawn cpu=some word) : ∃ out, rustMain cpu ws info m=.ok out := by
  have hlen := length_region (store m ws.dtbm blob) ws.acpi acpiWorkspaceSize
  obtain ⟨filled,hfilled⟩ := populate_again htables (hlen ▸ hroom)
  have hgenerate : generate merged ws.acpi (store m ws.dtbm blob)=
      .ok (store (store m ws.dtbm blob) ws.acpi filled) := by
    unfold generate
    rw [ok_bind (context_ok.mpr hfilled)]
  have hptr : cmdLinePtr merged blob ws.dtbm=some (ws.dtbm+BootLib.bootargsOffset blob) := by
    rw [cmdLinePtr,hvalue,Option.map_some]
  obtain ⟨out,hout⟩ := randomize_drawn info (store (store m ws.dtbm blob) ws.acpi filled) hdrawn
  unfold rustMain
  rw [ok_bind ((mergeStage_ok blobs).mpr ⟨base,overlay,hmerges⟩)]
  dsimp only
  rw [ok_bind hgenerate,ok_bind (okOr_ok.mpr hptr),ok_bind (context_ok.mpr hparams),ok_bind hout]
  exact ⟨_,rfl⟩

/-- Whatever the host supplies, a boot that reaches the kernel hands it the measured entry,
command line and initrd, the loaded kernel but for its relocation, and consistent tables. -/
theorem rustMain_trusted (law : PathLaw) (blobs : BlobLaw) (apart : Apart ws info) {out : Handoff}
    (h : rustMain cpu ws info m=.ok out) :
    ∃ base merged, BootLib.parseTree (baseDtbBytes m info)=some base ∧ Frame base merged ∧
      validateMerged merged (guestPaBits .x86_64 cpu)=.ok () ∧
      Trusted cpu ws info m base merged out := by
  obtain ⟨base,overlay,merged,blob,tabled,value,hmerges,hmem,hvalue,hparams,hentry⟩ :=
    rustMain_ok blobs h
  obtain ⟨prepared,hprepared,hparse⟩ := hmerges.measured
  obtain ⟨hptr,hinitrd,hrsdp,he820⟩ := fillElf_ok hparams
  cases hprepared
  refine ⟨base,merged,hparse,hmerges.frame law,hmerges.valid,?_⟩
  constructor
  · exact hentry
  · refine ⟨value,(hmerges.bootargs law).symm.trans hvalue,?_⟩
    rw [hptr]
    exact cmdLine_region blobs hmerges.written hvalue (hmem.tree apart)
  · exact (hmerges.initrd law).symm.trans hinitrd
  · rw [hrsdp]
    exact UInt64.toNat_ofNat_of_lt' (generate_ok hmem.generated).1
  · exact hmem.tables apart
  · exact he820
  · exact hmem.kernel apart
  · exact hmem.rest

end Boots

mutual

/-- `true` iff two trees are the same. -/
def sameNode : Node → Node → Bool
  | .mk name properties children,.mk name' properties' children' =>
    decide (name=name') && decide (properties=properties') && sameNodes children children'

/-- `true` iff two lists of trees are the same. -/
def sameNodes : List Node → List Node → Bool
  | [],[] => true
  | a::l,b::l' => sameNode a b && sameNodes l l'
  | _,_ => false

end

mutual

/-- Trees that test the same are. -/
theorem sameNode_sound : ∀ a b : Node, sameNode a b=true → a=b
  | .mk name properties children,.mk name' properties' children',h => by
    simp only [sameNode,Bool.and_eq_true,decide_eq_true_eq] at h
    rw [h.1.1,h.1.2,sameNodes_sound children children' h.2]

/-- Lists that test the same are. -/
theorem sameNodes_sound : ∀ l l' : List Node, sameNodes l l'=true → l=l'
  | [],[],_ => rfl
  | [],_::_,h => by cases h
  | _::_,[],h => by cases h
  | a::l,b::l',h => by
    simp only [sameNodes,Bool.and_eq_true] at h
    rw [sameNode_sound a b h.1,sameNodes_sound l l' h.2]

end

/-- Where the value of the command line of a tree is in a blob. -/
def lineOffset (tree : Node) (blob : Bytes) : Option ℕ :=
  ((plainLib.findPath tree "/chosen").bind fun chosen => chosen.property "bootargs").bind
    fun value => position value blob

/-- A library that knows certain trees by their blobs. -/
@[reducible] def knownLib (trees : List Node) (parse : Bytes → Option (List Fragment)) : BootLib where
  toOverlayLib := plainOverlayLib
  parseTree blob := trees.find? fun tree => decide (flatten tree=blob)
  parseOverlay := parse
  writeTree tree := if trees.any (sameNode tree) then some (flatten tree) else none
  bootargsOffset blob := ((trees.find? fun tree => decide (flatten tree=blob)).bind fun tree =>
    lineOffset tree blob).getD 0

/-- It is as it should be if no two trees have the same blob and their command lines are in
their blobs. -/
theorem knownLib_law {trees : List Node} {parse : Bytes → Option (List Fragment)}
    (hpair : (trees.map flatten).Nodup)
    (hlines : ∀ tree∈trees, (lineOffset tree (flatten tree)).isSome=true) :
    @BlobLaw (knownLib trees parse) := by
  let _ := knownLib trees parse
  constructor
  · intro tree blob h
    have h : (if trees.any (sameNode tree) then some (flatten tree) else none)=some blob := h
    rw [Option.ite_none_right_eq_some,List.any_eq_true] at h
    obtain ⟨⟨known,hmem,hsame⟩,hblob⟩ := h
    cases sameNode_sound tree known hsame
    cases hblob
    cases hfind : trees.find? fun t => decide (flatten t=flatten tree) with
    | none =>
      exact absurd (decide_eq_true rfl) (List.find?_eq_none.mp hfind tree hmem)
    | some found =>
      have hsome := List.find?_some hfind
      have heq : flatten found=flatten tree := of_decide_eq_true hsome
      have hfound : found=tree :=
        List.inj_on_of_nodup_map hpair (List.mem_of_find?_eq_some hfind) hmem heq
      rw [←hfound] at hfind ⊢
      exact hfind
  · intro tree blob h value hvalue
    have h : (trees.find? fun t => decide (flatten t=blob))=some tree := h
    have hsome := List.find?_some h
    have hblob : flatten tree=blob := of_decide_eq_true hsome
    have hline := hlines tree (List.mem_of_find?_eq_some h)
    obtain ⟨o,ho⟩ := Option.isSome_iff_exists.mp hline
    have hoffset : BootLib.bootargsOffset blob=o := by
      change ((trees.find? fun t => decide (flatten t=blob)).bind fun tree =>
        lineOffset tree blob).getD 0=o
      rw [h,Option.bind_some,←hblob,ho]
      rfl
    have hchosen : ((plainLib.findPath tree "/chosen").bind fun chosen =>
        chosen.property "bootargs")=some value := hvalue
    rw [lineOffset,hchosen,Option.bind_some,hblob] at ho
    rw [hoffset]
    exact slice_occurrence (position_some.mp ho).1

/-- The blob of an overlay with a number of cpus, in a section of 1024 bytes. -/
def overlayBlob (n : ℕ) : Bytes :=
  let blob := flatten (.mk "" [] [.mk "fragment@0" [⟨"target-path",dtString "/"⟩]
    [.mk "__overlay__" [] [sampleCpus n,CpuRoom.sampleMemory]]])
  blob++zeros (1024-blob.length)

/-- A library for boards with one cpu and with two. -/
@[reducible] def boardLib : BootLib :=
  knownLib [BaseDtb.tree plainInputs,cpusBoard 1,cpusBoard 2] fun blob =>
    if blob.take 1024=overlayBlob 1 then some (cpusOverlay 1)
    else if blob.take 1024=overlayBlob 2 then some (cpusOverlay 2)
    else none

/-- A processor of 46 address bits with a random word. -/
def boardCpu : Cpu := ⟨46,0,0,0,fun _ => some 5⟩

/-- The buffers of tatu. -/
def boardWs : Workspace := ⟨0x8000,0xA0000⟩

/-- A header with a kernel of 24 bytes at 2 MiB and four relocations. -/
def boardInfo : TatuBootInfo :=
  .new 0x20000 789 0x30000 1024 0x200000 24 0x200000 0x1000 (sampleRelocs.header 0x400000)

/-- Memory of a board, with the overlay of the host. -/
def boardMemory (n : ℕ) : Memory :=
  store (store (store (fun _ => 0) 0x20000 (flatten (BaseDtb.tree plainInputs))) 0x400000
    sampleRelocs.toSectionBytes) 0x30000 (overlayBlob n)

/-- The library is as it should be. -/
theorem boardLib_law : @BlobLaw boardLib := by
  refine knownLib_law (by decide +kernel) ?_
  decide +kernel

/-- The buffers are apart. -/
theorem board_apart : Apart boardWs boardInfo := by
  constructor
  · rw [treeSet,tablesSet,Set.Ico_disjoint_Ico]
    decide
  · rw [kernelSet,treeSet,tablesSet,Set.disjoint_union_right,Set.Ico_disjoint_Ico,
      Set.Ico_disjoint_Ico]
    decide
  · rw [relocsSet,treeSet,tablesSet,Set.disjoint_union_right,Set.Ico_disjoint_Ico,
      Set.Ico_disjoint_Ico]
    decide

/-- What a boot of a board with a number of cpus rests on. -/
structure Bootable (n : ℕ) : Prop where
  /-- The overlay fills its section. -/
  length : (overlayBlob n).length=1024
  /-- It is known. -/
  known : boardLib.parseOverlay (overlayBlob n)=some (cpusOverlay n)
  /-- The merged tree is known. -/
  written : boardLib.writeTree (cpusBoard n)=some (flatten (cpusBoard n))
  /-- Its blob fits. -/
  room : (flatten (cpusBoard n)).length≤dtbmSize
  /-- It is valid. -/
  valid : validateMerged (cpusBoard n) 46=.ok ()
  /-- Its tables fit 600 bytes. -/
  tables : (@populate plainLib (cpusBoard n) oem 0xA0000 (zeros 600)).toOption.isSome=true
  /-- It has a command line. -/
  line : (@Lifecycle.bootargs boardLib (cpusBoard n)).isSome=true
  /-- Its boot parameters can be built. -/
  params : (@fillElf plainLib (0x8000+boardLib.bootargsOffset (flatten (cpusBoard n)))
    (@Initrd.fromDtb plainLib (cpusBoard n)) 0xA0000 acpiWorkspaceSize
    (cpusBoard n)).toOption.isSome=true

/-- Such a board merges its overlay. -/
theorem Bootable.merges {n : ℕ} (h : Bootable n) :
    @Merges boardLib .x86_64 boardCpu boardInfo (boardMemory n) (BaseDtb.tree plainInputs)
      (cpusOverlay n) (cpusBoard n) (flatten (cpusBoard n)) := by
  let _ := boardLib
  have hbaseLen : (flatten (BaseDtb.tree plainInputs)).length=789 := by decide +kernel
  have hbase : baseDtbBytes (boardMemory n) boardInfo=flatten (BaseDtb.tree plainInputs) := by
    have hback := region_store (fun _ => 0) 0x20000 (flatten (BaseDtb.tree plainInputs))
    rw [hbaseLen] at hback
    refine Eq.trans (region_congr fun a ha => ?_) hback
    have hle : 0x20000≤a ∧ a<0x20000+789 := ha
    rw [boardMemory,store_of_notMem (by omega),store_of_notMem (by omega)]
  have hhost : hostDtboBytes (boardMemory n) boardInfo=overlayBlob n := by
    have hback := region_store (store (store (fun _ => 0) 0x20000
      (flatten (BaseDtb.tree plainInputs))) 0x400000 sampleRelocs.toSectionBytes) 0x30000
      (overlayBlob n)
    rw [h.length] at hback
    exact hback
  constructor
  · rfl
  · refine ⟨_,rfl,?_⟩
    rw [hbase]
    exact boardLib_law.written _ _ (if_pos (by decide +kernel))
  · decide
  · rw [hhost]
    exact h.known
  · exact cpusOverlay_accepted n
  · exact apply_cpusOverlay n
  · exact h.written
  · exact h.room
  · exact h.valid

/-- It reaches the kernel. -/
theorem Bootable.reaches {n : ℕ} (h : Bootable n) :
    ∃ out, @rustMain boardLib boardCpu boardWs boardInfo (boardMemory n)=.ok out := by
  let _ := boardLib
  obtain ⟨⟨size,buf⟩,htables⟩ := exists_ok h.tables
  obtain ⟨value,hvalue⟩ := Option.isSome_iff_exists.mp h.line
  obtain ⟨params,hparams⟩ := exists_ok h.params
  obtain ⟨_,_,_,hroom,_⟩ := populate_leaves htables
  rw [length_zeros] at hroom
  have hsmall : size≤acpiWorkspaceSize := hroom.trans (by decide)
  have hdrawn : drawn boardCpu=some 5 := by decide
  exact rustMain_reaches boardLib_law h.merges htables hsmall hvalue hparams hdrawn

/-- A board with one cpu boots. -/
theorem bootable_one : Bootable 1 := by
  constructor
  · decide +kernel
  · exact if_pos (by decide +kernel)
  · exact if_pos (by decide +kernel)
  · decide +kernel
  · decide +kernel
  · decide +kernel
  · decide +kernel
  · decide +kernel

/-- A board with one cpu reaches the kernel with what has been measured. -/
theorem rustMain_trusted_board : ∃ out base merged,
    @rustMain boardLib boardCpu boardWs boardInfo (boardMemory 1)=.ok out ∧
      @Trusted boardLib boardCpu boardWs boardInfo (boardMemory 1) base merged out := by
  let _ := boardLib
  obtain ⟨out,hout⟩ := bootable_one.reaches
  obtain ⟨base,merged,_,_,_,htrusted⟩ :=
    rustMain_trusted pathLaw_plain boardLib_law board_apart hout
  exact ⟨out,base,merged,hout,htrusted⟩

end Arma.Tatu.Handover
