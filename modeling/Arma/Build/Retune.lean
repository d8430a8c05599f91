import Arma.Build.Launch
import Arma.Cmdline

/-!
# Editing the command line of a finished image

A devicetree that is not attached can be edited after the build. The header of the image has the
size that it had then, and tatu reads no more: a boot gets the new line exactly when the edited
devicetree has not become longer.
-/

namespace Arma.Build.Retune

open Base.ByteString Base.Checked Base.Windows BootInfo Devtree Devtree.Merge Handoff Header
open Kernel.Image Launch Mapped Planner.Model Run TatuImage
open Cmdline (EncodeLaw IsFile Kept OwnedLib Retuned Write kept_runAll retuned_setBootargs runAll)
open Build.Inputs (Files)
open Manifest (FillKind DtbMode)
open Tatu.ArmHandover (chosenProperty)
open Tatu.BootParams Tatu.CpuRoom Tatu.Handover Tatu.Kaslr Tatu.Lifecycle

section Regions

variable (m : Memory) (gpa : ℕ)

/-- A region goes on behind its first part. -/
theorem region_add (n k : ℕ) : region m gpa (n+k)=region m gpa n++region m (gpa+n) k := by
  rw [region,List.range_add,List.map_append,List.map_map]
  simp [region,Function.comp_def,Nat.add_assoc]

/-- The first part of a region. -/
theorem take_region {n k : ℕ} (h : n≤k) : (region m gpa k).take n=region m gpa n := by
  obtain ⟨d,rfl⟩ := Nat.exists_eq_add_of_le h
  rw [region_add]
  exact List.take_left' (length_region m gpa n)

end Regions

/-- What tatu takes for the measured tree. -/
theorem baseDtbBytes_eq {libs : Libs} {tatu : TatuImage} {input : BuildInput} {b : Built}
    {ws : Workspace} {supply : FillKind → Bytes} {m : Memory}
    (h : Booting libs tatu input b ws supply m) :
    baseDtbBytes m b.bootInfo=region m b.dtb.vaddr b.payload.dtbBytes.length := by
  have hstated := stated (run_ok h.run)
  rw [baseDtbBytes,hstated.baseDtbGpa,hstated.baseDtbSize]

section Boots

variable [OwnedLib] {libs : Libs} {tatu : TatuImage} {input : BuildInput} {b : Built}
  {ws : Workspace} {supply : FillKind → Bytes} {m : Memory} {cpu : Cpu}

/-- What the parser makes of a blob that was encoded. -/
structure BlobEnd : Prop where
  /-- A blob says where it ends: what is behind it is not looked at. -/
  whole : ∀ tree out, OwnedLib.encode tree=some out → ∀ rest,
    BootLib.parseTree (out++rest)=some tree
  /-- A blob that ends sooner is refused. -/
  cut : ∀ tree out, OwnedLib.encode tree=some out → ∀ n<out.length,
    BootLib.parseTree (out.take n)=none

/-- It is read back. -/
theorem BlobEnd.encodeLaw (h : BlobEnd) : EncodeLaw := by
  intro tree out hout
  have hwhole := h.whole tree out hout []
  rwa [List.append_nil] at hwhole

/-- A tree that cannot be parsed halts the boot. -/
theorem rustMain_baseParse (h : Booting libs tatu input b ws supply m)
    (hbase : BootLib.parseTree (baseDtbBytes m b.bootInfo)=none) :
    rustMain cpu ws b.bootInfo m=fail .baseParse := by
  have hstated := stated (run_ok h.run)
  have hprepare : prepareMergeBase .x86_64 cpu (baseDtbBytes m b.bootInfo)=
      some (baseDtbBytes m b.bootInfo) := rfl
  unfold rustMain mergeStage
  rw [if_neg (not_not.mpr hstated.magic),ok_bind (okOr_ok.mpr hprepare),hbase]
  rfl

/-- The tree of the build, with another line. -/
theorem retuned_tree (hchosen : ChosenLaw) (h : Ran libs tatu input b)
    {new : String} {root : Node}
    (hretuned : Retuned new (BaseDtb.tree (dtbInputs input b.kernel b.lay)) root) :
    Initrd.fromDtb root=((initrdExtent b.lay).map fun e => (⟨e.1,e.2⟩ : Initrd)).getD .none := by
  have hsame : Initrd.fromDtb root=
      Initrd.fromDtb (BaseDtb.tree (dtbInputs input b.kernel b.lay)) := by
    refine fromDtb_congr fun name hname => hretuned.chosen name ?_
    rintro rfl
    exact absurd hname (by decide)
  rw [hsame]
  exact fromDtb_tree hchosen fun e he => extent_word h he

/-- A boot that reads the whole of a blob gets its tree. -/
theorem parsed_whole (hend : BlobEnd) (h : Booting libs tatu input b ws supply m)
    (hmode : input.dtbMode≠.attached) {root : Node} (hout : OwnedLib.encode root=some (supply .dtDtb))
    (hle : (supply .dtDtb).length≤b.payload.dtbBytes.length) :
    BootLib.parseTree (baseDtbBytes m b.bootInfo)=some root := by
  obtain ⟨d,hd⟩ := Nat.exists_eq_add_of_le hle
  rw [baseDtbBytes_eq h,hd,region_add,h.baseDtb (fun heq => absurd heq hmode) fun _ => rfl]
  exact hend.whole root _ hout _

/-- One that reads less gets none. -/
theorem parsed_cut (hend : BlobEnd) (h : Booting libs tatu input b ws supply m)
    (hmode : input.dtbMode≠.attached) {root : Node} (hout : OwnedLib.encode root=some (supply .dtDtb))
    (hlt : b.payload.dtbBytes.length<(supply .dtDtb).length) :
    BootLib.parseTree (baseDtbBytes m b.bootInfo)=none := by
  have hread := h.baseDtb (fun heq => absurd heq hmode) fun _ => rfl
  rw [baseDtbBytes_eq h,←take_region m b.dtb.vaddr hlt.le,hread]
  exact hend.cut root _ hout _ hlt

/-- Whatever commands are run on the devicetree of a finished image, a boot halts for a reason that
is arma's exactly when the devicetree has become longer. Any other boot that reaches the kernel
delivers what was built, with the line that was written last. -/
theorem retuned_boots (law : PathLaw) (hself : OverlayLib.found "chosen" "chosen"=true)
    (hchosen : ChosenLaw) (blobs : BlobLaw) (hfdt : FdtLaw libs) (hend : BlobEnd)
    (h : Booting libs tatu input b ws supply m) (hmode : input.dtbMode≠.attached) {write : Write}
    {files : Files} {path : String} (hfile : files.contents path=some b.payload.dtbBytes)
    (commands : List (Option String))
    (hsupply : (runAll write path commands (files,none)).1.contents path=some (supply .dtDtb))
    {s : TatuSection} (hs : s∈tatu.sections) (hboot : s.isBootinfo=true)
    (hroom : b.dtbo.virtualSize≤hostDtboMax) :
    (¬Fails (fun e => e∈measuredHalts)
        (rustMain cpu ws (ofPage (region m s.vaddr sectionSize)) m) ↔
      (supply .dtDtb).length≤b.payload.dtbBytes.length) ∧
    ∀ out, rustMain cpu ws (ofPage (region m s.vaddr sectionSize)) m=.ok out →
      Delivered {input with
        cmdline := (runAll write path commands (files,none)).2.getD input.cmdline} b supply out := by
  have hran := run_ok h.run
  have hbuilt := parsed_built hfdt hran
  have hstart : Kept (BaseDtb.tree (dtbInputs input b.kernel b.lay)) b.payload.dtbBytes path files
      (files,none) := ⟨fun _ _ => rfl,_,hfile,rfl⟩
  have hkept : Kept _ _ path files (runAll write path commands (files,none)) :=
    kept_runAll hself hend.encodeLaw hbuilt commands hstart
  rw [h.header hs hboot]
  generalize runAll write path commands (files,none)=after at hsupply hkept ⊢
  obtain ⟨now,line⟩ := after
  obtain ⟨bytes,hbytes,his⟩ := hkept.file
  cases hsupply.symm.trans hbytes
  cases line with
  | none =>
    have hparsed := (Setting.mk h fun _ => his).parsed hfdt
    have hargs := bootargs_tree hchosen (dtbInputs input b.kernel b.lay)
    have hlength : (supply .dtDtb).length≤b.payload.dtbBytes.length := (congrArg List.length his).le
    refine ⟨iff_of_true (h.halts law blobs hparsed hargs hroom) hlength,fun out hout => ?_⟩
    refine h.delivered law blobs hparsed hargs ?_ hout
    exact fromDtb_tree hchosen fun e he => extent_word hran he
  | some new =>
    obtain ⟨root,hset,hout⟩ := his
    have hretuned := retuned_setBootargs law hset
    by_cases hle : (supply .dtDtb).length≤b.payload.dtbBytes.length
    · have hparsed := parsed_whole hend h hmode hout hle
      refine ⟨iff_of_true (h.halts law blobs hparsed hretuned.line hroom) hle,fun handoff hdone => ?_⟩
      exact h.delivered law blobs hparsed hretuned.line (retuned_tree hchosen hran hretuned) hdone
    · rw [rustMain_baseParse h (parsed_cut hend h hmode hout (not_le.mp hle))]
      refine ⟨iff_of_false (fun hnot => hnot ⟨_,by decide,rfl⟩) hle,fun handoff hdone => ?_⟩
      exact absurd hdone fail_ne_ok

end Boots

/-- The first of some trees whose blob a blob begins with. -/
def knownTree (trees : List Node) (blob : Bytes) : Option Node :=
  trees.find? fun tree => (flatten tree).isPrefixOf blob

/-- The blob of one of some trees. -/
def knownBlob (trees : List Node) (tree : Node) : Option Bytes :=
  if trees.any (sameNode tree) then some (flatten tree) else none

/-- A library that knows certain trees by the blobs that begin with theirs. -/
@[reducible] def endedLib (trees : List Node) (parse : Bytes → Option (List Fragment)) : OwnedLib where
  toBootLib := exactLib (knownTree trees) parse (knownBlob trees) fun blob =>
    ((knownTree trees blob).bind fun tree => lineOffset tree (flatten tree)).getD 0
  encode := knownBlob trees

section Known

variable {trees : List Node} {tree : Node} {blob : Bytes}

/-- Neither of two blobs begins with the other one. -/
def Unlike (t t' : Node) : Prop := ¬flatten t<+:flatten t' ∧ ¬flatten t'<+:flatten t

instance (t t' : Node) : Decidable (Unlike t t') := inferInstanceAs (Decidable (_ ∧ _))

instance : Std.Symm Unlike := ⟨fun _ _ h => h.symm⟩

/-- A tree with a blob is one of them. -/
theorem knownBlob_some (h : knownBlob trees tree=some blob) : tree∈trees ∧ flatten tree=blob := by
  rw [knownBlob,Option.ite_none_right_eq_some,List.any_eq_true] at h
  obtain ⟨⟨known,hmem,hsame⟩,hblob⟩ := h
  rw [sameNode_sound tree known hsame] at hblob ⊢
  exact ⟨hmem,Option.some.inj hblob⟩

/-- A tree that is found is one of them, and the blob begins with its. -/
theorem knownTree_some (h : knownTree trees blob=some tree) :
    tree∈trees ∧ flatten tree<+:blob := by
  have hbegins := List.find?_some h
  exact ⟨List.mem_of_find?_eq_some h,List.isPrefixOf_iff_prefix.mp hbegins⟩

/-- A blob that begins with the one of a tree is parsed as that tree. -/
theorem knownTree_begins (hunlike : trees.Pairwise Unlike) (hmem : tree∈trees)
    (h : flatten tree<+:blob) : knownTree trees blob=some tree := by
  cases hfind : knownTree trees blob with
  | none => exact absurd (List.isPrefixOf_iff_prefix.mpr h) (List.find?_eq_none.mp hfind tree hmem)
  | some found =>
    obtain ⟨hfound,hbegins⟩ := knownTree_some hfind
    refine congrArg some (Classical.byContradiction fun hne => ?_)
    obtain ⟨hno,hno'⟩ := hunlike.forall hfound hmem hne
    exact (List.prefix_or_prefix_of_prefix hbegins h).elim hno hno'

/-- What occurs in a string occurs there in front of another one. -/
theorem mem_occurrences_append {needle hay : Bytes} {i : ℕ} (h : i∈occurrences needle hay)
    (rest : Bytes) : i∈occurrences needle (hay++rest) := by
  obtain ⟨hlt,hbegins⟩ := h
  refine ⟨by rw [List.length_append]; omega,?_⟩
  rw [List.drop_append_of_le_length hlt.le]
  exact hbegins.trans (List.prefix_append _ _)

/-- Such a library is as it should be. -/
theorem endedLib_law {parse : Bytes → Option (List Fragment)} (hunlike : trees.Pairwise Unlike)
    (hlines : ∀ tree∈trees, (lineOffset tree (flatten tree)).isSome=true) :
    @BlobLaw (endedLib trees parse).toBootLib := by
  let _ := endedLib trees parse
  constructor
  · intro tree blob h
    obtain ⟨hmem,rfl⟩ := knownBlob_some h
    exact knownTree_begins hunlike hmem (List.prefix_refl _)
  · intro tree blob h value hvalue
    have h : knownTree trees blob=some tree := h
    obtain ⟨hmem,rest,rfl⟩ := knownTree_some h
    obtain ⟨o,ho⟩ := Option.isSome_iff_exists.mp (hlines tree hmem)
    have hoffset : BootLib.bootargsOffset (flatten tree++rest)=o := by
      change ((knownTree trees (flatten tree++rest)).bind fun tree => lineOffset tree (flatten tree)).getD 0=o
      rw [h,Option.bind_some,ho]
      rfl
    have hchosen : ((plainLib.findPath tree "/chosen").bind fun chosen =>
        chosen.property "bootargs")=some value := hvalue
    rw [lineOffset,hchosen,Option.bind_some] at ho
    rw [hoffset]
    exact slice_occurrence (mem_occurrences_append (position_some.mp ho).1 rest)

/-- Its blobs say where they end. -/
theorem endedLib_end {parse : Bytes → Option (List Fragment)} (hunlike : trees.Pairwise Unlike) :
    @BlobEnd (endedLib trees parse) := by
  let _ := endedLib trees parse
  constructor
  · intro tree out h rest
    obtain ⟨hmem,rfl⟩ := knownBlob_some h
    exact knownTree_begins hunlike hmem (List.prefix_append _ _)
  · intro tree out h n hn
    obtain ⟨hmem,rfl⟩ := knownBlob_some h
    cases hfind : knownTree trees ((flatten tree).take n) with
    | none => exact hfind
    | some found =>
      obtain ⟨hfound,hbegins⟩ := knownTree_some hfind
      have hle := hbegins.length_le
      have hwhole : flatten found<+:flatten tree := hbegins.trans (List.take_prefix n _)
      have hsame : found=tree := Option.some.inj
        ((knownTree_begins hunlike hfound hwhole).symm.trans
          (knownTree_begins hunlike hmem (List.prefix_refl _)))
      rw [hsame,List.length_take] at hle
      omega

end Known

/-- A build with another line, and with a devicetree of its own. -/
def retuneInput : BuildInput := {launchInput with cmdline := "quiet debug", dtbMode := .detached}

/-- What its devicetree is made of. -/
def retuneInputs : BaseDtb.Inputs := {plainInputs with cmdline := "quiet debug"}

/-- The trees of the build, of the edited file and of the boot. -/
def retuneTrees : List Node := [BaseDtb.tree retuneInputs,BaseDtb.tree plainInputs,cpusBoard 1]

/-- A library that knows these. -/
@[reducible] def retuneLib : OwnedLib :=
  endedLib retuneTrees fun blob => if blob.take 1024=overlayBlob 1 then some (cpusOverlay 1) else none

/-- A writer of them. -/
def retuneLibs : Libs := {launchLibs with fdtWrite := knownBlob retuneTrees}

/-- The host fills in the edited devicetree and its overlay. -/
def retuneSupply (kind : FillKind) : Bytes :=
  if kind=.dtDtb then flatten (BaseDtb.tree plainInputs) else launchSupply kind

/-- The devicetree of a build in a file. -/
def retuneFiles (b : Built) : Files :=
  ⟨fun p => if p="base.dtb" then some b.payload.dtbBytes else none,[]⟩

/-- The trees are unlike. -/
theorem retuneTrees_unlike : retuneTrees.Pairwise Unlike := by decide +kernel

/-- The library is as it should be. -/
theorem retuneLib_law : @BlobLaw retuneLib.toBootLib :=
  endedLib_law retuneTrees_unlike (by decide +kernel)

/-- The build succeeds. -/
theorem run_retuneInput : ∃ b, run retuneLibs launchTatu retuneInput=.ok b ∧
    Computed retuneInput retuneSupply retuneInputs b := by
  obtain ⟨b,pe,hb,hcomputed⟩ := @exists_run retuneLibs launchTatu retuneInput
    (fun b => decide (Computed retuneInput retuneSupply retuneInputs b)) (by decide +kernel)
  obtain ⟨harch,hinputs,hnames,hseparate,hroom,hfill,hdtbo⟩ := of_decide_eq_true hcomputed
  exact ⟨_,hb,harch,hinputs,hnames,hseparate,hroom,hfill,hdtbo⟩

section Retuned

variable {b : Built}

/-- The line is written. -/
theorem retuneFiles_written (hrun : run retuneLibs launchTatu retuneInput=.ok b)
    (h : Computed retuneInput retuneSupply retuneInputs b) :
    @runAll retuneLib (fun _ _ _ => none) "base.dtb" [some "quiet"] (retuneFiles b,none)=
      ((retuneFiles b).replace "base.dtb" (flatten (BaseDtb.tree plainInputs)),some "quiet") := by
  let _ := retuneLib
  have hfdt : FdtLaw retuneLibs := retuneLib_law.written
  have hparse := parsed_built hfdt (run_ok hrun)
  rw [h.inputs] at hparse
  have hset : Cmdline.setBootargs "quiet" (BaseDtb.tree retuneInputs)=
      .ok (BaseDtb.tree plainInputs) := rfl
  have hencode : knownBlob retuneTrees (BaseDtb.tree plainInputs)=
      some (flatten (BaseDtb.tree plainInputs)) := if_pos (by decide +kernel)
  have hout : Cmdline.rewrite b.payload.dtbBytes "quiet"=
      .ok (flatten (BaseDtb.tree plainInputs)) := by
    rw [Cmdline.rewrite,ok_bind (okOr_ok.mpr hparse),ok_bind hset]
    exact okOr_ok.mpr hencode
  have hfile : (retuneFiles b).contents "base.dtb"=some b.payload.dtbBytes := rfl
  have hput : Base.Effects.runOn
      (Cmdline.writeBootargs (fun _ _ _ => none) "base.dtb" b.payload.dtbBytes "quiet")
      (retuneFiles b)=
        (.ok (),(retuneFiles b).replace "base.dtb" (flatten (BaseDtb.tree plainInputs))) :=
    Cmdline.runOn_writeBootargs hout
  have hdone := (Cmdline.runOn_run hfile (some "quiet")).trans (Base.Effects.runOn_bind_ok hput)
  unfold runAll
  rw [hdone]
  rfl

/-- The edited devicetree is not longer. -/
theorem retuneSupply_le (hrun : run retuneLibs launchTatu retuneInput=.ok b)
    (h : Computed retuneInput retuneSupply retuneInputs b) :
    (retuneSupply .dtDtb).length≤b.payload.dtbBytes.length := by
  let _ := retuneLib
  have hfdt : FdtLaw retuneLibs := retuneLib_law.written
  have hparse := parsed_built hfdt (run_ok hrun)
  rw [h.inputs] at hparse
  have hle := (knownTree_some hparse).2.length_le
  have hshorter : (retuneSupply .dtDtb).length≤(flatten (BaseDtb.tree retuneInputs)).length := by
    decide +kernel
  exact hshorter.trans hle

/-- The build boots with it. -/
theorem retuneInput_reaches (hrun : run retuneLibs launchTatu retuneInput=.ok b)
    (h : Computed retuneInput retuneSupply retuneInputs b) :
    ∃ out, @rustMain retuneLib.toBootLib boardCpu boardWs b.bootInfo
      (launchMemory retuneInput retuneSupply b)=.ok out := by
  let _ := retuneLib
  have hencode : knownBlob retuneTrees (BaseDtb.tree plainInputs)=some (retuneSupply .dtDtb) :=
    if_pos (by decide +kernel)
  have hbase := parsed_whole (endedLib_end retuneTrees_unlike) (h.booting hrun) (by decide) hencode
    (retuneSupply_le hrun h)
  exact Computed.reaches retuneLib_law hrun h hbase (if_pos (h.overlay hrun rfl))
    (if_pos (by decide +kernel)) (by decide +kernel)

end Retuned

/-- The build boots with the line that was written. -/
theorem retuned_boots_sample : ∃ b out, run retuneLibs launchTatu retuneInput=.ok b ∧
    @rustMain retuneLib.toBootLib boardCpu boardWs
      (ofPage (region (launchMemory retuneInput retuneSupply b) 0x1000 sectionSize))
      (launchMemory retuneInput retuneSupply b)=.ok out ∧
    Delivered {retuneInput with cmdline := "quiet"} b retuneSupply out := by
  let _ := retuneLib
  have hfdt : FdtLaw retuneLibs := retuneLib_law.written
  obtain ⟨b,hrun,hcomputed⟩ := run_retuneInput
  obtain ⟨out,hout⟩ := retuneInput_reaches hrun hcomputed
  have hbooting := hcomputed.booting hrun
  have hboot : sampleSection ".tatu.bootinfo" 0x1000 []∈launchTatu.sections := by
    simp [launchTatu]
  have hroom : b.dtbo.virtualSize≤hostDtboMax := by
    rw [hcomputed.dtbo.2]
    decide
  have hwritten := retuneFiles_written hrun hcomputed
  have hsupply : (runAll (fun _ _ _ => none) "base.dtb" [some "quiet"]
      (retuneFiles b,none)).1.contents "base.dtb"=some (retuneSupply .dtDtb) := by
    rw [hwritten]
    rfl
  have hheader := hbooting.header hboot rfl
  change ofPage (region (launchMemory retuneInput retuneSupply b) 0x1000 sectionSize)=b.bootInfo
    at hheader
  rw [←hheader] at hout
  have hdelivered := (retuned_boots Devtree.Merge.pathLaw_plain (by decide) chosenLaw_plainLib
    retuneLib_law hfdt (endedLib_end retuneTrees_unlike) hbooting (by decide) rfl [some "quiet"]
    hsupply hboot rfl hroom).2 out hout
  rw [hwritten] at hdelivered
  exact ⟨b,out,hrun,hout,hdelivered⟩

end Arma.Build.Retune
