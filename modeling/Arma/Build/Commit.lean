import Arma.Build.Header
import Arma.Build.Inputs
import Arma.Build.Mapped
import Arma.Pe.Capacity

/-!
# Writing the results of a build

A build writes the image, and in detached mode the base devicetree in front of it. Each
file is replaced as a whole. The devicetree is written before the image is emitted, so a
build that fails in between has replaced it.
-/

namespace Arma.Build.Commit

open Base.ByteString Base.Checked Base.Effects
open Build Header Inputs Kernel.Image Manifest Modules.Packing Pe.Capacity Pe.Complete
open Pe.Writer Run TatuImage

/-- `atomic_write`: the file is replaced, or nothing happens. -/
def atomicWrite (host : Host) (path : String) (bytes : Bytes) : Action Files RunError Unit := do
  let files ← look
  match host.write files path bytes with
  | some message => still (fail (.write path message))
  | none => change (·.replace path bytes)

/-- What there is before anything is written: all but the image. -/
def front (host : Host) (args : BuildArgs) (files : Files) :
    Outcome RunError (TatuImage×Built) := do
  let (tatu,input) ← gather host args files
  let b ← context .build (runFront host.libs tatu input)
  .ok (tatu,b)

/-- The file for the base devicetree, in detached mode. -/
def dtbTarget (args : BuildArgs) : Option String :=
  if args.dtbMode=.detached then args.dtbOut else none

/-- Step 12: emit the image. -/
def emit (args : BuildArgs) (tatu : TatuImage) (b : Built) : Outcome RunError Bytes :=
  context .build (context .pe (buildPe (peMachine b.kernel.parsed.arch)
    (b.sections tatu args.dtbMode)))

/-- Steps 10 and 11: the base devicetree goes into a file of its own in detached mode. -/
def writeDtb (host : Host) (args : BuildArgs) (b : Built) : Action Files RunError Unit :=
  match dtbTarget args with
  | some path => atomicWrite host path b.payload.dtbBytes
  | none => pure ()

/-- `run`. -/
def run (host : Host) (args : BuildArgs) : Action Files RunError Unit := do
  let files ← look
  let (tatu,b) ← still (front host args files)
  writeDtb host args b
  let pe ← still (emit args tatu b)
  atomicWrite host args.outputPath pe

/-- The file has been neither created nor replaced nor modified. -/
def Untouched (before after : Files) (path : String) : Prop :=
  after.contents path=before.contents path ∧
    after.replaced.count path=before.replaced.count path

/-- A build that returns an error has not touched the files it is to write. -/
def AtomicOnError (host : Host) (args : BuildArgs) (files : Files) : Prop :=
  ∀ e, (runOn (run host args) files).1=fail e → ∀ path, path=args.outputPath ∨
    args.dtbOut=some path → Untouched files (runOn (run host args) files).2 path

/-- Once the devicetree can be written, the planned sections fit an image, and the image can
be written. -/
def ImageFollows (host : Host) (args : BuildArgs) (files : Files) : Prop :=
  ∀ path tatu b, dtbTarget args=some path → front host args files=.ok (tatu,b) →
    host.write files path b.payload.dtbBytes=none →
      Fits (b.sections tatu args.dtbMode) ∧
        ∀ pe, emit args tatu b=.ok pe →
          host.write (files.replace path b.payload.dtbBytes) args.outputPath pe=none

section
variable {host : Host} {args : BuildArgs} {files : Files}

/-- A file that can be written is replaced. -/
theorem runOn_atomicWrite_none {path : String} {bytes : Bytes}
    (h : host.write files path bytes=none) :
    runOn (atomicWrite host path bytes) files=(.ok (),files.replace path bytes) := by
  unfold atomicWrite
  rw [runOn_bind_ok (runOn_look files),h]
  rfl

/-- A file that cannot be written is left alone. -/
theorem runOn_atomicWrite_some {path message : String} {bytes : Bytes}
    (h : host.write files path bytes=some message) :
    runOn (atomicWrite host path bytes) files=(fail (.write path message),files) := by
  unfold atomicWrite
  rw [runOn_bind_ok (runOn_look files),h]
  rfl

/-- One write is atomic. -/
theorem atomic_atomicWrite (path : String) (bytes : Bytes) :
    Atomic (atomicWrite host path bytes) := by
  intro before hstop
  cases h : host.write before path bytes with
  | some message => rw [runOn_atomicWrite_some h]
  | none =>
    rw [runOn_atomicWrite_none h] at hstop
    exact absurd rfl (hstop ())

/-- The image is emitted exactly when the sections fit. -/
theorem emit_ok {tatu : TatuImage} {b : Built} :
    (∃ pe, emit args tatu b=.ok pe) ↔ Fits (b.sections tatu args.dtbMode) := by
  unfold emit
  simp only [context_ok]
  exact fits_iff.symm

/-- Emitting the image does not panic. -/
theorem noPanic_emit (tatu : TatuImage) (b : Built) : NoPanic (emit args tatu b) :=
  (noPanic_buildPe _ _).context.context

/-- Nothing is touched when the state is the same. -/
theorem untouched_refl (path : String) : Untouched files files path := ⟨rfl,rfl⟩

/-- A file that is replaced has been touched. -/
theorem not_untouched_replace {path : String} {bytes : Bytes} :
    ¬Untouched files (files.replace path bytes) path := by
  rintro ⟨-,hcount⟩
  have hmore : (files.replace path bytes).replaced.count path=files.replaced.count path+1 :=
    List.count_cons_self
  omega

/-- Without a devicetree to write, the image is the only file and comes last. -/
theorem atomic_run_none (h : dtbTarget args=none) : Atomic (run host args) := by
  have hdtb : ∀ b, Silent (writeDtb host args b) := fun b => by
    unfold writeDtb
    rw [h]
    exact fun _ => rfl
  refine Silent.bind silent_look fun files => ?_
  refine Silent.bind (silent_still _) fun planned => ?_
  refine Silent.bind (hdtb planned.2) fun _ => ?_
  refine Silent.bind (silent_still _) fun pe => ?_
  exact atomic_atomicWrite _ _

/-- An error in front ends the build before anything is written. -/
theorem runOn_run_front {e : Fault RunError} (h : front host args files=.error e) :
    runOn (run host args) files=(.error e,files) := by
  unfold run
  rw [runOn_bind_ok (runOn_look files)]
  exact runOn_bind_error (by rw [h,runOn_still])

/-- A devicetree that cannot be written ends the build as well. -/
theorem runOn_run_unwritten {tatu : TatuImage} {b : Built} {path message : String}
    (hfront : front host args files=.ok (tatu,b)) (hpath : dtbTarget args=some path)
    (h : host.write files path b.payload.dtbBytes=some message) :
    runOn (run host args) files=(fail (.write path message),files) := by
  have hdtb : runOn (writeDtb host args b) files=(fail (.write path message),files) := by
    unfold writeDtb
    rw [hpath]
    exact runOn_atomicWrite_some h
  unfold run
  rw [runOn_bind_ok (runOn_look files),hfront,runOn_bind_ok (runOn_still _ _)]
  exact runOn_bind_error hdtb

/-- With the devicetree in its file, the image is emitted and written. -/
theorem runOn_run_written {tatu : TatuImage} {b : Built} {path : String}
    (hfront : front host args files=.ok (tatu,b)) (hpath : dtbTarget args=some path)
    (h : host.write files path b.payload.dtbBytes=none) :
    runOn (run host args) files=
      runOn (still (emit args tatu b) >>= fun pe => atomicWrite host args.outputPath pe)
        (files.replace path b.payload.dtbBytes) := by
  have hdtb : runOn (writeDtb host args b) files=
      (.ok (),files.replace path b.payload.dtbBytes) := by
    unfold writeDtb
    rw [hpath]
    exact runOn_atomicWrite_none h
  unfold run
  rw [runOn_bind_ok (runOn_look files),hfront,runOn_bind_ok (runOn_still _ _)]
  exact runOn_bind_ok hdtb

/-- The file of the devicetree is among those a build writes. -/
theorem dtbOut_of_target {path : String} (h : dtbTarget args=some path) :
    args.dtbOut=some path := by
  unfold dtbTarget at h
  split at h
  · exact h
  · cases h

/-- An error behind the devicetree leaves it replaced. -/
theorem imageFollows_of_atomic (hatomic : AtomicOnError host args files) :
    ImageFollows host args files := by
  intro path tatu b hpath hfront hwrite
  have hrun := runOn_run_written hfront hpath hwrite
  have hdone : ∀ e, (runOn (run host args) files).1=fail e →
      (runOn (run host args) files).2≠files.replace path b.payload.dtbBytes := by
    intro e herr hstate
    have huntouched := hatomic e herr path (.inr (dtbOut_of_target hpath))
    rw [hstate] at huntouched
    exact not_untouched_replace huntouched
  cases hemit : emit args tatu b with
  | error fault =>
    rw [hemit,runOn_bind_error (runOn_still _ _)] at hrun
    match fault with
    | .err e => exact absurd (congrArg Prod.snd hrun) (hdone e (congrArg Prod.fst hrun))
    | .panic => exact absurd hemit (noPanic_emit tatu b)
  | ok pe =>
    rw [hemit,runOn_bind_ok (runOn_still _ _)] at hrun
    refine ⟨emit_ok.mp ⟨pe,hemit⟩,fun pe' hpe' => ?_⟩
    cases hpe'
    cases hout : host.write (files.replace path b.payload.dtbBytes) args.outputPath pe with
    | none => rfl
    | some message =>
      rw [runOn_atomicWrite_some hout] at hrun
      exact absurd (congrArg Prod.snd hrun) (hdone _ (congrArg Prod.fst hrun))

/-- When nothing fails behind the devicetree, an error comes before every write. -/
theorem atomic_of_imageFollows (hfollows : ImageFollows host args files) :
    AtomicOnError host args files := by
  intro e herr path _
  cases htarget : dtbTarget args with
  | none =>
    have hstate := atomic_run_none htarget files fun a ha => by
      rw [herr] at ha
      cases ha
    rw [hstate]
    exact untouched_refl path
  | some out =>
    cases hfront : front host args files with
    | error e =>
      rw [runOn_run_front hfront]
      exact untouched_refl path
    | ok planned =>
      obtain ⟨tatu,b⟩ := planned
      cases hwrite : host.write files out b.payload.dtbBytes with
      | some message =>
        rw [runOn_run_unwritten hfront htarget hwrite]
        exact untouched_refl path
      | none =>
        obtain ⟨hfits,hout⟩ := hfollows out tatu b htarget hfront hwrite
        obtain ⟨pe,hemit⟩ := emit_ok.mpr hfits
        rw [runOn_run_written hfront htarget hwrite,hemit,runOn_bind_ok (runOn_still _ _),
          runOn_atomicWrite_none (hout pe hemit)] at herr
        cases herr

/-- A build is atomic on error exactly when nothing fails behind the devicetree. -/
theorem atomicOnError_iff : AtomicOnError host args files ↔ ImageFollows host args files :=
  ⟨imageFollows_of_atomic,atomic_of_imageFollows⟩

/-- A file that was written holds the bytes. -/
theorem runOn_atomicWrite_ok {before after : Files} {path : String} {bytes : Bytes}
    (h : runOn (atomicWrite host path bytes) before=(.ok (),after)) :
    after=before.replace path bytes := by
  cases hwrite : host.write before path bytes with
  | some message =>
    rw [runOn_atomicWrite_some hwrite] at h
    cases h
  | none =>
    rw [runOn_atomicWrite_none hwrite] at h
    exact (congrArg Prod.snd h).symm

/-- The mode of the build is the one that was asked for. -/
theorem gather_dtbMode {tatu : TatuImage} {input : BuildInput}
    (h : gather host args files=.ok (tatu,input)) : input.dtbMode=args.dtbMode := by
  unfold gather at h
  obtain ⟨_,-,h⟩ := bind_ok.mp h
  obtain ⟨_,-,h⟩ := bind_ok.mp h
  obtain ⟨_,-,h⟩ := bind_ok.mp h
  obtain ⟨_,-,h⟩ := bind_ok.mp h
  obtain ⟨_,-,h⟩ := bind_ok.mp h
  obtain ⟨_,-,h⟩ := bind_ok.mp h
  obtain ⟨_,-,h⟩ := bind_ok.mp h
  obtain ⟨_,-,h⟩ := bind_ok.mp h
  obtain ⟨_,-,h⟩ := bind_ok.mp h
  obtain ⟨_,-,h⟩ := bind_ok.mp h
  cases h
  rfl

/-- A build that succeeds leaves the image of the pure run in the output file. -/
theorem run_refines {before after : Files} (h : runOn (run host args) before=(.ok (),after)) :
    ∃ tatu input b, gather host args before=.ok (tatu,input) ∧
      Run.run host.libs tatu input=.ok b ∧ after.contents args.outputPath=some b.pe := by
  obtain ⟨files,_,hlook,h⟩ := exists_of_bind_ok h
  cases hlook
  obtain ⟨⟨tatu,b⟩,_,hstill,h⟩ := exists_of_bind_ok h
  obtain ⟨hfront,rfl⟩ := Prod.mk.inj hstill
  obtain ⟨_,mid,-,h⟩ := exists_of_bind_ok h
  obtain ⟨pe,_,hstill,h⟩ := exists_of_bind_ok h
  obtain ⟨hemit,rfl⟩ := Prod.mk.inj hstill
  -- the front of the pure run, and its last step
  obtain ⟨⟨tatu',input⟩,hgather,hfront⟩ := bind_ok.mp hfront
  obtain ⟨b',hplan,hpair⟩ := bind_ok.mp hfront
  cases hpair
  have hpe := context_ok.mp hemit
  rw [←gather_dtbMode hgather] at hpe
  refine ⟨tatu,input,{b with pe := pe},hgather,?_,?_⟩
  · rw [run_eq,ok_bind (context_ok.mp hplan),ok_bind hpe]
  · rw [runOn_atomicWrite_ok h]
    exact if_pos rfl

end

/-- A kernel that is linked to be loaded at 4 GiB. -/
def farFile : Bytes :=
  elfMagic++[2,1,1]++zeros 9++leBytes 2 2++leBytes 2 62++leBytes 4 1++leBytes 8 0x100000000++
    leBytes 8 64++leBytes 8 0++leBytes 4 0++leBytes 2 64++leBytes 2 56++leBytes 2 1++leBytes 2 0++
    leBytes 2 0++leBytes 2 0++leBytes 4 1++leBytes 4 7++leBytes 8 120++
    leBytes 8 0xffffffff81000000++leBytes 8 0x100000000++leBytes 8 8++leBytes 8 0x2000++
    leBytes 8 0x1000000++leBytes 8 0x1111111181000000++leBytes 4 0++leBytes 4 0x81000000++
    leBytes 4 0

/-- Its parsed headers. -/
def farElf : Elf :=
  ⟨true,emX86_64,0x100000000,0,0,0,[⟨ptLoad,120,0xffffffff81000000,0x100000000,8,0x2000⟩],[],[],[]⟩

/-- A host that has this kernel and can write every file. -/
def farHost : Host where
  libs := ⟨fun _ => some farElf,fun t => some (Devtree.flatten t),fun _ => some [0xa0]⟩
  initrdLib := ⟨fun _ => none,fun _ => none,fun _ => .error "gzip",fun _ => .error "zstd"⟩
  decoders := rawDecoders
  unwrapUki := .ok
  unwrapZboot := .ok
  extractVmlinux := .ok
  ikconfig _ := some "CONFIG_VIRTIO_MMIO=y"
  detect _ := .error "no release"
  locate _ _ _ := fail (.notFound "/lib/modules")
  tatu _ := .ok Mapped.resetTatu
  write _ _ _ := none

/-- Build it with a detached base devicetree. -/
def farArgs : BuildArgs :=
  ⟨"vmlinux",none,[],none,"quiet",none,false,"out.pmi",none,some 1,none,none,none,.detached,
    some "base.dtb"⟩

/-- The kernel is the only file. -/
def farFiles : Files := ⟨fun p => if p="vmlinux" then some farFile else none,[]⟩

/-- Its devicetree is replaced although the kernel is too high for the image. -/
theorem not_atomicOnError : ¬AtomicOnError farHost farArgs farFiles := by
  have hfront : (front farHost farArgs farFiles).toOption.any (fun planned =>
      decide (∃ s∈planned.2.sections planned.1 farArgs.dtbMode,
        s.nonLoaded=false ∧ 2^32≤ s.vaddr))=true := by decide +kernel
  obtain ⟨⟨tatu,b⟩,hfront,hhigh⟩ := exists_ok_of_any hfront
  obtain ⟨s,hs,hload,hvaddr⟩ := of_decide_eq_true hhigh
  intro hatomic
  have hfollows := imageFollows_of_atomic hatomic "base.dtb" tatu b rfl hfront rfl
  exact absurd ((hfollows.1.words s hs).2 hload) (by omega)

end Arma.Build.Commit
