import Arma.Build.Commit
import Arma.Kernel.Detect
import Arma.Kernel.Uki

/-!
# The kernel file of a build

A build reads the kernel file once, and what it plans depends on the kernel inside alone: a
unified kernel image and the kernel that it was made from are built into the same image. The
configuration that a kernel carries is found between its markers.
-/

namespace Arma.Build.KernelFile

open Base.ByteString Base.Checked Base.Text Base.Windows
open Build Commit Inputs Kernel.Uki Kernel.Unwrap Pe.Writer
open Kernel.Detect (utf8_fromUTF8)

/-- `ST`. -/
def ikcfgSt : Bytes := ascii "IKCFG_ST"

/-- `ED`. -/
def ikcfgEd : Bytes := ascii "IKCFG_ED"

/-- The text of `from_ikconfig`. -/
def fromIkconfig (lib : Codecs) (kernel : Bytes) : Option String := do
  let start ← (position ikcfgSt kernel).map (·+ikcfgSt.length)
  let stop ← (position ikcfgEd (kernel.drop start)).map (start+·)
  let text ← (lib.gunzip (slice start (stop-start) kernel)).toOption
  String.fromUTF8? ⟨text.toArray⟩

/-- The configuration that a kernel carries: the text between the first marker and the next
marker of the end, compressed. -/
def Carries (lib : Codecs) (kernel : Bytes) (text : String) : Prop :=
  ∃ front packed back, kernel=front++ikcfgSt++(packed++ikcfgEd++back) ∧
    IsLeast (occurrences ikcfgSt kernel) front.length ∧
    IsLeast (occurrences ikcfgEd (packed++ikcfgEd++back)) packed.length ∧
    lib.gunzip packed=.ok (utf8 text)

/-- What a host does with a kernel file is what arma does. -/
structure Unwraps (host : Host) (lib : Codecs) : Prop where
  /-- `unwrap_uki`. -/
  uki : ∀ input kernel, host.unwrapUki input=.ok kernel ↔ unwrapUki lib input=.ok kernel
  /-- `unwrap_zboot`. -/
  zboot : ∀ input kernel, host.unwrapZboot input=.ok kernel ↔ unwrapZboot lib input=.ok kernel
  /-- `extract_vmlinux`. -/
  vmlinux : ∀ input kernel, host.extractVmlinux input=.ok kernel ↔
    extractVmlinux lib input=.ok kernel

/-- The files with another kernel. -/
def withKernel (files : Files) (args : BuildArgs) (kernel : Bytes) : Files :=
  ⟨fun p => if p=args.kernelPath then some kernel else files.contents p,files.replaced⟩

/-- The kernel file is the kernel alone: no other input of the build is read from it. -/
structure KernelAlone (host : Host) (args : BuildArgs) (files : Files) : Prop where
  /-- It is not the archive. -/
  initrd : args.initrdPath≠some args.kernelPath
  /-- It is not the configuration. -/
  config : args.configPath≠some args.kernelPath
  /-- No module is in it. -/
  modules : ∀ kernel release, host.locate (withKernel files args kernel) release args.moduleTree=
    host.locate files release args.moduleTree

/-- A configuration is extracted exactly when the kernel carries it. -/
theorem fromIkconfig_iff {lib : Codecs} {kernel : Bytes} {text : String} :
    fromIkconfig lib kernel=some text ↔ Carries lib kernel text := by
  have htext : ∀ packed, ((lib.gunzip packed).toOption.bind fun text =>
      String.fromUTF8? ⟨text.toArray⟩)=some text ↔ lib.gunzip packed=.ok (utf8 text) := by
    intro packed
    rw [Option.bind_eq_some_iff]
    constructor
    · rintro ⟨bytes,hbytes,hutf8⟩
      rw [utf8_fromUTF8 hutf8]
      cases hgz : lib.gunzip packed with
      | error e =>
        rw [hgz] at hbytes
        cases hbytes
      | ok out =>
        rw [hgz] at hbytes
        rw [Option.some.inj hbytes]
    · intro hgz
      exact ⟨utf8 text,by rw [hgz]; rfl,fromUTF8_utf8 text⟩
  unfold fromIkconfig Carries
  simp only [Option.bind_eq_bind,Option.bind_eq_some_iff,Option.map_eq_some_iff]
  constructor
  · rintro ⟨start,⟨i,hi,rfl⟩,stop,⟨n,hn,rfl⟩,h⟩
    obtain ⟨front,rest,hkernel,hfront,hfirst⟩ := position_split.mp hi
    have hlength : (front++ikcfgSt).length=i+ikcfgSt.length := by rw [List.length_append,hfront]
    have hdrop : kernel.drop (i+ikcfgSt.length)=rest := by
      rw [hkernel]
      exact List.drop_left' hlength
    rw [hdrop] at hn
    obtain ⟨packed,back,hrest,hpacked,hnext⟩ := position_split.mp hn
    rw [Nat.add_sub_cancel_left,slice,hdrop] at h
    have htake : rest.take n=packed := by
      rw [hrest,List.append_assoc]
      exact List.take_left' hpacked
    rw [htake] at h
    rw [hrest] at hkernel hnext
    exact ⟨front,packed,back,hkernel,hfirst,hnext,
      (htext packed).mp (Option.bind_eq_some_iff.mpr h)⟩
  · rintro ⟨front,packed,back,hkernel,hfirst,hnext,hgz⟩
    have hlength : (front++ikcfgSt).length=front.length+ikcfgSt.length := List.length_append
    have hdrop : kernel.drop (front.length+ikcfgSt.length)=packed++ikcfgEd++back := by
      rw [hkernel]
      exact List.drop_left' hlength
    refine ⟨_,⟨front.length,position_split.mpr ⟨front,_,hkernel,rfl,hfirst⟩,rfl⟩,_,
      ⟨packed.length,?_,rfl⟩,?_⟩
    · rw [hdrop]
      exact position_split.mpr ⟨packed,back,rfl,rfl,hnext⟩
    · have htake : (packed++ikcfgEd++back).take packed.length=packed := by
        rw [List.append_assoc]
        exact List.take_left' rfl
      rw [Nat.add_sub_cancel_left,slice,hdrop,htake]
      exact Option.bind_eq_some_iff.mp ((htext packed).mpr hgz)

section
variable {host : Host} {args : BuildArgs} {files : Files} {lib : Codecs}

/-- The configuration is read from the kernel or from its own file. -/
theorem loadKernelConfig_congr {bare : Files} {kernel : Bytes}
    (h : ∀ path, args.configPath=some path → files.contents path=bare.contents path) :
    loadKernelConfig host args files kernel=loadKernelConfig host args bare kernel := by
  unfold loadKernelConfig
  cases hpath : args.configPath with
  | none => rfl
  | some path =>
    dsimp only
    rw [readInput,readInput,h path hpath]

/-- The archive is prepared with the modules of one tree. -/
theorem prepareInitrd_congr {bare : Files} {kernel : Bytes} {cfg : Kernel.Config.KernelConfig}
    {initrd : Option Bytes} (h : ∀ release, host.locate files release args.moduleTree=
      host.locate bare release args.moduleTree) :
    prepareInitrd host args files cfg kernel initrd=
      prepareInitrd host args bare cfg kernel initrd := by
  unfold prepareInitrd modulesInitrd
  simp only [h]

/-- A build reads its inputs and nothing else. -/
theorem gather_congr {bare : Files}
    (hkernel : readKernel host args files=readKernel host args bare)
    (hinitrd : ∀ path, args.initrdPath=some path → files.contents path=bare.contents path)
    (hconfig : ∀ path, args.configPath=some path → files.contents path=bare.contents path)
    (hmodules : ∀ release, host.locate files release args.moduleTree=
      host.locate bare release args.moduleTree) :
    gather host args files=gather host args bare := by
  have harchive : args.initrdPath.mapM (readInput files)=
      args.initrdPath.mapM (readInput bare) := by
    cases hpath : args.initrdPath with
    | none => rfl
    | some path =>
      rw [Option.mapM_some,Option.mapM_some,readInput,readInput,hinitrd path hpath]
  unfold gather
  rw [hkernel,harchive]
  simp only [loadKernelConfig_congr hconfig,prepareInitrd_congr hmodules]

/-- A unified kernel image is read as the kernel in it. -/
theorem readKernel_uki (hlib : Unwraps host lib) {bytes inner : Bytes}
    (hread : files.contents args.kernelPath=some bytes) (huki : unwrapUki lib bytes=.ok inner) :
    readKernel host args files=attempt .zboot (host.unwrapZboot inner) >>= fun bytes =>
      attempt .vmlinux (host.extractVmlinux bytes) := by
  have hinput : readInput files args.kernelPath=.ok bytes := okOr_ok.mpr hread
  have htaken : attempt .uki (host.unwrapUki bytes)=.ok inner := by
    rw [(hlib.uki bytes inner).mpr huki]
    rfl
  unfold readKernel
  rw [ok_bind hinput,ok_bind htaken]

/-- A build from a unified kernel image is the build from the kernel that the image was made
from, up to the emitted image and its errors: its other sections make no difference. -/
theorem front_uki {machine : ℕ} {sections : List Section} {file kernel : Bytes}
    (hlib : Unwraps host lib) (halone : KernelAlone host args files)
    (hbuild : buildPe machine sections=.ok file) (hpe : lib.peParse file=rawTable file)
    (hlinux : emittedKernel file (linuxSections sections)=.ok kernel)
    (hkernel : UkiOf lib kernel kernel) :
    front host args (withKernel files args file)=front host args (withKernel files args kernel) := by
  have hat : ∀ bytes, (withKernel files args bytes).contents args.kernelPath=some bytes :=
    fun bytes => if_pos rfl
  have hother : ∀ bytes {path}, path≠args.kernelPath →
      (withKernel files args bytes).contents path=files.contents path :=
    fun bytes {path} hne => if_neg hne
  have hread : readKernel host args (withKernel files args file)=
      readKernel host args (withKernel files args kernel) := by
    rw [readKernel_uki hlib (hat file) ((unwrapUki_buildPe hbuild hpe).trans hlinux),
      readKernel_uki hlib (hat kernel) (unwrapUki_ok.mpr hkernel)]
  have hgather : gather host args (withKernel files args file)=
      gather host args (withKernel files args kernel) := by
    refine gather_congr hread (fun path hpath => ?_) (fun path hpath => ?_) fun release => ?_
    · have hne : path≠args.kernelPath := fun h => halone.initrd (h ▸ hpath)
      rw [hother file hne,hother kernel hne]
    · have hne : path≠args.kernelPath := fun h => halone.config (h ▸ hpath)
      rw [hother file hne,hother kernel hne]
    · rw [halone.modules,halone.modules]
  unfold front
  rw [hgather]

end

/-- Decoders that are not called. -/
def plainLib : Codecs := ⟨rawTable,fun _ => .error "gzip",fun _ => .error "zstd"⟩

/-- What a step reports. -/
def reported : Outcome UnwrapError Bytes → Except String Bytes
  | .ok bytes => .ok bytes
  | .error _ => .error "malformed"

/-- A host that unwraps kernels. -/
def ukiHost : Host :=
  {farHost with
    unwrapUki := fun input => reported (unwrapUki plainLib input)
    unwrapZboot := fun input => reported (unwrapZboot plainLib input)
    extractVmlinux := fun input => reported (extractVmlinux plainLib input)}

/-- A report is that of the step. -/
theorem reported_ok {x : Outcome UnwrapError Bytes} {bytes : Bytes} :
    reported x=.ok bytes ↔ x=.ok bytes := by
  cases x with
  | error e => exact iff_of_false nofun nofun
  | ok a => simp [reported]

/-- A kernel with a command line in front of it that is not used. -/
def ukiSections : List Section :=
  [⟨".cmdline",0,5,ascii "quiet",imageScnCntInitializedData,true⟩,
    ⟨".linux",0,farFile.length,farFile,imageScnCntInitializedData,true⟩]

/-- The kernel in the image is built. -/
theorem front_uki_far : ∃ file, buildPe 0x8664 ukiSections=.ok file ∧
    front ukiHost farArgs (withKernel farFiles farArgs file)=
      front ukiHost farArgs (withKernel farFiles farArgs farFile) := by
  obtain ⟨file,hfile⟩ := exists_ok (show (buildPe 0x8664 ukiSections).toOption.isSome=true by
    decide +kernel)
  refine ⟨file,hfile,?_⟩
  have hunwraps : Unwraps ukiHost plainLib :=
    ⟨fun _ _ => reported_ok,fun _ _ => reported_ok,fun _ _ => reported_ok⟩
  have hlinux : linuxSections ukiSections=
      [⟨".linux",0,farFile.length,farFile,imageScnCntInitializedData,true⟩] := rfl
  refine front_uki hunwraps ⟨by decide,by decide,fun _ _ => rfl⟩ hfile rfl ?_ ?_
  · rw [hlinux]
    exact emittedKernel_exact rfl rfl (by decide)
  · exact .inl ⟨.inl (by decide),rfl⟩

end Arma.Build.KernelFile
