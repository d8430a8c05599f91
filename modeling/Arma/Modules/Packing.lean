import Arma.Base.Effects
import Arma.Base.Frames
import Arma.Base.Paths
import Arma.Kernel.Config
import Arma.Modules.Resolve

/-!
# Packing modules

The kernel takes a module compressed or plain. A module that it cannot decompress
is unpacked, in place, to at most a given size. The size is that of all frames of
the file together, and a file that cannot be unpacked stays as it is.
-/

namespace Arma.Modules.Packing

open Base.ByteString Base.Checked Base.Effects Base.Frames Base.Paths
open Kernel.Config Index Resolve

/-- What to do with the bytes of a module. -/
inductive ModulePacking where
  /-- The kernel takes them as they are. -/
  | keep
  /-- Unpack the members of a gzip file. -/
  | gzip
  /-- Unpack the streams of an xz file. -/
  | xz
  /-- Unpack the frames of a zstd file. -/
  | zstd
deriving DecidableEq, Repr

/-- `selected module {path} requires {option}=y`. -/
structure ModuleConfigError where
  /-- The module. -/
  path : String
  /-- The option that the kernel lacks. -/
  option : String
deriving DecidableEq, Repr

/-- An option has to be built in. -/
def require (cfg : KernelConfig) (path option : String) : Outcome ModuleConfigError Unit :=
  if cfg.isBuiltin option=true then .ok () else fail ⟨path,option⟩

/-- Packing of a compressed module: it stays compressed when the kernel can decompress
it by itself. -/
def packingFor (cfg : KernelConfig) (packing : ModulePacking) (option : String) : ModulePacking :=
  if cfg.isBuiltin "CONFIG_MODULE_DECOMPRESS"=true ∧ cfg.isBuiltin option=true then .keep
  else packing

/-- `check_module`. -/
def checkModule (cfg : KernelConfig) (path : String) :
    Outcome ModuleConfigError ModulePacking := do
  require cfg path "CONFIG_MODULES"
  match extension path with
  | some "xz" => .ok (packingFor cfg .xz "CONFIG_MODULE_COMPRESS_XZ")
  | some "gz" => .ok (packingFor cfg .gzip "CONFIG_MODULE_COMPRESS_GZIP")
  | some "zst" => .ok (packingFor cfg .zstd "CONFIG_MODULE_COMPRESS_ZSTD")
  | _ => .ok .keep

/-- Bytes that a decoder gives, and the error it stops with. -/
structure Source where
  /-- The bytes, up to the end or the error. -/
  output : Bytes
  /-- The error behind them. -/
  error : Option String
deriving DecidableEq, Repr

/-- The three decoders. -/
structure Decoders where
  /-- `MultiGzDecoder::new`. -/
  gzip : Bytes → Source
  /-- `XzReader::new_mem_limit`, for several streams or one and with a limit in KiB. -/
  xz : Bytes → Bool → ℕ → Source
  /-- `StreamingDecoder::new_with_max_window_size`, with what the input has left behind
  the frame. -/
  zstd : Bytes → ℕ → Except String (Source×Bytes)
  /-- A frame is not empty. -/
  shrinks : ∀ {input rest : Bytes} {window : ℕ} {source : Source},
    zstd input window=.ok (source,rest) → rest.length< input.length

/-- Why a module is not unpacked. -/
inductive IoError where
  /-- The decoder says so. -/
  | decoder (message : String)
  /-- `decompressed module exceeds size limit of {limit} bytes`. -/
  | sizeLimit (limit : ℕ)
deriving DecidableEq, Repr

/-- `decompress selected module {path}: {error}`. -/
structure PackError where
  /-- The module. -/
  path : String
  /-- What is wrong with it. -/
  error : IoError
deriving DecidableEq, Repr

/-- `MAX_DECOMPRESSED_SIZE`. -/
def maxDecompressedSize : ℕ := 64*1024*1024

/-- `posix_relative`: the names of a path with a slash between them. -/
def posixRelative (path : String) : String :=
  joinSegments ((segments path).filter fun s => s != "" && s != "." && s != "..")

/-- `decoder.take(n).read_to_end(bytes)`: an error is seen by a reader that gets to
it. -/
def readToEnd (source : Source) (n : ℕ) (bytes : Bytes) : Outcome IoError Bytes :=
  if source.output.length<n then
    match source.error with
    | some message => fail (.decoder message)
    | none => .ok (bytes++source.output)
  else .ok (bytes++source.output.take n)

/-- `read_bounded`: read one byte more than there is room for, to see whether there is
one. -/
def readBounded (source : Source) (bytes : Bytes) (limit : ℕ) : Outcome IoError Bytes := do
  let room ← unwrap (subWord limit bytes.length)
  let n ← unwrap (addWord 64 room 1)
  let bytes ← readToEnd source n bytes
  if limit<bytes.length then fail (.sizeLimit limit) else .ok bytes

/-- Unpack zstd frames until the input is empty. -/
def unpackZstd (d : Decoders) (limit : ℕ) (input bytes : Bytes) : Outcome IoError Bytes :=
  match _h : d.zstd input maxDecompressedSize with
  | .error message => fail (.decoder message)
  | .ok (source,rest) => do
    let bytes ← readBounded source bytes limit
    if rest=[] then .ok bytes else unpackZstd d limit rest bytes
termination_by input.length
decreasing_by exact d.shrinks _h

/-- Unpack the bytes of a module. -/
def unpack (d : Decoders) (limit : ℕ) (input : Bytes) : ModulePacking → Outcome IoError Bytes
  | .keep => .error .panic
  | .gzip => readBounded (d.gzip input) [] limit
  | .xz => readBounded (d.xz input true (64*1024)) [] limit
  | .zstd => unpackZstd d limit input []

/-- `pack_with_limit`, on the file as the state. -/
def packWithLimit (d : Decoders) (packing : ModulePacking) (limit : ℕ) :
    Action ModuleFile PackError Unit :=
  if packing=.keep then still (.ok ())
  else do
    let file ← look
    let bytes ← still (context (PackError.mk (posixRelative file.relative))
      (unpack d limit file.bytes packing))
    change fun file => { file with relative := clearExtension file.relative }
    change fun file => { file with bytes := bytes }

/-- `pack`. -/
def pack (d : Decoders) (packing : ModulePacking) : Action ModuleFile PackError Unit :=
  packWithLimit d packing maxDecompressedSize

/-- The suffix of the files that a packing is for. -/
def ModulePacking.suffix : ModulePacking → Option String
  | .keep => none
  | .gzip => some "gz"
  | .xz => some "xz"
  | .zstd => some "zst"

/-- Every decoder reads its own format: the frames of a file one behind another, and for
zstd one frame at a time, with exactly that frame taken off the input. -/
structure Decoders.Reads (d : Decoders) (frame : ModulePacking → Reader UInt8 Bytes) : Prop where
  /-- All members of a gzip file. -/
  gzip : ∀ input out, d.gzip input=⟨out,none⟩ ↔ Concatenated (frame .gzip) input out
  /-- All streams of an xz file. -/
  xz : ∀ input out, d.xz input true (64*1024)=⟨out,none⟩ ↔ Concatenated (frame .xz) input out
  /-- One zstd frame. -/
  zstd : ∀ input out rest, d.zstd input maxDecompressedSize=.ok (⟨out,none⟩,rest) ↔
    frame .zstd input=some (out,rest)

section
variable {d : Decoders} {frame : ModulePacking → Reader UInt8 Bytes} {limit : ℕ}

/-- Reading to the end gives everything that there is, or as much as was asked for. -/
theorem readToEnd_ok {source : Source} {n : ℕ} {bytes out : Bytes} :
    readToEnd source n bytes=.ok out ↔
      source.output.length<n ∧ source.error=none ∧ bytes++source.output=out ∨
        n≤ source.output.length ∧ bytes++source.output.take n=out := by
  unfold readToEnd
  split
  · rename_i hlt
    have hnot : ¬n≤ source.output.length := by omega
    cases source.error with
    | none => simp [hlt,hnot]
    | some message => simp [hnot]
  · rename_i hlt
    have hle : n≤ source.output.length := by omega
    simp [hlt,hle]

/-- Reading to the end does not panic. -/
theorem noPanic_readToEnd (source : Source) (n : ℕ) (bytes : Bytes) :
    NoPanic (readToEnd source n bytes) := by
  unfold readToEnd
  split
  · split
    · exact noPanic_fail _
    · exact noPanic_ok _
  · exact noPanic_ok _

/-- A bounded reading succeeds exactly when everything is read and within the limit. -/
theorem readBounded_ok {source : Source} {bytes out : Bytes} (hbytes : bytes.length≤limit)
    (hlimit : limit<2^64-1) :
    readBounded source bytes limit=.ok out ↔
      source.error=none ∧ bytes++source.output=out ∧ out.length≤limit := by
  have hroom : subWord limit bytes.length=some (limit-bytes.length) := if_pos hbytes
  have hn : addWord 64 (limit-bytes.length) 1=some (limit-bytes.length+1) := if_pos (by omega)
  unfold readBounded
  rw [unwrap_bind hroom,unwrap_bind hn,bind_ok]
  constructor
  · rintro ⟨all,hall,hcheck⟩
    split at hcheck
    · cases hcheck
    · rename_i hle
      cases hcheck
      rcases readToEnd_ok.mp hall with ⟨_,herror,hout⟩ | ⟨hmore,hout⟩
      · exact ⟨herror,hout,by omega⟩
      · have hlength := congrArg List.length hout
        rw [List.length_append,List.length_take] at hlength
        omega
  · rintro ⟨herror,hout,hle⟩
    have hlength := congrArg List.length hout
    rw [List.length_append] at hlength
    refine ⟨out,readToEnd_ok.mpr (.inl ⟨by omega,herror,hout⟩),?_⟩
    rw [if_neg (by omega)]

/-- The budget is never overdrawn. -/
theorem noPanic_readBounded {source : Source} {bytes : Bytes} (hbytes : bytes.length≤limit)
    (hlimit : limit<2^64-1) : NoPanic (readBounded source bytes limit) := by
  have hroom : subWord limit bytes.length=some (limit-bytes.length) := if_pos hbytes
  have hn : addWord 64 (limit-bytes.length) 1=some (limit-bytes.length+1) := if_pos (by omega)
  unfold readBounded
  rw [unwrap_bind hroom,unwrap_bind hn]
  exact (noPanic_readToEnd _ _ _).bind fun _ _ => (noPanic_fail _).ite (noPanic_ok _)

/-- Unpacking zstd frames behind what there is already succeeds exactly when the input is
frames in a row and everything is within the limit. -/
theorem unpackZstd_ok (hreads : d.Reads frame) (hlimit : limit<2^64-1) {input bytes : Bytes}
    (hbytes : bytes.length≤limit) {out : Bytes} :
    unpackZstd d limit input bytes=.ok out ↔
      ∃ more, Concatenated (frame .zstd) input more ∧ bytes++more=out ∧ out.length≤limit := by
  fun_induction unpackZstd d limit input bytes with
  | case1 input bytes message h =>
    have hnone : ∀ more, ¬Concatenated (frame .zstd) input more := by
      intro more hmore
      have hread : ∃ b rest, frame .zstd input=some (b,rest) := by
        cases hmore with
        | last hread => exact ⟨_,_,hread⟩
        | more hread _ _ => exact ⟨_,_,hread⟩
      obtain ⟨b,rest,hread⟩ := hread
      rw [(hreads.zstd input b rest).mpr hread] at h
      cases h
    exact iff_of_false fail_ne_ok fun ⟨more,hmore,_⟩ => hnone more hmore
  | case2 input bytes source rest h ih =>
    rw [bind_ok]
    constructor
    · rintro ⟨all,hall,hout⟩
      obtain ⟨herror,hbytes',hle⟩ := (readBounded_ok hbytes hlimit).mp hall
      have hread := (hreads.zstd input source.output rest).mp (by rw [h,←herror])
      split at hout
      · rename_i hrest
        cases hout
        rw [hrest] at hread
        exact ⟨source.output,.last hread,hbytes',hle⟩
      · rename_i hrest
        obtain ⟨more,hmore,hout,hle⟩ := (ih all hle).mp hout
        refine ⟨source.output++more,.more hread hrest hmore,?_,hle⟩
        rw [←List.append_assoc,hbytes',hout]
    · rintro ⟨more,hmore,hout,hle⟩
      cases hmore with
      | last hread =>
        rw [(hreads.zstd _ _ _).mpr hread] at h
        obtain ⟨rfl,rfl⟩ := Prod.mk.inj (Except.ok.inj h)
        exact ⟨out,(readBounded_ok hbytes hlimit).mpr ⟨rfl,hout,hle⟩,if_pos rfl⟩
      | @more _ rest' b c hread hrest hc =>
        rw [(hreads.zstd _ _ _).mpr hread] at h
        obtain ⟨rfl,rfl⟩ := Prod.mk.inj (Except.ok.inj h)
        rw [←List.append_assoc] at hout
        have hlength := congrArg List.length hout
        rw [List.length_append] at hlength
        refine ⟨bytes++b,(readBounded_ok hbytes hlimit).mpr ⟨rfl,rfl,by omega⟩,?_⟩
        rw [if_neg hrest]
        exact (ih _ (by omega)).mpr ⟨c,hc,hout,hle⟩

/-- Unpacking zstd frames never overdraws the budget that they share. -/
theorem noPanic_unpackZstd (hlimit : limit<2^64-1) {input bytes : Bytes}
    (hbytes : bytes.length≤limit) : NoPanic (unpackZstd d limit input bytes) := by
  fun_induction unpackZstd d limit input bytes with
  | case1 input bytes message h => exact noPanic_fail _
  | case2 input bytes source rest h ih =>
    refine (noPanic_readBounded hbytes hlimit).bind fun all hall => ?_
    have hle := ((readBounded_ok hbytes hlimit).mp hall).2.2
    exact (noPanic_ok _).ite (ih all hle)

/-- Unpacking succeeds exactly when the file is frames in a row that are within the limit
together. -/
theorem unpack_ok (hreads : d.Reads frame) (hlimit : limit<2^64-1) {packing : ModulePacking}
    (hpacking : packing≠.keep) {input out : Bytes} :
    unpack d limit input packing=.ok out ↔
      Concatenated (frame packing) input out ∧ out.length≤limit := by
  have hempty : ([] : Bytes).length≤limit := Nat.zero_le limit
  have hwhole : ∀ source : Source, readBounded source [] limit=.ok out ↔
      source=⟨out,none⟩ ∧ out.length≤limit := by
    intro source
    rw [readBounded_ok hempty hlimit,List.nil_append]
    constructor
    · rintro ⟨herror,hout,hle⟩
      exact ⟨by rw [←herror,←hout],hle⟩
    · rintro ⟨rfl,hle⟩
      exact ⟨rfl,rfl,hle⟩
  cases packing with
  | keep => exact absurd rfl hpacking
  | gzip => exact (hwhole _).trans (and_congr_left' (hreads.gzip input out))
  | xz => exact (hwhole _).trans (and_congr_left' (hreads.xz input out))
  | zstd =>
    refine (unpackZstd_ok hreads hlimit hempty).trans ⟨?_,?_⟩
    · rintro ⟨more,hmore,rfl,hle⟩
      exact ⟨hmore,hle⟩
    · rintro ⟨hmore,hle⟩
      exact ⟨out,hmore,rfl,hle⟩

/-- Unpacking does not panic. -/
theorem noPanic_unpack (hlimit : limit<2^64-1) {packing : ModulePacking}
    (hpacking : packing≠.keep) (input : Bytes) : NoPanic (unpack d limit input packing) := by
  have hempty : ([] : Bytes).length≤limit := Nat.zero_le limit
  cases packing with
  | keep => exact absurd rfl hpacking
  | gzip => exact noPanic_readBounded hempty hlimit
  | xz => exact noPanic_readBounded hempty hlimit
  | zstd => exact noPanic_unpackZstd hlimit hempty

/-- The file changes only when it has been unpacked. -/
theorem atomic_packWithLimit (d : Decoders) (packing : ModulePacking) (limit : ℕ) :
    Atomic (packWithLimit d packing limit) := by
  unfold packWithLimit
  split
  · exact (silent_still _).atomic
  · exact silent_look.bind fun file => (silent_still _).bind fun bytes =>
      ((sure_change _).bind fun _ => sure_change _).atomic

end

/-- Modules that are kept are not touched. -/
theorem packWithLimit_keep (d : Decoders) (limit : ℕ) (file : ModuleFile) :
    runOn (packWithLimit d .keep limit) file=(.ok (),file) := rfl

/-- A packed module: its new bytes, under the name without the extension. -/
def unpacked (file : ModuleFile) (bytes : Bytes) : ModuleFile :=
  { file with relative := clearExtension file.relative,bytes := bytes }

/-- Packing is unpacking, with the file changed when there are bytes for it. -/
theorem runOn_packWithLimit {d : Decoders} {packing : ModulePacking} (hpacking : packing≠.keep)
    (limit : ℕ) (file : ModuleFile) :
    runOn (packWithLimit d packing limit) file=
      match unpack d limit file.bytes packing with
      | .ok bytes => (.ok (),unpacked file bytes)
      | .error (.err e) => (fail ⟨posixRelative file.relative,e⟩,file)
      | .error .panic => (.error .panic,file) := by
  unfold packWithLimit
  rw [if_neg hpacking,runOn_bind_ok (runOn_look file)]
  match h : unpack d limit file.bytes packing with
  | .ok bytes => rfl
  | .error (.err e) => rfl
  | .error .panic => rfl

/-- The suffixes are words without dots and slashes. -/
theorem suffix_word {packing : ModulePacking} {ext : String} (h : packing.suffix=some ext) :
    ext≠"" ∧ '.'∉ext.toList ∧ '/'∉ext.toList := by
  cases packing with
  | keep => cases h
  | gzip => cases h; decide
  | xz => cases h; decide
  | zstd => cases h; decide

/-- A packing other than keeping is chosen for files with its suffix. -/
theorem checkModule_extension {cfg : KernelConfig} {path ext : String} {packing : ModulePacking}
    (h : checkModule cfg path=.ok packing) (hsuffix : packing.suffix=some ext) :
    extension path=some ext := by
  have hfor : ∀ {chosen : ModulePacking} {option : String},
      packingFor cfg chosen option=packing → packing=chosen := by
    intro chosen option hchosen
    unfold packingFor at hchosen
    split at hchosen
    · rw [←hchosen] at hsuffix
      cases hsuffix
    · exact hchosen.symm
  obtain ⟨_,_,h⟩ := bind_ok.mp h
  split at h
  · rename_i hext
    rw [hfor (Except.ok.inj h)] at hsuffix
    exact hext.trans hsuffix
  · rename_i hext
    rw [hfor (Except.ok.inj h)] at hsuffix
    exact hext.trans hsuffix
  · rename_i hext
    rw [hfor (Except.ok.inj h)] at hsuffix
    exact hext.trans hsuffix
  · rw [←Except.ok.inj h] at hsuffix
    cases hsuffix

/-- A safe path has a name behind its last slash. -/
theorem safePath_trimmed {path : String} (h : SafePath path) :
    trimRev path.toList.reverse=path.toList.reverse := by
  have hpart : ∀ {front part : List Char}, path.toList=front++ '/'::part → '/'∉part →
      SafeSegment (.ofList part) := by
    intro front part hpath hslash
    refine h.2 _ ?_
    unfold segments
    rw [hpath,List.splitOn_append_cons_self,List.splitOn_eq_singleton hslash]
    simp
  rw [trimRev.eq_def]
  split
  · rename_i cs hcs
    have hpath : path.toList=cs.reverse++ '/'::[] := by
      rw [←List.reverse_reverse path.toList,hcs,List.reverse_cons]
    exact absurd rfl (hpart hpath List.not_mem_nil).1
  · rename_i cs hcs
    have hpath : path.toList=cs.reverse++ '/'::['.'] := by
      rw [←List.reverse_reverse path.toList,hcs]
      simp
    exact absurd rfl (hpart hpath (by decide)).2.1
  · rfl

/-- A module of the index ends in the suffix of the packing that is chosen for it. -/
theorem checkModule_endsIn {cfg : KernelConfig} {path ext : String} {packing : ModulePacking}
    (hsafe : SafePath path) (h : checkModule cfg path=.ok packing)
    (hsuffix : packing.suffix=some ext) : EndsIn ext path := by
  obtain ⟨hext,hdot,hslash⟩ := suffix_word hsuffix
  have hfound := checkModule_extension h hsuffix
  exact (extension_suffix (suffix_of_extension (safePath_trimmed hsafe) hfound) hext hdot hslash).mp hfound

/-- Packing unpacks exactly the files whose frames are within the limit together. The file
then has what they hold, under its name without the suffix, and otherwise it is as it
was. -/
theorem packWithLimit_bounded {d : Decoders} {frame : ModulePacking → Reader UInt8 Bytes}
    (hreads : d.Reads frame) {packing : ModulePacking} {ext : String} {file : ModuleFile}
    {limit : ℕ} (hsuffix : packing.suffix=some ext) (hpath : EndsIn ext file.relative)
    (hlimit : limit<2^64-1) :
    NoPanic (runOn (packWithLimit d packing limit) file).1 ∧
      ((runOn (packWithLimit d packing limit) file).1=.ok () ↔
        ∃ out, Concatenated (frame packing) file.bytes out ∧ out.length≤limit) ∧
      ((runOn (packWithLimit d packing limit) file).1=.ok () →
        ∃ stem out, file.relative=stem++"."++ext ∧ Concatenated (frame packing) file.bytes out ∧
          (∀ other, Concatenated (frame packing) file.bytes other → other=out) ∧
          out.length≤limit ∧
          (runOn (packWithLimit d packing limit) file).2=⟨stem,out,file.isRoot⟩) ∧
      ∀ e, (runOn (packWithLimit d packing limit) file).1=fail e →
        (runOn (packWithLimit d packing limit) file).2=file := by
  have hpacking : packing≠.keep := by
    rintro rfl
    cases hsuffix
  obtain ⟨hext,hdot,hslash⟩ := suffix_word hsuffix
  have hrun := runOn_packWithLimit (d := d) hpacking limit file
  have hsafe := noPanic_unpack (d := d) hlimit hpacking file.bytes
  have hok : ∀ out, unpack d limit file.bytes packing=.ok out ↔
      Concatenated (frame packing) file.bytes out ∧ out.length≤limit :=
    fun _ => unpack_ok hreads hlimit hpacking
  refine ⟨?_,?_,?_,fun e he => atomic_packWithLimit d packing limit file fun a ha => ?_⟩
  · rw [hrun]
    match h : unpack d limit file.bytes packing with
    | .ok bytes => exact noPanic_ok _
    | .error (.err e) => exact noPanic_fail _
    | .error .panic => exact absurd h hsafe
  · rw [hrun]
    match h : unpack d limit file.bytes packing with
    | .ok bytes => exact iff_of_true rfl ⟨bytes,(hok bytes).mp h⟩
    | .error e =>
      have hnot : ¬∃ out, Concatenated (frame packing) file.bytes out ∧ out.length≤limit := by
        rintro ⟨out,hout⟩
        rw [(hok out).mpr hout] at h
        cases h
      refine iff_of_false (fun hfail => ?_) hnot
      cases e <;> cases hfail
  · rw [hrun]
    match h : unpack d limit file.bytes packing with
    | .ok bytes =>
      obtain ⟨hframes,hle⟩ := (hok bytes).mp h
      exact fun _ => ⟨clearExtension file.relative,bytes,hpath.clear hext hdot hslash,hframes,
        fun other hother => hother.unique hframes,hle,rfl⟩
    | .error (.err e) => exact fun hfail => by cases hfail
    | .error .panic => exact fun hfail => by cases hfail
  · rw [he] at ha
    cases ha

/-- A zstd frame with one raw block, for contents of less than 32 bytes. -/
def rawFrame (bytes : Bytes) : Bytes :=
  [0x28,0xb5,0x2f,0xfd,0x20,.ofNat bytes.length,.ofNat (8*bytes.length+1),0,0]++bytes

/-- Read such a frame. -/
def readRawFrame : Reader UInt8 Bytes
  | 0x28::0xb5::0x2f::0xfd::0x20::n::m::0::0::rest =>
    if n.toNat<32 ∧ m.toNat=8*n.toNat+1 ∧ n.toNat≤rest.length then
      some (rest.take n.toNat,rest.drop n.toNat)
    else none
  | _ => none

/-- What is read has a header. -/
theorem readRawFrame_shrinks {input rest out : Bytes} (h : readRawFrame input=some (out,rest)) :
    rest.length< input.length := by
  unfold readRawFrame at h
  split at h
  · split at h
    · obtain ⟨-,rfl⟩ := Prod.mk.inj (Option.some.inj h)
      simp only [List.length_drop,List.length_cons]
      omega
    · cases h
  · cases h

/-- Decoders that know zstd frames with one raw block only. -/
def rawDecoders : Decoders where
  gzip _ := ⟨[],some "invalid gzip header"⟩
  xz _ _ _ := ⟨[],some "invalid XZ magic bytes"⟩
  zstd input _ :=
    match readRawFrame input with
    | some (out,rest) => .ok (⟨out,none⟩,rest)
    | none => .error "no raw frame"
  shrinks {input rest _ source} h := by
    cases hread : readRawFrame input with
    | none =>
      rw [hread] at h
      cases h
    | some found =>
      rw [hread] at h
      cases h
      exact readRawFrame_shrinks hread

/-- The frames that these decoders read. -/
def rawFormat : ModulePacking → Reader UInt8 Bytes
  | .zstd => readRawFrame
  | _ => fun _ => none

/-- The decoders read them. -/
theorem rawDecoders_reads : rawDecoders.Reads rawFormat where
  gzip input out := iff_of_false (by simp [rawDecoders]) fun h => by cases h <;> contradiction
  xz input out := iff_of_false (by simp [rawDecoders]) fun h => by cases h <;> contradiction
  zstd input out rest := by
    unfold rawDecoders rawFormat
    dsimp only
    split
    · rename_i hread
      rw [hread]
      simp
    · rename_i hread
      rw [hread]
      simp

/-- Two frames that fill the limit together. -/
theorem packWithLimit_bounded_sample :
    (runOn (packWithLimit rawDecoders .zstd 3)
      ⟨"kernel/a.ko.zst",rawFrame [1,2]++rawFrame [3],true⟩).1=.ok () := by
  have hlast : "kernel/".toList.getLast?=some '/' := by decide
  have hpath : EndsIn "zst" "kernel/a.ko.zst" := by
    refine ⟨"kernel/".toList,"a.ko".toList,by decide,by decide,by decide,fun c hc => ?_⟩
    rw [hlast] at hc
    exact (Option.some.inj hc).symm
  have hfirst : readRawFrame (rawFrame [1,2]++rawFrame [3])=some ([1,2],rawFrame [3]) := rfl
  have hframes : Concatenated (rawFormat .zstd) (rawFrame [1,2]++rawFrame [3]) ([1,2]++[3]) :=
    .more hfirst (by decide) (.last rfl)
  exact (packWithLimit_bounded rawDecoders_reads rfl hpath (by decide)).2.1.mpr
    ⟨[1,2]++[3],hframes,by decide⟩

end Arma.Modules.Packing
