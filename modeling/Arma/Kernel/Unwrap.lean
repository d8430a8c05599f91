import Arma.Base.Windows
import Arma.Kernel.Image

/-!
# Unwrapping a kernel file

A kernel is a section of a unified kernel image, is compressed behind an EFI stub or inside a
bzImage, or is the file. The wrappers are taken off from the outside to the inside; a file
without a wrapper passes each step unchanged. The PE parser and the decoders are parameters.
-/

namespace Arma.Kernel.Unwrap

open Base.ByteString Base.Checked Base.Windows Image

/-- What the PE parser tells of a section, with its name field as it is. -/
structure PeRow where
  /-- `name`. -/
  name : Bytes
  /-- `virtual_size`. -/
  virtualSize : UInt32
  /-- `pointer_to_raw_data`. -/
  pointerToRawData : UInt32
  /-- `size_of_raw_data`. -/
  sizeOfRawData : UInt32
deriving DecidableEq, Repr

/-- The parser and the decoders that are called. -/
structure Codecs where
  /-- `goblin::pe::PE::parse`. -/
  peParse : Bytes → Option (List PeRow)
  /-- `GzDecoder`, to the end of its stream. -/
  gunzip : Bytes → Except String Bytes
  /-- `StreamingDecoder`, to the end of its frame. -/
  unzstd : Bytes → Except String Bytes

/-- Errors from unwrapping a kernel. -/
inductive UnwrapError where
  /-- `UKI kernel malformed: {0}`. -/
  | ukiMalformed (msg : String)
  /-- `EFI-zboot payload out of bounds (offset {offset:#x}, size {size:#x}, file {file} bytes)`. -/
  | zbootMalformed (offset size file : ℕ)
  /-- `EFI-zboot uses unsupported compression {0:?}; only gzip and zstd are supported`. -/
  | zbootCompression (comp : Bytes)
  /-- `EFI-zboot payload decompression failed: {0}`. -/
  | zbootDecompress (msg : String)
  /-- `bzImage (vmlinuz) carries no vmlinux arma can extract; ...`. -/
  | bzImageNoVmlinux
deriving DecidableEq, Repr

/-- `MZ`. -/
def mz : Bytes := [0x4D,0x5A]

/-- `zimg`. -/
def zimg : Bytes := [0x7A,0x69,0x6D,0x67]

/-- The name field of the section `.linux`. -/
def linuxName : Bytes := [0x2E,0x6C,0x69,0x6E,0x75,0x78,0,0]

/-- `GZIP_MAGIC`. -/
def gzipMagic : Bytes := [0x1f,0x8b,0x08]

/-- `ZSTD_MAGIC`. -/
def zstdMagic : Bytes := [0x28,0xb5,0x2f,0xfd]

/-- `BZIMAGE_HDRS_MAGIC`. -/
def bzImageHdrsMagic : ℕ := 0x53726448

/-- `BZIMAGE_HDRS_OFFSET`. -/
def bzImageHdrsOffset : ℕ := 0x202

/-- The bytes from an offset on, when they are in the file. -/
def payload (offset size : ℕ) (input : Bytes) : Option Bytes :=
  ((addWord 64 offset size).filter fun stop => decide (stop≤ input.length)).map fun stop =>
    slice offset (stop-offset) input

/-- The file is no unified kernel image by its first bytes. -/
def IsDirect (input : Bytes) : Prop :=
  ¬mz<+:input ∨ slice 4 4 input=zimg ∨ slice 56 4 input=leBytes 4 arm64ImageMagic

instance (input : Bytes) : Decidable (IsDirect input) := inferInstanceAs (Decidable (_ ∨ _ ∨ _))

/-- The bytes of a section that is as large in memory as in the file, up to padding. -/
def fileBacked (input : Bytes) (row : PeRow) : Outcome UnwrapError Bytes :=
  let size := row.virtualSize.toNat
  if size=0 ∨ row.sizeOfRawData.toNat < size then
    fail (.ukiMalformed ".linux is not fully file-backed")
  else
    okOr (payload row.pointerToRawData.toNat size input) (.ukiMalformed ".linux is out of bounds")

/-- What the sections of that name stand for: the file when there are none, else the only one. -/
def linuxPayload (input : Bytes) : List PeRow → Outcome UnwrapError Bytes
  | [] => .ok input
  | [row] => fileBacked input row
  | _::_::_ => fail (.ukiMalformed "duplicate .linux sections")

/-- `unwrap_uki`. -/
def unwrapUki (lib : Codecs) (input : Bytes) : Outcome UnwrapError Bytes :=
  if IsDirect input then .ok input
  else do
    let rows ← okOr (lib.peParse input) (.ukiMalformed "invalid PE headers")
    linuxPayload input (rows.filter fun row => decide (row.name=linuxName))

/-- The file has the header of an EFI-zboot kernel. -/
def IsZboot (input : Bytes) : Prop :=
  56≤ input.length ∧ slice 0 2 input=mz ∧ slice 4 4 input=zimg

instance (input : Bytes) : Decidable (IsZboot input) := inferInstanceAs (Decidable (_ ∧ _ ∧ _))

/-- The name of the compression, up to a NUL. -/
def compName (input : Bytes) : Bytes := (slice 24 32 input).takeWhile fun b => decide (b≠0)

/-- The errors of a decoder are those of the payload. -/
def inflated : Except String Bytes → Outcome UnwrapError Bytes
  | .ok image => .ok image
  | .error e => fail (.zbootDecompress e)

/-- Decompress a payload as its name says. -/
def inflate (lib : Codecs) (comp packed : Bytes) : Outcome UnwrapError Bytes :=
  if comp=ascii "gzip" then inflated (lib.gunzip packed)
  else if comp=ascii "zstd" then inflated (lib.unzstd packed)
  else fail (.zbootCompression comp)

/-- `unwrap_zboot`. -/
def unwrapZboot (lib : Codecs) (input : Bytes) : Outcome UnwrapError Bytes :=
  if IsZboot input then do
    let offset := ofLE (slice 8 4 input)
    let size := ofLE (slice 12 4 input)
    let packed ← okOr (payload offset size input) (.zbootMalformed offset size input.length)
    inflate lib (compName input) packed
  else .ok input

/-- The file is a bzImage. -/
def IsBzImage (input : Bytes) : Prop :=
  bzImageHdrsOffset+4≤ input.length ∧ ofLE (slice bzImageHdrsOffset 4 input)=bzImageHdrsMagic

instance (input : Bytes) : Decidable (IsBzImage input) := inferInstanceAs (Decidable (_ ∧ _))

/-- The bytes are those of an ELF file. -/
def isElf (out : Bytes) : Bool := decide (4≤out.length) && decide (slice 0 4 out=elfMagic)

/-- What a decoder makes of a string, when that is an ELF file. -/
def elfOf (decompress : Bytes → Except String Bytes) (packed : Bytes) : Option Bytes :=
  (decompress packed).toOption.filter isElf

/-- `scan_decompress`. -/
def scanDecompress (input magic : Bytes) (decompress : Bytes → Except String Bytes) :
    Option Bytes :=
  search magic input (elfOf decompress) 0

/-- `extract_vmlinux`. -/
def extractVmlinux (lib : Codecs) (input : Bytes) : Outcome UnwrapError Bytes :=
  if IsBzImage input then
    match scanDecompress input gzipMagic lib.gunzip with
    | some elf => .ok elf
    | none =>
      match scanDecompress input zstdMagic lib.unzstd with
      | some elf => .ok elf
      | none => fail .bzImageNoVmlinux
  else .ok input

/-- The three steps. -/
def unwrapKernel (lib : Codecs) (input : Bytes) : Outcome UnwrapError Bytes := do
  let bytes ← unwrapUki lib input
  let bytes ← unwrapZboot lib bytes
  extractVmlinux lib bytes

/-- The bytes that a file holds from an offset on. -/
def Holds (input : Bytes) (offset : ℕ) (bytes : Bytes) : Prop :=
  ∃ front back, input=front++bytes++back ∧ front.length=offset

/-- The payload is what the file holds at its offset, of its size. -/
theorem payload_some {offset size : ℕ} {input bytes : Bytes} (hoffset : offset < 2^32)
    (hsize : size < 2^32) : payload offset size input=some bytes ↔
      bytes.length=size ∧ Holds input offset bytes := by
  unfold payload
  rw [Option.map_eq_some_iff]
  constructor
  · rintro ⟨stop,hstop,hbytes⟩
    obtain ⟨hsum,hin⟩ := Option.filter_eq_some_iff.mp hstop
    obtain ⟨hadd,-⟩ := addWord_some.mp hsum
    rw [decide_eq_true_eq] at hin
    subst hadd
    rw [Nat.add_sub_cancel_left] at hbytes
    refine ⟨?_,input.take offset,input.drop (offset+size),?_,?_⟩
    · rw [←hbytes,length_slice hin]
    · rw [←hbytes,slice,List.append_assoc,←List.drop_drop,List.take_append_drop,
        List.take_append_drop]
    · rw [List.length_take]
      omega
  · rintro ⟨hlength,front,back,hinput,hfront⟩
    have hroom : offset+size≤ input.length := by
      rw [hinput,List.length_append,List.length_append]
      omega
    refine ⟨offset+size,?_,?_⟩
    · rw [Option.filter_eq_some_iff,addWord_some]
      exact ⟨⟨rfl,by omega⟩,decide_eq_true hroom⟩
    · rw [Nat.add_sub_cancel_left,hinput]
      exact slice_append hfront hlength

/-- What a payload is decompressed to. -/
def Inflates (lib : Codecs) (comp packed image : Bytes) : Prop :=
  (comp=ascii "gzip" ∧ lib.gunzip packed=.ok image) ∨
    (comp=ascii "zstd" ∧ lib.unzstd packed=.ok image)

/-- A decoder that succeeds. -/
theorem inflated_ok {x : Except String Bytes} {image : Bytes} :
    inflated x=.ok image ↔ x=.ok image := by
  cases x with
  | error e => exact iff_of_false fail_ne_ok nofun
  | ok a => simp [inflated]

/-- Two compressions are known. -/
theorem inflate_ok {lib : Codecs} {comp packed image : Bytes} :
    inflate lib comp packed=.ok image ↔ Inflates lib comp packed image := by
  have hother : ascii "gzip"≠ascii "zstd" := by decide
  unfold inflate Inflates
  by_cases hgzip : comp=ascii "gzip"
  · rw [if_pos hgzip,inflated_ok,hgzip]
    simp [hother]
  · rw [if_neg hgzip]
    by_cases hzstd : comp=ascii "zstd"
    · rw [if_pos hzstd,inflated_ok]
      simp [hzstd,hother.symm]
    · rw [if_neg hzstd]
      exact iff_of_false fail_ne_ok fun h => h.elim (fun h => hgzip h.1) fun h => hzstd h.1

/-- What a file is unwrapped to as a unified kernel image: the only section of that name, which
is not larger in memory than in the file, or the file when there is none. -/
def UkiOf (lib : Codecs) (input kernel : Bytes) : Prop :=
  (IsDirect input ∧ kernel=input) ∨ ¬IsDirect input ∧ ∃ rows, lib.peParse input=some rows ∧
    ((∀ row∈rows, row.name≠linuxName) ∧ kernel=input ∨
      ∃ before row after, rows=before++row::after ∧ row.name=linuxName ∧
        (∀ other∈before++after, other.name≠linuxName) ∧ 0 < row.virtualSize.toNat ∧
        row.virtualSize.toNat≤row.sizeOfRawData.toNat ∧
        kernel.length=row.virtualSize.toNat ∧ Holds input row.pointerToRawData.toNat kernel)

/-- What a file is unwrapped to as an EFI-zboot kernel: the image that its payload is
decompressed to, or the file when it is none. -/
def ZbootOf (lib : Codecs) (input image : Bytes) : Prop :=
  (¬IsZboot input ∧ image=input) ∨ IsZboot input ∧ ∃ packed,
    packed.length=ofLE (slice 12 4 input) ∧ Holds input (ofLE (slice 8 4 input)) packed ∧
      Inflates lib (compName input) packed image

/-- A section is taken as it is said to be. -/
theorem fileBacked_ok {input kernel : Bytes} {row : PeRow} :
    fileBacked input row=.ok kernel ↔ 0 < row.virtualSize.toNat ∧
      row.virtualSize.toNat≤row.sizeOfRawData.toNat ∧ kernel.length=row.virtualSize.toNat ∧
      Holds input row.pointerToRawData.toNat kernel := by
  unfold fileBacked
  dsimp only
  by_cases hsize : row.virtualSize.toNat=0 ∨ row.sizeOfRawData.toNat < row.virtualSize.toNat
  · rw [if_pos hsize]
    exact iff_of_false fail_ne_ok fun h => by omega
  · rw [if_neg hsize,okOr_ok,
      payload_some row.pointerToRawData.toNat_lt row.virtualSize.toNat_lt]
    have hpos : 0 < row.virtualSize.toNat ∧
        row.virtualSize.toNat≤row.sizeOfRawData.toNat := by omega
    rw [←and_assoc,and_iff_right hpos]

/-- One row of many has the name. -/
theorem filter_linux {rows : List PeRow} {row : PeRow} :
    rows.filter (fun row => decide (row.name=linuxName))=[row] ↔
      ∃ before after, rows=before++row::after ∧ row.name=linuxName ∧
        ∀ other∈before++after, other.name≠linuxName := by
  rw [List.filter_eq_cons_iff]
  simp only [decide_eq_true_eq,List.filter_eq_nil_iff,List.forall_mem_append]
  constructor
  · rintro ⟨before,after,hrows,hbefore,hname,hafter⟩
    exact ⟨before,after,hrows,hname,hbefore,hafter⟩
  · rintro ⟨before,after,hrows,hname,hbefore,hafter⟩
    exact ⟨before,after,hrows,hbefore,hname,hafter⟩

/-- A unified kernel image is unwrapped to the kernel in it. -/
theorem unwrapUki_ok {lib : Codecs} {input kernel : Bytes} :
    unwrapUki lib input=.ok kernel ↔ UkiOf lib input kernel := by
  unfold unwrapUki UkiOf
  by_cases hdirect : IsDirect input
  · rw [if_pos hdirect,and_iff_right hdirect,or_iff_left fun h => h.1 hdirect,Except.ok.injEq]
    exact eq_comm
  · rw [if_neg hdirect,or_iff_right fun h => hdirect h.1,and_iff_right hdirect,bind_ok]
    refine exists_congr fun rows => and_congr okOr_ok ?_
    cases hfound : rows.filter fun row => decide (row.name=linuxName) with
    | nil =>
      have hnone : ∀ row∈rows, row.name≠linuxName := fun row hrow =>
        of_decide_eq_false (Bool.eq_false_iff.mpr (List.filter_eq_nil_iff.mp hfound row hrow))
      rw [and_iff_right hnone,or_iff_left]
      · exact Except.ok.injEq input kernel ▸ eq_comm
      · rintro ⟨before,row,after,hrows,hname,-⟩
        refine hnone row ?_ hname
        rw [hrows]
        exact List.mem_append_right _ List.mem_cons_self
    | cons row more =>
      have hrow : row∈rows ∧ row.name=linuxName := by
        have hmem : row∈rows.filter fun row => decide (row.name=linuxName) := by
          rw [hfound]
          exact List.mem_cons_self
        rwa [List.mem_filter,decide_eq_true_eq] at hmem
      rw [or_iff_right fun h => h.1 row hrow.1 hrow.2]
      cases more with
      | nil =>
        change fileBacked input row=.ok kernel ↔ _
        rw [fileBacked_ok]
        obtain ⟨before,after,hrows,hname,hothers⟩ := filter_linux.mp hfound
        constructor
        · intro h
          exact ⟨before,row,after,hrows,hname,hothers,h⟩
        · rintro ⟨before',row',after',hrows',hname',hothers',h⟩
          have hsame := filter_linux.mpr ⟨before',after',hrows',hname',hothers'⟩
          rw [hfound] at hsame
          obtain rfl := (List.cons.inj hsame).1
          exact h
      | cons second rest =>
        refine iff_of_false fail_ne_ok ?_
        rintro ⟨before,row',after,hrows,hname,hothers,-⟩
        have hsame := filter_linux.mpr ⟨before,after,hrows,hname,hothers⟩
        rw [hfound] at hsame
        exact absurd (List.cons.inj hsame).2 (List.cons_ne_nil second rest)

/-- An EFI-zboot kernel is unwrapped to its image. -/
theorem unwrapZboot_ok {lib : Codecs} {input image : Bytes} :
    unwrapZboot lib input=.ok image ↔ ZbootOf lib input image := by
  unfold unwrapZboot ZbootOf
  by_cases hzboot : IsZboot input
  · have hlength := hzboot.1
    have hoffset : ofLE (slice 8 4 input) < 2^32 := ofLE_slice_lt (by omega)
    have hsize : ofLE (slice 12 4 input) < 2^32 := ofLE_slice_lt (by omega)
    rw [if_pos hzboot,bind_ok,or_iff_right fun h => h.1 hzboot,and_iff_right hzboot]
    refine exists_congr fun packed => ?_
    rw [okOr_ok,payload_some hoffset hsize,inflate_ok,and_assoc]
  · rw [if_neg hzboot,Except.ok.injEq,and_iff_right hzboot,or_iff_left fun h => hzboot h.1]
    exact eq_comm

/-- The first place behind a magic from which a decoder makes an ELF file, and that file. -/
def FirstElf (input magic : Bytes) (decompress : Bytes → Except String Bytes) (elf : Bytes) :
    Prop :=
  ∃ i, IsLeast {i | i∈occurrences magic input ∧
      ∃ out, decompress (input.drop i)=.ok out ∧ isElf out=true} i ∧
    decompress (input.drop i)=.ok elf

/-- No place behind a magic from which a decoder makes an ELF file. -/
def NoElf (input magic : Bytes) (decompress : Bytes → Except String Bytes) : Prop :=
  ∀ i∈occurrences magic input, ∀ out, decompress (input.drop i)=.ok out → isElf out=false

/-- What is made of a string is an ELF file. -/
theorem elfOf_some {decompress : Bytes → Except String Bytes} {packed elf : Bytes} :
    elfOf decompress packed=some elf ↔ decompress packed=.ok elf ∧ isElf elf=true := by
  unfold elfOf
  rw [Option.filter_eq_some_iff]
  cases decompress packed <;> simp [Except.toOption]

/-- The places that a scan is after. -/
theorem useful_elfOf (input magic : Bytes) (decompress : Bytes → Except String Bytes) :
    useful magic input (elfOf decompress) 0={i | i∈occurrences magic input ∧
      ∃ out, decompress (input.drop i)=.ok out ∧ isElf out=true} := by
  ext i
  change 0≤ i ∧ i∈occurrences magic input ∧ (elfOf decompress (input.drop i)).isSome=true ↔ _
  rw [and_iff_right (Nat.zero_le i),Option.isSome_iff_exists]
  exact and_congr_right' (exists_congr fun out => elfOf_some)

/-- A scan finds the first ELF file. -/
theorem scanDecompress_some {input magic elf : Bytes}
    {decompress : Bytes → Except String Bytes} :
    scanDecompress input magic decompress=some elf ↔ FirstElf input magic decompress elf := by
  unfold scanDecompress FirstElf
  rw [search_some,useful_elfOf]
  refine exists_congr fun i => and_congr_right fun hleast => ?_
  obtain ⟨out,hout,helf⟩ := hleast.1.2
  rw [elfOf_some]
  refine and_iff_left_of_imp fun h => ?_
  obtain rfl : out=elf := Except.ok.inj (hout.symm.trans h)
  exact helf

/-- A scan that finds none has tried every place. -/
theorem scanDecompress_none {input magic : Bytes} {decompress : Bytes → Except String Bytes} :
    scanDecompress input magic decompress=none ↔ NoElf input magic decompress := by
  unfold scanDecompress NoElf
  rw [search_none,useful_elfOf,Set.eq_empty_iff_forall_notMem]
  refine forall_congr' fun i => ?_
  constructor
  · intro hnone hi out hout
    exact Bool.eq_false_iff.mpr fun helf => hnone ⟨hi,out,hout,helf⟩
  · rintro hall ⟨hi,out,hout,helf⟩
    rw [hall hi out hout] at helf
    cases helf

/-- What a file is unwrapped to as a bzImage: the first ELF file that gzip makes of what follows
one of its magics, else the first that zstd makes, or the file when it is none. -/
def VmlinuxOf (lib : Codecs) (input kernel : Bytes) : Prop :=
  (¬IsBzImage input ∧ kernel=input) ∨ IsBzImage input ∧
    (FirstElf input gzipMagic lib.gunzip kernel ∨
      NoElf input gzipMagic lib.gunzip ∧ FirstElf input zstdMagic lib.unzstd kernel)

/-- A bzImage is unwrapped to its ELF file. -/
theorem extractVmlinux_ok {lib : Codecs} {input kernel : Bytes} :
    extractVmlinux lib input=.ok kernel ↔ VmlinuxOf lib input kernel := by
  unfold extractVmlinux VmlinuxOf
  by_cases hbz : IsBzImage input
  · rw [if_pos hbz,or_iff_right fun h => h.1 hbz,and_iff_right hbz,←scanDecompress_some,
      ←scanDecompress_some,←scanDecompress_none]
    cases scanDecompress input gzipMagic lib.gunzip with
    | some elf => simp
    | none =>
      cases scanDecompress input zstdMagic lib.unzstd with
      | some elf => simp
      | none => simp
  · rw [if_neg hbz,Except.ok.injEq,or_iff_left fun h => hbz h.1,and_iff_right hbz]
    exact eq_comm

/-- A kernel file is unwrapped exactly to what its wrappers hold, from the outside to the
inside. Bytes that only look like a compressed payload are passed over, and what is around a
payload does not matter. -/
theorem unwrapKernel_ok {lib : Codecs} {input kernel : Bytes} :
    unwrapKernel lib input=.ok kernel ↔ ∃ inner image, UkiOf lib input inner ∧
      ZbootOf lib inner image ∧ VmlinuxOf lib image kernel := by
  unfold unwrapKernel
  simp only [bind_ok,unwrapUki_ok,unwrapZboot_ok,extractVmlinux_ok]
  constructor
  · rintro ⟨inner,hinner,image,himage,hkernel⟩
    exact ⟨inner,image,hinner,himage,hkernel⟩
  · rintro ⟨inner,image,hinner,himage,hkernel⟩
    exact ⟨inner,hinner,image,himage,hkernel⟩

end Arma.Kernel.Unwrap
