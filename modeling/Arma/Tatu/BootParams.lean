import Arma.Tatu.E820

/-!
# The boot parameters for Linux

tatu reads the extent of the initrd from `/chosen` and writes the zero page: the
fields of the setup header, the address of the ACPI tables and the memory map.
The setup header has 32 bits for the initrd's address and size.
-/

namespace Arma.Tatu.BootParams

open Base.ByteString Base.Checked Devtree Validate E820

/-- The region of the initrd. -/
structure Initrd where
  /-- Its address. -/
  gpa : ℕ
  /-- Its size. -/
  size : ℕ
deriving DecidableEq, Repr

/-- No initrd. -/
def Initrd.none : Initrd := ⟨0,0⟩

/-- A big-endian word of one cell or of two. -/
def readUint (bytes : Bytes) : Option ℕ :=
  if bytes.length=4 ∨ bytes.length=8 then some (ofBE bytes) else .none

/-- The region between two values; none if they are no words in order. -/
def Initrd.ofBounds (start stop : Bytes) : Initrd :=
  match readUint start,readUint stop with
  | some start,some stop => if stop < start then .none else ⟨start,stop-start⟩
  | _,_ => .none

/-- `SetupHeader`: the fields that tatu writes. -/
structure SetupHeader where
  /-- `setup_sects`. -/
  setupSects : UInt8
  /-- `boot_flag`. -/
  bootFlag : UInt16
  /-- `header`. -/
  header : UInt32
  /-- `type_of_loader`. -/
  typeOfLoader : UInt8
  /-- `loadflags`. -/
  loadflags : UInt8
  /-- `code32_start`. -/
  code32Start : UInt32
  /-- `ramdisk_image`. -/
  ramdiskImage : UInt32
  /-- `ramdisk_size`. -/
  ramdiskSize : UInt32
  /-- `cmd_line_ptr`. -/
  cmdLinePtr : UInt32
deriving DecidableEq, Repr

/-- `LinuxBootParams`: the fields that tatu writes. -/
structure LinuxBootParams where
  /-- `acpi_rsdp_addr`. -/
  acpiRsdpAddr : UInt64
  /-- `setup_header`. -/
  setupHeader : SetupHeader
  /-- `e820_table` and `e820_entries`. -/
  e820 : BootE820
deriving DecidableEq, Repr

/-- `BOOT_FLAG_VAL`. -/
def bootFlagVal : UInt16 := 0xAA55

/-- `HEADER_MAGIC_VAL`, `HdrS`. -/
def headerMagicVal : UInt32 := 0x53726448

/-- `LOADED_HIGH`. -/
def loadedHigh : UInt8 := 0x01

/-- `LOADER_TYPE_TATU`. -/
def loaderTypeTatu : UInt8 := 0xE0

/-- `u32::try_from`. -/
def tryU32 (v : ℕ) : Outcome ValidationError UInt32 :=
  if v<2^32 then .ok (.ofNat v) else fail .addressOverflow

/-- The setup header for an ELF kernel. -/
def elfHeader (ramdiskImage ramdiskSize cmdLinePtr : UInt32) : SetupHeader where
  setupSects := 0
  bootFlag := bootFlagVal
  header := headerMagicVal
  typeOfLoader := loaderTypeTatu
  loadflags := loadedHigh
  code32Start := 0
  ramdiskImage := ramdiskImage
  ramdiskSize := ramdiskSize
  cmdLinePtr := cmdLinePtr

/-- The parameters with another initrd. -/
def LinuxBootParams.withRamdisk (bp : LinuxBootParams) (initrd : Initrd) : LinuxBootParams :=
  {bp with setupHeader := {bp.setupHeader with
    ramdiskImage := .ofNat initrd.gpa,ramdiskSize := .ofNat initrd.size}}

/-- A narrowed value is a word. -/
theorem tryU32_eq {v : ℕ} (h : v<2^32) : tryU32 v=.ok (.ofNat v) := if_pos h

section Chosen

variable [DevtreeLib]

/-- The initrd that `/chosen` describes. -/
def Initrd.fromDtb (tree : Node) : Initrd :=
  match DevtreeLib.findPath tree "/chosen" with
  | .none => .none
  | some chosen =>
    match chosen.property "linux,initrd-start",chosen.property "linux,initrd-end" with
    | some start,some stop => .ofBounds start stop
    | _,_ => .none

/-- `fill_elf` on a zeroed page, with the address of the command line. -/
def fillElf (cmdLine : ℕ) (initrd : Initrd) (rsdpGpa acpiSize : ℕ) (tree : Node) :
    Outcome ValidationError LinuxBootParams := do
  let cmdLinePtr ← tryU32 cmdLine
  let ramdiskImage ← tryU32 initrd.gpa
  let ramdiskSize ← tryU32 initrd.size
  let e820 ← fillE820 tree rsdpGpa acpiSize
  .ok ⟨.ofNat rsdpGpa,elfHeader ramdiskImage ramdiskSize cmdLinePtr,e820⟩

/-- The library finds a child of the root by its name. -/
def ChosenLaw : Prop := ∀ root chosen, childNamed root "chosen"=some chosen →
  DevtreeLib.findPath root "/chosen"=some chosen

/-- An initrd within 32 bits is written as it is, and whatever else goes wrong goes
wrong without it. -/
theorem fillElf_initrd {initrd : Initrd} (hgpa : initrd.gpa<2^32) (hsize : initrd.size<2^32)
    (cmdLine rsdpGpa acpiSize : ℕ) (tree : Node) :
    fillElf cmdLine initrd rsdpGpa acpiSize tree=
      (fillElf cmdLine .none rsdpGpa acpiSize tree).map (·.withRamdisk initrd) := by
  unfold fillElf
  rw [tryU32_eq hgpa,tryU32_eq hsize,Initrd.none,tryU32_eq (Nat.two_pow_pos 32)]
  cases tryU32 cmdLine with
  | error e => rfl
  | ok ptr =>
    cases fillE820 tree rsdpGpa acpiSize with
    | error e => rfl
    | ok e820 => rfl

end Chosen

/-- The lookups by exact name find it. -/
theorem chosenLaw_plainLib : @ChosenLaw plainLib := by
  intro root chosen h
  have hpath : (("/chosen".toList.splitOn '/').filterMap fun s =>
      if s=[] then .none else some (String.ofList s))=["chosen"] := by decide
  have hfind : plainLib.findPath root "/chosen"=descend root ["chosen"] :=
    congrArg (descend root) hpath
  rw [hfind,descend,h]
  rfl

end Arma.Tatu.BootParams
