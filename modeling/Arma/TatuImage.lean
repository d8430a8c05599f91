import Mathlib.Data.List.Sort
import Mathlib.Tactic.Common
import Arma.Base.ByteString
import Arma.Base.Checked
import Arma.Planner.Model

/-!
# tatu's ELF image

arma reads only the section table: one entry for each allocated section that
has contents or reserves zeroed memory, sorted by address.
-/

namespace Arma.TatuImage

open Base.ByteString Base.Checked Planner.Model

/-- `.tatu.bootinfo`. -/
def bootinfoSection : String := ".tatu.bootinfo"

/-- `.tatu.dtb`. -/
def dtbSection : String := ".tatu.dtb"

/-- A section of tatu. Its flags follow from its name and type, so they are
stated with it. -/
structure TatuSection where
  /-- Section name. -/
  name : String
  /-- Load address. -/
  vaddr : ℕ
  /-- Contents; empty for zeroed sections. -/
  data : Bytes
  /-- Size in memory. -/
  virtualSize : ℕ
  /-- The section reserves zeroed memory. -/
  isNobits : Bool
  /-- The section is the bootstrap header. -/
  isBootinfo : Bool
  /-- The section is the base devicetree. -/
  isDtb : Bool
  /-- A zeroed section has no contents. -/
  nobits_data : isNobits=true → data=[]
  /-- The header is recognised by its name. -/
  isBootinfo_eq : isBootinfo=decide (name=bootinfoSection)
  /-- The base devicetree is recognised by its name. -/
  isDtb_eq : isDtb=decide (name=dtbSection)

/-- The sections of tatu and its entry point. -/
structure TatuImage where
  /-- Sections in address order. -/
  sections : List TatuSection
  /-- Entry point. -/
  entry : ℕ

/-- The first section of the given name. -/
def TatuImage.section (t : TatuImage) (name : String) : Option TatuSection :=
  t.sections.find? fun s => decide (s.name=name)

/-- The address ranges that the sections take. -/
def TatuImage.reserved (t : TatuImage) : List Range :=
  t.sections.map fun s => ⟨s.vaddr,s.vaddr+s.virtualSize⟩

/-- What the ELF parser reports about one section header. -/
structure SectionHeader where
  /-- Name, if it is in the string table. -/
  name : Option String
  /-- `SHF_ALLOC` is set. -/
  alloc : Bool
  /-- `SHT_NOBITS`. -/
  nobits : Bool
  /-- `SHT_PROGBITS`. -/
  progbits : Bool
  /-- `sh_addr`. -/
  addr : ℕ
  /-- `sh_offset`. -/
  offset : ℕ
  /-- `sh_size`. -/
  size : ℕ

/-- Errors of the image parser. -/
inductive TatuError where
  /-- `tatu ELF e_machine does not match expected arch`. -/
  | wrongArch (found expected : ℕ)
  /-- A section extends past the end of the file. -/
  | truncatedSection (name : String)
  /-- A required section is missing. -/
  | missingSection (name : String)
deriving DecidableEq, Repr

/-- The contents of a section; zeroed sections have none. -/
def sectionData (bytes : Bytes) (sh : SectionHeader) (name : String) :
    Outcome TatuError {data : Bytes // sh.nobits=true → data=[]} :=
  if h : sh.nobits=true then .ok ⟨[],fun _ => rfl⟩
  else do
    let stop ← okOr (addWord 64 sh.offset sh.size) (.truncatedSection name)
    if bytes.length < stop then fail (.truncatedSection name)
    else .ok ⟨slice sh.offset sh.size bytes,fun hn => absurd hn h⟩

/-- The loop over the section headers: allocated sections with a size and a type
that is loaded. -/
def parseSections (bytes : Bytes) : List SectionHeader → Outcome TatuError (List TatuSection)
  | [] => .ok []
  | sh::rest =>
    if !sh.alloc || decide (sh.size=0) || !(sh.nobits || sh.progbits) then parseSections bytes rest
    else do
      let name := sh.name.getD "<unnamed>"
      let data ← sectionData bytes sh name
      let tail ← parseSections bytes rest
      .ok (⟨name,sh.addr,data.val,sh.size,sh.nobits,decide (name=bootinfoSection),
        decide (name=dtbSection),data.property,rfl,rfl⟩::tail)

/-- Parse tatu's ELF from the header fields and the section table that the ELF
parser reports. -/
def parse (bytes : Bytes) (machine expected entry : ℕ) (headers : List SectionHeader) :
    Outcome TatuError TatuImage :=
  if machine≠expected then fail (.wrongArch machine expected)
  else do
    let sections ← parseSections bytes headers
    if !sections.any TatuSection.isBootinfo then fail (.missingSection bootinfoSection)
    else .ok ⟨sections.insertionSort fun a b => a.vaddr≤b.vaddr,entry⟩

end Arma.TatuImage
