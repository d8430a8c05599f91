import Arma.Initrd.Archive

/-!
# The sizes of records

The size that is checked before a record is written is the number of bytes that writing it
appends, with both paddings, and every header has its thirteen fields of eight digits.
-/

namespace Arma.Initrd.Sizes

open Base.ByteString Base.Checked Base.Text Initrd.Newc Initrd.Materialize Initrd.Archive

/-- The arguments of `checked_entry`. -/
structure Entry where
  /-- Inode number. -/
  ino : UInt32
  /-- Type and permissions. -/
  mode : UInt32
  /-- Link count. -/
  nlink : UInt32
  /-- Name. -/
  name : String
  /-- Data. -/
  bytes : Bytes
  /-- Major and minor number of a device. -/
  rdev : Option (UInt32×UInt32)
deriving DecidableEq

/-- What the record of an entry is written from. -/
def Entry.node (e : Entry) : Node :=
  ⟨e.ino.toNat,e.mode.toNat,e.nlink.toNat,e.name,e.bytes,
    e.rdev.map fun d => (d.1.toNat,d.2.toNat)⟩

/-- Write entries behind one another. -/
def checkedEntries (out : Bytes) (entries : List Entry) : Outcome InitrdError Bytes :=
  entries.foldlM (fun out e => checkedEntry out e.node) out

/-- The header of a record. -/
def header (e : Node) : Bytes := newcMagic++e.fields.flatMap (hexPadded 8)

/-- What is appended for an entry, and that it has the size that was checked. -/
structure Appended (out out' : Bytes) (e : Entry) : Prop where
  /-- Header and name are padded, and so are the data behind them. -/
  record : out'=padded (padded (out++header e.node++utf8 e.name++[0])++e.bytes)
  /-- The size that was checked is that of what is appended. -/
  size : ∃ n, checkedEntrySize out.length e.name.utf8ByteSize e.bytes.length=some n ∧
    out'.length=out.length+n
  /-- Every field has its eight digits. -/
  digits : ∀ v∈e.node.fields, v<16^8 ∧ (hexPadded 8 v).length=8
  /-- The header has its 110 bytes. -/
  header : (header e.node).length=110
  /-- Whole words are written. -/
  aligned : out'.length%4=0

/-- When the name and the data are short enough, the fields of a header fit. -/
theorem fields_fit {e : Entry} (h : SizesFit e.node) : ∀ v∈e.node.fields, v<2^32 := by
  obtain ⟨hname,hdata⟩ := h
  have hdevice : (e.node.rdev.getD (0,0)).1<2^32 ∧ (e.node.rdev.getD (0,0)).2<2^32 := by
    have hzero : 0<2^32 := by decide
    unfold Entry.node
    cases e.rdev with
    | none => exact ⟨hzero,hzero⟩
    | some d => exact ⟨d.1.toNat_lt,d.2.toNat_lt⟩
  intro v hv
  simp only [Node.fields,List.mem_cons,List.not_mem_nil,or_false] at hv
  rcases hv with rfl | rfl | rfl | rfl | rfl | rfl | rfl | rfl | rfl | rfl | rfl | rfl | rfl
  · exact e.ino.toNat_lt
  · exact e.mode.toNat_lt
  · decide
  · decide
  · exact e.nlink.toNat_lt
  · decide
  · exact hdata
  · decide
  · decide
  · exact hdevice.1
  · exact hdevice.2
  · exact hname
  · decide

/-- The header of an entry whose fields fit has 110 bytes. -/
theorem length_header_eq {e : Node} (h : ∀ v∈e.fields, v<2^32) : (header e).length=110 := by
  have hmagic : newcMagic.length=6 := rfl
  rw [header,List.length_append,length_header h,hmagic]

/-- An entry that is accepted is appended with the size that was checked. -/
theorem checkedEntry_appended {out out' : Bytes} {e : Entry} (h : checkedEntry out e.node=.ok out') :
    Appended out out' e := by
  obtain ⟨hout,hfits⟩ := checkedEntry_ok h
  obtain ⟨n,hsize,-⟩ := bind_ok.mp h
  have hsize := okOr_ok.mp hsize
  obtain ⟨-,-,hend⟩ := checkedEntrySize_some hsize
  have hfields := fields_fit hfits
  have hheader := length_header_eq hfields
  have hrecord : out'=padded (padded (out++header e.node++utf8 e.name++[0])++e.bytes) := hout
  have hlength : out'.length=
      ((out.length+110+(e.name.utf8ByteSize+1)+3)/4*4+e.bytes.length+3)/4*4 := by
    rw [hrecord,length_padded,List.length_append,length_padded]
    simp only [List.length_append,hheader,length_utf8,List.length_singleton,Nat.add_assoc]
  refine ⟨hrecord,⟨n,hsize,hlength.trans hend.symm⟩,fun v hv => ?_,hheader,by omega⟩
  have hv := hfields v hv
  exact ⟨hv,by rw [hexPadded_eq (by decide) hv,length_hexDigits]⟩

/-- Entries that are accepted leave whole words. -/
theorem checkedEntries_aligned {entries : List Entry} {out out' : Bytes}
    (h : checkedEntries out entries=.ok out') (hout : out.length%4=0) : out'.length%4=0 := by
  induction entries generalizing out with
  | nil =>
    cases h
    exact hout
  | cons e entries ih =>
    rw [checkedEntries,List.foldlM_cons] at h
    obtain ⟨mid,hmid,h⟩ := bind_ok.mp h
    exact ih h (checkedEntry_appended hmid).aligned

/-- Whatever entries are accepted one after another, each of them is appended with the size that
was checked for it, behind whole words and up to whole words. -/
theorem checkedEntries_sizes {entries : List Entry} {out : Bytes}
    (h : checkedEntries [] entries=.ok out) : out.length%4=0 ∧
      ∀ before e after, entries=before++e::after → ∃ buf buf', checkedEntries [] before=.ok buf ∧
        buf.length%4=0 ∧ checkedEntry buf e.node=.ok buf' ∧ Appended buf buf' e := by
  refine ⟨checkedEntries_aligned h rfl,fun before e after hsplit => ?_⟩
  rw [hsplit,checkedEntries,List.foldlM_append] at h
  obtain ⟨buf,hbefore,h⟩ := bind_ok.mp h
  rw [List.foldlM_cons] at h
  obtain ⟨buf',hentry,-⟩ := bind_ok.mp h
  exact ⟨buf,buf',hbefore,checkedEntries_aligned hbefore rfl,hentry,checkedEntry_appended hentry⟩

/-- A directory, a device and a file. -/
def sampleEntries : List Entry :=
  [⟨1,0o040755,2,"dev",[],none⟩,⟨2,0o020666,1,"dev/console",[],some (5,1)⟩,
    ⟨3,0o100644,1,"init",[1,2,3],none⟩]

/-- They are accepted, and the last of them is appended with the size that was checked. -/
theorem checkedEntries_sizes_sample : ∃ buf buf',
    checkedEntry buf (Entry.node ⟨3,0o100644,1,"init",[1,2,3],none⟩)=.ok buf' ∧
      Appended buf buf' ⟨3,0o100644,1,"init",[1,2,3],none⟩ := by
  have hsome : (checkedEntries [] sampleEntries).toOption.isSome=true := by decide +kernel
  obtain ⟨out,hout⟩ := exists_ok hsome
  obtain ⟨-,hsteps⟩ := checkedEntries_sizes hout
  obtain ⟨buf,buf',-,-,hentry,happended⟩ := hsteps (sampleEntries.take 2) _ [] rfl
  exact ⟨buf,buf',hentry,happended⟩

end Arma.Initrd.Sizes
