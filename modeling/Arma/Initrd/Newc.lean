import Arma.Base.Checked
import Arma.Base.Frames
import Arma.Base.Text

/-!
# The newc archive format

An archive is a sequence of records behind each other: a header of thirteen
hexadecimal fields, a name that ends in a zero byte and the data, both padded to
four bytes. The record with the name `TRAILER!!!` ends an archive; zeros and
further archives may follow. A written record is read back, whatever follows it.
-/

namespace Arma.Initrd.Newc

open Base.ByteString Base.Checked Base.Frames Base.Text

/-- `NEWC_MAGIC`. -/
def newcMagic : Bytes := [0x30,0x37,0x30,0x37,0x30,0x31]

/-- `TRAILER!!!`. -/
def trailerName : String := "TRAILER!!!"

/-- What a record is written from. -/
structure Node where
  /-- Inode number. -/
  ino : ℕ
  /-- Type and permissions. -/
  mode : ℕ
  /-- Link count. -/
  nlink : ℕ
  /-- Name. -/
  name : String
  /-- Data. -/
  data : Bytes
  /-- Major and minor number of a device. -/
  rdev : Option (ℕ×ℕ)
deriving DecidableEq, Repr

/-- A record as it is read. -/
structure Record where
  /-- The fields of the header. -/
  fields : List ℕ
  /-- The name, with the zero byte at its end. -/
  name : Bytes
  /-- The data. -/
  data : Bytes
deriving DecidableEq, Repr

/-- The fields of a header: inode, mode, owner and group, links, time, size of the
data, device, device described, size of the name, and check. -/
def Node.fields (e : Node) : List ℕ :=
  [e.ino,e.mode,0,0,e.nlink,0,e.data.length,0,0,(e.rdev.getD (0,0)).1,(e.rdev.getD (0,0)).2,
    e.name.utf8ByteSize+1,0]

/-- The record that says what the node does. -/
def Node.record (e : Node) : Record := ⟨e.fields,utf8 e.name++[0],e.data⟩

/-- `while !out.len().is_multiple_of(4) { out.push(0) }`. -/
def padded (out : Bytes) : Bytes := out++zeros ((4-out.length%4)%4)

/-- Write a record behind what there is. -/
def cpioEntry (out : Bytes) (e : Node) : Bytes :=
  let header := newcMagic++e.fields.flatMap (hexPadded 8)
  padded (padded (out++header++utf8 e.name++[0])++e.data)

/-- `checked_add(3).map(|n| n & !3)` on `usize`. -/
def align4 (n : ℕ) : Option ℕ := (addWord 64 n 3).map fun n => clearBits 64 n 3

/-- The fields of a header behind its magic. -/
def readFields (header : Bytes) : Option (List ℕ) :=
  (decodeRecords 8 readHex 13 header).mapM id

/-- A name ends in its only zero byte. -/
def IsName (name : Bytes) : Prop := name.getLast?=some 0 ∧ (0 : UInt8)∉name.dropLast

instance (name : Bytes) : Decidable (IsName name) := by unfold IsName; infer_instance

/-- Read the record at the start, and what follows it. -/
def nextRecord (bytes : Bytes) : Option (Record×Bytes) := do
  guard (110≤bytes.length ∧ newcMagic<+:bytes)
  let fields ← readFields (slice 6 104 bytes)
  let size := fields.getD 6 0
  let namesize := fields.getD 11 0
  let nameEnd ← addWord 64 110 namesize
  guard (nameEnd≤bytes.length)
  let name := slice 110 namesize bytes
  guard (IsName name ∧ fields.getD 12 0=0)
  let dataStart ← align4 nameEnd
  let dataEnd ← addWord 64 dataStart size
  let next ← align4 dataEnd
  guard (next≤bytes.length)
  some (⟨fields,name,slice dataStart size bytes⟩,bytes.drop next)

/-- A header field is eight digits. -/
def HexField (digits : Bytes) (v : ℕ) : Prop := digits.length=8 ∧ readHex digits=some v

/-- Fields are read from the groups of digits that a string is made of. -/
theorem decodeFields_iff {n : ℕ} {bs : Bytes} (hlength : bs.length=n*8) {fields : List ℕ} :
    (decodeRecords 8 readHex n bs).mapM id=some fields ↔
      ∃ digits : List Bytes, bs=digits.flatten ∧ fields.length=n ∧
        List.Forall₂ HexField digits fields := by
  induction n generalizing bs fields with
  | zero =>
    obtain rfl := List.length_eq_zero_iff.mp (hlength.trans (Nat.zero_mul 8))
    constructor
    · intro h
      cases h
      exact ⟨[],rfl,rfl,.nil⟩
    · rintro ⟨digits,-,hnone,-⟩
      obtain rfl := List.length_eq_zero_iff.mp hnone
      rfl
  | succ n ih =>
    have hrest : (bs.drop 8).length=n*8 := by
      rw [List.length_drop]
      omega
    have hfirst : (bs.take 8).length=8 := by
      rw [List.length_take]
      omega
    rw [decodeRecords,List.mapM_cons]
    simp only [id,Option.bind_eq_bind,Option.bind_eq_some_iff,Option.pure_def,Option.some.injEq]
    constructor
    · rintro ⟨v,hv,vs,hvs,rfl⟩
      obtain ⟨digits,hdigits,hcount,hfields⟩ := (ih hrest).mp hvs
      refine ⟨bs.take 8::digits,?_,by rw [List.length_cons,hcount],.cons ⟨hfirst,hv⟩ hfields⟩
      rw [List.flatten_cons,←hdigits,List.take_append_drop]
    · rintro ⟨digits,rfl,hcount,hfields⟩
      cases hfields with
      | nil => cases hcount
      | @cons d v digits vs hd hfields =>
        rw [List.flatten_cons,List.take_left' hd.1,List.drop_left' hd.1] at *
        exact ⟨v,hd.2,vs,(ih hrest).mpr ⟨digits,rfl,Nat.succ.inj hcount,hfields⟩,rfl⟩

/-- Groups of eight digits have eight digits each. -/
theorem length_digits {digits : List Bytes} {fields : List ℕ}
    (h : List.Forall₂ HexField digits fields) : digits.flatten.length=fields.length*8 := by
  induction h with
  | nil => rfl
  | cons hd _ ih =>
    rw [List.flatten_cons,List.length_append,hd.1,ih,List.length_cons]
    omega

/-- Fields are of 32 bits. -/
theorem fields_lt {digits : List Bytes} {fields : List ℕ}
    (h : List.Forall₂ HexField digits fields) (i : ℕ) : fields.getD i 0<2^32 := by
  induction h generalizing i with
  | nil => simp
  | cons hd _ ih =>
    cases i with
    | zero =>
      have hlt := readHex_lt hd.2
      rw [hd.1] at hlt
      exact hlt
    | succ i => exact ih i

/-- The bytes of a record that starts at an offset of an archive: the header, the
name, and the data, both with padding of any bytes up to the next multiple of four. -/
def RecordAt (o : ℕ) (r : Record) (w : Bytes) : Prop :=
  ∃ (digits : List Bytes) (gap tail : Bytes),
    w=newcMagic++digits.flatten++r.name++gap++r.data++tail ∧
      (r.fields.length=13 ∧ List.Forall₂ HexField digits r.fields) ∧
      (r.fields.getD 11 0=r.name.length ∧ r.fields.getD 6 0=r.data.length ∧
        r.fields.getD 12 0=0 ∧ IsName r.name) ∧
      (gap.length<4 ∧ 4∣o+(110+r.name.length+gap.length)) ∧ tail.length<4 ∧ 4∣o+w.length

/-- A guard that holds. -/
theorem guard_true {p : Prop} [Decidable p] (h : p) : (guard p : Option Unit)=some () := if_pos h

/-- What a guard let pass holds. -/
theorem of_guard {p : Prop} [Decidable p] {u : Unit} (h : (guard p : Option Unit)=some u) : p := by
  by_contra hnot
  rw [guard,if_neg hnot] at h
  cases h

/-- Rounding up to words, within the width. -/
theorem align4_eq {n : ℕ} (h : n+3<2^64) : align4 n=some ((n+3)/4*4) := by
  have hadd : addWord 64 n 3=some (n+3) := addWord_some.mpr ⟨rfl,h⟩
  have hclear : clearBits 64 (n+3) (2^2-1)=(n+3)/2^2*2^2 := clearBits_low h (by decide)
  rw [align4,hadd,Option.map_some]
  exact congrArg some hclear

/-- What is rounded up is the next multiple. -/
theorem align4_some {n m : ℕ} (h : align4 n=some m) : m=(n+3)/4*4 := by
  obtain ⟨k,hk,-⟩ := Option.map_eq_some_iff.mp h
  obtain ⟨rfl,hfits⟩ := addWord_some.mp hk
  rw [align4_eq hfits] at h
  exact (Option.some.inj h).symm

/-- A record is read, whatever follows it. -/
theorem RecordAt.frame {o : ℕ} {r : Record} {w : Bytes} (h : RecordAt o r w) (ho : 4∣o) :
    Frame nextRecord w r := by
  intro rest
  obtain ⟨digits,gap,tail,rfl,⟨hcount,hdigits⟩,⟨hname,hdata,hcheck,hisName⟩,⟨hgap,hgapDvd⟩,htail,
    htailDvd⟩ := h
  have hdigitsLen : digits.flatten.length=104 := by rw [length_digits hdigits,hcount]
  have hnameLt : r.name.length<2^32 := hname ▸ fields_lt hdigits 11
  have hdataLt : r.data.length<2^32 := hdata ▸ fields_lt hdigits 6
  have hmagic : newcMagic.length=6 := rfl
  let w := newcMagic++digits.flatten++r.name++gap++r.data++tail
  have hlength : w.length=110+r.name.length+gap.length+r.data.length+tail.length := by
    simp only [w,List.length_append,hdigitsLen,hmagic]
  change 4∣o+w.length at htailDvd
  rw [hlength] at htailDvd
  -- Where the data starts, and where the next record does.
  have hstart : (110+r.name.length+3)/4*4=110+r.name.length+gap.length := by omega
  have hnext : (110+r.name.length+gap.length+r.data.length+3)/4*4=w.length := by omega
  have hbytes : w++rest=newcMagic++digits.flatten++(r.name++gap++r.data++tail++rest) := by
    simp only [w,List.append_assoc]
  have hfront : newcMagic<+:w++rest := by
    rw [hbytes,List.append_assoc]
    exact List.prefix_append _ _
  have hall : (w++rest).length=w.length+rest.length := List.length_append
  have hfields : readFields (slice 6 104 (w++rest))=some r.fields := by
    rw [hbytes,slice_append hmagic hdigitsLen]
    exact (decodeFields_iff hdigitsLen).mpr ⟨digits,rfl,hcount,hdigits⟩
  have hnameSlice : slice 110 r.name.length (w++rest)=r.name := by
    have hfore : (newcMagic++digits.flatten).length=110 := by
      rw [List.length_append,hdigitsLen,hmagic]
    have hsplit : w++rest=newcMagic++digits.flatten++r.name++(gap++r.data++tail++rest) := by
      simp only [w,List.append_assoc]
    rw [hsplit,slice_append hfore rfl]
  have hdataSlice : slice (110+r.name.length+gap.length) r.data.length (w++rest)=r.data := by
    have hfore : (newcMagic++digits.flatten++r.name++gap).length=
        110+r.name.length+gap.length := by
      simp only [List.length_append,hdigitsLen,hmagic]
    have hsplit : w++rest=newcMagic++digits.flatten++r.name++gap++r.data++(tail++rest) := by
      simp only [w,List.append_assoc]
    rw [hsplit,slice_append hfore rfl]
  have hend : addWord 64 110 r.name.length=some (110+r.name.length) :=
    addWord_some.mpr ⟨rfl,by omega⟩
  have hdataEnd : addWord 64 (110+r.name.length+gap.length) r.data.length=
      some (110+r.name.length+gap.length+r.data.length) := addWord_some.mpr ⟨rfl,by omega⟩
  change nextRecord (w++rest)=_
  unfold nextRecord
  rw [guard_true ⟨by omega,hfront⟩,hfields]
  simp only [Option.bind_eq_bind,Option.bind_some,hname,hdata,hcheck]
  rw [hend]
  simp only [Option.bind_some]
  rw [guard_true (by omega),hnameSlice,guard_true ⟨hisName,trivial⟩,align4_eq (by omega),hstart]
  simp only [Option.bind_some]
  rw [hdataEnd]
  simp only [Option.bind_some]
  rw [align4_eq (by omega),hnext]
  simp only [Option.bind_some]
  rw [guard_true (by omega),hdataSlice,List.drop_left]
  rfl

/-- What is read is a record, and what follows it. -/
theorem nextRecord_record {bytes rest : Bytes} {r : Record} (h : nextRecord bytes=some (r,rest)) :
    ∃ w, bytes=w++rest ∧ RecordAt 0 r w := by
  unfold nextRecord at h
  simp only [Option.bind_eq_bind,Option.bind_eq_some_iff] at h
  obtain ⟨_,hhead,fields,hfields,nameEnd,hend,_,hnameRoom,_,hname,dataStart,hstart,dataEnd,hdata,
    next,hnext,_,hroom,hfound⟩ := h
  obtain ⟨hlong,front,hfront⟩ := of_guard hhead
  obtain ⟨rfl,-⟩ := addWord_some.mp hend
  obtain ⟨rfl,-⟩ := addWord_some.mp hdata
  obtain ⟨hisName,hcheck⟩ := of_guard hname
  have hnameRoom := of_guard hnameRoom
  have hroom := of_guard hroom
  obtain ⟨rfl,rfl⟩ := Prod.mk.inj (Option.some.inj hfound)
  have hdigitsLen : (slice 6 104 bytes).length=104 := length_slice (by omega)
  obtain ⟨digits,hdigits,hcount,hfieldsOf⟩ := (decodeFields_iff hdigitsLen).mp hfields
  have hnameLt : fields.getD 11 0<2^32 := fields_lt hfieldsOf 11
  have hdataLt : fields.getD 6 0<2^32 := fields_lt hfieldsOf 6
  rw [align4_eq (by omega)] at hstart
  obtain rfl := Option.some.inj hstart
  rw [align4_eq (by omega)] at hnext
  obtain rfl := Option.some.inj hnext
  let n := fields.getD 11 0
  let size := fields.getD 6 0
  let start := (110+n+3)/4*4
  let stop := (start+size+3)/4*4
  have hmagic : bytes.take 6=newcMagic := by
    rw [←hfront]
    exact List.take_left' rfl
  have hgap : (slice (110+n) (start-(110+n)) bytes).length=start-(110+n) := length_slice (by omega)
  have htail : (slice (start+size) (stop-(start+size)) bytes).length=stop-(start+size) :=
    length_slice (by omega)
  have hnameLen : (slice 110 n bytes).length=n := length_slice (by omega)
  have hdataLen : (slice start size bytes).length=size := length_slice (by omega)
  have hwLen : (bytes.take stop).length=stop := by
    rw [List.length_take]
    omega
  refine ⟨bytes.take stop,(List.take_append_drop stop bytes).symm,digits,
    slice (110+n) (start-(110+n)) bytes,slice (start+size) (stop-(start+size)) bytes,?_,
    ⟨hcount,hfieldsOf⟩,⟨hnameLen.symm,hdataLen.symm,hcheck,hisName⟩,⟨?_,?_⟩,?_,?_⟩
  · have hparts : ∀ k l m, k+l=m → bytes.take m=bytes.take k++slice k l bytes := by
      rintro k l m rfl
      exact List.take_add
    dsimp only
    rw [hparts (start+size) (stop-(start+size)) stop (by omega),hparts start size _ rfl,
      hparts (110+n) (start-(110+n)) start (by omega),hparts 110 n _ rfl,
      hparts 6 104 110 (by omega),hmagic,hdigits]
  · rw [hgap]
    omega
  · dsimp only
    rw [hgap,hnameLen]
    omega
  · rw [htail]
    omega
  · rw [hwLen]
    omega

/-- Records are framed. -/
theorem nextRecord_framed : Framed nextRecord := by
  intro bytes rest r h
  obtain ⟨w,rfl,hw⟩ := nextRecord_record h
  refine ⟨w,?_,rfl,hw.frame (dvd_zero 4)⟩
  obtain ⟨digits,gap,tail,rfl,-⟩ := hw
  simp [newcMagic]

/-- Reading takes a record away. -/
theorem nextRecord_shrinks {bytes rest : Bytes} {r : Record}
    (h : nextRecord bytes=some (r,rest)) : rest.length<bytes.length := nextRecord_framed.shrinks h

/-- `true` iff the record ends an archive. -/
def Record.isTrailer (r : Record) : Bool := r.name==utf8 trailerName++[0]

/-- Zeros may stand between archives. -/
def skipPadding (bytes : Bytes) : Bytes := bytes.dropWhile (· == 0)

/-- Skipping takes nothing but zeros away. -/
theorem length_skipPadding (bytes : Bytes) : (skipPadding bytes).length≤bytes.length :=
  (List.dropWhile_sublist _).length_le

/-- Whether there are whole archives: each one ends in its trailer, with padding
behind it. -/
def validateCpio (bytes : Bytes) : Option Unit :=
  match _h : nextRecord bytes with
  | none => none
  | some (r,rest) =>
    if r.isTrailer=true then
      if r.fields.getD 6 0≠0 then none
      else if skipPadding rest=[] then some ()
      else validateCpio (skipPadding rest)
    else validateCpio rest
termination_by bytes.length
decreasing_by
  · have hlt := nextRecord_shrinks _h
    have hle := length_skipPadding rest
    omega
  · exact nextRecord_shrinks _h

/-- The records of the archives, in order and without the trailers. -/
def unpack (bytes : Bytes) : Option (List Record) :=
  match _h : nextRecord bytes with
  | none => none
  | some (r,rest) =>
    if r.isTrailer=true then
      if r.fields.getD 6 0≠0 then none
      else if skipPadding rest=[] then some []
      else unpack (skipPadding rest)
    else (unpack rest).map (r::·)
termination_by bytes.length
decreasing_by
  · have hlt := nextRecord_shrinks _h
    have hle := length_skipPadding rest
    omega
  · exact nextRecord_shrinks _h

/-- Unpacking begins with the record at the start. -/
theorem unpack_next {bytes rest : Bytes} {r : Record} (h : nextRecord bytes=some (r,rest)) :
    unpack bytes=
      if r.isTrailer=true then
        if r.fields.getD 6 0≠0 then none
        else if skipPadding rest=[] then some []
        else unpack (skipPadding rest)
      else (unpack rest).map (r::·) := by
  rw [unpack]
  split
  · rename_i hnone
    rw [h] at hnone
    cases hnone
  · rename_i hsome
    rw [h] at hsome
    cases hsome
    rfl

/-- What is accepted is what can be unpacked. -/
theorem validateCpio_iff (bytes : Bytes) :
    validateCpio bytes=some () ↔ ∃ records, unpack bytes=some records := by
  fun_induction validateCpio bytes with
  | case1 bytes h =>
    have hnone : unpack bytes=none := by
      rw [unpack]
      split
      · rfl
      · rename_i hsome
        rw [h] at hsome
        cases hsome
    simp [hnone]
  | case2 bytes r rest h htrailer hsize => simp only [unpack_next h,if_pos htrailer,if_pos hsize,
      reduceCtorEq,exists_false]
  | case3 bytes r rest h htrailer hsize hend =>
    rw [unpack_next h,if_pos htrailer,if_neg hsize,if_pos hend]
    exact iff_of_true rfl ⟨[],rfl⟩
  | case4 bytes r rest h htrailer hsize hend ih =>
    rw [unpack_next h,if_pos htrailer,if_neg hsize,if_neg hend]
    exact ih
  | case5 bytes r rest h htrailer ih =>
    rw [unpack_next h,if_neg htrailer,ih]
    constructor
    · rintro ⟨records,hrecords⟩
      exact ⟨r::records,by rw [hrecords]; rfl⟩
    · rintro ⟨_,hmap⟩
      obtain ⟨records,hrecords,_⟩ := Option.map_eq_some_iff.mp hmap
      exact ⟨records,hrecords⟩

/-- A record that every field of its header can hold, with a name that the zero
byte ends. -/
structure Node.Fits (e : Node) : Prop where
  /-- The fields are of 32 bits. -/
  fields : ∀ v∈e.fields, v<2^32
  /-- The name has no zero character. -/
  name : ∀ c∈e.name.toList, c.toNat≠0

/-- The bytes of a record. -/
def entryBytes (e : Node) : Bytes := cpioEntry [] e

/-- Padding is up to the next multiple of four. -/
theorem length_padded (out : Bytes) : (padded out).length=(out.length+3)/4*4 := by
  rw [padded,List.length_append,length_zeros]
  omega

/-- Padding does not depend on whole records in front. -/
theorem padded_append {out : Bytes} (h : out.length%4=0) (bs : Bytes) :
    padded (out++bs)=out++padded bs := by
  have hmod : (out++bs).length%4=bs.length%4 := by
    rw [List.length_append]
    omega
  rw [padded,padded,hmod,List.append_assoc]

/-- A record is written behind whole records as at the start. -/
theorem cpioEntry_eq {out : Bytes} (h : out.length%4=0) (e : Node) :
    cpioEntry out e=out++entryBytes e := by
  unfold entryBytes cpioEntry
  dsimp only
  rw [List.nil_append,List.append_assoc,List.append_assoc,padded_append h,List.append_assoc,
    padded_append h]
  simp only [List.append_assoc]

/-- A record has whole words. -/
theorem entryBytes_mod (e : Node) : (entryBytes e).length%4=0 := by
  unfold entryBytes cpioEntry
  dsimp only
  rw [length_padded]
  omega

/-- The fields of a header have eight digits each. -/
theorem length_header {e : Node} (h : ∀ v∈e.fields, v<2^32) :
    (e.fields.flatMap (hexPadded 8)).length=104 := by
  have hwidth : ∀ v∈e.fields, (hexPadded 8 v).length=8 := fun v hv => by
    rw [hexPadded_eq (by decide) (h v hv),length_hexDigits]
  rw [length_flatMap_records hwidth]
  rfl

/-- The name of a record ends in its only zero byte. -/
theorem isName_utf8 {s : String} (h : ∀ c∈s.toList, c.toNat≠0) : IsName (utf8 s++[0]) := by
  refine ⟨List.getLast?_concat,?_⟩
  rw [List.dropLast_concat]
  exact zero_notMem_utf8 h

/-- A written record is a record. -/
theorem recordAt_entry {e : Node} (h : e.Fits) : RecordAt 0 e.record (entryBytes e) := by
  have hsize : e.data.length<2^32 := h.fields _ (by simp [Node.fields])
  have hnameSize : (utf8 e.name++[0]).length=e.name.utf8ByteSize+1 := by
    rw [List.length_append,length_utf8,List.length_singleton]
  let front := newcMagic++e.fields.flatMap (hexPadded 8)++utf8 e.name++[0]
  have hfront : front.length=110+(e.name.utf8ByteSize+1) := by
    have hmagic : newcMagic.length=6 := rfl
    simp only [front,List.length_append,length_header h.fields,hmagic,length_utf8,List.length_singleton]
    omega
  have hstart := length_padded front
  have hwhole := length_padded (padded front++e.data)
  obtain ⟨gap,hgap⟩ : ∃ gap, padded front=front++gap := ⟨_,rfl⟩
  obtain ⟨tail,htail⟩ : ∃ tail, padded (padded front++e.data)=padded front++e.data++tail := ⟨_,rfl⟩
  have hbytes : entryBytes e=front++gap++e.data++tail := by rw [←hgap,←htail]; rfl
  rw [htail] at hwhole
  rw [hgap,List.length_append] at hstart
  rw [hgap] at hwhole
  simp only [List.length_append] at hwhole
  refine ⟨e.fields.map (hexPadded 8),gap,tail,?_,⟨rfl,?_⟩,⟨?_,rfl,rfl,isName_utf8 h.name⟩,
    ⟨?_,?_⟩,?_,?_⟩
  · rw [hbytes]
    simp only [front,Node.record,List.flatMap_def,List.append_assoc]
  · refine List.forall₂_map_left_iff.mpr (List.forall₂_same.mpr fun v hv => ?_)
    have hv := h.fields v hv
    exact ⟨by rw [hexPadded_eq (by decide) hv,length_hexDigits],readHex_hexPadded (by decide) hv⟩
  · exact hnameSize.symm
  · omega
  · change 4∣0+(110+(utf8 e.name++[0]).length+gap.length)
    rw [hnameSize]
    omega
  · omega
  · rw [hbytes]
    simp only [List.length_append]
    omega

/-- A written record is read back, whatever follows it. -/
theorem nextRecord_entry {e : Node} (h : e.Fits) (rest : Bytes) :
    nextRecord (entryBytes e++rest)=some (e.record,rest) := (recordAt_entry h).frame (dvd_zero 4) rest

/-- The record that ends an archive. -/
def trailer : Node := ⟨0,0,1,trailerName,[],none⟩

/-- It is told from other records by its name. -/
theorem isTrailer_record (e : Node) : e.record.isTrailer=true ↔ e.name=trailerName := by
  unfold Record.isTrailer Node.record
  rw [beq_iff_eq,List.append_cancel_right_eq]
  constructor
  · exact utf8_injective
  · intro h
    rw [h]

/-- The trailer fits its header. -/
theorem trailer_fits : trailer.Fits := ⟨by decide,by decide⟩

/-- An archive of records unpacks to them. -/
theorem unpack_entries {nodes : List Node} (hfits : ∀ e∈nodes, e.Fits)
    (hnames : ∀ e∈nodes, e.name≠trailerName) :
    unpack (nodes.flatMap entryBytes++entryBytes trailer)=some (nodes.map Node.record) := by
  induction nodes with
  | nil =>
    have hnext := nextRecord_entry trailer_fits []
    rw [List.append_nil] at hnext
    have htrailer : trailer.record.isTrailer=true := (isTrailer_record trailer).mpr rfl
    rw [List.flatMap_nil,List.nil_append,unpack_next hnext,if_pos htrailer,if_neg (by decide)]
    rfl
  | cons e nodes ih =>
    obtain ⟨he,hfits⟩ := List.forall_mem_cons.mp hfits
    obtain ⟨hname,hnames⟩ := List.forall_mem_cons.mp hnames
    have hnext := nextRecord_entry he (nodes.flatMap entryBytes++entryBytes trailer)
    have hother : ¬e.record.isTrailer=true := fun h => hname ((isTrailer_record e).mp h)
    rw [List.flatMap_cons,List.append_assoc,unpack_next hnext,if_neg hother,ih hfits hnames]
    rfl

end Arma.Initrd.Newc
