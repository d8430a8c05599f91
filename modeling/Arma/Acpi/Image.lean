import Mathlib.Tactic.Common
import Arma.Acpi.Populate

/-!
# The tables in the buffer

A buffer that has been filled starts with a consistent image: the tables follow
one another, lead to each other by their addresses and carry valid lengths and
checksums. Nothing of it depends on what the buffer held before.
-/

namespace Arma.Acpi.Image

open Base.ArrayVec Base.ByteString Base.Checked Base.Writer Devtree Dtb Numbered Layout Sdt Fixed
  Tables Numa Dsdt Spcr Count Counted Jobs Populate

/-- The bytes of a slot in an image. -/
def bytesIn (s : Slot) (t : Bytes) : Bytes := slice s.offset s.len t

/-- The slot holds a description table of its kind, whose length field has the
size of the slot. -/
structure TableAt (signature : Bytes) (s : Slot) (t : Bytes) : Prop where
  /-- The slot holds a description table. -/
  table : IsSdt signature (bytesIn s t)
  /-- The length field has the size of the slot. -/
  length : ofLE (slice 4 4 (bytesIn s t))=s.len

/-- A consistent image of a layout that starts at `baseGpa`. -/
structure IsImage (baseGpa : ℕ) (off : Offsets) (t : Bytes) : Prop where
  /-- The tables follow one another from the first byte to the last. -/
  tiles : Tiles 0 off.slots t.length
  /-- The root pointer leads to the directory. -/
  rsdp : IsRsdp (baseGpa+off.xsdt.offset) (bytesIn off.rsdp t)
  /-- Description of the system. -/
  dsdt : TableAt (ascii "DSDT") off.dsdt t
  /-- Fixed description table. -/
  fadt : TableAt (ascii "FACP") off.fadt t
  /-- The fixed description table leads to the description of the system. -/
  xDsdt : ofLE (slice 140 8 (bytesIn off.fadt t))=baseGpa+off.dsdt.offset
  /-- Interrupt controllers. -/
  madt : TableAt (ascii "APIC") off.madt t
  /-- Configuration spaces. -/
  mcfg : ∀ s, off.mcfg=some s → TableAt (ascii "MCFG") s t
  /-- Console. -/
  spcr : ∀ s, off.spcr=some s → TableAt (ascii "SPCR") s t
  /-- Affinities. -/
  srat : ∀ s, off.srat=some s → TableAt (ascii "SRAT") s t
  /-- Distances. -/
  slit : ∀ s, off.slit=some s → TableAt (ascii "SLIT") s t
  /-- Directory. -/
  xsdt : TableAt (ascii "XSDT") off.xsdt t
  /-- The directory has an entry for each table it lists and no other. -/
  entryCount : off.xsdt.len=SdtHeader.size+off.xsdtTargets.length*entrySize
  /-- The entries of the directory are the addresses of these tables. -/
  entries : decodeRecords entrySize ofLE off.xsdtTargets.length
    ((bytesIn off.xsdt t).drop SdtHeader.size)=off.xsdtTargets.map fun s => baseGpa+s.offset

/-- The entries of the directory are read back. -/
theorem entries_xsdt {oem : OemIdentity} {baseGpa : ℕ} {off : Offsets}
    (hgpa : ∀ s∈off.xsdtTargets, baseGpa+s.offset<2^64) :
    decodeRecords entrySize ofLE off.xsdtTargets.length
      ((xsdt oem baseGpa off).drop SdtHeader.size)=
        off.xsdtTargets.map fun s => baseGpa+s.offset := by
  have hheader := (xsdtHeader oem off.xsdt.len).length_asBytes
  have hdrop : (xsdt oem baseGpa off).drop SdtHeader.size=gpas baseGpa off.xsdtTargets := by
    have hlen : ((xsdtHeader oem off.xsdt.len).asBytes++gpas baseGpa off.xsdtTargets).length=
        SdtHeader.size+off.xsdtTargets.length*8 := by
      rw [List.length_append,hheader,length_gpas]
    have hslice := @slice_sealed 9 SdtHeader.size (off.xsdtTargets.length*8)
      ((xsdtHeader oem off.xsdt.len).asBytes++gpas baseGpa off.xsdtTargets) (.inl (by decide))
    rw [slice,slice,List.take_of_length_le (by rw [List.length_drop,length_sealed,hlen]; omega),
      List.take_of_length_le (by rw [List.length_drop,hlen]; omega),List.drop_left' hheader]
      at hslice
    exact hslice
  have hdecode := @decodeRecords_flatMap Slot ℕ entrySize
    (fun s => leBytes 8 (baseGpa+s.offset)) ofLE off.xsdtTargets
    (fun _ _ => length_leBytes 8 _) []
  rw [List.append_nil] at hdecode
  rw [hdrop,gpas,hdecode]
  refine List.map_congr_left fun s hs => ?_
  rw [ofLE_leBytes,Nat.mod_eq_of_lt (by rw [show 256^8=2^64 by decide]; exact hgpa s hs)]

/-- A slot with a description table of the slot's size. -/
theorem tableAt_of {signature : Bytes} {s : Slot} {t x : Bytes} (hx : x=bytesIn s t)
    (h : IsSdt signature x ∧ x.length=s.len) : TableAt signature s t := by
  obtain ⟨htable,hlen⟩ := h
  rw [hx] at htable hlen
  exact ⟨htable,htable.length.trans hlen⟩

section Filling

variable [DevtreeLib] {root : Node} {l : Layouted} {kids : List DtbNode} {serial : Option DtbNode}
  {console : Option (DtbNode×Option ℕ)} {oem : OemIdentity} {baseGpa : ℕ}

/-- All tables are written by their jobs. -/
theorem writes_all (h : Established root l kids serial console)
    (hbase : baseGpa+l.offsets.xsdt.offset<2^64) :
    List.Forall₂ Job.Writes (frontJobs root oem baseGpa l++backJobs root oem baseGpa l)
      (frontParts oem baseGpa l kids serial console++backParts root oem baseGpa l) :=
  List.rel_append (writes_front h oem hbase) (writes_back h oem hbase)

/-- Emission succeeds exactly when all tables are there, and then leaves them one
after another. -/
theorem emission_ok (h : Established root l kids serial console)
    (hbase : baseGpa+l.offsets.xsdt.offset<2^64) {buf buf' : Bytes}
    (hroom : l.offsets.total≤buf.length) :
    emission root oem baseGpa l buf=.ok buf' ↔ ∃ t,
      catAll (frontParts oem baseGpa l kids serial console++backParts root oem baseGpa l)=some t ∧
        buf'=overwrite 0 t buf := by
  have hjobs := @runJobs_ok _ _ (@writes_all _ root l kids serial console oem _ h hbase) [] buf buf' _ h.tiles hroom
  have hstart : overwrite 0 [] buf=buf := rfl
  rw [hstart] at hjobs
  rw [emission_eq]
  exact hjobs

/-- When emission succeeds the addresses of all tables are words. -/
theorem emission_base {buf buf' : Bytes} (h : emission root oem baseGpa l buf=.ok buf') :
    baseGpa+l.offsets.xsdt.offset<2^64 := by
  obtain ⟨front,hfront,_⟩ := bind_ok.mp h
  obtain ⟨rsdp,hrsdp,_⟩ := bind_ok.mp hfront
  obtain ⟨slot,_,hslot⟩ := bind_ok.mp hrsdp
  obtain ⟨slot',hemit,_⟩ := bind_ok.mp hslot
  obtain ⟨gpa,hgpa,_⟩ := bind_ok.mp hemit
  obtain ⟨hsum,hlt⟩ := addWord_some.mp (okOr_ok.mp hgpa)
  omega

/-- What filling a buffer leaves: the tables in front, and behind them what was
there. -/
theorem populate_ok {buf : Bytes} {out : ℕ×Bytes} : populate root oem baseGpa buf=.ok out ↔
    ∃ l, run root=.ok l ∧ l.offsets.total≤buf.length ∧
      ∃ buf', emission root oem baseGpa l buf=.ok buf' ∧ out=(l.offsets.total,buf') := by
  unfold populate
  rw [bind_ok]
  constructor
  · rintro ⟨l,hl,h⟩
    split at h
    · exact absurd h fail_ne_ok
    · rename_i hroom
      obtain ⟨buf',hbuf,h⟩ := bind_ok.mp h
      cases h
      exact ⟨l,ofDtb_ok.mp hl,by omega,buf',ofDtb_ok.mp hbuf,rfl⟩
  · rintro ⟨l,hl,hroom,buf',hbuf,rfl⟩
    refine ⟨l,ofDtb_ok.mpr hl,?_⟩
    rw [if_neg (by omega)]
    exact bind_ok.mpr ⟨buf',ofDtb_ok.mpr hbuf,rfl⟩

/-- The tables one after another are a consistent image. -/
theorem isImage (h : Established root l kids serial console)
    (hbase : baseGpa+l.offsets.xsdt.offset<2^64) {t : Bytes}
    (ht : catAll (frontParts oem baseGpa l kids serial console++backParts root oem baseGpa l)=
      some t) : t.length=l.offsets.total ∧ IsImage baseGpa l.offsets t := by
  obtain ⟨hlen,hall⟩ := @slice_catAll _ _ (writes_all h hbase) [] t _ h.tiles ht
  simp only [frontJobs,backJobs,frontParts,backParts,List.cons_append,List.nil_append,
    List.forall₂_cons,Option.some.injEq,forall_eq',List.forall₂_nil_left_iff,and_true] at hall
  obtain ⟨hrsdp,hdsdt,hfadt,hmadt,hmcfg,hspcr,hsrat,hslit,hxsdt⟩ := hall
  have hlen : t.length=l.offsets.total := by
    rw [List.length_nil,Nat.zero_add] at hlen
    exact hlen
  have hdsdtSlot := offset_le_xsdt h
    (List.reduceOption_mem_iff.mpr (List.mem_cons_of_mem _ List.mem_cons_self))
  refine ⟨hlen,?_,?_,?_,?_,?_,?_,fun s hs => ?_,fun s hs => ?_,fun s hs => ?_,fun s hs => ?_,?_,
    h.xsdt,?_⟩
  · rw [hlen]
    exact h.tiles
  · rw [bytesIn,←hrsdp]
    exact isRsdp_rsdp oem hbase
  · exact tableAt_of rfl (isSdt_dsdt h.counted h.dsdt hdsdt)
  · refine tableAt_of hfadt ⟨isSdt_fadt _ _ _,?_⟩
    rw [fadt,length_sealed,length_fadtBytes,h.fadt]
  · rw [bytesIn,←hfadt]
    exact fadt_xDsdt oem l.fadt (by omega)
  · exact tableAt_of rfl (isSdt_madt h hmadt)
  · have hpart := hmcfg s hs
    rw [hs] at hpart
    exact tableAt_of rfl (isSdt_mcfg h hs hpart)
  · have hpart := hspcr s hs
    rw [hs] at hpart
    obtain ⟨c,_,hc⟩ := Option.bind_eq_some_iff.mp hpart
    obtain ⟨htable,hsize⟩ := isSdt_spcr hc
    exact tableAt_of rfl ⟨htable,hsize.trans (placed h.spcr hs).2.symm⟩
  · have hpart := hsrat s hs
    rw [hs] at hpart
    exact tableAt_of rfl (isSdt_srat h hs hpart)
  · have hpart := hslit s hs
    rw [hs] at hpart
    obtain ⟨raw,_,hraw⟩ := Option.bind_eq_some_iff.mp hpart
    exact tableAt_of rfl (isSdt_slit h hs hraw)
  · exact tableAt_of hxsdt (isSdt_xsdt h oem baseGpa)
  · rw [bytesIn,←hxsdt]
    exact entries_xsdt (gpa_lt h hbase)

/-- When a buffer is filled, the slot of every job holds what its job has written. -/
theorem populate_parts {buf buf' : Bytes} {n : ℕ}
    (h : populate root oem baseGpa buf=.ok (n,buf')) :
    ∃ l kids serial console, run root=.ok l ∧ Established root l kids serial console ∧
      List.Forall₂ (fun j r => ∀ s, Job.slot j=some s → r=some (bytesIn s (buf'.take n)))
        (frontJobs root oem baseGpa l++backJobs root oem baseGpa l)
        (frontParts oem baseGpa l kids serial console++backParts root oem baseGpa l) := by
  obtain ⟨l,hl,hroom,filled,hfilled,hout⟩ := populate_ok.mp h
  obtain ⟨kids,serial,console,hest⟩ := run_ok hl
  have hbase := emission_base hfilled
  obtain ⟨t,ht,hbytes⟩ := (emission_ok hest hbase hroom).mp hfilled
  obtain ⟨hlen,hall⟩ := @slice_catAll _ _ (writes_all hest hbase) [] t _ hest.tiles ht
  rw [List.length_nil,Nat.zero_add] at hlen
  have hfront : buf'.take n=t := by
    cases hout
    rw [hbytes,overwrite,List.take_zero,List.nil_append]
    exact List.take_left' hlen
  refine ⟨l,kids,serial,console,hl,hest,?_⟩
  rw [hfront]
  exact hall

/-- A buffer that is filled starts with a consistent image. Behind it the buffer
is as before, and any other buffer of sufficient size gets the same image. -/
theorem populate_image {buf buf' : Bytes} {n : ℕ}
    (h : populate root oem baseGpa buf=.ok (n,buf')) :
    ∃ l, run root=.ok l ∧ n=l.offsets.total ∧ n≤buf.length ∧
      IsImage baseGpa l.offsets (buf'.take n) ∧ buf'.drop n=buf.drop n ∧
      ∀ other : Bytes, n≤other.length → ∃ other',
        populate root oem baseGpa other=.ok (n,other') ∧ other'.take n=buf'.take n := by
  obtain ⟨l,hl,hroom,filled,hfilled,hout⟩ := populate_ok.mp h
  obtain ⟨kids,serial,console,hest⟩ := run_ok hl
  have hbase := emission_base hfilled
  obtain ⟨t,ht,rfl⟩ := (emission_ok hest hbase hroom).mp hfilled
  obtain ⟨hlen,himage⟩ := isImage hest hbase ht
  have hfront : ∀ b : Bytes, (overwrite 0 t b).take l.offsets.total=t := fun b => by
    rw [overwrite,List.take_zero,List.nil_append,List.take_left' hlen]
  cases hout
  refine ⟨l,hl,rfl,hroom,?_,?_,fun other hother => ⟨overwrite 0 t other,?_,?_⟩⟩
  · rw [hfront]
    exact himage
  · rw [overwrite,List.take_zero,List.nil_append,List.drop_left' hlen,Nat.zero_add,hlen]
  · exact populate_ok.mpr ⟨l,hl,hother,_,(emission_ok hest hbase hother).mpr ⟨t,ht,rfl⟩,rfl⟩
  · rw [hfront,hfront]

end Filling

/-- The nodes that no tree can be without. -/
def sampleKids : List Node :=
  [.mk "cpus" [⟨"#address-cells",beBytes 4 1⟩,⟨"#size-cells",beBytes 4 0⟩]
      [.mk "cpu@0" [⟨"reg",beBytes 4 0⟩] []],
    .mk "lapic@fee00000" [⟨"compatible",dtString "intel,ce4100-lapic"⟩,
      ⟨"reg",dtReg 0xfee00000 0x1000⟩] [],
    .mk "poweroff@9000" [⟨"compatible",dtString "syscon-poweroff"⟩,⟨"reg",dtReg 0x9000 0x1000⟩] []]

/-- A tree of two address and two size cells. -/
def sampleTree (kids : List Node) : Node :=
  .mk "" [⟨"#address-cells",beBytes 4 2⟩,⟨"#size-cells",beBytes 4 2⟩] kids

/-- An identity. -/
def sampleOem : OemIdentity :=
  ⟨⟨ascii "ARMA  ",rfl⟩,⟨ascii "ARMAVIRT",rfl⟩,1,⟨ascii "ARMA",rfl⟩,1⟩

/-- A dirty buffer of 600 bytes is filled with the tables of the sample tree. -/
theorem populate_image_sample : ∃ n buf' l,
    @populate plainLib (sampleTree sampleKids) sampleOem 0x1000 (List.replicate 600 7)=
      .ok (n,buf') ∧ IsImage 0x1000 (Layouted.offsets l) (buf'.take n) := by
  have hsome : (@populate plainLib (sampleTree sampleKids) sampleOem 0x1000
      (List.replicate 600 7)).toOption.isSome=true := by decide +kernel
  obtain ⟨out,hfilled⟩ := exists_ok hsome
  obtain ⟨l,_,_,_,himage,_⟩ := @populate_image plainLib _ _ _ _ _ _ hfilled
  exact ⟨out.1,out.2,l,hfilled,himage⟩

end Arma.Acpi.Image
