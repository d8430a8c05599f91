import Arma.Base.Checked
import Arma.Base.Patch

/-!
# The boot page tables

tatu ships page tables that map the first 4 GiB to itself in pages of 2 MiB. The
entries are written one by one into a zeroed section that starts at a fixed
address. A walk through the tables, as a processor makes it, finds every address
below 4 GiB at that address.
-/

namespace Arma.Tatu.BootMem

open Base.ByteString Base.Intervals Base.Patch

/-- `PGT_BASE`. -/
def pgtBase : ℕ := 0x98000

/-- `PGT_SIZE`. -/
def pgtSize : ℕ := 6*4096

/-- `PAGE_PRESENT`. -/
def pagePresent : ℕ := 1 <<< 0

/-- `PAGE_WRITABLE`. -/
def pageWritable : ℕ := 1 <<< 1

/-- `PAGE_SIZE_2MB`. -/
def pageSize2Mb : ℕ := 1 <<< 7

/-- `NUM_GB`. -/
def numGb : ℕ := 4

/-- `pdpt_off`. -/
def pdptOff : ℕ := 4096

/-- `pd_base_off`. -/
def pdBaseOff : ℕ := pdptOff+4096

/-- `write_u64`. -/
def writeU64 (out : Bytes) (off val : ℕ) : Bytes := overwrite off (leBytes 8 val) out

/-- Entry of the table at the top: where the next one is. -/
def pml4Entry : ℕ := (pgtBase+pdptOff) ||| pagePresent ||| pageWritable

/-- Entry for the `i`-th GiB: where its table is. -/
def pdptEntry (i : ℕ) : ℕ := (pgtBase+pdBaseOff+i*4096) ||| pagePresent ||| pageWritable

/-- Entry for the `j`-th page of the `i`-th GiB. -/
def pdEntry (i j : ℕ) : ℕ :=
  (i*(1 <<< 30)+j*(1 <<< 21)) ||| pagePresent ||| pageWritable ||| pageSize2Mb

/-- `identity_map_4gib`. -/
def identityMap4Gib : Bytes :=
  let out := writeU64 (zeros pgtSize) 0 pml4Entry
  let out := (List.range numGb).foldl (fun out i => writeU64 out (pdptOff+i*8) (pdptEntry i)) out
  (List.range numGb).foldl (fun out i => (List.range 512).foldl
    (fun out j => writeU64 out (pdBaseOff+i*4096+j*8) (pdEntry i j)) out) out

/-- The word that the tables have at an address. -/
def entryAt (tables : Bytes) (base addr : ℕ) : Option ℕ :=
  if base ≤ addr ∧ addr+8 ≤ base+tables.length then some (ofLE (slice (addr-base) 8 tables))
  else none

/-- The walk from a table on, `level` tables before the page: each entry is that of
nine bits of the address. It ends early at an entry for a whole large page. -/
def walk (tables : Bytes) (base : ℕ) : ℕ → ℕ → ℕ → Option ℕ
  | 0,table,addr => some (table+addr%2^12)
  | level+1,table,addr => do
    let shift := 12+9*level
    let e ← entryAt tables base (table+8*(addr/2^shift%512))
    if e.testBit 0=false then none
    else if e.testBit 7=true ∧ 0<level then some (e%2^52/2^shift*2^shift+addr%2^shift)
    else walk tables base level (e%2^52/2^12*2^12) addr

/-- Where a walk through four levels of tables leads. -/
def translate (tables : Bytes) (base addr : ℕ) : Option ℕ := walk tables base 4 base addr

/-- What is written, with its place. -/
def writes : List (ℕ×ℕ) :=
  (0,pml4Entry)::((List.range numGb).map fun i => (pdptOff+i*8,pdptEntry i))++
    (List.range numGb).flatMap fun i =>
      (List.range 512).map fun j => (pdBaseOff+i*4096+j*8,pdEntry i j)

/-- A write as a patch. -/
def siteOf (w : ℕ×ℕ) : Site := Site.const w.1 (leBytes 8 w.2)

/-- The loops are one run over all writes. -/
theorem identityMap4Gib_writes :
    identityMap4Gib=writes.foldl (fun out w => writeU64 out w.1 w.2) (zeros pgtSize) := by
  unfold identityMap4Gib writes
  simp only [List.cons_append,List.foldl_cons,List.foldl_append,List.foldl_map,List.foldl_flatMap]

/-- Every write is inside the section. -/
theorem writes_inside : ∀ w∈writes, w.1+8≤pgtSize := by
  have hgb : numGb=4 := rfl
  have hpdpt : pdptOff=4096 := rfl
  have hpd : pdBaseOff=8192 := rfl
  have hsize : pgtSize=24576 := rfl
  intro w hw
  unfold writes at hw
  rw [List.cons_append,List.mem_cons,List.mem_append,List.mem_map,List.mem_flatMap] at hw
  obtain rfl | ⟨i,hi,rfl⟩ | ⟨i,hi,hw⟩ := hw
  · decide
  · have hlt := List.mem_range.mp hi
    dsimp only
    omega
  · obtain ⟨j,hj,rfl⟩ := List.mem_map.mp hw
    have hi := List.mem_range.mp hi
    have hj := List.mem_range.mp hj
    dsimp only
    omega

/-- The writes go upwards. -/
theorem writes_ascending : writes.Pairwise fun v w => v.1+8≤w.1 := by
  have hgb : numGb=4 := rfl
  have hpdpt : pdptOff=4096 := rfl
  have hpd : pdBaseOff=8192 := rfl
  unfold writes
  rw [List.cons_append,List.pairwise_cons,List.pairwise_append,List.pairwise_map,
    List.pairwise_flatMap]
  refine ⟨?_,?_,⟨?_,?_⟩,?_⟩
  · intro w hw
    rw [List.mem_append,List.mem_map,List.mem_flatMap] at hw
    obtain ⟨i,hi,rfl⟩ | ⟨i,hi,hw⟩ := hw
    · dsimp only
      omega
    · obtain ⟨j,hj,rfl⟩ := List.mem_map.mp hw
      dsimp only
      omega
  · refine List.pairwise_lt_range.imp fun hlt => ?_
    dsimp only
    omega
  · intro i hi
    refine List.pairwise_map.mpr (List.pairwise_lt_range.imp fun hlt => ?_)
    dsimp only
    omega
  · refine List.pairwise_lt_range.imp fun {i i'} hlt v hv w hw => ?_
    obtain ⟨j,hj,rfl⟩ := List.mem_map.mp hv
    obtain ⟨j',_,rfl⟩ := List.mem_map.mp hw
    have hj := List.mem_range.mp hj
    dsimp only
    omega
  · intro v hv w hw
    obtain ⟨i,hi,rfl⟩ := List.mem_map.mp hv
    obtain ⟨i',hi',hw⟩ := List.mem_flatMap.mp hw
    obtain ⟨j,hj,rfl⟩ := List.mem_map.mp hw
    have hi := List.mem_range.mp hi
    dsimp only
    omega

/-- A run of writes is a run of patches. -/
theorem foldl_writeU64 {l : List (ℕ×ℕ)} {out : Bytes} (h : ∀ w∈l, w.1+8≤out.length) :
    l.foldl (fun out w => writeU64 out w.1 w.2) out=patchAll (l.map siteOf) out := by
  induction l generalizing out with
  | nil => rfl
  | cons w l ih =>
    obtain ⟨hw,hl⟩ := List.forall_mem_cons.mp h
    have hfit : w.1+(leBytes 8 w.2).length ≤ out.length := by rwa [length_leBytes]
    have hpatch : (siteOf w).patch out=writeU64 out w.1 w.2 := patch_const hfit
    have hlength : (writeU64 out w.1 w.2).length=out.length := length_overwrite hfit
    rw [List.foldl_cons,ih (by rwa [hlength]),←hpatch]
    rfl

/-- What is written is there. -/
theorem slice_written {w : ℕ×ℕ} (hw : w∈writes) :
    identityMap4Gib.length=pgtSize ∧ slice w.1 8 identityMap4Gib=leBytes 8 w.2 := by
  have hzeros : (zeros pgtSize).length=pgtSize := length_zeros pgtSize
  have hinside : ∀ v∈writes, v.1+8 ≤ (zeros pgtSize).length := by
    rw [hzeros]
    exact writes_inside
  have hmap := identityMap4Gib_writes.trans (foldl_writeU64 hinside)
  have hpatched : Patched (writes.map siteOf) (zeros pgtSize) identityMap4Gib := by
    rw [hmap]
    refine patchAll_patched (List.pairwise_map.mpr (writes_ascending.imp fun hle => ?_)) ?_
    · exact separate_iff.mpr (.inr (.inr (.inl (by
        dsimp only [siteOf,Site.const]
        rwa [length_leBytes]))))
    · intro s hs
      obtain ⟨v,hv,rfl⟩ := List.mem_map.mp hs
      have hfit := hinside v hv
      unfold Site.Inside siteOf Site.const
      dsimp only
      rwa [length_leBytes]
  have hslice := hpatched.slice_const (List.mem_map_of_mem hw) (by
    rw [length_leBytes]
    exact hinside w hw)
  rw [length_leBytes] at hslice
  exact ⟨hpatched.length.trans hzeros,hslice⟩

/-- A written entry is read. -/
theorem entryAt_written {off val : ℕ} (hw : (off,val)∈writes) (hval : val<2^64) :
    entryAt identityMap4Gib pgtBase (pgtBase+off)=some val := by
  obtain ⟨hlength,hslice⟩ := slice_written hw
  have hinside := writes_inside _ hw
  unfold entryAt
  rw [if_pos ⟨by omega,by omega⟩,Nat.add_sub_cancel_left,hslice,ofLE_leBytes]
  exact congrArg some (Nat.mod_eq_of_lt hval)

/-- The page of an entry and its flags. -/
theorem pdEntry_eq (i j : ℕ) : pdEntry i j=(i*512+j)*2^21+0x83 := by
  have hflags : pagePresent ||| pageWritable ||| pageSize2Mb=0x83 := by decide
  have hpage : i*(1 <<< 30)+j*(1 <<< 21)=(i*512+j) <<< 21 := by
    rw [Nat.shiftLeft_eq,Nat.shiftLeft_eq,Nat.shiftLeft_eq]
    ring
  have hlow : 0x83<2^21 := by decide
  rw [pdEntry,hpage,Nat.or_assoc,Nat.or_assoc,←Nat.or_assoc pagePresent,hflags,
    ←Nat.shiftLeft_add_eq_or_of_lt hlow,Nat.shiftLeft_eq]

/-- The entries of the upper tables are present, are for no large page and have the
addresses of the lower tables. -/
theorem pdptEntry_eq : ∀ i < numGb, pdptEntry i<2^64 ∧ (pdptEntry i).testBit 0=true ∧
    (pdptEntry i).testBit 7=false ∧ pdptEntry i%2^52/2^12*2^12=pgtBase+(pdBaseOff+i*4096) := by
  decide

/-- The walk goes through an entry that is present and for no large page. -/
theorem walk_table {tables : Bytes} {base level table addr e : ℕ}
    (he : entryAt tables base (table+8*(addr/2^(12+9*level)%512))=some e)
    (hpresent : e.testBit 0=true) (hlarge : e.testBit 7=false) :
    walk tables base (level+1) table addr=walk tables base level (e%2^52/2^12*2^12) addr := by
  rw [walk]
  rw [he,Option.bind_eq_bind,Option.bind_some,hpresent,if_neg (by decide),hlarge,
    if_neg (by simp)]

/-- The walk ends at an entry that is present and for a large page. -/
theorem walk_page {tables : Bytes} {base level table addr e : ℕ}
    (he : entryAt tables base (table+8*(addr/2^(12+9*level)%512))=some e)
    (hpresent : e.testBit 0=true) (hlarge : e.testBit 7=true) (hlevel : 0<level) :
    walk tables base (level+1) table addr=
      some (e%2^52/2^(12+9*level)*2^(12+9*level)+addr%2^(12+9*level)) := by
  rw [walk]
  rw [he,Option.bind_eq_bind,Option.bind_some,hpresent,if_neg (by decide),hlarge,
    if_pos ⟨rfl,hlevel⟩]

/-- Every address below 4 GiB is mapped to itself. -/
theorem translate_identity {addr : ℕ} (h : addr<2^32) :
    translate identityMap4Gib pgtBase addr=some addr := by
  obtain ⟨i,hiEq⟩ : ∃ i, i=addr/2^30 := ⟨_,rfl⟩
  obtain ⟨j,hjEq⟩ : ∃ j, j=addr/2^21%512 := ⟨_,rfl⟩
  have hi : i<numGb := by
    have hgb : numGb=4 := rfl
    omega
  have hj : j<512 := by omega
  have hpage : i*512+j=addr/2^21 := by omega
  obtain ⟨hfits,hpresent,hlarge,hframe⟩ := pdptEntry_eq i hi
  -- The table at the top has a single entry, at its start.
  have htop : entryAt identityMap4Gib pgtBase (pgtBase+8*(addr/2^(12+9*3)%512))=
      some pml4Entry := by
    have hindex : 8*(addr/2^(12+9*3)%512)=0 := by omega
    rw [hindex]
    exact entryAt_written List.mem_cons_self (by decide)
  have hmiddle : entryAt identityMap4Gib pgtBase
      (pml4Entry%2^52/2^12*2^12+8*(addr/2^(12+9*2)%512))=some (pdptEntry i) := by
    have hindex : pml4Entry%2^52/2^12*2^12+8*(addr/2^(12+9*2)%512)=pgtBase+(pdptOff+i*8) := by
      have htable : pml4Entry%2^52/2^12*2^12=pgtBase+pdptOff := by decide
      have hplace : addr/2^(12+9*2)%512=i := by omega
      rw [htable,hplace,Nat.add_assoc,Nat.mul_comm]
    have hmem : (pdptOff+i*8,pdptEntry i)∈writes := List.mem_append_left _ (List.mem_cons_of_mem _
      (List.mem_map.mpr ⟨i,List.mem_range.mpr hi,rfl⟩))
    rw [hindex]
    exact entryAt_written hmem hfits
  have hentry := pdEntry_eq i j
  have hlow : entryAt identityMap4Gib pgtBase
      (pdptEntry i%2^52/2^12*2^12+8*(addr/2^(12+9*1)%512))=some (pdEntry i j) := by
    have hindex : pdptEntry i%2^52/2^12*2^12+8*(addr/2^(12+9*1)%512)=
        pgtBase+(pdBaseOff+i*4096+j*8) := by
      rw [hframe]
      omega
    have hmem : (pdBaseOff+i*4096+j*8,pdEntry i j)∈writes := List.mem_append_right _
      (List.mem_flatMap.mpr ⟨i,List.mem_range.mpr hi,
        List.mem_map.mpr ⟨j,List.mem_range.mpr hj,rfl⟩⟩)
    rw [hindex]
    exact entryAt_written hmem (by omega)
  have hpresent' : (pdEntry i j).testBit 0=true := by
    rw [Nat.testBit_eq_decide_div_mod_eq,decide_eq_true_eq]
    omega
  have hlarge' : (pdEntry i j).testBit 7=true := by
    rw [Nat.testBit_eq_decide_div_mod_eq,decide_eq_true_eq]
    omega
  rw [translate,walk_table htop (by decide) (by decide),walk_table hmiddle hpresent hlarge,
    walk_page hlow hpresent' hlarge' (by decide)]
  have hframe' : pdEntry i j%2^52/2^21*2^21=addr/2^21*2^21 := by
    have hdiv : (addr/2^21*2^21+0x83)/2^21=addr/2^21 := by omega
    have hfit : addr/2^21*2^21+0x83<2^52 := by omega
    rw [hentry,hpage,Nat.mod_eq_of_lt hfit,hdiv]
  have hsplit := Nat.div_add_mod addr (2^21)
  rw [Nat.mul_comm,←hframe'] at hsplit
  exact congrArg some hsplit

end Arma.Tatu.BootMem
