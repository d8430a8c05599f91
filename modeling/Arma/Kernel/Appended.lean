import Arma.Kernel.Extract
import Arma.Kernel.Loading

/-!
# Appended relocation tables

A table behind an ELF kernel has its lists one behind another, each behind a zero
word. It is read backward from the end of the file, so every list comes out in
reverse. Words in front of the first zero, and bytes in front of the first word, are
not in any list.
-/

namespace Arma.Kernel.Appended

open Base.ByteString Base.Checked Extract Image Loading RelocTable

/-- Little-endian words. -/
def encodeWords (words : List UInt32) : Bytes := words.flatMap toLeBytes

/-- The word for a site: the low half of its address. -/
def siteWord (text : UInt64) (o : UInt32) : UInt32 := UInt32.ofNat (text.toNat+o.toNat)

/-- A table of lists of sites. -/
def tableWords (text : UInt64) (lists : List (List UInt32)) : List UInt32 :=
  lists.flatMap fun sites => 0::sites.map (siteWord text)

/-- A site in the image that has a word. -/
structure IsSite (text : UInt64) (size : ℕ) (o : UInt32) : Prop where
  /-- It is in the image. -/
  inside : o.toNat<size
  /-- Its address is that of a word that does not end a list. -/
  named : ∃ v : UInt32, v≠0 ∧ signExtend v=text.toNat+o.toNat

/-- How many lists a table has. -/
inductive Layout where
  /-- Without inverse sites. -/
  | two
  /-- With inverse sites. -/
  | three
deriving DecidableEq, Repr

/-- The lists of a table, in the order of the file. -/
def fileLists (r : Relocs) : Layout → List (List UInt32)
  | .two => [r.relocs64.reverse,r.relocs32.reverse]
  | .three => [r.relocs64.reverse,r.relocs32neg.reverse,r.relocs32.reverse]

/-- What follows the ELF in the file. -/
def region (elf : Elf) (bytes : Bytes) : Bytes := bytes.drop (tableStart elf)

/-- The region is the table of the lists, byte for byte. -/
def Accounted (elf : Elf) (bytes : Bytes) (text : UInt64) (r : Relocs) : Prop :=
  ∃ layout, (layout=.two → r.relocs32neg=[]) ∧
    region elf bytes=encodeWords (tableWords text (fileLists r layout))

/-- The region is whole words and begins with a zero. -/
def Terminated (elf : Elf) (bytes : Bytes) : Prop :=
  (region elf bytes).length%4=0 ∧ (region elf bytes).take 4=zeros 4

/-- The region has a partial word, no leading terminator or too many lists. -/
def Malformed (elf : Elf) (bytes : Bytes) : Prop :=
  (region elf bytes).length%4≠0 ∨ (region elf bytes).take 4≠zeros 4 ∨
    3<(appendedWords elf bytes).count 0

/-- Nothing is lost: the lists that are returned account for the region, and a malformed
region is an error. -/
structure Kept (elf : Elf) (bytes : Bytes) : Prop where
  /-- Returned lists are the table in the file. -/
  accounted : ∀ r span text, extractAppendedRelocs elf bytes=.ok r → elfSpan elf=.ok span →
    textVaddr elf span=.ok text → Accounted elf bytes text r
  /-- A malformed table is an error. -/
  rejected : Malformed elf bytes → ∃ e, extractAppendedRelocs elf bytes=fail e

/-- The kernel has no span, a word that ends no list is no site of the image, or there
are not two or three lists. -/
def Unreadable (elf : Elf) (bytes : Bytes) : Prop :=
  (∀ span, elfSpan elf≠.ok span) ∨
    (∃ v∈appendedWords elf bytes, v≠0 ∧ ∀ span text, elfSpan elf=.ok span →
      textVaddr elf span=.ok text → ¬∃ o : UInt32, o.toNat<span.maxMemEnd-span.minPaddr ∧
        signExtend v=text.toNat+o.toNat) ∨
    (appendedWords elf bytes).count 0∉[2,3]

/-- The word for a site is the one that its address is extended from. -/
theorem siteWord_eq {text : UInt64} {v o : UInt32} (h : signExtend v=text.toNat+o.toNat) :
    siteWord text o=v := by
  unfold siteWord
  rw [←h]
  apply UInt32.toNat_inj.mp
  have hv := v.toNat_lt
  change signExtend v%2^32=v.toNat
  unfold signExtend
  split <;> omega

/-- A word is the site at the offset of its address, in the image. -/
theorem appendedSite_iff {text : UInt64} {size : ℕ} {v o : UInt32} :
    appendedSite text size v=.ok o ↔ o.toNat<size ∧ signExtend v=text.toNat+o.toNat := by
  unfold appendedSite
  rw [okOr_ok,Option.map_eq_some_iff]
  constructor
  · rintro ⟨n,hn,rfl⟩
    obtain ⟨hsite,hlt⟩ := Option.filter_eq_some_iff.mp hn
    obtain ⟨hsub,hsize⟩ := Option.filter_eq_some_iff.mp hsite
    obtain ⟨hle,rfl⟩ := subWord_some.mp hsub
    rw [decide_eq_true_eq] at hlt hsize
    rw [UInt32.toNat_ofNat_of_lt' hlt]
    exact ⟨hsize,by omega⟩
  · rintro ⟨hsize,haddr⟩
    have hlt := o.toNat_lt
    refine ⟨o.toNat,?_,UInt32.ofNat_toNat⟩
    rw [Option.filter_eq_some_iff,Option.filter_eq_some_iff,subWord_some]
    exact ⟨⟨⟨by omega,by omega⟩,decide_eq_true hsize⟩,decide_eq_true hlt⟩

/-- A list in front of a zero is read as the sites of its words. -/
theorem splitTable_list {text : UInt64} {size : ℕ} {sites rest cur : List UInt32}
    {lists : List (List UInt32)} (h : ∀ o∈sites, IsSite text size o) :
    splitTable text size (sites.map (siteWord text)++0::rest) cur lists=
      splitTable text size rest [] (lists++[cur++sites]) := by
  induction sites generalizing cur with
  | nil => rw [List.map_nil,List.nil_append,splitTable,if_pos rfl,List.append_nil]
  | cons o sites ih =>
    obtain ⟨⟨hsize,v,hv,haddr⟩,hsites⟩ := List.forall_mem_cons.mp h
    have hsite := appendedSite_iff.mpr ⟨hsize,haddr⟩
    rw [List.map_cons,siteWord_eq haddr,List.cons_append,splitTable,if_neg hv,ok_bind hsite,
      ih hsites,List.append_assoc,List.singleton_append]

/-- The words of a table are read when every one that ends no list is a site. -/
theorem splitTable_succeeds {text : UInt64} {size : ℕ} {ws cur : List UInt32}
    {lists : List (List UInt32)} :
    (∃ ls, splitTable text size ws cur lists=.ok ls) ↔
      ∀ v∈ws, v≠0 → ∃ o, appendedSite text size v=.ok o := by
  induction ws generalizing cur lists with
  | nil => exact iff_of_true ⟨lists,rfl⟩ (by simp)
  | cons v ws ih =>
    rw [List.forall_mem_cons,splitTable]
    by_cases hv : v=0
    · rw [if_pos hv,ih]
      exact (and_iff_right fun h => absurd hv h).symm
    · rw [if_neg hv]
      constructor
      · rintro ⟨ls,h⟩
        obtain ⟨o,ho,h⟩ := bind_ok.mp h
        exact ⟨fun _ => ⟨o,ho⟩,ih.mp ⟨ls,h⟩⟩
      · rintro ⟨hsite,hws⟩
        obtain ⟨o,ho⟩ := hsite hv
        obtain ⟨ls,h⟩ := ih.mpr hws
        exact ⟨ls,bind_ok.mpr ⟨o,ho,h⟩⟩

/-- There is a list for each zero. -/
theorem splitTable_length {text : UInt64} {size : ℕ} {ws cur : List UInt32}
    {lists ls : List (List UInt32)} (h : splitTable text size ws cur lists=.ok ls) :
    ls.length=lists.length+ws.count 0 := by
  induction ws generalizing cur lists with
  | nil =>
    cases h
    rfl
  | cons v ws ih =>
    rw [splitTable] at h
    by_cases hv : v=0
    · rw [if_pos hv] at h
      rw [ih h,hv,List.count_cons_self,List.length_append,List.length_singleton]
      omega
    · rw [if_neg hv] at h
      obtain ⟨o,-,h⟩ := bind_ok.mp h
      rw [ih h,List.count_cons_of_ne hv]

/-- Words are read back from what they are written as. -/
theorem decodeRecords_encodeWords (words : List UInt32) :
    decodeRecords 4 fromLeBytes words.length (encodeWords words)=words := by
  have h := decodeRecords_flatMap fromLeBytes (fun o (_ : o∈words) => length_toLeBytes o) []
  simp only [List.append_nil,fromLeBytes_toLeBytes,List.map_id'] at h
  exact h

/-- Words take four bytes each. -/
theorem length_encodeWords (words : List UInt32) : (encodeWords words).length=words.length*4 :=
  length_flatMap_records fun o _ => length_toLeBytes o

/-- Words are written in one way. -/
theorem encodeWords_inj {a b : List UInt32} (h : encodeWords a=encodeWords b) : a=b := by
  have hlength := congrArg List.length h
  rw [length_encodeWords,length_encodeWords] at hlength
  have hcount : a.length=b.length := by omega
  have hread := decodeRecords_encodeWords a
  rw [h,hcount,decodeRecords_encodeWords] at hread
  exact hread.symm

/-- Four bytes are a word. -/
theorem toLeBytes_fromLeBytes {bs : Bytes} (h : bs.length=4) : toLeBytes (fromLeBytes bs)=bs := by
  have hlt := ofLE_lt bs
  rw [h] at hlt
  unfold toLeBytes fromLeBytes
  rw [UInt32.toNat_ofNat_of_lt' hlt,←h]
  exact leBytes_ofLE bs

/-- The words from the end of the file, in the order of the file, are its last bytes. -/
theorem encodeWords_backward {bytes : Bytes} {n : ℕ} (h : 4*n≤bytes.length) :
    encodeWords ((List.range n).map fun k =>
      fromLeBytes (slice (bytes.length-4*(k+1)) 4 bytes)).reverse=
      bytes.drop (bytes.length-4*n) := by
  induction n with
  | zero => exact List.drop_length.symm
  | succ n ih =>
    have hword : (slice (bytes.length-4*(n+1)) 4 bytes).length=4 := length_slice (by omega)
    have hsplit : bytes.drop (bytes.length-4*(n+1))=
        slice (bytes.length-4*(n+1)) 4 bytes++bytes.drop (bytes.length-4*n) := by
      have hnext : bytes.length-4*n=bytes.length-4*(n+1)+4 := by omega
      rw [slice,hnext,←List.drop_drop,List.take_append_drop]
    have hwords := ih (by omega)
    unfold encodeWords at hwords ⊢
    rw [List.range_succ,List.map_append,List.map_singleton,List.reverse_append,
      List.reverse_singleton,List.singleton_append,List.flatMap_cons,toLeBytes_fromLeBytes hword,
      hwords,hsplit]

section
variable {elf : Elf} {bytes : Bytes}

/-- A region of whole words is the words that are read, in the order of the file. -/
theorem region_eq (hstart : tableStart elf≤bytes.length) (h : (region elf bytes).length%4=0) :
    region elf bytes=encodeWords (appendedWords elf bytes).reverse := by
  unfold region at h ⊢
  rw [List.length_drop] at h
  have hwords := @encodeWords_backward bytes ((bytes.length-tableStart elf)/4) (by omega)
  have hback : bytes.length-4*((bytes.length-tableStart elf)/4)=tableStart elf := by omega
  rw [hback] at hwords
  exact hwords.symm

/-- The words of a region that is written as words. -/
theorem appendedWords_of_region {words : List UInt32} (hstart : tableStart elf≤bytes.length)
    (h : region elf bytes=encodeWords words) : appendedWords elf bytes=words.reverse := by
  have hwhole : (region elf bytes).length%4=0 := by
    rw [h,length_encodeWords]
    omega
  have hsame := encodeWords_inj ((region_eq hstart hwhole).symm.trans h)
  rw [←hsame,List.reverse_reverse]

/-- A region of whole words begins with a zero exactly when the last word that is read is
one. -/
theorem terminated_iff (hstart : tableStart elf<bytes.length) :
    Terminated elf bytes ↔
      (region elf bytes).length%4=0 ∧ ∃ init, appendedWords elf bytes=init++[0] := by
  refine and_congr_right fun hwhole => ?_
  have hregion := region_eq hstart.le hwhole
  constructor
  · intro hzero
    match hwords : (appendedWords elf bytes).reverse with
    | [] =>
      rw [hwords] at hregion
      have hlength := congrArg List.length hregion
      unfold region at hlength
      rw [List.length_drop] at hlength
      have hnone : (encodeWords []).length=0 := rfl
      omega
    | v::words =>
      rw [hregion,hwords,encodeWords,List.flatMap_cons,List.take_left' (length_toLeBytes v)] at hzero
      have hv : v=0 := by
        rw [←fromLeBytes_toLeBytes v,hzero]
        rfl
      refine ⟨words.reverse,?_⟩
      rw [←List.reverse_reverse (appendedWords elf bytes),hwords,hv,List.reverse_cons]
  · rintro ⟨init,hinit⟩
    rw [hregion,hinit,List.reverse_append,List.reverse_singleton,List.singleton_append,encodeWords,
      List.flatMap_cons,List.take_left' (length_toLeBytes 0)]
    rfl

/-- A kernel with a span has a link base. -/
theorem exists_textVaddr {span : ElfSpan} (h : elfSpan elf=.ok span) :
    ∃ text, textVaddr elf span=.ok text := by
  obtain ⟨⟨⟨p,hp,hspans,hmin⟩,-⟩,-⟩ := elfSpan_ok h
  have hfound : (textSegment elf span).isSome=true := by
    unfold textSegment
    rw [List.find?_isSome]
    exact ⟨p,hp,by rw [hspans,Bool.true_and]; exact decide_eq_true hmin⟩
  obtain ⟨q,hq⟩ := Option.isSome_iff_exists.mp hfound
  exact ⟨q.vaddr,okOr_ok.mpr (by rw [hq]; rfl)⟩

/-- The loop over the words does not panic. -/
theorem noPanic_splitTable {text : UInt64} {size : ℕ} {ws cur : List UInt32}
    {lists : List (List UInt32)} : NoPanic (splitTable text size ws cur lists) := by
  induction ws generalizing cur lists with
  | nil => exact noPanic_ok _
  | cons v ws ih =>
    rw [splitTable]
    exact ih.ite ((noPanic_okOr _ _).bind fun _ _ => ih)

/-- Extracting an appended table does not panic. -/
theorem noPanic_extractAppendedRelocs : NoPanic (extractAppendedRelocs elf bytes) := by
  have hlists : ∀ lists, NoPanic (appendedRelocs lists) := by
    intro lists
    unfold appendedRelocs
    split
    · exact noPanic_ok _
    · exact noPanic_ok _
    · exact noPanic_fail _
  exact (noPanic_elfSpan elf).bind fun _ _ => (noPanic_okOr _ _).bind fun _ _ =>
    (noPanic_ok _).ite (noPanic_splitTable.bind fun lists _ => hlists lists)

/-- The steps of extracting a region. -/
theorem extractAppendedRelocs_steps (hstart : tableStart elf<bytes.length) {r : Relocs} :
    extractAppendedRelocs elf bytes=.ok r ↔ ∃ span text lists, elfSpan elf=.ok span ∧
      textVaddr elf span=.ok text ∧ splitTable text (span.maxMemEnd-span.minPaddr)
        (appendedWords elf bytes) [] []=.ok lists ∧ appendedRelocs lists=.ok r := by
  unfold extractAppendedRelocs
  rw [bind_ok]
  refine exists_congr fun span => ?_
  rw [bind_ok]
  constructor
  · rintro ⟨hspan,text,htext,h⟩
    rw [if_neg (by omega)] at h
    obtain ⟨lists,hlists,hr⟩ := bind_ok.mp h
    exact ⟨text,lists,hspan,htext,hlists,hr⟩
  · rintro ⟨text,lists,hspan,htext,hlists,hr⟩
    refine ⟨hspan,text,htext,?_⟩
    rw [if_neg (by omega)]
    exact bind_ok.mpr ⟨lists,hlists,hr⟩

/-- Two or three lists are labelled. -/
theorem appendedRelocs_succeeds {lists : List (List UInt32)} :
    (∃ r, appendedRelocs lists=.ok r) ↔ lists.length∈[2,3] := by
  unfold appendedRelocs
  split
  · exact iff_of_true ⟨_,rfl⟩ (by simp)
  · exact iff_of_true ⟨_,rfl⟩ (by simp)
  · rename_i htwo hthree
    refine iff_of_false (fun ⟨r,h⟩ => fail_ne_ok h) fun h => ?_
    simp only [List.mem_cons,List.not_mem_nil,or_false] at h
    rcases h with h | h
    · obtain ⟨a,b,rfl⟩ := List.length_eq_two.mp h
      exact htwo a b rfl
    · obtain ⟨a,b,c,rfl⟩ := List.length_eq_three.mp h
      exact hthree a b c rfl

/-- A region is extracted exactly when it can be read. -/
theorem extractAppendedRelocs_succeeds (hstart : tableStart elf<bytes.length) :
    (∃ r, extractAppendedRelocs elf bytes=.ok r) ↔ ¬Unreadable elf bytes := by
  constructor
  · rintro ⟨r,h⟩ hbad
    obtain ⟨span,text,lists,hspan,htext,hlists,hr⟩ := (extractAppendedRelocs_steps hstart).mp h
    rcases hbad with hnone | ⟨v,hv,hne,hnot⟩ | hcount
    · exact hnone span hspan
    · obtain ⟨o,ho⟩ := splitTable_succeeds.mp ⟨lists,hlists⟩ v hv hne
      exact hnot span text hspan htext ⟨o,appendedSite_iff.mp ho⟩
    · have hlength := splitTable_length hlists
      rw [List.length_nil,Nat.zero_add] at hlength
      rw [←hlength] at hcount
      exact hcount (appendedRelocs_succeeds.mp ⟨r,hr⟩)
  · intro h
    have hspan : ∃ span, elfSpan elf=.ok span := by
      by_contra hnone
      exact h (.inl fun span hspan => hnone ⟨span,hspan⟩)
    obtain ⟨span,hspan⟩ := hspan
    obtain ⟨text,htext⟩ := exists_textVaddr hspan
    have hsites : ∀ v∈appendedWords elf bytes, v≠0 →
        ∃ o, appendedSite text (span.maxMemEnd-span.minPaddr) v=.ok o := by
      intro v hv hne
      by_contra hnot
      refine h (.inr (.inl ⟨v,hv,hne,fun span' text' hspan' htext' hsite => ?_⟩))
      obtain rfl : span=span' := Except.ok.inj (hspan.symm.trans hspan')
      obtain rfl : text=text' := Except.ok.inj (htext.symm.trans htext')
      obtain ⟨o,ho⟩ := hsite
      exact hnot ⟨o,appendedSite_iff.mpr ho⟩
    obtain ⟨lists,hlists⟩ := splitTable_succeeds.mpr hsites
    have hcount : lists.length∈[2,3] := by
      have hlength := splitTable_length hlists
      rw [List.length_nil,Nat.zero_add] at hlength
      by_contra hnot
      exact h (.inr (.inr (hlength ▸ hnot)))
    obtain ⟨r,hr⟩ := appendedRelocs_succeeds.mpr hcount
    exact ⟨r,(extractAppendedRelocs_steps hstart).mpr ⟨span,text,lists,hspan,htext,hlists,hr⟩⟩

/-- The words of a list of the table are those for its sites. -/
theorem words_of_sites {text : UInt64} {size : ℕ} {words sites : List UInt32}
    (h : List.Forall₂ (fun v o => appendedSite text size v=.ok o) words sites) :
    words=sites.map (siteWord text) := by
  induction h with
  | nil => rfl
  | cons hsite _ ih => rw [List.map_cons,siteWord_eq (appendedSite_iff.mp hsite).2,←ih]

/-- The words of all lists are those for their sites. -/
theorem words_of_lists {text : UInt64} {size : ℕ} {words lists : List (List UInt32)}
    (h : List.Forall₂ (List.Forall₂ fun v o => appendedSite text size v=.ok o) words lists) :
    words=lists.map fun sites => sites.map (siteWord text) := by
  induction h with
  | nil => rfl
  | cons hsites _ ih => rw [List.map_cons,←words_of_sites hsites,←ih]

/-- The lists of a terminated region account for it. -/
theorem accounted_of_terminated (hstart : tableStart elf<bytes.length)
    (hterm : Terminated elf bytes) {r : Relocs} {span : ElfSpan} {text : UInt64}
    (h : extractAppendedRelocs elf bytes=.ok r) (hspan : elfSpan elf=.ok span)
    (htext : textVaddr elf span=.ok text) : Accounted elf bytes text r := by
  obtain ⟨span',text',lists,hspan',htext',hlists,hr⟩ := (extractAppendedRelocs_steps hstart).mp h
  obtain rfl : span=span' := Except.ok.inj (hspan.symm.trans hspan')
  obtain rfl : text=text' := Except.ok.inj (htext.symm.trans htext')
  obtain ⟨hwhole,init,hinit⟩ := (terminated_iff hstart).mp hterm
  have hregion := region_eq hstart.le hwhole
  have htable : tableLists elf bytes=lists.map fun sites => sites.map (siteWord text) :=
    words_of_lists (splitTable_ok hlists List.Forall₂.nil List.Forall₂.nil)
  have hlast : tableLists elf bytes=init.splitOn 0 := by
    rw [tableLists,hinit,List.splitOn_append_cons_self]
    exact List.dropLast_concat
  have hinner : init=[(0 : UInt32)].intercalate (lists.map fun sites => sites.map (siteWord text)) := by
    rw [←htable,hlast,List.intercalate_splitOn]
  unfold appendedRelocs at hr
  unfold Accounted
  rw [hregion,hinit,hinner]
  split at hr
  · cases hr
    refine ⟨.two,fun _ => rfl,congrArg encodeWords ?_⟩
    simp [tableWords,fileLists,List.intercalate]
  · cases hr
    refine ⟨.three,(by intro hlayout; cases hlayout),congrArg encodeWords ?_⟩
    simp [tableWords,fileLists,List.intercalate]
  · exact absurd hr fail_ne_ok

/-- A region that is a table is terminated. -/
theorem Accounted.terminated (hstart : tableStart elf<bytes.length) {text : UInt64} {r : Relocs}
    (h : Accounted elf bytes text r) : Terminated elf bytes := by
  obtain ⟨layout,-,hregion⟩ := h
  have hfirst : ∃ words, tableWords text (fileLists r layout)=0::words := by
    cases layout <;> exact ⟨_,rfl⟩
  obtain ⟨words,hwords⟩ := hfirst
  refine (terminated_iff hstart).mpr ⟨?_,words.reverse,?_⟩
  · rw [hregion,length_encodeWords]
    omega
  · rw [appendedWords_of_region hstart.le hregion,hwords,List.reverse_cons]

/-- Nothing of a region is lost exactly when it is terminated, or cannot be read anyway. -/
theorem kept_iff (hstart : tableStart elf<bytes.length) :
    Kept elf bytes ↔ Terminated elf bytes ∨ Unreadable elf bytes := by
  constructor
  · intro h
    by_cases hbad : Unreadable elf bytes
    · exact .inr hbad
    · obtain ⟨r,hr⟩ := (extractAppendedRelocs_succeeds hstart).mpr hbad
      obtain ⟨span,text,lists,hspan,htext,-⟩ := (extractAppendedRelocs_steps hstart).mp hr
      exact .inl ((h.accounted r span text hr hspan htext).terminated hstart)
  · intro h
    refine ⟨fun r span text hr hspan htext => ?_,fun hmal => ?_⟩
    · rcases h with hterm | hbad
      · exact accounted_of_terminated hstart hterm hr hspan htext
      · exact absurd hbad ((extractAppendedRelocs_succeeds hstart).mp ⟨r,hr⟩)
    · have hbad : Unreadable elf bytes := by
        rcases h with ⟨hwhole,hzero⟩ | hbad
        · rcases hmal with hpart | hfirst | hmany
          · exact absurd hwhole hpart
          · exact absurd hzero hfirst
          · refine .inr (.inr fun hcount => ?_)
            simp only [List.mem_cons,List.not_mem_nil,or_false] at hcount
            omega
        · exact hbad
      exact noPanic_extractAppendedRelocs.fails fun r hr =>
        (extractAppendedRelocs_succeeds hstart).mp ⟨r,hr⟩ hbad

end

/-- A table behind a kernel that ends with its last structure is read back, list by list
and backward, in both layouts. -/
theorem extractRelocs_table {elfParse : Bytes → Option Elf} {bytes : Bytes} {elf : Elf}
    {span : ElfSpan} {text : UInt64} (helf : ∀ rest, elfParse (bytes++rest)=some elf)
    (hnone : elf.shdrRelocs=[]) (hend : tableStart elf=bytes.length)
    (hspan : elfSpan elf=.ok span) (htext : textVaddr elf span=.ok text)
    {sites64 sitesNeg sites32 : List UInt32}
    (hsites : ∀ o∈sites64++sitesNeg++sites32, IsSite text (span.maxMemEnd-span.minPaddr) o) :
    extractRelocs elfParse (bytes++encodeWords (tableWords text [sites64,sites32]))=
        .ok ⟨sites32.reverse,[],sites64.reverse⟩ ∧
      extractRelocs elfParse (bytes++encodeWords (tableWords text [sites64,sitesNeg,sites32]))=
        .ok ⟨sites32.reverse,sitesNeg.reverse,sites64.reverse⟩ := by
  simp only [List.mem_append,or_imp,forall_and] at hsites
  obtain ⟨⟨h64,hneg⟩,h32⟩ := hsites
  have hback : ∀ {sites : List UInt32},
      (∀ o∈sites, IsSite text (span.maxMemEnd-span.minPaddr) o) →
        ∀ o∈sites.reverse, IsSite text (span.maxMemEnd-span.minPaddr) o :=
    fun h o ho => h o (List.mem_reverse.mp ho)
  have hread : ∀ first lists {r : Relocs},
      (∃ found, splitTable text (span.maxMemEnd-span.minPaddr)
        (tableWords text (first::lists)).reverse [] []=.ok found ∧ appendedRelocs found=.ok r) →
      extractRelocs elfParse (bytes++encodeWords (tableWords text (first::lists)))=.ok r := by
    rintro first lists r ⟨found,hfound,hr⟩
    have hregion : region elf (bytes++encodeWords (tableWords text (first::lists)))=
        encodeWords (tableWords text (first::lists)) := by
      rw [region,hend]
      exact List.drop_left
    have hstart : tableStart elf<
        (bytes++encodeWords (tableWords text (first::lists))).length := by
      rw [hend,List.length_append,length_encodeWords,tableWords,List.flatMap_cons,List.length_append,
        List.length_cons]
      omega
    have hempty : elf.shdrRelocs.isEmpty=true := List.isEmpty_iff.mpr hnone
    rw [extractRelocs,parseElf,ok_bind (okOr_ok.mpr (helf _)),if_pos hempty,
      extractAppendedRelocs_steps hstart]
    refine ⟨span,text,found,hspan,htext,?_,hr⟩
    rw [appendedWords_of_region hstart.le hregion]
    exact hfound
  constructor
  · refine hread _ _ ⟨[sites32.reverse,sites64.reverse],?_,rfl⟩
    have hwords : (tableWords text [sites64,sites32]).reverse=
        sites32.reverse.map (siteWord text)++0::(sites64.reverse.map (siteWord text)++[0]) := by
      simp [tableWords]
    rw [hwords,splitTable_list (hback h32),splitTable_list (hback h64)]
    rfl
  · refine hread _ _ ⟨[sites32.reverse,sitesNeg.reverse,sites64.reverse],?_,rfl⟩
    have hwords : (tableWords text [sites64,sitesNeg,sites32]).reverse=
        sites32.reverse.map (siteWord text)++0::(sitesNeg.reverse.map (siteWord text)++0::
          (sites64.reverse.map (siteWord text)++[0])) := by
      simp [tableWords]
    rw [hwords,splitTable_list (hback h32),splitTable_list (hback hneg),splitTable_list (hback h64)]
    rfl

/-- Code at 16 MiB. -/
def plainSegment : ProgramHeader := ⟨ptLoad,120,0xffffffff81000000,0x1000000,8,0x2000⟩

/-- A kernel with one segment. -/
def plainFile : Bytes := sampleHeader 1++sampleProgramHeader plainSegment++[1,2,3,4,5,6,7,8]

/-- Its parsed headers. -/
def plainElf : Elf := ⟨true,emX86_64,0x1000000,0,0,0,[plainSegment],[],[],[]⟩

/-- Its span. -/
def plainSpan : ElfSpan := ⟨0x1000000,0x1000008,0x1002000⟩

/-- Tables with one, no and two sites are read back. -/
theorem extractRelocs_table_sample :
    extractRelocs (fun _ => some plainElf)
        (plainFile++encodeWords (tableWords 0xffffffff81000000 [[0x10],[0x20,0x30]]))=
        .ok ⟨[0x30,0x20],[],[0x10]⟩ ∧
      extractRelocs (fun _ => some plainElf)
        (plainFile++encodeWords (tableWords 0xffffffff81000000 [[0x10],[],[0x20,0x30]]))=
        .ok ⟨[0x30,0x20],[],[0x10]⟩ := by
  have hend : tableStart plainElf=plainFile.length := by decide +kernel
  have hspan : elfSpan plainElf=.ok plainSpan := by decide +kernel
  have htext : textVaddr plainElf plainSpan=.ok 0xffffffff81000000 := by decide +kernel
  have hsites : ∀ o∈[0x10]++[]++[0x20,0x30],
      IsSite 0xffffffff81000000 (plainSpan.maxMemEnd-plainSpan.minPaddr) o := by
    simp only [List.append_nil,List.cons_append,List.nil_append,List.forall_mem_cons]
    exact ⟨⟨by decide,0x81000010,by decide,by decide⟩,⟨by decide,0x81000020,by decide,by decide⟩,
      ⟨by decide,0x81000030,by decide,by decide⟩,List.forall_mem_nil _⟩
  exact extractRelocs_table (fun _ => rfl) rfl hend hspan htext hsites

/-- A region of one list after the other is kept. -/
theorem kept_iff_sample :
    Kept plainElf (plainFile++encodeWords [0,0x81000010,0,0x81000020]) :=
  (kept_iff (by decide +kernel)).mpr (.inl ⟨by decide +kernel,by decide +kernel⟩)

/-- A table without its leading terminator is accepted without its first list, and one
with a byte in front as if it were not there. -/
theorem not_kept :
    (extractAppendedRelocs plainElf
        (plainFile++encodeWords [0x81000010,0,0x81000020,0,0x81000030])=.ok ⟨[0x30],[],[0x20]⟩ ∧
      ¬Kept plainElf (plainFile++encodeWords [0x81000010,0,0x81000020,0,0x81000030])) ∧
    extractAppendedRelocs plainElf
        (plainFile++[7]++encodeWords [0,0x81000020,0,0x81000030])=.ok ⟨[0x30],[],[0x20]⟩ ∧
      ¬Kept plainElf (plainFile++[7]++encodeWords [0,0x81000020,0,0x81000030]) := by
  have hfirst : extractAppendedRelocs plainElf
      (plainFile++encodeWords [0x81000010,0,0x81000020,0,0x81000030])=.ok ⟨[0x30],[],[0x20]⟩ := by
    decide +kernel
  have hpart : extractAppendedRelocs plainElf
      (plainFile++[7]++encodeWords [0,0x81000020,0,0x81000030])=.ok ⟨[0x30],[],[0x20]⟩ := by
    decide +kernel
  refine ⟨⟨hfirst,fun h => ?_⟩,hpart,fun h => ?_⟩
  · obtain ⟨e,he⟩ := h.rejected (.inr (.inl (by decide +kernel)))
    rw [hfirst] at he
    cases he
  · obtain ⟨e,he⟩ := h.rejected (.inl (by decide +kernel))
    rw [hpart] at he
    cases he

end Arma.Kernel.Appended
