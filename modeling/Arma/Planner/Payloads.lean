import Arma.Planner.Bound
import Arma.Planner.Devices

/-!
# Where the payloads and the devices start

Every payload starts at a whole 2 MiB unit and shares no unit with another one. The band
of the devices starts at a whole unit too, and the first of them starts with it.
-/

namespace Arma.Planner.Payloads

open Base.Checked Base.Intervals Model Separation Planner.Bound

/-- A range of whole units. -/
structure Whole (r : Range) : Prop where
  /-- It starts at a unit. -/
  start : gran∣r.start
  /-- It ends at a unit. -/
  stop : gran∣r.stop
  /-- It is not empty. -/
  nonempty : r.start < r.stop

/-- The archive and the fill are whole units, one behind the other. -/
theorem placeInitrd_whole {initrdSize : Option ℕ} {bootconfig : Bool}
    {occupied occupied' : List Range} {initrd fill : Option Range}
    (h : placeInitrd initrdSize bootconfig occupied=.ok ((initrd,fill),occupied')) :
    (∀ r∈initrd.toList++fill.toList, Whole r) ∧ ∀ r∈initrd, ∀ s∈fill, r.stop≤ s.start := by
  obtain ⟨-,rfl,rfl,-⟩ | ⟨sz,size,slot,-,hpos,hpadded,hplace,rfl,rfl⟩ := placeInitrd_run h
  · exact ⟨fun r hr => absurd hr List.not_mem_nil,fun r hr => absurd hr (Option.not_mem_none r)⟩
  · obtain ⟨-,hunits,hle,-⟩ := alignUp_lowest hpadded
    obtain ⟨hslot,hlowest,-⟩ := placeFirstFit_lowest hplace
    have haligned := hlowest.free.aligned
    have hstop : slot.stop=slot.start+(size+if bootconfig then gran else 0) :=
      congrArg Region.stop hslot
    have hmid : gran∣slot.start+size := Nat.dvd_add haligned hunits
    have hgran := gran_pos
    have harchive : Whole ⟨slot.start,slot.start+size⟩ := by
      refine ⟨haligned,hmid,?_⟩
      change slot.start < slot.start+size
      omega
    cases bootconfig with
    | false =>
      refine ⟨List.forall_mem_singleton.mpr harchive,fun r _ s hs => ?_⟩
      exact absurd hs (Option.not_mem_none s)
    | true =>
      rw [if_pos rfl,←Nat.add_assoc] at hstop
      have hfill : Whole ⟨slot.start+size,slot.stop⟩ := by
        refine ⟨hmid,hstop ▸ Nat.dvd_add hmid (dvd_refl gran),?_⟩
        change slot.start+size < slot.stop
        omega
      refine ⟨List.forall_mem_cons.mpr ⟨harchive,List.forall_mem_singleton.mpr hfill⟩,?_⟩
      intro r hr s hs
      cases hr
      cases hs
      exact le_rfl

/-- The table starts at a unit and is not empty. -/
theorem placeRelocs_aligned {relocsSize : Option ℕ} {occupied occupied' : List Range}
    {relocs : Option Range} (h : placeRelocs relocsSize occupied=.ok (relocs,occupied')) :
    ∀ r∈relocs, gran∣r.start ∧ r.start < r.stop := by
  obtain ⟨-,rfl,-⟩ | ⟨sz,slot,-,hpos,hplace,rfl⟩ := placeRelocs_run h
  · exact fun r hr => absurd hr (Option.not_mem_none r)
  · obtain ⟨hslot,hlowest,-⟩ := placeFirstFit_lowest hplace
    have hstop : slot.stop=slot.start+sz := congrArg Region.stop hslot
    intro r hr
    cases hr
    exact ⟨hlowest.free.aligned,by omega⟩

section Planned

variable {p : Planner} {lay : Layout}

/-- Every payload starts at a unit and is not empty. -/
theorem plan_aligned (h : p.plan=.ok lay) (halign : p.kernel.align≤gran)
    (hsize : 0 < p.kernel.size) : ∀ r∈payloadRanges lay, gran∣r.start ∧ r.start < r.stop := by
  obtain ⟨hlowest,hlinux⟩ := (plan_steps h).kernel
  have hkernel : kernelAlign p=gran := max_eq_right halign
  have hstop : lay.linux.stop=lay.linux.start+p.kernel.size := congrArg Region.stop hlinux
  obtain ⟨_,_,_,_,_,hrun⟩ := Planner.plan_run h
  have hinitrd := (placeInitrd_whole hrun.initrd).1
  rw [payloadRanges]
  refine List.forall_mem_cons.mpr ⟨⟨hkernel ▸ hlowest.free.aligned,by omega⟩,?_⟩
  refine List.forall_mem_append.mpr ⟨fun r hr => ?_,fun r hr => ?_⟩
  · exact ⟨(hinitrd r hr).start,(hinitrd r hr).nonempty⟩
  · exact placeRelocs_aligned hrun.relocs r (Option.mem_toList.mp hr)

/-- The payloads share no unit with each other. -/
theorem plan_apart (h : p.plan=.ok lay) :
    (payloadRanges lay).Pairwise fun r s => BlocksApart (·/gran) r.toSet s.toSet := by
  have hplan := (plan_ok h).payloads
  simp only [payloads,List.pairwise_cons,List.mem_cons,List.not_mem_nil,or_false,
    forall_eq_or_imp,forall_eq] at hplan
  obtain ⟨⟨hrelocsInitrd,hrelocsLinux⟩,hinitrdLinux,-⟩ := hplan
  obtain ⟨_,_,_,_,_,hrun⟩ := Planner.plan_run h
  obtain ⟨hwhole,hfollow⟩ := placeInitrd_whole hrun.initrd
  have harea : ∀ r∈lay.initrd.toList++lay.bootconfig.toList, r.toSet⊆initrdArea lay := by
    intro r hr
    rcases List.mem_append.mp hr with hr | hr
    · exact fun x hx => .inl ⟨r,Option.mem_toList.mp hr,hx⟩
    · exact fun x hx => .inr ⟨r,Option.mem_toList.mp hr,hx⟩
  have htable : ∀ r∈lay.relocs.toList, r.toSet⊆optSet lay.relocs :=
    fun r hr x hx => ⟨r,Option.mem_toList.mp hr,hx⟩
  have hinitrd : (lay.initrd.toList++lay.bootconfig.toList).Pairwise fun r s =>
      BlocksApart (·/gran) r.toSet s.toSet := by
    refine List.pairwise_append.mpr ⟨?_,?_,fun r hr s hs => ?_⟩
    · cases lay.initrd <;> simp
    · cases lay.bootconfig <;> simp
    · have hsep : r.Separate s :=
        separate_of_le (hfollow r (Option.mem_toList.mp hr) s (Option.mem_toList.mp hs))
      have hfill := hwhole s (List.mem_append_right _ hs)
      exact (wholeBlocks_of_dvd gran_pos hfill.start hfill.stop).apart hsep
  rw [payloadRanges]
  refine List.pairwise_cons.mpr ⟨fun s hs => ?_,List.pairwise_append.mpr ⟨hinitrd,?_,?_⟩⟩
  · rcases List.mem_append.mp hs with hs | hs
    · exact hinitrdLinux.symm.mono (Set.Subset.refl _) (harea s hs)
    · exact hrelocsLinux.symm.mono (Set.Subset.refl _) (htable s hs)
  · cases lay.relocs <;> simp
  · intro r hr s hs
    exact hrelocsInitrd.symm.mono (harea r hr) (htable s hs)

/-- A payload is part of what the plan keeps apart from everything else. -/
theorem payload_subset {r : Range} (hr : r∈payloadRanges lay) :
    ∃ s∈payloads lay, r.toSet⊆s := by
  rcases List.mem_cons.mp hr with rfl | hr
  · exact ⟨_,by simp [payloads],Set.Subset.refl _⟩
  · rcases List.mem_append.mp hr with hr | hr
    · refine ⟨initrdArea lay,by simp [payloads],fun x hx => ?_⟩
      rcases List.mem_append.mp hr with hr | hr
      · exact .inl ⟨r,Option.mem_toList.mp hr,hx⟩
      · exact .inr ⟨r,Option.mem_toList.mp hr,hx⟩
    · exact ⟨optSet lay.relocs,by simp [payloads],fun x hx => ⟨r,Option.mem_toList.mp hr,hx⟩⟩

/-- A planned BAR window is the one of the configuration, and its units end at a word. -/
theorem plan_window (h : p.plan=.ok lay) {w : Range} (hw : w∈lay.pciWindow) :
    0<p.args.pciSlots ∧ w=window p.args ∧ w.stop+(gran-1)<2^64 := by
  obtain ⟨_,_,_,_,_,hrun⟩ := Planner.plan_run h
  obtain ⟨-,hnone,-⟩ | ⟨hslots,-,hsome,rounded,hrounded,-⟩ := placeWindow_run hrun.window
  · rw [hnone] at hw
    exact absurd hw (Option.not_mem_none w)
  · rw [hsome] at hw
    cases hw
    obtain ⟨stop,hstop,-⟩ := bind_ok.mp hrounded
    obtain ⟨rfl,hlt⟩ := addWord_some.mp (unwrap_ok.mp hstop)
    exact ⟨hslots,rfl,hlt⟩

/-- Every device has one at or below it that starts at a unit. -/
theorem plan_edge (h : p.plan=.ok lay) :
    ∀ r∈carved lay, ∃ s∈carved lay, s.start≤r.start ∧ gran∣s.start := by
  obtain ⟨_,_,_,_,occupied,hrun⟩ := Planner.plan_run h
  obtain ⟨-,hserial,hvirtio,hecam⟩ | ⟨band,-,hlength,hstop,-,hbytes,-,hcarved⟩ :=
    placeBand_run hrun.band
  · intro r hr
    rw [carved,hserial,hvirtio,hecam] at hr
    exact absurd hr List.not_mem_nil
  · have hbase := (band_aligned hlength hstop hbytes).1
    have hconsecutive : Consecutive band.start (carved lay) _ := carveBand_ok hcarved
    intro r hr
    obtain ⟨first,rest,hlist⟩ : ∃ first rest, carved lay=first::rest :=
      List.exists_cons_of_ne_nil (List.ne_nil_of_mem hr)
    have hfirst : first.start=band.start := by
      rw [hlist] at hconsecutive
      exact hconsecutive.1
    refine ⟨first,hlist ▸ List.mem_cons_self,?_,hfirst ▸ hbase⟩
    exact hfirst.trans_le (hconsecutive.ascending.bounds.2 r hr).1

end Planned

end Arma.Planner.Payloads
