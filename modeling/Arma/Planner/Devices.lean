import Mathlib.Tactic.Common
import Arma.Planner.Separation

/-!
# The devices of a layout

A plan hands out the devices that were asked for, no more and no fewer, and each
of them has its fixed size.
-/

namespace Arma.Planner.Devices

open Base.Checked Base.Intervals Model Separation

/-- The devices of a layout are those that were asked for. -/
structure Handed (args : ArgsSpec) (serial : Option Range) (virtio : List Range)
    (ecam : Option Range) : Prop where
  /-- The serial port is there when asked for. -/
  port : serial.isSome=args.serial
  /-- It has a page. -/
  portLength : ∀ r∈serial, r.stop=r.start+serialSize
  /-- There are as many transports as asked for. -/
  slots : virtio.length=args.mmioSlots
  /-- Each has its window. -/
  slotLength : ∀ r∈virtio, r.stop=r.start+virtioSize
  /-- The configuration space is there when there are slots. -/
  space : ecam.isSome=decide (0<args.pciSlots)
  /-- It has its buses. -/
  spaceLength : ∀ r∈ecam, r.stop=r.start+ecamSize

/-- A device is carved when it is present, at its size. -/
theorem carve_handed {present : Bool} {size cur cur' : ℕ} {r : Option Range}
    (h : carve present size cur=.ok (r,cur')) :
    r.isSome=present ∧ ∀ d∈r, d.stop=d.start+size := by
  unfold carve at h
  split at h
  · rename_i hpresent
    have ⟨stop,hstop,h⟩ := bind_ok.mp h
    cases h
    have ⟨hsum,_⟩ := addWord_some.mp (unwrap_ok.mp hstop)
    refine ⟨hpresent.symm,fun d hd => ?_⟩
    cases hd
    exact hsum.symm
  · rename_i habsent
    cases h
    exact ⟨(Bool.eq_false_of_not_eq_true habsent).symm,fun d hd => absurd hd (Option.not_mem_none d)⟩

/-- Transports are carved one for each slot. -/
theorem carveSlots_handed {slots cur : ℕ} {l : List Range} (h : carveSlots slots cur=.ok l) :
    l.length=slots ∧ ∀ d∈l, d.stop=d.start+virtioSize := by
  induction slots generalizing cur l with
  | zero =>
    cases h
    exact ⟨rfl,fun d hd => absurd hd List.not_mem_nil⟩
  | succ slots ih =>
    unfold carveSlots at h
    obtain ⟨stop,hstop,h⟩ := bind_ok.mp h
    obtain ⟨rest,hrest,h⟩ := bind_ok.mp h
    cases h
    obtain ⟨hsum,_⟩ := addWord_some.mp (unwrap_ok.mp hstop)
    obtain ⟨hlen,hsizes⟩ := ih hrest
    refine ⟨congrArg (·+1) hlen,List.forall_mem_cons.mpr ⟨hsum.symm,hsizes⟩⟩

/-- The band hands out what was asked for. -/
theorem placeBand_handed {args : ArgsSpec} {occupied : List Range} {serial ecam : Option Range}
    {virtio : List Range} (h : placeBand args occupied=.ok (serial,virtio,ecam)) :
    Handed args serial virtio ecam := by
  obtain ⟨hbytes,rfl,rfl,rfl⟩ | ⟨band,-,-,-,-,-,-,h⟩ := placeBand_run h
  · unfold deviceBytes at hbytes
    have hspaceLength : ecamSize=0x1000000 := rfl
    have hportLength : serialSize=0x1000 := rfl
    have hslotLength : virtioSize=0x200 := rfl
    have hslots : args.mmioSlots=0 := by
      rw [hslotLength] at hbytes
      omega
    have hpci : ¬0<args.pciSlots := by
      intro hpos
      rw [if_pos hpos,hspaceLength] at hbytes
      omega
    have hport : args.serial=false := by
      refine Bool.eq_false_of_not_eq_true fun htrue => ?_
      rw [if_pos htrue,hportLength] at hbytes
      omega
    refine ⟨hport.symm,fun d hd => absurd hd (Option.not_mem_none d),hslots.symm,
      fun d hd => absurd hd List.not_mem_nil,(decide_eq_false hpci).symm,
      fun d hd => absurd hd (Option.not_mem_none d)⟩
  · unfold carveBand at h
    obtain ⟨⟨ecam',cur⟩,hecam,h⟩ := bind_ok.mp h
    obtain ⟨⟨serial',cur'⟩,hserial,h⟩ := bind_ok.mp h
    obtain ⟨virtio',hvirtio,h⟩ := bind_ok.mp h
    cases h
    obtain ⟨hspace,hspaceLength⟩ := carve_handed hecam
    obtain ⟨hport,hportLength⟩ := carve_handed hserial
    obtain ⟨hslots,hslotLength⟩ := carveSlots_handed hvirtio
    exact ⟨hport,hportLength,hslots,hslotLength,hspace,hspaceLength⟩

/-- A band ends at a power of two that is a word. -/
theorem placeBand_floor {args : ArgsSpec} {occupied : List Range} {serial ecam : Option Range}
    {virtio : List Range} (h : placeBand args occupied=.ok (serial,virtio,ecam)) {band : Range}
    (hband : band∈deviceBand args) : band.stop≤2^63 := by
  obtain ⟨hbytes,-,-,-⟩ | ⟨found,hfound,-,hstop,hbits,-,-,-⟩ := placeBand_run h
  · rw [deviceBand,if_pos hbytes] at hband
    exact absurd hband (Option.not_mem_none band)
  · cases hfound.symm.trans hband
    rw [hstop]
    exact Nat.pow_le_pow_right (Nat.succ_pos 1) (by omega)

/-- A layout hands out what was asked for. -/
theorem plan_handed {p : Planner} {lay : Layout} (h : p.plan=.ok lay) :
    Handed p.args lay.serial lay.virtio lay.ecam := by
  obtain ⟨_,_,_,_,occupied,hrun⟩ := Planner.plan_run h
  exact placeBand_handed hrun.band

/-- The carved devices are nonempty and end at words. -/
theorem plan_carved {p : Planner} {lay : Layout} (h : p.plan=.ok lay) :
    ∀ r∈carved lay, r.start < r.stop ∧ r.stop≤2^63 := by
  have hhanded := plan_handed h
  have hinside := (plan_ok h).inside
  obtain ⟨_,_,_,_,occupied,hrun⟩ := Planner.plan_run h
  intro r hr
  constructor
  · rcases List.mem_append.mp hr with hr | hr
    · rcases List.mem_append.mp hr with hr | hr
      · have hlength := hhanded.spaceLength r (Option.mem_toList.mp hr)
        have hpos : 0<ecamSize := by decide
        omega
      · have hlength := hhanded.portLength r (Option.mem_toList.mp hr)
        have hpos : 0 < serialSize := by decide
        omega
    · have hlength := hhanded.slotLength r hr
      have hpos : 0<virtioSize := by decide
      omega
  · have ⟨band,hmem,_,hstop⟩ := hinside r hr
    exact hstop.trans (placeBand_floor hrun.band hmem)

end Arma.Planner.Devices
