import Mathlib.Tactic.Common
import Arma.Acpi.Layout

/-!
# Filling the slots of a layout

A job fills a slot that may be absent. Jobs whose slots follow one another leave
the concatenation of what they write, whatever the buffer held before.
-/

namespace Arma.Acpi.Jobs

open Base.ByteString Base.Checked Base.Writer Dtb Layout

/-- A slot that may be absent and how it is filled. -/
structure Job where
  /-- The slot. -/
  slot : Option Slot
  /-- Fills the slot's bytes. -/
  emit : Bytes → Outcome DtbError Bytes

/-- Fill the slots in order. -/
def runJobs : List Job → Bytes → Outcome DtbError Bytes
  | [],buf => .ok buf
  | j::rest,buf => do
    let buf ← emitInOpt j.slot j.emit buf
    runJobs rest buf

/-- What is left in a slot that may be absent. -/
def optPart (slot : Option Slot) (part : Slot → Option Bytes) : Option Bytes :=
  match slot with
  | none => some []
  | some s => part s

/-- The job leaves the string in its slot, or fails when there is none. -/
structure Job.Writes (j : Job) (r : Option Bytes) : Prop where
  /-- Without a slot nothing is left. -/
  absent : j.slot=none → r=some []
  /-- A slot is left with the string. -/
  emit : ∀ s, j.slot=some s → ∀ slot slot', slot.length=s.len →
    (j.emit slot=.ok slot' ↔ r=some slot')
  /-- The string fills the slot. -/
  size : ∀ s, j.slot=some s → ∀ out, r=some out → out.length=s.len

/-- A job with a slot of its own. -/
theorem writes_slot {s : Slot} {emit : Bytes → Outcome DtbError Bytes} {r : Option Bytes}
    (hemit : ∀ slot slot', slot.length=s.len → (emit slot=.ok slot' ↔ r=some slot'))
    (hsize : ∀ out, r=some out → out.length=s.len) : Job.Writes ⟨some s,emit⟩ r := by
  refine ⟨fun h => ?_,fun t ht => ?_,fun t ht => ?_⟩
  · cases h
  · cases ht
    exact hemit
  · cases ht
    exact hsize

/-- A job with a slot that may be absent. -/
theorem writes_optPart {slot : Option Slot} {emit : Bytes → Outcome DtbError Bytes}
    {part : Slot → Option Bytes} (hemit : ∀ s, slot=some s → ∀ bytes bytes',
      bytes.length=s.len → (emit bytes=.ok bytes' ↔ part s=some bytes'))
    (hsize : ∀ s, slot=some s → ∀ out, part s=some out → out.length=s.len) :
    Job.Writes ⟨slot,emit⟩ (optPart slot part) := by
  cases hslot : slot with
  | none =>
    refine ⟨fun _ => rfl,fun s hs => ?_,fun s hs => ?_⟩
    · cases hs
    · cases hs
  | some s => exact writes_slot (hemit s hslot) (hsize s hslot)

/-- Jobs in sequence succeed exactly when all strings are there, and then leave
their concatenation. -/
theorem runJobs_ok {jobs : List Job} {parts : List (Option Bytes)}
    (hjobs : List.Forall₂ Job.Writes jobs parts) {written buf buf' : Bytes} {stop : ℕ}
    (htiles : Tiles written.length (jobs.map Job.slot).reduceOption stop)
    (hroom : stop≤buf.length) :
    runJobs jobs (overwrite 0 written buf)=.ok buf' ↔
      ∃ out, catAll parts=some out ∧ buf'=overwrite 0 (written++out) buf := by
  induction hjobs generalizing written with
  | nil =>
    constructor
    · intro h
      cases h
      exact ⟨[],rfl,by rw [List.append_nil]⟩
    · rintro ⟨out,hout,rfl⟩
      cases hout
      rw [List.append_nil]
      rfl
  | @cons j r jobs parts hj hrest ih =>
    have hfirst : ∀ buf1, emitInOpt j.slot j.emit (overwrite 0 written buf)=.ok buf1 ↔
        ∃ out, r=some out ∧ buf1=overwrite 0 (written++out) buf := by
      intro buf1
      cases hslot : j.slot with
      | none =>
        rw [hj.absent hslot]
        constructor
        · intro h
          cases h
          exact ⟨[],rfl,by rw [List.append_nil]⟩
        · rintro ⟨out,hout,rfl⟩
          cases hout
          rw [List.append_nil]
          rfl
      | some s =>
        rw [List.map_cons,hslot,List.reduceOption_cons_of_some] at htiles
        have hstop := Tiles.stop_eq htiles.2
        have hpos := htiles.1
        exact emitIn_ok (hj.emit s hslot) (hj.size s hslot) hpos.symm (by omega)
    have hnext : ∀ out, r=some out →
        Tiles (written++out).length (jobs.map Job.slot).reduceOption stop := by
      intro out hout
      rw [List.length_append]
      cases hslot : j.slot with
      | none =>
        rw [hj.absent hslot] at hout
        rw [List.map_cons,hslot,List.reduceOption_cons_of_none] at htiles
        cases hout
        exact htiles
      | some s =>
        rw [List.map_cons,hslot,List.reduceOption_cons_of_some] at htiles
        rw [hj.size s hslot out hout]
        exact htiles.2
    change (emitInOpt j.slot j.emit (overwrite 0 written buf) >>= runJobs jobs)=_ ↔ _
    rw [bind_ok]
    constructor
    · rintro ⟨buf1,hbuf1,h⟩
      obtain ⟨a,ha,rfl⟩ := (hfirst buf1).mp hbuf1
      obtain ⟨b,hb,rfl⟩ := (ih (hnext a ha)).mp h
      exact ⟨a++b,cat_eq_some.mpr ⟨a,ha,b,hb,rfl⟩,by rw [List.append_assoc]⟩
    · rintro ⟨out,hout,rfl⟩
      obtain ⟨a,ha,b,hb,rfl⟩ := cat_eq_some.mp hout
      refine ⟨_,(hfirst _).mpr ⟨a,ha,rfl⟩,(ih (hnext a ha)).mpr ⟨b,hb,?_⟩⟩
      rw [List.append_assoc]

/-- What is in a slot after all jobs is what its job left there. -/
theorem slice_catAll {jobs : List Job} {parts : List (Option Bytes)}
    (hjobs : List.Forall₂ Job.Writes jobs parts) {before out : Bytes} {stop : ℕ}
    (htiles : Tiles before.length (jobs.map Job.slot).reduceOption stop)
    (hout : catAll parts=some out) :
    before.length+out.length=stop ∧
      List.Forall₂ (fun j r => ∀ s, Job.slot j=some s →
        r=some (slice s.offset s.len (before++out))) jobs parts := by
  induction hjobs generalizing before out with
  | nil =>
    cases hout
    exact ⟨htiles,List.Forall₂.nil⟩
  | @cons j r jobs parts hj hrest ih =>
    obtain ⟨a,ha,b,hb,rfl⟩ := cat_eq_some.mp hout
    have hnext : Tiles (before++a).length (jobs.map Job.slot).reduceOption stop ∧
        ∀ s, j.slot=some s → s.offset=before.length ∧ a.length=s.len := by
      rw [List.length_append]
      cases hslot : j.slot with
      | none =>
        rw [hj.absent hslot] at ha
        rw [List.map_cons,hslot,List.reduceOption_cons_of_none] at htiles
        cases ha
        refine ⟨htiles,fun s hs => ?_⟩
        cases hs
      | some s =>
        rw [List.map_cons,hslot,List.reduceOption_cons_of_some] at htiles
        have hlen := hj.size s hslot a ha
        refine ⟨?_,fun t ht => ?_⟩
        · rw [hlen]
          exact htiles.2
        · cases ht
          exact ⟨htiles.1,hlen⟩
    obtain ⟨hstop,hall⟩ := ih hnext.1 hb
    rw [List.append_assoc] at hall
    refine ⟨?_,List.Forall₂.cons (fun s hs => ?_) hall⟩
    · rw [List.length_append] at hstop
      rw [List.length_append]
      omega
    · obtain ⟨hoffset,hlen⟩ := hnext.2 s hs
      rw [ha,←List.append_assoc,slice_append hoffset.symm hlen]

end Arma.Acpi.Jobs
