import Mathlib.Algebra.Order.BigOperators.Group.List
import Mathlib.Tactic.Common
import Arma.Acpi.Aml

/-!
# Devices numbered in tree order

The devices of one kind are numbered in the order of the root's children. Their
sizes are added up in one pass over the children and their strings are written
in another; both passes select the same nodes.
-/

namespace Arma.Acpi.Numbered

open Base.ByteString Base.Checked Base.Writer Devtree Dtb Aml

variable [DevtreeLib]

/-- The nodes compatible with `want`. -/
def selected (want : String) (kids : List DtbNode) : List DtbNode :=
  kids.filter fun c => c.lists want

/-- A compatible node is selected. -/
theorem selected_cons {want : String} {child : DtbNode} {rest : List DtbNode}
    (h : child.lists want=true) : selected want (child::rest)=child::selected want rest :=
  List.filter_cons_of_pos (p := fun c : DtbNode => c.lists want) h

/-- Another node is not. -/
theorem selected_skip {want : String} {child : DtbNode} {rest : List DtbNode}
    (h : child.lists want=false) : selected want (child::rest)=selected want rest :=
  List.filter_cons_of_neg (p := fun c : DtbNode => c.lists want) (by rw [h]; decide)

/-- Add up what the nodes compatible with `want` contribute, in a `w`-bit word. -/
def sumOver (w : ℕ) (want : String) (size : DtbNode → Outcome DtbError ℕ) :
    List DtbNode → ℕ → Outcome DtbError ℕ
  | [],total => .ok total
  | child::rest,total => do
    let found ← child.hasCompatible want
    if found then do
      let n ← size child
      let total ← okOr (addWord w total n) .internal
      sumOver w want size rest total
    else sumOver w want size rest total

/-- Write the devices of the nodes compatible with `want`, numbered from
`index` on; the number is a byte. -/
def emitOver (want : String) (write : DtbNode → ℕ → Emitter) :
    List DtbNode → ℕ → Emitter
  | [],_,c => .ok c
  | child::rest,index,c => do
    let found ← child.hasCompatible want
    if found then do
      let c ← write child index c
      let index ← okOr (addWord 8 index 1) .internal
      emitOver want write rest index c
    else emitOver want write rest index c

/-- The strings of the nodes compatible with `want`, at most 255 of them. -/
def devices (want : String) (device : DtbNode → ℕ → Option Bytes) (kids : List DtbNode) :
    Option Bytes :=
  if (selected want kids).length≤255 then
    catAll ((selected want kids).zipIdx.map fun p => device p.1 p.2)
  else none

/-- What is added up when the sum is formed: all nodes are well formed and the
total is the sum of all contributions. -/
theorem sumOver_ok {w : ℕ} {want : String} {size : DtbNode → Outcome DtbError ℕ}
    {kids : List DtbNode} {total result : ℕ} (h : sumOver w want size kids total=.ok result) :
    (∀ c∈kids, c.Listed) ∧ (∀ c∈selected want kids, ∃ n, size c=.ok n) ∧
      result=total+((selected want kids).map fun c => (value (size c)).getD 0).sum := by
  induction kids generalizing total with
  | nil =>
    cases h
    exact ⟨fun c hc => absurd hc List.not_mem_nil,fun c hc => absurd hc List.not_mem_nil,rfl⟩
  | cons child rest ih =>
    obtain ⟨found,hfound,h⟩ := bind_ok.mp h
    obtain ⟨hlisted,hlists⟩ := hasCompatible_ok.mp hfound
    cases hb : found with
    | true =>
      rw [hb] at h hlists
      obtain ⟨n,hn,h⟩ := bind_ok.mp h
      obtain ⟨sum,hsum,h⟩ := bind_ok.mp h
      obtain ⟨hrest,hsizes,hresult⟩ := ih h
      rw [okOr_ok,addWord_some] at hsum
      rw [selected_cons hlists,List.map_cons,List.sum_cons,hn,value_ok,Option.getD_some]
      refine ⟨List.forall_mem_cons.mpr ⟨hlisted,hrest⟩,
        List.forall_mem_cons.mpr ⟨⟨n,hn⟩,hsizes⟩,?_⟩
      omega
    | false =>
      rw [hb] at h hlists
      obtain ⟨hrest,hsizes,hresult⟩ := ih h
      rw [selected_skip hlists]
      exact ⟨List.forall_mem_cons.mpr ⟨hlisted,hrest⟩,hsizes,hresult⟩

/-- The sum of equal contributions. -/
theorem sumOver_const {w n : ℕ} {want : String} {kids : List DtbNode} {result : ℕ}
    (h : sumOver w want (fun _ => .ok n) kids 0=.ok result) :
    (∀ c∈kids, c.Listed) ∧ result=(selected want kids).length*n := by
  obtain ⟨hlisted,_,hresult⟩ := sumOver_ok h
  refine ⟨hlisted,?_⟩
  rw [hresult]
  simp only [value_ok,Option.getD_some,List.map_const',List.sum_replicate,Nat.zero_add]
  rfl

/-- On well-formed nodes the devices are written, as long as they can be
numbered. -/
theorem emits_emitOver {want : String} {write : DtbNode → ℕ → Emitter}
    {device : DtbNode → ℕ → Option Bytes} (hwrite : ∀ c i, Emits (write c i) (device c i))
    {kids : List DtbNode} (hlisted : ∀ c∈kids, c.Listed) {index : ℕ} (hindex : index≤255) :
    Emits (emitOver want write kids index)
      (if index+(selected want kids).length≤255 then
        catAll (((selected want kids).zipIdx index).map fun p => device p.1 p.2) else none) := by
  induction kids generalizing index with
  | nil =>
    rw [if_pos (by exact hindex)]
    exact emits_nil
  | cons child rest ih =>
    obtain ⟨hchild,hrest⟩ := List.forall_mem_cons.mp hlisted
    have hcompat := hchild.hasCompatible want
    cases hb : child.lists want with
    | true =>
      rw [hb] at hcompat
      have hunfold : emitOver want write (child::rest) index=fun c =>
          write child index c >>= fun c => okOr (addWord 8 index 1) .internal >>= fun i =>
            emitOver want write rest i c := by
        funext c
        rw [emitOver,hcompat]
        rfl
      have hstep := (hwrite child index).seq (Emits.after
        (x := okOr (addWord 8 index 1) DtbError.internal)
        (f := fun i c => emitOver want write rest i c)
        (r := fun i => if i+(selected want rest).length≤255 then
          catAll (((selected want rest).zipIdx i).map fun p => device p.1 p.2) else none)
        (fun i hi => ih hrest (by
          rw [okOr_ok,addWord_some] at hi
          omega)))
      have hstring : cat (device child index) ((addWord 8 index 1).bind fun i =>
          if i+(selected want rest).length≤255 then
            catAll (((selected want rest).zipIdx i).map fun p => device p.1 p.2) else none)=
          if index+(selected want (child::rest)).length≤255 then
            catAll (((selected want (child::rest)).zipIdx index).map fun p => device p.1 p.2)
          else none := by
        rw [selected_cons hb,List.length_cons,List.zipIdx_cons,List.map_cons,catAll]
        by_cases hall : index+((selected want rest).length+1)≤255
        · rw [if_pos hall,show addWord 8 index 1=some (index+1) from if_pos (by omega),
            Option.bind_some,if_pos (by omega)]
        · rw [if_neg hall]
          by_cases hroom : index+1<2^8
          · rw [show addWord 8 index 1=some (index+1) from if_pos hroom,Option.bind_some,
              if_neg (by omega),cat_none]
          · rw [show addWord 8 index 1=none from if_neg hroom,Option.bind_none,cat_none]
      rw [value_okOr,hstring] at hstep
      rw [hunfold]
      exact hstep
    | false =>
      rw [hb] at hcompat
      have hunfold : emitOver want write (child::rest) index=emitOver want write rest index := by
        funext c
        rw [emitOver,hcompat]
        rfl
      rw [hunfold,selected_skip hb]
      exact ih hrest hindex

/-- On well-formed nodes the devices are written in order. -/
theorem emits_devices {want : String} {write : DtbNode → ℕ → Emitter}
    {device : DtbNode → ℕ → Option Bytes} (hwrite : ∀ c i, Emits (write c i) (device c i))
    {kids : List DtbNode} (hlisted : ∀ c∈kids, c.Listed) :
    Emits (emitOver want write kids 0) (devices want device kids) := by
  have h := @emits_emitOver _ want write device hwrite kids hlisted 0 (Nat.zero_le 255)
  rw [Nat.zero_add] at h
  exact h

/-- Bytes of all devices. -/
theorem length_devices {want : String} {device : DtbNode → ℕ → Option Bytes}
    {kids : List DtbNode} (size : DtbNode → ℕ)
    (hsize : ∀ c∈selected want kids, ∀ i out, device c i=some out → out.length=size c)
    {out : Bytes} (h : devices want device kids=some out) :
    out.length=((selected want kids).map size).sum := by
  unfold devices at h
  split at h
  · have hlen := length_catAll (fun p : DtbNode×ℕ => size p.1)
      (fun p hp out hout => hsize p.1 ((List.fst_mem_of_mem_zipIdx hp)) p.2 out hout) h
    rw [hlen]
    have hmap : ((selected want kids).zipIdx.map fun p : DtbNode×ℕ => size p.1)=
        ((selected want kids).zipIdx.map Prod.fst).map size := by
      rw [List.map_map]
      rfl
    rw [hmap,List.zipIdx_map_fst]
  · cases h

/-- Whether all devices can be written, when that does not depend on the
number. -/
theorem isSome_devices {want : String} {device : DtbNode → ℕ → Option Bytes}
    {kids : List DtbNode} {ready : DtbNode → Prop}
    (hready : ∀ c∈selected want kids, ∀ i, (device c i).isSome=true ↔ ready c) :
    (devices want device kids).isSome=true ↔
      (selected want kids).length≤255 ∧ ∀ c∈selected want kids, ready c := by
  unfold devices
  split
  · rename_i hlen
    rw [isSome_catAll]
    constructor
    · intro h
      refine ⟨hlen,fun c hc => ?_⟩
      obtain ⟨i,hi⟩ := List.mem_iff_getElem?.mp hc
      have hmem : (c,i)∈(selected want kids).zipIdx := List.mk_mem_zipIdx_iff_getElem?.mpr hi
      exact (hready c hc i).mp (h _ (List.mem_map_of_mem hmem))
    · rintro ⟨_,h⟩ r hr
      obtain ⟨p,hp,rfl⟩ := List.mem_map.mp hr
      have hmem := (List.fst_mem_of_mem_zipIdx hp)
      exact (hready p.1 hmem p.2).mpr (h p.1 hmem)
  · rename_i hlen
    simp only [Option.isSome_none,Bool.false_eq_true,false_iff]
    exact fun h => hlen h.1

end Arma.Acpi.Numbered
