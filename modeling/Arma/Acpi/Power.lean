import Mathlib.Tactic.Common
import Arma.Acpi.Objects
import Arma.Acpi.Templates

/-!
# Power-off and reset

The registers of the fixed description table are those of the first node for power-off and
the first node for reset. What powers off is not written in that table: an operating system
takes a sleep type of three bits from the namespace and puts the enable bit next to it. The
byte that comes out is the node's `value` only for values of that shape.
-/

namespace Arma.Acpi.Power

open Base.ByteString Base.Bytecode Base.Checked Base.Writer Devtree Dtb Numbered Layout Sdt Fixed
  Count Counted Populate Image Filled Objects Templates

/-- Read the address of a register. -/
def readGas (bs : Bytes) : GenericAddress :=
  ⟨ofLE (slice 0 1 bs),ofLE (slice 1 1 bs),ofLE (slice 2 1 bs),ofLE (slice 3 1 bs),
    ofLE (slice 4 8 bs)⟩

/-- The register that starts a sleep, in a fixed description table. -/
def sleepControlReg (t : Bytes) : GenericAddress := readGas (slice 244 12 t)

/-- The register that tells of a wakeup. -/
def sleepStatusReg (t : Bytes) : GenericAddress := readGas (slice 256 12 t)

/-- The register that resets. -/
def resetReg (t : Bytes) : GenericAddress := readGas (slice 116 12 t)

/-- What to write to it. -/
def resetValue (t : Bytes) : ℕ := ofLE (slice 128 1 t)

/-- `RESET_REG_SUP`: there is a register that resets. -/
def resetRegSup (t : Bytes) : Bool := (ofLE (slice 112 4 t)).testBit 10

/-- The sleep type that a term gives to power-off. -/
def sleepType : Object → Option ℕ
  | .name path (.package (.integer typ::_)) =>
    if path=⟨true,ascii "_S5_"⟩ then some typ else none
  | _ => none

/-- The byte that an operating system writes to the sleep control register to power off,
when it takes the sleep type from a description of the system. -/
def powerOffByte (t : Bytes) : Option ℕ :=
  (readObjects t).bind fun objects => (objects.findSome? sleepType).map fun typ =>
    typ <<< 2 ||| 0x20

/-- A register address is read back. -/
theorem readGas_systemMemoryByte {address : ℕ} (h : address<2^64) :
    readGas (systemMemoryByte address).asBytes=systemMemoryByte address := by
  have hfield : slice 4 8 (systemMemoryByte address).asBytes=leBytes 8 address := by
    rw [GenericAddress.asBytes,←List.append_nil (_++_)]
    exact slice_append rfl (length_leBytes 8 _)
  rw [readGas,hfield,ofLE_word_eq (by rw [show 256^8=2^64 by decide]; exact h)]
  rfl

/-- The three bits that are kept, next to the enable bit, are the byte itself only when it
has the enable bit and nothing else outside of them. -/
theorem sleepByte_iff {v : ℕ} (hv : v<256) :
    (v/4%8) <<< 2 ||| 0x20=v ↔ v%4=0 ∧ 32≤v ∧ v<64 := by
  have hor : ∀ typ<8, typ <<< 2 ||| 0x20=typ*4+32 := by decide
  rw [hor _ (Nat.mod_lt _ (by decide))]
  omega

/-- The byte that powers off with the power-off object of a value in front. -/
theorem powerOffByte_eq {t : Bytes} {sleepValue : ℕ} {rest : List Object}
    (h : readObjects t=some (s5Object sleepValue::rest)) :
    powerOffByte t=some ((sleepValue/4%8) <<< 2 ||| 0x20) := by
  rw [powerOffByte,h,Option.bind_some,List.findSome?_cons]
  rfl

/-- The registers of the fixed description table and what is around them: the part before the
flags, the one between the value for a reset and the sleep registers, and the end. -/
theorem fadtBytes_parts (oem : OemIdentity) (dsdtGpa : ℕ) (plan : FadtPlan) :
    ∃ head middle,
      head.length=112 ∧ middle.length=115 ∧
      fadtBytes oem dsdtGpa plan=[head,leBytes 4 (fadtFlags plan),
        (plan.resetReg.getD gasZero).asBytes,[UInt8.ofNat plan.resetValue],middle,
        plan.sleepControlReg.asBytes,plan.sleepStatusReg.asBytes,leBytes 8 0].flatten := by
  refine ⟨(fadtHeader oem).asBytes++(leBytes 4 0++(leBytes 4 ((narrow 32 dsdtGpa).getD 0)++
    (zeros 12++(zeros 32++(zeros 8++(zeros 8++(zeros 5++(leBytes 2 0x24++[0])))))))),
    leBytes 2 0++([5]++(leBytes 8 0++(leBytes 8 dsdtGpa++
      (List.replicate 8 gasZero.asBytes).flatten))),?_,?_,?_⟩
  · simp only [List.length_append,SdtHeader.length_asBytes,length_leBytes,length_zeros,
      List.length_cons,List.length_nil]
    rfl
  · simp only [List.length_append,length_leBytes,List.length_cons,List.length_nil]
    rfl
  · simp only [fadtBytes,fadtFront,fadtBack,List.flatten_cons,List.flatten_nil,List.append_assoc,
      List.append_nil]

/-- A part of the table behind the checksum. -/
theorem slice_fadt {oem : OemIdentity} {dsdtGpa o n : ℕ} {plan : FadtPlan} (front : List Bytes)
    {part : Bytes} {back : List Bytes}
    (hbytes : fadtBytes oem dsdtGpa plan=(front++part::back).flatten)
    (hfront : front.flatten.length=o) (hpart : part.length=n) (hsum : 9<o) :
    slice o n (fadt oem dsdtGpa plan)=part := by
  rw [fadt,slice_sealed (.inl hsum),hbytes,List.flatten_append,List.flatten_cons,←List.append_assoc]
  exact slice_append hfront hpart

/-- The registers of the plan are in the table. -/
theorem fadt_registers (oem : OemIdentity) (dsdtGpa : ℕ) (plan : FadtPlan) :
    slice 244 12 (fadt oem dsdtGpa plan)=plan.sleepControlReg.asBytes ∧
      slice 256 12 (fadt oem dsdtGpa plan)=plan.sleepStatusReg.asBytes ∧
      slice 116 12 (fadt oem dsdtGpa plan)=(plan.resetReg.getD gasZero).asBytes ∧
      slice 128 1 (fadt oem dsdtGpa plan)=[UInt8.ofNat plan.resetValue] ∧
      slice 112 4 (fadt oem dsdtGpa plan)=leBytes 4 (fadtFlags plan) := by
  obtain ⟨head,middle,hhead,hmiddle,hbytes⟩ := fadtBytes_parts oem dsdtGpa plan
  have hflags := length_leBytes 4 (fadtFlags plan)
  have hgas := GenericAddress.length_asBytes
  refine ⟨slice_fadt [head,_,_,_,middle] hbytes ?_ (hgas _) (by decide),
    slice_fadt [head,_,_,_,middle,_] hbytes ?_ (hgas _) (by decide),
    slice_fadt [head,_] hbytes ?_ (hgas _) (by decide),
    slice_fadt [head,_,_] hbytes ?_ rfl (by decide),
    slice_fadt [head] hbytes ?_ hflags (by decide)⟩
  all_goals simp only [List.flatten_cons,List.flatten_nil,List.length_append,hhead,hflags,hgas,
    hmiddle,List.length_cons,List.length_nil]

/-- `RESET_REG_SUP` is set exactly when the plan has a register that resets. -/
theorem fadtFlags_testBit (plan : FadtPlan) :
    (fadtFlags plan).testBit 10=plan.resetReg.isSome := by
  unfold fadtFlags
  cases plan.resetReg.isSome <;> decide

section Nodes

variable [DevtreeLib]

/-- A claim leaves the first compatible node, which is the claimed one if there is one. -/
theorem claim_or {claimed claimed' : Option DtbNode} {child : DtbNode} {want : String}
    (h : claim claimed child want=.ok claimed') (rest : List DtbNode) :
    claimed.or (selected want (child::rest)).head?=claimed'.or (selected want rest).head? := by
  unfold claim at h
  cases claimed with
  | some n =>
    cases h
    rfl
  | none =>
    obtain ⟨found,hfound,h⟩ := bind_ok.mp h
    obtain ⟨-,hlists⟩ := hasCompatible_ok.mp hfound
    cases h
    cases found with
    | true =>
      rw [selected_cons hlists]
      rfl
    | false =>
      rw [selected_skip hlists]
      rfl

/-- One search for both nodes ends with what two searches would find, though it stops when
it has both. -/
theorem findSyscons_eq {l : List DtbNode} {poweroff reboot : Option DtbNode}
    {nodes : Option DtbNode×Option DtbNode} (h : findSyscons l poweroff reboot=.ok nodes) :
    nodes.1=poweroff.or (selected "syscon-poweroff" l).head? ∧
      nodes.2=reboot.or (selected "syscon-reboot" l).head? := by
  induction l generalizing poweroff reboot with
  | nil =>
    cases h
    exact ⟨(Option.or_none ..).symm,(Option.or_none ..).symm⟩
  | cons child rest ih =>
    obtain ⟨poweroff',hpoweroff,h⟩ := bind_ok.mp h
    obtain ⟨reboot',hreboot,h⟩ := bind_ok.mp h
    rw [claim_or hpoweroff,claim_or hreboot]
    split at h
    · rename_i hboth
      cases h
      obtain ⟨n,rfl⟩ := Option.isSome_iff_exists.mp hboth.1
      obtain ⟨m,rfl⟩ := Option.isSome_iff_exists.mp hboth.2
      exact ⟨rfl,rfl⟩
    · exact ih h

/-- The number in a node's `value`. -/
def valueOf (n : DtbNode) : Option ℕ :=
  ((n.node.property "value").bind DevtreeLib.asU32).map UInt32.toNat

/-- What a node for power-off or reset says: the first address of its `reg`, and its
`value`, which is zero where it may be absent. -/
structure Resolved (n : DtbNode) (site : Site) (addr v : ℕ) : Prop where
  /-- The address is that of the first pair of the `reg`. -/
  reg : ∃ size, firstReg n site=some (addr,size)
  /-- It is a word. -/
  word : addr<2^64
  /-- The value is that of the node. -/
  value : (valueOf n).getD 0=v
  /-- It is a byte. -/
  byte : v<256

/-- What is resolved is what the node says; a value that is required is there. -/
theorem resolveSyscon_ok {n : DtbNode} {site : Site} {required : Bool} {av : ℕ×ℕ}
    (h : resolveSyscon n site required=.ok av) :
    Resolved n site av.1 av.2 ∧ (required=true → valueOf n=some av.2) := by
  obtain ⟨regs,hregs,h⟩ := bind_ok.mp h
  obtain ⟨first,hfirst,h⟩ := bind_ok.mp h
  have hbyte : ∀ v, (okOr (narrow 8 v) (DtbError.valueOutOfRange site "value") >>=
      fun b => Except.ok (first.1,b))=.ok av → av=(first.1,v) ∧ v<256 := by
    intro v h
    obtain ⟨b,hb,h⟩ := bind_ok.mp h
    obtain ⟨rfl,hlt⟩ := narrow_eq_some.mp (okOr_ok.mp hb)
    cases h
    exact ⟨rfl,hlt⟩
  have hvalue : ∃ v, av=(first.1,v) ∧ v<256 ∧ (valueOf n).getD 0=v ∧
      (required=true → valueOf n=some v) := by
    unfold valueOf
    dsimp only at h
    split at h
    · rename_i p hprop
      obtain ⟨v,hv,h⟩ := bind_ok.mp h
      obtain ⟨hav,hlt⟩ := hbyte v h
      rw [hprop,Option.bind_some,okOr_ok.mp hv]
      exact ⟨v,hav,hlt,rfl,fun _ => rfl⟩
    · rename_i hprop
      rw [hprop]
      split at h
      · obtain ⟨v,hv,-⟩ := bind_ok.mp h
        exact absurd hv fail_ne_ok
      · rename_i hrequired
        obtain ⟨hav,hlt⟩ := hbyte 0 h
        exact ⟨0,hav,hlt,rfl,fun h => absurd h hrequired⟩
  obtain ⟨v,rfl,hlt,hvalue,hsome⟩ := hvalue
  have hhead := okOr_ok.mp hfirst
  have hword := (reg_lt hregs first (List.mem_of_mem_head? hhead)).1
  exact ⟨⟨⟨first.2,firstReg_some.mpr ⟨regs,hregs,hhead⟩⟩,hword,hvalue,hlt⟩,hsome⟩

/-- The first of the root's children that is compatible with `want`. -/
def firstCompatible (root : Node) (want : String) : Option DtbNode :=
  (selected want ((value (rootOf root).children).getD [])).head?

/-- The `value` of the first node for power-off, zero when it has none. -/
def powerOffValue (root : Node) : ℕ :=
  ((firstCompatible root "syscon-poweroff").bind valueOf).getD 0

/-- What the plan of a tree has from the first node for power-off and the first for reset. -/
structure Planned (root : Node) (plan : FadtPlan) : Prop where
  /-- Sleep is what the first node for power-off says. -/
  sleep : ∃ n addr, firstCompatible root "syscon-poweroff"=some n ∧
    Resolved n .sysconPoweroff addr plan.sleepValue ∧
    plan.sleepControlReg=systemMemoryByte addr ∧ plan.sleepStatusReg=systemMemoryByte addr
  /-- Reset is what the first node for reset says. -/
  reset : ∀ n, firstCompatible root "syscon-reboot"=some n → ∃ addr,
    Resolved n .sysconReboot addr plan.resetValue ∧ valueOf n=some plan.resetValue ∧
    plan.resetReg=some (systemMemoryByte addr)
  /-- There is no reset without such a node. -/
  noReset : firstCompatible root "syscon-reboot"=none → plan.resetReg=none

/-- The plan that is extracted has its registers from the first nodes. -/
theorem extractFadt_planned {root : Node} {plan : FadtPlan}
    (h : extractFadt (rootOf root)=.ok plan) : Planned root plan := by
  obtain ⟨kids,hkids,h⟩ := bind_ok.mp h
  obtain ⟨nodes,hnodes,h⟩ := bind_ok.mp h
  obtain ⟨poweroff,hpoweroff,h⟩ := bind_ok.mp h
  obtain ⟨sleep,hsleep,h⟩ := bind_ok.mp h
  obtain ⟨reset,hreset,h⟩ := bind_ok.mp h
  cases h
  have hfirst : ∀ want, firstCompatible root want=(selected want kids).head? := by
    intro want
    rw [firstCompatible,hkids,value_ok,Option.getD_some]
  obtain ⟨hoff,hboot⟩ := findSyscons_eq hnodes
  rw [Option.none_or,←hfirst] at hoff hboot
  constructor
  case sleep =>
    obtain ⟨hresolved,-⟩ := resolveSyscon_ok hsleep
    exact ⟨poweroff,sleep.1,hoff.symm.trans (okOr_ok.mp hpoweroff),hresolved,rfl,rfl⟩
  case reset =>
    intro n hn
    rw [hboot,hn] at hreset
    obtain ⟨av,hav,hreset⟩ := bind_ok.mp hreset
    obtain ⟨hresolved,hsome⟩ := resolveSyscon_ok hav
    cases hreset
    exact ⟨av.1,hresolved,hsome rfl,rfl⟩
  case noReset =>
    intro hnone
    rw [hboot,hnone] at hreset
    cases hreset
    rfl

/-- The registers of a fixed description table are those of the first nodes for power-off and
for reset, and a reset is announced exactly when there is a node for it. -/
structure Registers (root : Node) (t : Bytes) : Prop where
  /-- Sleep is controlled and told of at the first address of the node for power-off. -/
  sleep : ∃ n addr size, firstCompatible root "syscon-poweroff"=some n ∧
    firstReg n .sysconPoweroff=some (addr,size) ∧
    sleepControlReg t=systemMemoryByte addr ∧ sleepStatusReg t=systemMemoryByte addr
  /-- Reset is the `value` of the node for reset at its first address. -/
  reset : ∀ n, firstCompatible root "syscon-reboot"=some n → ∃ addr size,
    firstReg n .sysconReboot=some (addr,size) ∧
    resetReg t=systemMemoryByte addr ∧ valueOf n=some (resetValue t)
  /-- A reset is announced exactly when there is such a node. -/
  announced : resetRegSup t=(firstCompatible root "syscon-reboot").isSome

/-- The table of a plan has these registers. -/
theorem registers_fadt {root : Node} {plan : FadtPlan} (h : Planned root plan)
    (oem : OemIdentity) (dsdtGpa : ℕ) : Registers root (fadt oem dsdtGpa plan) := by
  obtain ⟨hcontrol,hstatus,hreset,hvalue,hflags⟩ := fadt_registers oem dsdtGpa plan
  constructor
  case sleep =>
    obtain ⟨n,addr,hn,hresolved,hplanControl,hplanStatus⟩ := h.sleep
    obtain ⟨size,hreg⟩ := hresolved.reg
    refine ⟨n,addr,size,hn,hreg,?_,?_⟩
    · rw [sleepControlReg,hcontrol,hplanControl,readGas_systemMemoryByte hresolved.word]
    · rw [sleepStatusReg,hstatus,hplanStatus,readGas_systemMemoryByte hresolved.word]
  case reset =>
    intro n hn
    obtain ⟨addr,hresolved,hsome,hplanReset⟩ := h.reset n hn
    obtain ⟨size,hreg⟩ := hresolved.reg
    refine ⟨addr,size,hreg,?_,?_⟩
    · rw [resetReg,hreset,hplanReset,Option.getD_some,readGas_systemMemoryByte hresolved.word]
    · rw [resetValue,hvalue,ofLE_byte (Nat.le_of_lt_succ hresolved.byte),hsome]
  case announced =>
    have hword : fadtFlags plan<256^4 := by
      unfold fadtFlags
      split <;> decide
    rw [resetRegSup,hflags,ofLE_word_eq hword,fadtFlags_testBit]
    cases hreboot : firstCompatible root "syscon-reboot" with
    | none =>
      rw [h.noReset hreboot]
      rfl
    | some n =>
      obtain ⟨addr,-,-,hplanReset⟩ := h.reset n hreboot
      rw [hplanReset]
      rfl

/-- A `value` has the enable bit, and nothing else outside of the three bits of a sleep
type. -/
def IsSleepByte (v : ℕ) : Prop := v%4=0 ∧ 0x20≤v ∧ v<0x40

instance (v : ℕ) : Decidable (IsSleepByte v) :=
  inferInstanceAs (Decidable (v%4=0 ∧ 0x20≤v ∧ v<0x40))

/-- With the description of the system of a plan, an operating system writes the `value` of
the node for power-off exactly when it has that shape. -/
theorem powerOffByte_iff {root : Node} {plan : FadtPlan} (h : Planned root plan) {t : Bytes}
    {rest : List Object} (hobjects : readObjects t=some (s5Object plan.sleepValue::rest)) :
    powerOffByte t=some (powerOffValue root) ↔ IsSleepByte (powerOffValue root) := by
  obtain ⟨n,addr,hn,hresolved,-,-⟩ := h.sleep
  have hvalue : powerOffValue root=plan.sleepValue := by
    rw [powerOffValue,hn]
    exact hresolved.value
  rw [powerOffByte_eq hobjects,hvalue,Option.some.injEq]
  exact sleepByte_iff hresolved.byte

/-- For every tree that is counted: the fixed description table has its registers from the
first node for power-off and the first for reset, and what an operating system writes to power
off is the `value` of the former exactly when that is a sleep type next to the enable bit. -/
theorem power_faithful {root : Node} {l : Layouted} (hrun : run root=.ok l) :
    (∀ oem dsdtGpa slot t, slot.length=l.offsets.fadt.len →
      fadtEmit dsdtGpa l.fadt oem slot=.ok t → Registers root t) ∧
    (∀ oem slot t, slot.length=l.offsets.dsdt.len →
      Dsdt.dsdtEmit oem l.fadt.sleepValue (rootOf root) slot=.ok t →
      (powerOffByte t=some (powerOffValue root) ↔ IsSleepByte (powerOffValue root))) ∧
    ∀ oem baseGpa buf n buf', populate root oem baseGpa buf=.ok (n,buf') →
      ((Registers root (bytesIn l.offsets.fadt (buf'.take n)) ∧
        powerOffByte (bytesIn l.offsets.dsdt (buf'.take n))=some (powerOffValue root)) ↔
          IsSleepByte (powerOffValue root)) := by
  obtain ⟨kids,serial,console,hest⟩ := run_ok hrun
  obtain ⟨walk,numa,c,hran⟩ := run_ran hrun
  have hplanned := extractFadt_planned hran.fadt
  refine ⟨fun oem dsdtGpa slot t hslot ht => ?_,fun oem slot t hslot ht => ?_,
    fun oem baseGpa buf n buf' hfilled => ?_⟩
  · cases (fadtEmit_ok (hslot.trans hest.fadt)).mp ht
    exact registers_fadt hplanned oem dsdtGpa
  · rw [Dsdt.dsdtEmit_ok hest.children hest.counted hest.namespacePort (hslot.trans hest.dsdt),
      hslot] at ht
    obtain ⟨-,-,-,hobjects⟩ := objects_of_dsdt hest ht
    exact powerOffByte_iff hplanned hobjects
  · obtain ⟨k,hk,hfadt⟩ := populate_fadt hfilled
    cases hk.symm.trans hrun
    obtain ⟨k,hk,-,-,-,hobjects⟩ := populate_objects hfilled
    cases hk.symm.trans hrun
    rw [hfadt,powerOffByte_iff hplanned hobjects]
    exact and_iff_right (registers_fadt hplanned oem _)

end Nodes

/-- A tree with nodes for power-off and reset, of which the first has the given `value`. -/
def powerTree (v : ℕ) : Node := sampleTree (sampleKids.take 2++
  [.mk "poweroff@9000" [⟨"compatible",dtString "syscon-poweroff"⟩,⟨"reg",dtReg 0x9000 0x1000⟩,
      ⟨"value",beBytes 4 v⟩] [],
    .mk "reboot@a000" [⟨"compatible",dtString "syscon-reboot"⟩,⟨"reg",dtReg 0xa000 0x1000⟩,
      ⟨"value",beBytes 4 1⟩] []])

/-- The value `0x34` is written to power off. -/
theorem power_faithful_sample : ∃ n buf' l,
    @populate plainLib (powerTree 0x34) sampleOem 0x1000 (List.replicate 600 7)=.ok (n,buf') ∧
    @run plainLib (powerTree 0x34)=.ok l ∧
    @Registers plainLib (powerTree 0x34) (bytesIn (Layouted.offsets l).fadt (buf'.take n)) ∧
    powerOffByte (bytesIn (Layouted.offsets l).dsdt (buf'.take n))=some 0x34 := by
  have hsome : (@populate plainLib (powerTree 0x34) sampleOem 0x1000
      (List.replicate 600 7)).toOption.isSome=true := by decide +kernel
  have hcounted : (@run plainLib (powerTree 0x34)).toOption.isSome=true := by decide +kernel
  have hvalue : @powerOffValue plainLib (powerTree 0x34)=0x34 := by decide +kernel
  obtain ⟨out,hfilled⟩ := exists_ok hsome
  obtain ⟨l,hl⟩ := exists_ok hcounted
  obtain ⟨-,-,hboth⟩ := @power_faithful plainLib _ _ hl
  obtain ⟨hregisters,hbyte⟩ := (hboth _ _ _ _ _ hfilled).mpr (by rw [hvalue]; decide)
  exact ⟨out.1,out.2,l,hfilled,hl,hregisters,hbyte.trans (congrArg some hvalue)⟩

/-- For the value `0x84` an operating system writes `0x24`. -/
theorem powerOffByte_other : ∃ n buf' l,
    @populate plainLib (powerTree 0x84) sampleOem 0x1000 (List.replicate 600 7)=.ok (n,buf') ∧
    @run plainLib (powerTree 0x84)=.ok l ∧ @powerOffValue plainLib (powerTree 0x84)=0x84 ∧
    powerOffByte (bytesIn (Layouted.offsets l).dsdt (buf'.take n))=some 0x24 := by
  have hsome : (@populate plainLib (powerTree 0x84) sampleOem 0x1000
      (List.replicate 600 7)).toOption.isSome=true := by decide +kernel
  have hplan : ((@run plainLib (powerTree 0x84)).toOption.any fun l =>
      decide (l.fadt.sleepValue=0x84))=true := by decide +kernel
  obtain ⟨out,hfilled⟩ := exists_ok hsome
  obtain ⟨l,hl,-,-,-,hobjects⟩ := @populate_objects plainLib _ _ _ _ _ _ hfilled
  obtain ⟨k,hk,hvalue⟩ := exists_ok_of_any hplan
  cases hk.symm.trans hl
  refine ⟨out.1,out.2,l,hfilled,hl,by decide +kernel,?_⟩
  rw [powerOffByte_eq hobjects,of_decide_eq_true hvalue]
  rfl

end Arma.Acpi.Power
