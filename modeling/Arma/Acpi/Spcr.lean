import Mathlib.Tactic.Common
import Arma.Acpi.Sdt
import Arma.Acpi.Serial

/-!
# Console table

The table of the serial port that the standard output path names. The port is
read when the table is written, so it can be written only when the port has a
supported width, an interrupt and a baud rate with a code.
-/

namespace Arma.Acpi.Spcr

open Base.ByteString Base.Checked Base.Writer Devtree Dtb Sdt Serial

/-- Bytes of the console table. -/
def spcrSize : ℕ := 80

/-- The header of the console table. -/
def spcrHeader (oem : OemIdentity) (length : ℕ) : SdtHeader :=
  SdtHeader.new ⟨ascii "SPCR",rfl⟩ length 2 oem

/-- The console table behind its header. -/
def spcrBody (port : SerialPort) (baudRate : ℕ) : Bytes :=
  -- interface_type, reserved0, base_address, interrupt_type, irq, gsi
  [0,0,0,0]++((GenericAddress.mk 0 32 0 port.access port.base).asBytes++([0x08,0]++
    (leBytes 4 port.gsi++
  -- baud_rate, parity, stop_bits, flow_control, terminal_type, language
    ([UInt8.ofNat baudRate,0,1,0,3,0]++
  -- pci_device_id to pci_function, pci_flags, pci_segment, reserved1
    (leBytes 2 0xFFFF++(leBytes 2 0xFFFF++([0,0,0]++(leBytes 4 0++([0]++leBytes 4 0)))))))))

/-- Bytes of the console table behind its header. -/
theorem length_spcrBody (port : SerialPort) (baudRate : ℕ) :
    (spcrBody port baudRate).length=44 := by
  simp only [spcrBody,List.length_append,GenericAddress.length_asBytes,length_leBytes]
  rfl

variable [DevtreeLib]

/-- Write the console table. -/
def spcrEmit (oem : OemIdentity) (root : Node) (slot : Bytes) : Outcome DtbError Bytes := do
  let found ← findStdoutSerial root
  let console ← okOr found .internal
  let port ← decodeSerial console.1
  let baudRate ← decodeBaudRate console.1 console.2
  let length ← sdtLengthFromSlot slot
  let slot ← writeHeader ((spcrHeader oem length).asBytes++spcrBody port baudRate) slot
  setSdtChecksum slot

/-- The console table of a serial port. -/
def spcr (oem : OemIdentity) (console : DtbNode×Option ℕ) : Option Bytes :=
  (value (decodeSerial console.1)).bind fun port =>
    (value (decodeBaudRate console.1 console.2)).map fun baudRate =>
      sealed 9 ((spcrHeader oem spcrSize).asBytes++spcrBody port baudRate)

/-- In a slot of its size the console table is written whole. -/
theorem spcrEmit_ok {oem : OemIdentity} {root : Node} {console : DtbNode×Option ℕ}
    (hfound : findStdoutSerial root=.ok (some console)) {slot slot' : Bytes}
    (hsize : slot.length=spcrSize) :
    spcrEmit oem root slot=.ok slot' ↔ spcr oem console=some slot' := by
  have hlength : sdtLengthFromSlot slot=.ok spcrSize := by
    rw [sdtLengthFromSlot,hsize]
    rfl
  have hlen : ∀ port baudRate,
      ((spcrHeader oem spcrSize).asBytes++spcrBody port baudRate).length=slot.length := by
    intro port baudRate
    rw [List.length_append,SdtHeader.length_asBytes,length_spcrBody,hsize]
    rfl
  have hbig : 9 < slot.length := by
    rw [hsize]
    decide
  have hwrite : ∀ port baudRate,
      (writeHeader ((spcrHeader oem spcrSize).asBytes++spcrBody port baudRate) slot >>=
        setSdtChecksum)=.ok (sealed 9 ((spcrHeader oem spcrSize).asBytes++
          spcrBody port baudRate)) := by
    intro port baudRate
    rw [(writeHeader_ok (hlen port baudRate).le).mpr rfl,overwrite_all (hlen port baudRate)]
    exact (setSdtChecksum_ok (hbig.trans_eq (hlen port baudRate).symm)).mpr rfl
  unfold spcrEmit spcr
  rw [hfound,hlength]
  change (decodeSerial console.1 >>= fun port => decodeBaudRate console.1 console.2 >>=
    fun baudRate => writeHeader ((spcrHeader oem spcrSize).asBytes++spcrBody port baudRate) slot >>=
      setSdtChecksum)=_ ↔ _
  simp only [hwrite,bind_ok,Option.bind_eq_some_iff,Option.map_eq_some_iff,value_eq_some,
    Except.ok.injEq]

/-- The console table is a description table. -/
theorem isSdt_spcr {oem : OemIdentity} {console : DtbNode×Option ℕ} {t : Bytes}
    (h : spcr oem console=some t) : IsSdt (ascii "SPCR") t ∧ t.length=spcrSize := by
  obtain ⟨port,_,h⟩ := Option.bind_eq_some_iff.mp h
  obtain ⟨baudRate,_,rfl⟩ := Option.map_eq_some_iff.mp h
  have hlen : spcrSize=SdtHeader.size+(spcrBody port baudRate).length := by
    rw [length_spcrBody]
    rfl
  refine ⟨isSdt_sealed (h := spcrHeader oem spcrSize) hlen (show spcrSize<2^32 by decide),?_⟩
  rw [length_sealed,List.length_append,SdtHeader.length_asBytes,hlen]

/-- The console table can be written exactly when the serial port is ready. -/
theorem isSome_spcr {oem : OemIdentity} {console : DtbNode×Option ℕ} :
    (spcr oem console).isSome=true ↔ ConsoleReady console.1 console.2 := by
  constructor
  · intro h
    obtain ⟨t,ht⟩ := Option.isSome_iff_exists.mp h
    obtain ⟨port,hport,ht⟩ := Option.bind_eq_some_iff.mp ht
    obtain ⟨baudRate,hbaud,_⟩ := Option.map_eq_some_iff.mp ht
    obtain ⟨speed,hspeed,hcode⟩ := bind_ok.mp (value_eq_some.mp hbaud)
    exact ⟨(decodeSerial_ok (value_eq_some.mp hport)).1,speed,hspeed,
      baudCode_some.mp ⟨baudRate,okOr_ok.mp hcode⟩⟩
  · intro h
    obtain ⟨p,hp⟩ := h.port.reg
    obtain ⟨port,hport,_⟩ := h.port.decodeSerial hp
    obtain ⟨speed,hspeed,hcode⟩ := h.baud
    obtain ⟨baudRate,hbaud⟩ := baudCode_some.mpr hcode
    have hdecode : decodeBaudRate console.1 console.2=.ok baudRate := by
      rw [decodeBaudRate,hspeed]
      exact okOr_ok.mpr hbaud
    rw [spcr,hport,hdecode]
    rfl

end Arma.Acpi.Spcr
