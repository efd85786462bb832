import PicoSomfy.BitFields
import PicoSomfy.ByteMemory
import PicoSomfy.SomfyFrame

/-!
# The driver of the radio

The chip has a file of registers, which a burst on the bus writes one after the other, and
behind address 0 a queue of bytes. The driver relies on this much of it: entering transmit
mode sends what the registers and the queue say, once there are more bytes in the queue
than the threshold; leaving it empties the queue, and standby leaves the queue alone.

The driver remembers the mode it wrote last and writes the mode register only for another
one. Its waits for the chip only take time. Bits of a union that no line sets are zero here.
Times are microseconds.
-/
namespace PicoSomfy

open NorFlash ByteMemory BitFields

/-- What a burst tells a receiver. -/
structure Signal where
  sync : List UInt8
  manchester : Bool
  payload : List UInt8
  deriving DecidableEq, Repr

structure Burst where
  signal : Signal
  start : ℤ
  deriving DecidableEq, Repr

inductive RadioMode where
  | sleep
  | stby
  | fs
  | tx
  | rx
  deriving DecidableEq, Repr

def RadioMode.bits : RadioMode → ℕ
  | .sleep => 0
  | .stby => 1
  | .fs => 2
  | .tx => 3
  | .rx => 4

namespace Radio

def regFifo : ℕ := 0x00
def regOpMode : ℕ := 0x01
def regDataModul : ℕ := 0x02
def regBitrate : ℕ := 0x03
def regFrequency : ℕ := 0x07
def regListen : ℕ := 0x0d
def regPaLevel : ℕ := 0x11
def regOcp : ℕ := 0x13
def regLna : ℕ := 0x18
def regRxBw : ℕ := 0x19
def regDioMapping : ℕ := 0x25
def regPreambleSize : ℕ := 0x2c
def regSyncConfig : ℕ := 0x2e
def regSyncValue : ℕ := 0x2f
def regPacketConfig : ℕ := 0x37
def regPayloadLength : ℕ := 0x38
def regFifoThreshold : ℕ := 0x3c

def fifoSize : ℕ := 66

end Radio

open Radio

/-- The bursts it sent are a history; the clock is the time since the start. -/
@[ext] structure RadioChip where
  registers : Image
  fifo : List UInt8
  bursts : List Burst
  clock : ℤ

namespace RadioChip

def fieldOf (c : RadioChip) (reg lo w : ℕ) : ℕ := field (c.registers reg).toNat lo w

/-- The field of the mode register. -/
def mode (c : RadioChip) : ℕ := c.fieldOf regOpMode 2 3

def sync (c : RadioChip) : List UInt8 :=
  if c.fieldOf regSyncConfig 7 1 = 1 then
    bytesAt c.registers regSyncValue (c.fieldOf regSyncConfig 3 3 + 1)
  else []

def manchester (c : RadioChip) : Bool := c.fieldOf regPacketConfig 5 2 == 1

/-- How many bytes of the queue a packet takes. -/
def packetLength (c : RadioChip) : ℕ :=
  if c.fieldOf regPacketConfig 7 1 = 0 then (c.registers regPayloadLength).toNat
  else (c.fifo.headD 0).toNat + 1

def fifoThreshold (c : RadioChip) : ℕ := c.fieldOf regFifoThreshold 0 7

/-- The 32 MHz oscillator, divided by the bit rate. -/
def symbolWidth (c : RadioChip) : ℕ :=
  ((c.registers regBitrate).toNat * 256 + (c.registers (regBitrate + 1)).toNat) / 32

/-- What is sent. -/
def signal (c : RadioChip) : Signal := ⟨c.sync, c.manchester, c.fifo.take c.packetLength⟩

/-- The sync bytes are sent as they are, and each bit of the payload twice in Manchester code. -/
def airTime (c : RadioChip) : ℕ :=
  (c.sync.length * 8 + (c.fifo.take c.packetLength).length * (if c.manchester then 16 else 8)) *
    c.symbolWidth

/-- There are more bytes in the queue than the threshold. -/
def fifoLevel (c : RadioChip) : Bool := c.fifoThreshold < c.fifo.length

def send (c : RadioChip) : RadioChip := { c with bursts := c.bursts ++ [⟨c.signal, c.clock⟩] }

/-- What the chip does when its mode was `before`. -/
def entered (c : RadioChip) (before : ℕ) : RadioChip :=
  if c.mode = before then c
  else if c.mode = RadioMode.tx.bits then if c.fifoLevel then c.send else c
  else if before = RadioMode.tx.bits then { c with fifo := [] }
  else c

/-- A burst on the bus. -/
def write (c : RadioChip) (reg : ℕ) (data : List UInt8) : RadioChip :=
  if reg = regFifo then { c with fifo := (c.fifo ++ data).take fifoSize }
  else { c with registers := poke c.registers reg data }.entered c.mode

end RadioChip

/-- `mode` and `listen` are what the driver remembers. The interrupt is that of a packet. -/
structure RFM69Radio where
  chip : RadioChip
  mode : RadioMode
  listen : Bool
  irqEnabled : Bool

namespace RFM69Radio

/-- The constructor, after a reset of the chip. -/
def create (c : RadioChip) : RFM69Radio := ⟨c, .sleep, false, false⟩

def writeRegisterBuffer (r : RFM69Radio) (reg : ℕ) (buffer : List UInt8) : RFM69Radio :=
  { r with chip := r.chip.write reg buffer }

def writeRegister (r : RFM69Radio) (reg : ℕ) (data : ℕ) : RFM69Radio :=
  r.writeRegisterBuffer reg [UInt8.ofNat data]

def writeRegisterWord (r : RFM69Radio) (reg : ℕ) (data : ℕ) : RFM69Radio :=
  r.writeRegisterBuffer reg [UInt8.ofNat (data / 256), UInt8.ofNat data]

def writeRegister3byte (r : RFM69Radio) (reg : ℕ) (data : ℕ) : RFM69Radio :=
  r.writeRegisterBuffer reg
    [UInt8.ofNat (data / 65536), UInt8.ofNat (data / 256), UInt8.ofNat data]

def writeFifo (r : RFM69Radio) (buffer : List UInt8) : RFM69Radio :=
  r.writeRegisterBuffer regFifo buffer

/-- The union `OpMode`. -/
def opMode (mode : RadioMode) (listenAbort listenOn sequencerOff : Bool) : ℕ :=
  pack [(2, 0), (3, mode.bits), (1, listenAbort.toNat), (1, listenOn.toNat), (1, sequencerOff.toNat)]

/-- Ends the listening, which needs a write of its own. -/
def abortListen (r : RFM69Radio) (mode : RadioMode) : RFM69Radio :=
  { r with irqEnabled := false }.writeRegister regOpMode (opMode mode true false false)

def setMode (r : RFM69Radio) (mode : RadioMode) (listen : Bool) : RFM69Radio :=
  if mode = r.mode ∧ listen = r.listen then r
  else
    let aborted := if !listen && r.listen then r.abortListen mode else r
    { aborted.writeRegister regOpMode (opMode mode false listen false) with
      listen := listen
      mode := mode }

/-- The union `SyncConfig`. -/
def syncConfig (syncSize syncOn : ℕ) : ℕ := pack [(3, 0), (3, syncSize), (1, 0), (1, syncOn)]

/-- The union `PacketConfig`, without filter and checksum. -/
def packetConfig (payloadLength : ℕ) (dcFree packetFormat : ℕ) : ℕ :=
  pack [(8, payloadLength), (1, 0), (2, 0), (1, 0), (1, 0), (2, dcFree), (1, packetFormat)]

/-- `unused1` is what stands on the stack; it becomes the third byte of the setting. -/
def initializeRadio (r : RFM69Radio) (unused1 : ℕ) : RFM69Radio :=
  let r := r.setMode .stby false
  let r := r.writeRegister regDataModul (pack [(2, 0), (1, 0), (2, 1), (2, 0), (1, 0)])
  let r := r.writeRegister regOcp (pack [(4, 0xA), (1, 0), (3, 0)])
  let lna := r.chip.registers regLna
  let r := r.writeRegister regLna
    (pack [(3, 0x03), (3, field lna.toNat 3 3), (1, field lna.toNat 6 1), (1, 1)])
  let r := r.writeRegister regRxBw (pack [(3, 2), (2, 0x01), (3, 2)])
  let r := r.writeRegister regPaLevel (pack [(5, 31), (1, 1), (1, 1), (1, 0)])
  let r := r.writeRegister regSyncConfig (syncConfig 7 0)
  let r := r.writeRegisterWord regPacketConfig (packetConfig 64 1 0)
  let r := r.writeRegister regFifoThreshold (pack [(7, 15), (1, 0)])
  let r := r.writeRegister3byte regListen
    (pack [(8, unused1), (8, 20), (8, 0xf5), (1, 0), (2, 0x01), (1, 0x01), (2, 0x01), (2, 0x02)])
  let r := r.writeRegisterWord regDioMapping
    (pack [(3, 0x07), (1, 0), (2, 0), (2, 0), (2, 0), (2, 0), (2, 0), (2, 0x01)])
  r.writeRegisterWord regPreambleSize 0

def setSyncBytes (r : RFM69Radio) (sync : List UInt8) : RFM69Radio :=
  let r := r.writeRegister regSyncConfig
    (syncConfig ((sync.length + 7) % 8) (if sync = [] then 0 else 1))
  if sync = [] then r else r.writeRegisterBuffer regSyncValue sync

def setPacketFormat (r : RFM69Radio) (manchester : Bool) (payloadSize : ℕ) : RFM69Radio :=
  r.writeRegisterWord regPacketConfig
    (packetConfig (if payloadSize = 0 then 255 else payloadSize) (if manchester then 1 else 0)
      (if payloadSize = 0 then 1 else 0))

/-- The chip takes its time, or the driver gives up after ten seconds. -/
def waitForPacketSent (r : RFM69Radio) (overhead : ℕ) : RFM69Radio :=
  let time : ℤ := if r.chip.fifoLevel then r.chip.airTime + overhead else 10000000
  { r with chip := { r.chip with clock := r.chip.clock + time } }

def transmitPacket (r : RFM69Radio) (buffer : List UInt8) (overhead : ℕ) : RFM69Radio :=
  (((r.writeFifo buffer).setMode .tx false).waitForPacketSent overhead).setMode .stby false

def enableReceive (r : RFM69Radio) : RFM69Radio :=
  { r.setMode .stby true with irqEnabled := true }

def standby (r : RFM69Radio) : RFM69Radio := r.setMode .stby false

/-- Reading takes bytes out of the queue. What a short queue yields is not known. -/
def receivePacket (r : RFM69Radio) (length : ℕ) : RFM69Radio :=
  { r with chip := { r.chip with fifo := r.chip.fifo.drop length } }

def setSymbolWidth (r : RFM69Radio) (us : UInt16) : RFM69Radio :=
  r.writeRegisterWord regBitrate (min (32 * us.toNat) 65535)

/-- `f` is the frequency in steps of the synthesizer. -/
def setFrequency (r : RFM69Radio) (f : ℕ) : RFM69Radio := r.writeRegister3byte regFrequency f

end RFM69Radio

namespace RadioChip

variable {c c' : RadioChip} {reg lo w : ℕ} {data : List UInt8}

@[simp] theorem registers_entered (c : RadioChip) (before : ℕ) :
    (c.entered before).registers = c.registers := by
  unfold entered
  split_ifs <;> rfl

theorem entered_same (h : c.mode = reg) : c.entered reg = c := if_pos h

theorem fieldOf_congr (h : c.registers reg = c'.registers reg) :
    c.fieldOf reg lo w = c'.fieldOf reg lo w := by
  rw [fieldOf, fieldOf, h]

/-- A write behind the mode register only changes registers. -/
theorem write_eq (h : regOpMode < reg) (c : RadioChip) (data : List UInt8) :
    c.write reg data = { c with registers := poke c.registers reg data } := by
  have hmode : mode { c with registers := poke c.registers reg data } = c.mode :=
    fieldOf_congr (poke_outside (.inl h))
  have hreg : reg ≠ regFifo := Nat.ne_of_gt ((Nat.zero_le _).trans_lt h)
  rw [write, if_neg hreg, entered_same hmode]

/-- The registers from `a` on, `n` of them, are the same in both chips. -/
def SameAt (a n : ℕ) (c c' : RadioChip) : Prop := ∀ i < n, c.registers (a + i) = c'.registers (a + i)

theorem SameAt.sync (h : SameAt regSyncConfig 9 c c') : c.sync = c'.sync := by
  have hconfig : c.registers regSyncConfig = c'.registers regSyncConfig := h 0 (by decide)
  unfold RadioChip.sync
  simp only [fieldOf_congr hconfig]
  have hvalue : bytesAt c.registers regSyncValue (c'.fieldOf regSyncConfig 3 3 + 1) =
      bytesAt c'.registers regSyncValue (c'.fieldOf regSyncConfig 3 3 + 1) := by
    apply bytesAt_congr
    intro i hi
    have hsize : c'.fieldOf regSyncConfig 3 3 < 8 := Nat.mod_lt _ (by decide)
    have hread := h (i + 1) (by omega)
    rwa [show regSyncConfig + (i + 1) = regSyncValue + i by unfold regSyncConfig regSyncValue; omega]
      at hread
  rw [hvalue]

theorem SameAt.manchester (h : SameAt regPacketConfig 2 c c') : c.manchester = c'.manchester := by
  have hconfig : c.registers regPacketConfig = c'.registers regPacketConfig := h 0 (by decide)
  unfold RadioChip.manchester
  rw [fieldOf_congr hconfig]

theorem SameAt.packetLength (h : SameAt regPacketConfig 2 c c') (hfifo : c.fifo = c'.fifo) :
    c.packetLength = c'.packetLength := by
  have hconfig : c.registers regPacketConfig = c'.registers regPacketConfig := h 0 (by decide)
  have hlength : c.registers regPayloadLength = c'.registers regPayloadLength := h 1 (by decide)
  unfold RadioChip.packetLength
  rw [fieldOf_congr hconfig, hlength, hfifo]

theorem SameAt.symbolWidth (h : SameAt regBitrate 2 c c') : c.symbolWidth = c'.symbolWidth := by
  have hhigh : c.registers regBitrate = c'.registers regBitrate := h 0 (by decide)
  have hlow : c.registers (regBitrate + 1) = c'.registers (regBitrate + 1) := h 1 (by decide)
  unfold RadioChip.symbolWidth
  rw [hhigh, hlow]

/-- What is sent depends on the registers behind the mode register and on the queue. -/
theorem signal_congr (h : ∀ a, regOpMode < a → c.registers a = c'.registers a)
    (hfifo : c.fifo = c'.fifo) : c.signal = c'.signal := by
  have hsync : SameAt regSyncConfig 9 c c' := fun i _ => h _ (Nat.lt_add_right i (by decide))
  have hformat : SameAt regPacketConfig 2 c c' := fun i _ => h _ (Nat.lt_add_right i (by decide))
  unfold signal
  rw [hsync.sync, hformat.manchester, hformat.packetLength hfifo, hfifo]

theorem airTime_congr (h : ∀ a, regOpMode < a → c.registers a = c'.registers a)
    (hfifo : c.fifo = c'.fifo) : c.airTime = c'.airTime := by
  have hsignal := signal_congr h hfifo
  have hwidth : SameAt regBitrate 2 c c' := fun i _ => h _ (Nat.lt_add_right i (by decide))
  simp only [signal, Signal.mk.injEq] at hsignal
  unfold airTime
  rw [hsignal.1, hsignal.2.1, hsignal.2.2, hwidth.symbolWidth]

theorem airTime_send (c : RadioChip) : c.send.airTime = c.airTime := airTime_congr (fun _ _ => rfl) rfl

theorem fifoLevel_send (c : RadioChip) : c.send.fifoLevel = c.fifoLevel := rfl

/-- Another value of the mode register, before the chip reacts to it. -/
def withOpMode (c : RadioChip) (data : ℕ) : RadioChip :=
  { c with registers := poke c.registers regOpMode [UInt8.ofNat data] }

theorem withOpMode_opMode (c : RadioChip) (data : ℕ) :
    (c.withOpMode data).registers regOpMode = UInt8.ofNat data :=
  (holds_poke c.registers regOpMode [UInt8.ofNat data]).head

theorem withOpMode_of_ne (c : RadioChip) (data : ℕ) {a : ℕ} (ha : a ≠ regOpMode) :
    (c.withOpMode data).registers a = c.registers a :=
  poke_outside (Nat.lt_or_gt_of_ne ha)

theorem write_opMode (c : RadioChip) (data : ℕ) :
    c.write regOpMode [UInt8.ofNat data] = (c.withOpMode data).entered c.mode := rfl

theorem signal_withOpMode (c : RadioChip) (data : ℕ) : (c.withOpMode data).signal = c.signal :=
  signal_congr (fun _ ha => c.withOpMode_of_ne data (Nat.ne_of_gt ha)) rfl

theorem airTime_withOpMode (c : RadioChip) (data : ℕ) : (c.withOpMode data).airTime = c.airTime :=
  airTime_congr (fun _ ha => c.withOpMode_of_ne data (Nat.ne_of_gt ha)) rfl

theorem fifoLevel_withOpMode (c : RadioChip) (data : ℕ) :
    (c.withOpMode data).fifoLevel = c.fifoLevel := by
  have hthreshold : (c.withOpMode data).fifoThreshold = c.fifoThreshold :=
    fieldOf_congr (c.withOpMode_of_ne data (by decide))
  unfold fifoLevel
  rw [hthreshold]
  rfl

/-- A field of a register that was written as a union of fields. -/
theorem fieldOf_pack (fs : List (ℕ × ℕ)) (f : ℕ × ℕ) (gs : List (ℕ × ℕ))
    (h : c.registers reg = UInt8.ofNat (pack (fs ++ f :: gs))) (hw : width fs + f.1 ≤ 8) :
    c.fieldOf reg (width fs) f.1 = f.2 % 2 ^ f.1 := by
  rw [fieldOf, h, UInt8.toNat_ofNat', field_mod _ hw, field_pack]

end RadioChip

namespace RFM69Radio

variable {r : RFM69Radio} {sync : List UInt8} {manchester : Bool} {payloadSize : ℕ}

/-- The registers of the sync bytes. -/
def syncRegisters (sync : List UInt8) : List UInt8 :=
  UInt8.ofNat (syncConfig ((sync.length + 7) % 8) (if sync = [] then 0 else 1)) :: sync

theorem setSyncBytes_eq (r : RFM69Radio) (sync : List UInt8) :
    r.setSyncBytes sync = r.writeRegisterBuffer regSyncConfig (syncRegisters sync) := by
  unfold setSyncBytes writeRegister writeRegisterBuffer
  by_cases h : sync = []
  · rw [if_pos h, h]
    rfl
  · rw [if_neg h]
    dsimp only
    rw [RadioChip.write_eq (by decide), RadioChip.write_eq (by decide), RadioChip.write_eq (by decide)]
    congr 2
    exact poke_poke _ _ [_] sync

/-- The chip sends the sync bytes that were set. -/
theorem sync_setSyncBytes (r : RFM69Radio) (h : sync.length ≤ 8) :
    (r.setSyncBytes sync).chip.sync = sync := by
  have hholds : HoldsAt (r.setSyncBytes sync).chip.registers regSyncConfig (syncRegisters sync) := by
    rw [setSyncBytes_eq, writeRegisterBuffer, RadioChip.write_eq (by decide)]
    exact holds_poke ..
  have hconfig := hholds.head
  have hon : (r.setSyncBytes sync).chip.fieldOf regSyncConfig 7 1 = if sync = [] then 0 else 1 := by
    refine (RadioChip.fieldOf_pack [(3, 0), (3, (sync.length + 7) % 8), (1, 0)]
      (1, if sync = [] then 0 else 1) [] hconfig (by simp [width])).trans ?_
    split_ifs <;> rfl
  have hsize : (r.setSyncBytes sync).chip.fieldOf regSyncConfig 3 3 = (sync.length + 7) % 8 % 8 :=
    RadioChip.fieldOf_pack [(3, 0)] (3, (sync.length + 7) % 8)
      [(1, 0), (1, if sync = [] then 0 else 1)] hconfig (by simp [width])
  unfold RadioChip.sync
  rw [hon, hsize]
  by_cases hempty : sync = []
  · rw [if_pos hempty, if_neg (by decide), hempty]
  · have hpos : 0 < sync.length := List.length_pos_iff.mpr hempty
    rw [if_neg hempty, if_pos rfl, show (sync.length + 7) % 8 % 8 + 1 = sync.length by omega]
    exact hholds.tail.bytesAt

/-- The two registers of the packet format. -/
def formatRegisters (manchester : Bool) (payloadSize : ℕ) : List UInt8 :=
  let data := packetConfig (if payloadSize = 0 then 255 else payloadSize)
    (if manchester then 1 else 0) (if payloadSize = 0 then 1 else 0)
  [UInt8.ofNat (data / 256), UInt8.ofNat data]

theorem setPacketFormat_eq (r : RFM69Radio) (manchester : Bool) (payloadSize : ℕ) :
    r.setPacketFormat manchester payloadSize =
      r.writeRegisterBuffer regPacketConfig (formatRegisters manchester payloadSize) := rfl

theorem holds_setPacketFormat (r : RFM69Radio) (manchester : Bool) (payloadSize : ℕ) :
    HoldsAt (r.setPacketFormat manchester payloadSize).chip.registers regPacketConfig
      (formatRegisters manchester payloadSize) := by
  rw [setPacketFormat_eq, writeRegisterBuffer, RadioChip.write_eq (by decide)]
  exact holds_poke ..

theorem manchester_setPacketFormat (r : RFM69Radio) (manchester : Bool) (payloadSize : ℕ) :
    (r.setPacketFormat manchester payloadSize).chip.manchester = manchester := by
  have hconfig := (holds_setPacketFormat r manchester payloadSize).head
  rw [packetConfig, show 256 = 2 ^ 8 from rfl, pack_div (8, _)] at hconfig
  have hcode : (r.setPacketFormat manchester payloadSize).chip.fieldOf regPacketConfig 5 2 =
      if manchester then 1 else 0 := by
    refine (RadioChip.fieldOf_pack [(1, 0), (2, 0), (1, 0), (1, 0)]
      (2, if manchester then 1 else 0) _ hconfig (by simp [width])).trans ?_
    split_ifs <;> rfl
  unfold RadioChip.manchester
  rw [hcode]
  cases manchester <;> rfl

theorem fixed_setPacketFormat (r : RFM69Radio) (manchester : Bool) (hpos : 0 < payloadSize) :
    (r.setPacketFormat manchester payloadSize).chip.fieldOf regPacketConfig 7 1 = 0 := by
  have hconfig := (holds_setPacketFormat r manchester payloadSize).head
  rw [packetConfig, show 256 = 2 ^ 8 from rfl, pack_div (8, _)] at hconfig
  refine (RadioChip.fieldOf_pack [(1, 0), (2, 0), (1, 0), (1, 0), (2, if manchester then 1 else 0)]
    (1, if payloadSize = 0 then 1 else 0) [] hconfig (by simp [width])).trans ?_
  rw [if_neg hpos.ne']
  rfl

theorem length_setPacketFormat (r : RFM69Radio) (manchester : Bool) (hpos : 0 < payloadSize)
    (hlt : payloadSize < 256) :
    ((r.setPacketFormat manchester payloadSize).chip.registers regPayloadLength).toNat =
      payloadSize := by
  have hlength := (holds_setPacketFormat r manchester payloadSize).tail.head
  rw [show regPayloadLength = regPacketConfig + 1 from rfl, hlength, UInt8.toNat_ofNat',
    packetConfig, pack_mod, if_neg hpos.ne']
  exact Nat.mod_eq_of_lt hlt

/-- The mode register holds what the driver remembers. -/
def Coherent (r : RFM69Radio) : Prop :=
  r.chip.registers regOpMode = UInt8.ofNat (opMode r.mode false r.listen false)

/-- The radio is in standby and does not listen. -/
structure Idle (r : RFM69Radio) : Prop where
  coherent : r.Coherent
  mode : r.mode = .stby
  listen : r.listen = false
  irq : r.irqEnabled = false

theorem mode_of_opMode {c : RadioChip} {mode : RadioMode} {listenAbort listen : Bool}
    (h : c.registers regOpMode = UInt8.ofNat (opMode mode listenAbort listen false)) :
    c.mode = mode.bits := by
  refine (RadioChip.fieldOf_pack [(2, 0)] (3, mode.bits) _ h (by simp [width])).trans ?_
  cases mode <;> rfl

theorem registers_opMode (r : RFM69Radio) (data : ℕ) :
    (r.writeRegister regOpMode data).chip.registers = (r.chip.withOpMode data).registers :=
  RadioChip.registers_entered ..

theorem coherent_setMode (h : r.Coherent) (mode : RadioMode) (listen : Bool) :
    (r.setMode mode listen).Coherent := by
  unfold setMode
  split_ifs
  · exact h
  all_goals
    dsimp only
    unfold Coherent
    rw [registers_opMode]
    exact RadioChip.withOpMode_opMode ..

/-- Only the mode register changes. -/
theorem registers_setMode (r : RFM69Radio) (mode : RadioMode) (listen : Bool) {a : ℕ}
    (ha : a ≠ regOpMode) : (r.setMode mode listen).chip.registers a = r.chip.registers a := by
  unfold setMode
  split_ifs
  · rfl
  · rw [registers_opMode, RadioChip.withOpMode_of_ne _ _ ha, abortListen, registers_opMode]
    exact RadioChip.withOpMode_of_ne _ _ ha
  · rw [registers_opMode]
    exact RadioChip.withOpMode_of_ne _ _ ha

/-- The bytes that wait to be sent. -/
def load (r : RFM69Radio) (buffer : List UInt8) : RFM69Radio :=
  { r with chip := { r.chip with fifo := (r.chip.fifo ++ buffer).take fifoSize } }

theorem Idle.mode_chip (h : r.Idle) : r.chip.mode = RadioMode.stby.bits := by
  have hmode := mode_of_opMode h.coherent
  rwa [h.mode] at hmode

/-- Entering transmit mode starts a burst. -/
theorem Idle.setMode_tx (h : r.Idle) (hfifo : r.chip.fifoLevel) :
    r.setMode .tx false =
      { r with mode := .tx, chip := (r.chip.withOpMode (opMode .tx false false false)).send } := by
  have hstart : ¬(RadioMode.tx = r.mode ∧ false = r.listen) := by
    rw [h.mode]
    exact fun hsame => absurd hsame.1 (by decide)
  have hmode : (r.chip.withOpMode (opMode .tx false false false)).mode = RadioMode.tx.bits :=
    mode_of_opMode (RadioChip.withOpMode_opMode ..)
  have hentered : (r.chip.withOpMode (opMode .tx false false false)).entered r.chip.mode =
      (r.chip.withOpMode (opMode .tx false false false)).send := by
    unfold RadioChip.entered
    rw [h.mode_chip, hmode, if_neg (by decide), if_pos rfl, RadioChip.fifoLevel_withOpMode, if_pos hfifo]
  rw [setMode, if_neg hstart, h.listen]
  simp only [Bool.not_false, Bool.and_false, Bool.false_eq_true, if_false]
  rw [writeRegister, writeRegisterBuffer, RadioChip.write_opMode, hentered]

/-- Leaving transmit mode empties the queue. -/
theorem setMode_stby_of_tx (h : r.Coherent) (hmode : r.mode = .tx) (hlisten : r.listen = false) :
    r.setMode .stby false =
      { r with
        mode := .stby
        chip := { r.chip.withOpMode (opMode .stby false false false) with fifo := [] } } := by
  have hstart : ¬(RadioMode.stby = r.mode ∧ false = r.listen) := by
    rw [hmode]
    exact fun hsame => absurd hsame.1 (by decide)
  have hchip : r.chip.mode = RadioMode.tx.bits := by
    have hread := mode_of_opMode h
    rwa [hmode] at hread
  have hmode' : (r.chip.withOpMode (opMode .stby false false false)).mode = RadioMode.stby.bits :=
    mode_of_opMode (RadioChip.withOpMode_opMode ..)
  have hentered : (r.chip.withOpMode (opMode .stby false false false)).entered r.chip.mode =
      { r.chip.withOpMode (opMode .stby false false false) with fifo := [] } := by
    unfold RadioChip.entered
    rw [hchip, hmode', if_neg (by decide), if_neg (by decide), if_pos rfl]
  rw [setMode, if_neg hstart, hlisten]
  simp only [Bool.not_false, Bool.and_false, Bool.false_eq_true, if_false]
  rw [writeRegister, writeRegisterBuffer, RadioChip.write_opMode, hentered]

/-- The chip after a packet was sent. -/
def sent (r : RFM69Radio) (buffer : List UInt8) (overhead : ℕ) : RadioChip :=
  { r.chip with
    fifo := []
    bursts := r.chip.bursts ++ [⟨(r.load buffer).chip.signal, r.chip.clock⟩]
    clock := r.chip.clock + ((r.load buffer).chip.airTime + overhead) }

/-- A packet that fills the queue above its threshold is sent. Nothing stays in the queue,
and the radio is in standby again. -/
theorem transmitPacket_eq (h : r.Idle) {buffer : List UInt8} (overhead : ℕ)
    (hfifo : (r.load buffer).chip.fifoLevel) :
    r.transmitPacket buffer overhead = { r with chip := r.sent buffer overhead } := by
  have hidle : (r.load buffer).Idle := ⟨h.coherent, h.mode, h.listen, h.irq⟩
  obtain ⟨c, hc⟩ : ∃ c, c = (r.load buffer).chip.withOpMode (opMode .tx false false false) := ⟨_, rfl⟩
  have hair : c.send.airTime = (r.load buffer).chip.airTime := by
    rw [RadioChip.airTime_send, hc, RadioChip.airTime_withOpMode]
  have hlevel : c.send.fifoLevel = true := by
    rw [RadioChip.fifoLevel_send, hc, RadioChip.fifoLevel_withOpMode, hfifo]
  have hsignal : c.signal = (r.load buffer).chip.signal := by
    rw [hc, RadioChip.signal_withOpMode]
  let s : RFM69Radio :=
    { r with
      mode := .tx
      chip := { c.send with clock := c.clock + ((r.load buffer).chip.airTime + overhead) } }
  have hwait : ((r.load buffer).setMode .tx false).waitForPacketSent overhead = s := by
    rw [hidle.setMode_tx hfifo, waitForPacketSent, ← hc]
    dsimp only
    rw [hlevel, if_pos rfl, hair]
    rfl
  have hcoherent : s.Coherent := by
    have hmode : c.registers regOpMode = UInt8.ofNat (opMode .tx false false false) := by
      rw [hc, RadioChip.withOpMode_opMode]
    unfold Coherent
    rw [show s.chip.registers = c.registers from rfl, hmode, show s.mode = .tx from rfl,
      show s.listen = false from h.listen]
  have hregisters : (s.chip.withOpMode (opMode .stby false false false)).registers =
      r.chip.registers := by
    funext a
    by_cases ha : a = regOpMode
    · rw [ha, RadioChip.withOpMode_opMode, h.coherent, h.mode, h.listen]
    · rw [RadioChip.withOpMode_of_ne _ _ ha, show s.chip.registers = c.registers from rfl, hc,
        RadioChip.withOpMode_of_ne _ _ ha]
      rfl
  have hbursts : c.bursts ++ [⟨c.signal, c.clock⟩] =
      r.chip.bursts ++ [⟨(r.load buffer).chip.signal, r.chip.clock⟩] := by
    rw [hsignal, hc]
    rfl
  have hclock : c.clock = r.chip.clock := by
    rw [hc]
    rfl
  have hchip : { s.chip.withOpMode (opMode .stby false false false) with fifo := [] } =
      r.sent buffer overhead := by
    apply RadioChip.ext
    · exact hregisters
    · rfl
    · exact hbursts
    · exact congrArg (· + ((r.load buffer).chip.airTime + (overhead : ℤ))) hclock
  have hload : r.writeFifo buffer = r.load buffer := rfl
  rw [transmitPacket, hload, hwait, setMode_stby_of_tx hcoherent rfl h.listen, hchip, h.mode]

end RFM69Radio

end PicoSomfy
