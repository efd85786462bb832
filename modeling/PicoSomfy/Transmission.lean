import PicoSomfy.RadioDriver
import PicoSomfy.CommandQueue

/-!
# Sending a command

`ExecuteCommand` wakes the blinds up with a burst of 16 ones and then sends the frame of
the press, once with a short row of sync bytes and as often as it is repeated with a long
one. Each frame has its time, counted from the first reading of the clock, and the worker
spins until that time has come.

Sixteen bytes fill the queue of the chip above its threshold. The array of the wake-up
burst has two; fourteen bytes of the stack go with it. Seven bytes of the payload are sent,
and what is left in the queue goes when the chip leaves the transmit mode.
-/
namespace PicoSomfy

open NorFlash ByteMemory Radio

/-- The bytes in the order they are sent. -/
def Packet.bytes (p : Packet) : List UInt8 := [p.b0, p.b1, p.b2, p.b3, p.b4, p.b5, p.b6]

/-- How late a packet starts and how long its sending takes beyond its time on the air. -/
structure Delay where
  late : ℕ
  overhead : ℕ
  deriving DecidableEq, Repr

namespace Radio

def fog : List UInt8 := [0xFF, 0xFF]

def syncBytes : List UInt8 := [0xF0, 0xF0, 0xF0, 0xF0, 0xF0, 0xF0, 0xF0, 0xFE]

end Radio

namespace RFM69Radio

/-- The worker makes the settings that stay. -/
def start (c : RadioChip) (unused1 f : ℕ) : RFM69Radio :=
  (((create c).initializeRadio unused1).setSymbolWidth 640).setFrequency f

/-- Spins until the start time of a packet has come. -/
def spin (r : RFM69Radio) (packetStartTime : ℤ) (late : ℕ) : RFM69Radio :=
  { r with chip := { r.chip with clock := max r.chip.clock packetStartTime + late } }

/-- The loop over the repeats. -/
def repeatFrames (payload : List UInt8) : ℕ → (ℕ → Delay) → RFM69Radio → ℤ → RFM69Radio
  | 0, _, r, _ => r
  | n + 1, t, r, packetStartTime =>
      let r := (r.spin packetStartTime (t 0).late).transmitPacket payload (t 0).overhead
      repeatFrames payload n (fun i => t (i + 1)) r (packetStartTime + 139000)

/-- `stack` is what stands behind the array of the wake-up burst. -/
def executeCommand (r : RFM69Radio) (command : SomfyCommand) (stack : Vector UInt8 14)
    (t : ℕ → Delay) : RFM69Radio :=
  let r := (r.setSyncBytes []).setPacketFormat false 2
  let now := r.chip.clock
  let r := r.transmitPacket (fog ++ stack.toList) (t 0).overhead
  let payload := (Packet.payload command.remoteId command.rollingCode command.button).bytes ++
    List.replicate 9 0
  let r := (r.setSyncBytes (syncBytes.drop 5)).setPacketFormat true 7
  let packetStartTime := now + 29000
  let r := (r.spin packetStartTime (t 1).late).transmitPacket payload (t 1).overhead
  let r := r.setSyncBytes syncBytes
  repeatFrames payload command.repeats.toNat (fun i => t (i + 2)) r (packetStartTime + 115000)

end RFM69Radio

/-- What the registers say about the next packet. -/
structure RadioChip.Sends (c : RadioChip) (sync : List UInt8) (manchester : Bool) (length : ℕ) : Prop where
  sync : c.sync = sync
  manchester : c.manchester = manchester
  fixed : c.fieldOf regPacketConfig 7 1 = 0
  length : (c.registers regPayloadLength).toNat = length

/-- The settings that are made once: the queue has a threshold of 15 bytes and a symbol
takes 640 µs. -/
structure RadioChip.Tuned (c : RadioChip) : Prop where
  threshold : c.fifoThreshold = 15
  width : c.symbolWidth = 640

namespace RFM69Radio

variable {r : RFM69Radio} {sync buffer : List UInt8} {manchester : Bool} {n : ℕ}

theorem registers_writeRegisterBuffer {reg a : ℕ} (r : RFM69Radio) (data : List UInt8)
    (hreg : regOpMode < reg) (ha : a < reg ∨ reg + data.length ≤ a) :
    (r.writeRegisterBuffer reg data).chip.registers a = r.chip.registers a := by
  rw [writeRegisterBuffer, RadioChip.write_eq hreg]
  exact poke_outside ha

theorem Idle.writeRegisterBuffer (h : r.Idle) {reg : ℕ} (hreg : regOpMode < reg)
    (data : List UInt8) : (r.writeRegisterBuffer reg data).Idle := by
  refine ⟨?_, h.mode, h.listen, h.irq⟩
  unfold Coherent
  rw [registers_writeRegisterBuffer r data hreg (.inl hreg)]
  exact h.coherent

/-- Setting a packet up only changes registers. -/
theorem chip_setSyncBytes (r : RFM69Radio) (sync : List UInt8) :
    r.setSyncBytes sync =
      { r with chip := { r.chip with registers := (r.setSyncBytes sync).chip.registers } } := by
  rw [setSyncBytes_eq, writeRegisterBuffer, RadioChip.write_eq (by decide)]

theorem chip_setPacketFormat (r : RFM69Radio) (manchester : Bool) (payloadSize : ℕ) :
    r.setPacketFormat manchester payloadSize =
      { r with
        chip :=
          { r.chip with registers := (r.setPacketFormat manchester payloadSize).chip.registers } } := by
  rw [setPacketFormat_eq, writeRegisterBuffer, RadioChip.write_eq (by decide)]

@[simp] theorem bursts_setSyncBytes (r : RFM69Radio) (sync : List UInt8) :
    (r.setSyncBytes sync).chip.bursts = r.chip.bursts := by rw [chip_setSyncBytes]

@[simp] theorem fifo_setSyncBytes (r : RFM69Radio) (sync : List UInt8) :
    (r.setSyncBytes sync).chip.fifo = r.chip.fifo := by rw [chip_setSyncBytes]

@[simp] theorem clock_setSyncBytes (r : RFM69Radio) (sync : List UInt8) :
    (r.setSyncBytes sync).chip.clock = r.chip.clock := by rw [chip_setSyncBytes]

@[simp] theorem bursts_setPacketFormat (r : RFM69Radio) (manchester : Bool) (payloadSize : ℕ) :
    (r.setPacketFormat manchester payloadSize).chip.bursts = r.chip.bursts := by
  rw [chip_setPacketFormat]

@[simp] theorem fifo_setPacketFormat (r : RFM69Radio) (manchester : Bool) (payloadSize : ℕ) :
    (r.setPacketFormat manchester payloadSize).chip.fifo = r.chip.fifo := by
  rw [chip_setPacketFormat]

@[simp] theorem clock_setPacketFormat (r : RFM69Radio) (manchester : Bool) (payloadSize : ℕ) :
    (r.setPacketFormat manchester payloadSize).chip.clock = r.chip.clock := by
  rw [chip_setPacketFormat]

theorem Idle.setSyncBytes (h : r.Idle) (sync : List UInt8) : (r.setSyncBytes sync).Idle := by
  rw [setSyncBytes_eq]
  exact h.writeRegisterBuffer (by decide) _

theorem Idle.set (h : r.Idle) (sync : List UInt8) (manchester : Bool) (payloadSize : ℕ) :
    ((r.setSyncBytes sync).setPacketFormat manchester payloadSize).Idle := by
  rw [setSyncBytes_eq, setPacketFormat_eq]
  exact (h.writeRegisterBuffer (by decide) _).writeRegisterBuffer (by decide) _

theorem sync_setPacketFormat (r : RFM69Radio) (manchester : Bool) (payloadSize : ℕ) :
    (r.setPacketFormat manchester payloadSize).chip.sync = r.chip.sync := by
  apply RadioChip.SameAt.sync
  intro i hi
  rw [setPacketFormat_eq]
  apply registers_writeRegisterBuffer r _ (by decide)
  exact .inl (by unfold regSyncConfig regPacketConfig; omega)

theorem sends_set (r : RFM69Radio) (hsync : sync.length ≤ 8) (manchester : Bool) (hpos : 0 < n)
    (hlt : n < 256) :
    ((r.setSyncBytes sync).setPacketFormat manchester n).chip.Sends sync manchester n where
  sync := (sync_setPacketFormat ..).trans (sync_setSyncBytes r hsync)
  manchester := manchester_setPacketFormat ..
  fixed := fixed_setPacketFormat _ _ hpos
  length := length_setPacketFormat _ _ hpos hlt

/-- Other sync bytes leave the format alone. -/
theorem sends_setSyncBytes {sync' : List UInt8} (h : r.chip.Sends sync' manchester n)
    (hsync : sync.length ≤ 8) : (r.setSyncBytes sync).chip.Sends sync manchester n := by
  have hsame : ∀ a, regPacketConfig ≤ a →
      (r.setSyncBytes sync).chip.registers a = r.chip.registers a := by
    intro a ha
    rw [setSyncBytes_eq]
    apply registers_writeRegisterBuffer r _ (by decide)
    right
    have hlen : (syncRegisters sync).length = sync.length + 1 := rfl
    rw [hlen]
    unfold regSyncConfig
    unfold regPacketConfig at ha
    omega
  refine ⟨sync_setSyncBytes r hsync, ?_, ?_, ?_⟩
  · have hformat : RadioChip.SameAt regPacketConfig 2 (r.setSyncBytes sync).chip r.chip :=
      fun i _ => hsame _ (Nat.le_add_right _ i)
    exact hformat.manchester.trans h.manchester
  · exact (RadioChip.fieldOf_congr (hsame _ le_rfl)).trans h.fixed
  · rw [hsame _ (by decide)]
    exact h.length

/-- The settings of the packets stand elsewhere. -/
theorem tuned_writeRegisterBuffer {reg : ℕ} {data : List UInt8} (h : r.chip.Tuned)
    (hreg : regSyncConfig ≤ reg) (hdata : reg + data.length ≤ regFifoThreshold) :
    (r.writeRegisterBuffer reg data).chip.Tuned := by
  have hmode : regOpMode < reg := (show regOpMode < regSyncConfig by decide).trans_le hreg
  constructor
  · refine (RadioChip.fieldOf_congr ?_).trans h.threshold
    exact registers_writeRegisterBuffer r data hmode (.inr hdata)
  · refine (RadioChip.SameAt.symbolWidth ?_).trans h.width
    intro i hi
    apply registers_writeRegisterBuffer r data hmode (.inl _)
    have hlt : regBitrate + 2 ≤ regSyncConfig := by decide
    omega

theorem tuned_setSyncBytes (h : r.chip.Tuned) (hsync : sync.length ≤ 8) :
    (r.setSyncBytes sync).chip.Tuned := by
  rw [setSyncBytes_eq]
  apply tuned_writeRegisterBuffer h le_rfl
  rw [syncRegisters, List.length_cons]
  unfold regSyncConfig regFifoThreshold
  omega

theorem tuned_setPacketFormat (h : r.chip.Tuned) (manchester : Bool) (payloadSize : ℕ) :
    (r.setPacketFormat manchester payloadSize).chip.Tuned := by
  rw [setPacketFormat_eq]
  exact tuned_writeRegisterBuffer h (by decide) (show regPacketConfig + 2 ≤ _ by decide)

/-- The first write of the mode register. -/
theorem idle_create (c : RadioChip) : ((create c).setMode .stby false).Idle := by
  have hwrite : (create c).setMode .stby false =
      { (create c).writeRegister regOpMode (opMode .stby false false false) with
        listen := false
        mode := .stby } := rfl
  rw [hwrite]
  refine ⟨?_, rfl, rfl, rfl⟩
  unfold Coherent
  dsimp only
  rw [registers_opMode]
  exact RadioChip.withOpMode_opMode ..

theorem Idle.writeRegister (h : r.Idle) {reg : ℕ} (hreg : regOpMode < reg) (data : ℕ) :
    (r.writeRegister reg data).Idle := h.writeRegisterBuffer hreg _

theorem idle_initializeRadio (c : RadioChip) (unused1 : ℕ) : ((create c).initializeRadio unused1).Idle := by
  unfold initializeRadio
  iterate 3 apply Idle.writeRegisterBuffer _ (by decide)
  iterate 1 apply Idle.writeRegister _ (by decide)
  apply Idle.writeRegisterBuffer _ (by decide)
  iterate 6 apply Idle.writeRegister _ (by decide)
  exact idle_create c

theorem idle_start (c : RadioChip) (unused1 f : ℕ) : (start c unused1 f).Idle := by
  unfold start setFrequency setSymbolWidth
  iterate 2 apply Idle.writeRegisterBuffer _ (by decide)
  exact idle_initializeRadio c unused1

theorem registers_write_head {reg : ℕ} (r : RFM69Radio) (hreg : regOpMode < reg) (b : UInt8)
    (data : List UInt8) : (r.writeRegisterBuffer reg (b :: data)).chip.registers reg = b := by
  rw [writeRegisterBuffer, RadioChip.write_eq hreg]
  exact (holds_poke r.chip.registers reg (b :: data)).head

theorem tuned_start (c : RadioChip) (unused1 f : ℕ) : (start c unused1 f).chip.Tuned := by
  have hthreshold : (start c unused1 f).chip.registers regFifoThreshold =
      UInt8.ofNat (BitFields.pack [(7, 15), (1, 0)]) := by
    unfold start setFrequency setSymbolWidth initializeRadio writeRegister3byte writeRegisterWord
    rw [registers_writeRegisterBuffer _ _ (by decide) (.inr (show regFrequency + 3 ≤ _ by decide)),
      registers_writeRegisterBuffer _ _ (by decide) (.inr (show regBitrate + 2 ≤ _ by decide)),
      registers_writeRegisterBuffer _ _ (by decide) (.inr (show regPreambleSize + 2 ≤ _ by decide)),
      registers_writeRegisterBuffer _ _ (by decide) (.inr (show regDioMapping + 2 ≤ _ by decide)),
      registers_writeRegisterBuffer _ _ (by decide) (.inr (show regListen + 3 ≤ _ by decide))]
    exact registers_write_head _ (by decide) _ []
  have hbitrate : HoldsAt (start c unused1 f).chip.registers regBitrate [80, 0] := by
    unfold start setFrequency setSymbolWidth writeRegister3byte writeRegisterWord
    rw [writeRegisterBuffer, RadioChip.write_eq (by decide)]
    apply HoldsAt.poke _ (.inr (by decide))
    rw [writeRegisterBuffer, RadioChip.write_eq (by decide)]
    exact holds_poke ..
  constructor
  · exact RadioChip.fieldOf_pack [] (7, 15) _ hthreshold (by decide)
  · unfold RadioChip.symbolWidth
    rw [hbitrate.head, hbitrate.tail.head]
    rfl

theorem bursts_writeRegisterBuffer {reg : ℕ} (r : RFM69Radio) (hreg : regOpMode < reg)
    (data : List UInt8) : (r.writeRegisterBuffer reg data).chip.bursts = r.chip.bursts := by
  rw [writeRegisterBuffer, RadioChip.write_eq hreg]

/-- Nothing is sent. -/
theorem bursts_start (c : RadioChip) (unused1 f : ℕ) : (start c unused1 f).chip.bursts = c.bursts := by
  have hmode : (c.withOpMode (opMode .stby false false false)).mode = RadioMode.stby.bits :=
    mode_of_opMode (RadioChip.withOpMode_opMode ..)
  have hcreate : ((create c).setMode .stby false).chip.bursts = c.bursts := by
    have hwrite : ((create c).setMode .stby false).chip =
        (c.withOpMode (opMode .stby false false false)).entered c.mode := rfl
    rw [hwrite, RadioChip.entered, hmode, if_neg (show RadioMode.stby.bits ≠ RadioMode.tx.bits by decide)]
    split_ifs <;> rfl
  rw [← hcreate]
  unfold start setFrequency setSymbolWidth initializeRadio writeRegister3byte writeRegisterWord
    writeRegister
  iterate 13 rw [bursts_writeRegisterBuffer _ (by decide)]

theorem packetLength_of_sends {c : RadioChip} (h : c.Sends sync manchester n) : c.packetLength = n := by
  rw [RadioChip.packetLength, if_pos h.fixed, h.length]

/-- How long a packet is on the air. -/
def packetTime (sync : List UInt8) (manchester : Bool) (n : ℕ) : ℕ :=
  (sync.length * 8 + n * (if manchester then 16 else 8)) * 640

variable {o : ℕ}

theorem length_load (r : RFM69Radio) (hbuffer : buffer.length = 16) :
    16 ≤ (r.load buffer).chip.fifo.length := by
  have hlength : (r.load buffer).chip.fifo.length =
      min fifoSize (r.chip.fifo ++ buffer).length := List.length_take
  rw [hlength, List.length_append, hbuffer]
  exact le_min (by decide) (Nat.le_add_left ..)

theorem fifoLevel_load (ht : r.chip.Tuned) (hbuffer : buffer.length = 16) :
    (r.load buffer).chip.fifoLevel = true := by
  have hthreshold : (r.load buffer).chip.fifoThreshold = 15 := ht.threshold
  have hlength := length_load r hbuffer
  unfold RadioChip.fifoLevel
  rw [hthreshold, decide_eq_true_eq]
  omega

theorem signal_load (hs : r.chip.Sends sync manchester n) (hn : n ≤ 16) :
    (r.load buffer).chip.signal = ⟨sync, manchester, (r.chip.fifo ++ buffer).take n⟩ := by
  have hloaded : (r.load buffer).chip.Sends sync manchester n :=
    ⟨hs.sync, hs.manchester, hs.fixed, hs.length⟩
  rw [RadioChip.signal, hloaded.sync, hloaded.manchester, packetLength_of_sends hloaded]
  congr 1
  exact (List.take_take ..).trans
    (congrArg (List.take · _) (Nat.min_eq_left (hn.trans (by decide))))

theorem airTime_load (ht : r.chip.Tuned) (hs : r.chip.Sends sync manchester n) (hn : n ≤ 16)
    (hbuffer : buffer.length = 16) :
    (r.load buffer).chip.airTime = packetTime sync manchester n := by
  have hloaded : (r.load buffer).chip.Sends sync manchester n :=
    ⟨hs.sync, hs.manchester, hs.fixed, hs.length⟩
  have hwidth : (r.load buffer).chip.symbolWidth = 640 := ht.width
  have hlength := length_load r hbuffer
  rw [RadioChip.airTime, hloaded.sync, hloaded.manchester, packetLength_of_sends hloaded, hwidth,
    List.length_take_of_le (hn.trans hlength), packetTime]

/-- A packet of sixteen bytes is sent as the settings say, and nothing stays in the queue. -/
theorem transmitPacket_sends (h : r.Idle) (ht : r.chip.Tuned) (hs : r.chip.Sends sync manchester n)
    (hn : n ≤ 16) (hbuffer : buffer.length = 16) (o : ℕ) :
    r.transmitPacket buffer o =
      { r with
        chip :=
          { r.chip with
            fifo := []
            bursts := r.chip.bursts ++
              [⟨⟨sync, manchester, (r.chip.fifo ++ buffer).take n⟩, r.chip.clock⟩]
            clock := r.chip.clock + (packetTime sync manchester n + o) } } := by
  rw [transmitPacket_eq h o (fifoLevel_load ht hbuffer), sent, signal_load hs hn,
    airTime_load ht hs hn hbuffer]

/-- The radio is set up for frames, and its queue is empty. -/
structure Keyed (r : RFM69Radio) (sync : List UInt8) : Prop where
  idle : r.Idle
  tuned : r.chip.Tuned
  sends : r.chip.Sends sync true 7
  fifo : r.chip.fifo = []

/-- The radio after one more burst. -/
def after (r : RFM69Radio) (signal : Signal) (start done : ℤ) : RFM69Radio :=
  { r with
    chip := { r.chip with fifo := [], bursts := r.chip.bursts ++ [⟨signal, start⟩], clock := done } }

theorem Keyed.after (h : r.Keyed sync) (signal : Signal) (start done : ℤ) :
    (r.after signal start done).Keyed sync :=
  ⟨⟨h.idle.coherent, h.idle.mode, h.idle.listen, h.idle.irq⟩, ⟨h.tuned.threshold, h.tuned.width⟩,
    ⟨h.sends.sync, h.sends.manchester, h.sends.fixed, h.sends.length⟩, rfl⟩

/-- One frame, at its time or as soon as the radio is free. -/
theorem Keyed.frame (h : r.Keyed sync) {payload : List UInt8} (hpayload : payload.length = 16)
    (packetStartTime : ℤ) (late overhead : ℕ) :
    (r.spin packetStartTime late).transmitPacket payload overhead =
      r.after ⟨sync, true, payload.take 7⟩ (max r.chip.clock packetStartTime + late)
        (max r.chip.clock packetStartTime + late + (packetTime sync true 7 + overhead)) := by
  have hidle : (r.spin packetStartTime late).Idle :=
    ⟨h.idle.coherent, h.idle.mode, h.idle.listen, h.idle.irq⟩
  have htuned : (r.spin packetStartTime late).chip.Tuned := ⟨h.tuned.threshold, h.tuned.width⟩
  have hsends : (r.spin packetStartTime late).chip.Sends sync true 7 :=
    ⟨h.sends.sync, h.sends.manchester, h.sends.fixed, h.sends.length⟩
  have hfifo : (r.spin packetStartTime late).chip.fifo ++ payload = payload := by
    rw [show (r.spin packetStartTime late).chip.fifo = [] from h.fifo, List.nil_append]
  rw [transmitPacket_sends hidle htuned hsends (by decide) hpayload, hfifo]
  rfl

/-- How long a signal is on the air. -/
def duration (s : Signal) : ℤ := packetTime s.sync s.manchester s.payload.length

theorem duration_nonneg (s : Signal) : 0 ≤ duration s := Int.natCast_nonneg _

/-- Every burst is over before the next one starts, and the last one by now. -/
structure Spaced (r : RFM69Radio) : Prop where
  ended : ∀ b ∈ r.chip.bursts, b.start + duration b.signal ≤ r.chip.clock
  apart : r.chip.bursts.Pairwise fun b b' => b.start + duration b.signal ≤ b'.start

theorem Spaced.after (h : r.Spaced) {signal : Signal} {start done : ℤ}
    (hstart : r.chip.clock ≤ start) (hdone : start + duration signal ≤ done) :
    (r.after signal start done).Spaced := by
  constructor
  · intro b hb
    rcases List.mem_append.mp hb with hb | hb
    · have hended := h.ended b hb
      have hlength := duration_nonneg signal
      exact hended.trans (hstart.trans ((le_add_of_nonneg_right hlength).trans hdone))
    · rw [List.mem_singleton.mp hb]
      exact hdone
  · apply List.pairwise_append.mpr
    refine ⟨h.apart, List.pairwise_singleton _ _, ?_⟩
    intro b hb b' hb'
    rw [List.mem_singleton.mp hb']
    exact (h.ended b hb).trans hstart

theorem Spaced.congr {r' : RFM69Radio} (h : r.Spaced) (hbursts : r'.chip.bursts = r.chip.bursts)
    (hclock : r.chip.clock ≤ r'.chip.clock) : r'.Spaced := by
  constructor
  · intro b hb
    rw [hbursts] at hb
    exact (h.ended b hb).trans hclock
  · rw [hbursts]
    exact h.apart

theorem repeatFrames_succ (payload : List UInt8) (t : ℕ → Delay) (r : RFM69Radio) (start : ℤ) :
    repeatFrames payload (n + 1) t r start =
      repeatFrames payload n (fun i => t (i + 1))
        ((r.spin start (t 0).late).transmitPacket payload (t 0).overhead) (start + 139000) := rfl

/-- The repeats are equal frames. -/
theorem repeatFrames_signals (h : r.Keyed sync) {payload : List UInt8}
    (hpayload : payload.length = 16) (t : ℕ → Delay) (start : ℤ) :
    (repeatFrames payload n t r start).Keyed sync ∧
      ∃ frames, (repeatFrames payload n t r start).chip.bursts = r.chip.bursts ++ frames ∧
        frames.map (·.signal) = List.replicate n ⟨sync, true, payload.take 7⟩ := by
  induction n generalizing t r start with
  | zero => exact ⟨h, [], (List.append_nil _).symm, rfl⟩
  | succ n ih =>
      rw [repeatFrames_succ, h.frame hpayload]
      obtain ⟨hkeyed, frames, hbursts, hsignals⟩ := ih (h.after _ _ _) (fun i => t (i + 1))
        (start + 139000)
      refine ⟨hkeyed, _ :: frames, hbursts.trans (List.append_assoc ..), ?_⟩
      rw [List.map_cons, hsignals, List.replicate_succ]

theorem repeatFrames_spaced (h : r.Keyed sync) (hr : r.Spaced) {payload : List UInt8}
    (hpayload : payload.length = 16) (t : ℕ → Delay) (start : ℤ) :
    (repeatFrames payload n t r start).Spaced := by
  induction n generalizing t r start with
  | zero => exact hr
  | succ n ih =>
      rw [repeatFrames_succ, h.frame hpayload]
      apply ih (h.after _ _ _)
      have htime : duration ⟨sync, true, payload.take 7⟩ = packetTime sync true 7 := by
        unfold duration
        rw [List.length_take_of_le (by omega)]
      apply hr.after
      · exact (le_max_left _ _).trans (le_add_of_nonneg_right (Int.natCast_nonneg _))
      · rw [htime]
        omega

/-- A radio that is free in time starts every repeat when it is due. -/
theorem repeatFrames_starts (h : r.Keyed syncBytes) {payload : List UInt8}
    (hpayload : payload.length = 16) {t : ℕ → Delay} {start : ℤ} (hfree : r.chip.clock ≤ start)
    (hsmall : ∀ i, (t i).late + (t i).overhead ≤ 26360) :
    (repeatFrames payload n t r start).chip.bursts = r.chip.bursts ++
      (List.range n).map fun i => ⟨⟨syncBytes, true, payload.take 7⟩,
        start + 139000 * i + (t i).late⟩ := by
  induction n generalizing t r start with
  | zero => exact (List.append_nil _).symm
  | succ n ih =>
      have hnext : start + (t 0).late + (packetTime syncBytes true 7 + (t 0).overhead) ≤
          start + 139000 := by
        have htime : packetTime syncBytes true 7 = 112640 := by decide
        have hdelay := hsmall 0
        rw [htime]
        push_cast
        omega
      rw [repeatFrames_succ, h.frame hpayload, max_eq_right hfree,
        ih (h.after _ _ _) hnext fun i => hsmall (i + 1), List.range_succ_eq_map, List.map_cons,
        List.map_map]
      have hrest : ∀ i : ℕ, start + 139000 + 139000 * (i : ℤ) = start + 139000 * ((i + 1 : ℕ) : ℤ) := by
        intro i
        push_cast
        ring
      simp only [after, List.append_assoc, List.singleton_append, Function.comp_def,
        Nat.succ_eq_add_one, hrest, Nat.cast_zero, mul_zero, add_zero]

/-- The frame of a command, with its sync bytes. -/
def frameSignal (command : SomfyCommand) (sync : List UInt8) : Signal :=
  ⟨sync, true, (Packet.payload command.remoteId command.rollingCode command.button).bytes⟩

/-- A wake-up burst of two bytes and, after it, the frames of the command. -/
structure Transmits (command : SomfyCommand) (wake : List UInt8) (bursts : List Burst) : Prop where
  length : wake.length = 2
  signals : bursts.map (·.signal) = ⟨[], false, wake⟩ :: frameSignal command (syncBytes.drop 5) ::
    List.replicate command.repeats.toNat (frameSignal command syncBytes)

/-- The seven bytes of the frame and nine that are not sent. -/
def padded (command : SomfyCommand) : List UInt8 :=
  (Packet.payload command.remoteId command.rollingCode command.button).bytes ++ List.replicate 9 0

theorem length_padded (command : SomfyCommand) : (padded command).length = 16 := rfl

theorem Idle.after (h : r.Idle) (signal : Signal) (start done : ℤ) :
    (r.after signal start done).Idle := ⟨h.coherent, h.mode, h.listen, h.irq⟩

theorem tuned_after (h : r.chip.Tuned) (signal : Signal) (start done : ℤ) :
    (r.after signal start done).chip.Tuned := ⟨h.threshold, h.width⟩

theorem keyed_set (h : r.Idle) (ht : r.chip.Tuned) (hfifo : r.chip.fifo = [])
    (hsync : sync.length ≤ 8) : ((r.setSyncBytes sync).setPacketFormat true 7).Keyed sync where
  idle := h.set sync true 7
  tuned := tuned_setPacketFormat (tuned_setSyncBytes ht hsync) true 7
  sends := sends_set r hsync true (by decide) (by decide)
  fifo := by rw [fifo_setPacketFormat, fifo_setSyncBytes, hfifo]

theorem Keyed.setSyncBytes {sync' : List UInt8} (h : r.Keyed sync') (hsync : sync.length ≤ 8) :
    (r.setSyncBytes sync).Keyed sync where
  idle := h.idle.setSyncBytes sync
  tuned := tuned_setSyncBytes h.tuned hsync
  sends := sends_setSyncBytes h.sends hsync
  fifo := by rw [fifo_setSyncBytes, h.fifo]

/-- The wake-up burst, the first thing that is sent. What was left in the queue goes first. -/
theorem transmit_fog (h : r.Idle) (ht : r.chip.Tuned) (stack : Vector UInt8 14) (overhead : ℕ) :
    ((r.setSyncBytes []).setPacketFormat false 2).transmitPacket (fog ++ stack.toList) overhead =
      ((r.setSyncBytes []).setPacketFormat false 2).after
        ⟨[], false, (r.chip.fifo ++ fog).take 2⟩ r.chip.clock
        (r.chip.clock + (10240 + overhead)) := by
  have htuned : ((r.setSyncBytes []).setPacketFormat false 2).chip.Tuned :=
    tuned_setPacketFormat (tuned_setSyncBytes ht (Nat.zero_le _)) false 2
  have hsends : ((r.setSyncBytes []).setPacketFormat false 2).chip.Sends [] false 2 :=
    sends_set r (Nat.zero_le _) false (by decide) (by decide)
  have hbuffer : (fog ++ stack.toList).length = 16 := by
    rw [List.length_append, Vector.length_toList]
    rfl
  have htake : (r.chip.fifo ++ (fog ++ stack.toList)).take 2 = (r.chip.fifo ++ fog).take 2 := by
    rw [← List.append_assoc]
    exact List.take_append_of_le_length (by simp [fog])
  rw [transmitPacket_sends (h.set [] false 2) htuned hsends (by decide) hbuffer, after, ← htake,
    fifo_setPacketFormat, fifo_setSyncBytes, clock_setPacketFormat, clock_setSyncBytes]
  rfl

/-- When the first frame starts. -/
def firstStart (r : RFM69Radio) (t : ℕ → Delay) : ℤ :=
  max (r.chip.clock + (10240 + (t 0).overhead)) (r.chip.clock + 29000) + (t 1).late

/-- The wake-up burst and the first frame; what remains is the loop over the repeats. -/
theorem executeCommand_eq (h : r.Idle) (ht : r.chip.Tuned) (command : SomfyCommand)
    (stack : Vector UInt8 14) (t : ℕ → Delay) :
    ∃ q : RFM69Radio, q.Keyed syncBytes ∧ (r.Spaced → q.Spaced) ∧
      q.chip.bursts = r.chip.bursts ++ [⟨⟨[], false, (r.chip.fifo ++ fog).take 2⟩, r.chip.clock⟩,
        ⟨frameSignal command (syncBytes.drop 5), r.firstStart t⟩] ∧
      q.chip.clock = r.firstStart t + (87040 + (t 1).overhead) ∧
      r.executeCommand command stack t =
        repeatFrames (padded command) command.repeats.toNat (fun i => t (i + 2)) q
          (r.chip.clock + 29000 + 115000) := by
  have hclock : ((r.setSyncBytes []).setPacketFormat false 2).chip.clock = r.chip.clock := by simp
  have htuned : ((r.setSyncBytes []).setPacketFormat false 2).chip.Tuned :=
    tuned_setPacketFormat (tuned_setSyncBytes ht (Nat.zero_le _)) false 2
  let woken := ((r.setSyncBytes []).setPacketFormat false 2).after
    ⟨[], false, (r.chip.fifo ++ fog).take 2⟩ r.chip.clock (r.chip.clock + (10240 + (t 0).overhead))
  let keyed := (woken.setSyncBytes (syncBytes.drop 5)).setPacketFormat true 7
  have hkeyed : keyed.Keyed (syncBytes.drop 5) :=
    keyed_set ((h.set [] false 2).after ..) (tuned_after htuned ..) rfl (by decide)
  have hfree : keyed.chip.clock = r.chip.clock + (10240 + (t 0).overhead) :=
    (clock_setPacketFormat ..).trans (clock_setSyncBytes ..)
  have hbursts : keyed.chip.bursts =
      r.chip.bursts ++ [⟨⟨[], false, (r.chip.fifo ++ fog).take 2⟩, r.chip.clock⟩] := by
    simp only [keyed, woken, after, bursts_setPacketFormat, bursts_setSyncBytes]
  have hframe := hkeyed.frame (length_padded command) (r.chip.clock + 29000) (t 1).late
    (t 1).overhead
  rw [hfree] at hframe
  have hopen := hkeyed.after (frameSignal command (syncBytes.drop 5)) (r.firstStart t)
    (r.firstStart t + (87040 + (t 1).overhead))
  refine ⟨_, hopen.setSyncBytes (by decide), fun hr => ?_, ?_, ?_, ?_⟩
  · have hwake : (r.after ⟨[], false, (r.chip.fifo ++ fog).take 2⟩ r.chip.clock
        (r.chip.clock + (10240 + (t 0).overhead))).Spaced := by
      apply hr.after le_rfl
      have htime : duration ⟨[], false, (r.chip.fifo ++ fog).take 2⟩ = 10240 := by
        unfold duration
        rw [List.length_take_of_le (by simp [fog])]
        norm_num [packetTime]
      rw [htime]
      omega
    have hset : keyed.Spaced := hwake.congr hbursts hfree.ge
    apply (hset.after _ _).congr (bursts_setSyncBytes ..) (clock_setSyncBytes ..).ge
    · rw [hfree]
      unfold firstStart
      exact (le_max_left _ _).trans (le_add_of_nonneg_right (Int.natCast_nonneg _))
    · have htime : duration (frameSignal command (syncBytes.drop 5)) = 87040 := by
        norm_num [duration, frameSignal, packetTime, Packet.bytes, syncBytes]
      rw [htime]
      omega
  · rw [bursts_setSyncBytes, after, hbursts, List.append_assoc]
    rfl
  · exact clock_setSyncBytes ..
  · have hstart : r.executeCommand command stack t =
        repeatFrames (padded command) command.repeats.toNat (fun i => t (i + 2))
          (((keyed.spin (r.chip.clock + 29000) (t 1).late).transmitPacket (padded command)
            (t 1).overhead).setSyncBytes syncBytes)
          (r.chip.clock + 29000 + 115000) := by
      dsimp only [keyed, woken]
      rw [← transmit_fog h ht stack, ← hclock]
      rfl
    rw [hstart, hframe]
    rfl

/-- What a command puts on the air, whatever is left in the queue, stands on the stack and
delays the worker. -/
theorem executeCommand_transmits (h : r.Idle) (ht : r.chip.Tuned) (command : SomfyCommand)
    (stack : Vector UInt8 14) (t : ℕ → Delay) :
    (r.executeCommand command stack t).Keyed syncBytes ∧
      (r.Spaced → (r.executeCommand command stack t).Spaced) ∧
      ∃ bursts, Transmits command ((r.chip.fifo ++ fog).take 2) bursts ∧
        (r.executeCommand command stack t).chip.bursts = r.chip.bursts ++ bursts := by
  obtain ⟨q, hq, hspaced, hbursts, -, hrest⟩ := executeCommand_eq h ht command stack t
  obtain ⟨hkeyed, frames, hframes, hsignals⟩ := repeatFrames_signals hq (length_padded command)
    (fun i => t (i + 2)) (r.chip.clock + 29000 + 115000)
  rw [hrest]
  refine ⟨hkeyed, fun hr => repeatFrames_spaced hq (hspaced hr) (length_padded command) _ _,
    ⟨⟨[], false, (r.chip.fifo ++ fog).take 2⟩, r.chip.clock⟩ ::
    ⟨frameSignal command (syncBytes.drop 5), r.firstStart t⟩ :: frames, ⟨by simp [fog], ?_⟩, ?_⟩
  · rw [List.map_cons, List.map_cons, hsignals]
    rfl
  · rw [hframes, hbursts, List.append_assoc]
    rfl

/-- When frame `i` of a command is due, counted from its start. -/
def due : ℕ → ℤ
  | 0 => 29000
  | i + 1 => 144000 + 139000 * i

/-- Frame `i` of a command. -/
def frameAt (command : SomfyCommand) (i : ℕ) : Signal :=
  frameSignal command (if i = 0 then syncBytes.drop 5 else syncBytes)

/-- As long as the worker is never held up for longer than the pause between two packets, the
frames start at their times. Delays do not add up. -/
theorem frames_on_time (h : r.Idle) (ht : r.chip.Tuned) (command : SomfyCommand)
    (stack : Vector UInt8 14) {t : ℕ → Delay} (hwake : (t 0).overhead ≤ 18760)
    (hsmall : ∀ i, (t (i + 1)).late + (t (i + 1)).overhead ≤ 26360) :
    (r.executeCommand command stack t).chip.bursts = r.chip.bursts ++
      ⟨⟨[], false, (r.chip.fifo ++ fog).take 2⟩, r.chip.clock⟩ ::
        (List.range (command.repeats.toNat + 1)).map fun i =>
          ⟨frameAt command i, r.chip.clock + due i + (t (i + 1)).late⟩ := by
  obtain ⟨q, hq, -, hbursts, hclock, hrest⟩ := executeCommand_eq h ht command stack t
  have hfirst : r.firstStart t = r.chip.clock + 29000 + (t 1).late := by
    unfold firstStart
    rw [max_eq_right (by omega)]
  have hfree : q.chip.clock ≤ r.chip.clock + 29000 + 115000 := by
    have hdelay : (t 1).late + (t 1).overhead ≤ 26360 := hsmall 0
    rw [hclock, hfirst]
    omega
  have hdue : ∀ i : ℕ, r.chip.clock + due (i + 1) = r.chip.clock + 29000 + 115000 + 139000 * (i : ℤ) := by
    intro i
    unfold due
    ring
  rw [hrest, repeatFrames_starts hq (length_padded command) hfree fun i => hsmall (i + 1), hbursts,
    hfirst, List.range_succ_eq_map, List.map_cons, List.map_map, List.append_assoc]
  simp only [Function.comp_def, Nat.succ_eq_add_one, hdue]
  rfl

def quietStart : RFM69Radio := start ⟨fun _ => 0, [], [], 0⟩ 0 0

def upPress : SomfyCommand := ⟨0x270001, 1, shortPress, .up⟩

/-- A worker that is up to three milliseconds late, and held up after that. -/
def busyWorker (i : ℕ) : Delay := ⟨1000 * (i % 4), 700⟩

theorem frames_on_time_quiet :
    (quietStart.executeCommand upPress (Vector.replicate 14 0) busyWorker).chip.bursts =
      quietStart.chip.bursts ++
        ⟨⟨[], false, (quietStart.chip.fifo ++ fog).take 2⟩, quietStart.chip.clock⟩ ::
          (List.range (upPress.repeats.toNat + 1)).map fun i =>
            ⟨frameAt upPress i, quietStart.chip.clock + due i + (busyWorker (i + 1)).late⟩ := by
  refine frames_on_time (idle_start ..) (tuned_start ..) upPress (Vector.replicate 14 0)
    (by decide) (fun i => ?_)
  simp only [busyWorker]
  omega

end RFM69Radio

end PicoSomfy
