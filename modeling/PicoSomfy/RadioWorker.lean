import PicoSomfy.OverheardPresses
import PicoSomfy.Transmission

/-!
# The worker and its radio

The worker of the command queue drives the radio: it listens while the queue is empty,
returns to standby once it has an entry, sends a command, and reads a packet out of the
queue of the chip. In every run, with packets coming in and the worker held up at any time,
the bursts on the air are those of the commands the worker carried out, in order and
without overlap, and the radio only listens with the settings of a receiver.

What comes in leaves bytes in the queue of the chip. A command that is carried out before
they are read sends two of them in its wake-up burst, and the rest is lost.
-/
namespace PicoSomfy

open Overheard Radio Transitions

structure RadioWorker where
  queue : RadioCommandQueue
  radio : RFM69Radio

/-- Core 0 adds an entry or polls the ring; a packet or a part of one comes in; the worker
makes a step; time passes. -/
inductive RadioEvent where
  | add (entry : CommandEntry)
  | poll (now : ℤ)
  | packet (bytes : List UInt8)
  | noise (bytes : List UInt8)
  | work (stack : Vector UInt8 14) (packet : Packet) (now : ℤ) (t : ℕ → Delay)
  | wait (us : ℕ)

namespace RadioWorker

def receiveSync : List UInt8 := [0xE1, 0xE1, 0xFE]

/-- The radio listens for a packet. -/
def startListening (r : RFM69Radio) : RFM69Radio :=
  ((r.setSyncBytes receiveSync).setPacketFormat true 7).enableReceive

/-- What the next step of the worker does to the radio. -/
def drive (w : RadioWorker) (stack : Vector UInt8 14) (t : ℕ → Delay) : RFM69Radio :=
  match w.queue.worker with
  | .listen => startListening w.radio
  | .standby _ => w.radio.standby
  | .act (.execute command) => w.radio.executeCommand command stack t
  | .act .receive => w.radio.receivePacket 7
  | _ => w.radio

/-- The packet is what the queue of the chip holds, as far as it goes. -/
def Reads (w : RadioWorker) (packet : Packet) : Prop :=
  w.queue.worker = .act .receive → w.radio.chip.fifo.take 7 <+: packet.bytes

instance (w : RadioWorker) (packet : Packet) : Decidable (w.Reads packet) := by
  unfold Reads
  infer_instance

def withFifo (r : RFM69Radio) (bytes : List UInt8) : RFM69Radio :=
  { r with chip := { r.chip with fifo := bytes } }

def step (w : RadioWorker) : RadioEvent → Option RadioWorker
  | .add entry => some { w with queue := (w.queue.tryAdd entry).2 }
  | .poll now => some { w with queue := { w.queue with ring := (w.queue.ring.readCommand now).2 } }
  | .packet bytes =>
      if w.radio.irqEnabled then
        some { queue := (w.queue.tryAdd .receive).2, radio := withFifo w.radio bytes }
      else none
  | .noise bytes => if w.radio.listen then some { w with radio := withFifo w.radio bytes } else none
  | .work stack packet now t =>
      if w.Reads packet then
        (w.queue.workerStep packet now).map fun q => { queue := q, radio := w.drive stack t }
      else none
  | .wait us =>
      some { w with radio := { w.radio with
        chip := { w.radio.chip with clock := w.radio.chip.clock + us } } }

/-- The worker has made its settings. Nothing is known about the chip before. -/
def create (slots : ℕ → RecvCommand) (c : RadioChip) (unused1 f : ℕ) : RadioWorker :=
  ⟨.create slots, .start { c with bursts := [] } unused1 f⟩

variable {r : RFM69Radio} {w w' : RadioWorker}

/-- The radio is in standby, and listens or not. -/
structure Resting (r : RFM69Radio) : Prop where
  coherent : r.Coherent
  mode : r.mode = .stby
  irq : r.irqEnabled = r.listen

theorem Resting.idle (h : Resting r) (hlisten : r.listen = false) : r.Idle :=
  ⟨h.coherent, h.mode, hlisten, h.irq.trans hlisten⟩

theorem resting_of_idle (h : r.Idle) : Resting r := ⟨h.coherent, h.mode, h.irq.trans h.listen.symm⟩

/-- Another value of the mode register that is still standby. -/
theorem write_stby {c : RadioChip} (hc : c.mode = RadioMode.stby.bits) (listenAbort listen : Bool) :
    c.write regOpMode [UInt8.ofNat (RFM69Radio.opMode .stby listenAbort listen false)] =
      c.withOpMode (RFM69Radio.opMode .stby listenAbort listen false) := by
  rw [RadioChip.write_opMode]
  apply RadioChip.entered_same
  rw [hc]
  exact RFM69Radio.mode_of_opMode (RadioChip.withOpMode_opMode ..)

/-- Listening or not, nothing but the mode register changes. -/
theorem Resting.setMode (h : Resting r) (listen : Bool) :
    ∃ image, (r.setMode .stby listen).chip = { r.chip with registers := image } ∧
      (r.setMode .stby listen).mode = .stby ∧ (r.setMode .stby listen).listen = listen ∧
      (listen = false → (r.setMode .stby listen).irqEnabled = false) := by
  have hmode : r.chip.mode = RadioMode.stby.bits := by
    have hread := RFM69Radio.mode_of_opMode h.coherent
    rwa [h.mode] at hread
  unfold RFM69Radio.setMode
  split_ifs with hsame habort
  · refine ⟨r.chip.registers, rfl, h.mode, hsame.2.symm, fun hlisten => ?_⟩
    rw [h.irq, ← hsame.2, hlisten]
  · have hfirst := write_stby hmode true false
    have hmode' : (r.chip.withOpMode (RFM69Radio.opMode .stby true false false)).mode =
        RadioMode.stby.bits := RFM69Radio.mode_of_opMode (RadioChip.withOpMode_opMode ..)
    have hsecond := write_stby hmode' false listen
    unfold RFM69Radio.abortListen RFM69Radio.writeRegister RFM69Radio.writeRegisterBuffer
    dsimp only
    rw [hfirst, hsecond]
    exact ⟨_, rfl, rfl, rfl, fun _ => rfl⟩
  · have hwrite := write_stby hmode false listen
    unfold RFM69Radio.writeRegister RFM69Radio.writeRegisterBuffer
    dsimp only
    rw [hwrite]
    refine ⟨_, rfl, rfl, rfl, fun hlisten => ?_⟩
    rw [hlisten] at habort
    rw [h.irq]
    simpa using habort

theorem Resting.standby (h : Resting r) : r.standby.Idle := by
  obtain ⟨-, -, hmode, hlisten, hirq⟩ := h.setMode false
  exact ⟨RFM69Radio.coherent_setMode h.coherent .stby false, hmode, hlisten, hirq rfl⟩

/-- The settings do not change with the mode. -/
theorem tuned_setMode (h : r.chip.Tuned) (mode : RadioMode) (listen : Bool) :
    (r.setMode mode listen).chip.Tuned where
  threshold :=
    (RadioChip.fieldOf_congr (RFM69Radio.registers_setMode r mode listen (by decide))).trans h.threshold
  width := by
    refine (RadioChip.SameAt.symbolWidth fun i hi => ?_).trans h.width
    apply RFM69Radio.registers_setMode r mode listen
    unfold regBitrate regOpMode
    omega

theorem sends_setMode {sync : List UInt8} {manchester : Bool} {n : ℕ}
    (h : r.chip.Sends sync manchester n) (mode : RadioMode) (listen : Bool) :
    (r.setMode mode listen).chip.Sends sync manchester n := by
  have hsame : ∀ a, regOpMode < a →
      (r.setMode mode listen).chip.registers a = r.chip.registers a :=
    fun a ha => RFM69Radio.registers_setMode r mode listen (Nat.ne_of_gt ha)
  refine ⟨?_, ?_, ?_, ?_⟩
  · exact (RadioChip.SameAt.sync fun i _ => hsame _ (Nat.lt_add_right i (by decide))).trans h.sync
  · exact (RadioChip.SameAt.manchester fun i _ => hsame _ (Nat.lt_add_right i (by decide))).trans
      h.manchester
  · exact (RadioChip.fieldOf_congr (hsame _ (by decide))).trans h.fixed
  · rw [hsame _ (by decide)]
    exact h.length

/-- The radio listens with the settings of a receiver. -/
structure Receives (r : RFM69Radio) : Prop where
  resting : Resting r
  tuned : r.chip.Tuned
  sends : r.chip.Sends receiveSync true 7

theorem receives_startListening (h : r.Idle) (ht : r.chip.Tuned) :
    Receives (startListening r) ∧ (startListening r).listen = true ∧
      (startListening r).chip.bursts = r.chip.bursts ∧
      (startListening r).chip.clock = r.chip.clock := by
  have hset := h.set receiveSync true 7
  have hlength : receiveSync.length ≤ 8 := by decide
  have htuned := RFM69Radio.tuned_setPacketFormat (RFM69Radio.tuned_setSyncBytes ht hlength) true 7
  have hsends : ((r.setSyncBytes receiveSync).setPacketFormat true 7).chip.Sends receiveSync true 7 :=
    RFM69Radio.sends_set r hlength true (by decide) (by decide)
  obtain ⟨image, hchip, hmode, hlisten, -⟩ := (resting_of_idle hset).setMode true
  refine ⟨⟨⟨?_, hmode, hlisten.symm⟩, tuned_setMode htuned .stby true,
    sends_setMode hsends .stby true⟩, hlisten, ?_, ?_⟩
  · exact RFM69Radio.coherent_setMode hset.coherent .stby true
  · exact (congrArg RadioChip.bursts hchip).trans (by simp)
  · exact (congrArg RadioChip.clock hchip).trans (by simp)

/-- What holds at any time. -/
structure Sound (w : RadioWorker) : Prop where
  resting : Resting w.radio
  tuned : w.radio.chip.Tuned
  listening : w.queue.listening = w.radio.listen
  receives : w.radio.listen = true → w.radio.chip.Sends receiveSync true 7
  busy : w.radio.listen = true → w.queue.worker = .take ∨ ∃ entry, w.queue.worker = .standby entry
  spaced : w.radio.Spaced
  air : ∃ blocks, List.Forall₂ (fun command bursts => ∃ wake, RFM69Radio.Transmits command wake bursts)
    w.queue.executed blocks ∧ w.radio.chip.bursts = blocks.flatten

theorem Sound.idle (h : w.Sound) (htake : w.queue.worker ≠ .take)
    (hstandby : ∀ entry, w.queue.worker ≠ .standby entry) : w.radio.Idle := by
  apply h.resting.idle
  by_contra hlisten
  rcases h.busy (by simpa using hlisten) with hw | ⟨entry, hw⟩
  · exact htake hw
  · exact hstandby entry hw

theorem sound_create (slots : ℕ → RecvCommand) (c : RadioChip) (unused1 f : ℕ) :
    (create slots c unused1 f).Sound := by
  have hidle := RFM69Radio.idle_start { c with bursts := [] } unused1 f
  have hbursts : (create slots c unused1 f).radio.chip.bursts = [] := RFM69Radio.bursts_start ..
  have hlisten : (create slots c unused1 f).radio.listen = false := hidle.listen
  refine ⟨resting_of_idle hidle, RFM69Radio.tuned_start .., hlisten.symm, ?_, ?_, ?_,
    [], .nil, hbursts⟩
  · exact fun h => absurd (hlisten.symm.trans h) Bool.false_ne_true
  · exact fun h => absurd (hlisten.symm.trans h) Bool.false_ne_true
  · constructor
    · rw [hbursts]
      exact fun b hb => absurd hb List.not_mem_nil
    · rw [hbursts]
      exact List.Pairwise.nil

/-- Bytes come in or time passes. -/
theorem Sound.chip (h : w.Sound) (fifo : List UInt8) {clock : ℤ} (hclock : w.radio.chip.clock ≤ clock) :
    Sound { w with radio := { w.radio with
      chip := { w.radio.chip with fifo := fifo, clock := clock } } } where
  resting := ⟨h.resting.coherent, h.resting.mode, h.resting.irq⟩
  tuned := ⟨h.tuned.threshold, h.tuned.width⟩
  listening := h.listening
  receives := fun hlisten =>
    have hsends := h.receives hlisten
    ⟨hsends.sync, hsends.manchester, hsends.fixed, hsends.length⟩
  busy := h.busy
  spaced := h.spaced.congr rfl hclock
  air := h.air

/-- A change of the queue that no transmission depends on. -/
theorem Sound.withQueue (h : w.Sound) {q : RadioCommandQueue} (hworker : q.worker = w.queue.worker)
    (hlistening : q.listening = w.queue.listening) (hexecuted : q.executed = w.queue.executed) :
    Sound { w with queue := q } where
  resting := h.resting
  tuned := h.tuned
  listening := hlistening.trans h.listening
  receives := h.receives
  busy := fun hlisten => by
    rw [hworker]
    exact h.busy hlisten
  spaced := h.spaced
  air := by
    rw [hexecuted]
    exact h.air

theorem Sound.add (h : w.Sound) (entry : CommandEntry) :
    Sound { w with queue := (w.queue.tryAdd entry).2 } := by
  unfold RadioCommandQueue.tryAdd
  split_ifs
  · exact h.withQueue rfl rfl rfl
  · exact h

/-- The worker leaves the radio alone. -/
theorem Sound.turn (h : w.Sound) {q : RadioCommandQueue} (hidle : w.radio.Idle)
    (hlistening : q.listening = w.queue.listening) (hexecuted : q.executed = w.queue.executed) :
    Sound { w with queue := q } where
  resting := h.resting
  tuned := h.tuned
  listening := hlistening.trans h.listening
  receives := h.receives
  busy := fun hlisten => absurd (hidle.listen.symm.trans hlisten) Bool.false_ne_true
  spaced := h.spaced
  air := by
    rw [hexecuted]
    exact h.air

theorem Sound.listen (h : w.Sound) (hworker : w.queue.worker = .listen) :
    Sound ⟨{ w.queue with worker := .take, listening := true }, startListening w.radio⟩ := by
  have hidle : w.radio.Idle := by
    apply h.idle
    · simp [hworker]
    · simp [hworker]
  obtain ⟨hreceives, hlisten, hbursts, hclock⟩ := receives_startListening hidle h.tuned
  refine ⟨hreceives.resting, hreceives.tuned, hlisten.symm, fun _ => hreceives.sends,
    fun _ => .inl rfl, h.spaced.congr hbursts hclock.ge, ?_⟩
  rw [hbursts]
  exact h.air

theorem Sound.take (h : w.Sound) (entry : CommandEntry) (rest : List CommandEntry) :
    Sound { w with queue := { w.queue with queue := rest, worker := .standby entry } } where
  resting := h.resting
  tuned := h.tuned
  listening := h.listening
  receives := h.receives
  busy := fun _ => .inr ⟨entry, rfl⟩
  spaced := h.spaced
  air := h.air

theorem Sound.standby (h : w.Sound) (entry : CommandEntry) :
    Sound ⟨{ w.queue with worker := .act entry, listening := false }, w.radio.standby⟩ := by
  have hidle := h.resting.standby
  obtain ⟨image, hchip, -⟩ := h.resting.setMode false
  have hbursts : w.radio.standby.chip.bursts = w.radio.chip.bursts :=
    (congrArg RadioChip.bursts hchip).trans rfl
  have hclock : w.radio.standby.chip.clock = w.radio.chip.clock :=
    (congrArg RadioChip.clock hchip).trans rfl
  refine ⟨resting_of_idle hidle, tuned_setMode h.tuned .stby false, hidle.listen.symm, ?_, ?_,
    h.spaced.congr hbursts hclock.ge, ?_⟩
  · exact fun hlisten => absurd (hidle.listen.symm.trans hlisten) Bool.false_ne_true
  · exact fun hlisten => absurd (hidle.listen.symm.trans hlisten) Bool.false_ne_true
  · rw [hbursts]
    exact h.air

/-- A command that is carried out adds its bursts. -/
theorem Sound.execute (h : w.Sound) {command : SomfyCommand} (hidle : w.radio.Idle)
    (stack : Vector UInt8 14) (t : ℕ → Delay) :
    Sound ⟨{ w.queue with worker := .top, executed := w.queue.executed ++ [command] },
      w.radio.executeCommand command stack t⟩ := by
  obtain ⟨hkeyed, hspaced, bursts, hbursts, hchip⟩ :=
    RFM69Radio.executeCommand_transmits hidle h.tuned command stack t
  obtain ⟨blocks, hblocks, hair⟩ := h.air
  have hlisten := hkeyed.idle.listen
  refine ⟨resting_of_idle hkeyed.idle, hkeyed.tuned, ?_, ?_, ?_, hspaced h.spaced,
    blocks ++ [bursts], ?_, ?_⟩
  · exact (h.listening.trans hidle.listen).trans hlisten.symm
  · exact fun hl => absurd (hlisten.symm.trans hl) Bool.false_ne_true
  · exact fun hl => absurd (hlisten.symm.trans hl) Bool.false_ne_true
  · exact List.rel_append hblocks (.cons ⟨_, hbursts⟩ .nil)
  · rw [hchip, hair, List.flatten_append, List.flatten_singleton]

theorem Sound.work (h : w.Sound) {q : RadioCommandQueue} {packet : Packet} {now : ℤ}
    (stack : Vector UInt8 14) (t : ℕ → Delay) (hq : w.queue.workerStep packet now = some q) :
    Sound ⟨q, w.drive stack t⟩ := by
  unfold RadioCommandQueue.workerStep at hq
  unfold drive
  cases hworker : w.queue.worker with
  | top =>
      simp only [hworker, Option.some.injEq] at hq
      subst hq
      exact h.turn (h.idle (by simp [hworker]) (by simp [hworker])) rfl rfl
  | listen =>
      simp only [hworker, Option.some.injEq] at hq
      subst hq
      exact h.listen hworker
  | take =>
      simp only [hworker] at hq
      cases hqueue : w.queue.queue with
      | nil =>
          rw [hqueue] at hq
          cases hq
      | cons entry rest =>
          simp only [hqueue, Option.some.injEq] at hq
          subst hq
          exact h.take entry rest
  | standby entry =>
      simp only [hworker, Option.some.injEq] at hq
      subst hq
      exact h.standby entry
  | act entry =>
      simp only [hworker, Option.some.injEq] at hq
      subst hq
      have hidle : w.radio.Idle := h.idle (by simp [hworker]) (by simp [hworker])
      cases entry with
      | stop => exact h.turn hidle rfl rfl
      | execute command => exact h.execute hidle stack t
      | receive =>
          have hread := h.chip (w.radio.chip.fifo.drop 7) le_rfl
          exact hread.turn ⟨hidle.coherent, hidle.mode, hidle.listen, hidle.irq⟩ rfl rfl
  | returned =>
      rw [hworker] at hq
      cases hq

theorem Sound.step (h : w.Sound) {e : RadioEvent} (hs : w.step e = some w') : w'.Sound := by
  cases e with
  | add entry =>
      obtain rfl := Option.some.inj hs
      exact h.add entry
  | poll now =>
      obtain rfl := Option.some.inj hs
      exact h.withQueue rfl rfl rfl
  | packet bytes =>
      simp only [RadioWorker.step, Option.ite_none_right_eq_some, Option.some.injEq] at hs
      obtain ⟨-, rfl⟩ := hs
      exact (h.add .receive).chip bytes le_rfl
  | noise bytes =>
      simp only [RadioWorker.step, Option.ite_none_right_eq_some, Option.some.injEq] at hs
      obtain ⟨-, rfl⟩ := hs
      exact h.chip bytes le_rfl
  | work stack packet now t =>
      simp only [RadioWorker.step, Option.ite_none_right_eq_some] at hs
      obtain ⟨q, hq, rfl⟩ := Option.map_eq_some_iff.mp hs.2
      exact h.work stack t hq
  | wait us =>
      obtain rfl := Option.some.inj hs
      exact h.chip w.radio.chip.fifo (le_add_of_nonneg_right (Int.natCast_nonneg us))

/-- In every run the bursts on the air are the transmissions of the commands the worker
carried out, one after the other. The packet interrupt is enabled when the queue says that
the radio listens, and then the registers are those of a receiver. -/
theorem air_follows_commands {slots : ℕ → RecvCommand} {c : RadioChip} {unused1 f : ℕ}
    {es : List RadioEvent} (h : Run step Free (create slots c unused1 f) es w) :
    (∃ blocks, List.Forall₂ (fun command bursts => ∃ wake, RFM69Radio.Transmits command wake bursts)
      w.queue.executed blocks ∧ w.radio.chip.bursts = blocks.flatten) ∧
    (w.radio.chip.bursts.Pairwise fun b b' =>
      b.start + RFM69Radio.duration b.signal ≤ b'.start) ∧
    w.radio.irqEnabled = w.queue.listening ∧
    w.radio.chip.registers regOpMode =
      UInt8.ofNat (RFM69Radio.opMode .stby false w.queue.listening false) ∧
    (w.queue.listening = true → w.radio.chip.Sends receiveSync true 7) := by
  have hsound : w.Sound := h.invariant (fun h _ hs => h.step hs) (sound_create slots c unused1 f)
  refine ⟨hsound.air, hsound.spaced.apart, ?_, ?_, ?_⟩
  · exact hsound.resting.irq.trans hsound.listening.symm
  · rw [hsound.listening, ← hsound.resting.mode]
    exact hsound.resting.coherent
  · rw [hsound.listening]
    exact hsound.receives

/-- The worker takes one command out of the queue and sends it. -/
def upSent : RadioWorker where
  queue :=
    { queue := []
      listening := false
      worker := .top
      ring := .create emptySlots
      executed := [RFM69Radio.upPress] }
  radio := (create emptySlots ⟨fun _ => 0, [], [], 0⟩ 0 0).radio.standby.executeCommand
    RFM69Radio.upPress (Vector.replicate 14 0) fun _ => ⟨0, 0⟩

def workNow : RadioEvent := .work (Vector.replicate 14 0) upFrame 0 fun _ => ⟨0, 0⟩

theorem air_follows_commands_up :
    ∃ blocks, List.Forall₂ (fun command bursts => ∃ wake, RFM69Radio.Transmits command wake bursts)
      [RFM69Radio.upPress] blocks ∧ upSent.radio.chip.bursts = blocks.flatten := by
  have hrun : exec step (create emptySlots ⟨fun _ => 0, [], [], 0⟩ 0 0)
      [.add (.execute RFM69Radio.upPress), workNow, workNow, workNow, workNow] = some upSent := rfl
  exact (air_follows_commands (run_of_exec hrun)).1

end RadioWorker

end PicoSomfy
