import PicoSomfy.CommandQueue
import PicoSomfy.Transitions

/-!
# Shutting the worker down

`Shutdown` queues a stop entry and waits for the queue to become empty; the worker
returns when it takes that entry. An interrupt that finds room after the stop
entry was queued leaves an entry that nobody removes, and core 0 waits for ever.

In the runs without such an interrupt the stop entry is the last of the queue
until the worker has it in hand. The worker is then never blocked, a bounded
number of its steps empties the queue, and the commands carried out are the
commands accepted.
-/
namespace PicoSomfy

open Transitions RadioCommandQueue

/-- Where core 0 is: queueing commands, in the loop of `Shutdown`, or past it. -/
inductive Core0 where
  | running
  | waiting
  | done
  deriving DecidableEq, Repr

/-- The queue, core 0, and the history of the commands `QueueCommand` accepted. -/
structure Shutdown where
  radio : RadioCommandQueue
  core0 : Core0
  accepted : List SomfyCommand

inductive ShutdownEvent where
  | queueCommand (command : SomfyCommand)
  | shutdown
  | check
  | worker (packet : Packet) (now : ℤ)
  | interrupt
  deriving DecidableEq, Repr

namespace Shutdown

def init (slots : ℕ → RecvCommand) : Shutdown := ⟨.create slots, .running, []⟩

/-- `shutdown` is the blocking add of the stop entry, `check` one test of the loop
that waits for the queue. -/
def step (s : Shutdown) : ShutdownEvent → Option Shutdown
  | .queueCommand command =>
      if s.core0 = .running then
        some { s with
          radio := (s.radio.queueCommand command).2
          accepted := if (s.radio.queueCommand command).1 then s.accepted ++ [command]
            else s.accepted }
      else none
  | .shutdown =>
      if s.core0 = .running ∧ s.radio.queue.length < queueCapacity then
        some { s with radio := (s.radio.tryAdd .stop).2, core0 := .waiting }
      else none
  | .check =>
      if s.core0 = .waiting then
        some { s with core0 := if s.radio.queue.isEmpty then .done else .waiting }
      else none
  | .worker packet now => (s.radio.workerStep packet now).map fun radio => { s with radio := radio }
  | .interrupt => s.radio.queueReceive.map fun radio => { s with radio := radio }

/-- The interrupt comes before the stop entry is queued, or finds the queue full. -/
def Ok (s : Shutdown) : ShutdownEvent → Prop
  | .interrupt => s.core0 = .running ∨ ¬s.radio.queue.length < queueCapacity
  | _ => True

instance (s : Shutdown) (e : ShutdownEvent) : Decidable (s.Ok e) := by
  cases e <;> unfold Ok <;> infer_instance

/-- Not queued yet, the last of the queue, or in the hands of the worker with the
queue empty. -/
inductive Stop (s : Shutdown) : Prop
  | before (h₀ : s.core0 = .running) (hs : .stop ∉ s.radio.inHand ++ s.radio.queue)
      (hw : s.radio.worker ≠ .returned)
  | queued (entries : List CommandEntry) (h₀ : s.core0 ≠ .running)
      (hq : s.radio.queue = entries ++ [.stop]) (hs : .stop ∉ s.radio.inHand ++ entries)
      (hw : s.radio.worker ≠ .returned)
  | taken (h₀ : s.core0 ≠ .running) (hq : s.radio.queue = [])
      (hw : s.radio.inHand = [.stop] ∨ s.radio.worker = .returned)

structure Sound (s : Shutdown) : Prop where
  commands : s.accepted = s.radio.executed ++ s.radio.waiting
  stop : s.Stop

theorem sound_init (slots : ℕ → RecvCommand) : (init slots).Sound :=
  ⟨rfl, .before rfl List.not_mem_nil nofun⟩

variable {s s' : Shutdown}

/-- A step of the worker moves the stop entry on. -/
theorem Stop.worker {packet : Packet} {now : ℤ} {radio : RadioCommandQueue} (h : s.Stop)
    (hr : s.radio.workerStep packet now = some radio) : Stop { s with radio := radio } := by
  unfold workerStep at hr
  split at hr
  case h_1 hw =>
    cases hr
    cases h with
    | before h₀ hs _ =>
        refine .before h₀ ?_ ?_ <;> simp only [inHand, hw] at hs ⊢ <;> split_ifs <;> simp_all
    | queued entries h₀ hq hs _ =>
        refine .queued entries h₀ hq ?_ ?_ <;> simp only [inHand, hw] at hs ⊢ <;> split_ifs <;>
          simp_all
    | taken h₀ hq hn => simp [inHand, hw] at hn
  case h_2 hw =>
    cases hr
    cases h with
    | before h₀ hs _ => exact .before h₀ (by simpa [inHand, hw] using hs) (by simp)
    | queued entries h₀ hq hs _ => exact .queued entries h₀ hq (by simpa [inHand, hw] using hs) (by simp)
    | taken h₀ hq hn => simp [inHand, hw] at hn
  case h_3 hw =>
    cases hq : s.radio.queue with
    | nil => simp [hq] at hr
    | cons entry rest =>
        simp only [hq, Option.some.injEq] at hr
        subst hr
        cases h with
        | before h₀ hs _ => exact .before h₀ (by simpa [inHand, hw, hq] using hs) (by simp)
        | queued entries h₀ hq' hs _ =>
            rw [hq] at hq'
            cases entries with
            | nil =>
                simp only [List.nil_append, List.cons.injEq] at hq'
                exact .taken h₀ hq'.2 (.inl (by simp [inHand, hq'.1]))
            | cons e es =>
                simp only [List.cons_append, List.cons.injEq] at hq'
                obtain ⟨rfl, rfl⟩ := hq'
                exact .queued es h₀ rfl (by simpa [inHand, hw] using hs) (by simp)
        | taken h₀ hq' _ => simp [hq] at hq'
  case h_4 entry hw =>
    cases hr
    cases h with
    | before h₀ hs _ => exact .before h₀ (by simpa [inHand, hw] using hs) (by simp)
    | queued entries h₀ hq hs _ => exact .queued entries h₀ hq (by simpa [inHand, hw] using hs) (by simp)
    | taken h₀ hq hn => exact .taken h₀ hq (by simpa [inHand, hw] using hn)
  case h_5 entry hw =>
    cases hr
    cases h with
    | before h₀ hs _ =>
        cases entry with
        | stop => simp [inHand, hw] at hs
        | _ => exact .before h₀ (by simpa [inHand, hw, actOn] using hs) (by simp [actOn])
    | queued entries h₀ hq hs _ =>
        cases entry with
        | stop => simp [inHand, hw] at hs
        | _ => exact .queued entries h₀ hq (by simpa [inHand, hw, actOn] using hs) (by simp [actOn])
    | taken h₀ hq hn =>
        have hstop : entry = .stop := by simpa [inHand, hw] using hn
        subst hstop
        exact .taken h₀ hq (.inr rfl)
  case h_6 => cases hr

theorem Sound.step {e : ShutdownEvent} (h : s.Sound) (hok : s.Ok e) (hs : s.step e = some s') :
    s'.Sound := by
  obtain ⟨hc, hstop⟩ := h
  cases e with
  | queueCommand command =>
      simp only [Shutdown.step, Option.ite_none_right_eq_some, Option.some.injEq] at hs
      obtain ⟨h₀, rfl⟩ := hs
      cases hstop with
      | before _ hns hw =>
          unfold queueCommand
          by_cases hroom : s.radio.queue.length < queueCapacity
          · rw [tryAdd_room hroom]
            refine ⟨?_, .before h₀ ?_ hw⟩
            · rw [waiting_append, ← List.append_assoc, ← hc]
              rfl
            · simp only [List.mem_append, not_or] at hns ⊢
              exact ⟨hns.1, hns.2, by simp⟩
          · rw [tryAdd_full hroom]
            simp only [Bool.false_eq_true, if_false]
            exact ⟨hc, .before h₀ hns hw⟩
      | queued _ h₁ => exact absurd h₀ h₁
      | taken h₁ => exact absurd h₀ h₁
  | shutdown =>
      simp only [Shutdown.step, Option.ite_none_right_eq_some, Option.some.injEq] at hs
      obtain ⟨h₀, rfl⟩ := hs
      cases hstop with
      | before _ hns hw =>
          rw [tryAdd_room h₀.2]
          refine ⟨?_, .queued s.radio.queue (by simp) rfl hns hw⟩
          rw [waiting_append]
          exact hc.trans (by simp [CommandEntry.command?])
      | queued _ h₁ => exact absurd h₀.1 h₁
      | taken h₁ => exact absurd h₀.1 h₁
  | check =>
      simp only [Shutdown.step, Option.ite_none_right_eq_some, Option.some.injEq] at hs
      obtain ⟨h₀, rfl⟩ := hs
      refine ⟨hc, ?_⟩
      have hne : (if s.radio.queue.isEmpty then Core0.done else .waiting) ≠ .running := by
        split_ifs <;> simp
      cases hstop with
      | before h₁ => rw [h₀] at h₁; cases h₁
      | queued entries _ hq hns hw => exact .queued entries hne hq hns hw
      | taken _ hq hw => exact .taken hne hq hw
  | worker packet now =>
      obtain ⟨radio, hr, rfl⟩ := Option.map_eq_some_iff.mp hs
      exact ⟨hc.trans (executed_waiting hr).symm, hstop.worker hr⟩
  | interrupt =>
      obtain ⟨radio, hr, rfl⟩ := Option.map_eq_some_iff.mp hs
      obtain ⟨he, hw⟩ := queueReceive_commands hr
      refine ⟨by rw [he, hw]; exact hc, ?_⟩
      unfold queueReceive at hr
      split_ifs at hr with hl
      cases hr
      by_cases hroom : s.radio.queue.length < queueCapacity
      · rw [tryAdd_room hroom]
        have h₀ : s.core0 = .running := hok.resolve_right (not_not.mpr hroom)
        cases hstop with
        | before _ hns hw' =>
            refine .before h₀ ?_ hw'
            simp only [List.mem_append, not_or] at hns ⊢
            exact ⟨hns.1, hns.2, by simp⟩
        | queued _ h₁ => exact absurd h₀ h₁
        | taken h₁ => exact absurd h₀ h₁
      · rw [tryAdd_full hroom]
        exact hstop

/-- The steps the worker can still take once nothing is queued any more. -/
def work (q : RadioCommandQueue) : ℕ :=
  5 * q.queue.length +
    match q.worker with
    | .top => 2
    | .listen => 1
    | .take => 0
    | .standby _ => 4
    | .act _ => 3
    | .returned => 0

theorem work_worker {q q' : RadioCommandQueue} {packet : Packet} {now : ℤ}
    (h : q.workerStep packet now = some q') : work q' < work q := by
  unfold workerStep at h
  split at h
  case h_1 hw =>
    cases h
    simp only [work, hw]
    split_ifs <;> simp
  case h_2 hw =>
    cases h
    simp [work, hw]
  case h_3 hw =>
    cases hq : q.queue with
    | nil => simp [hq] at h
    | cons entry rest =>
        simp only [hq, Option.some.injEq] at h
        subst h
        simp only [work, hw, hq, List.length_cons]
        omega
  case h_4 hw =>
    cases h
    simp [work, hw]
  case h_5 entry hw =>
    cases h
    cases entry <;> simp [work, actOn, hw]
  case h_6 => cases h

def ShutdownEvent.isWorker : ShutdownEvent → Bool
  | .worker _ _ => true
  | _ => false

/-- Once the stop entry is queued, steps of the worker use up its work and no other
step adds to it. -/
theorem work_step {e : ShutdownEvent} (h₀ : s.core0 ≠ .running) (hok : s.Ok e)
    (hs : s.step e = some s') :
    s'.core0 ≠ .running ∧
      work s'.radio + (if ShutdownEvent.isWorker e then 1 else 0) ≤ work s.radio := by
  cases e with
  | queueCommand command => simp [Shutdown.step, h₀] at hs
  | shutdown => simp [Shutdown.step, h₀] at hs
  | check =>
      simp only [Shutdown.step] at hs
      split_ifs at hs <;> cases hs <;> exact ⟨nofun, le_rfl⟩
  | worker packet now =>
      obtain ⟨radio, hr, rfl⟩ := Option.map_eq_some_iff.mp hs
      exact ⟨h₀, work_worker hr⟩
  | interrupt =>
      obtain ⟨radio, hr, rfl⟩ := Option.map_eq_some_iff.mp hs
      unfold queueReceive at hr
      split_ifs at hr
      cases hr
      rw [tryAdd_full (hok.resolve_left h₀)]
      exact ⟨h₀, le_rfl⟩

theorem work_run {es : List ShutdownEvent} (h₀ : s.core0 ≠ .running)
    (hrun : Run Shutdown.step Ok s es s') :
    s'.core0 ≠ .running ∧
      work s'.radio + es.countP ShutdownEvent.isWorker ≤ work s.radio := by
  induction hrun with
  | refl => exact ⟨h₀, le_rfl⟩
  | snoc _ hok hs ih =>
      obtain ⟨hne, hle⟩ := ih
      obtain ⟨hne', hle'⟩ := work_step hne hok hs
      refine ⟨hne', ?_⟩
      rw [List.countP_append, List.countP_singleton]
      omega

/-- Behind the stop entry the worker is never blocked. -/
theorem Stop.worker_enabled (h : s.Stop) (h₀ : s.core0 ≠ .running) (packet : Packet) (now : ℤ) :
    s.radio.queue = [] ∨ ∃ radio, s.radio.workerStep packet now = some radio := by
  cases h with
  | before h₁ => exact absurd h₁ h₀
  | taken _ hq => exact .inl hq
  | queued entries _ hq _ hw =>
      refine .inr ?_
      unfold workerStep
      split
      case h_3 => cases entries <;> simp [hq]
      case h_6 hr => exact absurd hr hw
      all_goals exact ⟨_, rfl⟩

/-- A bounded number of steps of the worker empties the queue. -/
theorem Sound.drains (h : s.Sound) (h₀ : s.core0 = .waiting) (packet : Packet) (now : ℤ) :
    ∃ n ≤ work s.radio, ∃ s', s'.core0 = .done ∧
      Run Shutdown.step Ok s (List.replicate n (.worker packet now) ++ [.check]) s' := by
  induction hn : work s.radio using Nat.strong_induction_on generalizing s with
  | _ m ih =>
      rcases h.stop.worker_enabled (by simp [h₀]) packet now with hq | ⟨radio, hr⟩
      · refine ⟨0, Nat.zero_le _, { s with core0 := .done }, rfl, ?_⟩
        exact .single trivial (by simp [Shutdown.step, h₀, hq])
      · have hstep : s.step (.worker packet now) = some { s with radio := radio } := by
          simp only [Shutdown.step, hr, Option.map_some]
        have hlt := work_worker hr
        obtain ⟨n, hle, s', hdone, hrun⟩ :=
          ih _ (hn ▸ hlt) (h.step (e := .worker packet now) trivial hstep) h₀ rfl
        refine ⟨n + 1, by simp only at hle; omega, s', hdone, ?_⟩
        rw [List.replicate_succ, List.cons_append, ← List.singleton_append]
        exact (Run.single trivial hstep).append hrun

/-- In every run without an interrupt that finds room behind the stop entry: when
the worker has returned the queue is empty and the commands carried out are those
accepted, in their order; the loop of `Shutdown` can end after a bounded number
of the worker's steps, which nothing blocks; and no run has more of them. -/
theorem shutdown_ends {slots : ℕ → RecvCommand} {es : List ShutdownEvent}
    (hrun : Run Shutdown.step Ok (init slots) es s) :
    (s.radio.worker = .returned → s.radio.queue = [] ∧ s.radio.executed = s.accepted) ∧
    (s.core0 = .waiting → ∀ packet now,
      (s.radio.queue = [] ∨ ∃ radio, s.radio.workerStep packet now = some radio) ∧
      ∃ n ≤ work s.radio, ∃ s', s'.core0 = .done ∧
        Run Shutdown.step Ok s (List.replicate n (.worker packet now) ++ [.check]) s') ∧
    (s.core0 ≠ .running → ∀ es' s', Run Shutdown.step Ok s es' s' →
      es'.countP ShutdownEvent.isWorker ≤ work s.radio) := by
  have h : s.Sound := hrun.invariant (fun hi hok hstep => hi.step hok hstep) (sound_init slots)
  refine ⟨fun hret => ?_, fun h₀ packet now =>
    ⟨h.stop.worker_enabled (by simp [h₀]) packet now, h.drains h₀ packet now⟩,
    fun h₀ es' s' hrun' => (Nat.le_add_left _ _).trans (work_run h₀ hrun').2⟩
  cases h.stop with
  | before _ _ hw => exact absurd hret hw
  | queued _ _ _ _ hw => exact absurd hret hw
  | taken _ hq _ =>
      have hwait : s.radio.waiting = [] := by simp [waiting, inHand, hret, hq]
      exact ⟨hq, by rw [h.commands, hwait, List.append_nil]⟩

def noSlots : ℕ → RecvCommand := fun _ => ⟨⟨0, 0, 0, 0⟩, 0⟩

def noPacket : Packet := ⟨0, 0, 0, 0, 0, 0, 0⟩

/-- One turn of the worker's loop that finds an entry. -/
def workerTurn : List ShutdownEvent := List.replicate 4 (.worker noPacket 0)

def upCommand : SomfyCommand := ⟨0x270001, 1, shortPress, .up⟩

theorem shutdown_ends_orderly :
    ∃ s, Run Shutdown.step Ok (init noSlots)
        ([.queueCommand upCommand, .shutdown] ++ workerTurn ++ workerTurn) s ∧
      s.radio.worker = .returned ∧ s.radio.queue = [] ∧ s.radio.executed = s.accepted := by
  have hexec : (guardedExec Shutdown.step Ok (init noSlots)
      ([.queueCommand upCommand, .shutdown] ++ workerTurn ++ workerTurn)).map (·.radio.worker) =
      some .returned := by decide +kernel
  obtain ⟨s, hs, hw⟩ := Option.map_eq_some_iff.mp hexec
  have hrun := run_of_guardedExec hs
  exact ⟨s, hrun, hw, (shutdown_ends hrun).1 hw⟩

/-- The radio listens when the stop entry is queued, and a packet comes in before the
worker takes that entry. -/
def lateInterrupt : List ShutdownEvent :=
  [.worker noPacket 0, .worker noPacket 0, .shutdown, .interrupt, .worker noPacket 0,
    .worker noPacket 0, .worker noPacket 0]

/-- The worker has returned, the entry of the interrupt is still queued, and the
loop of `Shutdown` tests it again and again. -/
theorem shutdown_hangs :
    ∃ s, Run Shutdown.step Free (init noSlots) lateInterrupt s ∧
      s.core0 = .waiting ∧ s.radio.worker = .returned ∧ s.radio.queue = [.receive] ∧
      s.step .check = some s := by
  have hexec : (exec Shutdown.step (init noSlots) lateInterrupt).map (fun s =>
      (s.core0, s.radio.worker, s.radio.queue)) =
      some (.waiting, .returned, [.receive]) := by decide +kernel
  obtain ⟨s, hs, hp⟩ := Option.map_eq_some_iff.mp hexec
  simp only [Prod.mk.injEq] at hp
  obtain ⟨hcore, hworker, hqueue⟩ := hp
  refine ⟨s, run_of_exec hs, hcore, hworker, hqueue, ?_⟩
  obtain ⟨radio, core0, accepted⟩ := s
  simp only at hcore hqueue
  simp [Shutdown.step, hcore, hqueue]

end Shutdown

end PicoSomfy
