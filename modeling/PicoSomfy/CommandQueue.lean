import PicoSomfy.ReceiveRing

/-!
# The command queue and its worker

Core 0 queues commands; the worker on core 1 takes them one by one and drives the
radio. While it waits for an empty queue to fill the radio listens, and a packet
then raises an interrupt that queues an entry as well. The interrupt is enabled
by `EnableReceive` and disabled by the `Standby` that follows the removal of the
next entry, so it may still come after that removal.

A turn of the worker's loop is cut at the points where another party can be seen
to act: before the radio listens, before an entry is removed, before the standby
and before the entry is carried out. `executed` is the history of the commands
`ExecuteCommand` was called with.
-/
namespace PicoSomfy

/-- The three values of `commandType`, with the fields each of them uses. -/
inductive CommandEntry where
  | stop
  | execute (command : SomfyCommand)
  | receive
  deriving DecidableEq, Repr

def CommandEntry.command? : CommandEntry → Option SomfyCommand
  | .execute command => some command
  | _ => none

inductive WorkerState where
  | top
  | listen
  | take
  | standby (entry : CommandEntry)
  | act (entry : CommandEntry)
  | returned
  deriving DecidableEq, Repr

/-- The second argument of `queue_init`. -/
def queueCapacity : ℕ := 16

structure RadioCommandQueue where
  queue : List CommandEntry
  listening : Bool
  worker : WorkerState
  ring : ReceiveRing
  executed : List SomfyCommand

namespace RadioCommandQueue

def create (slots : ℕ → RecvCommand) : RadioCommandQueue :=
  ⟨[], false, .top, .create slots, []⟩

/-- `queue_try_add` -/
def tryAdd (q : RadioCommandQueue) (entry : CommandEntry) : Bool × RadioCommandQueue :=
  if q.queue.length < queueCapacity then (true, { q with queue := q.queue ++ [entry] })
  else (false, q)

def queueCommand (q : RadioCommandQueue) (command : SomfyCommand) : Bool × RadioCommandQueue :=
  q.tryAdd (.execute command)

/-- The interrupt of a received packet, possible while the radio listens. -/
def queueReceive (q : RadioCommandQueue) : Option RadioCommandQueue :=
  if q.listening then some (q.tryAdd .receive).2 else none

/-- The worker carries out an entry. The packet in the radio and the time only
matter for a receive entry. -/
def actOn (q : RadioCommandQueue) (packet : Packet) (now : ℤ) : CommandEntry → RadioCommandQueue
  | .stop => { q with worker := .returned }
  | .execute command => { q with worker := .top, executed := q.executed ++ [command] }
  | .receive => { q with worker := .top, ring := q.ring.receiveCommand packet now }

/-- One step of the worker; `none` while it is blocked and after it returned. -/
def workerStep (q : RadioCommandQueue) (packet : Packet) (now : ℤ) : Option RadioCommandQueue :=
  match q.worker with
  | .top => some { q with worker := if q.queue.isEmpty then .listen else .take }
  | .listen => some { q with worker := .take, listening := true }
  | .take =>
      match q.queue with
      | [] => none
      | entry :: rest => some { q with queue := rest, worker := .standby entry }
  | .standby entry => some { q with worker := .act entry, listening := false }
  | .act entry => some (q.actOn packet now entry)
  | .returned => none

/-- The entry the worker has removed and not yet carried out. -/
def inHand (q : RadioCommandQueue) : List CommandEntry :=
  match q.worker with
  | .standby entry => [entry]
  | .act entry => [entry]
  | _ => []

/-- The commands that wait to be transmitted. -/
def waiting (q : RadioCommandQueue) : List SomfyCommand :=
  (q.inHand ++ q.queue).filterMap CommandEntry.command?

variable {q q' : RadioCommandQueue} {packet : Packet} {now : ℤ}

theorem tryAdd_full (h : ¬q.queue.length < queueCapacity) (entry : CommandEntry) :
    q.tryAdd entry = (false, q) := if_neg h

theorem tryAdd_room (h : q.queue.length < queueCapacity) (entry : CommandEntry) :
    q.tryAdd entry = (true, { q with queue := q.queue ++ [entry] }) := if_pos h

/-- An accepted command waits behind the others. -/
theorem waiting_append (q : RadioCommandQueue) (entry : CommandEntry) :
    waiting { q with queue := q.queue ++ [entry] } =
      q.waiting ++ entry.command?.toList := by
  have hin : inHand { q with queue := q.queue ++ [entry] } = q.inHand := rfl
  simp only [waiting, hin, ← List.append_assoc, List.filterMap_append]
  cases entry <;> rfl

/-- A step of the worker transmits the command it has in hand, or nothing. -/
theorem executed_waiting (hs : q.workerStep packet now = some q') :
    q'.executed ++ q'.waiting = q.executed ++ q.waiting := by
  unfold workerStep at hs
  split at hs
  case h_1 hw =>
    cases hs
    simp only [waiting, inHand, hw]
    split_ifs <;> rfl
  case h_2 hw =>
    cases hs
    simp [waiting, inHand, hw]
  case h_3 hw =>
    cases hq : q.queue with
    | nil => simp [hq] at hs
    | cons entry rest =>
        simp only [hq, Option.some.injEq] at hs
        subst hs
        simp [waiting, inHand, hw, hq]
  case h_4 entry hw =>
    cases hs
    simp [waiting, inHand, hw]
  case h_5 entry hw =>
    cases hs
    cases entry <;> simp [actOn, waiting, inHand, hw, CommandEntry.command?, List.filterMap_cons]
  case h_6 => cases hs

/-- The interrupt changes neither what was transmitted nor what waits for it. -/
theorem queueReceive_commands (hs : q.queueReceive = some q') :
    q'.executed = q.executed ∧ q'.waiting = q.waiting := by
  unfold queueReceive at hs
  split_ifs at hs
  cases hs
  by_cases h : q.queue.length < queueCapacity
  · rw [tryAdd_room h]
    exact ⟨rfl, by rw [waiting_append]; exact List.append_nil _⟩
  · rw [tryAdd_full h]
    exact ⟨rfl, rfl⟩

end RadioCommandQueue

end PicoSomfy
