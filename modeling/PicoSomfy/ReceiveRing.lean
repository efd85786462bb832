import PicoSomfy.CircularBuffer
import PicoSomfy.Transitions

/-!
# Commands overheard on the air

The worker on the second core decodes a packet and stores it in a ring of eight
slots, from which the main loop picks up commands. A physical press is sent as a
row of equal frames. They are counted as repeats of one entry, as long as that
entry is the newest one, and an entry is only picked up after 250 ms of silence.

`_recvWrite` is the slot of the newest entry, not the next free one; with an empty
ring it is the slot that will be used next. Times are microseconds.
-/
namespace PicoSomfy

open CircularBuffer Transitions

/-- An enumeration over `int`; a value read from a request may be any `int`. -/
abbrev SomfyButton := Int32

namespace SomfyButton

def my : SomfyButton := 1
def up : SomfyButton := 2
def down : SomfyButton := 4

end SomfyButton

def shortPress : UInt16 := 3
def longPress : UInt16 := 12

structure SomfyCommand where
  remoteId : UInt32
  rollingCode : UInt16
  repeats : UInt16
  button : SomfyButton
  deriving DecidableEq, Repr

structure RecvCommand where
  command : SomfyCommand
  lastMsgTime : ℤ
  deriving DecidableEq, Repr

/-- What the frames of one press share. -/
structure PressKey where
  remoteId : UInt32
  rollingCode : UInt16
  button : SomfyButton
  deriving DecidableEq, Repr

def SomfyCommand.key (c : SomfyCommand) : PressKey := ⟨c.remoteId, c.rollingCode, c.button⟩

/-- The seven bytes of a packet. -/
structure Packet where
  b0 : UInt8
  b1 : UInt8
  b2 : UInt8
  b3 : UInt8
  b4 : UInt8
  b5 : UInt8
  b6 : UInt8
  deriving DecidableEq, Repr

namespace Packet

/-- Undoes the chain of exclusive-ors, from the last byte down. -/
def decrypt (p : Packet) : Packet :=
  ⟨p.b0, p.b1 ^^^ p.b0, p.b2 ^^^ p.b1, p.b3 ^^^ p.b2, p.b4 ^^^ p.b3, p.b5 ^^^ p.b4, p.b6 ^^^ p.b5⟩

/-- A byte with its upper half folded onto the lower one. -/
def folded (b : UInt8) : UInt8 := b ^^^ (b >>> (4 : UInt8))

def checksum (p : Packet) : UInt8 :=
  folded p.b0 ^^^ folded p.b1 ^^^ folded p.b2 ^^^ folded p.b3 ^^^ folded p.b4 ^^^
    folded p.b5 ^^^ folded p.b6

/-- The press of a packet with a correct checksum and one of the three buttons. -/
def press (packet : Packet) : Option PressKey :=
  let msg := packet.decrypt
  let zeroed := { msg with b1 := msg.b1 &&& 0xF0 }
  let button : SomfyButton := Int32.ofNat (zeroed.b1 >>> (4 : UInt8)).toNat
  if zeroed.checksum &&& 0xF ≠ msg.b1 &&& 0xF ∨
      (button ≠ .up ∧ button ≠ .down ∧ button ≠ .my) then none
  else
    some {
      remoteId := (msg.b4.toUInt32 <<< (16 : UInt32)) ||| (msg.b5.toUInt32 <<< (8 : UInt32)) |||
        msg.b6.toUInt32
      rollingCode := (msg.b2.toUInt16 <<< (8 : UInt16)) ||| msg.b3.toUInt16
      button := button }

end Packet

def maxRecvQueue : ℕ := 8

structure ReceiveRing where
  recvWrite : ℕ
  recvRead : ℕ
  recvCount : ℕ
  receivedCommands : ℕ → RecvCommand

namespace ReceiveRing

/-- The constructor leaves the slots uninitialised. -/
def create (slots : ℕ → RecvCommand) : ReceiveRing := ⟨0, 0, 0, slots⟩

/-- Stores a new entry in the write slot. -/
def save (r : ReceiveRing) (k : PressKey) (now : ℤ) : ReceiveRing :=
  { r with
    receivedCommands := Function.update r.receivedCommands r.recvWrite
      ⟨⟨k.remoteId, k.rollingCode, 0, k.button⟩, now⟩
    recvCount := r.recvCount + 1 }

def newest (r : ReceiveRing) : RecvCommand := r.receivedCommands r.recvWrite

/-- One more repeat of an entry. -/
def bump (c : RecvCommand) (now : ℤ) : RecvCommand :=
  ⟨{ c.command with repeats := c.command.repeats + 1 }, now⟩

/-- The critical section of `ReceiveCommand`. -/
def receive (r : ReceiveRing) (k : PressKey) (now : ℤ) : ReceiveRing :=
  if r.recvCount = 0 then r.save k now
  else if r.newest.command.key = k then
    { r with
      receivedCommands := Function.update r.receivedCommands r.recvWrite (bump r.newest now) }
  else if r.recvCount = maxRecvQueue - 1 then r
  else { r with recvWrite := (r.recvWrite + 1) % maxRecvQueue }.save k now

def receiveCommand (r : ReceiveRing) (packet : Packet) (now : ℤ) : ReceiveRing :=
  match packet.press with
  | none => r
  | some k => r.receive k now

/-- Takes the oldest entry out of the ring. -/
def drop (r : ReceiveRing) : ReceiveRing :=
  { r with
    recvRead := (r.recvRead + 1) % maxRecvQueue
    recvCount := r.recvCount - 1
    recvWrite := if r.recvCount - 1 = 0 then (r.recvRead + 1) % maxRecvQueue else r.recvWrite }

/-- An entry waits until its repeats have had time to come in. -/
def readCommand (r : ReceiveRing) (now : ℤ) : Option SomfyCommand × ReceiveRing :=
  if r.recvCount = 0 then (none, r)
  else if now - (r.receivedCommands r.recvRead).lastMsgTime < 250000 then (none, r)
  else (some (r.receivedCommands r.recvRead).command, r.drop)

def offer (q : List RecvCommand) (k : PressKey) (now : ℤ) : List RecvCommand :=
  match q.getLast? with
  | none => [⟨⟨k.remoteId, k.rollingCode, 0, k.button⟩, now⟩]
  | some newest =>
      if newest.command.key = k then
        q.dropLast ++ [bump newest now]
      else if q.length = 7 then q
      else q ++ [⟨⟨k.remoteId, k.rollingCode, 0, k.button⟩, now⟩]

def poll (q : List RecvCommand) (now : ℤ) : Option SomfyCommand × List RecvCommand :=
  match q with
  | [] => (none, [])
  | oldest :: rest =>
      if now - oldest.lastMsgTime < 250000 then (none, q) else (some oldest.command, rest)

def entries (r : ReceiveRing) : List RecvCommand :=
  contents r.receivedCommands maxRecvQueue r.recvRead r.recvCount

/-- Where the write index stands, with and without entries. -/
structure Aligned (r : ReceiveRing) : Prop where
  read_lt : r.recvRead < 8
  count_le : r.recvCount ≤ 7
  empty : r.recvCount = 0 → r.recvWrite = r.recvRead
  newest : r.recvCount ≠ 0 → r.recvWrite = (r.recvRead + (r.recvCount - 1)) % 8

theorem Aligned.write_lt {r : ReceiveRing} (h : r.Aligned) : r.recvWrite < 8 := by
  by_cases hc : r.recvCount = 0
  · rw [h.empty hc]
    exact h.read_lt
  · rw [h.newest hc]
    exact Nat.mod_lt _ (by decide)

theorem aligned_create (slots : ℕ → RecvCommand) : (create slots).Aligned :=
  ⟨Nat.zero_lt_succ 7, Nat.zero_le 7, fun _ => rfl, fun h => absurd rfl h⟩

@[simp] theorem entries_create (slots : ℕ → RecvCommand) : (create slots).entries = [] := rfl

variable {r : ReceiveRing}

theorem length_entries : r.entries.length = r.recvCount := length_contents

/-- The newest entry is the one in the write slot. -/
theorem Aligned.getLast (h : r.Aligned) (hc : r.recvCount ≠ 0) :
    r.entries.getLast? = some r.newest := by
  obtain ⟨n, hn⟩ := Nat.exists_eq_succ_of_ne_zero hc
  have hw := h.newest hc
  rw [hn, Nat.succ_sub_one] at hw
  unfold entries ReceiveRing.newest
  rw [hn, Nat.succ_eq_add_one, contents_succ, List.getLast?_concat, maxRecvQueue, hw]

theorem Aligned.receive (h : r.Aligned) (k : PressKey) (now : ℤ) : (r.receive k now).Aligned := by
  obtain ⟨hr, hc, he, hn⟩ := h
  unfold ReceiveRing.receive maxRecvQueue
  split_ifs with h₀ h₁ h₂
  · have hw := he h₀
    exact ⟨hr, by simp only [save]; omega, fun h => absurd h (Nat.succ_ne_zero _),
      fun _ => by simp only [save]; omega⟩
  · exact ⟨hr, hc, he, hn⟩
  · exact ⟨hr, hc, he, hn⟩
  · have hw := hn h₀
    exact ⟨hr, by simp only [save]; omega, fun h => absurd h (Nat.succ_ne_zero _),
      fun _ => by simp only [save]; omega⟩

/-- Storing a frame is an offer to the list of entries. -/
theorem Aligned.entries_receive (h : r.Aligned) (k : PressKey) (now : ℤ) :
    (r.receive k now).entries = offer r.entries k now := by
  have hr := h.read_lt
  have hc := h.count_le
  unfold offer ReceiveRing.receive
  by_cases h₀ : r.recvCount = 0
  · have hnil : r.entries = [] := by rw [← List.length_eq_zero_iff, length_entries, h₀]
    have hw : r.recvWrite = (r.recvRead + 0) % 8 := by
      rw [h.empty h₀]
      omega
    rw [hnil, if_pos h₀]
    simp only [save, entries, maxRecvQueue, List.getLast?_nil, h₀, hw]
    exact contents_push (by decide) _
  · have hw := h.newest h₀
    rw [if_neg h₀, h.getLast h₀]
    simp only [length_entries]
    by_cases h₁ : r.newest.command.key = k
    · obtain ⟨n, hn⟩ := Nat.exists_eq_succ_of_ne_zero h₀
      rw [if_pos h₁, if_pos h₁]
      simp only [entries, maxRecvQueue, hw, hn, Nat.succ_eq_add_one, Nat.add_sub_cancel]
      exact contents_set_last (by omega) _
    rw [if_neg h₁, if_neg h₁]
    by_cases h₂ : r.recvCount = 7
    · rw [if_pos (show r.recvCount = maxRecvQueue - 1 from h₂), if_pos h₂]
    · rw [if_neg (show ¬r.recvCount = maxRecvQueue - 1 from h₂), if_neg h₂]
      have hw' : (r.recvWrite + 1) % 8 = (r.recvRead + r.recvCount) % 8 := by omega
      simp only [save, entries, maxRecvQueue, hw']
      exact contents_push (by omega) _

theorem Aligned.readCommand (h : r.Aligned) (now : ℤ) : (r.readCommand now).2.Aligned := by
  obtain ⟨hr, hc, he, hn⟩ := h
  unfold ReceiveRing.readCommand
  split_ifs with h₀ h₁
  · exact ⟨hr, hc, he, hn⟩
  · exact ⟨hr, hc, he, hn⟩
  · have hw := hn h₀
    refine ⟨Nat.mod_lt _ (by decide), (Nat.sub_le _ _).trans hc, fun h => ?_, fun h => ?_⟩
    · exact if_pos h
    · refine (if_neg h).trans ?_
      simp only [drop, maxRecvQueue] at h ⊢
      omega

/-- Reading a command is a poll of the list of entries. -/
theorem Aligned.readCommand_eq (h : r.Aligned) (now : ℤ) :
    ((r.readCommand now).1, (r.readCommand now).2.entries) = poll r.entries now := by
  unfold ReceiveRing.readCommand
  by_cases h₀ : r.recvCount = 0
  · have hnil : r.entries = [] := by rw [← List.length_eq_zero_iff, length_entries, h₀]
    rw [if_pos h₀, hnil]
    rfl
  · obtain ⟨n, hn⟩ := Nat.exists_eq_succ_of_ne_zero h₀
    have hhead : r.entries = r.receivedCommands r.recvRead :: r.drop.entries := by
      simp only [entries, drop, hn, Nat.succ_eq_add_one, Nat.add_sub_cancel]
      rw [contents_pop, maxRecvQueue, Nat.mod_eq_of_lt h.read_lt]
    rw [if_neg h₀, hhead]
    simp only [poll]
    split_ifs
    · rw [hhead]
    · rfl

end ReceiveRing

/-- A valid frame of a press comes in, or the main loop polls the ring. -/
inductive RingEvent where
  | frame (k : PressKey) (now : ℤ)
  | poll (now : ℤ)
  deriving DecidableEq, Repr

namespace ReceiveRing

/-- One event, with the command that a poll reads. -/
def serve (r : ReceiveRing) : RingEvent → Option SomfyCommand × ReceiveRing
  | .frame k now => (none, r.receive k now)
  | .poll now => r.readCommand now

/-- The same event on the list of entries. -/
def serveList (q : List RecvCommand) : RingEvent → Option SomfyCommand × List RecvCommand
  | .frame k now => (none, offer q k now)
  | .poll now => ReceiveRing.poll q now

/-- The press that an event puts into a list of entries as a new one. -/
def enqueued (q : List RecvCommand) : RingEvent → List PressKey
  | .frame k _ => if q.getLast?.map (·.command.key) = some k ∨ q.length = 7 then [] else [k]
  | .poll _ => []

/-- The presses that a list of events puts into the list, one after the other. -/
def enqueuedBy : List RecvCommand → List RingEvent → List PressKey
  | _, [] => []
  | q, e :: es => enqueued q e ++ enqueuedBy (serveList q e).2 es

variable {r : ReceiveRing}

theorem Aligned.serve (h : r.Aligned) (e : RingEvent) : (r.serve e).2.Aligned := by
  cases e with
  | frame k now => exact h.receive k now
  | poll now => exact h.readCommand now

theorem Aligned.serve_eq (h : r.Aligned) (e : RingEvent) :
    ((r.serve e).1, (r.serve e).2.entries) = serveList r.entries e := by
  cases e with
  | frame k now => exact Prod.ext rfl (h.entries_receive k now)
  | poll now => exact h.readCommand_eq now

theorem bump_key (c : RecvCommand) (now : ℤ) : (bump c now).command.key = c.command.key := rfl

/-- One event reads the oldest press or none, and adds at most one behind the newest. -/
theorem serveList_keys (q : List RecvCommand) (e : RingEvent) :
    (serveList q e).1.toList.map (·.key) ++ (serveList q e).2.map (·.command.key) =
      q.map (·.command.key) ++ enqueued q e := by
  cases e with
  | poll now =>
      cases q with
      | nil => rfl
      | cons oldest rest =>
          simp only [serveList, ReceiveRing.poll, enqueued, List.append_nil]
          split_ifs <;> rfl
  | frame k now =>
      simp only [serveList, offer, enqueued, Option.toList_none, List.map_nil, List.nil_append]
      cases hlast : q.getLast? with
      | none =>
          have hnil : q = [] := List.getLast?_eq_none_iff.mp hlast
          subst hnil
          rfl
      | some newest =>
          obtain ⟨front, hq⟩ := List.getLast?_eq_some_iff.mp hlast
          simp only [Option.map_some, Option.some.injEq]
          by_cases hkey : newest.command.key = k
          · rw [if_pos hkey, if_pos (.inl hkey), hq, List.dropLast_concat]
            simp only [List.map_append, List.map_cons, List.map_nil, bump_key, List.append_nil]
          · by_cases hfull : q.length = 7
            · rw [if_neg hkey, if_pos hfull, if_pos (.inr hfull), List.append_nil]
            · rw [if_neg hkey, if_neg hfull, if_neg (not_or.mpr ⟨hkey, hfull⟩), List.map_append]
              rfl

/-- The presses read, and those still in the list, are the presses put in, in order. -/
theorem trace_serveList_keys (q : List RecvCommand) (es : List RingEvent) :
    ((trace serveList q es).1.flatMap (·.toList)).map (·.key) ++
        (trace serveList q es).2.map (·.command.key) =
      q.map (·.command.key) ++ enqueuedBy q es := by
  induction es generalizing q with
  | nil => simp [trace, enqueuedBy]
  | cons e es ih =>
      simp only [trace, enqueuedBy, List.flatMap_cons, List.map_append, List.append_assoc]
      rw [ih, ← List.append_assoc, serveList_keys, List.append_assoc]

/-- The ring is a queue of at most seven entries: it answers every poll as the list of
entries does, its indices stay inside the eight slots, and the presses that went in
come out in their order, each once, or are still there. -/
theorem ring_refines_queue (slots : ℕ → RecvCommand) (es : List RingEvent) :
    ((trace serve (create slots) es).1, (trace serve (create slots) es).2.entries) =
        trace serveList [] es ∧
      (trace serve (create slots) es).2.entries.length ≤ 7 ∧
      (trace serve (create slots) es).2.recvRead < 8 ∧
      (trace serve (create slots) es).2.recvWrite < 8 ∧
      ((trace serve (create slots) es).1.flatMap (·.toList)).map (·.key) ++
          (trace serve (create slots) es).2.entries.map (·.command.key) =
        enqueuedBy [] es := by
  have haligned := aligned_create slots
  have hsame := trace_simulates (fun e h => Aligned.serve h e) (fun e h => Aligned.serve_eq h e)
    haligned es
  rw [entries_create] at hsame
  have hend : (trace serve (create slots) es).2.Aligned :=
    trace_invariant (I := Aligned) (fun e h => Aligned.serve h e) haligned es
  refine ⟨hsame, length_entries.trans_le hend.count_le, hend.read_lt, hend.write_lt, ?_⟩
  have hkeys := trace_serveList_keys [] es
  rw [← hsame] at hkeys
  simpa using hkeys

end ReceiveRing

end PicoSomfy
