import PicoSomfy.Transitions

/-!
# Tables of leases

A table says for every slot which client holds it and since when. A grant gives a slot
to a client or starts the client's time again; a release empties a slot. The two rules
of a table are that a held slot is granted only to the client that holds it, and that
it is released only when its time is over. A run that follows the rules never grants a
slot to a second client within the time of the first.

Slots, clients and times are arbitrary; `ends` is the end of a lease granted at a
time.
-/
namespace Leases

open Transitions

variable {S C T : Type*} [DecidableEq S] [Preorder T]

/-- Who holds a slot, and since when. -/
abbrev Table (S C T : Type*) := S → Option (C × T)

inductive Move (S C T : Type*) where
  | grant (slot : S) (client : C) (time : T)
  | release (slot : S) (time : T)

def Move.time : Move S C T → T
  | .grant _ _ time => time
  | .release _ time => time

def Move.apply : Move S C T → Table S C T → Table S C T
  | .grant slot client time, table => Function.update table slot (some (client, time))
  | .release slot _, table => Function.update table slot none

/-- The two rules. -/
def Move.Allowed (ends : T → T) (table : Table S C T) : Move S C T → Prop
  | .grant slot client _ => ∀ held ∈ table slot, held.1 = client
  | .release slot time => ∀ held ∈ table slot, ends held.2 ≤ time

/-- A run of moves that follow the rules. -/
abbrev Follows (ends : T → T) : Table S C T → List (Move S C T) → Table S C T → Prop :=
  Run (fun table move => some (move.apply table)) (Move.Allowed ends)

variable {ends : T → T} {table table' : Table S C T} {moves : List (Move S C T)}
  {slot : S} {client : C} {start : T}

theorem Follows.nil (table : Table S C T) : Follows ends table [] table := .refl table

theorem Follows.one {move : Move S C T} (h : move.Allowed ends table) :
    Follows ends table [move] (move.apply table) := .single h rfl

/-- The client holds the slot at least until the end of a lease granted at `start`. -/
def HeldSince (ends : T → T) (table : Table S C T) (slot : S) (client : C) (start : T) : Prop :=
  ∃ time, table slot = some (client, time) ∧ ends start ≤ ends time

/-- A move before the end of a lease leaves it alone or renews it. -/
theorem HeldSince.step {move : Move S C T} (h : HeldSince ends table slot client start)
    (hmono : Monotone ends) (hallowed : move.Allowed ends table) (hstart : start ≤ move.time)
    (hend : ¬ends start ≤ move.time) : HeldSince ends (move.apply table) slot client start := by
  obtain ⟨time, htable, hle⟩ := h
  cases move with
  | grant slot' client' time' =>
      by_cases hs : slot = slot'
      · subst hs
        have hsame : client = client' := hallowed _ htable
        rw [hsame]
        exact ⟨time', Function.update_self .., hmono hstart⟩
      · exact ⟨time, (Function.update_of_ne hs ..).trans htable, hle⟩
  | release slot' time' =>
      by_cases hs : slot = slot'
      · subst hs
        exact absurd (hle.trans (hallowed _ htable)) hend
      · exact ⟨time, (Function.update_of_ne hs ..).trans htable, hle⟩

/-- A lease is kept to its end. -/
theorem HeldSince.run (h : HeldSince ends table slot client start) (hmono : Monotone ends)
    (hrun : Follows ends table moves table')
    (htimes : ∀ move ∈ moves, start ≤ move.time ∧ ¬ends start ≤ move.time) :
    HeldSince ends table' slot client start := by
  induction hrun with
  | refl => exact h
  | snoc _ hallowed hstep ih =>
      rw [← Option.some.inj hstep]
      have hlast := htimes _ (List.mem_append_right _ (List.mem_singleton_self _))
      apply HeldSince.step _ hmono hallowed hlast.1 hlast.2
      exact ih fun move hmove => htimes move (List.mem_append_left _ hmove)

end Leases
