import PicoSomfy.SortedMap

/-!
# Names that belong to objects

An object enters itself into a table under its printed name when it is built, and removes
the name when it is destroyed. The table keeps an entry that is there. It stays `Faithful`
to who owns which name as long as no name is entered that has an owner.
-/
namespace OwnedNames

open Std SortedMap

variable {N K V : Type*} {cmp : K → K → Ordering} [TransCmp cmp]
variable {t : ExtTreeMap K V cmp} {print : N → K} {owner : N → Option V}

/-- The table finds the owner of every name, and nothing under other keys. -/
structure Faithful (t : ExtTreeMap K V cmp) (print : N → K) (owner : N → Option V) : Prop where
  named : ∀ n, t[print n]? = owner n
  others : ∀ k, (∀ n, print n ≠ k) → t[k]? = none

theorem Faithful.empty (print : N → K) :
    Faithful (∅ : ExtTreeMap K V cmp) print fun _ => none :=
  ⟨fun _ => ExtTreeMap.getElem?_empty, fun _ _ => ExtTreeMap.getElem?_empty⟩

variable [LawfulEqCmp cmp] [DecidableEq K] [DecidableEq N]

/-- A name without an owner gets one. -/
theorem Faithful.enter (h : Faithful t print owner) (hprint : Function.Injective print) {n : N}
    (hfree : owner n = none) (v : V) :
    Faithful (t.insertIfNew (print n) v) print (Function.update owner n (some v)) := by
  have hnone : t[print n]? = none := (h.named n).trans hfree
  constructor
  · intro a
    rw [get_insertIfNew_fresh hnone]
    by_cases ha : a = n
    · rw [ha, if_pos rfl, Function.update_self]
    · rw [if_neg fun heq => ha (hprint heq).symm, Function.update_of_ne ha, h.named]
  · intro k hk
    rw [get_insertIfNew_fresh hnone, if_neg (hk n), h.others k hk]

/-- The name of an object that goes is free. -/
theorem Faithful.remove (h : Faithful t print owner) (hprint : Function.Injective print) (n : N) :
    Faithful (t.erase (print n)) print (Function.update owner n none) := by
  constructor
  · intro a
    rw [get_erase]
    by_cases ha : a = n
    · rw [ha, if_pos rfl, Function.update_self]
    · rw [if_neg fun heq => ha (hprint heq).symm, Function.update_of_ne ha, h.named]
  · intro k hk
    rw [get_erase, if_neg (hk n), h.others k hk]

end OwnedNames
