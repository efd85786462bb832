import Mathlib

/-!
# Circular buffers

A circular buffer is a function from slot numbers to items with a start and a
count; its contents are the items from the start on, modulo the capacity. An item
is added behind the last one or taken from the front, and the last one can be
replaced in place. Which further index a program keeps (the next free slot or the
last used one) is its own affair.
-/
namespace CircularBuffer

variable {α : Type*}

/-- The items of the buffer, in order. -/
def contents (slots : ℕ → α) (capacity start count : ℕ) : List α :=
  (List.range count).map fun i => slots ((start + i) % capacity)

variable {slots : ℕ → α} {capacity start count : ℕ}

@[simp] theorem length_contents : (contents slots capacity start count).length = count := by
  simp [contents]

@[simp] theorem contents_zero : contents slots capacity start 0 = [] := rfl

/-- Different offsets below the capacity are different slots. -/
theorem slot_ne {i j : ℕ} (hi : i < capacity) (hj : j < capacity) (hij : i ≠ j) :
    (start + i) % capacity ≠ (start + j) % capacity := by
  intro h
  have hmod := Nat.ModEq.add_left_cancel' start (h : start + i ≡ start + j [MOD capacity])
  exact hij (Nat.ModEq.eq_of_lt_of_lt hmod hi hj)

/-- Writing a slot behind the contents leaves them as they are. -/
theorem contents_update_of_le {k : ℕ} (hk : count ≤ k) (hc : k < capacity) (x : α) :
    contents (Function.update slots ((start + k) % capacity) x) capacity start count =
      contents slots capacity start count := by
  apply List.map_congr_left
  intro i hi
  have hik := List.mem_range.mp hi
  exact Function.update_of_ne (slot_ne (by omega) hc (by omega)) _ _

theorem contents_succ :
    contents slots capacity start (count + 1) =
      contents slots capacity start count ++ [slots ((start + count) % capacity)] := by
  simp only [contents, List.range_succ, List.map_append, List.map_cons, List.map_nil]

theorem contents_push (hc : count < capacity) (x : α) :
    contents (Function.update slots ((start + count) % capacity) x) capacity start (count + 1) =
      contents slots capacity start count ++ [x] := by
  rw [contents_succ, contents_update_of_le le_rfl hc, Function.update_self]

/-- Replacing the last item. -/
theorem contents_set_last (hc : count < capacity) (x : α) :
    contents (Function.update slots ((start + count) % capacity) x) capacity start (count + 1) =
      (contents slots capacity start (count + 1)).dropLast ++ [x] := by
  rw [contents_push hc, contents_succ, List.dropLast_concat]

theorem contents_pop :
    contents slots capacity start (count + 1) =
      slots (start % capacity) :: contents slots capacity ((start + 1) % capacity) count := by
  simp only [contents, List.range_succ_eq_map, List.map_cons, List.map_map, Nat.add_zero]
  refine congrArg _ (List.map_congr_left fun i _ => ?_)
  simp only [Function.comp_apply, Nat.succ_eq_add_one, Nat.mod_add_mod]
  rw [Nat.add_assoc, Nat.add_comm 1 i]

end CircularBuffer
