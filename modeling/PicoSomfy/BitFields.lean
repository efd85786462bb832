import Mathlib

/-!
# Bit fields

A register is a row of fields, from its lowest bit up. `pack` puts the fields into one
number, as a union of bit fields does, and `field` takes one out again.
-/
namespace BitFields

/-- A number whose fields have the given widths and values. A value too large for its field
loses its upper bits. -/
def pack : List (ℕ × ℕ) → ℕ
  | [] => 0
  | f :: fs => f.2 % 2 ^ f.1 + 2 ^ f.1 * pack fs

def width (fs : List (ℕ × ℕ)) : ℕ := (fs.map Prod.fst).sum

/-- The field of `w` bits above the lowest `lo`. -/
def field (n lo w : ℕ) : ℕ := n / 2 ^ lo % 2 ^ w

theorem width_cons (f : ℕ × ℕ) (fs : List (ℕ × ℕ)) : width (f :: fs) = f.1 + width fs := by
  rw [width, List.map_cons, List.sum_cons, width]

/-- The fields above the lowest one. -/
theorem pack_div (f : ℕ × ℕ) (fs : List (ℕ × ℕ)) : pack (f :: fs) / 2 ^ f.1 = pack fs := by
  have hlow : f.2 % 2 ^ f.1 < 2 ^ f.1 := Nat.mod_lt _ (Nat.two_pow_pos _)
  rw [pack, Nat.add_mul_div_left _ _ (Nat.two_pow_pos _), Nat.div_eq_of_lt hlow, Nat.zero_add]

theorem pack_mod (f : ℕ × ℕ) (fs : List (ℕ × ℕ)) : pack (f :: fs) % 2 ^ f.1 = f.2 % 2 ^ f.1 := by
  rw [pack, Nat.add_mul_mod_self_left, Nat.mod_mod]

/-- Every field can be read back. -/
theorem field_pack (fs gs : List (ℕ × ℕ)) (f : ℕ × ℕ) :
    field (pack (fs ++ f :: gs)) (width fs) f.1 = f.2 % 2 ^ f.1 := by
  induction fs with
  | nil =>
      rw [List.nil_append, field, show width [] = 0 from rfl, Nat.pow_zero, Nat.div_one, pack_mod]
  | cons g fs ih =>
      rw [List.cons_append, field, width_cons, Nat.pow_add, ← Nat.div_div_eq_div_mul, pack_div]
      exact ih

/-- The fields in the lowest byte stay when the rest is cut off. -/
theorem field_mod (n : ℕ) {lo w k : ℕ} (h : lo + w ≤ k) : field (n % 2 ^ k) lo w = field n lo w := by
  rw [field, field, ← Nat.add_sub_cancel' ((Nat.le_add_right lo w).trans h), Nat.pow_add,
    Nat.mod_mul_right_div_self, Nat.mod_mod_of_dvd]
  exact Nat.pow_dvd_pow 2 (by omega)

end BitFields
