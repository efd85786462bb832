import PicoSomfy.Scan

/-!
# What a conversion makes of a number

The text of a parameter says an integer, and a conversion of `sscanf` leaves another one in
the variable when the integer is outside its range. An id is read with `"%d"` into an
unsigned variable, with `"%u"`, or with `"%hu"`, which keeps the low half.
-/
namespace PicoSomfy

/-- `"%d"` into an int, `"%d"` into an unsigned variable, `"%u"` and `"%hu"`. -/
inductive Conversion where
  | d
  | key
  | u
  | hu
  deriving DecidableEq

namespace Conversion

/-- The number in the variable, for the number in the text. -/
def value : Conversion → ℤ → ℤ
  | .d, z => max (-2147483648) (min z 2147483647)
  | .key, z => max (-2147483648) (min z 2147483647) % 4294967296
  | .u, z => if 4294967296 ≤ |z| then 4294967295 else z % 4294967296
  | .hu, z => (if 4294967296 ≤ |z| then 4294967295 else z % 4294967296) % 65536

/-- The numbers the variable can hold. -/
def Holds : Conversion → ℤ → Prop
  | .d, z => -2147483648 ≤ z ∧ z ≤ 2147483647
  | .key, z => 0 ≤ z ∧ z ≤ 2147483647
  | .u, z => 0 ≤ z ∧ z ≤ 4294967295
  | .hu, z => 0 ≤ z ∧ z ≤ 65535

instance (c : Conversion) (z : ℤ) : Decidable (c.Holds z) := by
  cases c <;> exact inferInstanceAs (Decidable (_ ∧ _))

theorem value_eq_iff {c : Conversion} {z : ℤ} : c.value z = z ↔ c.Holds z := by
  cases c with
  | d =>
      simp only [value, Holds]
      omega
  | key =>
      simp only [value, Holds]
      omega
  | u =>
      simp only [value, Holds, abs]
      split_ifs <;> omega
  | hu =>
      simp only [value, Holds, abs]
      split_ifs <;> omega

end Conversion

namespace Scan

variable {t : List UInt8} {z : ℤ}

theorem int_eq : int t = .assigned z ↔
    ∃ negative n, number t = .assigned (negative, n) ∧ z = if negative then -(n : ℤ) else n := by
  unfold int
  cases hn : number t with
  | assigned x =>
      obtain ⟨negative, n⟩ := x
      simp only [map, assigned.injEq, Prod.mk.injEq]
      constructor
      · rintro rfl
        exact ⟨negative, n, ⟨rfl, rfl⟩, rfl⟩
      · rintro ⟨_, _, ⟨rfl, rfl⟩, rfl⟩
        rfl
  | mismatch => simp [map]
  | eof => simp [map]

theorem d_of_int (h : int t = .assigned z) :
    ∃ v, d t = .assigned v ∧ v.toInt = Conversion.d.value z := by
  obtain ⟨negative, n, hn, rfl⟩ := int_eq.mp h
  refine ⟨_, by rw [d, hn]; rfl, ?_⟩
  have hsize : (Int32.size : ℤ) = 4294967296 := rfl
  dsimp only
  rw [Int32.toInt_ofInt, Conversion.value, Int.bmod_eq_of_le] <;> cases negative <;>
    simp only [Bool.false_eq_true, if_true, if_false] <;> omega

theorem key_of_int (h : int t = .assigned z) :
    ∃ v, d t = .assigned v ∧ (v.toUInt32.toNat : ℤ) = Conversion.key.value z := by
  obtain ⟨v, hv, hz⟩ := d_of_int h
  refine ⟨v, hv, ?_⟩
  have hnat : (v.toUInt32.toNat : ℤ) = v.toInt % 4294967296 := by
    have hlt := v.toUInt32.toNat_lt
    have hbmod : v.toInt = (v.toUInt32.toNat : ℤ).bmod (2 ^ 32) :=
      BitVec.toInt_eq_toNat_bmod v.toBitVec
    have hmod : v.toInt % (2 ^ 32 : ℕ) = (v.toUInt32.toNat : ℤ) % (2 ^ 32 : ℕ) := by
      rw [hbmod]
      exact Int.bmod_emod
    omega
  rw [hnat, hz]
  rfl

theorem u_of_int (h : int t = .assigned z) :
    ∃ v, u t = .assigned v ∧ (v.toNat : ℤ) = Conversion.u.value z := by
  obtain ⟨negative, n, hn, rfl⟩ := int_eq.mp h
  refine ⟨_, by rw [u, hn]; rfl, ?_⟩
  have habs : 4294967296 ≤ |if negative then -(n : ℤ) else n| ↔ 4294967296 ≤ n := by
    cases negative <;> simp only [Bool.false_eq_true, if_true, if_false, abs_neg, Nat.abs_cast] <;>
      omega
  simp only [Conversion.value, habs]
  by_cases hlarge : 4294967296 ≤ n
  · rw [if_pos hlarge, if_pos hlarge]
    rfl
  · rw [if_neg hlarge, if_neg hlarge]
    have hnat : (UInt32.ofNat n).toNat = n := UInt32.toNat_ofNat_of_lt' (by rw [UInt32.size]; omega)
    cases negative with
    | false =>
        simp only [Bool.false_eq_true, if_false, hnat]
        omega
    | true =>
        simp only [if_true, UInt32.toNat_sub, hnat, UInt32.toNat_zero]
        omega

theorem hu_of_int (h : int t = .assigned z) :
    ∃ v, hu t = .assigned v ∧ (v.toNat : ℤ) = Conversion.hu.value z := by
  obtain ⟨v, hv, hz⟩ := u_of_int h
  refine ⟨v.toUInt16, by rw [hu, hv]; rfl, ?_⟩
  rw [UInt32.toNat_toUInt16]
  push_cast
  rw [hz]
  rfl

end Scan

end PicoSomfy
