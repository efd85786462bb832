import Mathlib

/-!
# Rounding to single precision

A float has 24 significant bits, and its last place is not below `2 ^ (-149)`. Every
operation on floats gives the float nearest to the exact result, and the even one of two
that are equally near. The error is half a unit in the last place; that is a fraction of
`2 ^ (-24)` of a normal number, and at most `2 ^ (n - 25)` of a number below `2 ^ n`.

Numbers are rational here. Infinities are left out: a rounded number may be as large as
it likes.
-/
namespace Binary32

/-- The nearest integer, the even one of two. -/
def nearestEven (x : ℚ) : ℤ :=
  if x - ⌊x⌋ < 1 / 2 ∨ (x - ⌊x⌋ = 1 / 2 ∧ ⌊x⌋ % 2 = 0) then ⌊x⌋ else ⌊x⌋ + 1

/-- The exponent of the last place. -/
def lastPlace (x : ℚ) : ℤ := max (Int.log 2 |x| - 23) (-149)

/-- The nearest float. -/
def round (x : ℚ) : ℚ := nearestEven (x / 2 ^ lastPlace x) * 2 ^ lastPlace x

variable {x : ℚ}

theorem abs_nearestEven_sub_le (x : ℚ) : |(nearestEven x : ℚ) - x| ≤ 1 / 2 := by
  have hlow := Int.floor_le x
  have hhigh := Int.lt_floor_add_one x
  unfold nearestEven
  split_ifs with h
  · have hfrac : x - ⌊x⌋ ≤ 1 / 2 := h.elim le_of_lt fun h => h.1.le
    rw [abs_le]
    constructor <;> linarith
  · have hfrac : 1 / 2 ≤ x - ⌊x⌋ := le_of_not_gt fun hlt => h (.inl hlt)
    push_cast
    rw [abs_le]
    constructor <;> linarith

theorem nearestEven_intCast (n : ℤ) : nearestEven n = n := by
  unfold nearestEven
  rw [Int.floor_intCast, sub_self, if_pos (.inl (by norm_num))]

theorem abs_round_sub_le (x : ℚ) : |round x - x| ≤ 2 ^ lastPlace x / 2 := by
  have hplace : (0 : ℚ) < 2 ^ lastPlace x := zpow_pos two_pos _
  have hscaled := abs_nearestEven_sub_le (x / 2 ^ lastPlace x)
  have heq : round x - x =
      ((nearestEven (x / 2 ^ lastPlace x) : ℚ) - x / 2 ^ lastPlace x) * 2 ^ lastPlace x := by
    rw [round, sub_mul, div_mul_cancel₀ _ hplace.ne']
  rw [heq, abs_mul, abs_of_pos hplace]
  linarith [mul_le_mul_of_nonneg_right hscaled hplace.le]

/-- The error of a normal number is a fraction of the number. -/
theorem abs_round_sub_le_of_normal (h : 2 ^ (-126 : ℤ) ≤ |x|) : |round x - x| ≤ |x| / 2 ^ 24 := by
  have hpos : 0 < |x| := lt_of_lt_of_le (zpow_pos two_pos _) h
  have hlog : (-126 : ℤ) ≤ Int.log 2 |x| := by
    have hmono := Int.log_mono_right (b := 2) (zpow_pos two_pos (-126)) h
    rwa [show (2 : ℚ) = ((2 : ℕ) : ℚ) by norm_num, Int.log_zpow (by norm_num)] at hmono
  have hplace : lastPlace x = Int.log 2 |x| - 23 := by
    unfold lastPlace
    omega
  have hself : (2 : ℚ) ^ Int.log 2 |x| ≤ |x| := by
    have hle := Int.zpow_log_le_self (b := 2) (by norm_num) hpos
    exact_mod_cast hle
  have herror := abs_round_sub_le x
  rw [hplace, zpow_sub₀ two_ne_zero] at herror
  calc |round x - x| ≤ 2 ^ Int.log 2 |x| / 2 ^ (23 : ℤ) / 2 := herror
    _ = 2 ^ Int.log 2 |x| / 2 ^ 24 := by norm_num; ring
    _ ≤ |x| / 2 ^ 24 := by gcongr

theorem round_zero : round 0 = 0 := by
  have hzero : nearestEven 0 = 0 := by exact_mod_cast nearestEven_intCast 0
  rw [round, zero_div, hzero, Int.cast_zero, zero_mul]

/-- The error below a power of two. -/
theorem abs_round_sub_le_of_lt {n : ℤ} (hn : -125 ≤ n) (h : |x| < 2 ^ n) :
    |round x - x| ≤ 2 ^ (n - 25) := by
  rcases eq_or_ne x 0 with rfl | hx
  · rw [round_zero, sub_zero, abs_zero]
    positivity
  have hself := Int.zpow_log_le_self (b := 2) (by norm_num) (abs_pos.mpr hx)
  have hlog : Int.log 2 |x| < n := by
    have hlt : ((2 : ℕ) : ℚ) ^ Int.log 2 |x| < ((2 : ℕ) : ℚ) ^ n :=
      lt_of_le_of_lt hself (by exact_mod_cast h)
    exact (zpow_lt_zpow_iff_right₀ (by norm_num)).mp hlt
  have hplace : lastPlace x ≤ n - 24 := by
    unfold lastPlace
    omega
  calc |round x - x| ≤ 2 ^ lastPlace x / 2 := abs_round_sub_le x
    _ ≤ 2 ^ (n - 24) / 2 := by gcongr; norm_num
    _ = 2 ^ (n - 25) := by
        rw [show n - 24 = (n - 25) + 1 by ring, zpow_add_one₀ two_ne_zero]
        ring

/-- The error of any number, by a power of two. -/
theorem abs_round_sub_le_or {n : ℤ} (hn : -125 ≤ n) (x : ℚ) : |round x - x| ≤ 2 ^ (n - 25) ∨
    (2 ^ n ≤ |x| ∧ |round x - x| ≤ |x| / 2 ^ 24) := by
  rcases lt_or_ge |x| (2 ^ n) with hlow | hhigh
  · exact .inl (abs_round_sub_le_of_lt hn hlow)
  · have hnormal : (2 : ℚ) ^ (-126 : ℤ) ≤ 2 ^ n := zpow_le_zpow_right₀ one_le_two (by omega)
    exact .inr ⟨hhigh, abs_round_sub_le_of_normal (hnormal.trans hhigh)⟩

/-- A number after at most `n` roundings, each of which changed it by a factor near one. -/
def Within (n : ℕ) (x y : ℚ) : Prop :=
  ∃ c, y = x * c ∧ (1 - 1 / 2 ^ 24) ^ n ≤ c ∧ c * (1 - 1 / 2 ^ 24) ^ n ≤ 1

variable {y z w : ℚ} {n m : ℕ}

theorem factor_pos (n : ℕ) : (0 : ℚ) < (1 - 1 / 2 ^ 24) ^ n := by
  have hbase : (0 : ℚ) < 1 - 1 / 2 ^ 24 := by norm_num
  positivity

theorem Within.refl (x : ℚ) : Within 0 x x := ⟨1, by simp, by simp, by simp⟩

theorem Within.trans (h : Within n x y) (k : Within m y z) : Within (n + m) x z := by
  obtain ⟨c, rfl, hlow, hhigh⟩ := h
  obtain ⟨e, rfl, klow, khigh⟩ := k
  have hn := factor_pos n
  have hm := factor_pos m
  refine ⟨c * e, mul_assoc .., ?_, ?_⟩
  · rw [pow_add]
    exact mul_le_mul hlow klow hm.le (hn.le.trans hlow)
  · rw [pow_add, mul_mul_mul_comm]
    exact mul_le_one₀ hhigh (mul_nonneg (hm.le.trans klow) hm.le) khigh

theorem Within.mul (h : Within n x y) (k : Within m z w) : Within (n + m) (x * z) (y * w) := by
  obtain ⟨c, rfl, hlow, hhigh⟩ := h
  obtain ⟨e, rfl, klow, khigh⟩ := k
  have hx : Within n (x * z) (x * c * z) := ⟨c, by ring, hlow, hhigh⟩
  have hz : Within m (x * c * z) (x * c * (z * e)) := ⟨e, by ring, klow, khigh⟩
  exact hx.trans hz

theorem Within.inv (h : Within n x y) : Within n x⁻¹ y⁻¹ := by
  obtain ⟨c, rfl, hlow, hhigh⟩ := h
  have hn := factor_pos n
  have hc : 0 < c := hn.trans_le hlow
  refine ⟨c⁻¹, mul_inv .., ?_, ?_⟩
  · rw [le_inv_comm₀ hn hc, ← one_div, le_div_iff₀ hn]
    exact hhigh
  · rwa [inv_mul_le_one₀ hc]

theorem Within.div (h : Within n x y) (k : Within m z w) : Within (n + m) (x / z) (y / w) := by
  rw [div_eq_mul_inv, div_eq_mul_inv]
  exact h.mul k.inv

/-- A number and what became of it have the same sign. -/
theorem Within.pos_iff (h : Within n x y) : 0 < y ↔ 0 < x := by
  obtain ⟨c, rfl, hlow, -⟩ := h
  exact mul_pos_iff_of_pos_right ((factor_pos n).trans_le hlow)

theorem Within.neg_iff (h : Within n x y) : y < 0 ↔ x < 0 := by
  obtain ⟨c, rfl, hlow, -⟩ := h
  have hc : 0 < c := (factor_pos n).trans_le hlow
  rw [← neg_pos, ← neg_mul, mul_pos_iff_of_pos_right hc, neg_pos]

theorem Within.abs_le (h : Within n x y) : (1 - n / 2 ^ 24) * |x| ≤ |y| := by
  obtain ⟨c, rfl, hlow, -⟩ := h
  have hbernoulli := one_add_mul_le_pow (show (-2 : ℚ) ≤ -(1 / 2 ^ 24) by norm_num) n
  have hc : 0 < c := (factor_pos n).trans_le hlow
  have hfactor : 1 - n / 2 ^ 24 ≤ c := by
    refine le_trans ?_ hlow
    calc (1 : ℚ) - n / 2 ^ 24 = 1 + n * -(1 / 2 ^ 24) := by ring
      _ ≤ (1 + -(1 / 2 ^ 24)) ^ n := hbernoulli
      _ = (1 - 1 / 2 ^ 24) ^ n := by rw [← sub_eq_add_neg]
  rw [abs_mul, abs_of_pos hc, mul_comm]
  exact mul_le_mul_of_nonneg_left hfactor (abs_nonneg x)

theorem within_round (h : 2 ^ (-126 : ℤ) ≤ |x|) : Within 1 x (round x) := by
  have hpos : 0 < |x| := lt_of_lt_of_le (zpow_pos two_pos _) h
  have hx : x ≠ 0 := abs_pos.mp hpos
  have herror := abs_round_sub_le_of_normal h
  have hfactor : |round x / x - 1| ≤ 1 / 2 ^ 24 := by
    rw [div_sub_one hx, abs_div, div_le_iff₀ hpos]
    linarith
  obtain ⟨hlow, hhigh⟩ := abs_le.mp hfactor
  refine ⟨round x / x, (mul_div_cancel₀ _ hx).symm, by linarith, ?_⟩
  calc round x / x * (1 - 1 / 2 ^ 24) ^ 1
      ≤ (1 + 1 / 2 ^ 24) * (1 - 1 / 2 ^ 24) ^ 1 := by gcongr; linarith
    _ ≤ 1 := by norm_num

/-- A number that is not too small may be rounded once more. -/
theorem Within.round (h : Within n x y) (hn : n ≤ 2 ^ 23) (hx : 2 ^ (-125 : ℤ) ≤ |x|) :
    Within (n + 1) x (round y) := by
  refine h.trans (within_round ?_)
  have hhalf : (1 : ℚ) / 2 ≤ 1 - n / 2 ^ 24 := by
    have hcast : (n : ℚ) ≤ 2 ^ 23 := by exact_mod_cast hn
    linarith
  calc (2 : ℚ) ^ (-126 : ℤ) = 1 / 2 * 2 ^ (-125 : ℤ) := by norm_num
    _ ≤ (1 - n / 2 ^ 24) * |x| := mul_le_mul hhalf hx (by positivity) (by linarith)
    _ ≤ |y| := h.abs_le

end Binary32
