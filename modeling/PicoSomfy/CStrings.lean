import PicoSomfy.NorFlash

/-!
# C strings in fixed fields

A `char` array of `n` bytes holds a string of at most `n - 1` bytes, none of them
zero, followed by a zero byte. `CString n` is that string with the two facts that
make it fit, so a field that overruns its array cannot be built. Reading a field
back takes the bytes before the first zero.
-/
namespace CStrings

open NorFlash

structure CString (n : ℕ) where
  chars : List UInt8
  fits : chars.length < n
  noNul : 0 ∉ chars
  deriving DecidableEq, Repr

@[ext] theorem CString.ext {n : ℕ} {s t : CString n} (h : s.chars = t.chars) : s = t := by
  cases s
  cases t
  simpa using h

/-- What `c_str()` shows of a string: the bytes before the first zero. -/
def cText (bytes : List UInt8) : List UInt8 := bytes.takeWhile (· ≠ 0)

theorem zero_not_mem_cText (bytes : List UInt8) : 0 ∉ cText bytes := by
  intro h
  simpa using List.mem_takeWhile_imp h

theorem cText_eq_self {bytes : List UInt8} (h : 0 ∉ bytes) : cText bytes = bytes := by
  rw [cText, List.takeWhile_eq_self_iff]
  intro b hb
  have hne : b ≠ 0 := fun h0 => h (h0 ▸ hb)
  simpa using hne

theorem cText_append_zero {bytes rest : List UInt8} (h : 0 ∉ bytes) :
    cText (bytes ++ 0 :: rest) = bytes := by
  induction bytes with
  | nil => simp [cText]
  | cons b bs ih =>
      simp only [List.mem_cons, not_or] at h
      have hb : b ≠ 0 := Ne.symm h.1
      simpa [cText, hb] using ih h.2

theorem length_cText_le (bytes : List UInt8) : (cText bytes).length ≤ bytes.length :=
  (List.takeWhile_sublist _).length_le

/-- `strcpy` into an array of `n` bytes; `none` is the overrun. -/
def strcpy (n : ℕ) (bytes : List UInt8) : Option (CString n) :=
  if h : (cText bytes).length < n then some ⟨cText bytes, h, zero_not_mem_cText bytes⟩ else none

theorem strcpy_eq_some {n : ℕ} {bytes : List UInt8} {s : CString n} :
    strcpy n bytes = some s ↔ s.chars = cText bytes := by
  unfold strcpy
  constructor
  · intro h
    split_ifs at h with hn
    cases h
    rfl
  · intro h
    rw [dif_pos (h ▸ s.fits)]
    exact congrArg some (CString.ext h.symm)

namespace CString

variable {n : ℕ}

/-- The bytes of the whole field; those after the string are zero here. -/
def encode (s : CString n) : List UInt8 :=
  s.chars ++ List.replicate (n - s.chars.length) 0

def decode (n : ℕ) (hn : 0 < n) (field : List UInt8) : CString n where
  chars := cText (field.take (n - 1))
  fits := by
    have h := length_cText_le (field.take (n - 1))
    rw [List.length_take] at h
    omega
  noNul := zero_not_mem_cText _

@[simp] theorem length_encode (s : CString n) : s.encode.length = n := by
  have h := s.fits
  simp only [encode, List.length_append, List.length_replicate]
  omega

theorem decode_encode (hn : 0 < n) (s : CString n) (rest : List UInt8) :
    decode n hn (s.encode ++ rest) = s := by
  apply CString.ext
  have hfit := s.fits
  have htake : (s.encode ++ rest).take (n - 1) =
      s.chars ++ List.replicate (n - 1 - s.chars.length) 0 := by
    rw [List.take_append_of_le_length (by rw [length_encode]; omega), encode, List.take_append,
      List.take_of_length_le (by omega), List.take_replicate]
    congr
    omega
  change cText _ = _
  rw [htake]
  cases hm : n - 1 - s.chars.length with
  | zero => simpa using cText_eq_self s.noNul
  | succ m => exact cText_append_zero s.noNul

def empty (hn : 0 < n) : CString n := ⟨[], hn, List.not_mem_nil⟩

end CString

/-- An array of half-words, back to back. -/
def encode16s (xs : List UInt16) : List UInt8 := xs.flatMap encode16

def decode16s : ℕ → List UInt8 → List UInt16
  | 0, _ => []
  | k + 1, bs => decode16 bs :: decode16s k (bs.drop 2)

def encode32s (xs : List UInt32) : List UInt8 := xs.flatMap encode32

def decode32s : ℕ → List UInt8 → List UInt32
  | 0, _ => []
  | k + 1, bs => decode32 bs :: decode32s k (bs.drop 4)

@[simp] theorem length_encode16s (xs : List UInt16) : (encode16s xs).length = 2 * xs.length := by
  induction xs with
  | nil => rfl
  | cons x xs ih =>
      simp only [encode16s, List.flatMap_cons, List.length_append] at ih ⊢
      rw [ih, length_encode16, List.length_cons]
      omega

@[simp] theorem length_encode32s (xs : List UInt32) : (encode32s xs).length = 4 * xs.length := by
  induction xs with
  | nil => rfl
  | cons x xs ih =>
      simp only [encode32s, List.flatMap_cons, List.length_append] at ih ⊢
      rw [ih, length_encode32, List.length_cons]
      omega

@[simp] theorem length_decode16s (k : ℕ) (bs : List UInt8) : (decode16s k bs).length = k := by
  induction k generalizing bs with
  | zero => rfl
  | succ k ih => simp [decode16s, ih]

theorem decode16s_encode16s (xs : List UInt16) (rest : List UInt8) :
    decode16s xs.length (encode16s xs ++ rest) = xs := by
  induction xs with
  | nil => rfl
  | cons x xs ih =>
      simp only [encode16s, List.flatMap_cons, List.append_assoc, List.length_cons, decode16s]
      rw [decode16_encode16, List.drop_left' (length_encode16 x)]
      exact congrArg (x :: ·) ih

theorem decode32s_encode32s (xs : List UInt32) (rest : List UInt8) :
    decode32s xs.length (encode32s xs ++ rest) = xs := by
  induction xs with
  | nil => rfl
  | cons x xs ih =>
      simp only [encode32s, List.flatMap_cons, List.append_assoc, List.length_cons, decode32s]
      rw [decode32_encode32, List.drop_left' (length_encode32 x)]
      exact congrArg (x :: ·) ih

end CStrings
