import Mathlib

/-!
# NOR flash and little-endian words

A NOR array is a byte for every address. Erasing a range sets its bytes to
`0xFF`; programming a range can only clear bits, so it takes the bitwise AND of
what is stored and what is written. Words are little-endian.

Addresses are natural numbers: neither a page size nor an array size is fixed,
and a program command may have any length and start anywhere.
-/
namespace NorFlash

abbrev Image := ℕ → UInt8

inductive Command where
  | erase (offset size : ℕ)
  | program (offset : ℕ) (bytes : List UInt8)
  deriving DecidableEq, Repr

/-- The effect of one command on the whole array. -/
def Command.apply : Command → Image → Image
  | .erase offset size, m => fun a =>
      if offset ≤ a ∧ a < offset + size then 0xFF else m a
  | .program offset bytes, m => fun a =>
      if offset ≤ a ∧ a < offset + bytes.length then m a &&& bytes.getD (a - offset) 0xFF
      else m a

/-- The addresses a command may change. -/
def Command.Covers : Command → ℕ → Prop
  | .erase offset size, a => offset ≤ a ∧ a < offset + size
  | .program offset bytes, a => offset ≤ a ∧ a < offset + bytes.length

def applyAll (cs : List Command) (m : Image) : Image := cs.foldl (fun m c => c.apply m) m

theorem apply_of_not_covers {c : Command} {a : ℕ} (h : ¬c.Covers a) (m : Image) :
    c.apply m a = m a := by
  cases c with
  | erase offset size => exact if_neg h
  | program offset bytes => exact if_neg h

theorem erase_apply {offset size a : ℕ} (h : offset ≤ a ∧ a < offset + size) (m : Image) :
    (Command.erase offset size).apply m a = 0xFF := if_pos h

theorem and_erased (x : UInt8) : 0xFF &&& x = x := by
  apply UInt8.toBitVec_inj.mp
  simpa using BitVec.allOnes_and (x := x.toBitVec)

/-- Programming erased bytes stores exactly what is written. -/
theorem program_erased {offset a : ℕ} {bytes : List UInt8} {m : Image}
    (h : offset ≤ a ∧ a < offset + bytes.length) (he : m a = 0xFF) :
    (Command.program offset bytes).apply m a = bytes.getD (a - offset) 0xFF := by
  simp only [Command.apply, if_pos h, he, and_erased]

/-- Programming zeros clears every byte, whatever was stored. -/
theorem program_zeros {offset size a : ℕ} (h : offset ≤ a ∧ a < offset + size) (m : Image) :
    (Command.program offset (List.replicate size 0)).apply m a = 0 := by
  have hs : a - offset < size := by omega
  have hp : offset ≤ a ∧ a < offset + (List.replicate size (0 : UInt8)).length := by simpa using h
  simp only [Command.apply, if_pos hp]
  rw [List.getD_eq_getElem _ _ (by simpa using hs), List.getElem_replicate]
  simp

/-- The `n` bytes from address `a` on. -/
def bytesAt (m : Image) (a n : ℕ) : List UInt8 := (List.range n).map fun i => m (a + i)

@[simp] theorem length_bytesAt (m : Image) (a n : ℕ) : (bytesAt m a n).length = n := by
  simp [bytesAt]

theorem getElem?_bytesAt (m : Image) {a n i : ℕ} (h : i < n) :
    (bytesAt m a n)[i]? = some (m (a + i)) := by
  simp [bytesAt, List.getElem?_range h]

theorem bytesAt_congr {m m' : Image} {a n : ℕ} (h : ∀ i < n, m (a + i) = m' (a + i)) :
    bytesAt m a n = bytesAt m' a n :=
  List.map_congr_left fun i hi => h i (List.mem_range.mp hi)

theorem bytesAt_add (m : Image) (a n k : ℕ) :
    bytesAt m a (n + k) = bytesAt m a n ++ bytesAt m (a + n) k := by
  simp [bytesAt, List.range_add, Function.comp_def, Nat.add_assoc]

def encode16 (x : UInt16) : List UInt8 :=
  [UInt8.ofNat (x.toNat % 256), UInt8.ofNat (x.toNat / 256)]

def encode32 (x : UInt32) : List UInt8 :=
  [UInt8.ofNat (x.toNat % 256), UInt8.ofNat (x.toNat / 256 % 256),
    UInt8.ofNat (x.toNat / 65536 % 256), UInt8.ofNat (x.toNat / 16777216)]

/-- The first two bytes of a list, absent bytes read as zero. -/
def decode16 (bs : List UInt8) : UInt16 :=
  UInt16.ofNat ((bs.getD 0 0).toNat + 256 * (bs.getD 1 0).toNat)

def decode32 (bs : List UInt8) : UInt32 :=
  UInt32.ofNat ((bs.getD 0 0).toNat + 256 * (bs.getD 1 0).toNat +
    65536 * (bs.getD 2 0).toNat + 16777216 * (bs.getD 3 0).toNat)

@[simp] theorem length_encode16 (x : UInt16) : (encode16 x).length = 2 := rfl
@[simp] theorem length_encode32 (x : UInt32) : (encode32 x).length = 4 := rfl

theorem decode16_encode16 (x : UInt16) (bs : List UInt8) : decode16 (encode16 x ++ bs) = x := by
  have hx := x.toNat_lt
  apply UInt16.toNat_inj.mp
  simp [decode16, encode16]
  omega

theorem decode32_encode32 (x : UInt32) (bs : List UInt8) : decode32 (encode32 x ++ bs) = x := by
  have hx := x.toNat_lt
  apply UInt32.toNat_inj.mp
  simp [decode32, encode32]
  omega

/-- The word stored at an address. -/
def word32 (m : Image) (a : ℕ) : UInt32 := decode32 (bytesAt m a 4)

theorem word32_congr {m m' : Image} {a : ℕ} (h : ∀ i < 4, m (a + i) = m' (a + i)) :
    word32 m a = word32 m' a := congrArg decode32 (bytesAt_congr h)

theorem word32_of_bytes {m : Image} {a : ℕ} {x : UInt32}
    (h : ∀ i < 4, m (a + i) = (encode32 x).getD i 0) : word32 m a = x := by
  have hb : bytesAt m a 4 = encode32 x ++ [] := by
    apply List.ext_getElem? fun i => ?_
    by_cases hi : i < 4
    · rw [getElem?_bytesAt m hi, h i hi, List.append_nil, List.getD_eq_getElem?_getD,
        List.getElem?_eq_getElem (by simpa using hi), Option.getD_some]
    · rw [List.getElem?_eq_none (by simpa using hi), List.getElem?_eq_none (by simpa using hi)]
  rw [word32, hb, decode32_encode32]

/-- Four erased bytes are the word `0xFFFFFFFF`. -/
theorem word32_erased {m : Image} {a : ℕ} (h : ∀ i < 4, m (a + i) = 0xFF) :
    word32 m a = 0xFFFFFFFF := word32_of_bytes fun i hi => by
  rw [h i hi]
  interval_cases i <;> rfl

/-- Four cleared bytes are the word zero. -/
theorem word32_zero {m : Image} {a : ℕ} (h : ∀ i < 4, m (a + i) = 0) : word32 m a = 0 :=
  word32_of_bytes fun i hi => by
    rw [h i hi]
    interval_cases i <;> rfl

end NorFlash
