import PicoSomfy.ByteMemory

/-!
# Tagged options

A list of options is a row of fields, each a code, a length and that many bytes of
data, with a closing code behind the last one. `scan` walks over the fields from
length to length until it stands on the code it looks for, on the closing code or
behind its limit. On an encoded list it finds the first field with the code.

The closing code and the limit are parameters. `scan` counts its turns down; a
turn moves on by two bytes at least, so as many turns as the limit are enough.
-/
namespace OptionLists

open NorFlash ByteMemory

/-- One option. Its code is not the closing one and its length fits a byte. -/
structure Field (stop : UInt8) where
  code : UInt8
  data : List UInt8
  code_ne : code ≠ stop
  length_lt : data.length < 256
  deriving DecidableEq

variable {stop : UInt8}

def Field.encode (f : Field stop) : List UInt8 :=
  f.code :: UInt8.ofNat f.data.length :: f.data

def encode (fs : List (Field stop)) : List UInt8 := fs.flatMap Field.encode ++ [stop]

/-- The first field with a code. -/
def lookup (fs : List (Field stop)) (tag : UInt8) : Option (Field stop) :=
  fs.find? fun f => f.code = tag

/-- The position of the field with a code, from position `i` on. -/
def scan (stop : UInt8) (limit : ℕ) (opt : Image) (tag : UInt8) : ℕ → ℕ → Option ℕ
  | 0, _ => none
  | turns + 1, i =>
      if i < limit ∧ opt i ≠ stop then
        if opt i = tag then some i
        else scan stop limit opt tag turns (i + 2 + (opt (i + 1)).toNat)
      else none

theorem Field.length_encode (f : Field stop) : f.encode.length = f.data.length + 2 := rfl

theorem encode_cons (f : Field stop) (fs : List (Field stop)) :
    encode (f :: fs) = f.encode ++ encode fs := by
  rw [encode, List.flatMap_cons, List.append_assoc, encode]

theorem two_mul_length_lt (fs : List (Field stop)) : 2 * fs.length < (encode fs).length := by
  induction fs with
  | nil => exact Nat.one_pos
  | cons f fs ih =>
      rw [encode_cons, List.length_append, f.length_encode, List.length_cons]
      omega

variable {limit : ℕ} {opt opt' : Image} {tag : UInt8} {turns i : ℕ}

/-- The scan stands in front of an encoded list. -/
structure Facing (limit : ℕ) (opt : Image) (fs : List (Field stop)) (turns i : ℕ) : Prop where
  holds : HoldsAt opt i (encode fs)
  inside : i + (encode fs).length ≤ limit + 1
  turns : fs.length < turns

theorem Facing.tail {f : Field stop} {fs : List (Field stop)}
    (h : Facing limit opt (f :: fs) (turns + 1) i) :
    Facing limit opt fs turns (i + f.encode.length) := by
  have hin := h.inside
  have hholds := h.holds
  rw [encode_cons, List.length_append] at hin
  rw [encode_cons, holds_append] at hholds
  exact ⟨hholds.2, by omega, Nat.lt_of_succ_lt_succ h.turns⟩

/-- What the scan sees when it stands on a field. -/
theorem Facing.field {f : Field stop} {fs : List (Field stop)}
    (h : Facing limit opt (f :: fs) turns i) :
    i < limit ∧ opt i = f.code ∧ i + 2 + (opt (i + 1)).toNat = i + f.encode.length ∧
      HoldsAt opt i f.encode := by
  have hin := h.inside
  have hholds := h.holds
  have hrest := two_mul_length_lt fs
  rw [encode_cons, List.length_append, f.length_encode] at hin
  rw [encode_cons, holds_append] at hholds
  refine ⟨by omega, hholds.1.head, ?_, hholds.1⟩
  rw [hholds.1.tail.head, UInt8.toNat_ofNat_of_lt' f.length_lt, f.length_encode]
  omega

/-- On an encoded list the scan stops at the first field with the code, and nowhere
if there is none. -/
theorem scan_encode (tag : UInt8) {fs : List (Field stop)} (h : Facing limit opt fs turns i) :
    match lookup fs tag with
    | none => scan stop limit opt tag turns i = none
    | some f => ∃ k, scan stop limit opt tag turns i = some k ∧ i ≤ k ∧
        k + f.encode.length < i + (encode fs).length ∧ HoldsAt opt k f.encode := by
  induction fs generalizing turns i with
  | nil =>
      have hstop : opt i = stop := h.holds.head
      obtain ⟨turns, rfl⟩ := Nat.exists_eq_add_one.mpr (Nat.zero_lt_of_lt h.turns)
      exact if_neg (by simp [hstop])
  | cons f fs ih =>
      obtain ⟨turns, rfl⟩ := Nat.exists_eq_add_one.mpr (Nat.zero_lt_of_lt h.turns)
      obtain ⟨hi, hcode, hnext, hfield⟩ := h.field
      have hgo : i < limit ∧ opt i ≠ stop := ⟨hi, hcode ▸ f.code_ne⟩
      have hlen : (encode (f :: fs)).length = f.encode.length + (encode fs).length := by
        rw [encode_cons, List.length_append]
      have hrest := two_mul_length_lt fs
      rw [lookup, List.find?_cons, scan, if_pos hgo, hcode, hnext]
      by_cases htag : f.code = tag
      · simp only [htag, decide_true, if_true]
        exact ⟨i, rfl, le_rfl, by omega, hfield⟩
      · simp only [htag, decide_false, if_false]
        have hfound := ih h.tail
        rw [lookup] at hfound
        cases hfind : fs.find? (fun f => f.code = tag) with
        | none =>
            rw [hfind] at hfound
            exact hfound
        | some g =>
            rw [hfind] at hfound
            obtain ⟨k, hk, hle, hlt, hholds⟩ := hfound
            exact ⟨k, hk, by omega, by omega, hholds⟩

theorem scan_none {fs : List (Field stop)} (h : Facing limit opt fs turns i)
    (hl : lookup fs tag = none) : scan stop limit opt tag turns i = none := by
  have hscan := scan_encode tag h
  rwa [hl] at hscan

theorem scan_some {fs : List (Field stop)} {f : Field stop} (h : Facing limit opt fs turns i)
    (hl : lookup fs tag = some f) : ∃ k, scan stop limit opt tag turns i = some k ∧ i ≤ k ∧
      k + f.encode.length < i + (encode fs).length ∧ HoldsAt opt k f.encode := by
  have hscan := scan_encode tag h
  rwa [hl] at hscan

end OptionLists
