import PicoSomfy.JsonSpelling
import PicoSomfy.Scan

/-!
# Output into a bounded buffer

`BufferOutput` writes text into what is left of a buffer. A piece that does not fit is
dropped on its own, and shorter ones behind it are still written; a number is only
written when sixteen bytes are left, and an escaped string is cut off at the end of the
buffer.

So a row of pieces is written whole when it fits and every number and escaped string is
followed by enough text. When it does not fit, some of its bulk is lost.
-/
namespace PicoSomfy

open JsonText

/-- `written` is what `_buffer` has passed, `length` what is left behind it. -/
structure BufferOutput where
  written : List UInt8
  length : ℕ
  deriving DecidableEq

namespace BufferOutput

def create (length : ℕ) : BufferOutput := ⟨[], length⟩

/-- `Append` of a string. -/
def append (out : BufferOutput) (str : List UInt8) : BufferOutput :=
  if str.length > out.length then out else ⟨out.written ++ str, out.length - str.length⟩

/-- `Append` of a character. -/
def appendChar (out : BufferOutput) (c : UInt8) : BufferOutput :=
  if out.length = 0 then out else ⟨out.written ++ [c], out.length - 1⟩

/-- `Append` of an `int`. -/
def appendInt (out : BufferOutput) (value : ℤ) : BufferOutput :=
  if 16 > out.length then out
  else ⟨out.written ++ ascii (toString value), out.length - (ascii (toString value)).length⟩

/-- `AppendEscaped`. The string ends at its first zero byte. -/
def appendEscaped (out : BufferOutput) : List UInt8 → BufferOutput
  | [] => out
  | c :: str =>
      if c = 0 then out
      else if out.length = 0 then out
      else if c = 34 ∨ c = 92 then
        if out.length = 1 then ⟨out.written ++ [92], 0⟩
        else appendEscaped ⟨out.written ++ [92, c], out.length - 2⟩ str
      else appendEscaped ⟨out.written ++ [c], out.length - 1⟩ str

/-- An escaped string is cut off where the buffer ends. -/
theorem appendEscaped_eq (str : List UInt8) (out : BufferOutput) :
    out.appendEscaped str =
      ⟨out.written ++ (quoteBytes (str.takeWhile (· ≠ 0))).take out.length,
        out.length - (quoteBytes (str.takeWhile (· ≠ 0))).length⟩ := by
  induction str generalizing out with
  | nil => simp [appendEscaped, quoteBytes]
  | cons c str ih =>
      obtain ⟨written, length⟩ := out
      rw [appendEscaped]
      by_cases hc : c = 0
      · rw [if_pos hc, List.takeWhile_cons_of_neg (by simpa using hc)]
        simp [quoteBytes]
      rw [if_neg hc, List.takeWhile_cons_of_pos (by simpa using hc)]
      cases length with
      | zero => simp
      | succ n =>
          dsimp only
          rw [if_neg (Nat.succ_ne_zero n), quoteBytes, List.flatMap_cons]
          by_cases hq : c = 34 ∨ c = 92
          · rw [if_pos hq, if_pos hq]
            cases n with
            | zero => simp
            | succ n =>
                rw [if_neg (by omega), ih]
                simp [quoteBytes]
          · rw [if_neg hq, if_neg hq, ih]
            simp [quoteBytes]

end BufferOutput

/-- What one call writes. -/
inductive Piece where
  | text (str : List UInt8)
  | char (c : UInt8)
  | int (value : ℤ)
  | escaped (str : List UInt8)

namespace Piece

/-- The call that writes the piece. -/
def write (out : BufferOutput) : Piece → BufferOutput
  | .text str => out.append str
  | .char c => out.appendChar c
  | .int value => out.appendInt value
  | .escaped str => out.appendEscaped str

/-- All of the piece. -/
def full : Piece → List UInt8
  | .text str => str
  | .char c => [c]
  | .int value => ascii (toString value)
  | .escaped str => quoteBytes (str.takeWhile (· ≠ 0))

/-- All of a row of pieces. -/
def whole (ps : List Piece) : List UInt8 := ps.flatMap full

def writeAll (out : BufferOutput) (ps : List Piece) : BufferOutput := ps.foldl write out

@[simp] theorem whole_nil : whole [] = [] := rfl

@[simp] theorem whole_cons (p : Piece) (ps : List Piece) : whole (p :: ps) = p.full ++ whole ps :=
  List.flatMap_cons ..

@[simp] theorem whole_append (ps qs : List Piece) : whole (ps ++ qs) = whole ps ++ whole qs :=
  List.flatMap_append ..

@[simp] theorem writeAll_cons (out : BufferOutput) (p : Piece) (ps : List Piece) :
    writeAll out (p :: ps) = writeAll (p.write out) ps := rfl

theorem writeAll_append (out : BufferOutput) (ps qs : List Piece) :
    writeAll out (ps ++ qs) = writeAll (writeAll out ps) qs := List.foldl_append ..

/-- How much of the buffer must be left for a piece to be written whole. -/
def need : Piece → ℕ
  | .int value => max 16 (full (.int value)).length
  | p => p.full.length

theorem write_eq {out : BufferOutput} {p : Piece} (h : p.need ≤ out.length) :
    p.write out = ⟨out.written ++ p.full, out.length - p.full.length⟩ := by
  cases p with
  | text str => exact if_neg (not_lt.mpr h)
  | char c => exact if_neg (Nat.one_le_iff_ne_zero.mp h)
  | int value => exact if_neg (not_lt.mpr (le_trans (le_max_left _ _) h))
  | escaped str =>
      have hlen : (quoteBytes (str.takeWhile (· ≠ 0))).length ≤ out.length := h
      rw [write, BufferOutput.appendEscaped_eq, List.take_of_length_le hlen]
      rfl

/-- Sixteen bytes follow each number and each escaped string. -/
def Padded : List Piece → Prop
  | [] => True
  | .int _ :: ps | .escaped _ :: ps => 16 ≤ (whole ps).length ∧ Padded ps
  | _ :: ps => Padded ps

theorem Padded.tail {p : Piece} {ps : List Piece} (h : Padded (p :: ps)) : Padded ps := by
  cases p with
  | text str => exact h
  | char c => exact h
  | int value => exact h.2
  | escaped str => exact h.2

theorem Padded.of_append {ps qs : List Piece} (h : Padded (ps ++ qs)) : Padded qs := by
  induction ps with
  | nil => exact h
  | cons p ps ih => exact ih h.tail

theorem Padded.need_le {p : Piece} {ps : List Piece} (h : Padded (p :: ps)) {n : ℕ}
    (hn : (whole (p :: ps)).length ≤ n) : p.need ≤ n := by
  rw [whole_cons, List.length_append] at hn
  cases p with
  | int value =>
      have hpad := h.1
      exact max_le (by omega) (by omega)
  | text str => exact le_trans (Nat.le_add_right _ _) hn
  | char c => exact le_trans (Nat.le_add_right _ _) hn
  | escaped str => exact le_trans (Nat.le_add_right _ _) hn

/-- A row of pieces that fits is written whole. -/
theorem writeAll_fits {ps : List Piece} (hp : Padded ps) {out : BufferOutput}
    (h : (whole ps).length ≤ out.length) :
    writeAll out ps = ⟨out.written ++ whole ps, out.length - (whole ps).length⟩ := by
  induction ps generalizing out with
  | nil => simp [writeAll]
  | cons p ps ih =>
      rw [writeAll_cons, write_eq (hp.need_le h)]
      rw [whole_cons, List.length_append] at h
      rw [ih hp.tail (by dsimp only; omega), whole_cons, List.append_assoc, List.length_append]
      congr 1
      dsimp only
      omega

/-- A row of pieces is also written whole when sixteen bytes are left behind it. -/
theorem writeAll_wide {ps : List Piece} {out : BufferOutput}
    (h : (whole ps).length + 16 ≤ out.length) :
    writeAll out ps = ⟨out.written ++ whole ps, out.length - (whole ps).length⟩ := by
  induction ps generalizing out with
  | nil => simp [writeAll]
  | cons p ps ih =>
      rw [whole_cons, List.length_append] at h
      have hneed : p.need ≤ p.full.length + 16 := by
        cases p with
        | int value => exact max_le (Nat.le_add_left _ _) (Nat.le_add_right _ _)
        | _ => exact Nat.le_add_right _ _
      rw [writeAll_cons, write_eq (by omega), ih (by dsimp only; omega), whole_cons,
        List.append_assoc, List.length_append]
      congr 1
      dsimp only
      omega

theorem bulk_take (text : List UInt8) (n : ℕ) : bulk (text.take n) ≤ bulk text := by
  conv_rhs => rw [← List.take_append_drop n text, bulk_append]
  exact Nat.le_add_right _ _

theorem bulk_write_le (out : BufferOutput) (p : Piece) :
    bulk (p.write out).written ≤ bulk out.written + bulk p.full := by
  cases p with
  | text str =>
      rw [write, BufferOutput.append]
      split_ifs
      · exact Nat.le_add_right _ _
      · exact (bulk_append _ _).le
  | char c =>
      rw [write, BufferOutput.appendChar]
      split_ifs
      · exact Nat.le_add_right _ _
      · exact (bulk_append _ _).le
  | int value =>
      rw [write, BufferOutput.appendInt]
      split_ifs
      · exact Nat.le_add_right _ _
      · exact (bulk_append _ _).le
  | escaped str =>
      rw [write, BufferOutput.appendEscaped_eq, bulk_append]
      exact Nat.add_le_add_left (bulk_take _ _) _

/-- Nothing gets more bulk than it has. -/
theorem bulk_writeAll_le (ps : List Piece) (out : BufferOutput) :
    bulk (writeAll out ps).written ≤ bulk out.written + bulk (whole ps) := by
  induction ps generalizing out with
  | nil => exact Nat.le_add_right _ _
  | cons p ps ih =>
      have hone := bulk_write_le out p
      have hrest := ih (p.write out)
      rw [writeAll_cons, whole_cons, bulk_append]
      omega

/-- The piece cannot be dropped without a loss. -/
def Heavy : Piece → Prop
  | .text str => 0 < bulk str
  | .char c => 0 < bulkByte c
  | _ => True

/-- Of a row of pieces that does not fit, some bulk is lost. -/
theorem bulk_writeAll_lt {ps : List Piece} (hp : Padded ps) (hh : ∀ p ∈ ps, p.Heavy)
    {out : BufferOutput} (h : out.length < (whole ps).length) :
    bulk (writeAll out ps).written < bulk out.written + bulk (whole ps) := by
  induction ps generalizing out with
  | nil => exact absurd h (Nat.not_lt_zero _)
  | cons p ps ih =>
      have hone := bulk_write_le out p
      have hall := bulk_writeAll_le ps (p.write out)
      rw [writeAll_cons, whole_cons, bulk_append]
      by_cases hlt : (p.write out).length < (whole ps).length
      · -- the loss is behind the piece
        have hrest := ih hp.tail (fun q hq => hh q (List.mem_cons_of_mem _ hq)) hlt
        omega
      -- the rest fits, so the piece itself was dropped
      have hneed : ¬p.need ≤ out.length := fun hneed => by
        rw [write_eq hneed] at hlt
        rw [whole_cons, List.length_append] at h
        dsimp only at hlt
        by_cases hlen : p.full.length ≤ out.length
        · omega
        · exact hlen (le_trans (by cases p with
            | int value => exact le_max_right _ _
            | _ => exact le_rfl) hneed)
      cases p with
      | text str =>
          have hheavy : 0 < bulk str := hh _ List.mem_cons_self
          have hdrop : write out (.text str) = out := if_pos (not_le.mp hneed)
          rw [hdrop] at hall ⊢
          change _ < _ + (bulk str + _)
          omega
      | char c =>
          have hheavy : 0 < bulkByte c := hh _ List.mem_cons_self
          have hdrop : write out (.char c) = out := if_pos (by
            have hlen : ¬1 ≤ out.length := hneed
            omega)
          rw [hdrop] at hall ⊢
          change _ < _ + (bulkByte c + 0 + _)
          omega
      | int value =>
          have hpad := hp.1
          rw [write, BufferOutput.appendInt] at hlt
          split_ifs at hlt with hshort
          · omega
          · have hlong : ¬max 16 (ascii (toString value)).length ≤ out.length := hneed
            dsimp only at hlt
            omega
      | escaped str =>
          have hpad := hp.1
          rw [write, BufferOutput.appendEscaped_eq] at hlt
          have hlong : ¬(quoteBytes (str.takeWhile (· ≠ 0))).length ≤ out.length := hneed
          dsimp only at hlt
          omega

end Piece

end PicoSomfy
