import PicoSomfy.CStrings
import PicoSomfy.Binary32

/-!
# Reading numbers with `sscanf`

The requests are read with `"%d"`, `"%u"` and `"%hu"`. A conversion assigns a
number, or finds a character that cannot start one, or comes to the end of the
string first. The callers only test for the result zero, which is the second case;
after the third they go on with a variable that nobody assigned. A number outside the
range of a conversion becomes another one.

The position in a payload is read with `"%f"`, without any test of the result.
-/
namespace PicoSomfy

open CStrings

/-- The bytes of a text in the source. -/
def ascii (text : String) : List UInt8 := text.toList.map fun c => UInt8.ofNat c.toNat

inductive Scan (α : Type) where
  | assigned (value : α)
  | mismatch
  | eof
  deriving DecidableEq, Repr

/-- What a caller goes on with after `!sscanf(...)` was false. The unassigned
variable holds `junk`. -/
def Scan.read {α : Type} (junk : α) : Scan α → Option α
  | .assigned value => some value
  | .mismatch => none
  | .eof => some junk

namespace Scan

def isSpace (b : UInt8) : Bool := b == 32 || (9 ≤ b && b ≤ 13)

def isDigit (b : UInt8) : Bool := 48 ≤ b && b ≤ 57

def decimal (digits : List UInt8) : ℕ := digits.foldl (fun n d => 10 * n + (d.toNat - 48)) 0

/-- An optional minus or plus sign and at least one digit. -/
def number (bytes : List UInt8) : Scan (Bool × ℕ) :=
  match (cText bytes).dropWhile isSpace with
  | [] => .eof
  | c :: rest =>
      let signed := c == 43 || c == 45
      let digits := (if signed then rest else c :: rest).takeWhile isDigit
      if digits = [] then .mismatch else .assigned (c == 45, decimal digits)

def map {α β : Type} (f : α → β) : Scan α → Scan β
  | .assigned value => .assigned (f value)
  | .mismatch => .mismatch
  | .eof => .eof

/-- `"%d"`; a number out of range becomes the nearest `long`. -/
def d (bytes : List UInt8) : Scan Int32 :=
  (number bytes).map fun (negative, n) =>
    Int32.ofInt (if negative then max (-(n : ℤ)) (-2147483648) else min (n : ℤ) 2147483647)

/-- `"%u"`; a number out of range becomes the largest, and a minus sign negates. -/
def u (bytes : List UInt8) : Scan UInt32 :=
  (number bytes).map fun (negative, n) =>
    if n ≥ 4294967296 then 4294967295
    else if negative then 0 - UInt32.ofNat n else UInt32.ofNat n

/-- `"%hu"`, the low half of `"%u"`. -/
def hu (bytes : List UInt8) : Scan UInt16 := (u bytes).map (·.toUInt16)

/-- The number as it stands in the text. -/
def int (bytes : List UInt8) : Scan ℤ :=
  (number bytes).map fun (negative, n) => if negative then -(n : ℤ) else n

def lower (b : UInt8) : UInt8 := if 65 ≤ b && b ≤ 90 then b + 32 else b

/-- The power of ten behind a number. Without digits of its own it is left alone. -/
def exponent : List UInt8 → ℤ
  | [] => 0
  | c :: rest =>
      if lower c == 101 then
        let negative := rest.head? == some 45
        let signed := negative || rest.head? == some 43
        let digits := (if signed then rest.tail else rest).takeWhile isDigit
        if negative then -(decimal digits : ℤ) else decimal digits
      else 0

/-- `"%f"`: a decimal number, rounded to a float, or an infinity or not a number at all,
which is `none`. -/
def f (bytes : List UInt8) : Scan (Option ℚ) :=
  match (cText bytes).dropWhile isSpace with
  | [] => .eof
  | c :: rest =>
      let body := if c == 43 || c == 45 then rest else c :: rest
      let word := (body.take 3).map lower
      if word = ascii "inf" ∨ word = ascii "nan" then .assigned none
      else
        let whole := body.takeWhile isDigit
        let behind := body.dropWhile isDigit
        let point := behind.head? == some 46
        let fraction := if point then behind.tail.takeWhile isDigit else []
        let scale := exponent (if point then behind.tail.dropWhile isDigit else behind)
        if whole = [] ∧ fraction = [] then .mismatch
        else
          let x : ℚ := decimal (whole ++ fraction) * 10 ^ (scale - fraction.length)
          .assigned (some (Binary32.round (if c == 45 then -x else x)))

end Scan

end PicoSomfy
