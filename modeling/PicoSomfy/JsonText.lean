import Mathlib

/-!
# JSON texts

A value is read from the bytes of its text. Strings are bytes: an escape stands for the
UTF-8 bytes of its character, and bytes from `0x80` on stand for themselves. Numbers are
integers; a fraction or an exponent is not read.

The bulk of a text counts the bytes that a value cannot do without, leaving out spaces,
digits, signs and bytes from `0x80` on. A text has at least the bulk of the value that is
read from it, so a text that lost some of its bulk is the text of another value, or of
none.
-/
namespace JsonText

inductive Value where
  | null
  | bool (b : Bool)
  | num (n : ℤ)
  | str (bytes : List UInt8)
  | arr (items : List Value)
  | obj (members : List (List UInt8 × Value))

def isSpace (b : UInt8) : Bool := b == 32 || b == 9 || b == 10 || b == 13

def isDigit (b : UInt8) : Bool := 48 ≤ b && b ≤ 57

def skipSpace : List UInt8 → List UInt8
  | [] => []
  | b :: rest => if isSpace b then skipSpace rest else b :: rest

def hexDigit (b : UInt8) : Option ℕ :=
  if isDigit b then some (b.toNat - 48)
  else if 65 ≤ b ∧ b ≤ 70 then some (b.toNat - 55)
  else if 97 ≤ b ∧ b ≤ 102 then some (b.toNat - 87)
  else none

def codeUnit : List UInt8 → Option (ℕ × List UInt8)
  | a :: b :: c :: d :: rest =>
      match hexDigit a, hexDigit b, hexDigit c, hexDigit d with
      | some a, some b, some c, some d => some (((a * 16 + b) * 16 + c) * 16 + d, rest)
      | _, _, _, _ => none
  | _ => none

/-- The UTF-8 bytes of a code point. -/
def utf8 (c : ℕ) : List UInt8 :=
  if c < 0x80 then [UInt8.ofNat c]
  else if c < 0x800 then [UInt8.ofNat (0xC0 + c / 64), UInt8.ofNat (0x80 + c % 64)]
  else if c < 0x10000 then
    [UInt8.ofNat (0xE0 + c / 4096), UInt8.ofNat (0x80 + c / 64 % 64), UInt8.ofNat (0x80 + c % 64)]
  else
    [UInt8.ofNat (0xF0 + c / 262144 % 8), UInt8.ofNat (0x80 + c / 4096 % 64),
      UInt8.ofNat (0x80 + c / 64 % 64), UInt8.ofNat (0x80 + c % 64)]

/-- A code point in hexadecimal, behind `\u`; the higher ones are two code units. -/
def unicode (bs : List UInt8) : Option (List UInt8 × List UInt8) :=
  (codeUnit bs).bind fun (u, rest) =>
    if u < 0xD800 ∨ 0xE000 ≤ u then some (utf8 u, rest)
    else match rest with
      | 92 :: 117 :: rest => (codeUnit rest).bind fun (v, rest) =>
          if u < 0xDC00 ∧ 0xDC00 ≤ v ∧ v < 0xE000 then
            some (utf8 (0x10000 + (u - 0xD800) * 1024 + (v - 0xDC00)), rest)
          else none
      | _ => none

/-- What stands behind a backslash. -/
def escape : List UInt8 → Option (List UInt8 × List UInt8)
  | [] => none
  | b :: rest =>
      if b = 34 ∨ b = 92 ∨ b = 47 then some ([b], rest)
      else if b = 98 then some ([8], rest)
      else if b = 102 then some ([12], rest)
      else if b = 110 then some ([10], rest)
      else if b = 114 then some ([13], rest)
      else if b = 116 then some ([9], rest)
      else if b = 117 then unicode rest
      else none

/-- A string, behind its opening quote. -/
def chars : ℕ → List UInt8 → Option (List UInt8 × List UInt8)
  | n + 1, b :: rest =>
      if b = 34 then some ([], rest)
      else if b = 92 then (escape rest).bind fun (bytes, rest) =>
        (chars n rest).map fun (s, rest) => (bytes ++ s, rest)
      else if b < 32 then none
      else (chars n rest).map fun (s, rest) => (b :: s, rest)
  | _, _ => none

def string (bs : List UInt8) : Option (List UInt8 × List UInt8) := chars bs.length bs

def decimal (ds : List UInt8) : ℕ := ds.foldl (fun n d => 10 * n + (d.toNat - 48)) 0

/-- Digits without a leading zero. -/
def natural (bs : List UInt8) : Option (ℕ × List UInt8) :=
  if bs.takeWhile isDigit = [] ∨
      (bs.takeWhile isDigit).length > 1 ∧ (bs.takeWhile isDigit).head? = some 48 then none
  else some (decimal (bs.takeWhile isDigit), bs.dropWhile isDigit)

def number : List UInt8 → Option (ℤ × List UInt8)
  | 45 :: rest => (natural rest).map fun (n, rest) => (-n, rest)
  | bs => (natural bs).map fun (n, rest) => (n, rest)

/-- A word such as `true`. -/
def word (text : List UInt8) (bs : List UInt8) : Option (List UInt8) :=
  if text <+: bs then some (bs.drop text.length) else none

section Lists
variable {α : Type} (item : List UInt8 → Option (α × List UInt8)) (close : UInt8)

/-- Items separated by commas, up to the closing bracket. -/
def items : ℕ → List UInt8 → Option (List α × List UInt8)
  | 0, _ => none
  | n + 1, bs => (item bs).bind fun (x, rest) =>
      match skipSpace rest with
      | [] => none
      | b :: rest =>
          if b = close then some ([x], rest)
          else if b = 44 then (items n rest).map fun (xs, rest) => (x :: xs, rest)
          else none

/-- A list behind its opening bracket. -/
def list (n : ℕ) (bs : List UInt8) : Option (List α × List UInt8) :=
  match skipSpace bs with
  | [] => none
  | b :: rest => if b = close then some ([], rest) else items item close n bs

end Lists

/-- A member of an object. -/
def member (value : List UInt8 → Option (Value × List UInt8)) (bs : List UInt8) :
    Option ((List UInt8 × Value) × List UInt8) :=
  match skipSpace bs with
  | 34 :: rest => (string rest).bind fun (key, rest) =>
      match skipSpace rest with
      | 58 :: rest => (value rest).map fun (v, rest) => ((key, v), rest)
      | _ => none
  | _ => none

/-- A value, with a bound on its depth and on the lengths of its lists. -/
def value : ℕ → List UInt8 → Option (Value × List UInt8)
  | 0, _ => none
  | n + 1, bs =>
      match skipSpace bs with
      | [] => none
      | b :: rest =>
          if b = 123 then
            (list (member fun bs => value n bs) 125 n rest).map fun (ms, rest) => (.obj ms, rest)
          else if b = 91 then
            (list (fun bs => value n bs) 93 n rest).map fun (vs, rest) => (.arr vs, rest)
          else if b = 34 then (string rest).map fun (s, rest) => (.str s, rest)
          else if b = 116 then (word [114, 117, 101] rest).map fun rest => (.bool true, rest)
          else if b = 102 then (word [97, 108, 115, 101] rest).map fun rest => (.bool false, rest)
          else if b = 110 then (word [117, 108, 108] rest).map fun rest => (.null, rest)
          else (number (b :: rest)).map fun (n, rest) => (.num n, rest)

/-- The value of a whole text. -/
def parse (text : List UInt8) : Option Value :=
  (value text.length text).bind fun (v, rest) => if skipSpace rest = [] then some v else none

def bulkByte (b : UInt8) : ℕ := if b = 32 ∨ isDigit b ∨ b = 45 ∨ 128 ≤ b then 0 else 1

/-- The bulk of a text. -/
def bulk (text : List UInt8) : ℕ := (text.map bulkByte).sum

/-- What a byte costs in a string: two where it must be escaped. -/
def cost (b : UInt8) : ℕ := if b = 34 ∨ b = 92 ∨ b < 32 then 2 else bulkByte b

def strBulk (s : List UInt8) : ℕ := 2 + (s.map cost).sum

/-- The bulk of a list with brackets and commas. -/
def listBulk (ws : List ℕ) : ℕ := 2 + ws.sum + (ws.length - 1)

/-- The least bulk of a text of the value. -/
def Value.bulk : Value → ℕ
  | .null => 4
  | .bool b => if b then 4 else 5
  | .num _ => 0
  | .str s => strBulk s
  | .arr items => listBulk (items.map fun v => v.bulk)
  | .obj members => listBulk (members.map fun m => strBulk m.1 + 1 + m.2.bulk)
decreasing_by
  · have hv := List.sizeOf_lt_of_mem ‹_ ∈ items›
    simp only [arr.sizeOf_spec]
    omega
  · have hm := List.sizeOf_lt_of_mem ‹_ ∈ members›
    have hv : sizeOf m.2 < sizeOf m := by
      obtain ⟨key, v⟩ := m
      simp only [Prod.mk.sizeOf_spec]
      omega
    simp only [obj.sizeOf_spec]
    omega

@[simp] theorem bulk_nil : bulk [] = 0 := rfl

@[simp] theorem bulk_cons (b : UInt8) (text : List UInt8) :
    bulk (b :: text) = bulkByte b + bulk text := rfl

@[simp] theorem bulk_append (s t : List UInt8) : bulk (s ++ t) = bulk s + bulk t := by
  simp [bulk]

theorem bulkByte_le (b : UInt8) : bulkByte b ≤ cost b := by
  unfold cost
  split_ifs
  · unfold bulkByte
    split_ifs <;> decide
  · exact le_rfl

theorem bulk_skipSpace (bs : List UInt8) : bulk (skipSpace bs) ≤ bulk bs := by
  induction bs with
  | nil => exact le_rfl
  | cons b bs ih =>
      rw [skipSpace]
      split_ifs
      · exact le_trans ih (Nat.le_add_left _ _)
      · exact le_rfl

/-- A reader takes at least the weight of what it has read out of the text. -/
def Takes {α : Type} (read : List UInt8 → Option (α × List UInt8)) (w : α → ℕ) : Prop :=
  ∀ {bs x rest}, read bs = some (x, rest) → w x + bulk rest ≤ bulk bs

theorem costs_utf8 (c : ℕ) : ((utf8 c).map cost).sum ≤ 2 := by
  have hhigh : ∀ n, 128 ≤ n → n < 256 → cost (UInt8.ofNat n) = 0 := by
    intro n hlo hhi
    have hnat : (UInt8.ofNat n).toNat = n := UInt8.toNat_ofNat_of_lt' hhi
    have hnot : ∀ b : UInt8, b.toNat < 128 → UInt8.ofNat n ≠ b := fun b hb he => by
      rw [← he, hnat] at hb
      omega
    have hbig : ¬UInt8.ofNat n < 32 := by
      rw [UInt8.lt_iff_toNat_lt, hnat]
      exact not_lt.mpr (le_trans (by decide) hlo)
    have hlarge : (128 : UInt8) ≤ UInt8.ofNat n := by
      rw [UInt8.le_iff_toNat_le, hnat]
      exact hlo
    rw [cost, if_neg (not_or.mpr ⟨hnot 34 (by decide), not_or.mpr ⟨hnot 92 (by decide), hbig⟩⟩),
      bulkByte, if_pos (.inr (.inr (.inr hlarge)))]
  unfold utf8
  split_ifs with h₁ h₂ h₃
  · simp only [List.map_cons, List.map_nil, List.sum_cons, List.sum_nil]
    unfold cost bulkByte
    split_ifs <;> decide
  all_goals
    simp only [List.map_cons, List.map_nil, List.sum_cons, List.sum_nil]
    repeat rw [hhigh _ (by omega) (by omega)]
    decide

theorem codeUnit_takes : Takes codeUnit fun _ => 0 := by
  intro bs u rest h
  match bs, h with
  | a :: b :: c :: d :: tail, h =>
      simp only [codeUnit] at h
      split at h
      · cases h
        simp only [bulk_cons]
        omega
      · cases h

theorem bulk_unicode {bs bytes rest : List UInt8} (h : unicode bs = some (bytes, rest)) :
    (bytes.map cost).sum ≤ 2 ∧ bulk rest ≤ bulk bs := by
  obtain ⟨⟨u, rest₁⟩, hu, h⟩ := Option.bind_eq_some_iff.mp h
  have h₁ := codeUnit_takes hu
  dsimp only at h h₁
  split_ifs at h
  · cases h
    exact ⟨costs_utf8 u, by omega⟩
  · split at h
    · obtain ⟨⟨v, rest₃⟩, hv, h⟩ := Option.bind_eq_some_iff.mp h
      have h₂ := codeUnit_takes hv
      dsimp only at h h₂
      split_ifs at h
      obtain ⟨hbytes, hrest⟩ := Prod.mk.inj (Option.some.inj h)
      simp only [bulk_cons] at h₁
      rw [← hbytes, ← hrest]
      exact ⟨costs_utf8 _, by omega⟩
    · cases h

theorem escape_one {b c : UInt8} {bs bytes rest : List UInt8}
    (h : some ([c], bs) = some (bytes, rest)) (hc : cost c ≤ 1 + bulkByte b) :
    (bytes.map cost).sum + bulk rest ≤ 1 + bulk (b :: bs) := by
  cases h
  simp only [List.map_cons, List.map_nil, List.sum_cons, List.sum_nil, bulk_cons]
  omega

/-- An escape costs no more than its bytes and the backslash. -/
theorem bulk_escape {bs bytes rest : List UInt8} (h : escape bs = some (bytes, rest)) :
    (bytes.map cost).sum + bulk rest ≤ 1 + bulk bs := by
  cases bs with
  | nil => cases h
  | cons b bs =>
      rw [escape] at h
      split_ifs at h with h₀ h₁ h₂ h₃ h₄ h₅ h₆
      · refine escape_one h ?_
        rcases h₀ with rfl | rfl | rfl <;> decide
      · exact escape_one h (by rw [h₁]; decide)
      · exact escape_one h (by rw [h₂]; decide)
      · exact escape_one h (by rw [h₃]; decide)
      · exact escape_one h (by rw [h₄]; decide)
      · exact escape_one h (by rw [h₅]; decide)
      · have hu := bulk_unicode h
        rw [bulk_cons, show bulkByte b = 1 by rw [h₆]; rfl]
        omega

theorem bulk_chars {n : ℕ} : Takes (chars n) fun s => (s.map cost).sum + 1 := by
  induction n with
  | zero =>
      intro bs s rest h
      cases h
  | succ n ih =>
      intro bs s rest h
      cases bs with
      | nil => cases h
      | cons b bs =>
          rw [chars] at h
          rw [bulk_cons]
          split_ifs at h with h₀ h₁ h₂
          · cases h
            rw [show bulkByte b = 1 by rw [h₀]; rfl]
            simp
          · obtain ⟨⟨bytes, rest₁⟩, he, h⟩ := Option.bind_eq_some_iff.mp h
            obtain ⟨⟨t, rest₂⟩, ht, hs⟩ := Option.map_eq_some_iff.mp h
            cases hs
            have h₃ := bulk_escape he
            have h₄ := ih ht
            dsimp only at h₄ ⊢
            rw [List.map_append, List.sum_append, show bulkByte b = 1 by rw [h₁]; rfl]
            omega
          · obtain ⟨⟨t, rest₂⟩, ht, hs⟩ := Option.map_eq_some_iff.mp h
            cases hs
            have h₄ := ih ht
            dsimp only at h₄ ⊢
            have hcost : cost b = bulkByte b := by
              rw [cost, if_neg (by tauto)]
            rw [List.map_cons, List.sum_cons, hcost]
            omega

/-- A string behind its opening quote. -/
theorem bulk_string {bs s rest : List UInt8} (h : string bs = some (s, rest)) :
    strBulk s + bulk rest ≤ 1 + bulk bs := by
  have hc := bulk_chars h
  dsimp only at hc
  unfold strBulk
  omega

theorem bulk_dropWhile (p : UInt8 → Bool) (bs : List UInt8) :
    bulk (bs.dropWhile p) ≤ bulk bs := by
  induction bs with
  | nil => exact le_rfl
  | cons b bs ih =>
      rw [List.dropWhile_cons]
      split_ifs
      · exact le_trans ih (Nat.le_add_left _ _)
      · exact le_rfl

theorem bulk_natural : Takes natural fun _ => 0 := by
  intro bs n rest h
  unfold natural at h
  split_ifs at h
  cases h
  have hd := bulk_dropWhile isDigit bs
  dsimp only
  omega

theorem bulk_number : Takes number fun _ => 0 := by
  intro bs n rest h
  unfold number at h
  split at h
  · obtain ⟨⟨m, rest₁⟩, hm, hs⟩ := Option.map_eq_some_iff.mp h
    cases hs
    have hn := bulk_natural hm
    dsimp only at hn ⊢
    rw [bulk_cons]
    omega
  · obtain ⟨⟨m, rest₁⟩, hm, hs⟩ := Option.map_eq_some_iff.mp h
    cases hs
    exact bulk_natural hm

theorem bulk_word {text bs rest : List UInt8} (h : word text bs = some rest) :
    bulk text + bulk rest ≤ bulk bs := by
  unfold word at h
  split_ifs at h with hp
  cases h
  obtain ⟨tail, rfl⟩ := hp
  rw [List.drop_left, bulk_append]

section Lists
variable {α : Type} {item : List UInt8 → Option (α × List UInt8)} {close : UInt8} {w : α → ℕ}
  (hitem : Takes item w) (hclose : bulkByte close = 1)
include hitem hclose

/-- Each item comes with a comma or the closing bracket. -/
theorem bulk_items {n : ℕ} : Takes (items item close n) fun xs => (xs.map w).sum + xs.length := by
  induction n with
  | zero =>
      intro bs xs rest h
      cases h
  | succ n ih =>
      intro bs xs rest h
      obtain ⟨⟨x, rest₁⟩, hx, h⟩ := Option.bind_eq_some_iff.mp h
      have h₁ := hitem hx
      have h₂ := bulk_skipSpace rest₁
      dsimp only at h
      cases hs : skipSpace rest₁ with
      | nil =>
          rw [hs] at h
          cases h
      | cons b rest₂ =>
          rw [hs] at h h₂
          rw [bulk_cons] at h₂
          dsimp only at h
          split_ifs at h with hb hcomma
          · cases h
            rw [hb, hclose] at h₂
            simp only [List.map_cons, List.map_nil, List.sum_cons, List.sum_nil, List.length_cons,
              List.length_nil]
            omega
          · obtain ⟨⟨ys, rest₃⟩, hys, hs⟩ := Option.map_eq_some_iff.mp h
            cases hs
            have h₃ := ih hys
            dsimp only at h₃
            rw [show bulkByte b = 1 by rw [hcomma]; rfl] at h₂
            simp only [List.map_cons, List.sum_cons, List.length_cons]
            omega

theorem bulk_list {n : ℕ} {bs rest : List UInt8} {xs : List α}
    (h : list item close n bs = some (xs, rest)) :
    listBulk (xs.map w) + bulk rest ≤ 1 + bulk bs := by
  unfold list at h
  have h₂ := bulk_skipSpace bs
  cases hs : skipSpace bs with
  | nil =>
      rw [hs] at h
      cases h
  | cons b rest₂ =>
      rw [hs] at h h₂
      dsimp only at h
      split_ifs at h with hb
      · cases h
        rw [bulk_cons, hb, hclose] at h₂
        simp only [listBulk, List.map_nil, List.sum_nil, List.length_nil]
        omega
      · have h₃ := bulk_items hitem hclose h
        dsimp only at h₃
        have hpos : 0 < xs.length := by
          cases n with
          | zero => cases h
          | succ n =>
              obtain ⟨⟨x, rest₁⟩, -, h⟩ := Option.bind_eq_some_iff.mp h
              dsimp only at h
              split at h
              · cases h
              · split_ifs at h
                · cases h
                  exact Nat.zero_lt_one
                · obtain ⟨_, -, hs⟩ := Option.map_eq_some_iff.mp h
                  cases hs
                  exact Nat.succ_pos _
        unfold listBulk
        rw [List.length_map]
        omega

end Lists

theorem bulk_member {read : List UInt8 → Option (Value × List UInt8)}
    (hread : Takes read Value.bulk) :
    Takes (member read) fun m => strBulk m.1 + 1 + m.2.bulk := by
  intro bs m rest h
  unfold member at h
  have h₁ := bulk_skipSpace bs
  split at h
  · next rest₁ hs =>
      rw [hs, bulk_cons, show bulkByte 34 = 1 from rfl] at h₁
      obtain ⟨⟨key, rest₂⟩, hkey, h⟩ := Option.bind_eq_some_iff.mp h
      have h₂ := bulk_string hkey
      have h₃ := bulk_skipSpace rest₂
      dsimp only at h
      split at h
      · next rest₃ hcolon =>
          rw [hcolon, bulk_cons, show bulkByte 58 = 1 from rfl] at h₃
          obtain ⟨⟨v, rest₄⟩, hv, hm⟩ := Option.map_eq_some_iff.mp h
          cases hm
          have h₄ := hread hv
          dsimp only
          omega
      · cases h
  · cases h

theorem bulk_value {n : ℕ} : Takes (value n) Value.bulk := by
  induction n with
  | zero =>
      intro bs v rest h
      cases h
  | succ n ih =>
      intro bs v rest h
      rw [value] at h
      have h₁ := bulk_skipSpace bs
      cases hs : skipSpace bs with
      | nil =>
          rw [hs] at h
          cases h
      | cons b rest₁ =>
          rw [hs] at h h₁
          dsimp only at h
          rw [bulk_cons] at h₁
          split_ifs at h with hobj harr hstr ht hf hn
          · obtain ⟨⟨ms, rest₂⟩, hms, hv⟩ := Option.map_eq_some_iff.mp h
            cases hv
            have h₂ := bulk_list (bulk_member ih) rfl hms
            rw [show bulkByte b = 1 by rw [hobj]; rfl] at h₁
            rw [Value.bulk]
            dsimp only
            omega
          · obtain ⟨⟨vs, rest₂⟩, hvs, hv⟩ := Option.map_eq_some_iff.mp h
            cases hv
            have h₂ := bulk_list ih rfl hvs
            rw [show bulkByte b = 1 by rw [harr]; rfl] at h₁
            rw [Value.bulk]
            change listBulk (vs.map Value.bulk) + bulk rest₂ ≤ bulk bs
            omega
          · obtain ⟨⟨s, rest₂⟩, hstring, hv⟩ := Option.map_eq_some_iff.mp h
            cases hv
            have h₂ := bulk_string hstring
            rw [show bulkByte b = 1 by rw [hstr]; rfl] at h₁
            rw [Value.bulk]
            dsimp only
            omega
          · obtain ⟨rest₂, hword, hv⟩ := Option.map_eq_some_iff.mp h
            cases hv
            have h₂ := bulk_word hword
            rw [show bulkByte b = 1 by rw [ht]; rfl] at h₁
            rw [show bulk [114, 117, 101] = 3 from rfl] at h₂
            rw [Value.bulk, if_pos rfl]
            omega
          · obtain ⟨rest₂, hword, hv⟩ := Option.map_eq_some_iff.mp h
            cases hv
            have h₂ := bulk_word hword
            rw [show bulkByte b = 1 by rw [hf]; rfl] at h₁
            rw [show bulk [97, 108, 115, 101] = 4 from rfl] at h₂
            rw [Value.bulk, if_neg (by decide)]
            omega
          · obtain ⟨rest₂, hword, hv⟩ := Option.map_eq_some_iff.mp h
            cases hv
            have h₂ := bulk_word hword
            rw [show bulkByte b = 1 by rw [hn]; rfl] at h₁
            rw [show bulk [117, 108, 108] = 3 from rfl] at h₂
            rw [Value.bulk]
            omega
          · obtain ⟨⟨m, rest₂⟩, hnum, hv⟩ := Option.map_eq_some_iff.mp h
            cases hv
            have h₂ := bulk_number hnum
            rw [bulk_cons] at h₂
            dsimp only at h₂
            rw [Value.bulk]
            dsimp only
            omega

/-- A text has at least the bulk of its value. -/
theorem bulk_parse {text : List UInt8} {v : Value} (h : parse text = some v) :
    v.bulk ≤ bulk text := by
  obtain ⟨⟨u, rest⟩, hu, h⟩ := Option.bind_eq_some_iff.mp h
  dsimp only at h
  split_ifs at h
  cases h
  exact le_trans (Nat.le_add_right _ _) (bulk_value hu)

end JsonText
