import PicoSomfy.Scan

/-!
# Decoding the values of a query

`urlDecode` goes over a value twice: once to see how long it is and whether there is
anything to decode, and once to decode it into a string of that length. The memory from
`value` on is a list that ends with the terminator, and reading beyond it, like writing
beyond the string, has no result.

Decoding undoes the encoding of the web interface, and ends at the terminator whatever
the escapes in front of it look like.
-/
namespace PicoSomfy

/-- In a byte, −1 is 255. -/
def hexToInt (x : UInt8) : UInt8 :=
  if 48 ≤ x ∧ x ≤ 57 then x - 48
  else if 97 ≤ x ∧ x ≤ 102 then x + 10 - 97
  else if 65 ≤ x ∧ x ≤ 70 then x + 10 - 65
  else 255

namespace UrlDecode

/-- The first loop. -/
def measure (len : ℕ) (decode : Bool) : List UInt8 → Option (ℕ × Bool)
  | [] => none
  | chr :: off =>
      if chr = 0 then some (len, decode)
      else measure (len + 1) (decode || chr == 43 || chr == 37) off

/-- `*buf++ = c`, with an index for the pointer. -/
def put (result : List UInt8) (buf : ℕ) (c : UInt8) : Option (List UInt8) :=
  if buf < result.length then some (result.set buf c) else none

/-- The second loop. It ends with the string, the pointer into it and `outLen`. -/
def decode (result : List UInt8) (buf outLen : ℕ) : List UInt8 → Option (List UInt8 × ℕ × ℕ)
  | [] => none
  | chr :: value =>
      if chr = 0 then some (result, buf, outLen)
      else if chr = 43 then
        (put result buf 32).bind fun result => decode result (buf + 1) (outLen + 1) value
      else if chr = 37 then
        match value with
        | [] => none
        | n1 :: value =>
            if n1 = 0 then some (result, buf, outLen)
            else match value with
              | [] => none
              | n2 :: value =>
                  if n2 = 0 then some (result, buf, outLen)
                  else
                    (put result buf (hexToInt n1 <<< 4 ||| hexToInt n2)).bind fun result =>
                      decode result (buf + 1) (outLen + 1) value
      else (put result buf chr).bind fun result => decode result (buf + 1) (outLen + 1) value

def resize (str : List UInt8) (n : ℕ) : List UInt8 :=
  str.take n ++ List.replicate (n - str.length) 0

/-- The slow path, for a value of the length. -/
def slow (len : ℕ) (value : List UInt8) : Option (List UInt8) :=
  (decode (resize [] len) 0 0 value).map fun (result, _, outLen) => resize result outLen

end UrlDecode

open UrlDecode

def urlDecode (value : List UInt8) : Option (List UInt8) :=
  (measure 0 false value).bind fun (len, decode) =>
    if !decode then some (value.takeWhile (· ≠ 0)) else slow len value

/-- The bytes that stand for themselves. -/
def unreserved (b : UInt8) : Bool :=
  (48 ≤ b && b ≤ 57) || (65 ≤ b && b ≤ 90) || (97 ≤ b && b ≤ 122) || b == 42 || b == 45 ||
    b == 46 || b == 95

/-- The hexadecimal digits of a number, in either case. -/
def HexDigit (d : ℕ) (x : UInt8) : Prop :=
  if d < 10 then x.toNat = 48 + d else x.toNat = 55 + d ∨ x.toNat = 87 + d

/-- A text that the web interface may write for a string. -/
inductive Encodes : List UInt8 → List UInt8 → Prop
  | nil : Encodes [] []
  | plain {b : UInt8} {s t : List UInt8} : unreserved b = true → Encodes s t →
      Encodes (b :: s) (b :: t)
  | space {s t : List UInt8} : Encodes s t → Encodes (32 :: s) (43 :: t)
  | percent {b n1 n2 : UInt8} {s t : List UInt8} : unreserved b = false → b ≠ 32 →
      HexDigit (b.toNat / 16) n1 → HexDigit (b.toNat % 16) n2 → Encodes s t →
      Encodes (b :: s) (37 :: n1 :: n2 :: t)

namespace UrlDecode

/-- What is decoded of a text. An escape that is not complete ends it. -/
def decoded : List UInt8 → List UInt8
  | [] => []
  | chr :: value =>
      if chr = 43 then 32 :: decoded value
      else if chr = 37 then
        match value with
        | n1 :: n2 :: value => (hexToInt n1 <<< 4 ||| hexToInt n2) :: decoded value
        | _ => []
      else chr :: decoded value

theorem measure_text {text : List UInt8} (h : 0 ∉ text) (len : ℕ) (decode : Bool) :
    measure len decode (text ++ [0]) =
      some (len + text.length, decode || text.any fun chr => chr == 43 || chr == 37) := by
  induction text generalizing len decode with
  | nil => simp [measure]
  | cons chr text ih =>
      have hne : chr ≠ 0 := fun he => h (he ▸ List.mem_cons_self)
      rw [List.cons_append, measure, if_neg hne, ih fun hm => h (List.mem_cons_of_mem _ hm)]
      simp only [List.length_cons, List.any_cons, Bool.or_assoc]
      congr 2
      omega

theorem decoded_plus (value : List UInt8) : decoded (43 :: value) = 32 :: decoded value := by
  rw [decoded.eq_def]
  rfl

theorem decoded_escape (n1 n2 : UInt8) (value : List UInt8) :
    decoded (37 :: n1 :: n2 :: value) = (hexToInt n1 <<< 4 ||| hexToInt n2) :: decoded value := by
  rw [decoded.eq_def]
  rfl

/-- An escape that is cut off. -/
theorem decoded_cut {value : List UInt8} (h : ∀ n1 n2 rest, value = n1 :: n2 :: rest → False) :
    decoded (37 :: value) = [] := by
  rw [decoded.eq_def]
  dsimp only
  rw [if_neg (by decide), if_pos rfl]
  split
  · exact (h _ _ _ rfl).elim
  · rfl

theorem decoded_plain {chr : UInt8} (hplus : chr ≠ 43) (hpercent : chr ≠ 37)
    (value : List UInt8) : decoded (chr :: value) = chr :: decoded value := by
  rw [decoded.eq_def]
  dsimp only
  rw [if_neg hplus, if_neg hpercent]

/-- A byte is written behind those that were written before. -/
theorem take_set {result : List UInt8} {buf : ℕ} (h : buf < result.length) (c : UInt8) :
    (result.set buf c).take (buf + 1) = result.take buf ++ [c] := by
  rw [List.take_succ_eq_append_getElem (by rwa [List.length_set]), List.take_set_of_le le_rfl,
    List.getElem_set_self]

/-- What the second loop leaves: the string with the bytes behind the pointer, and both
counters moved on by as many. -/
def Leaves (result : List UInt8) (buf outLen : ℕ) (out : List UInt8) :
    Option (List UInt8 × ℕ × ℕ) → Prop
  | none => False
  | some (result', buf', outLen') => result'.length = result.length ∧
      result'.take buf' = result.take buf ++ out ∧ buf' = buf + out.length ∧
      outLen' = outLen + out.length

/-- One byte, and what the rest of the loop leaves. -/
theorem Leaves.cons {result : List UInt8} {buf outLen : ℕ} {c : UInt8} {out : List UInt8}
    {next : List UInt8 → Option (List UInt8 × ℕ × ℕ)} (h : buf < result.length)
    (hnext : Leaves (result.set buf c) (buf + 1) (outLen + 1) out (next (result.set buf c))) :
    Leaves result buf outLen (c :: out) ((put result buf c).bind next) := by
  rw [put, if_pos h, Option.bind_some]
  cases hn : next (result.set buf c) with
  | none =>
      rw [hn] at hnext
      exact hnext.elim
  | some s =>
      rw [hn] at hnext
      obtain ⟨hlen, htake, hbuf, hout⟩ := hnext
      rw [take_set h, List.append_assoc] at htake
      rw [List.length_set] at hlen
      refine ⟨hlen, htake, ?_, ?_⟩
      · rw [hbuf, List.length_cons]
        omega
      · rw [hout, List.length_cons]
        omega

theorem Leaves.done (result : List UInt8) (buf outLen : ℕ) :
    Leaves result buf outLen [] (some (result, buf, outLen)) :=
  ⟨rfl, (List.append_nil _).symm, rfl, rfl⟩

section Turns
variable (result : List UInt8) (buf outLen : ℕ)

theorem decode_plus (value : List UInt8) :
    decode result buf outLen (43 :: value) =
      (put result buf 32).bind fun result => decode result (buf + 1) (outLen + 1) value := by
  rw [decode.eq_def]
  rfl

theorem decode_escape {n1 n2 : UInt8} (h1 : n1 ≠ 0) (h2 : n2 ≠ 0) (value : List UInt8) :
    decode result buf outLen (37 :: n1 :: n2 :: value) =
      (put result buf (hexToInt n1 <<< 4 ||| hexToInt n2)).bind fun result =>
        decode result (buf + 1) (outLen + 1) value := by
  rw [decode.eq_def]
  dsimp only
  rw [if_neg (by decide), if_neg (by decide), if_pos rfl, if_neg h1, if_neg h2]

/-- An escape that the terminator cuts off ends the loop. -/
theorem decode_cut {value : List UInt8} (hzero : 0 ∉ value)
    (h : ∀ n1 n2 rest, value = n1 :: n2 :: rest → False) :
    decode result buf outLen (37 :: (value ++ [0])) = some (result, buf, outLen) := by
  match value, h with
  | [], _ => rfl
  | [n1], _ =>
      have hne : n1 ≠ 0 := fun he => hzero (he ▸ List.mem_cons_self)
      rw [decode.eq_def]
      dsimp only [List.cons_append, List.nil_append]
      rw [if_neg (by decide), if_neg (by decide), if_pos rfl, if_neg hne, if_pos rfl]
  | n1 :: n2 :: rest, h => exact (h n1 n2 rest rfl).elim

theorem decode_plain {chr : UInt8} (hzero : chr ≠ 0) (hplus : chr ≠ 43) (hpercent : chr ≠ 37)
    (value : List UInt8) :
    decode result buf outLen (chr :: value) =
      (put result buf chr).bind fun result => decode result (buf + 1) (outLen + 1) value := by
  rw [decode.eq_def]
  dsimp only
  rw [if_neg hzero, if_neg hplus, if_neg hpercent]

end Turns

/-- The second loop decodes the text up to its terminator, in a string with room for it. -/
theorem decode_leaves {text : List UInt8} (h : 0 ∉ text) {result : List UInt8} {buf : ℕ}
    (hroom : buf + text.length ≤ result.length) (outLen : ℕ) :
    Leaves result buf outLen (decoded text) (decode result buf outLen (text ++ [0])) := by
  induction text using decoded.induct generalizing result buf outLen with
  | case1 => exact .done result buf outLen
  | case2 value ih =>
      rw [List.length_cons] at hroom
      rw [decoded_plus, List.cons_append, decode_plus]
      refine Leaves.cons (by omega) (ih (fun hm => h (List.mem_cons_of_mem _ hm)) ?_ _)
      rw [List.length_set]
      omega
  | case3 n1 n2 value hne ih =>
      simp only [List.mem_cons, not_or] at h
      simp only [List.length_cons] at hroom
      rw [decoded_escape, List.cons_append, List.cons_append, List.cons_append,
        decode_escape _ _ _ (Ne.symm h.2.1) (Ne.symm h.2.2.1)]
      refine Leaves.cons (by omega) (ih h.2.2.2 ?_ _)
      rw [List.length_set]
      omega
  | case4 value hne hshort =>
      rw [decoded_cut hne, List.cons_append,
        decode_cut _ _ _ (fun hm => h (List.mem_cons_of_mem _ hm)) hne]
      exact .done result buf outLen
  | case5 chr value hplus hpercent ih =>
      rw [List.length_cons] at hroom
      have hzero : chr ≠ 0 := fun he => h (he ▸ List.mem_cons_self)
      rw [decoded_plain hplus hpercent, List.cons_append, decode_plain _ _ _ hzero hplus hpercent]
      refine Leaves.cons (by omega) (ih (fun hm => h (List.mem_cons_of_mem _ hm)) ?_ _)
      rw [List.length_set]
      omega

/-- The slow path ends at the terminator, and the string it makes is no longer than the
text. -/
theorem slow_text {text : List UInt8} (h : 0 ∉ text) :
    ∃ result buf, decode (resize [] text.length) 0 0 (text ++ [0]) = some (result, buf, buf) ∧
      buf ≤ text.length ∧ result.length = text.length ∧ result.take buf = decoded text := by
  have hlen : (resize [] text.length).length = text.length := by simp [resize]
  have hleaves := decode_leaves h (show 0 + text.length ≤ (resize [] text.length).length by
    rw [hlen, Nat.zero_add]) 0
  cases hd : decode (resize [] text.length) 0 0 (text ++ [0]) with
  | none =>
      rw [hd] at hleaves
      exact hleaves.elim
  | some s =>
      obtain ⟨result, buf, outLen⟩ := s
      rw [hd] at hleaves
      obtain ⟨hresult, htake, hbuf, hout⟩ := hleaves
      obtain rfl : outLen = buf := hout.trans hbuf.symm
      have hbound : outLen ≤ text.length := by
        have hle := congrArg List.length htake
        rw [List.length_take, hresult, hlen, List.take_zero, List.nil_append] at hle
        omega
      exact ⟨result, outLen, rfl, hbound, hresult.trans hlen, htake⟩

theorem slow_eq {text : List UInt8} (h : 0 ∉ text) :
    slow text.length (text ++ [0]) = some (decoded text) := by
  obtain ⟨result, buf, hd, hbuf, hlen, htake⟩ := slow_text h
  rw [slow, hd, Option.map_some]
  dsimp only
  rw [resize, htake, Nat.sub_eq_zero_of_le (by rwa [hlen]), List.replicate_zero, List.append_nil]

/-- Without a plus sign or a percent sign nothing is decoded. -/
theorem decoded_eq {text : List UInt8} (hplus : 43 ∉ text) (hpercent : 37 ∉ text) :
    decoded text = text := by
  induction text with
  | nil => rfl
  | cons chr text ih =>
      simp only [List.mem_cons, not_or] at hplus hpercent
      rw [decoded_plain (Ne.symm hplus.1) (Ne.symm hpercent.1), ih hplus.2 hpercent.2]

theorem urlDecode_eq {text : List UInt8} (h : 0 ∉ text) :
    urlDecode (text ++ [0]) = some (decoded text) := by
  have hwhole : (text ++ [0]).takeWhile (· ≠ 0) = text := by
    rw [List.takeWhile_append_of_pos fun b hb => by
      have hne : b ≠ 0 := fun he => h (he ▸ hb)
      simpa using hne]
    simp
  rw [urlDecode, measure_text h, Option.bind_some]
  dsimp only
  rw [Nat.zero_add, Bool.false_or, slow_eq h, hwhole]
  by_cases hany : (text.any fun chr => chr == 43 || chr == 37) = true
  · rw [hany]
    rfl
  · have hnone : ∀ chr ∈ text, chr ≠ 43 ∧ chr ≠ 37 := by simpa using hany
    rw [decoded_eq (fun hm => (hnone 43 hm).1 rfl) (fun hm => (hnone 37 hm).2 rfl)]
    exact ite_self _

theorem hexToInt_digit {d : ℕ} (hd : d < 16) {x : UInt8} (hx : HexDigit d x) :
    hexToInt x = UInt8.ofNat d ∧ x ≠ 0 := by
  have hval : ∀ n : ℕ, n < 256 → x.toNat = n → x = UInt8.ofNat n := fun n hn he =>
    UInt8.toNat_inj.mp (he.trans (UInt8.toNat_ofNat_of_lt' hn).symm)
  unfold HexDigit at hx
  split_ifs at hx with hlt
  · rw [hval _ (by omega) hx]
    interval_cases d <;> decide
  · rcases hx with hx | hx
    · rw [hval _ (by omega) hx]
      interval_cases d <;> decide
    · rw [hval _ (by omega) hx]
      interval_cases d <;> decide

/-- The two digits of a byte. -/
theorem nibbles (b : UInt8) :
    UInt8.ofNat (b.toNat / 16) <<< 4 ||| UInt8.ofNat (b.toNat % 16) = b := by
  have hall : ∀ n < 256,
      UInt8.ofNat (n / 16) <<< 4 ||| UInt8.ofNat (n % 16) = UInt8.ofNat n := by
    decide +kernel
  rw [hall b.toNat b.toNat_lt, UInt8.ofNat_toNat]

theorem decoded_encodes {s t : List UInt8} (h : Encodes s t) : decoded t = s ∧ 0 ∉ t := by
  induction h with
  | nil => exact ⟨rfl, List.not_mem_nil⟩
  | @plain b s t hb _ ih =>
      have hne : b ≠ 43 ∧ b ≠ 37 ∧ b ≠ 0 := by
        refine ⟨?_, ?_, ?_⟩ <;> rintro rfl <;> cases hb
      refine ⟨by rw [decoded_plain hne.1 hne.2.1, ih.1], ?_⟩
      exact List.not_mem_cons_of_ne_of_not_mem (Ne.symm hne.2.2) ih.2
  | space _ ih =>
      refine ⟨by rw [decoded_plus, ih.1], ?_⟩
      exact List.not_mem_cons_of_ne_of_not_mem (by decide) ih.2
  | @percent b n1 n2 s t _ _ h1 h2 _ ih =>
      have hhi := hexToInt_digit (by have := b.toNat_lt; omega) h1
      have hlo := hexToInt_digit (Nat.mod_lt _ (by decide)) h2
      refine ⟨by rw [decoded_escape, hhi.1, hlo.1, nibbles, ih.1], ?_⟩
      simp only [List.mem_cons, not_or]
      exact ⟨by decide, Ne.symm hhi.2, Ne.symm hlo.2, ih.2⟩

/-- The web interface can write every string. -/
theorem exists_encodes (s : List UInt8) : ∃ t, Encodes s t := by
  have hdigit : ∀ d < 16, ∃ x, HexDigit d x := fun d hd =>
    ⟨UInt8.ofNat (if d < 10 then 48 + d else 55 + d), by
      unfold HexDigit
      interval_cases d <;> decide⟩
  induction s with
  | nil => exact ⟨[], .nil⟩
  | cons b s ih =>
      obtain ⟨t, ht⟩ := ih
      by_cases hplain : unreserved b = true
      · exact ⟨_, .plain hplain ht⟩
      by_cases hspace : b = 32
      · subst hspace
        exact ⟨_, .space ht⟩
      · obtain ⟨n1, h1⟩ := hdigit (b.toNat / 16) (by have := b.toNat_lt; omega)
        obtain ⟨n2, h2⟩ := hdigit (b.toNat % 16) (Nat.mod_lt _ (by decide))
        exact ⟨_, .percent (Bool.not_eq_true _ ▸ hplain) hspace h1 h2 ht⟩

/-- Decoding undoes the encoding, the fast path is right, and on every text the slow path
ends at the terminator with a string that is no longer than the text. -/
theorem urlDecode_correct :
    (∀ s t, Encodes s t → urlDecode (t ++ [0]) = some s) ∧
    (∀ text, 0 ∉ text → 43 ∉ text → 37 ∉ text →
      measure 0 false (text ++ [0]) = some (text.length, false) ∧
        urlDecode (text ++ [0]) = slow text.length (text ++ [0])) ∧
    ∀ text, 0 ∉ text → ∃ result buf,
      decode (resize [] text.length) 0 0 (text ++ [0]) = some (result, buf, buf) ∧
        buf ≤ text.length ∧ result.length = text.length := by
  refine ⟨fun s t h => ?_, fun text h hplus hpercent => ⟨?_, ?_⟩, fun text h => ?_⟩
  · obtain ⟨hdecoded, hzero⟩ := decoded_encodes h
    rw [urlDecode_eq hzero, hdecoded]
  · have hnone : (text.any fun chr => chr == 43 || chr == 37) = false := by
      rw [List.any_eq_false]
      intro chr hchr
      have h1 : chr ≠ 43 := fun he => hplus (he ▸ hchr)
      have h2 : chr ≠ 37 := fun he => hpercent (he ▸ hchr)
      simp [h1, h2]
    rw [measure_text h, hnone, Nat.zero_add, Bool.or_false]
  · rw [urlDecode_eq h, slow_eq h]
  · obtain ⟨result, buf, hd, hbuf, hlen, -⟩ := slow_text h
    exact ⟨result, buf, hd, hbuf, hlen⟩

theorem urlDecode_correct_cafe :
    urlDecode (ascii "a+caf%C3%a9" ++ [0]) = some (ascii "a caf" ++ [0xC3, 0xA9]) ∧
      urlDecode (ascii "salon" ++ [0]) = slow 5 (ascii "salon" ++ [0]) ∧
      ∃ result buf, decode (resize [] 3) 0 0 (ascii "a%4" ++ [0]) = some (result, buf, buf) ∧
        buf ≤ 3 ∧ result.length = 3 := by
  have hsalon : 0 ∉ ascii "salon" ∧ 43 ∉ ascii "salon" ∧ 37 ∉ ascii "salon" := by decide +kernel
  refine ⟨urlDecode_correct.1 _ _ ?_,
    (urlDecode_correct.2.1 (ascii "salon") hsalon.1 hsalon.2.1 hsalon.2.2).2,
    urlDecode_correct.2.2 (ascii "a%4") (by decide +kernel)⟩
  refine .plain (by decide) (.space (.plain (by decide) (.plain (by decide) (.plain (by decide)
    (.percent (by decide) (by decide) ?_ ?_ (.percent (by decide) (by decide) ?_ ?_ .nil))))))
  all_goals
    unfold HexDigit
    decide

end UrlDecode

end PicoSomfy
