import PicoSomfy.JsonText

/-!
# Texts that spell a value

A text spells a value when it is read as that value wherever it stands, and has no more
bulk than the value needs. Numbers, strings, arrays and objects are spelled from the
texts of their parts. Spaces may stand around the parts of an object.
-/
namespace JsonText

@[simp] theorem skipSpace_space (bs : List UInt8) : skipSpace (32 :: bs) = skipSpace bs := rfl

/-- Nothing but white space. -/
def Blank (gap : List UInt8) : Prop := ∀ b ∈ gap, isSpace b = true

theorem blank_nil : Blank [] := nofun

theorem blank_space : Blank [32] := fun b hb => by
  rw [List.mem_singleton.mp hb]
  rfl

theorem skipSpace_blank {gap : List UInt8} (h : Blank gap) (bs : List UInt8) :
    skipSpace (gap ++ bs) = skipSpace bs := by
  induction gap with
  | nil => rfl
  | cons b gap ih =>
      rw [List.cons_append, skipSpace, if_pos (h b List.mem_cons_self)]
      exact ih fun c hc => h c (List.mem_cons_of_mem _ hc)

theorem skipSpace_of_ne {b : UInt8} (h : isSpace b = false) (bs : List UInt8) :
    skipSpace (b :: bs) = b :: bs := by
  rw [skipSpace, if_neg (by rw [h]; exact Bool.false_ne_true)]

/-- The bytes of a string in which nothing but the quote and the backslash is escaped. -/
def quoteBytes (s : List UInt8) : List UInt8 :=
  s.flatMap fun b => if b = 34 ∨ b = 92 then [92, b] else [b]

theorem quoteBytes_cons_plain {b : UInt8} (hb : ¬(b = 34 ∨ b = 92)) (s : List UInt8) :
    quoteBytes (b :: s) = b :: quoteBytes s := by
  rw [quoteBytes, List.flatMap_cons, if_neg hb]
  rfl

theorem quoteBytes_cons_escaped {b : UInt8} (hb : b = 34 ∨ b = 92) (s : List UInt8) :
    quoteBytes (b :: s) = 92 :: b :: quoteBytes s := by
  rw [quoteBytes, List.flatMap_cons, if_pos hb]
  rfl

theorem chars_quoted {s : List UInt8} (hs : ∀ b ∈ s, ¬b < 32) {n : ℕ} (hn : s.length < n)
    (rest : List UInt8) : chars n (quoteBytes s ++ 34 :: rest) = some (s, rest) := by
  induction s generalizing n with
  | nil =>
      obtain ⟨n, rfl⟩ : ∃ m, n = m + 1 := ⟨n - 1, by omega⟩
      rfl
  | cons b s ih =>
      obtain ⟨n, rfl⟩ : ∃ m, n = m + 1 := ⟨n - 1, by omega⟩
      have htail := ih (fun c hc => hs c (List.mem_cons_of_mem _ hc)) (n := n) (by
        rw [List.length_cons] at hn
        omega)
      rw [quoteBytes, List.flatMap_cons]
      by_cases hb : b = 34 ∨ b = 92
      · have hescape : ∀ tail, escape (b :: tail) = some ([b], tail) := fun tail => by
          unfold escape
          exact if_pos (hb.imp_right .inl)
        rw [if_pos hb]
        simp only [List.cons_append, List.nil_append]
        rw [chars, if_neg (by decide), if_pos rfl, hescape, Option.bind_some]
        change Option.map _ (chars n (quoteBytes s ++ 34 :: rest)) = _
        rw [htail]
        rfl
      · rw [if_neg hb]
        simp only [List.cons_append, List.nil_append]
        rw [chars, if_neg fun h => hb (.inl h), if_neg fun h => hb (.inr h),
          if_neg (hs b List.mem_cons_self)]
        change Option.map _ (chars n (quoteBytes s ++ 34 :: rest)) = _
        rw [htail]
        rfl

theorem length_quoteBytes (s : List UInt8) : s.length ≤ (quoteBytes s).length := by
  induction s with
  | nil => exact le_rfl
  | cons b s ih =>
      rw [quoteBytes, List.flatMap_cons, List.length_append, List.length_cons]
      have hone : 1 ≤ (if b = 34 ∨ b = 92 then [92, b] else [b]).length := by split_ifs <;> simp
      change s.length + 1 ≤ _ + (quoteBytes s).length
      omega

theorem quoteBytes_plain {s : List UInt8} (hs : ∀ b ∈ s, b ≠ 34 ∧ b ≠ 92) : quoteBytes s = s := by
  induction s with
  | nil => rfl
  | cons b s ih =>
      obtain ⟨h₁, h₂⟩ := hs b List.mem_cons_self
      rw [quoteBytes, List.flatMap_cons, if_neg (not_or.mpr ⟨h₁, h₂⟩), List.singleton_append]
      exact congrArg (b :: ·) (ih fun c hc => hs c (List.mem_cons_of_mem _ hc))

/-- A quoted string, behind its opening quote. -/
theorem string_quoted {s : List UInt8} (hs : ∀ b ∈ s, ¬b < 32) (rest : List UInt8) :
    string (quoteBytes s ++ 34 :: rest) = some (s, rest) := by
  refine chars_quoted hs ?_ rest
  have hlen := length_quoteBytes s
  rw [List.length_append, List.length_cons]
  omega

/-- The bulk of a quoted string is what it costs. -/
theorem bulk_quoteBytes {s : List UInt8} (hs : ∀ b ∈ s, ¬b < 32) :
    bulk (quoteBytes s) = (s.map cost).sum := by
  induction s with
  | nil => rfl
  | cons b s ih =>
      have htail := ih fun c hc => hs c (List.mem_cons_of_mem _ hc)
      rw [quoteBytes, List.flatMap_cons, bulk_append, List.map_cons, List.sum_cons, ← htail]
      congr 1
      by_cases hb : b = 34 ∨ b = 92
      · rw [if_pos hb, cost, if_pos (hb.imp_right .inl)]
        rcases hb with rfl | rfl <;> rfl
      · rw [if_neg hb, cost, if_neg]
        · rfl
        · rintro (h | h | h)
          · exact hb (.inl h)
          · exact hb (.inr h)
          · exact hs b List.mem_cons_self h

/-- The bytes of a text of ASCII characters. -/
def bytes (text : String) : List UInt8 := text.toList.map fun c => UInt8.ofNat c.toNat

/-- The next byte does not continue a number. -/
def Ends (rest : List UInt8) : Prop := ∀ b ∈ rest.head?, isDigit b = false

theorem digit_byte {d : ℕ} (hd : d < 10) :
    UInt8.ofNat d.digitChar.toNat = UInt8.ofNat (48 + d) := by
  interval_cases d <;> rfl

theorem bytes_of_lt {n : ℕ} (hn : n < 10) : bytes (toString n) = [UInt8.ofNat (48 + n)] := by
  rw [bytes, Nat.toString_eq_ofList_toDigits, String.toList_ofList, Nat.toDigits_of_lt_base hn,
    List.map_singleton, digit_byte hn]

theorem bytes_of_le {n : ℕ} (hn : 10 ≤ n) :
    bytes (toString n) = bytes (toString (n / 10)) ++ [UInt8.ofNat (48 + n % 10)] := by
  simp only [bytes, Nat.toString_eq_ofList_toDigits, String.toList_ofList]
  rw [Nat.toDigits_of_base_le (by decide) hn, List.map_append, List.map_singleton,
    digit_byte (Nat.mod_lt n (by decide))]

theorem toNat_digit {d : ℕ} (hd : d < 10) : (UInt8.ofNat (48 + d)).toNat = 48 + d :=
  UInt8.toNat_ofNat_of_lt' (by rw [UInt8.size]; omega)

theorem isDigit_digit {d : ℕ} (hd : d < 10) : isDigit (UInt8.ofNat (48 + d)) = true := by
  interval_cases d <;> rfl

theorem isDigit_natText (n : ℕ) : ∀ b ∈ bytes (toString n), isDigit b = true := by
  induction n using Nat.strong_induction_on with
  | _ n ih =>
      by_cases hn : n < 10
      · rw [bytes_of_lt hn]
        intro b hb
        rw [List.mem_singleton.mp hb, isDigit_digit hn]
      · rw [bytes_of_le (not_lt.mp hn)]
        intro b hb
        rcases List.mem_append.mp hb with hb | hb
        · exact ih (n / 10) (by omega) b hb
        · rw [List.mem_singleton.mp hb, isDigit_digit (Nat.mod_lt n (by decide))]

theorem decimal_natText (n : ℕ) : decimal (bytes (toString n)) = n := by
  induction n using Nat.strong_induction_on with
  | _ n ih =>
      by_cases hn : n < 10
      · rw [bytes_of_lt hn, decimal, List.foldl_cons, List.foldl_nil, toNat_digit hn]
        omega
      · rw [bytes_of_le (not_lt.mp hn), decimal, List.foldl_append]
        change (fun n d => 10 * n + (UInt8.toNat d - 48)) (decimal (bytes (toString (n / 10)))) _ = n
        dsimp only
        rw [ih (n / 10) (by omega), toNat_digit (Nat.mod_lt n (by decide))]
        omega

theorem natText_ne_nil (n : ℕ) : bytes (toString n) ≠ [] := by
  by_cases hn : n < 10
  · rw [bytes_of_lt hn]
    exact List.cons_ne_nil _ _
  · rw [bytes_of_le (not_lt.mp hn)]
    exact List.append_ne_nil_of_right_ne_nil _ (List.cons_ne_nil _ _)

/-- Only zero starts with a zero. -/
theorem natText_head {n : ℕ} (hn : 0 < n) : (bytes (toString n)).head? ≠ some 48 := by
  induction n using Nat.strong_induction_on with
  | _ n ih =>
      by_cases hlt : n < 10
      · rw [bytes_of_lt hlt]
        interval_cases n <;> decide
      · rw [bytes_of_le (not_lt.mp hlt), List.head?_append_of_ne_nil _ (natText_ne_nil _)]
        exact ih (n / 10) (by omega) (by omega)

theorem natural_natText (n : ℕ) {rest : List UInt8} (hrest : Ends rest) :
    natural (bytes (toString n) ++ rest) = some (n, rest) := by
  have htake : rest.takeWhile isDigit = [] ∧ rest.dropWhile isDigit = rest := by
    cases rest with
    | nil => exact ⟨rfl, rfl⟩
    | cons b rest =>
        have hb := hrest b rfl
        rw [List.takeWhile_cons_of_neg (by rw [hb]; exact Bool.false_ne_true),
          List.dropWhile_cons_of_neg (by rw [hb]; exact Bool.false_ne_true)]
        exact ⟨rfl, rfl⟩
  unfold natural
  rw [List.takeWhile_append_of_pos (isDigit_natText n),
    List.dropWhile_append_of_pos (isDigit_natText n), htake.1, htake.2, List.append_nil, if_neg,
    decimal_natText]
  rintro (hnil | ⟨hlong, hzero⟩)
  · exact natText_ne_nil n hnil
  · rcases Nat.eq_zero_or_pos n with rfl | hpos
    · exact absurd hlong (by decide)
    · exact natText_head hpos hzero

theorem bytes_negSucc (n : ℕ) :
    bytes (toString (Int.negSucc n)) = 45 :: bytes (toString (n + 1)) := by
  change bytes ("-" ++ toString (n + 1)) = _
  rw [bytes, String.toList_append, List.map_append]
  rfl

theorem number_intText (z : ℤ) {rest : List UInt8} (hrest : Ends rest) :
    number (bytes (toString z) ++ rest) = some (z, rest) := by
  cases z with
  | ofNat n =>
      change number (bytes (toString n) ++ rest) = _
      have hnat := natural_natText n hrest
      obtain ⟨b, tail, htext⟩ := List.exists_cons_of_ne_nil (natText_ne_nil n)
      have hb := isDigit_natText n b (by rw [htext]; exact List.mem_cons_self)
      rw [htext, List.cons_append] at hnat ⊢
      unfold number
      split
      · next h =>
          rw [(List.cons.inj h).1] at hb
          cases hb
      · rw [hnat]
        rfl
  | negSucc n =>
      rw [bytes_negSucc, List.cons_append, number, natural_natText _ hrest]
      rfl

theorem length_natText_le {k : ℕ} (hk : 0 < k) {n : ℕ} (hn : n < 10 ^ k) :
    (bytes (toString n)).length ≤ k := by
  induction k generalizing n with
  | zero => exact absurd hk (Nat.lt_irrefl 0)
  | succ k ih =>
      by_cases hlt : n < 10
      · rw [bytes_of_lt hlt]
        exact Nat.succ_le_succ (Nat.zero_le k)
      · have hk0 : k ≠ 0 := by
          rintro rfl
          exact hlt hn
        have hdiv : n / 10 < 10 ^ k := by
          rw [pow_succ] at hn
          omega
        rw [bytes_of_le (not_lt.mp hlt), List.length_append, List.length_singleton]
        exact Nat.succ_le_succ (ih (Nat.pos_of_ne_zero hk0) hdiv)

/-- A sign and ten digits. -/
theorem length_intText_le {z : ℤ} (hlo : -(2 ^ 31) ≤ z) (hhi : z < 2 ^ 31) :
    (bytes (toString z)).length ≤ 11 := by
  cases z with
  | ofNat n =>
      have hn : n < 2 ^ 31 := by
        have hcast : (n : ℤ) < 2 ^ 31 := hhi
        exact_mod_cast hcast
      exact le_trans (length_natText_le (k := 10) (by decide) (by omega)) (by decide)
  | negSucc n =>
      rw [bytes_negSucc, List.length_cons]
      exact Nat.succ_le_succ (length_natText_le (by decide) (by omega))

/-- The text does not start with a closing bracket. -/
def Opens (t : List UInt8) : Prop := ∃ b tail, skipSpace t = b :: tail ∧ b ≠ 93 ∧ b ≠ 125

/-- The text spells a value: it is read as that value, wherever it stands in front of
something that does not continue a number, and it has no more bulk than it needs. -/
structure Spells (t : List UInt8) (v : Value) : Prop where
  opens : Opens t
  reads : ∀ n, t.length ≤ n → ∀ rest, Ends rest → value n (t ++ rest) = some (v, rest)
  bulk : bulk t = v.bulk

/-- The text spells a member of an object. -/
structure SpellsMember (t : List UInt8) (m : List UInt8 × Value) : Prop where
  opens : Opens t
  reads : ∀ n, t.length ≤ n → ∀ rest, Ends rest →
    member (fun bs => value n bs) (t ++ rest) = some (m, rest)
  bulk : JsonText.bulk t = strBulk m.1 + 1 + m.2.bulk

theorem ends_nil : Ends [] := nofun

theorem ends_cons {b : UInt8} (hb : isDigit b = false) (rest : List UInt8) : Ends (b :: rest) := by
  intro c hc
  rw [← Option.some.inj hc]
  exact hb

theorem skipSpace_append {t tail : List UInt8} {b : UInt8} (h : skipSpace t = b :: tail)
    (rest : List UInt8) : skipSpace (t ++ rest) = b :: (tail ++ rest) := by
  induction t with
  | nil => cases h
  | cons c t ih =>
      rw [skipSpace] at h
      rw [List.cons_append, skipSpace]
      split_ifs at h ⊢ with hc
      · exact ih h
      · cases h
        rfl

/-- A text that starts with a byte other than a space or a bracket that closes. -/
theorem opens_cons {b : UInt8} {tail : List UInt8}
    (hb : isSpace b = false ∧ b ≠ 93 ∧ b ≠ 125) : Opens (b :: tail) :=
  ⟨b, tail, skipSpace_of_ne hb.1 tail, hb.2⟩

theorem Spells.parse {t : List UInt8} {v : Value} (h : Spells t v) : JsonText.parse t = some v := by
  have hread := h.reads t.length le_rfl [] ends_nil
  rw [List.append_nil] at hread
  rw [JsonText.parse, hread]
  rfl

/-- A text that lost some bulk does not have the value any more. -/
theorem parse_ne_of_bulk {text : List UInt8} {v : Value} (h : bulk text < v.bulk) :
    parse text ≠ some v := fun hp => absurd (bulk_parse hp) (not_le.mpr h)

theorem bulk_digits {t : List UInt8} (h : ∀ b ∈ t, isDigit b = true ∨ b = 45) : bulk t = 0 := by
  induction t with
  | nil => rfl
  | cons b t ih =>
      rw [bulk_cons, ih fun c hc => h c (List.mem_cons_of_mem _ hc), bulkByte, if_pos]
      rcases h b List.mem_cons_self with hb | hb
      · exact .inr (.inl hb)
      · exact .inr (.inr (.inl hb))

theorem intText_bytes (z : ℤ) : ∀ b ∈ bytes (toString z), isDigit b = true ∨ b = 45 := by
  cases z with
  | ofNat n => exact fun b hb => .inl (isDigit_natText n b hb)
  | negSucc n =>
      intro b hb
      rw [bytes_negSucc, List.mem_cons] at hb
      rcases hb with rfl | hb
      · exact .inr rfl
      · exact .inl (isDigit_natText _ b hb)

/-- The first byte of a number. -/
theorem number_start {b : UInt8} (hb : isDigit b = true ∨ b = 45) :
    isSpace b = false ∧ b ≠ 93 ∧ b ≠ 125 ∧ b ≠ 123 ∧ b ≠ 91 ∧ b ≠ 34 ∧ b ≠ 116 ∧ b ≠ 102 ∧
      b ≠ 110 := by
  rcases hb with hb | rfl
  · simp only [isDigit, Bool.and_eq_true, decide_eq_true_eq, UInt8.le_iff_toNat_le] at hb
    have hlo : 48 ≤ b.toNat := hb.1
    have hhi : b.toNat ≤ 57 := hb.2
    have hne : ∀ c : UInt8, c.toNat < 48 ∨ 57 < c.toNat → b ≠ c := by
      rintro c hc rfl
      omega
    refine ⟨?_, hne _ (by decide), hne _ (by decide), hne _ (by decide), hne _ (by decide),
      hne _ (by decide), hne _ (by decide), hne _ (by decide), hne _ (by decide)⟩
    simp only [isSpace, Bool.or_eq_false_iff, beq_eq_false_iff_ne]
    exact ⟨⟨⟨hne _ (by decide), hne _ (by decide)⟩, hne _ (by decide)⟩, hne _ (by decide)⟩
  · decide

theorem spells_num (z : ℤ) : Spells (bytes (toString z)) (.num z) := by
  have hbytes := intText_bytes z
  have hne : bytes (toString z) ≠ [] := by
    intro hnil
    have hread := number_intText z ends_nil
    rw [hnil] at hread
    cases hread
  obtain ⟨b, tail, htext⟩ := List.exists_cons_of_ne_nil hne
  obtain ⟨hs, h₁, h₂, h₃, h₄, h₅, h₆, h₇, h₈⟩ :=
    number_start (hbytes b (by rw [htext]; exact List.mem_cons_self))
  refine ⟨htext ▸ opens_cons ⟨hs, h₁, h₂⟩, fun n hn rest hrest => ?_, ?_⟩
  · have hread := number_intText z hrest
    rw [htext] at hn hread ⊢
    obtain ⟨n, rfl⟩ : ∃ m, n = m + 1 := ⟨n - 1, by rw [List.length_cons] at hn; omega⟩
    rw [List.cons_append] at hread ⊢
    rw [value, skipSpace_of_ne hs]
    dsimp only
    rw [if_neg h₃, if_neg h₄, if_neg h₅, if_neg h₆, if_neg h₇, if_neg h₈, hread]
    rfl
  · rw [bulk_digits hbytes, Value.bulk]

theorem spells_str {s : List UInt8} (hs : ∀ b ∈ s, ¬b < 32) :
    Spells (34 :: (quoteBytes s ++ [34])) (.str s) := by
  refine ⟨opens_cons (by decide), fun n hn rest _ => ?_, ?_⟩
  · obtain ⟨n, rfl⟩ : ∃ m, n = m + 1 := ⟨n - 1, by rw [List.length_cons] at hn; omega⟩
    have hread := string_quoted hs rest
    rw [List.cons_append, List.append_assoc, value, skipSpace_of_ne (by decide)]
    change Option.map _ (string (quoteBytes s ++ 34 :: rest)) = _
    rw [hread]
    rfl
  · rw [bulk_cons, bulk_append, bulk_quoteBytes hs, Value.bulk, strBulk]
    simp only [bulk_cons, bulk_nil, show bulkByte 34 = 1 from rfl]
    omega

/-- Nothing in the string has to be escaped. -/
def Unescaped (s : List UInt8) : Prop := ∀ b ∈ s, b ≠ 34 ∧ b ≠ 92 ∧ ¬b < 32

instance (s : List UInt8) : Decidable (Unescaped s) :=
  inferInstanceAs (Decidable (∀ b ∈ s, b ≠ 34 ∧ b ≠ 92 ∧ ¬b < 32))

theorem spells_unescaped {s : List UInt8} (h : Unescaped s) :
    Spells (34 :: (s ++ [34])) (.str s) := by
  have hspell := spells_str fun b hb => (h b hb).2.2
  rwa [quoteBytes_plain fun b hb => ⟨(h b hb).1, (h b hb).2.1⟩] at hspell

theorem bulk_le_cost (s : List UInt8) : bulk s ≤ (s.map cost).sum :=
  List.sum_le_sum fun b _ => bulkByte_le b

/-- A string that has to be escaped costs more than it has. -/
theorem bulk_lt_cost {s : List UInt8} (h : ¬Unescaped s) : bulk s < (s.map cost).sum := by
  simp only [Unescaped, not_forall, not_and_or, not_not] at h
  obtain ⟨b, hb, hbad⟩ := h
  refine List.sum_lt_sum _ _ (fun c _ => bulkByte_le c) ⟨b, hb, ?_⟩
  have hcost : cost b = 2 := if_pos hbad
  have hone : bulkByte b ≤ 1 := by
    unfold bulkByte
    split_ifs <;> decide
  omega

theorem unescaped_of_cost_le {s : List UInt8} (h : (s.map cost).sum ≤ bulk s) : Unescaped s := by
  by_contra hbad
  exact absurd (bulk_lt_cost hbad) (not_lt.mpr h)

theorem spells_bool (b : Bool) : Spells (bytes (toString b)) (.bool b) := by
  have hword : ∀ w rest : List UInt8, word w (w ++ rest) = some rest := fun w rest => by
    rw [word, if_pos (List.prefix_append w rest), List.drop_left]
  cases b with
  | false =>
      refine ⟨show Opens (102 :: [97, 108, 115, 101]) from opens_cons (by decide),
        fun n hn rest _ => ?_, by rw [Value.bulk]; rfl⟩
      obtain ⟨n, rfl⟩ : ∃ m, n = m + 1 := ⟨n - 1, by
        have hlen : (bytes (toString false)).length = 5 := rfl
        omega⟩
      change Option.map _ (word [97, 108, 115, 101] ([97, 108, 115, 101] ++ rest)) = _
      rw [hword]
      rfl
  | true =>
      refine ⟨show Opens (116 :: [114, 117, 101]) from opens_cons (by decide),
        fun n hn rest _ => ?_, by rw [Value.bulk]; rfl⟩
      obtain ⟨n, rfl⟩ : ∃ m, n = m + 1 := ⟨n - 1, by
        have hlen : (bytes (toString true)).length = 4 := rfl
        omega⟩
      change Option.map _ (word [114, 117, 101] ([114, 117, 101] ++ rest)) = _
      rw [hword]
      rfl

/-- Texts with commas between them. -/
def commaJoin : List (List UInt8) → List UInt8
  | [] => []
  | [t] => t
  | t :: ts => t ++ 44 :: commaJoin ts

theorem commaJoin_cons (t : List UInt8) {ts : List (List UInt8)} (h : ts ≠ []) :
    commaJoin (t :: ts) = t ++ 44 :: commaJoin ts := by
  cases ts with
  | nil => exact absurd rfl h
  | cons => rfl

theorem length_commaJoin {ts : List (List UInt8)} (hne : ∀ t ∈ ts, t ≠ []) :
    ts.length ≤ (commaJoin ts).length ∧ ∀ t ∈ ts, t.length ≤ (commaJoin ts).length := by
  induction ts with
  | nil => exact ⟨le_rfl, fun t ht => absurd ht List.not_mem_nil⟩
  | cons t ts ih =>
      have ht : 0 < t.length := List.length_pos_iff.mpr (hne t List.mem_cons_self)
      obtain ⟨hcount, hall⟩ := ih fun u hu => hne u (List.mem_cons_of_mem _ hu)
      by_cases hnil : ts = []
      · subst hnil
        exact ⟨ht, fun u hu => by rw [List.mem_singleton.mp hu]; exact le_rfl⟩
      · rw [commaJoin_cons t hnil, List.length_append, List.length_cons, List.length_cons]
        refine ⟨by omega, fun u hu => ?_⟩
        rcases List.mem_cons.mp hu with rfl | hu
        · omega
        · have := hall u hu
          omega

theorem bulk_commaJoin (ts : List (List UInt8)) :
    bulk (commaJoin ts) = (ts.map bulk).sum + (ts.length - 1) := by
  induction ts with
  | nil => rfl
  | cons t ts ih =>
      by_cases hnil : ts = []
      · subst hnil
        rfl
      · have hpos := List.length_pos_iff.mpr hnil
        rw [commaJoin_cons t hnil, bulk_append, bulk_cons, ih, List.map_cons, List.sum_cons,
          List.length_cons, show bulkByte 44 = 1 from rfl]
        omega

section Join
variable {α : Type} {item : List UInt8 → Option (α × List UInt8)} {close : UInt8}
  {gap : List UInt8}

theorem skipSpace_close (hgap : Blank gap) (hclose : close = 93 ∨ close = 125)
    (rest : List UInt8) : skipSpace (gap ++ close :: rest) = close :: rest := by
  rw [skipSpace_blank hgap]
  exact skipSpace_of_ne (by rcases hclose with rfl | rfl <;> rfl) rest

theorem isDigit_space {b : UInt8} (h : isSpace b = true) : isDigit b = false := by
  simp only [isSpace, Bool.or_eq_true, beq_iff_eq] at h
  rcases h with ((rfl | rfl) | rfl) | rfl <;> rfl

/-- A list of items that are read one by one. -/
theorem items_join (hgap : Blank gap) (hclose : close = 93 ∨ close = 125)
    {ts : List (List UInt8 × α)} (hne : ts ≠ [])
    (hread : ∀ t ∈ ts, ∀ rest, Ends rest → item (t.1 ++ rest) = some (t.2, rest)) {n : ℕ}
    (hn : ts.length ≤ n) (rest : List UInt8) :
    items item close n (commaJoin (ts.map (·.1)) ++ (gap ++ close :: rest)) =
      some (ts.map (·.2), rest) := by
  have hskip := skipSpace_close hgap hclose rest
  have hends : Ends (gap ++ close :: rest) := by
    cases gap with
    | nil => exact ends_cons (by rcases hclose with rfl | rfl <;> rfl) rest
    | cons b gap => exact ends_cons (isDigit_space (hgap b List.mem_cons_self)) _
  induction ts generalizing n with
  | nil => exact absurd rfl hne
  | cons t ts ih =>
      obtain ⟨n, rfl⟩ : ∃ m, n = m + 1 := ⟨n - 1, by rw [List.length_cons] at hn; omega⟩
      have hfirst := hread t List.mem_cons_self
      by_cases hnil : ts = []
      · subst hnil
        rw [items]
        change (item (t.1 ++ _)).bind _ = _
        rw [hfirst _ hends, Option.bind_some]
        dsimp only
        rw [hskip]
        dsimp only
        rw [if_pos rfl]
        rfl
      · have hrest := ih hnil (fun u hu => hread u (List.mem_cons_of_mem _ hu)) (n := n) (by
          rw [List.length_cons] at hn
          omega)
        rw [List.map_cons, commaJoin_cons _ (by simpa using hnil), List.append_assoc,
          List.cons_append, items, hfirst _ (ends_cons (b := 44) rfl _), Option.bind_some]
        dsimp only
        rw [skipSpace_of_ne (b := 44) rfl]
        dsimp only
        rw [if_neg (by rcases hclose with rfl | rfl <;> decide), if_pos rfl, hrest]
        rfl

theorem list_join (hgap : Blank gap) (hclose : close = 93 ∨ close = 125)
    {ts : List (List UInt8 × α)} (hopens : ∀ t ∈ ts, Opens t.1)
    (hread : ∀ t ∈ ts, ∀ rest, Ends rest → item (t.1 ++ rest) = some (t.2, rest)) {n : ℕ}
    (hn : ts.length ≤ n) (rest : List UInt8) :
    list item close n (commaJoin (ts.map (·.1)) ++ (gap ++ close :: rest)) =
      some (ts.map (·.2), rest) := by
  have hskip := skipSpace_close hgap hclose rest
  cases ts with
  | nil =>
      unfold list
      rw [List.map_nil, commaJoin, List.nil_append, hskip]
      exact if_pos rfl
  | cons t ts =>
      obtain ⟨b, tail, hb, h₁, h₂⟩ := hopens t List.mem_cons_self
      have hstart : ∃ more, commaJoin ((t :: ts).map (·.1)) = t.1 ++ more := by
        rw [List.map_cons]
        by_cases hnil : ts = []
        · subst hnil
          exact ⟨[], (List.append_nil _).symm⟩
        · exact ⟨_, commaJoin_cons _ (by simpa using hnil)⟩
      obtain ⟨more, hmore⟩ := hstart
      have hitems := items_join hgap hclose (List.cons_ne_nil t ts) hread hn rest
      unfold list
      rw [hmore, List.append_assoc] at hitems ⊢
      rw [skipSpace_append hb]
      dsimp only
      rw [if_neg (by rcases hclose with rfl | rfl <;> assumption)]
      exact hitems

end Join

/-- An array of texts. -/
theorem spells_arr (ts : List (List UInt8 × Value)) (hts : ∀ t ∈ ts, Spells t.1 t.2) :
    Spells (91 :: (commaJoin (ts.map (·.1)) ++ [93])) (.arr (ts.map (·.2))) := by
  have hne : ∀ t ∈ ts.map (·.1), t ≠ [] := by
    intro t ht hnil
    obtain ⟨u, hu, rfl⟩ := List.mem_map.mp ht
    obtain ⟨b, tail, hb, -⟩ := (hts u hu).opens
    rw [hnil] at hb
    cases hb
  obtain ⟨hcount, hlen⟩ := length_commaJoin hne
  refine ⟨opens_cons (by decide), fun n hn rest _ => ?_, ?_⟩
  · obtain ⟨n, rfl⟩ : ∃ m, n = m + 1 := ⟨n - 1, by rw [List.length_cons] at hn; omega⟩
    rw [List.length_cons, List.length_append] at hn
    have hlist : list (fun bs => value n bs) 93 n
        (commaJoin (ts.map (·.1)) ++ ([] ++ 93 :: rest)) = some (ts.map (·.2), rest) :=
      list_join blank_nil (.inl rfl)
        (fun t ht => (hts t ht).opens) (fun t ht rest hrest => (hts t ht).reads n (by
          have := hlen t.1 (List.mem_map_of_mem ht)
          omega) rest hrest) (by
          rw [List.length_map] at hcount
          omega) rest
    rw [List.cons_append, List.append_assoc, value, skipSpace_of_ne (by decide)]
    dsimp only
    rw [if_neg (by decide), if_pos rfl]
    change Option.map _ (list _ 93 n (commaJoin (ts.map (·.1)) ++ ([] ++ 93 :: rest))) = _
    rw [hlist]
    rfl
  · rw [bulk_cons, bulk_append, bulk_commaJoin, Value.bulk, listBulk, List.map_map, List.map_map,
      List.length_map, List.length_map]
    have hsum : ts.map (bulk ∘ fun t => t.1) = ts.map ((fun v => Value.bulk v) ∘ fun t => t.2) :=
      List.map_congr_left fun t ht => (hts t ht).bulk
    rw [hsum]
    simp only [bulk_cons, bulk_nil, show bulkByte 91 = 1 from rfl, show bulkByte 93 = 1 from rfl]
    omega

/-- A member: a key that needs no escapes, and a value, each after a space or none. -/
theorem spells_member {key t : List UInt8} {v : Value} (hkey : Unescaped key)
    (ht : Spells t v) {sp₁ sp₂ : List UInt8} (h₁ : sp₁ = [] ∨ sp₁ = [32])
    (h₂ : sp₂ = [] ∨ sp₂ = [32]) :
    SpellsMember (sp₁ ++ 34 :: (key ++ [34, 58] ++ (sp₂ ++ t))) (key, v) := by
  have hplain : quoteBytes key = key := quoteBytes_plain fun b hb => ⟨(hkey b hb).1, (hkey b hb).2.1⟩
  have hlow : ∀ b ∈ key, ¬b < 32 := fun b hb => (hkey b hb).2.2
  have hopen : ∀ rest, skipSpace (sp₁ ++ 34 :: rest) = 34 :: rest := fun rest => by
    rcases h₁ with rfl | rfl <;> rfl
  refine ⟨⟨34, _, hopen _, by decide⟩, fun n hn rest hrest => ?_, ?_⟩
  · have hlen : t.length ≤ n := by
      simp only [List.length_append, List.length_cons] at hn
      omega
    have hvalue : value n (sp₂ ++ t ++ rest) = some (v, rest) := by
      rcases h₂ with rfl | rfl
      · exact ht.reads n hlen rest hrest
      · obtain ⟨n, rfl⟩ : ∃ m, n = m + 1 := ⟨n - 1, by
          simp only [List.length_append, List.length_cons] at hn
          omega⟩
        have hread := ht.reads (n + 1) hlen rest hrest
        rw [value] at hread ⊢
        exact hread
    have hstring := string_quoted hlow (58 :: (sp₂ ++ t ++ rest))
    rw [hplain] at hstring
    rw [show sp₁ ++ 34 :: (key ++ [34, 58] ++ (sp₂ ++ t)) ++ rest =
      sp₁ ++ 34 :: (key ++ 34 :: 58 :: (sp₂ ++ t ++ rest)) by simp]
    unfold member
    rw [hopen]
    change (string (key ++ 34 :: 58 :: (sp₂ ++ t ++ rest))).bind _ = _
    rw [hstring, Option.bind_some]
    dsimp only
    rw [skipSpace_of_ne (b := 58) rfl]
    change Option.map _ (value n (sp₂ ++ t ++ rest)) = _
    rw [hvalue]
    rfl
  · have hsp : ∀ sp : List UInt8, sp = [] ∨ sp = [32] → JsonText.bulk sp = 0 := by
      rintro sp (rfl | rfl) <;> rfl
    have hk := bulk_quoteBytes hlow
    rw [hplain] at hk
    simp only [bulk_append, bulk_cons, bulk_nil, hsp sp₁ h₁, hsp sp₂ h₂, hk, ht.bulk, strBulk,
      show bulkByte 34 = 1 from rfl, show bulkByte 58 = 1 from rfl]
    omega

/-- An object of members, with a space before its closing bracket. -/
theorem spells_pairs (ts : List (List UInt8 × (List UInt8 × Value)))
    (hts : ∀ t ∈ ts, SpellsMember t.1 t.2) :
    Spells (123 :: (commaJoin (ts.map (·.1)) ++ [32, 125])) (.obj (ts.map (·.2))) := by
  have hne : ∀ t ∈ ts.map (·.1), t ≠ [] := by
    intro t ht hnil
    obtain ⟨u, hu, rfl⟩ := List.mem_map.mp ht
    obtain ⟨b, tail, hb, -⟩ := (hts u hu).opens
    rw [hnil] at hb
    cases hb
  obtain ⟨hcount, hlen⟩ := length_commaJoin hne
  refine ⟨opens_cons (by decide), fun n hn rest _ => ?_, ?_⟩
  · obtain ⟨n, rfl⟩ : ∃ m, n = m + 1 := ⟨n - 1, by rw [List.length_cons] at hn; omega⟩
    rw [List.length_cons, List.length_append] at hn
    have hlist : list (member fun bs => value n bs) 125 n
        (commaJoin (ts.map (·.1)) ++ ([32] ++ 125 :: rest)) = some (ts.map (·.2), rest) :=
      list_join blank_space (.inr rfl)
        (fun t ht => (hts t ht).opens) (fun t ht rest hrest => (hts t ht).reads n (by
          have := hlen t.1 (List.mem_map_of_mem ht)
          omega) rest hrest) (by
          rw [List.length_map] at hcount
          omega) rest
    rw [List.cons_append, List.append_assoc, value, skipSpace_of_ne (by decide)]
    dsimp only
    rw [if_pos rfl]
    change Option.map _ (list _ 125 n (commaJoin (ts.map (·.1)) ++ ([32] ++ 125 :: rest))) = _
    rw [hlist]
    rfl
  · rw [bulk_cons, bulk_append, bulk_commaJoin, Value.bulk, listBulk, List.map_map, List.map_map,
      List.length_map, List.length_map]
    have hsum : ts.map (bulk ∘ fun t => t.1) =
        ts.map ((fun m => strBulk m.1 + 1 + m.2.bulk) ∘ fun t => t.2) :=
      List.map_congr_left fun t ht => (hts t ht).bulk
    rw [hsum]
    simp only [bulk_cons, bulk_nil, show bulkByte 123 = 1 from rfl, show bulkByte 125 = 1 from rfl,
      show bulkByte 32 = 0 from rfl]
    omega

/-- The same, with the texts and the members apart. -/
theorem spells_obj {texts : List (List UInt8)} {members : List (List UInt8 × Value)}
    (h : List.Forall₂ SpellsMember texts members) :
    Spells (123 :: (commaJoin texts ++ [32, 125])) (.obj members) := by
  obtain ⟨hlen, hzip⟩ := List.forall₂_iff_zip.mp h
  have hpairs := spells_pairs (texts.zip members) fun t ht => hzip ht
  rwa [List.map_fst_zip hlen.le, List.map_snd_zip hlen.ge] at hpairs

end JsonText
