import PicoSomfy.JsonSpelling

/-!
# White space in JSON texts

White space may stand around the members of an object. A line break or a tab inside a
string makes a text no JSON, so the ones in a text that is read stand between its parts,
and a space in the place of each of them does not change the value. The flat text has the
bulk of the other bytes alone.
-/
namespace JsonText

/-- The text spells a member of an object, behind some white space. -/
structure ReadsMember (t : List UInt8) (m : List UInt8 × Value) : Prop where
  opens : Opens t
  reads : ∀ n, t.length ≤ n → ∀ rest, Ends rest →
    member (fun bs => value n bs) (t ++ rest) = some (m, rest)

theorem SpellsMember.behind {t gap : List UInt8} {m : List UInt8 × Value} (h : SpellsMember t m)
    (hgap : Blank gap) : ReadsMember (gap ++ t) m where
  opens := by
    obtain ⟨b, tail, hb, hne⟩ := h.opens
    exact ⟨b, tail, by rw [skipSpace_blank hgap, hb], hne⟩
  reads n hn rest hrest := by
    rw [List.length_append] at hn
    have hread := h.reads n (by omega) rest hrest
    rw [member] at hread ⊢
    rw [List.append_assoc, skipSpace_blank hgap]
    exact hread

/-- An object is read with white space before its closing bracket and behind it. -/
theorem parse_pairs (ts : List (List UInt8 × (List UInt8 × Value)))
    (hts : ∀ t ∈ ts, ReadsMember t.1 t.2) {gap tail : List UInt8} (hgap : Blank gap)
    (htail : Blank tail) :
    parse (123 :: (commaJoin (ts.map (·.1)) ++ (gap ++ 125 :: tail))) =
      some (.obj (ts.map (·.2))) := by
  have hne : ∀ t ∈ ts.map (·.1), t ≠ [] := by
    intro t ht hnil
    obtain ⟨u, hu, rfl⟩ := List.mem_map.mp ht
    obtain ⟨b, tail, hb, -⟩ := (hts u hu).opens
    rw [hnil] at hb
    cases hb
  obtain ⟨hcount, hlen⟩ := length_commaJoin hne
  generalize hn : (commaJoin (ts.map (·.1)) ++ (gap ++ 125 :: tail)).length = n
  rw [List.length_append] at hn
  have hlist : list (member fun bs => value n bs) 125 n
      (commaJoin (ts.map (·.1)) ++ (gap ++ 125 :: tail)) = some (ts.map (·.2), tail) :=
    list_join hgap (.inr rfl) (fun t ht => (hts t ht).opens)
      (fun t ht rest hrest => (hts t ht).reads n (by
        have := hlen t.1 (List.mem_map_of_mem ht)
        omega) rest hrest) (by
        rw [List.length_map] at hcount
        omega) tail
  have hskip := skipSpace_blank htail []
  rw [List.append_nil] at hskip
  rw [parse, List.length_cons, List.length_append, hn, value, skipSpace_of_ne (by decide)]
  dsimp only
  rw [if_pos rfl, hlist, Option.map_some, Option.bind_some]
  dsimp only
  rw [hskip]
  rfl

/-- The same, with the texts and the members apart. -/
theorem parse_obj {texts : List (List UInt8)} {members : List (List UInt8 × Value)}
    (h : List.Forall₂ ReadsMember texts members) {gap tail : List UInt8} (hgap : Blank gap)
    (htail : Blank tail) :
    parse (123 :: (commaJoin texts ++ (gap ++ 125 :: tail))) = some (.obj members) := by
  obtain ⟨hlen, hzip⟩ := List.forall₂_iff_zip.mp h
  have hpairs := parse_pairs (texts.zip members) (fun t ht => hzip ht) hgap htail
  rwa [List.map_fst_zip hlen.le, List.map_snd_zip hlen.ge] at hpairs

/-- A line break or a tab becomes a space. -/
def flatByte (b : UInt8) : UInt8 := if isSpace b then 32 else b

def flat (text : List UInt8) : List UInt8 := text.map flatByte

@[simp] theorem flat_nil : flat [] = [] := rfl

@[simp] theorem flat_cons (b : UInt8) (text : List UInt8) :
    flat (b :: text) = flatByte b :: flat text := rfl

theorem flat_append (s t : List UInt8) : flat (s ++ t) = flat s ++ flat t := List.map_append

theorem length_flat (text : List UInt8) : (flat text).length = text.length := List.length_map _

theorem isSpace_iff {b : UInt8} : isSpace b = true ↔ b = 32 ∨ b = 9 ∨ b = 10 ∨ b = 13 := by
  simp only [isSpace, Bool.or_eq_true, beq_iff_eq, or_assoc]

theorem flatByte_of_ne {b : UInt8} (h : isSpace b = false) : flatByte b = b :=
  if_neg (by rw [h]; exact Bool.false_ne_true)

/-- A byte of a string stays as it is. -/
theorem flatByte_of_ge {b : UInt8} (h : ¬b < 32) : flatByte b = b := by
  unfold flatByte
  split_ifs with hs
  · rcases isSpace_iff.mp hs with rfl | rfl | rfl | rfl
    · rfl
    all_goals exact absurd (by decide) h
  · rfl

theorem flatByte_cases (b : UInt8) : flatByte b = b ∨ (isSpace b = true ∧ flatByte b = 32) := by
  unfold flatByte
  split_ifs with hs
  · exact .inr ⟨hs, rfl⟩
  · exact .inl rfl

theorem isSpace_flatByte (b : UInt8) : isSpace (flatByte b) = isSpace b := by
  rcases flatByte_cases b with h | ⟨hs, h⟩
  · rw [h]
  · rw [h, hs]
    rfl

theorem isDigit_flatByte (b : UInt8) : isDigit (flatByte b) = isDigit b := by
  rcases flatByte_cases b with h | ⟨hs, h⟩
  · rw [h]
  · rw [h, isDigit_space hs]
    rfl

theorem bulkByte_flatByte_le (b : UInt8) : bulkByte (flatByte b) ≤ bulkByte b := by
  rcases flatByte_cases b with h | ⟨-, h⟩
  · rw [h]
  · rw [h]
    exact Nat.zero_le _

theorem bulk_flat_le (text : List UInt8) : bulk (flat text) ≤ bulk text := by
  induction text with
  | nil => exact le_rfl
  | cons b text ih => exact Nat.add_le_add (bulkByte_flatByte_le b) ih

theorem skipSpace_head {bs tail : List UInt8} {b : UInt8} (h : skipSpace bs = b :: tail) :
    isSpace b = false := by
  induction bs with
  | nil => cases h
  | cons c bs ih =>
      rw [skipSpace] at h
      split_ifs at h with hc
      · exact ih h
      · cases h
        exact Bool.eq_false_iff.mpr hc

theorem skipSpace_flat (bs : List UInt8) : skipSpace (flat bs) = flat (skipSpace bs) := by
  induction bs with
  | nil => rfl
  | cons b bs ih =>
      rw [flat_cons, skipSpace, skipSpace, isSpace_flatByte]
      split_ifs
      · exact ih
      · rfl

/-- What is read from a text is read from its flat text, too. -/
def Flattens {α : Type} (read : List UInt8 → Option (α × List UInt8)) : Prop :=
  ∀ ⦃bs x rest⦄, read bs = some (x, rest) → read (flat bs) = some (x, flat rest)

theorem hexDigit_flat {b : UInt8} {d : ℕ} (h : hexDigit b = some d) : flatByte b = b := by
  refine flatByte_of_ne (Bool.eq_false_iff.mpr fun hs => ?_)
  rcases isSpace_iff.mp hs with rfl | rfl | rfl | rfl <;> cases h

theorem flattens_codeUnit : Flattens codeUnit := by
  intro bs u rest h
  match bs, h with
  | a :: b :: c :: d :: tail, h =>
      simp only [codeUnit] at h
      split at h
      · next ha hb hc hd =>
          cases h
          simp only [flat_cons, hexDigit_flat ha, hexDigit_flat hb, hexDigit_flat hc,
            hexDigit_flat hd, codeUnit, ha, hb, hc, hd]
      · cases h

theorem flattens_unicode : Flattens unicode := by
  intro bs bytes rest h
  obtain ⟨⟨u, rest₁⟩, hu, h⟩ := Option.bind_eq_some_iff.mp h
  rw [unicode, flattens_codeUnit hu, Option.bind_some]
  dsimp only at h ⊢
  split_ifs at h ⊢
  · cases h
    rfl
  · split at h
    · next tail =>
        obtain ⟨⟨v, rest₂⟩, hv, h⟩ := Option.bind_eq_some_iff.mp h
        change (codeUnit (flat tail)).bind _ = _
        rw [flattens_codeUnit hv, Option.bind_some]
        dsimp only at h ⊢
        split_ifs at h ⊢
        obtain ⟨hbytes, hrest⟩ := Prod.mk.inj (Option.some.inj h)
        rw [← hbytes, ← hrest]
    · cases h

/-- A letter that stands for itself or for another byte. -/
theorem flattens_escape : Flattens escape := by
  intro bs bytes rest h
  cases bs with
  | nil => cases h
  | cons b bs =>
      have hkeep : flatByte b = b := by
        refine flatByte_of_ne (Bool.eq_false_iff.mpr fun hs => ?_)
        rcases isSpace_iff.mp hs with rfl | rfl | rfl | rfl <;> cases h
      rw [escape] at h
      rw [flat_cons, hkeep, escape]
      split_ifs at h ⊢
      all_goals first
        | exact flattens_unicode h
        | (cases h; rfl)

theorem flattens_chars {n : ℕ} : Flattens (chars n) := by
  induction n with
  | zero =>
      intro bs s rest h
      cases h
  | succ n ih =>
      intro bs s rest h
      cases bs with
      | nil => cases h
      | cons b bs =>
          rw [chars] at h
          by_cases hquote : b = 34
          · rw [if_pos hquote] at h
            cases h
            rw [flat_cons, hquote]
            rfl
          rw [if_neg hquote] at h
          by_cases hslash : b = 92
          · rw [if_pos hslash] at h
            obtain ⟨⟨bytes, rest₁⟩, he, h⟩ := Option.bind_eq_some_iff.mp h
            obtain ⟨⟨t, rest₂⟩, ht, hs⟩ := Option.map_eq_some_iff.mp h
            cases hs
            rw [flat_cons, hslash]
            change (escape (flat bs)).bind _ = _
            rw [flattens_escape he, Option.bind_some]
            dsimp only
            rw [ih ht]
            rfl
          rw [if_neg hslash] at h
          split_ifs at h with hlow
          obtain ⟨⟨t, rest₁⟩, ht, hs⟩ := Option.map_eq_some_iff.mp h
          cases hs
          rw [flat_cons, flatByte_of_ge hlow, chars, if_neg hquote, if_neg hslash, if_neg hlow,
            ih ht]
          rfl

theorem flattens_string : Flattens string := by
  intro bs s rest h
  rw [string, length_flat]
  exact flattens_chars h

theorem flattens_natural : Flattens natural := by
  have htake : ∀ bs, (flat bs).takeWhile isDigit = bs.takeWhile isDigit := by
    intro bs
    induction bs with
    | nil => rfl
    | cons b bs ih =>
        rw [flat_cons, List.takeWhile_cons, List.takeWhile_cons, isDigit_flatByte, ih]
        split_ifs with hd
        · rcases flatByte_cases b with hb | ⟨hs, -⟩
          · rw [hb]
          · rw [isDigit_space hs] at hd
            cases hd
        · rfl
  have hdrop : ∀ bs, (flat bs).dropWhile isDigit = flat (bs.dropWhile isDigit) := by
    intro bs
    induction bs with
    | nil => rfl
    | cons b bs ih =>
        rw [flat_cons, List.dropWhile_cons, List.dropWhile_cons, isDigit_flatByte, ih]
        split_ifs <;> rfl
  intro bs n rest h
  unfold natural at h ⊢
  rw [htake, hdrop]
  split_ifs at h ⊢
  cases h
  rfl

theorem flattens_number : Flattens number := by
  intro bs z rest h
  unfold number at h
  split at h
  · next tail =>
      obtain ⟨⟨n, rest₁⟩, hn, hz⟩ := Option.map_eq_some_iff.mp h
      cases hz
      change Option.map _ (natural (flat tail)) = _
      rw [flattens_natural hn]
      rfl
  · next hplus =>
      obtain ⟨⟨n, rest₁⟩, hn, hz⟩ := Option.map_eq_some_iff.mp h
      cases hz
      have hflat := flattens_natural hn
      unfold number
      split
      · next tail heq =>
          cases bs with
          | nil => cases heq
          | cons b bs =>
              rw [flat_cons] at heq
              rcases flatByte_cases b with hb | ⟨-, hb⟩
              · rw [hb] at heq
                exact absurd (congrArg (· :: bs) (List.cons.inj heq).1) (hplus bs)
              · rw [hb] at heq
                exact absurd (List.cons.inj heq).1 (by decide)
      · rw [hflat]
        rfl

theorem word_flat {text bs rest : List UInt8} (hplain : flat text = text)
    (h : word text bs = some rest) : word text (flat bs) = some (flat rest) := by
  unfold word at h
  split_ifs at h with hstart
  cases h
  obtain ⟨tail, rfl⟩ := hstart
  rw [flat_append, hplain, word, if_pos (List.prefix_append text _), List.drop_left,
    List.drop_left]

section Lists
variable {α : Type} {item : List UInt8 → Option (α × List UInt8)} {close : UInt8}
  (hitem : Flattens item) (hclose : isSpace close = false)
include hitem hclose

theorem flattens_items {n : ℕ} : Flattens (items item close n) := by
  induction n with
  | zero =>
      intro bs xs rest h
      cases h
  | succ n ih =>
      intro bs xs rest h
      obtain ⟨⟨x, rest₁⟩, hx, h⟩ := Option.bind_eq_some_iff.mp h
      rw [items, hitem hx, Option.bind_some]
      dsimp only at h ⊢
      rw [skipSpace_flat]
      cases hs : skipSpace rest₁ with
      | nil =>
          rw [hs] at h
          cases h
      | cons b rest₂ =>
          rw [hs] at h
          dsimp only at h
          by_cases hb : b = close
          · rw [if_pos hb] at h
            cases h
            rw [flat_cons, hb, flatByte_of_ne hclose]
            exact if_pos rfl
          · rw [if_neg hb] at h
            split_ifs at h with hcomma
            obtain ⟨⟨ys, rest₃⟩, hys, hs⟩ := Option.map_eq_some_iff.mp h
            cases hs
            rw [flat_cons, show flatByte b = b by rw [hcomma]; rfl]
            dsimp only
            rw [if_neg hb, if_pos hcomma, ih hys]
            rfl

theorem flattens_list {n : ℕ} : Flattens (list item close n) := by
  intro bs xs rest h
  unfold list at h ⊢
  rw [skipSpace_flat]
  cases hs : skipSpace bs with
  | nil =>
      rw [hs] at h
      cases h
  | cons b rest₂ =>
      rw [hs] at h
      dsimp only at h
      by_cases hb : b = close
      · rw [if_pos hb] at h
        cases h
        rw [flat_cons, hb, flatByte_of_ne hclose]
        exact if_pos rfl
      · rw [if_neg hb] at h
        have hne : flatByte b ≠ close := by
          rcases flatByte_cases b with hkeep | ⟨-, hspace⟩
          · rwa [hkeep]
          · rw [hspace]
            rintro rfl
            cases hclose
        rw [flat_cons]
        dsimp only
        rw [if_neg hne]
        exact flattens_items hitem hclose h

end Lists

theorem flattens_member {read : List UInt8 → Option (Value × List UInt8)}
    (hread : Flattens read) : Flattens (member read) := by
  intro bs m rest h
  unfold member at h ⊢
  rw [skipSpace_flat]
  split at h
  · next rest₁ hs =>
      rw [hs]
      obtain ⟨⟨key, rest₂⟩, hkey, h⟩ := Option.bind_eq_some_iff.mp h
      change (string (flat rest₁)).bind _ = _
      rw [flattens_string hkey, Option.bind_some]
      dsimp only at h ⊢
      rw [skipSpace_flat]
      split at h
      · next rest₃ hcolon =>
          rw [hcolon]
          obtain ⟨⟨v, rest₄⟩, hv, hm⟩ := Option.map_eq_some_iff.mp h
          cases hm
          change Option.map _ (read (flat rest₃)) = _
          rw [hread hv]
          rfl
      · cases h
  · cases h

theorem flattens_value {n : ℕ} : Flattens (value n) := by
  induction n with
  | zero =>
      intro bs v rest h
      cases h
  | succ n ih =>
      intro bs v rest h
      rw [value] at h ⊢
      rw [skipSpace_flat]
      cases hs : skipSpace bs with
      | nil =>
          rw [hs] at h
          cases h
      | cons b rest₁ =>
          rw [hs] at h
          dsimp only at h
          -- the first byte behind the white space is none itself
          have hkeep : flatByte b = b := flatByte_of_ne (skipSpace_head hs)
          rw [flat_cons, hkeep]
          dsimp only
          split_ifs at h ⊢ with hobj harr hstr ht hf hn
          · obtain ⟨⟨ms, rest₂⟩, hms, hv⟩ := Option.map_eq_some_iff.mp h
            cases hv
            rw [flattens_list (flattens_member ih) rfl hms]
            rfl
          · obtain ⟨⟨vs, rest₂⟩, hvs, hv⟩ := Option.map_eq_some_iff.mp h
            cases hv
            rw [flattens_list ih rfl hvs]
            rfl
          · obtain ⟨⟨s, rest₂⟩, hstring, hv⟩ := Option.map_eq_some_iff.mp h
            cases hv
            rw [flattens_string hstring]
            rfl
          · obtain ⟨rest₂, hword, hv⟩ := Option.map_eq_some_iff.mp h
            cases hv
            rw [word_flat rfl hword]
            rfl
          · obtain ⟨rest₂, hword, hv⟩ := Option.map_eq_some_iff.mp h
            cases hv
            rw [word_flat rfl hword]
            rfl
          · obtain ⟨rest₂, hword, hv⟩ := Option.map_eq_some_iff.mp h
            cases hv
            rw [word_flat rfl hword]
            rfl
          · obtain ⟨⟨m, rest₂⟩, hnum, hv⟩ := Option.map_eq_some_iff.mp h
            cases hv
            have hflat := flattens_number hnum
            rw [flat_cons, hkeep] at hflat
            rw [hflat]
            rfl

/-- Spaces in the place of line breaks and tabs do not change the value of a text. -/
theorem parse_flat {text : List UInt8} {v : Value} (h : parse text = some v) :
    parse (flat text) = some v := by
  obtain ⟨⟨u, rest⟩, hu, h⟩ := Option.bind_eq_some_iff.mp h
  dsimp only at h
  split_ifs at h with hrest
  rw [parse, length_flat, flattens_value hu, Option.bind_some]
  dsimp only
  rw [skipSpace_flat, hrest]
  exact h

/-- A text has at least the bulk of its value, not counting its white space. -/
theorem bulk_parse_flat {text : List UInt8} {v : Value} (h : parse text = some v) :
    v.bulk ≤ bulk (flat text) := bulk_parse (parse_flat h)

end JsonText
