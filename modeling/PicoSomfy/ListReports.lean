import PicoSomfy.ListResponses

/-!
# What the lists say

A response that is served without another request between its parts is the text of its
elements, if each of them fits into the buffer. It is read as the array of the reports of
the elements as long as nothing got lost, no name broke a string and no number was shown
as a negative one.
-/
namespace PicoSomfy

open JsonText SortedMap DeviceConfig

/-- The texts of the parts, from a part on, when they are asked for one after the other. -/
inductive Served (respond : UInt16 → Option Part) : UInt16 → List (List UInt8) → Prop
  | last {tagPart : UInt16} {text : List UInt8} :
      respond tagPart = some (text, none) → Served respond tagPart [text]
  | more {tagPart next : UInt16} {text : List UInt8} {texts : List (List UInt8)} :
      respond tagPart = some (text, some next) → Served respond next texts →
      Served respond tagPart (text :: texts)

/-- The response, inside its brackets, is read as the value. -/
def Reports (respond : UInt16 → Option Part) (v : Value) : Prop :=
  ∃ texts, Served respond 0 texts ∧ parse (91 :: (texts.flatten ++ [93])) = some v

theorem served_last {respond : UInt16 → Option Part} {tagPart : UInt16} {text : List UInt8}
    (h : respond tagPart = some (text, none)) {texts : List (List UInt8)} :
    Served respond tagPart texts ↔ texts = [text] := by
  constructor
  · rintro (hlast | ⟨hmore, -⟩)
    · rw [h] at hlast
      cases hlast
      rfl
    · rw [h] at hmore
      cases hmore
  · rintro rfl
    exact .last h

theorem served_more {respond : UInt16 → Option Part} {tagPart next : UInt16} {text : List UInt8}
    (h : respond tagPart = some (text, some next)) {texts : List (List UInt8)} :
    Served respond tagPart texts ↔ ∃ rest, Served respond next rest ∧ texts = text :: rest := by
  constructor
  · rintro (hlast | ⟨hmore, hrest⟩)
    · rw [h] at hlast
      cases hlast
    · rw [h] at hmore
      cases hmore
      exact ⟨_, hrest, rfl⟩
  · rintro ⟨rest, hrest, rfl⟩
    exact .more h hrest

section Rows
variable {respond : UInt16 → Option Part} {rows : List (List UInt8)}

/-- Parts that are counted up come one after the other until the last one. -/
theorem served_from (hcount : rows.length ≤ 65536)
    (hrows : ∀ (tagPart : UInt16) (h : tagPart.toNat < rows.length), respond tagPart =
      some (rows[tagPart.toNat], if tagPart.toNat + 1 < rows.length then some (tagPart + 1) else none))
    {tagPart : UInt16} (hin : tagPart.toNat < rows.length) {texts : List (List UInt8)} :
    Served respond tagPart texts ↔ texts = rows.drop tagPart.toNat := by
  generalize hleft : rows.length - tagPart.toNat = left
  induction left generalizing tagPart texts with
  | zero => omega
  | succ left ih =>
      have hpart := hrows tagPart hin
      rw [List.drop_eq_getElem_cons hin]
      by_cases hmore : tagPart.toNat + 1 < rows.length
      · have hnext : (tagPart + 1).toNat = tagPart.toNat + 1 := by
          have h1 : (1 : UInt16).toNat = 1 := rfl
          rw [UInt16.toNat_add, h1]
          exact Nat.mod_eq_of_lt (by omega)
        have hrest : ∀ rest, Served respond (tagPart + 1) rest ↔
            rest = rows.drop (tagPart.toNat + 1) := fun rest => by
          rw [ih (by omega) (by omega), hnext]
        rw [if_pos hmore] at hpart
        rw [served_more hpart]
        simp only [hrest, exists_eq_left]
      · rw [if_neg hmore] at hpart
        rw [served_last hpart, List.drop_eq_nil_of_le (not_lt.mp hmore)]

/-- A response whose last parts have no number of their own is never served to its end. -/
theorem not_served (hcount : 65536 < rows.length)
    (hrows : ∀ (tagPart : UInt16) (h : tagPart.toNat < rows.length), respond tagPart =
      some (rows[tagPart.toNat], if tagPart.toNat + 1 < rows.length then some (tagPart + 1) else none))
    {tagPart : UInt16} {texts : List (List UInt8)} : ¬Served respond tagPart texts := by
  intro h
  induction h with
  | @last tagPart text hlast =>
      have hlt := tagPart.toNat_lt
      rw [hrows tagPart (by omega), if_pos (by omega)] at hlast
      cases hlast
  | more _ _ ih => exact ih

theorem served_rows (hne : rows ≠ [])
    (hrows : ∀ (tagPart : UInt16) (h : tagPart.toNat < rows.length), respond tagPart =
      some (rows[tagPart.toNat], if tagPart.toNat + 1 < rows.length then some (tagPart + 1) else none))
    {texts : List (List UInt8)} :
    Served respond 0 texts ↔ rows.length ≤ 65536 ∧ texts = rows := by
  have hpos : (0 : UInt16).toNat < rows.length := List.length_pos_iff.mpr hne
  constructor
  · intro h
    have hcount : rows.length ≤ 65536 := by
      by_contra hlong
      exact not_served (not_le.mp hlong) hrows h
    exact ⟨hcount, (served_from hcount hrows hpos).mp h⟩
  · rintro ⟨hcount, heq⟩
    exact (served_from hcount hrows hpos).mpr heq

end Rows

/-- The text that a row of calls leaves in the buffer of a part. -/
def written (iInsertLen : ℕ) (ps : List Piece) : List UInt8 :=
  (Piece.writeAll (.create iInsertLen) ps).written

section Lists
variable {α : Type} {entries : List α} {pieces : α → List Piece} {more last : List UInt8}
  {iInsertLen : ℕ}

/-- What is written for a list, part by part. -/
def rows (pieces : α → List Piece) (more last : List UInt8) : List α → List (List Piece)
  | [] => [[]]
  | [e] => [partPieces pieces more last [e]]
  | e :: es => partPieces pieces more last (e :: es) :: rows pieces more last es

theorem length_rows (es : List α) : (rows pieces more last es).length = max 1 es.length := by
  induction es with
  | nil => rfl
  | cons e es ih =>
      cases es with
      | nil => rfl
      | cons e' es =>
          rw [rows, List.length_cons, ih]
          · simp
          · exact List.cons_ne_nil _ _

/-- A row is what is written with the element at its place in front. -/
theorem getElem_rows {es : List α} {i : ℕ} (hi : i < (rows pieces more last es).length) :
    (rows pieces more last es)[i] = partPieces pieces more last (es.drop i) := by
  induction es generalizing i with
  | nil =>
      obtain rfl : i = 0 := Nat.lt_one_iff.mp hi
      rfl
  | cons e es ih =>
      cases es with
      | nil =>
          obtain rfl : i = 0 := Nat.lt_one_iff.mp hi
          rfl
      | cons e' es =>
          cases i with
          | zero => rfl
          | succ i => exact ih (Nat.lt_of_succ_lt_succ hi)

theorem served_iff {texts : List (List UInt8)} :
    Served (listPart pieces more last entries iInsertLen) 0 texts ↔
      entries.length ≤ 65536 ∧
        texts = (rows pieces more last entries).map (written iInsertLen) := by
  have hlen : ((rows pieces more last entries).map (written iInsertLen)).length =
      max 1 entries.length := by rw [List.length_map, length_rows]
  have hne : (rows pieces more last entries).map (written iInsertLen) ≠ [] :=
    List.ne_nil_of_length_pos (by omega)
  rw [served_rows hne fun tagPart hlt => ?_, hlen]
  · rw [max_le_iff, and_iff_right (Nat.le_add_left 1 65535)]
  · rw [hlen] at hlt
    rw [listPart, if_neg (by omega), List.getElem_map, getElem_rows, hlen]
    have hmore : tagPart.toNat + 1 < max 1 entries.length ↔ tagPart.toNat + 1 < entries.length := by
      omega
    rw [if_congr hmore rfl rfl]
    rfl

/-- The object of an element. -/
def object (pieces : α → List Piece) (last : List UInt8) (e : α) : List UInt8 :=
  Piece.whole (pieces e) ++ last

theorem flatten_rows (h : more = last ++ [44]) (es : List α) :
    ((rows pieces more last es).map Piece.whole).flatten =
      commaJoin (es.map (object pieces last)) := by
  induction es with
  | nil => rfl
  | cons e es ih =>
      cases es with
      | nil => simp [rows, partPieces, object, commaJoin, Piece.full]
      | cons e' es =>
          change Piece.whole (pieces e ++ [.text more]) ++
            ((rows pieces more last (e' :: es)).map Piece.whole).flatten =
              object pieces last e ++ 44 :: commaJoin ((e' :: es).map (object pieces last))
          rw [ih]
          simp [object, Piece.full, h]

theorem mem_rows {es : List α} {row : List Piece} :
    row ∈ rows pieces more last es ↔
      ∃ i, (i < es.length ∨ i = 0) ∧ row = partPieces pieces more last (es.drop i) := by
  rw [List.mem_iff_getElem]
  constructor
  · rintro ⟨i, hi, rfl⟩
    have hlen := hi
    rw [length_rows] at hlen
    exact ⟨i, by omega, getElem_rows hi⟩
  · rintro ⟨i, hi, rfl⟩
    have hlen : i < (rows pieces more last es).length := by
      rw [length_rows]
      omega
    exact ⟨i, hlen, getElem_rows hlen⟩

/-- All rows fit when the texts of all parts do. -/
theorem rows_fit (hcount : entries.length ≤ 65536) {n : ℕ} :
    (∀ row ∈ rows pieces more last entries, (Piece.whole row).length ≤ n) ↔
      ∀ tagPart : UInt16,
        (Piece.whole (partPieces pieces more last (entries.drop tagPart.toNat))).length ≤ n := by
  constructor
  · intro h tagPart
    by_cases hlt : tagPart.toNat < entries.length
    · exact h _ (mem_rows.mpr ⟨_, .inl hlt, rfl⟩)
    · rw [List.drop_eq_nil_of_le (not_lt.mp hlt)]
      exact Nat.zero_le _
  · intro h row hrow
    obtain ⟨i, hi, rfl⟩ := mem_rows.mp hrow
    have hnat : (UInt16.ofNat i).toNat = i :=
      UInt16.toNat_ofNat_of_lt' (by rw [UInt16.size]; omega)
    exact hnat ▸ h (UInt16.ofNat i)

theorem bulk_flatten (ts : List (List UInt8)) : bulk ts.flatten = (ts.map bulk).sum := by
  induction ts with
  | nil => rfl
  | cons t ts ih => rw [List.flatten_cons, bulk_append, ih, List.map_cons, List.sum_cons]

theorem bulk_written_le (n : ℕ) (ps : List Piece) : bulk (written n ps) ≤ bulk (Piece.whole ps) := by
  have h := Piece.bulk_writeAll_le ps (.create n)
  exact le_trans h (Nat.zero_add _).le

/-- An element that does not fit loses some of its bulk. -/
def Lossy (pieces : α → List Piece) (more last : List UInt8) (n : ℕ) (e : α) : Prop :=
  ∀ closing, closing = last ∨ closing = more →
    n < (Piece.whole (pieces e ++ [.text closing])).length →
      bulk (written n (pieces e ++ [.text closing])) <
        bulk (Piece.whole (pieces e ++ [.text closing]))

theorem bulk_row_lt {n : ℕ} (hlossy : ∀ e ∈ entries, Lossy pieces more last n e) {row : List Piece}
    (hrow : row ∈ rows pieces more last entries) (hlong : n < (Piece.whole row).length) :
    bulk (written n row) < bulk (Piece.whole row) := by
  obtain ⟨i, -, rfl⟩ := mem_rows.mp hrow
  cases hdrop : entries.drop i with
  | nil =>
      rw [hdrop] at hlong
      exact absurd hlong (Nat.not_lt_zero n)
  | cons e es =>
      rw [hdrop] at hlong
      have hmem : e ∈ entries := List.mem_of_mem_drop (hdrop ▸ List.mem_cons_self)
      cases es with
      | nil => exact hlossy e hmem last (.inl rfl) hlong
      | cons e' es => exact hlossy e hmem more (.inr rfl) hlong

theorem bulk_rows_lt {n : ℕ} (hlossy : ∀ e ∈ entries, Lossy pieces more last n e)
    (hlong : ¬∀ row ∈ rows pieces more last entries, (Piece.whole row).length ≤ n) :
    bulk ((rows pieces more last entries).map (written n)).flatten <
      bulk ((rows pieces more last entries).map Piece.whole).flatten := by
  push Not at hlong
  obtain ⟨row, hrow, hlt⟩ := hlong
  rw [bulk_flatten, bulk_flatten, List.map_map, List.map_map]
  exact List.sum_lt_sum _ _ (fun r _ => bulk_written_le n r) ⟨row, hrow, bulk_row_lt hlossy hrow hlt⟩

theorem bulk_array (ts : List (List UInt8)) :
    bulk (91 :: (commaJoin ts ++ [93])) = listBulk (ts.map bulk) := by
  rw [bulk_cons, bulk_append, bulk_commaJoin, listBulk, List.length_map]
  simp only [bulk_cons, bulk_nil, show bulkByte 91 = 1 from rfl, show bulkByte 93 = 1 from rfl]
  omega

/-- Served without interruption, a list is read as the reports that are expected of its
elements when all its parts fit, and each element's text is good and reports as much. -/
theorem reports_iff (hframed : Framed pieces more last) {n : ℕ} (good : α → Prop)
    (reported : α → Value) {expected : α → Value}
    (hspells : ∀ e ∈ entries, good e → Spells (object pieces last e) (reported e))
    (hbulk : ∀ e ∈ entries, bulk (object pieces last e) ≤ (expected e).bulk)
    (hbad : ∀ e ∈ entries, ¬good e → bulk (object pieces last e) < (expected e).bulk)
    (hlossy : ∀ e ∈ entries, Lossy pieces more last n e) :
    Reports (listPart pieces more last entries n) (.arr (entries.map expected)) ↔
      entries.length ≤ 65536 ∧
      (∀ tagPart : UInt16,
        (Piece.whole (partPieces pieces more last (entries.drop tagPart.toNat))).length ≤ n) ∧
      ∀ e ∈ entries, good e ∧ reported e = expected e := by
  have hexpected : bulk (91 :: (commaJoin (entries.map (object pieces last)) ++ [93])) ≤
      (Value.arr (entries.map expected)).bulk := by
    rw [bulk_array, Value.bulk, listBulk, listBulk, List.map_map, List.map_map]
    simp only [List.length_map]
    have hsum := List.sum_le_sum (f := bulk ∘ object pieces last)
      (g := (fun v => Value.bulk v) ∘ expected) (l := entries) hbulk
    omega
  -- parts that all fit leave the whole text
  have hwhole : (∀ row ∈ rows pieces more last entries, (Piece.whole row).length ≤ n) →
      ((rows pieces more last entries).map (written n)).flatten =
        commaJoin (entries.map (object pieces last)) := fun hfit => by
    rw [← flatten_rows hframed.more_eq]
    refine congrArg List.flatten (List.map_congr_left fun row hrow => ?_)
    obtain ⟨i, -, rfl⟩ := mem_rows.mp hrow
    rw [written, Piece.writeAll_fits (hframed.padded_part _) (hfit _ hrow)]
    rfl
  have hread : (∀ e ∈ entries, good e) →
      parse (91 :: (commaJoin (entries.map (object pieces last)) ++ [93])) =
        some (.arr (entries.map reported)) := fun hgood => by
    have hspell := spells_arr (entries.map fun e => (object pieces last e, reported e))
      fun t ht => by
        obtain ⟨e, he, rfl⟩ := List.mem_map.mp ht
        exact hspells e he (hgood e he)
    rw [List.map_map, List.map_map] at hspell
    exact hspell.parse
  constructor
  · rintro ⟨texts, hserved, hparse⟩
    obtain ⟨hcount, rfl⟩ := served_iff.mp hserved
    have hfit : ∀ row ∈ rows pieces more last entries, (Piece.whole row).length ≤ n := by
      by_contra hlong
      have hlt := bulk_rows_lt hlossy hlong
      rw [flatten_rows hframed.more_eq] at hlt
      refine parse_ne_of_bulk (lt_of_lt_of_le ?_ hexpected) hparse
      simp only [bulk_cons, bulk_append]
      omega
    rw [hwhole hfit] at hparse
    have hgood : ∀ e ∈ entries, good e := by
      by_contra hsome
      push Not at hsome
      obtain ⟨e, he, hne⟩ := hsome
      refine parse_ne_of_bulk ?_ hparse
      rw [bulk_array, Value.bulk, listBulk, listBulk, List.map_map, List.map_map]
      simp only [List.length_map]
      have hsum := List.sum_lt_sum (bulk ∘ object pieces last)
        ((fun v => Value.bulk v) ∘ expected) (l := entries) hbulk ⟨e, he, hbad e he hne⟩
      omega
    refine ⟨hcount, (rows_fit hcount).mp hfit, fun e he => ⟨hgood e he, ?_⟩⟩
    rw [hread hgood] at hparse
    have hmap : entries.map reported = entries.map expected := by
      injection Option.some.inj hparse
    exact List.map_inj_left.mp hmap e he
  · rintro ⟨hcount, hfit, hall⟩
    refine ⟨_, served_iff.mpr ⟨hcount, rfl⟩, ?_⟩
    rw [hwhole ((rows_fit hcount).mpr hfit), hread fun e he => (hall e he).1]
    exact congrArg (fun vs => some (Value.arr vs)) (List.map_congr_left fun e he => (hall e he).2)

end Lists

/-- Bytes of printable ASCII characters. -/
def Printable (name : List UInt8) : Prop := ∀ b ∈ name, 32 ≤ b ∧ b < 127

theorem lossy_of_heavy {α : Type} {pieces : α → List Piece} {more last : List UInt8}
    (h : Framed pieces more last) (hlast : 0 < bulk last) {e : α}
    (hheavy : ∀ p ∈ pieces e, p.Heavy) (n : ℕ) : Lossy pieces more last n e := by
  intro closing hclosing hlong
  have hmore : 0 < bulk closing := by
    rcases hclosing with rfl | rfl
    · exact hlast
    · rw [h.more_eq, bulk_append]
      exact Nat.add_pos_left hlast _
  have hpad : Piece.Padded (pieces e ++ [.text closing]) := by
    rcases hclosing with rfl | rfl
    · exact (h.padded e).1
    · exact (h.padded e).2
  have hall : ∀ p ∈ pieces e ++ [.text closing], p.Heavy := fun p hp => by
    rcases List.mem_append.mp hp with hp | hp
    · exact hheavy p hp
    · rw [List.mem_singleton.mp hp]
      exact hmore
  exact lt_of_lt_of_eq (Piece.bulk_writeAll_lt hpad hall hlong) (Nat.zero_add _)

/-- The object that shows a blind with these ids and this state. -/
def blindObject (id : ℤ) (b : Blind) (remoteId : ℤ) (state : List UInt8) : Value :=
  .obj [(ascii "id", .num id), (ascii "name", .str b.name),
    (ascii "position", .num (Blind.truncated b.intermediatePosition)),
    (ascii "openTime", .num b.openTime.toInt), (ascii "closeTime", .num b.closeTime.toInt),
    (ascii "remoteId", .num remoteId), (ascii "state", .str state)]

/-- A member with a space before its key and one before its value. -/
def spacedMember (key : String) (t : List UInt8) : List UInt8 :=
  [32] ++ 34 :: (ascii key ++ [34, 58] ++ ([32] ++ t))

theorem spells_spacedMember (key : String) {t : List UInt8} {v : Value}
    (hkey : Unescaped (ascii key)) (ht : Spells t v) :
    SpellsMember (spacedMember key t) (ascii key, v) :=
  spells_member hkey ht (.inr rfl) (.inr rfl)

namespace Device

/-- What the list should say of a blind. -/
def blindReport (d : Device) (entry : UInt32 × Blind) : Value :=
  blindObject entry.1.toNat entry.2 (d.heap entry.2.remote).remoteId.toNat entry.2.statePayload

/-- What the list says of a blind. -/
def blindShown (d : Device) (entry : UInt32 × Blind) : Value :=
  blindObject entry.1.toInt32.toInt entry.2 (d.heap entry.2.remote).remoteId.toInt32.toInt
    (directionText entry.2.getMotionDirection.toInt)

theorem spells_blind (d : Device) {entry : UInt32 × Blind} (hname : Printable entry.2.name) :
    Spells (object d.blindPieces (ascii "\" \x7d") entry) (d.blindShown entry) := by
  have hlow : ∀ b ∈ entry.2.name, ¬b < 32 := fun b hb => UInt8.not_lt.mpr (hname b hb).1
  have hwhole : entry.2.name.takeWhile (· ≠ 0) = entry.2.name :=
    List.takeWhile_eq_self_iff.mpr fun b hb => by
      have hne : b ≠ 0 := by
        rintro rfl
        exact hlow 0 hb (by decide)
      simpa using hne
  have hword : Spells (34 :: (directionText entry.2.getMotionDirection.toInt ++ [34]))
      (.str (directionText entry.2.getMotionDirection.toInt)) := by
    refine spells_unescaped ?_
    unfold Unescaped directionText
    split_ifs <;> decide +kernel
  have hobj := spells_obj (
    .cons (spells_spacedMember "id" (by decide +kernel)
      (spells_num entry.1.toInt32.toInt)) <|
    .cons (spells_spacedMember "name" (by decide +kernel) (spells_str hlow)) <|
    .cons (spells_spacedMember "position" (by decide +kernel)
      (spells_num (Blind.truncated entry.2.intermediatePosition))) <|
    .cons (spells_spacedMember "openTime" (by decide +kernel)
      (spells_num entry.2.openTime.toInt)) <|
    .cons (spells_spacedMember "closeTime" (by decide +kernel)
      (spells_num entry.2.closeTime.toInt)) <|
    .cons (spells_spacedMember "remoteId" (by decide +kernel)
      (spells_num (d.heap entry.2.remote).remoteId.toInt32.toInt)) <|
    .cons (spells_spacedMember "state" (by decide +kernel) hword) .nil)
  refine Eq.subst (motive := fun t => Spells t (d.blindShown entry)) ?_ hobj
  simp only [object, blindPieces, Piece.whole_cons, Piece.whole_nil, Piece.full, hwhole,
    List.append_assoc, List.append_nil, commaJoin, spacedMember, List.cons_append, List.nil_append]
  rfl

/-- The words for the directions are of one length. -/
theorem bulk_blindObject (id id' : ℤ) (b : Blind) (remoteId remoteId' : ℤ) (md : ℤ) :
    (blindObject id b remoteId (directionText md)).bulk =
      (blindObject id' b remoteId' b.statePayload).bulk := by
  have hword : strBulk (directionText md) = strBulk b.statePayload := by
    unfold directionText Blind.statePayload
    split_ifs <;> decide +kernel
  simp only [blindObject, Value.bulk, List.map_cons, List.map_nil, hword]

theorem directionText_eq (b : Blind) :
    directionText b.getMotionDirection.toInt = b.statePayload ↔ 0 ≤ b.motionDirection := by
  have hwords : ascii "opening" ≠ ascii "closing" := by decide +kernel
  unfold directionText Blind.statePayload Blind.getMotionDirection
  rcases lt_trichotomy b.motionDirection 0 with hneg | hzero | hpos
  · rw [decide_eq_true hneg.ne, if_neg (not_lt.mpr hneg.le), if_pos hneg, if_pos (by decide)]
    exact ⟨fun h => absurd h hwords, fun h => absurd hneg (not_lt.mpr h)⟩
  · rw [hzero]
    exact ⟨fun _ => le_rfl, fun _ => rfl⟩
  · rw [decide_eq_true hpos.ne', if_pos hpos, if_pos (by decide)]
    exact ⟨fun _ => hpos.le, fun _ => rfl⟩

/-- An unsigned id shown as an `int`. -/
theorem toInt_toInt32 (id : UInt32) : id.toInt32.toInt = id.toNat ↔ id.toNat < 2 ^ 31 := by
  change id.toBitVec.toInt = (id.toBitVec.toNat : ℤ) ↔ id.toBitVec.toNat < 2 ^ 31
  rw [BitVec.toInt_eq_toNat_cond]
  split_ifs <;> omega

theorem blindShown_eq (d : Device) (entry : UInt32 × Blind) :
    d.blindShown entry = d.blindReport entry ↔
      entry.1.toNat < 2 ^ 31 ∧ (d.heap entry.2.remote).remoteId.toNat < 2 ^ 31 ∧
        0 ≤ entry.2.motionDirection := by
  simp only [blindShown, blindReport, blindObject, Value.obj.injEq, List.cons.injEq,
    Prod.mk.injEq, Value.num.injEq, Value.str.injEq, true_and, and_true, toInt_toInt32,
    directionText_eq]

theorem blinds_heavy (d : Device) (entry : UInt32 × Blind) : ∀ p ∈ d.blindPieces entry, p.Heavy := by
  have hstate : 0 < bulk (directionText entry.2.getMotionDirection.toInt) := by
    unfold directionText
    split_ifs <;> decide +kernel
  simp only [blindPieces, List.forall_mem_cons]
  refine ⟨?_, trivial, ?_, trivial, ?_, trivial, ?_, trivial, ?_, trivial, ?_, trivial, ?_, hstate,
    fun _ hp => absurd hp List.not_mem_nil⟩
  all_goals
    change 0 < bulk _
    decide +kernel

/-- A blind is shown as it is, and its text holds what it should. -/
theorem blinds_reports_iff (d : Device)
    (hnames : ∀ (k : UInt32) (b : Blind), d.blinds[k]? = some b → Printable b.name) (n : ℕ) :
    Reports (d.getBlindsResponse n) (.arr (d.blinds.toList.map d.blindReport)) ↔
      d.blinds.toList.length ≤ 65536 ∧ (∀ tagPart, (d.partText .blinds tagPart).length ≤ n) ∧
      ∀ entry ∈ d.blinds.toList, True ∧ d.blindShown entry = d.blindReport entry := by
  have hspells : ∀ entry ∈ d.blinds.toList,
      Spells (object d.blindPieces (ascii "\" \x7d") entry) (d.blindShown entry) :=
    fun entry hentry => d.spells_blind (hnames entry.1 entry.2 (mem_toList.mp hentry))
  have hbulk : ∀ entry ∈ d.blinds.toList,
      bulk (object d.blindPieces (ascii "\" \x7d") entry) = (d.blindReport entry).bulk :=
    fun entry hentry => (hspells entry hentry).bulk.trans (bulk_blindObject _ _ _ _ _ _)
  exact reports_iff d.blinds_framed (fun _ => True) d.blindShown
    (fun entry hentry _ => hspells entry hentry)
    (fun entry hentry => (hbulk entry hentry).le) (fun _ _ hbad => absurd trivial hbad)
    fun entry _ => lossy_of_heavy d.blinds_framed (by decide +kernel) (d.blinds_heavy entry) n

/-- The list of blinds, served without interruption, shows every blind as it is, in the
order of the ids, exactly when no blind is closing, no id counts as negative and all parts
fit. The parts are numbered with sixteen bits. -/
theorem blinds_reported (d : Device)
    (hnames : ∀ (k : UInt32) (b : Blind), d.blinds[k]? = some b → Printable b.name) :
    Reports (d.getBlindsResponse 192) (.arr (d.blinds.toList.map d.blindReport)) ↔
      d.blinds.toList.length ≤ 65536 ∧
      (∀ tagPart, (d.partText .blinds tagPart).length ≤ 192) ∧
      ∀ (k : UInt32) (b : Blind), d.blinds[k]? = some b →
        k.toNat < 2 ^ 31 ∧ (d.heap b.remote).remoteId.toNat < 2 ^ 31 ∧ 0 ≤ b.motionDirection := by
  rw [d.blinds_reports_iff hnames 192]
  refine and_congr_right fun _ => and_congr_right fun _ => ?_
  constructor
  · intro h k b hb
    exact (d.blindShown_eq (k, b)).mp (h (k, b) (mem_toList.mpr hb)).2
  · intro h entry hentry
    exact ⟨trivial, (d.blindShown_eq entry).mpr (h entry.1 entry.2 (mem_toList.mp hentry))⟩

end Device

/-- Nothing in the name means something else inside a string. -/
def Plain (name : List UInt8) : Prop := ∀ b ∈ name, b ≠ 92 ∧ 32 ≤ b

/-- The checks on the name of a remote. -/
theorem nameParam_iff {name : List UInt8} :
    (∃ params, nameParam params = some name) ↔ name ≠ [] ∧ name.length + 1 ≤ 48 ∧ 34 ∉ name := by
  constructor
  · rintro ⟨params, h⟩
    simpa using (Option.filter_eq_some_iff.mp h).2
  · intro h
    exact ⟨fun _ => some name, Option.filter_eq_some_iff.mpr ⟨rfl, by simpa using h⟩⟩

/-- The object that shows a remote with this id. -/
def remoteObject (id : ℤ) (r : SomfyRemote) : Value :=
  .obj [(ascii "id", .num id), (ascii "name", .str r.remoteName),
    (ascii "blinds", .arr (r.associatedBlinds.map fun i => .num i.toNat)),
    (ascii "external", .bool r.isExternal)]

/-- The text of a remote with this id. -/
def remoteText (id : ℤ) (r : SomfyRemote) : List UInt8 :=
  ascii "\x7b \"id\": " ++ (ascii (toString id) ++ (ascii ", \"name\": \"" ++ (r.remoteName ++
    (ascii "\", \"blinds\": [" ++
      (commaJoin (r.associatedBlinds.map fun i => ascii (toString (i.toNat : ℤ))) ++
        (ascii "],\"external\":" ++ (ascii (toString r.isExternal) ++ ascii " \x7d")))))))

theorem whole_blindIdPieces (ids : List UInt16) :
    Piece.whole (Device.blindIdPieces ids) =
      commaJoin (ids.map fun i => ascii (toString (i.toNat : ℤ))) := by
  have hmore : ∀ (i : UInt16) (ids : List UInt16),
      ascii (toString (i.toNat : ℤ)) ++
        Piece.whole (ids.flatMap fun i => [Piece.char 44, .int i.toNat]) =
      commaJoin ((i :: ids).map fun i => ascii (toString (i.toNat : ℤ))) := by
    intro i ids
    induction ids generalizing i with
    | nil => exact List.append_nil _
    | cons j ids ih =>
        change _ = ascii (toString (i.toNat : ℤ)) ++
          44 :: commaJoin ((j :: ids).map fun i => ascii (toString (i.toNat : ℤ)))
        rw [← ih j]
        rfl
  cases ids with
  | nil => rfl
  | cons i ids => exact hmore i ids

theorem object_remotePieces (d : Device) (entry : UInt32 × ℕ) :
    object d.remotePieces (ascii " \x7d") entry =
      remoteText entry.1.toInt32.toInt (d.heap entry.2) := by
  simp only [object, Device.remotePieces, remoteText, Piece.whole_cons, Piece.whole_nil,
    Piece.whole_append, Piece.full, whole_blindIdPieces, List.append_assoc, List.append_nil]

theorem spells_remote (id : ℤ) {r : SomfyRemote} (hplain : Plain r.remoteName)
    (hquote : 34 ∉ r.remoteName) : Spells (remoteText id r) (remoteObject id r) := by
  have hname : Spells (34 :: (r.remoteName ++ [34])) (.str r.remoteName) :=
    spells_unescaped fun b hb =>
      ⟨fun h => hquote (h ▸ hb), (hplain b hb).1, UInt8.not_lt.mpr (hplain b hb).2⟩
  have hids := spells_arr (r.associatedBlinds.map fun i =>
      (ascii (toString (i.toNat : ℤ)), .num i.toNat)) fun t ht => by
    obtain ⟨i, -, rfl⟩ := List.mem_map.mp ht
    exact spells_num _
  rw [List.map_map, List.map_map] at hids
  have hobj := spells_obj (
    .cons (spells_spacedMember "id" (by decide +kernel) (spells_num id)) <|
    .cons (spells_spacedMember "name" (by decide +kernel) hname) <|
    .cons (spells_spacedMember "blinds" (by decide +kernel) hids) <|
    .cons (spells_member (show Unescaped (ascii "external") by decide +kernel)
      (spells_bool r.isExternal) (.inl rfl) (.inl rfl)) .nil)
  refine Eq.subst (motive := fun t => Spells t (remoteObject id r)) ?_ hobj
  simp only [remoteText, List.append_assoc, commaJoin, spacedMember, List.cons_append,
    List.nil_append]
  rfl

/-- What the name weighs in the text, and in the value. -/
theorem bulk_remote (id id' : ℤ) (r : SomfyRemote) :
    bulk (remoteText id r) + (r.remoteName.map cost).sum =
      (remoteObject id' r).bulk + bulk r.remoteName := by
  -- without a name they weigh the same
  have hempty := (spells_remote id (r := { r with remoteName := [] })
    (fun _ hb => absurd hb List.not_mem_nil) List.not_mem_nil).bulk
  simp only [remoteText, remoteObject, Value.bulk, listBulk, strBulk, bulk_append, List.map_cons,
    List.map_nil, List.sum_cons, List.sum_nil, List.length_cons, List.length_nil, bulk_nil]
    at hempty ⊢
  omega

/-- What is written of a remote behind its name. -/
def restPieces (r : SomfyRemote) : List Piece :=
  .text (ascii "\", \"blinds\": [") :: (Device.blindIdPieces r.associatedBlinds ++
    [.text (ascii "],\"external\":"), .text (ascii (toString r.isExternal))])

theorem rest_heavy (r : SomfyRemote) : ∀ p ∈ restPieces r, p.Heavy := by
  have hids : ∀ p ∈ Device.blindIdPieces r.associatedBlinds, p.Heavy := by
    intro p hp
    cases hlist : r.associatedBlinds with
    | nil =>
        rw [hlist] at hp
        cases hp
    | cons i ids =>
        rw [hlist] at hp
        rcases List.mem_cons.mp hp with rfl | hp
        · trivial
        · obtain ⟨j, -, hj⟩ := List.mem_flatMap.mp hp
          rcases List.mem_cons.mp hj with rfl | hj
          · exact (by decide : 0 < bulkByte 44)
          · rw [List.mem_singleton.mp hj]
            trivial
  have htext : ∀ text : String, 0 < bulk (ascii text) → (Piece.text (ascii text)).Heavy :=
    fun _ h => h
  intro p hp
  rcases List.mem_cons.mp hp with rfl | hp
  · exact htext _ (by decide +kernel)
  rcases List.mem_append.mp hp with hp | hp
  · exact hids p hp
  · rcases List.mem_cons.mp hp with rfl | hp
    · exact htext _ (by decide +kernel)
    · rw [List.mem_singleton.mp hp]
      refine htext _ ?_
      cases r.isExternal <;> decide +kernel

namespace Device

/-- What is written of a remote up to its name. -/
def frontPieces (d : Device) (entry : UInt32 × ℕ) : List Piece :=
  [.text (ascii "\x7b \"id\": "), .int entry.1.toInt32.toInt, .text (ascii ", \"name\": \""),
    .text (d.heap entry.2).remoteName]

theorem remotePieces_eq (d : Device) (entry : UInt32 × ℕ) :
    d.remotePieces entry = d.frontPieces entry ++ restPieces (d.heap entry.2) := by
  simp only [remotePieces, frontPieces, restPieces, List.cons_append, List.nil_append]

/-- The name of a remote always fits, so what is lost stands behind it. -/
theorem remotes_lossy (d : Device) {entry : UInt32 × ℕ}
    (hname : (d.heap entry.2).remoteName.length + 1 ≤ 48) :
    Lossy d.remotePieces (ascii " \x7d,") (ascii " \x7d") 192 entry := by
  intro closing hclosing hlong
  have hpad : Piece.Padded (d.remotePieces entry ++ [.text closing]) := by
    rcases hclosing with rfl | rfl
    · exact (d.remotes_framed.padded entry).1
    · exact (d.remotes_framed.padded entry).2
  have hheavy : 0 < bulk closing := by
    rcases hclosing with rfl | rfl <;> decide +kernel
  have hfront : (Piece.whole (d.frontPieces entry)).length ≤ 77 := by
    have hopening : (ascii "\x7b \"id\": ").length = 8 := rfl
    have hbetween : (ascii ", \"name\": \"").length = 11 := rfl
    have hid : (ascii (toString entry.1.toInt32.toInt)).length ≤ 11 :=
      length_intText_le (Int32.le_toInt _) (Int32.toInt_lt _)
    simp only [frontPieces, Piece.whole_cons, Piece.whole_nil, Piece.full, List.length_append,
      List.length_nil, hopening, hbetween]
    omega
  rw [d.remotePieces_eq, List.append_assoc] at hpad hlong ⊢
  rw [Piece.whole_append, List.length_append] at hlong
  have hwide : Piece.writeAll (.create 192) (d.frontPieces entry) =
      ⟨Piece.whole (d.frontPieces entry), 192 - (Piece.whole (d.frontPieces entry)).length⟩ :=
    Piece.writeAll_wide (show _ ≤ (BufferOutput.create 192).length by change _ ≤ 192; omega)
  have hall : ∀ p ∈ restPieces (d.heap entry.2) ++ [.text closing], p.Heavy := fun p hp => by
    rcases List.mem_append.mp hp with hp | hp
    · exact rest_heavy _ p hp
    · rw [List.mem_singleton.mp hp]
      exact hheavy
  have hleft : 192 - (Piece.whole (d.frontPieces entry)).length <
      (Piece.whole (restPieces (d.heap entry.2) ++ [.text closing])).length := by omega
  have hrest := @Piece.bulk_writeAll_lt _ hpad.of_append hall
    ⟨Piece.whole (d.frontPieces entry), _⟩ hleft
  rw [written, Piece.writeAll_append, hwide, Piece.whole_append (d.frontPieces entry), bulk_append]
  exact hrest

/-- What the list should say of a remote. -/
def remoteReport (d : Device) (entry : UInt32 × ℕ) : Value :=
  remoteObject entry.1.toNat (d.heap entry.2)

theorem remoteShown_eq (d : Device) (entry : UInt32 × ℕ) :
    remoteObject entry.1.toInt32.toInt (d.heap entry.2) = d.remoteReport entry ↔
      entry.1.toNat < 2 ^ 31 := by
  simp only [remoteReport, remoteObject, Value.obj.injEq, List.cons.injEq, Prod.mk.injEq,
    Value.num.injEq, true_and, and_true, toInt_toInt32]

/-- Every remote is shown as it is, and its text holds what it should. -/
theorem remotes_reports_iff (d : Device)
    (hnames : ∀ (id : UInt32) (p : ℕ), d.remotes[id]? = some p →
      ∃ params, nameParam params = some (d.heap p).remoteName) :
    Reports (d.getRemotesResponse 192) (.arr (d.remotes.toList.map d.remoteReport)) ↔
      d.remotes.toList.length ≤ 65536 ∧ (∀ tagPart, (d.partText .remotes tagPart).length ≤ 192) ∧
      ∀ entry ∈ d.remotes.toList, Plain (d.heap entry.2).remoteName ∧
        remoteObject entry.1.toInt32.toInt (d.heap entry.2) = d.remoteReport entry := by
  have hname : ∀ entry ∈ d.remotes.toList, (d.heap entry.2).remoteName.length + 1 ≤ 48 ∧
      34 ∉ (d.heap entry.2).remoteName := fun entry hentry =>
    (nameParam_iff.mp (hnames entry.1 entry.2 (mem_toList.mp hentry))).2
  have hweight : ∀ entry : UInt32 × ℕ, bulk (object d.remotePieces (ascii " \x7d") entry) +
      ((d.heap entry.2).remoteName.map cost).sum =
        (d.remoteReport entry).bulk + bulk (d.heap entry.2).remoteName := fun entry => by
    rw [object_remotePieces]
    exact bulk_remote _ _ _
  refine reports_iff d.remotes_framed (fun entry => Plain (d.heap entry.2).remoteName)
    (fun entry => remoteObject entry.1.toInt32.toInt (d.heap entry.2)) (fun entry hentry hplain => ?_) (fun entry _ => ?_)
    (fun entry _ hbad => ?_) fun entry hentry => d.remotes_lossy (hname entry hentry).1
  · rw [object_remotePieces]
    exact spells_remote _ hplain (hname entry hentry).2
  · have hle := bulk_le_cost (d.heap entry.2).remoteName
    have heq := hweight entry
    omega
  · have hlt : bulk (d.heap entry.2).remoteName < _ := bulk_lt_cost fun hplain =>
      hbad fun b hb => ⟨(hplain b hb).2.1, UInt8.not_lt.mp (hplain b hb).2.2⟩
    have heq := hweight entry
    omega

/-- The list of remotes, served without interruption, shows every remote as it is, in the
order of the ids, exactly when no name has a backslash or a control character, no id counts
as negative and all parts fit. The parts are numbered with sixteen bits. -/
theorem remotes_reported (d : Device)
    (hnames : ∀ (id : UInt32) (p : ℕ), d.remotes[id]? = some p →
      ∃ params, nameParam params = some (d.heap p).remoteName) :
    Reports (d.getRemotesResponse 192) (.arr (d.remotes.toList.map d.remoteReport)) ↔
      d.remotes.toList.length ≤ 65536 ∧
      (∀ tagPart, (d.partText .remotes tagPart).length ≤ 192) ∧
      ∀ (id : UInt32) (p : ℕ), d.remotes[id]? = some p →
        Plain (d.heap p).remoteName ∧ id.toNat < 2 ^ 31 := by
  rw [d.remotes_reports_iff hnames]
  refine and_congr_right fun _ => and_congr_right fun _ => ?_
  constructor
  · intro h id p hp
    exact (h (id, p) (mem_toList.mpr hp)).imp_right (d.remoteShown_eq (id, p)).mp
  · intro h entry hentry
    exact (h entry.1 entry.2 (mem_toList.mp hentry)).imp_right (d.remoteShown_eq entry).mpr

/-- The parts of the elements are all there are. -/
theorem partText_le {d : Device} {tag : ListTag} {n : ℕ}
    (hparts : ∀ i < d.listLength tag, (d.partText tag (UInt16.ofNat i)).length ≤ n)
    (tagPart : UInt16) : (d.partText tag tagPart).length ≤ n := by
  by_cases hend : tagPart.toNat < d.listLength tag
  · have hpart := hparts tagPart.toNat hend
    rwa [UInt16.ofNat_toNat] at hpart
  · rw [partText_nil (not_lt.mp hend)]
    exact Nat.zero_le n

/-- A blind with quotes in its name. -/
def addBay : Event :=
  .request .addBlind (query [("name", "the \"bay\""), ("openTime", "20"), ("closeTime", "18")]) default

/-- Two blinds at rest are shown as they are, one of them with quotes in its name. -/
theorem salon_reported :
    ∃ d₀ d : Device, freshDevice oneSector false (fun _ => ⟨⟨0, 0, 0, 0⟩, 0⟩) = some d₀ ∧
      Transitions.Run step Transitions.Free d₀ [addSalon, addBay] d ∧
      d.blinds.toList.length = 2 ∧
      (∃ b, d.blinds[(2 : UInt32)]? = some b ∧ b.name = ascii "the \"bay\"") ∧
      Reports (d.getBlindsResponse 192) (.arr (d.blinds.toList.map d.blindReport)) := by
  have hany : (freshDevice oneSector false fun _ => ⟨⟨0, 0, 0, 0⟩, 0⟩).any (fun d₀ =>
      (Transitions.exec step d₀ [addSalon, addBay]).any fun d => d.blinds.toList.length == 2 &&
        ((d.blinds[(2 : UInt32)]?).any fun b => b.name == ascii "the \"bay\"") &&
        ((List.range 2).all fun i =>
          decide ((d.partText .blinds (UInt16.ofNat i)).length ≤ 192)) &&
        d.blinds.toList.all fun entry =>
          (entry.2.name.all fun b => 32 ≤ b && b < 127) && decide (entry.1.toNat < 2 ^ 31) &&
            decide ((d.heap entry.2.remote).remoteId.toNat < 2 ^ 31) &&
              decide (0 ≤ entry.2.motionDirection)) = true := by
    decide +kernel
  obtain ⟨d₀, hd₀, hstep⟩ := (Option.any_eq_true _ _).mp hany
  obtain ⟨d, hd, hrest⟩ := (Option.any_eq_true _ _).mp hstep
  simp only [Bool.and_eq_true, beq_iff_eq, decide_eq_true_eq, List.all_eq_true, List.mem_range]
    at hrest
  obtain ⟨⟨⟨htwo, hbay⟩, hfits⟩, hall⟩ := hrest
  obtain ⟨b, hb, hname⟩ := (Option.any_eq_true _ _).mp hbay
  have hentry := fun k b (hb : d.blinds[k]? = some b) => hall (k, b) (mem_toList.mpr hb)
  refine ⟨d₀, d, hd₀, Transitions.run_of_exec hd, htwo, ⟨b, hb, beq_iff_eq.mp hname⟩,
    (d.blinds_reported fun k b hb c hc => ?_).mpr ⟨?_, ?_, ?_⟩⟩
  · exact (hentry k b hb).1.1.1 c hc
  · rw [htwo]
    decide
  · exact partText_le fun i hi => hfits i (lt_of_lt_of_eq hi htwo)
  · exact fun k b hb => ⟨(hentry k b hb).1.1.2, (hentry k b hb).1.2, (hentry k b hb).2⟩

/-- The blind is told to close. -/
def closeSalon : Event :=
  .request .blindCommand (query [("id", "1"), ("command", "cmd"), ("payload", "close")]) default

/-- A closing blind is shown as an opening one. -/
theorem closing_not_reported :
    ∃ d₀ d : Device, freshDevice oneSector false (fun _ => ⟨⟨0, 0, 0, 0⟩, 0⟩) = some d₀ ∧
      Transitions.Run step Transitions.Free d₀ [addSalon, closeSalon] d ∧
      (∀ (k : UInt32) (b : Blind), d.blinds[k]? = some b → b.name = ascii "salon") ∧
      ¬Reports (d.getBlindsResponse 192) (.arr (d.blinds.toList.map d.blindReport)) := by
  have hany : (freshDevice oneSector false fun _ => ⟨⟨0, 0, 0, 0⟩, 0⟩).any (fun d₀ =>
      (Transitions.exec step d₀ [addSalon, closeSalon]).any fun d =>
        (d.blinds.toList.all fun entry => entry.2.name == ascii "salon") &&
          (d.blinds[(1 : UInt32)]?).any fun b => decide (b.motionDirection < 0)) = true := by
    decide +kernel
  obtain ⟨d₀, hd₀, hrun⟩ := (Option.any_eq_true _ _).mp hany
  obtain ⟨d, hd, hrest⟩ := (Option.any_eq_true _ _).mp hrun
  obtain ⟨hall, hblind⟩ := Bool.and_eq_true_iff.mp hrest
  obtain ⟨b, hb, hclosing⟩ := (Option.any_eq_true _ _).mp hblind
  have hname : ∀ (k : UInt32) (b : Blind), d.blinds[k]? = some b → b.name = ascii "salon" :=
    fun k b hb => beq_iff_eq.mp (List.all_eq_true.mp hall (k, b) (mem_toList.mpr hb))
  have hprintable : Printable (ascii "salon") := by
    unfold Printable
    decide +kernel
  refine ⟨d₀, d, hd₀, Transitions.run_of_exec hd, hname, fun hreports => ?_⟩
  obtain ⟨-, -, hshown⟩ :=
    (d.blinds_reports_iff (fun k b hb => hname k b hb ▸ hprintable) 192).mp hreports
  have heq := (hshown (1, b) (mem_toList.mpr hb)).2
  exact absurd (of_decide_eq_true hclosing) (not_lt.mpr ((d.blindShown_eq (1, b)).mp heq).2.2)

/-- A remote is added over HTTP. -/
def addRemoteNamed (name : String) : Event := .request .addRemote (query [("name", name)]) default

/-- The second remote is bound to the first blind. -/
def bindHall : Event :=
  .request .bindBlind (query [("id", "2555906"), ("blindId", "1")]) default

/-- Two remotes with plain names are shown as they are, with the blind they are bound to. -/
theorem hall_reported :
    ∃ d₀ d : Device, freshDevice oneSector false (fun _ => ⟨⟨0, 0, 0, 0⟩, 0⟩) = some d₀ ∧
      Transitions.Run step Transitions.Free d₀ [addSalon, addRemoteNamed "hall", bindHall] d ∧
      d.remotes.toList.length = 2 ∧
      (∀ (id : UInt32) (p : ℕ), d.remotes[id]? = some p → (d.heap p).associatedBlinds = [1]) ∧
      Reports (d.getRemotesResponse 192) (.arr (d.remotes.toList.map d.remoteReport)) := by
  have hany : (freshDevice oneSector false fun _ => ⟨⟨0, 0, 0, 0⟩, 0⟩).any (fun d₀ =>
      (Transitions.exec step d₀ [addSalon, addRemoteNamed "hall", bindHall]).any fun d =>
        d.remotes.toList.length == 2 &&
        ((List.range 2).all fun i =>
          decide ((d.partText .remotes (UInt16.ofNat i)).length ≤ 192)) &&
        d.remotes.toList.all fun entry =>
          decide ((d.heap entry.2).remoteName ∈ [ascii "salon", ascii "hall"]) &&
            (d.heap entry.2).associatedBlinds == [1] && decide (entry.1.toNat < 2 ^ 31)) =
      true := by
    decide +kernel
  obtain ⟨d₀, hd₀, hstep⟩ := (Option.any_eq_true _ _).mp hany
  obtain ⟨d, hd, hrest⟩ := (Option.any_eq_true _ _).mp hstep
  simp only [Bool.and_eq_true, beq_iff_eq, decide_eq_true_eq, List.all_eq_true, List.mem_range]
    at hrest
  obtain ⟨⟨htwo, hfits⟩, hall⟩ := hrest
  have hentry := fun id p (hp : d.remotes[id]? = some p) => hall (id, p) (mem_toList.mpr hp)
  have hnames : ∀ name ∈ [ascii "salon", ascii "hall"], (∃ params, nameParam params = some name) ∧
      Plain name := by
    simp only [nameParam_iff, Plain, List.forall_mem_cons]
    decide +kernel
  refine ⟨d₀, d, hd₀, Transitions.run_of_exec hd, htwo, fun id p hp => (hentry id p hp).1.2,
    (d.remotes_reported fun id p hp => (hnames _ (hentry id p hp).1.1).1).mpr ⟨?_, ?_, ?_⟩⟩
  · rw [htwo]
    decide
  · exact partText_le fun i hi => hfits i (lt_of_lt_of_eq hi htwo)
  · exact fun id p hp => ⟨(hnames _ (hentry id p hp).1.1).2, (hentry id p hp).2⟩

/-- A backslash in a name is taken for an escape. -/
theorem backslash_not_reported :
    ∃ d₀ d : Device, freshDevice oneSector false (fun _ => ⟨⟨0, 0, 0, 0⟩, 0⟩) = some d₀ ∧
      d₀.step (addRemoteNamed "a\\b") = some d ∧
      (∀ (id : UInt32) (p : ℕ), d.remotes[id]? = some p →
        ∃ params, nameParam params = some (d.heap p).remoteName) ∧
      ¬Reports (d.getRemotesResponse 192) (.arr (d.remotes.toList.map d.remoteReport)) := by
  have hany : (freshDevice oneSector false fun _ => ⟨⟨0, 0, 0, 0⟩, 0⟩).any (fun d₀ =>
      (d₀.step (addRemoteNamed "a\\b")).any fun d => (d.remotes[(0x270001 : UInt32)]?).isSome &&
        d.remotes.toList.all fun entry => (d.heap entry.2).remoteName == [97, 92, 98]) = true := by
    decide +kernel
  obtain ⟨d₀, hd₀, hstep⟩ := (Option.any_eq_true _ _).mp hany
  obtain ⟨d, hd, hrest⟩ := (Option.any_eq_true _ _).mp hstep
  obtain ⟨hsome, hall⟩ := Bool.and_eq_true_iff.mp hrest
  obtain ⟨p, hp⟩ := Option.isSome_iff_exists.mp hsome
  have hname : ∀ (id : UInt32) (p : ℕ), d.remotes[id]? = some p →
      (d.heap p).remoteName = [97, 92, 98] :=
    fun id p hp => beq_iff_eq.mp (List.all_eq_true.mp hall (id, p) (mem_toList.mpr hp))
  have haccepted : ∀ (id : UInt32) (p : ℕ), d.remotes[id]? = some p →
      ∃ params, nameParam params = some (d.heap p).remoteName := fun id p hp => by
    rw [hname id p hp]
    exact nameParam_iff.mpr (by decide)
  refine ⟨d₀, d, hd₀, hd, haccepted, fun hreports => ?_⟩
  obtain ⟨-, -, hshown⟩ := (d.remotes_reports_iff haccepted).mp hreports
  have hplain := (hshown (0x270001, p) (mem_toList.mpr hp)).1
  rw [hname _ p hp] at hplain
  exact (hplain 92 (by decide)).1 rfl

end Device

end PicoSomfy
