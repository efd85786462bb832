import PicoSomfy.BufferOutput
import PicoSomfy.StateReports
import PicoSomfy.DeviceRuns

/-!
# Lists that are sent in parts

The lists of blinds and of remotes are sent one element at a time. A call writes the
element that many steps from the first, with a comma behind it when another one follows,
and then asks to be called again for the next one. Between two calls the web server may
run other requests, which see and change the same map.

So the text stays a list as long as each call after the first still finds its element,
and the element fits into the buffer.
-/
namespace PicoSomfy

open JsonText SortedMap DeviceConfig

/-- A part is the text written and the number `*nextPart` is set to, if it is. -/
abbrev Part := List UInt8 × Option UInt16

section Lists
variable {α : Type} (pieces : α → List Piece) (more last : List UInt8)

/-- What is written for the first of the elements, when these are left. -/
def partPieces : List α → List Piece
  | [] => []
  | [e] => pieces e ++ [.text last]
  | e :: _ => pieces e ++ [.text more]

/-- One call for a list. An iterator may not be taken beyond the end of the map. -/
def listPart (entries : List α) (iInsertLen : ℕ) (tagPart : UInt16) : Option Part :=
  if tagPart.toNat > entries.length then none
  else
    some ((Piece.writeAll (.create iInsertLen)
        (partPieces pieces more last (entries.drop tagPart.toNat))).written,
      if tagPart.toNat + 1 < entries.length then some (tagPart + 1) else none)

/-- The texts of the elements are objects, and the last one only lacks its comma. -/
structure Framed : Prop where
  opens : ∀ e, (Piece.whole (pieces e)).head? = some 123
  closes : last.getLast? = some 125
  more_eq : more = last ++ [44]
  padded : ∀ e, Piece.Padded (pieces e ++ [.text last]) ∧ Piece.Padded (pieces e ++ [.text more])

variable {pieces more last}

theorem Framed.padded_part (h : Framed pieces more last) (es : List α) :
    Piece.Padded (partPieces pieces more last es) := by
  unfold partPieces
  split
  · trivial
  · exact (h.padded _).1
  · exact (h.padded _).2

theorem listPart_fits (h : Framed pieces more last) {entries : List α} {iInsertLen : ℕ}
    {tagPart : UInt16} (hin : tagPart.toNat ≤ entries.length)
    (hfits : (Piece.whole (partPieces pieces more last (entries.drop tagPart.toNat))).length ≤
      iInsertLen) :
    listPart pieces more last entries iInsertLen tagPart =
      some (Piece.whole (partPieces pieces more last (entries.drop tagPart.toNat)),
        if tagPart.toNat + 1 < entries.length then some (tagPart + 1) else none) := by
  rw [listPart, if_neg (not_lt.mpr hin), Piece.writeAll_fits (h.padded_part _) hfits]
  rfl

end Lists

namespace Blind

/-- The direction comes back as a truth value. -/
def getMotionDirection (b : Blind) : Bool := b.motionDirection ≠ 0

end Blind

/-- The word for a direction. -/
def directionText (md : ℤ) : List UInt8 :=
  if md > 0 then ascii "opening" else if md < 0 then ascii "closing" else ascii "stopped"

namespace Device

def blindPieces (d : Device) (entry : UInt32 × Blind) : List Piece :=
  [.text (ascii "\x7b \"id\": "), .int entry.1.toInt32.toInt,
    .text (ascii ", \"name\": \""), .escaped entry.2.name,
    .text (ascii "\", \"position\": "), .int (Blind.truncated entry.2.intermediatePosition),
    .text (ascii ", \"openTime\": "), .int entry.2.openTime.toInt,
    .text (ascii ", \"closeTime\": "), .int entry.2.closeTime.toInt,
    .text (ascii ", \"remoteId\": "), .int (d.heap entry.2.remote).remoteId.toInt32.toInt,
    .text (ascii ", \"state\": \""), .text (directionText entry.2.getMotionDirection.toInt)]

def getBlindsResponse (d : Device) (iInsertLen : ℕ) (tagPart : UInt16) : Option Part :=
  listPart d.blindPieces (ascii "\" \x7d,") (ascii "\" \x7d") d.blinds.toList iInsertLen tagPart

/-- The ids of the associated blinds. -/
def blindIdPieces : List UInt16 → List Piece
  | [] => []
  | id :: ids => .int id.toNat :: ids.flatMap fun id => [.char 44, .int id.toNat]

def remotePieces (d : Device) (entry : UInt32 × ℕ) : List Piece :=
  [.text (ascii "\x7b \"id\": "), .int entry.1.toInt32.toInt,
    .text (ascii ", \"name\": \""), .text (d.heap entry.2).remoteName,
    .text (ascii "\", \"blinds\": [")] ++
  blindIdPieces (d.heap entry.2).associatedBlinds ++
  [.text (ascii "],\"external\":"), .text (ascii (toString (d.heap entry.2).isExternal))]

def getRemotesResponse (d : Device) (iInsertLen : ℕ) (tagPart : UInt16) : Option Part :=
  listPart d.remotePieces (ascii " \x7d,") (ascii " \x7d") d.remotes.toList iInsertLen tagPart

theorem blinds_framed (d : Device) :
    Framed d.blindPieces (ascii "\" \x7d,") (ascii "\" \x7d") := by
  have hpad : ∀ e (closing : List UInt8), 2 ≤ closing.length →
      Piece.Padded (d.blindPieces e ++ [.text closing]) := by
    intro e closing hc
    have hstate : (directionText e.2.getMotionDirection.toInt).length = 7 := by
      unfold directionText
      split_ifs <;> rfl
    have hname : (ascii ", \"name\": \"").length = 11 := rfl
    have hposition : (ascii "\", \"position\": ").length = 15 := rfl
    have hopen : (ascii ", \"openTime\": ").length = 14 := rfl
    have hclose : (ascii ", \"closeTime\": ").length = 15 := rfl
    have hremote : (ascii ", \"remoteId\": ").length = 14 := rfl
    have hword : (ascii ", \"state\": \"").length = 12 := rfl
    simp only [blindPieces, List.cons_append, List.nil_append]
    refine ⟨?_, ?_, ?_, ?_, ?_, ?_, trivial⟩
    all_goals
      simp only [Piece.whole_cons, Piece.whole_nil, Piece.full, List.length_append, List.length_nil,
        hstate, hname, hposition, hopen, hclose, hremote, hword]
      omega
  exact ⟨fun e => rfl, rfl, rfl, fun e => ⟨hpad e _ (by decide), hpad e _ (by decide)⟩⟩

theorem padded_blindIdPieces (ids : List UInt16) {rest : List Piece} (hrest : Piece.Padded rest)
    (hlen : 16 ≤ (Piece.whole rest).length) : Piece.Padded (blindIdPieces ids ++ rest) := by
  have hmore : ∀ ids : List UInt16,
      Piece.Padded ((ids.flatMap fun id => [Piece.char 44, .int id.toNat]) ++ rest) := by
    intro ids
    induction ids with
    | nil => exact hrest
    | cons id ids ih =>
        rw [List.flatMap_cons]
        refine ⟨?_, ih⟩
        change 16 ≤ (Piece.whole ((ids.flatMap fun id => [Piece.char 44, .int id.toNat]) ++ rest)).length
        rw [Piece.whole_append, List.length_append]
        omega
  cases ids with
  | nil => exact hrest
  | cons id ids =>
      refine ⟨?_, hmore ids⟩
      change 16 ≤ (Piece.whole (_ ++ rest)).length
      rw [Piece.whole_append, List.length_append]
      omega

theorem remotes_framed (d : Device) :
    Framed d.remotePieces (ascii " \x7d,") (ascii " \x7d") := by
  have hpad : ∀ e (closing : List UInt8), 2 ≤ closing.length →
      Piece.Padded (d.remotePieces e ++ [.text closing]) := by
    intro e closing hc
    have hext : 4 ≤ (ascii (toString (d.heap e.2).isExternal)).length := by
      cases (d.heap e.2).isExternal <;> decide
    have htail : 16 ≤ (Piece.whole [.text (ascii "],\"external\":"),
        .text (ascii (toString (d.heap e.2).isExternal)), .text closing]).length := by
      have hword : (ascii "],\"external\":").length = 13 := rfl
      simp only [Piece.whole_cons, Piece.whole_nil, Piece.full, List.length_append, List.length_nil,
        hword]
      omega
    have hrest : Piece.Padded [.text (ascii "],\"external\":"),
        .text (ascii (toString (d.heap e.2).isExternal)), .text closing] := trivial
    have hids := padded_blindIdPieces (d.heap e.2).associatedBlinds hrest htail
    simp only [remotePieces, List.cons_append, List.nil_append, List.append_assoc]
    have hname : (ascii ", \"name\": \"").length = 11 := rfl
    have hblinds : (ascii "\", \"blinds\": [").length = 14 := rfl
    refine ⟨?_, hids⟩
    simp only [Piece.whole_cons, Piece.full, List.length_append, hname, hblinds]
    omega
  exact ⟨fun e => rfl, rfl, rfl, fun e => ⟨hpad e _ (by decide), hpad e _ (by decide)⟩⟩

end Device

/-- The two lists, by the tags they stand for. -/
inductive ListTag where
  | blinds
  | remotes
  deriving DecidableEq

namespace Device

def respond (d : Device) (iInsertLen : ℕ) : ListTag → UInt16 → Option Part
  | .blinds => d.getBlindsResponse iInsertLen
  | .remotes => d.getRemotesResponse iInsertLen

def listLength (d : Device) : ListTag → ℕ
  | .blinds => d.blinds.toList.length
  | .remotes => d.remotes.toList.length

/-- All of the text of a part, whether it fits or not. -/
def partText (d : Device) : ListTag → UInt16 → List UInt8
  | .blinds, tagPart =>
      Piece.whole (partPieces d.blindPieces (ascii "\" \x7d,") (ascii "\" \x7d")
        (d.blinds.toList.drop tagPart.toNat))
  | .remotes, tagPart =>
      Piece.whole (partPieces d.remotePieces (ascii " \x7d,") (ascii " \x7d")
        (d.remotes.toList.drop tagPart.toNat))

end Device

/-- A response under way, or one that has ended. `nextPart` is the number the next call
is made with, and `pastEnd` notes a call whose iterator went beyond the end. -/
structure Transfer where
  tag : ListTag
  texts : List (List UInt8)
  nextPart : Option UInt16
  pastEnd : Bool

namespace Transfer

def take (tr : Transfer) : Option Part → Transfer
  | none => { tr with nextPart := none, pastEnd := true }
  | some (text, next) => { tr with texts := tr.texts ++ [text], nextPart := next }

end Transfer

/-- The device with the responses that were asked for. -/
structure Server where
  device : Device
  transfers : List Transfer

inductive ServerEvent where
  | device (e : Device.Event)
  | ask (tag : ListTag)
  | part (i : ℕ)

namespace Server

def start (d : Device) : Server := ⟨d, []⟩

/-- No connection outlives a restart. -/
def keep (transfers : List Transfer) : Device.Event → List Transfer
  | .restart _ _ => []
  | _ => transfers

def step (iInsertLen : ℕ) (s : Server) : ServerEvent → Option Server
  | .device e => (s.device.step e).map fun d => ⟨d, keep s.transfers e⟩
  | .ask tag => some { s with transfers := s.transfers ++ [⟨tag, [], some 0, false⟩] }
  | .part i => (s.transfers[i]?).bind fun tr => tr.nextPart.map fun tagPart =>
      { s with
        transfers := s.transfers.set i (tr.take (s.device.respond iInsertLen tr.tag tagPart)) }

/-- A call after the first still finds its element, and the element fits. -/
def Steady (iInsertLen : ℕ) (s : Server) : ServerEvent → Prop
  | .part i => ∀ tr tagPart, s.transfers[i]? = some tr → tr.nextPart = some tagPart →
      (tr.texts ≠ [] → tagPart.toNat < s.device.listLength tr.tag) ∧
        (s.device.partText tr.tag tagPart).length ≤ iInsertLen
  | _ => True

instance (iInsertLen : ℕ) (s : Server) (e : ServerEvent) : Decidable (Steady iInsertLen s e) :=
  match e with
  | .part i => decidable_of_iff
      ((s.transfers[i]?).all fun tr => tr.nextPart.all fun tagPart =>
        (tr.texts.isEmpty || decide (tagPart.toNat < s.device.listLength tr.tag)) &&
          decide ((s.device.partText tr.tag tagPart).length ≤ iInsertLen))
      (by
        simp only [Steady, Option.all_eq_true, Bool.and_eq_true, Bool.or_eq_true, List.isEmpty_iff,
          decide_eq_true_eq, or_iff_not_imp_left]
        exact ⟨fun h tr tagPart htr hnext => h tr htr tagPart hnext,
          fun h tr htr tagPart hnext => h tr tagPart htr hnext⟩)
  | .device _ | .ask _ => isTrue trivial

end Server

def IsObject (o : List UInt8) : Prop := o.head? = some 123 ∧ o.getLast? = some 125

/-- Objects with a comma behind each but the last. -/
def delimit : List (List UInt8) → List (List UInt8)
  | [] => []
  | [o] => [o]
  | o :: os => (o ++ [44]) :: delimit os

/-- The parts that are not empty are objects with a comma behind each but the last. -/
def CommaSeparated (texts : List (List UInt8)) : Prop :=
  ∃ objs : List (List UInt8), (∀ o ∈ objs, IsObject o) ∧ texts.filter (· ≠ []) = delimit objs

/-- No call went beyond the end, and a response that has ended is a list. -/
def Transfer.Proper (tr : Transfer) : Prop :=
  tr.pastEnd = false ∧ (tr.nextPart = none → CommaSeparated tr.texts)

theorem delimit_concat (objs : List (List UInt8)) (o : List UInt8) :
    delimit (objs ++ [o]) = objs.map (· ++ [44]) ++ [o] := by
  induction objs with
  | nil => rfl
  | cons p objs ih =>
      have hne : objs ++ [o] ≠ [] := List.append_ne_nil_of_right_ne_nil _ (List.cons_ne_nil _ _)
      obtain ⟨q, qs, hq⟩ := List.exists_cons_of_ne_nil hne
      rw [List.cons_append, hq, delimit, ← hq, ih]
      · rfl
      · exact List.cons_ne_nil _ _

theorem flatten_delimit (objs : List (List UInt8)) : (delimit objs).flatten = commaJoin objs := by
  induction objs with
  | nil => rfl
  | cons o objs ih =>
      cases objs with
      | nil => exact List.append_nil o
      | cons p objs =>
          rw [delimit, List.flatten_cons, ih, commaJoin_cons _ (List.cons_ne_nil _ _),
            List.append_assoc]
          · rfl
          · exact List.cons_ne_nil _ _

/-- The text between the brackets is its objects with commas between them. -/
theorem CommaSeparated.flatten {texts : List (List UInt8)} (h : CommaSeparated texts) :
    ∃ objs : List (List UInt8), (∀ o ∈ objs, IsObject o) ∧ texts.flatten = commaJoin objs := by
  obtain ⟨objs, hobjs, heq⟩ := h
  refine ⟨objs, hobjs, ?_⟩
  rw [← flatten_delimit, ← heq, List.flatten_filter_ne_nil]

theorem Framed.whole_part {α : Type} {pieces : α → List Piece} {more last : List UInt8}
    (h : Framed pieces more last) (e : α) (es : List α) :
    ∃ o, IsObject o ∧ Piece.whole (partPieces pieces more last (e :: es)) =
      if es = [] then o else o ++ [44] := by
  obtain ⟨text, htext⟩ := List.head?_eq_some_iff.mp (h.opens e)
  obtain ⟨start, hstart⟩ := List.getLast?_eq_some_iff.mp h.closes
  refine ⟨Piece.whole (pieces e) ++ last, ?_, ?_⟩
  · rw [htext, hstart, ← List.append_assoc]
    exact ⟨rfl, List.getLast?_concat⟩
  · cases es with
    | nil => simp [partPieces, Piece.full]
    | cons e' es => simp [partPieces, Piece.full, h.more_eq]

/-- The part of an element that there is. -/
theorem Framed.whole_drop {α : Type} {pieces : α → List Piece} {more last : List UInt8}
    (h : Framed pieces more last) {entries : List α} {i : ℕ} (hi : i < entries.length) :
    ∃ o, IsObject o ∧ Piece.whole (partPieces pieces more last (entries.drop i)) =
      if i + 1 < entries.length then o ++ [44] else o := by
  obtain ⟨o, ho, heq⟩ := h.whole_part entries[i] (entries.drop (i + 1))
  refine ⟨o, ho, ?_⟩
  rw [List.drop_eq_getElem_cons hi, heq]
  by_cases hlt : i + 1 < entries.length
  · rw [if_pos hlt, if_neg fun hnil => absurd (List.drop_eq_nil_iff.mp hnil) (not_le.mpr hlt)]
  · rw [if_neg hlt, if_pos (List.drop_eq_nil_of_le (not_lt.mp hlt))]

namespace Device

variable {d : Device} {tag : ListTag} {tagPart : UInt16} {iInsertLen : ℕ}

theorem respond_fits (hin : tagPart.toNat ≤ d.listLength tag)
    (hfits : (d.partText tag tagPart).length ≤ iInsertLen) :
    d.respond iInsertLen tag tagPart = some (d.partText tag tagPart,
      if tagPart.toNat + 1 < d.listLength tag then some (tagPart + 1) else none) := by
  cases tag with
  | blinds => exact listPart_fits d.blinds_framed hin hfits
  | remotes => exact listPart_fits d.remotes_framed hin hfits

theorem partText_nil (h : d.listLength tag ≤ tagPart.toNat) : d.partText tag tagPart = [] := by
  cases tag with
  | blinds =>
      have hnil : d.blinds.toList.drop tagPart.toNat = [] := List.drop_eq_nil_of_le h
      rw [partText, hnil]
      rfl
  | remotes =>
      have hnil : d.remotes.toList.drop tagPart.toNat = [] := List.drop_eq_nil_of_le h
      rw [partText, hnil]
      rfl

theorem partText_object (h : tagPart.toNat < d.listLength tag) :
    ∃ o, IsObject o ∧
      d.partText tag tagPart = if tagPart.toNat + 1 < d.listLength tag then o ++ [44] else o := by
  cases tag with
  | blinds => exact d.blinds_framed.whole_drop h
  | remotes => exact d.remotes_framed.whole_drop h

end Device

/-- As long as another part is to come, every part so far ends with a comma. -/
structure Transfer.Going (tr : Transfer) : Prop where
  inside : tr.pastEnd = false
  ended : tr.nextPart = none → CommaSeparated tr.texts
  open_ : ∀ tagPart, tr.nextPart = some tagPart →
    (∃ objs : List (List UInt8), (∀ o ∈ objs, IsObject o) ∧ tr.texts = objs.map (· ++ [44])) ∧
      (tr.texts = [] → tagPart = 0)

theorem IsObject.ne_nil {o : List UInt8} (h : IsObject o) : o ≠ [] := by
  rintro rfl
  cases h.1

theorem filter_delimit {objs : List (List UInt8)} (h : ∀ o ∈ objs, IsObject o) :
    (delimit objs).filter (· ≠ []) = delimit objs := by
  refine List.filter_eq_self.mpr fun t ht => ?_
  induction objs with
  | nil => cases ht
  | cons o objs ih =>
      have ho := (h o List.mem_cons_self).ne_nil
      cases objs with
      | nil => simpa using List.mem_singleton.mp ht ▸ ho
      | cons p objs =>
          rcases List.mem_cons.mp ht with rfl | ht
          · simp
          · exact ih (fun q hq => h q (List.mem_cons_of_mem _ hq)) ht

/-- The part of a steady response, and what it is worth. -/
theorem Transfer.Going.take {tr : Transfer} (h : tr.Going) {tagPart : UInt16}
    (hnext : tr.nextPart = some tagPart) {d : Device} {iInsertLen : ℕ}
    (hin : tr.texts ≠ [] → tagPart.toNat < d.listLength tr.tag)
    (hfits : (d.partText tr.tag tagPart).length ≤ iInsertLen) :
    (tr.take (d.respond iInsertLen tr.tag tagPart)).Going := by
  obtain ⟨⟨objs, hobjs, htexts⟩, hfirst⟩ := h.open_ tagPart hnext
  by_cases hlt : tagPart.toNat < d.listLength tr.tag
  · obtain ⟨o, ho, hpart⟩ := Device.partText_object hlt
    rw [Device.respond_fits hlt.le hfits]
    have hall : ∀ p ∈ objs ++ [o], IsObject p := fun p hp => by
      rcases List.mem_append.mp hp with hp | hp
      · exact hobjs p hp
      · exact List.mem_singleton.mp hp ▸ ho
    by_cases hmore : tagPart.toNat + 1 < d.listLength tr.tag
    · rw [if_pos hmore] at hpart ⊢
      refine ⟨h.inside, nofun, fun next _ => ⟨⟨objs ++ [o], hall, ?_⟩, fun hnil => ?_⟩⟩
      · simp [Transfer.take, htexts, hpart]
      · exact absurd hnil (List.append_ne_nil_of_right_ne_nil _ (List.cons_ne_nil _ _))
    · rw [if_neg hmore] at hpart ⊢
      refine ⟨h.inside, fun _ => ⟨objs ++ [o], hall, ?_⟩, nofun⟩
      have hdelimit := filter_delimit hall
      rw [delimit_concat] at hdelimit ⊢
      simp only [Transfer.take, htexts, hpart]
      exact hdelimit
  · -- only the first call may find the map empty
    have hnil : tr.texts = [] := by
      by_contra hne
      exact hlt (hin hne)
    have hzero := hfirst hnil
    subst hzero
    rw [Device.respond_fits (Nat.zero_le _) hfits, Device.partText_nil (not_lt.mp hlt),
      if_neg (by
        have hle := not_lt.mp hlt
        have h0 : (0 : UInt16).toNat = 0 := rfl
        omega)]
    refine ⟨h.inside, fun _ => ⟨[], fun _ ho => absurd ho List.not_mem_nil, ?_⟩, nofun⟩
    simp [Transfer.take, hnil, delimit]

theorem getLast_commaJoin {objs : List (List UInt8)} (h : ∀ o ∈ objs, IsObject o) :
    (commaJoin objs).getLast? ≠ some 44 := by
  induction objs with
  | nil => exact nofun
  | cons o objs ih =>
      by_cases hnil : objs = []
      · subst hnil
        have ho := (h o List.mem_cons_self).2
        rw [commaJoin, ho]
        decide
      · have htail := ih fun p hp => h p (List.mem_cons_of_mem _ hp)
        have hne : commaJoin objs ≠ [] := fun he => by
          obtain ⟨p, ps, rfl⟩ := List.exists_cons_of_ne_nil hnil
          have hlen := (length_commaJoin fun t ht =>
            (h t (List.mem_cons_of_mem _ ht)).ne_nil).1
          rw [he] at hlen
          exact absurd hlen (by simp)
        rw [commaJoin_cons o hnil, List.getLast?_append_of_ne_nil _ (List.cons_ne_nil _ _),
          List.getLast?_cons_of_ne_nil hne]
        exact htail

/-- A list does not end with a comma. -/
theorem not_commaSeparated {texts : List (List UInt8)} (h : texts.flatten.getLast? = some 44) :
    ¬CommaSeparated texts := fun hsep => by
  obtain ⟨objs, hobjs, heq⟩ := hsep.flatten
  rw [heq] at h
  exact getLast_commaJoin hobjs h

namespace Server

variable {iInsertLen : ℕ}

theorem going_step {s t : Server} {e : ServerEvent} (h : ∀ tr ∈ s.transfers, tr.Going)
    (hok : Steady iInsertLen s e) (hstep : step iInsertLen s e = some t) :
    ∀ tr ∈ t.transfers, tr.Going := by
  cases e with
  | device e =>
      obtain ⟨d, -, rfl⟩ := Option.map_eq_some_iff.mp hstep
      intro tr htr
      cases e with
      | restart mqttEnabled slots => cases htr
      | _ => exact h tr htr
  | ask tag =>
      cases hstep
      intro tr htr
      rcases List.mem_append.mp htr with htr | htr
      · exact h tr htr
      · rw [List.mem_singleton.mp htr]
        exact ⟨rfl, nofun, fun tagPart hnext => ⟨⟨[], fun _ ho => absurd ho List.not_mem_nil, rfl⟩,
          fun _ => (Option.some.inj hnext).symm⟩⟩
  | part i =>
      obtain ⟨tr, htr, hstep⟩ := Option.bind_eq_some_iff.mp hstep
      obtain ⟨tagPart, hnext, rfl⟩ := Option.map_eq_some_iff.mp hstep
      obtain ⟨hin, hfits⟩ := hok tr tagPart htr hnext
      intro tr' htr'
      rcases List.mem_or_eq_of_mem_set htr' with hold | rfl
      · exact h tr' hold
      · exact (h tr (List.mem_of_getElem? htr)).take hnext hin hfits

/-- In a steady run no call goes beyond the end, and every response is a list. -/
theorem proper_of_steady {d : Device} {s : Server} {es : List ServerEvent}
    (hrun : Transitions.Run (step iInsertLen) (Steady iInsertLen) (start d) es s) :
    ∀ tr ∈ s.transfers, tr.Proper := by
  have hgoing : ∀ tr ∈ s.transfers, tr.Going :=
    hrun.invariant (I := fun s => ∀ tr ∈ s.transfers, tr.Going) going_step
      fun tr htr => absurd htr List.not_mem_nil
  exact fun tr htr => ⟨(hgoing tr htr).inside, (hgoing tr htr).ended⟩

def addNamed (name : String) : ServerEvent :=
  .device (.request .addRemote (query [("name", name)]) default)

def deleteNumber (id : String) : ServerEvent :=
  .device (.request .deleteRemote (query [("id", id)]) default)

/-- A remote is added between the two parts of a response. -/
def grown : List ServerEvent :=
  [addNamed "hall", addNamed "attic", .ask .remotes, .part 0, addNamed "porch", .part 0, .part 0]

theorem proper_grown :
    ∃ d s, Device.freshDevice oneSector false (fun _ => ⟨⟨0, 0, 0, 0⟩, 0⟩) = some d ∧
      Transitions.Run (step 192) (Steady 192) (start d) grown s ∧
      (∀ tr ∈ s.transfers, tr.Proper) ∧ (s.transfers.map fun tr => tr.texts.length) = [3] := by
  have hany : (Device.freshDevice oneSector false fun _ => ⟨⟨0, 0, 0, 0⟩, 0⟩).any (fun d =>
      (Transitions.guardedExec (step 192) (Steady 192) (start d) grown).any fun s =>
        (s.transfers.map fun tr => tr.texts.length) == [3]) = true := by
    decide +kernel
  obtain ⟨d, hd, hrun⟩ := (Option.any_eq_true _ _).mp hany
  obtain ⟨s, hs, hparts⟩ := (Option.any_eq_true _ _).mp hrun
  have hrun := Transitions.run_of_guardedExec hs
  exact ⟨d, s, hd, hrun, proper_of_steady hrun, beq_iff_eq.mp hparts⟩

/-- The last remote is deleted before its part is asked for. -/
def trailing : List ServerEvent :=
  [addNamed "hall", addNamed "attic", .ask .remotes, .part 0, deleteNumber "2555906", .part 0]

/-- The two last of three remotes are deleted before the third part is asked for. -/
def beyond : List ServerEvent :=
  [addNamed "hall", addNamed "attic", addNamed "porch", .ask .remotes, .part 0, .part 0,
    deleteNumber "2555906", deleteNumber "2555907", .part 0]

/-- The first response ends with a comma, the second takes its iterator beyond the end. -/
theorem response_not_proper :
    ∃ d s t, Device.freshDevice oneSector false (fun _ => ⟨⟨0, 0, 0, 0⟩, 0⟩) = some d ∧
      Transitions.Run (step 192) Transitions.Free (start d) trailing s ∧
      (∃ tr ∈ s.transfers, tr.nextPart = none ∧ ¬CommaSeparated tr.texts) ∧
      Transitions.Run (step 192) Transitions.Free (start d) beyond t ∧
      ∃ tr ∈ t.transfers, tr.pastEnd = true := by
  have hany : (Device.freshDevice oneSector false fun _ => ⟨⟨0, 0, 0, 0⟩, 0⟩).any (fun d =>
      ((Transitions.exec (step 192) (start d) trailing).any fun s => s.transfers.any fun tr =>
        tr.nextPart == none && tr.texts.flatten.getLast? == some 44) &&
      (Transitions.exec (step 192) (start d) beyond).any fun s => s.transfers.any fun tr =>
        tr.pastEnd) = true := by
    decide +kernel
  obtain ⟨d, hd, hruns⟩ := (Option.any_eq_true _ _).mp hany
  obtain ⟨htrailing, hbeyond⟩ := Bool.and_eq_true_iff.mp hruns
  obtain ⟨s, hs, hcomma⟩ := (Option.any_eq_true _ _).mp htrailing
  obtain ⟨t, ht, hpast⟩ := (Option.any_eq_true _ _).mp hbeyond
  obtain ⟨tr, htr, hend⟩ := List.any_eq_true.mp hcomma
  obtain ⟨hnext, hlast⟩ := Bool.and_eq_true_iff.mp hend
  exact ⟨d, s, t, hd, Transitions.run_of_exec hs,
    ⟨tr, htr, beq_iff_eq.mp hnext, not_commaSeparated (beq_iff_eq.mp hlast)⟩,
    Transitions.run_of_exec ht, List.any_eq_true.mp hpast⟩

end Server

end PicoSomfy
