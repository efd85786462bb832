import Mathlib

/-!
# Slot stores

A store is a row of slots, each free, dead or live with a key and a value. A
free slot can be filled once, a live slot can be killed, and a dead slot becomes
free again only when it is reclaimed. Looking up a key takes the lowest live
slot that holds it, so a store in which two slots hold one key still answers.

With at most one slot for each key, filling and killing act on the answers as
updates of a finite map, and reclaiming does not act on them at all. Keys,
values and the number of slots are arbitrary.
-/
namespace SlotStore

variable {K V : Type*}

inductive Slot (K V : Type*) where
  | free
  | dead
  | live (key : K) (value : V)
  deriving DecidableEq, Repr

abbrev Slots (K V : Type*) := ℕ → Slot K V

section First

/-- The lowest index below `n` with property `p`. -/
def first (n : ℕ) (p : ℕ → Bool) : Option ℕ := (List.range n).find? p

theorem first_eq_some {n i : ℕ} {p : ℕ → Bool} :
    first n p = some i ↔ i < n ∧ p i = true ∧ ∀ j < i, p j = false := by
  simp only [first, List.find?_range_eq_some, List.mem_range, Bool.not_eq_true']
  tauto

theorem first_eq_none {n : ℕ} {p : ℕ → Bool} : first n p = none ↔ ∀ i < n, p i = false := by
  simp [first]

theorem first_isSome {n i : ℕ} {p : ℕ → Bool} (hi : i < n) (hp : p i = true) :
    ∃ j, first n p = some j := by
  cases h : first n p with
  | some j => exact ⟨j, rfl⟩
  | none => simp [first_eq_none.mp h i hi] at hp

theorem first_congr {n : ℕ} {p q : ℕ → Bool} (h : ∀ i < n, p i = q i) : first n p = first n q := by
  cases hq : first n q with
  | none => exact first_eq_none.mpr fun i hi => (h i hi).trans (first_eq_none.mp hq i hi)
  | some i =>
      obtain ⟨hi, hqi, hlow⟩ := first_eq_some.mp hq
      exact first_eq_some.mpr
        ⟨hi, (h i hi).trans hqi, fun j hj => (h j (hj.trans hi)).trans (hlow j hj)⟩

end First

def Slot.value? : Slot K V → Option V
  | .live _ v => some v
  | _ => none

@[simp] theorem value_live (k : K) (v : V) : (Slot.live k v).value? = some v := rfl

variable [DecidableEq K]

def Slot.holds (k : K) : Slot K V → Bool
  | .live key _ => key = k
  | _ => false

@[simp] theorem holds_free (k : K) : (Slot.free : Slot K V).holds k = false := rfl
@[simp] theorem holds_dead (k : K) : (Slot.dead : Slot K V).holds k = false := rfl
@[simp] theorem holds_live (k key : K) (v : V) : (Slot.live key v).holds k = decide (key = k) := rfl

theorem Slot.holds_iff {k : K} {x : Slot K V} : x.holds k = true ↔ ∃ v, x = .live k v := by
  cases x with
  | live key v => simp
  | _ => simp

/-- The answer for a key: the value in the lowest slot that holds it. -/
def lookup (n : ℕ) (s : Slots K V) (k : K) : Option V :=
  (first n fun i => (s i).holds k).bind fun i => (s i).value?

/-- The slot that holds a key next to the lowest one. -/
def next (n : ℕ) (s : Slots K V) (k : K) : Option ℕ :=
  (first n fun i => (s i).holds k).bind fun e => first n fun i => decide (e < i) && (s i).holds k

/-- At most one slot holds each key. -/
def Unique (n : ℕ) (s : Slots K V) : Prop :=
  ∀ k, ∀ i < n, ∀ j < n, (s i).holds k = true → (s j).holds k = true → i = j

theorem lookup_eq_none {n : ℕ} {s : Slots K V} {k : K} :
    lookup n s k = none ↔ ∀ i < n, (s i).holds k = false := by
  rw [← first_eq_none]
  constructor
  · intro h
    cases hf : first n fun i => (s i).holds k with
    | none => rfl
    | some i =>
        obtain ⟨v, hv⟩ := Slot.holds_iff.mp (first_eq_some.mp hf).2.1
        simp [lookup, hf, hv] at h
  · intro h
    simp only [lookup, h, Option.bind_none]

theorem lookup_eq_some {n : ℕ} {s : Slots K V} {k : K} {v : V} :
    lookup n s k = some v ↔
      ∃ i < n, s i = .live k v ∧ ∀ j < i, (s j).holds k = false := by
  constructor
  · intro h
    obtain ⟨i, hi, hv⟩ := Option.bind_eq_some_iff.mp h
    obtain ⟨hn, hp, hlow⟩ := first_eq_some.mp hi
    obtain ⟨w, hw⟩ := Slot.holds_iff.mp hp
    rw [hw, value_live, Option.some.injEq] at hv
    exact ⟨i, hn, hv ▸ hw, hlow⟩
  · rintro ⟨i, hn, hv, hlow⟩
    have hf : first n (fun i => (s i).holds k) = some i :=
      first_eq_some.mpr ⟨hn, by simp [hv], hlow⟩
    simp [lookup, hf, hv]

/-- Only the slots that hold a key decide its answer. -/
theorem lookup_congr {n : ℕ} {s t : Slots K V} {k : K}
    (h : ∀ i < n, (s i).holds k = true ∨ (t i).holds k = true → s i = t i) :
    lookup n s k = lookup n t k := by
  have hh : ∀ i < n, (s i).holds k = (t i).holds k := by
    intro i hi
    cases hs : (s i).holds k with
    | true => rw [← h i hi (.inl hs), hs]
    | false =>
        cases ht : (t i).holds k with
        | false => rfl
        | true =>
            rw [h i hi (.inr ht), ht] at hs
            cases hs
  unfold lookup
  rw [first_congr hh]
  cases hf : first n fun i => (t i).holds k with
  | none => rfl
  | some i =>
      obtain ⟨hi, hp, -⟩ := first_eq_some.mp hf
      simp only [Option.bind_some, h i hi (.inr hp)]

/-- Changing a slot that neither held the key nor holds it now. -/
theorem lookup_update_other {n i : ℕ} {s : Slots K V} {x : Slot K V} {k : K}
    (hs : (s i).holds k = false) (hx : x.holds k = false) :
    lookup n (Function.update s i x) k = lookup n s k := by
  apply lookup_congr
  intro j _ hj
  by_cases hij : j = i
  · subst hij
    simp [hs, hx] at hj
  · exact Function.update_of_ne hij _ _

/-- A value found is held by some slot, and by no other when keys are unique. -/
theorem Unique.lookup {n i : ℕ} {s : Slots K V} (hu : Unique n s) {k : K} {v : V}
    (hi : i < n) (hv : s i = .live k v) : lookup n s k = some v := by
  have hk : (s i).holds k = true := by simp [hv]
  refine lookup_eq_some.mpr ⟨i, hi, hv, fun j hj => ?_⟩
  by_contra hc
  exact hj.ne (hu k j (hj.trans hi) i hi (by simpa using hc) hk)

/-- When the slots fall into groups of `w` and each of the first `g` groups holds
some key of a set, the set has at least `g` keys. -/
theorem Unique.groups_le {n g w : ℕ} {s : Slots K V} (hu : Unique n s) {ks : Finset K}
    (hlive : ∀ a < g, ∃ i < n, i / w = a ∧ ∃ k ∈ ks, (s i).holds k = true) : g ≤ ks.card := by
  let group (k : K) : ℕ := ((first n fun i => (s i).holds k).getD 0) / w
  have hsub : Finset.range g ⊆ ks.image group := by
    intro a ha
    obtain ⟨i, hi, hia, k, hk, hh⟩ := hlive a (Finset.mem_range.mp ha)
    obtain ⟨j, hj⟩ := first_isSome (p := fun i => (s i).holds k) hi hh
    obtain ⟨hjn, hjk, -⟩ := first_eq_some.mp hj
    have hij : j = i := hu k j hjn i hi hjk hh
    refine Finset.mem_image.mpr ⟨k, hk, ?_⟩
    change (first n fun i => (s i).holds k).getD 0 / w = a
    rw [hj, Option.getD_some, hij, hia]
  calc g = (Finset.range g).card := (Finset.card_range g).symm
    _ ≤ (ks.image group).card := Finset.card_le_card hsub
    _ ≤ ks.card := Finset.card_image_le

section Steps
variable {n : ℕ} {s : Slots K V}

theorem Unique.kill (hu : Unique n s) (i : ℕ) : Unique n (Function.update s i .dead) := by
  intro k a ha b hb hka hkb
  have hold : ∀ c, (Function.update s i Slot.dead c).holds k = true → (s c).holds k = true := by
    intro c hc
    by_cases hci : c = i
    · subst hci
      simp at hc
    · rwa [Function.update_of_ne hci] at hc
  exact hu k a ha b hb (hold a hka) (hold b hkb)

/-- Killing the only slot of a key removes the key and nothing else. -/
theorem Unique.lookup_kill (hu : Unique n s) {i : ℕ} {k : K} (hi : i < n)
    (hk : (s i).holds k = true) :
    SlotStore.lookup n (Function.update s i .dead) =
      Function.update (SlotStore.lookup n s) k none := by
  funext k'
  by_cases hkk : k' = k
  · subst hkk
    rw [Function.update_self]
    refine lookup_eq_none.mpr fun j hj => ?_
    by_cases hji : j = i
    · simp [hji]
    · rw [Function.update_of_ne hji]
      by_contra hc
      exact hji (hu k' j hj i hi (by simpa using hc) hk)
  · rw [Function.update_of_ne hkk]
    obtain ⟨v, hv⟩ := Slot.holds_iff.mp hk
    exact lookup_update_other (by simp [hv, Ne.symm hkk]) rfl

/-- Filling a free slot with a key no slot holds adds exactly that key. -/
theorem lookup_fill {i : ℕ} {k : K} {v : V} (hi : i < n) (hfree : s i = .free)
    (habs : ∀ j < n, (s j).holds k = false) :
    lookup n (Function.update s i (.live k v)) = Function.update (lookup n s) k (some v) := by
  funext k'
  by_cases hkk : k' = k
  · subst hkk
    rw [Function.update_self]
    refine lookup_eq_some.mpr ⟨i, hi, Function.update_self .., fun j hj => ?_⟩
    rw [Function.update_of_ne hj.ne]
    exact habs j (hj.trans hi)
  · rw [Function.update_of_ne hkk]
    exact lookup_update_other (by simp [hfree]) (by simp [Ne.symm hkk])

theorem Unique.fill (hu : Unique n s) {i : ℕ} {k : K} (v : V)
    (habs : ∀ j < n, (s j).holds k = false) : Unique n (Function.update s i (.live k v)) := by
  intro k' a ha b hb hka hkb
  by_cases hkk : k = k'
  · subst hkk
    have only : ∀ c < n, (Function.update s i (Slot.live k v) c).holds k = true → c = i := by
      intro c hc hh
      by_contra hci
      rw [Function.update_of_ne hci, habs c hc] at hh
      cases hh
    rw [only a ha hka, only b hb hkb]
  · have hold : ∀ c, (Function.update s i (Slot.live k v) c).holds k' = true →
        (s c).holds k' = true := by
      intro c hc
      by_cases hci : c = i
      · subst hci
        simp [hkk] at hc
      · rwa [Function.update_of_ne hci] at hc
    exact hu k' a ha b hb (hold a hka) (hold b hkb)

theorem first_kill {e : ℕ} {k : K} (he : first n (fun i => (s i).holds k) = some e) :
    (first n fun i => (Function.update s e .dead i).holds k) = next n s k := by
  obtain ⟨-, -, hlow⟩ := first_eq_some.mp he
  rw [next, he, Option.bind_some]
  refine first_congr fun i _ => ?_
  rcases Nat.lt_trichotomy i e with hlt | rfl | hgt
  · rw [Function.update_of_ne hlt.ne, hlow i hlt, Bool.and_false]
  · rw [Function.update_self, holds_dead, decide_eq_false (lt_irrefl i), Bool.false_and]
  · rw [Function.update_of_ne hgt.ne', decide_eq_true hgt, Bool.true_and]

/-- After its lowest slot is killed, the next slot answers for a key. -/
theorem lookup_kill {e : ℕ} {k : K} (he : first n (fun i => (s i).holds k) = some e) :
    lookup n (Function.update s e .dead) k = (next n s k).bind fun i => (s i).value? := by
  rw [lookup, first_kill he]
  cases hnext : next n s k with
  | none => rfl
  | some i =>
      rw [next, he, Option.bind_some] at hnext
      have hboth := (first_eq_some.mp hnext).2.1
      simp only [Bool.and_eq_true, decide_eq_true_eq] at hboth
      rw [Option.bind_some, Option.bind_some, Function.update_of_ne hboth.1.ne']

/-- A slot that is filled with a key answers when it is the lowest one of the key. -/
theorem lookup_fill_lowest {d : ℕ} {k : K} {new : V} (hd : d < n) (hfree : s d = .free) :
    lookup n (Function.update s d (.live k new)) k =
      if (first n fun i => (s i).holds k).all (fun i => decide (d < i)) then some new
      else lookup n s k := by
  cases hf : first n fun i => (s i).holds k with
  | none =>
      rw [lookup_fill hd hfree (first_eq_none.mp hf), Function.update_self]
      rfl
  | some i =>
      obtain ⟨hi, hh, hlow⟩ := first_eq_some.mp hf
      obtain ⟨v, hv⟩ := Slot.holds_iff.mp hh
      have hdi : d ≠ i := by
        rintro rfl
        rw [hfree] at hv
        cases hv
      by_cases hlt : d < i
      · rw [Option.all_some, decide_eq_true hlt, if_pos rfl]
        refine lookup_eq_some.mpr ⟨d, hd, Function.update_self .., fun j hj => ?_⟩
        rw [Function.update_of_ne hj.ne]
        exact hlow j (hj.trans hlt)
      · rw [Option.all_some, decide_eq_false hlt, if_neg Bool.false_ne_true,
          lookup_eq_some.mpr ⟨i, hi, hv, hlow⟩]
        refine lookup_eq_some.mpr ⟨i, hi, ?_, fun j hj => ?_⟩
        · rw [Function.update_of_ne hdi.symm, hv]
        · rw [Function.update_of_ne (by omega)]
          exact hlow j hj

/-- Filling a second slot of a key that another slot already holds: the lower
of the two answers. -/
theorem lookup_fill_twice {e d : ℕ} {k : K} {old new : V} (hd : d < n)
    (hfree : s d = .free) (he : s e = .live k old) (hen : e < n)
    (hlow : ∀ j < e, (s j).holds k = false) :
    lookup n (Function.update s d (.live k new)) k = some (if d < e then new else old) := by
  have hfirst : first n (fun i => (s i).holds k) = some e :=
    first_eq_some.mpr ⟨hen, by rw [he, holds_live, decide_eq_true rfl], hlow⟩
  rw [lookup_fill_lowest hd hfree, hfirst, lookup_eq_some.mpr ⟨e, hen, he, hlow⟩, Option.all_some]
  by_cases hlt : d < e <;> simp [hlt]

end Steps

/-- Some dead slots have become free; every other slot is as it was. -/
def Reclaimed (n : ℕ) (s t : Slots K V) : Prop :=
  ∀ i < n, t i = s i ∨ (s i = .dead ∧ t i = .free)

namespace Reclaimed
variable {n : ℕ} {s t u : Slots K V}

omit [DecidableEq K] in
theorem refl : Reclaimed n s s := fun _ _ => .inl rfl

omit [DecidableEq K] in
theorem trans (h : Reclaimed n s t) (k : Reclaimed n t u) : Reclaimed n s u := by
  intro i hi
  rcases k i hi with hu | ⟨ht, hu⟩
  · rw [hu]
    exact h i hi
  · rcases h i hi with hs | ⟨-, hf⟩
    · exact .inr ⟨hs ▸ ht, hu⟩
    · rw [hf] at ht
      cases ht

theorem holds (h : Reclaimed n s t) {i : ℕ} (hi : i < n) (k : K) :
    (t i).holds k = (s i).holds k := by
  rcases h i hi with hs | ⟨hd, hf⟩
  · rw [hs]
  · rw [hd, hf, holds_free, holds_dead]

theorem lookup (h : Reclaimed n s t) : SlotStore.lookup n t = SlotStore.lookup n s := by
  funext k
  apply lookup_congr
  intro i hi hk
  rcases h i hi with hs | ⟨hd, hf⟩
  · exact hs
  · rw [hd, hf] at hk
    simp at hk

theorem first (h : Reclaimed n s t) (k : K) :
    SlotStore.first n (fun i => (t i).holds k) = SlotStore.first n fun i => (s i).holds k :=
  first_congr fun _ hi => h.holds hi k

theorem next (h : Reclaimed n s t) (k : K) : SlotStore.next n t k = SlotStore.next n s k := by
  rw [SlotStore.next, SlotStore.next, h.first k]
  cases SlotStore.first n fun i => (s i).holds k with
  | none => rfl
  | some e => exact first_congr fun i hi => by rw [h.holds hi k]

theorem unique (h : Reclaimed n s t) (hu : Unique n s) : Unique n t := by
  intro k i hi j hj hki hkj
  rw [h.holds hi] at hki
  rw [h.holds hj] at hkj
  exact hu k i hi j hj hki hkj

end Reclaimed

end SlotStore
