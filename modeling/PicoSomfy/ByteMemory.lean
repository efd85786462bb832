import PicoSomfy.NorFlash

/-!
# Buffers in memory

A memory has a byte at every address, so that a program which reads behind what it
was given still reads something. `poke` overwrites a row of bytes, and `HoldsAt` says
that a row of bytes stands at an address. What a datagram is copied into keeps the
old bytes of the stack behind it.
-/
namespace ByteMemory

open NorFlash

/-- The memory with the bytes `bs` written from address `a` on. -/
def poke (m : Image) (a : ℕ) (bs : List UInt8) : Image := fun i =>
  if a ≤ i ∧ i < a + bs.length then bs.getD (i - a) 0 else m i

/-- The bytes `bs` stand at address `a`. -/
structure HoldsAt (m : Image) (a : ℕ) (bs : List UInt8) : Prop where
  getD : ∀ {i}, i < bs.length → m (a + i) = bs.getD i 0

variable {m m' : Image} {a : ℕ} {b : UInt8} {bs cs : List UInt8}

theorem holds_nil (m : Image) (a : ℕ) : HoldsAt m a [] := ⟨fun hi => absurd hi (Nat.not_lt_zero _)⟩

theorem holds_cons : HoldsAt m a (b :: bs) ↔ m a = b ∧ HoldsAt m (a + 1) bs := by
  constructor
  · intro h
    refine ⟨h.getD (i := 0) (Nat.zero_lt_succ _), ⟨fun {i} hi => ?_⟩⟩
    have hnext := h.getD (i := i + 1) (Nat.succ_lt_succ hi)
    rwa [show a + (i + 1) = a + 1 + i by omega] at hnext
  · rintro ⟨hb, hbs⟩
    constructor
    intro i hi
    cases i with
    | zero => exact hb
    | succ i =>
        rw [show a + (i + 1) = a + 1 + i by omega]
        exact hbs.getD (Nat.lt_of_succ_lt_succ hi)

theorem HoldsAt.head (h : HoldsAt m a (b :: bs)) : m a = b := (holds_cons.mp h).1

theorem HoldsAt.tail (h : HoldsAt m a (b :: bs)) : HoldsAt m (a + 1) bs := (holds_cons.mp h).2

theorem HoldsAt.congr (h : HoldsAt m a bs) (hm : ∀ i < bs.length, m' (a + i) = m (a + i)) :
    HoldsAt m' a bs := ⟨fun {i} hi => (hm i hi).trans (h.getD hi)⟩

theorem holds_append : HoldsAt m a (bs ++ cs) ↔ HoldsAt m a bs ∧ HoldsAt m (a + bs.length) cs := by
  induction bs generalizing a with
  | nil => simp [holds_nil]
  | cons b bs ih =>
      rw [List.cons_append, holds_cons, holds_cons, ih, List.length_cons, and_assoc,
        show a + 1 + bs.length = a + (bs.length + 1) by omega]

theorem HoldsAt.append {b : ℕ} (h : HoldsAt m a bs) (h' : HoldsAt m b cs) (hb : b = a + bs.length) :
    HoldsAt m a (bs ++ cs) := holds_append.mpr ⟨h, hb ▸ h'⟩

/-- A row of bytes that stands somewhere is what is read there. -/
theorem HoldsAt.bytesAt (h : HoldsAt m a bs) : bytesAt m a bs.length = bs := by
  apply List.ext_getElem (length_bytesAt m a _)
  intro i hi hi'
  have hread := getElem?_bytesAt m (a := a) hi'
  rw [List.getElem?_eq_getElem hi, h.getD hi', List.getD_eq_getElem _ _ hi'] at hread
  exact Option.some.inj hread

theorem HoldsAt.bytesAt_take (h : HoldsAt m a bs) {n : ℕ} (hn : n ≤ bs.length) :
    NorFlash.bytesAt m a n = bs.take n := by
  have hfront : HoldsAt m a (bs.take n) := by
    rw [← List.take_append_drop n bs] at h
    exact (holds_append.mp h).1
  have hread := hfront.bytesAt
  rwa [List.length_take_of_le hn] at hread

theorem holds_bytesAt (m : Image) (a n : ℕ) : HoldsAt m a (NorFlash.bytesAt m a n) := by
  induction n generalizing a with
  | zero => exact holds_nil m a
  | succ n ih =>
      rw [Nat.add_comm, bytesAt_add]
      exact holds_cons.mpr ⟨rfl, ih (a + 1)⟩

/-- The bytes from an address on, as many as the type says. -/
def vectorAt (m : Image) (a n : ℕ) : Vector UInt8 n := Vector.ofFn fun i => m (a + i)

theorem toList_vectorAt (m : Image) (a n : ℕ) : (vectorAt m a n).toList = NorFlash.bytesAt m a n := by
  apply List.ext_getElem?
  intro i
  by_cases hi : i < n
  · rw [getElem?_bytesAt m hi, List.getElem?_eq_getElem (by simpa using hi), Vector.getElem_toList,
      vectorAt, Vector.getElem_ofFn]
  · rw [List.getElem?_eq_none (by simpa using hi), List.getElem?_eq_none (by simpa using hi)]

theorem holds_vectorAt (m : Image) (a n : ℕ) : HoldsAt m a (vectorAt m a n).toList := by
  rw [toList_vectorAt]
  exact holds_bytesAt m a n

theorem poke_outside {i : ℕ} (h : i < a ∨ a + bs.length ≤ i) : poke m a bs i = m i :=
  if_neg (by omega)

theorem poke_inside {i : ℕ} (h : i < bs.length) : poke m a bs (a + i) = bs.getD i 0 := by
  rw [poke, if_pos (by omega), Nat.add_sub_cancel_left]

theorem holds_poke (m : Image) (a : ℕ) (bs : List UInt8) : HoldsAt (poke m a bs) a bs :=
  ⟨poke_inside⟩

/-- A write elsewhere leaves a row of bytes alone. -/
theorem HoldsAt.poke {b : ℕ} (h : HoldsAt m a bs) (hb : b + cs.length ≤ a ∨ a + bs.length ≤ b) :
    HoldsAt (poke m b cs) a bs :=
  h.congr fun i hi => poke_outside (by omega)

/-- A write of as many bytes replaces a part of a row. -/
theorem HoldsAt.replace {ds : List UInt8} {b : ℕ} (h : HoldsAt m a (bs ++ cs ++ ds))
    (hb : b = a + bs.length) (cs' : List UInt8) (hlen : cs'.length = cs.length) :
    HoldsAt (ByteMemory.poke m b cs') a (bs ++ cs' ++ ds) := by
  subst hb
  rw [List.append_assoc, holds_append, holds_append] at h
  rw [List.append_assoc, holds_append, holds_append]
  refine ⟨h.1.poke (.inr le_rfl), holds_poke .., ?_⟩
  rw [hlen]
  exact h.2.2.poke (.inl (by omega))

theorem HoldsAt.shift (h : HoldsAt m a bs) : HoldsAt (fun i => m (a + i)) 0 bs :=
  ⟨fun hi => by
    rw [Nat.zero_add]
    exact h.getD hi⟩

/-- Two writes in a row are one write. -/
theorem poke_poke (m : Image) (a : ℕ) (bs cs : List UInt8) :
    poke (poke m a bs) (a + bs.length) cs = poke m a (bs ++ cs) := by
  funext i
  by_cases hbs : i < a ∨ a + (bs ++ cs).length ≤ i
  · rw [poke_outside hbs]
    rw [List.length_append] at hbs
    rw [poke_outside (by omega), poke_outside (by omega)]
  · obtain ⟨k, rfl⟩ := Nat.exists_eq_add_of_le (show a ≤ i by omega)
    have hk : k < (bs ++ cs).length := by omega
    rw [poke_inside hk]
    by_cases hfront : k < bs.length
    · rw [poke_outside (by omega), poke_inside hfront, List.getD_append _ _ _ _ hfront]
    · obtain ⟨j, rfl⟩ := Nat.exists_eq_add_of_le (show bs.length ≤ k by omega)
      rw [List.length_append] at hk
      rw [← Nat.add_assoc, poke_inside (by omega), List.getD_append_right _ _ _ _ (by omega),
        Nat.add_sub_cancel_left]

/-- Reading in front of a write reads what was there. -/
theorem bytesAt_poke_of_le {n b : ℕ} (h : a + n ≤ b) :
    NorFlash.bytesAt (poke m b bs) a n = NorFlash.bytesAt m a n :=
  bytesAt_congr fun _ hi => poke_outside (by omega)

end ByteMemory
