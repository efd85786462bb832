import PicoSomfy.BlockSlots

/-!
# What the storage operations do to the slots

One specification for each operation of one-page storage, for every outcome of
every flash call. A refused call leaves the image as it was; nothing else depends
on the outcomes. Callers use these statements and never unfold the operations.
-/
namespace PicoSomfy.BlockStorage

open NorFlash SlotStore

variable {bs : BlockStorage}

/-- The effect of a flash call on the slots, given by what it does when it runs. -/
theorem execute_slots (c : Chip) (cb : List Command) :
    (c.verdict c.calls = true ∧ (c.flashSafeExecute cb).2.image = applyAll cb c.image) ∨
      (c.verdict c.calls = false ∧ (c.flashSafeExecute cb).2.image = c.image) := by
  rw [flashSafeExecute_image]
  cases c.verdict c.calls <;> simp

theorem slotAt_kill (m : Image) (i : ℕ) :
    bs.slotAt ((Command.program (bs.page i) (List.replicate flashPageSize 0)).apply m) =
      Function.update (bs.slotAt m) i .dead := by
  funext j
  by_cases hij : j = i
  · subst hij
    rw [Function.update_self, slotAt_program_zeros]
  · rw [Function.update_of_ne hij, slotAt_program_other (List.length_replicate ..) hij]

theorem deletePage_slots (c : Chip) (i : ℕ) :
    bs.slotAt (bs.deletePage c (bs.page i)).image =
      if c.verdict c.calls then Function.update (bs.slotAt c.image) i .dead
      else bs.slotAt c.image := by
  unfold deletePage
  rcases execute_slots c [.program (bs.page i) (List.replicate flashPageSize 0)] with
    ⟨hv, hi⟩ | ⟨hv, hi⟩
  · rw [hi, hv]
    exact slotAt_kill c.image i
  · rw [hi, hv]
    rfl

theorem deletePage_clean {c : Chip} (hc : bs.Clean c.image) (i : ℕ) :
    bs.Clean (bs.deletePage c (bs.page i)).image := by
  unfold deletePage
  rcases execute_slots c [.program (bs.page i) (List.replicate flashPageSize 0)] with
    ⟨-, hi⟩ | ⟨-, hi⟩
  · rw [hi]
    refine hc.program (List.length_replicate ..) ?_
    simp [slotAt_program_zeros]
  · rwa [hi]

/-- `ClearBlock`, with the lowest slot of the id when there is one. -/
theorem clearBlock_cases (h : bs.blockPages = 1) (c : Chip) {blockId : UInt32}
    (hv : ValidId blockId) :
    (bs.clearBlock c blockId = c ∧ ∀ i < bs.slots, (bs.slotAt c.image i).holds blockId = false) ∨
      ∃ e < bs.slots, (bs.slotAt c.image e).holds blockId = true ∧
        (∀ j < e, (bs.slotAt c.image j).holds blockId = false) ∧
        bs.clearBlock c blockId = bs.deletePage c (bs.page e) := by
  unfold clearBlock
  cases hf : bs.findBlock c.image blockId with
  | none =>
      refine .inl ⟨rfl, fun i hi => ?_⟩
      rw [slotAt_holds hv, decide_eq_false_iff_not]
      exact (findBlock_none h).mp hf i hi
  | some a =>
      obtain ⟨e, he, rfl, hw, hlow⟩ := findBlock_some h hf
      refine .inr ⟨e, he, ?_, fun j hj => ?_, rfl⟩
      · rw [slotAt_holds hv, hw, decide_eq_true_eq]
      · rw [slotAt_holds hv, decide_eq_false_iff_not]
        exact hlow j hj

theorem deletePage_follows (c : Chip) (a : ℕ) : c.Follows (bs.deletePage c a) :=
  c.follows_execute _

theorem clearBlock_follows (c : Chip) (blockId : UInt32) :
    c.Follows (bs.clearBlock c blockId) := by
  unfold clearBlock
  split
  · exact deletePage_follows c _
  · exact .refl c

theorem clearBlock_clean (h : bs.blockPages = 1) {c : Chip} {blockId : UInt32}
    (hv : ValidId blockId) (hc : bs.Clean c.image) : bs.Clean (bs.clearBlock c blockId).image := by
  rcases clearBlock_cases h c hv with ⟨he, -⟩ | ⟨e, -, -, -, he⟩
  · rwa [he]
  · rw [he]
    exact deletePage_clean hc e

/-- Programming the page of a free slot, the last step of `SaveBlock`. -/
theorem program_slots {c : Chip} {d : ℕ} {blockId : UInt32} {data : List UInt8}
    (hv : ValidId blockId) (hd : data.length ≤ flashPageSize - 4) (hc : bs.Clean c.image)
    (hn : d < bs.slots) (hfree : bs.slotAt c.image d = .free) :
    bs.slotAt (c.flashSafeExecute [.program (bs.page d) (pageBytes blockId data)]).2.image =
      if c.verdict c.calls then
        Function.update (bs.slotAt c.image) d (.live blockId (padded data))
      else bs.slotAt c.image := by
  rcases execute_slots c [.program (bs.page d) (pageBytes blockId data)] with ⟨ho, hi⟩ | ⟨ho, hi⟩
  · rw [hi, ho]
    funext j
    by_cases hjd : j = d
    · subst hjd
      rw [if_pos rfl, Function.update_self]
      exact slotAt_program_free hv hd (hc j hn hfree)
    · rw [if_pos rfl, Function.update_of_ne hjd]
      exact slotAt_program_other (length_pageBytes hd) hjd c.image
  · rw [hi, ho]
    rfl

theorem program_clean {c : Chip} {d : ℕ} {blockId : UInt32} {data : List UInt8}
    (hv : ValidId blockId) (hd : data.length ≤ flashPageSize - 4) (hc : bs.Clean c.image)
    (hn : d < bs.slots) (hfree : bs.slotAt c.image d = .free) :
    bs.Clean (c.flashSafeExecute [.program (bs.page d) (pageBytes blockId data)]).2.image := by
  rcases execute_slots c [.program (bs.page d) (pageBytes blockId data)] with ⟨-, hi⟩ | ⟨-, hi⟩
  · rw [hi]
    refine hc.program (length_pageBytes hd) ?_
    simp [slotAt_program_free hv hd (hc d hn hfree)]
  · rwa [hi]

theorem slotAt_erase_in {m : Image} {a n j : ℕ} (hj : a * 16 ≤ j ∧ j < (a + n) * 16) {k : ℕ}
    (hk : k < flashPageSize) :
    (Command.erase (bs.base + a * flashSectorSize) (n * flashSectorSize)).apply m
      (bs.page j + k) = 0xFF := by
  apply erase_apply
  unfold page flashPageSize flashSectorSize at *
  omega

theorem slotAt_erase_out {m : Image} {a n j : ℕ} (hj : ¬(a * 16 ≤ j ∧ j < (a + n) * 16)) {k : ℕ}
    (hk : k < flashPageSize) :
    (Command.erase (bs.base + a * flashSectorSize) (n * flashSectorSize)).apply m
      (bs.page j + k) = m (bs.page j + k) := by
  apply apply_of_not_covers
  unfold Command.Covers page flashPageSize flashSectorSize at *
  omega

theorem slotAt_erase (m : Image) (a n j : ℕ) :
    bs.slotAt ((Command.erase (bs.base + a * flashSectorSize) (n * flashSectorSize)).apply m) j =
      if a * 16 ≤ j ∧ j < (a + n) * 16 then .free else bs.slotAt m j := by
  split_ifs with hj
  · rw [slotAt_free]
    exact word32_erased fun k hk => slotAt_erase_in hj (by unfold flashPageSize; omega)
  · exact slotAt_congr fun k hk => slotAt_erase_out hj hk

theorem formatSectors_slots (c : Chip) (a n j : ℕ) :
    bs.slotAt (bs.formatSectors c a n).image j =
      if c.verdict c.calls = true ∧ a * 16 ≤ j ∧ j < (a + n) * 16 then .free
      else bs.slotAt c.image j := by
  unfold formatSectors
  rcases execute_slots c [.erase (bs.base + a * flashSectorSize) (n * flashSectorSize)] with
    ⟨ho, hi⟩ | ⟨ho, hi⟩
  · rw [hi, ho]
    simp only [true_and]
    exact slotAt_erase c.image a n j
  · rw [hi, ho]
    simp

theorem formatSectors_clean {c : Chip} (hc : bs.Clean c.image) (a n : ℕ) :
    bs.Clean (bs.formatSectors c a n).image := by
  unfold formatSectors
  rcases execute_slots c [.erase (bs.base + a * flashSectorSize) (n * flashSectorSize)] with
    ⟨-, hi⟩ | ⟨-, hi⟩
  · rw [hi]
    intro j hj hfree k hk
    by_cases hr : a * 16 ≤ j ∧ j < (a + n) * 16
    · exact slotAt_erase_in hr hk
    · rw [show applyAll [.erase (bs.base + a * flashSectorSize) (n * flashSectorSize)] c.image =
        (Command.erase (bs.base + a * flashSectorSize) (n * flashSectorSize)).apply c.image from rfl]
        at hfree ⊢
      rw [slotAt_erase, if_neg hr] at hfree
      rw [slotAt_erase_out hr hk]
      exact hc j hj hfree k hk
  · rwa [hi]

theorem formatSectors_follows (c : Chip) (a n : ℕ) : c.Follows (bs.formatSectors c a n) :=
  c.follows_execute _

/-- Erasing sectors whose slots are all dead only reclaims dead slots. -/
theorem formatSectors_reclaims {c : Chip} {a n : ℕ}
    (hdead : ∀ i < bs.slots, a * 16 ≤ i → i < (a + n) * 16 → bs.slotAt c.image i = .dead) :
    Reclaimed bs.slots (bs.slotAt c.image) (bs.slotAt (bs.formatSectors c a n).image) := by
  intro i hi
  rw [formatSectors_slots]
  split_ifs with hr
  · exact .inr ⟨hdead i hi hr.2.1 hr.2.2, rfl⟩
  · exact .inl rfl

/-- What holds of the scan after `k` blocks: from its running sector on nothing
has changed yet, and every block already passed there was dead. -/
structure Scan (bs : BlockStorage) (c₀ : Chip) (k : ℕ) (st : Chip × ℕ) : Prop where
  follows : c₀.Follows st.1
  clean : bs.Clean st.1.image
  reclaimed : Reclaimed bs.slots (bs.slotAt c₀.image) (bs.slotAt st.1.image)
  ahead : ∀ i, st.2 * 16 ≤ i → bs.slotAt st.1.image i = bs.slotAt c₀.image i
  passed : ∀ i < k, st.2 * 16 ≤ i → bs.slotAt c₀.image i = .dead
  start_le : st.2 ≤ (k + 15) / 16

/-- Erasing from the running sector up to a sector the scan has fully passed. -/
theorem Scan.format {c₀ : Chip} {k e : ℕ} {st : Chip × ℕ} (h : bs.Scan c₀ k st)
    (he : e * 16 ≤ k) (hlt : st.2 < e) :
    c₀.Follows (bs.formatSectors st.1 st.2 (e - st.2)) ∧
      bs.Clean (bs.formatSectors st.1 st.2 (e - st.2)).image ∧
      Reclaimed bs.slots (bs.slotAt c₀.image)
        (bs.slotAt (bs.formatSectors st.1 st.2 (e - st.2)).image) := by
  refine ⟨h.follows.trans (formatSectors_follows _ _ _), formatSectors_clean h.clean _ _,
    h.reclaimed.trans (formatSectors_reclaims fun i _ hlo hhi => ?_)⟩
  rw [h.ahead i hlo]
  exact h.passed i (by omega) hlo

theorem Scan.step {c₀ : Chip} {k : ℕ} {st : Chip × ℕ} (h : bs.Scan c₀ k st) :
    bs.Scan c₀ (k + 1) (bs.formatStep st (k * flashPageSize)) := by
  have hsector : k * flashPageSize / flashSectorSize = k / 16 := by
    unfold flashPageSize flashSectorSize
    omega
  have hdiv : k / 16 * 16 ≤ k := Nat.div_mul_le_self k 16
  have hstart := h.start_le
  by_cases hw : word32 st.1.image (bs.base + k * flashPageSize) = blockEmpty
  · -- a deleted block: the run of dead blocks grows
    have heq : bs.formatStep st (k * flashPageSize) = st := if_neg (not_not.mpr hw)
    rw [heq]
    refine ⟨h.follows, h.clean, h.reclaimed, h.ahead, fun i hi hlo => ?_, by omega⟩
    rcases Nat.lt_succ_iff_lt_or_eq.mp hi with hi | rfl
    · exact h.passed i hi hlo
    · rw [← h.ahead i hlo, slotAt_dead]
      exact hw
  · by_cases hlt : st.2 < k / 16
    · -- a block in use closes a run of whole dead sectors
      have heq : bs.formatStep st (k * flashPageSize) =
          (bs.formatSectors st.1 st.2 (k / 16 - st.2), k / 16 + 1) := by
        simp only [formatStep, if_pos hw, hsector, if_pos hlt]
      obtain ⟨hf, hc, hr⟩ := h.format hdiv hlt
      rw [heq]
      refine ⟨hf, hc, hr, fun i hi => ?_, fun i hi hlo => ?_, ?_⟩
      all_goals simp only at *
      · rw [formatSectors_slots, if_neg (by omega)]
        exact h.ahead i (by omega)
      · omega
      · omega
    · have heq : bs.formatStep st (k * flashPageSize) = (st.1, k / 16 + 1) := by
        simp only [formatStep, if_pos hw, hsector, if_neg hlt]
      rw [heq]
      refine ⟨h.follows, h.clean, h.reclaimed, fun i hi => h.ahead i ?_, fun i hi hlo => ?_, ?_⟩
      all_goals simp only at *
      all_goals omega

theorem scan_foldl {c : Chip} (hc : bs.Clean c.image) (k : ℕ) :
    bs.Scan c k (((List.range k).map (· * flashPageSize)).foldl bs.formatStep (c, 0)) := by
  induction k with
  | zero =>
      exact ⟨.refl c, hc, .refl, fun _ _ => rfl, fun i hi => by omega, by simp⟩
  | succ k ih =>
      rw [List.range_succ, List.map_append, List.foldl_append]
      exact ih.step

theorem reclaim_offsets (h : bs.blockPages = 1) :
    strides 0 (bs.sectors * flashSectorSize) (bs.blockPages * flashPageSize) =
      (List.range bs.slots).map (· * flashPageSize) := by
  have hcount : (bs.sectors * 4096 - 0 + 1 * 256 - 1) / (1 * 256) = bs.sectors * 16 := by omega
  unfold strides slots flashSectorSize flashPageSize
  rw [h, hcount]
  exact List.map_congr_left fun i _ => by omega

/-- `FormatEmptySectors` only turns dead slots into free ones. -/
theorem formatEmptySectors_spec (h : bs.blockPages = 1) {c : Chip} (hc : bs.Clean c.image) :
    c.Follows (bs.formatEmptySectors c) ∧ bs.Clean (bs.formatEmptySectors c).image ∧
      Reclaimed bs.slots (bs.slotAt c.image) (bs.slotAt (bs.formatEmptySectors c).image) := by
  have hs := scan_foldl hc bs.slots
  unfold formatEmptySectors
  rw [reclaim_offsets h]
  simp only
  split_ifs with hlt
  · exact hs.format le_rfl hlt
  · exact ⟨hs.follows, hs.clean, hs.reclaimed⟩

/-- Every slot of the sector is dead. -/
def DeadSector (bs : BlockStorage) (m : Image) (sector : ℕ) : Prop :=
  ∀ i, i / 16 = sector → bs.slotAt m i = .dead

/-- With every flash call run, the sectors before the running one are settled:
the dead ones are erased and the others untouched. -/
def Settled (bs : BlockStorage) (c₀ : Chip) (st : Chip × ℕ) : Prop :=
  ∀ i < st.2 * 16,
    (bs.DeadSector c₀.image (i / 16) → bs.slotAt st.1.image i = .free) ∧
    (¬bs.DeadSector c₀.image (i / 16) → bs.slotAt st.1.image i = bs.slotAt c₀.image i)

/-- Erasing up to a sector the scan has fully passed settles the sectors before it. -/
theorem Settled.format {c₀ : Chip} (hok : ∀ i, c₀.verdict i = true) {k e : ℕ} {st : Chip × ℕ}
    (h : bs.Scan c₀ k st) (hs : bs.Settled c₀ st) (he : e * 16 ≤ k) (hlt : st.2 < e) :
    bs.Settled c₀ (bs.formatSectors st.1 st.2 (e - st.2), e) := by
  intro i hi
  simp only at hi ⊢
  rw [formatSectors_slots, h.follows.verdict, hok]
  by_cases hlo : st.2 * 16 ≤ i
  · rw [if_pos ⟨rfl, hlo, by omega⟩]
    refine ⟨fun _ => rfl, fun hnot => absurd (fun j hj => ?_) hnot⟩
    exact h.passed j (by omega) (by omega)
  · rw [if_neg (by omega)]
    exact hs i (by omega)

/-- A sector with a block in use, not reached by the erases, is settled as it is. -/
theorem Settled.skip {c₀ : Chip} {k : ℕ} {c : Chip} (hs : bs.Settled c₀ (c, k / 16))
    (hahead : ∀ i, k / 16 * 16 ≤ i → bs.slotAt c.image i = bs.slotAt c₀.image i)
    (hlive : bs.slotAt c₀.image k ≠ .dead) : bs.Settled c₀ (c, k / 16 + 1) := by
  intro i hi
  simp only at hi ⊢
  by_cases hlo : k / 16 * 16 ≤ i
  · have hsec : i / 16 = k / 16 := by omega
    rw [hsec]
    exact ⟨fun hdead => absurd (hdead k rfl) hlive, fun _ => hahead i hlo⟩
  · exact hs i (by simp only; omega)

theorem Settled.step {c₀ : Chip} (hok : ∀ i, c₀.verdict i = true) {k : ℕ} {st : Chip × ℕ}
    (h : bs.Scan c₀ k st) (hs : bs.Settled c₀ st) :
    bs.Settled c₀ (bs.formatStep st (k * flashPageSize)) := by
  have hsector : k * flashPageSize / flashSectorSize = k / 16 := by
    unfold flashPageSize flashSectorSize
    omega
  have hstart := h.start_le
  by_cases hw : word32 st.1.image (bs.base + k * flashPageSize) = blockEmpty
  · have heq : bs.formatStep st (k * flashPageSize) = st := if_neg (not_not.mpr hw)
    rwa [heq]
  have hlive : st.2 * 16 ≤ k → bs.slotAt c₀.image k ≠ .dead := by
    intro hlo
    rw [← h.ahead k hlo, ne_eq, slotAt_dead]
    exact hw
  by_cases hlt : st.2 < k / 16
  · have heq : bs.formatStep st (k * flashPageSize) =
        (bs.formatSectors st.1 st.2 (k / 16 - st.2), k / 16 + 1) := by
      simp only [formatStep, if_pos hw, hsector, if_pos hlt]
    rw [heq]
    refine (Settled.format hok h hs (Nat.div_mul_le_self k 16) hlt).skip (fun i hi => ?_)
      (hlive (by omega))
    rw [formatSectors_slots, if_neg (by omega)]
    exact h.ahead i (by omega)
  · have heq : bs.formatStep st (k * flashPageSize) = (st.1, k / 16 + 1) := by
      simp only [formatStep, if_pos hw, hsector, if_neg hlt]
    rw [heq]
    rcases Nat.lt_or_ge (k / 16) st.2 with hgt | hle
    · have hst : st.2 = k / 16 + 1 := by omega
      rwa [← hst]
    · have hst : st.2 = k / 16 := by omega
      rw [← hst]
      rw [hst] at hlive
      have hs' : bs.Settled c₀ (st.1, k / 16) := by rwa [← hst]
      rw [hst]
      exact hs'.skip (fun i hi => h.ahead i (by omega)) (hlive (Nat.div_mul_le_self k 16))

/-- With every flash call run, `FormatEmptySectors` frees the slots of the dead
sectors and no others. -/
theorem formatEmptySectors_exact (h : bs.blockPages = 1) {c : Chip} (hc : bs.Clean c.image)
    (hok : ∀ i, c.verdict i = true) : bs.Settled c (bs.formatEmptySectors c, bs.sectors) := by
  have hs : ∀ k, bs.Settled c
      (((List.range k).map (· * flashPageSize)).foldl bs.formatStep (c, 0)) := by
    intro k
    induction k with
    | zero =>
        intro i hi
        simp at hi
    | succ k ih =>
        rw [List.range_succ, List.map_append, List.foldl_append]
        exact Settled.step hok (scan_foldl hc k) ih
  have hscan := scan_foldl hc bs.slots
  unfold formatEmptySectors
  rw [reclaim_offsets h]
  simp only
  split_ifs with hlt
  · exact Settled.format hok hscan (hs bs.slots) le_rfl hlt
  · intro i hi
    have hall := hs bs.slots
    exact hall i (by simp only at hi; omega)

/-- The search for a free block, before and after the reclaim. -/
theorem findFree_spec (h : bs.blockPages = 1) {c : Chip} (hc : bs.Clean c.image) :
    c.Follows (bs.findFree c).2 ∧ bs.Clean (bs.findFree c).2.image ∧
      Reclaimed bs.slots (bs.slotAt c.image) (bs.slotAt (bs.findFree c).2.image) ∧
      (bs.findFree c).1 = bs.findBlock (bs.findFree c).2.image blockFree := by
  unfold findFree
  cases hf : bs.findBlock c.image blockFree with
  | some a => exact ⟨.refl c, hc, .refl, hf.symm⟩
  | none =>
      obtain ⟨h₁, h₂, h₃⟩ := formatEmptySectors_spec h hc
      exact ⟨h₁, h₂, h₃, rfl⟩

/-- Everything `SaveBlock` can do: reclaim and find no free slot, or delete the
lowest slot of the id and program a free one. -/
theorem saveBlock_cases (h : bs.blockPages = 1) {c : Chip} (hc : bs.Clean c.image)
    (blockId : UInt32) {data : List UInt8} (h₀ : 0 < data.length)
    (hd : data.length ≤ flashPageSize - 4) :
    ∃ c₁, c.Follows c₁ ∧ bs.Clean c₁.image ∧
      Reclaimed bs.slots (bs.slotAt c.image) (bs.slotAt c₁.image) ∧
      ((bs.saveBlock c blockId data = (false, c₁) ∧
          ∀ i < bs.slots, bs.slotAt c₁.image i ≠ .free) ∨
        ∃ d < bs.slots, bs.slotAt c₁.image d = .free ∧
          bs.saveBlock c blockId data = (bs.clearBlock c₁ blockId).flashSafeExecute
            [.program (bs.page d) (pageBytes blockId data)]) := by
  obtain ⟨hf, hcl, hr, hfree⟩ := findFree_spec h hc
  refine ⟨(bs.findFree c).2, hf, hcl, hr, ?_⟩
  unfold saveBlock
  generalize bs.findFree c = r at *
  obtain ⟨free, c₁⟩ := r
  cases free with
  | none =>
      refine .inl ⟨rfl, fun i hi => ?_⟩
      rw [ne_eq, slotAt_free]
      exact (findBlock_none h).mp hfree.symm i hi
  | some a =>
      obtain ⟨d, hdn, rfl, hw, -⟩ := findBlock_some h hfree.symm
      refine .inr ⟨d, hdn, slotAt_free.mpr hw, ?_⟩
      simp only [pgmCallback_onePage h₀ hd]

/-- Deleting a live slot leaves a free slot free. -/
theorem clearBlock_keeps_free (h : bs.blockPages = 1) {c : Chip} {blockId : UInt32}
    (hv : ValidId blockId) {d : ℕ} (hfree : bs.slotAt c.image d = .free) :
    bs.slotAt (bs.clearBlock c blockId).image d = .free := by
  rcases clearBlock_cases h c hv with ⟨he, -⟩ | ⟨e, -, hk, -, he⟩
  · rwa [he]
  · have hde : d ≠ e := by
      rintro rfl
      rw [hfree] at hk
      cases hk
    rw [he, deletePage_slots]
    split_ifs
    · rwa [Function.update_of_ne hde]
    · exact hfree

theorem saveBlock_clean (h : bs.blockPages = 1) {c : Chip} (hc : bs.Clean c.image)
    {blockId : UInt32} (hv : ValidId blockId) {data : List UInt8} (h₀ : 0 < data.length)
    (hd : data.length ≤ flashPageSize - 4) : bs.Clean (bs.saveBlock c blockId data).2.image := by
  obtain ⟨c₁, -, hc₁, -, ⟨hs, -⟩ | ⟨d, hdn, hfree, hs⟩⟩ := saveBlock_cases h hc blockId h₀ hd
  · rwa [hs]
  · rw [hs]
    exact program_clean hv hd (clearBlock_clean h hv hc₁) hdn (clearBlock_keeps_free h hv hfree)

/-- `Format` erases every slot. -/
theorem format_spec {c : Chip} (hok : c.verdict c.calls = true) :
    bs.Clean (bs.format c).image ∧ ∀ i < bs.slots, bs.slotAt (bs.format c).image i = .free := by
  have hi : (bs.format c).image =
      (Command.erase (bs.base + 0 * flashSectorSize) (bs.sectors * flashSectorSize)).apply
        c.image := by
    rw [format, flashSafeExecute_image, hok, Nat.zero_mul, Nat.add_zero]
    rfl
  have hin : ∀ i < bs.slots, 0 * 16 ≤ i ∧ i < (0 + bs.sectors) * 16 := by
    unfold slots
    omega
  rw [hi]
  exact ⟨fun i hn _ k hk => slotAt_erase_in (hin i hn) hk,
    fun i hn => by rw [slotAt_erase, if_pos (hin i hn)]⟩

/-- A free slot, or a sector that the reclaim frees. -/
def Room (bs : BlockStorage) (m : Image) : Prop :=
  (∃ i < bs.slots, bs.slotAt m i = .free) ∨ ∃ sector < bs.sectors, bs.DeadSector m sector

/-- With every flash call run, `SaveBlock` stores exactly when there is room. -/
theorem saveBlock_stores_iff (h : bs.blockPages = 1) {c : Chip} (hc : bs.Clean c.image)
    (hok : ∀ i, c.verdict i = true) (blockId : UInt32) (data : List UInt8) :
    (bs.saveBlock c blockId data).1 = true ↔ bs.Room c.image := by
  have hstored : (bs.saveBlock c blockId data).1 = true ↔ (bs.findFree c).1.isSome = true := by
    obtain ⟨hf, -⟩ := findFree_spec h hc
    unfold saveBlock
    generalize bs.findFree c = r at *
    obtain ⟨free, c₁⟩ := r
    cases free with
    | none => simp
    | some d =>
        simp only [flashSafeExecute_result, Option.isSome_some, iff_true]
        rw [(clearBlock_follows c₁ blockId).verdict, hf.verdict]
        exact hok _
  have hfree : ∀ c' : Chip, (bs.findBlock c'.image blockFree).isSome = true ↔
      ∃ i < bs.slots, bs.slotAt c'.image i = .free := by
    intro c'
    rw [← not_iff_not, Bool.not_eq_true, Option.isSome_eq_false_iff, Option.isNone_iff_eq_none,
      findBlock_none h]
    simp only [slotAt_free, not_exists, not_and]
  rw [hstored, Room]
  unfold findFree
  cases hb : bs.findBlock c.image blockFree with
  | some d =>
      simp only [Option.isSome_some, true_iff]
      exact .inl ((hfree c).mp (by rw [hb]; rfl))
  | none =>
      have hnone : ¬∃ i < bs.slots, bs.slotAt c.image i = .free := by
        rw [← hfree c, hb]
        simp
      have hset := formatEmptySectors_exact h hc hok
      simp only [hfree, hnone, false_or]
      constructor
      · rintro ⟨i, hi, hifree⟩
        have hi16 : i < bs.sectors * 16 := hi
        refine ⟨i / 16, by omega, ?_⟩
        by_contra hdead
        rw [(hset i hi16).2 hdead] at hifree
        exact hnone ⟨i, hi, hifree⟩
      · rintro ⟨sector, hsec, hdead⟩
        have hin : sector * 16 < bs.sectors * 16 := by omega
        refine ⟨sector * 16, hin, (hset _ hin).1 ?_⟩
        rwa [Nat.mul_div_cancel _ (by decide)]

end PicoSomfy.BlockStorage
