import PicoSomfy.BlockStorage
import PicoSomfy.SlotStore

/-!
# One-page blocks as a slot store

With one page in each block, the shipped geometry, every page of the storage
area reads as a slot: free when its header word is erased, dead when it is zero,
and otherwise live with the header as its key and the rest of the page as its
value. The flash commands of `BlockStorage` then act on slots, one at a time for
a delete or a program and a range of dead ones for a sector erase.

The representation invariant `Clean` says that a free slot is erased in all of
its bytes, not only in its header; it makes a program store what it is given.
-/
namespace PicoSomfy

open NorFlash SlotStore

/-- A chip that follows another in the same run of calls: the outcomes of the
calls are fixed, and their number only grows. -/
structure Chip.Follows (c c' : Chip) : Prop where
  verdict : c'.verdict = c.verdict
  calls : c.calls ≤ c'.calls

theorem Chip.Follows.refl (c : Chip) : c.Follows c := ⟨rfl, le_rfl⟩

theorem Chip.Follows.trans {a b c : Chip} (h : a.Follows b) (k : b.Follows c) : a.Follows c :=
  ⟨k.verdict.trans h.verdict, h.calls.trans k.calls⟩

theorem Chip.follows_execute (c : Chip) (cb : List Command) :
    c.Follows (c.flashSafeExecute cb).2 :=
  ⟨flashSafeExecute_verdict c cb, by simp⟩

/-- The calls that run are those before some call. -/
def Chip.PowerCut (c : Chip) : Prop :=
  ∀ ⦃i j⦄, j ≤ i → c.verdict i = true → c.verdict j = true

/-- The same chip, with power lost at the `k`-th call from now on. -/
def Chip.cut (c : Chip) (k : ℕ) : Chip :=
  { c with verdict := fun i => c.verdict i && decide (i < c.calls + k) }

theorem Chip.powerCut_cut {c : Chip} (hok : ∀ i, c.verdict i = true) (k : ℕ) :
    (c.cut k).PowerCut := by
  intro i j hji hi
  simp only [Chip.cut, hok, Bool.true_and, decide_eq_true_eq] at hi ⊢
  omega

namespace BlockStorage

variable (bs : BlockStorage)

/-- The number of slots: sixteen pages in a sector. -/
def slots : ℕ := bs.sectors * 16

def page (i : ℕ) : ℕ := bs.base + i * flashPageSize

def slotAt (m : Image) (i : ℕ) : Slot UInt32 (List UInt8) :=
  if word32 m (bs.page i) = blockFree then .free
  else if word32 m (bs.page i) = blockEmpty then .dead
  else .live (word32 m (bs.page i)) (bytesAt m (bs.page i + 4) (flashPageSize - 4))

/-- A free slot is erased in all of its bytes. -/
def Clean (m : Image) : Prop :=
  ∀ i < bs.slots, bs.slotAt m i = .free → ∀ k < flashPageSize, m (bs.page i + k) = 0xFF

/-- Ids that are neither of the two header marks. -/
def ValidId (blockId : UInt32) : Prop := blockId ≠ blockEmpty ∧ blockId ≠ blockFree

instance (blockId : UInt32) : Decidable (ValidId blockId) := by
  unfold ValidId
  infer_instance

/-- What `GetBlock` lets its caller read: the bytes behind the header. -/
def contents (m : Image) (blockId : UInt32) : Option (List UInt8) :=
  (bs.getBlock m blockId).map fun p => bytesAt m p (flashPageSize - 4)

variable {bs}

theorem slotAt_free {m : Image} {i : ℕ} :
    bs.slotAt m i = .free ↔ word32 m (bs.page i) = blockFree := by
  unfold slotAt
  split_ifs with h₁ h₂ <;> simp [h₁]

theorem slotAt_dead {m : Image} {i : ℕ} :
    bs.slotAt m i = .dead ↔ word32 m (bs.page i) = blockEmpty := by
  unfold slotAt
  split_ifs with h₁ h₂
  · simp [h₁, blockFree, blockEmpty]
  · simp [h₂]
  · simp [h₂]

theorem slotAt_holds {m : Image} {i : ℕ} {blockId : UInt32} (hv : ValidId blockId) :
    (bs.slotAt m i).holds blockId = decide (word32 m (bs.page i) = blockId) := by
  unfold slotAt
  split_ifs with h₁ h₂
  · simp [h₁, hv.2.symm]
  · simp [h₂, hv.1.symm]
  · simp

theorem slotAt_congr {m m' : Image} {i : ℕ}
    (h : ∀ k < flashPageSize, m (bs.page i + k) = m' (bs.page i + k)) :
    bs.slotAt m i = bs.slotAt m' i := by
  have hw : word32 m (bs.page i) = word32 m' (bs.page i) :=
    word32_congr fun k hk => h k (by unfold flashPageSize; omega)
  have hb : bytesAt m (bs.page i + 4) (flashPageSize - 4) =
      bytesAt m' (bs.page i + 4) (flashPageSize - 4) :=
    bytesAt_congr fun k hk => by
      rw [Nat.add_assoc]
      exact h (4 + k) (by omega)
  unfold slotAt
  rw [hw, hb]

theorem blockOffsets_onePage (h : bs.blockPages = 1) :
    bs.blockOffsets = (List.range bs.slots).map bs.page := by
  have hc : (bs.base + bs.sectors * 4096 + 1 - 1 * 256 - bs.base + 1 * 256 - 1) / (1 * 256) =
      bs.sectors * 16 := by
    rcases Nat.eq_zero_or_pos bs.sectors with hs | hs
    · rw [hs]; omega
    · omega
  unfold blockOffsets strides slots flashSectorSize flashPageSize
  rw [h, hc]
  exact List.map_congr_left fun i _ => by simp only [page, flashPageSize, Nat.one_mul]

/-- `FindBlock` returns the lowest page with the header. -/
theorem findBlock_onePage (h : bs.blockPages = 1) (m : Image) (blockId : UInt32) :
    bs.findBlock m blockId =
      (first bs.slots fun i => word32 m (bs.page i) == blockId).map bs.page := by
  rw [findBlock, blockOffsets_onePage h, List.find?_map]
  rfl

theorem findBlock_some (h : bs.blockPages = 1) {m : Image} {blockId : UInt32} {a : ℕ}
    (hf : bs.findBlock m blockId = some a) :
    ∃ i < bs.slots, a = bs.page i ∧ word32 m (bs.page i) = blockId ∧
      ∀ j < i, word32 m (bs.page j) ≠ blockId := by
  rw [findBlock_onePage h] at hf
  obtain ⟨i, hi, rfl⟩ := Option.map_eq_some_iff.mp hf
  obtain ⟨hn, hp, hlow⟩ := first_eq_some.mp hi
  exact ⟨i, hn, rfl, by simpa using hp, fun j hj => by simpa using hlow j hj⟩

theorem findBlock_none (h : bs.blockPages = 1) {m : Image} {blockId : UInt32} :
    bs.findBlock m blockId = none ↔ ∀ i < bs.slots, word32 m (bs.page i) ≠ blockId := by
  rw [findBlock_onePage h, Option.map_eq_none_iff, first_eq_none]
  simp

/-- `GetBlock` is the lookup of the slot store. -/
theorem contents_eq_lookup (h : bs.blockPages = 1) (m : Image) {blockId : UInt32}
    (hv : ValidId blockId) :
    bs.contents m blockId = lookup bs.slots (bs.slotAt m) blockId := by
  have hp : (first bs.slots fun i => word32 m (bs.page i) == blockId) =
      first bs.slots fun i => (bs.slotAt m i).holds blockId :=
    first_congr fun i _ => by rw [slotAt_holds hv]; rfl
  unfold contents getBlock lookup
  rw [findBlock_onePage h, hp]
  cases hf : first bs.slots fun i => (bs.slotAt m i).holds blockId with
  | none => rfl
  | some i =>
      have hk := (first_eq_some.mp hf).2.1
      rw [slotAt_holds hv, decide_eq_true_eq] at hk
      have hs : bs.slotAt m i = .live blockId (bytesAt m (bs.page i + 4) (flashPageSize - 4)) := by
        unfold slotAt
        rw [hk, if_neg hv.2, if_neg hv.1]
      simp [hs]

/-- The addresses of one page. -/
theorem page_disjoint {i j k : ℕ} (hij : j ≠ i) (hk : k < flashPageSize) :
    ¬(bs.page i ≤ bs.page j + k ∧ bs.page j + k < bs.page i + flashPageSize) := by
  unfold page flashPageSize at *
  omega

/-- Programming one page leaves the other slots alone. -/
theorem slotAt_program_other {i j : ℕ} {bytes : List UInt8} (hl : bytes.length = flashPageSize)
    (hij : j ≠ i) (m : Image) :
    bs.slotAt ((Command.program (bs.page i) bytes).apply m) j = bs.slotAt m j := by
  apply slotAt_congr
  intro k hk
  apply apply_of_not_covers
  simpa only [Command.Covers, hl] using page_disjoint hij hk

/-- The page image that `SaveBlock` programs. -/
def pageBytes (blockId : UInt32) (data : List UInt8) : List UInt8 :=
  encode32 blockId ++ data ++ List.replicate (flashPageSize - 4 - data.length) 0

/-- The stored value: the data, zero padded to the page. -/
def padded (data : List UInt8) : List UInt8 :=
  data ++ List.replicate (flashPageSize - 4 - data.length) 0

theorem length_padded {data : List UInt8} (h : data.length ≤ flashPageSize - 4) :
    (padded data).length = flashPageSize - 4 := by
  simp only [padded, List.length_append, List.length_replicate]
  omega

theorem length_pageBytes {blockId : UInt32} {data : List UInt8}
    (h : data.length ≤ flashPageSize - 4) : (pageBytes blockId data).length = flashPageSize := by
  unfold flashPageSize at *
  simp only [pageBytes, flashPageSize, List.length_append, List.length_replicate,
    length_encode32]
  omega

theorem pageBytes_eq (blockId : UInt32) (data : List UInt8) :
    pageBytes blockId data = encode32 blockId ++ padded data := List.append_assoc ..

theorem writeAt_header (blockId : UInt32) :
    writeAt (List.replicate flashPageSize 0) 0 (encode32 blockId) =
      encode32 blockId ++ List.replicate (flashPageSize - 4) 0 :=
  writeAt_middle [] (List.replicate 4 0) (List.replicate 252 0) (encode32 blockId) rfl

theorem writeAt_data {blockId : UInt32} {data : List UInt8}
    (h : data.length ≤ flashPageSize - 4) :
    writeAt (encode32 blockId ++ List.replicate (flashPageSize - 4) 0) 4 data =
      pageBytes blockId data := by
  have hsplit : List.replicate (flashPageSize - 4) (0 : UInt8) =
      List.replicate data.length 0 ++ List.replicate (flashPageSize - 4 - data.length) 0 := by
    rw [← List.replicate_add, Nat.add_sub_cancel' h]
  rw [hsplit, ← List.append_assoc]
  exact writeAt_middle (encode32 blockId) _ _ _ (by simp)

/-- The final `memset` writes the zeros that are there already. -/
theorem writeAt_zeros {blockId : UInt32} {data : List UInt8}
    (hpos : flashPageSize - 4 - data.length > 0) :
    writeAt (pageBytes blockId data) ((4 + data.length) % 256)
      (List.replicate (flashPageSize - 4 - data.length) 0) = pageBytes blockId data := by
  have hlen : (4 + data.length) % 256 = (encode32 blockId ++ data).length := by
    unfold flashPageSize at hpos
    simp only [List.length_append, length_encode32]
    omega
  rw [hlen, pageBytes]
  simpa only [List.append_nil] using
    writeAt_middle (encode32 blockId ++ data)
      (List.replicate (flashPageSize - 4 - data.length) 0) [] _ rfl

/-- One turn of the loop programs the whole page. -/
theorem pgmCallback_onePage {blockId : UInt32} {offset : ℕ} {data : List UInt8}
    (h₀ : 0 < data.length) (h : data.length ≤ flashPageSize - 4) :
    pgmCallback blockId offset data = [.program offset (pageBytes blockId data)] := by
  obtain ⟨n, hn⟩ : ∃ n, data.length = n + 1 := ⟨data.length - 1, by omega⟩
  have hne : data ≠ [] := by
    rintro rfl
    simp at h₀
  have hrest : ∀ page, pgmLoop n (offset + sizeofPgmData) [] page 0 sizeofPgmData = [] := by
    intro page
    cases n <;> simp [pgmLoop]
  rw [pgmCallback, writeAt_header]
  conv_lhs => rw [hn]
  rw [pgmLoop, if_neg hne, if_neg (by omega)]
  simp only [List.take_length, List.drop_length, hrest, writeAt_data h]
  split_ifs with hpos
  · rw [writeAt_zeros hpos]
  · rfl

/-- Programming a page into a clean free slot makes it live. -/
theorem slotAt_program_free {m : Image} {i : ℕ} {blockId : UInt32} {data : List UInt8}
    (hv : ValidId blockId) (hd : data.length ≤ flashPageSize - 4)
    (he : ∀ k < flashPageSize, m (bs.page i + k) = 0xFF) :
    bs.slotAt ((Command.program (bs.page i) (pageBytes blockId data)).apply m) i =
      .live blockId (padded data) := by
  set m' := (Command.program (bs.page i) (pageBytes blockId data)).apply m with hm'
  have hbyte : ∀ k < flashPageSize, m' (bs.page i + k) = (pageBytes blockId data).getD k 0xFF := by
    intro k hk
    rw [hm', program_erased (by rw [length_pageBytes hd]; omega) (he k hk)]
    simp
  have hword : word32 m' (bs.page i) = blockId := by
    apply word32_of_bytes
    intro k hk
    rw [hbyte k (by unfold flashPageSize; omega), pageBytes_eq]
    simp only [List.getD_eq_getElem?_getD,
      List.getElem?_append_left (show k < (encode32 blockId).length by simpa using hk)]
    rw [List.getElem?_eq_getElem (by simpa using hk)]
    rfl
  have hdata : bytesAt m' (bs.page i + 4) (flashPageSize - 4) = padded data := by
    apply List.ext_getElem? fun k => ?_
    by_cases hk : k < flashPageSize - 4
    · rw [getElem?_bytesAt m' hk, Nat.add_assoc, hbyte (4 + k) (by omega), pageBytes_eq,
        List.getD_eq_getElem?_getD, List.getElem?_append_right (by simp)]
      have hlt : k < (padded data).length := by rwa [length_padded hd]
      simp [List.getElem?_eq_getElem hlt]
    · rw [List.getElem?_eq_none (by simpa using hk),
        List.getElem?_eq_none (by rw [length_padded hd]; omega)]
  unfold slotAt
  rw [hword, hdata, if_neg hv.2, if_neg hv.1]

theorem slotAt_program_zeros (m : Image) (i : ℕ) :
    bs.slotAt ((Command.program (bs.page i) (List.replicate flashPageSize 0)).apply m) i =
      .dead := by
  rw [slotAt_dead]
  exact word32_zero fun k hk => program_zeros (by unfold flashPageSize; omega) m

/-- Changing one slot keeps the invariant when the slot does not end up free. -/
theorem Clean.program {m : Image} {i : ℕ} {bytes : List UInt8} (hc : bs.Clean m)
    (hl : bytes.length = flashPageSize)
    (hnf : bs.slotAt ((Command.program (bs.page i) bytes).apply m) i ≠ .free) :
    bs.Clean ((Command.program (bs.page i) bytes).apply m) := by
  intro j hj hfree k hk
  have hij : j ≠ i := by
    rintro rfl
    exact hnf hfree
  rw [slotAt_program_other hl hij] at hfree
  rw [apply_of_not_covers (by simpa only [Command.Covers, hl] using page_disjoint hij hk)]
  exact hc j hj hfree k hk

end BlockStorage

end PicoSomfy
