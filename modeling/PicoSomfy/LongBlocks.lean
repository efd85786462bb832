import PicoSomfy.MultiPageBlocks

/-!
# Saves of more than one page

With one page in each block the data of a save should end with the page. The loop of
`SaveBlock` goes on with longer data: it programs the rest sixteen bytes behind the
start of the page, over bytes that are stored already and into the next page.

The header and the first bytes of the data survive that. Behind the rest the buffer is
zero up to its sixteenth byte, so for data of at most 260 bytes eight bytes of the block
are cleared. A later save of another id does not repair them.
-/
namespace PicoSomfy.BlockStorage

open NorFlash SlotStore

variable {bs : BlockStorage} {c : Chip} {k k₂ : UInt32} {data : List UInt8}

/-- What the first turn programs: the header and as much of the data as fits. -/
def firstPage (k : UInt32) (data : List UInt8) : List UInt8 :=
  encode32 k ++ data.take (flashPageSize - 4)

/-- What the second turn programs: the rest of the data, zeros up to the sixteenth byte
and what the buffer still holds of the first page. -/
def secondPage (k : UInt32) (data : List UInt8) : List UInt8 :=
  data.drop (flashPageSize - 4) ++
    List.replicate (sizeofPgmData - (data.drop (flashPageSize - 4)).length) 0 ++
    (firstPage k data).drop sizeofPgmData

/-- The data of a save that needs a second turn, and no third one. -/
def TwoTurns (data : List UInt8) : Prop := 252 < data.length ∧ data.length ≤ 260

theorem length_firstPage (h : TwoTurns data) : (firstPage k data).length = flashPageSize := by
  have hlong := h.1
  simp only [firstPage, List.length_append, length_encode32, List.length_take, flashPageSize]
  omega

theorem length_rest (h : TwoTurns data) : (data.drop (flashPageSize - 4)).length ≤ 8 ∧
    0 < (data.drop (flashPageSize - 4)).length := by
  obtain ⟨hlo, hhi⟩ := h
  rw [List.length_drop]
  unfold flashPageSize
  omega

theorem length_secondPage (h : TwoTurns data) : (secondPage k data).length = flashPageSize := by
  have hrest := length_rest h
  have hpage := length_firstPage (k := k) h
  simp only [secondPage, List.length_append, List.length_replicate, List.length_drop, hpage,
    sizeofPgmData, flashPageSize] at hrest ⊢
  omega

theorem pgmCallback_long (h : TwoTurns data) (offset : ℕ) :
    pgmCallback k offset data = [.program offset (firstPage k data),
      .program (offset + sizeofPgmData) (secondPage k data)] := by
  have hlong : data.length > flashPageSize - 4 := h.1
  obtain ⟨n, hn⟩ : ∃ n, data.length = n + 2 :=
    ⟨data.length - 2, by unfold flashPageSize at hlong; omega⟩
  obtain ⟨hshort, hpos⟩ := length_rest h
  set rest := data.drop (flashPageSize - 4) with hrest
  have hne : data ≠ [] := List.ne_nil_of_length_pos (by omega)
  have hmore : rest ≠ [] := List.ne_nil_of_length_pos hpos
  have htake : (data.take (flashPageSize - 4)).length = flashPageSize - 4 := by
    rw [List.length_take, min_eq_left hlong.le]
  have hfirst : writeAt (encode32 k ++ List.replicate (flashPageSize - 4) 0) 4
      (data.take (flashPageSize - 4)) = firstPage k data := by
    rw [writeAt_data htake.le, pageBytes, htake, Nat.sub_self, List.replicate_zero,
      List.append_nil, firstPage]
  have hend : ∀ page off, pgmLoop n off [] page 0 sizeofPgmData = [] := by
    intro page off
    cases n <;> simp [pgmLoop]
  -- the second turn writes the rest over the start of the buffer, then the zeros
  have hpage := length_firstPage (k := k) h
  have hcopied : writeAt (firstPage k data) 0 rest =
      rest ++ (firstPage k data).drop rest.length := by simp [writeAt]
  have hzeros : writeAt (rest ++ (firstPage k data).drop rest.length) rest.length
      (List.replicate (sizeofPgmData - rest.length) 0) = secondPage k data := by
    have hsum : sizeofPgmData - rest.length + rest.length = sizeofPgmData := by
      unfold sizeofPgmData
      omega
    rw [writeAt, List.take_left, List.length_replicate, Nat.add_comm rest.length, hsum,
      List.drop_append, List.drop_eq_nil_of_le (by unfold sizeofPgmData; omega), List.nil_append,
      List.drop_drop, secondPage, ← hrest]
    congr 2
    unfold sizeofPgmData
    omega
  rw [pgmCallback, writeAt_header, hn, pgmLoop, if_neg hne]
  simp only [if_pos hlong, hfirst, Nat.sub_self, gt_iff_lt, lt_irrefl, if_false]
  rw [pgmLoop, ← hrest, if_neg hmore]
  have hfits : ¬rest.length > sizeofPgmData := by
    unfold sizeofPgmData
    omega
  have hgap : sizeofPgmData - rest.length > 0 := by
    unfold sizeofPgmData
    omega
  simp only [if_neg hfits, List.take_length, List.drop_length, hend, hcopied, if_pos hgap,
    Nat.zero_add, Nat.mod_eq_of_lt (show rest.length < 256 by omega), hzeros]

theorem and_full (x : UInt8) : x &&& 0xFF = x := by rw [UInt8.and_comm, and_erased]

/-- Programming from an address on: bytes behind the end of the data stay. -/
theorem program_from {offset a : ℕ} (h : offset ≤ a) (bytes : List UInt8) (m : Image) :
    (Command.program offset bytes).apply m a = m a &&& bytes.getD (a - offset) 0xFF := by
  by_cases hin : a < offset + bytes.length
  · exact if_pos ⟨h, hin⟩
  · have hout : ¬(Command.program offset bytes).Covers a := fun hc => hin hc.2
    rw [apply_of_not_covers hout, List.getD_eq_default _ _ (by omega), and_full]

theorem getD_firstPage {i : ℕ} (hi : i < 252) :
    (firstPage k data).getD (4 + i) 0xFF = data.getD i 0xFF := by
  simp only [firstPage, flashPageSize, List.getD_eq_getElem?_getD]
  rw [List.getElem?_append_right (by simp), length_encode32, Nat.add_sub_cancel_left,
    List.getElem?_take_of_lt hi]

theorem getD_header {i : ℕ} (hi : i < 4) :
    (firstPage k data).getD i 0xFF = (encode32 k).getD i 0 := by
  have hin : i < (encode32 k).length := by rwa [length_encode32]
  simp only [firstPage, List.getD_eq_getElem?_getD]
  rw [List.getElem?_append_left hin, List.getElem?_eq_getElem hin, Option.getD_some,
    Option.getD_some]

/-- A word is decoded from its four bytes. -/
theorem word32_of_getD {m : Image} {a : ℕ} {bytes : List UInt8}
    (hb : ∀ i < 4, m (a + i) = bytes.getD i 0) : word32 m a = decode32 bytes := by
  have hget : ∀ i < 4, (bytesAt m a 4).getD i 0 = bytes.getD i 0 := fun i hi => by
    rw [List.getD_eq_getElem?_getD, getElem?_bytesAt m hi, Option.getD_some, hb i hi]
  simp only [word32, decode32, hget 0 (by decide), hget 1 (by decide), hget 2 (by decide),
    hget 3 (by decide)]

/-- The first word of a value. -/
theorem decode32_bytesAt (m : Image) (a : ℕ) :
    decode32 (bytesAt m a (flashPageSize - 4)) = word32 m a := by
  refine (word32_of_getD fun i hi => ?_).symm
  rw [List.getD_eq_getElem?_getD, getElem?_bytesAt m (by unfold flashPageSize; omega),
    Option.getD_some]

/-- A free header is four erased bytes. -/
theorem bytes_of_blockFree {m : Image} {a : ℕ} (h : word32 m a = blockFree) :
    ∀ i < 4, m (a + i) = 0xFF := by
  have hsum := congrArg UInt32.toNat h
  simp only [word32, decode32, bytesAt, blockFree] at hsum
  simp at hsum
  have hb : ∀ j, (m j).toNat < 256 := fun j => (m j).toNat_lt
  have h₀ := hb a
  have h₁ := hb (a + 1)
  have h₂ := hb (a + 2)
  have h₃ := hb (a + 3)
  intro i hi
  rw [← UInt8.toNat_inj, show (0xFF : UInt8).toNat = 255 from rfl]
  interval_cases i
  · rw [Nat.add_zero]
    omega
  all_goals omega

section Programs
variable (h : TwoTurns data) {m : Image} {d : ℕ}
include h

theorem getD_secondPage_zero {i : ℕ} (hlo : 8 ≤ i) (hhi : i < 16) :
    (secondPage k data).getD i 0xFF = 0 := by
  obtain ⟨hshort, -⟩ := length_rest h
  simp only [secondPage, List.getD_eq_getElem?_getD, sizeofPgmData]
  rw [List.getElem?_append_left (by
      rw [List.length_append, List.length_replicate]
      omega),
    List.getElem?_append_right (by omega), List.getElem?_replicate, if_pos (by omega)]
  rfl

theorem getD_secondPage_old {i : ℕ} (hi : 16 ≤ i) :
    (secondPage k data).getD i 0xFF = (firstPage k data).getD i 0xFF := by
  obtain ⟨hshort, -⟩ := length_rest h
  have hlen : (data.drop (flashPageSize - 4) ++
      List.replicate (16 - (data.drop (flashPageSize - 4)).length) (0 : UInt8)).length = 16 := by
    rw [List.length_append, List.length_replicate]
    omega
  simp only [secondPage, List.getD_eq_getElem?_getD, sizeofPgmData]
  rw [List.getElem?_append_right (by rw [hlen]; exact hi), hlen, List.getElem?_drop,
    Nat.add_sub_cancel' hi]

theorem image_before {offset a : ℕ} (ha : a < offset) :
    applyAll (pgmCallback k offset data) m a = m a := by
  rw [pgmCallback_long h]
  have hout : ∀ off ≥ offset, ∀ bytes, ¬(Command.program off bytes).Covers a :=
    fun off hoff bytes hc => absurd hc.1 (by omega)
  exact (apply_of_not_covers (hout _ (Nat.le_add_right _ _) _) _).trans
    (apply_of_not_covers (hout _ le_rfl _) _)

theorem image_start {offset i : ℕ} (hi : i < 16) :
    applyAll (pgmCallback k offset data) m (offset + i) =
      m (offset + i) &&& (firstPage k data).getD i 0xFF := by
  rw [pgmCallback_long h]
  have hout : ¬(Command.program (offset + sizeofPgmData) (secondPage k data)).Covers (offset + i) :=
    fun hc => absurd hc.1 (by unfold sizeofPgmData; omega)
  refine (apply_of_not_covers hout _).trans ?_
  rw [program_from (Nat.le_add_right _ _), Nat.add_sub_cancel_left]

theorem image_behind {offset i : ℕ} :
    applyAll (pgmCallback k offset data) m (offset + (16 + i)) =
      m (offset + (16 + i)) &&& (firstPage k data).getD (16 + i) 0xFF &&&
        (secondPage k data).getD i 0xFF := by
  rw [pgmCallback_long h]
  simp only [applyAll, List.foldl_cons, List.foldl_nil]
  rw [program_from (by unfold sizeofPgmData; omega), program_from (by omega)]
  congr 2
  · rw [Nat.add_sub_cancel_left]
  · unfold sizeofPgmData
    omega

/-- The first sixteen bytes of the next page. -/
theorem image_next {i : ℕ} (hi : i < 16) :
    applyAll (pgmCallback k (bs.page d) data) m (bs.page (d + 1) + i) =
      m (bs.page (d + 1) + i) &&& data.getD (236 + i) 0xFF := by
  have haddr : bs.page (d + 1) + i = bs.page d + (16 + (240 + i)) := by
    unfold page flashPageSize
    omega
  have hpast : (firstPage k data).getD (16 + (240 + i)) 0xFF = 0xFF :=
    List.getD_eq_default _ _ (by rw [length_firstPage h]; unfold flashPageSize; omega)
  rw [haddr, image_behind h, hpast, and_full, getD_secondPage_old h (by omega),
    show 240 + i = 4 + (236 + i) by omega, getD_firstPage (by omega)]

/-- Behind the second program nothing changes. -/
theorem image_after {i : ℕ} (hi : 272 ≤ i) :
    applyAll (pgmCallback k (bs.page d) data) m (bs.page d + i) = m (bs.page d + i) := by
  obtain ⟨j, rfl⟩ : ∃ j, i = 16 + j := ⟨i - 16, by omega⟩
  rw [image_behind h, List.getD_eq_default _ _ (by
      rw [length_firstPage h]
      unfold flashPageSize
      omega), List.getD_eq_default _ _ (by
      rw [length_secondPage h]
      unfold flashPageSize
      omega), and_full, and_full]

/-- Pages other than the one programmed and the next. -/
theorem image_other {i j : ℕ} (hi : i < flashPageSize) (hj : j ≠ d) (hnext : j ≠ d + 1) :
    applyAll (pgmCallback k (bs.page d) data) m (bs.page j + i) = m (bs.page j + i) := by
  rcases Nat.lt_or_gt_of_ne hj with hlt | hgt
  · refine image_before h ?_
    unfold page flashPageSize at *
    omega
  · obtain ⟨t, ht⟩ : ∃ t, bs.page j + i = bs.page d + t := Nat.exists_eq_add_of_le (by
      unfold page flashPageSize
      omega)
    rw [ht]
    refine image_after h ?_
    unfold page flashPageSize at *
    omega

theorem slotAt_long_other {j : ℕ} (hj : j ≠ d) (hnext : j ≠ d + 1) :
    bs.slotAt (applyAll (pgmCallback k (bs.page d) data) m) j = bs.slotAt m j :=
  slotAt_congr fun _ hi => image_other h hi hj hnext

/-- The programmed slot has the id and the first word of the data, and eight of its bytes
are cleared. -/
theorem slotAt_long (hk : ValidId k) (he : ∀ i < flashPageSize, m (bs.page d + i) = 0xFF) :
    ∃ v, bs.slotAt (applyAll (pgmCallback k (bs.page d) data) m) d = .live k v ∧
      decode32 v = decode32 data ∧ ∀ i < 8, v[20 + i]? = some 0 := by
  set m' := applyAll (pgmCallback k (bs.page d) data) m with hm'
  have hstart : ∀ i < 16, m' (bs.page d + i) = (firstPage k data).getD i 0xFF := by
    intro i hi
    rw [hm', image_start h hi, he i (by unfold flashPageSize; omega), and_erased]
  have hword : word32 m' (bs.page d) = k :=
    word32_of_bytes fun i hi => by rw [hstart i (by omega), getD_header hi]
  have hslot : bs.slotAt m' d = .live k (bytesAt m' (bs.page d + 4) (flashPageSize - 4)) := by
    unfold slotAt
    rw [hword, if_neg hk.2, if_neg hk.1]
  refine ⟨_, hslot, ?_, fun i hi => ?_⟩
  · have hlong := h.1
    rw [decode32_bytesAt]
    refine word32_of_getD fun i hi => ?_
    rw [Nat.add_assoc, hstart _ (by omega), getD_firstPage (by omega),
      List.getD_eq_getElem _ _ (by omega), List.getD_eq_getElem _ _ (by omega)]
  · rw [getElem?_bytesAt _ (by unfold flashPageSize; omega), hm',
      show bs.page d + 4 + (20 + i) = bs.page d + (16 + (8 + i)) by omega, image_behind h,
      getD_secondPage_zero h (by omega) (by omega), UInt8.and_zero]

/-- The first words of the next page, where it was erased. -/
theorem word32_next (he : ∀ i < flashPageSize, m (bs.page (d + 1) + i) = 0xFF) :
    word32 (applyAll (pgmCallback k (bs.page d) data) m) (bs.page (d + 1)) =
        decode32 (data.drop 236) ∧
      word32 (applyAll (pgmCallback k (bs.page d) data) m) (bs.page (d + 1) + 4) =
        decode32 (data.drop 240) := by
  have hlong := h.1
  have hbyte : ∀ i < 16, applyAll (pgmCallback k (bs.page d) data) m (bs.page (d + 1) + i) =
      data.getD (236 + i) 0 := by
    intro i hi
    rw [image_next h hi, he i (by unfold flashPageSize; omega), and_erased,
      List.getD_eq_getElem _ _ (by omega), List.getD_eq_getElem _ _ (by omega)]
  constructor
  · refine word32_of_getD fun i hi => ?_
    rw [hbyte i (by omega), List.getD_eq_getElem?_getD, List.getD_eq_getElem?_getD,
      List.getElem?_drop]
  · refine word32_of_getD fun i hi => ?_
    rw [Nat.add_assoc, hbyte (4 + i) (by omega), List.getD_eq_getElem?_getD,
      List.getD_eq_getElem?_getD, List.getElem?_drop, ← Nat.add_assoc]

end Programs

/-- What `SaveBlock` has found when it starts to program: the lowest free slot `d`. When
that slot had to be reclaimed, so was its whole sector. -/
structure Finds (bs : BlockStorage) (c c₁ : Chip) (d : ℕ) : Prop where
  follows : c.Follows c₁
  clean : bs.Clean c₁.image
  reclaimed : Reclaimed bs.slots (bs.slotAt c.image) (bs.slotAt c₁.image)
  lt : d < bs.slots
  free : bs.slotAt c₁.image d = .free
  lowest : ∀ j < d, bs.slotAt c₁.image j ≠ .free
  sector : bs.slotAt c.image d ≠ .free → ∀ j, j / 16 = d / 16 → bs.slotAt c₁.image j = .free

theorem findFree_full (h : bs.blockPages = 1) (hc : bs.Clean c.image)
    (hok : ∀ i, c.verdict i = true) (hroom : ¬bs.Room c.image) : (bs.findFree c).1 = none := by
  cases hfree : (bs.findFree c).1 with
  | none => rfl
  | some a =>
      refine absurd ((saveBlock_stores_iff h hc hok 0 []).mp ?_) hroom
      unfold BlockStorage.saveBlock
      rw [show bs.findFree c = (some a, (bs.findFree c).2) from Prod.ext hfree rfl]
      simp only [flashSafeExecute_result]
      rw [(clearBlock_follows _ _).verdict, (findFree_spec h hc).1.verdict]
      exact hok _

theorem saveBlock_room (h : bs.blockPages = 1) (hc : bs.Clean c.image)
    (hok : ∀ i, c.verdict i = true) (hroom : bs.Room c.image) :
    ∃ c₁ d, bs.Finds c c₁ d ∧ ∀ k data, bs.saveBlock c k data =
      (bs.clearBlock c₁ k).flashSafeExecute (pgmCallback k (bs.page d) data) := by
  have hstores := (saveBlock_stores_iff h hc hok 0 []).mpr hroom
  obtain ⟨hf, hcl, hr, hfind⟩ := findFree_spec h hc
  cases hfree : (bs.findFree c).1 with
  | none =>
      rw [saveBlock_of_full hfree] at hstores
      cases hstores
  | some a =>
      rw [hfree] at hfind
      obtain ⟨d, hd, rfl, hw, hlow⟩ := findBlock_some h hfind.symm
      refine ⟨(bs.findFree c).2, d, ⟨hf, hcl, hr, hd, slotAt_free.mpr hw, fun j hj hj' =>
        hlow j hj (slotAt_free.mp hj'), fun hold j hj => ?_⟩, ?_⟩
      · -- the slot was not free before, so the search reclaimed
        have hset := formatEmptySectors_exact h hc hok
        unfold findFree at hw ⊢
        cases hfirst : bs.findBlock c.image blockFree with
        | some b =>
            simp only [hfirst] at hw
            exact absurd (slotAt_free.mpr hw) hold
        | none =>
            simp only [hfirst] at hw ⊢
            have hdead : bs.DeadSector c.image (d / 16) := by
              by_contra hnot
              rw [← slotAt_free, (hset d hd).2 hnot] at hw
              exact hold hw
            have hj' : j < bs.sectors * 16 := by
              have hd' : d < bs.sectors * 16 := hd
              omega
            exact (hset j hj').1 (hj ▸ hdead)
      · intro k data
        unfold BlockStorage.saveBlock
        rw [show bs.findFree c = (some (bs.page d), (bs.findFree c).2) from Prod.ext hfree rfl]

/-- The first slot of a reclaimed sector is the lowest, so the next slot is free too. -/
theorem Finds.next {c₁ : Chip} {d : ℕ} (hf : bs.Finds c c₁ d)
    (hold : bs.slotAt c.image d ≠ .free) : bs.slotAt c₁.image (d + 1) = .free := by
  have hfirst : ¬d / 16 * 16 < d := fun hlt =>
    hf.lowest _ hlt (hf.sector hold _ (Nat.mul_div_cancel _ (by decide)))
  exact hf.sector hold _ (by omega)

/-- Clearing an id leaves a slot or kills it. -/
theorem clearBlock_slot (h : bs.blockPages = 1) (hk : ValidId k) (hok : ∀ i, c.verdict i = true)
    (i : ℕ) : bs.slotAt (bs.clearBlock c k).image i = bs.slotAt c.image i ∨
      (bs.slotAt c.image i).holds k = true ∧ bs.slotAt (bs.clearBlock c k).image i = .dead := by
  rcases clearBlock_cases h c hk with ⟨he, -⟩ | ⟨e, -, hh, -, he⟩
  · rw [he]
    exact .inl rfl
  · rw [he, deletePage_slots, if_pos (hok _)]
    by_cases hie : i = e
    · rw [hie, Function.update_self]
      exact .inr ⟨hh, rfl⟩
    · rw [Function.update_of_ne hie]
      exact .inl rfl

theorem room_congr {m m' : Image}
    (hfree : ∀ i < bs.slots, bs.slotAt m i = .free ↔ bs.slotAt m' i = .free)
    (hdead : ∀ i < bs.slots, bs.slotAt m i = .dead ↔ bs.slotAt m' i = .dead) :
    bs.Room m ↔ bs.Room m' := by
  refine or_congr (exists_congr fun i => and_congr_right (hfree i))
    (exists_congr fun a => and_congr_right fun ha => forall_congr' fun i =>
      forall_congr' fun hi => hdead i ?_)
  unfold slots
  omega

/-- Without room the search for a free slot changes no slot. -/
theorem findFree_slots (h : bs.blockPages = 1) (hc : bs.Clean c.image)
    (hok : ∀ i, c.verdict i = true) (hroom : ¬bs.Room c.image) {i : ℕ} (hi : i < bs.slots) :
    bs.slotAt (bs.findFree c).2.image i = bs.slotAt c.image i := by
  have hset := formatEmptySectors_exact h hc hok
  unfold findFree
  cases bs.findBlock c.image blockFree with
  | some a => rfl
  | none =>
      refine (hset i hi).2 fun hdead => hroom (.inr ⟨i / 16, ?_, hdead⟩)
      unfold slots at hi
      omega

/-- The room left by a save does not depend on the data. -/
theorem Rep.room_saveBlock (h : bs.blockPages = 1) (hr : bs.Rep c) (hk : ValidId k)
    {data₂ : List UInt8} (h₀ : 0 < data.length) (hd : data.length ≤ 252) (h₀₂ : 0 < data₂.length)
    (hd₂ : data₂.length ≤ 252) :
    bs.Room (bs.saveBlock c k data).2.image ↔ bs.Room (bs.saveBlock c k data₂).2.image := by
  by_cases hroom : bs.Room c.image
  · obtain ⟨c₁, d, hf, hsave⟩ := saveBlock_room h hr.clean hr.runs hroom
    have hr₂ := ((hr.reclaim hf.follows hf.clean hf.reclaimed).clearBlock h hk).1
    have hfree := clearBlock_keeps_free h hk hf.free
    rw [hsave, hsave, pgmCallback_onePage h₀ hd, pgmCallback_onePage h₀₂ hd₂]
    refine room_congr (fun i _ => ?_) fun i _ => ?_
    all_goals
      rw [program_slots hk hd hr₂.clean hf.lt hfree, program_slots hk hd₂ hr₂.clean hf.lt hfree,
        if_pos (hr₂.runs _), if_pos (hr₂.runs _), Function.update_apply, Function.update_apply]
      split_ifs <;> simp
  · have hfull := findFree_full h hr.clean hr.runs hroom
    rw [saveBlock_of_full hfull, saveBlock_of_full hfull]

/-- A value with this first word and with eight cleared bytes. -/
def Spoilt (word : UInt32) (v : List UInt8) : Prop :=
  decode32 v = word ∧ ∀ i < 8, v[20 + i]? = some 0

/-- A slot with a spoilt value is the first to hold its id. -/
structure Damaged (bs : BlockStorage) (m : Image) (k word : UInt32) (i : ℕ) : Prop where
  lt : i < bs.slots
  slot : ∃ v, bs.slotAt m i = .live k v ∧ Spoilt word v
  below : ∀ j < i, (bs.slotAt m j).holds k = false

/-- No slot up to this one is free. -/
def FreeBehind (bs : BlockStorage) (m : Image) (i : ℕ) : Prop :=
  ∀ j < bs.slots, bs.slotAt m j = .free → i < j

/-- Saving long data in a storage with room damages its block. The next page does not
look erased when the bytes that reach its header are not. -/
theorem Rep.saveBlock_long (h : bs.blockPages = 1) (hr : bs.Rep c) (hk : ValidId k)
    (hlong : TwoTurns data) (hmark : ∃ i < 4, data.getD (236 + i) 0xFF ≠ 0xFF)
    (hroom : bs.Room c.image) :
    bs.Clean (bs.saveBlock c k data).2.image ∧ c.Follows (bs.saveBlock c k data).2 ∧
      ∃ i, bs.Damaged (bs.saveBlock c k data).2.image k (decode32 data) i ∧
        bs.FreeBehind (bs.saveBlock c k data).2.image i := by
  obtain ⟨c₁, d, hf, hsave⟩ := saveBlock_room h hr.clean hr.runs hroom
  have hr₁ := hr.reclaim hf.follows hf.clean hf.reclaimed
  obtain ⟨hr₂, -, habs⟩ := hr₁.clearBlock h hk
  have hfree := clearBlock_keeps_free h hk hf.free
  have himage : (bs.saveBlock c k data).2.image =
      applyAll (pgmCallback k (bs.page d) data) (bs.clearBlock c₁ k).image := by
    rw [hsave, flashSafeExecute_image, if_pos (hr₂.runs _)]
  obtain ⟨v, hv, hword, hzero⟩ := slotAt_long hlong hk (hr₂.clean d hf.lt hfree)
  have hnext : bs.slotAt (bs.saveBlock c k data).2.image (d + 1) ≠ .free := by
    obtain ⟨i, hi, hbyte⟩ := hmark
    rw [himage, ne_eq, slotAt_free]
    intro hw
    have hall := bytes_of_blockFree hw i hi
    rw [image_next hlong (by omega)] at hall
    exact hbyte (UInt8.and_eq_neg_one_iff.mp hall).2
  rw [himage] at hnext ⊢
  refine ⟨fun j hj hjfree i hi => ?_, ?_, d, ⟨hf.lt, ⟨v, hv, hword, hzero⟩, fun j hj => ?_⟩,
    fun j hj hjfree => ?_⟩
  · have hjd : j ≠ d := by
      rintro rfl
      rw [hv] at hjfree
      cases hjfree
    have hjnext : j ≠ d + 1 := fun he => hnext (he ▸ hjfree)
    rw [slotAt_long_other hlong hjd hjnext] at hjfree
    rw [image_other hlong hi hjd hjnext]
    exact hr₂.clean j hj hjfree i hi
  · rw [hsave]
    exact hf.follows.trans ((clearBlock_follows c₁ k).trans (Chip.follows_execute _ _))
  · rw [slotAt_long_other hlong (by omega) (by omega)]
    exact habs j (by have := hf.lt; omega)
  · by_contra hle
    have hjd : j ≠ d := by
      rintro rfl
      rw [hv] at hjfree
      cases hjfree
    rw [slotAt_long_other hlong hjd (by omega)] at hjfree
    rcases clearBlock_slot h hk hr₁.runs j with hsame | ⟨-, hdead⟩
    · exact hf.lowest j (by omega) (hsame ▸ hjfree)
    · rw [hdead] at hjfree
      cases hjfree

/-- What a reader of the id finds: the spoilt value, or one whose first word is large. -/
def Mistaken (word : UInt32) (v : List UInt8) : Prop := Spoilt word v ∨ 128 < (decode32 v).toNat

/-- The answer for the id of a damaged slot. -/
theorem Damaged.lookup {m : Image} {word : UInt32} {i : ℕ} (hd : bs.Damaged m k word i) :
    ∃ v, SlotStore.lookup bs.slots (bs.slotAt m) k = some v ∧ Spoilt word v := by
  obtain ⟨v, hv, hs⟩ := hd.slot
  exact ⟨v, lookup_eq_some.mpr ⟨i, hd.lt, hv, hd.below⟩, hs⟩

/-- The search for a free slot only touches dead slots. -/
theorem Damaged.reclaim {c₁ : Chip} {word : UInt32} {i : ℕ} (hd : bs.Damaged c.image k word i)
    (hr : Reclaimed bs.slots (bs.slotAt c.image) (bs.slotAt c₁.image)) :
    bs.Damaged c₁.image k word i := by
  refine ⟨hd.lt, ?_, fun j hj => ?_⟩
  · obtain ⟨v, hv, hs⟩ := hd.slot
    rcases hr i hd.lt with hsame | ⟨hdead, -⟩
    · exact ⟨v, hsame.trans hv, hs⟩
    · rw [hv] at hdead
      cases hdead
  · rw [hr.holds (by have := hd.lt; omega), hd.below j hj]

/-- Clearing another id leaves the damaged slot the first of its id. -/
theorem Damaged.clearBlock (h : bs.blockPages = 1) {word : UInt32} {i : ℕ}
    (hd : bs.Damaged c.image k word i) (hk : ValidId k₂) (hne : k₂ ≠ k)
    (hok : ∀ i, c.verdict i = true) : bs.Damaged (bs.clearBlock c k₂).image k word i := by
  refine ⟨hd.lt, ?_, fun j hj => ?_⟩
  · obtain ⟨v, hv, hs⟩ := hd.slot
    rcases clearBlock_slot h hk hok i with hsame | ⟨hheld, -⟩
    · exact ⟨v, hsame.trans hv, hs⟩
    · rw [hv, holds_live, decide_eq_true_eq] at hheld
      exact absurd hheld.symm hne
  · rcases clearBlock_slot h hk hok j with hsame | ⟨-, hdead⟩
    · rw [hsame, hd.below j hj]
    · rw [hdead, holds_dead]

/-- A save of another id does not repair the slot. If its own data is long, the page
behind its block can only look like a block of the damaged id with a large first word. -/
theorem Damaged.saveBlock (h : bs.blockPages = 1) {word : UInt32} {i : ℕ}
    (hd : bs.Damaged c.image k word i) (hc : bs.Clean c.image) (hok : ∀ i, c.verdict i = true)
    (hbehind : bs.FreeBehind c.image i) (hk₂ : ValidId k₂) (hne : k₂ ≠ k)
    (hdata : (0 < data.length ∧ data.length ≤ 252) ∨ TwoTurns data ∧
      (decode32 (data.drop 236) = k → 128 < (decode32 (data.drop 240)).toNat)) :
    ∃ v, SlotStore.lookup bs.slots (bs.slotAt (bs.saveBlock c k₂ data).2.image) k = some v ∧
      Mistaken word v := by
  by_cases hroom : bs.Room c.image
  swap
  · -- nothing is programmed
    obtain ⟨-, -, hr, -⟩ := findFree_spec h hc
    obtain ⟨v, hv, hs⟩ := hd.lookup
    exact ⟨v, by rw [saveBlock_of_full (findFree_full h hc hok hroom), hr.lookup, hv], .inl hs⟩
  obtain ⟨c₁, d, hf, hsave⟩ := saveBlock_room h hc hok hroom
  have hok₁ : ∀ i, c₁.verdict i = true := fun i => by
    rw [hf.follows.verdict]
    exact hok i
  have hok₂ : ∀ i, (bs.clearBlock c₁ k₂).verdict i = true := fun i => by
    rw [(clearBlock_follows c₁ k₂).verdict]
    exact hok₁ i
  have hd₂ := (hd.reclaim hf.reclaimed).clearBlock h hk₂ hne hok₁
  obtain ⟨v, hv, hs⟩ := hd₂.slot
  have hclean := clearBlock_clean h hk₂ hf.clean
  have hfree := clearBlock_keeps_free h hk₂ hf.free
  have hdi : i ≠ d := by
    rintro rfl
    rw [hv] at hfree
    cases hfree
  rcases hdata with ⟨h₀, hshort⟩ | ⟨hlong, hcount⟩
  · have hslots := program_slots hk₂ hshort hclean hf.lt hfree
    rw [if_pos (hok₂ _)] at hslots
    refine ⟨v, ?_, .inl hs⟩
    rw [hsave, pgmCallback_onePage h₀ hshort, hslots]
    refine lookup_eq_some.mpr ⟨i, hd.lt, by rw [Function.update_of_ne hdi, hv], fun j hj => ?_⟩
    by_cases hjd : j = d
    · rw [hjd, Function.update_self, holds_live, decide_eq_false hne]
    · rw [Function.update_of_ne hjd, hd₂.below j hj]
  · have himage : (bs.saveBlock c k₂ data).2.image =
        applyAll (pgmCallback k₂ (bs.page d) data) (bs.clearBlock c₁ k₂).image := by
      rw [hsave, flashSafeExecute_image, if_pos (hok₂ _)]
    obtain ⟨w, hw, -, -⟩ := slotAt_long hlong hk₂ (hclean d hf.lt hfree)
    -- below the damaged slot the search has reclaimed
    have hnext : d < i → bs.slotAt (bs.clearBlock c₁ k₂).image (d + 1) = .free := fun hlt =>
      clearBlock_keeps_free h hk₂
        (hf.next fun hold => absurd (hbehind d hf.lt hold) (by omega))
    have hinext : i ≠ d + 1 := by
      rintro rfl
      rw [hnext (Nat.lt_succ_self d)] at hv
      cases hv
    rw [himage]
    set m := applyAll (pgmCallback k₂ (bs.page d) data) (bs.clearBlock c₁ k₂).image with hm
    have hother : ∀ j ≤ i, j ≠ d → j ≠ d + 1 →
        bs.slotAt m j = bs.slotAt (bs.clearBlock c₁ k₂).image j :=
      fun j _ hjd hjnext => slotAt_long_other hlong hjd hjnext
    have hfirst : ∀ j < i, j ≠ d + 1 → (bs.slotAt m j).holds k = false := fun j hj hjnext => by
      by_cases hjd : j = d
      · rw [hjd, hw, holds_live, decide_eq_false hne]
      · rw [hother j hj.le hjd hjnext, hd₂.below j hj]
    by_cases hfalse : d + 1 < i ∧ (bs.slotAt m (d + 1)).holds k = true
    · obtain ⟨hlt, hheld⟩ := hfalse
      have he := hclean (d + 1) (by have := hd.lt; omega) (hnext (by omega))
      obtain ⟨hkey, hword⟩ := word32_next (k := k₂) hlong he
      obtain ⟨u, hu⟩ := Slot.holds_iff.mp hheld
      refine ⟨u, lookup_eq_some.mpr ⟨d + 1, by have := hd.lt; omega, hu, fun j hj => ?_⟩, .inr ?_⟩
      · exact hfirst j (by omega) (by omega)
      · obtain ⟨hhead, rfl⟩ := slotAt_live hu
        rw [decode32_bytesAt, hword]
        exact hcount (hkey.symm.trans hhead)
    · refine ⟨v, lookup_eq_some.mpr ⟨i, hd.lt, ?_, fun j hj => ?_⟩, .inl hs⟩
      · rw [hother i le_rfl hdi hinext, hv]
      · by_cases hjnext : j = d + 1
        · rw [hjnext, ← Bool.not_eq_true]
          exact fun hh => hfalse ⟨hjnext ▸ hj, hh⟩
        · exact hfirst j hj hjnext

end PicoSomfy.BlockStorage
