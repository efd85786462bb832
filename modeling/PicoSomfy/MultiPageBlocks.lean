import PicoSomfy.BlockMap

/-!
# Blocks of several pages

The constructor takes any block size and rounds it up to whole pages. The loop
that programs a block keeps its place in the data but steps the flash address by
the size of its parameter record, sixteen bytes, and no longer by a page. The
first page is stored as it should be; a second one is not page aligned.

On a freshly formatted store a save therefore keeps its contract exactly when the
data fits behind the header of one page and the storage has room for one block.
-/
namespace PicoSomfy.BlockStorage

open NorFlash SlotStore

variable {bs : BlockStorage} {c : Chip} {blockId : UInt32} {data : List UInt8}

/-- The flash commands of `SaveBlock` after its search for a free block: deleting
the block that has the id, and programming the free one. -/
def saveCommands (bs : BlockStorage) (c : Chip) (blockId : UInt32) (data : List UInt8) :
    List Command :=
  match bs.findFree c with
  | (none, _) => []
  | (some freeBlock, c) =>
      (match bs.findBlock c.image blockId with
        | some existing => [.program existing (List.replicate flashPageSize 0)]
        | none => []) ++ pgmCallback blockId freeBlock data

/-- The address lies in the block. -/
def InBlock (bs : BlockStorage) (block a : ℕ) : Prop :=
  block ≤ a ∧ a < block + bs.blockPages * flashPageSize

/-- A program of whole pages of the block. -/
def PageProgram (bs : BlockStorage) (block : ℕ) (cmd : Command) : Prop :=
  ∃ offset bytes, cmd = .program offset bytes ∧ offset % flashPageSize = 0 ∧
    block ≤ offset ∧ offset + bytes.length ≤ block + bs.blockPages * flashPageSize

/-- Saving stores the data: one block gets the id with the data behind it, all
programming stays within its pages, and no other byte changes. -/
def StoresExactly (bs : BlockStorage) (c : Chip) (blockId : UInt32) (data : List UInt8) : Prop :=
  ∃ block ∈ bs.blockOffsets,
    bs.getBlock (bs.saveBlock c blockId data).2.image blockId = some (block + 4) ∧
    bytesAt (bs.saveBlock c blockId data).2.image (block + 4) data.length = data ∧
    (∀ cmd ∈ bs.saveCommands c blockId data, bs.PageProgram block cmd) ∧
    ∀ a, ¬bs.InBlock block a → (bs.saveBlock c blockId data).2.image a = c.image a

theorem mem_strides {start stop step a : ℕ} (hstep : 0 < step) :
    a ∈ strides start stop step ↔ ∃ i, a = start + i * step ∧ i * step < stop - start := by
  have hcount : ∀ i, i < (stop - start + step - 1) / step ↔ i * step < stop - start := by
    intro i
    rw [← Nat.succ_le_iff, Nat.le_div_iff_mul_le hstep, Nat.succ_mul]
    omega
  simp only [strides, List.mem_map, List.mem_range, hcount]
  constructor
  · rintro ⟨i, hi, rfl⟩
    exact ⟨i, rfl, hi⟩
  · rintro ⟨i, rfl, hi⟩
    exact ⟨i, hi, rfl⟩

/-- A block offset leaves space for a whole block before the end of the storage. -/
theorem mem_blockOffsets (hp : 0 < bs.blockPages) {a : ℕ} :
    a ∈ bs.blockOffsets ↔ ∃ i, a = bs.base + i * (bs.blockPages * flashPageSize) ∧
      i * (bs.blockPages * flashPageSize) + bs.blockPages * flashPageSize ≤
        bs.sectors * flashSectorSize := by
  have hstep : 0 < bs.blockPages * flashPageSize := Nat.mul_pos hp (by decide)
  rw [blockOffsets, mem_strides hstep]
  refine exists_congr fun i => and_congr_right fun _ => ?_
  omega

/-- Every block fits, so the first one does. -/
theorem room_of_mem (hp : 0 < bs.blockPages) {a : ℕ} (ha : a ∈ bs.blockOffsets) :
    bs.blockPages * flashPageSize ≤ bs.sectors * flashSectorSize := by
  obtain ⟨i, -, hi⟩ := (mem_blockOffsets hp).mp ha
  exact le_trans (Nat.le_add_left _ _) hi

/-- Every byte of the storage is erased. -/
def Erased (bs : BlockStorage) (m : Image) : Prop :=
  ∀ a, bs.base ≤ a → a < bs.base + bs.sectors * flashSectorSize → m a = 0xFF

theorem format_erased (hok : c.verdict c.calls = true) : bs.Erased (bs.format c).image := by
  intro a hlo hhi
  rw [format, flashSafeExecute_image, hok, if_pos rfl]
  exact erase_apply ⟨hlo, hhi⟩ c.image

theorem Erased.word32 {m : Image} (he : bs.Erased m) (hp : 0 < bs.blockPages) {a : ℕ}
    (ha : a ∈ bs.blockOffsets) : NorFlash.word32 m a = blockFree := by
  obtain ⟨i, rfl, hi⟩ := (mem_blockOffsets hp).mp ha
  have hpage : flashPageSize ≤ bs.blockPages * flashPageSize := Nat.le_mul_of_pos_left _ hp
  unfold flashPageSize at *
  exact word32_erased fun k hk => he _ (by omega) (by omega)

theorem strides_cons {start stop step : ℕ} (hstep : 0 < step) (hlt : start < stop) :
    ∃ rest, strides start stop step = start :: rest := by
  have hpos : 0 < (stop - start + step - 1) / step :=
    Nat.div_pos (by omega) hstep
  obtain ⟨n, hn⟩ := Nat.exists_eq_add_of_lt hpos
  unfold strides
  rw [hn, Nat.zero_add, List.range_succ_eq_map, List.map_cons, Nat.zero_mul, Nat.add_zero]
  exact ⟨_, rfl⟩

section Fresh
variable (hp : 0 < bs.blockPages)
include hp

theorem blockOffsets_cons
    (hroom : bs.blockPages * flashPageSize ≤ bs.sectors * flashSectorSize) :
    ∃ rest, bs.blockOffsets = bs.base :: rest :=
  strides_cons (Nat.mul_pos hp (by decide)) (by omega)

/-- On an erased store the first block is the free one. -/
theorem findFree_erased (he : bs.Erased c.image)
    (hroom : bs.blockPages * flashPageSize ≤ bs.sectors * flashSectorSize) :
    bs.findFree c = (some bs.base, c) := by
  obtain ⟨rest, hrest⟩ := blockOffsets_cons hp hroom
  have hfree : word32 c.image bs.base = blockFree := he.word32 hp (by rw [hrest]; simp)
  unfold findFree findBlock
  rw [hrest, List.find?_cons_of_pos (by simp [hfree])]

/-- No block of an erased store has an id. -/
theorem findBlock_erased (he : bs.Erased c.image) (hv : ValidId blockId) :
    bs.findBlock c.image blockId = none := by
  refine List.find?_eq_none.mpr fun a ha => ?_
  rw [he.word32 hp ha, beq_iff_eq]
  exact hv.2.symm

theorem saveCommands_erased (he : bs.Erased c.image) (hv : ValidId blockId)
    (hroom : bs.blockPages * flashPageSize ≤ bs.sectors * flashSectorSize) :
    bs.saveCommands c blockId data = pgmCallback blockId bs.base data := by
  unfold saveCommands
  rw [findFree_erased hp he hroom]
  simp only [findBlock_erased hp he hv, List.nil_append]

/-- The save of an erased store is one flash call. -/
theorem saveBlock_erased (he : bs.Erased c.image) (hv : ValidId blockId)
    (hroom : bs.blockPages * flashPageSize ≤ bs.sectors * flashSectorSize) :
    bs.saveBlock c blockId data = c.flashSafeExecute (pgmCallback blockId bs.base data) := by
  unfold saveBlock clearBlock
  rw [findFree_erased hp he hroom]
  simp only [findBlock_erased hp he hv]

end Fresh

/-- Data beyond the first page: the second turn programs sixteen bytes further on. -/
theorem pgmCallback_twoPages (blockId : UInt32) (offset : ℕ)
    (hlong : flashPageSize - 4 < data.length) :
    ∃ first second rest, pgmCallback blockId offset data =
      .program offset first :: .program (offset + sizeofPgmData) second :: rest := by
  unfold flashPageSize at hlong
  obtain ⟨n, hn⟩ : ∃ n, data.length = n + 2 := ⟨data.length - 2, by omega⟩
  have hne : data ≠ [] := by
    rintro rfl
    simp at hlong
  have hmore : data.drop (flashPageSize - 4) ≠ [] := by
    rw [ne_eq, List.drop_eq_nil_iff]
    unfold flashPageSize
    omega
  have hspace : data.length > flashPageSize - 4 := by
    unfold flashPageSize
    omega
  unfold pgmCallback
  rw [show pgmLoop data.length = pgmLoop (n + 2) by rw [hn], pgmLoop, if_neg hne]
  simp only [if_pos hspace]
  rw [pgmLoop, if_neg hmore]
  exact ⟨_, _, _, rfl⟩

/-- Two programs sixteen bytes apart are not both page aligned. -/
theorem length_le_of_aligned {block offset : ℕ}
    (hall : ∀ cmd ∈ pgmCallback blockId offset data, bs.PageProgram block cmd) :
    data.length ≤ flashPageSize - 4 := by
  by_contra hlong
  obtain ⟨first, second, rest, hcb⟩ := pgmCallback_twoPages blockId offset
    (not_le.mp hlong)
  rw [hcb] at hall
  obtain ⟨a, _, ha, hamod, -⟩ := hall (.program offset first) (by simp)
  obtain ⟨b, _, hb, hbmod, -⟩ := hall (.program (offset + sizeofPgmData) second) (by simp)
  cases ha
  cases hb
  unfold sizeofPgmData flashPageSize at *
  omega

/-- The contract bounds the data by one page, and it needs a block to hold it and a
flash call that runs. -/
theorem StoresExactly.bounds (hp : 0 < bs.blockPages) (he : bs.Erased c.image)
    (hv : ValidId blockId) (h : bs.StoresExactly c blockId data) :
    data.length ≤ flashPageSize - 4 ∧
      bs.blockPages * flashPageSize ≤ bs.sectors * flashSectorSize ∧
      c.verdict c.calls = true := by
  obtain ⟨block, hblock, hget, -, hprog, -⟩ := h
  have hroom := room_of_mem hp hblock
  rw [saveCommands_erased hp he hv hroom] at hprog
  refine ⟨length_le_of_aligned hprog, hroom, ?_⟩
  by_contra hrefused
  rw [saveBlock_erased hp he hv hroom, flashSafeExecute_image, if_neg hrefused] at hget
  unfold getBlock at hget
  rw [findBlock_erased hp he hv] at hget
  cases hget

theorem slotAt_live {m : Image} {i : ℕ} {k : UInt32} {v : List UInt8}
    (h : bs.slotAt m i = .live k v) :
    word32 m (bs.page i) = k ∧ bytesAt m (bs.page i + 4) (flashPageSize - 4) = v := by
  unfold slotAt at h
  split_ifs at h
  cases h
  exact ⟨rfl, rfl⟩

/-- Data for one page is stored as it should be, whatever the size of the blocks. -/
theorem storesExactly_of_short (hp : 0 < bs.blockPages) (hruns : c.verdict c.calls = true)
    (he : bs.Erased c.image) (halign : bs.base % flashPageSize = 0) (hv : ValidId blockId)
    (h₀ : 0 < data.length) (hd : data.length ≤ flashPageSize - 4)
    (hroom : bs.blockPages * flashPageSize ≤ bs.sectors * flashSectorSize) :
    bs.StoresExactly c blockId data := by
  have hcmds : bs.saveCommands c blockId data = [.program bs.base (pageBytes blockId data)] := by
    rw [saveCommands_erased hp he hv hroom, pgmCallback_onePage h₀ hd]
  have himage : (bs.saveBlock c blockId data).2.image =
      (Command.program bs.base (pageBytes blockId data)).apply c.image := by
    rw [saveBlock_erased hp he hv hroom, flashSafeExecute_image, if_pos hruns,
      pgmCallback_onePage h₀ hd]
    rfl
  have hpage : flashPageSize ≤ bs.blockPages * flashPageSize := Nat.le_mul_of_pos_left _ hp
  have hfirst : bs.slotAt ((Command.program bs.base (pageBytes blockId data)).apply c.image) 0 =
      .live blockId (padded data) := by
    have hpage₀ : bs.page 0 = bs.base := by simp [page]
    have hfree : ∀ k < flashPageSize, c.image (bs.page 0 + k) = 0xFF := fun k hk => by
      rw [hpage₀]
      exact he _ (by omega) (by omega)
    have hslot := slotAt_program_free hv hd hfree
    rwa [hpage₀] at hslot
  rw [← himage] at hfirst
  obtain ⟨hword, hdata⟩ := slotAt_live hfirst
  rw [show bs.page 0 = bs.base by simp [page]] at hword hdata
  obtain ⟨rest, hrest⟩ := blockOffsets_cons hp hroom
  refine ⟨bs.base, by rw [hrest]; simp, ?_, ?_, fun cmd hcmd => ?_, fun a ha => ?_⟩
  · unfold getBlock findBlock
    rw [hrest, List.find?_cons_of_pos (by simp [hword])]
    rfl
  · have hsplit : flashPageSize - 4 = data.length + (flashPageSize - 4 - data.length) := by omega
    rw [hsplit, bytesAt_add] at hdata
    exact (List.append_inj hdata (by simp)).1
  · rw [hcmds, List.mem_singleton] at hcmd
    exact ⟨_, _, hcmd, halign, le_rfl, by rw [length_pageBytes hd]; omega⟩
  · rw [himage]
    refine apply_of_not_covers (fun hcov => ha ?_) c.image
    obtain ⟨hlo, hhi⟩ := hcov
    rw [length_pageBytes hd] at hhi
    exact ⟨hlo, by omega⟩

theorem create_blockPages (base size blockSize : ℕ) :
    0 < (create base size blockSize).blockPages := by
  unfold create flashPageSize
  simp only
  omega

theorem create_aligned (base size blockSize : ℕ) :
    (create base size blockSize).base % flashPageSize = 0 := by
  unfold create flashPageSize flashSectorSize
  simp only
  omega

/-- For every block size, on a freshly formatted store: the save keeps its contract
exactly when the data fits in one page, the storage has room for a block and the call
that programs it runs. -/
theorem storesExactly_iff (base size blockSize : ℕ) (c : Chip)
    (hformat : c.verdict c.calls = true) (blockId : UInt32) (hv : ValidId blockId)
    (data : List UInt8) (h₀ : 0 < data.length) :
    (create base size blockSize).StoresExactly ((create base size blockSize).format c) blockId
        data ↔
      data.length ≤ flashPageSize - 4 ∧
        (create base size blockSize).blockPages * flashPageSize ≤
          (create base size blockSize).sectors * flashSectorSize ∧
        c.verdict (c.calls + 1) = true := by
  have hp := create_blockPages base size blockSize
  have halign := create_aligned base size blockSize
  generalize create base size blockSize = bs at *
  have he : bs.Erased (bs.format c).image := format_erased hformat
  have hnext : (bs.format c).verdict (bs.format c).calls = c.verdict (c.calls + 1) := by
    rw [format, flashSafeExecute_verdict, flashSafeExecute_calls]
  rw [← hnext]
  constructor
  · exact fun h => h.bounds hp he hv
  · rintro ⟨hd, hroom, hruns⟩
    exact storesExactly_of_short hp hruns he halign hv h₀ hd hroom

/-- Two pages in each block, and data that fills the first. -/
theorem storesExactly_iff_twoPages :
    (create 4096 4096 508).StoresExactly ((create 4096 4096 508).format healthyChip) 1
      (List.replicate 252 7) :=
  (storesExactly_iff 4096 4096 508 healthyChip rfl 1 (by decide) (List.replicate 252 7)
    (by rw [List.length_replicate]; decide)).mpr (by rw [List.length_replicate]; decide)

/-- One byte more than the first page takes is within the block size and is not stored
as it should be. -/
theorem second_page_misplaced :
    ¬∀ (base size blockSize : ℕ) (c : Chip), (∀ i, c.verdict i = true) →
      ∀ blockId : UInt32, ValidId blockId → ∀ data : List UInt8, 0 < data.length →
      data.length ≤ (create base size blockSize).blockSize →
      (create base size blockSize).StoresExactly ((create base size blockSize).format c) blockId
        data := by
  intro hall
  have hstores := hall 4096 4096 508 healthyChip (fun _ => rfl) 1 (by decide)
    (List.replicate 253 7) (by rw [List.length_replicate]; decide)
    (by rw [List.length_replicate]; decide)
  have hshort := (hstores.bounds (create_blockPages ..) (format_erased rfl) (by decide)).1
  rw [List.length_replicate] at hshort
  exact absurd hshort (by decide)

end PicoSomfy.BlockStorage
