import PicoSomfy.GapSweep
import PicoSomfy.MultiPageBlocks

/-!
# Which sectors are reclaimed

`FormatEmptySectors` looks at the header of every block and erases the sectors between
those in which a block in use begins. With blocks of one, two, four, eight or sixteen
pages no block crosses a sector boundary, and these are the sectors without a live byte.
A larger or an odd block may reach into a sector in which no live block begins, and its
end is erased. When the blocks do not fill the storage, the loop also reads the first
word of what is left behind the last one.

Here the loop is run with what it reads and asks for, so that a sector that is erased can
be told from one that only looks erased.
-/
namespace PicoSomfy.BlockStorage

open NorFlash GapSweep

/-- The state of the loop, the addresses of the headers it has read, and the first sector
and the number of sectors of each call of `FormatSectors`. -/
structure Reclaim where
  chip : Chip
  emptySectorStart : ℕ
  headers : List ℕ
  requests : List (ℕ × ℕ)

variable {bs : BlockStorage} {c : Chip} {r : Reclaim}

/-- Formats the empty sectors up to this one, if there are some. -/
def formatUpTo (bs : BlockStorage) (r : Reclaim) (sector : ℕ) : Reclaim :=
  if r.emptySectorStart < sector then
    { r with
      chip := bs.formatSectors r.chip r.emptySectorStart (sector - r.emptySectorStart)
      requests := r.requests ++ [(r.emptySectorStart, sector - r.emptySectorStart)] }
  else r

def reclaimStep (bs : BlockStorage) (r : Reclaim) (offset : ℕ) : Reclaim :=
  let r := { r with headers := r.headers ++ [bs.base + offset] }
  if word32 r.chip.image (bs.base + offset) ≠ blockEmpty then
    { bs.formatUpTo r (offset / flashSectorSize) with
      emptySectorStart := offset / flashSectorSize + 1 }
  else r

def reclaim (bs : BlockStorage) (c : Chip) : Reclaim :=
  bs.formatUpTo
    ((strides 0 (bs.sectors * flashSectorSize) (bs.blockPages * flashPageSize)).foldl
      bs.reclaimStep ⟨c, 0, [], []⟩) bs.sectors

/-- The loop without its trace. -/
def Reclaim.state (r : Reclaim) : Chip × ℕ := (r.chip, r.emptySectorStart)

theorem reclaimStep_state (r : Reclaim) (offset : ℕ) :
    (bs.reclaimStep r offset).state = bs.formatStep r.state offset := by
  unfold reclaimStep formatStep formatUpTo Reclaim.state
  dsimp only
  split_ifs <;> rfl

theorem foldl_state (offsets : List ℕ) (r : Reclaim) :
    (offsets.foldl bs.reclaimStep r).state = offsets.foldl bs.formatStep r.state := by
  induction offsets generalizing r with
  | nil => rfl
  | cons offset offsets ih =>
      rw [List.foldl_cons, List.foldl_cons, ih, reclaimStep_state]

theorem formatUpTo_chip (r : Reclaim) (sector : ℕ) :
    (bs.formatUpTo r sector).chip =
      if r.emptySectorStart < sector then
        bs.formatSectors r.chip r.emptySectorStart (sector - r.emptySectorStart)
      else r.chip := by
  unfold formatUpTo
  split_ifs <;> rfl

/-- The trace changes nothing. -/
theorem reclaim_chip (bs : BlockStorage) (c : Chip) :
    (bs.reclaim c).chip = bs.formatEmptySectors c := by
  have hstate := bs.foldl_state
    (strides 0 (bs.sectors * flashSectorSize) (bs.blockPages * flashPageSize)) ⟨c, 0, [], []⟩
  have hchip := congrArg Prod.fst hstate
  have hstart := congrArg Prod.snd hstate
  dsimp only [Reclaim.state] at hchip hstart
  rw [reclaim, formatUpTo_chip, hchip, hstart]
  rfl

/-- A whole block of the storage begins here. -/
def IsBlock (bs : BlockStorage) (a : ℕ) : Prop :=
  ∃ i, a = bs.base + i * (bs.blockPages * flashPageSize) ∧
    i * (bs.blockPages * flashPageSize) + bs.blockPages * flashPageSize ≤
      bs.sectors * flashSectorSize

/-- The block is in use. -/
def Live (bs : BlockStorage) (m : Image) (block : ℕ) : Prop :=
  bs.IsBlock block ∧ word32 m block ≠ blockEmpty ∧ word32 m block ≠ blockFree

/-- Every block is deleted or live. -/
def NoFree (bs : BlockStorage) (m : Image) : Prop :=
  ∀ block, bs.IsBlock block → word32 m block ≠ blockFree

def InSector (bs : BlockStorage) (sector a : ℕ) : Prop :=
  bs.base + sector * flashSectorSize ≤ a ∧ a < bs.base + (sector + 1) * flashSectorSize

/-- A live block has a byte in the sector. -/
def LiveSector (bs : BlockStorage) (m : Image) (sector : ℕ) : Prop :=
  ∃ block a, bs.Live m block ∧ bs.InBlock block a ∧ bs.InSector sector a

/-- A live block begins in the sector. -/
def StartSector (bs : BlockStorage) (m : Image) (sector : ℕ) : Prop :=
  ∃ block, bs.Live m block ∧ bs.InSector sector block

/-- One of the calls of `FormatSectors` is about the sector. -/
def Reclaim.Erases (r : Reclaim) (sector : ℕ) : Prop :=
  ∃ request ∈ r.requests, request.1 ≤ sector ∧ sector < request.1 + request.2

/-- Exactly the sectors without a live byte are erased, and only headers of whole blocks
are read. -/
def ReclaimsExactly (bs : BlockStorage) (c : Chip) : Prop :=
  (∀ sector, (bs.reclaim c).Erases sector ↔
    sector < bs.sectors ∧ ¬bs.LiveSector c.image sector) ∧
    ∀ a ∈ (bs.reclaim c).headers, bs.IsBlock a

/-- The address lies in a sector that is erased. -/
def Reclaim.Covers (bs : BlockStorage) (r : Reclaim) (a : ℕ) : Prop :=
  ∃ sector, r.Erases sector ∧ bs.InSector sector a

theorem InSector.unique {a s t : ℕ} (hs : bs.InSector s a) (ht : bs.InSector t a) : s = t := by
  unfold InSector flashSectorSize at *
  omega

/-- The part of the loop state that the sweep keeps. -/
def Reclaim.sweep (r : Reclaim) : Sweep := ⟨r.emptySectorStart, r.requests⟩

theorem formatUpTo_sweep (r : Reclaim) (sector : ℕ) :
    (bs.formatUpTo r sector).sweep = r.sweep.close sector := by
  unfold formatUpTo Sweep.close Reclaim.sweep
  split_ifs <;> rfl

theorem formatUpTo_headers (r : Reclaim) (sector : ℕ) :
    (bs.formatUpTo r sector).headers = r.headers := by
  unfold formatUpTo
  split_ifs <;> rfl

theorem formatUpTo_erases (r : Reclaim) (sector s : ℕ) :
    (bs.formatUpTo r sector).Erases s ↔
      r.Erases s ∨ (r.emptySectorStart ≤ s ∧ s < sector) := by
  change (bs.formatUpTo r sector).sweep.Covers s ↔ _
  rw [formatUpTo_sweep]
  exact r.sweep.close_covers sector s

theorem formatSectors_image (c : Chip) (sector count a : ℕ) :
    (bs.formatSectors c sector count).image a =
      if c.verdict c.calls = true ∧ bs.base + sector * flashSectorSize ≤ a ∧
        a < bs.base + (sector + count) * flashSectorSize then 0xFF else c.image a := by
  have hend : bs.base + (sector + count) * flashSectorSize =
      bs.base + sector * flashSectorSize + count * flashSectorSize := by
    rw [Nat.add_mul, Nat.add_assoc]
  rw [formatSectors, flashSafeExecute_image, hend]
  by_cases hok : c.verdict c.calls = true
  · simp only [hok, if_true, true_and]
    rfl
  · rw [if_neg hok, if_neg fun h => hok h.1]

/-- Against the flash before the loop: only sectors that are erased have changed, and with
every callback run they hold erased bytes. -/
structure Traces (bs : BlockStorage) (c : Chip) (r : Reclaim) : Prop where
  verdict : r.chip.verdict = c.verdict
  untouched : ∀ a, ¬r.Covers bs a → r.chip.image a = c.image a
  erased : (∀ i, c.verdict i = true) → ∀ a, r.Covers bs a → r.chip.image a = 0xFF

theorem Traces.formatUpTo (h : bs.Traces c r) (sector : ℕ) :
    bs.Traces c (bs.formatUpTo r sector) := by
  have hcovers : ∀ a, (bs.formatUpTo r sector).Covers bs a ↔ r.Covers bs a ∨
      (r.emptySectorStart < sector ∧ bs.base + r.emptySectorStart * flashSectorSize ≤ a ∧
        a < bs.base + sector * flashSectorSize) := by
    intro a
    simp only [Reclaim.Covers, formatUpTo_erases, or_and_right, exists_or]
    refine or_congr_right ⟨?_, fun ⟨hlt, hlo, hhi⟩ => ?_⟩
    · rintro ⟨s, ⟨hlo, hhi⟩, hs⟩
      unfold InSector flashSectorSize at *
      omega
    · refine ⟨(a - bs.base) / flashSectorSize, ?_, ?_⟩
      all_goals unfold InSector flashSectorSize at *
      all_goals omega
  by_cases hlt : r.emptySectorStart < sector
  · have himage : ∀ a, (bs.formatUpTo r sector).chip.image a =
        if r.chip.verdict r.chip.calls = true ∧
          bs.base + r.emptySectorStart * flashSectorSize ≤ a ∧
            a < bs.base + sector * flashSectorSize then 0xFF else r.chip.image a := by
      intro a
      rw [formatUpTo_chip, if_pos hlt, formatSectors_image, Nat.add_sub_cancel' hlt.le]
    refine ⟨?_, fun a ha => ?_, fun hok a ha => ?_⟩
    · rw [formatUpTo_chip, if_pos hlt]
      exact (flashSafeExecute_verdict _ _).trans h.verdict
    · rw [hcovers, not_or] at ha
      rw [himage, if_neg fun hin => ha.2 ⟨hlt, hin.2⟩]
      exact h.untouched a ha.1
    · rw [himage]
      split_ifs with hin
      · rfl
      · rw [h.verdict, hok] at hin
        rw [hcovers] at ha
        exact h.erased hok a (ha.resolve_right fun hnew => hin ⟨rfl, hnew.2⟩)
  · have heq : bs.formatUpTo r sector = r := if_neg hlt
    rwa [heq]

/-- The sectors in which the blocks at these offsets begin, without the deleted ones. -/
def usedSectors (bs : BlockStorage) (m : Image) (offsets : List ℕ) : List ℕ :=
  (offsets.filter fun offset => word32 m (bs.base + offset) ≠ blockEmpty).map (· / flashSectorSize)

theorem mem_usedSectors {m : Image} {offsets : List ℕ} {sector : ℕ} :
    sector ∈ bs.usedSectors m offsets ↔ ∃ offset ∈ offsets,
      word32 m (bs.base + offset) ≠ blockEmpty ∧ offset / flashSectorSize = sector := by
  simp only [usedSectors, List.mem_map, List.mem_filter, decide_eq_true_eq, and_assoc]

theorem usedSectors_concat (bs : BlockStorage) (m : Image) (offsets : List ℕ) (offset : ℕ) :
    bs.usedSectors m (offsets ++ [offset]) = bs.usedSectors m offsets ++
      if word32 m (bs.base + offset) ≠ blockEmpty then [offset / flashSectorSize] else [] := by
  rw [usedSectors, List.filter_append, List.map_append]
  congr 1
  split_ifs with hused <;> simp [hused]

theorem reclaimStep_headers (r : Reclaim) (offset : ℕ) :
    (bs.reclaimStep r offset).headers = r.headers ++ [bs.base + offset] := by
  unfold reclaimStep formatUpTo
  dsimp only
  split_ifs <;> rfl

/-- A block in use is a visit of its sector. -/
theorem reclaimStep_sweep (r : Reclaim) (offset : ℕ) :
    (bs.reclaimStep r offset).sweep =
      if word32 r.chip.image (bs.base + offset) ≠ blockEmpty then
        r.sweep.visit (offset / flashSectorSize) else r.sweep := by
  unfold reclaimStep formatUpTo Reclaim.sweep Sweep.visit Sweep.close
  dsimp only
  split_ifs <;> rfl

theorem Traces.reclaimStep (h : bs.Traces c r) (offset : ℕ) :
    bs.Traces c (bs.reclaimStep r offset) := by
  have hread : bs.Traces c { r with headers := r.headers ++ [bs.base + offset] } :=
    ⟨h.verdict, h.untouched, h.erased⟩
  have hup := hread.formatUpTo (offset / flashSectorSize)
  unfold BlockStorage.reclaimStep
  dsimp only
  split_ifs
  · exact ⟨hup.verdict, hup.untouched, hup.erased⟩
  · exact hread

/-- What holds of the loop after these offsets. -/
structure Swept (bs : BlockStorage) (c : Chip) (offsets : List ℕ) (r : Reclaim) : Prop where
  headers : r.headers = offsets.map (bs.base + ·)
  sectors : r.sweep.Swept (bs.usedSectors c.image offsets)
  traces : bs.Traces c r

theorem Swept.start (bs : BlockStorage) (c : Chip) : bs.Swept c [] ⟨c, 0, [], []⟩ where
  headers := rfl
  sectors := .nil
  traces :=
    ⟨rfl, fun _ _ => rfl, fun _ _ ⟨_, ⟨_, hrequest, _⟩, _⟩ => absurd hrequest List.not_mem_nil⟩

theorem inSector_of_aligned (bs : BlockStorage) {offset i : ℕ} (haligned : offset % flashPageSize = 0)
    (hi : i < flashPageSize) :
    bs.InSector (offset / flashSectorSize) (bs.base + offset + i) := by
  unfold InSector flashPageSize flashSectorSize at *
  omega

section Step

variable {offsets : List ℕ} {offset : ℕ}

/-- The offsets come in ascending order, and so do the sectors. -/
theorem usedSectors_le {m : Image} (hmono : ∀ o ∈ offsets, o ≤ offset) :
    ∀ s ∈ bs.usedSectors m offsets, s ≤ offset / flashSectorSize := by
  intro s hs
  obtain ⟨o, ho, -, rfl⟩ := mem_usedSectors.mp hs
  exact Nat.div_le_div_right (hmono o ho)

/-- A header that the loop comes to is as it was, since its sector is in no gap. -/
theorem Swept.header (h : bs.Swept c offsets r) (hmono : ∀ o ∈ offsets, o ≤ offset)
    (haligned : offset % flashPageSize = 0) :
    word32 r.chip.image (bs.base + offset) = word32 c.image (bs.base + offset) := by
  refine word32_congr fun i hi => h.traces.untouched _ ?_
  rintro ⟨sector, herases, hin⟩
  have hsector := bs.inSector_of_aligned haligned
    (Nat.lt_trans hi (by decide : 4 < flashPageSize))
  rw [hin.unique hsector] at herases
  exact h.sectors.not_covers (usedSectors_le hmono) herases

theorem Swept.step (h : bs.Swept c offsets r) (hmono : ∀ o ∈ offsets, o ≤ offset)
    (haligned : offset % flashPageSize = 0) :
    bs.Swept c (offsets ++ [offset]) (bs.reclaimStep r offset) where
  headers := by rw [reclaimStep_headers, h.headers, List.map_append, List.map_singleton]
  sectors := by
    rw [reclaimStep_sweep, usedSectors_concat, h.header hmono haligned]
    split_ifs
    · exact h.sectors.visit (usedSectors_le hmono)
    · rw [List.append_nil]
      exact h.sectors
  traces := h.traces.reclaimStep offset

end Step

/-- The loop over the first offsets of a stride of whole pages. -/
theorem swept_foldl (bs : BlockStorage) (c : Chip) {step : ℕ} (hstep : step % flashPageSize = 0)
    (k : ℕ) :
    bs.Swept c ((List.range k).map fun i => 0 + i * step)
      (((List.range k).map fun i => 0 + i * step).foldl bs.reclaimStep ⟨c, 0, [], []⟩) := by
  induction k with
  | zero => exact .start bs c
  | succ k ih =>
      rw [List.range_succ, List.map_append, List.map_singleton, List.foldl_append]
      refine ih.step (fun o ho => ?_) ?_
      · obtain ⟨i, hi, rfl⟩ := List.mem_map.mp ho
        exact Nat.add_le_add_left
          (Nat.mul_le_mul_right step (List.mem_range.mp hi).le) 0
      · rw [Nat.zero_add, Nat.mul_mod, hstep, Nat.mul_zero, Nat.zero_mod]

theorem swept_reclaim (bs : BlockStorage) (c : Chip) :
    bs.Swept c (strides 0 (bs.sectors * flashSectorSize) (bs.blockPages * flashPageSize))
      ((strides 0 (bs.sectors * flashSectorSize) (bs.blockPages * flashPageSize)).foldl
        bs.reclaimStep ⟨c, 0, [], []⟩) :=
  bs.swept_foldl c (Nat.mul_mod_left _ _) _

/-- The sectors that are erased are, with every callback run, all erased bytes, and the
other ones are as they were. -/
theorem reclaim_traces (bs : BlockStorage) (c : Chip) : bs.Traces c (bs.reclaim c) :=
  (bs.swept_reclaim c).traces.formatUpTo bs.sectors

/-- A sector with a byte of a block lies in the storage. -/
theorem LiveSector.lt {m : Image} {sector : ℕ} (h : bs.LiveSector m sector) :
    sector < bs.sectors := by
  obtain ⟨_, a, ⟨⟨i, rfl, hi⟩, -⟩, ⟨-, hblock⟩, hsector, -⟩ := h
  unfold flashSectorSize at *
  omega

section Geometry

variable (hp : 0 < bs.blockPages)
include hp

theorem stride_pos : 0 < bs.blockPages * flashPageSize := Nat.mul_pos hp (by decide)

/-- The loop reads a word at every block offset before the end of the storage. -/
theorem mem_headers {a : ℕ} :
    a ∈ (bs.reclaim c).headers ↔ ∃ i, a = bs.base + i * (bs.blockPages * flashPageSize) ∧
      i * (bs.blockPages * flashPageSize) < bs.sectors * flashSectorSize := by
  rw [reclaim, formatUpTo_headers, (bs.swept_reclaim c).headers]
  simp only [List.mem_map, mem_strides (stride_pos hp), Nat.zero_add, Nat.sub_zero]
  constructor
  · rintro ⟨_, ⟨i, rfl, hi⟩, rfl⟩
    exact ⟨i, rfl, hi⟩
  · rintro ⟨i, rfl, hi⟩
    exact ⟨_, ⟨i, rfl, hi⟩, rfl⟩

/-- A sector is erased unless one of these words in it is not zero. -/
theorem reclaim_erases {sector : ℕ} :
    (bs.reclaim c).Erases sector ↔ sector < bs.sectors ∧
      ¬∃ a ∈ (bs.reclaim c).headers, word32 c.image a ≠ blockEmpty ∧ bs.InSector sector a := by
  have hswept := bs.swept_reclaim c
  have hstop : ∀ s ∈ bs.usedSectors c.image
      (strides 0 (bs.sectors * flashSectorSize) (bs.blockPages * flashPageSize)),
      s < bs.sectors := by
    intro s hs
    obtain ⟨offset, hoffset, -, rfl⟩ := mem_usedSectors.mp hs
    obtain ⟨i, rfl, hi⟩ := (mem_strides (stride_pos hp)).mp hoffset
    rw [Nat.zero_add]
    exact Nat.div_lt_of_lt_mul (by rwa [Nat.mul_comm flashSectorSize, ← Nat.sub_zero (_ * _)])
  have hfinish := hswept.sectors.finish hstop sector
  rw [← formatUpTo_sweep] at hfinish
  refine hfinish.trans (and_congr_right fun _ => not_congr ?_)
  rw [mem_usedSectors, reclaim, formatUpTo_headers, hswept.headers]
  simp only [List.mem_map, exists_exists_and_eq_and]
  refine exists_congr fun offset => and_congr_right fun hoffset => and_congr_right fun _ => ?_
  unfold InSector flashSectorSize
  omega

/-- A block of the storage is one of the places where the loop reads. -/
theorem IsBlock.mem_headers {block : ℕ} (h : bs.IsBlock block) :
    block ∈ (bs.reclaim c).headers := by
  obtain ⟨i, rfl, hi⟩ := h
  have hstep := stride_pos hp
  exact (BlockStorage.mem_headers hp).mpr ⟨i, rfl, by omega⟩

/-- The other places are behind the last whole block, and there are none when the blocks
fill the storage. -/
theorem headers_are_blocks :
    (∀ a ∈ (bs.reclaim c).headers, bs.IsBlock a) ↔ bs.blockPages ∣ 16 * bs.sectors := by
  have harea : bs.sectors * flashSectorSize = 16 * bs.sectors * flashPageSize := by
    unfold flashSectorSize flashPageSize
    omega
  have hdvd : bs.blockPages ∣ 16 * bs.sectors ↔
      bs.blockPages * flashPageSize ∣ bs.sectors * flashSectorSize := by
    rw [harea]
    exact (Nat.mul_dvd_mul_iff_right (by decide)).symm
  have hstep := stride_pos hp
  simp only [hdvd, BlockStorage.mem_headers hp, IsBlock]
  generalize bs.blockPages * flashPageSize = step at *
  generalize bs.sectors * flashSectorSize = area at *
  constructor
  · intro hall
    refine Nat.dvd_of_mod_eq_zero (by_contra fun hmod => ?_)
    have hlast : area / step * step + area % step = area := Nat.div_add_mod' area step
    have hrest := Nat.mod_lt area hstep
    obtain ⟨j, hj, hfits⟩ := hall _ ⟨area / step, rfl, by omega⟩
    omega
  · rintro ⟨q, rfl⟩ a ⟨i, rfl, hi⟩
    have hlt : i < q := Nat.lt_of_mul_lt_mul_left (Nat.mul_comm i step ▸ hi)
    refine ⟨i, rfl, ?_⟩
    rw [← Nat.succ_mul, Nat.mul_comm]
    exact Nat.mul_le_mul_left step hlt

theorem StartSector.live {m : Image} {sector : ℕ} (h : bs.StartSector m sector) :
    bs.LiveSector m sector := by
  obtain ⟨block, hlive, hin⟩ := h
  have hstep := stride_pos hp
  exact ⟨block, block, hlive, ⟨le_rfl, by omega⟩, hin⟩

/-- The loop does as it should exactly when the blocks fill the storage and every sector
with a live byte is the start of a live block. -/
theorem reclaimsExactly_iff (hfull : bs.NoFree c.image) :
    bs.ReclaimsExactly c ↔ bs.blockPages ∣ 16 * bs.sectors ∧
      ∀ sector, bs.LiveSector c.image sector → bs.StartSector c.image sector := by
  have hstart : (∀ a ∈ (bs.reclaim c).headers, bs.IsBlock a) → ∀ sector,
      (∃ a ∈ (bs.reclaim c).headers, word32 c.image a ≠ blockEmpty ∧ bs.InSector sector a) ↔
        bs.StartSector c.image sector := by
    intro hblocks sector
    constructor
    · rintro ⟨a, ha, hused, hin⟩
      exact ⟨a, ⟨hblocks a ha, hused, hfull a (hblocks a ha)⟩, hin⟩
    · rintro ⟨block, ⟨hblock, hused, -⟩, hin⟩
      exact ⟨block, hblock.mem_headers hp, hused, hin⟩
  constructor
  · rintro ⟨herases, hblocks⟩
    refine ⟨(headers_are_blocks hp).mp hblocks, fun sector hlive => by_contra fun hnone => ?_⟩
    have hlt := hlive.lt
    rw [← hstart hblocks sector] at hnone
    exact ((herases sector).mp ((reclaim_erases hp).mpr ⟨hlt, hnone⟩)).2 hlive
  · rintro ⟨hdvd, hstarts⟩
    have hblocks := (headers_are_blocks (c := c) hp).mpr hdvd
    refine ⟨fun sector => ?_, hblocks⟩
    rw [reclaim_erases hp, hstart hblocks sector]
    exact and_congr_right fun _ => not_congr ⟨StartSector.live hp, hstarts sector⟩

end Geometry

/-- A block of a size that divides a sector lies in one sector. -/
theorem LiveSector.start (hdvd : bs.blockPages ∣ 16) {m : Image} {sector : ℕ}
    (h : bs.LiveSector m sector) : bs.StartSector m sector := by
  obtain ⟨block, a, hlive, ⟨hlo, hhi⟩, hin⟩ := h
  refine ⟨block, hlive, ?_⟩
  obtain ⟨⟨i, rfl, -⟩, -⟩ := hlive
  have hle := Nat.le_of_dvd (by decide) hdvd
  unfold InSector flashSectorSize flashPageSize at *
  generalize bs.blockPages = pages at *
  interval_cases pages <;> omega

instance (bs : BlockStorage) (block a : ℕ) : Decidable (bs.InBlock block a) := by
  unfold InBlock
  infer_instance

/-- One block is in use, and all of its bytes are one. -/
def oneBlock (bs : BlockStorage) (j : ℕ) : Chip where
  image := fun a => if bs.InBlock (bs.base + j * (bs.blockPages * flashPageSize)) a then 1 else 0
  verdict := fun _ => true
  calls := 0

theorem inBlock_iff (hp : 0 < bs.blockPages) {j i k : ℕ} (hk : k < flashPageSize) :
    bs.InBlock (bs.base + j * (bs.blockPages * flashPageSize))
      (bs.base + i * (bs.blockPages * flashPageSize) + k) ↔ i = j := by
  have hpage : flashPageSize ≤ bs.blockPages * flashPageSize := Nat.le_mul_of_pos_left _ hp
  unfold InBlock
  generalize bs.blockPages * flashPageSize = step at *
  constructor
  · rintro ⟨hlo, hhi⟩
    rcases Nat.lt_trichotomy i j with hij | hij | hij
    · have hnext : (i + 1) * step ≤ j * step := Nat.mul_le_mul_right step hij
      rw [Nat.succ_mul] at hnext
      omega
    · exact hij
    · have hnext : (j + 1) * step ≤ i * step := Nat.mul_le_mul_right step hij
      rw [Nat.succ_mul] at hnext
      omega
  · rintro rfl
    omega

theorem word32_oneBlock (hp : 0 < bs.blockPages) (j i : ℕ) :
    word32 (bs.oneBlock j).image (bs.base + i * (bs.blockPages * flashPageSize)) =
      if i = j then 0x01010101 else blockEmpty := by
  have hbyte : ∀ k < 4, (bs.oneBlock j).image (bs.base + i * (bs.blockPages * flashPageSize) + k) =
      if i = j then 1 else 0 := fun k hk =>
    if_congr (inBlock_iff hp (Nat.lt_trans hk (by decide))) rfl rfl
  generalize bs.base + i * (bs.blockPages * flashPageSize) = a at *
  split_ifs with hij
  · have hword : word32 (bs.oneBlock j).image a = word32 (fun _ => 1) a :=
      word32_congr fun k hk => (hbyte k hk).trans (if_pos hij)
    rw [hword]
    change decode32 [1, 1, 1, 1] = 0x01010101
    decide
  · exact word32_zero fun k hk => (hbyte k hk).trans (if_neg hij)

theorem live_oneBlock (hp : 0 < bs.blockPages) {j block : ℕ} :
    bs.Live (bs.oneBlock j).image block ↔
      bs.IsBlock block ∧ block = bs.base + j * (bs.blockPages * flashPageSize) := by
  refine and_congr_right fun ⟨i, hi, _⟩ => ?_
  rw [hi, word32_oneBlock hp]
  split_ifs with hij
  · rw [hij]
    exact iff_of_true (by decide) rfl
  · refine iff_of_false (fun h => h.1 rfl) fun h => hij ?_
    exact Nat.eq_of_mul_eq_mul_right (stride_pos hp) (Nat.add_left_cancel h)

theorem noFree_oneBlock (hp : 0 < bs.blockPages) (j : ℕ) : bs.NoFree (bs.oneBlock j).image := by
  rintro _ ⟨i, rfl, -⟩
  rw [word32_oneBlock hp]
  split_ifs <;> decide

/-- The loop does as it should for every image of deleted and live blocks exactly when a
sector is a whole number of blocks. -/
theorem reclaimsExactly_forall_iff (hp : 0 < bs.blockPages) (hs : 0 < bs.sectors) :
    (∀ c : Chip, bs.NoFree c.image → bs.ReclaimsExactly c) ↔ bs.blockPages ∣ 16 := by
  constructor
  · intro hall
    refine by_contra fun hndvd => ?_
    -- in use is the block that reaches over the end of the first sector
    have hfull := noFree_oneBlock hp (16 / bs.blockPages)
    obtain ⟨hdvd, hstarts⟩ := (reclaimsExactly_iff hp hfull).mp (hall _ hfull)
    have hmod : 16 % bs.blockPages ≠ 0 := fun h => hndvd (Nat.dvd_of_mod_eq_zero h)
    have hdiv := Nat.div_add_mod' 16 bs.blockPages
    have hlt := Nat.mod_lt 16 hp
    have hblock : bs.IsBlock
        (bs.base + 16 / bs.blockPages * (bs.blockPages * flashPageSize)) := by
      refine (headers_are_blocks (c := bs.oneBlock 0) hp).mpr hdvd _ ((mem_headers hp).mpr ⟨_, rfl, ?_⟩)
      rw [← Nat.mul_assoc]
      unfold flashPageSize flashSectorSize
      omega
    have hlive : bs.Live (bs.oneBlock (16 / bs.blockPages)).image
        (bs.base + 16 / bs.blockPages * (bs.blockPages * flashPageSize)) :=
      (live_oneBlock hp).mpr ⟨hblock, rfl⟩
    have hreach : bs.InBlock (bs.base + 16 / bs.blockPages * (bs.blockPages * flashPageSize))
        (bs.base + flashSectorSize) := by
      unfold InBlock
      rw [← Nat.mul_assoc]
      unfold flashPageSize flashSectorSize
      omega
    have hsecond : bs.InSector 1 (bs.base + flashSectorSize) := by
      unfold InSector flashSectorSize
      omega
    obtain ⟨block, hstart, hin⟩ := hstarts 1 ⟨_, _, hlive, hreach, hsecond⟩
    rw [((live_oneBlock hp).mp hstart).2, ← Nat.mul_assoc] at hin
    unfold InSector flashSectorSize flashPageSize at hin
    omega
  · intro hdvd c hfull
    exact (reclaimsExactly_iff hp hfull).mpr
      ⟨hdvd.trans (Nat.dvd_mul_right 16 bs.sectors), fun _ hlive => hlive.start hdvd⟩

/-- For every storage size, every block size and every image of deleted and live blocks. -/
theorem sectors_reclaimed (base size blockSize : ℕ) {c : Chip}
    (hfull : (create base size blockSize).NoFree c.image) :
    (create base size blockSize).ReclaimsExactly c ↔
      (create base size blockSize).blockPages ∣ 16 * (create base size blockSize).sectors ∧
        ∀ sector, (create base size blockSize).LiveSector c.image sector →
          (create base size blockSize).StartSector c.image sector :=
  reclaimsExactly_iff (create_blockPages base size blockSize) hfull

/-- Three sectors with sixteen blocks of three pages. -/
def threePages : BlockStorage := create 0 12288 600

theorem threePages_base : threePages.base = 0 := by decide

theorem threePages_step : threePages.blockPages * flashPageSize = 768 := by decide

/-- The first block alone is in use. It ends in the first sector. -/
theorem sectors_reclaimed_firstBlock : threePages.ReclaimsExactly (threePages.oneBlock 0) := by
  have hp : 0 < threePages.blockPages := create_blockPages 0 12288 600
  refine (sectors_reclaimed 0 12288 600 (noFree_oneBlock hp 0)).mpr ⟨by decide, ?_⟩
  rintro sector ⟨block, a, hlive, hreach, hin⟩
  refine ⟨block, hlive, ?_⟩
  change threePages.InBlock block a at hreach
  change threePages.InSector sector a at hin
  change threePages.InSector sector block
  have hblock := ((live_oneBlock hp).mp hlive).2
  rw [threePages_base, Nat.zero_mul] at hblock
  unfold InBlock InSector flashSectorSize at *
  rw [threePages_step] at hreach
  rw [threePages_base] at *
  omega

/-- The sixth block alone is in use. It begins in the last page of the first sector, and
its other two pages are erased. -/
theorem live_block_erased :
    threePages.NoFree (threePages.oneBlock 5).image ∧
      threePages.Live (threePages.oneBlock 5).image 3840 ∧ threePages.InBlock 3840 4096 ∧
      (threePages.oneBlock 5).image 4096 = 1 ∧
      (threePages.formatEmptySectors (threePages.oneBlock 5)).image 4096 = 0xFF ∧
      ¬threePages.ReclaimsExactly (threePages.oneBlock 5) := by
  have hp : 0 < threePages.blockPages := create_blockPages 0 12288 600
  have hlive : threePages.Live (threePages.oneBlock 5).image 3840 := by
    rw [live_oneBlock hp, IsBlock, threePages_step, threePages_base]
    exact ⟨⟨5, rfl, by decide⟩, rfl⟩
  have hreach : threePages.InBlock 3840 4096 := by decide
  have hsecond : threePages.InSector 1 4096 := by
    unfold InSector
    decide
  have herases : (threePages.reclaim (threePages.oneBlock 5)).Erases 1 := by
    refine (reclaim_erases hp).mpr ⟨by decide, ?_⟩
    rintro ⟨a, ha, hused, hin⟩
    obtain ⟨i, rfl, -⟩ := (mem_headers hp).mp ha
    rw [word32_oneBlock hp] at hused
    split_ifs at hused with hi
    · rw [hi, threePages_step, threePages_base] at hin
      unfold InSector flashSectorSize at hin
      rw [threePages_base] at hin
      omega
    · exact hused rfl
  refine ⟨noFree_oneBlock hp 5, hlive, hreach, by decide, ?_, fun hexact => ?_⟩
  · rw [← reclaim_chip]
    exact (reclaim_traces threePages (threePages.oneBlock 5)).erased (fun _ => rfl) 4096
      ⟨1, herases, hsecond⟩
  · exact ((hexact.1 1).mp herases).2 ⟨3840, 4096, hlive, hreach, hsecond⟩

end PicoSomfy.BlockStorage
