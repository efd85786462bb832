import PicoSomfy.BlockMap

/-!
# The guaranteed capacity of the storage

A sector is erased only when all of its blocks are deleted, so one live block
keeps the fifteen others of its sector from being used again. With `n` sectors
fewer than `n` live ids leave a sector without any live block, and a save then
always finds room. The bound is exact: a run that follows each lasting record by
fifteen saves of one other id leaves a single live block in every sector.
-/
namespace PicoSomfy.BlockStorage

open NorFlash SlotStore

variable (bs : BlockStorage)

/-- The ids in the headers of the live blocks. -/
def liveIds (m : Image) : Finset UInt32 :=
  ((Finset.range bs.slots).image fun i => word32 m (bs.page i)).filter ValidId

variable {bs}

theorem mem_liveIds {m : Image} {k : UInt32} :
    k ∈ bs.liveIds m ↔ ValidId k ∧ ∃ i < bs.slots, (bs.slotAt m i).holds k = true := by
  simp only [liveIds, Finset.mem_filter, Finset.mem_image, Finset.mem_range, and_comm (b := ValidId k)]
  refine and_congr_right fun hk => exists_congr fun i => and_congr_right fun _ => ?_
  rw [slotAt_holds hk, decide_eq_true_eq]

theorem mem_liveIds_iff (h : bs.blockPages = 1) {m : Image} {k : UInt32} (hk : ValidId k) :
    k ∈ bs.liveIds m ↔ bs.contents m k ≠ none := by
  rw [mem_liveIds, contents_eq_lookup h m hk, ne_eq, lookup_eq_none]
  simp [hk]

/-- A live slot puts its id among the live ids. -/
theorem live_of_slot {m : Image} {i : ℕ} (hi : i < bs.slots) (hfree : bs.slotAt m i ≠ .free)
    (hdead : bs.slotAt m i ≠ .dead) :
    ∃ k ∈ bs.liveIds m, (bs.slotAt m i).holds k = true := by
  have hv : ValidId (word32 m (bs.page i)) :=
    ⟨fun hw => hdead (slotAt_dead.mpr hw), fun hw => hfree (slotAt_free.mpr hw)⟩
  have hh : (bs.slotAt m i).holds (word32 m (bs.page i)) = true := by
    rw [slotAt_holds hv, decide_eq_true_eq]
  exact ⟨_, mem_liveIds.mpr ⟨hv, i, hi, hh⟩, hh⟩

/-- Without room every sector keeps a live block, each with an id of its own. -/
theorem room_of_few {m : Image} (hu : Unique bs.slots (bs.slotAt m))
    (hfew : (bs.liveIds m).card < bs.sectors) : bs.Room m := by
  by_contra hroom
  rw [Room, not_or] at hroom
  obtain ⟨hnofree, hnodead⟩ := hroom
  refine absurd (hu.groups_le (g := bs.sectors) (w := 16) fun a ha => ?_) hfew.not_ge
  have hsector : ¬bs.DeadSector m a := fun hdead => hnodead ⟨a, ha, hdead⟩
  simp only [DeadSector, not_forall] at hsector
  obtain ⟨i, hia, hlive⟩ := hsector
  have hi : i < bs.slots := by
    unfold slots
    omega
  exact ⟨i, hi, hia, live_of_slot hi (fun hfree => hnofree ⟨i, hi, hfree⟩) hlive⟩

theorem Rep.saves (h : bs.blockPages = 1) {c : Chip} (hr : bs.Rep c) {k : UInt32}
    {data : List UInt8} (hop : (StorageOp.save k data).Valid)
    (hfew : (bs.liveIds c.image).card < bs.sectors) :
    (bs.findFree c).1.isSome = true ∧ (bs.saveBlock c k data).1 = true ∧
      bs.contents (bs.saveBlock c k data).2.image k = some (padded data) := by
  have hstores : (bs.saveBlock c k data).1 = true :=
    (saveBlock_stores_iff h hr.clean hr.runs k data).mpr (room_of_few hr.unique hfew)
  refine ⟨?_, hstores, ?_⟩
  · by_contra hnone
    rw [Option.not_isSome_iff_eq_none] at hnone
    rw [saveBlock_of_full hnone] at hstores
    cases hstores
  · rw [contents_eq_lookup h _ hop.1, (hr.saveBlock h hop.1 hop.2.1 hop.2.2).2, if_pos hstores,
      Function.update_self]

/-- `FindBlock` takes the lowest free block. -/
theorem findFree_lowest (h : bs.blockPages = 1) {c : Chip} {d : ℕ} (hd : d < bs.slots)
    (hfree : bs.slotAt c.image d = .free) (hlow : ∀ j < d, bs.slotAt c.image j ≠ .free) :
    bs.findFree c = (some (bs.page d), c) := by
  have hfound : bs.findBlock c.image blockFree = some (bs.page d) := by
    cases hf : bs.findBlock c.image blockFree with
    | none => exact absurd (slotAt_free.mp hfree) ((findBlock_none h).mp hf d hd)
    | some a =>
        obtain ⟨i, -, rfl, hw, hmin⟩ := findBlock_some h hf
        rcases Nat.lt_trichotomy i d with hlt | rfl | hgt
        · exact absurd (slotAt_free.mpr hw) (hlow i hlt)
        · rfl
        · exact absurd (slotAt_free.mp hfree) (hmin d hgt)
  unfold findFree
  rw [hfound]

/-- A save fills the lowest free slot and kills the slots of its id. -/
theorem Rep.saveBlock_lowest (h : bs.blockPages = 1) {c : Chip} (hr : bs.Rep c) {k : UInt32}
    {data : List UInt8} (hop : (StorageOp.save k data).Valid) {d : ℕ} (hd : d < bs.slots)
    (hfree : bs.slotAt c.image d = .free) (hlow : ∀ j < d, bs.slotAt c.image j ≠ .free) :
    bs.slotAt (bs.saveBlock c k data).2.image =
      Function.update (bs.slotAt (bs.clearBlock c k).image) d (.live k (padded data)) := by
  obtain ⟨hk, h₀, hlen⟩ := hop
  have hr' := (hr.clearBlock h hk).1
  have hprog := program_slots hk hlen hr'.clean hd (clearBlock_keeps_free h hk hfree)
  rw [if_pos (hr'.runs _)] at hprog
  unfold BlockStorage.saveBlock
  rw [findFree_lowest h hd hfree hlow]
  simp only [pgmCallback_onePage h₀ hlen]
  exact hprog

/-- Clearing an id makes its slots dead and leaves the others. -/
theorem Rep.clearBlock_slot (h : bs.blockPages = 1) {c : Chip} (hr : bs.Rep c) {k : UInt32}
    (hk : ValidId k) {i : ℕ} (hi : i < bs.slots) :
    bs.slotAt (bs.clearBlock c k).image i =
      if (bs.slotAt c.image i).holds k then .dead else bs.slotAt c.image i := by
  rcases clearBlock_cases h c hk with ⟨he, habs⟩ | ⟨e, hen, hh, -, he⟩
  · rw [he, habs i hi, if_neg (by simp)]
  · rw [he, deletePage_slots, if_pos (hr.runs _)]
    by_cases hie : i = e
    · rw [hie, Function.update_self, hh, if_pos rfl]
    · have hnot : (bs.slotAt c.image i).holds k = false := by
        by_contra hc
        exact hie (hr.unique k i hi e hen (by simpa using hc) hh)
      rw [Function.update_of_ne hie, hnot, if_neg (by simp)]

/-- The id of the lasting record of a sector. -/
def keptId (sector : ℕ) : UInt32 := UInt32.ofNat (sector + 1)

/-- The id that is saved over and over. -/
def churnId (bs : BlockStorage) : UInt32 := UInt32.ofNat (bs.sectors + 1)

/-- The save that fills slot `i` of the run. -/
def fragmentSave (bs : BlockStorage) (i : ℕ) : StorageOp :=
  .save (if i % 16 = 0 then keptId (i / 16) else bs.churnId) [1]

def fragmentSaves (bs : BlockStorage) (i : ℕ) : List StorageOp :=
  (List.range i).map bs.fragmentSave

/-- After `i` saves: the first slot of each sector is live, and the others below `i`
are dead or hold the churned id. -/
structure Fragmented (bs : BlockStorage) (m : Image) (i : ℕ) : Prop where
  ahead : ∀ j < bs.slots, i ≤ j → bs.slotAt m j = .free
  kept : ∀ j < i, j % 16 = 0 → (bs.slotAt m j).holds (keptId (j / 16)) = true
  churned : ∀ j < i, j % 16 ≠ 0 → bs.slotAt m j = .dead ∨ (bs.slotAt m j).holds bs.churnId = true

section Fragment
variable (hfit : bs.sectors * flashSectorSize ≤ 2 ^ 32)
include hfit

theorem sectors_small : bs.sectors ≤ 2 ^ 20 := by
  unfold flashSectorSize at hfit
  omega

theorem id_inj {a b : ℕ} (ha : a ≤ bs.sectors + 2) (hb : b ≤ bs.sectors + 2)
    (hab : UInt32.ofNat a = UInt32.ofNat b) : a = b := by
  have hsmall := sectors_small hfit
  have htoNat := congrArg UInt32.toNat hab
  rw [UInt32.toNat_ofNat', UInt32.toNat_ofNat', Nat.mod_eq_of_lt (by omega),
    Nat.mod_eq_of_lt (by omega)] at htoNat
  exact htoNat

theorem validId_small {a : ℕ} (h₀ : 0 < a) (ha : a ≤ bs.sectors + 2) :
    ValidId (UInt32.ofNat a) := by
  have hsmall := sectors_small hfit
  constructor <;> intro he
  all_goals
    have htoNat := congrArg UInt32.toNat he
    rw [UInt32.toNat_ofNat', Nat.mod_eq_of_lt (by omega)] at htoNat
  · rw [show blockEmpty.toNat = 0 from rfl] at htoNat
    omega
  · rw [show blockFree.toNat = 4294967295 from rfl] at htoNat
    omega

theorem fragmentSave_valid {i : ℕ} (hi : i < bs.slots) : (bs.fragmentSave i).Valid := by
  unfold slots at hi
  refine ⟨?_, by decide, by decide⟩
  split_ifs
  · exact validId_small hfit (Nat.succ_pos _) (by omega)
  · exact validId_small hfit (Nat.succ_pos _) (by omega)

theorem keptId_ne_churnId {a : ℕ} (ha : a < bs.sectors) : keptId a ≠ bs.churnId := by
  intro he
  have hab := id_inj hfit (by omega) (by omega) he
  omega

theorem Fragmented.step (h : bs.blockPages = 1) {c : Chip} (hr : bs.Rep c) {i : ℕ}
    (hi : i < bs.slots) (hf : bs.Fragmented c.image i) :
    bs.Fragmented (bs.apply c (bs.fragmentSave i)).image (i + 1) := by
  have hvalid := fragmentSave_valid hfit hi
  have hlow : ∀ j < i, bs.slotAt c.image j ≠ .free := by
    intro j hj hfree
    by_cases hmod : j % 16 = 0
    · have hk := hf.kept j hj hmod
      rw [hfree] at hk
      cases hk
    · rcases hf.churned j hj hmod with hdead | hk <;> rw [hfree] at *
      · cases hdead
      · cases hk
  set k : UInt32 := if i % 16 = 0 then keptId (i / 16) else bs.churnId with hkdef
  have hslots := hr.saveBlock_lowest h (show (StorageOp.save k [1]).Valid from hvalid) hi
    (hf.ahead i hi le_rfl) hlow
  have hother : ∀ j < bs.slots, j ≠ i → bs.slotAt (bs.saveBlock c k [1]).2.image j =
      if (bs.slotAt c.image j).holds k then .dead else bs.slotAt c.image j := by
    intro j hj hji
    rw [hslots, Function.update_of_ne hji, hr.clearBlock_slot h hvalid.1 hj]
  change bs.Fragmented (bs.saveBlock c k [1]).2.image (i + 1)
  refine ⟨fun j hj hij => ?_, fun j hj hmod => ?_, fun j hj hmod => ?_⟩
  · rw [hother j hj (by omega), hf.ahead j hj (by omega), holds_free, if_neg (by simp)]
  · rcases Nat.lt_succ_iff_lt_or_eq.mp hj with hlt | rfl
    · have hne : keptId (j / 16) ≠ k := by
        unfold slots at hi
        rw [hkdef]
        split_ifs with hi16
        · intro he
          have hdiv := id_inj hfit (by omega) (by omega) he
          omega
        · exact keptId_ne_churnId hfit (by omega)
      obtain ⟨v, hv⟩ := Slot.holds_iff.mp (hf.kept j hlt hmod)
      rw [hother j (by omega) (by omega), hv, holds_live, decide_eq_false hne, if_neg (by simp),
        holds_live, decide_eq_true rfl]
    · rw [hslots, Function.update_self, holds_live, hkdef, if_pos hmod, decide_eq_true rfl]
  · rcases Nat.lt_succ_iff_lt_or_eq.mp hj with hlt | rfl
    · rw [hother j (by omega) (by omega)]
      split_ifs
      · exact .inl rfl
      · exact hf.churned j hlt hmod
    · right
      rw [hslots, Function.update_self, holds_live, hkdef, if_neg hmod, decide_eq_true rfl]

theorem fragmented_run (h : bs.blockPages = 1) {c : Chip} (hok : ∀ i, c.verdict i = true)
    {i : ℕ} (hi : i ≤ bs.slots) :
    bs.Rep (bs.run (bs.format c) (bs.fragmentSaves i)) ∧
      bs.Fragmented (bs.run (bs.format c) (bs.fragmentSaves i)).image i := by
  induction i with
  | zero =>
      refine ⟨rep_format hok, fun j hj _ => ?_, fun j hj => ?_, fun j hj => ?_⟩
      · exact (@format_spec bs c (hok c.calls)).2 j hj
      · omega
      · omega
  | succ i ih =>
      obtain ⟨hr, hf⟩ := ih (by omega)
      have hrun : bs.run (bs.format c) (bs.fragmentSaves (i + 1)) =
          bs.apply (bs.run (bs.format c) (bs.fragmentSaves i)) (bs.fragmentSave i) := by
        simp [run, fragmentSaves, List.range_succ]
      rw [hrun]
      exact ⟨hr.apply h (fragmentSave_valid hfit hi), hf.step hfit h hr hi⟩

/-- The whole run: the churned id is cleared at the end. -/
def fragmentRun (bs : BlockStorage) : List StorageOp :=
  bs.fragmentSaves bs.slots ++ [.clear bs.churnId]

theorem fragmentRun_valid : ∀ op ∈ bs.fragmentRun, op.Valid := by
  intro op hop
  rcases List.mem_append.mp hop with hop | hop
  · obtain ⟨i, hi, rfl⟩ := List.mem_map.mp hop
    exact fragmentSave_valid hfit (List.mem_range.mp hi)
  · rw [List.mem_singleton.mp hop]
    exact validId_small hfit (Nat.succ_pos _) (by omega)

/-- The first slot of every sector is live and every other slot is dead. -/
theorem fragmentRun_slots (h : bs.blockPages = 1) {c : Chip} (hok : ∀ i, c.verdict i = true)
    {j : ℕ} (hj : j < bs.slots) :
    if j % 16 = 0 then
      (bs.slotAt (bs.run (bs.format c) bs.fragmentRun).image j).holds (keptId (j / 16)) = true
    else bs.slotAt (bs.run (bs.format c) bs.fragmentRun).image j = .dead := by
  obtain ⟨hr, hf⟩ := fragmented_run hfit h hok le_rfl
  have hrun : bs.run (bs.format c) bs.fragmentRun =
      bs.clearBlock (bs.run (bs.format c) (bs.fragmentSaves bs.slots)) bs.churnId := by
    simp [run, fragmentRun]
  have hchurnId : ValidId bs.churnId := validId_small hfit (Nat.succ_pos _) (by omega)
  rw [hrun, hr.clearBlock_slot h hchurnId hj]
  by_cases hmod : j % 16 = 0
  · have hne : keptId (j / 16) ≠ bs.churnId := by
      unfold slots at hj
      exact keptId_ne_churnId hfit (by omega)
    obtain ⟨v, hv⟩ := Slot.holds_iff.mp (hf.kept j hj hmod)
    rw [if_pos hmod, hv, holds_live, decide_eq_false hne, if_neg (by simp), holds_live,
      decide_eq_true rfl]
  · rw [if_neg hmod]
    split_ifs with hchurn
    · rfl
    · exact (hf.churned j hj hmod).resolve_right hchurn

theorem fragmentRun_full (h : bs.blockPages = 1) {c : Chip} (hok : ∀ i, c.verdict i = true) :
    ¬bs.Room (bs.run (bs.format c) bs.fragmentRun).image := by
  rintro (⟨i, hi, hfree⟩ | ⟨a, ha, hdead⟩)
  · have hslot := fragmentRun_slots hfit h hok hi
    rw [hfree] at hslot
    split_ifs at hslot
    cases hslot
  · have hslot := fragmentRun_slots hfit h hok (j := a * 16) (by unfold slots; omega)
    rw [if_pos (by omega), hdead (a * 16) (by omega)] at hslot
    cases hslot

theorem fragmentRun_liveIds (h : bs.blockPages = 1) {c : Chip} (hok : ∀ i, c.verdict i = true) :
    bs.liveIds (bs.run (bs.format c) bs.fragmentRun).image =
      (Finset.range bs.sectors).image keptId := by
  ext k
  rw [mem_liveIds, Finset.mem_image]
  constructor
  · rintro ⟨-, i, hi, hh⟩
    have hslot := fragmentRun_slots hfit h hok hi
    split_ifs at hslot
    · obtain ⟨v, hv⟩ := Slot.holds_iff.mp hh
      rw [hv, holds_live, decide_eq_true_eq] at hslot
      unfold slots at hi
      exact ⟨i / 16, Finset.mem_range.mpr (by omega), hslot.symm⟩
    · rw [hslot] at hh
      cases hh
  · rintro ⟨a, ha, rfl⟩
    have ha := Finset.mem_range.mp ha
    have hslot := fragmentRun_slots hfit h hok (j := a * 16) (by unfold slots; omega)
    rw [if_pos (by omega), Nat.mul_div_cancel _ (by decide)] at hslot
    exact ⟨validId_small hfit (Nat.succ_pos a) (by omega), a * 16, by unfold slots; omega, hslot⟩

theorem fragmentRun_card (h : bs.blockPages = 1) {c : Chip} (hok : ∀ i, c.verdict i = true) :
    (bs.liveIds (bs.run (bs.format c) bs.fragmentRun).image).card = bs.sectors := by
  rw [fragmentRun_liveIds hfit h hok, Finset.card_image_of_injOn, Finset.card_range]
  intro a ha b hb hab
  have ha := Finset.mem_range.mp ha
  have hb := Finset.mem_range.mp hb
  have hsucc := id_inj hfit (by omega) (by omega) hab
  omega

theorem churnId_not_live (h : bs.blockPages = 1) {c : Chip} (hok : ∀ i, c.verdict i = true) :
    bs.churnId ∉ bs.liveIds (bs.run (bs.format c) bs.fragmentRun).image := by
  rw [fragmentRun_liveIds hfit h hok, Finset.mem_image]
  rintro ⟨a, ha, he⟩
  exact keptId_ne_churnId hfit (Finset.mem_range.mp ha) he

end Fragment

/-- The storage with `n` sectors always stores when fewer than `n` ids are live, and
no larger number of live ids is enough: some run leaves `n` live ids and stores
nothing for any further one. -/
theorem storage_capacity (h : bs.blockPages = 1) :
    (∀ c : Chip, (∀ i, c.verdict i = true) → ∀ ops : List StorageOp, (∀ op ∈ ops, op.Valid) →
      ∀ k data, (StorageOp.save k data).Valid →
      (bs.liveIds (bs.run (bs.format c) ops).image).card < bs.sectors →
      (bs.findFree (bs.run (bs.format c) ops)).1.isSome = true ∧
      (bs.saveBlock (bs.run (bs.format c) ops) k data).1 = true ∧
      bs.contents (bs.saveBlock (bs.run (bs.format c) ops) k data).2.image k =
        some (padded data)) ∧
    (bs.sectors * flashSectorSize ≤ 2 ^ 32 →
      ∀ c : Chip, (∀ i, c.verdict i = true) → ∃ ops : List StorageOp, (∀ op ∈ ops, op.Valid) ∧
      (bs.liveIds (bs.run (bs.format c) ops).image).card = bs.sectors ∧
      (∃ k, ValidId k ∧ k ∉ bs.liveIds (bs.run (bs.format c) ops).image) ∧
      ∀ k data, (StorageOp.save k data).Valid →
        k ∉ bs.liveIds (bs.run (bs.format c) ops).image →
        (bs.saveBlock (bs.run (bs.format c) ops) k data).1 = false ∧
        bs.contents (bs.saveBlock (bs.run (bs.format c) ops) k data).2.image k = none) := by
  refine ⟨fun c hok ops hops k data hop hfew => ?_, fun hfit c hok => ?_⟩
  · exact ((rep_format hok).run h hops).1.saves h hop hfew
  · have hvalid := fragmentRun_valid hfit
    have hrep := ((rep_format hok).run h hvalid).1
    refine ⟨bs.fragmentRun, hvalid, fragmentRun_card hfit h hok, ⟨bs.churnId, ?_, ?_⟩,
      fun k data hop hk => ?_⟩
    · exact validId_small hfit (Nat.succ_pos _) (by omega)
    · exact churnId_not_live hfit h hok
    · have hfull : (bs.saveBlock (bs.run (bs.format c) bs.fragmentRun) k data).1 = false := by
        rw [← Bool.not_eq_true, saveBlock_stores_iff h hrep.clean hrep.runs k data]
        exact fragmentRun_full hfit h hok
      refine ⟨hfull, ?_⟩
      rw [mem_liveIds_iff h hop.1, not_not, contents_eq_lookup h _ hop.1] at hk
      rw [contents_eq_lookup h _ hop.1, (hrep.saveBlock h hop.1 hop.2.1 hop.2.2).2, hfull,
        if_neg (by simp), hk]

/-- One page in each block and two sectors. -/
def twoSectors : BlockStorage := create 4096 (2 * 4096) 252

theorem storage_capacity_twoSectors :
    ((twoSectors.saveBlock (twoSectors.run (twoSectors.format healthyChip) [.save 1 [1]])
      2 [2]).1 = true) ∧
    ∃ ops : List StorageOp,
      (twoSectors.liveIds (twoSectors.run (twoSectors.format healthyChip) ops).image).card = 2 :=
  ⟨((storage_capacity (show twoSectors.blockPages = 1 by decide)).1 healthyChip (fun _ => rfl) [.save 1 [1]]
      (by decide) 2 [2] (by decide) (by decide +kernel)).2.1,
    let ⟨ops, _, hcard, _⟩ :=
      (storage_capacity (show twoSectors.blockPages = 1 by decide)).2 (by decide) healthyChip fun _ => rfl
    ⟨ops, hcard⟩⟩

end PicoSomfy.BlockStorage
