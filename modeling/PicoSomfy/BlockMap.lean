import PicoSomfy.BlockSpecs

/-!
# Block storage refines a finite map

The abstract store is the history of its operations: a `SaveBlock` that stored
sets the answer for its id and a `ClearBlock` removes it. With every flash call
run, what `GetBlock` returns after any history is what the history says, through
any number of reclaimed sectors.
-/
namespace PicoSomfy.BlockStorage

open NorFlash SlotStore

inductive StorageOp where
  | save (blockId : UInt32) (data : List UInt8)
  | clear (blockId : UInt32)
  deriving DecidableEq, Repr

def StorageOp.blockId : StorageOp → UInt32
  | .save blockId _ => blockId
  | .clear blockId => blockId

/-- Ids that are not header marks, and data that fits behind the header. -/
def StorageOp.Valid : StorageOp → Prop
  | .save blockId data => ValidId blockId ∧ 0 < data.length ∧ data.length ≤ flashPageSize - 4
  | .clear blockId => ValidId blockId

instance (op : StorageOp) : Decidable op.Valid := by
  cases op <;> unfold StorageOp.Valid <;> infer_instance

variable (bs : BlockStorage)

def apply (c : Chip) : StorageOp → Chip
  | .save blockId data => (bs.saveBlock c blockId data).2
  | .clear blockId => bs.clearBlock c blockId

@[simp] theorem apply_save (c : Chip) (k : UInt32) (data : List UInt8) :
    bs.apply c (.save k data) = (bs.saveBlock c k data).2 := rfl

@[simp] theorem apply_clear (c : Chip) (k : UInt32) :
    bs.apply c (.clear k) = bs.clearBlock c k := rfl

/-- Whether the operation is a `SaveBlock` that stores its data. -/
def stores (c : Chip) : StorageOp → Bool
  | .save blockId data => (bs.saveBlock c blockId data).1
  | .clear _ => false

def run (c : Chip) (ops : List StorageOp) : Chip := ops.foldl bs.apply c

/-- The history of a run: each operation with whether it stored. -/
def history : Chip → List StorageOp → List (StorageOp × Bool)
  | _, [] => []
  | c, op :: ops => (op, bs.stores c op) :: history (bs.apply c op) ops

/-- One entry of the history, seen from one id. -/
def answer (blockId : UInt32) (ans : Option (List UInt8)) : StorageOp × Bool → Option (List UInt8)
  | (.save k data, true) => if k = blockId then some (padded data) else ans
  | (.save _ _, false) => ans
  | (.clear k, _) => if k = blockId then none else ans

/-- The data of the latest save of an id that stored, unless it was cleared later. -/
def latest (blockId : UInt32) (hist : List (StorageOp × Bool)) : Option (List UInt8) :=
  hist.foldl (answer blockId) none

/-- At most one block has the id. -/
def OneBlock (m : Image) (blockId : UInt32) : Prop :=
  ∀ i < bs.slots, ∀ j < bs.slots,
    word32 m (bs.page i) = blockId → word32 m (bs.page j) = blockId → i = j

/-- At most one live block for each id. -/
def OneBlockEach (m : Image) : Prop := ∀ blockId, ValidId blockId → bs.OneBlock m blockId

variable {bs}

/-- Killing the lowest slot of one id does not act on the answers for others. -/
theorem clearBlock_other (h : bs.blockPages = 1) (c : Chip) {k blockId : UInt32}
    (hk : ValidId k) (hv : ValidId blockId) (hne : blockId ≠ k) :
    bs.contents (bs.clearBlock c k).image blockId = bs.contents c.image blockId := by
  rcases clearBlock_cases h c hk with ⟨he, -⟩ | ⟨e, -, hh, -, he⟩
  · rw [he]
  · obtain ⟨v, hv'⟩ := Slot.holds_iff.mp hh
    rw [he, contents_eq_lookup h _ hv, contents_eq_lookup h _ hv, deletePage_slots]
    split_ifs
    · exact lookup_update_other (by simp [hv', hne.symm]) rfl
    · rfl

/-- Whatever flash calls are refused, saving one id leaves the other answers. -/
theorem saveBlock_other (h : bs.blockPages = 1) {c : Chip} (hc : bs.Clean c.image)
    {k blockId : UInt32} {data : List UInt8} (hk : ValidId k) (h₀ : 0 < data.length)
    (hd : data.length ≤ flashPageSize - 4) (hv : ValidId blockId) (hne : blockId ≠ k) :
    bs.contents (bs.saveBlock c k data).2.image blockId = bs.contents c.image blockId := by
  obtain ⟨c₁, -, hc₁, hr, hs⟩ := saveBlock_cases h hc k h₀ hd
  have hreclaim : bs.contents c₁.image blockId = bs.contents c.image blockId := by
    rw [contents_eq_lookup h _ hv, contents_eq_lookup h _ hv, hr.lookup]
  rcases hs with ⟨hs, -⟩ | ⟨d, hdn, hfree, hs⟩
  · rw [hs, hreclaim]
  · rw [hs, ← hreclaim, ← clearBlock_other h c₁ hk hv hne, contents_eq_lookup h _ hv,
      contents_eq_lookup h _ hv, program_slots hk hd (clearBlock_clean h hk hc₁) hdn
        (clearBlock_keeps_free h hk hfree)]
    split_ifs
    · exact lookup_update_other (by simp [clearBlock_keeps_free h hk hfree])
        (by simp [hne.symm])
    · rfl

theorem saveBlock_of_full {c : Chip} {k : UInt32} {data : List UInt8}
    (hfull : (bs.findFree c).1 = none) :
    bs.saveBlock c k data = (false, (bs.findFree c).2) := by
  unfold saveBlock
  generalize bs.findFree c = r at *
  obtain ⟨free, c₁⟩ := r
  simp only at hfull
  subst hfull
  rfl

/-- A save that finds no free block changes no answer. -/
theorem saveBlock_full (h : bs.blockPages = 1) {c : Chip} (hc : bs.Clean c.image)
    {k : UInt32} {data : List UInt8} (hfull : (bs.findFree c).1 = none)
    {blockId : UInt32} (hv : ValidId blockId) :
    bs.contents (bs.saveBlock c k data).2.image blockId = bs.contents c.image blockId := by
  obtain ⟨-, -, hr, -⟩ := findFree_spec h hc
  rw [saveBlock_of_full hfull, contents_eq_lookup h _ hv, contents_eq_lookup h _ hv, hr.lookup]

/-- The representation invariant of such a run. -/
structure Rep (bs : BlockStorage) (c : Chip) : Prop where
  runs : ∀ i, c.verdict i = true
  clean : bs.Clean c.image
  unique : Unique bs.slots (bs.slotAt c.image)

theorem Rep.of_follows {c c' : Chip} (h : bs.Rep c) (hf : c.Follows c')
    (hc : bs.Clean c'.image) (hu : Unique bs.slots (bs.slotAt c'.image)) : bs.Rep c' :=
  ⟨fun i => by rw [hf.verdict]; exact h.runs i, hc, hu⟩

theorem Rep.reclaim {c c' : Chip} (h : bs.Rep c) (hf : c.Follows c') (hc : bs.Clean c'.image)
    (hr : Reclaimed bs.slots (bs.slotAt c.image) (bs.slotAt c'.image)) : bs.Rep c' :=
  h.of_follows hf hc (hr.unique h.unique)

theorem rep_format {c : Chip} (hok : ∀ i, c.verdict i = true) : bs.Rep (bs.format c) := by
  obtain ⟨hc, hfree⟩ := @format_spec bs c (hok c.calls)
  refine ⟨fun i => by rw [format, flashSafeExecute_verdict]; exact hok i, hc, ?_⟩
  intro k i hi _ _ hki
  rw [hfree i hi] at hki
  cases hki

theorem lookup_format {c : Chip} (hok : ∀ i, c.verdict i = true) (k : UInt32) :
    lookup bs.slots (bs.slotAt (bs.format c).image) k = none := by
  rw [lookup_eq_none]
  intro i hi
  rw [(@format_spec bs c (hok c.calls)).2 i hi, holds_free]

/-- Clearing removes the answer of its id, and no slot holds the id afterwards. -/
theorem Rep.clearBlock (h : bs.blockPages = 1) {c : Chip} (hr : bs.Rep c) {k : UInt32}
    (hk : ValidId k) :
    bs.Rep (bs.clearBlock c k) ∧
      lookup bs.slots (bs.slotAt (bs.clearBlock c k).image) =
        Function.update (lookup bs.slots (bs.slotAt c.image)) k none ∧
      ∀ i < bs.slots, (bs.slotAt (bs.clearBlock c k).image i).holds k = false := by
  have hclean := clearBlock_clean h hk hr.clean
  have hslots : lookup bs.slots (bs.slotAt (bs.clearBlock c k).image) =
      Function.update (lookup bs.slots (bs.slotAt c.image)) k none ∧
      Unique bs.slots (bs.slotAt (bs.clearBlock c k).image) := by
    rcases clearBlock_cases h c hk with ⟨he, habs⟩ | ⟨e, hen, hh, -, he⟩
    · rw [he]
      exact ⟨by rw [Function.update_eq_self_iff.mpr (lookup_eq_none.mpr habs).symm], hr.unique⟩
    · rw [he, deletePage_slots, if_pos (hr.runs _)]
      exact ⟨hr.unique.lookup_kill hen hh, hr.unique.kill e⟩
  refine ⟨hr.of_follows (clearBlock_follows c k) hclean hslots.2, hslots.1, ?_⟩
  apply lookup_eq_none.mp
  rw [hslots.1, Function.update_self]

/-- A save either finds no free slot and changes no answer, or stores its data. -/
theorem Rep.saveBlock (h : bs.blockPages = 1) {c : Chip} (hr : bs.Rep c) {k : UInt32}
    (hk : ValidId k) {data : List UInt8} (h₀ : 0 < data.length)
    (hd : data.length ≤ flashPageSize - 4) :
    bs.Rep (bs.saveBlock c k data).2 ∧
      lookup bs.slots (bs.slotAt (bs.saveBlock c k data).2.image) =
        if (bs.saveBlock c k data).1 then
          Function.update (lookup bs.slots (bs.slotAt c.image)) k (some (padded data))
        else lookup bs.slots (bs.slotAt c.image) := by
  obtain ⟨c₁, hf, hc₁, hre, hs⟩ := saveBlock_cases h hr.clean k h₀ hd
  have hr₁ := hr.reclaim hf hc₁ hre
  rcases hs with ⟨hs, -⟩ | ⟨d, hdn, hfree, hs⟩
  · rw [hs]
    exact ⟨hr₁, hre.lookup⟩
  · obtain ⟨hr₂, hl, habs⟩ := hr₁.clearBlock h hk
    have hfree₂ := clearBlock_keeps_free h hk hfree
    have hp := program_slots hk hd hr₂.clean hdn hfree₂
    rw [if_pos (hr₂.runs _)] at hp
    rw [hs, flashSafeExecute_result, hr₂.runs, if_pos rfl]
    refine ⟨hr₂.of_follows (Chip.follows_execute _ _)
      (program_clean hk hd hr₂.clean hdn hfree₂) ?_, ?_⟩
    · rw [hp]
      exact hr₂.unique.fill _ habs
    · rw [hp, lookup_fill hdn hfree₂ habs, hl, hre.lookup, Function.update_idem]

theorem Rep.apply (h : bs.blockPages = 1) {c : Chip} (hr : bs.Rep c) {op : StorageOp}
    (hop : op.Valid) : bs.Rep (bs.apply c op) := by
  cases op with
  | save k data => exact (hr.saveBlock h hop.1 hop.2.1 hop.2.2).1
  | clear k => exact (hr.clearBlock h hop).1

/-- One operation changes the answers as its history entry says. -/
theorem Rep.lookup_apply (h : bs.blockPages = 1) {c : Chip} (hr : bs.Rep c) {op : StorageOp}
    (hop : op.Valid) (blockId : UInt32) :
    lookup bs.slots (bs.slotAt (bs.apply c op).image) blockId =
      answer blockId (lookup bs.slots (bs.slotAt c.image) blockId) (op, bs.stores c op) := by
  cases op with
  | save k data =>
      have hs := congrFun (hr.saveBlock h hop.1 hop.2.1 hop.2.2).2 blockId
      refine hs.trans ?_
      change _ = answer blockId _ (.save k data, (bs.saveBlock c k data).1)
      cases (bs.saveBlock c k data).1 with
      | false => rfl
      | true => simp [answer, Function.update_apply, eq_comm]
  | clear k =>
      refine (congrFun (hr.clearBlock h hop).2.1 blockId).trans ?_
      change _ = answer blockId _ (.clear k, false)
      simp [answer, Function.update_apply, eq_comm]

theorem Rep.run (h : bs.blockPages = 1) {c : Chip} (hr : bs.Rep c) {ops : List StorageOp}
    (hops : ∀ op ∈ ops, op.Valid) :
    bs.Rep (bs.run c ops) ∧ ∀ blockId,
      lookup bs.slots (bs.slotAt (bs.run c ops).image) blockId =
        (bs.history c ops).foldl (answer blockId) (lookup bs.slots (bs.slotAt c.image) blockId) := by
  induction ops generalizing c with
  | nil => exact ⟨hr, fun _ => rfl⟩
  | cons op ops ih =>
      have hop := hops op (by simp)
      obtain ⟨hrep, hl⟩ := ih (hr.apply h hop) fun o ho => hops o (by simp [ho])
      refine ⟨hrep, fun blockId => ?_⟩
      rw [history, List.foldl_cons, ← hr.lookup_apply h hop blockId]
      exact hl blockId

/-- When the calls that run are those before some call, a second block of an id
is never programmed before the first is deleted. -/
theorem saveBlock_unique (h : bs.blockPages = 1) {c : Chip} (hc : bs.Clean c.image)
    (hu : Unique bs.slots (bs.slotAt c.image)) (hcut : c.PowerCut) {k : UInt32} (hk : ValidId k)
    {data : List UInt8} (h₀ : 0 < data.length) (hd : data.length ≤ flashPageSize - 4) :
    Unique bs.slots (bs.slotAt (bs.saveBlock c k data).2.image) := by
  obtain ⟨c₁, hf, hc₁, hre, hs⟩ := saveBlock_cases h hc k h₀ hd
  have hu₁ := hre.unique hu
  rcases hs with ⟨hs, -⟩ | ⟨d, hdn, hfree, hs⟩
  · rwa [hs]
  rw [hs, program_slots hk hd (clearBlock_clean h hk hc₁) hdn (clearBlock_keeps_free h hk hfree)]
  rcases clearBlock_cases h c₁ hk with ⟨he, habs⟩ | ⟨e, hen, hh, -, he⟩
  · rw [he]
    split_ifs
    · exact hu₁.fill _ habs
    · exact hu₁
  · rw [he, deletePage_slots, (deletePage_follows c₁ _).verdict]
    unfold deletePage
    rw [flashSafeExecute_calls, hf.verdict]
    cases hdel : c.verdict c₁.calls with
    | false =>
        -- the program comes after the refused delete, so it is refused too
        have hprog : c.verdict (c₁.calls + 1) = false := by
          by_contra hp
          rw [hcut (Nat.le_succ _) (by simpa using hp)] at hdel
          cases hdel
        rw [hprog]
        exact hu₁
    | true =>
        have habs : ∀ i < bs.slots,
            (Function.update (bs.slotAt c₁.image) e Slot.dead i).holds k = false := by
          apply lookup_eq_none.mp
          rw [hu₁.lookup_kill hen hh, Function.update_self]
        simp only [if_true]
        split_ifs
        · exact (hu₁.kill e).fill _ habs
        · exact hu₁.kill e

theorem apply_unique (h : bs.blockPages = 1) {c : Chip} (hc : bs.Clean c.image)
    (hu : Unique bs.slots (bs.slotAt c.image)) (hcut : c.PowerCut) {op : StorageOp}
    (hop : op.Valid) : Unique bs.slots (bs.slotAt (bs.apply c op).image) := by
  cases op with
  | save k data => exact saveBlock_unique h hc hu hcut hop.1 hop.2.1 hop.2.2
  | clear k =>
      rw [apply_clear]
      rcases clearBlock_cases h c hop with ⟨he, -⟩ | ⟨e, -, -, -, he⟩
      · rwa [he]
      · rw [he, deletePage_slots]
        split_ifs
        · exact hu.kill e
        · exact hu

theorem OneBlockEach.of_unique {m : Image} (hu : Unique bs.slots (bs.slotAt m)) :
    bs.OneBlockEach m := by
  intro k hk i hi j hj hwi hwj
  exact hu k i hi j hj (by rw [slotAt_holds hk, decide_eq_true_eq, hwi])
    (by rw [slotAt_holds hk, decide_eq_true_eq, hwj])

theorem apply_other (h : bs.blockPages = 1) {c : Chip} (hc : bs.Clean c.image) {op : StorageOp}
    (hop : op.Valid) {blockId : UInt32} (hv : ValidId blockId) (hne : blockId ≠ op.blockId) :
    bs.contents (bs.apply c op).image blockId = bs.contents c.image blockId := by
  cases op with
  | save k data => exact saveBlock_other h hc hop.1 hop.2.1 hop.2.2 hv hne
  | clear k => exact clearBlock_other h c hop hv hne

/-- From `Format()` on, with every flash call run, the storage answers as its
history: the latest save that stored, until a clear. At every moment, also
between two flash calls of an operation, each id has at most one live block.
An operation acts on its own id only, and a save without a free block on none. -/
theorem storage_refines_map (h : bs.blockPages = 1) {c : Chip} (hok : ∀ i, c.verdict i = true)
    {ops : List StorageOp} (hops : ∀ op ∈ ops, op.Valid) :
    (∀ blockId, ValidId blockId →
      bs.contents (bs.run (bs.format c) ops).image blockId =
        latest blockId (bs.history (bs.format c) ops)) ∧
    (∀ op : StorageOp, op.Valid → ∀ k,
      bs.OneBlockEach (bs.apply ((bs.run (bs.format c) ops).cut k) op).image) ∧
    (∀ op : StorageOp, op.Valid → ∀ blockId, ValidId blockId → blockId ≠ op.blockId →
      bs.contents (bs.apply (bs.run (bs.format c) ops) op).image blockId =
        bs.contents (bs.run (bs.format c) ops).image blockId) ∧
    (∀ k data, (StorageOp.save k data).Valid →
      (bs.findFree (bs.run (bs.format c) ops)).1 = none → ∀ blockId, ValidId blockId →
      bs.contents (bs.apply (bs.run (bs.format c) ops) (.save k data)).image blockId =
        bs.contents (bs.run (bs.format c) ops).image blockId) := by
  obtain ⟨hrep, hl⟩ := (rep_format hok).run h hops
  generalize bs.run (bs.format c) ops = c' at *
  refine ⟨fun blockId hv => ?_, fun op hop k => ?_, fun op hop blockId hv hne => ?_,
    fun k data _ hfull blockId hv => ?_⟩
  · rw [contents_eq_lookup h _ hv, hl, lookup_format hok]
    rfl
  · have hcut := Chip.powerCut_cut hrep.runs k
    exact .of_unique (apply_unique (c := c'.cut k) h hrep.clean hrep.unique hcut hop)
  · exact apply_other h hrep.clean hop hv hne
  · exact saveBlock_full h hrep.clean hfull hv

/-- The shipped geometry: the last 32 sectors of two megabytes of flash. -/
def shipped : BlockStorage := create (2 * 1024 * 1024 - 32 * 4096) (32 * 4096) 252

theorem shipped_onePage : shipped.blockPages = 1 := by decide

/-- A chip with arbitrary contents whose flash calls all run. -/
def healthyChip : Chip := ⟨fun _ => 0x5A, fun _ => true, 0⟩

theorem storage_refines_map_shipped :
    (∀ op ∈ [StorageOp.save 0x19841984 [1], .save 0x19841985 [2], .clear 0x19841984], op.Valid) ∧
      shipped.contents (shipped.run (shipped.format healthyChip)
        [.save 0x19841984 [1], .save 0x19841985 [2], .clear 0x19841984]).image 0x19841985 =
        latest 0x19841985 (shipped.history (shipped.format healthyChip)
          [.save 0x19841984 [1], .save 0x19841985 [2], .clear 0x19841984]) :=
  ⟨by decide, (storage_refines_map shipped_onePage (fun _ => rfl) (by decide)).1 0x19841985
    (by decide)⟩

end PicoSomfy.BlockStorage
