import PicoSomfy.ConfigRecords

/-!
# Saves that lose flash calls

`SaveBlock` deletes the old block before it programs the new one, in two calls
that can each be lost. A power cut loses all calls from some point on; a refused
`flash_safe_execute` loses one call and the code goes on. Here every operation
brings the outcomes of its own calls, so a history may mix both.

A save loses no other id and never leaves half of a block. When its delete runs
and its program does not, the id reads as absent. Two blocks of one id exist only
after a delete was lost and the program after it ran. A later save deletes the lower
of them and no more, so the other one answers in its place, also behind a save whose
calls all run.
-/
namespace PicoSomfy.BlockStorage

open NorFlash SlotStore CStrings

/-- An operation and the outcomes of its flash calls, in their order. -/
abbrev Attempt := StorageOp × (ℕ → Bool)

variable (bs : BlockStorage)

def attempt (m : Image) (a : Attempt) : Image := (bs.apply ⟨m, a.2, 0⟩ a.1).image

/-- The image after a history of attempts on a storage that was just formatted. -/
def attempts (m : Image) (as : List Attempt) : Image :=
  as.foldl bs.attempt (bs.format ⟨m, fun _ => true, 0⟩).image

/-- What `GetBlock` answers for one id after one more save. -/
def afterSave (m : Image) (k : UInt32) (data : List UInt8) (outcomes : ℕ → Bool)
    (blockId : UInt32) : Option (List UInt8) :=
  bs.contents (bs.saveBlock ⟨m, outcomes, 0⟩ k data).2.image blockId

/-- The index of the page delete among the calls of `SaveBlock`: the sector erases
come before it and the program right after it. -/
def deleteCall (m : Image) (outcomes : ℕ → Bool) : ℕ := (bs.findFree ⟨m, outcomes, 0⟩).2.calls

/-- The block behind the lowest one with this id. -/
def nextBlock (m : Image) (blockId : UInt32) : Option ℕ :=
  (bs.findBlock m blockId).bind fun existing =>
    bs.blockOffsets.find? fun offset => decide (existing < offset) && word32 m offset == blockId

variable {bs}

theorem page_lt {i j : ℕ} : bs.page i < bs.page j ↔ i < j := by
  unfold page flashPageSize
  omega

theorem nextBlock_eq_next (h : bs.blockPages = 1) (m : Image) {blockId : UInt32}
    (hv : ValidId blockId) :
    bs.nextBlock m blockId = (next bs.slots (bs.slotAt m) blockId).map bs.page := by
  have hword : ∀ i, (word32 m (bs.page i) == blockId) = (bs.slotAt m i).holds blockId := fun i => by
    rw [slotAt_holds hv]
    rfl
  rw [nextBlock, findBlock_onePage h, next]
  simp only [hword]
  cases first bs.slots fun i => (bs.slotAt m i).holds blockId with
  | none => rfl
  | some e =>
      rw [Option.map_some, Option.bind_some, Option.bind_some, blockOffsets_onePage h,
        List.find?_map]
      congr 2
      funext i
      simp only [Function.comp_apply, page_lt, hword]

/-- What the block behind the lowest one holds. -/
theorem nextBlock_contents (h : bs.blockPages = 1) (m : Image) {blockId : UInt32}
    (hv : ValidId blockId) :
    ((bs.nextBlock m blockId).map fun b => bytesAt m (b + 4) (flashPageSize - 4)) =
      (next bs.slots (bs.slotAt m) blockId).bind fun i => (bs.slotAt m i).value? := by
  rw [nextBlock_eq_next h m hv]
  cases hn : next bs.slots (bs.slotAt m) blockId with
  | none => rfl
  | some i =>
      obtain ⟨e, -, hi⟩ := Option.bind_eq_some_iff.mp hn
      have hh := (first_eq_some.mp hi).2.1
      rw [slotAt_holds hv, Bool.and_eq_true, decide_eq_true_eq, decide_eq_true_eq] at hh
      have hs : bs.slotAt m i = .live blockId (bytesAt m (bs.page i + 4) (flashPageSize - 4)) := by
        unfold slotAt
        rw [hh.2, if_neg hv.2, if_neg hv.1]
      rw [Option.map_some, Option.map_some, Option.bind_some, hs, value_live]

theorem OneBlock.nextBlock (h : bs.blockPages = 1) {m : Image} {blockId : UInt32}
    (hv : ValidId blockId) (hone : bs.OneBlock m blockId) : bs.nextBlock m blockId = none := by
  rw [nextBlock_eq_next h m hv, Option.map_eq_none_iff]
  by_contra hsome
  obtain ⟨i, hi⟩ := Option.ne_none_iff_exists'.mp hsome
  obtain ⟨e, he, hi⟩ := Option.bind_eq_some_iff.mp hi
  obtain ⟨hen, hhe, -⟩ := first_eq_some.mp he
  obtain ⟨hin, hhi, -⟩ := first_eq_some.mp hi
  rw [Bool.and_eq_true, decide_eq_true_eq, slotAt_holds hv, decide_eq_true_eq] at hhi
  rw [slotAt_holds hv, decide_eq_true_eq] at hhe
  exact hhi.1.ne (hone e hen i hin hhe hhi.2)

theorem attempts_concat (m : Image) (as : List Attempt) (a : Attempt) :
    bs.attempts m (as ++ [a]) = bs.attempt (bs.attempts m as) a := by
  simp only [attempts, List.foldl_append, List.foldl_cons, List.foldl_nil]

theorem attempt_clean (h : bs.blockPages = 1) {m : Image} (hm : bs.Clean m) {a : Attempt}
    (ha : a.1.Valid) : bs.Clean (bs.attempt m a) := by
  obtain ⟨op, outcomes⟩ := a
  cases op with
  | save k data =>
      exact saveBlock_clean h (c := ⟨m, outcomes, 0⟩) hm ha.1 ha.2.1 ha.2.2
  | clear k => exact clearBlock_clean h (c := ⟨m, outcomes, 0⟩) ha hm

/-- Whatever calls are lost, a free slot stays erased in all of its bytes. -/
theorem attempts_clean (h : bs.blockPages = 1) (m : Image) {as : List Attempt}
    (has : ∀ a ∈ as, a.1.Valid) : bs.Clean (bs.attempts m as) := by
  induction as using List.reverseRecOn with
  | nil => exact (@format_spec bs ⟨m, fun _ => true, 0⟩ rfl).1
  | append_singleton as a ih =>
      rw [attempts_concat]
      exact attempt_clean h (ih fun b hb => has b (by simp [hb])) (has a (by simp))

/-- Power cuts alone never leave two blocks of one id. -/
theorem attempts_unique (h : bs.blockPages = 1) (m : Image) {as : List Attempt}
    (has : ∀ a ∈ as, a.1.Valid)
    (hcut : ∀ a ∈ as, Chip.PowerCut ⟨m, a.2, 0⟩) :
    Unique bs.slots (bs.slotAt (bs.attempts m as)) := by
  induction as using List.reverseRecOn with
  | nil => exact (@rep_format bs ⟨m, fun _ => true, 0⟩ fun _ => rfl).unique
  | append_singleton as a ih =>
      rw [attempts_concat]
      have has' : ∀ b ∈ as, b.1.Valid := fun b hb => has b (by simp [hb])
      have hu := ih has' fun b hb => hcut b (by simp [hb])
      have hlast : Chip.PowerCut ⟨bs.attempts m as, a.2, 0⟩ := hcut a (by simp)
      exact apply_unique (c := ⟨bs.attempts m as, a.2, 0⟩) h (attempts_clean h m has') hu hlast
        (has a (by simp))

section Save
variable {m : Image} {k : UInt32} {data old : List UInt8} {outcomes : ℕ → Bool}

/-- A save that finds a free block: where the old block is, where the new one
goes, and which of the two calls run. -/
theorem save_slots (h : bs.blockPages = 1) (hm : bs.Clean m)
    (hv : (StorageOp.save k data).Valid) (hold : bs.contents m k = some old)
    (hroom : (bs.findFree ⟨m, outcomes, 0⟩).1 ≠ none) :
    ∃ s : Slots UInt32 (List UInt8), ∃ e < bs.slots, ∃ d < bs.slots,
      Reclaimed bs.slots (bs.slotAt m) s ∧
      (bs.findFree ⟨m, outcomes, 0⟩).1 = some (bs.page d) ∧
      s e = .live k old ∧ (∀ j < e, (s j).holds k = false) ∧ s d = .free ∧
      bs.slotAt (bs.saveBlock ⟨m, outcomes, 0⟩ k data).2.image =
        let t := if outcomes (bs.deleteCall m outcomes) then Function.update s e .dead else s
        if outcomes (bs.deleteCall m outcomes + 1) then
          Function.update t d (.live k (padded data)) else t := by
  obtain ⟨hf, hc₁, hre, hfree⟩ := findFree_spec h (c := ⟨m, outcomes, 0⟩) hm
  have hs : ∀ r, r = bs.findFree ⟨m, outcomes, 0⟩ → ∀ a, r.1 = some a →
      bs.saveBlock ⟨m, outcomes, 0⟩ k data =
        (bs.clearBlock r.2 k).flashSafeExecute (pgmCallback k a data) := by
    intro r hr a ha
    obtain ⟨r₁, r₂⟩ := r
    simp only at ha
    subst ha
    rw [saveBlock, ← hr]
  obtain ⟨a, ha⟩ := Option.ne_none_iff_exists'.mp hroom
  have hsave := hs _ rfl a ha
  rw [ha] at hfree
  obtain ⟨d, hdn, rfl, hw, -⟩ := findBlock_some h hfree.symm
  unfold deleteCall
  generalize (bs.findFree ⟨m, outcomes, 0⟩).2 = c₁ at *
  have hdfree : bs.slotAt c₁.image d = .free := slotAt_free.mpr hw
  have hlook : lookup bs.slots (bs.slotAt c₁.image) k = some old := by
    rw [hre.lookup, ← contents_eq_lookup h _ hv.1]
    exact hold
  obtain ⟨e, hen, he, hlow⟩ := lookup_eq_some.mp hlook
  refine ⟨bs.slotAt c₁.image, e, hen, d, hdn, hre, ha, he, hlow, hdfree, ?_⟩
  rw [hsave, pgmCallback_onePage hv.2.1 hv.2.2, program_slots hv.1 hv.2.2
    (clearBlock_clean h hv.1 hc₁) hdn (clearBlock_keeps_free h hv.1 hdfree)]
  rcases clearBlock_cases h c₁ hv.1 with ⟨-, habs⟩ | ⟨e', hen', hh', hlow', hcl⟩
  · have hhold := habs e hen
    simp [he] at hhold
  · have hee : e' = e := by
      rcases Nat.lt_trichotomy e' e with hlt | heq | hgt
      · rw [hlow e' hlt] at hh'
        cases hh'
      · exact heq
      · have hhold := hlow' e hgt
        simp [he] at hhold
    subst hee
    rw [hcl, deletePage_slots, (deletePage_follows c₁ _).verdict, hf.verdict]
    unfold deletePage
    rw [flashSafeExecute_calls]

/-- A save without a free block answers as before, whatever calls are lost. -/
theorem afterSave_full (h : bs.blockPages = 1) (hm : bs.Clean m)
    (hfull : (bs.findFree ⟨m, outcomes, 0⟩).1 = none) {blockId : UInt32} (hid : ValidId blockId) :
    bs.afterSave m k data outcomes blockId = bs.contents m blockId :=
  saveBlock_full h (c := ⟨m, outcomes, 0⟩) hm hfull hid

theorem afterSave_other (h : bs.blockPages = 1) (hm : bs.Clean m)
    (hv : (StorageOp.save k data).Valid) {blockId : UInt32} (hid : ValidId blockId)
    (hne : blockId ≠ k) : bs.afterSave m k data outcomes blockId = bs.contents m blockId :=
  saveBlock_other h (c := ⟨m, outcomes, 0⟩) hm hv.1 hv.2.1 hv.2.2 hid hne

/-- When the delete is lost, the old block is still there: both blocks are
complete, and the lower one answers. -/
theorem afterSave_delete_lost (h : bs.blockPages = 1) (hm : bs.Clean m)
    (hv : (StorageOp.save k data).Valid) (hold : bs.contents m k = some old)
    (hlost : outcomes (bs.deleteCall m outcomes) = false) :
    bs.afterSave m k data outcomes k = some old ∨
      (outcomes (bs.deleteCall m outcomes + 1) = true ∧
        bs.afterSave m k data outcomes k = some (padded data)) := by
  by_cases hroom : (bs.findFree ⟨m, outcomes, 0⟩).1 = none
  · exact .inl ((afterSave_full h hm hroom hv.1).trans hold)
  obtain ⟨s, e, hen, d, hdn, -, -, he, hlow, hd, hs⟩ := save_slots h hm hv hold hroom
  unfold afterSave
  rw [contents_eq_lookup h _ hv.1, hs]
  simp only [hlost, Bool.false_eq_true, if_false]
  cases hp : outcomes (bs.deleteCall m outcomes + 1) with
  | false => exact .inl (lookup_eq_some.mpr ⟨e, hen, he, hlow⟩)
  | true =>
      rw [if_pos rfl, lookup_fill_twice hdn hd he hen hlow]
      split_ifs
      · exact .inr ⟨rfl, rfl⟩
      · exact .inl rfl

/-- When the delete runs, the new block answers if its program runs and no other block of
the id lies below it; otherwise the next of the old blocks does, if there is one. -/
theorem afterSave_deleted (h : bs.blockPages = 1) (hm : bs.Clean m)
    (hv : (StorageOp.save k data).Valid) (hold : bs.contents m k = some old) {freeBlock : ℕ}
    (hroom : (bs.findFree ⟨m, outcomes, 0⟩).1 = some freeBlock)
    (hran : outcomes (bs.deleteCall m outcomes) = true) :
    bs.afterSave m k data outcomes k =
      if outcomes (bs.deleteCall m outcomes + 1) ∧
          (bs.nextBlock m k).all (fun b => decide (freeBlock < b)) then some (padded data)
      else (bs.nextBlock m k).map fun b => bytesAt m (b + 4) (flashPageSize - 4) := by
  obtain ⟨s, e, hen, d, hdn, hre, hfree, he, hlow, hd, hs⟩ :=
    save_slots h hm hv hold (by rw [hroom]; exact Option.some_ne_none _)
  obtain rfl : bs.page d = freeBlock := Option.some.inj (hfree.symm.trans hroom)
  have hde : d ≠ e := by
    rintro rfl
    rw [hd] at he
    cases he
  have hfirst : first bs.slots (fun i => (s i).holds k) = some e :=
    first_eq_some.mpr ⟨hen, by rw [he, holds_live, decide_eq_true rfl], hlow⟩
  -- the lookup behind the killed block is the next block of the image before
  have hkill : lookup bs.slots (Function.update s e .dead) k =
      (bs.nextBlock m k).map fun b => bytesAt m (b + 4) (flashPageSize - 4) := by
    rw [lookup_kill hfirst, nextBlock_contents h m hv.1, hre.next]
    cases hn : next bs.slots (bs.slotAt m) k with
    | none => rfl
    | some i =>
        obtain ⟨e', -, hi⟩ := Option.bind_eq_some_iff.mp hn
        obtain ⟨hin, hhi, -⟩ := first_eq_some.mp hi
        rw [Bool.and_eq_true] at hhi
        rw [Option.bind_some, Option.bind_some]
        rcases hre i hin with hsame | ⟨hdead, -⟩
        · rw [hsame]
        · rw [hdead, holds_dead] at hhi
          exact absurd hhi.2 Bool.false_ne_true
  have hbelow : (next bs.slots s k).all (fun i => decide (d < i)) =
      (bs.nextBlock m k).all fun b => decide (bs.page d < b) := by
    rw [nextBlock_eq_next h m hv.1, hre.next]
    cases next bs.slots (bs.slotAt m) k with
    | none => rfl
    | some i => simp only [Option.map_some, Option.all_some, page_lt]
  unfold afterSave
  rw [contents_eq_lookup h _ hv.1, hs]
  simp only [hran, if_true]
  cases hp : outcomes (bs.deleteCall m outcomes + 1) with
  | false =>
      simp only [Bool.false_eq_true, if_false, false_and]
      exact hkill
  | true =>
      simp only [if_true, true_and]
      rw [lookup_fill_lowest hdn (by rwa [Function.update_of_ne hde]), first_kill hfirst, hkill, hbelow]

end Save

/-- A start without a Wi-Fi record formats the storage: no other record than the
Wi-Fi and MQTT defaults is left. -/
theorem checkConfig_resets {dc : DeviceConfig} (h : dc.storage.blockPages = 1)
    (hwifi : dc.getWifiConfig = none) (hrun : dc.chip.verdict dc.chip.calls = true)
    (resetHeld : Bool) {r : Record} (hr₁ : r ≠ .wifi) (hr₂ : r ≠ .mqtt) :
    (dc.checkConfig resetHeld).1.read r.key = none := by
  have hreset : (dc.checkConfig resetHeld).1 = dc.hardReset := by
    simp [DeviceConfig.checkConfig, hwifi]
  have hkey : ∀ s : Record, r ≠ s → (∀ x, s ≠ .remote x) → r.key ≠ s.key := by
    intro s hne hs hk
    rcases Record.key_eq hk with hrs | ⟨-, b, -, hb, -⟩
    · exact hne hrs
    · exact hs b hb
  obtain ⟨hc, hfree⟩ := @format_spec dc.storage _ hrun
  rw [hreset]
  change dc.storage.contents (dc.storage.saveBlock (dc.storage.saveBlock
    (dc.storage.format dc.chip) Record.wifi.key _).2 Record.mqtt.key _).2.image r.key = none
  have hw := WifiConfig.encode_bounds ⟨.empty ssid_pos, .empty password_pos⟩
  have hm := MqttConfig.encode_bounds
    ⟨.empty (by decide), 1883, .empty (by decide), .empty (by decide), .empty (by decide)⟩
  rw [saveBlock_other h (saveBlock_clean h hc Record.wifi.validId hw.1 hw.2) Record.mqtt.validId
      hm.1 hm.2 r.validId (hkey .mqtt hr₂ (by simp)),
    saveBlock_other h hc Record.wifi.validId hw.1 hw.2 r.validId (hkey .wifi hr₁ (by simp)),
    contents_eq_lookup h _ r.validId, lookup_eq_none]
  intro i hi
  rw [hfree i hi, holds_free]

/-- Saving over a stored block after any history. The other ids keep their
answers. Without a free block, and when the delete is lost, a complete block
answers. When the delete runs the new block answers if its program runs and no other
block of the id lies below it; otherwise the next of the old blocks does, and nothing if
there is none. Power cuts alone leave no second block, and a start without a Wi-Fi record
loses every other record. -/
theorem save_over_stored (h : bs.blockPages = 1) (m : Image) {as : List Attempt}
    (has : ∀ a ∈ as, a.1.Valid) {k : UInt32} {data old : List UInt8}
    (hv : (StorageOp.save k data).Valid) (hold : bs.contents (bs.attempts m as) k = some old)
    (outcomes : ℕ → Bool) :
    (∀ blockId, ValidId blockId → blockId ≠ k →
      bs.afterSave (bs.attempts m as) k data outcomes blockId =
        bs.contents (bs.attempts m as) blockId) ∧
    ((bs.findFree ⟨bs.attempts m as, outcomes, 0⟩).1 = none →
      bs.afterSave (bs.attempts m as) k data outcomes k = some old) ∧
    (outcomes (bs.deleteCall (bs.attempts m as) outcomes) = false →
      bs.afterSave (bs.attempts m as) k data outcomes k = some old ∨
        (outcomes (bs.deleteCall (bs.attempts m as) outcomes + 1) = true ∧
          bs.afterSave (bs.attempts m as) k data outcomes k = some (padded data))) ∧
    (∀ freeBlock, (bs.findFree ⟨bs.attempts m as, outcomes, 0⟩).1 = some freeBlock →
      outcomes (bs.deleteCall (bs.attempts m as) outcomes) = true →
      bs.afterSave (bs.attempts m as) k data outcomes k =
        if outcomes (bs.deleteCall (bs.attempts m as) outcomes + 1) ∧
            (bs.nextBlock (bs.attempts m as) k).all (fun b => decide (freeBlock < b)) then
          some (padded data)
        else (bs.nextBlock (bs.attempts m as) k).map fun b =>
          bytesAt (bs.attempts m as) (b + 4) (flashPageSize - 4)) ∧
    ((∀ a ∈ as, Chip.PowerCut ⟨m, a.2, 0⟩) →
      bs.OneBlock (bs.attempts m as) k ∧ bs.nextBlock (bs.attempts m as) k = none) ∧
    (∀ dc : DeviceConfig, dc.storage = bs →
      dc.chip.image = (bs.saveBlock ⟨bs.attempts m as, outcomes, 0⟩ k data).2.image →
      dc.getWifiConfig = none → dc.chip.verdict dc.chip.calls = true →
      ∀ (resetHeld : Bool) (r : Record), r ≠ .wifi → r ≠ .mqtt →
        (dc.checkConfig resetHeld).1.read r.key = none) := by
  have hclean := attempts_clean h m has
  refine ⟨fun blockId hid hne => afterSave_other h hclean hv hid hne,
    fun hfull => (afterSave_full h hclean hfull hv.1).trans hold,
    fun hlost => afterSave_delete_lost h hclean hv hold hlost,
    fun freeBlock hroom hran => afterSave_deleted h hclean hv hold hroom hran,
    fun hcut => ?_, fun dc hdc _ hwifi hrun resetHeld r hr₁ hr₂ => ?_⟩
  · have hone := OneBlockEach.of_unique (attempts_unique h m has hcut) k hv.1
    exact ⟨hone, hone.nextBlock h hv.1⟩
  · exact checkConfig_resets (by rw [hdc, h]) hwifi hrun resetHeld hr₁ hr₂

/-- The Wi-Fi record that `HardReset` stores. -/
def defaultWifi : WifiConfig := ⟨.empty ssid_pos, .empty password_pos⟩

/-- The Wi-Fi record of a configured device. -/
def homeWifi : WifiConfig := ⟨⟨[104, 111, 109, 101], by decide, by decide⟩, .empty password_pos⟩

/-- A formatted storage into which the default record was saved. -/
def withDefaultWifi : Image :=
  shipped.attempts (fun _ => 0x5A) [(.save wifiConfigMagic defaultWifi.encode, fun _ => true)]

theorem save_over_stored_wifi :
    shipped.contents withDefaultWifi wifiConfigMagic = some (padded defaultWifi.encode) ∧
      shipped.OneBlock withDefaultWifi wifiConfigMagic := by
  have hold : shipped.contents withDefaultWifi wifiConfigMagic =
      some (padded defaultWifi.encode) := by decide +kernel
  have hv : (StorageOp.save wifiConfigMagic homeWifi.encode).Valid := by decide +kernel
  have hvalid : ∀ a ∈ [((.save wifiConfigMagic defaultWifi.encode, fun _ => true) : Attempt)],
      a.1.Valid := by
    simp only [List.mem_singleton, forall_eq]
    decide +kernel
  refine ⟨hold,
    ((save_over_stored shipped_onePage (fun _ => 0x5A) hvalid hv hold fun _ => true).2.2.2.2.1 ?_).1⟩
  simp only [List.mem_singleton, forall_eq]
  exact fun _ _ _ _ => rfl

/-- A history in which the record was saved over once and the delete was refused. -/
def refusedDelete : List Attempt :=
  [(.save wifiConfigMagic defaultWifi.encode, fun _ => true),
    (.save wifiConfigMagic homeWifi.encode, fun i => decide (i ≠ 0))]

/-- Power is lost between the delete and the program: neither the old nor the new Wi-Fi
record is there. And two blocks of one id outlive a save whose calls all run: it deletes the
older one, and what was stored before answers instead of the new record. -/
theorem wifi_record_lost :
    ((StorageOp.save wifiConfigMagic homeWifi.encode).Valid ∧
      shipped.contents withDefaultWifi wifiConfigMagic = some (padded defaultWifi.encode) ∧
      ¬(shipped.afterSave withDefaultWifi wifiConfigMagic homeWifi.encode (fun i => decide (i < 1))
            wifiConfigMagic = some (padded defaultWifi.encode) ∨
          shipped.afterSave withDefaultWifi wifiConfigMagic homeWifi.encode
            (fun i => decide (i < 1)) wifiConfigMagic = some (padded homeWifi.encode))) ∧
    ((∀ a ∈ refusedDelete, a.1.Valid) ∧
      shipped.afterSave (shipped.attempts (fun _ => 0x5A) refusedDelete) wifiConfigMagic
          defaultWifi.encode (fun _ => true) wifiConfigMagic ≠ some (padded defaultWifi.encode)) := by
  refine ⟨⟨by decide +kernel, by decide +kernel, ?_⟩, ?_, ?_⟩
  · have hnone : shipped.afterSave withDefaultWifi wifiConfigMagic homeWifi.encode
        (fun i => decide (i < 1)) wifiConfigMagic = none := by decide +kernel
    rw [hnone]
    simp
  · simp only [refusedDelete, List.forall_mem_cons]
    exact ⟨by decide +kernel, by decide +kernel, fun _ hx => absurd hx List.not_mem_nil⟩
  · decide +kernel

end PicoSomfy.BlockStorage
