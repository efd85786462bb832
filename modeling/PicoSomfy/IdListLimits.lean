import PicoSomfy.LongBlocks
import PicoSomfy.FlashImages

/-!
# The limits of the stored id lists

A list of ids is saved from an array of 128 or 64 elements into a block that holds 124
or 62 of them behind the count. A list in between is reported and saved all the same,
and its block is damaged: the list that is read back has the right length and repeats
an id.

So a list is kept, saved whole or left as it was, exactly when it fits its block and
there is room for it, or it does not fit and there is no room.
-/
namespace PicoSomfy

open NorFlash CStrings BlockStorage SlotStore

theorem getElem?_decode16s {n j : ℕ} (hj : j < n) (bytes : List UInt8) :
    (decode16s n bytes)[j]? = some (decode16 (bytes.drop (2 * j))) := by
  induction n generalizing j bytes with
  | zero => omega
  | succ n ih =>
      cases j with
      | zero => rfl
      | succ j =>
          rw [decode16s, List.getElem?_cons_succ, ih (by omega), List.drop_drop]
          congr 3
          omega

theorem getElem?_decode32s {n j : ℕ} (hj : j < n) (bytes : List UInt8) :
    (decode32s n bytes)[j]? = some (decode32 (bytes.drop (4 * j))) := by
  induction n generalizing j bytes with
  | zero => omega
  | succ n ih =>
      cases j with
      | zero => rfl
      | succ j =>
          rw [decode32s, List.getElem?_cons_succ, ih (by omega), List.drop_drop]
          congr 3
          omega

@[simp] theorem length_decode32s (k : ℕ) (bs : List UInt8) : (decode32s k bs).length = k := by
  induction k generalizing bs with
  | zero => rfl
  | succ k ih => simp [decode32s, ih]

theorem decode16_drop {ids : List UInt16} {j : ℕ} (hj : j < ids.length) :
    decode16 ((encode16s ids).drop (2 * j)) = ids[j] := by
  have hall := decode16s_encode16s ids []
  rw [List.append_nil] at hall
  have helem := getElem?_decode16s hj (encode16s ids)
  rw [hall, List.getElem?_eq_getElem hj] at helem
  exact (Option.some.inj helem).symm

theorem decode32_drop {ids : List UInt32} {j : ℕ} (hj : j < ids.length) :
    decode32 ((encode32s ids).drop (4 * j)) = ids[j] := by
  have hall := decode32s_encode32s ids []
  rw [List.append_nil] at hall
  have helem := getElem?_decode32s hj (encode32s ids)
  rw [hall, List.getElem?_eq_getElem hj] at helem
  exact (Option.some.inj helem).symm

namespace DeviceConfig

variable {dc : DeviceConfig} {r : Record} {v : List UInt8}

/-- The block that a record is read from. -/
theorem block_of_read (hread : dc.read r.key = some v) :
    ∃ block, dc.storage.getBlock dc.chip.image r.key = some block ∧
      word32 dc.chip.image block = decode32 v ∧
      ∀ i < 252, v[i]? = some (dc.chip.image (block + i)) := by
  obtain ⟨block, hblock, rfl⟩ := Option.map_eq_some_iff.mp hread
  exact ⟨block, hblock, (decode32_bytesAt _ _).symm, fun i hi => getElem?_bytesAt _ hi⟩

theorem length_getIdList (hread : dc.read r.key = some v) :
    (dc.getIdList r.key).length = (decode32 v).toNat := by
  obtain ⟨block, hblock, hword, -⟩ := block_of_read hread
  unfold getIdList
  simp only [hblock, hword, length_decode16s]

theorem length_getIdList32 (hread : dc.read r.key = some v) :
    (dc.getIdList32 r.key).length = (decode32 v).toNat := by
  obtain ⟨block, hblock, hword, -⟩ := block_of_read hread
  unfold getIdList32
  simp only [hblock, hword, length_decode32s]

/-- The bytes of the ids in a spoilt block: eight of them are cleared. -/
theorem bytes_of_spoilt {word : UInt32} (hs : Spoilt word v) {block : ℕ}
    (hbytes : ∀ i < 252, v[i]? = some (dc.chip.image (block + i))) {t n : ℕ} (hlo : 16 ≤ t)
    (hhi : t < 24) (hn : t < n) :
    (bytesAt dc.chip.image (block + 4) n).getD t 0 = 0 := by
  have hv := hbytes (20 + (t - 16)) (by omega)
  rw [hs.2 (t - 16) (by omega), show block + (20 + (t - 16)) = block + 4 + t by omega] at hv
  rw [List.getD_eq_getElem?_getD, getElem?_bytesAt _ hn, Option.getD_some]
  exact (Option.some.inj hv).symm

/-- Cleared bytes are two equal ids. -/
theorem repeats_of_spoilt {word : UInt32} (hs : Spoilt word v) (hread : dc.read r.key = some v)
    (hn : 10 ≤ word.toNat) : ¬(dc.getIdList r.key).Nodup := by
  obtain ⟨block, hblock, hword, hbytes⟩ := block_of_read hread
  rw [← hs.1, ← hword] at hn
  have hid : ∀ j, 8 ≤ j → j < 10 → (dc.getIdList r.key)[j]? = some 0 := fun j hlo hhi => by
    unfold getIdList
    simp only [hblock]
    rw [getElem?_decode16s (by omega)]
    simp only [decode16, List.getD_eq_getElem?_getD, List.getElem?_drop]
    rw [← List.getD_eq_getElem?_getD, ← List.getD_eq_getElem?_getD,
      bytes_of_spoilt hs hbytes (by omega) (by omega) (by omega),
      bytes_of_spoilt hs hbytes (by omega) (by omega) (by omega)]
    rfl
  intro hnodup
  refine List.nodup_iff_getElem?_ne_getElem?.mp hnodup 8 9 (by decide) ?_
    ((hid 8 le_rfl (by decide)).trans (hid 9 (by decide) (by decide)).symm)
  rw [length_getIdList hread, ← hword]
  omega

theorem repeats32_of_spoilt {word : UInt32} (hs : Spoilt word v) (hread : dc.read r.key = some v)
    (hn : 6 ≤ word.toNat) : ¬(dc.getIdList32 r.key).Nodup := by
  obtain ⟨block, hblock, hword, hbytes⟩ := block_of_read hread
  rw [← hs.1, ← hword] at hn
  have hid : ∀ j, 4 ≤ j → j < 6 → (dc.getIdList32 r.key)[j]? = some 0 := fun j hlo hhi => by
    unfold getIdList32
    simp only [hblock]
    rw [getElem?_decode32s (by omega)]
    simp only [decode32, List.getD_eq_getElem?_getD, List.getElem?_drop]
    rw [← List.getD_eq_getElem?_getD, ← List.getD_eq_getElem?_getD, ← List.getD_eq_getElem?_getD,
      ← List.getD_eq_getElem?_getD, bytes_of_spoilt hs hbytes (by omega) (by omega) (by omega),
      bytes_of_spoilt hs hbytes (by omega) (by omega) (by omega),
      bytes_of_spoilt hs hbytes (by omega) (by omega) (by omega),
      bytes_of_spoilt hs hbytes (by omega) (by omega) (by omega)]
    rfl
  intro hnodup
  refine List.nodup_iff_getElem?_ne_getElem?.mp hnodup 4 5 (by decide) ?_
    ((hid 4 le_rfl (by decide)).trans (hid 5 (by decide) (by decide)).symm)
  rw [length_getIdList32 hread, ← hword]
  omega

/-- A list that fits is stored when there is room. -/
theorem Healthy.holds_room (h : dc.Healthy) (r : Record) {n : ℕ} {bytes : List UInt8}
    (hlen : 4 + bytes.length ≤ 252) (hroom : dc.Room) :
    (dc.write r.key (encode32 (UInt32.ofNat n) ++ bytes)).Holds r n bytes := by
  refine ⟨hlen, .inl ?_⟩
  rw [h.read_write r r (by rw [length_list]; omega) (by rw [length_list]; exact hlen) hroom,
    if_pos rfl]

/-- Without room a save of any length changes nothing. -/
theorem Healthy.write_full (h : dc.Healthy) (hroom : ¬dc.Room) (key : UInt32)
    (data : List UInt8) : (dc.write key data).Healthy ∧ ¬(dc.write key data).Room ∧
      ∀ s : Record, (dc.write key data).read s.key = dc.read s.key := by
  have hfull := findFree_full h.onePage h.rep.clean h.rep.runs hroom
  have hchip : (dc.write key data).chip = (dc.storage.findFree dc.chip).2 := by
    change (dc.storage.saveBlock dc.chip key data).2 = _
    rw [saveBlock_of_full hfull]
  obtain ⟨hf, hclean, hr, -⟩ := findFree_spec h.onePage h.rep.clean
  have hslots := fun i (hi : i < dc.storage.slots) =>
    findFree_slots h.onePage h.rep.clean h.rep.runs hroom hi
  refine ⟨⟨h.onePage, ?_⟩, fun hroom' => hroom ?_, fun s => ?_⟩
  · change dc.storage.Rep (dc.write key data).chip
    rw [hchip]
    exact h.rep.reclaim hf hclean hr
  · change dc.storage.Room (dc.write key data).chip.image at hroom'
    rw [hchip] at hroom'
    exact (room_congr (fun i hi => by rw [hslots i hi]) fun i hi => by rw [hslots i hi]).mp hroom'
  · change dc.storage.contents (dc.write key data).chip.image s.key =
      dc.storage.contents dc.chip.image s.key
    rw [hchip, contents_eq_lookup h.onePage _ s.validId, contents_eq_lookup h.onePage _ s.validId,
      hr.lookup]

/-- The room left by a save does not depend on the data. -/
theorem Healthy.room_write (h : dc.Healthy) (r : Record) {data data₂ : List UInt8}
    (h₀ : 0 < data.length) (hd : data.length ≤ 252) (h₀₂ : 0 < data₂.length)
    (hd₂ : data₂.length ≤ 252) : (dc.write r.key data).Room ↔ (dc.write r.key data₂).Room :=
  h.rep.room_saveBlock h.onePage r.validId h₀ hd h₀₂ hd₂

/-- What is read of a record after a long save of it, and after a save of another one. -/
theorem Healthy.read_long (h : dc.Healthy) (r : Record) {data : List UInt8}
    (hlong : TwoTurns data) (hmark : ∃ i < 4, data.getD (236 + i) 0xFF ≠ 0xFF) (hroom : dc.Room) :
    (∃ v, (dc.write r.key data).read r.key = some v ∧ Mistaken (decode32 data) v) ∧
      ∀ (s : Record) (data₂ : List UInt8), s.key ≠ r.key →
        ((0 < data₂.length ∧ data₂.length ≤ 252) ∨ TwoTurns data₂ ∧
          (decode32 (data₂.drop 236) = r.key → 128 < (decode32 (data₂.drop 240)).toNat)) →
        ∃ v, ((dc.write r.key data).write s.key data₂).read r.key = some v ∧
          Mistaken (decode32 data) v := by
  obtain ⟨hclean, hf, i, hd, hbehind⟩ :=
    h.rep.saveBlock_long h.onePage r.validId hlong hmark hroom
  constructor
  · obtain ⟨v, hv, hs⟩ := hd.lookup
    exact ⟨v, (contents_eq_lookup h.onePage _ r.validId).trans hv, .inl hs⟩
  · intro s data₂ hne hdata
    obtain ⟨v, hv, hm⟩ := hd.saveBlock h.onePage hclean
      (fun i => by rw [hf.verdict]; exact h.rep.runs i) hbehind s.validId hne hdata
    exact ⟨v, (contents_eq_lookup h.onePage _ r.validId).trans hv, hm⟩

theorem getD_ids (n : UInt32) {bytes : List UInt8} {i : ℕ} (hi : i < bytes.length) :
    (encode32 n ++ bytes).getD (4 + i) 0xFF = bytes.getD i 0 := by
  rw [List.getD_eq_getElem?_getD, List.getElem?_append_right (by simp), length_encode32,
    Nat.add_sub_cancel_left, List.getElem?_eq_getElem hi, List.getD_eq_getElem _ _ hi,
    Option.getD_some]

theorem drop_ids (n : UInt32) (bytes : List UInt8) (i : ℕ) :
    (encode32 n ++ bytes).drop (4 + i) = bytes.drop i := by
  rw [← List.drop_drop, List.drop_left' (length_encode32 n)]

/-- Two different ids do not both look erased. -/
theorem mark_ids {ids : List UInt16} (hlong : 124 < ids.length) (hnodup : ids.Nodup) :
    ∃ i < 4, (encode32 (UInt32.ofNat ids.length) ++ encode16s ids).getD (236 + i) 0xFF ≠ 0xFF := by
  by_contra hall
  simp only [not_exists, not_and, not_not] at hall
  have hbyte : ∀ i < 4, (encode16s ids).getD (232 + i) 0 = 0xFF := fun i hi => by
    have hi' := hall i hi
    rwa [show 236 + i = 4 + (232 + i) by omega,
      getD_ids _ (by rw [length_encode16s]; omega)] at hi'
  have hid : ∀ (j : ℕ) (hj : j < ids.length), 116 ≤ j → j < 118 → ids[j] = 0xFFFF := by
    intro j hj hlo hhi
    rw [← decode16_drop hj]
    have hget : ∀ t < 2, ((encode16s ids).drop (2 * j)).getD t 0 = 0xFF := fun t ht => by
      rw [List.getD_eq_getElem?_getD, List.getElem?_drop, ← List.getD_eq_getElem?_getD,
        show 2 * j + t = 232 + (2 * (j - 116) + t) by omega, hbyte _ (by omega)]
    rw [decode16, hget 0 (by decide), hget 1 (by decide)]
    rfl
  have heq := (hid 116 (by omega) le_rfl (by decide)).trans
    (hid 117 (by omega) (by decide) (by decide)).symm
  exact absurd (hnodup.getElem_inj_iff.mp heq) (by decide)

theorem mark_ids32 {ids : List UInt32} (hlong : 62 < ids.length) (hsorted : ids.Pairwise (· < ·)) :
    ∃ i < 4, (encode32 (UInt32.ofNat ids.length) ++ encode32s ids).getD (236 + i) 0xFF ≠ 0xFF := by
  by_contra hall
  simp only [not_exists, not_and, not_not] at hall
  have hget : ∀ t < 4, ((encode32s ids).drop (4 * 58)).getD t 0 = 0xFF := fun t ht => by
    have ht' := hall t ht
    rwa [show 236 + t = 4 + (232 + t) by omega, getD_ids _ (by rw [length_encode32s]; omega),
      List.getD_eq_getElem?_getD, ← List.getElem?_drop, ← List.getD_eq_getElem?_getD] at ht'
  have hid : ids[58] = 0xFFFFFFFF := by
    rw [← decode32_drop (by omega), decode32, hget 0 (by decide), hget 1 (by decide),
      hget 2 (by decide), hget 3 (by decide)]
    rfl
  have hlt := List.pairwise_iff_getElem.mp hsorted 58 59 (by omega) (by omega) (by decide)
  rw [hid, UInt32.lt_iff_toNat_lt] at hlt
  have hmax := ids[59].toNat_lt
  rw [show (0xFFFFFFFF : UInt32).toNat = 4294967295 from rfl] at hlt
  omega

theorem twoTurns_ids {ids : List UInt16} (hlong : 124 < ids.length) (harray : ids.length ≤ 128) :
    TwoTurns (encode32 (UInt32.ofNat ids.length) ++ encode16s ids) := by
  unfold TwoTurns
  rw [length_list, length_encode16s]
  omega

theorem twoTurns_ids32 {ids : List UInt32} (hlong : 62 < ids.length) (harray : ids.length ≤ 64) :
    TwoTurns (encode32 (UInt32.ofNat ids.length) ++ encode32s ids) := by
  unfold TwoTurns
  rw [length_list, length_encode32s]
  omega

theorem decode32_list (n : ℕ) (bytes : List UInt8) :
    decode32 (encode32 (UInt32.ofNat n) ++ bytes) = UInt32.ofNat n := decode32_encode32 _ _

/-- The list that is read back is another one, and longer than a list that fits. -/
theorem ids_of_mistaken {ids : List UInt16} (hread : dc.read r.key = some v)
    (hm : Mistaken (UInt32.ofNat ids.length) v) (hlong : 124 < ids.length)
    (harray : ids.length ≤ 128) (hnodup : ids.Nodup) :
    dc.getIdList r.key ≠ ids ∧ 124 < (dc.getIdList r.key).length := by
  have hlen : (UInt32.ofNat ids.length).toNat = ids.length :=
    UInt32.toNat_ofNat_of_lt' (by rw [UInt32.size]; omega)
  rcases hm with hs | hcount
  · refine ⟨fun he => repeats_of_spoilt hs hread (by omega) (he ▸ hnodup), ?_⟩
    rw [length_getIdList hread, hs.1, hlen]
    exact hlong
  · rw [← length_getIdList hread] at hcount
    refine ⟨fun he => ?_, by omega⟩
    rw [he] at hcount
    omega

theorem ids_of_mistaken32 {ids : List UInt32} (hread : dc.read r.key = some v)
    (hm : Mistaken (UInt32.ofNat ids.length) v) (hlong : 62 < ids.length)
    (harray : ids.length ≤ 64) (hnodup : ids.Nodup) :
    dc.getIdList32 r.key ≠ ids ∧ 62 < (dc.getIdList32 r.key).length := by
  have hlen : (UInt32.ofNat ids.length).toNat = ids.length :=
    UInt32.toNat_ofNat_of_lt' (by rw [UInt32.size]; omega)
  rcases hm with hs | hcount
  · refine ⟨fun he => repeats32_of_spoilt hs hread (by omega) (he ▸ hnodup), ?_⟩
    rw [length_getIdList32 hread, hs.1, hlen]
    exact hlong
  · rw [← length_getIdList32 hread] at hcount
    refine ⟨fun he => ?_, by omega⟩
    rw [he] at hcount
    omega

/-- A list is kept: the registered ids are read back, or they do not fit and the list
read before is still there, as is every record that this function does not save. -/
def KeepsList {α : Type} (own : List Record) (limit : ℕ) (get : DeviceConfig → List α)
    (ids : List α) (dc dc' : DeviceConfig) : Prop :=
  get dc' = ids ∨
    limit < ids.length ∧ get dc' = get dc ∧ ∀ r, r ∉ own → dc'.read r.key = dc.read r.key

/-- A list of `n` ids fits its block and there is room to save it, or it cannot be
saved, and either does not fit or is stored already. -/
def CanKeep (limit n : ℕ) (room stored : Prop) : Prop :=
  room ∧ n ≤ limit ∨ ¬room ∧ (limit < n ∨ stored)

theorem CanKeep.fits {limit n : ℕ} {room stored : Prop} (h : CanKeep limit n room stored)
    (hroom : room) : n ≤ limit := by
  rcases h with ⟨-, hn⟩ | ⟨hfull, -⟩
  · exact hn
  · exact absurd hroom hfull

/-- A list that is stored as it is can be kept when it fits. -/
theorem CanKeep.of_stored {limit n : ℕ} {room stored : Prop} (hn : n ≤ limit) (hs : stored) :
    CanKeep limit n room stored := by
  by_cases hroom : room
  · exact .inl ⟨hroom, hn⟩
  · exact .inr ⟨hroom, .inr hs⟩

theorem not_keepsList {α : Type} {own : List Record} {limit : ℕ} {get : DeviceConfig → List α}
    {ids : List α} {dc dc' : DeviceConfig} (hne : get dc' ≠ ids)
    (hlong : limit < (get dc').length) (hold : (get dc).length ≤ limit) :
    ¬KeepsList own limit get ids dc dc' := by
  rintro (he | ⟨-, he, -⟩)
  · exact hne he
  · rw [he] at hlong
    omega

/-- A list was saved, or nothing was. -/
structure ListSaved (r : Record) (n : ℕ) (bytes : List UInt8) (dc dc' : DeviceConfig) :
    Prop where
  healthy : dc'.Healthy
  other : ∀ {s : Record}, s.key ≠ r.key → dc'.read s.key = dc.read s.key
  stored : dc.Room → dc'.Holds r n bytes
  full : ¬dc.Room → ¬dc'.Room ∧ ∀ s : Record, dc'.read s.key = dc.read s.key
  room : dc'.Room ↔ (dc.write r.key (encode32 0)).Room

theorem Healthy.listSaved (h : dc.Healthy) (r : Record) {n : ℕ} {bytes : List UInt8}
    (hfit : dc.Room → 4 + bytes.length ≤ 252) :
    ListSaved r n bytes dc (dc.write r.key (encode32 (UInt32.ofNat n) ++ bytes)) := by
  by_cases hroom : dc.Room
  · have hlen := hfit hroom
    have honly := h.onlyAt_list r (n := n) hlen
    refine ⟨honly.healthy, honly.other, fun _ => h.holds_room r hlen hroom, fun hnot =>
      absurd hroom hnot, h.room_write r ?_ ?_ (by decide) (by decide)⟩
    · rw [length_list]
      omega
    · rw [length_list]
      exact hlen
  · obtain ⟨hh, hfull, hread⟩ := h.write_full hroom r.key (encode32 (UInt32.ofNat n) ++ bytes)
    exact ⟨hh, fun _ => hread _, fun hr => absurd hr hroom, fun _ => ⟨hfull, hread⟩,
      iff_of_false hfull (h.write_full hroom r.key (encode32 0)).2.1⟩

end DeviceConfig

namespace Device

open DeviceConfig

variable {d : Device}

/-- Both functions that save lists of ids keep them. -/
structure ListsKept (d : Device) : Prop where
  remotes : ∃ d', d.saveRemoteList = some d' ∧
    KeepsList [.remoteIds, .externalRemoteIds] 124 getRemoteIds d.internalIds d.config d'.config ∧
    KeepsList [.remoteIds, .externalRemoteIds] 62 getExternalRemoteIds d.externalIds d.config
      d'.config
  blinds : ∃ d', d.saveBlindList = some d' ∧
    KeepsList [.blindIds] 124 getBlindIds d.blindIds d.config d'.config

/-- The arrays hold the ids, and each list can be kept. The room for the list of
imported remotes is what a save of the other list leaves. -/
structure ListsFit (d : Device) : Prop where
  arrays : (d.internalIds.length ≤ 128 ∧ d.externalIds.length ≤ 64) ∧ d.blindIds.length ≤ 128
  internal : CanKeep 124 d.internalIds.length d.config.Room
    (d.config.getRemoteIds = d.internalIds)
  external : CanKeep 62 d.externalIds.length (d.config.saveRemoteIds []).Room
    (d.config.getExternalRemoteIds = d.externalIds)
  blinds : CanKeep 124 d.blindIds.length d.config.Room (d.config.getBlindIds = d.blindIds)

theorem externalIds_sorted (d : Device) : d.externalIds.Pairwise (· < ·) := by
  have hkeys := Std.ExtTreeMap.ordered_keys (t := d.remotes)
  rw [← Std.ExtTreeMap.map_fst_toList_eq_keys, List.pairwise_map] at hkeys
  unfold externalIds
  rw [List.pairwise_map]
  exact (hkeys.filter _).imp fun hlt => Std.compare_eq_lt.mp hlt

theorem externalIds_nodup (d : Device) : d.externalIds.Nodup :=
  d.externalIds_sorted.imp fun hlt => UInt32.ne_of_lt hlt

section Lists
variable (hk : d.config.Kept)
include hk

/-- The first save, when the list of created remotes can be kept. -/
theorem internal_saved (hcan : CanKeep 124 d.internalIds.length d.config.Room
    (d.config.getRemoteIds = d.internalIds)) :
    ListSaved .remoteIds d.internalIds.length (encode16s d.internalIds) d.config
      (d.config.saveRemoteIds d.internalIds) := by
  refine hk.healthy.listSaved .remoteIds fun hroom => ?_
  have hn := hcan.fits hroom
  rw [length_encode16s]
  omega

/-- A list of created remotes that is too long is not kept, whatever is saved next. -/
theorem internal_not_kept (hlong : 124 < d.internalIds.length)
    (harray : d.internalIds.length ≤ 128) (hnodup : d.internalIds.Nodup)
    (hx : d.externalIds.length ≤ 64) (hroom : d.config.Room) (own : List Record) :
    ¬KeepsList own 124 getRemoteIds d.internalIds d.config
      ((d.config.saveRemoteIds d.internalIds).saveExternalRemoteIds d.externalIds) := by
  obtain ⟨-, hnext⟩ := hk.healthy.read_long .remoteIds (twoTurns_ids hlong harray)
    (mark_ids hlong hnodup) hroom
  obtain ⟨v, hread, hm⟩ := hnext .externalRemoteIds
    (encode32 (UInt32.ofNat d.externalIds.length) ++ encode32s d.externalIds) (by decide) (by
      by_cases hfit : d.externalIds.length ≤ 62
      · refine .inl ?_
        rw [length_list, length_encode32s]
        omega
      · refine .inr ⟨twoTurns_ids32 (by omega) hx, ?_⟩
        -- the ids that reach the next page are in order
        rw [show 236 = 4 + 4 * 58 from rfl, show 240 = 4 + 4 * 59 from rfl, drop_ids, drop_ids,
          decode32_drop (by omega), decode32_drop (by omega)]
        intro hkey
        have hlt := List.pairwise_iff_getElem.mp d.externalIds_sorted 58 59 (by omega) (by omega)
          (by decide)
        rw [hkey, UInt32.lt_iff_toNat_lt, show Record.remoteIds.key.toNat = 428087687 from rfl]
          at hlt
        omega)
  rw [decode32_list] at hm
  obtain ⟨hne, hlen⟩ := ids_of_mistaken hread hm hlong harray hnodup
  obtain ⟨old, hold⟩ := hk.internal
  exact not_keepsList hne hlen (by rw [getRemoteIds_of_stored hold]; exact hold.length_le)

variable (hs : ListSaved .remoteIds d.internalIds.length (encode16s d.internalIds) d.config
  (d.config.saveRemoteIds d.internalIds))
include hs

theorem external_kept_before : ∃ ids,
    (d.config.saveRemoteIds d.internalIds).StoresIds32 .externalRemoteIds ids ∧
      d.config.getExternalRemoteIds = ids := by
  obtain ⟨old, hold⟩ := hk.external
  exact ⟨old, hold.congr (hs.other (by decide)), getExternalRemoteIds_of_stored hold⟩

theorem external_not_kept (hlong : 62 < d.externalIds.length) (harray : d.externalIds.length ≤ 64)
    (hroom : (d.config.saveRemoteIds d.internalIds).Room) (own : List Record) :
    ¬KeepsList own 62 getExternalRemoteIds d.externalIds d.config
      ((d.config.saveRemoteIds d.internalIds).saveExternalRemoteIds d.externalIds) := by
  obtain ⟨⟨v, hread, hm⟩, -⟩ := hs.healthy.read_long .externalRemoteIds
    (twoTurns_ids32 hlong harray) (mark_ids32 hlong d.externalIds_sorted) hroom
  rw [decode32_list] at hm
  obtain ⟨hne, hlen⟩ := ids_of_mistaken32 hread hm hlong harray d.externalIds_nodup
  obtain ⟨old, hold, hget⟩ := external_kept_before hk hs
  refine not_keepsList hne hlen ?_
  rw [hget]
  exact hold.length_le

/-- Both lists were saved, or left alone for want of room. -/
theorem remotes_kept (hi : CanKeep 124 d.internalIds.length d.config.Room
      (d.config.getRemoteIds = d.internalIds))
    (hx : CanKeep 62 d.externalIds.length (d.config.saveRemoteIds d.internalIds).Room
      (d.config.getExternalRemoteIds = d.externalIds)) :
    KeepsList [.remoteIds, .externalRemoteIds] 124 getRemoteIds d.internalIds d.config
        ((d.config.saveRemoteIds d.internalIds).saveExternalRemoteIds d.externalIds) ∧
      KeepsList [.remoteIds, .externalRemoteIds] 62 getExternalRemoteIds d.externalIds d.config
        ((d.config.saveRemoteIds d.internalIds).saveExternalRemoteIds d.externalIds) := by
  have hs₂ : ListSaved .externalRemoteIds d.externalIds.length (encode32s d.externalIds)
      (d.config.saveRemoteIds d.internalIds)
      ((d.config.saveRemoteIds d.internalIds).saveExternalRemoteIds d.externalIds) := by
    refine hs.healthy.listSaved .externalRemoteIds fun hroom => ?_
    have hn := hx.fits hroom
    rw [length_encode32s]
    omega
  have hothers : ∀ r, r ∉ [Record.remoteIds, .externalRemoteIds] →
      ((d.config.saveRemoteIds d.internalIds).saveExternalRemoteIds d.externalIds).read r.key =
        d.config.read r.key := fun r hr => by
    have hr₁ : r.key ≠ Record.remoteIds.key :=
      fun he => Record.key_ne (s := .remoteIds) nofun (fun heq => hr (by simp [← heq])) he.symm
    have hr₂ : r.key ≠ Record.externalRemoteIds.key :=
      fun he => Record.key_ne (s := .externalRemoteIds) nofun
        (fun heq => hr (by simp [← heq])) he.symm
    rw [hs₂.other hr₂, hs.other hr₁]
  constructor
  · rcases hi with ⟨hroom, -⟩ | ⟨hfull, hcase⟩
    · exact .inl (getRemoteIds_of_stored ((hs.stored hroom).congr (hs₂.other (by decide))))
    · obtain ⟨hfull₁, hread₁⟩ := hs.full hfull
      have hsame := hk.getRemoteIds_congr (((hs₂.full hfull₁).2 .remoteIds).trans (hread₁ _))
      rcases hcase with hlong | hstored
      · exact .inr ⟨hlong, hsame, hothers⟩
      · exact .inl (hsame.trans hstored)
  · rcases hx with ⟨hroom, -⟩ | ⟨hfull, hcase⟩
    · exact .inl (getExternalRemoteIds_of_stored (hs₂.stored hroom))
    · have hsame := hk.getExternalRemoteIds_congr
        (((hs₂.full hfull).2 .externalRemoteIds).trans (hs.other (by decide)))
      rcases hcase with hlong | hstored
      · exact .inr ⟨hlong, hsame, hothers⟩
      · exact .inl (hsame.trans hstored)

end Lists

theorem blinds_keep_iff (hk : d.config.Kept) (hnodup : d.blindIds.Nodup)
    (harray : d.blindIds.length ≤ 128) :
    KeepsList [.blindIds] 124 getBlindIds d.blindIds d.config
        (d.config.saveBlindIds d.blindIds) ↔
      CanKeep 124 d.blindIds.length d.config.Room (d.config.getBlindIds = d.blindIds) := by
  by_cases hroom : d.config.Room
  · by_cases hfit : d.blindIds.length ≤ 124
    · refine iff_of_true (.inl (getBlindIds_of_stored ?_)) (.inl ⟨hroom, hfit⟩)
      exact hk.healthy.holds_room .blindIds (by rw [length_encode16s]; omega) hroom
    · refine iff_of_false ?_ fun hcan => hfit (hcan.fits hroom)
      obtain ⟨⟨v, hread, hm⟩, -⟩ := hk.healthy.read_long .blindIds
        (twoTurns_ids (by omega) harray) (mark_ids (by omega) hnodup) hroom
      rw [decode32_list] at hm
      obtain ⟨hne, hlen⟩ := ids_of_mistaken hread hm (by omega) harray hnodup
      obtain ⟨old, hold⟩ := hk.blindIds
      exact not_keepsList hne hlen (by rw [getBlindIds_of_stored hold]; exact hold.length_le)
  · obtain ⟨-, -, hread⟩ := hk.healthy.write_full hroom Record.blindIds.key
      (encode32 (UInt32.ofNat d.blindIds.length) ++ encode16s d.blindIds)
    have hsame : (d.config.saveBlindIds d.blindIds).getBlindIds = d.config.getBlindIds :=
      hk.getBlindIds_congr (hread .blindIds)
    unfold KeepsList CanKeep
    rw [hsame]
    constructor
    · rintro (hstored | ⟨hlong, -⟩)
      · exact .inr ⟨hroom, .inr hstored⟩
      · exact .inr ⟨hroom, .inl hlong⟩
    · rintro (⟨h, -⟩ | ⟨-, hlong | hstored⟩)
      · exact absurd h hroom
      · exact .inr ⟨hlong, rfl, fun r _ => hread r⟩
      · exact .inl hstored

theorem remotes_keep_iff (hk : d.config.Kept) (hnodup : d.internalIds.Nodup)
    (hi : d.internalIds.length ≤ 128) (hx : d.externalIds.length ≤ 64) :
    (KeepsList [.remoteIds, .externalRemoteIds] 124 getRemoteIds d.internalIds d.config
        ((d.config.saveRemoteIds d.internalIds).saveExternalRemoteIds d.externalIds) ∧
      KeepsList [.remoteIds, .externalRemoteIds] 62 getExternalRemoteIds d.externalIds d.config
        ((d.config.saveRemoteIds d.internalIds).saveExternalRemoteIds d.externalIds)) ↔
    CanKeep 124 d.internalIds.length d.config.Room (d.config.getRemoteIds = d.internalIds) ∧
      CanKeep 62 d.externalIds.length (d.config.saveRemoteIds []).Room
        (d.config.getExternalRemoteIds = d.externalIds) := by
  constructor
  · rintro ⟨hint, hext⟩
    have hcan : CanKeep 124 d.internalIds.length d.config.Room
        (d.config.getRemoteIds = d.internalIds) := by
      by_cases hroom : d.config.Room
      · by_cases hfit : d.internalIds.length ≤ 124
        · exact .inl ⟨hroom, hfit⟩
        · exact absurd hint
            (internal_not_kept hk (by omega) hi hnodup hx hroom _)
      · refine .inr ⟨hroom, ?_⟩
        obtain ⟨hh, hfull, hread⟩ := hk.healthy.write_full hroom Record.remoteIds.key
          (encode32 (UInt32.ofNat d.internalIds.length) ++ encode16s d.internalIds)
        obtain ⟨-, -, hread₂⟩ := hh.write_full hfull Record.externalRemoteIds.key
          (encode32 (UInt32.ofNat d.externalIds.length) ++ encode32s d.externalIds)
        rcases hint with hstored | ⟨hlong, -⟩
        · refine .inr (.trans ?_ hstored)
          exact (hk.getRemoteIds_congr ((hread₂ .remoteIds).trans (hread _))).symm
        · exact .inl hlong
    have hs := internal_saved hk hcan
    refine ⟨hcan, ?_⟩
    by_cases hroom : (d.config.saveRemoteIds d.internalIds).Room
    · by_cases hfit : d.externalIds.length ≤ 62
      · exact .inl ⟨hs.room.mp hroom, hfit⟩
      · exact absurd hext (external_not_kept hk hs (by omega) hx hroom _)
    · refine .inr ⟨fun h => hroom (hs.room.mpr h), ?_⟩
      obtain ⟨-, -, hread₂⟩ := hs.healthy.write_full hroom Record.externalRemoteIds.key
        (encode32 (UInt32.ofNat d.externalIds.length) ++ encode32s d.externalIds)
      rcases hext with hstored | ⟨hlong, -⟩
      · refine .inr (.trans ?_ hstored)
        exact (hk.getExternalRemoteIds_congr
          ((hread₂ .externalRemoteIds).trans (hs.other (by decide)))).symm
      · exact .inl hlong
  · rintro ⟨hint, hext⟩
    have hs := internal_saved hk hint
    have hroom : (d.config.saveRemoteIds []).Room ↔
        (d.config.saveRemoteIds d.internalIds).Room := hs.room.symm
    refine remotes_kept hk hs hint ?_
    unfold CanKeep at hext ⊢
    rwa [hroom] at hext

/-- On a device whose three lists were saved whole before, both functions keep their
lists exactly when the lists fit. -/
theorem lists_kept_iff (hk : d.config.Kept) (hi : d.internalIds.Nodup) (hb : d.blindIds.Nodup) :
    d.ListsKept ↔ d.ListsFit := by
  constructor
  · rintro ⟨⟨d₁, h₁, hint, hext⟩, ⟨d₂, h₂, hblinds⟩⟩
    unfold saveRemoteList at h₁
    unfold saveBlindList at h₂
    split_ifs at h₁ with hr
    split_ifs at h₂ with hl
    cases h₁
    cases h₂
    obtain ⟨hcanInt, hcanExt⟩ := (remotes_keep_iff hk hi hr.1 hr.2).mp ⟨hint, hext⟩
    exact ⟨⟨hr, hl⟩, hcanInt, hcanExt, (blinds_keep_iff hk hb hl).mp hblinds⟩
  · rintro ⟨⟨hr, hl⟩, hint, hext, hblinds⟩
    exact ⟨⟨_, if_pos hr, (remotes_keep_iff hk hi hr.1 hr.2).mpr ⟨hint, hext⟩⟩,
      ⟨_, if_pos hl, (blinds_keep_iff hk hb hl).mpr hblinds⟩⟩

theorem formatted_read (r : Record) : formatted.read r.key = none :=
  (contents_eq_lookup shipped_onePage _ r.validId).trans (lookup_format (fun _ => rfl) _)

theorem formatted_external : formatted.StoresIds32 .externalRemoteIds [] :=
  ⟨by decide, .inr ⟨rfl, formatted_read _⟩⟩

theorem formatted_kept : formatted.Kept :=
  ⟨⟨shipped_onePage, rep_format fun _ => rfl⟩, ⟨[], by decide, .inr ⟨rfl, formatted_read _⟩⟩,
    ⟨[], formatted_external⟩, ⟨[], by decide, .inr ⟨rfl, formatted_read _⟩⟩⟩

theorem formatted_room : formatted.Room :=
  .inl ⟨0, by decide, (format_spec (show healthyChip.verdict healthyChip.calls = true from rfl)).2 0
    (by decide)⟩

/-- A device with a formatted storage and `n` created remotes. -/
def crowd (n : ℕ) : Device :=
  (List.range n).foldl (fun d i => d.insertRemote (baseRemoteId + 1 + UInt32.ofNat i)
      (.create false [0x61] (baseRemoteId + 1 + UInt32.ofNat i) 1 [] false))
    (blank formatted false (fun _ => ⟨⟨0, 0, 0, 0⟩, 0⟩) [])

theorem crowd_config (n : ℕ) : (crowd n).config = formatted := by
  unfold crowd
  induction n with
  | zero => rfl
  | succ n ih => rwa [List.range_succ, List.foldl_append]

theorem lists_kept_crowd : (crowd 2).ListsKept := by
  have hconfig := crowd_config 2
  obtain ⟨⟨hi, hx, hb⟩, hnodup⟩ : ((crowd 2).internalIds = [1, 2] ∧ (crowd 2).externalIds = [] ∧
      (crowd 2).blindIds = []) ∧ (crowd 2).internalIds.Nodup := by decide +kernel
  have hkept : (crowd 2).config.Kept := hconfig ▸ formatted_kept
  have hext : (crowd 2).config.getExternalRemoteIds = [] := by
    rw [hconfig]
    exact getExternalRemoteIds_of_stored formatted_external
  exact (lists_kept_iff hkept hnodup (by rw [hb]; exact List.nodup_nil)).mpr
    ⟨by rw [hi, hx, hb]; decide, .inl ⟨by rw [hconfig]; exact formatted_room, by rw [hi]; decide⟩,
      by rw [hx]; exact .of_stored (by decide) hext,
      .inl ⟨by rw [hconfig]; exact formatted_room, by rw [hb]; decide⟩⟩

/-- One created remote more than the block holds: the list is saved into it and comes
back damaged. -/
theorem long_list_damaged :
    ¬∀ d : Device, d.config.Kept → d.internalIds.Nodup → d.blindIds.Nodup → d.ListsKept := by
  intro hall
  have hconfig := crowd_config 125
  obtain ⟨⟨hi, hnodup⟩, hx, hb⟩ : ((crowd 125).internalIds.length = 125 ∧
      (crowd 125).internalIds.Nodup) ∧ (crowd 125).externalIds = [] ∧
        (crowd 125).blindIds = [] := by decide +kernel
  have hkept : (crowd 125).config.Kept := hconfig ▸ formatted_kept
  obtain ⟨⟨d', hsave, hint, -⟩, -⟩ := hall (crowd 125) hkept hnodup
    (by rw [hb]; exact List.nodup_nil)
  unfold saveRemoteList at hsave
  split_ifs at hsave with harrays
  cases hsave
  exact internal_not_kept hkept (by omega) harrays.1 hnodup harrays.2
    (by rw [hconfig]; exact formatted_room) _ hint

end Device

end PicoSomfy
