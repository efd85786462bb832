import PicoSomfy.DeviceConfig

/-!
# Records as entries of a finite map

Over a healthy storage the interface of `DeviceConfig` reads and writes a map
from keys to padded data. The lemmas here restate `BlockMap` in these terms, for
the records one by one, and say when two records share a key.

A remote is stored under the low sixteen bits of its id. Two ids that agree
there are one record, and the ids `0` and `0xFFFFFFFF` are never read back.
-/
namespace PicoSomfy

open NorFlash SlotStore CStrings BlockStorage

/-- The records of the store. -/
inductive Record where
  | wifi
  | mqtt
  | blindIds
  | remoteIds
  | externalRemoteIds
  | blind (blindId : UInt16)
  | remote (remoteId : UInt32)
  deriving DecidableEq, Repr

def Record.key : Record → UInt32
  | .wifi => wifiConfigMagic
  | .mqtt => mqttConfigMagic
  | .blindIds => blindsConfigMagic
  | .remoteIds => remotesConfigMagic
  | .externalRemoteIds => externalRemotesConfigMagic
  | .blind blindId => blindKey blindId
  | .remote remoteId => remoteKey remoteId

/-- A magic number with clear low bits, below sixteen bits of an id. -/
theorem toNat_magic_or (magic low : ℕ) (hlow : low < 65536) :
    (magic * 65536) ||| low = magic * 65536 + low := by
  rw [← Nat.shiftLeft_eq magic 16, Nat.shiftLeft_add_eq_or_of_lt hlow]

theorem toNat_blindKey (blindId : UInt16) :
    (blindKey blindId).toNat = 0x19850000 + blindId.toNat := by
  have h := blindId.toNat_lt
  simpa [blindKey, blindConfigMagic] using toNat_magic_or 0x1985 blindId.toNat h

theorem toNat_remoteKey (remoteId : UInt32) :
    (remoteKey remoteId).toNat = 0x19860000 + remoteId.toNat % 65536 := by
  have hand : remoteId.toNat &&& 0xFFFF = remoteId.toNat % 65536 :=
    Nat.and_two_pow_sub_one_eq_mod remoteId.toNat 16
  have h := toNat_magic_or 0x1986 (remoteId.toNat % 65536) (Nat.mod_lt _ (by decide))
  simpa [remoteKey, remoteConfigMagic, hand] using h

theorem remoteKey_eq_iff {a b : UInt32} : remoteKey a = remoteKey b ↔ a.toUInt16 = b.toUInt16 := by
  rw [← UInt32.toNat_inj, toNat_remoteKey, toNat_remoteKey, ← UInt16.toNat_inj]
  simp

/-- The key of a record as a number: five fixed keys and two ranges of ids. -/
def Record.code : Record → ℕ
  | .wifi => 0x19841984
  | .mqtt => 0x19841985
  | .blindIds => 0x19841986
  | .remoteIds => 0x19841987
  | .externalRemoteIds => 0x19841990
  | .blind blindId => 0x19850000 + blindId.toNat
  | .remote remoteId => 0x19860000 + remoteId.toUInt16.toNat

theorem Record.toNat_key (r : Record) : r.key.toNat = r.code := by
  cases r with
  | blind blindId => exact toNat_blindKey blindId
  | remote remoteId =>
      rw [Record.key, toNat_remoteKey, Record.code]
      simp
  | _ => rfl

/-- Two records share a key only when they are remotes with the same low bits. -/
theorem Record.key_eq {r s : Record} (h : r.key = s.key) :
    r = s ∨ ∃ a b, r = .remote a ∧ s = .remote b ∧ a.toUInt16 = b.toUInt16 := by
  rw [← UInt32.toNat_inj, Record.toNat_key, Record.toNat_key] at h
  cases r with
  | blind a =>
      have ha := a.toNat_lt
      cases s with
      | blind b =>
          simp only [Record.code, Nat.add_left_cancel_iff, UInt16.toNat_inj] at h
          exact .inl (h ▸ rfl)
      | remote b => simp only [Record.code] at h; omega
      | _ => simp only [Record.code] at h; omega
  | remote a =>
      cases s with
      | blind b =>
          have hb := b.toNat_lt
          simp only [Record.code] at h
          omega
      | remote b =>
          simp only [Record.code, Nat.add_left_cancel_iff, UInt16.toNat_inj] at h
          exact .inr ⟨a, b, rfl, rfl, h⟩
      | _ => simp only [Record.code] at h; omega
  | _ =>
      cases s with
      | blind b => simp only [Record.code] at h; omega
      | remote b => simp only [Record.code] at h; omega
      | _ => first | exact .inl rfl | cases h

/-- Only remotes share keys. -/
theorem Record.key_ne {r s : Record} (hs : ∀ a, s ≠ .remote a) (h : s ≠ r) : s.key ≠ r.key :=
  fun hk => by
    rcases Record.key_eq hk with heq | ⟨a, b, ha, -, -⟩
    · exact h heq
    · exact hs a ha

theorem Record.validId (r : Record) : ValidId r.key := by
  have hlo : 0 < r.code := by cases r <;> simp [Record.code]
  have hhi : r.code < 0xFFFFFFFF := by
    cases r with
    | blind a => have ha := a.toNat_lt; simp only [Record.code]; omega
    | remote a => have ha := a.toUInt16.toNat_lt; simp only [Record.code]; omega
    | _ => decide
  rw [← Record.toNat_key] at hlo hhi
  constructor <;> rintro h <;> rw [h] at hlo hhi
  · exact absurd hlo (by decide)
  · exact absurd hhi (by decide)

theorem WifiConfig.encode_bounds (c : WifiConfig) :
    0 < c.encode.length ∧ c.encode.length ≤ 252 := by simp [c.length_encode]

theorem MqttConfig.encode_bounds (c : MqttConfig) :
    0 < c.encode.length ∧ c.encode.length ≤ 252 := by simp [c.length_encode]

theorem BlindConfig.encode_bounds (c : BlindConfig) :
    0 < c.encode.length ∧ c.encode.length ≤ 252 := by simp [c.length_encode]

theorem RemoteConfig.encode_bounds (c : RemoteConfig) :
    0 < c.encode.length ∧ c.encode.length ≤ 252 := by simp [c.length_encode]

namespace DeviceConfig

/-- One page for each block, every flash call runs, and the image holds a store. -/
structure Healthy (dc : DeviceConfig) : Prop where
  onePage : dc.storage.blockPages = 1
  rep : dc.storage.Rep dc.chip

/-- The storage has room for one more block. -/
def Room (dc : DeviceConfig) : Prop := dc.storage.Room dc.chip.image

variable {dc : DeviceConfig}

theorem Healthy.lookup (h : dc.Healthy) (r : Record) :
    dc.read r.key = SlotStore.lookup dc.storage.slots (dc.storage.slotAt dc.chip.image) r.key :=
  contents_eq_lookup h.onePage _ r.validId

theorem Healthy.write (h : dc.Healthy) (r : Record) {data : List UInt8} (h₀ : 0 < data.length)
    (hd : data.length ≤ 252) : (dc.write r.key data).Healthy :=
  ⟨h.onePage, (h.rep.saveBlock h.onePage r.validId h₀ hd).1⟩

theorem Healthy.clear (h : dc.Healthy) (r : Record) : (dc.clear r.key).Healthy :=
  ⟨h.onePage, (h.rep.clearBlock h.onePage r.validId).1⟩

/-- A write is lost exactly when there is no room for it. -/
theorem Healthy.lost_write (h : dc.Healthy) (key : UInt32) (data : List UInt8) :
    (dc.write key data).lost = false ↔ dc.lost = false ∧ dc.Room := by
  have hs := saveBlock_stores_iff h.onePage h.rep.clean h.rep.runs key data
  simp only [DeviceConfig.write, Bool.or_eq_false_iff, Bool.not_eq_false', hs, Room]

theorem Healthy.read_write (h : dc.Healthy) (r s : Record) {data : List UInt8}
    (h₀ : 0 < data.length) (hd : data.length ≤ 252) (hroom : dc.Room) :
    (dc.write r.key data).read s.key =
      if s.key = r.key then some (padded data) else dc.read s.key := by
  have hstored : (dc.storage.saveBlock dc.chip r.key data).1 = true :=
    (saveBlock_stores_iff h.onePage h.rep.clean h.rep.runs r.key data).mpr hroom
  have hl := congrFun (h.rep.saveBlock h.onePage r.validId h₀ hd).2 s.key
  rw [hstored, if_pos rfl, Function.update_apply] at hl
  rw [(h.write r h₀ hd).lookup, h.lookup]
  exact hl

/-- A write without room changes nothing that is read. -/
theorem Healthy.read_write_full (h : dc.Healthy) (r s : Record) {data : List UInt8}
    (h₀ : 0 < data.length) (hd : data.length ≤ 252) (hroom : ¬dc.Room) :
    (dc.write r.key data).read s.key = dc.read s.key := by
  have hstored : (dc.storage.saveBlock dc.chip r.key data).1 = false := by
    rw [← Bool.not_eq_true, saveBlock_stores_iff h.onePage h.rep.clean h.rep.runs]
    exact hroom
  have hl := congrFun (h.rep.saveBlock h.onePage r.validId h₀ hd).2 s.key
  rw [hstored, if_neg (by decide)] at hl
  rw [(h.write r h₀ hd).lookup, h.lookup]
  exact hl

theorem Healthy.read_write_other (h : dc.Healthy) {r s : Record} (hne : s.key ≠ r.key)
    {data : List UInt8} (h₀ : 0 < data.length) (hd : data.length ≤ 252) :
    (dc.write r.key data).read s.key = dc.read s.key := by
  by_cases hroom : dc.Room
  · rw [h.read_write r s h₀ hd hroom, if_neg hne]
  · exact h.read_write_full r s h₀ hd hroom

theorem Healthy.read_clear (h : dc.Healthy) (r s : Record) :
    (dc.clear r.key).read s.key = if s.key = r.key then none else dc.read s.key := by
  have hl := congrFun (h.rep.clearBlock h.onePage r.validId).2.1 s.key
  rw [Function.update_apply] at hl
  rw [(h.clear r).lookup, h.lookup]
  exact hl

/-- At most the block of one record is not what it was. -/
structure OnlyAt (r : Record) (dc dc' : DeviceConfig) : Prop where
  healthy : dc'.Healthy
  other : ∀ {s : Record}, s.key ≠ r.key → dc'.read s.key = dc.read s.key
  lost : dc'.lost = false → dc.lost = false

theorem Healthy.onlyAt_refl (h : dc.Healthy) (r : Record) : OnlyAt r dc dc :=
  ⟨h, fun _ => rfl, id⟩

theorem Healthy.onlyAt_write (h : dc.Healthy) (r : Record) {data : List UInt8}
    (h₀ : 0 < data.length) (hd : data.length ≤ 252) : OnlyAt r dc (dc.write r.key data) :=
  ⟨h.write r h₀ hd, fun hne => h.read_write_other hne h₀ hd,
    fun hl => ((h.lost_write _ _).mp hl).1⟩

theorem Healthy.onlyAt_clear (h : dc.Healthy) (r : Record) : OnlyAt r dc (dc.clear r.key) :=
  ⟨h.clear r, fun hne => (h.read_clear r _).trans (if_neg hne), id⟩

theorem Healthy.onlyAt_saveRemoteConfig (h : dc.Healthy) (a : UInt32) (c : RemoteConfig) :
    OnlyAt (.remote a) dc (dc.saveRemoteConfig a c) := by
  unfold DeviceConfig.saveRemoteConfig
  split_ifs
  · exact h.onlyAt_refl _
  · exact h.onlyAt_write (.remote a) c.encode_bounds.1 c.encode_bounds.2

theorem Healthy.onlyAt_saveBlindConfig (h : dc.Healthy) (k : UInt16) (c : BlindConfig) :
    OnlyAt (.blind k) dc (dc.saveBlindConfig k c) := by
  unfold DeviceConfig.saveBlindConfig
  split_ifs
  · exact h.onlyAt_refl _
  · exact h.onlyAt_write (.blind k) c.encode_bounds.1 c.encode_bounds.2

/-- A blind record that was stored is read back. -/
theorem Healthy.getBlindConfig_save (h : dc.Healthy) (k : UInt16) (c : BlindConfig)
    (hlost : (dc.saveBlindConfig k c).lost = false) :
    (dc.saveBlindConfig k c).getBlindConfig k = some c := by
  unfold DeviceConfig.saveBlindConfig at hlost ⊢
  split_ifs at hlost ⊢ with hsame
  · exact hsame
  · have hroom := ((h.lost_write _ _).mp hlost).2
    have hread := h.read_write (.blind k) (.blind k) c.encode_bounds.1 c.encode_bounds.2 hroom
    rw [if_pos rfl] at hread
    rw [getBlindConfig]
    change Option.map _ ((dc.write (Record.blind k).key _).read (Record.blind k).key) = _
    rw [hread, Option.map_some, padded, BlindConfig.decode_encode]

theorem getRemoteConfig_of_ne (dc : DeviceConfig) {a : UInt32} (h₀ : a ≠ 0)
    (h₁ : a ≠ 0xFFFFFFFF) :
    dc.getRemoteConfig a = (dc.read (Record.remote a).key).map RemoteConfig.decode :=
  if_neg (by simp [h₀, h₁])

theorem getRemoteConfig_reserved (dc : DeviceConfig) {a : UInt32} (h : a = 0xFFFFFFFF ∨ a = 0) :
    dc.getRemoteConfig a = none := if_pos h

/-- What one remote id answers only depends on the block under its key. -/
theorem getRemoteConfig_congr {dc' : DeviceConfig} {a : UInt32}
    (h : dc'.read (Record.remote a).key = dc.read (Record.remote a).key) :
    dc'.getRemoteConfig a = dc.getRemoteConfig a := by
  by_cases ha : a = 0xFFFFFFFF ∨ a = 0
  · rw [getRemoteConfig_reserved dc ha, getRemoteConfig_reserved dc' ha]
  · obtain ⟨h₁, h₀⟩ := not_or.mp ha
    rw [getRemoteConfig_of_ne dc h₀ h₁, getRemoteConfig_of_ne dc' h₀ h₁, h]

theorem saveRemoteConfig_eq (dc : DeviceConfig) (a : UInt32) (c : RemoteConfig) :
    dc.saveRemoteConfig a c =
      if dc.getRemoteConfig a = some c then dc else dc.write (Record.remote a).key c.encode := rfl

theorem Healthy.getRemoteConfig_save_other (h : dc.Healthy) {a b : UInt32}
    (hne : a.toUInt16 ≠ b.toUInt16) (c : RemoteConfig) :
    (dc.saveRemoteConfig a c).getRemoteConfig b = dc.getRemoteConfig b := by
  have hkey : (Record.remote b).key ≠ (Record.remote a).key :=
    fun hk => hne (remoteKey_eq_iff.mp hk).symm
  exact getRemoteConfig_congr ((h.onlyAt_saveRemoteConfig a c).other hkey)

theorem Healthy.getRemoteConfig_delete_other (h : dc.Healthy) {a b : UInt32}
    (hne : a.toUInt16 ≠ b.toUInt16) :
    (dc.deleteRemoteConfig a).getRemoteConfig b = dc.getRemoteConfig b := by
  apply getRemoteConfig_congr
  refine (h.read_clear (.remote a) (.remote b)).trans (if_neg fun hk => hne ?_)
  exact (remoteKey_eq_iff.mp hk).symm

/-- A record reads back when its id can be read, and either there is room for it
or the same record is stored already. -/
theorem Healthy.getRemoteConfig_save_self_iff (h : dc.Healthy) (a : UInt32) (c : RemoteConfig) :
    (dc.saveRemoteConfig a c).getRemoteConfig a = some c ↔
      a ≠ 0 ∧ a ≠ 0xFFFFFFFF ∧ (dc.Room ∨ dc.getRemoteConfig a = some c) := by
  by_cases ha : a = 0xFFFFFFFF ∨ a = 0
  · rw [getRemoteConfig_reserved _ ha]
    simp only [reduceCtorEq, false_iff]
    tauto
  obtain ⟨h₁, h₀⟩ := not_or.mp ha
  simp only [ne_eq, h₀, h₁, not_false_eq_true, true_and]
  rw [saveRemoteConfig_eq]
  by_cases hsame : dc.getRemoteConfig a = some c
  · simp [hsame]
  have hb := c.encode_bounds
  rw [if_neg hsame, getRemoteConfig_of_ne _ h₀ h₁]
  by_cases hroom : dc.Room
  · rw [h.read_write _ _ hb.1 hb.2 hroom, if_pos rfl, Option.map_some, padded,
      RemoteConfig.decode_encode]
    simp [hroom]
  · rw [h.read_write_full _ _ hb.1 hb.2 hroom, ← getRemoteConfig_of_ne _ h₀ h₁]
    simp [hroom]

/-- A remote record that was stored is read back. -/
theorem Healthy.getRemoteConfig_save (h : dc.Healthy) {a : UInt32} (h₀ : a ≠ 0)
    (h₁ : a ≠ 0xFFFFFFFF) (c : RemoteConfig) (hlost : (dc.saveRemoteConfig a c).lost = false) :
    (dc.saveRemoteConfig a c).getRemoteConfig a = some c := by
  refine (h.getRemoteConfig_save_self_iff a c).mpr ⟨h₀, h₁, ?_⟩
  rw [saveRemoteConfig_eq] at hlost
  split_ifs at hlost with hsame
  · exact .inr hsame
  · exact .inl ((h.lost_write _ _).mp hlost).2

/-- Two remotes do not interfere: saving or deleting one leaves what is read of
the other, what is saved is read back, and no two records share a key. -/
structure NoInterference (dc : DeviceConfig) (a b : UInt32) (c : RemoteConfig) : Prop where
  save_other : (dc.saveRemoteConfig a c).getRemoteConfig b = dc.getRemoteConfig b
  delete_other : (dc.deleteRemoteConfig a).getRemoteConfig b = dc.getRemoteConfig b
  save_self : (dc.saveRemoteConfig a c).getRemoteConfig a = some c
  keys : ∀ r s : Record, (∀ x, r = .remote x → x = a ∨ x = b) →
    (∀ x, s = .remote x → x = a ∨ x = b) → r.key = s.key → r = s

/-- A configuration whose storage was formatted and then used, with every flash
call run. -/
structure Reachable (dc : DeviceConfig) : Prop where
  onePage : dc.storage.blockPages = 1
  history : ∃ c ops, (∀ i, c.verdict i = true) ∧ (∀ op ∈ ops, StorageOp.Valid op) ∧
    dc.chip = dc.storage.run (dc.storage.format c) ops

theorem Reachable.healthy (h : dc.Reachable) : dc.Healthy := by
  obtain ⟨c, ops, hok, hops, hchip⟩ := h.history
  refine ⟨h.onePage, ?_⟩
  rw [hchip]
  exact ((rep_format hok).run h.onePage hops).1

/-- Storing a record is one more storage operation. -/
theorem Reachable.write (h : dc.Reachable) (r : Record) {data : List UInt8}
    (h₀ : 0 < data.length) (hd : data.length ≤ 252) : (dc.write r.key data).Reachable := by
  obtain ⟨c, ops, hok, hops, hchip⟩ := h.history
  refine ⟨h.onePage, c, ops ++ [.save r.key data], hok, fun op hop => ?_, ?_⟩
  · rcases List.mem_append.mp hop with hop | hop
    · exact hops op hop
    · rw [List.mem_singleton.mp hop]
      exact ⟨r.validId, h₀, hd⟩
  · change (dc.storage.saveBlock dc.chip r.key data).2 = _
    rw [hchip, run, run, List.foldl_append, List.foldl_cons, List.foldl_nil, apply_save]
    rfl

theorem Reachable.saveRemoteConfig (h : dc.Reachable) (a : UInt32) (c : RemoteConfig) :
    (dc.saveRemoteConfig a c).Reachable := by
  rw [saveRemoteConfig_eq]
  split_ifs
  · exact h
  · exact h.write _ c.encode_bounds.1 c.encode_bounds.2

/-- Two registered remotes keep out of each other's way exactly when their ids
differ in the low sixteen bits, the id is not a reserved one, and the storage has
room or holds the record already. -/
theorem noInterference_iff (h : dc.Reachable) {a b : UInt32} (hab : a ≠ b) (c : RemoteConfig) :
    dc.NoInterference a b c ↔
      a.toUInt16 ≠ b.toUInt16 ∧ a ≠ 0 ∧ a ≠ 0xFFFFFFFF ∧
        (dc.Room ∨ dc.getRemoteConfig a = some c) := by
  have hh := h.healthy
  constructor
  · intro hn
    refine ⟨fun hlow => ?_, (hh.getRemoteConfig_save_self_iff a c).mp hn.save_self⟩
    have hkey := hn.keys (.remote a) (.remote b) (by simp) (by simp) (remoteKey_eq_iff.mpr hlow)
    exact hab (by simpa using hkey)
  · rintro ⟨hlow, hself⟩
    refine ⟨hh.getRemoteConfig_save_other hlow c, hh.getRemoteConfig_delete_other hlow,
      (hh.getRemoteConfig_save_self_iff a c).mpr hself, fun r s hr hs hk => ?_⟩
    rcases Record.key_eq hk with hrs | ⟨x, y, rfl, rfl, hxy⟩
    · exact hrs
    · rcases hr x rfl with rfl | rfl <;> rcases hs y rfl with rfl | rfl
      · rfl
      · exact absurd hxy hlow
      · exact absurd hxy.symm hlow
      · rfl

/-- A device with the shipped storage, just formatted. -/
def formatted : DeviceConfig := ⟨shipped, shipped.format healthyChip, false⟩

/-- A smaller storage of one sector, just formatted. -/
def oneSector : DeviceConfig :=
  ⟨.create 0 4096 252, (BlockStorage.create 0 4096 252).format healthyChip, false⟩

theorem formatted_reachable : formatted.Reachable :=
  ⟨shipped_onePage, healthyChip, [], fun _ => rfl, by simp, rfl⟩

def createdRecord : RemoteConfig := ⟨.empty name_pos, 0x270001, 2, [1], by decide⟩

def importedRecord : RemoteConfig := ⟨.empty name_pos, 0x370001, 500, [2], by decide⟩

/-- The device after an imported remote was stored. -/
def afterImport : DeviceConfig := formatted.saveRemoteConfig 0x370001 importedRecord

theorem afterImport_reachable : afterImport.Reachable :=
  formatted_reachable.saveRemoteConfig 0x370001 importedRecord

theorem noInterference_distinct :
    afterImport.Reachable ∧ (0x270002 : UInt32) ≠ 0x370001 ∧
      afterImport.NoInterference 0x270002 0x370001 createdRecord := by
  refine ⟨afterImport_reachable, by decide,
    (noInterference_iff afterImport_reachable (by decide) createdRecord).mpr
      ⟨by decide, by decide, by decide, .inl ?_⟩⟩
  have hlost : (afterImport.write (remoteKey 0x270002) createdRecord.encode).lost = false := by
    decide +kernel
  exact ((afterImport_reachable.healthy.lost_write _ _).mp hlost).2

/-- Saving a created remote replaces the record of an imported one, with its
rolling code and its blinds. -/
theorem created_replaces_imported :
    afterImport.Reachable ∧ (0x270001 : UInt32) ≠ 0x370001 ∧
      afterImport.getRemoteConfig 0x370001 = some importedRecord ∧
      (afterImport.saveRemoteConfig 0x270001 createdRecord).getRemoteConfig 0x370001 =
        some createdRecord ∧
      ¬afterImport.NoInterference 0x270001 0x370001 createdRecord := by
  have hold : afterImport.getRemoteConfig 0x370001 = some importedRecord := by decide +kernel
  have hnew : (afterImport.saveRemoteConfig 0x270001 createdRecord).getRemoteConfig 0x370001 =
      some createdRecord := by decide +kernel
  refine ⟨afterImport_reachable, by decide, hold, hnew, fun hn => ?_⟩
  have hsame := hn.save_other
  rw [hold, hnew] at hsame
  exact absurd hsame (by decide)

end DeviceConfig

end PicoSomfy
