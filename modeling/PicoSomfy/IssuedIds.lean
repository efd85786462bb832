import PicoSomfy.DeviceRuns

/-!
# New ids

A remote that is created and a blind that is added take the next ids of two counters.
The counters are not stored: a start of the device sets them above the ids in the
stored lists. So an id is only given out once if, at a restart, the remote and the blind
created last are still listed, and the next id is not that of an imported remote.

`Lifetime` keeps a ledger of the ids given out since the device was reset. Nothing is
assumed about the low halves of ids or about writes for which there was no room.
-/
namespace PicoSomfy

open SortedMap DeviceConfig CStrings NorFlash

namespace DeviceConfig

variable {dc dc' : DeviceConfig}

/-- After a list was saved, the stored list is the new or, without room, the old one. -/
theorem Healthy.holds_saved (h : dc.Healthy) (r : Record) {n m : ℕ} {bytes old : List UInt8}
    (hlen : 4 + bytes.length ≤ 252) (hold : dc.Holds r m old) :
    (dc.write r.key (encode32 (UInt32.ofNat n) ++ bytes)).Holds r n bytes ∨
      (dc.write r.key (encode32 (UInt32.ofNat n) ++ bytes)).Holds r m old := by
  have h₀ : 0 < (encode32 (UInt32.ofNat n) ++ bytes).length := by
    rw [length_list]
    omega
  have hfits : (encode32 (UInt32.ofNat n) ++ bytes).length ≤ 252 := by
    rw [length_list]
    exact hlen
  by_cases hroom : dc.Room
  · refine .inl ⟨hlen, .inl ?_⟩
    rw [h.read_write r r h₀ hfits hroom, if_pos rfl]
  · exact .inr (hold.congr (h.read_write_full r r h₀ hfits hroom))

/-- A stored list of ids that all have a property. -/
def Lists (dc : DeviceConfig) (r : Record) (good : UInt16 → Prop) : Prop :=
  ∃ ids, dc.StoresIds r ids ∧ ∀ i ∈ ids, good i

theorem Lists.congr {r : Record} {good : UInt16 → Prop} (h : dc.Lists r good)
    (hread : dc'.read r.key = dc.read r.key) : dc'.Lists r good := by
  obtain ⟨ids, hs, hgood⟩ := h
  exact ⟨ids, hs.congr hread, hgood⟩

theorem Lists.mono {r : Record} {good good' : UInt16 → Prop} (h : dc.Lists r good)
    (himp : ∀ i, good i → good' i) : dc.Lists r good' := by
  obtain ⟨ids, hs, hgood⟩ := h
  exact ⟨ids, hs, fun i hi => himp i (hgood i hi)⟩

theorem Healthy.lists_saved (h : dc.Healthy) (r : Record) {good : UInt16 → Prop}
    (hold : dc.Lists r good) {ids : List UInt16} (hlen : ids.length ≤ 124)
    (hgood : ∀ i ∈ ids, good i) : (dc.saveIdList r.key ids).Lists r good := by
  obtain ⟨old, hs, hold⟩ := hold
  have hbytes : 4 + (encode16s ids).length ≤ 252 := by
    rw [length_encode16s]
    omega
  rcases h.holds_saved r (n := ids.length) hbytes hs with hnew | hsame
  · exact ⟨ids, hnew, hgood⟩
  · exact ⟨old, hsame, hold⟩

end DeviceConfig

namespace Device

variable {d d' : Device}

/-- The counters are above all that is registered or listed. -/
structure Counted (d : Device) : Prop where
  healthy : d.config.Healthy
  below : d.Below
  internal : ∀ (id : UInt32) (p : ℕ), d.remotes[id]? = some p → (d.heap p).isExternal = false →
    0x270000 < id.toNat ∧ id.toNat < d.nextRemoteId.toNat
  nextRemote : 0x270000 < d.nextRemoteId.toNat ∧ d.nextRemoteId.toNat ≤ 0x280000
  remoteList : d.config.Lists .remoteIds fun low =>
    0x270000 < (fullId low).toNat ∧ (fullId low).toNat < d.nextRemoteId.toNat
  blind : ∀ k ∈ d.blinds, k.toNat < d.nextBlindId.toNat
  nextBlind : 0 < d.nextBlindId.toNat ∧ d.nextBlindId.toNat ≤ 65536
  blindList : d.config.Lists .blindIds fun k => k.toNat < d.nextBlindId.toNat

/-- The same objects, and a change of at most other records. -/
structure SameCounts (d d' : Device) : Prop extends SameRegistry d d' where
  healthy : d.config.Healthy → d'.config.Healthy
  lists : d.config.Healthy →
    d'.config.read Record.remoteIds.key = d.config.read Record.remoteIds.key ∧
      d'.config.read Record.externalRemoteIds.key = d.config.read Record.externalRemoteIds.key ∧
      d'.config.read Record.blindIds.key = d.config.read Record.blindIds.key

theorem SameCounts.refl (d : Device) : d.SameCounts d where
  toSameRegistry := .refl d
  healthy := id
  lists _ := ⟨rfl, rfl, rfl⟩

theorem SameCounts.trans {d'' : Device} (h : d.SameCounts d') (k : d'.SameCounts d'') :
    d.SameCounts d'' where
  toSameRegistry := h.toSameRegistry.trans k.toSameRegistry
  healthy hh := k.healthy (h.healthy hh)
  lists hh := by
    obtain ⟨h₁, h₂, h₃⟩ := h.lists hh
    obtain ⟨k₁, k₂, k₃⟩ := k.lists (h.healthy hh)
    exact ⟨k₁.trans h₁, k₂.trans h₂, k₃.trans h₃⟩

theorem SameCounts.of_config (h : SameRegistry d d') (hc : d'.config = d.config) :
    d.SameCounts d' where
  toSameRegistry := h
  healthy hh := hc ▸ hh
  lists _ := by
    rw [hc]
    exact ⟨rfl, rfl, rfl⟩

/-- A change of one record that is no list. -/
theorem SameCounts.of_onlyAt (h : SameRegistry d d') {r : Record}
    (ho : d.config.Healthy → OnlyAt r d.config d'.config) (hr : r ≠ .remoteIds)
    (hx : r ≠ .externalRemoteIds) (hb : r ≠ .blindIds) : d.SameCounts d' where
  toSameRegistry := h
  healthy hh := (ho hh).healthy
  lists hh := ⟨(ho hh).other (Record.key_ne nofun hr.symm), (ho hh).other (Record.key_ne nofun hx.symm),
    (ho hh).other (Record.key_ne nofun hb.symm)⟩

theorem Counted.same (h : d.Counted) (hs : d.SameCounts d') : d'.Counted := by
  obtain ⟨hlist, -, hblinds⟩ := hs.lists h.healthy
  refine ⟨hs.healthy h.healthy, fun {id p} hp => ?_, fun id p hp he => ?_, ?_, ?_,
    fun k hk => ?_, ?_, ?_⟩
  · rw [hs.remotes] at hp
    rw [hs.heapTop]
    exact h.below hp
  · rw [hs.remotes] at hp
    rw [hs.isExternal] at he
    rw [hs.nextRemoteId]
    exact h.internal id p hp he
  · rw [hs.nextRemoteId]
    exact h.nextRemote
  · rw [hs.nextRemoteId]
    exact h.remoteList.congr hlist
  · rw [hs.nextBlindId]
    exact h.blind k (hs.mem_blinds.mp hk)
  · rw [hs.nextBlindId]
    exact h.nextBlind
  · rw [hs.nextBlindId]
    exact h.blindList.congr hblinds

theorem sameCounts_saveRemote {p : ℕ} {force : Bool} (h : d.saveRemote p force = some d') :
    d.SameCounts d' := by
  rcases saveRemote_cases h with ⟨rfl, -⟩ | ⟨c, -, rfl⟩
  · exact .refl _
  · exact .of_onlyAt (saves_saveRemote h).toSameRegistry
      (fun hh => hh.onlyAt_saveRemoteConfig (d.heap p).remoteId c) nofun nofun nofun

theorem sameCounts_saveBlindAt {force : Bool} {k : UInt32} (h : d.saveBlindAt force k = some d') :
    d.SameCounts d' := by
  have hsame := (saves_saveBlindAt h).toSameRegistry
  obtain ⟨b, -, ⟨rfl, -⟩ | ⟨c, -, rfl⟩⟩ := saveBlindAt_cases h
  · exact .of_config hsame rfl
  · exact .of_onlyAt hsame (fun hh => hh.onlyAt_saveBlindConfig b.blindId c) nofun nofun nofun

theorem sameCounts_saveRemoteState (h : d.saveRemoteState = some d') : d.SameCounts d' :=
  Transitions.foldlM_keeps (f := fun (d : Device) (entry : UInt32 × ℕ) => d.saveRemote entry.2 false)
    (R := SameCounts) .refl .trans sameCounts_saveRemote h

theorem sameCounts_saveBlindState {force : Bool} (h : d.saveBlindState force = some d') :
    d.SameCounts d' :=
  Transitions.foldlM_keeps (f := fun (d : Device) k => d.saveBlindAt force k) (R := SameCounts)
    .refl .trans sameCounts_saveBlindAt h

theorem sameCounts_saveAll (h : d.saveAll = some d') : d.SameCounts d' := by
  obtain ⟨d₁, h₁, h₂⟩ := Option.bind_eq_some_iff.mp h
  exact (sameCounts_saveRemoteState h₁).trans (sameCounts_saveBlindState h₂)

theorem Counted.saveRemoteList (h : d.Counted) (hfew : d.FewRemotes)
    (hd : d.saveRemoteList = some d') : d'.Counted := by
  obtain ⟨hi, hx⟩ := hfew
  unfold Device.saveRemoteList at hd
  split_ifs at hd
  cases hd
  have hli : 4 + (encode16s d.internalIds).length ≤ 252 := by
    rw [length_encode16s]
    omega
  have hlx : 4 + (encode32s d.externalIds).length ≤ 252 := by
    rw [length_encode32s]
    omega
  have h₁ : OnlyAt .remoteIds d.config (d.config.saveRemoteIds d.internalIds) :=
    h.healthy.onlyAt_list .remoteIds hli
  have h₂ : OnlyAt .externalRemoteIds (d.config.saveRemoteIds d.internalIds)
      ((d.config.saveRemoteIds d.internalIds).saveExternalRemoteIds d.externalIds) :=
    h₁.healthy.onlyAt_list .externalRemoteIds hlx
  refine ⟨h₂.healthy, h.below, h.internal, h.nextRemote, ?_, h.blind, h.nextBlind, ?_⟩
  · have hsaved := h.healthy.lists_saved .remoteIds h.remoteList hi fun low hlow => by
      obtain ⟨id, p, hp, he, rfl⟩ := mem_internalIds.mp hlow
      have hrange := h.internal id p hp he
      rwa [fullId_toUInt16 ⟨hrange.1, hrange.2.trans_le h.nextRemote.2⟩]
    exact hsaved.congr (h₂.other (by decide))
  · exact h.blindList.congr ((h₂.other (by decide)).trans (h₁.other (by decide)))

theorem Counted.saveBlindList (h : d.Counted) (hsize : d.blinds.size ≤ 124)
    (hd : d.saveBlindList = some d') : d'.Counted := by
  have hb : d.blindIds.length ≤ 124 := by
    rw [length_blindIds]
    exact hsize
  unfold Device.saveBlindList at hd
  split_ifs at hd
  cases hd
  have h₁ : OnlyAt .blindIds d.config (d.config.saveBlindIds d.blindIds) :=
    h.healthy.onlyAt_list .blindIds (by rw [length_encode16s]; omega)
  refine ⟨h₁.healthy, h.below, h.internal, h.nextRemote, ?_, h.blind, h.nextBlind, ?_⟩
  · exact h.remoteList.congr (h₁.other (by decide))
  · refine h.healthy.lists_saved .blindIds h.blindList hb fun k hk => ?_
    obtain ⟨i, hi, rfl⟩ := List.mem_map.mp hk
    have hlt := h.blind i (Std.ExtTreeMap.mem_keys.mp hi)
    rwa [UInt32.toNat_toUInt16, Nat.mod_eq_of_lt (hlt.trans_le h.nextBlind.2)]

theorem Counted.insertRemote (h : d.Counted) {id : UInt32} {r : SomfyRemote}
    (hnew : d.remotes[id]? = none)
    (hr : r.isExternal = false → 0x270000 < id.toNat ∧ id.toNat < d.nextRemoteId.toNat) :
    (d.insertRemote id r).Counted := by
  refine ⟨h.healthy, below_insertRemote h.below id r, fun a p hp he => ?_, h.nextRemote,
    h.remoteList, h.blind, h.nextBlind, h.blindList⟩
  change (d.remotes.insertIfNew id d.heapTop)[a]? = some p at hp
  rw [get_insertIfNew_fresh hnew] at hp
  split_ifs at hp with ha
  · cases hp
    rw [insertRemote_top] at he
    exact ha ▸ hr he
  · rw [insertRemote_heap (h.below hp)] at he
    exact h.internal a p hp he

theorem Counted.registerRemote (h : d.Counted) {name : List UInt8} {id : UInt32}
    {isExternal : Bool} (hnew : d.remotes[id]? = none)
    (hid : isExternal = false → 0x270000 < id.toNat ∧ id.toNat < d.nextRemoteId.toNat)
    (hi : d.internalIds.length + (if isExternal then 0 else 1) ≤ 124)
    (hx : d.externalIds.length + (if isExternal then 1 else 0) ≤ 62)
    (hd : d.registerRemote name id isExternal = some d') : d'.Counted := by
  have hins := h.insertRemote (r := d.newRemote name id isExternal) hnew (by simpa using hid)
  have hfew := fewRemotes_insert h.below hnew (r := d.newRemote name id isExternal)
    (by simpa using hi) (by simpa using hx)
  obtain ⟨d₁, h₁, h₂⟩ := Option.bind_eq_some_iff.mp hd
  obtain ⟨c, -, heq⟩ := saveRemote_new (newRemote_isDirty name id isExternal) h₁
  refine (hins.same (sameCounts_saveRemote h₁)).saveRemoteList ?_ h₂
  rw [heq]
  exact hfew

/-- The counter of remotes moves on. -/
theorem Counted.advance (h : d.Counted) (hnext : d.nextRemoteId.toNat < 0x280000) :
    Counted { d with nextRemoteId := d.nextRemoteId + 1 } := by
  have hsucc : (d.nextRemoteId + 1).toNat = d.nextRemoteId.toNat + 1 := by
    rw [UInt32.toNat_add, UInt32.toNat_one]
    omega
  have hlow := h.nextRemote.1
  refine ⟨h.healthy, h.below, fun id p hp he => ?_, ?_, h.remoteList.mono fun low hl => ?_,
    h.blind, h.nextBlind, h.blindList⟩
  · have hrange := h.internal id p hp he
    simp only [hsucc]
    omega
  · simp only [hsucc]
    omega
  · simp only [hsucc]
    omega

/-- Room for one more created remote in the list. -/
def RoomForRemote (d : Device) : Prop :=
  d.internalIds.length < 124 ∧ d.externalIds.length ≤ 62

theorem Counted.createRemote (h : d.Counted) {name : List UInt8}
    (hnew : d.nextRemoteId ∉ d.remotes) (hnext : d.nextRemoteId.toNat < 0x280000)
    (hroom : d.RoomForRemote) (hd : d.createRemote name = some d') : d'.Counted := by
  have hsucc : (d.nextRemoteId + 1).toNat = d.nextRemoteId.toNat + 1 := by
    rw [UInt32.toNat_add, UInt32.toNat_one]
    omega
  refine (h.advance hnext).registerRemote (d := { d with nextRemoteId := d.nextRemoteId + 1 })
    (Std.ExtTreeMap.getElem?_eq_none hnew) (fun _ => ⟨h.nextRemote.1, ?_⟩) ?_ ?_ hd
  · simp only [hsucc]
    omega
  · exact hroom.1
  · exact hroom.2

/-- What a new remote changes in memory besides the heap. -/
theorem createRemote_fields {name : List UInt8} (hd : d.createRemote name = some d') :
    d'.nextRemoteId = d.nextRemoteId + 1 ∧
      d'.remotes = d.remotes.insertIfNew d.nextRemoteId d.heapTop ∧
      d'.heapTop = d.heapTop + 1 ∧ d'.blinds = d.blinds ∧ d'.nextBlindId = d.nextBlindId := by
  obtain ⟨config, rfl⟩ := registerRemote_eq hd
  exact ⟨rfl, rfl, rfl, rfl, rfl⟩

theorem Counted.addBlind (h : d.Counted) {name : List UInt8} {openTime closeTime : Int32}
    (hnew : d.nextRemoteId ∉ d.remotes) (hnext : d.nextRemoteId.toNat < 0x280000)
    (hnextBlind : d.nextBlindId.toNat < 65536) (hroom : d.RoomForRemote)
    (hsize : d.blinds.size < 124) (hd : d.addBlind name openTime closeTime = some d') :
    d'.Counted := by
  have hsucc : (d.nextBlindId + 1).toNat = d.nextBlindId.toNat + 1 := by
    rw [UInt32.toNat_add, UInt32.toNat_one]
    omega
  obtain ⟨d₁, h₁, h₂⟩ := Option.bind_eq_some_iff.mp hd
  obtain ⟨⟨config, b⟩, hb, h₃⟩ := Option.bind_eq_some_iff.mp h₂
  obtain ⟨-, -, -, hblinds₁, hnext₁⟩ := createRemote_fields h₁
  have hc₁ := h.createRemote hnew hnext hroom h₁
  unfold saveBlind at hb
  rw [if_pos (Bool.or_true _)] at hb
  obtain ⟨c, hc, heq⟩ := Option.map_eq_some_iff.mp hb
  cases heq
  have hstored : Counted { d₁ with
      config := d₁.config.saveBlindConfig d.nextBlindId.toUInt16 c } :=
    hc₁.same (.of_onlyAt (sameRegistry_config d₁ _)
      (fun hh => hh.onlyAt_saveBlindConfig d.nextBlindId.toUInt16 c) nofun nofun nofun)
  have hinserted : Counted { d₁ with
      config := d₁.config.saveBlindConfig d.nextBlindId.toUInt16 c
      nextBlindId := d.nextBlindId + 1
      blinds := d₁.blinds.insertIfNew d.nextBlindId (d.newBlind name openTime closeTime) } := by
    refine ⟨hstored.healthy, hstored.below, hstored.internal, hstored.nextRemote,
      hstored.remoteList, fun k hk => ?_, ?_, hstored.blindList.mono fun k hk => ?_⟩
    · rw [hsucc]
      rcases Std.ExtTreeMap.mem_insertIfNew.mp hk with hk | hk
      · rw [Std.LawfulEqCmp.compare_eq_iff_eq] at hk
        rw [← hk]
        exact Nat.lt_succ_self _
      · have hold := hc₁.blind k hk
        rw [hnext₁] at hold
        exact Nat.lt_succ_of_lt hold
    · rw [hsucc]
      omega
    · rw [hsucc]
      dsimp only at hk
      rw [hnext₁] at hk
      exact Nat.lt_succ_of_lt hk
  have hassociated := hinserted.same (.of_config (.modifyRemote _ d.heapTop
    (fun r => r.associateBlind d.nextBlindId.toUInt16) (associateBlind_fields _ _).1
    (associateBlind_fields _ _).2) rfl)
  refine hassociated.saveBlindList ?_ h₃
  refine (Std.ExtTreeMap.size_insertIfNew_le (t := d₁.blinds) (k := d.nextBlindId)).trans ?_
  rw [hblinds₁]
  exact hsize

theorem addBlind_fields {name : List UInt8} {openTime closeTime : Int32}
    (hd : d.addBlind name openTime closeTime = some d') :
    d'.nextRemoteId = d.nextRemoteId + 1 ∧ d'.nextBlindId = d.nextBlindId + 1 ∧
      d'.remotes = d.remotes.insertIfNew d.nextRemoteId d.heapTop := by
  obtain ⟨config, rfl⟩ := addBlind_eq hd
  exact ⟨rfl, rfl, rfl⟩

theorem mem_of_mem_erase {V : Type} {m : Std.ExtTreeMap UInt32 V} {k a : UInt32}
    (h : a ∈ m.erase k) : a ∈ m := (Std.ExtTreeMap.mem_erase.mp h).2

theorem Counted.deleteRemote (h : d.Counted) (hfew : d.FewRemotes) {id : UInt32}
    (hd : d.deleteRemote id = some d') : d'.Counted := by
  have honly : d.config.Healthy → OnlyAt (.remote id) d.config (d.config.deleteRemoteConfig id) :=
    fun hh => hh.onlyAt_clear (.remote id)
  have hcleared : Counted { d with config := d.config.deleteRemoteConfig id } :=
    h.same (.of_onlyAt (sameRegistry_config d _) honly nofun nofun nofun)
  have hold : ∀ (a : UInt32) (p : ℕ), (d.remotes.erase id)[a]? = some p →
      d.remotes[a]? = some p := fun a p hp => by
    rw [get_erase] at hp
    split_ifs at hp
    exact hp
  have herased : Counted { d with
      remotes := d.remotes.erase id
      config := d.config.deleteRemoteConfig id } :=
    ⟨hcleared.healthy, fun {a p} hp => hcleared.below (hold a p hp),
      fun a p hp => hcleared.internal a p (hold a p hp), hcleared.nextRemote, hcleared.remoteList,
      hcleared.blind, hcleared.nextBlind, hcleared.blindList⟩
  exact herased.saveRemoteList (fewRemotes_erase hfew id) hd

theorem Counted.removeBlind (h : d.Counted) {k : UInt32} {b : Blind} (hfew : d.FewRemotes)
    (hsize : d.blinds.size ≤ 124) (hd : d.removeBlind k b = some d') : d'.Counted := by
  have herased : Counted { d with blinds := d.blinds.erase k } :=
    ⟨h.healthy, h.below, h.internal, h.nextRemote, h.remoteList,
      fun i hi => h.blind i (mem_of_mem_erase hi), h.nextBlind, h.blindList⟩
  obtain ⟨d₁, h₁, h₂⟩ := Option.bind_eq_some_iff.mp hd
  have hc₁ := herased.deleteRemote hfew h₁
  have hsize₁ : d₁.blinds.size ≤ 124 := by
    obtain ⟨config, rfl⟩ := deleteRemote_eq h₁
    exact Std.ExtTreeMap.size_erase_le.trans hsize
  have hcleared : Counted { d₁ with config := d₁.config.deleteBlindConfig k.toUInt16 } :=
    hc₁.same (.of_onlyAt (sameRegistry_config d₁ _)
      (fun hh => hh.onlyAt_clear (.blind k.toUInt16)) nofun nofun nofun)
  exact hcleared.saveBlindList hsize₁ h₂

/-- The counter of remotes is not set higher than the list asks for. -/
theorem loadInternals_le {n : ℕ} (lows : List UInt16) {d : Device}
    (hlows : ∀ low ∈ lows, (fullId low).toNat < n) (h : d.nextRemoteId.toNat ≤ n) :
    (lows.foldl loadInternal d).nextRemoteId.toNat ≤ n := by
  induction lows generalizing d with
  | nil => exact h
  | cons low lows ih =>
      refine ih (fun l hl => hlows l (List.mem_cons_of_mem _ hl)) ?_
      have hlt := hlows low List.mem_cons_self
      have hfull := toNat_fullId low
      have hlow := low.toNat_lt
      have hsucc : (fullId low + 1).toNat = (fullId low).toNat + 1 := by
        rw [UInt32.toNat_add, UInt32.toNat_one]
        omega
      rw [loadInternal_raises, raiseNextRemoteId]
      split_ifs
      · simp only [hsucc]
        omega
      · exact h

/-- A loaded remote is listed, and is an imported one if only that list has it. -/
theorem mem_loadRemotes (config : DeviceConfig) (mqttEnabled : Bool) (slots : ℕ → RecvCommand)
    (history : List Happening) {a : UInt32} {p : ℕ}
    (hp : (blank config mqttEnabled slots history).loadRemotes.remotes[a]? = some p) :
    a ∈ config.getRemoteIds.map fullId ∨
      (a ∈ config.getExternalRemoteIds ∧ config.getRemoteConfig a ≠ none ∧
        ((blank config mqttEnabled slots history).loadRemotes.heap p).isExternal = true) := by
  have hview := remote?_loadRemotes (blank_below config mqttEnabled slots history) a
  rw [remote?, hp, Option.map_some] at hview
  by_cases hlow : a ∈ config.getRemoteIds.map fullId
  · exact .inl hlow
  · have hblank : (blank config mqttEnabled slots history).remote? a = none := by
      simp [remote?, blank]
    rw [hblank, Option.none_or] at hview
    change _ = Option.or (if a ∈ config.getRemoteIds.map fullId then _ else none)
      (if a ∈ config.getExternalRemoteIds then _ else none) at hview
    rw [if_neg hlow, Option.none_or] at hview
    split_ifs at hview with hext
    obtain ⟨cfg, hcfg, hr⟩ := Option.map_eq_some_iff.mp hview.symm
    refine .inr ⟨hext, by simp [show config.getRemoteConfig a = some cfg from hcfg], ?_⟩
    rw [← hr, SomfyRemote.create_fields]

/-- The loop of `Initialize` with the ids it has still to visit. -/
structure LoadingBlinds (e : Device) (ids : List UInt16) (m : ℕ) (rest : List UInt16)
    (s : Device × Bool) : Prop where
  same : s.1.remotes = e.remotes ∧ s.1.heap = e.heap ∧ s.1.heapTop = e.heapTop ∧
    s.1.nextRemoteId = e.nextRemoteId
  within : ∀ k ∈ rest, k ∈ ids
  healthy : s.1.config.Healthy
  lists : s.1.config.read Record.remoteIds.key = e.config.read Record.remoteIds.key ∧
    s.1.config.read Record.blindIds.key = e.config.read Record.blindIds.key
  next : 0 < s.1.nextBlindId.toNat ∧ s.1.nextBlindId.toNat ≤ m
  listed : ∀ k ∈ ids, k ∈ rest ∨ k.toNat < s.1.nextBlindId.toNat
  loaded : ∀ k ∈ s.1.blinds, k.toNat < s.1.nextBlindId.toNat
  size : s.1.blinds.size + rest.length ≤ ids.length

theorem LoadingBlinds.turn {e : Device} {ids rest : List UInt16} {m : ℕ} {k : UInt16}
    {s t : Device × Bool} (hm : m ≤ 65536) (hids : ∀ k ∈ ids, k.toNat < m)
    (h : LoadingBlinds e ids m (k :: rest) s) (hload : loadBlind s k = some t) :
    LoadingBlinds e ids m rest t := by
  obtain ⟨cfg, -, rfl⟩ := Option.map_eq_some_iff.mp hload
  have hkm := hids k (h.within k List.mem_cons_self)
  have hwithin : ∀ i ∈ rest, i ∈ ids := fun i hi => h.within i (List.mem_cons_of_mem _ hi)
  have hsucc : (k.toUInt32 + 1).toNat = k.toNat + 1 := by
    rw [UInt32.toNat_add, UInt32.toNat_one, UInt16.toNat_toUInt32]
    omega
  -- the counter moves above the id, whatever becomes of the blind
  obtain ⟨next, hraise, hnext, hle, hlt⟩ : ∃ next, s.1.raiseNextBlindId k.toUInt32 =
      { s.1 with nextBlindId := next } ∧ (0 < next.toNat ∧ next.toNat ≤ m) ∧
      s.1.nextBlindId.toNat ≤ next.toNat ∧ k.toNat < next.toNat := by
    obtain ⟨hpos, hmax⟩ := h.next
    unfold raiseNextBlindId
    split_ifs with hge <;> rw [ge_iff_le, UInt32.le_iff_toNat_le, UInt16.toNat_toUInt32] at hge
    · refine ⟨k.toUInt32 + 1, rfl, ?_, ?_, ?_⟩ <;> rw [hsucc]
      · omega
      · exact hge.trans (Nat.le_succ _)
      · omega
    · exact ⟨s.1.nextBlindId, rfl, ⟨hpos, hmax⟩, le_rfl, not_le.mp hge⟩
  have hlisted : ∀ i ∈ ids, i ∈ rest ∨ i.toNat < next.toNat := fun i hi => by
    rcases h.listed i hi with hr | hr
    · rcases List.mem_cons.mp hr with rfl | hr
      · exact .inr hlt
      · exact .inl hr
    · exact .inr (hr.trans_le hle)
  have hsize := h.size
  rw [List.length_cons] at hsize
  rw [hraise]
  unfold restoreBlind
  split
  · refine ⟨h.same, hwithin, h.healthy, h.lists, hnext, hlisted, fun i hi => ?_, ?_⟩
    · rcases Std.ExtTreeMap.mem_insertIfNew.mp hi with hi | hi
      · rw [Std.LawfulEqCmp.compare_eq_iff_eq] at hi
        rw [← hi, UInt16.toNat_toUInt32]
        exact hlt
      · exact (h.loaded i hi).trans_le hle
    · have hinsert := Std.ExtTreeMap.size_insertIfNew_le (t := s.1.blinds) (k := k.toUInt32)
        (v := .create s.1.mqttEnabled s.1.clock k cfg.blindName.chars cfg.currentPosition
          cfg.myPosition cfg.openTime cfg.closeTime ‹ℕ›)
      dsimp only
      omega
  · have honly : OnlyAt (.blind k) s.1.config (s.1.config.deleteBlindConfig k) :=
      h.healthy.onlyAt_clear (.blind k)
    have hremotes := honly.other (s := .remoteIds) (blind_key_ne nofun)
    have hblinds := honly.other (s := .blindIds) (blind_key_ne nofun)
    refine ⟨h.same, hwithin, honly.healthy,
      ⟨hremotes.trans h.lists.1, hblinds.trans h.lists.2⟩, hnext, hlisted, fun i hi => (h.loaded i hi).trans_le hle, ?_⟩
    dsimp only
    omega

/-- A start sets the counters as high as the stored lists say, and no higher. -/
theorem boot_counted {config : DeviceConfig} {mqttEnabled : Bool} {slots : ℕ → RecvCommand}
    {history : List Happening} (hh : config.Healthy) {n m : ℕ}
    (hn : 0x270000 < n ∧ n ≤ 0x280000) (hm : 0 < m ∧ m ≤ 65536)
    (hlows : config.Lists .remoteIds fun low =>
      0x270000 < (fullId low).toNat ∧ (fullId low).toNat < n)
    (hblinds : config.Lists .blindIds fun k => k.toNat < m)
    (h : boot config mqttEnabled slots history = some d') :
    d'.Counted ∧ (d'.nextRemoteId.toNat ≤ n ∧ d'.nextBlindId.toNat ≤ m) ∧
      (∀ low ∈ config.getRemoteIds, (fullId low).toNat < d'.nextRemoteId.toNat) ∧
      (∀ k ∈ config.getBlindIds, k.toNat < d'.nextBlindId.toNat) ∧
      ∀ a ∈ d'.remotes, a.toNat < d'.nextRemoteId.toNat ∨
        (a ∈ config.getExternalRemoteIds ∧ config.getRemoteConfig a ≠ none) := by
  obtain ⟨lows, hlowsStored, hlowsGood⟩ := hlows
  obtain ⟨ids, hidsStored, hidsGood⟩ := hblinds
  have hgetLows : config.getRemoteIds = lows := getRemoteIds_of_stored hlowsStored
  have hgetIds : config.getBlindIds = ids := getBlindIds_of_stored hidsStored
  have hloads := loads_loadRemotes (blank config mqttEnabled slots history)
  obtain ⟨⟨f, errors⟩, hloop, hend⟩ := Option.bind_eq_some_iff.mp h
  rw [hloads.config] at hloop
  change config.getBlindIds.foldlM loadBlind _ = _ at hloop
  rw [hgetIds] at hloop
  set e := (blank config mqttEnabled slots history).loadRemotes with he
  -- the counter of remotes
  obtain ⟨hmax, hge, hraised⟩ := loadInternals_nextRemoteId config.getRemoteIds
    (d := blank config mqttEnabled slots history)
    (by decide : (baseRemoteId + 1).toNat ≤ 0x280000)
  have hle := loadInternals_le config.getRemoteIds
    (d := blank config mqttEnabled slots history)
    (fun low hlow => (hlowsGood low (hgetLows ▸ hlow)).2)
    ((by decide : (baseRemoteId + 1).toNat ≤ 0x270001).trans hn.1)
  have hnext : e.nextRemoteId = (config.getRemoteIds.foldl loadInternal
      (blank config mqttEnabled slots history)).nextRemoteId := loadExternals_nextRemoteId _ _
  rw [← hnext] at hmax hge hraised hle
  have hbase : 0x270000 < e.nextRemoteId.toNat :=
    lt_of_lt_of_le (by decide : 0x270000 < (baseRemoteId + 1).toNat) hge
  have hmem : ∀ (a : UInt32) (p : ℕ), e.remotes[a]? = some p →
      (0x270000 < a.toNat ∧ a.toNat < e.nextRemoteId.toNat) ∨
        (a ∈ config.getExternalRemoteIds ∧ config.getRemoteConfig a ≠ none ∧
          (e.heap p).isExternal = true) := fun a p hp => by
    rcases mem_loadRemotes config mqttEnabled slots history hp with hlow | hext
    · obtain ⟨low, hmemLow, rfl⟩ := List.mem_map.mp hlow
      exact .inl ⟨(hlowsGood low (hgetLows ▸ hmemLow)).1, hraised low hmemLow⟩
    · exact .inr hext
  -- the loop over the blinds
  have hstart : LoadingBlinds e ids m ids (e, false) := by
    refine ⟨⟨rfl, rfl, rfl, rfl⟩, fun _ hk => hk, ?_, ⟨rfl, rfl⟩, ?_, fun k hk => .inl hk, fun k hk => ?_, ?_⟩
    · rw [hloads.config]
      exact hh
    · rw [hloads.nextBlindId]
      exact ⟨Nat.one_pos, hm.1⟩
    · rw [hloads.blinds] at hk
      simp [blank] at hk
    · rw [hloads.blinds]
      simp [blank]
  have hloaded := Transitions.foldlM_invariant (f := loadBlind)
    (I := fun rest s => LoadingBlinds e ids m rest s)
    (LoadingBlinds.turn hm.2 hidsGood) hstart hloop
  have hlowsRead : f.config.read Record.remoteIds.key = config.read Record.remoteIds.key := by
    have hread := hloaded.lists.1
    rwa [hloads.config] at hread
  have hidsRead : f.config.read Record.blindIds.key = config.read Record.blindIds.key := by
    have hread := hloaded.lists.2
    rwa [hloads.config] at hread
  have hlisted : ∀ k ∈ ids, k.toNat < f.nextBlindId.toNat := fun k hk =>
    (hloaded.listed k hk).resolve_left List.not_mem_nil
  obtain ⟨hremotes, hheap, htop, hnextRemote⟩ : f.remotes = e.remotes ∧ f.heap = e.heap ∧
    f.heapTop = e.heapTop ∧ f.nextRemoteId = e.nextRemoteId := hloaded.same
  have hcounted : f.Counted := by
    refine ⟨hloaded.healthy, fun {id p} hp => ?_, fun id p hp hext => ?_, ?_,
      ⟨lows, hlowsStored.congr hlowsRead, fun low hlow => ?_⟩, hloaded.loaded,
      ⟨hloaded.next.1, hloaded.next.2.trans hm.2⟩, ⟨ids, hidsStored.congr hidsRead, hlisted⟩⟩
    · rw [hremotes] at hp
      rw [htop]
      exact hloads.below (blank_below _ _ _ _) hp
    · rw [hremotes] at hp
      rw [hheap] at hext
      rw [hnextRemote]
      refine (hmem id p hp).resolve_right fun hright => ?_
      obtain ⟨-, -, htrue⟩ := hright
      rw [htrue] at hext
      cases hext
    · rw [hnextRemote]
      exact ⟨hbase, hmax⟩
    · rw [hnextRemote]
      exact ⟨(hlowsGood low hlow).1, hraised low (hgetLows ▸ hlow)⟩
  -- the list is written again when a blind was dropped
  have hsize : f.blinds.size ≤ 124 := by
    have hsize := hloaded.size
    have hlen := hidsStored.length_le
    rw [List.length_nil] at hsize
    exact hsize.trans hlen
  obtain ⟨hcounted', config', heq⟩ : d'.Counted ∧ ∃ config', d' = { f with config := config' } := by
    dsimp only at hend
    split_ifs at hend
    · exact ⟨hcounted.saveBlindList hsize hend, saveBlindList_eq hend⟩
    · exact Option.some.inj hend ▸ ⟨hcounted, f.config, rfl⟩
  refine ⟨hcounted', ?_, ?_, ?_, ?_⟩ <;> rw [heq]
  · exact ⟨hnextRemote ▸ hle, hloaded.next.2⟩
  · exact hnextRemote ▸ hraised
  · rw [hgetIds]
    exact hlisted
  · intro a ha
    obtain ⟨p, hp⟩ := mem_iff.mp ha
    change f.remotes[a]? = some p at hp
    rw [hremotes] at hp
    rcases hmem a p hp with hlow | ⟨hlisted, hrecord, -⟩
    · exact .inl (hnextRemote ▸ hlow.2)
    · exact .inr ⟨hlisted, hrecord⟩

/-- What is stored when the device starts again still has the remote and the blind
created last, and no imported remote under the next id. -/
structure ListsLast (d : Device) (config : DeviceConfig) : Prop where
  remote : d.nextRemoteId = baseRemoteId + 1 ∨
    (d.nextRemoteId - 1).toUInt16 ∈ config.getRemoteIds
  blind : d.nextBlindId = 1 ∨ (d.nextBlindId - 1).toUInt16 ∈ config.getBlindIds
  imported : d.nextRemoteId ∈ config.getExternalRemoteIds →
    config.getRemoteConfig d.nextRemoteId = none

end Device

/-- What keeps the next ids new: imported remotes stay out of the way of the counter, lists
fit into their blocks, and a restart finds the last ids in the stored lists. -/
def Call.KeepsNew (d : Device) : Call → Prop
  | .addBlind _ _ _ =>
      d.nextRemoteId + 1 ∉ d.remotes ∧ d.RoomForRemote ∧ d.blinds.size < 124
  | .createRemote _ => d.nextRemoteId + 1 ∉ d.remotes ∧ d.RoomForRemote
  | .importRemote _ id =>
      id ≠ d.nextRemoteId ∧ d.internalIds.length ≤ 124 ∧ d.externalIds.length < 62
  | .deleteRemote _ => d.FewRemotes
  | .removeBlind _ _ => d.FewRemotes ∧ d.blinds.size ≤ 124
  | .restart _ _ => ∀ d₁, d.saveAll = some d₁ → d.ListsLast d₁.config
  | _ => True

/-- The id that a call takes for a new remote. -/
def Call.newRemoteIds (d : Device) : Call → List UInt32
  | .addBlind _ _ _ | .createRemote _ => [d.nextRemoteId]
  | _ => []

/-- The id that a call takes for a new blind. -/
def Call.newBlindIds (d : Device) : Call → List UInt32
  | .addBlind _ _ _ => [d.nextBlindId]
  | _ => []

namespace Device

variable {d d' : Device}

/-- The counters moved by the ids that were taken, and the next remote is new again. -/
structure Advances (d : Device) (c : Call) (d' : Device) : Prop where
  counted : d'.Counted
  remote : d'.nextRemoteId.toNat = d.nextRemoteId.toNat + (c.newRemoteIds d).length
  blind : d'.nextBlindId.toNat = d.nextBlindId.toNat + (c.newBlindIds d).length
  unregistered : d'.nextRemoteId ∉ d'.remotes

theorem Counted.advances_same (h : d.Counted) (hnew : d.nextRemoteId ∉ d.remotes) {c : Call}
    (hs : d.SameCounts d') (hr : c.newRemoteIds d = []) (hb : c.newBlindIds d = []) :
    d.Advances c d' where
  counted := h.same hs
  remote := by rw [hs.nextRemoteId, hr, List.length_nil, Nat.add_zero]
  blind := by rw [hs.nextBlindId, hb, List.length_nil, Nat.add_zero]
  unregistered := by
    rw [hs.nextRemoteId, hs.remotes]
    exact hnew

theorem toNat_succ {x : UInt32} {n : ℕ} (h : x.toNat < n) (hn : n ≤ 0x280000) :
    (x + 1).toNat = x.toNat + 1 := by
  rw [UInt32.toNat_add, UInt32.toNat_one]
  omega

theorem next_not_mem_insert {id next : UInt32} {p : ℕ} {m : Std.ExtTreeMap UInt32 ℕ}
    (hne : id ≠ next) (h : next ∉ m) : next ∉ m.insertIfNew id p := fun hmem => by
  rcases Std.ExtTreeMap.mem_insertIfNew.mp hmem with heq | hold
  · exact hne (Std.LawfulEqCmp.compare_eq_iff_eq.mp heq)
  · exact h hold

theorem succ_ne {x : UInt32} {n : ℕ} (h : x.toNat < n) (hn : n ≤ 0x280000) : x ≠ x + 1 :=
  fun heq => by
    have hsucc := toNat_succ h hn
    rw [← heq] at hsucc
    omega

/-- The counter comes back to where it was. -/
theorem Counted.restart (h : d.Counted) {mqttEnabled : Bool} {slots : ℕ → RecvCommand}
    (hk : ∀ d₁, d.saveAll = some d₁ → d.ListsLast d₁.config)
    (hd : d.restart mqttEnabled slots = some d') : d.Advances (.restart mqttEnabled slots) d' := by
  obtain ⟨d₁, h₁, h₂⟩ := Option.bind_eq_some_iff.mp hd
  obtain ⟨hremote, hblind, himported⟩ := hk d₁ h₁
  have hsame := sameCounts_saveAll h₁
  have hc₁ := h.same hsame
  have hlows := hc₁.remoteList
  have hids := hc₁.blindList
  rw [hsame.nextRemoteId] at hlows
  rw [hsame.nextBlindId] at hids
  obtain ⟨hcounted, ⟨hle, hleBlind⟩, hraised, hraisedBlind, hmem⟩ := boot_counted hc₁.healthy
    h.nextRemote h.nextBlind hlows hids h₂
  have hnext : d'.nextRemoteId = d.nextRemoteId := by
    refine UInt32.toNat_inj.mp (le_antisymm hle ?_)
    rcases hremote with hfirst | hlisted
    · rw [hfirst]
      exact hcounted.nextRemote.1
    · have hlt := hraised _ hlisted
      have hlow := h.nextRemote
      rw [toNat_fullId, UInt32.toNat_toUInt16, UInt32.toNat_sub_of_le _ _ (by
        rw [UInt32.le_iff_toNat_le, UInt32.toNat_one]; omega), UInt32.toNat_one] at hlt
      omega
  have hnextBlind : d'.nextBlindId = d.nextBlindId := by
    refine UInt32.toNat_inj.mp (le_antisymm hleBlind ?_)
    rcases hblind with hfirst | hlisted
    · rw [hfirst]
      exact hcounted.nextBlind.1
    · have hlt := hraisedBlind _ hlisted
      have hlow := h.nextBlind
      rw [UInt32.toNat_toUInt16, UInt32.toNat_sub_of_le _ _ (by
        rw [UInt32.le_iff_toNat_le, UInt32.toNat_one]; omega), UInt32.toNat_one] at hlt
      omega
  refine ⟨hcounted, by rw [hnext]; rfl, by rw [hnextBlind]; rfl, fun hin => ?_⟩
  rcases hmem _ hin with hlt | ⟨hlisted, hrecord⟩
  · exact absurd hlt (lt_irrefl _)
  · rw [hnext] at hlisted hrecord
    exact hrecord (himported hlisted)

theorem Counted.perform (h : d.Counted) (hnew : d.nextRemoteId ∉ d.remotes)
    (hnext : d.nextRemoteId.toNat < 0x280000) (hnextBlind : d.nextBlindId.toNat < 65536)
    {c : Call} (hv : c.Valid d) (hk : c.KeepsNew d) (hd : d.perform c = some d') :
    d.Advances c d' := by
  have hsucc := toNat_succ hnext le_rfl
  have hsuccBlind := toNat_succ hnextBlind (by decide)
  by_cases hc : c.reacts = true
  · have hreacts := reacts_perform hc hd
    refine h.advances_same hnew (.of_config hreacts.sameRegistry hreacts.config) ?_ ?_ <;>
      cases c <;> first | rfl | cases hc
  cases c with
  | saveRemotes => exact h.advances_same hnew (sameCounts_saveRemoteState hd) rfl rfl
  | saveBlinds => exact h.advances_same hnew (sameCounts_saveBlindState hd) rfl rfl
  | restart mqttEnabled slots => exact h.restart hk hd
  | addBlind name openTime closeTime =>
      obtain ⟨hkey, hroom, hsize⟩ := hk
      obtain ⟨hfield, hfieldBlind, hremotes⟩ := addBlind_fields hd
      refine ⟨h.addBlind hnew hnext hnextBlind hroom hsize hd, ?_, ?_, ?_⟩
      · rw [hfield, hsucc]
        rfl
      · rw [hfieldBlind, hsuccBlind]
        rfl
      · rw [hfield, hremotes]
        exact next_not_mem_insert (succ_ne hnext le_rfl) hkey
  | updateBlind k b name openTime closeTime =>
      cases hd
      have hs := SameRegistry.modifyBlind d k
        (fun b => b.updateConfig d.mqttEnabled name openTime closeTime) fun _ _ => rfl
      have hf := setName_fields (d.heap b.remote) d.mqttEnabled name
      refine h.advances_same hnew (.of_config (hs.trans ?_) rfl) rfl rfl
      exact .modifyRemote _ b.remote (fun r => r.setName d.mqttEnabled name) hf.1 hf.2.1
  | removeBlind k b =>
      have hcounted := h.removeBlind hk.1 hk.2 hd
      obtain ⟨config, rfl⟩ := removeBlind_eq hd
      exact ⟨hcounted, rfl, rfl, fun hmem => hnew (mem_of_mem_erase hmem)⟩
  | createRemote name =>
      obtain ⟨hkey, hroom⟩ := hk
      obtain ⟨hfield, hremotes, -, -, hfieldBlind⟩ := createRemote_fields hd
      refine ⟨h.createRemote hnew hnext hroom hd, ?_, by rw [hfieldBlind]; rfl, ?_⟩
      · rw [hfield, hsucc]
        rfl
      · rw [hfield, hremotes]
        exact next_not_mem_insert (succ_ne hnext le_rfl) hkey
  | importRemote name id =>
      obtain ⟨hne, hi, hx⟩ := hk
      have hcounted : d'.Counted := by
        refine h.registerRemote (Std.ExtTreeMap.getElem?_eq_none hv) ?_ ?_ ?_ hd
        · exact nofun
        · exact hi
        · exact hx
      obtain ⟨config, rfl⟩ := registerRemote_eq hd
      exact ⟨hcounted, rfl, rfl, next_not_mem_insert hne hnew⟩
  | rename p name =>
      cases hd
      have hf := setName_fields (d.heap p) d.mqttEnabled name
      exact h.advances_same hnew (.of_config (.modifyRemote _ _ _ hf.1 hf.2.1) rfl) rfl rfl
  | deleteRemote id =>
      have hcounted := h.deleteRemote hk hd
      obtain ⟨config, rfl⟩ := deleteRemote_eq hd
      exact ⟨hcounted, rfl, rfl, fun hmem => hnew (mem_of_mem_erase hmem)⟩
  | associate p blindId =>
      cases hd
      have hf := associateBlind_fields (d.heap p) blindId
      exact h.advances_same hnew (.of_config (.modifyRemote _ _ _ hf.1 hf.2) rfl) rfl rfl
  | disassociate p blindId =>
      cases hd
      exact h.advances_same hnew (.of_config (.modifyRemote _ _ _ rfl rfl) rfl) rfl rfl
  | _ => exact absurd rfl hc

end Device

/-- A device, and the ids it gave out since it was reset. -/
structure Lifetime where
  device : Device
  remoteIds : List UInt32
  blindIds : List UInt32

namespace Lifetime

variable {l l' : Lifetime}

def step (l : Lifetime) (e : Device.Event) : Option Lifetime :=
  (l.device.call e).bind fun c => (l.device.perform c).map fun d =>
    ⟨d, l.remoteIds ++ c.newRemoteIds l.device, l.blindIds ++ c.newBlindIds l.device⟩

/-- The ids that come next are new. The pointer that `CreateRemote` returns is the one in
the map, and the remote has this id. -/
structure Fresh (l : Lifetime) : Prop where
  unregistered : l.device.nextRemoteId ∉ l.device.remotes
  held : ∀ (name : List UInt8) (d' : Device), l.device.createRemote name = some d' →
    d'.remotes[l.device.nextRemoteId]? = some l.device.heapTop ∧
      (d'.heap l.device.heapTop).remoteId = l.device.nextRemoteId
  remote : l.device.nextRemoteId ∉ l.remoteIds
  blind : l.device.nextBlindId ∉ l.blindIds

/-- Fewer than 65535 remotes and blinds were ever created. -/
def Few (l : Lifetime) : Prop := l.remoteIds.length < 65535 ∧ l.blindIds.length < 65535

/-- The ledger agrees with the counters. -/
structure Sound (l : Lifetime) : Prop where
  counted : l.device.Counted
  unregistered : l.device.nextRemoteId ∉ l.device.remotes
  remoteIds : ∀ id ∈ l.remoteIds, id.toNat < l.device.nextRemoteId.toNat
  nextRemote : l.device.nextRemoteId.toNat = 0x270001 + l.remoteIds.length
  blindIds : ∀ id ∈ l.blindIds, id.toNat < l.device.nextBlindId.toNat
  nextBlind : l.device.nextBlindId.toNat = 1 + l.blindIds.length

theorem Sound.fresh (h : l.Sound) : l.Fresh where
  unregistered := h.unregistered
  held name d' hd := by
    obtain ⟨config, rfl⟩ := Device.registerRemote_eq hd
    refine ⟨?_, ?_⟩
    · change (l.device.remotes.insertIfNew l.device.nextRemoteId l.device.heapTop)[
        l.device.nextRemoteId]? = _
      rw [get_insertIfNew_fresh (Std.ExtTreeMap.getElem?_eq_none h.unregistered), if_pos rfl]
    · change (Function.update l.device.heap l.device.heapTop _ l.device.heapTop).remoteId = _
      rw [Function.update_self]
      exact Device.newRemote_remoteId _ _ _
  remote hmem := lt_irrefl _ (h.remoteIds _ hmem)
  blind hmem := lt_irrefl _ (h.blindIds _ hmem)

/-- What the steps of a run keep in mind. -/
def KeepsNew (l : Lifetime) (e : Device.Event) : Prop :=
  ∀ c, l.device.call e = some c → c.KeepsNew l.device

theorem newRemoteIds_eq {c : Call} {d : Device} {id : UInt32} (h : id ∈ c.newRemoteIds d) :
    id = d.nextRemoteId ∧ (c.newRemoteIds d).length = 1 := by
  cases c with
  | addBlind name openTime closeTime => exact ⟨List.mem_singleton.mp h, rfl⟩
  | createRemote name => exact ⟨List.mem_singleton.mp h, rfl⟩
  | _ => cases h

theorem newBlindIds_eq {c : Call} {d : Device} {id : UInt32} (h : id ∈ c.newBlindIds d) :
    id = d.nextBlindId ∧ (c.newBlindIds d).length = 1 := by
  cases c with
  | addBlind name openTime closeTime => exact ⟨List.mem_singleton.mp h, rfl⟩
  | _ => cases h

theorem Sound.step {e : Device.Event} (h : l.Few → l.Sound) (hk : l.KeepsNew e)
    (hs : l.step e = some l') (hfew : l'.Few) : l'.Sound := by
  obtain ⟨c, hc, hs⟩ := Option.bind_eq_some_iff.mp hs
  obtain ⟨d, hd, rfl⟩ := Option.map_eq_some_iff.mp hs
  obtain ⟨hfewRemotes, hfewBlinds⟩ := hfew
  simp only [List.length_append] at hfewRemotes hfewBlinds
  have hsound := h ⟨by omega, by omega⟩
  have hnextRemote := hsound.nextRemote
  have hnextBlind := hsound.nextBlind
  have hadvances := hsound.counted.perform hsound.unregistered (by omega) (by omega)
    (Device.call_valid hc) (hk c hc) hd
  have hremote := hadvances.remote
  have hblind := hadvances.blind
  refine ⟨hadvances.counted, hadvances.unregistered, fun id hid => ?_, ?_, fun id hid => ?_, ?_⟩
  · rcases List.mem_append.mp hid with hold | hnew
    · have hlt := hsound.remoteIds id hold
      dsimp only
      omega
    · obtain ⟨rfl, hone⟩ := newRemoteIds_eq hnew
      dsimp only
      omega
  · simp only [List.length_append]
    omega
  · rcases List.mem_append.mp hid with hold | hnew
    · have hlt := hsound.blindIds id hold
      dsimp only
      omega
    · obtain ⟨rfl, hone⟩ := newBlindIds_eq hnew
      dsimp only
      omega
  · simp only [List.length_append]
    omega

/-- A device just reset has given out nothing. -/
theorem fresh_sound {dc : DeviceConfig} {mqttEnabled : Bool} {slots : ℕ → RecvCommand} {d : Device}
    (hpages : dc.storage.blockPages = 1) (hok : ∀ i, dc.chip.verdict i = true)
    (h : Device.freshDevice dc mqttEnabled slots = some d) : (Lifetime.mk d [] []).Sound := by
  obtain ⟨hhealthy, hnone⟩ := dc.hardReset_read hpages hok
  obtain ⟨hcounted, ⟨hle, hleBlind⟩, -, -, hmem⟩ := Device.boot_counted hhealthy (n := 0x270001)
    (m := 1) (by decide) (by decide)
    ⟨[], ⟨by decide, .inr ⟨rfl, hnone .remoteIds nofun nofun⟩⟩, fun _ hl => absurd hl List.not_mem_nil⟩
    ⟨[], ⟨by decide, .inr ⟨rfl, hnone .blindIds nofun nofun⟩⟩, fun _ hl => absurd hl List.not_mem_nil⟩
    h
  have hstored : dc.hardReset.StoresIds32 .externalRemoteIds [] :=
    ⟨by decide, .inr ⟨rfl, hnone .externalRemoteIds nofun nofun⟩⟩
  have hext : dc.hardReset.getExternalRemoteIds = [] := getExternalRemoteIds_of_stored hstored
  have hlow := hcounted.nextRemote.1
  have hlowBlind := hcounted.nextBlind.1
  refine ⟨hcounted, fun hin => ?_, fun _ hid => absurd hid List.not_mem_nil, ?_,
    fun _ hid => absurd hid List.not_mem_nil, ?_⟩
  · rcases hmem _ hin with hlt | ⟨hlisted, -⟩
    · exact lt_irrefl _ hlt
    · rw [hext] at hlisted
      cases hlisted
  · change d.nextRemoteId.toNat = 0x270001 + 0
    omega
  · change d.nextBlindId.toNat = 1 + 0
    omega

/-- In every state of a run whose steps keep the next ids new, they are. -/
theorem new_ids_fresh {dc : DeviceConfig} {mqttEnabled : Bool} {slots : ℕ → RecvCommand}
    (hpages : dc.storage.blockPages = 1) (hok : ∀ i, dc.chip.verdict i = true) {d₀ : Device}
    (hd₀ : Device.freshDevice dc mqttEnabled slots = some d₀) {es : List Device.Event}
    (hrun : Transitions.Run step KeepsNew ⟨d₀, [], []⟩ es l) (hfew : l.Few) : l.Fresh := by
  have hend := hrun.invariant (I := fun l => l.Few → l.Sound)
    (fun h hk hs hfew' => Sound.step h hk hs hfew') fun _ => fresh_sound hpages hok hd₀
  exact (hend hfew).fresh

/-- A remote is created over HTTP. -/
def addHall : Device.Event := .request .addRemote (query [("name", "hall")]) default

/-- The first remote is deleted over HTTP. -/
def deleteHall : Device.Event := .request .deleteRemote (query [("id", "2555905")]) default

def startAgain : Device.Event := .restart false fun _ => ⟨⟨0, 0, 0, 0⟩, 0⟩

theorem call_addHall (d : Device) : d.call addHall = some (.createRemote (ascii "hall")) := by
  have hdo : Device.doAddRemote (query [("name", "hall")]) =
      some (.createRemote (ascii "hall"), true) := by rfl
  simp only [Device.call, addHall, Device.handle, hdo, Option.map_some]

/-- The first remote is created, and the device starts again. -/
theorem new_ids_fresh_restart :
    ∃ (d₀ : Device) (l : Lifetime),
      Device.freshDevice oneSector false (fun _ => ⟨⟨0, 0, 0, 0⟩, 0⟩) = some d₀ ∧
      Transitions.exec step ⟨d₀, [], []⟩ [addHall, startAgain] = some l ∧
      l.remoteIds = [0x270001] ∧ l.Fresh := by
  have hany : (Device.freshDevice oneSector false fun _ => ⟨⟨0, 0, 0, 0⟩, 0⟩).any (fun d₀ =>
      d₀.remotes.isEmpty && d₀.internalIds.isEmpty && d₀.externalIds.isEmpty &&
        (step ⟨d₀, [], []⟩ addHall).any fun l₁ =>
          l₁.device.nextBlindId == 1 && l₁.device.saveAll.all (fun d₁ =>
            d₁.config.getRemoteIds.contains (l₁.device.nextRemoteId - 1).toUInt16 &&
              d₁.config.getExternalRemoteIds.isEmpty) &&
            (step l₁ startAgain).any fun l => l.remoteIds == [0x270001] &&
              l.blindIds.isEmpty) = true := by
    decide +kernel
  obtain ⟨d₀, hd₀, hrest⟩ := (Option.any_eq_true _ _).mp hany
  simp only [Bool.and_eq_true, List.isEmpty_iff] at hrest
  obtain ⟨⟨⟨hremotes, hinternal⟩, hexternal⟩, hfirst⟩ := hrest
  obtain ⟨l₁, hl₁, hrest₁⟩ := (Option.any_eq_true _ _).mp hfirst
  simp only [Bool.and_eq_true, beq_iff_eq] at hrest₁
  obtain ⟨⟨hnextBlind, hlast⟩, hsecond⟩ := hrest₁
  obtain ⟨l, hl, hrest₂⟩ := (Option.any_eq_true _ _).mp hsecond
  simp only [Bool.and_eq_true, beq_iff_eq, List.isEmpty_iff] at hrest₂
  obtain ⟨hids, hblindIds⟩ := hrest₂
  have hkeep₀ : KeepsNew ⟨d₀, [], []⟩ addHall := by
    intro c hc
    rw [call_addHall] at hc
    cases hc
    refine ⟨fun hmem => ?_, ?_, ?_⟩
    · rw [Std.ExtTreeMap.isEmpty_iff.mp hremotes] at hmem
      exact absurd hmem Std.ExtTreeMap.not_mem_empty
    · change d₀.internalIds.length < 124
      rw [hinternal]
      decide
    · change d₀.externalIds.length ≤ 62
      rw [hexternal]
      decide
  have hkeep₁ : l₁.KeepsNew startAgain := by
    intro c hc
    cases hc
    intro d₁ hd₁
    rw [hd₁, Option.all_some, Bool.and_eq_true, List.contains_iff_mem, List.isEmpty_iff] at hlast
    refine ⟨.inr hlast.1, .inl hnextBlind, fun hmem => ?_⟩
    rw [hlast.2] at hmem
    cases hmem
  have hexec : Transitions.exec step ⟨d₀, [], []⟩ [addHall, startAgain] = some l := by
    simp only [Transitions.exec, hl₁, Option.bind_some, hl]
  have hrun : Transitions.Run step KeepsNew ⟨d₀, [], []⟩ ([addHall] ++ [startAgain]) l :=
    .snoc (.single hkeep₀ hl₁) hkeep₁ hl
  refine ⟨d₀, l, hd₀, hexec, hids, new_ids_fresh rfl (fun _ => rfl) hd₀ hrun ?_⟩
  rw [Few, hids, hblindIds]
  decide

/-- The remote created last is deleted; after a restart its id is the next again. -/
theorem id_issued_again :
    ∃ (d₀ : Device) (l : Lifetime),
      Device.freshDevice oneSector false (fun _ => ⟨⟨0, 0, 0, 0⟩, 0⟩) = some d₀ ∧
      Transitions.Run step Transitions.Free ⟨d₀, [], []⟩ [addHall, deleteHall, startAgain] l ∧
      l.Few ∧ ¬l.Fresh := by
  have hany : (Device.freshDevice oneSector false fun _ => ⟨⟨0, 0, 0, 0⟩, 0⟩).any (fun d₀ =>
      (Transitions.exec step ⟨d₀, [], []⟩ [addHall, deleteHall, startAgain]).any fun l =>
        l.remoteIds == [0x270001] && l.blindIds.isEmpty &&
          l.device.nextRemoteId == 0x270001) = true := by
    decide +kernel
  obtain ⟨d₀, hd₀, hrun⟩ := (Option.any_eq_true _ _).mp hany
  obtain ⟨l, hl, hrest⟩ := (Option.any_eq_true _ _).mp hrun
  simp only [Bool.and_eq_true, beq_iff_eq, List.isEmpty_iff] at hrest
  obtain ⟨⟨hids, hblindIds⟩, hnext⟩ := hrest
  refine ⟨d₀, l, hd₀, Transitions.run_of_exec hl, ?_, fun hfresh => hfresh.remote ?_⟩
  · rw [Few, hids, hblindIds]
    decide
  · rw [hids, hnext]
    exact List.mem_singleton.mpr rfl

end Lifetime

end PicoSomfy
