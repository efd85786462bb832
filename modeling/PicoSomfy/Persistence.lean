import PicoSomfy.Registry
import PicoSomfy.IdLists

/-!
# What is stored of the device

`Clean` says that a remote without unsaved changes reads back from its record, and
the two `Listed` predicates say that the stored lists have the registered ids. The
ids `0` and `0xFFFFFFFF` have no readable record.

Every statement about flash here is for a device that has lost no write yet:
`Lasting` says that a lost write stays noticed.
-/
namespace PicoSomfy

open SortedMap DeviceConfig

namespace DeviceConfig

variable {dc : DeviceConfig}

theorem lost_write_mono (key : UInt32) (data : List UInt8)
    (h : (dc.write key data).lost = false) : dc.lost = false := by
  simp only [DeviceConfig.write, Bool.or_eq_false_iff] at h
  exact h.1

theorem lost_saveRemoteConfig (id : UInt32) (c : RemoteConfig)
    (h : (dc.saveRemoteConfig id c).lost = false) : dc.lost = false := by
  unfold DeviceConfig.saveRemoteConfig at h
  split_ifs at h
  · exact h
  · exact lost_write_mono _ _ h

theorem lost_saveBlindConfig (k : UInt16) (c : BlindConfig)
    (h : (dc.saveBlindConfig k c).lost = false) : dc.lost = false := by
  unfold DeviceConfig.saveBlindConfig at h
  split_ifs at h
  · exact h
  · exact lost_write_mono _ _ h

end DeviceConfig

namespace Device

variable {d d' d'' : Device}

/-- A write that was lost before is lost after. -/
def Lasting (d d' : Device) : Prop := d'.config.lost = false → d.config.lost = false

theorem Lasting.refl (d : Device) : d.Lasting d := id

theorem Lasting.trans (h : d.Lasting d') (k : d'.Lasting d'') : d.Lasting d'' := fun hl => h (k hl)

theorem Reacts.lasting (h : d.Reacts d') : d.Lasting d' := fun hl => h.config ▸ hl

/-- `SaveConfig` does nothing, or it stores the record and marks the remote clean. -/
theorem saveRemote_cases {p : ℕ} {force : Bool} (h : d.saveRemote p force = some d') :
    (d' = d ∧ (d.heap p).isDirty = false ∧ force = false) ∨
    ∃ c, (d.heap p).toConfig = some c ∧
      d' = { d.modifyRemote p fun r => { r with isDirty := false } with
        config := d.config.saveRemoteConfig (d.heap p).remoteId c } := by
  unfold saveRemote at h
  split_ifs at h with hd
  · obtain ⟨c, hc, rfl⟩ := Option.map_eq_some_iff.mp h
    exact .inr ⟨c, hc, rfl⟩
  · simp only [Bool.not_eq_true, Bool.or_eq_false_iff] at hd
    exact .inl ⟨(Option.some.inj h).symm, hd⟩

theorem saveBlindAt_cases {force : Bool} {k : UInt32} (h : d.saveBlindAt force k = some d') :
    ∃ b, d.blinds[k]? = some b ∧
      ((d' = { d.modifyBlind k fun _ => b with config := d.config } ∧
          b.isDirty = false ∧ force = false) ∨
      ∃ c, b.toConfig (d.heap b.remote).remoteId = some c ∧
        d' = { d.modifyBlind k fun _ => { b with isDirty := false } with
          config := d.config.saveBlindConfig b.blindId c }) := by
  obtain ⟨b, hb, h⟩ := Option.bind_eq_some_iff.mp h
  obtain ⟨⟨config, b'⟩, hs, rfl⟩ := Option.map_eq_some_iff.mp h
  refine ⟨b, hb, ?_⟩
  unfold saveBlind at hs
  split_ifs at hs with hd
  · obtain ⟨c, hc, hs⟩ := Option.map_eq_some_iff.mp hs
    cases hs
    exact .inr ⟨c, hc, rfl⟩
  · simp only [Bool.not_eq_true, Bool.or_eq_false_iff] at hd
    cases hs
    exact .inl ⟨rfl, hd⟩

/-- Saving changes nothing in memory but the dirty flags. -/
structure Saves (d d' : Device) : Prop extends SameRegistry d d' where
  remote : ∀ p, d'.heap p = { d.heap p with isDirty := (d'.heap p).isDirty }
  blind : ∀ k : UInt32, Option.Rel (fun b b' => b' = { b with isDirty := b'.isDirty })
    d.blinds[k]? d'.blinds[k]?
  history : d'.history = d.history

theorem Saves.refl (d : Device) : d.Saves d where
  toSameRegistry := .refl d
  remote _ := rfl
  blind k := by
    cases d.blinds[k]? with
    | none => exact .none
    | some b => exact .some rfl
  history := rfl

theorem Saves.trans (h : d.Saves d') (k : d'.Saves d'') : d.Saves d'' where
  toSameRegistry := h.toSameRegistry.trans k.toSameRegistry
  remote p := by rw [k.remote p, h.remote p]
  blind i := by
    have h₁ := h.blind i
    have h₂ := k.blind i
    revert h₁ h₂
    generalize d.blinds[i]? = x
    generalize d'.blinds[i]? = y
    generalize d''.blinds[i]? = z
    rintro (h₁ | -) (h₂ | -)
    · refine .some ?_
      rw [h₂, h₁]
    · exact .none
  history := k.history.trans h.history

theorem saves_saveRemote {p : ℕ} {force : Bool} (h : d.saveRemote p force = some d') :
    d.Saves d' := by
  rcases saveRemote_cases h with ⟨rfl, -⟩ | ⟨c, -, rfl⟩
  · exact .refl _
  · refine { SameRegistry.modifyRemote d p (fun r => { r with isDirty := false }) rfl rfl with
      remote := fun q => ?_
      blind := (Saves.refl d).blind
      history := rfl }
    by_cases hq : q = p
    · subst hq
      simp only [modifyRemote, Function.update_self]
    · simp only [modifyRemote, Function.update_of_ne hq]

/-- A blind put back with another dirty flag. -/
theorem saves_modifyBlind {k : UInt32} {b : Blind} (hb : d.blinds[k]? = some b) (dirty : Bool)
    (config : DeviceConfig) :
    d.Saves { d.modifyBlind k fun _ => { b with isDirty := dirty } with config := config } := by
  refine { SameRegistry.modifyBlind d k (fun _ => { b with isDirty := dirty }) fun b' hb' => ?_ with
    remote := fun _ => rfl
    blind := fun i => ?_
    history := rfl }
  · rw [hb] at hb'
    cases hb'
    rfl
  · simp only [modifyBlind, get_modify]
    split_ifs with hi
    · subst hi
      rw [hb]
      exact .some rfl
    · exact (Saves.refl d).blind i

theorem saves_saveBlindAt {force : Bool} {k : UInt32} (h : d.saveBlindAt force k = some d') :
    d.Saves d' := by
  obtain ⟨b, hb, ⟨rfl, -⟩ | ⟨c, -, rfl⟩⟩ := saveBlindAt_cases h
  · exact saves_modifyBlind hb b.isDirty d.config
  · exact saves_modifyBlind hb false _

theorem saves_saveRemoteState (h : d.saveRemoteState = some d') : d.Saves d' :=
  Transitions.foldlM_keeps (f := fun (d : Device) (entry : UInt32 × ℕ) => d.saveRemote entry.2 false) (R := Saves)
    .refl .trans saves_saveRemote h

theorem saves_saveBlindState {force : Bool} (h : d.saveBlindState force = some d') :
    d.Saves d' :=
  Transitions.foldlM_keeps (f := fun (d : Device) k => d.saveBlindAt force k) (R := Saves)
    .refl .trans saves_saveBlindAt h

theorem lasting_saveRemote {p : ℕ} {force : Bool} (h : d.saveRemote p force = some d') :
    d.Lasting d' := by
  rcases saveRemote_cases h with ⟨rfl, -⟩ | ⟨c, -, rfl⟩
  · exact id
  · exact lost_saveRemoteConfig _ _

theorem lasting_saveBlindAt {force : Bool} {k : UInt32} (h : d.saveBlindAt force k = some d') :
    d.Lasting d' := by
  obtain ⟨b, hb, ⟨rfl, -⟩ | ⟨c, -, rfl⟩⟩ := saveBlindAt_cases h
  · exact id
  · exact lost_saveBlindConfig _ _

theorem lasting_saveRemoteList (h : d.saveRemoteList = some d') : d.Lasting d' := by
  unfold saveRemoteList at h
  split_ifs at h
  cases h
  exact fun hl => lost_write_mono _ _ (lost_write_mono _ _ hl)

theorem lasting_saveBlindList (h : d.saveBlindList = some d') : d.Lasting d' := by
  unfold saveBlindList at h
  split_ifs at h
  cases h
  exact lost_write_mono _ _

/-- The record of a readable id is that of the remote. -/
def Recorded (c : DeviceConfig) (id : UInt32) (r : SomfyRemote) : Prop :=
  id ≠ 0 → id ≠ 0xFFFFFFFF → ∃ cfg, r.toConfig = some cfg ∧ c.getRemoteConfig id = some cfg

structure Clean (d : Device) : Prop where
  healthy : d.config.Healthy
  recorded : ∀ {id : UInt32} {p : ℕ}, d.remotes[id]? = some p → (d.heap p).isDirty = false →
    Recorded d.config id (d.heap p)

structure RemotesListed (d : Device) : Prop where
  internal : ∃ ids, d.config.StoresIds .remoteIds ids ∧ ∀ low, low ∈ ids ↔
    ∃ (id : UInt32) (p : ℕ), d.remotes[id]? = some p ∧ (d.heap p).isExternal = false ∧
      id.toUInt16 = low
  external : ∃ ids, d.config.StoresIds32 .externalRemoteIds ids ∧
    ∀ id : UInt32, id ≠ 0 → id ≠ 0xFFFFFFFF →
      (id ∈ ids ↔ ∃ p, d.remotes[id]? = some p ∧ (d.heap p).isExternal = true)

def BlindsListed (d : Device) : Prop :=
  ∃ ids, d.config.StoresIds .blindIds ids ∧ ∀ k : UInt16, k ∈ ids ↔ k.toUInt32 ∈ d.blinds

structure Stored (d : Device) : Prop where
  clean : d.Clean
  remotes : d.RemotesListed
  blinds : d.BlindsListed

theorem Recorded.congr {c c' : DeviceConfig} {id : UInt32} {r : SomfyRemote}
    (h : Recorded c id r) (hc : c'.getRemoteConfig id = c.getRemoteConfig id) :
    Recorded c' id r := fun h₀ h₁ => by
  obtain ⟨cfg, hcfg, hread⟩ := h h₀ h₁
  exact ⟨cfg, hcfg, hc.trans hread⟩

theorem RemotesListed.congr (h : d.RemotesListed) (hr : d'.remotes = d.remotes)
    (he : ∀ p, (d'.heap p).isExternal = (d.heap p).isExternal)
    (hi : d'.config.read Record.remoteIds.key = d.config.read Record.remoteIds.key)
    (hx : d'.config.read Record.externalRemoteIds.key =
      d.config.read Record.externalRemoteIds.key) : d'.RemotesListed := by
  constructor
  · obtain ⟨ids, hs, hmem⟩ := h.internal
    simp only [hr, he]
    exact ⟨ids, hs.congr hi, hmem⟩
  · obtain ⟨ids, hs, hmem⟩ := h.external
    simp only [hr, he]
    exact ⟨ids, hs.congr hx, hmem⟩

theorem BlindsListed.congr (h : d.BlindsListed) (hb : ∀ k, k ∈ d'.blinds ↔ k ∈ d.blinds)
    (hi : d'.config.read Record.blindIds.key = d.config.read Record.blindIds.key) :
    d'.BlindsListed := by
  obtain ⟨ids, hs, hmem⟩ := h
  exact ⟨ids, hs.congr hi, fun k => (hmem k).trans (hb _).symm⟩

/-- Changes in memory that mark what they change leave the records as they are. -/
theorem Clean.quiet (h : d.Clean) (hr : d'.remotes = d.remotes) (hc : d'.config = d.config)
    (hd : ∀ p, (d'.heap p).isDirty = false → d'.heap p = d.heap p) : d'.Clean := by
  refine ⟨hc ▸ h.healthy, fun {id p} hp hdirty => ?_⟩
  rw [hr] at hp
  have hsame := hd p hdirty
  rw [hsame] at hdirty
  rw [hc, hsame]
  exact h.recorded hp hdirty

theorem Stored.quiet (h : d.Stored) (hs : SameRegistry d d') (hc : d'.config = d.config)
    (hd : ∀ p, (d'.heap p).isDirty = false → d'.heap p = d.heap p) : d'.Stored where
  clean := h.clean.quiet hs.remotes hc hd
  remotes := h.remotes.congr hs.remotes hs.isExternal (by rw [hc]) (by rw [hc])
  blinds := h.blinds.congr (fun _ => hs.mem_blinds) (by rw [hc])

theorem Reacts.stored (h : d.Reacts d') (hs : d.Stored) : d'.Stored :=
  hs.quiet h.sameRegistry h.config fun p => (h.remote p).fields.2.2.2

theorem remote_key_ne {r : Record} {id : UInt32} (h : ∀ a, r ≠ .remote a) :
    r.key ≠ (Record.remote id).key := fun hk => by
  rcases Record.key_eq hk with rfl | ⟨a, -, rfl, -⟩
  · exact h id rfl
  · exact h a rfl

theorem blind_key_ne {r : Record} {k : UInt16} (h : r ≠ .blind k) :
    r.key ≠ (Record.blind k).key := fun hk => by
  rcases Record.key_eq hk with rfl | ⟨a, b, rfl, hb, -⟩
  · exact h rfl
  · cases hb

/-- A remote whose record was just written is clean, and so are those that were. The
remote itself need not have been. -/
theorem clean_after_write (hr : d.Registry) (hh : d.config.Healthy) {id : UInt32} {p : ℕ}
    (hp : d.remotes[id]? = some p)
    (hrec : ∀ {a : UInt32} {q : ℕ}, d.remotes[a]? = some q → a ≠ id →
      (d.heap q).isDirty = false → Recorded d.config a (d.heap q))
    {c : RemoteConfig} (hc : (d.heap p).toConfig = some c)
    (hlost : (d.config.saveRemoteConfig id c).lost = false) :
    Clean { d.modifyRemote p fun r => { r with isDirty := false } with
      config := d.config.saveRemoteConfig id c } := by
  refine ⟨(hh.onlyAt_saveRemoteConfig id c).healthy, fun {a q} hq hdirty => ?_⟩
  have hidp := (hr.registered hp).2
  have hidq := (hr.registered hq).2
  by_cases ha : a = id
  · subst ha
    obtain rfl : p = q := Option.some.inj (hp.symm.trans hq)
    intro h₀ h₁
    refine ⟨c, ?_, hh.getRemoteConfig_save h₀ h₁ c hlost⟩
    simp only [modifyRemote, Function.update_self]
    exact hc
  · have hqp : q ≠ p := fun hqp => ha (by rw [← hidq, hqp, hidp])
    simp only [modifyRemote, Function.update_of_ne hqp] at hdirty ⊢
    refine (hrec hq ha hdirty).congr (hh.getRemoteConfig_save_other (fun hlow => ha ?_) c)
    exact hr.lowHalves (mem_iff.mpr ⟨q, hq⟩) (mem_iff.mpr ⟨p, hp⟩) hlow.symm

theorem Stored.saveRemote (hs : d.Stored) (hr : d.Registry) {id : UInt32} {p : ℕ}
    {force : Bool} (hp : d.remotes[id]? = some p) (h : d.saveRemote p force = some d')
    (hlost : d'.config.lost = false) : d'.Stored ∧ (d'.heap p).isDirty = false := by
  have hsame := (saves_saveRemote h).toSameRegistry
  rcases saveRemote_cases h with ⟨rfl, hclean, -⟩ | ⟨c, hc, rfl⟩
  · exact ⟨hs, hclean⟩
  rw [(hr.registered hp).2] at *
  have honly := hs.clean.healthy.onlyAt_saveRemoteConfig id c
  refine ⟨⟨?_, ?_, ?_⟩, by simp [modifyRemote]⟩
  · exact clean_after_write hr hs.clean.healthy hp (fun hq _ => hs.clean.recorded hq) hc hlost
  · exact hs.remotes.congr hsame.remotes hsame.isExternal
      (honly.other (remote_key_ne (by simp))) (honly.other (remote_key_ne (by simp)))
  · exact hs.blinds.congr (fun _ => hsame.mem_blinds) (honly.other (remote_key_ne (by simp)))

/-- The part of the stored state that a write at another record keeps. -/
theorem Clean.onlyAt (h : d.Clean) {r : Record} (ho : OnlyAt r d.config d'.config)
    (hne : ∀ id, r ≠ .remote id) (hr : d'.remotes = d.remotes) (hh : d'.heap = d.heap) :
    d'.Clean := by
  refine ⟨ho.healthy, fun {id p} hp hdirty => ?_⟩
  rw [hr] at hp
  rw [hh] at hdirty ⊢
  refine (h.recorded hp hdirty).congr (getRemoteConfig_congr (ho.other fun hk => ?_))
  exact remote_key_ne hne hk.symm

theorem Stored.saveBlindAt (hs : d.Stored) {k : UInt32} {force : Bool}
    (h : d.saveBlindAt force k = some d') : d'.Stored := by
  have hsame := (saves_saveBlindAt h).toSameRegistry
  obtain ⟨b, hb, ⟨rfl, -⟩ | ⟨c, -, rfl⟩⟩ := saveBlindAt_cases h
  · exact hs.quiet hsame rfl fun _ _ => rfl
  · have honly := hs.clean.healthy.onlyAt_saveBlindConfig b.blindId c
    refine ⟨hs.clean.onlyAt honly nofun rfl rfl, ?_, ?_⟩
    · exact hs.remotes.congr rfl (fun _ => rfl) (honly.other (blind_key_ne nofun))
        (honly.other (blind_key_ne nofun))
    · exact hs.blinds.congr (fun _ => hsame.mem_blinds) (honly.other (blind_key_ne nofun))

/-- An id of a blind is given out as 16 bits. -/
theorem toUInt32_toUInt16 {k : UInt32} (h : k.toNat < 65536) : k.toUInt16.toUInt32 = k := by
  rw [← UInt32.toNat_inj, UInt16.toNat_toUInt32, UInt32.toNat_toUInt16]
  omega

theorem mem_internalIds {low : UInt16} : low ∈ d.internalIds ↔
    ∃ (id : UInt32) (p : ℕ), d.remotes[id]? = some p ∧ (d.heap p).isExternal = false ∧
      id.toUInt16 = low := by
  simp [internalIds, mem_toList, and_assoc]

theorem mem_externalIds {id : UInt32} : id ∈ d.externalIds ↔
    ∃ p, d.remotes[id]? = some p ∧ (d.heap p).isExternal = true := by
  simp [externalIds, mem_toList]

/-- Both lists of remotes are stored; the second write leaves the first alone. -/
theorem stored_saveRemoteList (hc : d.Clean) (hi : d.internalIds.length ≤ 124)
    (hx : d.externalIds.length ≤ 62) (h : d.saveRemoteList = some d')
    (hlost : d'.config.lost = false) :
    d'.Clean ∧ d'.RemotesListed ∧ (d.BlindsListed → d'.BlindsListed) := by
  unfold saveRemoteList at h
  split_ifs at h
  cases h
  have hli : 4 + (CStrings.encode16s d.internalIds).length ≤ 252 := by
    rw [CStrings.length_encode16s]
    omega
  have hlx : 4 + (CStrings.encode32s d.externalIds).length ≤ 252 := by
    rw [CStrings.length_encode32s]
    omega
  have h₁ : OnlyAt .remoteIds d.config (d.config.saveRemoteIds d.internalIds) :=
    hc.healthy.onlyAt_list .remoteIds hli
  have h₂ : OnlyAt .externalRemoteIds (d.config.saveRemoteIds d.internalIds)
      ((d.config.saveRemoteIds d.internalIds).saveExternalRemoteIds d.externalIds) :=
    h₁.healthy.onlyAt_list .externalRemoteIds hlx
  refine ⟨?_, ⟨⟨d.internalIds, ?_, fun low => mem_internalIds⟩,
    ⟨d.externalIds, ?_, fun id _ _ => mem_externalIds⟩⟩, fun hb => ?_⟩
  · have hc₁ : Clean { d with config := d.config.saveRemoteIds d.internalIds } :=
      hc.onlyAt h₁ nofun rfl rfl
    exact hc₁.onlyAt h₂ nofun rfl rfl
  · exact (hc.healthy.holds_write .remoteIds hli (lost_write_mono _ _ hlost)).congr
      (h₂.other (by decide))
  · exact h₁.healthy.holds_write .externalRemoteIds hlx hlost
  · exact hb.congr (fun _ => Iff.rfl) ((h₂.other (by decide)).trans (h₁.other (by decide)))

theorem mem_blindIds (hk : ∀ k ∈ d.blinds, k.toNat < 65536) (i : UInt16) :
    i ∈ d.blindIds ↔ i.toUInt32 ∈ d.blinds := by
  simp only [blindIds, List.mem_map, Std.ExtTreeMap.mem_keys]
  constructor
  · rintro ⟨k, hmem, rfl⟩
    rwa [toUInt32_toUInt16 (hk k hmem)]
  · exact fun hmem => ⟨_, hmem, UInt16.toUInt16_toUInt32 i⟩

theorem stored_saveBlindList (hc : d.Clean) (hr : d.RemotesListed)
    (hk : ∀ k ∈ d.blinds, k.toNat < 65536) (hb : d.blindIds.length ≤ 124)
    (h : d.saveBlindList = some d') (hlost : d'.config.lost = false) : d'.Stored := by
  unfold saveBlindList at h
  split_ifs at h
  cases h
  have hlen : 4 + (CStrings.encode16s d.blindIds).length ≤ 252 := by
    rw [CStrings.length_encode16s]
    omega
  have h₁ : OnlyAt .blindIds d.config (d.config.saveBlindIds d.blindIds) :=
    hc.healthy.onlyAt_list .blindIds hlen
  refine ⟨hc.onlyAt h₁ nofun rfl rfl, hr.congr rfl (fun _ => rfl) (h₁.other (by decide))
    (h₁.other (by decide)), ⟨d.blindIds, hc.healthy.holds_write .blindIds hlen hlost,
    mem_blindIds hk⟩⟩

end Device

end PicoSomfy
