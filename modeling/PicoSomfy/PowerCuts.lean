import PicoSomfy.BackedRecords
import PicoSomfy.BootImages

/-!
# Power cuts during a request

A request writes its records one after the other, and the power can fail between any two
of them. What the device then starts with depends on the order of the writes and on what
the stored records say of associations, which are saved only later.

`Settled` asks of the stored records that the primary remote of every blind knows the
blind, and that no remote knows a blind that is not there. `CutSafe` says of a request and
a number of writes which of this is needed, and which cuts no records can save: between
the record of a deleted blind and the list of blinds, and after a new blind was listed.
-/
namespace PicoSomfy

open SortedMap DeviceConfig

namespace Device

/-- The stored records agree on the associations, leaving out a remote and a blind that are
about to go. -/
structure Settled (d : Device) (goneRemote goneBlind : Option UInt32) : Prop where
  own : ∀ (k : UInt32) (b : Blind), d.blinds[k]? = some b → goneBlind ≠ some k →
    ∀ rc, d.config.getRemoteConfig (d.heap b.remote).remoteId = some rc → b.blindId ∈ rc.blinds
  known : ∀ a ∈ d.remotes, goneRemote ≠ some a → ∀ rc, d.config.getRemoteConfig a = some rc →
    ∀ i ∈ rc.blinds, i.toUInt32 ∈ d.blinds ∧ goneBlind ≠ some i.toUInt32

end Device

/-- What a cut after `n` of the writes of a call needs of the records before the call. -/
def Call.CutSafe (d : Device) (n : ℕ) : Call → Prop
  | .addBlind _ _ _ => n ≤ 4 ∧ d.Settled none none
  | .deleteRemote id => d.Settled (if n = 0 then none else some id) none
  | .removeBlind k b =>
      if n = 0 then d.Settled none none
      else n ≠ 4 ∧ d.Settled (some (d.heap b.remote).remoteId) (some k)
  | _ => d.Settled none none

namespace Device

variable {d d' : Device}

/-- From the records of a running device its remotes are loaded. -/
theorem loaded_eq (h : d.Inv) (a : UInt32) : d.config.image.loaded a =
    if a ∈ d.remotes then d.config.getRemoteConfig a else none := by
  change (if ¬Reserved a ∧ (a ∈ d.config.getRemoteIds.map fullId ∨
    a ∈ d.config.getExternalRemoteIds) then d.config.remoteAt a.toUInt16 else none) = _
  by_cases ha : Reserved a
  · rw [getRemoteConfig_reserved _ ha, if_neg fun hl => hl.1 ha, ite_self]
  · rw [← getRemoteConfig_eq _ ha]
    refine if_congr ⟨fun hl => ?_, fun hmem => ⟨ha, ?_⟩⟩ rfl rfl
    · rcases hl.2 with hint | hext
      · obtain ⟨p, hp, -⟩ := (mem_fullIds h a).mp hint
        exact mem_iff.mpr ⟨p, hp⟩
      · obtain ⟨p, hp, -⟩ := (mem_externalList h ha).mp hext
        exact mem_iff.mpr ⟨p, hp⟩
    · obtain ⟨p, hp⟩ := mem_iff.mp hmem
      cases he : (d.heap p).isExternal with
      | false => exact .inl ((mem_fullIds h a).mpr ⟨p, hp, he⟩)
      | true => exact .inr ((mem_externalList h ha).mpr ⟨p, hp, he⟩)

theorem loaded_primary (h : d.Inv) (hb : d.Backed) {k : UInt32} {b : Blind}
    (hk : d.blinds[k]? = some b) :
    ∃ rc, d.config.image.loaded (d.heap b.remote).remoteId = some rc ∧
      d.config.getRemoteConfig (d.heap b.remote).remoteId = some rc := by
  have hp := (h.registry.primary hk).1
  obtain ⟨rc, hrc⟩ := hb.remote _ _ hp
  have hread := (getRemoteConfig_eq d.config (h.registry.primary_readable hk)).trans hrc
  exact ⟨rc, by rw [loaded_eq h, if_pos (mem_iff.mpr ⟨_, hp⟩), hread], hread⟩

/-- An image that has lost a remote and a blind, or neither, is coherent when the records
of the others are. -/
theorem coherent_iff_settled (h : d.Inv) (hb : d.Backed) {goneRemote goneBlind : Option UInt32}
    (htogether : ∀ (k : UInt32) (b : Blind), d.blinds[k]? = some b →
      (goneBlind = some k ↔ goneRemote = some (d.heap b.remote).remoteId)) {img : FlashImage}
    (hloaded : ∀ a, img.loaded a = if goneRemote = some a then none else d.config.image.loaded a)
    (hlisted : ∀ k ∈ img.blindIds, k ∈ d.config.getBlindIds)
    (hkept : ∀ k ∈ d.config.getBlindIds, goneBlind ≠ some k.toUInt32 → k ∈ img.blindIds)
    (hblind : ∀ k ∈ img.blindIds, img.blind k = d.config.getBlindConfig k) :
    img.Coherent ↔ d.Settled goneRemote goneBlind := by
  have hrecord : ∀ (k : UInt32) (b : Blind), d.blinds[k]? = some b → b.blindId ∈ img.blindIds →
      ∃ cfg, img.blind b.blindId = some cfg ∧ cfg.remoteId = (d.heap b.remote).remoteId :=
    fun k b hk hin => by
      rw [hblind _ hin]
      exact hb.blind k b hk
  have hfind : ∀ k ∈ img.blindIds, ∃ b, d.blinds[k.toUInt32]? = some b ∧ b.blindId = k :=
    fun k hk => by
      obtain ⟨b, hb⟩ := mem_iff.mp ((mem_blindList h k).mp (hlisted k hk))
      exact ⟨b, hb, toUInt32_inj (h.registry.blind hb).1⟩
  constructor
  · intro hc
    refine ⟨fun k b hk hgone rc hrc => ?_, fun a ha hgone rc hrc i hi => ?_⟩
    · have hin : b.blindId ∈ img.blindIds := by
        refine hkept _ ((mem_blindList h _).mpr ?_) ?_ <;> rw [(h.registry.blind hk).1]
        · exact mem_iff.mpr ⟨b, hk⟩
        · exact hgone
      obtain ⟨cfg, hcfg, hid⟩ := hrecord k b hk hin
      refine hc.own _ hin cfg hcfg rc ?_
      rw [hid, hloaded, if_neg fun heq => hgone ((htogether k b hk).mpr heq), loaded_eq h,
        if_pos (mem_iff.mpr ⟨_, (h.registry.primary hk).1⟩), hrc]
    · obtain ⟨hin, cfg, hcfg, hsome⟩ := hc.known a rc
        (by rw [hloaded, if_neg hgone, loaded_eq h, if_pos ha, hrc]) i hi
      obtain ⟨b, hk, hid⟩ := hfind i hin
      obtain ⟨cfg', hcfg', hid'⟩ := hrecord _ b hk (hid ▸ hin)
      rw [hid, hcfg] at hcfg'
      obtain rfl := Option.some.inj hcfg'
      refine ⟨mem_iff.mpr ⟨b, hk⟩, fun heq => ?_⟩
      rw [hid', hloaded, if_pos ((htogether _ b hk).mp heq)] at hsome
      cases hsome
  · intro hs
    refine ⟨fun k hin => ?_, fun k hin cfg hcfg rc hrc => ?_, fun a rc hrc i hi => ?_⟩
    · obtain ⟨b, hk, rfl⟩ := hfind k hin
      obtain ⟨cfg, hcfg, -⟩ := hrecord _ b hk hin
      exact ⟨cfg, hcfg⟩
    · obtain ⟨b, hk, rfl⟩ := hfind k hin
      obtain ⟨cfg', hcfg', hid⟩ := hrecord _ b hk hin
      obtain rfl := Option.some.inj (hcfg.symm.trans hcfg')
      rw [hid, hloaded] at hrc
      split_ifs at hrc with hgone
      rw [loaded_eq h, if_pos (mem_iff.mpr ⟨_, (h.registry.primary hk).1⟩)] at hrc
      exact hs.own _ b hk (fun heq => hgone ((htogether _ b hk).mp heq)) rc hrc
    · rw [hloaded] at hrc
      split_ifs at hrc with hgone
      rw [loaded_eq h] at hrc
      split_ifs at hrc with ha
      obtain ⟨hmem, hstays⟩ := hs.known a ha hgone rc hrc i hi
      have hin := hkept i ((mem_blindList h i).mpr hmem) hstays
      obtain ⟨b, hk, rfl⟩ := hfind i hin
      obtain ⟨cfg, hcfg, hid⟩ := hrecord _ b hk hin
      obtain ⟨rc', hrc', -⟩ := loaded_primary h hb hk
      refine ⟨hin, cfg, hcfg, ?_⟩
      rw [hid, hloaded, if_neg fun heq => hstays ((htogether _ b hk).mpr heq), hrc']
      rfl

/-- The image between two requests. -/
theorem coherent_at_rest (h : d.Inv) (hb : d.Backed) :
    d.config.image.Coherent ↔ d.Settled none none :=
  coherent_iff_settled h hb (fun _ _ _ => by simp) (fun _ => by simp) (fun _ hk => hk)
    (fun _ hk _ => hk) fun _ _ => rfl

/-- A list of created remotes, read back. -/
theorem mem_fullIds_internalIds
    (hrange : ∀ {id : UInt32} {p : ℕ}, d.remotes[id]? = some p → (d.heap p).isExternal = false →
      0x270000 < id.toNat ∧ id.toNat < 0x280000) (a : UInt32) :
    a ∈ d.internalIds.map fullId ↔
      ∃ p, d.remotes[a]? = some p ∧ (d.heap p).isExternal = false := by
  rw [List.mem_map]
  constructor
  · rintro ⟨low, hlow, rfl⟩
    obtain ⟨id, p, hp, he, rfl⟩ := mem_internalIds.mp hlow
    exact ⟨p, by rwa [fullId_toUInt16 (hrange hp he)], he⟩
  · rintro ⟨p, hp, he⟩
    exact ⟨a.toUInt16, mem_internalIds.mpr ⟨a, p, hp, he, rfl⟩, fullId_toUInt16 (hrange hp he)⟩

/-- Two devices with the same remotes but one write lists that differ in its id only. -/
theorem listed_other (h : d.Inv) {e : Device} {id a : UInt32} (ha : a ≠ id)
    (hrange : ∀ {id : UInt32} {p : ℕ}, e.remotes[id]? = some p → (e.heap p).isExternal = false →
      0x270000 < id.toNat ∧ id.toNat < 0x280000)
    (hsame : ∀ b ≠ id, ∀ p, e.remotes[b]? = some p ↔ d.remotes[b]? = some p)
    (hheap : ∀ p, d.remotes[a]? = some p → e.heap p = d.heap p) :
    (a ∈ e.internalIds.map fullId ↔ a ∈ d.config.getRemoteIds.map fullId) ∧
      (¬Reserved a → (a ∈ e.externalIds ↔ a ∈ d.config.getExternalRemoteIds)) := by
  have hview : ∀ ext, (∃ p, e.remotes[a]? = some p ∧ (e.heap p).isExternal = ext) ↔
      ∃ p, d.remotes[a]? = some p ∧ (d.heap p).isExternal = ext := fun ext => by
    constructor
    · rintro ⟨p, hp, hext⟩
      have hp' := (hsame a ha p).mp hp
      exact ⟨p, hp', by rw [← hheap p hp', hext]⟩
    · rintro ⟨p, hp, hext⟩
      exact ⟨p, (hsame a ha p).mpr hp, by rw [hheap p hp, hext]⟩
  constructor
  · rw [mem_fullIds_internalIds hrange, mem_fullIds h, hview]
  · intro hres
    rw [mem_externalIds, mem_externalList h hres, hview]

/-- A remote stays loaded, or not loaded, when its record and its place in the lists stay. -/
theorem loaded_other {img img' : FlashImage} {a : UInt32}
    (hint : a ∈ img'.internal.map fullId ↔ a ∈ img.internal.map fullId)
    (hext : ¬Reserved a → (a ∈ img'.external ↔ a ∈ img.external))
    (hremote : ¬Reserved a → (a ∈ img.internal.map fullId ∨ a ∈ img.external) →
      img'.remote a.toUInt16 = img.remote a.toUInt16) : img'.loaded a = img.loaded a := by
  by_cases ha : Reserved a
  · rw [FlashImage.loaded, FlashImage.loaded, if_neg fun h => h.1 ha, if_neg fun h => h.1 ha]
  · have hiff : (¬Reserved a ∧ (a ∈ img'.internal.map fullId ∨ a ∈ img'.external)) ↔
        ¬Reserved a ∧ (a ∈ img.internal.map fullId ∨ a ∈ img.external) := by
      rw [hint, hext ha]
    rw [FlashImage.loaded, FlashImage.loaded]
    by_cases hin : ¬Reserved a ∧ (a ∈ img.internal.map fullId ∨ a ∈ img.external)
    · rw [if_pos hin, if_pos (hiff.mpr hin), hremote ha hin.2]
    · rw [if_neg hin, if_neg fun h => hin (hiff.mp h)]

/-- Whatever of the lists was written, the other remotes are loaded as before. -/
theorem loaded_half (h : d.Inv) {e : Device} {id a : UInt32} (ha : a ≠ id)
    (hlow : ∀ b ∈ d.remotes, b ≠ id → b.toUInt16 ≠ id.toUInt16)
    (hlists : (a ∈ e.internalIds.map fullId ↔ a ∈ d.config.getRemoteIds.map fullId) ∧
      (¬Reserved a → (a ∈ e.externalIds ↔ a ∈ d.config.getExternalRemoteIds)))
    {img : FlashImage} {c : Option RemoteConfig}
    (hint : img.internal = d.config.getRemoteIds ∨ img.internal = e.internalIds)
    (hext : img.external = d.config.getExternalRemoteIds ∨ img.external = e.externalIds)
    (hremote : img.remote = Function.update d.config.image.remote id.toUInt16 c) :
    img.loaded a = d.config.image.loaded a := by
  refine loaded_other ?_ (fun hres => ?_) fun hres hin => ?_
  · rcases hint with hint | hint <;> rw [hint]
    · rfl
    · exact hlists.1
  · rcases hext with hext | hext <;> rw [hext]
    · rfl
    · exact hlists.2 hres
  · have hmem : a ∈ d.remotes := by
      rcases hin with hin | hin
      · obtain ⟨p, hp, -⟩ := (mem_fullIds h a).mp hin
        exact mem_iff.mpr ⟨p, hp⟩
      · obtain ⟨p, hp, -⟩ := (mem_externalList h hres).mp hin
        exact mem_iff.mpr ⟨p, hp⟩
    rw [hremote, Function.update_of_ne (hlow a hmem ha)]

/-- A remote without blinds can be loaded or not. -/
theorem coherent_grown (h : d.Inv) (hb : d.Backed) {id : UInt32} (hid : id ∉ d.remotes)
    {img : FlashImage} (hother : ∀ a, a ≠ id → img.loaded a = d.config.image.loaded a)
    (hnew : ∀ rc, img.loaded id = some rc → rc.blinds = [])
    (hids : img.blindIds = d.config.getBlindIds)
    (hblind : ∀ k ∈ d.config.getBlindIds, img.blind k = d.config.getBlindConfig k) :
    img.Coherent ↔ d.Settled none none := by
  rw [← coherent_at_rest h hb]
  have hprimary : ∀ k ∈ d.config.getBlindIds, ∀ cfg, d.config.getBlindConfig k = some cfg →
      cfg.remoteId ≠ id := fun k hk cfg hcfg heq => by
    obtain ⟨b, hkb⟩ := mem_iff.mp ((mem_blindList h k).mp hk)
    obtain ⟨cfg', hcfg', hcid⟩ := hb.blind _ b hkb
    rw [toUInt32_inj (h.registry.blind hkb).1, hcfg] at hcfg'
    obtain rfl := Option.some.inj hcfg'
    refine hid (mem_iff.mpr ⟨b.remote, ?_⟩)
    rw [← heq, hcid]
    exact (h.registry.primary hkb).1
  have hfree : d.config.image.loaded id = none := by rw [loaded_eq h, if_neg hid]
  constructor
  · intro hc
    refine ⟨fun k hk => ?_, fun k hk cfg hcfg rc hrc => ?_, fun a rc hrc i hi => ?_⟩
    · obtain ⟨cfg, hcfg⟩ := hc.records k (hids ▸ hk)
      exact ⟨cfg, (hblind k hk).symm.trans hcfg⟩
    · refine hc.own k (hids ▸ hk) cfg ((hblind k hk).trans hcfg) rc ?_
      rw [hother _ (hprimary k hk cfg hcfg), hrc]
    · have ha : a ≠ id := fun heq => by
        rw [heq, hfree] at hrc
        cases hrc
      obtain ⟨hin, cfg, hcfg, hsome⟩ := hc.known a rc (by rw [hother a ha, hrc]) i hi
      rw [hids] at hin
      rw [hblind i hin] at hcfg
      rw [hother _ (hprimary i hin cfg hcfg)] at hsome
      exact ⟨hin, cfg, hcfg, hsome⟩
  · intro hc
    refine ⟨fun k hk => ?_, fun k hk cfg hcfg rc hrc => ?_, fun a rc hrc i hi => ?_⟩
    · rw [hids] at hk
      rw [hblind k hk]
      exact hc.records k hk
    · rw [hids] at hk
      rw [hblind k hk] at hcfg
      rw [hother _ (hprimary k hk cfg hcfg)] at hrc
      exact hc.own k hk cfg hcfg rc hrc
    · by_cases ha : a = id
      · rw [ha] at hrc
        rw [hnew rc hrc] at hi
        cases hi
      · rw [hother a ha] at hrc
        obtain ⟨hin, cfg, hcfg, hsome⟩ := hc.known a rc hrc i hi
        rw [hids, hblind i hin]
        refine ⟨hin, cfg, hcfg, ?_⟩
        rw [hother _ (hprimary i hin cfg hcfg)]
        exact hsome

/-- While a remote is registered, whatever was written of the lists. -/
theorem registering (h : d.Inv) (hb : d.Backed) {id : UInt32} (hf : d.FreshHalf id)
    {r : SomfyRemote}
    (hid : r.isExternal = false → 0x270000 < id.toNat ∧ id.toNat < 0x280000)
    {c : RemoteConfig} (hc : c.blinds = []) {img : FlashImage}
    (hint : img.internal = d.config.getRemoteIds ∨
      img.internal = (d.insertRemote id r).internalIds)
    (hext : img.external = d.config.getExternalRemoteIds ∨
      img.external = (d.insertRemote id r).externalIds)
    (hremote : img.remote = Function.update d.config.image.remote id.toUInt16 (some c))
    (hids : img.blindIds = d.config.getBlindIds)
    (hblind : ∀ k ∈ d.config.getBlindIds, img.blind k = d.config.getBlindConfig k) :
    (∀ a, a ≠ id → img.loaded a = d.config.image.loaded a) ∧
      (img.Coherent ↔ d.Settled none none) := by
  have hnot : id ∉ d.remotes := fun hmem => hf id hmem rfl
  have hother : ∀ a, a ≠ id → img.loaded a = d.config.image.loaded a := fun a ha => by
    refine loaded_half h ha (fun b hmem _ => hf b hmem) (listed_other h ha ?_ (fun b hne p => ?_)
      fun p hp => ?_) hint hext hremote
    · intro b p hp he
      rcases insertRemote_cases hf hp with ⟨rfl, rfl⟩ | ⟨-, hold⟩
      · exact hid (by rwa [insertRemote_top] at he)
      · rw [insertRemote_heap (h.registry.registered hold).1] at he
        exact h.registry.created_range hold he
    · rw [insertRemote_remotes hf, if_neg hne.symm]
    · exact insertRemote_heap (h.registry.registered hp).1
  refine ⟨hother, coherent_grown h hb hnot hother (fun rc hrc => ?_) hids hblind⟩
  rw [FlashImage.loaded] at hrc
  split_ifs at hrc
  rw [hremote, Function.update_self] at hrc
  exact Option.some.inj hrc ▸ hc

/-- While a remote is erased, alone or with its blind. -/
theorem erasing (h : d.Inv) (hb : d.Backed) {id : UInt32} (hid : id ∈ d.remotes)
    {goneBlind : Option UInt32}
    (htogether : ∀ (k : UInt32) (b : Blind), d.blinds[k]? = some b →
      (goneBlind = some k ↔ some id = some (d.heap b.remote).remoteId)) {img : FlashImage}
    (hint : img.internal = d.config.getRemoteIds ∨
      img.internal = internalIds { d with remotes := d.remotes.erase id })
    (hext : img.external = d.config.getExternalRemoteIds ∨
      img.external = externalIds { d with remotes := d.remotes.erase id })
    (hremote : img.remote = Function.update d.config.image.remote id.toUInt16 none)
    (hlisted : ∀ k ∈ img.blindIds, k ∈ d.config.getBlindIds)
    (hkept : ∀ k ∈ d.config.getBlindIds, goneBlind ≠ some k.toUInt32 → k ∈ img.blindIds)
    (hblind : ∀ k ∈ img.blindIds, img.blind k = d.config.getBlindConfig k) :
    img.Coherent ↔ d.Settled (some id) goneBlind := by
  refine coherent_iff_settled h hb htogether (fun a => ?_) hlisted hkept hblind
  split_ifs with ha
  · obtain rfl := Option.some.inj ha
    rw [FlashImage.loaded, hremote, Function.update_self, ite_self]
  · have hne : a ≠ id := fun heq => ha (congrArg some heq.symm)
    refine loaded_half h hne (fun b hmem hbid hlow => hbid (h.registry.lowHalves hmem hid hlow))
      (listed_other (e := { d with remotes := d.remotes.erase id }) h hne ?_ (fun b hbid p => ?_)
        fun _ _ => rfl) hint hext hremote
    · intro b p hp he
      change (d.remotes.erase id)[b]? = some p at hp
      rw [get_erase] at hp
      split_ifs at hp
      exact h.registry.created_range hp he
    · change (d.remotes.erase id)[b]? = some p ↔ _
      rw [get_erase, if_neg hbid.symm]

/-- A registration can be cut anywhere. -/
theorem registerCalls_cut (h : d.Inv) (hb : d.Backed) {id : UInt32} (hf : d.FreshHalf id)
    {r : SomfyRemote}
    (hid : r.isExternal = false → 0x270000 < id.toNat ∧ id.toNat < 0x280000)
    {c : RemoteConfig} (hc : c.blinds = []) (n : ℕ) :
    (((FlashCall.saveRemote id c :: (d.insertRemote id r).remoteListCalls).take n).foldl
      FlashCall.act d.config.image).Coherent ↔ d.Settled none none := by
  rcases n with _ | _ | _ | n
  · exact coherent_at_rest h hb
  · exact (registering h hb hf hid hc (.inl rfl) (.inl rfl) rfl rfl fun _ _ => rfl).2
  · exact (registering h hb hf hid hc (.inr rfl) (.inl rfl) rfl rfl fun _ _ => rfl).2
  · rw [List.take_of_length_le (by simp [remoteListCalls])]
    exact (registering h hb hf hid hc (.inr rfl) (.inr rfl) rfl rfl fun _ _ => rfl).2

/-- An erasure needs the records of the other remotes once its first write is done. -/
theorem deleteCalls_cut (h : d.Inv) (hb : d.Backed) {id : UInt32} (hid : id ∈ d.remotes)
    {goneBlind : Option UInt32}
    (htogether : ∀ (k : UInt32) (b : Blind), d.blinds[k]? = some b →
      (goneBlind = some k ↔ some id = some (d.heap b.remote).remoteId)) (n : ℕ) :
    (((d.deleteCalls id).take (n + 1)).foldl FlashCall.act d.config.image).Coherent ↔
      d.Settled (some id) goneBlind := by
  rcases n with _ | _ | n
  · exact erasing h hb hid htogether (.inl rfl) (.inl rfl) rfl (fun _ hk => hk)
      (fun _ hk _ => hk) fun _ _ => rfl
  · exact erasing h hb hid htogether (.inr rfl) (.inl rfl) rfl (fun _ hk => hk)
      (fun _ hk _ => hk) fun _ _ => rfl
  · rw [List.take_of_length_le (by simp [deleteCalls, remoteListCalls])]
    exact erasing h hb hid htogether (.inr rfl) (.inr rfl) rfl (fun _ hk => hk)
      (fun _ hk _ => hk) fun _ _ => rfl

theorem addBlind_cut (h : d.Inv) (hb : d.Backed) {name : List UInt8} {openTime closeTime : Int32}
    (hmay : d.MayCreate) (hnext : d.nextBlindId.toNat < 65536)
    (hd : d.addBlind name openTime closeTime = some d') (n : ℕ) :
    ((((Call.addBlind name openTime closeTime).flashCalls d).take n).foldl FlashCall.act
      d.config.image).Coherent ↔ n ≤ 4 ∧ d.Settled none none := by
  obtain ⟨c, cfg, hc, hcfg, hcalls⟩ := addBlind_calls hd
  have hrange : (d.newRemote name d.nextRemoteId false).isExternal = false →
      0x270000 < d.nextRemoteId.toNat ∧ d.nextRemoteId.toNat < 0x280000 :=
    fun _ => ⟨h.registry.nextRemote.1, hmay.2.1⟩
  have hnew : d.nextBlindId.toUInt16 ∉ d.config.getBlindIds := fun hmem => by
    obtain ⟨b, hkb⟩ := mem_iff.mp ((mem_blindList h _).mp hmem)
    rw [toUInt32_toUInt16 hnext, h.registry.next_blind_new] at hkb
    cases hkb
  rw [hcalls]
  rcases Nat.lt_or_ge n 4 with hn | hn
  · -- the record of the blind is not written yet
    have htake : List.take n (FlashCall.saveRemote d.nextRemoteId c ::
        ((d.insertRemote d.nextRemoteId (d.newRemote name d.nextRemoteId false)).remoteListCalls ++
          [.saveBlind d.nextBlindId.toUInt16 cfg,
            .blindIds (d.withBlind name openTime closeTime).blindIds])) =
        List.take n (FlashCall.saveRemote d.nextRemoteId c ::
          (d.insertRemote d.nextRemoteId
            (d.newRemote name d.nextRemoteId false)).remoteListCalls) := by
      rw [← List.cons_append, List.take_append_of_le_length (by simp [remoteListCalls]; omega)]
    rw [htake, registerCalls_cut h hb hmay.1 hrange hc n, and_iff_right (by omega)]
  rcases hn.eq_or_lt with rfl | hn
  · -- the record is there, but in no list
    rw [and_iff_right le_rfl]
    refine (registering h hb hmay.1 hrange hc (.inr rfl) (.inr rfl) rfl rfl fun k hk => ?_).2
    have hne : k ≠ d.nextBlindId.toUInt16 := fun heq => hnew (heq ▸ hk)
    exact Function.update_of_ne hne _ _
  · -- the blind is listed, and its primary remote does not know it
    rw [List.take_of_length_le (by simp [remoteListCalls]; omega)]
    refine iff_of_false (fun hcoherent => ?_) (by omega)
    have hlisted : d.nextBlindId.toUInt16 ∈ (d.withBlind name openTime closeTime).blindIds := by
      refine List.mem_map_of_mem (Std.ExtTreeMap.mem_keys.mpr ?_)
      exact Std.ExtTreeMap.mem_insertIfNew_self
    have hown := hcoherent.own d.nextBlindId.toUInt16 hlisted cfg (Function.update_self _ _ _) c ?_
    · rw [hc] at hown
      cases hown
    · have hid := hrange (newRemote_isExternal _ _ _)
      have hinternal : d.nextRemoteId ∈ (d.insertRemote d.nextRemoteId
          (d.newRemote name d.nextRemoteId false)).internalIds.map fullId := by
        refine List.mem_map.mpr ⟨_, mem_internalIds.mpr ⟨d.nextRemoteId, d.heapTop, ?_, ?_, rfl⟩,
          fullId_toUInt16 hid⟩
        · rw [insertRemote_remotes hmay.1, if_pos rfl]
        · rw [insertRemote_top, newRemote_isExternal]
      rw [hcfg, FlashImage.loaded, if_pos ⟨created_readable hid, .inl hinternal⟩]
      exact Function.update_self _ _ _

theorem removeBlind_cut (h : d.Inv) (hb : d.Backed) {k : UInt32} {b : Blind}
    (hk : d.blinds[k]? = some b) (n : ℕ) :
    ((((Call.removeBlind k b).flashCalls d).take (n + 1)).foldl FlashCall.act
      d.config.image).Coherent ↔
      n + 1 ≠ 4 ∧ d.Settled (some (d.heap b.remote).remoteId) (some k) := by
  have hreg := h.registry
  have hid : (d.heap b.remote).remoteId ∈ d.remotes := mem_iff.mpr ⟨_, (hreg.primary hk).1⟩
  have hkey : k.toUInt16.toUInt32 = k := toUInt32_toUInt16 (hreg.blind_small (mem_iff.mpr ⟨b, hk⟩))
  have htogether : ∀ (i : UInt32) (c : Blind), d.blinds[i]? = some c →
      (some k = some i ↔ some (d.heap b.remote).remoteId = some (d.heap c.remote).remoteId) :=
    fun i c hi => by
      rw [Option.some.injEq, Option.some.injEq]
      constructor
      · rintro rfl
        rw [Option.some.inj (hk.symm.trans hi)]
      · intro heq
        have hp := (hreg.primary hk).1
        rw [heq, (hreg.primary hi).1] at hp
        exact hreg.distinct hk hi (Option.some.inj hp).symm
  rcases Nat.lt_or_ge n 3 with hn | hn
  · -- the record of the blind and the list are as before
    have htake : List.take (n + 1) ((Call.removeBlind k b).flashCalls d) =
        List.take (n + 1) (d.deleteCalls (d.heap b.remote).remoteId) :=
      List.take_append_of_le_length (by simp [deleteCalls, remoteListCalls]; omega)
    rw [htake, deleteCalls_cut h hb hid htogether n, and_iff_right (by omega)]
  rcases hn.eq_or_lt with rfl | hn
  · -- the blind is listed without its record
    refine iff_of_false (fun hcoherent => ?_) (by omega)
    have hlisted : k.toUInt16 ∈ d.config.getBlindIds := by
      rw [mem_blindList h, hkey]
      exact mem_iff.mpr ⟨b, hk⟩
    obtain ⟨cfg, hcfg⟩ := hcoherent.records k.toUInt16 hlisted
    change Function.update d.config.getBlindConfig k.toUInt16 none k.toUInt16 = some cfg at hcfg
    rw [Function.update_self] at hcfg
    cases hcfg
  · rw [List.take_of_length_le (by
      simp [Call.flashCalls, deleteCalls, remoteListCalls]; omega), and_iff_right (by omega)]
    have hmem : ∀ i : UInt16, i ∈ blindIds { d with blinds := d.blinds.erase k } ↔
        i.toUInt32 ≠ k ∧ i ∈ d.config.getBlindIds := fun i => by
      rw [mem_blindList h, mem_blindIds fun j hj => (hreg.eraseBlind k).blind_small hj]
      refine Std.ExtTreeMap.mem_erase.trans (and_congr_left fun _ => ?_)
      rw [Ne, Std.LawfulEqCmp.compare_eq_iff_eq, eq_comm]
    refine erasing h hb hid htogether (.inr rfl) (.inr rfl) rfl (fun i hi => ((hmem i).mp hi).2)
      (fun i hi hne => (hmem i).mpr ⟨fun heq => hne (heq ▸ rfl), hi⟩) fun i hi => ?_
    have hne : i ≠ k.toUInt16 := fun heq => ((hmem i).mp hi).1 (by rw [heq, hkey])
    exact Function.update_of_ne hne _ _

theorem no_cut (h : d.Inv) (hb : d.Backed) {c : Call} (hnone : c.flashCalls d = []) (n : ℕ) :
    (((c.flashCalls d).take n).foldl FlashCall.act d.config.image).Coherent ↔
      d.Settled none none := by
  rw [hnone, List.take_nil]
  exact coherent_at_rest h hb

/-- The image after a cut is coherent exactly when the cut is safe. -/
theorem cut_coherent_iff {c : Call} (h : d.Inv) (hb : d.Backed) (hv : c.Valid d)
    (hr : c.Regular d) (hsaves : c.saves = false) (hd : d.perform c = some d') (n : ℕ) :
    (((c.flashCalls d).take n).foldl FlashCall.act d.config.image).Coherent ↔
      c.CutSafe d n := by
  cases c with
  | addBlind name openTime closeTime => exact addBlind_cut h hb hr.1 hr.2.1 hd n
  | createRemote name =>
      obtain ⟨c, hc, hcalls⟩ := registerCalls_eq hd
      rw [Call.flashCalls, hcalls]
      exact registerCalls_cut (r := d.newRemote name d.nextRemoteId false) h hb hr.1
        (fun _ => ⟨h.registry.nextRemote.1, hr.2.1⟩) hc n
  | importRemote name id =>
      obtain ⟨c, hc, hcalls⟩ := registerCalls_eq hd
      rw [Call.flashCalls, hcalls]
      exact registerCalls_cut h hb hr.1 (by simp) hc n
  | deleteRemote id =>
      obtain ⟨⟨p, hp, rfl⟩, hprim⟩ := hv
      cases n with
      | zero => exact coherent_at_rest h hb
      | succ n =>
          refine deleteCalls_cut h hb (mem_of_registered h.registry hp) (fun k b hk => ?_) n
          have hne := isAPrimaryRemote_false hprim hk
          simp [hne.symm]
  | removeBlind k b =>
      cases n with
      | zero => exact coherent_at_rest h hb
      | succ n => exact removeBlind_cut h hb hv n
  | saveRemotes => cases hsaves
  | saveBlinds => cases hsaves
  | restart mqttEnabled slots => cases hsaves
  | _ => exact no_cut h hb rfl n

theorem fresh_empty {dc : DeviceConfig} {mqttEnabled : Bool} {slots : ℕ → RecvCommand}
    (hpages : dc.storage.blockPages = 1) (hok : ∀ i, dc.chip.verdict i = true)
    (h : freshDevice dc mqttEnabled slots = some d) :
    (∀ a : UInt32, d.remotes[a]? = none) ∧ ∀ k : UInt32, d.blinds[k]? = none := by
  obtain ⟨-, hres⟩ := fresh_inv hpages hok h
  constructor
  · intro a
    by_contra hne
    obtain ⟨p, hp⟩ := Option.ne_none_iff_exists'.mp hne
    obtain ⟨-, q, hq, -⟩ := hres.old_remote mqttEnabled hp
    simp [blank] at hq
  · intro k
    by_contra hne
    obtain ⟨b, hb⟩ := Option.ne_none_iff_exists'.mp hne
    obtain ⟨b₀, -, hb₀, -⟩ := hres.old_blind mqttEnabled hb
    simp [blank] at hb₀

theorem fresh_backed {dc : DeviceConfig} {mqttEnabled : Bool} {slots : ℕ → RecvCommand}
    (hpages : dc.storage.blockPages = 1) (hok : ∀ i, dc.chip.verdict i = true)
    (h : freshDevice dc mqttEnabled slots = some d) : d.Inv ∧ d.Backed := by
  obtain ⟨hinv, -⟩ := fresh_inv hpages hok h
  obtain ⟨hremotes, hblinds⟩ := fresh_empty hpages hok h
  refine ⟨hinv, fun a p hp => ?_, fun k b hb => ?_, ?_⟩
  · rw [hremotes] at hp
    cases hp
  · rw [hblinds] at hb
    cases hb
  · have hnil : d.config.getBlindIds = [] := by
      refine List.eq_nil_iff_forall_not_mem.mpr fun k hk => ?_
      obtain ⟨b, hb⟩ := mem_iff.mp ((mem_blindList hinv k).mp hk)
      rw [hblinds] at hb
      cases hb
    rw [hnil]
    exact List.nodup_nil

/-- The list of blinds is the old one, or one that was written. -/
theorem blindIds_acts (fs : List FlashCall) (img : FlashImage) :
    (fs.foldl FlashCall.act img).blindIds = img.blindIds ∨
      ∃ ids, FlashCall.blindIds ids ∈ fs ∧ (fs.foldl FlashCall.act img).blindIds = ids := by
  induction fs generalizing img with
  | nil => exact .inl rfl
  | cons f fs ih =>
      rcases ih (f.act img) with hold | ⟨ids, hmem, hids⟩
      · cases f with
        | blindIds ids => exact .inr ⟨ids, List.mem_cons_self, hold⟩
        | _ => exact .inl hold
      · exact .inr ⟨ids, List.mem_cons_of_mem _ hmem, hids⟩

/-- No id is listed twice. -/
theorem flashCalls_nodup (hr : d.Registry) {c : Call} (hc : c.Regular d) {ids : List UInt16}
    (h : FlashCall.blindIds ids ∈ c.flashCalls d) : ids.Nodup := by
  cases c with
  | addBlind name openTime closeTime =>
      have hids : ids = (d.withBlind name openTime closeTime).blindIds := by
        simpa [Call.flashCalls, registerCalls, remoteListCalls] using h
      rw [hids]
      exact nodup_blindIds fun k hk =>
        (hr.withBlind name openTime closeTime hc.1 hc.2.1).blind_small hk
  | removeBlind k b =>
      have hids : ids = blindIds { d with blinds := d.blinds.erase k } := by
        simpa [Call.flashCalls, deleteCalls, remoteListCalls] using h
      rw [hids]
      exact nodup_blindIds fun i hi => (hr.eraseBlind k).blind_small hi
  | createRemote name => simp [Call.flashCalls, registerCalls, remoteListCalls] at h
  | importRemote name id => simp [Call.flashCalls, registerCalls, remoteListCalls] at h
  | deleteRemote id => simp [Call.flashCalls, deleteCalls, remoteListCalls] at h
  | _ => exact absurd h List.not_mem_nil

theorem length_getBlindIds (h : d.Stored) : d.config.getBlindIds.length ≤ 124 := by
  obtain ⟨ids, ⟨hlen, hread⟩, -⟩ := h.blinds
  have hget : d.config.getBlindIds = ids := getBlindIds_of_stored ⟨hlen, hread⟩
  rw [CStrings.length_encode16s] at hlen
  rw [hget]
  omega

/-- A cut device starts with links that lead somewhere exactly when the cut is safe. -/
theorem cut_boots_iff {c : Call} (h : d.Inv) (hb : d.Backed) (hv : c.Valid d)
    (hr : c.Regular d) (hsaves : c.saves = false) (hd : d.perform c = some d')
    (hlost : d'.config.lost = false) (n : ℕ) (mqttEnabled : Bool) (slots : ℕ → RecvCommand)
    (history : List Happening) :
    (∃ d₁, boot (((c.flashCalls d).take n).foldl FlashCall.run d.config) mqttEnabled slots
      history = some d₁ ∧ d₁.Linked) ↔ c.CutSafe d n := by
  have hfit := flashCalls_fit h.registry hr
  rw [perform_config hsaves hd] at hlost
  obtain ⟨hkept, himage⟩ := FlashCall.image_cut h.stored.kept hfit hlost n
  rw [← cut_coherent_iff h hb hv hr hsaves hd n, ← himage]
  have hids : (((c.flashCalls d).take n).foldl FlashCall.run d.config).getBlindIds = _ :=
    congrArg FlashImage.blindIds himage
  refine boots_linked_iff hkept.healthy ?_ ?_ <;> rw [hids]
  · rcases blindIds_acts ((c.flashCalls d).take n) d.config.image with hold | ⟨ids, hmem, hnew⟩
    · rw [hold]
      exact hb.nodup
    · rw [hnew]
      exact flashCalls_nodup h.registry hr (List.mem_of_mem_take hmem)
  · rcases blindIds_acts ((c.flashCalls d).take n) d.config.image with hold | ⟨ids, hmem, hnew⟩
    · rw [hold]
      exact (length_getBlindIds h.stored).trans (by decide)
    · rw [hnew]
      exact le_trans (hfit _ (List.mem_of_mem_take hmem)) (by decide)

/-- In every state of a run without a lost write, a request that loses none can be cut
after `n` writes, and the device starts with its links, exactly when the cut is safe. -/
theorem power_cuts {dc : DeviceConfig} {mqttEnabled : Bool} {slots : ℕ → RecvCommand}
    (hpages : dc.storage.blockPages = 1) (hok : ∀ i, dc.chip.verdict i = true) {d₀ : Device}
    (hd₀ : freshDevice dc mqttEnabled slots = some d₀) {es : List Event}
    (hrun : Transitions.Run step Regular d₀ es d) {e : Event} {c : Call}
    (hc : d.call e = some c) (hsaves : c.saves = false) (hr : c.Regular d)
    (hd : d.perform c = some d') (hlost : d'.config.lost = false) (n : ℕ)
    (mqttEnabled' : Bool) (slots' : ℕ → RecvCommand) (history : List Happening) :
    (∃ d₁, boot (((c.flashCalls d).take n).foldl FlashCall.run d.config) mqttEnabled' slots'
      history = some d₁ ∧ d₁.Linked) ↔ c.CutSafe d n := by
  have hend := hrun.invariant (I := fun d => d.config.lost = false → d.Inv ∧ d.Backed)
    (fun {d e d'} h hguard hstep hlost' => by
      obtain ⟨c, hc, hv, hp⟩ := step_cases hstep
      exact ⟨Inv.perform (fun hl => (h hl).1) hv (hguard c hc) hp hlost',
        Backed.perform h hv (hguard c hc) hp hlost'⟩)
    fun _ => fresh_backed hpages hok hd₀
  have hlost₀ : d.config.lost = false := by
    rw [perform_config hsaves hd] at hlost
    exact FlashCall.lost_runs hlost
  obtain ⟨hinv, hbacked⟩ := hend hlost₀
  exact cut_boots_iff hinv hbacked (call_valid hc) hr hsaves hd hlost n mqttEnabled' slots' history

/-- The first blind can be cut before it is listed. -/
theorem power_cuts_addBlind :
    ∃ d₀ d : Device, freshDevice oneSector false (fun _ => ⟨⟨0, 0, 0, 0⟩, 0⟩) = some d₀ ∧
      d₀.step addSalon = some d ∧
      ∃ d₁, boot ((((Call.addBlind (ascii "salon") 10 10).flashCalls d₀).take 4).foldl
        FlashCall.run d₀.config) false (fun _ => ⟨⟨0, 0, 0, 0⟩, 0⟩) [] = some d₁ ∧ d₁.Linked := by
  obtain ⟨d₀, d, hd₀, hregular, hd, hlost, -⟩ := first_blind
  obtain ⟨hremotes, hblinds⟩ := fresh_empty rfl (fun _ => rfl) hd₀
  have hsettled : d₀.Settled none none := by
    refine ⟨fun k b hb => ?_, fun a ha => ?_⟩
    · rw [hblinds] at hb
      cases hb
    · obtain ⟨p, hp⟩ := mem_iff.mp ha
      rw [hremotes] at hp
      cases hp
  have hcall := call_addSalon d₀
  have hperform : d₀.perform (.addBlind (ascii "salon") 10 10) = some d := by
    rw [step, hcall, Option.bind_some] at hd
    exact hd
  refine ⟨d₀, d, hd₀, hd, ?_⟩
  exact (power_cuts rfl (fun _ => rfl) hd₀ (.refl d₀) hcall rfl (hregular _ hcall) hperform hlost
    4 _ _ _).mpr ⟨le_rfl, hsettled⟩

/-- A blind just added is started with, but its primary remote does not know it. And a
start after the record of a deleted blind is gone, but not its id, fails. -/
theorem cut_unlinked :
    ∃ d₀ d d' : Device, freshDevice oneSector false (fun _ => ⟨⟨0, 0, 0, 0⟩, 0⟩) = some d₀ ∧
      d₀.step addSalon = some d ∧ d.step .saveRemotes = some d' ∧ d'.config.lost = false ∧
      (∃ d₁, boot ((((Call.addBlind (ascii "salon") 10 10).flashCalls d₀).take 5).foldl
        FlashCall.run d₀.config) false (fun _ => ⟨⟨0, 0, 0, 0⟩, 0⟩) [] = some d₁ ∧ ¬d₁.Linked) ∧
      ∃ b, d'.call (.request .deleteBlind (query [("id", "1")]) default) =
          some (.removeBlind 1 b) ∧
        boot ((((Call.removeBlind 1 b).flashCalls d').take 4).foldl FlashCall.run d'.config)
          false (fun _ => ⟨⟨0, 0, 0, 0⟩, 0⟩) [] = none := by
  have hany : (freshDevice oneSector false fun _ => ⟨⟨0, 0, 0, 0⟩, 0⟩).any (fun d₀ =>
      (boot ((((Call.addBlind (ascii "salon") 10 10).flashCalls d₀).take 5).foldl
          FlashCall.run d₀.config) false (fun _ => ⟨⟨0, 0, 0, 0⟩, 0⟩) []).any (fun d₁ =>
        (d₁.blinds[(1 : UInt32)]?).any fun b => (d₁.heap b.remote).associatedBlinds == []) &&
      (d₀.step addSalon).any fun d => (d.step .saveRemotes).any fun d' => !d'.config.lost &&
        (d'.blinds[(1 : UInt32)]?).any fun b =>
          (boot ((((Call.removeBlind 1 b).flashCalls d').take 4).foldl FlashCall.run d'.config)
            false (fun _ => ⟨⟨0, 0, 0, 0⟩, 0⟩) []).isNone) = true := by
    decide +kernel
  obtain ⟨d₀, hd₀, hrest⟩ := (Option.any_eq_true _ _).mp hany
  obtain ⟨hadded, hrest⟩ := Bool.and_eq_true_iff.mp hrest
  obtain ⟨d₁, hboot, hblind⟩ := (Option.any_eq_true _ _).mp hadded
  obtain ⟨b₁, hb₁, hempty⟩ := (Option.any_eq_true _ _).mp hblind
  obtain ⟨d, hd, hrest⟩ := (Option.any_eq_true _ _).mp hrest
  obtain ⟨d', hd', hrest⟩ := (Option.any_eq_true _ _).mp hrest
  obtain ⟨hlost, hrest⟩ := Bool.and_eq_true_iff.mp hrest
  obtain ⟨b, hb, hfails⟩ := (Option.any_eq_true _ _).mp hrest
  refine ⟨d₀, d, d', hd₀, hd, hd', by simpa using hlost, ⟨d₁, hboot, fun h => ?_⟩, b, ?_,
    Option.isNone_iff_eq_none.mp hfails⟩
  · have hmem := (h.primary 1 b₁ hb₁).2
    rw [beq_iff_eq.mp hempty] at hmem
    cases hmem
  · have hid : query [("id", "1")] "id" = some (ascii "1") := by decide +kernel
    have hread : (Scan.d (ascii "1")).read (default : Locals).id.toInt32 = some 1 := by
      decide +kernel
    have hdo : d'.doDeleteBlind (query [("id", "1")]) default =
        Call.accept (.removeBlind 1 b) := by
      simp only [doDeleteBlind, hid, Option.bind_some, hread]
      rw [show (1 : Int32).toUInt32 = 1 from rfl, hb]
    exact congrArg (Option.map Prod.fst) hdo

end Device

end PicoSomfy
