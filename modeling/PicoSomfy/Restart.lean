import PicoSomfy.Loading

/-!
# A graceful restart

Before the restart every remote that changed and every blind is stored. A device
that saved everything starts again with the same remotes and blinds, as far as
their records hold them, and keeps the invariant.
-/
namespace PicoSomfy

open SortedMap DeviceConfig CStrings

namespace Device

variable {d d' : Device}

/-- The record of a blind is the one `SaveConfig` would write. -/
def BlindRecorded (d : Device) (b : Blind) : Prop :=
  ∃ c, b.toConfig (d.heap b.remote).remoteId = some c ∧
    d.config.getBlindConfig b.blindId = some c

/-- Nothing in memory is newer than what is stored. -/
structure Durable (d : Device) : Prop where
  inv : d.Inv
  remote : ∀ {id : UInt32} {p : ℕ}, d.remotes[id]? = some p → Recorded d.config id (d.heap p)
  blind : ∀ {k : UInt32} {b : Blind}, d.blinds[k]? = some b → d.BlindRecorded b

/-- The loop of `SaveBlindState` with the keys it has still to visit. -/
structure SavingBlinds (rest : List UInt32) (e : Device) : Prop where
  inv : e.Inv
  remote : ∀ {id : UInt32} {p : ℕ}, e.remotes[id]? = some p → Recorded e.config id (e.heap p)
  blind : e.config.lost = false → ∀ {k : UInt32} {b : Blind}, e.blinds[k]? = some b → k ∉ rest →
    e.BlindRecorded b

theorem SavingBlinds.turn {k : UInt32} {rest : List UInt32} {e e' : Device}
    (h : SavingBlinds (k :: rest) e) (hsave : e.saveBlindAt true k = some e') :
    SavingBlinds rest e' := by
  have hinv' : e'.Inv :=
    ⟨(saves_saveBlindAt hsave).registry h.inv.registry, h.inv.stored.saveBlindAt hsave⟩
  have hlasting := lasting_saveBlindAt hsave
  obtain ⟨b, hb, ⟨-, -, hf⟩ | ⟨c, hc, rfl⟩⟩ := saveBlindAt_cases hsave
  · cases hf
  have hhealthy := h.inv.stored.clean.healthy
  have honly := hhealthy.onlyAt_saveBlindConfig b.blindId c
  refine ⟨hinv', fun {id p} hp => (h.remote hp).congr (getRemoteConfig_congr (honly.other ?_)),
    fun hl {i b'} hi hr => ?_⟩
  · exact fun hk => remote_key_ne (r := .blind b.blindId) nofun hk.symm
  change (e.blinds.modify k _)[i]? = some b' at hi
  rw [get_modify] at hi
  split_ifs at hi with hik
  · subst hik
    rw [hb, Option.map_some, Option.some.injEq] at hi
    subst hi
    exact ⟨c, hc, hhealthy.getBlindConfig_save b.blindId c hl⟩
  · have hold := h.blind (hlasting hl) hi fun hcons => by
      rcases List.mem_cons.mp hcons with rfl | hrest
      · exact hik rfl
      · exact hr hrest
    obtain ⟨c', hc', hread⟩ := hold
    refine ⟨c', hc', ?_⟩
    have hne : b'.blindId ≠ b.blindId := fun heq => hik (by
      rw [← (h.inv.registry.blind hb).1, ← (h.inv.registry.blind hi).1, heq])
    have hother := honly.other (s := .blind b'.blindId) (blind_key_ne (by simpa using hne))
    exact (congrArg (Option.map BlindConfig.decode) hother).trans hread

theorem saveAll_durable (h : d.config.lost = false → d.Inv) (hd : d.saveAll = some d')
    (hlost : d'.config.lost = false) : d'.Durable ∧ d.Saves d' := by
  obtain ⟨d₁, h₁, h₂⟩ := Option.bind_eq_some_iff.mp hd
  have hlost₁ : d₁.config.lost = false :=
    Transitions.foldlM_keeps (f := fun (d : Device) k => d.saveBlindAt true k) (R := Lasting)
      .refl .trans lasting_saveBlindAt h₂ hlost
  obtain ⟨hinv₁, hclean⟩ := Inv.saveRemoteState h h₁ hlost₁
  have hstart : SavingBlinds d₁.blinds.keys d₁ :=
    ⟨hinv₁, fun hp => hinv₁.stored.clean.recorded hp (hclean hp), fun _ {k b} hb hr =>
      absurd (Std.ExtTreeMap.mem_keys.mpr (mem_iff.mpr ⟨b, hb⟩)) hr⟩
  have hend := Transitions.foldlM_invariant (f := fun (d : Device) k => d.saveBlindAt true k)
    SavingBlinds SavingBlinds.turn hstart h₂
  exact ⟨⟨hend.inv, hend.remote, fun hb => hend.blind hlost hb List.not_mem_nil⟩,
    (saves_saveRemoteState h₁).trans (saves_saveBlindState h₂)⟩

end Device

/-- A remote as its record brings it back. -/
def SomfyRemote.reloaded (mqttEnabled : Bool) (r : SomfyRemote) : SomfyRemote :=
  .create mqttEnabled (cText r.remoteName) r.remoteId r.rollingCode (r.associatedBlinds.take 32)
    r.isExternal

/-- A blind as its record brings it back, with the pointer to its remote. -/
def Blind.reloaded (mqttEnabled : Bool) (b : Blind) (remote : ℕ) : Blind :=
  .create mqttEnabled 0 b.blindId (cText b.name) b.targetPosition b.favouritePosition b.openTime
    b.closeTime remote

theorem SomfyRemote.create_fields (mqttEnabled : Bool) (name : List UInt8) (id : UInt32)
    (code : UInt16) (blinds : List UInt16) (isExternal : Bool) :
    create mqttEnabled name id code blinds isExternal =
      { create mqttEnabled name id code blinds isExternal with
        remoteName := name
        remoteId := id
        rollingCode := code
        associatedBlinds := blinds
        isDirty := false
        isExternal := isExternal } := by
  simp only [create, triggerPublishDiscovery]
  split_ifs <;> rfl

namespace Device

variable {d d' : Device}

/-- `GetRemoteConfig` never reads the record of these ids. -/
def Reserved (id : UInt32) : Prop := id = 0xFFFFFFFF ∨ id = 0

instance (id : UInt32) : Decidable (Reserved id) := by
  unfold Reserved
  infer_instance

/-- The same remotes and blinds, as far as records hold them. -/
structure Restored (mqttEnabled : Bool) (d d' : Device) : Prop where
  remote : ∀ a, d'.remote? a =
    if Reserved a then none else (d.remote? a).map (·.reloaded mqttEnabled)
  blind : ∀ k : UInt32, d'.blinds[k]? = (d.blinds[k]?).bind fun b =>
    (d'.remotes[(d.heap b.remote).remoteId]?).map (b.reloaded mqttEnabled)

theorem toConfig_eq {r : SomfyRemote} {c : RemoteConfig} (h : r.toConfig = some c) :
    c.remoteName.chars = cText r.remoteName ∧ c.remoteId = r.remoteId ∧
      c.rollingCode = r.rollingCode ∧ c.blinds = r.associatedBlinds.take 32 := by
  obtain ⟨name, hname, rfl⟩ := Option.map_eq_some_iff.mp h
  exact ⟨strcpy_eq_some.mp hname, rfl, rfl, rfl⟩

theorem blind_toConfig_eq {b : Blind} {id : UInt32} {c : BlindConfig}
    (h : b.toConfig id = some c) :
    c.blindName.chars = cText b.name ∧ c.currentPosition = b.targetPosition ∧
      c.myPosition = b.favouritePosition ∧ c.openTime = b.openTime ∧
      c.closeTime = b.closeTime ∧ c.remoteId = id := by
  obtain ⟨name, hname, rfl⟩ := Option.map_eq_some_iff.mp h
  exact ⟨strcpy_eq_some.mp hname, rfl, rfl, rfl, rfl, rfl⟩

theorem cText_cText (bytes : List UInt8) : cText (cText bytes) = cText bytes :=
  cText_eq_self (zero_not_mem_cText bytes)

/-- The record of a remote that was loaded is the record it was loaded from. -/
theorem toConfig_reloaded {r : SomfyRemote} {c : RemoteConfig} (h : r.toConfig = some c)
    (mqttEnabled : Bool) : (r.reloaded mqttEnabled).toConfig = some c := by
  obtain ⟨name, hname, rfl⟩ := Option.map_eq_some_iff.mp h
  have hcopy : strcpy 48 (cText r.remoteName) = some name :=
    strcpy_eq_some.mpr (by rw [cText_cText, strcpy_eq_some.mp hname])
  rw [SomfyRemote.reloaded, SomfyRemote.create_fields, SomfyRemote.toConfig]
  simp only [hcopy, Option.map_some, List.take_take, min_self]

theorem blank_below (config : DeviceConfig) (mqttEnabled : Bool) (slots : ℕ → RecvCommand)
    (history : List Happening) : (blank config mqttEnabled slots history).Below := fun hp => by
  simp [blank] at hp

/-- The ids of created remotes have records that are read. -/
theorem created_readable {id : UInt32} (h : 0x270000 < id.toNat ∧ id.toNat < 0x280000) :
    ¬Reserved id := by
  obtain ⟨hlo, hhi⟩ := h
  rintro (rfl | rfl)
  · exact absurd hhi (by decide)
  · exact absurd hlo (by decide)

theorem Registry.created_range (h : d.Registry) {id : UInt32} {p : ℕ}
    (hp : d.remotes[id]? = some p) (he : (d.heap p).isExternal = false) :
    0x270000 < id.toNat ∧ id.toNat < 0x280000 :=
  ⟨(h.internal hp he).1, (h.internal hp he).2.trans_le h.nextRemote.2⟩

/-- The id of a primary remote has a record that is read. -/
theorem Registry.primary_readable (h : d.Registry) {k : UInt32} {b : Blind}
    (hb : d.blinds[k]? = some b) : ¬Reserved (d.heap b.remote).remoteId :=
  created_readable (h.created_range (h.primary hb).1 (h.primary hb).2)

/-- The created remotes are those the stored halves stand for. -/
theorem mem_fullIds (h : d.Inv) (a : UInt32) : a ∈ d.config.getRemoteIds.map fullId ↔
    ∃ p, d.remotes[a]? = some p ∧ (d.heap p).isExternal = false := by
  have hfull : ∀ {id : UInt32} {p : ℕ}, d.remotes[id]? = some p →
      (d.heap p).isExternal = false → fullId id.toUInt16 = id := fun hp he =>
    fullId_toUInt16 (h.registry.created_range hp he)
  obtain ⟨ids, hs, hmem⟩ := h.stored.remotes.internal
  have hget : d.config.getRemoteIds = ids := getRemoteIds_of_stored hs
  rw [hget, List.mem_map]
  constructor
  · rintro ⟨low, hlow, rfl⟩
    obtain ⟨id, p, hp, he, rfl⟩ := (hmem low).mp hlow
    exact ⟨p, by rwa [hfull hp he], he⟩
  · rintro ⟨p, hp, he⟩
    exact ⟨a.toUInt16, (hmem _).mpr ⟨a, p, hp, he, rfl⟩, hfull hp he⟩

theorem mem_externalList (h : d.Inv) {a : UInt32} (ha : ¬Reserved a) :
    a ∈ d.config.getExternalRemoteIds ↔
      ∃ p, d.remotes[a]? = some p ∧ (d.heap p).isExternal = true := by
  obtain ⟨ids, hs, hmem⟩ := h.stored.remotes.external
  have hget : d.config.getExternalRemoteIds = ids := getExternalRemoteIds_of_stored hs
  rw [hget]
  exact hmem a (fun h₀ => ha (.inr h₀)) fun h₁ => ha (.inl h₁)

theorem mem_blindList (h : d.Inv) (k : UInt16) :
    k ∈ d.config.getBlindIds ↔ k.toUInt32 ∈ d.blinds := by
  obtain ⟨ids, hs, hmem⟩ := h.stored.blinds
  have hget : d.config.getBlindIds = ids := getBlindIds_of_stored hs
  rw [hget, hmem]

section Boot

variable (mqttEnabled : Bool) (slots : ℕ → RecvCommand) (history : List Happening)

theorem reload_recorded (h : d.Durable) {a : UInt32} {p : ℕ} (ha : ¬Reserved a)
    (hp : d.remotes[a]? = some p) :
    (blank d.config mqttEnabled slots history).reload (d.heap p).isExternal a =
      some ((d.heap p).reloaded mqttEnabled) := by
  obtain ⟨c, hc, hread⟩ := h.remote hp (fun h₀ => ha (.inr h₀)) fun h₁ => ha (.inl h₁)
  obtain ⟨hname, -, hcode, hblinds⟩ := toConfig_eq hc
  have hid := (h.inv.registry.registered hp).2
  rw [reload]
  change (d.config.getRemoteConfig a).map _ = _
  rw [hread, Option.map_some, hname, hcode, hblinds, SomfyRemote.reloaded, hid]
  rfl

/-- The remotes loaded from the records of a device that saved everything. -/
theorem remote?_reloaded (h : d.Durable) (a : UInt32) :
    (blank d.config mqttEnabled slots history).loadRemotes.remote? a =
      if Reserved a then none else (d.remote? a).map (·.reloaded mqttEnabled) := by
  have hblank : (blank d.config mqttEnabled slots history).remote? a = none := by
    simp [remote?, blank]
  rw [remote?_loadRemotes (blank_below _ _ _ _), hblank, Option.none_or]
  by_cases ha : Reserved a
  · have hnone : ∀ ext, (blank d.config mqttEnabled slots history).reload ext a = none := by
      intro ext
      rw [reload]
      change (d.config.getRemoteConfig a).map _ = _
      rw [getRemoteConfig_reserved _ ha, Option.map_none]
    simp [hnone, ha]
  rw [if_neg ha]
  have hint := mem_fullIds h.inv a
  have hext := mem_externalList h.inv ha
  change Option.or (if a ∈ d.config.getRemoteIds.map fullId then _ else none)
    (if a ∈ d.config.getExternalRemoteIds then _ else none) = _
  rw [remote?]
  cases hp : d.remotes[a]? with
  | none =>
      simp only [hp, reduceCtorEq, false_and, exists_false, iff_false] at hint hext
      simp only [if_neg hint, if_neg hext, Option.or_none, Option.map_none]
  | some p =>
      have hreload := reload_recorded mqttEnabled slots history h ha hp
      simp only [hp, Option.some.injEq, exists_eq_left'] at hint hext
      cases he : (d.heap p).isExternal with
      | false =>
          rw [he] at hreload
          rw [if_pos (hint.mpr he), hreload, Option.some_or]
          rfl
      | true =>
          rw [he] at hreload
          rw [if_neg (by rw [hint, he]; decide), if_pos (hext.mpr he), hreload, Option.none_or]
          rfl

/-- Every blind finds its record and its primary remote. -/
theorem reloadBlind_recorded (h : d.Durable) {k : UInt32} {b : Blind}
    (hb : d.blinds[k]? = some b) :
    ∃ p, (blank d.config mqttEnabled slots history).loadRemotes.remotes[
        (d.heap b.remote).remoteId]? = some p ∧
      (blank d.config mqttEnabled slots history).loadRemotes.reloadBlind b.blindId =
        some (b.reloaded mqttEnabled p) := by
  have hloads := loads_loadRemotes (blank d.config mqttEnabled slots history)
  have hremote := remote?_reloaded mqttEnabled slots history h (d.heap b.remote).remoteId
  rw [if_neg (h.inv.registry.primary_readable hb), remote?, remote?,
    (h.inv.registry.primary hb).1, Option.map_some, Option.map_some] at hremote
  obtain ⟨p, hp, -⟩ := Option.map_eq_some_iff.mp hremote
  obtain ⟨c, hc, hread⟩ := h.blind hb
  obtain ⟨hname, hpos, hmy, hopen, hclose, hid⟩ := blind_toConfig_eq hc
  refine ⟨p, hp, ?_⟩
  rw [reloadBlind, hloads.config, hloads.mqttEnabled, hloads.clock]
  change (d.config.getBlindConfig b.blindId).bind _ = _
  rw [hread, Option.bind_some, hid, hp, Option.map_some, hname, hpos, hmy, hopen, hclose]
  rfl

/-- A device that saved everything starts again with all its remotes and blinds. -/
theorem boot_restored (h : d.Durable) :
    ∃ d', boot d.config mqttEnabled slots history = some d' ∧
      LoadsBlinds (blank d.config mqttEnabled slots history).loadRemotes d' ∧
      Restored mqttEnabled d d' ∧ d'.nextBlindId.toNat ≤ 65536 ∧
      ∀ {k : UInt32} {b : Blind}, d.blinds[k]? = some b → k.toNat < d'.nextBlindId.toNat := by
  have hloads := loads_loadRemotes (blank d.config mqttEnabled slots history)
  have hkey : ∀ {k : UInt32} {b : Blind}, d.blinds[k]? = some b → b.blindId = k.toUInt16 :=
    fun hb => by rw [← (h.inv.registry.blind hb).1, UInt16.toUInt16_toUInt32]
  have hall : ∀ k ∈ d.config.getBlindIds, ∃ b,
      (blank d.config mqttEnabled slots history).loadRemotes.reloadBlind k = some b := fun k hk => by
    obtain ⟨b, hb⟩ := mem_iff.mp ((mem_blindList h.inv k).mp hk)
    obtain ⟨p, -, hr⟩ := reloadBlind_recorded mqttEnabled slots history h hb
    exact ⟨_, by rwa [hkey hb, UInt16.toUInt16_toUInt32] at hr⟩
  obtain ⟨d', hd', hsame, hblinds, hmax, -, hlt⟩ := loadBlinds_eq d.config.getBlindIds hall
    (by rw [hloads.nextBlindId]; exact (by decide : (1 : UInt32).toNat ≤ 65536))
  have hboot : boot d.config mqttEnabled slots history = some d' := by
    unfold boot initializeBlinds
    rw [hloads.config]
    change (d.config.getBlindIds.foldlM loadBlind _).bind _ = _
    rw [hd']
    rfl
  have hremotes : d'.remotes = (blank d.config mqttEnabled slots history).loadRemotes.remotes := by
    rw [hsame]
  have hheap : d'.heap = (blank d.config mqttEnabled slots history).loadRemotes.heap := by
    rw [hsame]
  refine ⟨d', hboot, hsame, ⟨fun a => ?_, fun k => ?_⟩, hmax, fun {k b} hb => ?_⟩
  · rw [remote?, hremotes, hheap]
    exact remote?_reloaded mqttEnabled slots history h a
  · have hempty : (blank d.config mqttEnabled slots history).loadRemotes.blinds[k]? = none := by
      rw [hloads.blinds]
      simp [blank]
    rw [hblinds, hempty, Option.none_or]
    cases hb : d.blinds[k]? with
    | none =>
        refine if_neg fun hmem => ?_
        obtain ⟨low, hlow, rfl⟩ := List.mem_map.mp hmem
        obtain ⟨b, hb'⟩ := mem_iff.mp ((mem_blindList h.inv low).mp hlow)
        rw [hb] at hb'
        cases hb'
    | some b =>
        obtain ⟨p, hp, hr⟩ := reloadBlind_recorded mqttEnabled slots history h hb
        have hsmall := h.inv.registry.blind_small (mem_iff.mpr ⟨b, hb⟩)
        rw [hkey hb] at hr
        rw [if_pos (List.mem_map.mpr ⟨k.toUInt16, (mem_blindList h.inv _).mpr (by
          rw [toUInt32_toUInt16 hsmall]; exact mem_iff.mpr ⟨b, hb⟩), toUInt32_toUInt16 hsmall⟩),
          hr, Option.bind_some, hremotes, hp, Option.map_some]
  · have hsmall := h.inv.registry.blind_small (mem_iff.mpr ⟨b, hb⟩)
    have hk := hlt k.toUInt16 ((mem_blindList h.inv _).mpr (by
      rw [toUInt32_toUInt16 hsmall]; exact mem_iff.mpr ⟨b, hb⟩))
    rw [UInt32.toNat_toUInt16] at hk
    omega

/-- A registered remote of the new device is one of the old, under the same id. -/
theorem Restored.old_remote {d d' : Device} (h : Restored mqttEnabled d d') {a : UInt32} {p : ℕ}
    (hp : d'.remotes[a]? = some p) : ¬Reserved a ∧ ∃ q, d.remotes[a]? = some q ∧
      d'.heap p = (d.heap q).reloaded mqttEnabled := by
  have ha := h.remote a
  rw [remote?, hp, Option.map_some] at ha
  split_ifs at ha with hres
  obtain ⟨r, hr, heq⟩ := Option.map_eq_some_iff.mp ha.symm
  obtain ⟨q, hq, rfl⟩ := Option.map_eq_some_iff.mp hr
  exact ⟨hres, q, hq, heq.symm⟩

/-- A remote with a readable id is registered again. -/
theorem Restored.new_remote {d d' : Device} (h : Restored mqttEnabled d d') {a : UInt32} {q : ℕ}
    (ha : ¬Reserved a) (hq : d.remotes[a]? = some q) :
    ∃ p, d'.remotes[a]? = some p ∧ d'.heap p = (d.heap q).reloaded mqttEnabled := by
  have hview := h.remote a
  rw [if_neg ha, remote?, remote?, hq, Option.map_some, Option.map_some] at hview
  exact Option.map_eq_some_iff.mp hview

theorem reloaded_fields (r : SomfyRemote) : (r.reloaded mqttEnabled).remoteId = r.remoteId ∧
    (r.reloaded mqttEnabled).isExternal = r.isExternal ∧
      (r.reloaded mqttEnabled).isDirty = false ∧
      (r.reloaded mqttEnabled).rollingCode = r.rollingCode ∧
      (r.reloaded mqttEnabled).associatedBlinds = r.associatedBlinds.take 32 ∧
      (r.reloaded mqttEnabled).remoteName = cText r.remoteName := by
  rw [SomfyRemote.reloaded, SomfyRemote.create_fields]
  exact ⟨rfl, rfl, rfl, rfl, rfl, rfl⟩

/-- A blind of the new device is one of the old, with its primary remote. -/
theorem Restored.old_blind {d d' : Device} (h : Restored mqttEnabled d d') {k : UInt32}
    {b' : Blind} (hb' : d'.blinds[k]? = some b') :
    ∃ b p, d.blinds[k]? = some b ∧ d'.remotes[(d.heap b.remote).remoteId]? = some p ∧
      b' = b.reloaded mqttEnabled p := by
  rw [h.blind] at hb'
  obtain ⟨b, hb, hb'⟩ := Option.bind_eq_some_iff.mp hb'
  obtain ⟨p, hp, rfl⟩ := Option.map_eq_some_iff.mp hb'
  exact ⟨b, p, hb, hp, rfl⟩

theorem Restored.new_blind {d d' : Device} (h : Restored mqttEnabled d d') (hr : d.Registry)
    {k : UInt32} {b : Blind} (hb : d.blinds[k]? = some b) :
    ∃ p, d'.remotes[(d.heap b.remote).remoteId]? = some p ∧
      d'.heap p = (d.heap b.remote).reloaded mqttEnabled ∧
      d'.blinds[k]? = some (b.reloaded mqttEnabled p) := by
  obtain ⟨p, hp, hheap⟩ := h.new_remote mqttEnabled (hr.primary_readable hb) (hr.primary hb).1
  exact ⟨p, hp, hheap, by rw [h.blind, hb, Option.bind_some, hp, Option.map_some]⟩

theorem Restored.registry {d d' : Device} (h : Restored mqttEnabled d d') (hr : d.Registry)
    (hbelow : d'.Below)
    (hrange : 0x270000 < d'.nextRemoteId.toNat ∧ d'.nextRemoteId.toNat ≤ 0x280000)
    (hnext : ∀ {id : UInt32} {p : ℕ}, d.remotes[id]? = some p → (d.heap p).isExternal = false →
      id.toNat < d'.nextRemoteId.toNat)
    (hmax : d'.nextBlindId.toNat ≤ 65536)
    (hlt : ∀ {k : UInt32} {b : Blind}, d.blinds[k]? = some b →
      k.toNat < d'.nextBlindId.toNat) : d'.Registry where
  registered {id p} hp := by
    obtain ⟨-, q, hq, hheap⟩ := h.old_remote mqttEnabled hp
    rw [hheap, (reloaded_fields mqttEnabled _).1]
    exact ⟨hbelow hp, (hr.registered hq).2⟩
  internal {id p} hp he := by
    obtain ⟨-, q, hq, hheap⟩ := h.old_remote mqttEnabled hp
    rw [hheap, (reloaded_fields mqttEnabled _).2.1] at he
    exact ⟨(hr.internal hq he).1, hnext hq he⟩
  nextRemote := hrange
  lowHalves {a b} ha hb hlow := by
    obtain ⟨p, hp⟩ := mem_iff.mp ha
    obtain ⟨q, hq⟩ := mem_iff.mp hb
    obtain ⟨-, p', hp', -⟩ := h.old_remote mqttEnabled hp
    obtain ⟨-, q', hq', -⟩ := h.old_remote mqttEnabled hq
    exact hr.lowHalves (mem_iff.mpr ⟨p', hp'⟩) (mem_iff.mpr ⟨q', hq'⟩) hlow
  blind {k b'} hb' := by
    obtain ⟨b, p, hb, -, rfl⟩ := h.old_blind mqttEnabled hb'
    exact ⟨(hr.blind hb).1, hlt hb⟩
  nextBlind := hmax
  primary {k b'} hb' := by
    obtain ⟨b, p, hb, hp, rfl⟩ := h.old_blind mqttEnabled hb'
    obtain ⟨q, hq, hheap, -⟩ := h.new_blind mqttEnabled hr hb
    obtain rfl : p = q := Option.some.inj (hp.symm.trans hq)
    change d'.remotes[(d'.heap p).remoteId]? = some p ∧ (d'.heap p).isExternal = false
    rw [hheap, (reloaded_fields mqttEnabled _).1, (reloaded_fields mqttEnabled _).2.1]
    exact ⟨hp, (hr.primary hb).2⟩
  distinct {k k' b₁ b₂} h₁ h₂ heq := by
    obtain ⟨c₁, p₁, hc₁, hp₁, rfl⟩ := h.old_blind mqttEnabled h₁
    obtain ⟨c₂, p₂, hc₂, hp₂, rfl⟩ := h.old_blind mqttEnabled h₂
    obtain rfl : p₁ = p₂ := heq
    -- one new pointer stands for one id, and that for one old pointer
    obtain ⟨-, q₁, hq₁, hheap₁⟩ := h.old_remote mqttEnabled hp₁
    obtain ⟨-, q₂, hq₂, hheap₂⟩ := h.old_remote mqttEnabled hp₂
    have hid : (d.heap q₁).remoteId = (d.heap q₂).remoteId := by
      rw [← (reloaded_fields mqttEnabled (d.heap q₁)).1, ← hheap₁, hheap₂,
        (reloaded_fields mqttEnabled (d.heap q₂)).1]
    rw [(hr.registered hq₁).2, (hr.registered hq₂).2] at hid
    have h₁' := (hr.primary hc₁).1
    have h₂' := (hr.primary hc₂).1
    rw [← hid, h₁'] at h₂'
    exact hr.distinct hc₁ hc₂ (Option.some.inj h₂')

theorem Restored.stored {d d' : Device} (h : Restored mqttEnabled d d') (hd : d.Durable)
    (hconfig : d'.config = d.config) : d'.Stored := by
  have hr := hd.inv.registry
  refine ⟨⟨hconfig ▸ hd.inv.stored.clean.healthy, fun {id p} hp _ => ?_⟩, ⟨?_, ?_⟩, ?_⟩
  · obtain ⟨-, q, hq, hheap⟩ := h.old_remote mqttEnabled hp
    intro h₀ h₁
    obtain ⟨c, hc, hread⟩ := hd.remote hq h₀ h₁
    exact ⟨c, by rw [hheap]; exact toConfig_reloaded hc mqttEnabled, hconfig ▸ hread⟩
  · obtain ⟨ids, hs, hmem⟩ := hd.inv.stored.remotes.internal
    refine ⟨ids, hconfig ▸ hs, fun low => (hmem low).trans ⟨?_, ?_⟩⟩
    · rintro ⟨id, q, hq, he, rfl⟩
      obtain ⟨p, hp, hheap⟩ :=
        h.new_remote mqttEnabled (created_readable (hr.created_range hq he)) hq
      exact ⟨id, p, hp, by rw [hheap, (reloaded_fields mqttEnabled _).2.1, he], rfl⟩
    · rintro ⟨id, p, hp, he, rfl⟩
      obtain ⟨-, q, hq, hheap⟩ := h.old_remote mqttEnabled hp
      rw [hheap, (reloaded_fields mqttEnabled _).2.1] at he
      exact ⟨id, q, hq, he, rfl⟩
  · obtain ⟨ids, hs, hmem⟩ := hd.inv.stored.remotes.external
    refine ⟨ids, hconfig ▸ hs, fun id h₀ h₁ => (hmem id h₀ h₁).trans ⟨?_, ?_⟩⟩
    · rintro ⟨q, hq, he⟩
      obtain ⟨p, hp, hheap⟩ := h.new_remote mqttEnabled (by simp [Reserved, h₀, h₁]) hq
      exact ⟨p, hp, by rw [hheap, (reloaded_fields mqttEnabled _).2.1, he]⟩
    · rintro ⟨p, hp, he⟩
      obtain ⟨-, q, hq, hheap⟩ := h.old_remote mqttEnabled hp
      rw [hheap, (reloaded_fields mqttEnabled _).2.1] at he
      exact ⟨q, hq, he⟩
  · obtain ⟨ids, hs, hmem⟩ := hd.inv.stored.blinds
    refine ⟨ids, hconfig ▸ hs, fun k => (hmem k).trans ?_⟩
    rw [mem_iff, mem_iff]
    constructor
    · rintro ⟨b, hb⟩
      obtain ⟨p, -, -, hb'⟩ := h.new_blind mqttEnabled hr hb
      exact ⟨_, hb'⟩
    · rintro ⟨b', hb'⟩
      obtain ⟨b, p, hb, -⟩ := h.old_blind mqttEnabled hb'
      exact ⟨b, hb⟩

/-- The new device has the invariant. -/
theorem boot_inv (h : d.Durable) : ∃ d', boot d.config mqttEnabled slots history = some d' ∧
    Restored mqttEnabled d d' ∧ d'.config = d.config ∧ d'.history = history ∧ d'.Inv := by
  obtain ⟨d', hboot, hsame, hres, hmax, hlt⟩ := boot_restored mqttEnabled slots history h
  have hloads := loads_loadRemotes (blank d.config mqttEnabled slots history)
  have hreg := h.inv.registry
  have hconfig : d'.config = d.config := by
    rw [hsame]
    exact hloads.config
  have hbelow : d'.Below := by
    rw [hsame]
    exact hloads.below (blank_below _ _ _ _)
  obtain ⟨hle, hge, hids⟩ := loadInternals_nextRemoteId d.config.getRemoteIds
    (d := blank d.config mqttEnabled slots history)
    (by decide : (baseRemoteId + 1).toNat ≤ 0x280000)
  have hnext : d'.nextRemoteId = (d.config.getRemoteIds.foldl loadInternal
      (blank d.config mqttEnabled slots history)).nextRemoteId := by
    rw [hsame]
    exact loadExternals_nextRemoteId _ _
  rw [← hnext] at hle hge hids
  have hbase : 0x270000 < d'.nextRemoteId.toNat :=
    lt_of_lt_of_le (by decide : 0x270000 < (baseRemoteId + 1).toNat) hge
  refine ⟨d', hboot, hres, hconfig, by rw [hsame]; exact hloads.history,
    hres.registry mqttEnabled hreg hbelow ⟨hbase, hle⟩ (fun {id p} hp he => ?_) hmax hlt,
    hres.stored mqttEnabled h hconfig⟩
  obtain ⟨low, hlow, heq⟩ := List.mem_map.mp ((mem_fullIds h.inv id).mpr ⟨p, hp, he⟩)
  exact heq ▸ hids low hlow

end Boot

theorem lasting_saveAll (h : d.saveAll = some d') : d.Lasting d' := by
  obtain ⟨d₁, h₁, h₂⟩ := Option.bind_eq_some_iff.mp h
  have k₁ : d.Lasting d₁ := Transitions.foldlM_keeps
    (f := fun (d : Device) (entry : UInt32 × ℕ) => d.saveRemote entry.2 false) (R := Lasting)
    .refl .trans lasting_saveRemote h₁
  have k₂ : d₁.Lasting d' := Transitions.foldlM_keeps
    (f := fun (d : Device) k => d.saveBlindAt true k) (R := Lasting)
    .refl .trans lasting_saveBlindAt h₂
  exact k₁.trans k₂

theorem lasting_loadBlind {s t : Device × Bool} {k : UInt16} (h : loadBlind s k = some t) :
    s.1.Lasting t.1 := by
  obtain ⟨cfg, -, rfl⟩ := Option.map_eq_some_iff.mp h
  unfold raiseNextBlindId restoreBlind
  split_ifs <;> split <;> exact id

theorem lasting_boot {config : DeviceConfig} {mqttEnabled : Bool} {slots : ℕ → RecvCommand}
    {history : List Happening} (h : boot config mqttEnabled slots history = some d')
    (hlost : d'.config.lost = false) : config.lost = false := by
  obtain ⟨⟨d₁, errors⟩, h₁, h₂⟩ := Option.bind_eq_some_iff.mp h
  have hloop : ((blank config mqttEnabled slots history).loadRemotes).Lasting d₁ :=
    Transitions.foldlM_keeps (f := loadBlind) (R := fun s t => s.1.Lasting t.1)
      (fun s => .refl s.1) (fun hs ht => hs.trans ht) lasting_loadBlind h₁
  have hlost₁ : d₁.config.lost = false := by
    dsimp only at h₂
    split_ifs at h₂
    · exact lasting_saveBlindList h₂ hlost
    · exact Option.some.inj h₂ ▸ hlost
  have hstart := hloop hlost₁
  rwa [(loads_loadRemotes _).config] at hstart

theorem Saves.restored {d d₁ : Device} {mqttEnabled : Bool} (hs : d.Saves d₁)
    (h : Restored mqttEnabled d₁ d') : Restored mqttEnabled d d' where
  remote a := by
    have hview : (d₁.remote? a).map (·.reloaded mqttEnabled) =
        (d.remote? a).map (·.reloaded mqttEnabled) := by
      rw [remote?, remote?, hs.remotes, Option.map_map, Option.map_map]
      refine congrArg (fun f => Option.map f _) (funext fun p => ?_)
      simp only [Function.comp_apply]
      rw [hs.remote p]
      rfl
    rw [h.remote, hview]
  blind k := by
    rw [h.blind]
    have hk := hs.blind k
    revert hk
    generalize d.blinds[k]? = x
    generalize d₁.blinds[k]? = y
    rintro (hk | -)
    · rw [Option.bind_some, Option.bind_some, hk, hs.remoteId]
      rfl
    · rfl

theorem lasting_restart {mqttEnabled : Bool} {slots : ℕ → RecvCommand}
    (h : d.restart mqttEnabled slots = some d') : d.Lasting d' := fun hlost => by
  obtain ⟨d₁, h₁, h₂⟩ := Option.bind_eq_some_iff.mp h
  exact lasting_saveAll h₁ (lasting_boot h₂ hlost)

/-- A restart restores what was there, as far as records hold it. -/
theorem Inv.restart {mqttEnabled : Bool} {slots : ℕ → RecvCommand}
    (h : d.config.lost = false → d.Inv) (hd : d.restart mqttEnabled slots = some d')
    (hlost : d'.config.lost = false) :
    d'.Inv ∧ Restored mqttEnabled d d' ∧ d'.history = d.history := by
  obtain ⟨d₁, h₁, h₂⟩ := Option.bind_eq_some_iff.mp hd
  obtain ⟨hdurable, hsaves⟩ := saveAll_durable h h₁ (lasting_boot h₂ hlost)
  obtain ⟨d₂, hboot, hres, -, hhist, hinv⟩ := boot_inv mqttEnabled slots d₁.history hdurable
  obtain rfl : d' = d₂ := Option.some.inj (h₂.symm.trans hboot)
  exact ⟨hinv, hsaves.restored hres, hhist.trans hsaves.history⟩

end Device

end PicoSomfy
