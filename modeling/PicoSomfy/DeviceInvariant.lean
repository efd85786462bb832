import PicoSomfy.Registration

/-!
# The invariant of the device

`Inv` joins the registry in memory and what is stored of it. `Call.Valid` is what
the checks of the handlers promise of a call, and `Call.Regular` what they do not
check: that a new remote agrees with no other in the low half of its id, that the
counters stay inside their range and the lists inside their blocks.
-/
namespace PicoSomfy

open SortedMap DeviceConfig

structure Device.Inv (d : Device) : Prop where
  registry : d.Registry
  stored : d.Stored

/-- What a handler has checked before it makes the call. -/
def Call.Valid (d : Device) : Call → Prop
  | .press p _ _ | .rename p _ => d.Registered p
  | .associate p blindId | .disassociate p blindId =>
      d.Registered p ∧ blindId.toUInt32 ∈ d.blinds
  | .updateBlind k b _ _ _ | .removeBlind k b => d.blinds[k]? = some b
  | .importRemote _ id => id ∉ d.remotes
  | .deleteRemote id =>
      (∃ p, d.Registered p ∧ (d.heap p).remoteId = id) ∧ d.isAPrimaryRemote id = false
  | _ => True

/-- The lists of remotes fit into their blocks. -/
def Device.FewRemotes (d : Device) : Prop :=
  d.internalIds.length ≤ 124 ∧ d.externalIds.length ≤ 62

/-- There is an unused id for a remote, and room in the list. -/
def Device.MayCreate (d : Device) : Prop :=
  d.FreshHalf d.nextRemoteId ∧ d.nextRemoteId.toNat < 0x280000 ∧
    d.internalIds.length < 124 ∧ d.externalIds.length ≤ 62

/-- Names that two remotes cannot share, counters and lists that do not overflow. -/
def Call.Regular (d : Device) : Call → Prop
  | .addBlind _ _ _ => d.MayCreate ∧ d.nextBlindId.toNat < 65536 ∧ d.blinds.size < 124
  | .createRemote _ => d.MayCreate
  | .importRemote _ id =>
      d.FreshHalf id ∧ d.internalIds.length ≤ 124 ∧ d.externalIds.length < 62
  | .deleteRemote _ => d.FewRemotes
  | .removeBlind _ _ => d.FewRemotes ∧ d.blinds.size ≤ 124
  | _ => True

namespace Device

variable {d d' : Device}

theorem mem_of_registered {p : ℕ} (h : d.Registry) (hp : d.Registered p) :
    (d.heap p).remoteId ∈ d.remotes := by
  obtain ⟨id, hid⟩ := hp
  rw [(h.registered hid).2]
  exact mem_iff.mpr ⟨p, hid⟩

theorem isAPrimaryRemote_false {id : UInt32} (h : d.isAPrimaryRemote id = false) {k : UInt32}
    {b : Blind} (hb : d.blinds[k]? = some b) : (d.heap b.remote).remoteId ≠ id := by
  unfold isAPrimaryRemote at h
  rw [List.any_eq_false] at h
  simpa using h (k, b) (mem_toList.mpr hb)

section Handlers

variable {params : CgiParams} {locals : Locals} {c : Call} {answer : Bool}

theorem getRemoteParam_registered {p : ℕ} (h : d.getRemoteParam params locals = some p) :
    d.Registered p := by
  obtain ⟨idParam, -, h⟩ := Option.bind_eq_some_iff.mp h
  obtain ⟨id, -, h⟩ := Option.bind_eq_some_iff.mp h
  exact ⟨id, h⟩

theorem refuse_valid (h : Call.refuse = some (c, answer)) : c.Valid d := by
  cases h
  trivial

theorem onCommand_valid (k : UInt32) (payload : List UInt8) : (onCommand k payload).Valid d := by
  unfold onCommand
  split_ifs <;> trivial

theorem onSetPosition_valid (k : UInt32) (payload : List UInt8) (overflow : Int32) :
    (onSetPosition k payload overflow).Valid d := by
  unfold onSetPosition
  split_ifs <;> trivial

theorem remoteOnCommand_valid {p : ℕ} (hp : d.Registered p) (payload : List UInt8) :
    (remoteOnCommand p payload).Valid d := by
  unfold remoteOnCommand
  split_ifs
  · exact hp
  · exact hp
  · exact hp
  · trivial

theorem doAddBlind_valid (h : doAddBlind params locals = some (c, answer)) : c.Valid d := by
  unfold doAddBlind at h
  split at h
  · split at h
    · cases h
      trivial
    · exact refuse_valid h
  · exact refuse_valid h

theorem doUpdateBlind_valid (h : d.doUpdateBlind params locals = some (c, answer)) :
    c.Valid d := by
  unfold doUpdateBlind at h
  split at h
  · split at h
    · split at h
      case h_1 b hb =>
        cases h
        exact hb
      · exact refuse_valid h
    · exact refuse_valid h
  · exact refuse_valid h

theorem doDeleteBlind_valid (h : d.doDeleteBlind params locals = some (c, answer)) :
    c.Valid d := by
  obtain ⟨idParam, -, h⟩ := Option.bind_eq_some_iff.mp h
  split at h
  · exact refuse_valid h
  · split at h
    · exact refuse_valid h
    case h_2 b hb =>
      cases h
      exact hb

theorem doBlindCommand_valid
    (h : d.doBlindCommand params locals = some (c, answer)) : c.Valid d := by
  unfold doBlindCommand at h
  split at h
  · split at h
    · exact refuse_valid h
    · split_ifs at h
      · cases h
        exact onCommand_valid _ _
      · cases h
        exact onSetPosition_valid _ _ _
      · cases h
        trivial
      · exact refuse_valid h
  · exact refuse_valid h

theorem doAddRemote_valid (h : doAddRemote params = some (c, answer)) : c.Valid d := by
  unfold doAddRemote at h
  split at h
  · exact refuse_valid h
  · cases h
    trivial

theorem doImportRemote_valid (h : d.doImportRemote params locals = some (c, answer)) :
    c.Valid d := by
  unfold doImportRemote at h
  split at h
  · split at h
    · exact refuse_valid h
    · split_ifs at h with hid
      · exact refuse_valid h
      · cases h
        exact hid
  · exact refuse_valid h

theorem doUpdateRemote_valid
    (h : doUpdateRemote (d.getRemoteParam params locals) params = some (c, answer)) :
    c.Valid d := by
  unfold doUpdateRemote at h
  split at h
  case h_1 p name hp _ =>
    cases h
    exact getRemoteParam_registered hp
  · exact refuse_valid h

theorem doDeleteRemote_valid
    (h : d.doDeleteRemote (d.getRemoteParam params locals) = some (c, answer)) : c.Valid d := by
  obtain ⟨p, hp, h⟩ := Option.bind_eq_some_iff.mp h
  split_ifs at h with hprim
  · exact refuse_valid h
  · cases h
    exact ⟨⟨p, getRemoteParam_registered hp, rfl⟩, by simpa using hprim⟩

theorem doAddOrRemoveBlindToRemote_valid {f : ℕ → UInt16 → Call}
    (hf : ∀ p k, d.Registered p ∧ k.toUInt32 ∈ d.blinds → (f p k).Valid d)
    (h : d.doAddOrRemoveBlindToRemote (d.getRemoteParam params locals) params locals f =
      some (c, answer)) : c.Valid d := by
  unfold doAddOrRemoveBlindToRemote at h
  split at h
  case h_1 p idParam hp _ =>
    split at h
    · exact refuse_valid h
    · split_ifs at h with hk
      · cases h
        exact hf p _ ⟨getRemoteParam_registered hp, hk⟩
      · exact refuse_valid h
  · exact refuse_valid h

theorem doButtonPress_valid
    (h : doButtonPress (d.getRemoteParam params locals) params locals = some (c, answer)) :
    c.Valid d := by
  unfold doButtonPress at h
  split at h
  · exact refuse_valid h
  case h_2 p hp =>
    cases h
    exact getRemoteParam_registered hp

theorem handle_valid {request : Request}
    (h : d.handle request params locals = some (c, answer)) : c.Valid d := by
  cases request with
  | addBlind => exact doAddBlind_valid h
  | updateBlind => exact doUpdateBlind_valid h
  | deleteBlind => exact doDeleteBlind_valid h
  | blindCommand => exact doBlindCommand_valid h
  | addRemote => exact doAddRemote_valid h
  | importRemote => exact doImportRemote_valid h
  | updateRemote => exact doUpdateRemote_valid h
  | deleteRemote => exact doDeleteRemote_valid h
  | bindBlind => exact doAddOrRemoveBlindToRemote_valid (f := .associate) (fun _ _ hv => hv) h
  | unbindBlind => exact doAddOrRemoveBlindToRemote_valid (f := .disassociate) (fun _ _ hv => hv) h
  | remoteCommand => exact doButtonPress_valid h
  | discover =>
      cases h
      trivial

end Handlers

/-- The handlers keep their promise, and so do the subscriptions. -/
theorem call_valid {e : Event} {c : Call} (h : d.call e = some c) : c.Valid d := by
  cases e with
  | request request params locals =>
      obtain ⟨⟨c', answer⟩, hc, rfl⟩ := Option.map_eq_some_iff.mp h
      exact handle_valid hc
  | remoteTopic remoteId payload =>
      cases h
      cases hp : d.remotes[remoteId]? with
      | none => trivial
      | some p => exact remoteOnCommand_valid ⟨remoteId, hp⟩ payload
  | blindTopic blindId payload =>
      cases h
      split_ifs
      · exact onCommand_valid _ _
      · trivial
  | positionTopic blindId payload overflow =>
      cases h
      split_ifs
      · exact onSetPosition_valid _ _ _
      · trivial
  | _ =>
      cases h
      trivial

/-- How many of the remotes have a property, after one more. -/
theorem length_filter_insertRemote
    (hbelow : ∀ {a : UInt32} {p : ℕ}, d.remotes[a]? = some p → p < d.heapTop) {id : UInt32}
    (hnew : d.remotes[id]? = none) (r : SomfyRemote) (q : SomfyRemote → Bool) :
    ((d.insertRemote id r).remotes.toList.filter fun entry =>
        q ((d.insertRemote id r).heap entry.2)).length =
      (d.remotes.toList.filter fun entry => q (d.heap entry.2)).length + (if q r then 1 else 0) := by
  have hperm : (d.insertRemote id r).remotes.toList.Perm ((id, d.heapTop) :: d.remotes.toList) :=
    toList_insertIfNew_perm hnew
  have hold : (d.remotes.toList.filter fun entry => q ((d.insertRemote id r).heap entry.2)) =
      d.remotes.toList.filter fun entry => q (d.heap entry.2) :=
    List.filter_congr fun entry he => by
      rw [insertRemote_heap (hbelow (mem_toList.mp he))]
  have htop : (d.insertRemote id r).heap d.heapTop = r := by simp [insertRemote]
  rw [(hperm.filter _).length_eq, List.filter_cons, htop, hold]
  split_ifs <;> simp

theorem fewRemotes_insert
    (hbelow : ∀ {a : UInt32} {p : ℕ}, d.remotes[a]? = some p → p < d.heapTop) {id : UInt32}
    (hnew : d.remotes[id]? = none) {r : SomfyRemote}
    (hi : d.internalIds.length + (if r.isExternal then 0 else 1) ≤ 124)
    (hx : d.externalIds.length + (if r.isExternal then 1 else 0) ≤ 62) :
    (d.insertRemote id r).FewRemotes := by
  have hci := length_filter_insertRemote hbelow hnew r fun r => !r.isExternal
  have hcx := length_filter_insertRemote hbelow hnew r fun r => r.isExternal
  simp only [internalIds, externalIds, List.length_map] at hi hx
  refine ⟨?_, ?_⟩
  · simp only [internalIds, List.length_map, hci]
    cases he : r.isExternal <;> simp [he] at hi ⊢ <;> omega
  · simp only [externalIds, List.length_map, hcx]
    exact hx

theorem fewRemotes_erase (h : d.FewRemotes) (id : UInt32) :
    FewRemotes { d with remotes := d.remotes.erase id } := by
  refine ⟨le_trans ?_ h.1, le_trans ?_ h.2⟩
  · simpa only [internalIds, List.length_map] using length_filter_erase_le _
  · simpa only [externalIds, List.length_map] using length_filter_erase_le _

theorem sameRegistry_config (d : Device) (c : DeviceConfig) :
    SameRegistry d { d with config := c } := { SameRegistry.refl d with }

/-- Registering a remote keeps the invariant. -/
theorem Inv.registerRemote (h : d.Inv) {name : List UInt8} {id : UInt32} {isExternal : Bool}
    (hf : d.FreshHalf id)
    (hid : isExternal = false → 0x270000 < id.toNat ∧ id.toNat < d.nextRemoteId.toNat)
    (hi : d.internalIds.length + (if isExternal then 0 else 1) ≤ 124)
    (hx : d.externalIds.length + (if isExternal then 1 else 0) ≤ 62)
    (hd : d.registerRemote name id isExternal = some d') (hlost : d'.config.lost = false) :
    d'.Inv := by
  have hreg : (d.insertRemote id (d.newRemote name id isExternal)).Registry :=
    h.registry.insertRemote hf (by simp) (by simpa using hid)
  have hfew := fewRemotes_insert (fun hp => (h.registry.registered hp).1) hf.not_mem
    (r := d.newRemote name id isExternal)
    (by simpa using hi) (by simpa using hx)
  obtain ⟨d₁, h₁, h₂⟩ := Option.bind_eq_some_iff.mp hd
  have hlost₁ := lasting_saveRemoteList h₂ hlost
  obtain ⟨c, hc, rfl⟩ := saveRemote_new (newRemote_isDirty name id isExternal) h₁
  rw [newRemote_remoteId] at hlost₁ h₂
  have hclean : Clean { d.insertRemote id (d.newRemote name id isExternal) with
      config := d.config.saveRemoteConfig id c } := by
    have hw := clean_after_write hreg h.stored.clean.healthy (p := d.heapTop)
      (by rw [insertRemote_remotes hf, if_pos rfl]) (fun {a q} hq ha hdirty => ?_) (c := c)
      (by simpa [insertRemote] using hc) hlost₁
    · refine hw.quiet rfl rfl fun p _ => ?_
      by_cases hp : p = d.heapTop
      · subst hp
        simp only [modifyRemote, insertRemote, Function.update_self]
        rw [← newRemote_isDirty (d := d) name id isExternal]
      · simp only [modifyRemote, insertRemote, Function.update_of_ne hp]
    · rcases insertRemote_cases hf hq with ⟨rfl, -⟩ | ⟨-, hold⟩
      · exact absurd rfl ha
      · rw [insertRemote_heap (h.registry.registered hold).1] at hdirty ⊢
        exact h.stored.clean.recorded hold hdirty
  obtain ⟨hc', hr', hb'⟩ := stored_saveRemoteList hclean hfew.1 hfew.2 h₂ hlost
  have honly := h.stored.clean.healthy.onlyAt_saveRemoteConfig id c
  refine ⟨?_, hc', hr', hb' (h.stored.blinds.congr (fun _ => Iff.rfl) ?_)⟩
  · obtain ⟨config, rfl⟩ := saveRemoteList_eq h₂
    exact (sameRegistry_config (d.insertRemote id _) config).registry hreg
  · exact honly.other (remote_key_ne (by simp))

/-- Deleting a registered remote leaves a clean store with its lists of remotes. -/
theorem stored_deleteRemote (hr : d.Registry) (hc : d.Clean) (hfew : d.FewRemotes) {id : UInt32}
    (hid : id ∈ d.remotes) (hd : d.deleteRemote id = some d') (hlost : d'.config.lost = false) :
    d'.Clean ∧ d'.RemotesListed ∧ (d.BlindsListed → d'.BlindsListed) := by
  have honly : OnlyAt (.remote id) d.config (d.config.deleteRemoteConfig id) :=
    hc.healthy.onlyAt_clear (.remote id)
  have hclean : Clean { d with
      remotes := d.remotes.erase id
      config := d.config.deleteRemoteConfig id } := by
    refine ⟨honly.healthy, fun {a p} hp hdirty => ?_⟩
    rw [get_erase] at hp
    split_ifs at hp with ha
    refine (hc.recorded hp hdirty).congr (hc.healthy.getRemoteConfig_delete_other fun hlow => ?_)
    exact ha (hr.lowHalves hid (mem_iff.mpr ⟨p, hp⟩) hlow)
  have hfew' := fewRemotes_erase hfew id
  obtain ⟨hc', hr', hb'⟩ := stored_saveRemoteList hclean hfew'.1 hfew'.2 hd hlost
  exact ⟨hc', hr', fun hb => hb' (hb.congr (fun _ => Iff.rfl)
    (honly.other (remote_key_ne nofun)))⟩

theorem Inv.deleteRemote (h : d.Inv) (hfew : d.FewRemotes) {id : UInt32} (hid : id ∈ d.remotes)
    (hprim : d.isAPrimaryRemote id = false) (hd : d.deleteRemote id = some d')
    (hlost : d'.config.lost = false) : d'.Inv := by
  obtain ⟨hc, hr, hb⟩ := stored_deleteRemote h.registry h.stored.clean hfew hid hd hlost
  refine ⟨?_, hc, hr, hb h.stored.blinds⟩
  obtain ⟨config, rfl⟩ := deleteRemote_eq hd
  exact (sameRegistry_config _ config).registry
    (h.registry.erase fun hk => isAPrimaryRemote_false hprim hk)

/-- The next id is taken, and then the remote is registered under it. -/
theorem Inv.createRemote (h : d.Inv) {name : List UInt8} (hmay : d.MayCreate)
    (hd : d.createRemote name = some d') (hlost : d'.config.lost = false) : d'.Inv := by
  obtain ⟨hf, hnext, hi, hx⟩ := hmay
  have hsucc : (d.nextRemoteId + 1).toNat = d.nextRemoteId.toNat + 1 := by
    rw [UInt32.toNat_add, UInt32.toNat_one]
    omega
  have hadv : Inv { d with nextRemoteId := d.nextRemoteId + 1 } :=
    ⟨h.registry.advance _ _ (by omega) ⟨le_rfl, h.registry.nextBlind⟩,
      ⟨h.stored.clean.healthy, h.stored.clean.recorded⟩,
      ⟨h.stored.remotes.internal, h.stored.remotes.external⟩, h.stored.blinds⟩
  have hd' : Device.registerRemote { d with nextRemoteId := d.nextRemoteId + 1 } name
      d.nextRemoteId false = some d' := hd
  refine hadv.registerRemote hf (fun _ => ⟨h.registry.nextRemote.1, ?_⟩) ?_ ?_ hd' hlost
  · change d.nextRemoteId.toNat < (d.nextRemoteId + 1).toNat
    omega
  · exact hi
  · exact hx

theorem length_blindIds : d.blindIds.length = d.blinds.size := by
  simp [blindIds, Std.ExtTreeMap.length_keys]

theorem Registry.blind_small (h : d.Registry) {k : UInt32} (hk : k ∈ d.blinds) :
    k.toNat < 65536 := by
  obtain ⟨b, hb⟩ := mem_iff.mp hk
  exact (h.blind hb).2.trans_le h.nextBlind

/-- The key of the next blind is new, as long as the counter is right. -/
theorem Registry.next_blind_new (h : d.Registry) : d.blinds[d.nextBlindId]? = none := by
  by_contra hne
  obtain ⟨b, hb⟩ := Option.ne_none_iff_exists'.mp hne
  exact absurd (h.blind hb).2 (lt_irrefl _)

theorem associateBlind_isDirty (r : SomfyRemote) (k : UInt16) :
    (r.associateBlind k).isDirty = true := by
  unfold SomfyRemote.associateBlind
  split_ifs <;> rfl

theorem associateBlind_fields (r : SomfyRemote) (k : UInt16) :
    (r.associateBlind k).remoteId = r.remoteId ∧
      (r.associateBlind k).isExternal = r.isExternal := by
  unfold SomfyRemote.associateBlind
  split_ifs <;> exact ⟨rfl, rfl⟩

@[simp] theorem newPrimary_remoteId (name : List UInt8) :
    (d.newPrimary name).remoteId = d.nextRemoteId :=
  (associateBlind_fields _ _).1.trans (newRemote_remoteId _ _ _)

@[simp] theorem newPrimary_isExternal (name : List UInt8) :
    (d.newPrimary name).isExternal = false :=
  (associateBlind_fields _ _).2.trans (newRemote_isExternal _ _ _)

theorem Registry.withBlind (h : d.Registry) (name : List UInt8) (openTime closeTime : Int32)
    (hmay : d.MayCreate) (hnext : d.nextBlindId.toNat < 65536) :
    (d.withBlind name openTime closeTime).Registry := by
  have hr : (d.nextRemoteId + 1).toNat = d.nextRemoteId.toNat + 1 := by
    have hlt := hmay.2.1
    rw [UInt32.toNat_add, UInt32.toNat_one]
    omega
  have hb : (d.nextBlindId + 1).toNat = d.nextBlindId.toNat + 1 := by
    rw [UInt32.toNat_add, UInt32.toNat_one]
    omega
  have hadv := h.advance (d.nextRemoteId + 1) (d.nextBlindId + 1)
    ⟨by omega, by have hlt := hmay.2.1; omega⟩ ⟨by omega, by omega⟩
  have hins := hadv.insertRemote (r := d.newPrimary name) hmay.1 (newPrimary_remoteId name)
    fun _ => ⟨h.nextRemote.1, by
      change d.nextRemoteId.toNat < (d.nextRemoteId + 1).toNat
      omega⟩
  refine hins.insertBlind (k := d.nextBlindId) (b := d.newBlind name openTime closeTime)
    h.next_blind_new ⟨toUInt32_toUInt16 hnext, ?_⟩ ?_ fun {i c} hi => ?_
  · change d.nextBlindId.toNat < (d.nextBlindId + 1).toNat
    omega
  · exact ⟨insertRemote_new hmay.1 (newPrimary_remoteId name),
      (congrArg SomfyRemote.isExternal (insertRemote_top _ _)).trans (newPrimary_isExternal name)⟩
  · exact ((h.registered (h.primary hi).1).1).ne

theorem Inv.addBlind (h : d.Inv) {name : List UInt8} {openTime closeTime : Int32}
    (hmay : d.MayCreate) (hnext : d.nextBlindId.toNat < 65536) (hsize : d.blinds.size < 124)
    (hd : d.addBlind name openTime closeTime = some d') (hlost : d'.config.lost = false) :
    d'.Inv := by
  have hreg := h.registry.withBlind name openTime closeTime hmay hnext
  refine ⟨?_, ?_⟩
  · obtain ⟨config, rfl⟩ := addBlind_eq hd
    exact (sameRegistry_config _ config).registry hreg
  obtain ⟨d₁, h₁, h₂⟩ := Option.bind_eq_some_iff.mp hd
  obtain ⟨⟨config, b⟩, hb, h₃⟩ := Option.bind_eq_some_iff.mp h₂
  have hlost₂ := lasting_saveBlindList h₃ hlost
  unfold saveBlind at hb
  rw [if_pos (Bool.or_true _)] at hb
  obtain ⟨c, hc, heq⟩ := Option.map_eq_some_iff.mp hb
  cases heq
  have hs₁ := (h.createRemote hmay h₁ (lost_saveBlindConfig _ _ hlost₂)).stored
  have honly := hs₁.clean.healthy.onlyAt_saveBlindConfig d.nextBlindId.toUInt16 c
  obtain ⟨config₁, hd₁⟩ := registerRemote_eq h₁
  refine stored_saveBlindList ?_ ?_ (fun k hk => ?_) ?_ h₃ hlost
  · have hc₁ : Clean { d₁ with
        config := d₁.config.saveBlindConfig d.nextBlindId.toUInt16 c } :=
      hs₁.clean.onlyAt honly (by simp) rfl rfl
    refine hc₁.quiet rfl rfl fun p hdirty => ?_
    by_cases hp : p = d.heapTop
    · subst hp
      simp [modifyRemote, associateBlind_isDirty] at hdirty
    · simp only [modifyRemote, Function.update_of_ne hp]
  · refine hs₁.remotes.congr rfl (fun p => ?_) (honly.other (blind_key_ne (by simp)))
      (honly.other (blind_key_ne (by simp)))
    by_cases hp : p = d.heapTop
    · subst hp
      simp only [modifyRemote, Function.update_self, (associateBlind_fields _ _).2]
    · simp only [modifyRemote, Function.update_of_ne hp]
  · subst hd₁
    exact hreg.blind_small (hk : k ∈ (d.withBlind name openTime closeTime).blinds)
  · rw [length_blindIds]
    subst hd₁
    have hle := Std.ExtTreeMap.size_insertIfNew_le (t := d.blinds) (k := d.nextBlindId)
      (v := d.newBlind name openTime closeTime)
    exact hle.trans hsize

theorem Inv.removeBlind (h : d.Inv) {k : UInt32} {b : Blind} (hk : d.blinds[k]? = some b)
    (hfew : d.FewRemotes) (hsize : d.blinds.size ≤ 124) (hd : d.removeBlind k b = some d')
    (hlost : d'.config.lost = false) : d'.Inv := by
  have hprim := h.registry.primary hk
  have hreg : Registry { d with
      blinds := d.blinds.erase k
      remotes := d.remotes.erase (d.heap b.remote).remoteId } := by
    refine (h.registry.eraseBlind k).erase fun {i c} hi heq => ?_
    rw [get_erase] at hi
    split_ifs at hi with hik
    have hc := (h.registry.primary hi).1
    rw [heq, hprim.1] at hc
    exact hik (h.registry.distinct hk hi (Option.some.inj hc))
  refine ⟨?_, ?_⟩
  · obtain ⟨config, rfl⟩ := removeBlind_eq hd
    exact (sameRegistry_config _ config).registry hreg
  obtain ⟨d₁, h₁, h₂⟩ := Option.bind_eq_some_iff.mp hd
  have hlost₁ := lasting_saveBlindList h₂ hlost
  obtain ⟨hc₁, hr₁, -⟩ := stored_deleteRemote (h.registry.eraseBlind k)
    ⟨h.stored.clean.healthy, h.stored.clean.recorded⟩ hfew (mem_iff.mpr ⟨_, hprim.1⟩) h₁ hlost₁
  have honly : OnlyAt (.blind k.toUInt16) d₁.config (d₁.config.deleteBlindConfig k.toUInt16) :=
    hc₁.healthy.onlyAt_clear (.blind k.toUInt16)
  have hblinds : d₁.blinds = d.blinds.erase k := by
    obtain ⟨config, rfl⟩ := deleteRemote_eq h₁
    rfl
  have hc₂ : Clean { d₁ with config := d₁.config.deleteBlindConfig k.toUInt16 } :=
    hc₁.onlyAt honly nofun rfl rfl
  have hr₂ : RemotesListed { d₁ with config := d₁.config.deleteBlindConfig k.toUInt16 } :=
    hr₁.congr rfl (fun _ => rfl) (honly.other (blind_key_ne nofun))
      (honly.other (blind_key_ne nofun))
  refine stored_saveBlindList hc₂ hr₂ (fun i hi => ?_) ?_ h₂ hlost
  · exact (h.registry.eraseBlind k).blind_small (hblinds ▸ hi)
  · rw [length_blindIds]
    exact (hblinds ▸ Std.ExtTreeMap.size_erase_le).trans hsize

/-- The loop of `SaveRemoteState` with the entries it has still to visit. -/
structure SavingRemotes (d : Device) (rest : List (UInt32 × ℕ)) (e : Device) : Prop where
  entries : ∀ entry ∈ rest, e.remotes[entry.1]? = some entry.2
  saved : e.config.lost = false → e.Inv ∧ ∀ {id : UInt32} {p : ℕ}, e.remotes[id]? = some p →
    (id, p) ∉ rest → (e.heap p).isDirty = false

theorem SavingRemotes.turn {entry : UInt32 × ℕ} {rest : List (UInt32 × ℕ)} {e e' : Device}
    (h : SavingRemotes d (entry :: rest) e) (hsave : e.saveRemote entry.2 false = some e') :
    SavingRemotes d rest e' := by
  have hsame := (saves_saveRemote hsave).toSameRegistry
  have hq := h.entries entry List.mem_cons_self
  refine ⟨fun other ho => ?_, fun hl => ?_⟩
  · rw [hsame.remotes]
    exact h.entries other (List.mem_cons_of_mem _ ho)
  obtain ⟨hinv, hdirty⟩ := h.saved (lasting_saveRemote hsave hl)
  obtain ⟨hs', hclean⟩ := hinv.stored.saveRemote hinv.registry hq hsave hl
  refine ⟨⟨hsame.registry hinv.registry, hs'⟩, fun {id p} hp hr => ?_⟩
  by_cases hpq : p = entry.2
  · rw [hpq]
    exact hclean
  · rw [hsame.remotes] at hp
    have hold := hdirty hp fun hcons => by
      rcases List.mem_cons.mp hcons with heq | hrest
      · exact hpq (congrArg Prod.snd heq)
      · exact hr hrest
    rcases saveRemote_cases hsave with ⟨rfl, -⟩ | ⟨c, -, rfl⟩
    · exact hold
    · simpa only [modifyRemote, Function.update_of_ne hpq] using hold

/-- After `SaveRemoteState` every remote is clean. -/
theorem Inv.saveRemoteState (h : d.config.lost = false → d.Inv) (hd : d.saveRemoteState = some d')
    (hlost : d'.config.lost = false) :
    d'.Inv ∧ ∀ {id : UInt32} {p : ℕ}, d'.remotes[id]? = some p → (d'.heap p).isDirty = false := by
  have hstart : SavingRemotes d d.remotes.toList d :=
    ⟨fun entry he => mem_toList.mp he,
      fun hl => ⟨h hl, fun hp hr => absurd (mem_toList.mpr hp) hr⟩⟩
  have hend := Transitions.foldlM_invariant
    (f := fun (d : Device) (entry : UInt32 × ℕ) => d.saveRemote entry.2 false) (SavingRemotes d) SavingRemotes.turn hstart hd
  exact ⟨(hend.saved hlost).1, fun hp => (hend.saved hlost).2 hp List.not_mem_nil⟩

theorem Inv.saveBlindState {force : Bool} (h : d.Inv) (hd : d.saveBlindState force = some d') :
    d'.Inv := by
  have hstep : ∀ {k : UInt32} {e e' : Device}, e.Inv →
      e.saveBlindAt force k = some e' → e'.Inv := fun he hs =>
    ⟨(saves_saveBlindAt hs).registry he.registry, he.stored.saveBlindAt hs⟩
  exact Transitions.foldlM_invariant (f := fun (d : Device) k => d.saveBlindAt force k)
    (fun _ e => e.Inv) (fun he hs => hstep he hs) h hd

end Device

end PicoSomfy
