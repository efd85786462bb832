import PicoSomfy.DeviceRuns

/-!
# What the flash holds

An `FlashImage` is what the flash says, record by record: the three lists of ids, and the
records of remotes and blinds. A remote is found under the low half of its id. Each call
of `DeviceConfig` that writes is at most one `SaveBlock` or one `ClearBlock`, and changes
the image in one place.

`flashCalls` lists the calls that a request makes, in order. What a request leaves in
flash is the effect of these calls, one after the other.
-/
namespace PicoSomfy

open SortedMap DeviceConfig

@[ext] structure FlashImage where
  internal : List UInt16
  external : List UInt32
  blindIds : List UInt16
  remote : UInt16 → Option RemoteConfig
  blind : UInt16 → Option BlindConfig

namespace DeviceConfig

variable {dc dc' : DeviceConfig}

/-- The record under the key of a remote, also when its id is not to be read. -/
def remoteAt (dc : DeviceConfig) (low : UInt16) : Option RemoteConfig :=
  (dc.read (Record.remote low.toUInt32).key).map RemoteConfig.decode

def image (dc : DeviceConfig) : FlashImage where
  internal := dc.getRemoteIds
  external := dc.getExternalRemoteIds
  blindIds := dc.getBlindIds
  remote := dc.remoteAt
  blind := dc.getBlindConfig

/-- The storage works, and the three lists were saved whole. -/
structure Kept (dc : DeviceConfig) : Prop where
  healthy : dc.Healthy
  internal : ∃ ids, dc.StoresIds .remoteIds ids
  external : ∃ ids, dc.StoresIds32 .externalRemoteIds ids
  blindIds : ∃ ids, dc.StoresIds .blindIds ids

theorem remote_key_low (a : UInt32) :
    (Record.remote a.toUInt16.toUInt32).key = (Record.remote a).key :=
  remoteKey_eq_iff.mpr (UInt16.toUInt16_toUInt32 a.toUInt16)

theorem getRemoteConfig_eq (dc : DeviceConfig) {a : UInt32} (h : ¬Device.Reserved a) :
    dc.getRemoteConfig a = dc.remoteAt a.toUInt16 := by
  rw [remoteAt, remote_key_low,
    getRemoteConfig_of_ne dc (fun h₀ => h (.inr h₀)) fun h₁ => h (.inl h₁)]

/-- Where nothing was written the image is the same. -/
theorem Kept.getRemoteIds_congr (h : dc.Kept)
    (hread : dc'.read Record.remoteIds.key = dc.read Record.remoteIds.key) :
    dc'.getRemoteIds = dc.getRemoteIds := by
  obtain ⟨ids, hs⟩ := h.internal
  have hnew : dc'.getRemoteIds = ids := getRemoteIds_of_stored (hs.congr hread)
  have hold : dc.getRemoteIds = ids := getRemoteIds_of_stored hs
  rw [hnew, hold]

theorem Kept.getBlindIds_congr (h : dc.Kept)
    (hread : dc'.read Record.blindIds.key = dc.read Record.blindIds.key) :
    dc'.getBlindIds = dc.getBlindIds := by
  obtain ⟨ids, hs⟩ := h.blindIds
  have hnew : dc'.getBlindIds = ids := getBlindIds_of_stored (hs.congr hread)
  have hold : dc.getBlindIds = ids := getBlindIds_of_stored hs
  rw [hnew, hold]

theorem Kept.getExternalRemoteIds_congr (h : dc.Kept)
    (hread : dc'.read Record.externalRemoteIds.key = dc.read Record.externalRemoteIds.key) :
    dc'.getExternalRemoteIds = dc.getExternalRemoteIds := by
  obtain ⟨ids, hs⟩ := h.external
  have hnew : dc'.getExternalRemoteIds = ids := getExternalRemoteIds_of_stored (hs.congr hread)
  have hold : dc.getExternalRemoteIds = ids := getExternalRemoteIds_of_stored hs
  rw [hnew, hold]

theorem remoteAt_congr {low : UInt16}
    (hread : dc'.read (Record.remote low.toUInt32).key = dc.read (Record.remote low.toUInt32).key) :
    dc'.remoteAt low = dc.remoteAt low := congrArg (Option.map RemoteConfig.decode) hread

theorem getBlindConfig_congr {k : UInt16}
    (hread : dc'.read (Record.blind k).key = dc.read (Record.blind k).key) :
    dc'.getBlindConfig k = dc.getBlindConfig k := congrArg (Option.map BlindConfig.decode) hread

end DeviceConfig

inductive FlashCall where
  | saveRemote (remoteId : UInt32) (config : RemoteConfig)
  | deleteRemote (remoteId : UInt32)
  | saveBlind (blindId : UInt16) (config : BlindConfig)
  | deleteBlind (blindId : UInt16)
  | remoteIds (ids : List UInt16)
  | externalIds (ids : List UInt32)
  | blindIds (ids : List UInt16)

namespace FlashCall

def run (dc : DeviceConfig) : FlashCall → DeviceConfig
  | saveRemote remoteId config => dc.saveRemoteConfig remoteId config
  | deleteRemote remoteId => dc.deleteRemoteConfig remoteId
  | saveBlind blindId config => dc.saveBlindConfig blindId config
  | deleteBlind blindId => dc.deleteBlindConfig blindId
  | remoteIds ids => dc.saveRemoteIds ids
  | externalIds ids => dc.saveExternalRemoteIds ids
  | blindIds ids => dc.saveBlindIds ids

def act (img : FlashImage) : FlashCall → FlashImage
  | saveRemote remoteId config =>
      { img with remote := Function.update img.remote remoteId.toUInt16 (some config) }
  | deleteRemote remoteId =>
      { img with remote := Function.update img.remote remoteId.toUInt16 none }
  | saveBlind blindId config =>
      { img with blind := Function.update img.blind blindId (some config) }
  | deleteBlind blindId => { img with blind := Function.update img.blind blindId none }
  | remoteIds ids => { img with internal := ids }
  | externalIds ids => { img with external := ids }
  | blindIds ids => { img with blindIds := ids }

/-- A list fits into its block. -/
def Fits : FlashCall → Prop
  | remoteIds ids | blindIds ids => ids.length ≤ 124
  | externalIds ids => ids.length ≤ 62
  | _ => True

/-- The record a call is about. -/
def record : FlashCall → Record
  | saveRemote remoteId _ | deleteRemote remoteId => .remote remoteId
  | saveBlind blindId _ | deleteBlind blindId => .blind blindId
  | remoteIds _ => .remoteIds
  | externalIds _ => .externalRemoteIds
  | blindIds _ => .blindIds

variable {dc : DeviceConfig}

theorem fits16 {ids : List UInt16} (h : ids.length ≤ 124) :
    4 + (CStrings.encode16s ids).length ≤ 252 := by
  rw [CStrings.length_encode16s]
  omega

theorem fits32 {ids : List UInt32} (h : ids.length ≤ 62) :
    4 + (CStrings.encode32s ids).length ≤ 252 := by
  rw [CStrings.length_encode32s]
  omega

theorem onlyAt (h : dc.Healthy) {f : FlashCall} (hf : f.Fits) : OnlyAt f.record dc (f.run dc) := by
  cases f with
  | saveRemote remoteId config => exact h.onlyAt_saveRemoteConfig remoteId config
  | deleteRemote remoteId => exact h.onlyAt_clear (.remote remoteId)
  | saveBlind blindId config => exact h.onlyAt_saveBlindConfig blindId config
  | deleteBlind blindId => exact h.onlyAt_clear (.blind blindId)
  | remoteIds ids => exact h.onlyAt_list .remoteIds (fits16 hf)
  | externalIds ids => exact h.onlyAt_list .externalRemoteIds (fits32 hf)
  | blindIds ids => exact h.onlyAt_list .blindIds (fits16 hf)

/-- Two keys of remotes are equal if the low halves are. -/
theorem remote_key_ne_low {a : UInt32} {low : UInt16} (h : low ≠ a.toUInt16) :
    (Record.remote low.toUInt32).key ≠ (Record.remote a).key := fun hk => by
  have heq := remoteKey_eq_iff.mp hk
  rw [UInt16.toUInt16_toUInt32] at heq
  exact h heq

theorem remoteAt_save (h : dc.Healthy) (a : UInt32) (c : RemoteConfig)
    (hlost : (dc.saveRemoteConfig a c).lost = false) :
    (dc.saveRemoteConfig a c).remoteAt a.toUInt16 = some c := by
  rw [saveRemoteConfig_eq] at hlost ⊢
  split_ifs at hlost ⊢ with hsame
  · have hreadable : ¬Device.Reserved a := fun hr => by
      rw [getRemoteConfig_reserved dc hr] at hsame
      cases hsame
    rw [← getRemoteConfig_eq dc hreadable, hsame]
  · have hroom := ((h.lost_write _ _).mp hlost).2
    have hb := c.encode_bounds
    rw [remoteAt, remote_key_low, h.read_write (.remote a) (.remote a) hb.1 hb.2 hroom, if_pos rfl,
      Option.map_some, BlockStorage.padded, RemoteConfig.decode_encode]

/-- A write that is not lost changes the image as it should. -/
theorem image_run (h : dc.Kept) {f : FlashCall} (hf : f.Fits) (hlost : (f.run dc).lost = false) :
    (f.run dc).Kept ∧ (f.run dc).image = f.act dc.image := by
  have honly := onlyAt h.healthy hf
  have hinternal : f.record ≠ .remoteIds → (f.run dc).getRemoteIds = dc.getRemoteIds ∧
      ∃ ids, (f.run dc).StoresIds .remoteIds ids := fun hne => by
    have hread := honly.other (Record.key_ne (s := .remoteIds) nofun hne.symm)
    obtain ⟨ids, hs⟩ := h.internal
    exact ⟨h.getRemoteIds_congr hread, ids, hs.congr hread⟩
  have hexternal : f.record ≠ .externalRemoteIds →
      (f.run dc).getExternalRemoteIds = dc.getExternalRemoteIds ∧
      ∃ ids, (f.run dc).StoresIds32 .externalRemoteIds ids := fun hne => by
    have hread := honly.other (Record.key_ne (s := .externalRemoteIds) nofun hne.symm)
    obtain ⟨ids, hs⟩ := h.external
    exact ⟨h.getExternalRemoteIds_congr hread, ids, hs.congr hread⟩
  have hblindIds : f.record ≠ .blindIds → (f.run dc).getBlindIds = dc.getBlindIds ∧
      ∃ ids, (f.run dc).StoresIds .blindIds ids := fun hne => by
    have hread := honly.other (Record.key_ne (s := .blindIds) nofun hne.symm)
    obtain ⟨ids, hs⟩ := h.blindIds
    exact ⟨h.getBlindIds_congr hread, ids, hs.congr hread⟩
  have hremote : (∀ a, f.record ≠ .remote a) → (f.run dc).remoteAt = dc.remoteAt := fun hne =>
    funext fun low => remoteAt_congr (honly.other (Device.remote_key_ne hne).symm)
  have hremoteOther : ∀ {a : UInt32}, f.record = .remote a → ∀ low, low ≠ a.toUInt16 →
      (f.run dc).remoteAt low = dc.remoteAt low := fun {a} ha low hlow =>
    remoteAt_congr (honly.other (by rw [ha]; exact remote_key_ne_low hlow))
  have hblind : ∀ {k : UInt16}, f.record ≠ .blind k →
      (f.run dc).getBlindConfig k = dc.getBlindConfig k := fun {k} hne =>
    getBlindConfig_congr (honly.other (Device.blind_key_ne hne).symm)
  have hblinds : (∀ k, f.record ≠ .blind k) → (f.run dc).getBlindConfig = dc.getBlindConfig :=
    fun hne => funext fun k => hblind (hne k)
  cases f with
  | saveRemote a c =>
      obtain ⟨hi, hsi⟩ := hinternal nofun
      obtain ⟨hx, hsx⟩ := hexternal nofun
      obtain ⟨hb, hsb⟩ := hblindIds nofun
      refine ⟨⟨honly.healthy, hsi, hsx, hsb⟩, ?_⟩
      change FlashImage.mk _ _ _ _ _ = FlashImage.mk _ _ _ _ _
      rw [hi, hx, hb, hblinds nofun]
      congr 1
      funext low
      by_cases hlow : low = a.toUInt16
      · subst hlow
        change _ = Function.update dc.remoteAt a.toUInt16 (some c) a.toUInt16
        rw [Function.update_self]
        exact remoteAt_save h.healthy a c hlost
      · exact (hremoteOther rfl low hlow).trans (Function.update_of_ne hlow _ _).symm
  | deleteRemote a =>
      obtain ⟨hi, hsi⟩ := hinternal nofun
      obtain ⟨hx, hsx⟩ := hexternal nofun
      obtain ⟨hb, hsb⟩ := hblindIds nofun
      refine ⟨⟨honly.healthy, hsi, hsx, hsb⟩, ?_⟩
      change FlashImage.mk _ _ _ _ _ = FlashImage.mk _ _ _ _ _
      rw [hi, hx, hb, hblinds nofun]
      congr 1
      funext low
      by_cases hlow : low = a.toUInt16
      · subst hlow
        have hread := (h.healthy.read_clear (.remote a) (.remote a)).trans (if_pos rfl)
        change (dc.deleteRemoteConfig a).remoteAt a.toUInt16 =
          Function.update dc.remoteAt a.toUInt16 none a.toUInt16
        rw [Function.update_self, remoteAt, remote_key_low]
        exact congrArg (Option.map RemoteConfig.decode) hread
      · exact (hremoteOther rfl low hlow).trans (Function.update_of_ne hlow _ _).symm
  | saveBlind k c =>
      obtain ⟨hi, hsi⟩ := hinternal nofun
      obtain ⟨hx, hsx⟩ := hexternal nofun
      obtain ⟨hb, hsb⟩ := hblindIds nofun
      refine ⟨⟨honly.healthy, hsi, hsx, hsb⟩, ?_⟩
      change FlashImage.mk _ _ _ _ _ = FlashImage.mk _ _ _ _ _
      rw [hi, hx, hb, hremote nofun]
      congr 1
      funext i
      by_cases hik : i = k
      · subst hik
        change _ = Function.update dc.getBlindConfig i (some c) i
        rw [Function.update_self]
        exact h.healthy.getBlindConfig_save i c hlost
      · exact (hblind (by simpa [record] using Ne.symm hik)).trans
          (Function.update_of_ne hik _ _).symm
  | deleteBlind k =>
      obtain ⟨hi, hsi⟩ := hinternal nofun
      obtain ⟨hx, hsx⟩ := hexternal nofun
      obtain ⟨hb, hsb⟩ := hblindIds nofun
      refine ⟨⟨honly.healthy, hsi, hsx, hsb⟩, ?_⟩
      change FlashImage.mk _ _ _ _ _ = FlashImage.mk _ _ _ _ _
      rw [hi, hx, hb, hremote nofun]
      congr 1
      funext i
      by_cases hik : i = k
      · subst hik
        have hread := (h.healthy.read_clear (.blind i) (.blind i)).trans (if_pos rfl)
        change _ = Function.update dc.getBlindConfig i none i
        rw [Function.update_self]
        exact congrArg (Option.map BlindConfig.decode) hread
      · exact (hblind (by simpa [record] using Ne.symm hik)).trans
          (Function.update_of_ne hik _ _).symm
  | remoteIds ids =>
      have hstored : (run dc (.remoteIds ids)).StoresIds .remoteIds ids :=
        h.healthy.holds_write .remoteIds (fits16 hf) hlost
      obtain ⟨hx, hsx⟩ := hexternal nofun
      obtain ⟨hb, hsb⟩ := hblindIds nofun
      have hi : (run dc (.remoteIds ids)).getRemoteIds = ids := getRemoteIds_of_stored hstored
      refine ⟨⟨honly.healthy, ⟨ids, hstored⟩, hsx, hsb⟩, ?_⟩
      change FlashImage.mk _ _ _ _ _ = FlashImage.mk _ _ _ _ _
      rw [hi, hx, hb, hremote nofun, hblinds nofun]
      rfl
  | externalIds ids =>
      have hstored : (run dc (.externalIds ids)).StoresIds32 .externalRemoteIds ids :=
        h.healthy.holds_write .externalRemoteIds (fits32 hf) hlost
      obtain ⟨hi, hsi⟩ := hinternal nofun
      obtain ⟨hb, hsb⟩ := hblindIds nofun
      have hx : (run dc (.externalIds ids)).getExternalRemoteIds = ids :=
        getExternalRemoteIds_of_stored hstored
      refine ⟨⟨honly.healthy, hsi, ⟨ids, hstored⟩, hsb⟩, ?_⟩
      change FlashImage.mk _ _ _ _ _ = FlashImage.mk _ _ _ _ _
      rw [hi, hx, hb, hremote nofun, hblinds nofun]
      rfl
  | blindIds ids =>
      have hstored : (run dc (.blindIds ids)).StoresIds .blindIds ids :=
        h.healthy.holds_write .blindIds (fits16 hf) hlost
      obtain ⟨hi, hsi⟩ := hinternal nofun
      obtain ⟨hx, hsx⟩ := hexternal nofun
      have hb : (run dc (.blindIds ids)).getBlindIds = ids := getBlindIds_of_stored hstored
      refine ⟨⟨honly.healthy, hsi, hsx, ⟨ids, hstored⟩⟩, ?_⟩
      change FlashImage.mk _ _ _ _ _ = FlashImage.mk _ _ _ _ _
      rw [hi, hx, hb, hremote nofun, hblinds nofun]
      rfl

theorem lost_run {f : FlashCall} (h : (f.run dc).lost = false) : dc.lost = false := by
  cases f with
  | saveRemote a c => exact lost_saveRemoteConfig a c h
  | saveBlind k c => exact lost_saveBlindConfig k c h
  | remoteIds ids => exact lost_write_mono _ _ h
  | externalIds ids => exact lost_write_mono _ _ h
  | blindIds ids => exact lost_write_mono _ _ h
  | _ => exact h

theorem lost_runs {fs : List FlashCall} (h : (fs.foldl run dc).lost = false) : dc.lost = false := by
  induction fs generalizing dc with
  | nil => exact h
  | cons f fs ih => exact lost_run (ih h)

/-- The calls of a request change the image one by one. -/
theorem image_runs (h : dc.Kept) {fs : List FlashCall} (hf : ∀ f ∈ fs, f.Fits)
    (hlost : (fs.foldl run dc).lost = false) :
    (fs.foldl run dc).Kept ∧ (fs.foldl run dc).image = fs.foldl act dc.image := by
  induction fs generalizing dc with
  | nil => exact ⟨h, rfl⟩
  | cons f fs ih =>
      obtain ⟨hkept, himage⟩ := image_run h (hf f List.mem_cons_self) (lost_runs hlost)
      rw [List.foldl_cons, List.foldl_cons, ← himage]
      exact ih hkept (fun g hg => hf g (List.mem_cons_of_mem _ hg)) hlost

/-- So do the calls before a power cut. -/
theorem image_cut (h : dc.Kept) {fs : List FlashCall} (hf : ∀ f ∈ fs, f.Fits)
    (hlost : (fs.foldl run dc).lost = false) (n : ℕ) :
    ((fs.take n).foldl run dc).Kept ∧
      ((fs.take n).foldl run dc).image = (fs.take n).foldl act dc.image := by
  refine image_runs h (fun f hmem => hf f (List.mem_of_mem_take hmem)) ?_
  rw [← List.take_append_drop n fs, List.foldl_append] at hlost
  exact lost_runs hlost

end FlashCall

namespace Device

variable {d d' : Device}

/-- `SaveRemoteList` -/
def remoteListCalls (d : Device) : List FlashCall :=
  [.remoteIds d.internalIds, .externalIds d.externalIds]

/-- A new remote is stored, and then the lists. -/
def registerCalls (d : Device) (name : List UInt8) (id : UInt32) (isExternal : Bool) :
    List FlashCall :=
  (d.newRemote name id isExternal).toConfig.toList.map (.saveRemote id) ++
    (d.insertRemote id (d.newRemote name id isExternal)).remoteListCalls

/-- `DeleteRemote` -/
def deleteCalls (d : Device) (id : UInt32) : List FlashCall :=
  .deleteRemote id :: remoteListCalls { d with remotes := d.remotes.erase id }

end Device

/-- The calls that write, in the order in which a request makes them. Changes of settings
and associations make none. -/
def Call.flashCalls (d : Device) : Call → List FlashCall
  | .addBlind name openTime closeTime =>
      Device.registerCalls { d with nextRemoteId := d.nextRemoteId + 1 } name d.nextRemoteId false ++
        (((d.newBlind name openTime closeTime).toConfig d.nextRemoteId).toList.map
          (.saveBlind d.nextBlindId.toUInt16) ++
        [.blindIds (d.withBlind name openTime closeTime).blindIds])
  | .createRemote name =>
      Device.registerCalls { d with nextRemoteId := d.nextRemoteId + 1 } name d.nextRemoteId false
  | .importRemote name id => d.registerCalls name id true
  | .deleteRemote id => d.deleteCalls id
  | .removeBlind k b =>
      Device.deleteCalls { d with blinds := d.blinds.erase k } (d.heap b.remote).remoteId ++
        [.deleteBlind k.toUInt16, .blindIds (Device.blindIds { d with blinds := d.blinds.erase k })]
  | _ => []

/-- The calls that are no requests and save what has changed. -/
def Call.saves : Call → Bool
  | .saveRemotes | .saveBlinds | .restart _ _ => true
  | _ => false

namespace Device

variable {d d' : Device}

theorem saveRemoteList_config (h : d.saveRemoteList = some d') :
    d'.config = d.remoteListCalls.foldl FlashCall.run d.config := by
  unfold saveRemoteList at h
  split_ifs at h
  cases h
  rfl

theorem saveBlindList_config (h : d.saveBlindList = some d') :
    d'.config = d.config.saveBlindIds d.blindIds := by
  unfold saveBlindList at h
  split_ifs at h
  cases h
  rfl

theorem registerRemote_config {name : List UInt8} {id : UInt32} {isExternal : Bool}
    (h : d.registerRemote name id isExternal = some d') :
    d'.config = (d.registerCalls name id isExternal).foldl FlashCall.run d.config := by
  obtain ⟨d₁, h₁, h₂⟩ := Option.bind_eq_some_iff.mp h
  obtain ⟨c, hc, rfl⟩ := saveRemote_new (newRemote_isDirty name id isExternal) h₁
  rw [saveRemoteList_config h₂, registerCalls, List.foldl_append, hc, newRemote_remoteId]
  rfl

theorem deleteRemote_config {id : UInt32} (h : d.deleteRemote id = some d') :
    d'.config = (d.deleteCalls id).foldl FlashCall.run d.config := by
  rw [saveRemoteList_config h]
  rfl

/-- What a request leaves in flash is what its calls write. -/
theorem perform_config {c : Call} (hc : c.saves = false) (h : d.perform c = some d') :
    d'.config = (c.flashCalls d).foldl FlashCall.run d.config := by
  by_cases hreacts : c.reacts = true
  · have hnone : c.flashCalls d = [] := by cases c <;> first | rfl | cases hreacts
    rw [hnone]
    exact (reacts_perform hreacts h).config
  cases c with
  | addBlind name openTime closeTime =>
      obtain ⟨d₁, h₁, h₂⟩ := Option.bind_eq_some_iff.mp h
      obtain ⟨⟨config, b⟩, hb, h₃⟩ := Option.bind_eq_some_iff.mp h₂
      have hconfig₁ := registerRemote_config h₁
      obtain ⟨config₁, hd₁⟩ := registerRemote_eq h₁
      unfold saveBlind at hb
      rw [if_pos (Bool.or_true _)] at hb
      obtain ⟨c, hc, heq⟩ := Option.map_eq_some_iff.mp hb
      cases heq
      have hid : (d₁.heap d.heapTop).remoteId = d.nextRemoteId := by
        rw [hd₁]
        change ((Device.insertRemote { d with nextRemoteId := d.nextRemoteId + 1 } d.nextRemoteId
          (d.newRemote name d.nextRemoteId false)).heap d.heapTop).remoteId = _
        rw [insertRemote_top (d := { d with nextRemoteId := d.nextRemoteId + 1 })]
        exact newRemote_remoteId _ _ _
      have hc' : (d.newBlind name openTime closeTime).toConfig d.nextRemoteId = some c := hid ▸ hc
      rw [saveBlindList_config h₃, Call.flashCalls, List.foldl_append, ← hconfig₁, hc']
      subst hd₁
      rfl
  | updateBlind k b name openTime closeTime =>
      cases h
      rfl
  | removeBlind k b =>
      obtain ⟨d₁, h₁, h₂⟩ := Option.bind_eq_some_iff.mp h
      have hconfig₁ := deleteRemote_config h₁
      obtain ⟨config₁, rfl⟩ := deleteRemote_eq h₁
      rw [saveBlindList_config h₂, Call.flashCalls, List.foldl_append, ← hconfig₁]
      rfl
  | createRemote name =>
      exact registerRemote_config (d := { d with nextRemoteId := d.nextRemoteId + 1 }) h
  | importRemote name id => exact registerRemote_config h
  | rename p name =>
      cases h
      rfl
  | deleteRemote id => exact deleteRemote_config h
  | associate p blindId =>
      cases h
      rfl
  | disassociate p blindId =>
      cases h
      rfl
  | saveRemotes => cases hc
  | saveBlinds => cases hc
  | restart mqttEnabled slots => cases hc
  | _ => exact absurd rfl hreacts

/-- A registration that succeeds writes one record, without blinds, and both lists. -/
theorem registerCalls_eq {name : List UInt8} {id : UInt32} {isExternal : Bool}
    (h : d.registerRemote name id isExternal = some d') :
    ∃ c : RemoteConfig, c.blinds = [] ∧ d.registerCalls name id isExternal =
      .saveRemote id c :: (d.insertRemote id (d.newRemote name id isExternal)).remoteListCalls := by
  obtain ⟨d₁, h₁, -⟩ := Option.bind_eq_some_iff.mp h
  obtain ⟨c, hc, -⟩ := saveRemote_new (newRemote_isDirty name id isExternal) h₁
  obtain ⟨-, -, -, hblinds⟩ := toConfig_eq hc
  refine ⟨c, by rw [hblinds, newRemote_associatedBlinds, List.take_nil], ?_⟩
  rw [registerCalls, hc]
  rfl

/-- Adding a blind registers its primary remote first, which does not know the blind. -/
theorem addBlind_calls {name : List UInt8} {openTime closeTime : Int32}
    (h : d.addBlind name openTime closeTime = some d') :
    ∃ (c : RemoteConfig) (cfg : BlindConfig), c.blinds = [] ∧ cfg.remoteId = d.nextRemoteId ∧
      (Call.addBlind name openTime closeTime).flashCalls d =
        .saveRemote d.nextRemoteId c ::
          ((d.insertRemote d.nextRemoteId (d.newRemote name d.nextRemoteId false)).remoteListCalls ++
        [.saveBlind d.nextBlindId.toUInt16 cfg,
          .blindIds (d.withBlind name openTime closeTime).blindIds]) := by
  obtain ⟨d₁, h₁, h₂⟩ := Option.bind_eq_some_iff.mp h
  obtain ⟨c, hblinds, hcalls⟩ := registerCalls_eq h₁
  obtain ⟨⟨config, b⟩, hb, -⟩ := Option.bind_eq_some_iff.mp h₂
  unfold saveBlind at hb
  rw [if_pos (Bool.or_true _)] at hb
  obtain ⟨cfg', hc, -⟩ := Option.map_eq_some_iff.mp hb
  obtain ⟨chars, hchars, -⟩ := Option.map_eq_some_iff.mp hc
  have hcfg : (d.newBlind name openTime closeTime).toConfig d.nextRemoteId =
      some ⟨chars, 90, 50, openTime, closeTime, d.nextRemoteId⟩ := by
    change (CStrings.strcpy 48 name).map _ = _
    rw [show CStrings.strcpy 48 name = some chars from hchars]
    rfl
  refine ⟨c, ⟨chars, 90, 50, openTime, closeTime, d.nextRemoteId⟩, hblinds, rfl, ?_⟩
  rw [Call.flashCalls, hcalls, hcfg]
  rfl

end Device

end PicoSomfy
