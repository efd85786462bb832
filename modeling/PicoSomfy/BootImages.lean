import PicoSomfy.FlashImages
import PicoSomfy.Links

/-!
# Starting on a flash image

The two load loops read an image without any memory of what was saved before. They fail
only on a listed blind without a record. `Coherent` says of an image, without the loops,
that no record is missing and that the associations in the records lead to blinds that are
loaded; the loops then end with such links in memory, and on no other image.
-/
namespace PicoSomfy

open SortedMap DeviceConfig

namespace FlashImage

/-- The record that a remote is loaded from, when one of the lists has its id. -/
def loaded (img : FlashImage) (a : UInt32) : Option RemoteConfig :=
  if ¬Device.Reserved a ∧ (a ∈ img.internal.map Device.fullId ∨ a ∈ img.external) then
    img.remote a.toUInt16
  else none

structure Coherent (img : FlashImage) : Prop where
  records : ∀ k ∈ img.blindIds, ∃ cfg, img.blind k = some cfg
  own : ∀ k ∈ img.blindIds, ∀ cfg, img.blind k = some cfg →
    ∀ rc, img.loaded cfg.remoteId = some rc → k ∈ rc.blinds
  known : ∀ a rc, img.loaded a = some rc → ∀ i ∈ rc.blinds, i ∈ img.blindIds ∧
    ∃ cfg, img.blind i = some cfg ∧ (img.loaded cfg.remoteId).isSome

end FlashImage

namespace Device

variable {d d' : Device}

section Boot

variable (dc : DeviceConfig) (mqttEnabled : Bool) (slots : ℕ → RecvCommand)
  (history : List Happening)

/-- The remotes that the constructor registers are those of the image. -/
theorem remote?_booted (a : UInt32) :
    ((blank dc mqttEnabled slots history).loadRemotes.remote? a).map
        (fun r => (r.remoteId, r.associatedBlinds)) =
      (dc.image.loaded a).map fun rc => (a, rc.blinds) := by
  have hblank : (blank dc mqttEnabled slots history).remote? a = none := by
    simp [remote?, blank]
  have hfields : ∀ (ext : Bool) (rc : RemoteConfig), (SomfyRemote.create mqttEnabled rc.remoteName.chars a rc.rollingCode
      rc.blinds ext).remoteId = a ∧ (SomfyRemote.create mqttEnabled rc.remoteName.chars a
        rc.rollingCode rc.blinds ext).associatedBlinds = rc.blinds := fun ext rc => by
    rw [SomfyRemote.create_fields]
    exact ⟨rfl, rfl⟩
  have hreload : ∀ ext, (blank dc mqttEnabled slots history).reload ext a =
      (dc.getRemoteConfig a).map fun rc => .create mqttEnabled rc.remoteName.chars a
        rc.rollingCode rc.blinds ext := fun _ => rfl
  rw [remote?_loadRemotes (blank_below _ _ _ _), hblank, Option.none_or, hreload, hreload]
  change Option.map _ (Option.or (if a ∈ dc.getRemoteIds.map fullId then _ else none)
    (if a ∈ dc.getExternalRemoteIds then _ else none)) =
    Option.map _ (if ¬Reserved a ∧ (a ∈ dc.getRemoteIds.map fullId ∨ a ∈ dc.getExternalRemoteIds)
      then dc.remoteAt a.toUInt16 else none)
  by_cases ha : Reserved a
  · simp [getRemoteConfig_reserved dc ha, ha]
  · rw [← getRemoteConfig_eq dc ha]
    cases dc.getRemoteConfig a with
    | none => simp
    | some rc =>
        by_cases hint : a ∈ dc.getRemoteIds.map fullId
        · have hlisted : ¬Reserved a ∧
              (a ∈ dc.getRemoteIds.map fullId ∨ a ∈ dc.getExternalRemoteIds) := ⟨ha, .inl hint⟩
          rw [if_pos hint, if_pos hlisted]
          simp [hfields]
        · rw [if_neg hint, Option.none_or]
          by_cases hext : a ∈ dc.getExternalRemoteIds
          · rw [if_pos hext, if_pos ⟨ha, Or.inr hext⟩]
            simp [hfields]
          · rw [if_neg hext, if_neg (by simp only [hint, hext, or_self, and_false, not_false_eq_true])]
            rfl

end Boot

/-- One turn of the loop, whether the blind stays or its record is deleted. -/
structure LoadsBlind (d : Device) (k : UInt16) (d' : Device) : Prop where
  remotes : d'.remotes = d.remotes
  heap : d'.heap = d.heap
  mqttEnabled : d'.mqttEnabled = d.mqttEnabled
  clock : d'.clock = d.clock
  healthy : d'.config.Healthy
  other : ∀ i, i ≠ k → d'.config.getBlindConfig i = d.config.getBlindConfig i
  blinds : ∀ i : UInt32, d'.blinds[i]? =
    (d.blinds[i]?).or (if i = k.toUInt32 then d.reloadBlind k else none)

theorem LoadsBlind.reloadBlind {k : UInt16} (h : LoadsBlind d k d') {i : UInt16} (hi : i ≠ k) :
    d'.reloadBlind i = d.reloadBlind i := by
  rw [Device.reloadBlind, Device.reloadBlind, h.other i hi, h.remotes, h.mqttEnabled, h.clock]

theorem loadBlind_turn (hh : d.config.Healthy) {k : UInt16} {cfg : BlindConfig}
    (hcfg : d.config.getBlindConfig k = some cfg) (errors : Bool) :
    ∃ s, loadBlind (d, errors) k = some s ∧ LoadsBlind d k s.1 := by
  have hraise : ∃ next, d.raiseNextBlindId k.toUInt32 = { d with nextBlindId := next } := by
    unfold raiseNextBlindId
    split_ifs
    · exact ⟨_, rfl⟩
    · exact ⟨d.nextBlindId, rfl⟩
  obtain ⟨next, hnext⟩ := hraise
  refine ⟨_, by rw [loadBlind, hcfg, Option.map_some, hnext], ?_⟩
  unfold restoreBlind
  cases hremote : d.remotes[cfg.remoteId]? with
  | some p =>
      refine ⟨rfl, rfl, rfl, rfl, hh, fun _ _ => rfl, fun i => ?_⟩
      change (d.blinds.insertIfNew k.toUInt32 _)[i]? = _
      rw [get_insertIfNew, Device.reloadBlind, hcfg, Option.bind_some, hremote, Option.map_some]
      cases hi : d.blinds[i]? with
      | some b => simp
      | none => simp [eq_comm (a := i)]
  | none =>
      have honly : OnlyAt (.blind k) d.config (d.config.deleteBlindConfig k) :=
        hh.onlyAt_clear (.blind k)
      refine ⟨rfl, rfl, rfl, rfl, honly.healthy, fun i hi => ?_, fun i => ?_⟩
      · exact getBlindConfig_congr (honly.other (blind_key_ne (by simpa using hi)))
      · change d.blinds[i]? = _
        rw [Device.reloadBlind, hcfg, Option.bind_some, hremote, Option.map_none, ite_self,
          Option.or_none]

/-- The loop fails only on a missing record. -/
theorem loadBlinds_total (ks : List UInt16) {d : Device} (hh : d.config.Healthy)
    (hnodup : ks.Nodup) (hall : ∀ k ∈ ks, ∃ cfg, d.config.getBlindConfig k = some cfg)
    (errors : Bool) : ∃ s, ks.foldlM loadBlind (d, errors) = some s := by
  induction ks generalizing d errors with
  | nil => exact ⟨_, rfl⟩
  | cons k ks ih =>
      obtain ⟨cfg, hcfg⟩ := hall k List.mem_cons_self
      obtain ⟨s, hs, hturn⟩ := loadBlind_turn hh hcfg errors
      obtain ⟨hk, hnodup'⟩ := List.nodup_cons.mp hnodup
      obtain ⟨t, ht⟩ := ih hturn.healthy hnodup' (fun i hi => by
        rw [hturn.other i fun heq => hk (heq ▸ hi)]
        exact hall i (List.mem_cons_of_mem _ hi)) s.2
      exact ⟨t, by rw [List.foldlM_cons, hs]; exact ht⟩

/-- What the loop has loaded when it ends. -/
structure LoadsAll (d : Device) (ks : List UInt16) (d' : Device) : Prop where
  remotes : d'.remotes = d.remotes
  heap : d'.heap = d.heap
  records : ∀ k ∈ ks, ∃ cfg, d.config.getBlindConfig k = some cfg
  blinds : ∀ i : UInt32, d'.blinds[i]? =
    (d.blinds[i]?).or (if i ∈ ks.map UInt16.toUInt32 then d.reloadBlind i.toUInt16 else none)

theorem loadBlinds_run (ks : List UInt16) {d : Device} {s : Device × Bool}
    (hh : d.config.Healthy) (hnodup : ks.Nodup) {errors : Bool}
    (h : ks.foldlM loadBlind (d, errors) = some s) : LoadsAll d ks s.1 := by
  induction ks generalizing d errors with
  | nil =>
      cases h
      exact ⟨rfl, rfl, by simp, by simp⟩
  | cons k ks ih =>
      rw [List.foldlM_cons] at h
      obtain ⟨t, ht, h⟩ := Option.bind_eq_some_iff.mp h
      obtain ⟨cfg, hcfg, -⟩ := Option.map_eq_some_iff.mp ht
      obtain ⟨t', ht', hturn⟩ := loadBlind_turn hh hcfg errors
      obtain rfl : t' = t := Option.some.inj (ht'.symm.trans ht)
      obtain ⟨hk, hnodup'⟩ := List.nodup_cons.mp hnodup
      have hrest := ih hturn.healthy hnodup' h
      refine ⟨hrest.remotes.trans hturn.remotes, hrest.heap.trans hturn.heap, fun i hi => ?_,
        fun i => ?_⟩
      · rcases List.mem_cons.mp hi with rfl | hi
        · exact ⟨cfg, hcfg⟩
        · obtain ⟨c, hc⟩ := hrest.records i hi
          exact ⟨c, (hturn.other i fun heq => hk (heq ▸ hi)).symm.trans hc⟩
      · rw [hrest.blinds, hturn.blinds, Option.or_assoc]
        congr 1
        by_cases hik : i = k.toUInt32
        · subst hik
          have hnot : k.toUInt32 ∉ ks.map UInt16.toUInt32 := fun hmem => by
            obtain ⟨j, hj, heq⟩ := List.mem_map.mp hmem
            exact hk (toUInt32_inj heq ▸ hj)
          simp [hnot]
        · rw [if_neg hik, Option.none_or]
          by_cases hmem : i ∈ ks.map UInt16.toUInt32
          · obtain ⟨j, hj, rfl⟩ := List.mem_map.mp hmem
            rw [if_pos hmem, if_pos (by simp [hmem]), UInt16.toUInt16_toUInt32,
              hturn.reloadBlind fun heq => hk (heq ▸ hj)]
          · rw [if_neg hmem, if_neg (by simpa [hik] using hmem)]

/-- No more blinds are loaded than were listed. -/
theorem length_blindIds_le {ks : List UInt16} (h : ∀ i : UInt32, i ∈ d.blinds →
    i ∈ ks.map UInt16.toUInt32) : d.blindIds.length ≤ ks.length := by
  have hnodup : d.blinds.keys.Nodup := by
    refine Std.ExtTreeMap.distinct_keys.imp fun hab heq => hab ?_
    rw [heq]
    exact Std.ReflCmp.compare_self
  have hsub : d.blinds.keys ⊆ ks.map UInt16.toUInt32 := fun i hi =>
    h i (Std.ExtTreeMap.mem_keys.mp hi)
  have hle := (List.subperm_of_subset hnodup hsub).length_le
  rw [blindIds, List.length_map]
  simpa only [List.length_map] using hle

section Boot

variable {dc : DeviceConfig} {mqttEnabled : Bool} {slots : ℕ → RecvCommand}
  {history : List Happening}

/-- What is in memory when the loops have run. -/
structure Booted (dc : DeviceConfig) (d : Device) : Prop where
  remote : ∀ a, (d.remote? a).map (fun r => (r.remoteId, r.associatedBlinds)) =
    (dc.image.loaded a).map fun rc => (a, rc.blinds)
  records : ∀ k ∈ dc.getBlindIds, ∃ cfg, dc.getBlindConfig k = some cfg
  blind : ∀ i : UInt32, (d.blinds[i]?).map (fun b => (b.blindId, b.remote)) =
    if i ∈ dc.getBlindIds.map UInt16.toUInt32 then
      (dc.getBlindConfig i.toUInt16).bind fun cfg =>
        (d.remotes[cfg.remoteId]?).map fun p => (i.toUInt16, p)
    else none

theorem booted_loop (hh : dc.Healthy) (hnodup : dc.getBlindIds.Nodup) {s : Device × Bool}
    (h : dc.getBlindIds.foldlM loadBlind
      ((blank dc mqttEnabled slots history).loadRemotes, false) = some s) : Booted dc s.1 := by
  have hloads := loads_loadRemotes (blank dc mqttEnabled slots history)
  have hall := loadBlinds_run dc.getBlindIds
    (d := (blank dc mqttEnabled slots history).loadRemotes) (by rwa [hloads.config]) hnodup h
  refine ⟨fun a => ?_, fun k hk => ?_, fun i => ?_⟩
  · rw [remote?, hall.remotes, hall.heap]
    exact remote?_booted dc mqttEnabled slots history a
  · obtain ⟨cfg, hcfg⟩ := hall.records k hk
    rw [hloads.config] at hcfg
    exact ⟨cfg, hcfg⟩
  · have hempty : (blank dc mqttEnabled slots history).loadRemotes.blinds[i]? = none := by
      rw [hloads.blinds]
      simp [blank]
    rw [hall.blinds, hempty, Option.none_or, hall.remotes]
    split_ifs
    · rw [reloadBlind, hloads.config, Option.map_bind]
      change (dc.getBlindConfig i.toUInt16).bind _ = _
      refine congrArg (Option.bind _) (funext fun cfg => ?_)
      rw [Function.comp_apply, Option.map_map]
      rfl
    · rfl

theorem Booted.remote_iff (h : Booted dc d) {a : UInt32} {rc : RemoteConfig}
    (hrc : dc.image.loaded a = some rc) : ∃ p, d.remotes[a]? = some p ∧
      (d.heap p).remoteId = a ∧ (d.heap p).associatedBlinds = rc.blinds := by
  have hview := h.remote a
  rw [hrc, Option.map_some, remote?, Option.map_map] at hview
  obtain ⟨p, hp, heq⟩ := Option.map_eq_some_iff.mp hview
  exact ⟨p, hp, congrArg Prod.fst heq, congrArg Prod.snd heq⟩

theorem Booted.loaded_of (h : Booted dc d) {a : UInt32} {p : ℕ} (hp : d.remotes[a]? = some p) :
    ∃ rc, dc.image.loaded a = some rc ∧ (d.heap p).remoteId = a ∧
      (d.heap p).associatedBlinds = rc.blinds := by
  have hview := h.remote a
  rw [remote?, hp, Option.map_some, Option.map_some] at hview
  obtain ⟨rc, hrc, heq⟩ := Option.map_eq_some_iff.mp hview.symm
  exact ⟨rc, hrc, (congrArg Prod.fst heq).symm, (congrArg Prod.snd heq).symm⟩

theorem Booted.blind_of (h : Booted dc d) {i : UInt32} {b : Blind} (hb : d.blinds[i]? = some b) :
    ∃ k cfg, k ∈ dc.getBlindIds ∧ i = k.toUInt32 ∧ dc.getBlindConfig k = some cfg ∧
      d.remotes[cfg.remoteId]? = some b.remote ∧ b.blindId = k := by
  have hview := h.blind i
  rw [hb, Option.map_some] at hview
  split_ifs at hview with hmem
  obtain ⟨k, hk, rfl⟩ := List.mem_map.mp hmem
  obtain ⟨cfg, hcfg, hrest⟩ := Option.bind_eq_some_iff.mp hview.symm
  obtain ⟨p, hp, heq⟩ := Option.map_eq_some_iff.mp hrest
  rw [UInt16.toUInt16_toUInt32] at hcfg heq
  obtain ⟨rfl, rfl⟩ := Prod.mk.inj heq
  exact ⟨_, cfg, hk, rfl, hcfg, hp, rfl⟩

theorem Booted.blind_some (h : Booted dc d) {k : UInt16} {cfg : BlindConfig} {p : ℕ}
    (hk : k ∈ dc.getBlindIds) (hcfg : dc.getBlindConfig k = some cfg)
    (hp : d.remotes[cfg.remoteId]? = some p) :
    ∃ b, d.blinds[k.toUInt32]? = some b ∧ b.blindId = k ∧ b.remote = p := by
  have hview := h.blind k.toUInt32
  rw [if_pos (List.mem_map_of_mem hk), UInt16.toUInt16_toUInt32, hcfg, Option.bind_some, hp,
    Option.map_some] at hview
  obtain ⟨b, hb, heq⟩ := Option.map_eq_some_iff.mp hview
  exact ⟨b, hb, congrArg Prod.fst heq, congrArg Prod.snd heq⟩

/-- What is in memory is linked when the records are. -/
theorem Booted.linked_iff (h : Booted dc d) : d.Linked ↔ dc.image.Coherent := by
  constructor
  · intro hl
    refine ⟨h.records, fun k hk cfg hcfg rc hrc => ?_, fun a rc hrc i hi => ?_⟩
    · obtain ⟨p, hp, -, hlist⟩ := h.remote_iff hrc
      obtain ⟨b, hb, hid, hremote⟩ := h.blind_some hk hcfg hp
      have hin := (hl.primary _ b hb).2
      rwa [hremote, hlist, hid] at hin
    · obtain ⟨p, hp, -, hlist⟩ := h.remote_iff hrc
      obtain ⟨b, hb⟩ := mem_iff.mp (hl.known a p hp i (hlist ▸ hi))
      obtain ⟨k, cfg, hk, heq, hcfg, hremote, -⟩ := h.blind_of hb
      obtain rfl := toUInt32_inj heq
      obtain ⟨rc', hrc', -⟩ := h.loaded_of hremote
      exact ⟨hk, cfg, hcfg, by rw [hrc']; rfl⟩
  · intro hc
    refine ⟨fun a p hp i hi => ?_, fun i b hb => ?_⟩
    · obtain ⟨rc, hrc, -, hlist⟩ := h.loaded_of hp
      obtain ⟨hk, cfg, hcfg, hsome⟩ := hc.known a rc hrc i (hlist ▸ hi)
      obtain ⟨rc', hrc'⟩ := Option.isSome_iff_exists.mp hsome
      obtain ⟨q, hq, -⟩ := h.remote_iff hrc'
      obtain ⟨b, hb, -⟩ := h.blind_some hk hcfg hq
      exact mem_iff.mpr ⟨b, hb⟩
    · obtain ⟨k, cfg, hk, -, hcfg, hp, rfl⟩ := h.blind_of hb
      obtain ⟨rc, hrc, hid, hlist⟩ := h.loaded_of hp
      rw [hid, hlist]
      exact ⟨hp, hc.own _ hk cfg hcfg rc hrc⟩

/-- The device starts with links that lead somewhere exactly when the records are
coherent. -/
theorem boots_linked_iff (hh : dc.Healthy) (hnodup : dc.getBlindIds.Nodup)
    (hfew : dc.getBlindIds.length ≤ 128) :
    (∃ d, boot dc mqttEnabled slots history = some d ∧ d.Linked) ↔ dc.image.Coherent := by
  have hloads := loads_loadRemotes (blank dc mqttEnabled slots history)
  have hconfig : (blank dc mqttEnabled slots history).loadRemotes.config = dc := hloads.config
  constructor
  · rintro ⟨d, hboot, hl⟩
    unfold boot initializeBlinds at hboot
    rw [hconfig] at hboot
    obtain ⟨⟨d₁, errors⟩, hloop, hend⟩ := Option.bind_eq_some_iff.mp hboot
    have hbooted := booted_loop hh hnodup hloop
    refine hbooted.linked_iff.mp ?_
    dsimp only at hend
    split_ifs at hend
    · obtain ⟨config, rfl⟩ := saveBlindList_eq hend
      exact ⟨hl.known, hl.primary⟩
    · obtain rfl := Option.some.inj hend
      exact hl
  · intro hc
    obtain ⟨⟨d₁, errors⟩, hloop⟩ := loadBlinds_total dc.getBlindIds
      (d := (blank dc mqttEnabled slots history).loadRemotes) (by rwa [hconfig]) hnodup
      (by rw [hconfig]; exact hc.records) false
    have hbooted := booted_loop hh hnodup hloop
    have hl := hbooted.linked_iff.mpr hc
    unfold boot initializeBlinds
    rw [hconfig, hloop, Option.bind_some]
    dsimp only
    split_ifs
    · have hroom : d₁.blindIds.length ≤ 128 := by
        refine le_trans (length_blindIds_le fun i hi => ?_) hfew
        obtain ⟨b, hb⟩ := mem_iff.mp hi
        obtain ⟨k, -, hk, rfl, -⟩ := hbooted.blind_of hb
        exact List.mem_map_of_mem hk
      rw [saveBlindList, if_pos hroom]
      exact ⟨_, rfl, hl.known, hl.primary⟩
    · exact ⟨d₁, rfl, hl⟩

end Boot

end Device

end PicoSomfy
