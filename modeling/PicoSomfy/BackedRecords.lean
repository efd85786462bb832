import PicoSomfy.FlashImages

/-!
# Every object has its record

A registered remote has a record under the low half of its id, and the record of a blind
names its primary remote. Both hold between any two calls, whatever the records say
otherwise: an object is registered together with its first record, and a record is deleted
together with its object.
-/
namespace PicoSomfy

open SortedMap DeviceConfig

namespace Device

variable {d d' : Device}

structure Backed (d : Device) : Prop where
  remote : ∀ (a : UInt32) (p : ℕ), d.remotes[a]? = some p →
    ∃ rc, d.config.remoteAt a.toUInt16 = some rc
  blind : ∀ (k : UInt32) (b : Blind), d.blinds[k]? = some b →
    ∃ cfg, d.config.getBlindConfig b.blindId = some cfg ∧
      cfg.remoteId = (d.heap b.remote).remoteId
  nodup : d.config.getBlindIds.Nodup

theorem Stored.kept (h : d.Stored) : d.config.Kept :=
  ⟨h.clean.healthy, h.remotes.internal.imp fun _ hs => hs.1,
    h.remotes.external.imp fun _ hs => hs.1, h.blinds.imp fun _ hs => hs.1⟩

theorem Backed.same (h : d.Backed) (hs : SameRegistry d d') (hconfig : d'.config = d.config) :
    d'.Backed where
  remote a p hp := by
    rw [hs.remotes] at hp
    rw [hconfig]
    exact h.remote a p hp
  blind k b' hb' := by
    obtain ⟨b, hb, hid, hremote⟩ := hs.old_blind hb'
    rw [hconfig, hid, hremote, hs.remoteId]
    exact h.blind k b hb
  nodup := by
    rw [hconfig]
    exact h.nodup

theorem nodup_blindIds (hsmall : ∀ k ∈ d.blinds, k.toNat < 65536) : d.blindIds.Nodup := by
  have hnodup : d.blinds.keys.Nodup := by
    refine Std.ExtTreeMap.distinct_keys.imp fun hab heq => hab ?_
    rw [heq]
    exact Std.ReflCmp.compare_self
  refine List.Nodup.map_on (fun a ha b hb heq => ?_) hnodup
  rw [← toUInt32_toUInt16 (hsmall a (Std.ExtTreeMap.mem_keys.mp ha)), heq,
    toUInt32_toUInt16 (hsmall b (Std.ExtTreeMap.mem_keys.mp hb))]

theorem Backed.insertRemote (h : d.Backed) (hr : d.Registry) {id : UInt32} (hf : d.FreshHalf id)
    (r : SomfyRemote) {c : RemoteConfig} {config : DeviceConfig}
    (hremote : config.image.remote = Function.update d.config.image.remote id.toUInt16 (some c))
    (hblind : config.image.blind = d.config.image.blind)
    (hids : config.image.blindIds = d.config.image.blindIds) :
    Backed { d.insertRemote id r with config := config } where
  remote a p hp := by
    change ∃ rc, config.image.remote a.toUInt16 = some rc
    rw [hremote]
    by_cases hlow : a.toUInt16 = id.toUInt16
    · exact ⟨c, by rw [hlow, Function.update_self]⟩
    · rw [Function.update_of_ne hlow]
      rcases insertRemote_cases (r := r) hf hp with ⟨rfl, -⟩ | ⟨-, hold⟩
      · exact absurd rfl hlow
      · exact h.remote a p hold
  blind k b hb := by
    change ∃ cfg, config.image.blind b.blindId = some cfg ∧
      cfg.remoteId = ((d.insertRemote id r).heap b.remote).remoteId
    rw [hblind, insertRemote_heap (hr.registered (hr.primary hb).1).1]
    exact h.blind k b hb
  nodup := by
    change config.image.blindIds.Nodup
    rw [hids]
    exact h.nodup

theorem Backed.withBlind (h : d.Backed) (hr : d.Registry) (hmay : d.MayCreate)
    (hnext : d.nextBlindId.toNat < 65536) {name : List UInt8} {openTime closeTime : Int32}
    {c : RemoteConfig} {cfg : BlindConfig} (hcfg : cfg.remoteId = d.nextRemoteId)
    {config : DeviceConfig}
    (hremote : config.image.remote =
      Function.update d.config.image.remote d.nextRemoteId.toUInt16 (some c))
    (hblind : config.image.blind =
      Function.update d.config.image.blind d.nextBlindId.toUInt16 (some cfg))
    (hids : config.image.blindIds = (d.withBlind name openTime closeTime).blindIds) :
    Backed { d.withBlind name openTime closeTime with config := config } where
  remote a p hp := by
    change ∃ rc, config.image.remote a.toUInt16 = some rc
    rw [hremote]
    by_cases hlow : a.toUInt16 = d.nextRemoteId.toUInt16
    · exact ⟨c, by rw [hlow, Function.update_self]⟩
    · rw [Function.update_of_ne hlow]
      rcases insertRemote_cases hmay.1 (r := d.newPrimary name) hp with ⟨rfl, -⟩ | ⟨-, hold⟩
      · exact absurd rfl hlow
      · exact h.remote a p hold
  blind k b hb := by
    change (d.blinds.insertIfNew d.nextBlindId (d.newBlind name openTime closeTime))[k]? =
      some b at hb
    change ∃ cfg, config.image.blind b.blindId = some cfg ∧
      cfg.remoteId = ((d.insertRemote d.nextRemoteId (d.newPrimary name)).heap b.remote).remoteId
    rw [get_insertIfNew_fresh hr.next_blind_new] at hb
    split_ifs at hb
    · obtain rfl := Option.some.inj hb
      change ∃ cfg, config.image.blind d.nextBlindId.toUInt16 = some cfg ∧
        cfg.remoteId = ((d.insertRemote d.nextRemoteId (d.newPrimary name)).heap
          d.heapTop).remoteId
      rw [hblind, Function.update_self, insertRemote_top, newPrimary_remoteId]
      exact ⟨cfg, rfl, hcfg⟩
    · have hne : b.blindId ≠ d.nextBlindId.toUInt16 := fun heq => by
        have hlt := (hr.blind hb).2
        rw [← (hr.blind hb).1, heq, toUInt32_toUInt16 hnext] at hlt
        exact absurd hlt (lt_irrefl _)
      rw [hblind, Function.update_of_ne hne,
        insertRemote_heap (hr.registered (hr.primary hb).1).1]
      exact h.blind k b hb
  nodup := by
    change config.image.blindIds.Nodup
    rw [hids]
    exact nodup_blindIds fun k hk => (hr.withBlind name openTime closeTime hmay hnext).blind_small hk

/-- The other remotes keep their records. -/
theorem Backed.other_remote (h : d.Backed) (hr : d.Registry) {id : UInt32} (hid : id ∈ d.remotes)
    {a : UInt32} {p : ℕ} (hp : (d.remotes.erase id)[a]? = some p) :
    ∃ rc, Function.update d.config.image.remote id.toUInt16 none a.toUInt16 = some rc := by
  rw [get_erase] at hp
  split_ifs at hp with ha
  have hlow : a.toUInt16 ≠ id.toUInt16 := fun heq =>
    ha (hr.lowHalves (mem_iff.mpr ⟨p, hp⟩) hid heq).symm
  rw [Function.update_of_ne hlow]
  exact h.remote a p hp

theorem Backed.eraseRemote (h : d.Backed) (hr : d.Registry) {id : UInt32} (hid : id ∈ d.remotes)
    {config : DeviceConfig}
    (hremote : config.image.remote = Function.update d.config.image.remote id.toUInt16 none)
    (hblind : config.image.blind = d.config.image.blind)
    (hids : config.image.blindIds = d.config.image.blindIds) :
    Backed { d with remotes := d.remotes.erase id, config := config } where
  remote a p hp := by
    change ∃ rc, config.image.remote a.toUInt16 = some rc
    rw [hremote]
    exact h.other_remote hr hid hp
  blind k b hb := by
    change ∃ cfg, config.image.blind b.blindId = some cfg ∧ _
    rw [hblind]
    exact h.blind k b hb
  nodup := by
    change config.image.blindIds.Nodup
    rw [hids]
    exact h.nodup

theorem Backed.removeBlind (h : d.Backed) (hr : d.Registry) {k : UInt32} (hk : k ∈ d.blinds)
    {id : UInt32} (hid : id ∈ d.remotes) {config : DeviceConfig}
    (hremote : config.image.remote = Function.update d.config.image.remote id.toUInt16 none)
    (hblind : config.image.blind = Function.update d.config.image.blind k.toUInt16 none)
    (hids : config.image.blindIds = blindIds { d with blinds := d.blinds.erase k }) :
    Backed { d with blinds := d.blinds.erase k, remotes := d.remotes.erase id, config := config }
    where
  remote a p hp := by
    change ∃ rc, config.image.remote a.toUInt16 = some rc
    rw [hremote]
    exact h.other_remote hr hid hp
  blind i b hb := by
    change ∃ cfg, config.image.blind b.blindId = some cfg ∧ _
    rw [get_erase] at hb
    split_ifs at hb with hik
    have hne : b.blindId ≠ k.toUInt16 := fun heq => hik (by
      rw [← (hr.blind hb).1, heq, toUInt32_toUInt16 (hr.blind_small hk)])
    rw [hblind, Function.update_of_ne hne]
    exact h.blind i b hb
  nodup := by
    change config.image.blindIds.Nodup
    rw [hids]
    exact nodup_blindIds fun i hi => (hr.eraseBlind k).blind_small hi

/-- What the loops that save keep, with the registry that does not change. -/
structure Secured (d : Device) : Prop where
  registry : d.Registry
  kept : d.config.Kept
  backed : d.Backed

theorem Secured.saveRemote (h : d.Secured) {p : ℕ} {force : Bool}
    (hd : d.saveRemote p force = some d') (hlost : d'.config.lost = false) : d'.Secured := by
  have hs := (saves_saveRemote hd).toSameRegistry
  rcases saveRemote_cases hd with ⟨rfl, -⟩ | ⟨c, -, rfl⟩
  · exact h
  obtain ⟨hkept, himage⟩ := FlashCall.image_run (f := .saveRemote (d.heap p).remoteId c) h.kept
    trivial hlost
  refine ⟨hs.registry h.registry, hkept, fun a q hq => ?_, fun k b hb => ?_, ?_⟩
  · change ∃ rc, (d.config.saveRemoteConfig (d.heap p).remoteId c).image.remote a.toUInt16 = some rc
    rw [show (d.config.saveRemoteConfig (d.heap p).remoteId c).image = _ from himage]
    by_cases hlow : a.toUInt16 = (d.heap p).remoteId.toUInt16
    · exact ⟨c, by rw [hlow]; exact Function.update_self _ _ _⟩
    · obtain ⟨rc, hrc⟩ := h.backed.remote a q hq
      exact ⟨rc, (Function.update_of_ne hlow _ _).trans hrc⟩
  · obtain ⟨cfg, hcfg, hid⟩ := h.backed.blind k b hb
    refine ⟨cfg, ?_, hid.trans (hs.remoteId b.remote).symm⟩
    exact (congrFun (congrArg FlashImage.blind himage) b.blindId).trans hcfg
  · have hids := congrArg FlashImage.blindIds himage
    change (d.config.saveRemoteConfig (d.heap p).remoteId c).getBlindIds.Nodup
    rw [show (d.config.saveRemoteConfig (d.heap p).remoteId c).getBlindIds = _ from hids]
    exact h.backed.nodup

theorem Secured.saveBlindAt (h : d.Secured) {force : Bool} {k : UInt32}
    (hd : d.saveBlindAt force k = some d') (hlost : d'.config.lost = false) : d'.Secured := by
  have hs := (saves_saveBlindAt hd).toSameRegistry
  obtain ⟨b, hb, ⟨rfl, -⟩ | ⟨c, hc, rfl⟩⟩ := saveBlindAt_cases hd
  · exact ⟨hs.registry h.registry, h.kept, h.backed.same hs rfl⟩
  obtain ⟨hkept, himage⟩ := FlashCall.image_run (f := .saveBlind b.blindId c) h.kept trivial hlost
  obtain ⟨-, -, -, -, -, hid⟩ := blind_toConfig_eq hc
  refine ⟨hs.registry h.registry, hkept, fun a q hq => ?_, fun i b' hb' => ?_, ?_⟩
  · obtain ⟨rc, hrc⟩ := h.backed.remote a q hq
    exact ⟨rc, (congrFun (congrArg FlashImage.remote himage) a.toUInt16).trans hrc⟩
  · obtain ⟨b₀, hb₀, hid₀, hremote⟩ := hs.old_blind hb'
    change ∃ cfg, (d.config.saveBlindConfig b.blindId c).image.blind b'.blindId = some cfg ∧
      cfg.remoteId = (d.heap b'.remote).remoteId
    rw [show (d.config.saveBlindConfig b.blindId c).image = _ from himage, hid₀, hremote]
    by_cases hsame : b₀.blindId = b.blindId
    · have hkeys : i = k := by rw [← (h.registry.blind hb₀).1, hsame, (h.registry.blind hb).1]
      obtain rfl : b₀ = b := Option.some.inj (hb₀.symm.trans (hkeys ▸ hb))
      exact ⟨c, Function.update_self _ _ _, hid⟩
    · obtain ⟨cfg, hcfg, hcid⟩ := h.backed.blind i b₀ hb₀
      exact ⟨cfg, (Function.update_of_ne hsame _ _).trans hcfg, hcid⟩
  · have hids := congrArg FlashImage.blindIds himage
    change (d.config.saveBlindConfig b.blindId c).getBlindIds.Nodup
    rw [show (d.config.saveBlindConfig b.blindId c).getBlindIds = _ from hids]
    exact h.backed.nodup

theorem Secured.saveRemoteState (h : d.config.lost = false → d.Secured)
    (hd : d.saveRemoteState = some d') : d'.config.lost = false → d'.Secured :=
  Transitions.foldlM_invariant
    (f := fun (d : Device) (entry : UInt32 × ℕ) => d.saveRemote entry.2 false)
    (fun _ e => e.config.lost = false → e.Secured)
    (fun he hs hlost => (he (lasting_saveRemote hs hlost)).saveRemote hs hlost) h hd

theorem Secured.saveBlindState (h : d.config.lost = false → d.Secured) {force : Bool}
    (hd : d.saveBlindState force = some d') : d'.config.lost = false → d'.Secured :=
  Transitions.foldlM_invariant (f := fun (d : Device) k => d.saveBlindAt force k)
    (fun _ e => e.config.lost = false → e.Secured)
    (fun he hs hlost => (he (lasting_saveBlindAt hs hlost)).saveBlindAt hs hlost) h hd

/-- The new device has what was saved last. -/
theorem Backed.restart {mqttEnabled : Bool} {slots : ℕ → RecvCommand}
    (h : d.config.lost = false → d.Inv ∧ d.Backed) (hd : d.restart mqttEnabled slots = some d')
    (hlost : d'.config.lost = false) : d'.Backed := by
  obtain ⟨d₁, h₁, h₂⟩ := Option.bind_eq_some_iff.mp hd
  have hlost₁ := lasting_boot h₂ hlost
  obtain ⟨hdurable, -⟩ := saveAll_durable (fun hl => (h hl).1) h₁ hlost₁
  obtain ⟨d₂, hboot, hres, hconfig, -, hinv⟩ := boot_inv mqttEnabled slots d₁.history hdurable
  obtain rfl : d' = d₂ := Option.some.inj (h₂.symm.trans hboot)
  obtain ⟨e, he, hrest⟩ := Option.bind_eq_some_iff.mp h₁
  have hsecured := Secured.saveBlindState (Secured.saveRemoteState (fun hl =>
    ⟨(h hl).1.registry, (h hl).1.stored.kept, (h hl).2⟩) he) hrest hlost₁
  refine ⟨fun a p hp => ?_, fun k b' hb' => ?_, hconfig ▸ hsecured.backed.nodup⟩
  · obtain ⟨-, q, hq, -⟩ := hres.old_remote mqttEnabled hp
    exact hconfig ▸ hsecured.backed.remote a q hq
  · obtain ⟨b, p, hb, hp, rfl⟩ := hres.old_blind mqttEnabled hb'
    obtain ⟨q, hq, hheap, -⟩ := hres.new_blind mqttEnabled hdurable.inv.registry hb
    obtain rfl : p = q := Option.some.inj (hp.symm.trans hq)
    obtain ⟨cfg, hcfg, hid⟩ := hsecured.backed.blind k b hb
    refine ⟨cfg, hconfig ▸ hcfg, hid.trans ?_⟩
    change _ = (d'.heap p).remoteId
    rw [hheap, (reloaded_fields mqttEnabled _).1]

theorem registerCalls_fit
    (hbelow : ∀ {a : UInt32} {p : ℕ}, d.remotes[a]? = some p → p < d.heapTop)
    {name : List UInt8} {id : UInt32} {isExternal : Bool} (hf : d.FreshHalf id)
    (hi : d.internalIds.length + (if isExternal then 0 else 1) ≤ 124)
    (hx : d.externalIds.length + (if isExternal then 1 else 0) ≤ 62) :
    ∀ f ∈ d.registerCalls name id isExternal, f.Fits := by
  have hfew := fewRemotes_insert hbelow hf.not_mem
    (r := d.newRemote name id isExternal) (by simpa using hi) (by simpa using hx)
  intro f hmem
  rcases List.mem_append.mp hmem with hnew | hlists
  · obtain ⟨c, -, rfl⟩ := List.mem_map.mp hnew
    trivial
  · simp only [remoteListCalls, List.mem_cons, List.not_mem_nil, or_false] at hlists
    rcases hlists with rfl | rfl
    · exact hfew.1
    · exact hfew.2

theorem deleteCalls_fit (hfew : d.FewRemotes) (id : UInt32) : ∀ f ∈ d.deleteCalls id, f.Fits := by
  obtain ⟨hi, hx⟩ := fewRemotes_erase hfew id
  intro f hmem
  simp only [deleteCalls, remoteListCalls, List.mem_cons, List.not_mem_nil, or_false] at hmem
  rcases hmem with rfl | rfl | rfl
  · trivial
  · exact hi
  · exact hx

/-- The lists of a regular call fit into their blocks. -/
theorem flashCalls_fit (hr : d.Registry) {c : Call} (hc : c.Regular d) :
    ∀ f ∈ c.flashCalls d, f.Fits := by
  cases c with
  | addBlind name openTime closeTime =>
      obtain ⟨⟨hf, -, hi, hx⟩, -, hsize⟩ := hc
      intro f hmem
      rcases List.mem_append.mp hmem with hremote | hrest
      · refine registerCalls_fit (d := { d with nextRemoteId := d.nextRemoteId + 1 })
          (fun hp => (hr.registered hp).1) hf ?_ ?_ f hremote
        · exact hi
        · exact hx
      · rcases List.mem_append.mp hrest with hblind | hlist
        · obtain ⟨cfg, -, rfl⟩ := List.mem_map.mp hblind
          trivial
        · obtain rfl := List.mem_singleton.mp hlist
          change (d.withBlind name openTime closeTime).blindIds.length ≤ 124
          rw [length_blindIds]
          exact Std.ExtTreeMap.size_insertIfNew_le.trans hsize
  | createRemote name =>
      obtain ⟨hf, -, hi, hx⟩ := hc
      refine registerCalls_fit (d := { d with nextRemoteId := d.nextRemoteId + 1 })
        (fun hp => (hr.registered hp).1) hf ?_ ?_
      · exact hi
      · exact hx
  | importRemote name id =>
      obtain ⟨hf, hi, hx⟩ := hc
      refine registerCalls_fit (fun hp => (hr.registered hp).1) hf ?_ ?_
      · exact hi
      · exact hx
  | deleteRemote id => exact deleteCalls_fit hc id
  | removeBlind k b =>
      intro f hmem
      rcases List.mem_append.mp hmem with hremote | hrest
      · exact deleteCalls_fit (d := { d with blinds := d.blinds.erase k }) hc.1 _ f hremote
      · simp only [List.mem_cons, List.not_mem_nil, or_false] at hrest
        rcases hrest with rfl | rfl
        · trivial
        · change (blindIds { d with blinds := d.blinds.erase k }).length ≤ 124
          rw [length_blindIds]
          exact Std.ExtTreeMap.size_erase_le.trans hc.2
  | _ => exact fun f hmem => absurd hmem List.not_mem_nil

/-- What is in flash after a call that lost no write. -/
theorem perform_image {c : Call} (h : d.Inv) (hr : c.Regular d) (hsaves : c.saves = false)
    (hd : d.perform c = some d') (hlost : d'.config.lost = false) :
    d'.config.image = (c.flashCalls d).foldl FlashCall.act d.config.image := by
  have hconfig := perform_config hsaves hd
  rw [hconfig] at hlost ⊢
  exact (FlashCall.image_runs h.stored.kept (flashCalls_fit h.registry hr) hlost).2

theorem Backed.perform {c : Call} (h : d.config.lost = false → d.Inv ∧ d.Backed) (hv : c.Valid d)
    (hr : c.Regular d) (hd : d.perform c = some d') (hlost : d'.config.lost = false) :
    d'.Backed := by
  by_cases hc : c.reacts = true
  · have hreacts := reacts_perform hc hd
    exact (h (hreacts.lasting hlost)).2.same hreacts.sameRegistry hreacts.config
  by_cases hsaves : c.saves = true
  · have hsecured : d.config.lost = false → d.Secured := fun hl =>
      ⟨(h hl).1.registry, (h hl).1.stored.kept, (h hl).2⟩
    cases c with
    | saveRemotes => exact (Secured.saveRemoteState hsecured hd hlost).backed
    | saveBlinds => exact (Secured.saveBlindState hsecured hd hlost).backed
    | restart mqttEnabled slots => exact Backed.restart h hd hlost
    | _ => cases hsaves
  rw [Bool.not_eq_true] at hsaves
  have hlost₀ : d.config.lost = false := by
    rw [perform_config hsaves hd] at hlost
    exact FlashCall.lost_runs hlost
  obtain ⟨hinv, hbacked⟩ := h hlost₀
  have himage := perform_image hinv hr hsaves hd hlost
  have hreg := hinv.registry
  cases c with
  | addBlind name openTime closeTime =>
      obtain ⟨c, cfg, -, hcfg, hcalls⟩ := addBlind_calls hd
      rw [hcalls] at himage
      obtain ⟨config, rfl⟩ := addBlind_eq hd
      exact hbacked.withBlind hreg hr.1 hr.2.1 hcfg (congrArg FlashImage.remote himage :)
        (congrArg FlashImage.blind himage :) (congrArg FlashImage.blindIds himage :)
  | updateBlind k b name openTime closeTime =>
      cases hd
      have hs := SameRegistry.modifyBlind d k
        (fun b => b.updateConfig d.mqttEnabled name openTime closeTime) fun _ _ => rfl
      have hf := setName_fields (d.heap b.remote) d.mqttEnabled name
      exact (hbacked.same hs rfl).same (SameRegistry.modifyRemote _ b.remote
        (fun r => r.setName d.mqttEnabled name) hf.1 hf.2.1) rfl
  | removeBlind k b =>
      obtain ⟨config, rfl⟩ := removeBlind_eq hd
      exact hbacked.removeBlind hreg (mem_iff.mpr ⟨b, hv⟩)
        (mem_iff.mpr ⟨_, (hreg.primary hv).1⟩) (congrArg FlashImage.remote himage :)
        (congrArg FlashImage.blind himage :) (congrArg FlashImage.blindIds himage :)
  | createRemote name =>
      obtain ⟨c, -, hcalls⟩ := registerCalls_eq hd
      rw [Call.flashCalls, hcalls] at himage
      obtain ⟨config, rfl⟩ := registerRemote_eq hd
      have hnew := hbacked.insertRemote hreg hr.1 (d.newRemote name d.nextRemoteId false)
        (congrArg FlashImage.remote himage :) (congrArg FlashImage.blind himage :)
        (congrArg FlashImage.blindIds himage :)
      exact ⟨hnew.remote, hnew.blind, hnew.nodup⟩
  | importRemote name id =>
      obtain ⟨c, -, hcalls⟩ := registerCalls_eq hd
      rw [Call.flashCalls, hcalls] at himage
      obtain ⟨config, rfl⟩ := registerRemote_eq hd
      exact hbacked.insertRemote hreg hr.1 _ (congrArg FlashImage.remote himage :)
        (congrArg FlashImage.blind himage :) (congrArg FlashImage.blindIds himage :)
  | rename p name =>
      cases hd
      have hf := setName_fields (d.heap p) d.mqttEnabled name
      exact hbacked.same (SameRegistry.modifyRemote d p (fun r => r.setName d.mqttEnabled name)
        hf.1 hf.2.1) rfl
  | deleteRemote id =>
      obtain ⟨⟨p, hp, rfl⟩, -⟩ := hv
      obtain ⟨config, rfl⟩ := deleteRemote_eq hd
      exact hbacked.eraseRemote hreg (mem_of_registered hreg hp)
        (congrArg FlashImage.remote himage :) (congrArg FlashImage.blind himage :)
        (congrArg FlashImage.blindIds himage :)
  | associate p blindId =>
      cases hd
      have hf := associateBlind_fields (d.heap p) blindId
      exact hbacked.same (SameRegistry.modifyRemote d p (fun r => r.associateBlind blindId)
        hf.1 hf.2) rfl
  | disassociate p blindId =>
      cases hd
      exact hbacked.same (SameRegistry.modifyRemote d p (fun r => r.disassociateBlind blindId)
        rfl rfl) rfl
  | saveRemotes => cases hsaves
  | saveBlinds => cases hsaves
  | restart mqttEnabled slots => cases hsaves
  | _ => exact absurd rfl hc

end Device

end PicoSomfy
