import PicoSomfy.Restart

/-!
# Runs of the device

Every call keeps the invariant of a device that lost no write, if it is valid and
regular; a freshly reset device has it. So it holds in every state of a run that
starts there.
-/
namespace PicoSomfy

open SortedMap DeviceConfig

namespace Device

variable {d d' : Device}

theorem lasting_registerRemote {name : List UInt8} {id : UInt32} {isExternal : Bool}
    (h : d.registerRemote name id isExternal = some d') : d.Lasting d' := fun hlost => by
  obtain ⟨d₁, h₁, h₂⟩ := Option.bind_eq_some_iff.mp h
  have k₁ := lasting_saveRemote h₁
  exact k₁ (lasting_saveRemoteList h₂ hlost)

theorem lasting_createRemote {name : List UInt8} (h : d.createRemote name = some d') :
    d.Lasting d' :=
  lasting_registerRemote (d := { d with nextRemoteId := d.nextRemoteId + 1 }) h

theorem lasting_deleteRemote {id : UInt32} (h : d.deleteRemote id = some d') : d.Lasting d' := by
  have k := lasting_saveRemoteList h
  exact k

theorem lasting_addBlind {name : List UInt8} {openTime closeTime : Int32}
    (h : d.addBlind name openTime closeTime = some d') : d.Lasting d' := fun hlost => by
  obtain ⟨d₁, h₁, h₂⟩ := Option.bind_eq_some_iff.mp h
  obtain ⟨⟨config, b⟩, hb, h₃⟩ := Option.bind_eq_some_iff.mp h₂
  have hlost₂ := lasting_saveBlindList h₃ hlost
  unfold saveBlind at hb
  rw [if_pos (Bool.or_true _)] at hb
  obtain ⟨c, -, heq⟩ := Option.map_eq_some_iff.mp hb
  cases heq
  exact lasting_createRemote h₁ (lost_saveBlindConfig _ _ hlost₂)

theorem lasting_removeBlind {k : UInt32} {b : Blind} (h : d.removeBlind k b = some d') :
    d.Lasting d' := fun hlost => by
  obtain ⟨d₁, h₁, h₂⟩ := Option.bind_eq_some_iff.mp h
  have k₁ := lasting_deleteRemote h₁
  have k₂ := lasting_saveBlindList h₂
  exact k₁ (k₂ hlost)

end Device

/-- The calls that only press buttons or let time pass. -/
def Call.reacts : Call → Bool
  | .nothing | .press _ _ _ | .goUp _ | .goDown _ | .stop _ | .goToPosition _ _ | .overheard _
  | .tick _ _ _ | .wait _ | .worker _ | .packetReady | .discover => true
  | _ => false

namespace Device

variable {d d' : Device}

theorem reacts_perform {c : Call} (hc : c.reacts = true) (h : d.perform c = some d') :
    d.Reacts d' := by
  cases c with
  | nothing => exact Option.some.inj h ▸ .refl d
  | press p buttons repeats => exact .pressButtons h
  | goUp k => exact .go h
  | goDown k => exact .go h
  | stop k => exact .stop h
  | goToPosition k position => exact .goToPosition h
  | overheard command => exact .externalButtonPress h
  | tick k position state => exact .tick h
  | wait microseconds =>
      cases h
      exact { Reacts.refl d with }
  | worker packet =>
      obtain ⟨radio, -, rfl⟩ := Option.map_eq_some_iff.mp h
      exact { Reacts.refl d with }
  | packetReady =>
      obtain ⟨radio, -, rfl⟩ := Option.map_eq_some_iff.mp h
      exact { Reacts.refl d with }
  | discover =>
      cases h
      exact { Reacts.refl d with }
  | _ => cases hc

/-- The changes of settings mark what they change. -/
theorem Stored.modifyRemote (h : d.Stored) {p : ℕ} {f : SomfyRemote → SomfyRemote}
    (hs : SameRegistry d (d.modifyRemote p f)) (hf : (f (d.heap p)).isDirty = true) :
    (d.modifyRemote p f).Stored := by
  refine h.quiet hs rfl fun q hq => ?_
  by_cases hqp : q = p
  · subst hqp
    simp only [Device.modifyRemote, Function.update_self, hf] at hq
    cases hq
  · simp only [Device.modifyRemote, Function.update_of_ne hqp]

theorem setName_fields (r : SomfyRemote) (mqttEnabled : Bool) (name : List UInt8) :
    (r.setName mqttEnabled name).remoteId = r.remoteId ∧
      (r.setName mqttEnabled name).isExternal = r.isExternal ∧
        (r.setName mqttEnabled name).isDirty = true ∧
          (r.setName mqttEnabled name).associatedBlinds = r.associatedBlinds ∧
            (r.setName mqttEnabled name).rollingCode = r.rollingCode := by
  unfold SomfyRemote.setName SomfyRemote.triggerPublishDiscovery
  split_ifs <;> exact ⟨rfl, rfl, rfl, rfl, rfl⟩

theorem Inv.rename (h : d.Inv) (p : ℕ) (name : List UInt8) :
    (d.modifyRemote p fun r => r.setName d.mqttEnabled name).Inv := by
  have hf := setName_fields (d.heap p) d.mqttEnabled name
  have hs := SameRegistry.modifyRemote d p (fun r => r.setName d.mqttEnabled name) hf.1 hf.2.1
  exact ⟨hs.registry h.registry, h.stored.modifyRemote hs hf.2.2.1⟩

/-- What every call keeps while no write is lost. -/
theorem Inv.perform {c : Call} (h : d.config.lost = false → d.Inv) (hv : c.Valid d)
    (hr : c.Regular d) (hd : d.perform c = some d') (hlost : d'.config.lost = false) :
    d'.Inv := by
  by_cases hc : c.reacts = true
  · have hreacts := reacts_perform hc hd
    have hinv := h (hreacts.lasting hlost)
    exact ⟨hreacts.sameRegistry.registry hinv.registry, hreacts.stored hinv.stored⟩
  cases c with
  | saveRemotes => exact (Inv.saveRemoteState h hd hlost).1
  | saveBlinds =>
      have hl : d.Lasting d' := Transitions.foldlM_keeps
        (f := fun (d : Device) k => d.saveBlindAt false k) (R := Lasting)
        .refl .trans lasting_saveBlindAt hd
      exact (h (hl hlost)).saveBlindState hd
  | restart mqttEnabled slots => exact (Inv.restart h hd hlost).1
  | addBlind name openTime closeTime =>
      exact (h (lasting_addBlind hd hlost)).addBlind hr.1 hr.2.1 hr.2.2 hd hlost
  | updateBlind k b name openTime closeTime =>
      cases hd
      have hinv := h hlost
      have hs := SameRegistry.modifyBlind d k
        (fun b => b.updateConfig d.mqttEnabled name openTime closeTime) fun _ _ => rfl
      have hinv' : (d.modifyBlind k fun b =>
          b.updateConfig d.mqttEnabled name openTime closeTime).Inv :=
        ⟨hs.registry hinv.registry, hinv.stored.quiet hs rfl fun _ _ => rfl⟩
      exact hinv'.rename b.remote name
  | removeBlind k b =>
      exact (h (lasting_removeBlind hd hlost)).removeBlind hv hr.1 hr.2 hd hlost
  | createRemote name => exact (h (lasting_createRemote hd hlost)).createRemote hr hd hlost
  | importRemote name id =>
      have hinv := h (lasting_registerRemote hd hlost)
      obtain ⟨hf, hi, hx⟩ := hr
      refine hinv.registerRemote hf ?_ ?_ ?_ hd hlost
      · exact nofun
      · exact hi
      · exact hx
  | rename p name =>
      cases hd
      exact (h hlost).rename p name
  | deleteRemote id =>
      have hinv := h (lasting_deleteRemote hd hlost)
      obtain ⟨⟨p, hp, rfl⟩, hprim⟩ := hv
      exact hinv.deleteRemote hr (mem_of_registered hinv.registry hp) hprim hd hlost
  | associate p blindId =>
      cases hd
      have hinv := h hlost
      have hf := associateBlind_fields (d.heap p) blindId
      have hs := SameRegistry.modifyRemote d p (fun r => r.associateBlind blindId) hf.1 hf.2
      exact ⟨hs.registry hinv.registry,
        hinv.stored.modifyRemote hs (associateBlind_isDirty _ _)⟩
  | disassociate p blindId =>
      cases hd
      have hinv := h hlost
      have hs := SameRegistry.modifyRemote d p (fun r => r.disassociateBlind blindId) rfl rfl
      exact ⟨hs.registry hinv.registry, hinv.stored.modifyRemote hs rfl⟩
  | _ => exact absurd rfl hc

/-- What the run asks of the calls besides the checks of the handlers. -/
def Regular (d : Device) (e : Event) : Prop := ∀ c, d.call e = some c → c.Regular d

theorem step_cases {e : Event} (h : d.step e = some d') :
    ∃ c, d.call e = some c ∧ c.Valid d ∧ d.perform c = some d' := by
  obtain ⟨c, hc, h⟩ := Option.bind_eq_some_iff.mp h
  exact ⟨c, hc, call_valid hc, h⟩

theorem Inv.step {e : Event} (h : d.config.lost = false → d.Inv) (hr : d.Regular e)
    (hd : d.step e = some d') (hlost : d'.config.lost = false) : d'.Inv := by
  obtain ⟨c, hc, hv, hp⟩ := step_cases hd
  exact Inv.perform h hv (hr c hc) hp hlost

end Device

/-- After a reset the store only has the Wi-Fi and the MQTT record. -/
theorem DeviceConfig.hardReset_read {dc : DeviceConfig} (hpages : dc.storage.blockPages = 1)
    (hok : ∀ i, dc.chip.verdict i = true) :
    dc.hardReset.Healthy ∧ ∀ r : Record, r ≠ .wifi → r ≠ .mqtt →
      dc.hardReset.read r.key = none := by
  have hformat : dc.format.Healthy := ⟨hpages, BlockStorage.rep_format hok⟩
  have hempty : ∀ r : Record, dc.format.read r.key = none := fun r => by
    rw [hformat.lookup]
    exact BlockStorage.lookup_format hok r.key
  have hwifi := hformat.onlyAt_write .wifi
    (WifiConfig.encode_bounds ⟨.empty (by decide), .empty (by decide)⟩).1
    (WifiConfig.encode_bounds _).2
  have hmqtt := hwifi.healthy.onlyAt_write .mqtt
    (MqttConfig.encode_bounds ⟨.empty (by decide), 1883, .empty (by decide), .empty (by decide),
      .empty (by decide)⟩).1 (MqttConfig.encode_bounds _).2
  refine ⟨hmqtt.healthy, fun r hw hm => ?_⟩
  have hne : ∀ s : Record, (∀ a, s ≠ .remote a) → r ≠ s → r.key ≠ s.key := fun s hs hrs hk => by
    rcases Record.key_eq hk with heq | ⟨a, b, -, hb, -⟩
    · exact hrs heq
    · exact hs b hb
  exact (hmqtt.other (hne .mqtt nofun hm)).trans
    ((hwifi.other (hne .wifi nofun hw)).trans (hempty r))

namespace Device

variable {d d' : Device}

/-- A device on which nothing is registered, over a store without a list. -/
theorem blank_durable {dc : DeviceConfig} (mqttEnabled : Bool) (slots : ℕ → RecvCommand)
    (history : List Happening) (hhealthy : dc.Healthy)
    (hnone : ∀ r : Record, r ≠ .wifi → r ≠ .mqtt → dc.read r.key = none) :
    (blank dc mqttEnabled slots history).Durable := by
  have noRemote : ∀ {a : UInt32} {p : ℕ},
      (blank dc mqttEnabled slots history).remotes[a]? = some p → False := fun hp => by
    simp [blank] at hp
  have noBlind : ∀ {k : UInt32} {b : Blind},
      (blank dc mqttEnabled slots history).blinds[k]? = some b → False := fun hb => by
    simp [blank] at hb
  refine ⟨⟨⟨fun hp => (noRemote hp).elim, fun hp => (noRemote hp).elim, ?_, fun ha => ?_,
    fun hb => (noBlind hb).elim, ?_, fun hb => (noBlind hb).elim, fun hb => (noBlind hb).elim⟩,
    ⟨⟨hhealthy, fun hp => (noRemote hp).elim⟩, ⟨⟨[], ⟨by decide, .inr ⟨rfl, ?_⟩⟩, ?_⟩,
      ⟨[], ⟨by decide, .inr ⟨rfl, ?_⟩⟩, ?_⟩⟩, ⟨[], ⟨by decide, .inr ⟨rfl, ?_⟩⟩, ?_⟩⟩⟩,
    fun hp => (noRemote hp).elim, fun hb => (noBlind hb).elim⟩
  · exact (by decide : 0x270000 < (baseRemoteId + 1).toNat ∧ (baseRemoteId + 1).toNat ≤ 0x280000)
  · obtain ⟨p, hp⟩ := mem_iff.mp ha
    exact (noRemote hp).elim
  · exact (by decide : (1 : UInt32).toNat ≤ 65536)
  · exact hnone .remoteIds (by simp) (by simp)
  · refine fun low => ⟨by simp, fun hlow => ?_⟩
    obtain ⟨id, p, hp, -⟩ := hlow
    exact (noRemote hp).elim
  · exact hnone .externalRemoteIds (by simp) (by simp)
  · refine fun id _ _ => ⟨by simp, fun hid => ?_⟩
    obtain ⟨p, hp, -⟩ := hid
    exact (noRemote hp).elim
  · exact hnone .blindIds (by simp) (by simp)
  · refine fun k => ⟨by simp, fun hk => ?_⟩
    obtain ⟨b, hb⟩ := mem_iff.mp hk
    exact (noBlind hb).elim

/-- A freshly reset device: nothing is registered yet. -/
theorem fresh_inv {dc : DeviceConfig} {mqttEnabled : Bool} {slots : ℕ → RecvCommand}
    (hpages : dc.storage.blockPages = 1) (hok : ∀ i, dc.chip.verdict i = true)
    (h : freshDevice dc mqttEnabled slots = some d) :
    d.Inv ∧ Restored mqttEnabled (blank dc.hardReset mqttEnabled slots []) d := by
  obtain ⟨hhealthy, hnone⟩ := dc.hardReset_read hpages hok
  obtain ⟨d', hboot, hres, -, -, hinv⟩ := boot_inv mqttEnabled slots []
    (blank_durable mqttEnabled slots [] hhealthy hnone)
  obtain rfl : d = d' := Option.some.inj (h.symm.trans hboot)
  exact ⟨hinv, hres⟩

/-- A blind is added over HTTP. -/
def addSalon : Event :=
  .request .addBlind (query [("name", "salon"), ("openTime", "10"), ("closeTime", "10")]) default

theorem call_addSalon (d : Device) : d.call addSalon = some (.addBlind (ascii "salon") 10 10) := by
  have hdo : doAddBlind (query [("name", "salon"), ("openTime", "10"), ("closeTime", "10")])
      default = some (.addBlind (ascii "salon") 10 10, true) := by rfl
  simp only [call, addSalon, handle, hdo, Option.map_some]

/-- A reset device has room for a blind, which is stored when it is added. -/
theorem first_blind :
    ∃ d₀ d : Device, freshDevice oneSector false (fun _ => ⟨⟨0, 0, 0, 0⟩, 0⟩) = some d₀ ∧
      d₀.Regular addSalon ∧ d₀.step addSalon = some d ∧ d.config.lost = false ∧
      ∃ b, d.blinds[(1 : UInt32)]? = some b ∧ b.isDirty = false := by
  have hany : (freshDevice oneSector false fun _ => ⟨⟨0, 0, 0, 0⟩, 0⟩).any (fun d₀ =>
      d₀.remotes.isEmpty && d₀.nextRemoteId == 0x270001 && d₀.nextBlindId == 1 &&
        d₀.internalIds.isEmpty && d₀.externalIds.isEmpty && d₀.blinds.size == 0 &&
        (d₀.step addSalon).any fun d =>
          !d.config.lost && (d.blinds[(1 : UInt32)]?).any fun b => !b.isDirty) = true := by
    decide +kernel
  obtain ⟨d₀, hd₀, hrest⟩ := (Option.any_eq_true _ _).mp hany
  simp only [Bool.and_eq_true, beq_iff_eq, List.isEmpty_iff] at hrest
  obtain ⟨⟨⟨⟨⟨⟨hremotes, hnext⟩, hnextBlind⟩, hinternal⟩, hexternal⟩, hblinds⟩, hstep⟩ := hrest
  obtain ⟨d, hd, hkept⟩ := (Option.any_eq_true _ _).mp hstep
  simp only [Bool.and_eq_true, Bool.not_eq_true'] at hkept
  obtain ⟨hlost, hblind⟩ := hkept
  obtain ⟨b, hb, hclean⟩ := (Option.any_eq_true _ _).mp hblind
  refine ⟨d₀, d, hd₀, fun c hc => ?_, hd, hlost, b, hb, by simpa using hclean⟩
  rw [call_addSalon] at hc
  cases hc
  refine ⟨⟨fun a ha => ?_, ?_, ?_, ?_⟩, ?_, ?_⟩
  · rw [Std.ExtTreeMap.isEmpty_iff.mp hremotes] at ha
    exact absurd ha Std.ExtTreeMap.not_mem_empty
  · rw [hnext]
    decide
  · rw [hinternal]
    decide
  · rw [hexternal]
    decide
  · rw [hnextBlind]
    decide
  · rw [hblinds]
    decide

end Device

end PicoSomfy
