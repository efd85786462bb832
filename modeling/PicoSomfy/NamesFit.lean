import PicoSomfy.CleanRecords
import PicoSomfy.RequestCalls

/-!
# Names and their records

A name is copied into a field of 48 bytes whenever its remote or its blind is saved. The
requests about remotes check the length first, and refuse an empty name and a double
quote. The requests about blinds check nothing, and name two objects each: the blind and
its primary remote.

When the names that are given to blinds would pass the same check, every name fits.
-/
namespace PicoSomfy

open SortedMap DeviceConfig CStrings

/-- The check that the requests about remotes make: 1 to 47 bytes without a double quote. -/
def FitsName (name : List UInt8) : Prop := name ≠ [] ∧ name.length + 1 ≤ 48 ∧ 34 ∉ name

instance (name : List UInt8) : Decidable (FitsName name) := by
  unfold FitsName
  infer_instance

theorem nameParam_fits {params : CgiParams} {name : List UInt8} (h : nameParam params = some name) :
    FitsName name := by
  unfold nameParam at h
  simpa [FitsName] using (Option.filter_eq_some_iff.mp h).2

/-- A name that fits is copied whole, up to a zero byte. -/
theorem FitsName.strcpy {name : List UInt8} (h : FitsName name) :
    ∃ s : CString 48, strcpy 48 name = some s := by
  have hlen : (cText name).length < 48 :=
    (List.takeWhile_prefix _).length_le.trans_lt (by have := h.2.1; omega)
  exact ⟨⟨cText name, hlen, zero_not_mem_cText name⟩, strcpy_eq_some.mpr rfl⟩

namespace Device

variable {d d' : Device}

/-- What holds of every object on the heap, registered or not. -/
structure ShortNames (d : Device) : Prop where
  heap : ∀ p < d.heapTop, FitsName (d.heap p).remoteName
  below : d.Below
  blind : ∀ (k : UInt32) (b : Blind), d.blinds[k]? = some b →
    FitsName b.name ∧ b.remote < d.heapTop

/-- The names that are copied at a save, and that they can be copied. -/
structure NamesFit (d : Device) : Prop where
  blind : ∀ (k : UInt32) (b : Blind), d.blinds[k]? = some b → FitsName b.name ∧
    ∀ id, (b.toConfig id).isSome
  primary : ∀ (k : UInt32) (b : Blind), d.blinds[k]? = some b →
    FitsName (d.heap b.remote).remoteName ∧ (d.heap b.remote).toConfig.isSome
  remote : ∀ (id : UInt32) (p : ℕ), d.remotes[id]? = some p →
    FitsName (d.heap p).remoteName ∧ (d.heap p).toConfig.isSome

theorem ShortNames.remote_fits (h : d.ShortNames) {p : ℕ} (hp : p < d.heapTop) :
    FitsName (d.heap p).remoteName ∧ (d.heap p).toConfig.isSome := by
  have hname := h.heap p hp
  obtain ⟨s, hs⟩ := hname.strcpy
  exact ⟨hname, by rw [SomfyRemote.toConfig, hs]; rfl⟩

theorem ShortNames.namesFit (h : d.ShortNames) : d.NamesFit where
  blind k b hb := by
    have hname := (h.blind k b hb).1
    obtain ⟨s, hs⟩ := hname.strcpy
    exact ⟨hname, fun id => by rw [Blind.toConfig, hs]; rfl⟩
  primary k b hb := h.remote_fits (h.blind k b hb).2
  remote id p hp := h.remote_fits (h.below hp)

/-- Objects keep their names and their places. -/
theorem ShortNames.same (h : d.ShortNames) (hs : SameRegistry d d')
    (hheap : ∀ p, (d'.heap p).remoteName = (d.heap p).remoteName)
    (hblind : ∀ (k : UInt32) (b' : Blind), d'.blinds[k]? = some b' →
      ∃ b, d.blinds[k]? = some b ∧ b'.name = b.name ∧ b'.remote = b.remote) : d'.ShortNames where
  heap p hp := by
    rw [hheap]
    rw [hs.heapTop] at hp
    exact h.heap p hp
  below {id p} hp := by
    rw [hs.remotes] at hp
    rw [hs.heapTop]
    exact h.below hp
  blind k b' hb' := by
    obtain ⟨b, hb, hname, hremote⟩ := hblind k b' hb'
    rw [hname, hremote, hs.heapTop]
    exact h.blind k b hb

theorem ShortNames.reacts (h : d.ShortNames) (hr : d.Reacts d') : d'.ShortNames := by
  refine h.same hr.sameRegistry (fun p => ?_) fun k b' hb' => ?_
  · rcases hr.remote p with heq | ⟨code, heq⟩ <;> rw [heq]
  · obtain ⟨b, hb, hreact⟩ := hr.old_blind hb'
    exact ⟨b, hb, hreact.settings.1, (Prod.ext_iff.mp hreact.link).2⟩

theorem ShortNames.saves (h : d.ShortNames) (hs : d.Saves d') : d'.ShortNames := by
  refine h.same hs.toSameRegistry (fun p => by rw [hs.remote p]) fun k b' hb' => ?_
  have hk := hs.blind k
  rw [hb'] at hk
  generalize hx : d.blinds[k]? = x at hk
  cases hk with
  | @some b _ hk => exact ⟨b, rfl, by rw [hk], by rw [hk]⟩

theorem ShortNames.modifyRemote (h : d.ShortNames) {p : ℕ} {f : SomfyRemote → SomfyRemote}
    (hf : FitsName (d.heap p).remoteName → FitsName (f (d.heap p)).remoteName) :
    (d.modifyRemote p f).ShortNames := by
  refine ⟨fun q hq => ?_, h.below, h.blind⟩
  by_cases hqp : q = p
  · subst hqp
    simp only [Device.modifyRemote, Function.update_self]
    exact hf (h.heap q hq)
  · simp only [Device.modifyRemote, Function.update_of_ne hqp]
    exact h.heap q hq

theorem ShortNames.rename (h : d.ShortNames) (p : ℕ) {name : List UInt8} (hname : FitsName name) :
    (d.modifyRemote p fun r => r.setName d.mqttEnabled name).ShortNames :=
  h.modifyRemote fun _ => by rwa [setName_name]

theorem associateBlind_name (r : SomfyRemote) (i : UInt16) :
    (r.associateBlind i).remoteName = r.remoteName := by
  unfold SomfyRemote.associateBlind
  split_ifs <;> rfl

theorem ShortNames.insertRemote (h : d.ShortNames) (id : UInt32) {r : SomfyRemote}
    (hr : FitsName r.remoteName) : (d.insertRemote id r).ShortNames := by
  refine ⟨fun p hp => ?_, below_insertRemote h.below id r, fun k b hb => ?_⟩
  · by_cases htop : p = d.heapTop
    · rw [htop, insertRemote_top]
      exact hr
    · have hlt : p < d.heapTop := lt_of_le_of_ne (Nat.lt_succ_iff.mp hp) htop
      rw [insertRemote_heap hlt]
      exact h.heap p hlt
  · obtain ⟨hname, hlt⟩ := h.blind k b hb
    exact ⟨hname, Nat.lt_succ_of_lt hlt⟩

theorem ShortNames.registerRemote (h : d.ShortNames) {name : List UInt8} {id : UInt32} {isExternal : Bool}
    (hname : FitsName name) (hd : d.registerRemote name id isExternal = some d') : d'.ShortNames := by
  obtain ⟨config, rfl⟩ := registerRemote_eq hd
  have hnew := h.insertRemote id (r := d.newRemote name id isExternal)
    (by rwa [newRemote_remoteName])
  exact ⟨hnew.heap, hnew.below, hnew.blind⟩

theorem ShortNames.addBlind (h : d.ShortNames) {name : List UInt8} {openTime closeTime : Int32}
    (hname : FitsName name) (hd : d.addBlind name openTime closeTime = some d') : d'.ShortNames := by
  obtain ⟨config, rfl⟩ := addBlind_eq hd
  have hnew := h.insertRemote d.nextRemoteId (r := d.newPrimary name) (by
    rw [newPrimary, associateBlind_name, newRemote_remoteName]
    exact hname)
  refine ⟨hnew.heap, hnew.below, fun k b hb => ?_⟩
  change (d.blinds.insertIfNew d.nextBlindId _)[k]? = some b at hb
  rw [get_insertIfNew] at hb
  split_ifs at hb
  · obtain rfl := Option.some.inj hb
    exact ⟨hname, Nat.lt_succ_self _⟩
  · exact hnew.blind k b hb

theorem ShortNames.updateConfig (h : d.ShortNames) (k : UInt32) (b : Blind) {name : List UInt8}
    (openTime closeTime : Int32) (hname : FitsName name) :
    (d.updateConfig k b name openTime closeTime).ShortNames := by
  have hblind : (d.modifyBlind k fun b =>
      b.updateConfig d.mqttEnabled name openTime closeTime).ShortNames := by
    refine ⟨h.heap, h.below, fun i c hc => ?_⟩
    change (d.blinds.modify k _)[i]? = some c at hc
    rw [get_modify] at hc
    split_ifs at hc with hi
    · obtain ⟨c₀, hc₀, rfl⟩ := Option.map_eq_some_iff.mp hc
      exact ⟨hname, (h.blind i c₀ hc₀).2⟩
    · exact h.blind i c hc
  exact hblind.rename b.remote hname

theorem ShortNames.eraseRemote (h : d.ShortNames) (id : UInt32) (config : DeviceConfig) :
    ShortNames { d with remotes := d.remotes.erase id, config := config } := by
  refine ⟨h.heap, fun {a p} hp => ?_, h.blind⟩
  rw [get_erase] at hp
  split_ifs at hp
  exact h.below hp

theorem ShortNames.eraseBlind (h : d.ShortNames) (k : UInt32) : ShortNames { d with blinds := d.blinds.erase k } := by
  refine ⟨h.heap, h.below, fun i b hb => ?_⟩
  rw [get_erase] at hb
  split_ifs at hb
  exact h.blind i b hb

end Device

/-- A call that gives a name gives one that fits. -/
def Call.FitsNames : Call → Prop
  | .addBlind name _ _ | .updateBlind _ _ name _ _ | .createRemote name | .importRemote name _
  | .rename _ name => FitsName name
  | _ => True

namespace Device

variable {d d' : Device}

theorem ShortNames.perform (h : d.ShortNames) {c : Call} (hf : c.FitsNames)
    (hrestart : ∀ mqttEnabled slots, c ≠ .restart mqttEnabled slots)
    (hd : d.perform c = some d') : d'.ShortNames := by
  by_cases hreacts : c.reacts = true
  · exact h.reacts (reacts_perform hreacts hd)
  cases c with
  | saveRemotes => exact h.saves (saves_saveRemoteState hd)
  | saveBlinds => exact h.saves (saves_saveBlindState hd)
  | restart mqttEnabled slots => exact absurd rfl (hrestart mqttEnabled slots)
  | addBlind name openTime closeTime => exact h.addBlind hf hd
  | updateBlind k b name openTime closeTime =>
      cases hd
      exact h.updateConfig k b openTime closeTime hf
  | removeBlind k b =>
      obtain ⟨config, rfl⟩ := removeBlind_eq hd
      exact (h.eraseBlind k).eraseRemote _ config
  | createRemote name =>
      have hnext : ShortNames { d with nextRemoteId := d.nextRemoteId + 1 } :=
        ⟨h.heap, h.below, h.blind⟩
      exact hnext.registerRemote hf hd
  | importRemote name id => exact h.registerRemote hf hd
  | rename p name =>
      cases hd
      exact h.rename p hf
  | deleteRemote id =>
      obtain ⟨config, rfl⟩ := deleteRemote_eq hd
      exact h.eraseRemote id config
  | associate p blindId =>
      cases hd
      exact h.modifyRemote fun hp => by rwa [associateBlind_name]
  | disassociate p blindId =>
      cases hd
      exact h.modifyRemote fun hp => hp
  | _ => exact absurd rfl hreacts

/-- A call that names a blind gives it a name that fits, and the device goes on. -/
def GivesName : Call → Prop
  | .addBlind name _ _ | .updateBlind _ _ name _ _ => FitsName name
  | .restart _ _ => False
  | _ => True

theorem call_fitsNames {e : Event} {c : Call} (h : d.call e = some c) (hg : GivesName c) :
    c.FitsNames := by
  have hasked := call_asked h
  cases c with
  | addBlind name openTime closeTime => exact hg
  | updateBlind k b name openTime closeTime => exact hg
  | createRemote name =>
      obtain ⟨params, locals, -, hname⟩ := hasked
      exact nameParam_fits hname
  | importRemote name id =>
      obtain ⟨params, locals, -, hname⟩ := hasked
      exact nameParam_fits hname
  | rename p name =>
      obtain ⟨params, locals, -, hname⟩ := hasked
      exact nameParam_fits hname
  | _ => trivial

/-- A reset device starts with nothing. -/
theorem freshDevice_eq {dc : DeviceConfig} (hpages : dc.storage.blockPages = 1)
    (hok : ∀ i, dc.chip.verdict i = true) (mqttEnabled : Bool) (slots : ℕ → RecvCommand) :
    freshDevice dc mqttEnabled slots = some (blank dc.hardReset mqttEnabled slots []) := by
  obtain ⟨-, hnone⟩ := dc.hardReset_read hpages hok
  have hinternal : dc.hardReset.getRemoteIds = [] :=
    getRemoteIds_of_stored ⟨by simp, .inr ⟨rfl, hnone .remoteIds nofun nofun⟩⟩
  have hexternal : dc.hardReset.getExternalRemoteIds = [] :=
    getExternalRemoteIds_of_stored ⟨by simp, .inr ⟨rfl, hnone .externalRemoteIds nofun nofun⟩⟩
  have hblinds : dc.hardReset.getBlindIds = [] :=
    getBlindIds_of_stored ⟨by simp, .inr ⟨rfl, hnone .blindIds nofun nofun⟩⟩
  have hremotes : (blank dc.hardReset mqttEnabled slots []).loadRemotes =
      blank dc.hardReset mqttEnabled slots [] := by
    simp only [loadRemotes, blank, hinternal, hexternal, List.foldl_nil]
  unfold freshDevice boot initializeBlinds
  rw [hremotes]
  change Option.bind (List.foldlM loadBlind _ dc.hardReset.getBlindIds) _ = _
  rw [hblinds]
  rfl

theorem shortNames_blank (config : DeviceConfig) (mqttEnabled : Bool) (slots : ℕ → RecvCommand)
    (history : List Happening) : (blank config mqttEnabled slots history).ShortNames :=
  ⟨fun _ hp => absurd hp (Nat.not_lt_zero _), fun hp => by simp [blank] at hp,
    fun _ _ hb => by simp [blank] at hb⟩

/-- In every run of a reset device whose requests give blinds names that fit, every name
fits. -/
theorem names_fit {dc : DeviceConfig} {mqttEnabled : Bool} {slots : ℕ → RecvCommand}
    (hpages : dc.storage.blockPages = 1) (hok : ∀ i, dc.chip.verdict i = true) {d₀ : Device}
    (hd₀ : freshDevice dc mqttEnabled slots = some d₀) {es : List Event}
    (hrun : Transitions.Run step (fun d e => ∀ c, d.call e = some c → GivesName c) d₀ es d) :
    d.NamesFit := by
  have hstart : d₀.ShortNames := by
    rw [freshDevice_eq hpages hok] at hd₀
    exact Option.some.inj hd₀ ▸ shortNames_blank _ _ _ _
  have hend := hrun.invariant (I := ShortNames)
    (fun {d e d'} h hguard hstep => by
      obtain ⟨c, hc, -, hp⟩ := step_cases hstep
      have hgives := hguard c hc
      refine h.perform (call_fitsNames hc hgives) (fun mqttEnabled slots heq => ?_) hp
      subst heq
      exact hgives) hstart
  exact hend.namesFit

theorem names_fit_addBlind :
    ∃ d₀ d : Device, freshDevice oneSector false (fun _ => ⟨⟨0, 0, 0, 0⟩, 0⟩) = some d₀ ∧
      d₀.step addSalon = some d ∧ (∃ b, d.blinds[(1 : UInt32)]? = some b) ∧ d.NamesFit := by
  obtain ⟨d₀, d, hd₀, -, hd, -, b, hb, -⟩ := first_blind
  have hguard : ∀ c, d₀.call addSalon = some c → GivesName c := by
    intro c hc
    obtain rfl := Option.some.inj ((call_addSalon d₀).symm.trans hc)
    change FitsName (ascii "salon")
    decide
  exact ⟨d₀, d, hd₀, hd, ⟨b, hb⟩, names_fit rfl (fun _ => rfl) hd₀ (.single hguard hd)⟩

/-- A name of 48 bytes for a blind that has one. -/
def lengthenName : Event :=
  .request .updateBlind (query [("id", "1"), ("openTime", "10"), ("closeTime", "10"),
    ("name", "a salon on the ground floor, facing the old mill")]) default

/-- The request is accepted, and the next save runs over the field. -/
theorem long_name_accepted :
    ∃ d₀ d : Device, freshDevice oneSector false (fun _ => ⟨⟨0, 0, 0, 0⟩, 0⟩) = some d₀ ∧
      Transitions.Run step Transitions.Free d₀ [addSalon, lengthenName] d ∧
      d.config.lost = false ∧ d.step .saveBlinds = none ∧ d.step .saveRemotes = none ∧
      ¬d.NamesFit := by
  have hany : (freshDevice oneSector false fun _ => ⟨⟨0, 0, 0, 0⟩, 0⟩).any (fun d₀ =>
      (Transitions.exec step d₀ [addSalon, lengthenName]).any fun d =>
        !d.config.lost && (d.step .saveBlinds).isNone && (d.step .saveRemotes).isNone &&
          (d.blinds[(1 : UInt32)]?).any fun b => b.name.length == 48) = true := by
    decide +kernel
  obtain ⟨d₀, hd₀, hrun⟩ := (Option.any_eq_true _ _).mp hany
  obtain ⟨d, hd, hrest⟩ := (Option.any_eq_true _ _).mp hrun
  simp only [Bool.and_eq_true, Bool.not_eq_true'] at hrest
  obtain ⟨⟨⟨hlost, hblinds⟩, hremotes⟩, hblind⟩ := hrest
  obtain ⟨b, hb, hlength⟩ := (Option.any_eq_true _ _).mp hblind
  refine ⟨d₀, d, hd₀, Transitions.run_of_exec hd, hlost, Option.isNone_iff_eq_none.mp hblinds,
    Option.isNone_iff_eq_none.mp hremotes, fun h => ?_⟩
  have hshort := (h.blind 1 b hb).1.2.1
  rw [beq_iff_eq.mp hlength] at hshort
  exact absurd hshort (by decide)

end Device

end PicoSomfy
