import PicoSomfy.CleanRecords
import PicoSomfy.RequestCalls

/-!
# A graceful restart

When service mode ends, the marked remotes are saved, then every blind, and the next start
loads what the records hold. A record holds all of a remote or a blind whose name fits, of
a remote with at most 32 blinds, and of a remote whose id is read at all. A device of such
remotes and blinds starts again as it was, with its blinds at rest at their targets.
-/
namespace PicoSomfy

open SortedMap DeviceConfig CStrings

namespace Device

variable {d d' : Device}

/-- All positions of all blinds lie between 0 and 100. -/
def OnScale (d : Device) : Prop := ∀ (k : UInt32) (b : Blind), d.blinds[k]? = some b → b.InRange

theorem OnScale.reacts (h : d.OnScale) (hr : d.Reacts d') : d'.OnScale := fun k b' hb' => by
  obtain ⟨b, hb, hreact⟩ := hr.old_blind hb'
  exact hreact.inRange (h k b hb)

theorem Saves.old_blind (hs : d.Saves d') {k : UInt32} {b' : Blind} (hb' : d'.blinds[k]? = some b') :
    ∃ b, d.blinds[k]? = some b ∧ b' = { b with isDirty := b'.isDirty } := by
  have hk := hs.blind k
  rw [hb'] at hk
  generalize hx : d.blinds[k]? = x at hk
  cases hk with
  | @some b _ hk => exact ⟨b, rfl, hk⟩

theorem OnScale.saves (h : d.OnScale) (hs : d.Saves d') : d'.OnScale := fun k b' hb' => by
  obtain ⟨b, hb, heq⟩ := hs.old_blind hb'
  have hrange := h k b hb
  rw [heq]
  exact ⟨hrange.target, hrange.favourite, hrange.position⟩

theorem OnScale.restored {mqttEnabled : Bool} (h : d.OnScale) (hr : Restored mqttEnabled d d') :
    d'.OnScale := fun k b' hb' => by
  obtain ⟨b, p, hb, -, rfl⟩ := hr.old_blind mqttEnabled hb'
  exact reloaded_inRange (h k b hb) mqttEnabled p

/-- A new blind starts on the scale. -/
theorem newBlind_inRange (d : Device) (name : List UInt8) (openTime closeTime : Int32) :
    (d.newBlind name openTime closeTime).InRange := by
  refine ⟨(by decide : 0 ≤ (90 : Int32).toInt ∧ (90 : Int32).toInt ≤ 100),
    (by decide : 0 ≤ (50 : Int32).toInt ∧ (50 : Int32).toInt ≤ 100), ?_⟩
  change (0 : ℚ) ≤ ((90 : Int32).toInt : ℚ) ∧ ((90 : Int32).toInt : ℚ) ≤ 100
  exact_mod_cast (by decide : 0 ≤ (90 : Int32).toInt ∧ (90 : Int32).toInt ≤ 100)

/-- Every call keeps the blinds on the scale; a restart does if it loads what is there. -/
theorem OnScale.perform {c : Call} (h : d.OnScale) (hd : d.perform c = some d')
    (hrestart : ∀ mqttEnabled slots, c = .restart mqttEnabled slots → Restored mqttEnabled d d') :
    d'.OnScale := by
  by_cases hreacts : c.reacts = true
  · exact h.reacts (reacts_perform hreacts hd)
  cases c with
  | saveRemotes => exact h.saves (saves_saveRemoteState hd)
  | saveBlinds => exact h.saves (saves_saveBlindState hd)
  | restart mqttEnabled slots => exact h.restored (hrestart mqttEnabled slots rfl)
  | addBlind name openTime closeTime =>
      obtain ⟨config, rfl⟩ := addBlind_eq hd
      intro k b hb
      change (d.blinds.insertIfNew d.nextBlindId _)[k]? = some b at hb
      rw [get_insertIfNew] at hb
      split_ifs at hb
      · obtain rfl := Option.some.inj hb
        exact d.newBlind_inRange name openTime closeTime
      · exact h k b hb
  | updateBlind k b name openTime closeTime =>
      cases hd
      intro i c hc
      change (d.blinds.modify k _)[i]? = some c at hc
      rw [get_modify] at hc
      split_ifs at hc with hi
      · obtain ⟨c₀, hc₀, rfl⟩ := Option.map_eq_some_iff.mp hc
        have hrange := h i c₀ hc₀
        exact ⟨hrange.target, hrange.favourite, hrange.position⟩
      · exact h i c hc
  | removeBlind k b =>
      obtain ⟨config, rfl⟩ := removeBlind_eq hd
      intro i c hc
      rw [get_erase] at hc
      split_ifs at hc
      exact h i c hc
  | createRemote name =>
      obtain ⟨config, rfl⟩ := registerRemote_eq hd
      exact h
  | importRemote name id =>
      obtain ⟨config, rfl⟩ := registerRemote_eq hd
      exact h
  | deleteRemote id =>
      obtain ⟨config, rfl⟩ := deleteRemote_eq hd
      exact h
  | rename p name =>
      cases hd
      exact h
  | associate p blindId =>
      cases hd
      exact h
  | disassociate p blindId =>
      cases hd
      exact h
  | _ => exact absurd rfl hreacts

theorem lasting_perform {c : Call} (hd : d.perform c = some d') : d.Lasting d' := by
  by_cases hreacts : c.reacts = true
  · exact (reacts_perform hreacts hd).lasting
  cases c with
  | saveRemotes =>
      exact Transitions.foldlM_keeps
        (f := fun (d : Device) (entry : UInt32 × ℕ) => d.saveRemote entry.2 false) (R := Lasting)
        .refl .trans lasting_saveRemote hd
  | saveBlinds =>
      exact Transitions.foldlM_keeps (f := fun (d : Device) k => d.saveBlindAt false k)
        (R := Lasting) .refl .trans lasting_saveBlindAt hd
  | restart mqttEnabled slots => exact lasting_restart hd
  | addBlind name openTime closeTime => exact lasting_addBlind hd
  | removeBlind k b => exact lasting_removeBlind hd
  | createRemote name => exact lasting_createRemote hd
  | importRemote name id => exact lasting_registerRemote hd
  | deleteRemote id => exact lasting_deleteRemote hd
  | updateBlind k b name openTime closeTime =>
      cases hd
      exact id
  | rename p name =>
      cases hd
      exact id
  | associate p blindId =>
      cases hd
      exact id
  | disassociate p blindId =>
      cases hd
      exact id
  | _ => exact absurd rfl hreacts

/-- What holds in every state of a run in which no write was lost. -/
structure Sane (d : Device) : Prop where
  inv : d.Inv
  onScale : d.OnScale

theorem Sane.step {e : Event} (h : d.config.lost = false → d.Sane) (hr : d.Regular e)
    (hd : d.step e = some d') (hlost : d'.config.lost = false) : d'.Sane := by
  obtain ⟨c, hc, hv, hp⟩ := step_cases hd
  have hinv := Inv.perform (fun hl => (h hl).inv) hv (hr c hc) hp hlost
  refine ⟨hinv, (h (lasting_perform hp hlost)).onScale.perform hp fun mqttEnabled slots heq => ?_⟩
  subst heq
  exact (Inv.restart (fun hl => (h hl).inv) hp hlost).2.1

theorem fresh_sane {dc : DeviceConfig} {mqttEnabled : Bool} {slots : ℕ → RecvCommand}
    (hpages : dc.storage.blockPages = 1) (hok : ∀ i, dc.chip.verdict i = true)
    (h : freshDevice dc mqttEnabled slots = some d) : d.Sane := by
  obtain ⟨hinv, hres⟩ := fresh_inv hpages hok h
  refine ⟨hinv, fun k b hb => ?_⟩
  obtain ⟨b₀, p, hb₀, -⟩ := hres.old_blind mqttEnabled hb
  simp [blank] at hb₀

/-- The records of these remotes and blinds hold them whole, and they are read again. -/
structure Storable (d : Device) : Prop where
  remote : ∀ (id : UInt32) (p : ℕ), d.remotes[id]? = some p → ¬Reserved id ∧
    0 ∉ (d.heap p).remoteName ∧ (d.heap p).remoteName.length ≤ 47 ∧
      (d.heap p).associatedBlinds.length ≤ 32
  blind : ∀ (k : UInt32) (b : Blind), d.blinds[k]? = some b → 0 ∉ b.name ∧ b.name.length ≤ 47

theorem strcpy_short {name : List UInt8} (h : name.length ≤ 47) :
    ∃ s : CString 48, strcpy 48 name = some s := by
  have hlen : (cText name).length < 48 := (length_cText_le name).trans_lt (by omega)
  exact ⟨⟨cText name, hlen, zero_not_mem_cText name⟩, strcpy_eq_some.mpr rfl⟩

theorem saveRemoteState_total (h : d.Storable) : ∃ d', d.saveRemoteState = some d' := by
  obtain ⟨d', hd', -⟩ := Transitions.foldlM_total
    (f := fun (d : Device) (entry : UInt32 × ℕ) => d.saveRemote entry.2 false) (I := d.Saves)
    (fun {e entry} (hentry : entry ∈ d.remotes.toList) he => by
      have hname := (h.remote entry.1 entry.2 (mem_toList.mp hentry)).2.2.1
      have hsame : (e.heap entry.2).remoteName = (d.heap entry.2).remoteName := by
        rw [he.remote entry.2]
      rw [← hsame] at hname
      obtain ⟨s, hs⟩ := strcpy_short hname
      have hsave : ∃ e', e.saveRemote entry.2 false = some e' := by
        unfold saveRemote SomfyRemote.toConfig
        split_ifs
        · exact ⟨_, by rw [hs]; rfl⟩
        · exact ⟨e, rfl⟩
      obtain ⟨e', he'⟩ := hsave
      exact ⟨e', he', he.trans (saves_saveRemote he')⟩) (.refl d)
  exact ⟨d', hd'⟩

theorem saveBlindState_total (hnames : ∀ (k : UInt32) (b : Blind), d.blinds[k]? = some b →
    b.name.length ≤ 47) (force : Bool) : ∃ d', d.saveBlindState force = some d' := by
  obtain ⟨d', hd', -⟩ := Transitions.foldlM_total
    (f := fun (d : Device) k => d.saveBlindAt force k) (I := d.Saves)
    (fun {e k} (hk : k ∈ d.blinds.keys) he => by
      obtain ⟨b, hb⟩ := mem_iff.mp (Std.ExtTreeMap.mem_keys.mp hk)
      have hrel := he.blind k
      rw [hb] at hrel
      generalize hx : e.blinds[k]? = x at hrel
      cases hrel with
      | @some _ b' hb' =>
          obtain ⟨s, hs⟩ := strcpy_short (hnames k b hb)
          have hname : b'.name = b.name := by rw [hb']
          have hsave : ∃ e', e.saveBlindAt force k = some e' := by
            unfold saveBlindAt saveBlind Blind.toConfig
            rw [hx, Option.bind_some]
            split_ifs
            · exact ⟨_, by rw [hname, hs]; rfl⟩
            · exact ⟨_, rfl⟩
          obtain ⟨e', he'⟩ := hsave
          exact ⟨e', he', he.trans (saves_saveBlindAt he')⟩) (.refl d)
  exact ⟨d', hd'⟩

theorem saveAll_total (h : d.Storable) : ∃ d', d.saveAll = some d' := by
  obtain ⟨d₁, h₁⟩ := saveRemoteState_total h
  have hsaves := saves_saveRemoteState h₁
  obtain ⟨d₂, h₂⟩ := saveBlindState_total (fun k b' hb' => by
    obtain ⟨b, hb, heq⟩ := hsaves.old_blind hb'
    rw [heq]
    exact (h.blind k b hb).2) true
  exact ⟨d₂, Option.bind_eq_some_iff.mpr ⟨d₁, h₁, h₂⟩⟩

end Device

/-- What there is to a remote, apart from its marks. -/
def SomfyRemote.kept (r : SomfyRemote) : UInt32 × List UInt8 × UInt16 × List UInt16 × Bool :=
  (r.remoteId, r.remoteName, r.rollingCode, r.associatedBlinds, r.isExternal)

namespace Device

variable {d d' : Device}

/-- What there is to a blind at rest, with the id of its primary remote. -/
def keptBlind (d : Device) (b : Blind) :
    UInt16 × List UInt8 × Int32 × Int32 × Int32 × Int32 × UInt32 :=
  (b.blindId, b.name, b.targetPosition, b.favouritePosition, b.openTime, b.closeTime,
    (d.heap b.remote).remoteId)

/-- The second device has the remotes and the blinds of the first, and its blinds stand still
at their targets. -/
structure RestartsAs (d d' : Device) : Prop where
  remote : ∀ id : UInt32, (d'.remote? id).map (·.kept) = (d.remote? id).map (·.kept)
  blind : ∀ k : UInt32, (d'.blinds[k]?).map d'.keptBlind = (d.blinds[k]?).map d.keptBlind
  primary : ∀ (k : UInt32) (b : Blind), d'.blinds[k]? = some b →
    d'.remotes[(d'.heap b.remote).remoteId]? = some b.remote
  rest : ∀ (k : UInt32) (b : Blind), d'.blinds[k]? = some b → b.motionDirection = 0 ∧
    b.intermediatePosition = b.targetPosition.toInt

theorem Restored.restartsAs {mqttEnabled : Bool} (h : Restored mqttEnabled d d') (hs : d.Storable)
    (hscale : d.OnScale) (hreg : d.Registry) (hinv : d'.Inv) : d.RestartsAs d' where
  remote id := by
    rw [h.remote]
    cases hp : d.remotes[id]? with
    | none => simp [remote?, hp]
    | some p =>
        obtain ⟨hid, hname, -, hfew⟩ := hs.remote id p hp
        have hfields := reloaded_fields mqttEnabled (d.heap p)
        rw [if_neg hid, remote?, hp, Option.map_some, Option.map_some, Option.map_some]
        simp only [SomfyRemote.kept, hfields.1, hfields.2.1, hfields.2.2.2.1, hfields.2.2.2.2.1,
          hfields.2.2.2.2.2, cText_eq_self hname, List.take_of_length_le hfew, Option.map_some]
  blind k := by
    cases hb : d.blinds[k]? with
    | none => rw [h.blind, hb, Option.bind_none, Option.map_none, Option.map_none]
    | some b =>
        obtain ⟨p, -, hheap, hb'⟩ := h.new_blind mqttEnabled hreg hb
        rw [hb', Option.map_some, Option.map_some]
        simp only [keptBlind, hheap, (reloaded_fields mqttEnabled (d.heap b.remote)).1, Blind.reloaded,
          Blind.create, cText_eq_self (hs.blind k b hb).1, keeps_favourite (hscale k b hb).favourite]
  primary k b hb := (hinv.registry.primary hb).1
  rest k b' hb' := by
    obtain ⟨b, p, -, -, rfl⟩ := h.old_blind mqttEnabled hb'
    exact ⟨rfl, rfl⟩

/-- In every run from a reset device, the end of service mode saves what can be stored, and
when no write was lost every start restores it. -/
theorem graceful_restart {dc : DeviceConfig} {mqttEnabled : Bool} {slots : ℕ → RecvCommand}
    (hpages : dc.storage.blockPages = 1) (hok : ∀ i, dc.chip.verdict i = true) {d₀ : Device}
    (hd₀ : freshDevice dc mqttEnabled slots = some d₀) {es : List Event}
    (hrun : Transitions.Run step (fun d e => d.Regular e) d₀ es d) (hs : d.Storable) :
    ∃ d₁, d.saveAll = some d₁ ∧ (d₁.config.lost = false →
      ∀ (mqttEnabled : Bool) (slots : ℕ → RecvCommand), ∃ d₂,
        boot d₁.config mqttEnabled slots d₁.history = some d₂ ∧ d.RestartsAs d₂) := by
  have hend := hrun.invariant (I := fun d => d.config.lost = false → d.Sane)
    (fun h hr hstep hlost => Sane.step h hr hstep hlost) fun _ => fresh_sane hpages hok hd₀
  obtain ⟨d₁, h₁⟩ := saveAll_total hs
  refine ⟨d₁, h₁, fun hlost mqttEnabled slots => ?_⟩
  have hsane := hend (lasting_saveAll h₁ hlost)
  obtain ⟨hdurable, hsaves⟩ := saveAll_durable (fun _ => hsane.inv) h₁ hlost
  obtain ⟨d₂, hboot, hres, -, -, hinv⟩ := boot_inv mqttEnabled slots d₁.history hdurable
  exact ⟨d₂, hboot, (hsaves.restored hres).restartsAs hs hsane.onScale hsane.inv.registry hinv⟩

/-- A device with one blind stops and starts. -/
theorem graceful_restart_addBlind :
    ∃ d₀ d d₁ : Device, freshDevice oneSector false (fun _ => ⟨⟨0, 0, 0, 0⟩, 0⟩) = some d₀ ∧
      d₀.step addSalon = some d ∧ (∃ b, d.blinds[(1 : UInt32)]? = some b) ∧
      d.saveAll = some d₁ ∧ d₁.config.lost = false ∧
      ∀ (mqttEnabled : Bool) (slots : ℕ → RecvCommand), ∃ d₂,
        boot d₁.config mqttEnabled slots d₁.history = some d₂ ∧ d.RestartsAs d₂ := by
  obtain ⟨d₀, d, hd₀, hregular, hd, -, b, hb, -⟩ := first_blind
  have hany : (freshDevice oneSector false fun _ => ⟨⟨0, 0, 0, 0⟩, 0⟩).any (fun d₀ =>
      (d₀.step addSalon).any fun d =>
        (d.remotes.toList.all fun entry => decide (¬Reserved entry.1 ∧
          0 ∉ (d.heap entry.2).remoteName ∧ (d.heap entry.2).remoteName.length ≤ 47 ∧
            (d.heap entry.2).associatedBlinds.length ≤ 32)) &&
          (d.blinds.toList.all fun entry =>
            decide (0 ∉ entry.2.name ∧ entry.2.name.length ≤ 47)) &&
          d.saveAll.any fun d₁ => !d₁.config.lost) = true := by
    decide +kernel
  rw [hd₀, Option.any_some, hd, Option.any_some, Bool.and_eq_true, Bool.and_eq_true,
    List.all_eq_true, List.all_eq_true] at hany
  obtain ⟨⟨hremotes, hblinds⟩, hsaved⟩ := hany
  have hs : d.Storable := ⟨fun id p hp => of_decide_eq_true (hremotes (id, p) (mem_toList.mpr hp)),
    fun k b hb => of_decide_eq_true (hblinds (k, b) (mem_toList.mpr hb))⟩
  obtain ⟨d₁, h₁, hstarts⟩ := graceful_restart rfl (fun _ => rfl) hd₀ (.single hregular hd) hs
  rw [h₁, Option.any_some, Bool.not_eq_true'] at hsaved
  exact ⟨d₀, d, d₁, hd₀, hd, ⟨b, hb⟩, h₁, hsaved, hstarts hsaved⟩

end Device

end PicoSomfy
