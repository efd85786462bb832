import PicoSomfy.DeviceRuns
import PicoSomfy.Presses

/-!
# Links between remotes and blinds

A press looks up every blind of the remote with `map::at`, and a blind is commanded
through its primary remote. `Linked` says that these links lead somewhere, in both
directions.

Deleting a blind only takes it from its primary remote, which goes with it: another
remote that is bound to the blind keeps the id. And a blind can be taken from its primary
remote like from any other. A run that does neither keeps the links. A restart cuts the
list of a remote after 32 blinds, but the blind a remote is primary for comes first.
-/
namespace PicoSomfy

open SortedMap DeviceConfig

namespace Device

variable {d d' : Device}

structure Linked (d : Device) : Prop where
  known : ∀ (id : UInt32) (p : ℕ), d.remotes[id]? = some p →
    ∀ i ∈ (d.heap p).associatedBlinds, i.toUInt32 ∈ d.blinds
  primary : ∀ (k : UInt32) (b : Blind), d.blinds[k]? = some b →
    d.remotes[(d.heap b.remote).remoteId]? = some b.remote ∧
      b.blindId ∈ (d.heap b.remote).associatedBlinds

/-- What the links look like between restarts: the blind that a remote is primary for is
the first of its list. -/
structure Tied (d : Device) : Prop where
  known : ∀ (id : UInt32) (p : ℕ), d.remotes[id]? = some p →
    ∀ i ∈ (d.heap p).associatedBlinds, i.toUInt32 ∈ d.blinds
  own : ∀ (k : UInt32) (b : Blind), d.blinds[k]? = some b →
    (d.heap b.remote).associatedBlinds.head? = some b.blindId

theorem Tied.linked (h : d.Tied) (hr : d.Registry) : d.Linked where
  known := h.known
  primary k b hb := ⟨(hr.primary hb).1, List.mem_of_mem_head? (h.own k b hb)⟩

/-- Every lookup of a press succeeds. -/
theorem Linked.tells (h : d.Linked) {id : UInt32} {p : ℕ} (hp : d.remotes[id]? = some p)
    (command : SomfyCommand) (long : Bool) :
    ∃ d', (d.heap p).associatedBlinds.foldlM (tell command long) d = some d' :=
  tells_total (h.known id p hp) command long

/-- The lists of blinds and the objects are what they were. -/
theorem Tied.same (h : d.Tied) (hs : SameRegistry d d')
    (hlists : ∀ p, (d'.heap p).associatedBlinds = (d.heap p).associatedBlinds) : d'.Tied where
  known id p hp i hi := by
    rw [hs.remotes] at hp
    rw [hlists] at hi
    exact hs.mem_blinds.mpr (h.known id p hp i hi)
  own k b' hb' := by
    obtain ⟨b, hb, hid, hremote⟩ := hs.old_blind hb'
    rw [hremote, hlists, hid]
    exact h.own k b hb

theorem Tied.saves (h : d.Tied) (hs : d.Saves d') : d'.Tied :=
  h.same hs.toSameRegistry fun p => by rw [hs.remote p]

/-- A list that keeps its first blind, when that is the blind of the remote. -/
theorem Tied.modifyRemote (h : d.Tied) {p : ℕ} {f : SomfyRemote → SomfyRemote}
    (hs : SameRegistry d (d.modifyRemote p f))
    (hknown : ∀ i ∈ (f (d.heap p)).associatedBlinds, i ∈ (d.heap p).associatedBlinds ∨
      i.toUInt32 ∈ d.blinds)
    (hown : ∀ (k : UInt32) (b : Blind), d.blinds[k]? = some b → b.remote = p →
      (d.heap p).associatedBlinds.head? = some b.blindId →
      (f (d.heap p)).associatedBlinds.head? = some b.blindId) :
    (d.modifyRemote p f).Tied where
  known id q hq i hi := by
    by_cases hqp : q = p
    · subst hqp
      simp only [Device.modifyRemote, Function.update_self] at hi
      exact (hknown i hi).elim (h.known id q hq i) fun h => h
    · simp only [Device.modifyRemote, Function.update_of_ne hqp] at hi
      exact h.known id q hq i hi
  own k b hb := by
    by_cases hbp : b.remote = p
    · have hhead := h.own k b hb
      rw [hbp] at hhead
      simp only [Device.modifyRemote, hbp, Function.update_self]
      exact hown k b hb hbp hhead
    · simp only [Device.modifyRemote, Function.update_of_ne hbp]
      exact h.own k b hb

theorem associateBlind_list (r : SomfyRemote) (i : UInt16) :
    (∀ j ∈ (r.associateBlind i).associatedBlinds, j ∈ r.associatedBlinds ∨ j = i) ∧
      ∀ j, r.associatedBlinds.head? = some j → (r.associateBlind i).associatedBlinds.head? = some j := by
  unfold SomfyRemote.associateBlind
  split_ifs
  · exact ⟨fun j hj => .inl hj, fun j hj => hj⟩
  · refine ⟨fun j hj => ?_, fun j hj => ?_⟩
    · simpa only [List.mem_append, List.mem_singleton] using hj
    · rw [List.head?_append, hj, Option.some_or]

theorem head?_erase {l : List UInt16} {i j : UInt16} (h : l.head? = some j) (hne : j ≠ i) :
    (l.erase i).head? = some j := by
  cases l with
  | nil => cases h
  | cons a l =>
      obtain rfl := Option.some.inj h
      rw [List.erase_cons_tail (by simpa using hne)]
      rfl

theorem Tied.insertRemote (h : d.Tied) (hr : d.Registry) {id : UInt32} {r : SomfyRemote}
    (hf : d.FreshHalf id) (hempty : r.associatedBlinds = []) (config : DeviceConfig) :
    Tied { d.insertRemote id r with config := config } where
  known a p hp i hi := by
    rcases insertRemote_cases (r := r) hf hp with ⟨rfl, rfl⟩ | ⟨-, hold⟩
    · change i ∈ ((d.insertRemote a r).heap d.heapTop).associatedBlinds at hi
      rw [insertRemote_top, hempty] at hi
      cases hi
    · change i ∈ ((d.insertRemote id r).heap p).associatedBlinds at hi
      rw [insertRemote_heap (hr.registered hold).1] at hi
      exact h.known a p hold i hi
  own k b hb := by
    change ((d.insertRemote id r).heap b.remote).associatedBlinds.head? = _
    rw [insertRemote_heap (hr.registered (hr.primary hb).1).1]
    exact h.own k b hb

theorem newPrimary_associatedBlinds (name : List UInt8) :
    (d.newPrimary name).associatedBlinds = [d.nextBlindId.toUInt16] := by
  unfold newPrimary SomfyRemote.associateBlind
  rw [newRemote_associatedBlinds, if_neg List.not_mem_nil]
  simp

theorem Tied.withBlind (h : d.Tied) (hr : d.Registry) (hmay : d.MayCreate)
    (hnext : d.nextBlindId.toNat < 65536) (name : List UInt8) (openTime closeTime : Int32)
    (config : DeviceConfig) :
    Tied { d.withBlind name openTime closeTime with config := config } := by
  have hblinds : ∀ k : UInt32, (d.withBlind name openTime closeTime).blinds[k]? =
      if d.nextBlindId = k then some (d.newBlind name openTime closeTime) else d.blinds[k]? :=
    fun k => get_insertIfNew_fresh hr.next_blind_new
  have hold : ∀ k, k ∈ d.blinds → k ∈ (d.withBlind name openTime closeTime).blinds :=
    fun k hk => Std.ExtTreeMap.mem_insertIfNew.mpr (.inr hk)
  refine ⟨fun a p hp i hi => ?_, fun k b hb => ?_⟩
  · rcases insertRemote_cases hmay.1 (r := d.newPrimary name) hp with ⟨rfl, rfl⟩ | ⟨-, hreg⟩
    · change i ∈ ((d.insertRemote d.nextRemoteId (d.newPrimary name)).heap
        d.heapTop).associatedBlinds at hi
      rw [insertRemote_top, newPrimary_associatedBlinds, List.mem_singleton] at hi
      change i.toUInt32 ∈ (d.withBlind name openTime closeTime).blinds
      rw [hi, toUInt32_toUInt16 hnext, mem_iff, hblinds, if_pos rfl]
      exact ⟨_, rfl⟩
    · change i ∈ ((d.insertRemote d.nextRemoteId (d.newPrimary name)).heap p).associatedBlinds at hi
      rw [insertRemote_heap (hr.registered hreg).1] at hi
      exact hold _ (h.known a p hreg i hi)
  · change (d.withBlind name openTime closeTime).blinds[k]? = some b at hb
    change ((d.insertRemote d.nextRemoteId (d.newPrimary name)).heap
      b.remote).associatedBlinds.head? = some b.blindId
    rw [hblinds] at hb
    split_ifs at hb with hk
    · obtain rfl := Option.some.inj hb
      change ((d.insertRemote d.nextRemoteId (d.newPrimary name)).heap
        d.heapTop).associatedBlinds.head? = some d.nextBlindId.toUInt16
      rw [insertRemote_top, newPrimary_associatedBlinds]
      rfl
    · rw [insertRemote_heap (hr.registered (hr.primary hb).1).1]
      exact h.own k b hb

theorem Tied.eraseRemote (h : d.Tied) (id : UInt32) (config : DeviceConfig) :
    Tied { d with remotes := d.remotes.erase id, config := config } where
  known a p hp i hi := by
    rw [get_erase] at hp
    split_ifs at hp
    exact h.known a p hp i hi
  own k b hb := h.own k b hb

/-- A blind that only its primary remote knows can go, together with that remote. -/
theorem Tied.removeBlind (h : d.Tied) (hr : d.Registry) {k : UInt32} {b : Blind}
    (hb : d.blinds[k]? = some b)
    (halone : ∀ (id : UInt32) (p : ℕ), d.remotes[id]? = some p → p ≠ b.remote →
      b.blindId ∉ (d.heap p).associatedBlinds) (config : DeviceConfig) :
    Tied { d with
      blinds := d.blinds.erase k
      remotes := d.remotes.erase (d.heap b.remote).remoteId
      config := config } where
  known a p hp i hi := by
    rw [get_erase] at hp
    split_ifs at hp with ha
    have hother : p ≠ b.remote := fun heq => ha (by rw [← heq, (hr.registered hp).2])
    have hne : i ≠ b.blindId := fun heq => halone a p hp hother (heq ▸ hi)
    refine Std.ExtTreeMap.mem_erase.mpr ⟨fun heq => hne ?_, h.known a p hp i hi⟩
    rw [Std.LawfulEqCmp.compare_eq_iff_eq, ← (hr.blind hb).1] at heq
    exact (toUInt32_inj heq).symm
  own i c hc := by
    rw [get_erase] at hc
    split_ifs at hc
    exact h.own i c hc

/-- A restart keeps the links: the first blind of a list is among the first 32. -/
theorem Tied.restored {mqttEnabled : Bool} (h : d.Tied) (hr : d.Registry)
    (hres : Restored mqttEnabled d d') : d'.Tied where
  known id p hp i hi := by
    obtain ⟨-, q, hq, hheap⟩ := hres.old_remote mqttEnabled hp
    obtain ⟨-, -, -, -, hlist, -⟩ := reloaded_fields mqttEnabled (d.heap q)
    rw [hheap, hlist] at hi
    obtain ⟨b, hb⟩ := mem_iff.mp (h.known id q hq i (List.mem_of_mem_take hi))
    obtain ⟨p', -, -, hb'⟩ := hres.new_blind mqttEnabled hr hb
    exact mem_iff.mpr ⟨_, hb'⟩
  own k b' hb' := by
    obtain ⟨b, p, hb, hp, rfl⟩ := hres.old_blind mqttEnabled hb'
    obtain ⟨q, hq, hheap, -⟩ := hres.new_blind mqttEnabled hr hb
    obtain rfl : p = q := Option.some.inj (hp.symm.trans hq)
    obtain ⟨-, -, -, -, hlist, -⟩ := reloaded_fields mqttEnabled (d.heap b.remote)
    change (d'.heap p).associatedBlinds.head? = some b.blindId
    rw [hheap, hlist, List.head?_take, if_neg (by decide)]
    exact h.own k b hb

end Device

/-- A blind is deleted only when no other remote is bound to it, and it is not taken from
its primary remote. -/
def Call.KeepsLinks (d : Device) : Call → Prop
  | .removeBlind _ b => ∀ (id : UInt32) (p : ℕ), d.remotes[id]? = some p → p ≠ b.remote →
      b.blindId ∉ (d.heap p).associatedBlinds
  | .disassociate p i => ∀ b, d.blinds[i.toUInt32]? = some b → b.remote ≠ p
  | _ => True

namespace Device

variable {d d' : Device}

theorem Tied.reacts (h : d.Tied) (hreacts : d.Reacts d') : d'.Tied :=
  h.same hreacts.sameRegistry fun p => (hreacts.remote p).fields.2.2.1

theorem Tied.rename (h : d.Tied) (p : ℕ) (name : List UInt8) :
    (d.modifyRemote p fun r => r.setName d.mqttEnabled name).Tied := by
  have hf := setName_fields (d.heap p) d.mqttEnabled name
  have hs := SameRegistry.modifyRemote d p (fun r => r.setName d.mqttEnabled name) hf.1 hf.2.1
  refine h.modifyRemote hs (fun i hi => ?_) fun k b _ _ hhead => ?_
  · rw [hf.2.2.2.1] at hi
    exact .inl hi
  · rw [hf.2.2.2.1]
    exact hhead

theorem Tied.associate (h : d.Tied) {p : ℕ} {blindId : UInt16} (hk : blindId.toUInt32 ∈ d.blinds) :
    (d.modifyRemote p fun r => r.associateBlind blindId).Tied := by
  have hf := associateBlind_fields (d.heap p) blindId
  obtain ⟨hmem, hhead⟩ := associateBlind_list (d.heap p) blindId
  have hs := SameRegistry.modifyRemote d p (fun r => r.associateBlind blindId) hf.1 hf.2
  refine h.modifyRemote hs (fun i hi => ?_) fun k b _ _ hb => hhead _ hb
  rcases hmem i hi with hold | rfl
  · exact .inl hold
  · exact .inr hk

theorem Tied.disassociate (h : d.Tied) (hr : d.Registry) {p : ℕ} {blindId : UInt16}
    (hother : ∀ b, d.blinds[blindId.toUInt32]? = some b → b.remote ≠ p) :
    (d.modifyRemote p fun r => r.disassociateBlind blindId).Tied := by
  have hs := SameRegistry.modifyRemote d p (fun r => r.disassociateBlind blindId) rfl rfl
  refine h.modifyRemote hs (fun i hi => .inl (List.mem_of_mem_erase hi)) fun k b hb hp hhead => ?_
  refine head?_erase hhead fun heq => hother b ?_ hp
  rw [← heq, (hr.blind hb).1]
  exact hb

/-- What every call keeps that loses no write. -/
theorem Tied.perform {c : Call} (h : d.config.lost = false → d.Inv ∧ d.Tied) (hv : c.Valid d)
    (hr : c.Regular d) (hk : c.KeepsLinks d) (hd : d.perform c = some d')
    (hlost : d'.config.lost = false) : d'.Tied := by
  by_cases hc : c.reacts = true
  · have hreacts := reacts_perform hc hd
    exact (h (hreacts.lasting hlost)).2.reacts hreacts
  cases c with
  | saveRemotes =>
      have hl : d.Lasting d' := Transitions.foldlM_keeps
        (f := fun (d : Device) (entry : UInt32 × ℕ) => d.saveRemote entry.2 false) (R := Lasting)
        .refl .trans lasting_saveRemote hd
      exact (h (hl hlost)).2.saves (saves_saveRemoteState hd)
  | saveBlinds =>
      have hl : d.Lasting d' := Transitions.foldlM_keeps
        (f := fun (d : Device) k => d.saveBlindAt false k) (R := Lasting)
        .refl .trans lasting_saveBlindAt hd
      exact (h (hl hlost)).2.saves (saves_saveBlindState hd)
  | restart mqttEnabled slots =>
      obtain ⟨hinv, htied⟩ := h (lasting_restart hd hlost)
      obtain ⟨-, hres, -⟩ := Inv.restart (fun hl => (h hl).1) hd hlost
      exact htied.restored hinv.registry hres
  | addBlind name openTime closeTime =>
      obtain ⟨hinv, htied⟩ := h (lasting_addBlind hd hlost)
      obtain ⟨config, rfl⟩ := addBlind_eq hd
      exact htied.withBlind hinv.registry hr.1 hr.2.1 name openTime closeTime config
  | updateBlind k b name openTime closeTime =>
      cases hd
      have hs := SameRegistry.modifyBlind d k
        (fun b => b.updateConfig d.mqttEnabled name openTime closeTime) fun _ _ => rfl
      exact ((h hlost).2.same hs fun _ => rfl).rename b.remote name
  | removeBlind k b =>
      obtain ⟨hinv, htied⟩ := h (lasting_removeBlind hd hlost)
      obtain ⟨config, rfl⟩ := removeBlind_eq hd
      exact htied.removeBlind hinv.registry hv hk config
  | createRemote name =>
      obtain ⟨hinv, htied⟩ := h (lasting_createRemote hd hlost)
      obtain ⟨config, rfl⟩ := registerRemote_eq hd
      have hadv : Tied { d with nextRemoteId := d.nextRemoteId + 1 } := ⟨htied.known, htied.own⟩
      obtain ⟨hf, hnext, -⟩ := hr
      have hsucc : (d.nextRemoteId + 1).toNat = d.nextRemoteId.toNat + 1 := by
        rw [UInt32.toNat_add, UInt32.toNat_one]
        omega
      exact hadv.insertRemote (hinv.registry.advance _ _ (by omega)
        ⟨le_rfl, hinv.registry.nextBlind⟩) hf (newRemote_associatedBlinds _ _ _) config
  | importRemote name id =>
      obtain ⟨hinv, htied⟩ := h (lasting_registerRemote hd hlost)
      obtain ⟨config, rfl⟩ := registerRemote_eq hd
      exact htied.insertRemote hinv.registry hr.1 (newRemote_associatedBlinds _ _ _) config
  | rename p name =>
      cases hd
      exact (h hlost).2.rename p name
  | deleteRemote id =>
      have htied := (h (lasting_deleteRemote hd hlost)).2
      obtain ⟨config, rfl⟩ := deleteRemote_eq hd
      exact htied.eraseRemote id config
  | associate p blindId =>
      cases hd
      exact (h hlost).2.associate hv.2
  | disassociate p blindId =>
      cases hd
      obtain ⟨hinv, htied⟩ := h hlost
      exact htied.disassociate hinv.registry hk
  | _ => exact absurd rfl hc

/-- What the run asks of the calls that delete a blind or unbind it. -/
def KeepsLinks (d : Device) (e : Event) : Prop := ∀ c, d.call e = some c → c.KeepsLinks d

theorem fresh_tied {dc : DeviceConfig} {mqttEnabled : Bool} {slots : ℕ → RecvCommand}
    (hpages : dc.storage.blockPages = 1) (hok : ∀ i, dc.chip.verdict i = true)
    (h : freshDevice dc mqttEnabled slots = some d) : d.Inv ∧ d.Tied := by
  obtain ⟨hinv, hres⟩ := fresh_inv hpages hok h
  obtain ⟨hhealthy, hnone⟩ := dc.hardReset_read hpages hok
  have hblank : Tied (blank dc.hardReset mqttEnabled slots []) :=
    ⟨fun _ _ hp => by simp [blank] at hp, fun _ _ hb => by simp [blank] at hb⟩
  exact ⟨hinv, hblank.restored (blank_durable mqttEnabled slots [] hhealthy hnone).inv.registry
    hres⟩

/-- The links lead somewhere in every state of such a run that lost no write. -/
theorem links_kept {dc : DeviceConfig} {mqttEnabled : Bool} {slots : ℕ → RecvCommand}
    (hpages : dc.storage.blockPages = 1) (hok : ∀ i, dc.chip.verdict i = true) {d₀ : Device}
    (hd₀ : freshDevice dc mqttEnabled slots = some d₀) {es : List Event}
    (hrun : Transitions.Run step (fun d e => d.Regular e ∧ d.KeepsLinks e) d₀ es d)
    (hlost : d.config.lost = false) : d.Linked := by
  have hend := hrun.invariant (I := fun d => d.config.lost = false → d.Inv ∧ d.Tied)
    (fun {d e d'} h hguard hstep hlost' => by
      obtain ⟨c, hc, hv, hp⟩ := step_cases hstep
      have hr := hguard.1 c hc
      exact ⟨Inv.perform (fun hl => (h hl).1) hv hr hp hlost',
        Tied.perform h hv hr (hguard.2 c hc) hp hlost'⟩)
    fun _ => fresh_tied hpages hok hd₀
  obtain ⟨hinv, htied⟩ := hend hlost
  exact htied.linked hinv.registry

theorem links_kept_addBlind :
    ∃ d₀ d : Device, freshDevice oneSector false (fun _ => ⟨⟨0, 0, 0, 0⟩, 0⟩) = some d₀ ∧
      d₀.step addSalon = some d ∧ (∃ b, d.blinds[(1 : UInt32)]? = some b) ∧ d.Linked := by
  obtain ⟨d₀, d, hd₀, hregular, hd, hlost, b, hb, -⟩ := first_blind
  have hkeeps : d₀.KeepsLinks addSalon := by
    intro c hc
    rw [call_addSalon] at hc
    cases hc
    trivial
  refine ⟨d₀, d, hd₀, hd, ⟨b, hb⟩, ?_⟩
  exact links_kept rfl (fun _ => rfl) hd₀ (.single ⟨hregular, hkeeps⟩ hd) hlost

/-- A second remote is bound to the blind, and then the blind is deleted. -/
def boundAndDeleted : List Event :=
  [addSalon, .request .addRemote (query [("name", "hall")]) default,
    .request .bindBlind (query [("id", "2555906"), ("blindId", "1")]) default,
    .request .deleteBlind (query [("id", "1")]) default]

/-- No record was lost and no id is shared. The second remote still has the blind, and
its next press fails. -/
theorem deleted_blind_linked :
    ∃ d₀ d : Device, freshDevice oneSector false (fun _ => ⟨⟨0, 0, 0, 0⟩, 0⟩) = some d₀ ∧
      Transitions.Run step Transitions.Free d₀ boundAndDeleted d ∧ d.config.lost = false ∧
      ¬d.Linked ∧ d.step (.remoteTopic 0x270002 (ascii "up")) = none := by
  have hany : (freshDevice oneSector false fun _ => ⟨⟨0, 0, 0, 0⟩, 0⟩).any (fun d₀ =>
      (Transitions.exec step d₀ boundAndDeleted).any fun d =>
        !d.config.lost && d.blinds.isEmpty && (d.remotes[(0x270002 : UInt32)]?).any (fun p =>
          (d.heap p).associatedBlinds == [1]) &&
          (d.step (.remoteTopic 0x270002 (ascii "up"))).isNone) = true := by
    decide +kernel
  obtain ⟨d₀, hd₀, hrun⟩ := (Option.any_eq_true _ _).mp hany
  obtain ⟨d, hd, hrest⟩ := (Option.any_eq_true _ _).mp hrun
  simp only [Bool.and_eq_true, Bool.not_eq_true'] at hrest
  obtain ⟨⟨⟨hlost, hblinds⟩, hremote⟩, hfails⟩ := hrest
  obtain ⟨p, hp, hlist⟩ := (Option.any_eq_true _ _).mp hremote
  refine ⟨d₀, d, hd₀, Transitions.run_of_exec hd, hlost, fun h => ?_,
    Option.isNone_iff_eq_none.mp hfails⟩
  have hmem := h.known 0x270002 p hp 1 (by rw [beq_iff_eq.mp hlist]; exact List.mem_cons_self)
  rw [Std.ExtTreeMap.isEmpty_iff.mp hblinds] at hmem
  exact absurd hmem Std.ExtTreeMap.not_mem_empty

end Device

end PicoSomfy
