import PicoSomfy.PressCalls
import PicoSomfy.RequestCalls

/-!
# The commands that are sent

A press goes two ways: its command into the queue, from which the worker transmits it, and
to the blinds of the remote, which estimate from it where they are. `PressButtons` does not
look at the answer of the queue, so a press that finds sixteen entries in it goes the second
way only. As long as every press finds room, the commands transmitted on a remote, followed
by those that wait, are those its blinds were told of.
-/
namespace PicoSomfy

open SortedMap DeviceConfig

namespace Press

/-- The queue has a free entry. -/
def HasRoom (x : Press) : Prop := x.found.radio.queue.length < queueCapacity

/-- Every blind of the remote exists. -/
def Reaches (x : Press) : Prop := x.found.Reaches x.remote

instance (x : Press) : Decidable x.HasRoom := by
  unfold HasRoom
  infer_instance

/-- The queue accepts the command, the code goes on by one and every blind of the remote is
told once. -/
structure Sent (x : Press) (d : Device) : Prop where
  queued : d.radio = { x.found.radio with
    queue := x.found.radio.queue ++ [.execute x.command] }
  code : (d.heap x.remote).rollingCode = (x.found.heap x.remote).rollingCode + 1
  told : ∀ k : UInt32, d.blinds[k]? = (x.found.blinds[k]?).map fun b =>
    if k ∈ x.blindIds.map (·.toUInt32) then
      b.buttonsPressed x.buttons (x.repeats > shortPress) x.found.clock else b

/-- The code and the blinds stay as they are. -/
structure Refused (x : Press) (d : Device) : Prop where
  code : (d.heap x.remote).rollingCode = (x.found.heap x.remote).rollingCode
  blinds : d.blinds = x.found.blinds

/-- What a press has to do. -/
def Met (x : Press) : Prop := ∃ d, x.perform = some d ∧ (x.Sent d ∨ x.Refused d)

variable {x : Press} {d : Device}

/-- Whoever was told exists. -/
theorem tells_mem {ks : List UInt16} {d d' : Device} {command : SomfyCommand} {long : Bool}
    (h : ks.foldlM (Device.tell command long) d = some d') : ∀ i ∈ ks, i.toUInt32 ∈ d.blinds := by
  induction ks generalizing d with
  | nil => exact fun _ hi => absurd hi List.not_mem_nil
  | cons k ks ih =>
      intro i hi
      rw [List.foldlM_cons] at h
      obtain ⟨e, he, h⟩ := Option.bind_eq_some_iff.mp h
      rcases List.mem_cons.mp hi with rfl | hi
      · simp only [Device.tell, Option.ite_none_right_eq_some] at he
        exact he.1
      · exact (Device.Reacts.tell he).sameRegistry.mem_blinds.mp (ih h i hi)

theorem perform_reaches (h : x.perform = some d) : x.Reaches := by
  unfold perform Device.pressButtons at h
  have hmem := tells_mem h
  exact hmem

/-- A full queue leaves the radio as it is. -/
theorem perform_full (h : x.perform = some d) (hfull : ¬x.HasRoom) : d.radio = x.found.radio := by
  rw [perform_radio h]
  exact congrArg Prod.snd (RadioCommandQueue.tryAdd_full hfull _)

theorem code_moves (code : UInt16) : code + 1 ≠ code := by
  intro h
  simp at h

/-- A press that finds room and all its blinds is sent. -/
theorem sent (h : x.perform = some d) (hroom : x.HasRoom) (honce : x.blindIds.Nodup) :
    x.Sent d where
  queued := by
    rw [perform_radio h]
    exact congrArg Prod.snd (RadioCommandQueue.tryAdd_room hroom _)
  code := perform_code h
  told k := (Device.pressButtons_blind h honce k).2

/-- A press does what it has to exactly when it finds room and all its blinds. -/
theorem met_iff (honce : x.blindIds.Nodup) : x.Met ↔ x.HasRoom ∧ x.Reaches := by
  constructor
  · rintro ⟨d, hd, hsent | hrefused⟩
    · refine ⟨?_, perform_reaches hd⟩
      by_contra hfull
      have hqueued := congrArg (fun q => q.queue.length) hsent.queued
      rw [perform_full hd hfull] at hqueued
      simp only [List.length_append, List.length_singleton] at hqueued
      omega
    · exact absurd ((perform_code hd).symm.trans hrefused.code) (code_moves _)
  · rintro ⟨hroom, hreaches⟩
    obtain ⟨d, hd⟩ := Device.pressButtons_total hreaches x.buttons x.repeats
    exact ⟨d, hd, .inl (sent hd hroom honce)⟩

end Press

namespace Device

variable {d d' : Device}

/-- No remote lists a blind twice. -/
def ListsOnce (d : Device) : Prop := ∀ p, (d.heap p).associatedBlinds.Nodup

/-- The blinds told of the press that comes last before them. -/
def toldFirst : List Happening → List UInt16
  | .told k _ :: rest => k :: toldFirst rest
  | _ => []

/-- The local presses of a history, each with the blinds that were told of it. -/
def tellings : List Happening → List (SomfyCommand × List UInt16)
  | [] => []
  | .pressed command _ :: rest => (command, toldFirst rest) :: tellings rest
  | _ :: rest => tellings rest

/-- A change that neither presses nor transmits. -/
structure Quiet (d d' : Device) : Prop where
  radio : d'.radio.executed ++ d'.radio.waiting = d.radio.executed ++ d.radio.waiting
  history : d'.history = d.history ∨ ∃ (command : SomfyCommand) (ks : List UInt16),
    d'.history = d.history ++ .overheard command :: ks.map fun k => .told k command
  once : d.ListsOnce → d'.ListsOnce

theorem Quiet.of_eq (hradio : d'.radio = d.radio) (hhistory : d'.history = d.history)
    (honce : d.ListsOnce → d'.ListsOnce) : Quiet d d' :=
  ⟨by rw [hradio], .inl hhistory, honce⟩

theorem Quiet.refl (d : Device) : Quiet d d := .of_eq rfl rfl id

theorem ListsOnce.modifyRemote (h : d.ListsOnce) (p : ℕ) {f : SomfyRemote → SomfyRemote}
    (hf : (d.heap p).associatedBlinds.Nodup → (f (d.heap p)).associatedBlinds.Nodup) :
    (d.modifyRemote p f).ListsOnce := fun q => by
  by_cases hq : q = p
  · subst hq
    simpa only [Device.modifyRemote, Function.update_self] using hf (h q)
  · simpa only [Device.modifyRemote, Function.update_of_ne hq] using h q

theorem ListsOnce.insertRemote (h : d.ListsOnce) (id : UInt32) {r : SomfyRemote}
    (hr : r.associatedBlinds.Nodup) : (d.insertRemote id r).ListsOnce := fun q => by
  by_cases hq : q = d.heapTop
  · subst hq
    simpa only [Device.insertRemote, Function.update_self] using hr
  · simpa only [Device.insertRemote, Function.update_of_ne hq] using h q

theorem ListsOnce.same (h : d.ListsOnce)
    (hlists : ∀ p, (d'.heap p).associatedBlinds = (d.heap p).associatedBlinds) : d'.ListsOnce :=
  fun p => by
    rw [hlists p]
    exact h p

theorem nodup_associateBlind {r : SomfyRemote} (h : r.associatedBlinds.Nodup) (k : UInt16) :
    (r.associateBlind k).associatedBlinds.Nodup := by
  unfold SomfyRemote.associateBlind
  split_ifs with hk
  · exact h
  · exact List.nodup_append.mpr ⟨h, List.nodup_singleton k, fun i hi j hj => by
      rw [List.mem_singleton.mp hj]
      rintro rfl
      exact hk hi⟩

theorem quiet_saves (hs : d.Saves d') (hradio : d'.radio = d.radio) : Quiet d d' :=
  .of_eq hradio hs.history fun h => h.same fun p => by rw [hs.remote p]

theorem radio_saveRemoteState (h : d.saveRemoteState = some d') : d'.radio = d.radio :=
  Transitions.foldlM_keeps
    (f := fun (d : Device) (entry : UInt32 × ℕ) => d.saveRemote entry.2 false)
    (R := fun d d' => d'.radio = d.radio) (fun _ => rfl) (fun h k => k.trans h)
    (fun h => by
      rcases saveRemote_cases h with ⟨rfl, -⟩ | ⟨_, -, rfl⟩
      · rfl
      · rfl) h

theorem radio_saveBlindState {force : Bool} (h : d.saveBlindState force = some d') :
    d'.radio = d.radio :=
  Transitions.foldlM_keeps (f := fun (d : Device) k => d.saveBlindAt force k)
    (R := fun d d' => d'.radio = d.radio) (fun _ => rfl) (fun h k => k.trans h)
    (fun h => by
      obtain ⟨b, -, ⟨rfl, -⟩ | ⟨_, -, rfl⟩⟩ := saveBlindAt_cases h
      · rfl
      · rfl) h

/-- An overheard press is told but not transmitted. -/
theorem quiet_externalButtonPress {command : SomfyCommand}
    (h : d.externalButtonPress command = some d') : Quiet d d' := by
  have hlists : d.ListsOnce → d'.ListsOnce := fun honce =>
    honce.same fun p => ((Reacts.externalButtonPress h).remote p).fields.2.2.1
  unfold externalButtonPress at h
  split at h
  · cases h
    exact .of_eq rfl rfl hlists
  · rename_i p hp
    unfold pressOverheard at h
    have htells := tells_eq h
    refine ⟨?_, .inr ⟨command, (d.heap p).associatedBlinds, ?_⟩, hlists⟩
    · rw [htells]
      rfl
    · rw [htells]
      simp only [note, modifyRemote, List.append_assoc, List.singleton_append]

/-- The calls that do not press are quiet, but for a restart. -/
theorem quiet_perform {c : Call} (hc : c.mayPress = false) (h : d.perform c = some d')
    (hon : ∀ mqttEnabled slots, c ≠ .restart mqttEnabled slots) : Quiet d d' := by
  cases c with
  | overheard command => exact quiet_externalButtonPress h
  | worker packet =>
      obtain ⟨radio, hradio, rfl⟩ := Option.map_eq_some_iff.mp h
      exact ⟨RadioCommandQueue.executed_waiting hradio, .inl rfl, id⟩
  | packetReady =>
      obtain ⟨radio, hradio, rfl⟩ := Option.map_eq_some_iff.mp h
      obtain ⟨hexecuted, hwaiting⟩ := RadioCommandQueue.queueReceive_commands hradio
      exact ⟨congrArg₂ _ hexecuted hwaiting, .inl rfl, id⟩
  | restart mqttEnabled slots => exact absurd rfl (hon mqttEnabled slots)
  | saveRemotes => exact quiet_saves (saves_saveRemoteState h) (radio_saveRemoteState h)
  | saveBlinds => exact quiet_saves (saves_saveBlindState h) (radio_saveBlindState h)
  | addBlind name openTime closeTime =>
      obtain ⟨config, rfl⟩ := addBlind_eq h
      refine .of_eq rfl rfl fun honce => ?_
      have hlist : (d.newPrimary name).associatedBlinds.Nodup := by
        rw [newPrimary_associatedBlinds]
        exact List.nodup_singleton _
      exact honce.insertRemote d.nextRemoteId hlist
  | createRemote name =>
      obtain ⟨config, rfl⟩ := registerRemote_eq h
      refine .of_eq rfl rfl fun honce => ?_
      exact honce.insertRemote (d := { d with nextRemoteId := d.nextRemoteId + 1 }) d.nextRemoteId
        (by rw [newRemote_associatedBlinds]; exact List.nodup_nil)
  | importRemote name id =>
      obtain ⟨config, rfl⟩ := registerRemote_eq h
      refine .of_eq rfl rfl fun honce => ?_
      exact honce.insertRemote id (by rw [newRemote_associatedBlinds]; exact List.nodup_nil)
  | removeBlind k b =>
      obtain ⟨config, rfl⟩ := removeBlind_eq h
      exact .of_eq rfl rfl id
  | deleteRemote id =>
      obtain ⟨config, rfl⟩ := deleteRemote_eq h
      exact .of_eq rfl rfl fun honce => honce
  | associate p blindId =>
      cases h
      exact .of_eq rfl rfl fun honce =>
        honce.modifyRemote p fun hn => nodup_associateBlind hn blindId
  | disassociate p blindId =>
      cases h
      exact .of_eq rfl rfl fun honce => honce.modifyRemote p fun hn => hn.erase blindId
  | rename p name =>
      cases h
      refine .of_eq rfl rfl fun honce => honce.modifyRemote p fun hn => ?_
      rwa [(setName_fields _ _ name).2.2.2.1]
  | updateBlind k b name openTime closeTime =>
      cases h
      refine .of_eq rfl rfl fun honce => ?_
      refine ListsOnce.modifyRemote (d := d.modifyBlind k _) honce b.remote fun hn => ?_
      rwa [(setName_fields _ _ name).2.2.2.1]
  | nothing => exact Option.some.inj h ▸ .refl d
  | wait microseconds =>
      cases h
      exact .of_eq rfl rfl id
  | discover =>
      cases h
      exact .of_eq rfl rfl id
  | _ => cases hc

/-- What follows the next press or overheard command is told of that one. -/
theorem tellings_append {rest : List Happening} (hrest : toldFirst rest = [])
    (recent : List Happening) :
    toldFirst (recent ++ rest) = toldFirst recent ∧
      tellings (recent ++ rest) = tellings recent ++ tellings rest := by
  induction recent with
  | nil => exact ⟨hrest, rfl⟩
  | cons h recent ih =>
      cases h with
      | told k c => exact ⟨congrArg (k :: ·) ih.1, ih.2⟩
      | overheard c => exact ⟨rfl, ih.2⟩
      | pressed c a =>
          refine ⟨rfl, ?_⟩
          simp only [List.cons_append, tellings, ih.1, ih.2]

theorem tellings_tolds (ks : List UInt16) (command : SomfyCommand) :
    toldFirst (ks.map fun k => .told k command) = ks ∧
      tellings (ks.map fun k => .told k command) = [] := by
  induction ks with
  | nil => exact ⟨rfl, rfl⟩
  | cons k ks ih => exact ⟨congrArg (k :: ·) ih.1, ih.2⟩

/-- A press adds one to the presses told. -/
theorem tellings_pressed (recent : List Happening) (command : SomfyCommand) (accepted : Bool)
    (ks : List UInt16) :
    tellings (recent ++ .pressed command accepted :: ks.map fun k => .told k command) =
      tellings recent ++ [(command, ks)] := by
  rw [(tellings_append rfl recent).2]
  simp only [tellings, tellings_tolds]

theorem tellings_overheard (recent : List Happening) (command : SomfyCommand)
    (ks : List UInt16) :
    tellings (recent ++ .overheard command :: ks.map fun k => .told k command) =
      tellings recent := by
  rw [(tellings_append rfl recent).2]
  simp only [tellings, tellings_tolds, List.append_nil]

/-- Since the state `d₀` every press was told to all the blinds and queued. -/
structure Session (d₀ d : Device) : Prop where
  recent : ∃ recent, d.history = d₀.history ++ recent ∧
    d.radio.executed ++ d.radio.waiting = (tellings recent).map Prod.fst ∧
    ∀ t ∈ tellings recent, t.2.Nodup
  once : d.ListsOnce

variable {d₀ : Device}

theorem Session.quiet (h : Session d₀ d) (hq : Quiet d d') : Session d₀ d' := by
  obtain ⟨recent, hhistory, hsent, hnodup⟩ := h.recent
  refine ⟨?_, hq.once h.once⟩
  rcases hq.history with heq | ⟨command, ks, heq⟩
  · exact ⟨recent, by rw [heq, hhistory], by rw [hq.radio, hsent], hnodup⟩
  · refine ⟨recent ++ .overheard command :: ks.map fun k => .told k command, ?_, ?_, ?_⟩
    · rw [heq, hhistory, List.append_assoc]
    · rw [tellings_overheard, hq.radio, hsent]
    · rwa [tellings_overheard]

theorem Session.press {x : Press} (h : Session d₀ x.found) (hd : x.perform = some d)
    (hroom : x.HasRoom) : Session d₀ d := by
  obtain ⟨recent, hhistory, hsent, hnodup⟩ := h.recent
  have hreacts : x.found.Reacts d := .pressButtons hd
  have hblock := Press.perform_history hd
  rw [hhistory, List.append_assoc] at hblock
  refine ⟨⟨_, hblock, ?_, ?_⟩, h.once.same fun p => (hreacts.remote p).fields.2.2.1⟩
  · rw [tellings_pressed, List.map_append, ← hsent, (Press.sent hd hroom (h.once _)).queued]
    change x.found.radio.executed ++ RadioCommandQueue.waiting _ = _
    rw [RadioCommandQueue.waiting_append, List.append_assoc]
    rfl
  · rw [tellings_pressed]
    intro t ht
    rcases List.mem_append.mp ht with ht | ht
    · exact hnodup t ht
    · rw [List.mem_singleton.mp ht]
      exact h.once x.remote

/-- Presses that find room keep the session. -/
theorem Does.session {xs : List Press} (h : Does d xs d') (hroom : ∀ x ∈ xs, x.HasRoom)
    (hs : Session d₀ d) : Session d₀ d' := by
  induction h with
  | blinds d blinds => exact ⟨hs.recent, hs.once⟩
  | press hd => exact hs.press hd (hroom _ List.mem_cons_self)
  | trans _ _ ih₁ ih₂ =>
      exact ih₂ (fun x hx => hroom x (List.mem_append_right _ hx))
        (ih₁ (fun x hx => hroom x (List.mem_append_left _ hx)) hs)

/-- The codes and buttons of the commands of a remote. -/
def codes (id : UInt32) (commands : List SomfyCommand) : List (UInt16 × SomfyButton) :=
  (commands.filter (·.remoteId = id)).map fun c => (c.rollingCode, c.button)

/-- The local presses since the state `d₀`, with the blinds that were told. -/
def tellingsSince (d₀ d : Device) : List (SomfyCommand × List UInt16) :=
  tellings (d.history.drop d₀.history.length)

/-- For every remote, what was transmitted and then what waits is what its blinds were told
of since the state `d₀`, and no blind was told of a press twice. -/
structure Follows (d₀ d : Device) : Prop where
  sequence : ∀ id : UInt32, codes id d.radio.executed ++ codes id d.radio.waiting =
    codes id ((tellingsSince d₀ d).map Prod.fst)
  once : ∀ t ∈ tellingsSince d₀ d, t.2.Nodup

theorem Session.follows (h : Session d₀ d) : Follows d₀ d := by
  obtain ⟨recent, hhistory, hsent, hnodup⟩ := h.recent
  have hsince : tellingsSince d₀ d = tellings recent := by
    rw [tellingsSince, hhistory, List.drop_left]
  refine ⟨fun id => ?_, ?_⟩
  · rw [hsince, ← hsent]
    simp only [codes, List.filter_append, List.map_append]
  · rwa [hsince]

/-- Service mode has just begun: the queue is new. `AssociateBlind` lists no blind twice. -/
structure Started (d : Device) : Prop where
  radio : ∃ slots, d.radio = .create slots
  once : d.ListsOnce

theorem Started.session (h : d.Started) : Session d d := by
  obtain ⟨slots, hslots⟩ := h.radio
  refine ⟨⟨[], (List.append_nil _).symm, ?_, nofun⟩, h.once⟩
  rw [hslots]
  rfl

/-- Service mode goes on. -/
def Event.staysOn : Event → Bool
  | .restart _ _ => false
  | _ => true

/-- Every press of the event finds room. -/
def FindsRoom (d : Device) (e : Event) : Prop :=
  e.staysOn = true ∧ ∀ x ∈ d.pressesOf e, x.HasRoom

instance (d : Device) (e : Event) : Decidable (d.FindsRoom e) := by
  unfold FindsRoom
  infer_instance

theorem Session.step {e : Event} (h : Session d₀ d) (hroom : d.FindsRoom e)
    (hd : d.step e = some d') : Session d₀ d' := by
  obtain ⟨c, hc, -, hp⟩ := step_cases hd
  cases hpress : c.mayPress with
  | true =>
      have hpresses : d.pressesOf e = d.presses c := by rw [pressesOf, hc, Option.elim_some]
      exact (does_perform hpress hp).session (hpresses ▸ hroom.2) h
  | false =>
      refine h.quiet (quiet_perform hpress hp fun mqttEnabled slots heq => ?_)
      subst heq
      obtain rfl : e = .restart mqttEnabled slots := call_asked hc
      exact absurd hroom.1 Bool.false_ne_true

/-- No press finds a list with a blind in it twice. -/
theorem ListsOnce.presses (h : d.ListsOnce) {c : Call} {x : Press} (hx : x ∈ d.presses c) :
    x.blindIds.Nodup := by
  rcases mem_presses hx with ⟨p, buttons, repeats, -, rfl⟩ | ⟨k, hk⟩
  · exact h p
  · rw [Press.blindIds, hk.lists]
    exact h x.remote

/-- In every run whose presses all find room, the blinds follow the commands that are sent, and
a press does what it has to exactly when it finds room and all its blinds. -/
theorem commands_followed {es : List Event} (hstart : d₀.Started)
    (hrun : Transitions.Run Device.step FindsRoom d₀ es d) :
    Follows d₀ d ∧ ∀ e, ∀ x ∈ d.pressesOf e, x.Met ↔ x.HasRoom ∧ x.Reaches := by
  have hsession := hrun.invariant (I := Session d₀) (fun h hroom hd => h.step hroom hd)
    hstart.session
  refine ⟨hsession.follows, fun e x hx => Press.met_iff ?_⟩
  unfold pressesOf at hx
  cases hc : d.call e with
  | none => simp [hc] at hx
  | some c =>
      rw [hc] at hx
      exact hsession.once.presses hx

/-- What the constructors of the remotes and blinds keep. -/
def Starting (config : DeviceConfig) (slots : ℕ → RecvCommand) (d : Device) : Prop :=
  d.config = config ∧ d.radio = .create slots ∧ d.ListsOnce

variable {config : DeviceConfig} {slots : ℕ → RecvCommand}

theorem Starting.loadRemote (h : Starting config slots d)
    (honce : ∀ id cfg, config.getRemoteConfig id = some cfg → cfg.blinds.Nodup)
    (isExternal : Bool) (id : UInt32) : Starting config slots (d.loadRemote isExternal id) := by
  obtain ⟨hconfig, hradio, hlists⟩ := h
  unfold Device.loadRemote
  cases hcfg : d.config.getRemoteConfig id with
  | none => exact ⟨hconfig, hradio, hlists⟩
  | some cfg =>
      refine ⟨hconfig, hradio, hlists.insertRemote id ?_⟩
      rw [SomfyRemote.create_fields]
      rw [hconfig] at hcfg
      exact honce id cfg hcfg

theorem Starting.loadRemotes (h : Starting config slots d)
    (honce : ∀ id cfg, config.getRemoteConfig id = some cfg → cfg.blinds.Nodup) :
    Starting config slots d.loadRemotes := by
  have hraise : ∀ {d : Device} (id : UInt32), Starting config slots d →
      Starting config slots (d.raiseNextRemoteId id) := fun id h => by
    unfold raiseNextRemoteId
    split_ifs
    · exact h
    · exact h
  unfold Device.loadRemotes
  refine List.foldlRecOn _ _ (List.foldlRecOn _ _ h fun d h low _ => ?_) fun d h id _ =>
    h.loadRemote honce true id
  exact (hraise _ h).loadRemote honce false _

/-- Loading the blinds leaves the remotes and the queue alone. -/
theorem initializeBlinds_kept (h : d.initializeBlinds = some d') :
    d'.heap = d.heap ∧ d'.radio = d.radio := by
  obtain ⟨⟨e, errors⟩, hloop, h⟩ := Option.bind_eq_some_iff.mp h
  have hkept : e.heap = d.heap ∧ e.radio = d.radio := by
    refine Transitions.foldlM_keeps (f := loadBlind)
      (R := fun (s t : Device × Bool) => t.1.heap = s.1.heap ∧ t.1.radio = s.1.radio)
      (fun _ => ⟨rfl, rfl⟩) (fun hst htu => ⟨htu.1.trans hst.1, htu.2.trans hst.2⟩)
      (fun {s k t} ht => ?_) hloop
    obtain ⟨cfg, -, rfl⟩ := Option.map_eq_some_iff.mp ht
    unfold restoreBlind raiseNextBlindId
    split_ifs <;> split <;> exact ⟨rfl, rfl⟩
  change (if errors then e.saveBlindList else some e) = some d' at h
  split_ifs at h
  · obtain ⟨config, rfl⟩ := saveBlindList_eq h
    exact hkept
  · exact Option.some.inj h ▸ hkept

/-- A start on records that list no blind twice. `SaveConfig` stores no others. -/
theorem boot_started {mqttEnabled : Bool} {history : List Happening}
    (honce : ∀ id cfg, config.getRemoteConfig id = some cfg → cfg.blinds.Nodup)
    (h : boot config mqttEnabled slots history = some d) : d.Started := by
  have hblank : Starting config slots (blank config mqttEnabled slots history) :=
    ⟨rfl, rfl, fun _ => List.nodup_nil⟩
  obtain ⟨-, hradio, hlists⟩ := hblank.loadRemotes honce
  obtain ⟨hheap, hkept⟩ := initializeBlinds_kept h
  exact ⟨⟨slots, hkept.trans hradio⟩, hlists.same fun p => by rw [hheap]⟩

theorem fresh_started {dc : DeviceConfig} {mqttEnabled : Bool}
    (hpages : dc.storage.blockPages = 1) (hok : ∀ i, dc.chip.verdict i = true)
    (h : freshDevice dc mqttEnabled slots = some d) : d.Started := by
  refine boot_started (fun id cfg hcfg => ?_) h
  obtain ⟨-, hnone⟩ := dc.hardReset_read hpages hok
  unfold getRemoteConfig at hcfg
  split_ifs at hcfg
  have hread : dc.hardReset.read (remoteKey id) = none := hnone (.remote id) nofun nofun
  simp [hread] at hcfg

/-- A blind and as many presses of its remote as the queue has room for. -/
def sixteenPresses : List Event := addSalon :: List.replicate 16 pressUp

/-- The seventeenth press finds a full queue. The code goes on and the blind is told, but
nothing is sent. -/
theorem full_queue_drops_press :
    ∃ d₀ d d' : Device, freshDevice oneSector false (fun _ => ⟨⟨0, 0, 0, 0⟩, 0⟩) = some d₀ ∧
      Transitions.Run Device.step FindsRoom d₀ sixteenPresses d ∧ d.step pressUp = some d' ∧
      (∃ x ∈ d.pressesOf pressUp, ¬x.Met) ∧ ¬Follows d₀ d' := by
  have hany : (freshDevice oneSector false fun _ => ⟨⟨0, 0, 0, 0⟩, 0⟩).any (fun d₀ =>
      (Transitions.guardedExec Device.step FindsRoom d₀ sixteenPresses).any fun d =>
        (d.step pressUp).any fun d' =>
          (d.pressesOf pressUp).any (fun x => decide (x.blindIds.Nodup ∧ ¬x.HasRoom)) &&
            decide (codes 0x270001 d'.radio.executed ++ codes 0x270001 d'.radio.waiting ≠
              codes 0x270001 ((tellingsSince d₀ d').map Prod.fst))) = true := by
    decide +kernel
  obtain ⟨d₀, hd₀, hany⟩ := (Option.any_eq_true _ _).mp hany
  obtain ⟨d, hd, hany⟩ := (Option.any_eq_true _ _).mp hany
  obtain ⟨d', hd', hany⟩ := (Option.any_eq_true _ _).mp hany
  obtain ⟨hpress, hcodes⟩ := Bool.and_eq_true_iff.mp hany
  obtain ⟨x, hx, hfull⟩ := List.any_eq_true.mp hpress
  obtain ⟨honce, hfull⟩ := of_decide_eq_true hfull
  refine ⟨d₀, d, d', hd₀, Transitions.run_of_guardedExec hd, hd',
    ⟨x, hx, fun hmet => hfull ((Press.met_iff honce).mp hmet).1⟩, fun h => ?_⟩
  exact of_decide_eq_true hcodes (h.sequence 0x270001)

/-- Sixteen presses find room. -/
theorem commands_followed_sixteen :
    ∃ d₀ d : Device, freshDevice oneSector false (fun _ => ⟨⟨0, 0, 0, 0⟩, 0⟩) = some d₀ ∧
      Transitions.Run Device.step FindsRoom d₀ sixteenPresses d ∧ Follows d₀ d ∧
      ∀ e, ∀ x ∈ d.pressesOf e, x.Met ↔ x.HasRoom ∧ x.Reaches := by
  have hany : (freshDevice oneSector false fun _ => ⟨⟨0, 0, 0, 0⟩, 0⟩).any (fun d₀ =>
      (Transitions.guardedExec Device.step FindsRoom d₀ sixteenPresses).isSome) = true := by
    decide +kernel
  obtain ⟨d₀, hd₀, hsome⟩ := (Option.any_eq_true _ _).mp hany
  obtain ⟨d, hd⟩ := Option.isSome_iff_exists.mp hsome
  have hrun := Transitions.run_of_guardedExec hd
  have hstart := fresh_started (by rfl) (fun _ => rfl) hd₀
  exact ⟨d₀, d, hd₀, hrun, commands_followed hstart hrun⟩

end Device

end PicoSomfy
