import PicoSomfy.SortedMap
import PicoSomfy.Transitions

/-!
# Publishing discovery information

A remote or a blind that has changed sets `_needsPublish` and schedules its discovery
worker. The worker gives up when there is no connection or a message is refused, and
leaves the rest to the republish timer. The timer is started by the main loop when it
first sees the connection, takes up one device each time, and stops when it finds no
work.

So a worker that fails while the timer stands still is not taken up again, nor is a
device that needs publishing when the connection comes back before the main loop has
noticed that it was gone.

The timer only knows the two collections. A remote is an object of its own that lives as
long as it is registered or is the primary remote of a blind. When a blind is added and
the id of its new remote is taken, the remote lives outside the collection, and nothing but
its own worker can publish it.
-/
namespace PicoSomfy

open SortedMap Transitions

/-- The part of a remote or a blind that discovery uses. A blind is never external. -/
structure Publisher where
  isExternal : Bool
  needsPublish : Bool
  workerPending : Bool
  deriving DecidableEq

namespace Publisher

/-- `TriggerPublishDiscovery` -/
def trigger (mqttEnabled : Bool) (p : Publisher) : Publisher :=
  if mqttEnabled && !p.isExternal then { p with needsPublish := true, workerPending := true }
  else p

/-- The constructors end with a trigger. -/
def create (mqttEnabled isExternal : Bool) : Publisher :=
  trigger mqttEnabled ⟨isExternal, false, false⟩

/-- Whether `PublishDiscovery` has nothing left to do: no discovery topic is configured,
the remote is primary for a blind, or every message was accepted. -/
def settles (connected topic primary published : Bool) : Bool :=
  connected && (!topic || primary || published)

/-- `PublishDiscovery`, run by the worker. -/
def publishDiscovery (connected topic primary published : Bool) (p : Publisher) : Publisher :=
  { p with
    workerPending := false
    needsPublish := p.needsPublish && !settles connected topic primary published }

end Publisher

/-- A remote as an object, and a blind with the address of its primary remote. -/
structure PublishingRemote where
  remoteId : UInt32
  publisher : Publisher
  deriving DecidableEq

structure PublishingBlind where
  publisher : Publisher
  remote : ℕ
  deriving DecidableEq

/-- What has a discovery worker: a remote by its address, a blind by its key. -/
inductive Publishable where
  | remote (p : ℕ)
  | blind (k : UInt32)
  deriving DecidableEq

inductive Kind where
  | remote
  | blind
  deriving DecidableEq

structure Republisher where
  mqttEnabled : Bool
  connected : Bool
  mqttConnected : Bool
  timerPending : Bool
  heap : ℕ → PublishingRemote
  remotes : Std.ExtTreeMap UInt32 ℕ
  blinds : Std.ExtTreeMap UInt32 PublishingBlind

inductive RepublishEvent where
  | connect
  | disconnect
  | poll
  | timer
  | worker (x : Publishable) (topic published : Bool)
  | trigger (x : Publishable)
  | addRemote (id : UInt32) (isExternal : Bool)
  | addBlind (k id : UInt32)
  | deleteRemote (id : UInt32)
  | deleteBlind (k : UInt32)

namespace Republisher

/-- The objects that are not destroyed: somebody has a pointer to them. -/
def Alive (s : Republisher) (p : ℕ) : Prop :=
  (∃ id : UInt32, s.remotes[id]? = some p) ∨
    ∃ (k : UInt32) (b : PublishingBlind), s.blinds[k]? = some b ∧ b.remote = p

instance (s : Republisher) (p : ℕ) : Decidable (s.Alive p) :=
  decidable_of_iff
    ((∃ entry ∈ s.remotes.toList, entry.2 = p) ∨ ∃ entry ∈ s.blinds.toList, entry.2.remote = p) <|
    or_congr
      ⟨fun ⟨entry, hentry, hp⟩ => ⟨entry.1, hp ▸ mem_toList.mp hentry⟩,
        fun ⟨id, hid⟩ => ⟨(id, p), mem_toList.mpr hid, rfl⟩⟩
      ⟨fun ⟨entry, hentry, hp⟩ => ⟨entry.1, entry.2, mem_toList.mp hentry, hp⟩,
        fun ⟨k, b, hb, hp⟩ => ⟨(k, b), mem_toList.mpr hb, hp⟩⟩

def find (s : Republisher) : Publishable → Option Publisher
  | .remote p => if s.Alive p then some (s.heap p).publisher else none
  | .blind k => (s.blinds[k]?).map (·.publisher)

def modify (s : Republisher) (f : Publisher → Publisher) : Publishable → Republisher
  | .remote p =>
      { s with
        heap := Function.update s.heap p { s.heap p with publisher := f (s.heap p).publisher } }
  | .blind k => { s with blinds := s.blinds.modify k fun b => { b with publisher := f b.publisher } }

/-- An address that no pointer has. -/
def fresh (s : Republisher) : ℕ :=
  (s.remotes.toList.map (·.2) ++ s.blinds.toList.map (·.2.remote)).foldl max 0 + 1

/-- `Blinds::IsAPrimaryRemote` -/
def isAPrimaryRemote (s : Republisher) (id : UInt32) : Bool :=
  s.blinds.toList.any fun entry => (s.heap entry.2.remote).remoteId == id

/-- The remotes are not published when their id is that of a primary remote. -/
def isPrimary (s : Republisher) : Publishable → Bool
  | .remote p => s.isAPrimaryRemote (s.heap p).remoteId
  | .blind _ => false

/-- The devices of a collection, in the order of their keys. -/
def collection (s : Republisher) : Kind → List Publishable
  | .remote => s.remotes.toList.map fun entry => .remote entry.2
  | .blind => s.blinds.toList.map fun entry => .blind entry.1

/-- `TryRepublish` of one of the two collections: the first device that needs it. -/
def tryRepublish (s : Republisher) (kind : Kind) : Option Republisher :=
  ((s.collection kind).find? fun x => (s.find x).any (·.needsPublish)).map
    (s.modify (Publisher.trigger s.mqttEnabled))

/-- The timer goes on as long as it finds work. -/
def runTimer (s : Republisher) : Republisher :=
  match s.tryRepublish .remote with
  | some t => t
  | none =>
      match s.tryRepublish .blind with
      | some t => t
      | none => { s with timerPending := false }

/-- The check of the connection in the main loop. -/
def poll (s : Republisher) : Republisher :=
  if !s.mqttConnected then
    if s.connected then { s with mqttConnected := true, timerPending := true } else s
  else if !s.connected then { s with mqttConnected := false, timerPending := false }
  else s

/-- `CreateRemote` and the import. The map keeps the remote that it has under the id. -/
def createRemote (s : Republisher) (id : UInt32) (isExternal : Bool) : Republisher :=
  { s with
    heap := Function.update s.heap s.fresh ⟨id, .create s.mqttEnabled isExternal⟩
    remotes := s.remotes.insertIfNew id s.fresh }

/-- A new blind has a pointer to its new remote, registered or not. -/
def addBlind (s : Republisher) (k id : UInt32) : Republisher :=
  { s.createRemote id false with
    blinds := s.blinds.insertIfNew k ⟨.create s.mqttEnabled false, s.fresh⟩ }

/-- The remote that goes with a blind is the one registered under the id of its primary. -/
def deleteBlind (s : Republisher) (k : UInt32) (b : PublishingBlind) : Republisher :=
  { s with blinds := s.blinds.erase k, remotes := s.remotes.erase (s.heap b.remote).remoteId }

def step (s : Republisher) : RepublishEvent → Option Republisher
  | .connect => some { s with connected := true }
  | .disconnect => some { s with connected := false }
  | .poll => some s.poll
  | .timer => if s.timerPending then some s.runTimer else none
  | .worker x topic published =>
      (s.find x).bind fun p =>
        if p.workerPending then
          some (s.modify (Publisher.publishDiscovery s.connected topic (s.isPrimary x) published) x)
        else none
  | .trigger x => (s.find x).map fun _ => s.modify (Publisher.trigger s.mqttEnabled) x
  | .addRemote id isExternal => some (s.createRemote id isExternal)
  | .addBlind k id => some (s.addBlind k id)
  | .deleteRemote id => some { s with remotes := s.remotes.erase id }
  | .deleteBlind k => (s.blinds[k]?).map (s.deleteBlind k)

/-- Before the main loop. Some devices were loaded, none was run yet. -/
structure Starts (s : Republisher) : Prop where
  mqttConnected : s.mqttConnected = false
  timerPending : s.timerPending = false

/-- A device that has nobody to publish it. -/
def Forgotten (s : Republisher) (x : Publishable) : Prop :=
  ∃ p, s.find x = some p ∧ p.needsPublish = true ∧ p.workerPending = false ∧
    s.timerPending = false

/-- While the main loop takes the connection for up, and it is, no device is forgotten. -/
def Awake (s : Republisher) : Prop :=
  s.mqttConnected = true → s.connected = true → ∀ x, ¬s.Forgotten x

/-- No worker fails on a connection in use while the timer stands still, no device is left
over when a connection comes back that the main loop never missed, and no remote outside
the collection waits when the timer finds nothing more in the collections. -/
def Kept (s : Republisher) : RepublishEvent → Prop
  | .connect => s.mqttConnected = true → ∀ x, ¬s.Forgotten x
  | .worker x topic published =>
      s.mqttConnected = true → s.connected = true → s.timerPending = false →
        Publisher.settles s.connected topic (s.isPrimary x) published = true ∨
          ∀ p, s.find x = some p → p.needsPublish = false
  | .timer =>
      s.mqttConnected = true → s.connected = true →
        (∀ kind, ∀ x ∈ s.collection kind, ∀ p, s.find x = some p → p.needsPublish = false) →
        ∀ p, s.Alive p → (s.heap p).publisher.needsPublish = true →
          (s.heap p).publisher.workerPending = true
  | _ => True

variable {s t : Republisher}

theorem alive_modify {f : Publisher → Publisher} {x : Publishable} {p : ℕ} :
    (s.modify f x).Alive p ↔ s.Alive p := by
  cases x with
  | remote q => rfl
  | blind k =>
      have hblind : (∃ (i : UInt32) (b : PublishingBlind),
            (s.modify f (.blind k)).blinds[i]? = some b ∧ b.remote = p) ↔
          ∃ (i : UInt32) (b : PublishingBlind), s.blinds[i]? = some b ∧ b.remote = p := by
        refine exists_congr fun i => ?_
        simp only [modify, get_modify]
        split_ifs with hi
        · subst hi
          cases s.blinds[k]? with
          | none => simp
          | some b => simp
        · rfl
      exact or_congr Iff.rfl hblind

theorem find_modify {f : Publisher → Publisher} {x y : Publishable} :
    (s.modify f x).find y = if x = y then (s.find y).map f else s.find y := by
  cases y with
  | remote p =>
      simp only [find, alive_modify]
      cases x with
      | remote q =>
          by_cases hq : q = p
          · subst hq
            simp only [modify, Function.update_self, if_true]
            split_ifs <;> rfl
          · simp only [modify, Function.update_of_ne (Ne.symm hq), Publishable.remote.injEq, hq,
              if_false]
      | blind k => simp only [modify, reduceCtorEq, if_false]
  | blind i =>
      cases x with
      | remote q => simp only [find, modify, reduceCtorEq, if_false]
      | blind k =>
          simp only [find, modify, get_modify, Publishable.blind.injEq]
          split_ifs
          · cases s.blinds[i]? <;> rfl
          · rfl

/-- The timer stands as before, and a device is as it was or has its worker scheduled. -/
structure Scheduled (s t : Republisher) : Prop where
  timer : t.timerPending = s.timerPending
  found : ∀ {x p}, t.find x = some p → p.needsPublish = true → p.workerPending = false →
    ∃ q, s.find x = some q ∧ q.needsPublish = true ∧ q.workerPending = false

theorem Scheduled.forgotten (h : Scheduled s t) {x : Publishable} (hf : t.Forgotten x) :
    s.Forgotten x := by
  obtain ⟨p, hp, hneeds, hidle, htimer⟩ := hf
  obtain ⟨q, hq, hneeds', hidle'⟩ := h.found hp hneeds hidle
  exact ⟨q, hq, hneeds', hidle', h.timer.symm.trans htimer⟩

theorem trigger_idle {mqttEnabled : Bool} {p : Publisher}
    (hneeds : (p.trigger mqttEnabled).needsPublish = true)
    (hidle : (p.trigger mqttEnabled).workerPending = false) :
    p.needsPublish = true ∧ p.workerPending = false := by
  unfold Publisher.trigger at hneeds hidle
  by_cases hwork : (mqttEnabled && !p.isExternal) = true
  · rw [if_pos hwork] at hidle
    cases hidle
  · rw [if_neg hwork] at hneeds hidle
    exact ⟨hneeds, hidle⟩

theorem create_idle {mqttEnabled isExternal : Bool}
    (hneeds : (Publisher.create mqttEnabled isExternal).needsPublish = true)
    (hidle : (Publisher.create mqttEnabled isExternal).workerPending = false) : False :=
  absurd (trigger_idle hneeds hidle).1 Bool.false_ne_true

theorem modify_timer {f : Publisher → Publisher} {x : Publishable} :
    (s.modify f x).timerPending = s.timerPending := by
  cases x <;> rfl

theorem scheduled_trigger (x : Publishable) :
    Scheduled s (s.modify (Publisher.trigger s.mqttEnabled) x) where
  timer := modify_timer
  found := fun {y p} hp hneeds hidle => by
    rw [find_modify] at hp
    split_ifs at hp with hsame
    · obtain ⟨q, hq, rfl⟩ := Option.map_eq_some_iff.mp hp
      exact ⟨q, hq, trigger_idle hneeds hidle⟩
    · exact ⟨p, hp, hneeds, hidle⟩

/-- A remote of the new state is the new one or was there before. -/
theorem scheduled_createRemote (id : UInt32) (isExternal : Bool) :
    Scheduled s (s.createRemote id isExternal) where
  timer := rfl
  found := fun {x p} hp hneeds hidle => by
    cases x with
    | blind k => exact ⟨p, hp, hneeds, hidle⟩
    | remote a =>
        simp only [find, Option.ite_none_right_eq_some, Option.some.injEq] at hp
        obtain ⟨halive, rfl⟩ := hp
        by_cases ha : a = s.fresh
        · simp only [createRemote, ha, Function.update_self] at hneeds hidle
          exact absurd hidle fun hidle => create_idle hneeds hidle
        · simp only [createRemote, Function.update_of_ne ha] at hneeds hidle
          have hbefore : s.Alive a := by
            rcases halive with ⟨i, hi⟩ | hblind
            · simp only [createRemote, get_insertIfNew] at hi
              split_ifs at hi
              · exact absurd (Option.some.inj hi).symm ha
              · exact .inl ⟨i, hi⟩
            · exact .inr hblind
          exact ⟨(s.heap a).publisher, if_pos hbefore, hneeds, hidle⟩

theorem scheduled_addBlind (k id : UInt32) : Scheduled s (s.addBlind k id) where
  timer := rfl
  found := fun {x p} hp hneeds hidle => by
    cases x with
    | blind i =>
        simp only [find, addBlind, get_insertIfNew] at hp
        split_ifs at hp with hnew
        · rw [Option.map_some, Option.some.injEq] at hp
          subst hp
          exact absurd hidle fun hidle => create_idle hneeds hidle
        · exact ⟨p, hp, hneeds, hidle⟩
    | remote a =>
        simp only [find, Option.ite_none_right_eq_some, Option.some.injEq] at hp
        obtain ⟨halive, rfl⟩ := hp
        by_cases ha : a = s.fresh
        · simp only [addBlind, createRemote, ha, Function.update_self] at hneeds hidle
          exact absurd hidle fun hidle => create_idle hneeds hidle
        · simp only [addBlind, createRemote, Function.update_of_ne ha] at hneeds hidle
          have hbefore : s.Alive a := by
            rcases halive with ⟨i, hi⟩ | ⟨i, b, hb, hremote⟩
            · simp only [addBlind, createRemote, get_insertIfNew] at hi
              split_ifs at hi
              · exact absurd (Option.some.inj hi).symm ha
              · exact .inl ⟨i, hi⟩
            · simp only [addBlind, get_insertIfNew] at hb
              split_ifs at hb
              · obtain rfl := Option.some.inj hb
                exact absurd hremote.symm ha
              · exact .inr ⟨i, b, hb, hremote⟩
          exact ⟨(s.heap a).publisher, if_pos hbefore, hneeds, hidle⟩

/-- Taking devices out of the collections leaves no other one. -/
theorem scheduled_erase {remotes : Std.ExtTreeMap UInt32 ℕ}
    {blinds : Std.ExtTreeMap UInt32 PublishingBlind}
    (hremotes : ∀ (id : UInt32) (p : ℕ), remotes[id]? = some p → s.remotes[id]? = some p)
    (hblinds : ∀ (k : UInt32) (b : PublishingBlind), blinds[k]? = some b → s.blinds[k]? = some b) :
    Scheduled s { s with remotes := remotes, blinds := blinds } where
  timer := rfl
  found := fun {x p} hp hneeds hidle => by
    cases x with
    | blind k =>
        obtain ⟨b, hb, rfl⟩ := Option.map_eq_some_iff.mp hp
        exact ⟨b.publisher, Option.map_eq_some_iff.mpr ⟨b, hblinds k b hb, rfl⟩, hneeds, hidle⟩
    | remote a =>
        simp only [find, Option.ite_none_right_eq_some, Option.some.injEq] at hp
        obtain ⟨halive, rfl⟩ := hp
        have hbefore : s.Alive a := halive.imp (fun ⟨id, hid⟩ => ⟨id, hremotes id a hid⟩)
          fun ⟨k, b, hb, hremote⟩ => ⟨k, b, hblinds k b hb, hremote⟩
        exact ⟨(s.heap a).publisher, if_pos hbefore, hneeds, hidle⟩

theorem get_of_erase {V : Type} {m : Std.ExtTreeMap UInt32 V} {k a : UInt32} {v : V}
    (h : (m.erase k)[a]? = some v) : m[a]? = some v := by
  rw [get_erase] at h
  split_ifs at h
  exact h

theorem tryRepublish_none {kind : Kind} (h : s.tryRepublish kind = none) {x : Publishable}
    (hx : x ∈ s.collection kind) {p : Publisher} (hp : s.find x = some p) :
    p.needsPublish = false := by
  rw [tryRepublish, Option.map_eq_none_iff, List.find?_eq_none] at h
  have hentry := h x hx
  rw [hp, Option.any_some] at hentry
  simpa using hentry

theorem tryRepublish_idle {kind : Kind}
    (h : ∀ x ∈ s.collection kind, ∀ p, s.find x = some p → p.needsPublish = false) :
    s.tryRepublish kind = none := by
  rw [tryRepublish, Option.map_eq_none_iff, List.find?_eq_none]
  intro x hx
  cases hp : s.find x with
  | none => simp
  | some p => simp [h x hx p hp]

/-- A turn of the timer takes up a device, or finds none in the collections. -/
theorem runTimer_cases (s : Republisher) :
    (∃ x, s.runTimer = s.modify (Publisher.trigger s.mqttEnabled) x) ∨
      (s.runTimer = { s with timerPending := false } ∧
        ∀ kind, ∀ x ∈ s.collection kind, ∀ p, s.find x = some p → p.needsPublish = false) := by
  unfold runTimer
  cases hr : s.tryRepublish .remote with
  | some t =>
      obtain ⟨x, -, rfl⟩ := Option.map_eq_some_iff.mp hr
      exact .inl ⟨x, rfl⟩
  | none =>
      cases hb : s.tryRepublish .blind with
      | some t =>
          obtain ⟨x, -, rfl⟩ := Option.map_eq_some_iff.mp hb
          exact .inl ⟨x, rfl⟩
      | none =>
          refine .inr ⟨rfl, fun kind x hx p hp => ?_⟩
          cases kind with
          | remote => exact tryRepublish_none hr hx hp
          | blind => exact tryRepublish_none hb hx hp

/-- A device that is found is in its collection, or is a remote outside. -/
theorem find_collection {x : Publishable} {p : Publisher} (h : s.find x = some p) :
    (∃ a, x = .remote a ∧ s.Alive a ∧ p = (s.heap a).publisher) ∨ x ∈ s.collection .blind := by
  cases x with
  | remote a =>
      simp only [find, Option.ite_none_right_eq_some, Option.some.injEq] at h
      exact .inl ⟨a, rfl, h.1, h.2.symm⟩
  | blind k =>
      obtain ⟨b, hb, -⟩ := Option.map_eq_some_iff.mp h
      exact .inr (List.mem_map.mpr ⟨(k, b), mem_toList.mpr hb, rfl⟩)

theorem Awake.scheduled (h : s.Awake) (hst : Scheduled s t)
    (hmqtt : t.mqttConnected = s.mqttConnected) (hconnected : t.connected = s.connected) :
    t.Awake := fun hm hc x hf =>
  h (hmqtt.symm.trans hm) (hconnected.symm.trans hc) x (hst.forgotten hf)

theorem Awake.timer (h : s.timerPending = true) (hok : s.Kept .timer) : s.runTimer.Awake := by
  intro hmqtt hconnected x hf
  rcases s.runTimer_cases with ⟨y, heq⟩ | ⟨heq, hnone⟩
  · obtain ⟨p, -, -, -, htimer⟩ := hf
    rw [heq, modify_timer, h] at htimer
    cases htimer
  · rw [heq] at hmqtt hconnected hf
    obtain ⟨p, hp, hneeds, hidle, -⟩ := hf
    have hp' : s.find x = some p := by
      cases x <;> exact hp
    rcases find_collection hp' with ⟨a, rfl, halive, rfl⟩ | hmem
    · have hworker := hok hmqtt hconnected hnone a halive hneeds
      exact absurd (hidle.symm.trans hworker) Bool.false_ne_true
    · exact absurd ((hnone .blind x hmem p hp').symm.trans hneeds) Bool.false_ne_true

theorem Awake.step {e : RepublishEvent} (h : s.Awake) (hok : s.Kept e)
    (hstep : s.step e = some t) : t.Awake := by
  cases e with
  | connect =>
      cases hstep
      exact fun hmqtt _ x hf => hok hmqtt x (by cases x <;> exact hf)
  | disconnect =>
      cases hstep
      exact fun _ hconnected => absurd hconnected Bool.false_ne_true
  | poll =>
      cases hstep
      unfold Republisher.poll
      cases hm : s.mqttConnected with
      | false =>
          cases hc : s.connected with
          | false => exact fun hmqtt => absurd (hm.symm.trans hmqtt) Bool.false_ne_true
          | true => exact fun _ _ x ⟨p, _, _, _, htimer⟩ => absurd htimer.symm Bool.false_ne_true
      | true =>
          cases hc : s.connected with
          | false => exact fun hmqtt => absurd hmqtt Bool.false_ne_true
          | true => exact h
  | timer =>
      simp only [Republisher.step, Option.ite_none_right_eq_some, Option.some.injEq] at hstep
      obtain ⟨htimer, rfl⟩ := hstep
      exact Awake.timer htimer hok
  | worker x topic published =>
      obtain ⟨p, hp, hstep⟩ := Option.bind_eq_some_iff.mp hstep
      simp only [Option.ite_none_right_eq_some, Option.some.injEq] at hstep
      obtain ⟨hworker, rfl⟩ := hstep
      intro hmqtt hconnected y hforgotten
      have hm : s.mqttConnected = true := by
        cases x <;> exact hmqtt
      have hc : s.connected = true := by
        cases x <;> exact hconnected
      obtain ⟨q, hq, hneeds, hidle, htimer⟩ := hforgotten
      rw [modify_timer] at htimer
      rw [find_modify] at hq
      split_ifs at hq with hsame
      · -- the device whose worker ran
        subst hsame
        rw [hp, Option.map_some, Option.some.injEq] at hq
        subst hq
        simp only [Publisher.publishDiscovery, Bool.and_eq_true, Bool.not_eq_true'] at hneeds
        rcases hok hm hc htimer with hsettles | hnone
        · exact absurd (hsettles.symm.trans hneeds.2) (by decide)
        · exact absurd ((hnone p hp).symm.trans hneeds.1) (by decide)
      · exact h hm hc y ⟨q, hq, hneeds, hidle, htimer⟩
  | trigger x =>
      obtain ⟨p, -, rfl⟩ := Option.map_eq_some_iff.mp hstep
      exact h.scheduled (scheduled_trigger x) (by cases x <;> rfl) (by cases x <;> rfl)
  | addRemote id isExternal =>
      cases hstep
      exact h.scheduled (scheduled_createRemote id isExternal) rfl rfl
  | addBlind k id =>
      cases hstep
      exact h.scheduled (scheduled_addBlind k id) rfl rfl
  | deleteRemote id =>
      cases hstep
      exact h.scheduled (scheduled_erase (fun _ _ hi => get_of_erase hi) fun _ _ hb => hb) rfl rfl
  | deleteBlind k =>
      obtain ⟨b, -, rfl⟩ := Option.map_eq_some_iff.mp hstep
      exact h.scheduled
        (scheduled_erase (fun _ _ hi => get_of_erase hi) fun _ _ hb => get_of_erase hb) rfl rfl

/-- Every other step leaves a forgotten device behind. -/
theorem step_not_kept {e : RepublishEvent} (hok : ¬s.Kept e) (hstep : s.step e = some t) :
    ¬t.Awake := by
  cases e with
  | connect =>
      cases hstep
      simp only [Kept, not_forall, not_not] at hok
      obtain ⟨hmqtt, x, hforgotten⟩ := hok
      exact fun h => h hmqtt rfl x (by cases x <;> exact hforgotten)
  | timer =>
      simp only [Republisher.step, Option.ite_none_right_eq_some, Option.some.injEq] at hstep
      obtain ⟨-, rfl⟩ := hstep
      simp only [Kept, not_forall, Bool.not_eq_true] at hok
      obtain ⟨hmqtt, hconnected, hnone, p, halive, hneeds, hidle⟩ := hok
      have hstops : s.runTimer = { s with timerPending := false } := by
        unfold runTimer
        rw [tryRepublish_idle (hnone .remote), tryRepublish_idle (hnone .blind)]
      rw [hstops]
      exact fun h => h hmqtt hconnected (.remote p)
        ⟨(s.heap p).publisher, if_pos halive, hneeds, hidle, rfl⟩
  | worker x topic published =>
      obtain ⟨p, hp, hstep⟩ := Option.bind_eq_some_iff.mp hstep
      simp only [Option.ite_none_right_eq_some, Option.some.injEq] at hstep
      obtain ⟨-, rfl⟩ := hstep
      simp only [Kept, not_forall, not_or, Bool.not_eq_true, Bool.not_eq_false] at hok
      obtain ⟨hmqtt, hconnected, htimer, hsettles, q, hq, hneeds⟩ := hok
      rw [hp, Option.some.injEq] at hq
      subst hq
      refine fun h => h (by cases x <;> exact hmqtt) (by cases x <;> exact hconnected) x
        ⟨p.publishDiscovery s.connected topic (s.isPrimary x) published, ?_, ?_, rfl,
          modify_timer.trans htimer⟩
      · rw [find_modify, if_pos rfl, hp, Option.map_some]
      · rw [Publisher.publishDiscovery, hneeds, hsettles]
        rfl
  | disconnect => exact absurd trivial hok
  | poll => exact absurd trivial hok
  | trigger x => exact absurd trivial hok
  | addRemote id isExternal => exact absurd trivial hok
  | addBlind k id => exact absurd trivial hok
  | deleteRemote id => exact absurd trivial hok
  | deleteBlind k => exact absurd trivial hok

/-- In a run whose steps are all kept no device is forgotten while the connection is in
use, and the first step that is not kept leaves one behind. -/
theorem discovery_kept {s t : Republisher} {es : List RepublishEvent} (hstart : s.Starts)
    (h : Run step Kept s es t) :
    t.Awake ∧ ∀ e u, t.step e = some u → (u.Awake ↔ t.Kept e) := by
  have hawake : t.Awake := h.invariant (fun hi hok hstep => hi.step hok hstep)
    fun hmqtt => absurd (hmqtt.symm.trans hstart.mqttConnected) (by decide)
  refine ⟨hawake, fun e u hstep => ⟨fun hu => ?_, fun hok => hawake.step hok hstep⟩⟩
  by_contra hok
  exact step_not_kept hok hstep hu

/-- A device without remotes and blinds before its main loop starts. -/
def empty (connected : Bool) : Republisher :=
  ⟨true, connected, false, false, fun _ => ⟨0, ⟨false, false, false⟩⟩, ∅, ∅⟩

/-- A new blind is published while the timer is pending. -/
theorem discovery_kept_newBlind : ∃ t, Run step Kept (empty true)
    [.addBlind 1 0x270001, .poll, .worker (.blind 1) true true] t ∧ t.Awake := by
  have hsteps : ∃ u, ((empty true).step (.addBlind 1 0x270001)).bind (·.step .poll) = some u ∧
      u.timerPending = true ∧ ∃ t, u.step (.worker (.blind 1) true true) = some t := by
    refine ⟨_, rfl, rfl, Option.isSome_iff_exists.mp ?_⟩
    decide +kernel
  obtain ⟨u, hu, htimer, t, ht⟩ := hsteps
  obtain ⟨r, hr, hpoll⟩ := Option.bind_eq_some_iff.mp hu
  have hrun : Run step Kept (empty true)
      ([.addBlind 1 0x270001] ++ [.poll] ++ [.worker (.blind 1) true true]) t :=
    .snoc (.snoc (.single trivial hr) trivial hpoll)
      (fun _ _ hidle => absurd (htimer.symm.trans hidle) (by decide)) ht
  exact ⟨t, hrun, (discovery_kept ⟨rfl, rfl⟩ hrun).1⟩

/-- A device that a run leaves with the connection in use and nobody to publish it. -/
def leaves (start : Republisher) (es : List RepublishEvent) (x : Publishable) : Bool :=
  (exec step start es).any fun s => s.mqttConnected && s.connected && !s.timerPending &&
    (s.find x).any fun p => p.needsPublish && !p.workerPending

theorem not_awake_of_leaves (start : Republisher) (es : List RepublishEvent) (x : Publishable)
    (h : leaves start es x = true) : ∃ t, Run step Free start es t ∧ ¬t.Awake := by
  obtain ⟨t, ht, hend⟩ := (Option.any_eq_true _ _).mp h
  simp only [Bool.and_eq_true, Bool.not_eq_true'] at hend
  obtain ⟨⟨⟨hmqtt, hconnected⟩, htimer⟩, hfound⟩ := hend
  obtain ⟨p, hp, hflags⟩ := (Option.any_eq_true _ _).mp hfound
  simp only [Bool.and_eq_true, Bool.not_eq_true'] at hflags
  exact ⟨t, run_of_exec ht, fun hawake =>
    hawake hmqtt hconnected x ⟨p, hp, hflags.1, hflags.2, htimer⟩⟩

/-- The timer has stopped when a blind is renamed and its message is refused. And a blind is
added while the broker is down and the id of its remote is taken by an imported one: the
worker gives up, and the timer never comes to the remote. -/
theorem discovery_forgotten :
    (¬∀ (s t : Republisher) (es : List RepublishEvent), s.Starts →
      Run step Free s es t → t.Awake) ∧
    ∃ t, Run step Free (empty false)
      [.addRemote 0x270001 true, .addBlind 1 0x270001, .worker (.remote 2) true false,
        .worker (.blind 1) true false, .connect, .poll, .timer, .worker (.blind 1) true true,
        .timer] t ∧ ¬t.Awake := by
  refine ⟨fun hall => ?_, not_awake_of_leaves _ _ (.remote 2) (by decide +kernel)⟩
  obtain ⟨t, hrun, hnot⟩ := not_awake_of_leaves (empty true)
    [.addBlind 1 0x270001, .poll, .worker (.blind 1) true true, .worker (.remote 1) true true,
      .timer, .trigger (.blind 1), .worker (.blind 1) true false] (.blind 1) (by decide +kernel)
  exact hnot (hall _ t _ ⟨rfl, rfl⟩ hrun)

end Republisher

end PicoSomfy
