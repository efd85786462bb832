import PicoSomfy.Links

/-!
# The presses that a call makes

Requests, messages and the timers of the blinds all come down to calls of `PressButtons`.
`presses` lists those of one call, each with the state it finds, and `Does` says that the call
makes these presses and beyond them only changes blinds.
-/
namespace PicoSomfy

open SortedMap

/-- A call of `PressButtons`, with the state it is made in. -/
structure Press where
  found : Device
  remote : ℕ
  buttons : SomfyButton
  repeats : UInt16

namespace Press

def command (x : Press) : SomfyCommand := x.found.nextCommand x.remote x.buttons x.repeats

def blindIds (x : Press) : List UInt16 := (x.found.heap x.remote).associatedBlinds

def perform (x : Press) : Option Device := x.found.pressButtons x.remote x.buttons x.repeats

variable {x : Press} {d : Device}

theorem perform_radio (h : x.perform = some d) :
    d.radio = (x.found.radio.queueCommand x.command).2 := by
  rw [Device.pressButtons_eq h]
  rfl

theorem perform_code (h : x.perform = some d) :
    (d.heap x.remote).rollingCode = (x.found.heap x.remote).rollingCode + 1 := by
  rw [Device.pressButtons_eq h]
  simp only [Device.modifyRemote, Function.update_self]
  rfl

theorem perform_history (h : x.perform = some d) :
    d.history = x.found.history ++ .pressed x.command (x.found.radio.queueCommand x.command).1 ::
      x.blindIds.map fun k => .told k x.command := by
  rw [Device.pressButtons_eq h]
  rfl

end Press

namespace Device

variable {d d' : Device}

def goPresses (d : Device) (k : UInt32) (button : SomfyButton) : List Press :=
  (d.blinds[k]?).elim [] fun b => [⟨d, b.remote, button, shortPress⟩]

def stopPresses (d : Device) (k : UInt32) : List Press :=
  (d.blinds[k]?).elim [] fun b =>
    if b.motionDirection ≠ 0 then [⟨d, b.remote, .my, shortPress⟩] else []

def goWhenPresses (d : Device) (k : UInt32) (button : SomfyButton) (c : Blind → Bool) :
    List Press :=
  (d.blinds[k]?).elim [] fun b => if c b then d.goPresses k button else []

/-- The second test sees the blind after the first press. -/
def goToPositionPresses (d : Device) (k : UInt32) (position : Int32) : List Press :=
  let p := clampPosition position
  let down := fun b : Blind => b.intermediatePosition > p.toInt || p = 0
  d.goWhenPresses k .down down ++ (d.goWhen k .down down).elim [] fun d =>
    d.goWhenPresses k .up fun b => b.intermediatePosition < p.toInt || p = 100

/-- A blind that arrives inside the range is stopped. -/
def moveBlindPresses (d : Device) (k : UInt32) (b : Blind) : List Press :=
  if b.motionDirection = 0 then []
  else if { b with intermediatePosition := b.travel d.clock }.atTarget then
    if b.targetPosition < 100 ∧ b.targetPosition > 0 then
      (d.modifyBlind k fun b =>
        { b with intermediatePosition := b.targetPosition.toInt }).stopPresses k
    else []
  else []

def tickPresses (d : Device) (k : UInt32) : List Press :=
  (d.blinds[k]?).elim [] fun b =>
    if b.refreshTimer.any (· ≤ d.clock) then
      (d.modifyBlind k fun b => { b with refreshTimer := none }).moveBlindPresses k b
    else []

def presses (d : Device) : Call → List Press
  | .press p buttons repeats => [⟨d, p, buttons, repeats⟩]
  | .goUp k => d.goPresses k .up
  | .goDown k => d.goPresses k .down
  | .stop k => d.stopPresses k
  | .goToPosition k position => d.goToPositionPresses k position
  | .tick k _ _ => d.tickPresses k
  | _ => []

/-- The presses that an event makes. -/
def pressesOf (d : Device) (e : Event) : List Press := (d.call e).elim [] d.presses

/-- A press of the first remote over MQTT. -/
def pressUp : Event := .remoteTopic 0x270001 (ascii "up")

/-- The presses made on the way from one state to another, on which nothing else but the
blinds changes. -/
inductive Does : Device → List Press → Device → Prop
  | blinds (d : Device) (blinds : Std.ExtTreeMap UInt32 Blind) :
      Does d [] { d with blinds := blinds }
  | press {x : Press} {d : Device} : x.perform = some d → Does x.found [x] d
  | trans {d d' d'' : Device} {xs ys : List Press} :
      Does d xs d' → Does d' ys d'' → Does d (xs ++ ys) d''

theorem does_nothing (d : Device) : Does d [] d := .blinds d d.blinds

theorem does_press {p : ℕ} {buttons : SomfyButton} {repeats : UInt16}
    (h : d.pressButtons p buttons repeats = some d') : Does d [⟨d, p, buttons, repeats⟩] d' :=
  .press (x := ⟨d, p, buttons, repeats⟩) h

/-- The blinds change before and after the presses. -/
theorem Does.between {d' : Device} {xs : List Press} {first last : Std.ExtTreeMap UInt32 Blind}
    (h : Does { d with blinds := first } xs d') : Does d xs { d' with blinds := last } := by
  have hdoes := (Does.blinds d first).trans (h.trans (.blinds d' last))
  rwa [List.nil_append, List.append_nil] at hdoes

variable {k : UInt32}

theorem does_go {button : SomfyButton} (h : d.go k button = some d') :
    Does d (d.goPresses k button) d' := by
  obtain ⟨b, hb, h⟩ := Option.bind_eq_some_iff.mp h
  unfold goPresses
  rw [hb]
  exact does_press h

theorem does_stop (h : d.stop k = some d') : Does d (d.stopPresses k) d' := by
  obtain ⟨b, hb, h⟩ := Option.bind_eq_some_iff.mp h
  unfold stopPresses
  rw [hb, Option.elim_some]
  split_ifs at h ⊢
  · exact does_press h
  · exact Option.some.inj h ▸ does_nothing d

theorem does_goWhen {button : SomfyButton} {c : Blind → Bool} (h : d.goWhen k button c = some d') :
    Does d (d.goWhenPresses k button c) d' := by
  obtain ⟨b, hb, h⟩ := Option.bind_eq_some_iff.mp h
  unfold goWhenPresses
  rw [hb, Option.elim_some]
  split_ifs at h ⊢
  · exact does_go h
  · exact Option.some.inj h ▸ does_nothing d

theorem does_goToPosition {position : Int32} (h : d.goToPosition k position = some d') :
    Does d (d.goToPositionPresses k position) d' := by
  obtain ⟨d₁, h₁, h⟩ := Option.bind_eq_some_iff.mp h
  obtain ⟨d₂, h₂, rfl⟩ := Option.map_eq_some_iff.mp h
  simp only [goToPositionPresses, h₁, Option.elim_some]
  have hboth := (does_goWhen h₁).trans (does_goWhen h₂)
  have hlast := hboth.trans (.blinds d₂ (d₂.modifyBlind k fun b =>
    { b with targetPosition := clampPosition position }).blinds)
  rwa [List.append_nil] at hlast

theorem does_moveBlind {b : Blind} (h : d.moveBlind k b = some d') :
    Does d (d.moveBlindPresses k b) d' := by
  unfold moveBlind at h
  unfold moveBlindPresses
  split_ifs at h ⊢ with hrest hat harrives
  · exact Option.some.inj h ▸ does_nothing d
  · obtain ⟨e, he, rfl⟩ := Option.map_eq_some_iff.mp h
    exact (does_stop he).between
  · obtain ⟨e, he, rfl⟩ := Option.map_eq_some_iff.mp h
    cases he
    exact .blinds d _
  · cases h
    exact .blinds d _

theorem does_tick {position state : Bool} (h : d.tick k position state = some d') :
    Does d (d.tickPresses k) d' := by
  obtain ⟨b, hb, h⟩ := Option.bind_eq_some_iff.mp h
  unfold tickPresses
  rw [hb, Option.elim_some]
  split_ifs at h ⊢ with hdue
  obtain ⟨e, he, rfl⟩ := Option.map_eq_some_iff.mp h
  exact (does_moveBlind he).between

end Device

/-- The calls that may press. -/
def Call.mayPress : Call → Bool
  | .press _ _ _ | .goUp _ | .goDown _ | .stop _ | .goToPosition _ _ | .tick _ _ _ => true
  | _ => false

namespace Device

variable {d d' : Device}

theorem does_perform {c : Call} (hc : c.mayPress = true) (h : d.perform c = some d') :
    Does d (d.presses c) d' := by
  cases c with
  | press p buttons repeats => exact does_press h
  | goUp k => exact does_go h
  | goDown k => exact does_go h
  | stop k => exact does_stop h
  | goToPosition k position => exact does_goToPosition h
  | tick k position state => exact does_tick h
  | _ => cases hc

/-- A press of the primary remote of a blind, in a state with the same registered remotes. -/
structure Presses (d : Device) (k : UInt32) (x : Press) : Prop where
  registry : SameRegistry d x.found
  lists : ∀ p, (x.found.heap p).associatedBlinds = (d.heap p).associatedBlinds
  primary : ∃ b, x.found.blinds[k]? = some b ∧ x.remote = b.remote

variable {k : UInt32} {x : Press}

theorem mem_goPresses {button : SomfyButton} (hx : x ∈ d.goPresses k button) : Presses d k x := by
  unfold goPresses at hx
  cases hb : d.blinds[k]? with
  | none => simp [hb] at hx
  | some b =>
      rw [hb] at hx
      obtain rfl := List.mem_singleton.mp hx
      exact ⟨.refl d, fun _ => rfl, b, hb, rfl⟩

theorem mem_goWhenPresses {button : SomfyButton} {c : Blind → Bool}
    (hx : x ∈ d.goWhenPresses k button c) : Presses d k x := by
  unfold goWhenPresses at hx
  cases hb : d.blinds[k]? with
  | none => simp [hb] at hx
  | some b =>
      rw [hb, Option.elim_some] at hx
      split_ifs at hx
      · exact mem_goPresses hx
      · exact absurd hx List.not_mem_nil

theorem mem_stopPresses (hx : x ∈ d.stopPresses k) : Presses d k x := by
  unfold stopPresses at hx
  cases hb : d.blinds[k]? with
  | none => simp [hb] at hx
  | some b =>
      rw [hb, Option.elim_some] at hx
      split_ifs at hx
      · obtain rfl := List.mem_singleton.mp hx
        exact ⟨.refl d, fun _ => rfl, b, hb, rfl⟩
      · exact absurd hx List.not_mem_nil

/-- The same presses seen from a state before. -/
theorem Presses.before (h : Presses d' k x) (hs : SameRegistry d d')
    (hlists : ∀ p, (d'.heap p).associatedBlinds = (d.heap p).associatedBlinds) : Presses d k x :=
  ⟨hs.trans h.registry, fun p => (h.lists p).trans (hlists p), h.primary⟩

theorem mem_goToPositionPresses {position : Int32} (hx : x ∈ d.goToPositionPresses k position) :
    Presses d k x := by
  unfold goToPositionPresses at hx
  rcases List.mem_append.mp hx with hx | hx
  · exact mem_goWhenPresses hx
  · cases hd : d.goWhen k .down fun b : Blind =>
      b.intermediatePosition > (clampPosition position).toInt || clampPosition position = 0 with
    | none => simp [hd] at hx
    | some d' =>
        rw [hd, Option.elim_some] at hx
        have hreacts := Reacts.goWhen hd
        exact (mem_goWhenPresses hx).before hreacts.sameRegistry fun p =>
          (hreacts.remote p).fields.2.2.1

theorem mem_tickPresses (hx : x ∈ d.tickPresses k) : Presses d k x := by
  unfold tickPresses at hx
  cases hb : d.blinds[k]? with
  | none => simp [hb] at hx
  | some b =>
      rw [hb, Option.elim_some] at hx
      unfold moveBlindPresses at hx
      split_ifs at hx
      any_goals exact absurd hx List.not_mem_nil
      have harrived := (mem_stopPresses hx).before
        (SameRegistry.modifyBlind _ k _ fun _ _ => rfl) fun _ => rfl
      exact harrived.before (SameRegistry.modifyBlind d k _ fun _ _ => rfl) fun _ => rfl

/-- A press is asked for, or it is one of the primary remote of a blind. -/
theorem mem_presses {c : Call} (hx : x ∈ d.presses c) :
    (∃ p buttons repeats, c = .press p buttons repeats ∧ x = ⟨d, p, buttons, repeats⟩) ∨
      ∃ k, Presses d k x := by
  cases c with
  | press p buttons repeats => exact .inl ⟨p, buttons, repeats, rfl, List.mem_singleton.mp hx⟩
  | goUp k => exact .inr ⟨k, mem_goPresses hx⟩
  | goDown k => exact .inr ⟨k, mem_goPresses hx⟩
  | stop k => exact .inr ⟨k, mem_stopPresses hx⟩
  | goToPosition k position => exact .inr ⟨k, mem_goToPositionPresses hx⟩
  | tick k position state => exact .inr ⟨k, mem_tickPresses hx⟩
  | _ => exact absurd hx List.not_mem_nil

end Device

end PicoSomfy
