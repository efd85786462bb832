import PicoSomfy.BlindMotion

/-!
# Reports of a blind's position

`UpdatePosition` publishes the position and, when that was accepted, the state of the
blind, and its refresh timer runs again while the blind moves or when something is
still to be published. A failure to publish the position is not counted as such. A
report is lost when that happens as the blind comes to rest; otherwise the last
reports that were accepted are those of the blind at rest, once no tick is pending.
-/
namespace PicoSomfy

open Transitions

namespace Blind

/-- A cast to `int`. -/
def truncated (x : ℚ) : ℤ := if 0 ≤ x then ⌊x⌋ else ⌈x⌉

def positionPayload (b : Blind) : List UInt8 := ascii (toString (truncated b.intermediatePosition))

def statePayload (b : Blind) : List UInt8 :=
  if b.motionDirection > 0 then ascii "opening"
  else if b.motionDirection < 0 then ascii "closing"
  else ascii "stopped"

/-- What `UpdatePosition` returns: the milliseconds to the next tick, zero for none. -/
def nextTick (b : Blind) (again : Bool) : ℕ :=
  if b.motionDirection ≠ 0 then 1000 else if again then 30000 else 0

/-- The timer is set to the time that is returned. -/
theorem finishTick_refreshTimer (b : Blind) (now : ℤ) (again : Bool) :
    (b.finishTick now again).refreshTimer =
      if b.nextTick again = 0 then b.refreshTimer else some (now + 1000 * b.nextTick again) := by
  unfold finishTick nextTick
  by_cases hd : b.motionDirection = 0
  · cases again <;> simp [hd]
  · simp [hd]

end Blind

/-- A blind with the last payloads that `Publish` accepted for it. -/
structure Reporter where
  mqttEnabled : Bool
  blind : Blind
  position : Option (List UInt8)
  state : Option (List UInt8)

/-- A tick comes with the results of its calls of `Publish`. `retarget` is the end of
`GoToPosition`. -/
inductive ReportEvent where
  | press (button : SomfyButton) (long : Bool) (now : ℤ)
  | tick (now : ℤ) (listens position state : Bool)
  | retarget (position : Int32)
  | updateConfig (name : List UInt8) (openTime closeTime : Int32)

namespace Reporter

def step (s : Reporter) : ReportEvent → Option Reporter
  | .press button long now => some { s with blind := s.blind.buttonsPressed button long now }
  | .tick now listens position state =>
      if s.blind.refreshTimer.any (· ≤ now) then
        let b := s.blind.updatePosition now listens
          (Blind.publishPosition s.mqttEnabled position state)
        some { s with
          blind := b
          position := if s.mqttEnabled && position then some b.positionPayload else s.position
          state := if s.mqttEnabled && position && state then some b.statePayload else s.state }
      else none
  | .retarget position =>
      some { s with blind := { s.blind with targetPosition := Device.clampPosition position } }
  | .updateConfig name openTime closeTime =>
      some { s with blind := s.blind.updateConfig s.mqttEnabled name openTime closeTime }

/-- A tick of the device is the tick of a reporter with the same blind. -/
theorem step_of_tick {s : Reporter} {d d' : Device} {k : UInt32} {position state : Bool}
    (hb : d.blinds[k]? = some s.blind) (hmqtt : d.mqttEnabled = s.mqttEnabled)
    (hn : (d.heap s.blind.remote).associatedBlinds.Nodup)
    (h : d.tick k position state = some d') :
    ∃ s', s.step (.tick d.clock (d.listens k s.blind) position state) = some s' ∧
      d'.blinds[k]? = some s'.blind := by
  have hblind := Device.tick_blind hb hn h
  have hdue : s.blind.refreshTimer.any (· ≤ d.clock) = true := by
    unfold Device.tick at h
    rw [hb, Option.bind_some] at h
    split_ifs at h with hdue
    exact hdue
  refine ⟨_, if_pos hdue, ?_⟩
  rw [hblind, hmqtt]

/-- A blind at rest with no tick to come was reported as it is. -/
def Reported (s : Reporter) : Prop :=
  s.blind.motionDirection = 0 → s.blind.refreshTimer = none →
    s.position = some s.blind.positionPayload ∧ s.state = some (ascii "stopped")

/-- The tick finds the blind at rest, or at its target. -/
def Rests (b : Blind) (now : ℤ) : Prop := b.motionDirection = 0 ∨ (b.movedTo now).atTarget

/-- The tick presses the My button of a remote the blind listens to. -/
def StopsItself (b : Blind) (now : ℤ) (listens : Bool) : Prop :=
  (b.movedTo now).atTarget ∧ (b.targetPosition < 100 ∧ b.targetPosition > 0) ∧ listens = true

/-- The position is accepted, unless there will be another tick anyway. -/
def Heard (s : Reporter) : ReportEvent → Prop
  | .tick now listens position _ =>
      position = true ∨ ¬Rests s.blind now ∨ StopsItself s.blind now listens
  | _ => True

end Reporter

namespace Blind

variable {b : Blind} {now : ℤ} {listens again : Bool}

/-- Only a blind that stops itself has its timer set while it is ticked. -/
theorem moveOn_refreshTimer (h : b.refreshTimer = none) :
    (b.moveOn now listens).refreshTimer ≠ none ↔ Reporter.StopsItself b now listens := by
  unfold moveOn Reporter.StopsItself
  by_cases h₀ : b.motionDirection = 0
  · rw [if_pos h₀]
    constructor
    · exact fun hne => absurd h hne
    · exact fun hstop => absurd hstop.1 (not_atTarget_of_rest h₀ now)
  rw [if_neg h₀, Blind.movedTo, if_neg h₀]
  by_cases h₁ : { b with intermediatePosition := b.travel now }.atTarget
  · have h₁' : { b with intermediatePosition := b.travel now, lastTick := now }.atTarget := h₁
    rw [if_pos h₁]
    dsimp only
    by_cases h₂ : b.targetPosition < 100 ∧ b.targetPosition > 0
    · rw [if_pos h₂, stopped]
      cases listens with
      | true =>
          refine ⟨fun _ => ⟨h₁', h₂, rfl⟩, fun _ => ?_⟩
          rw [if_pos ⟨h₀, rfl⟩, buttonsPressed, if_neg (by decide), if_neg (by decide), if_pos rfl,
            if_pos h₀]
          exact Option.some_ne_none _
      | false =>
          rw [if_neg (by simp)]
          exact ⟨fun hne => absurd h hne, fun hstop => absurd hstop.2.2 (by decide)⟩
    · rw [if_neg h₂]
      exact ⟨fun hne => absurd h hne, fun hstop => absurd hstop.2.1 h₂⟩
  · have h₁' : ¬{ b with intermediatePosition := b.travel now, lastTick := now }.atTarget := h₁
    rw [if_neg h₁]
    exact ⟨fun hne => absurd h hne, fun hstop => absurd hstop.1 h₁'⟩

theorem moveOn_direction (b : Blind) (now : ℤ) (listens : Bool) :
    (b.moveOn now listens).motionDirection = 0 ↔ Reporter.Rests b now := by
  unfold moveOn Reporter.Rests
  by_cases h₀ : b.motionDirection = 0
  · rw [if_pos h₀]
    exact ⟨.inl, fun _ => h₀⟩
  rw [if_neg h₀, Blind.movedTo, if_neg h₀]
  by_cases h₁ : { b with intermediatePosition := b.travel now }.atTarget
  · rw [if_pos h₁]
    exact ⟨fun _ => .inr h₁, fun _ => rfl⟩
  · rw [if_neg h₁]
    exact ⟨.inl, fun hrests => hrests.resolve_right h₁⟩

/-- When no tick follows an update. -/
theorem updatePosition_silent :
    (b.updatePosition now listens again).refreshTimer = none ↔
      Reporter.Rests b now ∧ again = false ∧ ¬Reporter.StopsItself b now listens := by
  have hdir := moveOn_direction { b with refreshTimer := none } now listens
  have htimer : ({ b with refreshTimer := none }.moveOn now listens).refreshTimer ≠ none ↔
      Reporter.StopsItself { b with refreshTimer := none } now listens := moveOn_refreshTimer rfl
  have hrests : Reporter.Rests { b with refreshTimer := none } now ↔ Reporter.Rests b now := by
    unfold Reporter.Rests Blind.movedTo
    split_ifs <;> exact Iff.rfl
  have hstops : Reporter.StopsItself { b with refreshTimer := none } now listens ↔
      Reporter.StopsItself b now listens := by
    unfold Reporter.StopsItself Blind.movedTo
    split_ifs <;> exact Iff.rfl
  rw [hrests] at hdir
  rw [hstops] at htimer
  rw [← hdir, ← htimer, not_not]
  unfold updatePosition finishTick
  by_cases hd : ({ b with refreshTimer := none }.moveOn now listens).motionDirection = 0
  · cases again <;> simp [hd]
  · simp [hd]

end Blind

namespace Reporter

variable {s s' : Reporter} {e : ReportEvent}

/-- A press sets the timer, or leaves the blind as it is. -/
theorem refreshTimer_press (b : Blind) (button : SomfyButton) (long : Bool) (now : ℤ) :
    (b.buttonsPressed button long now).refreshTimer = some (now + 500000) ∨
      b.buttonsPressed button long now = b := by
  unfold Blind.buttonsPressed
  split_ifs
  all_goals first
    | exact .inl rfl
    | exact .inr rfl

theorem statePayload_rest {b : Blind} (h : b.motionDirection = 0) :
    b.statePayload = ascii "stopped" := by
  rw [Blind.statePayload, h]
  rfl

/-- A heard event keeps the reports. -/
theorem Reported.step (h : s.Reported) (hmqtt : s.mqttEnabled = true) (hok : s.Heard e)
    (hstep : s.step e = some s') : s'.Reported ∧ s'.mqttEnabled = true := by
  cases e with
  | press button long now =>
      cases hstep
      refine ⟨fun hdir htimer => ?_, hmqtt⟩
      rcases refreshTimer_press s.blind button long now with hset | hsame
      · exact absurd (hset.symm.trans htimer) (by simp)
      · dsimp only at hdir htimer ⊢
        rw [hsame] at hdir htimer ⊢
        exact h hdir htimer
  | retarget position =>
      cases hstep
      exact ⟨h, hmqtt⟩
  | updateConfig name openTime closeTime =>
      cases hstep
      exact ⟨h, hmqtt⟩
  | tick now listens position state =>
      simp only [Reporter.step, Option.ite_none_right_eq_some, Option.some.injEq] at hstep
      obtain ⟨-, rfl⟩ := hstep
      refine ⟨fun hdir htimer => ?_, hmqtt⟩
      dsimp only at hdir htimer ⊢
      obtain ⟨hrests, hagain, hstop⟩ := Blind.updatePosition_silent.mp htimer
      -- the blind is silent now, so its position was accepted, and its state too
      have hposition : position = true := by
        rcases hok with hpos | hmoves | hself
        · exact hpos
        · exact absurd hrests hmoves
        · exact absurd hself hstop
      have hstate : state = true := by
        rw [hmqtt, hposition] at hagain
        cases state with
        | true => rfl
        | false => cases hagain
      have hpayload := statePayload_rest hdir
      rw [hmqtt, hposition, hstate] at hpayload ⊢
      exact ⟨rfl, congrArg some hpayload⟩

end Reporter

end PicoSomfy
