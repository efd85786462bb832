import PicoSomfy.Registry

/-!
# The estimate of a blind's position

`UpdatePosition` moves the estimate on by the time since the last tick, and
`ButtonsPressed` restarts that time without moving the estimate. The time a blind
was in motion before a press is therefore only counted when a tick came at the same
time. With such ticks the estimate is the exact motion, whatever the other ticks.

Here a blind is looked at alone. The arguments of a tick are whether the blind
listens to its primary remote and whether something is still to be published.
-/
namespace PicoSomfy

namespace Blind

variable {b : Blind} {now t : ℤ}

/-- `Stop`, as far as it comes back to the blind itself. -/
def stopped (b : Blind) (now : ℤ) (listens : Bool) : Blind :=
  if b.motionDirection ≠ 0 ∧ listens then b.buttonsPressed .my false now else b

/-- The first half of `UpdatePosition`. -/
def moveOn (b : Blind) (now : ℤ) (listens : Bool) : Blind :=
  if b.motionDirection = 0 then b
  else if { b with intermediatePosition := b.travel now }.atTarget then
    let arrived := { b with intermediatePosition := b.targetPosition.toInt }
    { (if b.targetPosition < 100 ∧ b.targetPosition > 0 then arrived.stopped now listens
        else arrived) with motionDirection := 0 }
  else { b with intermediatePosition := b.travel now }

/-- `UpdatePosition`, run by the refresh timer. -/
def updatePosition (b : Blind) (now : ℤ) (listens again : Bool) : Blind :=
  ({ b with refreshTimer := none }.moveOn now listens).finishTick now again

/-- What a position estimate is judged by. -/
structure Estimate where
  position : ℚ
  target : Int32
  direction : ℤ
  deriving DecidableEq

def estimate (b : Blind) : Estimate := ⟨b.intermediatePosition, b.targetPosition, b.motionDirection⟩

end Blind

/-- What happens to a blind, with its time. -/
inductive MotionEvent where
  | tick (listens again : Bool)
  | press (button : SomfyButton) (long : Bool)
  deriving DecidableEq

namespace Blind

variable {b : Blind} {now t : ℤ}

def handle (b : Blind) : ℤ × MotionEvent → Blind
  | (now, .tick listens again) => b.updatePosition now listens again
  | (now, .press button long) => b.buttonsPressed button long now

def run (b : Blind) (es : List (ℤ × MotionEvent)) : Blind := es.foldl handle b

/-- The events in their order of time, from the last tick of the blind on. -/
def Timed (start : ℤ) (es : List (ℤ × MotionEvent)) : Prop :=
  (start :: es.map (·.1)).Pairwise (· ≤ ·)

def presses (es : List (ℤ × MotionEvent)) : List (ℤ × SomfyButton × Bool) :=
  es.filterMap fun e => match e.2 with
    | .tick _ _ => none
    | .press button long => some (e.1, button, long)

/-- The blind after moving on to a time, with no look at its target. -/
def movedTo (b : Blind) (now : ℤ) : Blind :=
  if b.motionDirection = 0 then b
  else { b with intermediatePosition := b.travel now, lastTick := now }

/-- The motion does not reach its target before the next press. -/
def OnTheWay : Blind → List (ℤ × SomfyButton × Bool) → Prop
  | _, [] => True
  | b, (now, button, long) :: ps =>
      ¬(b.movedTo now).atTarget ∧ OnTheWay ((b.movedTo now).buttonsPressed button long now) ps

/-- No press drops time in motion: the blind rests, or was ticked at that time. -/
def Counted : Blind → List (ℤ × MotionEvent) → Prop
  | _, [] => True
  | b, (now, .tick listens again) :: es => Counted (b.updatePosition now listens again) es
  | b, (now, .press button long) :: es =>
      (b.motionDirection = 0 ∨ b.lastTick = now) ∧ Counted (b.buttonsPressed button long now) es

/-- A blind whose estimate is inside its range and whose travel takes time. -/
structure Moves (b : Blind) : Prop where
  inRange : b.InRange
  openTime : 0 < b.openTime.toInt
  closeTime : 0 < b.closeTime.toInt

theorem clamp_add {x a c : ℚ} (hx : 0 ≤ x ∧ x ≤ 100) (h : (0 ≤ a ∧ 0 ≤ c) ∨ (a ≤ 0 ∧ c ≤ 0)) :
    min 100 (max 0 (min 100 (max 0 (x + a)) + c)) = min 100 (max 0 (x + (a + c))) := by
  obtain ⟨h₀, h₁⟩ := hx
  rcases h with ⟨ha, hc⟩ | ⟨ha, hc⟩ <;>
    simp only [min_def, max_def] <;> split_ifs <;> linarith

/-- Percent per microsecond, negative for a closing blind. -/
def rate (b : Blind) : ℚ :=
  if b.motionDirection > 0 then 100 / (1000000 * b.openTime.toInt)
  else -(100 / (1000000 * b.closeTime.toInt))

theorem Moves.rate_up (h : b.Moves) (hd : b.motionDirection > 0) : 0 < b.rate := by
  have ho : (0 : ℚ) < b.openTime.toInt := by exact_mod_cast h.openTime
  rw [rate, if_pos hd]
  positivity

theorem Moves.rate_down (h : b.Moves) (hd : ¬b.motionDirection > 0) : b.rate < 0 := by
  have hc : (0 : ℚ) < b.closeTime.toInt := by exact_mod_cast h.closeTime
  rw [rate, if_neg hd, neg_lt_zero]
  positivity

theorem toInt_neg_of_pos {x : Int32} (h : 0 < x.toInt) : (-x).toInt = -x.toInt := by
  rw [Int32.toInt_neg]
  have hlt := x.toInt_lt
  rw [Int.bmod_eq_of_le] <;> omega

theorem ne_zero_of_pos {x : Int32} (h : 0 < x.toInt) : x ≠ 0 := by
  intro hx
  rw [hx] at h
  exact absurd h (by decide)

theorem Moves.travel_eq (h : b.Moves) (now : ℤ) :
    b.travel now =
      min 100 (max 0 (b.intermediatePosition + (now - b.lastTick : ℤ) * b.rate)) := by
  have ho : (b.openTime.toInt : ℚ) ≠ 0 := by exact_mod_cast h.openTime.ne'
  have hc : (b.closeTime.toInt : ℚ) ≠ 0 := by exact_mod_cast h.closeTime.ne'
  unfold travel rate
  by_cases hd : b.motionDirection > 0
  · rw [if_pos hd, if_neg (ne_zero_of_pos h.openTime), if_pos hd]
    congr 3
    field_simp
  · have hne : -b.closeTime ≠ 0 := by
      intro hz
      have hneg := toInt_neg_of_pos h.closeTime
      rw [hz] at hneg
      have hpos := h.closeTime
      have hzero : (0 : Int32).toInt = 0 := rfl
      omega
    rw [if_neg hd, if_neg hne, if_neg hd, toInt_neg_of_pos h.closeTime]
    congr 3
    push_cast
    field_simp

theorem Moves.movedTo_now (h : b.Moves) : (b.movedTo b.lastTick).estimate = b.estimate := by
  by_cases hd : b.motionDirection = 0
  · rw [Blind.movedTo, if_pos hd]
  · have hpos : b.travel b.lastTick = b.intermediatePosition := by
      rw [h.travel_eq, Int.sub_self, Int.cast_zero, zero_mul, add_zero,
        max_eq_right h.inRange.position.1, min_eq_right h.inRange.position.2]
    rw [Blind.movedTo, if_neg hd, Blind.estimate, Blind.estimate, hpos]

/-- Moving on to a time, and then to a later one. -/
theorem Moves.travel_add (h : b.Moves) {u : ℤ} (ht : b.lastTick ≤ t) (hu : t ≤ u) :
    { b with intermediatePosition := b.travel t, lastTick := t }.travel u = b.travel u := by
  have ht' : (0 : ℚ) ≤ ((t - b.lastTick : ℤ) : ℚ) := by exact_mod_cast Int.sub_nonneg.mpr ht
  have hu' : (0 : ℚ) ≤ ((u - t : ℤ) : ℚ) := by exact_mod_cast Int.sub_nonneg.mpr hu
  have hmoved : Moves { b with intermediatePosition := b.travel t, lastTick := t } :=
    ⟨⟨h.inRange.target, h.inRange.favourite, b.travel_bounds t⟩, h.openTime, h.closeTime⟩
  have hrate : rate { b with intermediatePosition := b.travel t, lastTick := t } = b.rate := rfl
  rw [hmoved.travel_eq, hrate, h.travel_eq, h.travel_eq]
  have hsum : ((u - b.lastTick : ℤ) : ℚ) * b.rate =
      ((t - b.lastTick : ℤ) : ℚ) * b.rate + ((u - t : ℤ) : ℚ) * b.rate := by
    push_cast
    ring
  rw [hsum]
  refine clamp_add h.inRange.position ?_
  by_cases hd : b.motionDirection > 0
  · have hr := (h.rate_up hd).le
    exact .inl ⟨mul_nonneg ht' hr, mul_nonneg hu' hr⟩
  · have hr := (h.rate_down hd).le
    exact .inr ⟨mul_nonpos_of_nonneg_of_nonpos ht' hr, mul_nonpos_of_nonneg_of_nonpos hu' hr⟩

/-- A blind that is at its target stays there. -/
theorem Moves.atTarget_mono (h : b.Moves) {u : ℤ} (hu : t ≤ u) (hat : (b.movedTo t).atTarget) :
    (b.movedTo u).atTarget := by
  have hu' : ((t - b.lastTick : ℤ) : ℚ) ≤ ((u - b.lastTick : ℤ) : ℚ) := by
    exact_mod_cast Int.sub_le_sub_right hu _
  unfold movedTo at hat ⊢
  by_cases h₀ : b.motionDirection = 0
  · rw [if_pos h₀] at hat ⊢
    exact hat
  rw [if_neg h₀] at hat ⊢
  simp only [atTarget] at hat ⊢
  rw [h.travel_eq] at hat ⊢
  rcases hat with ⟨hd, hat⟩ | ⟨hd, hat⟩
  · have hstep := mul_le_mul_of_nonneg_right hu' (h.rate_up hd).le
    refine .inl ⟨hd, le_trans hat ?_⟩
    gcongr
  · have hstep := mul_le_mul_of_nonpos_right hu' (h.rate_down (not_lt.mpr hd.le)).le
    refine .inr ⟨hd, le_trans ?_ hat⟩
    gcongr

/-- What a press and the motion look at, apart from the time. -/
structure Alike (b c : Blind) : Prop where
  estimate : c.estimate = b.estimate
  favourite : c.favouritePosition = b.favouritePosition
  openTime : c.openTime = b.openTime
  closeTime : c.closeTime = b.closeTime

theorem Alike.fields {c : Blind} (h : b.Alike c) :
    c.intermediatePosition = b.intermediatePosition ∧ c.targetPosition = b.targetPosition ∧
      c.motionDirection = b.motionDirection := by
  have he := h.estimate
  simp only [Blind.estimate, Estimate.mk.injEq] at he
  exact he

theorem Alike.press {c : Blind} (h : b.Alike c) (button : SomfyButton) (long : Bool) (now : ℤ) :
    (b.buttonsPressed button long now).Alike (c.buttonsPressed button long now) := by
  obtain ⟨hpos, htarget, hdir⟩ := h.fields
  obtain ⟨-, hfav, hopen, hclose⟩ := h
  unfold buttonsPressed
  rw [hpos, htarget, hdir, hfav]
  split_ifs <;> constructor <;> simp only [touch, Blind.estimate, hpos, htarget, hdir, hfav, hopen, hclose]

/-- A press restarts the time, or does nothing to a blind at rest. -/
theorem Alike.lastTick_press {c : Blind} (h : b.Alike c) (button : SomfyButton) (long : Bool)
    (now : ℤ) :
    ((b.buttonsPressed button long now).lastTick = now ∧
        (c.buttonsPressed button long now).lastTick = now) ∨
      (b.motionDirection = 0 ∧ b.buttonsPressed button long now = b ∧
        c.buttonsPressed button long now = c) := by
  obtain ⟨hpos, htarget, hdir⟩ := h.fields
  unfold buttonsPressed
  rw [hpos, htarget, hdir, h.favourite]
  split_ifs with h₁ h₂ h₃ h₄
  all_goals first
    | exact .inl ⟨rfl, rfl⟩
    | exact .inr ⟨by simpa using h₄, rfl, rfl⟩

theorem Moves.press (h : b.Moves) (button : SomfyButton) (long : Bool) (now : ℤ) :
    (b.buttonsPressed button long now).Moves := by
  have hs := (b.reacts_buttonsPressed button long now).settings
  exact ⟨h.inRange.buttonsPressed button long now, by rw [hs.2.1]; exact h.openTime,
    by rw [hs.2.2]; exact h.closeTime⟩

theorem Moves.movedTo (h : b.Moves) (now : ℤ) : (b.movedTo now).Moves := by
  unfold Blind.movedTo
  split_ifs
  · exact h
  · exact ⟨⟨h.inRange.target, h.inRange.favourite, b.travel_bounds now⟩, h.openTime, h.closeTime⟩

/-- The presses alone, each counted with the motion before it. -/
def exact : Blind → List (ℤ × SomfyButton × Bool) → Blind
  | b, [] => b
  | b, (now, button, long) :: ps => exact ((b.movedTo now).buttonsPressed button long now) ps

/-- Where a blind is at a time with no further press. -/
def settled (b : Blind) (now : ℤ) : Estimate :=
  if (b.movedTo now).atTarget then ⟨b.targetPosition.toInt, b.targetPosition, 0⟩
  else (b.movedTo now).estimate

/-- A blind that was ticked since the last press of the exact motion. It is where the
motion is, or it found out that the motion has arrived. -/
structure Follows (b c : Blind) : Prop where
  lastTick : b.lastTick ≤ c.lastTick
  target : c.targetPosition = b.targetPosition
  favourite : c.favouritePosition = b.favouritePosition
  openTime : c.openTime = b.openTime
  closeTime : c.closeTime = b.closeTime
  place : c.estimate = (b.movedTo c.lastTick).estimate ∨
    (c.intermediatePosition = b.targetPosition.toInt ∧ c.motionDirection = 0 ∧
      (b.movedTo c.lastTick).atTarget)

theorem movedTo_target (b : Blind) (now : ℤ) :
    (b.movedTo now).targetPosition = b.targetPosition ∧
      (b.movedTo now).motionDirection = b.motionDirection := by
  unfold Blind.movedTo
  split_ifs <;> exact ⟨rfl, rfl⟩

/-- The estimate is only at a target while it moves. -/
theorem not_atTarget_of_rest (h : b.motionDirection = 0) (now : ℤ) : ¬(b.movedTo now).atTarget := by
  have hd := (b.movedTo_target now).2
  rw [atTarget, hd, h]
  simp

/-- Stopping at a target inside the range does not move the target. -/
theorem stopped_arrived (h : b.InRange) (now : ℤ) (listens : Bool) :
    let arrived := { b with intermediatePosition := (b.targetPosition.toInt : ℚ) }
    (arrived.stopped now listens).intermediatePosition = (b.targetPosition.toInt : ℚ) ∧
      (arrived.stopped now listens).targetPosition = b.targetPosition ∧
      (arrived.stopped now listens).favouritePosition = b.favouritePosition ∧
      (arrived.stopped now listens).openTime = b.openTime ∧
      (arrived.stopped now listens).closeTime = b.closeTime := by
  intro arrived
  unfold stopped
  split_ifs with hl
  · have hround : roundAway (b.targetPosition.toInt : ℚ) = b.targetPosition.toInt := by
      have hnonneg : (0 : ℚ) ≤ b.targetPosition.toInt := by exact_mod_cast h.target.1
      rw [roundAway, if_pos hnonneg, Int.floor_eq_iff]
      constructor <;> linarith
    have hpress : arrived.buttonsPressed .my false now =
        { arrived with
          targetPosition := Int32.ofInt (roundAway arrived.intermediatePosition)
          motionDirection := 0 }.touch now := by
      unfold buttonsPressed
      rw [if_neg (by decide), if_neg (by decide), if_pos rfl, if_pos hl.1]
    rw [hpress]
    refine ⟨rfl, ?_, rfl, rfl, rfl⟩
    change Int32.ofInt (roundAway (b.targetPosition.toInt : ℚ)) = b.targetPosition
    rw [hround, Int32.ofInt_toInt]
  · exact ⟨rfl, rfl, rfl, rfl, rfl⟩

/-- What a tick does to the estimate, by the motion up to it. -/
theorem updatePosition_cases (h : b.InRange) (now : ℤ) (listens again : Bool) :
    let c := b.updatePosition now listens again
    (c.lastTick = now ∧ c.targetPosition = b.targetPosition ∧
        c.favouritePosition = b.favouritePosition ∧ c.openTime = b.openTime ∧
        c.closeTime = b.closeTime) ∧
      ((¬(b.movedTo now).atTarget ∧ c.estimate = (b.movedTo now).estimate) ∨
        ((b.movedTo now).atTarget ∧ c.intermediatePosition = b.targetPosition.toInt ∧
          c.motionDirection = 0)) := by
  intro c
  have hfinish : c = ({ b with refreshTimer := none }.moveOn now listens).finishTick now again := rfl
  have hrange : ({ b with refreshTimer := none } : Blind).InRange := ⟨h.target, h.favourite, h.position⟩
  by_cases hd : b.motionDirection = 0
  · have hmove : { b with refreshTimer := none }.moveOn now listens =
        { b with refreshTimer := none } := if_pos hd
    rw [hfinish, hmove]
    refine ⟨⟨rfl, rfl, rfl, rfl, rfl⟩, .inl ⟨not_atTarget_of_rest hd now, ?_⟩⟩
    rw [Blind.movedTo, if_pos hd]
    rfl
  have hmoved : b.movedTo now = { b with intermediatePosition := b.travel now, lastTick := now } :=
    if_neg hd
  by_cases hat : (b.movedTo now).atTarget
  · have hat' : { b with refreshTimer := none, intermediatePosition := b.travel now }.atTarget := by
      rw [hmoved] at hat
      exact hat
    have hmove : { b with refreshTimer := none }.moveOn now listens =
        let arrived : Blind :=
          { b with refreshTimer := none, intermediatePosition := b.targetPosition.toInt }
        { (if b.targetPosition < 100 ∧ b.targetPosition > 0 then arrived.stopped now listens
            else arrived) with motionDirection := 0 } :=
      (if_neg hd).trans (if_pos hat')
    rw [hfinish, hmove]
    have hs := stopped_arrived hrange now listens
    refine ⟨?_, .inr ⟨hat, ?_, rfl⟩⟩ <;>
      by_cases hin : b.targetPosition < 100 ∧ b.targetPosition > 0
    · simp only [if_pos hin]
      exact ⟨rfl, hs.2.1, hs.2.2.1, hs.2.2.2.1, hs.2.2.2.2⟩
    · simp only [if_neg hin]
      exact ⟨rfl, rfl, rfl, rfl, rfl⟩
    · simp only [if_pos hin]
      exact hs.1
    · simp only [if_neg hin]
      rfl
  · have hat' : ¬{ b with refreshTimer := none, intermediatePosition := b.travel now }.atTarget := by
      rw [hmoved] at hat
      exact hat
    have hmove : { b with refreshTimer := none }.moveOn now listens =
        { b with refreshTimer := none, intermediatePosition := b.travel now } :=
      (if_neg hd).trans (if_neg hat')
    rw [hfinish, hmove]
    refine ⟨⟨rfl, rfl, rfl, rfl, rfl⟩, .inl ⟨hat, ?_⟩⟩
    rw [hmoved]
    rfl

theorem Alike.atTarget_iff {c : Blind} (h : b.Alike c) : c.atTarget ↔ b.atTarget := by
  obtain ⟨hpos, htarget, hdir⟩ := h.fields
  rw [atTarget, atTarget, hpos, htarget, hdir]

theorem Alike.movedTo {c : Blind} (h : b.Alike c) (hl : c.lastTick = b.lastTick) (now : ℤ) :
    (b.movedTo now).Alike (c.movedTo now) := by
  obtain ⟨hpos, htarget, hdir⟩ := h.fields
  have htravel : c.travel now = b.travel now := by
    simp only [travel, hpos, hdir, hl, h.openTime, h.closeTime]
  unfold Blind.movedTo
  rw [hdir]
  split_ifs
  · exact h
  · exact ⟨by simp only [Blind.estimate, htravel, htarget], h.favourite, h.openTime, h.closeTime⟩

/-- Moving on in two steps or in one. -/
theorem Moves.movedTo_twice (h : b.Moves) {u : ℤ} (ht : b.lastTick ≤ t) (hu : t ≤ u) :
    ((b.movedTo t).movedTo u).estimate = (b.movedTo u).estimate := by
  by_cases hd : b.motionDirection = 0
  · have hrest : ∀ v, b.movedTo v = b := fun v => if_pos hd
    rw [hrest t]
  · have hmove : ∀ v, b.movedTo v =
        { b with intermediatePosition := b.travel v, lastTick := v } := fun v => if_neg hd
    have hstep := h.travel_add ht hu
    rw [hmove t, hmove u, Blind.movedTo, if_neg hd]
    simp only [Blind.estimate, hstep]

theorem movedTo_fields (b : Blind) (now : ℤ) :
    (b.movedTo now).favouritePosition = b.favouritePosition ∧
      (b.movedTo now).openTime = b.openTime ∧ (b.movedTo now).closeTime = b.closeTime := by
  unfold Blind.movedTo
  split_ifs <;> exact ⟨rfl, rfl, rfl⟩

variable {c : Blind}

/-- A blind that has not arrived follows the motion to every later time. -/
theorem Follows.movedTo (h : b.Follows c) (hb : b.Moves)
    (hplace : c.estimate = (b.movedTo c.lastTick).estimate) (ht : c.lastTick ≤ t) :
    (b.movedTo t).Alike (c.movedTo t) := by
  obtain ⟨hfav, hopen, hclose⟩ := b.movedTo_fields c.lastTick
  obtain ⟨hfav', hopen', hclose'⟩ := b.movedTo_fields t
  have hlike : (b.movedTo c.lastTick).Alike c :=
    ⟨hplace, h.favourite.trans hfav.symm, h.openTime.trans hopen.symm, h.closeTime.trans hclose.symm⟩
  by_cases hd : b.motionDirection = 0
  · have hrest : ∀ v, b.movedTo v = b := fun v => if_pos hd
    rw [hrest] at hlike
    have hdir := hlike.fields.2.2
    have hc : c.movedTo t = c := if_pos (hdir.trans hd)
    rw [hrest, hc]
    exact hlike
  · have hl : c.lastTick = (b.movedTo c.lastTick).lastTick := by
      rw [Blind.movedTo, if_neg hd]
    have hmoved := hlike.movedTo hl t
    obtain ⟨hf, ho, hc⟩ := (b.movedTo c.lastTick).movedTo_fields t
    refine ⟨hmoved.estimate.trans (hb.movedTo_twice h.lastTick ht), ?_, ?_, ?_⟩
    · rw [hmoved.favourite, hf, hfav, hfav']
    · rw [hmoved.openTime, ho, hopen, hopen']
    · rw [hmoved.closeTime, hc, hclose, hclose']

theorem Follows.inRange (h : b.Follows c) (hb : b.Moves) : c.InRange := by
  refine ⟨by rw [h.target]; exact hb.inRange.target, by rw [h.favourite]; exact hb.inRange.favourite, ?_⟩
  rcases h.place with hplace | ⟨hpos, -⟩
  · have hrange := (hb.movedTo c.lastTick).inRange.position
    have heq := congrArg Estimate.position hplace
    change c.intermediatePosition = (b.movedTo c.lastTick).intermediatePosition at heq
    rw [heq]
    exact hrange
  · rw [hpos]
    exact_mod_cast hb.inRange.target

/-- A tick keeps a blind on the motion. -/
theorem Follows.tick (h : b.Follows c) (hb : b.Moves) (ht : c.lastTick ≤ t) (listens again : Bool) :
    b.Follows (c.updatePosition t listens again) ∧
      (c.updatePosition t listens again).estimate = b.settled t := by
  obtain ⟨⟨hl, htarget, hfav, hopen, hclose⟩, hcases⟩ :=
    updatePosition_cases (h.inRange hb) t listens again
  have hat : (b.movedTo t).atTarget → (c.updatePosition t listens again).intermediatePosition =
      b.targetPosition.toInt → (c.updatePosition t listens again).motionDirection = 0 →
      b.Follows (c.updatePosition t listens again) ∧
        (c.updatePosition t listens again).estimate = b.settled t := by
    intro hat hpos hdir
    refine ⟨⟨by rw [hl]; exact h.lastTick.trans ht, htarget.trans h.target, hfav.trans h.favourite,
      hopen.trans h.openTime, hclose.trans h.closeTime, .inr ⟨hpos, hdir, by rw [hl]; exact hat⟩⟩, ?_⟩
    rw [settled, if_pos hat, Blind.estimate, hpos, htarget.trans h.target, hdir]
  rcases h.place with hplace | ⟨hpos, hdir, harrived⟩
  · have hlike := h.movedTo hb hplace ht
    rw [hlike.atTarget_iff] at hcases
    rcases hcases with ⟨hnot, hest⟩ | ⟨hyes, hpos, hdir⟩
    · have hest' := hest.trans hlike.estimate
      refine ⟨⟨by rw [hl]; exact h.lastTick.trans ht, htarget.trans h.target,
        hfav.trans h.favourite, hopen.trans h.openTime, hclose.trans h.closeTime,
        .inl (by rw [hl]; exact hest')⟩, ?_⟩
      rw [settled, if_neg hnot]
      exact hest'
    · exact hat hyes (by rw [hpos, h.target]) hdir
  · -- the motion has arrived, and the blind knows it
    have hrest : c.movedTo t = c := if_pos hdir
    rcases hcases with ⟨-, hest⟩ | ⟨hyes, -⟩
    · rw [hrest] at hest
      simp only [Blind.estimate, Estimate.mk.injEq] at hest
      exact hat (hb.atTarget_mono ht harrived) (hest.1.trans hpos) (hest.2.2.trans hdir)
    · exact absurd hyes (not_atTarget_of_rest hdir t)

/-- A press that drops no time keeps a blind on the motion. -/
theorem Follows.press (h : b.Follows c) (hb : b.Moves) (ht : c.lastTick ≤ t)
    (hway : ¬(b.movedTo t).atTarget) (hcounted : c.motionDirection = 0 ∨ c.lastTick = t)
    (button : SomfyButton) (long : Bool) :
    ((b.movedTo t).buttonsPressed button long t).Follows (c.buttonsPressed button long t) := by
  obtain ⟨hfav, hopen, hclose⟩ := b.movedTo_fields t
  have htarget := (b.movedTo_target t).1
  have hplace : c.estimate = (b.movedTo c.lastTick).estimate := by
    rcases h.place with hplace | ⟨-, -, harrived⟩
    · exact hplace
    · exact absurd (hb.atTarget_mono ht harrived) hway
  have hlike : (b.movedTo t).Alike c := by
    have hest : c.estimate = (b.movedTo t).estimate := by
      rcases hcounted with hdir | hl
      · have hrest : c.movedTo t = c := if_pos hdir
        have hmoved := (h.movedTo hb hplace ht).estimate
        rwa [hrest] at hmoved
      · rw [hplace, hl]
    exact ⟨hest, h.favourite.trans hfav.symm, h.openTime.trans hopen.symm,
      h.closeTime.trans hclose.symm⟩
  have hpress := hlike.press button long t
  obtain ⟨-, hpt, -⟩ := hpress.fields
  have hmoves := (hb.movedTo t).press button long t
  have hlast : ((b.movedTo t).buttonsPressed button long t).lastTick ≤
        (c.buttonsPressed button long t).lastTick ∧
      (((b.movedTo t).buttonsPressed button long t).movedTo
        (c.buttonsPressed button long t).lastTick).estimate =
          ((b.movedTo t).buttonsPressed button long t).estimate := by
    rcases hlike.lastTick_press button long t with ⟨hb', hc'⟩ | ⟨hdir, hb', hc'⟩
    · rw [hc', hb']
      have hs := hmoves.movedTo_now
      rw [hb'] at hs
      exact ⟨le_rfl, hs⟩
    · have hrest : b.motionDirection = 0 := (b.movedTo_target t).2.symm.trans hdir
      have hstill : ∀ v, b.movedTo v = b := fun v => if_pos hrest
      rw [hb', hc', hstill, hstill]
      exact ⟨h.lastTick, rfl⟩
  exact ⟨hlast.1, hpt, hpress.favourite, hpress.openTime, hpress.closeTime,
    .inl (hpress.estimate.trans hlast.2.symm)⟩

theorem follows_refl (hb : b.Moves) : b.Follows b :=
  ⟨le_rfl, rfl, rfl, rfl, rfl, .inl hb.movedTo_now.symm⟩

/-- A schedule of ticks with its presses, ended by one more tick. -/
structure Schedule (b : Blind) (es : List (ℤ × MotionEvent)) (last : ℤ) : Prop where
  timed : Timed b.lastTick (es ++ [(last, .tick false false)])
  onTheWay : b.OnTheWay (presses es)

/-- A run whose presses drop no time follows the exact motion of its presses. -/
theorem Follows.run {es : List (ℤ × MotionEvent)} {last : ℤ} (h : b.Follows c) (hb : b.Moves)
    (hway : b.OnTheWay (presses es)) (htimed : Timed c.lastTick (es ++ [(last, .tick false false)]))
    (hcounted : c.Counted es) (listens again : Bool) :
    ((c.run es).updatePosition last listens again).estimate =
      (b.exact (presses es)).settled last := by
  induction es generalizing b c with
  | nil =>
      have hlast : c.lastTick ≤ last := by simpa [Timed] using htimed
      exact (h.tick hb hlast listens again).2
  | cons e es ih =>
      obtain ⟨now, e⟩ := e
      obtain ⟨hfirst, hrest⟩ := List.pairwise_cons.mp htimed
      have hnow : c.lastTick ≤ now := hfirst now (by simp)
      cases e with
      | tick l a =>
          have hl : (c.updatePosition now l a).lastTick = now :=
            (updatePosition_cases (h.inRange hb) now l a).1.1
          exact ih (h.tick hb hnow l a).1 hb hway (hl.symm ▸ hrest) hcounted
      | press button long =>
          obtain ⟨hthere, hway'⟩ := hway
          have hfollows := h.press hb hnow hthere hcounted.1 button long
          refine ih hfollows ((hb.movedTo now).press button long now) hway' ?_ hcounted.2
          refine List.pairwise_cons.mpr ⟨fun v hv => ?_, (List.pairwise_cons.mp hrest).2⟩
          have hle := (List.pairwise_cons.mp hrest).1 v hv
          have hself : c.Alike c := ⟨rfl, rfl, rfl, rfl⟩
          rcases hself.lastTick_press button long now with ⟨heq, -⟩ | ⟨-, heq, -⟩
          · exact heq.trans_le hle
          · exact (congrArg Blind.lastTick heq).trans_le (hnow.trans hle)

theorem press_position (b : Blind) (button : SomfyButton) (long : Bool) (now : ℤ) :
    (b.buttonsPressed button long now).intermediatePosition = b.intermediatePosition := by
  unfold buttonsPressed
  split_ifs <;> rfl

/-- On the way to its target a blind only stands still in no time. -/
theorem Moves.still_iff (h : b.Moves) (hnow : b.lastTick ≤ now)
    (hway : ¬(b.movedTo now).atTarget) :
    b.intermediatePosition = (b.movedTo now).intermediatePosition ↔
      b.motionDirection = 0 ∨ b.lastTick = now := by
  by_cases hd : b.motionDirection = 0
  · have hrest : b.movedTo now = b := if_pos hd
    rw [hrest]
    exact ⟨fun _ => .inl hd, fun _ => rfl⟩
  have htime : (0 : ℚ) ≤ ((now - b.lastTick : ℤ) : ℚ) := by
    exact_mod_cast Int.sub_nonneg.mpr hnow
  have hlow : (0 : ℚ) ≤ b.targetPosition.toInt := by exact_mod_cast h.inRange.target.1
  have hhigh : (b.targetPosition.toInt : ℚ) ≤ 100 := by exact_mod_cast h.inRange.target.2
  obtain ⟨hp₀, hp₁⟩ := h.inRange.position
  have hstep : b.travel now = b.intermediatePosition + (now - b.lastTick : ℤ) * b.rate := by
    simp only [Blind.movedTo, if_neg hd, atTarget, not_or, not_and, not_le, ge_iff_le] at hway
    rw [h.travel_eq] at hway ⊢
    rcases lt_or_gt_of_ne hd with hneg | hpos
    · have hr := (h.rate_down (not_lt.mpr hneg.le)).le
      have hdown := mul_nonpos_of_nonneg_of_nonpos htime hr
      have hgt := hlow.trans_lt (hway.2 hneg)
      rw [min_eq_right (max_le (by norm_num) (by linarith))] at hgt ⊢
      exact max_eq_right_of_lt ((lt_max_iff.mp hgt).resolve_left (lt_irrefl 0))
    · have hup := mul_nonneg htime (h.rate_up hpos).le
      have hlt := (hway.1 hpos).trans_le hhigh
      rw [max_eq_right (by linarith : (0 : ℚ) ≤ _)] at hlt ⊢
      exact min_eq_right ((min_lt_iff.mp hlt).resolve_left (lt_irrefl 100)).le
  have hmoved : (b.movedTo now).intermediatePosition = b.travel now := by
    rw [Blind.movedTo, if_neg hd]
  have hrate : b.rate ≠ 0 := by
    rcases lt_or_gt_of_ne hd with hneg | hpos
    · exact (h.rate_down (not_lt.mpr hneg.le)).ne
    · exact (h.rate_up hpos).ne'
  rw [hmoved, hstep]
  constructor
  · intro heq
    have hzero : ((now - b.lastTick : ℤ) : ℚ) * b.rate = 0 := by linarith
    have hsub := (mul_eq_zero.mp hzero).resolve_right hrate
    have hint : now - b.lastTick = 0 := by exact_mod_cast hsub
    exact .inr (by omega)
  · intro hcases
    rcases hcases with h₀ | heq
    · exact absurd h₀ hd
    · rw [heq, Int.sub_self, Int.cast_zero, zero_mul, add_zero]

/-- Two schedules of ticks with the same presses give the same estimate when no press drops
time in motion. A press that drops time does change the estimate: without a tick at its
time the position differs from the one it would have with such a tick. -/
theorem estimate_schedule_independent (b : Blind) (hb : b.Moves) :
    (∀ (es fs : List (ℤ × MotionEvent)) (last : ℤ) (listens again listens' again' : Bool),
      presses es = presses fs → b.Schedule es last → b.Schedule fs last →
      b.Counted es → b.Counted fs →
      ((b.run es).updatePosition last listens again).estimate =
        ((b.run fs).updatePosition last listens' again').estimate) ∧
    ∀ (now : ℤ) (button : SomfyButton) (long listens again : Bool), b.lastTick ≤ now →
      ¬(b.movedTo now).atTarget →
      ((b.buttonsPressed button long now).intermediatePosition =
          ((b.updatePosition now listens again).buttonsPressed button long now).intermediatePosition ↔
        b.motionDirection = 0 ∨ b.lastTick = now) := by
  constructor
  · intro es fs last listens again listens' again' hsame hes hfs hces hcfs
    rw [(follows_refl hb).run hb hes.onTheWay hes.timed hces,
      (follows_refl hb).run hb hfs.onTheWay hfs.timed hcfs, hsame]
  · intro now button long listens again hnow hway
    have hest : (b.updatePosition now listens again).estimate = (b.movedTo now).estimate := by
      rcases (updatePosition_cases hb.inRange now listens again).2 with ⟨-, hest⟩ | ⟨hat, -⟩
      · exact hest
      · exact absurd hat hway
    have hpos : (b.updatePosition now listens again).intermediatePosition =
        (b.movedTo now).intermediatePosition := congrArg Estimate.position hest
    rw [press_position, press_position, hpos]
    exact hb.still_iff hnow hway

/-- A blind on its way up from the bottom, to be open in ten seconds. -/
def opening : Blind where
  blindId := 1
  isDirty := true
  needsPublish := false
  name := []
  openTime := 10
  closeTime := 10
  lastTick := 0
  motionDirection := 1
  intermediatePosition := 0
  targetPosition := 100
  favouritePosition := 50
  remote := 0
  refreshTimer := none

theorem opening_moves : opening.Moves :=
  ⟨⟨by decide, by decide, by norm_num [opening]⟩, by decide, by decide⟩

/-- It is stopped after a second, which a tick at that time counts. -/
theorem estimate_schedule_independent_opening :
    ((opening.run [(1000000, .tick true false), (1000000, .press .my false)]).updatePosition
        2000000 true false).estimate =
      ((opening.run [(500000, .tick true false), (1000000, .tick true false),
        (1000000, .press .my false)]).updatePosition 2000000 true false).estimate := by
  have hway : opening.OnTheWay [(1000000, .my, false)] := ⟨by decide +kernel, trivial⟩
  exact (estimate_schedule_independent opening opening_moves).1
    [(1000000, .tick true false), (1000000, .press .my false)]
    [(500000, .tick true false), (1000000, .tick true false), (1000000, .press .my false)]
    2000000 true false true false rfl ⟨by unfold Timed; decide, hway⟩ ⟨by unfold Timed; decide, hway⟩
    ⟨.inr (by decide +kernel), trivial⟩ ⟨.inr (by decide +kernel), trivial⟩

/-- Without that tick the blind is taken to be at the bottom still. -/
theorem press_drops_motion :
    ¬∀ (b : Blind) (es fs : List (ℤ × MotionEvent)) (last : ℤ) (listens again : Bool), b.Moves →
      presses es = presses fs → b.Schedule es last → b.Schedule fs last →
      ((b.run es).updatePosition last listens again).estimate =
        ((b.run fs).updatePosition last listens again).estimate := by
  intro hall
  have hway : opening.OnTheWay [(1000000, .my, false)] := ⟨by decide +kernel, trivial⟩
  have heq := hall opening [(1000000, .tick true false), (1000000, .press .my false)]
    [(1000000, .press .my false)] 2000000 true false opening_moves rfl
    ⟨by unfold Timed; decide, hway⟩ ⟨by unfold Timed; decide, hway⟩
  exact absurd heq (by decide +kernel)

end Blind

namespace Device

variable {d d' : Device}

theorem tell_blind {command : SomfyCommand} {long : Bool} {blindId : UInt16}
    (h : d.tell command long blindId = some d') (k : UInt32) :
    d'.clock = d.clock ∧ d'.blinds[k]? = (d.blinds[k]?).map fun b =>
      if blindId.toUInt32 = k then b.buttonsPressed command.button long d.clock else b := by
  simp only [Device.tell, Option.ite_none_right_eq_some, Option.some.injEq] at h
  obtain ⟨-, rfl⟩ := h
  refine ⟨rfl, ?_⟩
  change (d.blinds.modify _ _)[k]? = _
  rw [SortedMap.get_modify]
  split_ifs <;> simp

/-- A press tells every associated blind once. -/
theorem tells_blind {command : SomfyCommand} {long : Bool} {blindIds : List UInt16}
    (h : blindIds.foldlM (tell command long) d = some d') (hn : blindIds.Nodup) (k : UInt32) :
    d'.clock = d.clock ∧ d'.blinds[k]? = (d.blinds[k]?).map fun b =>
      if k ∈ blindIds.map (·.toUInt32) then b.buttonsPressed command.button long d.clock
      else b := by
  induction blindIds generalizing d with
  | nil =>
      simp only [List.foldlM_nil, Option.pure_def, Option.some.injEq] at h
      subst h
      simp
  | cons i is ih =>
      rw [List.foldlM_cons] at h
      obtain ⟨e, he, h⟩ := Option.bind_eq_some_iff.mp h
      obtain ⟨hi, hrest⟩ := List.nodup_cons.mp hn
      obtain ⟨hclock, hblind⟩ := tell_blind he k
      obtain ⟨hclock', hblind'⟩ := ih h hrest
      refine ⟨hclock'.trans hclock, ?_⟩
      rw [hblind', hblind, hclock, Option.map_map]
      congr 1
      funext b
      simp only [Function.comp_apply, List.map_cons, List.mem_cons]
      by_cases hk : k = i.toUInt32
      · have hnot : k ∉ is.map (·.toUInt32) := by
          rw [hk, List.mem_map]
          intro ⟨j, hj, hij⟩
          exact hi (UInt16.toUInt32_inj.mp hij ▸ hj)
        rw [if_neg hnot, if_pos hk.symm, if_pos (.inl hk)]
      · rw [if_neg (Ne.symm hk)]
        simp only [hk, false_or]

/-- Whether a blind hears the presses of its own primary remote. -/
def listens (d : Device) (k : UInt32) (b : Blind) : Bool :=
  k ∈ (d.heap b.remote).associatedBlinds.map (·.toUInt32)

theorem modifyBlind_self (d : Device) (k : UInt32) (f : Blind → Blind) :
    (d.modifyBlind k f).blinds[k]? = (d.blinds[k]?).map f := by
  change (d.blinds.modify k f)[k]? = _
  rw [SortedMap.get_modify, if_pos rfl]

/-- A press of the primary remote comes back to the blind. -/
theorem pressButtons_blind {p : ℕ} {button : SomfyButton} {repeats : UInt16}
    (h : d.pressButtons p button repeats = some d') (hn : (d.heap p).associatedBlinds.Nodup)
    (k : UInt32) :
    d'.clock = d.clock ∧ d'.blinds[k]? = (d.blinds[k]?).map fun b =>
      if k ∈ (d.heap p).associatedBlinds.map (·.toUInt32) then
        b.buttonsPressed button (repeats > shortPress) d.clock else b := tells_blind h hn k

theorem stop_blind {k : UInt32} {b : Blind} (hb : d.blinds[k]? = some b)
    (hn : (d.heap b.remote).associatedBlinds.Nodup) (h : d.stop k = some d') :
    d'.clock = d.clock ∧ d'.blinds[k]? = some (b.stopped d.clock (d.listens k b)) := by
  unfold Device.stop at h
  rw [hb, Option.bind_some] at h
  unfold Blind.stopped listens
  split_ifs at h with hm
  · obtain ⟨hclock, hblind⟩ := pressButtons_blind h hn k
    refine ⟨hclock, ?_⟩
    rw [hblind, hb, Option.map_some]
    simp only [hm, true_and, decide_eq_true_eq, ne_eq, not_false_eq_true]
    rfl
  · cases h
    exact ⟨rfl, by rw [hb, if_neg (fun hc => hm hc.1)]⟩

theorem moveBlind_blind {k : UInt32} {b c : Blind} (hb : d.blinds[k]? = some b)
    (hc : { b with refreshTimer := c.refreshTimer } = c)
    (hn : (d.heap b.remote).associatedBlinds.Nodup) (h : d.moveBlind k c = some d') :
    d'.clock = d.clock ∧ d'.blinds[k]? = some (b.moveOn d.clock (d.listens k b)) := by
  have hsame : c.motionDirection = b.motionDirection ∧ c.travel d.clock = b.travel d.clock ∧
      c.targetPosition = b.targetPosition := by
    rw [← hc]
    exact ⟨rfl, rfl, rfl⟩
  have hat : { c with intermediatePosition := c.travel d.clock }.atTarget ↔
      { b with intermediatePosition := b.travel d.clock }.atTarget := by
    simp only [Blind.atTarget, hsame]
  unfold Device.moveBlind at h
  unfold Blind.moveOn
  by_cases h₀ : b.motionDirection = 0
  · rw [if_pos (hsame.1.trans h₀)] at h
    rw [if_pos h₀, ← Option.some.inj h]
    exact ⟨rfl, hb⟩
  rw [if_neg fun hz => h₀ (hsame.1.symm.trans hz)] at h
  rw [if_neg h₀]
  by_cases h₁ : { b with intermediatePosition := b.travel d.clock }.atTarget
  · rw [if_pos (hat.mpr h₁)] at h
    rw [if_pos h₁]
    obtain ⟨e, he, rfl⟩ := Option.map_eq_some_iff.mp h
    have harrived : (d.modifyBlind k fun b =>
        { b with intermediatePosition := b.targetPosition.toInt }).blinds[k]? =
        some { b with intermediatePosition := b.targetPosition.toInt } := by
      rw [modifyBlind_self, hb, Option.map_some]
    rw [hsame.2.2] at he
    by_cases h₂ : b.targetPosition < 100 ∧ b.targetPosition > 0
    · rw [if_pos h₂] at he
      obtain ⟨hclock, hblind⟩ := stop_blind harrived hn he
      refine ⟨hclock, ?_⟩
      rw [modifyBlind_self, hblind, Option.map_some]
      simp only [if_pos h₂]
      rfl
    · rw [if_neg h₂] at he
      rw [modifyBlind_self, ← Option.some.inj he, harrived, Option.map_some]
      simp only [if_neg h₂]
      exact ⟨rfl, trivial⟩
  · rw [if_neg fun hz => h₁ (hat.mp hz)] at h
    rw [if_neg h₁, ← Option.some.inj h, modifyBlind_self, hb, Option.map_some]
    exact ⟨rfl, rfl⟩

/-- The tick of the device updates the position of the blind it is for. -/
theorem tick_blind {k : UInt32} {b : Blind} {position state : Bool} (hb : d.blinds[k]? = some b)
    (hn : (d.heap b.remote).associatedBlinds.Nodup) (h : d.tick k position state = some d') :
    d'.blinds[k]? = some (b.updatePosition d.clock (d.listens k b)
      (Blind.publishPosition d.mqttEnabled position state)) := by
  unfold Device.tick at h
  rw [hb, Option.bind_some] at h
  split_ifs at h with hdue
  obtain ⟨e, he, rfl⟩ := Option.map_eq_some_iff.mp h
  have hstart : (d.modifyBlind k fun b => { b with refreshTimer := none }).blinds[k]? =
      some { b with refreshTimer := none } := by
    rw [modifyBlind_self, hb, Option.map_some]
  obtain ⟨hclock, hblind⟩ := moveBlind_blind hstart rfl hn he
  have hclock' : e.clock = d.clock := hclock
  have hmqtt : e.mqttEnabled = d.mqttEnabled := (Reacts.moveBlind he).mqttEnabled
  rw [modifyBlind_self, hblind, Option.map_some, hclock', hmqtt]
  rfl

end Device

end PicoSomfy
