import PicoSomfy.MotionCommands

/-!
# The motion invariant

`Steered` is kept by every call, also by the presses that a call makes in the middle of
its work. A tick moves the estimate in the direction of motion, by no more than the
time since the last tick allows, and never past the target.
-/
namespace PicoSomfy

namespace Blind

variable {b : Blind} {now : ℤ}

structure Steered (b : Blind) : Prop where
  inRange : b.InRange
  direction : b.motionDirection = -1 ∨ b.motionDirection = 0 ∨ b.motionDirection = 1
  opening : b.motionDirection = 1 → b.intermediatePosition ≤ b.targetPosition.toInt
  closing : b.motionDirection = -1 → (b.targetPosition.toInt : ℚ) ≤ b.intermediatePosition
  resting : b.motionDirection = 0 →
    |(b.targetPosition.toInt : ℚ) - b.intermediatePosition| ≤ 1 / 2

theorem abs_roundAway_sub {x : ℚ} (h : 0 ≤ x) : |(roundAway x : ℚ) - x| ≤ 1 / 2 := by
  rw [roundAway, if_pos h, abs_le]
  have hle := Int.floor_le (x + 1 / 2)
  have hlt := Int.lt_floor_add_one (x + 1 / 2)
  constructor <;> linarith

theorem Steered.rest_at (h : b.InRange) (target : Int32)
    (ht : 0 ≤ target.toInt ∧ target.toInt ≤ 100)
    (hat : |(target.toInt : ℚ) - b.intermediatePosition| ≤ 1 / 2) :
    Steered { b with targetPosition := target, motionDirection := 0 } where
  inRange := ⟨ht, h.favourite, h.position⟩
  direction := .inr (.inl rfl)
  opening hd := absurd hd (by simp)
  closing hd := absurd hd (by simp)
  resting _ := hat

theorem Steered.up_to (h : b.InRange) (target : Int32)
    (ht : 0 ≤ target.toInt ∧ target.toInt ≤ 100)
    (hat : b.intermediatePosition ≤ target.toInt) :
    Steered { b with targetPosition := target, motionDirection := 1 } where
  inRange := ⟨ht, h.favourite, h.position⟩
  direction := .inr (.inr rfl)
  opening _ := hat
  closing hd := absurd hd (by simp)
  resting hd := absurd hd (by simp)

theorem Steered.down_to (h : b.InRange) (target : Int32)
    (ht : 0 ≤ target.toInt ∧ target.toInt ≤ 100)
    (hat : (target.toInt : ℚ) ≤ b.intermediatePosition) :
    Steered { b with targetPosition := target, motionDirection := -1 } where
  inRange := ⟨ht, h.favourite, h.position⟩
  direction := .inl rfl
  opening hd := absurd hd (by simp)
  closing _ := hat
  resting hd := absurd hd (by simp)

/-- The timer and the marks for saving have no part in the motion. -/
theorem Steered.touch (h : b.Steered) (now : ℤ) : (b.touch now).Steered :=
  ⟨⟨h.inRange.target, h.inRange.favourite, h.inRange.position⟩, h.direction, h.opening, h.closing,
    h.resting⟩

theorem Steered.buttonsPressed (h : b.Steered) (button : SomfyButton) (long : Bool) (now : ℤ) :
    (b.buttonsPressed button long now).Steered := by
  have hr := h.inRange
  unfold Blind.buttonsPressed
  split_ifs with hup hdown hmy hmoving hlong hinside hahead
  · exact (Steered.up_to hr 100 (by decide) (by exact_mod_cast hr.position.2)).touch now
  · exact (Steered.down_to hr 0 (by decide) (by exact_mod_cast hr.position.1)).touch now
  · have hround := roundAway_bounds hr.position
    have htarget := toInt_ofInt_percent hround
    refine (Steered.rest_at hr (Int32.ofInt (roundAway b.intermediatePosition)) ?_ ?_).touch now
    · rwa [htarget]
    · rw [htarget]
      exact abs_roundAway_sub hr.position.1
  · have hfav : Steered { b with favouritePosition := b.targetPosition } :=
      ⟨⟨hr.target, hr.target, hr.position⟩, h.direction, h.opening, h.closing, h.resting⟩
    exact hfav.touch now
  · exact h
  · exact (Steered.up_to hr b.favouritePosition hr.favourite hahead.le).touch now
  · exact (Steered.down_to hr b.favouritePosition hr.favourite (not_lt.mp hahead)).touch now
  · exact h.touch now

theorem Steered.primaryPressed (h : b.Steered) (button : SomfyButton) (long : Bool) (now : ℤ)
    (listens : Bool) : (b.primaryPressed button long now listens).Steered := by
  unfold Blind.primaryPressed
  split_ifs
  · exact h.buttonsPressed button long now
  · exact h

/-- The two tests of `GoToPosition` never both lead to a press. -/
theorem one_press (hx : 0 ≤ b.intermediatePosition ∧ b.intermediatePosition ≤ 100) {p : Int32} :
    ¬((b.intermediatePosition > p.toInt ∨ p = 0) ∧ (b.intermediatePosition < p.toInt ∨ p = 100)) := by
  rintro ⟨hdown | rfl, hup | hup⟩
  · exact lt_asymm hdown hup
  · rw [hup, show ((100 : Int32).toInt : ℚ) = 100 from rfl] at hdown
    exact not_lt.mpr hx.2 hdown
  · rw [show ((0 : Int32).toInt : ℚ) = 0 from rfl] at hup
    exact not_lt.mpr hx.1 hup
  · exact absurd hup (by decide)

/-- Where a listening blind goes: down, up, or nowhere. -/
theorem goesTo_cases (hx : 0 ≤ b.intermediatePosition ∧ b.intermediatePosition ≤ 100)
    (p : Int32) (now : ℤ) :
    ((b.intermediatePosition > p.toInt ∨ p = 0) ∧ (p.toInt : ℚ) ≤ b.intermediatePosition ∧
        b.goesTo p now true =
          { b.buttonsPressed .down false now with targetPosition := p }) ∨
      ((b.intermediatePosition < p.toInt ∨ p = 100) ∧ b.intermediatePosition ≤ p.toInt ∧
        b.goesTo p now true = { b.buttonsPressed .up false now with targetPosition := p }) ∨
      (b.intermediatePosition = p.toInt ∧ p ≠ 0 ∧ p ≠ 100 ∧
        b.goesTo p now true = { b with targetPosition := p }) := by
  have hone := one_press hx (p := p)
  by_cases hdown : b.intermediatePosition > p.toInt ∨ p = 0
  · have hup : ¬(b.intermediatePosition < p.toInt ∨ p = 100) := fun hup => hone ⟨hdown, hup⟩
    have hsame : (b.buttonsPressed .down false now).intermediatePosition =
        b.intermediatePosition := press_position ..
    refine .inl ⟨hdown, ?_, ?_⟩
    · exact not_lt.mp fun hlt => hup (.inl hlt)
    · simp only [goesTo, Blind.primaryPressed, if_pos hdown, if_true, hsame, if_neg hup]
  by_cases hup : b.intermediatePosition < p.toInt ∨ p = 100
  · refine .inr (.inl ⟨hup, ?_, ?_⟩)
    · exact not_lt.mp fun hlt => hdown (.inl hlt)
    · simp only [goesTo, Blind.primaryPressed, if_neg hdown, if_true, if_pos hup]
  · obtain ⟨hle, hzero⟩ := not_or.mp hdown
    obtain ⟨hge, hfull⟩ := not_or.mp hup
    refine .inr (.inr ⟨le_antisymm (not_lt.mp hle) (not_lt.mp hge), hzero, hfull, ?_⟩)
    simp only [goesTo, if_neg hdown, if_neg hup]

theorem Steered.goesTo (h : b.Steered) (p : Int32) (hp : 0 ≤ p.toInt ∧ p.toInt ≤ 100)
    (now : ℤ) : (b.goesTo p now true).Steered := by
  have hr := h.inRange
  rcases goesTo_cases hr.position p now with ⟨-, hle, heq⟩ | ⟨-, hle, heq⟩ | ⟨hat, -, -, heq⟩
  · rw [heq]
    exact (Steered.down_to hr p hp hle).touch now
  · rw [heq]
    exact (Steered.up_to hr p hp hle).touch now
  · rw [heq]
    exact ⟨⟨hp, hr.favourite, hr.position⟩, h.direction, fun _ => hat.le, fun _ => hat.ge,
      fun _ => by simp [hat]⟩

theorem Steered.movedTo (h : b.Steered) (hway : ¬(b.movedTo now).atTarget) :
    (b.movedTo now).Steered := by
  by_cases hd : b.motionDirection = 0
  · rwa [Blind.movedTo, if_pos hd]
  have hmoved : b.movedTo now = { b with intermediatePosition := b.travel now, lastTick := now } :=
    if_neg hd
  rw [hmoved] at hway ⊢
  obtain ⟨hup, hdown⟩ := not_or.mp hway
  refine ⟨⟨h.inRange.target, h.inRange.favourite, b.travel_bounds now⟩, h.direction,
    fun hd₁ => ?_, fun hd₁ => ?_, fun hd₀ => absurd hd₀ hd⟩
  · have hd₁ : b.motionDirection = 1 := hd₁
    by_contra hpast
    exact hup ⟨by simp only; omega, (not_le.mp hpast).le⟩
  · have hd₁ : b.motionDirection = -1 := hd₁
    by_contra hpast
    exact hdown ⟨by simp only; omega, (not_le.mp hpast).le⟩

/-- The motion depends on the estimate, and the favourite on nothing else. -/
theorem Steered.of_estimate {c : Blind} (h : b.Steered) (hest : c.estimate = b.estimate)
    (hfav : c.favouritePosition = b.favouritePosition) : c.Steered := by
  have hfields := hest
  simp only [Blind.estimate, Estimate.mk.injEq] at hfields
  obtain ⟨hpos, htarget, hdir⟩ := hfields
  obtain ⟨hr, hd, hup, hdown, hrest⟩ := h
  rw [← hdir] at hd hup hdown hrest
  rw [← hpos, ← htarget] at hup hdown hrest
  refine ⟨⟨?_, ?_, ?_⟩, hd, hup, hdown, hrest⟩
  · rw [htarget]
    exact hr.target
  · rw [hfav]
    exact hr.favourite
  · rw [hpos]
    exact hr.position

theorem Steered.updatePosition (h : b.Steered) (now : ℤ) (listens again : Bool) :
    (b.updatePosition now listens again).Steered := by
  obtain ⟨⟨-, htarget, hfav, -, -⟩, hcases⟩ := updatePosition_cases h.inRange now listens again
  rcases hcases with ⟨hway, hest⟩ | ⟨-, hpos, hdir⟩
  · exact (h.movedTo hway).of_estimate hest (hfav.trans (b.movedTo_fields now).1.symm)
  · have hat : (0 : ℚ) ≤ b.targetPosition.toInt ∧ (b.targetPosition.toInt : ℚ) ≤ 100 := by
      exact_mod_cast h.inRange.target
    have hrest := Steered.rest_at (b := { b with intermediatePosition := b.targetPosition.toInt })
      ⟨h.inRange.target, h.inRange.favourite, hat⟩ b.targetPosition h.inRange.target (by simp)
    refine hrest.of_estimate ?_ hfav
    simp only [Blind.estimate, hpos, htarget, hdir]

/-- Every call keeps a listening blind steered. -/
theorem Steered.obeys (h : b.Steered) (now : ℤ) (mqttEnabled : Bool) (c : BlindCall) :
    (b.obeys now true mqttEnabled c).Steered := by
  cases c with
  | goToPosition position => exact h.goesTo _ (Device.Reacts.clampPosition_bounds position) now
  | goUp => exact h.primaryPressed .up false now true
  | goDown => exact h.primaryPressed .down false now true
  | stop =>
      simp only [Blind.obeys, Blind.stopped]
      split_ifs
      · exact h.buttonsPressed .my false now
      · exact h
  | goToMyPosition =>
      simp only [Blind.obeys]
      split_ifs
      · exact h
      · exact h.primaryPressed .my false now true
  | saveMyPosition =>
      simp only [Blind.obeys]
      split_ifs
      · exact h.primaryPressed .my true now true
      · exact h
  | buttonsPressed button long => exact h.buttonsPressed button long now
  | updatePosition position state => exact h.updatePosition now true _

/-- A time in percent of the way, for a travel time in seconds. -/
def percent (elapsed : ℤ) (seconds : Int32) : ℚ := elapsed / 1000000 * (100 / seconds.toInt)

/-- The estimate moves in the direction of motion, by at most what the time since the
last tick allows, and not past the target. -/
structure Advances (b : Blind) (now : ℤ) (b' : Blind) : Prop where
  resting : b.motionDirection = 0 → b'.intermediatePosition = b.intermediatePosition
  opening : b.motionDirection = 1 →
    b.intermediatePosition ≤ b'.intermediatePosition ∧
      b'.intermediatePosition ≤ b.intermediatePosition + percent (now - b.lastTick) b.openTime ∧
      b'.intermediatePosition ≤ b.targetPosition.toInt
  closing : b.motionDirection = -1 →
    b'.intermediatePosition ≤ b.intermediatePosition ∧
      b.intermediatePosition - percent (now - b.lastTick) b.closeTime ≤ b'.intermediatePosition ∧
      b.targetPosition.toInt ≤ b'.intermediatePosition

theorem rate_percent_up (hd : b.motionDirection = 1) (t : ℤ) :
    (t : ℚ) * b.rate = percent t b.openTime := by
  rw [rate, if_pos (by omega), percent]
  ring

theorem rate_percent_down (hd : b.motionDirection = -1) (t : ℤ) :
    (t : ℚ) * b.rate = -percent t b.closeTime := by
  rw [rate, if_neg (by omega), percent]
  ring

theorem percent_nonneg {t : ℤ} (ht : 0 ≤ t) {seconds : Int32} (hs : 0 < seconds.toInt) :
    0 ≤ percent t seconds := by
  have hs' : (0 : ℚ) < seconds.toInt := by exact_mod_cast hs
  have ht' : (0 : ℚ) ≤ t := by exact_mod_cast ht
  unfold percent
  positivity

theorem Moves.travel_up (hm : b.Moves) (hd : b.motionDirection = 1) (hnow : b.lastTick ≤ now) :
    b.travel now = min 100 (b.intermediatePosition + percent (now - b.lastTick) b.openTime) := by
  have hstep := percent_nonneg (Int.sub_nonneg.mpr hnow) hm.openTime
  rw [hm.travel_eq, rate_percent_up hd,
    max_eq_right (by linarith [hm.inRange.position.1])]

theorem Moves.travel_down (hm : b.Moves) (hd : b.motionDirection = -1) (hnow : b.lastTick ≤ now) :
    b.travel now = max 0 (b.intermediatePosition - percent (now - b.lastTick) b.closeTime) := by
  have hstep := percent_nonneg (Int.sub_nonneg.mpr hnow) hm.closeTime
  rw [hm.travel_eq, rate_percent_down hd, ← sub_eq_add_neg]
  exact min_eq_right (max_le (by norm_num) (by linarith [hm.inRange.position.2]))

theorem Moves.advances (hm : b.Moves) (hs : b.Steered) (hnow : b.lastTick ≤ now)
    (listens again : Bool) : b.Advances now (b.updatePosition now listens again) := by
  obtain ⟨-, hcases⟩ := updatePosition_cases hs.inRange now listens again
  generalize b.updatePosition now listens again = c at *
  have htime : 0 ≤ now - b.lastTick := Int.sub_nonneg.mpr hnow
  obtain ⟨hp₀, hp₁⟩ := hs.inRange.position
  refine ⟨fun hd => ?_, fun hd => ?_, fun hd => ?_⟩
  · rcases hcases with ⟨-, hest⟩ | ⟨hat, -⟩
    · rw [Blind.movedTo, if_pos hd] at hest
      exact congrArg Estimate.position hest
    · exact absurd hat (not_atTarget_of_rest hd now)
  · have hstep := percent_nonneg htime hm.openTime
    have hmoved : b.movedTo now =
      { b with intermediatePosition := b.travel now, lastTick := now } := if_neg (by omega)
    have hahead := hs.opening hd
    have hreach : b.travel now ≤ b.intermediatePosition + percent (now - b.lastTick) b.openTime := by
      rw [hm.travel_up hd hnow]
      exact min_le_right _ _
    have hforward : b.intermediatePosition ≤ b.travel now := by
      rw [hm.travel_up hd hnow]
      exact le_min hp₁ (by linarith)
    rw [hmoved] at hcases
    rcases hcases with ⟨hway, hest⟩ | ⟨hat, hpos, -⟩
    · have hpos : c.intermediatePosition = b.travel now := congrArg Estimate.position hest
      rw [hpos]
      refine ⟨hforward, hreach, ?_⟩
      by_contra hpast
      exact hway (.inl ⟨by simp only; omega, (not_le.mp hpast).le⟩)
    · rw [hpos]
      rcases hat with ⟨-, hat⟩ | ⟨hneg, -⟩
      · exact ⟨hahead, le_trans hat hreach, le_rfl⟩
      · simp only [hd] at hneg
        omega
  · have hstep := percent_nonneg htime hm.closeTime
    have hmoved : b.movedTo now =
      { b with intermediatePosition := b.travel now, lastTick := now } := if_neg (by omega)
    have hahead := hs.closing hd
    have hreach : b.intermediatePosition - percent (now - b.lastTick) b.closeTime ≤ b.travel now := by
      rw [hm.travel_down hd hnow]
      exact le_max_right _ _
    have hforward : b.travel now ≤ b.intermediatePosition := by
      rw [hm.travel_down hd hnow]
      exact max_le hp₀ (by linarith)
    rw [hmoved] at hcases
    rcases hcases with ⟨hway, hest⟩ | ⟨hat, hpos, -⟩
    · have hpos : c.intermediatePosition = b.travel now := congrArg Estimate.position hest
      rw [hpos]
      refine ⟨hforward, hreach, ?_⟩
      by_contra hpast
      exact hway (.inr ⟨by simp only; omega, (not_le.mp hpast).le⟩)
    · rw [hpos]
      rcases hat with ⟨hpos', -⟩ | ⟨-, hat⟩
      · simp only [hd] at hpos'
        omega
      · exact ⟨hahead, le_trans hreach hat, le_rfl⟩

/-- No call looks ahead in time. -/
theorem lastTick_obeys (h : b.lastTick ≤ now) (hr : b.InRange) (listens mqttEnabled : Bool)
    (c : BlindCall) : (b.obeys now listens mqttEnabled c).lastTick ≤ now := by
  have hpress : ∀ {c : Blind} (button : SomfyButton) (long : Bool), c.lastTick ≤ now →
      (c.buttonsPressed button long now).lastTick ≤ now := by
    intro c button long hc
    have hself : c.Alike c := ⟨rfl, rfl, rfl, rfl⟩
    rcases hself.lastTick_press button long now with ⟨heq, -⟩ | ⟨-, heq, -⟩
    · exact heq.le
    · rwa [heq]
  have hprimary : ∀ {c : Blind} (button : SomfyButton) (long : Bool), c.lastTick ≤ now →
      (c.primaryPressed button long now listens).lastTick ≤ now := by
    intro c button long hc
    unfold Blind.primaryPressed
    split_ifs
    · exact hpress button long hc
    · exact hc
  cases c with
  | goToPosition position =>
      simp only [Blind.obeys, Blind.goesTo]
      split_ifs <;> first | exact h | exact hprimary _ _ h | exact hprimary _ _ (hprimary _ _ h)
  | goUp => exact hprimary .up false h
  | goDown => exact hprimary .down false h
  | stop =>
      simp only [Blind.obeys, Blind.stopped]
      split_ifs
      · exact hpress .my false h
      · exact h
  | goToMyPosition =>
      simp only [Blind.obeys]
      split_ifs
      · exact h
      · exact hprimary .my false h
  | saveMyPosition =>
      simp only [Blind.obeys]
      split_ifs
      · exact hprimary .my true h
      · exact h
  | buttonsPressed button long => exact hpress button long h
  | updatePosition position state => exact (updatePosition_cases hr now listens _).1.1.le

end Blind

namespace Device

variable {d d' : Device} {k : UInt32}

/-- A blind that listens to its primary remote, which lists it once. -/
structure Attached (d : Device) (k : UInt32) (b : Blind) : Prop where
  blind : d.blinds[k]? = some b
  once : (d.heap b.remote).associatedBlinds.Nodup
  listens : d.listens k b = true
  moves : b.Moves
  lastTick : b.lastTick ≤ d.clock

theorem Attached.after {b : Blind} (h : d.Attached k b) {elapsed : ℤ} (he : 0 ≤ elapsed) :
    (d.after elapsed).Attached k b :=
  ⟨h.blind, h.once, h.listens, h.moves, h.lastTick.trans (Int.le_add_of_nonneg_right he)⟩

theorem Attached.callBlind {b : Blind} (h : d.Attached k b) {c : BlindCall}
    (hstep : d.callBlind k c = some d') :
    d'.clock = d.clock ∧ d'.Attached k (b.obeys d.clock true d.mqttEnabled c) ∧
      (b.obeys d.clock true d.mqttEnabled c).remote = b.remote := by
  obtain ⟨hclock, hblind⟩ := callBlind_blind h.blind h.once hstep
  rw [h.listens] at hblind
  have hreacts := Reacts.callBlind hstep
  obtain ⟨b₀, hb₀, hb⟩ := hreacts.old_blind hblind
  cases h.blind.symm.trans hb₀
  have hremote := (Prod.ext_iff.mp hb.link).2
  change (b.obeys d.clock true d.mqttEnabled c).remote = b.remote at hremote
  refine ⟨hclock, ⟨hblind, ?_, ?_, ⟨hb.inRange h.moves.inRange, ?_, ?_⟩, ?_⟩, hremote⟩
  · rw [hremote, (hreacts.remote b.remote).fields.2.2.1]
    exact h.once
  · rw [hreacts.listens hremote]
    exact h.listens
  · rw [hb.settings.2.1]
    exact h.moves.openTime
  · rw [hb.settings.2.2]
    exact h.moves.closeTime
  · rw [hclock]
    exact Blind.lastTick_obeys h.lastTick h.moves.inRange true d.mqttEnabled c

theorem Attached.turn {b : Blind} (h : d.Attached k b) {e : ℤ × BlindCall} (he : 0 ≤ e.1)
    (hstep : turn k d e = some d') :
    d'.clock = d.clock + e.1 ∧ d'.Attached k (b.obeys d'.clock true d.mqttEnabled e.2) ∧
      (b.obeys d'.clock true d.mqttEnabled e.2).remote = b.remote := by
  obtain ⟨hclock, hattached, hremote⟩ := (h.after he).callBlind hstep
  rw [← hclock] at hattached hremote
  exact ⟨hclock, hattached, hremote⟩

/-- A run of calls on a blind with its lookups answered comes to its end. -/
theorem Attached.total {b : Blind} (h : d.Attached k b) (hr : d.Reaches b.remote)
    {es : List (ℤ × BlindCall)} (hes : ∀ e ∈ es, 0 ≤ e.1) :
    ∃ d', es.foldlM (Device.turn k) d = some d' := by
  obtain ⟨d', hd', -⟩ := Transitions.foldlM_total (f := Device.turn k)
    (I := fun e => ∃ b, e.Attached k b ∧ e.Reaches b.remote)
    (fun {s e} (he : e ∈ es) ⟨b, hb, hr⟩ => by
      obtain ⟨t, ht⟩ := callBlind_total (d := s.after e.1) hb.blind hr e.2
      obtain ⟨-, hb', hremote⟩ := hb.turn (hes e he) ht
      exact ⟨t, ht, _, hb', by rw [hremote]; exact (Reacts.callBlind ht).reaches hr⟩)
    ⟨b, h, hr⟩
  exact ⟨d', hd'⟩

/-- A blind that was set up with positive times stays steered in every run of calls, and
every tick advances it. No call fails when the blinds of its primary remote exist. -/
theorem motion_invariant {mqttEnabled : Bool} {now : ℤ} {blindId : UInt16} {name : List UInt8}
    {position favourite openTime closeTime : Int32} {remote : ℕ}
    (hb : d.blinds[k]? = some (.create mqttEnabled now blindId name position favourite openTime
      closeTime remote)) (hnow : now ≤ d.clock)
    (hposition : 0 ≤ position.toInt ∧ position.toInt ≤ 100)
    (hopen : 0 < openTime.toInt) (hclose : 0 < closeTime.toInt)
    (honce : (d.heap remote).associatedBlinds.Nodup)
    (hlists : k ∈ (d.heap remote).associatedBlinds.map (·.toUInt32))
    {es : List (ℤ × BlindCall)} (hes : ∀ e ∈ es, 0 ≤ e.1) :
    (d.Reaches remote → ∃ d', es.foldlM (turn k) d = some d') ∧
    ∀ d', es.foldlM (turn k) d = some d' → ∃ b', d'.blinds[k]? = some b' ∧ b'.Steered ∧
      ∀ (elapsed : ℤ) (position state : Bool) (d'' : Device), 0 ≤ elapsed →
        turn k d' (elapsed, .updatePosition position state) = some d'' →
        ∃ b'', d''.blinds[k]? = some b'' ∧ b'.Advances d''.clock b'' := by
  have hrange : (Blind.create mqttEnabled now blindId name position favourite openTime closeTime
      remote).InRange := by
    have hat : (0 : ℚ) ≤ position.toInt ∧ (position.toInt : ℚ) ≤ 100 := by
      exact_mod_cast hposition
    refine ⟨hposition, ?_, hat⟩
    simp only [Blind.create]
    split_ifs with hout
    · decide
    · simp only [not_or, gt_iff_lt, Int32.lt_iff_toInt_lt, not_lt] at hout
      exact ⟨hout.2, hout.1⟩
  have hstart : d.Attached k (.create mqttEnabled now blindId name position favourite openTime
      closeTime remote) :=
    ⟨hb, honce, by simpa [listens, Blind.create] using hlists, ⟨hrange, hopen, hclose⟩, hnow⟩
  have hrest : (Blind.create mqttEnabled now blindId name position favourite openTime closeTime
      remote).Steered :=
    ⟨hrange, .inr (.inl rfl), fun hd => absurd hd (by simp [Blind.create]),
      fun hd => absurd hd (by simp [Blind.create]), fun _ => by simp [Blind.create]⟩
  refine ⟨fun hreaches => hstart.total hreaches hes, fun d' hrun => ?_⟩
  obtain ⟨-, b', hb', hsteered⟩ := Transitions.foldlM_invariant (f := turn k)
    (fun rest e => (∀ x ∈ rest, 0 ≤ x.1) ∧ ∃ b, e.Attached k b ∧ b.Steered)
    (fun {e rest s t} hs ht => by
      obtain ⟨hrest, b, hb, hs⟩ := hs
      exact ⟨fun x hx => hrest x (by simp [hx]), _, (hb.turn (hrest e (by simp)) ht).2.1,
        hs.obeys t.clock s.mqttEnabled e.2⟩) ⟨hes, _, hstart, hrest⟩ hrun
  refine ⟨b', hb'.blind, hsteered, fun elapsed position state d'' helapsed htick => ?_⟩
  obtain ⟨hclock, hb'', -⟩ := hb'.turn helapsed htick
  have hlast : b'.lastTick ≤ d''.clock := by
    rw [hclock]
    exact hb'.lastTick.trans (Int.le_add_of_nonneg_right helapsed)
  exact ⟨_, hb''.blind, hb'.moves.advances hsteered hlast true _⟩

/-- A device with one blind and its primary remote. -/
def salon : Device :=
  { blank DeviceConfig.oneSector false (fun _ => ⟨⟨0, 0, 0, 0⟩, 0⟩) [] with
    heap := fun _ => ⟨ascii "salon", 0x270001, 1, false, false, false, [1]⟩
    heapTop := 1
    remotes := (∅ : Std.ExtTreeMap UInt32 ℕ).insert 0x270001 0
    blinds := (∅ : Std.ExtTreeMap UInt32 Blind).insert 1
      (.create false 0 1 (ascii "salon") 90 50 10 12 0) }

theorem salon_blind :
    salon.blinds[(1 : UInt32)]? = some (.create false 0 1 (ascii "salon") 90 50 10 12 0) :=
  Std.ExtTreeMap.getElem?_insert_self

theorem salon_reaches : salon.Reaches 0 := by
  intro i hi
  obtain rfl : i = 1 := by simpa [salon] using hi
  exact Std.ExtTreeMap.mem_insert_self

/-- It is sent to 40, stopped on its way and sent to its favourite. -/
theorem motion_invariant_salon : ∃ d' b',
    [(0, BlindCall.goToPosition 40), (1000000, .updatePosition true true), (300000, .stop),
      (2000000, .goToMyPosition), (1000000, .updatePosition true true)].foldlM (turn 1) salon =
        some d' ∧ d'.blinds[(1 : UInt32)]? = some b' ∧ b'.Steered := by
  have hinv := motion_invariant salon_blind le_rfl (by decide) (by decide) (by decide)
    (by decide) (by decide) (show ∀ e ∈ [(0, BlindCall.goToPosition 40),
      (1000000, .updatePosition true true), (300000, .stop), (2000000, .goToMyPosition),
      (1000000, .updatePosition true true)], 0 ≤ e.1 by decide)
  obtain ⟨d', hd'⟩ := hinv.1 salon_reaches
  obtain ⟨b', hb', hsteered, -⟩ := hinv.2 d' hd'
  exact ⟨d', b', hd', hb', hsteered⟩

end Device

end PicoSomfy
