import PicoSomfy.MotionInvariant

/-!
# A position command and its ticks

`GoToPosition` presses at most one button of the primary remote. Where the blind has to
be stopped on its way, the tick at which the estimate arrives presses My, and no later
tick does: a second My would send the blind to its favourite. After the full travel time
the blind rests at the position it was sent to.
-/
namespace PicoSomfy

namespace Device

variable {d d' : Device} {k id : UInt32} {b c : Blind}

/-- The commands that were pressed on a remote, with their repeats. -/
def pressedOn (d : Device) (id : UInt32) : List (SomfyButton × UInt16) :=
  d.history.filterMap fun happening =>
    match happening with
    | .pressed command _ =>
        if command.remoteId = id then some (command.button, command.repeats) else none
    | _ => none

theorem pressButtons_pressedOn {p : ℕ} {button : SomfyButton} {repeats : UInt16}
    (h : d.pressButtons p button repeats = some d') (hid : (d.heap p).remoteId = id) :
    d'.pressedOn id = d.pressedOn id ++ [(button, repeats)] := by
  have hhistory := congrArg Device.history (pressButtons_eq h)
  unfold pressedOn
  rw [hhistory]
  simp [nextCommand, hid, List.filterMap_append]

theorem stop_pressedOn (hb : d.blinds[k]? = some b) (hid : (d.heap b.remote).remoteId = id)
    (h : d.stop k = some d') :
    d'.pressedOn id = d.pressedOn id ++
      if b.motionDirection ≠ 0 then [(.my, shortPress)] else [] := by
  unfold Device.stop at h
  rw [hb, Option.bind_some] at h
  split_ifs at h ⊢
  · exact pressButtons_pressedOn h hid
  · rw [← Option.some.inj h, List.append_nil]

/-- The tick stops the blind with My: it arrives inside the range. -/
def Arrives (b : Blind) (now : ℤ) : Prop :=
  (b.movedTo now).atTarget ∧ b.targetPosition < 100 ∧ b.targetPosition > 0

instance (b : Blind) (now : ℤ) : Decidable (Arrives b now) := by
  unfold Arrives
  infer_instance

theorem moveBlind_pressedOn {timer : Option ℤ}
    (hb : d.blinds[k]? = some { b with refreshTimer := timer })
    (hid : (d.heap b.remote).remoteId = id) (h : d.moveBlind k b = some d') :
    d'.pressedOn id = d.pressedOn id ++
      if Arrives b d.clock then [(.my, shortPress)] else [] := by
  unfold Device.moveBlind at h
  by_cases h₀ : b.motionDirection = 0
  · rw [if_pos h₀] at h
    rw [if_neg fun ha => Blind.not_atTarget_of_rest h₀ d.clock ha.1, ← Option.some.inj h,
      List.append_nil]
  rw [if_neg h₀] at h
  have hmoved : b.movedTo d.clock =
    { b with intermediatePosition := b.travel d.clock, lastTick := d.clock } := if_neg h₀
  by_cases h₁ : (b.movedTo d.clock).atTarget
  · have hat : { b with intermediatePosition := b.travel d.clock }.atTarget := by
      rw [hmoved] at h₁
      exact h₁
    rw [if_pos hat] at h
    obtain ⟨e, he, rfl⟩ := Option.map_eq_some_iff.mp h
    change e.pressedOn id = _
    by_cases h₂ : b.targetPosition < 100 ∧ b.targetPosition > 0
    · rw [if_pos h₂] at he
      rw [if_pos ⟨h₁, h₂⟩]
      have harrived : (d.modifyBlind k
          fun b => { b with intermediatePosition := b.targetPosition.toInt }).blinds[k]? =
          some { b with
            refreshTimer := timer
            intermediatePosition := b.targetPosition.toInt } := by
        rw [modifyBlind_self, hb, Option.map_some]
      have hstop := stop_pressedOn harrived hid he
      rw [if_pos h₀] at hstop
      exact hstop
    · rw [if_neg h₂] at he
      rw [if_neg fun ha => h₂ ha.2, ← Option.some.inj he, List.append_nil]
      rfl
  · have hat : ¬{ b with intermediatePosition := b.travel d.clock }.atTarget := by
      rw [hmoved] at h₁
      exact h₁
    rw [if_neg hat] at h
    rw [if_neg fun ha => h₁ ha.1, ← Option.some.inj h, List.append_nil]
    rfl

theorem updatePosition_pressedOn {position state : Bool} (hb : d.blinds[k]? = some b)
    (hid : (d.heap b.remote).remoteId = id) (h : d.updatePosition k position state = some d') :
    d'.pressedOn id = d.pressedOn id ++
      if Arrives b d.clock then [(.my, shortPress)] else [] := by
  unfold Device.updatePosition at h
  rw [hb, Option.bind_some] at h
  obtain ⟨e, he, rfl⟩ := Option.map_eq_some_iff.mp h
  have hstart : (d.modifyBlind k fun b => { b with refreshTimer := none }).blinds[k]? =
      some { b with refreshTimer := none } := by
    rw [modifyBlind_self, hb, Option.map_some]
  have hmove := moveBlind_pressedOn hstart hid he
  exact hmove

/-- The press that a position command starts with. -/
def startPress (b : Blind) (p : Int32) : List (SomfyButton × UInt16) :=
  if b.intermediatePosition > p.toInt ∨ p = 0 then [(.down, shortPress)]
  else if b.intermediatePosition < p.toInt ∨ p = 100 then [(.up, shortPress)] else []

theorem goToPosition_pressedOn {position : Int32} (hb : d.blinds[k]? = some b)
    (hx : 0 ≤ b.intermediatePosition ∧ b.intermediatePosition ≤ 100)
    (hid : (d.heap b.remote).remoteId = id) (h : d.goToPosition k position = some d') :
    d'.pressedOn id = d.pressedOn id ++ startPress b (clampPosition position) := by
  have hone := Blind.one_press hx (p := clampPosition position)
  obtain ⟨d₁, b₁, d₂, hfirst, ⟨hb₁, hremote, hinter⟩, hsecond, rfl⟩ := goToPosition_cases hb h
  change d₂.pressedOn id = _
  unfold startPress
  rcases hfirst with ⟨hdown, hpress⟩ | ⟨hdown, rfl⟩
  · have hdown' : b.intermediatePosition > (clampPosition position).toInt ∨
      clampPosition position = 0 := hdown
    rw [if_pos hdown']
    rcases hsecond with ⟨hup, -⟩ | ⟨-, rfl⟩
    · exact absurd ⟨hdown', hup⟩ hone
    · exact pressButtons_pressedOn hpress hid
  · have hdown' : ¬(b.intermediatePosition > (clampPosition position).toInt ∨
      clampPosition position = 0) := hdown
    rw [if_neg hdown']
    rcases hsecond with ⟨hup, hpress⟩ | ⟨hup, rfl⟩
    · have hup' : b.intermediatePosition < (clampPosition position).toInt ∨
        clampPosition position = 100 := hup
      rw [if_pos hup']
      exact pressButtons_pressedOn hpress hid
    · have hup' : ¬(b.intermediatePosition < (clampPosition position).toInt ∨
        clampPosition position = 100) := hup
      rw [if_neg hup', List.append_nil]

/-- Ticks, each with the time before it and the results of publishing. -/
def ticks (es : List (ℤ × Bool × Bool)) : List (ℤ × BlindCall) :=
  es.map fun e => (e.1, .updatePosition e.2.1 e.2.2)

def positionRun (d : Device) (k : UInt32) (position : Int32) (es : List (ℤ × Bool × Bool)) :
    Option Device :=
  (d.goToPosition k position).bind fun d => (ticks es).foldlM (turn k) d

/-- A blind on the way of a motion, with the commands pressed so far. Once it has arrived
inside the range, these end with My. -/
structure UnderWay (b : Blind) (base : List (SomfyButton × UInt16)) (id : UInt32) (d : Device)
    (k : UInt32) (c : Blind) : Prop where
  attached : d.Attached k c
  remoteId : (d.heap c.remote).remoteId = id
  follows : b.Follows c
  short : c.targetPosition < 100 ∧ c.targetPosition > 0 → c.motionDirection ≠ 0 →
    c.intermediatePosition ≠ c.targetPosition.toInt
  presses : d.pressedOn id = base ++
    if c.motionDirection = 0 ∧ b.motionDirection ≠ 0 ∧ c.targetPosition < 100 ∧
      c.targetPosition > 0 then [(.my, shortPress)] else []

/-- A moving blind has the direction of the motion it follows. -/
theorem direction_of_follows (h : b.Follows c) (hd : c.motionDirection ≠ 0) :
    c.motionDirection = b.motionDirection := by
  rcases h.place with hplace | ⟨-, hrest, -⟩
  · have hdir := congrArg Blind.Estimate.direction hplace
    exact hdir.trans (b.movedTo_target c.lastTick).2
  · exact absurd hrest hd

/-- A tick that does not arrive leaves the blind short of its target. -/
theorem ne_of_not_atTarget (hd : c.motionDirection ≠ 0) (h : ¬c.atTarget) :
    c.intermediatePosition ≠ c.targetPosition.toInt := by
  intro heq
  rcases lt_or_gt_of_ne hd with hneg | hpos
  · exact h (.inr ⟨hneg, heq.le⟩)
  · exact h (.inl ⟨hpos, heq.ge⟩)

theorem UnderWay.tick {base : List (SomfyButton × UInt16)} (h : UnderWay b base id d k c)
    (hb : b.Moves) {e : ℤ × Bool × Bool} (he : 0 ≤ e.1)
    (hstep : turn k d (e.1, .updatePosition e.2.1 e.2.2) = some d') :
    d'.clock = d.clock + e.1 ∧ ∃ c', UnderWay b base id d' k c' ∧
      c'.estimate = b.settled d'.clock := by
  obtain ⟨hclock, hattached, hremote⟩ := h.attached.turn he hstep
  have hreacts := Reacts.callBlind hstep
  have hnow : c.lastTick ≤ d'.clock := by
    rw [hclock]
    exact h.attached.lastTick.trans (Int.le_add_of_nonneg_right he)
  have hpressed := updatePosition_pressedOn (d := d.after e.1) h.attached.blind h.remoteId hstep
  have hclock' : (d.after e.1).clock = d'.clock := hclock.symm
  rw [hclock'] at hpressed
  obtain ⟨hfollows, hsettled⟩ := h.follows.tick hb hnow true
    (Blind.publishPosition d.mqttEnabled e.2.1 e.2.2)
  obtain ⟨⟨-, htarget, -⟩, hcases⟩ := Blind.updatePosition_cases h.attached.moves.inRange d'.clock
    true (Blind.publishPosition d.mqttEnabled e.2.1 e.2.2)
  change d'.Attached k (c.updatePosition d'.clock true _) at hattached
  change (c.updatePosition d'.clock true _).remote = _ at hremote
  generalize c.updatePosition d'.clock true _ = c' at *
  have hid : (d'.heap c'.remote).remoteId = id := by
    rw [hremote, (hreacts.remote c.remote).fields.1]
    exact h.remoteId
  have hbase : (d.after e.1).pressedOn id = d.pressedOn id := rfl
  rw [hbase, h.presses, List.append_assoc] at hpressed
  refine ⟨hclock, c', ⟨hattached, hid, hfollows, fun _ hd => ?_, ?_⟩, hsettled⟩
  · rcases hcases with ⟨hway, hest⟩ | ⟨-, -, hrest⟩
    · have hfields := hest
      simp only [Blind.estimate, Blind.Estimate.mk.injEq] at hfields
      rw [hfields.1, hfields.2.1]
      rw [hfields.2.2] at hd
      exact ne_of_not_atTarget hd hway
    · exact absurd hrest hd
  · rw [hpressed]
    congr 1
    rw [htarget]
    by_cases hrest : c.motionDirection = 0
    · -- at rest already: the My press, if any, was made before
      have hdir : c'.motionDirection = 0 := by
        rcases hcases with ⟨-, hest⟩ | ⟨-, -, hdir⟩
        · rw [Blind.movedTo, if_pos hrest] at hest
          exact (congrArg Blind.Estimate.direction hest).trans hrest
        · exact hdir
      rw [if_neg fun ha : Arrives c d'.clock => Blind.not_atTarget_of_rest hrest _ ha.1,
        List.append_nil, hrest, hdir]
    · have hmoving := direction_of_follows h.follows hrest
      have hb₀ : b.motionDirection ≠ 0 := fun h₀ => hrest (hmoving.trans h₀)
      rw [if_neg fun hc => hrest hc.1, List.nil_append]
      rcases hcases with ⟨hway, hest⟩ | ⟨hat, -, hdir⟩
      · have hdir : c'.motionDirection ≠ 0 := by
          have hsame := congrArg Blind.Estimate.direction hest
          rw [show c'.motionDirection = c.motionDirection from
            hsame.trans (c.movedTo_target d'.clock).2]
          exact hrest
        rw [if_neg fun ha : Arrives c d'.clock => hway ha.1, if_neg fun hc => hdir hc.1]
      · simp only [Arrives, hat, hdir, hb₀, true_and, ne_eq, not_false_eq_true]

theorem UnderWay.run {base : List (SomfyButton × UInt16)} {es : List (ℤ × Bool × Bool)}
    (h : UnderWay b base id d k c) (hb : b.Moves) (hes : ∀ e ∈ es, 0 ≤ e.1)
    (hrun : (ticks es).foldlM (turn k) d = some d') :
    d'.clock = d.clock + (es.map (·.1)).sum ∧ ∃ c', UnderWay b base id d' k c' ∧
      (es ≠ [] → c'.estimate = b.settled d'.clock) := by
  induction es generalizing d c with
  | nil =>
      obtain rfl := Option.some.inj hrun
      exact ⟨by simp, c, h, fun hne => absurd rfl hne⟩
  | cons e es ih =>
      rw [ticks, List.map_cons, List.foldlM_cons] at hrun
      obtain ⟨d₁, h₁, hrun⟩ := Option.bind_eq_some_iff.mp hrun
      obtain ⟨hclock, c₁, hunder, hest⟩ := h.tick hb (hes e (by simp)) h₁
      obtain ⟨hclock', c', hunder', hest'⟩ := ih hunder (fun x hx => hes x (by simp [hx])) hrun
      refine ⟨by rw [hclock', hclock, List.map_cons, List.sum_cons, Int.add_assoc], ?_⟩
      by_cases hne : es = []
      · subst hne
        obtain rfl := Option.some.inj hrun
        exact ⟨c₁, hunder, fun _ => hest⟩
      · exact ⟨c', hunder', fun _ => hest' hne⟩

end Device

namespace Blind

variable {b : Blind} {p : Int32} {now t : ℤ}

/-- The microseconds of the whole way, in the direction of a position. -/
def fullTravel (b : Blind) (p : Int32) : ℤ :=
  if b.intermediatePosition > p.toInt ∨ p = 0 then 1000000 * b.closeTime.toInt
  else 1000000 * b.openTime.toInt

theorem percent_full {seconds : Int32} (hs : 0 < seconds.toInt) (ht : 1000000 * seconds.toInt ≤ t) :
    100 ≤ percent t seconds := by
  have hs' : (0 : ℚ) < seconds.toInt := by exact_mod_cast hs
  have ht' : (1000000 : ℚ) * seconds.toInt ≤ t := by exact_mod_cast ht
  calc (100 : ℚ) = 1000000 * seconds.toInt / 1000000 * (100 / seconds.toInt) := by
        field_simp
    _ ≤ t / 1000000 * (100 / seconds.toInt) := by gcongr

/-- After the time for the whole way a moving blind is at its target. -/
theorem Moves.arrives (h : b.Moves) (hdir : b.motionDirection = 1 ∧
      1000000 * b.openTime.toInt ≤ now - b.lastTick ∨
    b.motionDirection = -1 ∧ 1000000 * b.closeTime.toInt ≤ now - b.lastTick) :
    (b.movedTo now).atTarget := by
  have ho := h.openTime
  have hc := h.closeTime
  have hnow : b.lastTick ≤ now := by omega
  have ht₀ : (0 : ℚ) ≤ b.targetPosition.toInt := by exact_mod_cast h.inRange.target.1
  have ht₁ : (b.targetPosition.toInt : ℚ) ≤ 100 := by exact_mod_cast h.inRange.target.2
  obtain ⟨hp₀, hp₁⟩ := h.inRange.position
  have hne : b.motionDirection ≠ 0 := by omega
  rw [Blind.movedTo, if_neg hne]
  rcases hdir with ⟨hd, ht⟩ | ⟨hd, ht⟩
  · have hfull := percent_full ho ht
    refine .inl ⟨by simp only; omega, ?_⟩
    change (b.targetPosition.toInt : ℚ) ≤ b.travel now
    rw [h.travel_up hd hnow, min_eq_left (by linarith)]
    exact ht₁
  · have hfull := percent_full hc ht
    refine .inr ⟨by simp only; omega, ?_⟩
    change b.travel now ≤ (b.targetPosition.toInt : ℚ)
    rw [h.travel_down hd hnow, max_eq_left (by linarith)]
    exact ht₀

theorem upPressed (b : Blind) (long : Bool) (now : ℤ) : b.buttonsPressed .up long now =
    { b with targetPosition := 100, motionDirection := 1 }.touch now := if_pos rfl

theorem downPressed (b : Blind) (long : Bool) (now : ℤ) : b.buttonsPressed .down long now =
    { b with targetPosition := 0, motionDirection := -1 }.touch now :=
  (if_neg (by decide)).trans (if_pos rfl)

/-- The command for a position, on a blind at rest: it is there already, or a motion
starts that has arrived after the time for the whole way. -/
theorem goesTo_rest (h : b.Moves) (hrest : b.motionDirection = 0) (p : Int32) (now : ℤ) :
    (b.goesTo p now true).targetPosition = p ∧
      ((b.intermediatePosition = p.toInt ∧ p ≠ 0 ∧ p ≠ 100 ∧
          (b.goesTo p now true).motionDirection = 0 ∧
          (b.goesTo p now true).intermediatePosition = p.toInt) ∨
        (¬(b.intermediatePosition = p.toInt ∧ p ≠ 0 ∧ p ≠ 100) ∧
          (b.goesTo p now true).motionDirection ≠ 0 ∧
          (b.goesTo p now true).intermediatePosition = b.intermediatePosition ∧
          ((b.goesTo p now true).Moves → ∀ t, now + b.fullTravel p ≤ t →
            ((b.goesTo p now true).movedTo t).atTarget))) := by
  have hone := one_press h.inRange.position (p := p)
  rcases goesTo_cases h.inRange.position p now with ⟨hc, -, heq⟩ | ⟨hc, -, heq⟩ | ⟨hat, h₀, h₁, heq⟩
  · rw [heq, downPressed]
    refine ⟨rfl, .inr ⟨?_, by simp [touch], rfl, fun hm t ht => hm.arrives (.inr ⟨rfl, ?_⟩)⟩⟩
    · rintro ⟨heq, h₀, -⟩
      exact hc.elim (fun hlt => absurd heq hlt.ne') h₀
    · rw [fullTravel, if_pos hc] at ht
      simp only [touch]
      omega
  · rw [heq, upPressed]
    refine ⟨rfl, .inr ⟨?_, by simp [touch], rfl, fun hm t ht => hm.arrives (.inl ⟨rfl, ?_⟩)⟩⟩
    · rintro ⟨heq, -, h₁⟩
      exact hc.elim (fun hlt => absurd heq hlt.ne) h₁
    · rw [fullTravel, if_neg fun hc' => hone ⟨hc', hc⟩] at ht
      simp only [touch]
      omega
  · rw [heq]
    exact ⟨rfl, .inl ⟨hat, h₀, h₁, hrest, hat⟩⟩

end Blind

namespace Device

variable {d d' : Device} {k : UInt32} {b : Blind}

/-- The commands of a whole run to a position. -/
def commandsTo (b : Blind) (p : Int32) : List (SomfyButton × UInt16) :=
  if p = 0 then [(.down, shortPress)]
  else if p = 100 then [(.up, shortPress)]
  else if b.intermediatePosition = p.toInt then []
  else if b.intermediatePosition > p.toInt then [(.down, shortPress), (.my, shortPress)]
  else [(.up, shortPress), (.my, shortPress)]

/-- Right after the command the blind is on its way, with nothing but the first press. -/
theorem Attached.underWay (h : d.Attached k b) (hrest : b.motionDirection = 0) {position : Int32}
    (hstep : d.goToPosition k position = some d') :
    d'.clock = d.clock ∧
      (b.goesTo (clampPosition position) d.clock true).Moves ∧
      UnderWay (b.goesTo (clampPosition position) d.clock true)
        (d.pressedOn (d.heap b.remote).remoteId ++ startPress b (clampPosition position))
        (d.heap b.remote).remoteId d' k (b.goesTo (clampPosition position) d.clock true) := by
  obtain ⟨hclock, hattached, hremote⟩ := h.callBlind (c := .goToPosition position) hstep
  change d'.Attached k (b.goesTo (clampPosition position) d.clock true) at hattached
  change (b.goesTo (clampPosition position) d.clock true).remote = b.remote at hremote
  have hpressed := goToPosition_pressedOn h.blind h.moves.inRange.position rfl hstep
  obtain ⟨htarget, hcases⟩ := Blind.goesTo_rest h.moves hrest (clampPosition position) d.clock
  refine ⟨hclock, hattached.moves, hattached, ?_, Blind.follows_refl hattached.moves, ?_, ?_⟩
  · rw [hremote, ((Reacts.goToPosition hstep).remote b.remote).fields.1]
  · intro hin hd heq
    rcases hcases with ⟨-, -, -, h₀, -⟩ | ⟨hnot, -, hpos, -⟩
    · exact hd h₀
    · rw [htarget] at hin heq
      refine hnot ⟨hpos.symm.trans heq, ?_, ?_⟩
      · rintro h₀
        rw [h₀] at hin
        exact absurd hin.2 (by decide)
      · rintro h₁
        rw [h₁] at hin
        exact absurd hin.1 (by decide)
  · rw [hpressed, if_neg fun hc => hc.2.1 hc.1, List.append_nil]

theorem inside_iff {p : Int32} (hp : 0 ≤ p.toInt ∧ p.toInt ≤ 100) :
    p < 100 ∧ p > 0 ↔ p ≠ 0 ∧ p ≠ 100 := by
  have hzero : p = 0 ↔ p.toInt = 0 := ⟨fun h => by rw [h]; rfl, fun h => Int32.toInt_inj.mp h⟩
  have hfull : p = 100 ↔ p.toInt = 100 := ⟨fun h => by rw [h]; rfl, fun h => Int32.toInt_inj.mp h⟩
  rw [gt_iff_lt, Int32.lt_iff_toInt_lt, Int32.lt_iff_toInt_lt, ne_eq, ne_eq, hzero, hfull,
    show (100 : Int32).toInt = 100 from rfl, show (0 : Int32).toInt = 0 from rfl]
  omega

/-- The whole run, told as its first press and the My press at the end. -/
theorem commandsTo_eq (hx : 0 ≤ b.intermediatePosition ∧ b.intermediatePosition ≤ 100)
    {p : Int32} (hp : 0 ≤ p.toInt ∧ p.toInt ≤ 100) :
    commandsTo b p = startPress b p ++
      if b.intermediatePosition ≠ p.toInt ∧ p < 100 ∧ p > 0 then [(.my, shortPress)] else [] := by
  simp only [inside_iff hp]
  unfold commandsTo startPress
  by_cases h₀ : p = 0
  · simp [h₀]
  by_cases h₁ : p = 100
  · have hnot : ¬(b.intermediatePosition > p.toInt ∨ p = 0) := by
      rw [h₁, show ((100 : Int32).toInt : ℚ) = 100 from rfl]
      exact not_or.mpr ⟨not_lt.mpr hx.2, by decide⟩
    rw [if_neg h₀, if_pos h₁, if_neg hnot, if_pos (.inr h₁), if_neg fun hc => hc.2.2 h₁,
      List.append_nil]
  rw [if_neg h₀, if_neg h₁]
  simp only [h₀, h₁, or_false, ne_eq, not_false_eq_true, and_true]
  rcases lt_trichotomy b.intermediatePosition p.toInt with hlt | heq | hgt
  · rw [if_neg hlt.ne, if_neg (not_lt.mpr hlt.le), if_neg (not_lt.mpr hlt.le), if_pos hlt,
      if_pos hlt.ne]
    rfl
  · rw [if_pos heq, if_neg (not_lt.mpr heq.le), if_neg (not_lt.mpr heq.ge),
      if_neg fun hc => hc heq, List.append_nil]
  · rw [if_neg hgt.ne', if_pos hgt, if_pos hgt, if_pos hgt.ne']
    rfl

theorem fullTravel_pos (h : b.Moves) (p : Int32) : 0 < b.fullTravel p := by
  have ho := h.openTime
  have hc := h.closeTime
  unfold Blind.fullTravel
  split_ifs <;> omega

/-- With My pressed at most once, the estimate tells whether it was. -/
theorem UnderWay.my_iff {c : Blind} {base : List (SomfyButton × UInt16)} {id : UInt32}
    {b₀ : Blind} (h : UnderWay b₀ base id d k c)
    (hmoving : b₀.motionDirection ≠ 0)
    (hin : c.targetPosition < 100 ∧ c.targetPosition > 0) :
    d.pressedOn id = base ++
      if c.intermediatePosition = c.targetPosition.toInt then [(.my, shortPress)] else [] := by
  have hiff : c.motionDirection = 0 ↔ c.intermediatePosition = c.targetPosition.toInt := by
    constructor
    · intro hd
      rcases h.follows.place with hplace | ⟨hpos, -, -⟩
      · have hdir := congrArg Blind.Estimate.direction hplace
        exact absurd (((b₀.movedTo_target c.lastTick).2).symm.trans (hdir.symm.trans hd)) hmoving
      · rw [hpos, h.follows.target]
    · exact fun heq => by_contra fun hd => h.short hin hd heq
  rw [h.presses]
  simp only [hiff, hmoving, hin, ne_eq, not_false_eq_true, and_true]

/-- A position command on a blind at rest, followed by ticks over the full travel time:
the blind rests at the position, and the commands pressed are those for the way there.
Inside the range My is pressed at the tick at which the estimate arrives. -/
theorem goToPosition_completes (h : d.Attached k b) (hrest : b.motionDirection = 0)
    (position : Int32) {es : List (ℤ × Bool × Bool)} (hes : ∀ e ∈ es, 0 ≤ e.1)
    (hlong : b.fullTravel (clampPosition position) ≤ (es.map (·.1)).sum) :
    (d.Reaches b.remote → ∃ d', d.positionRun k position es = some d') ∧
    ∀ d', d.positionRun k position es = some d' →
      (∃ b', d'.blinds[k]? = some b' ∧ b'.estimate =
        ⟨(clampPosition position).toInt, clampPosition position, 0⟩) ∧
      d'.pressedOn (d.heap b.remote).remoteId =
        d.pressedOn (d.heap b.remote).remoteId ++ commandsTo b (clampPosition position) ∧
      (clampPosition position ≠ 0 → clampPosition position ≠ 100 →
        b.intermediatePosition ≠ (clampPosition position).toInt →
        ∀ fs, fs <+: es → ∀ d₁, d.positionRun k position fs = some d₁ →
          ∃ b₁, d₁.blinds[k]? = some b₁ ∧ d₁.pressedOn (d.heap b.remote).remoteId =
            d.pressedOn (d.heap b.remote).remoteId ++ startPress b (clampPosition position) ++
              if b₁.intermediatePosition = (clampPosition position).toInt
                then [(.my, shortPress)] else []) := by
  have hp := Reacts.clampPosition_bounds position
  obtain ⟨htarget, hcases⟩ := Blind.goesTo_rest h.moves hrest (clampPosition position) d.clock
  refine ⟨fun hr => ?_, fun d' hrun => ?_⟩
  · obtain ⟨d₀, h₀⟩ := callBlind_total h.blind hr (.goToPosition position)
    obtain ⟨-, hattached, hremote⟩ := h.callBlind h₀
    obtain ⟨d', hd'⟩ := hattached.total
      (by rw [hremote]; exact (Reacts.callBlind h₀).reaches hr) fun e (he : e ∈ ticks es) => by
        obtain ⟨x, hx, rfl⟩ := List.mem_map.mp he
        exact hes x hx
    exact ⟨d', by rw [positionRun]; exact Option.bind_eq_some_iff.mpr ⟨d₀, h₀, hd'⟩⟩
  · obtain ⟨d₀, h₀, hticks⟩ := Option.bind_eq_some_iff.mp hrun
    obtain ⟨hclock₀, hmoves, hunder⟩ := h.underWay hrest h₀
    obtain ⟨hclock, b', hunder', hsettled⟩ := hunder.run hmoves hes hticks
    have hne : es ≠ [] := by
      rintro rfl
      exact absurd (fullTravel_pos h.moves (clampPosition position)) (not_lt.mpr hlong)
    have hest : b'.estimate = ⟨(clampPosition position).toInt, clampPosition position, 0⟩ := by
      rw [hsettled hne, Blind.settled]
      rcases hcases with ⟨-, -, -, hstill, hpos⟩ | ⟨-, -, -, harrives⟩
      · rw [if_neg (Blind.not_atTarget_of_rest hstill _), Blind.movedTo, if_pos hstill,
          Blind.estimate, htarget, hstill, hpos]
      · rw [if_pos (harrives hmoves _ (by omega)), htarget]
    have hfields := hest
    simp only [Blind.estimate, Blind.Estimate.mk.injEq] at hfields
    refine ⟨⟨b', hunder'.attached.blind, hest⟩, ?_, fun h₁ h₂ hne fs hfs d₁ hrun₁ => ?_⟩
    · rw [hunder'.presses, hfields.2.1, hfields.2.2, commandsTo_eq h.moves.inRange.position hp,
        List.append_assoc]
      congr 2
      refine if_congr ?_ rfl rfl
      rw [inside_iff hp]
      rcases hcases with ⟨heq, -, -, hstill, -⟩ | ⟨hnot, hmoving, -⟩
      · exact ⟨fun hc => absurd hstill hc.2.1, fun hc => absurd heq hc.1⟩
      · exact ⟨fun hc => ⟨fun heq => hnot ⟨heq, hc.2.2⟩, hc.2.2⟩, fun hc => ⟨rfl, hmoving, hc.2⟩⟩
    · obtain ⟨d₀', h₀', hticks₁⟩ := Option.bind_eq_some_iff.mp hrun₁
      cases h₀.symm.trans h₀'
      obtain ⟨-, b₁, hunder₁, -⟩ := hunder.run hmoves (fun e he => hes e (hfs.subset he)) hticks₁
      have hmoving : (b.goesTo (clampPosition position) d.clock true).motionDirection ≠ 0 := by
        rcases hcases with ⟨heq, -⟩ | ⟨-, hmoving, -⟩
        · exact absurd heq hne
        · exact hmoving
      have htarget₁ := hunder₁.follows.target.trans htarget
      have hin : b₁.targetPosition < 100 ∧ b₁.targetPosition > 0 := by
        rw [htarget₁]
        exact (inside_iff hp).mpr ⟨h₁, h₂⟩
      refine ⟨b₁, hunder₁.attached.blind, ?_⟩
      rw [hunder₁.my_iff hmoving hin, htarget₁]

/-- A blind at 90 is sent to 40: it closes, and is stopped on its way. -/
theorem goToPosition_completes_salon : ∃ d' b',
    salon.positionRun 1 40 [(5000000, true, true), (4000000, true, false), (3000000, false, true)] =
        some d' ∧ d'.blinds[(1 : UInt32)]? = some b' ∧ b'.estimate = ⟨40, 40, 0⟩ ∧
      d'.pressedOn 0x270001 = [(.down, shortPress), (.my, shortPress)] := by
  have hmoves : (Blind.create false 0 1 (ascii "salon") 90 50 10 12 0).Moves :=
    ⟨⟨by decide, by decide, by decide +kernel⟩, by decide, by decide⟩
  have hattached : salon.Attached 1 (.create false 0 1 (ascii "salon") 90 50 10 12 0) :=
    ⟨salon_blind, by decide, by decide, hmoves, le_rfl⟩
  have hrun := goToPosition_completes hattached rfl 40
    (show ∀ e ∈ [(5000000, true, true), (4000000, true, false), (3000000, false, true)], 0 ≤ e.1
      by decide) (by decide +kernel)
  obtain ⟨d', hd'⟩ := hrun.1 salon_reaches
  obtain ⟨⟨b', hb', hest⟩, hpressed, -⟩ := hrun.2 d' hd'
  refine ⟨d', b', hd', hb', hest, hpressed.trans ?_⟩
  decide +kernel

end Device

end PicoSomfy
