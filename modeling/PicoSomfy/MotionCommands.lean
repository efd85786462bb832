import PicoSomfy.Presses

/-!
# The motion of a commanded blind

Every command of a blind goes through its primary remote, whose press comes back to
the blind through `ButtonsPressed`; `UpdatePosition` presses its own My button when the
blind arrives inside the range. What all calls together keep is `Steered`: positions
stay in their range, a moving blind has its target ahead, and a blind at rest is where
it should be.

Here `UpdatePosition` may run at any time, not only when the refresh timer is due.
-/
namespace PicoSomfy

/-- The methods that move a blind, and a press of any remote it listens to. -/
inductive BlindCall where
  | goToPosition (position : Int32)
  | goUp
  | goDown
  | stop
  | goToMyPosition
  | saveMyPosition
  | buttonsPressed (button : SomfyButton) (long : Bool)
  | updatePosition (position state : Bool)
  deriving DecidableEq

namespace Device

/-- `Blind::GoToMyPosition` -/
def goToMyPosition (d : Device) (k : UInt32) : Option Device :=
  (d.blinds[k]?).bind fun b =>
    if b.motionDirection ≠ 0 then some d else d.pressButtons b.remote .my shortPress

/-- `Blind::SaveMyPosition` -/
def saveMyPosition (d : Device) (k : UInt32) : Option Device :=
  (d.blinds[k]?).bind fun b =>
    if b.motionDirection = 0 then d.pressButtons b.remote .my longPress else some d

/-- `Blind::UpdatePosition`, which only the refresh timer calls. The last two arguments
are the results of publishing. -/
def updatePosition (d : Device) (k : UInt32) (position state : Bool) : Option Device :=
  (d.blinds[k]?).bind fun b =>
    ((d.modifyBlind k fun b => { b with refreshTimer := none }).moveBlind k b).map fun d =>
      d.modifyBlind k fun b =>
        b.finishTick d.clock (Blind.publishPosition d.mqttEnabled position state)

/-- `Blind::ButtonsPressed`, as the remotes call it. -/
def blindPressed (d : Device) (k : UInt32) (button : SomfyButton) (long : Bool) : Option Device :=
  (d.blinds[k]?).map fun _ => d.modifyBlind k fun b => b.buttonsPressed button long d.clock

def callBlind (d : Device) (k : UInt32) : BlindCall → Option Device
  | .goToPosition position => d.goToPosition k position
  | .goUp => d.goUp k
  | .goDown => d.goDown k
  | .stop => d.stop k
  | .goToMyPosition => d.goToMyPosition k
  | .saveMyPosition => d.saveMyPosition k
  | .buttonsPressed button long => d.blindPressed k button long
  | .updatePosition position state => d.updatePosition k position state

def after (d : Device) (elapsed : ℤ) : Device := { d with clock := d.clock + elapsed }

/-- One call, some time after the one before. -/
def turn (k : UInt32) (d : Device) (e : ℤ × BlindCall) : Option Device :=
  (d.after e.1).callBlind k e.2

end Device

namespace Blind

/-- A press of the primary remote. -/
def primaryPressed (b : Blind) (button : SomfyButton) (long : Bool) (now : ℤ) (listens : Bool) :
    Blind :=
  if listens then b.buttonsPressed button long now else b

def goesTo (b : Blind) (position : Int32) (now : ℤ) (listens : Bool) : Blind :=
  let first := if b.intermediatePosition > position.toInt ∨ position = 0 then
    b.primaryPressed .down false now listens else b
  let second := if first.intermediatePosition < position.toInt ∨ position = 100 then
    first.primaryPressed .up false now listens else first
  { second with targetPosition := position }

/-- What a call makes of the blind it is for. -/
def obeys (b : Blind) (now : ℤ) (listens mqttEnabled : Bool) : BlindCall → Blind
  | .goToPosition position => b.goesTo (Device.clampPosition position) now listens
  | .goUp => b.primaryPressed .up false now listens
  | .goDown => b.primaryPressed .down false now listens
  | .stop => b.stopped now listens
  | .goToMyPosition =>
      if b.motionDirection ≠ 0 then b else b.primaryPressed .my false now listens
  | .saveMyPosition =>
      if b.motionDirection = 0 then b.primaryPressed .my true now listens else b
  | .buttonsPressed button long => b.buttonsPressed button long now
  | .updatePosition position state =>
      b.updatePosition now listens (publishPosition mqttEnabled position state)

end Blind

namespace Device

variable {d d' : Device} {k : UInt32} {b : Blind}

namespace Reacts

theorem callBlind {c : BlindCall} (h : d.callBlind k c = some d') : d.Reacts d' := by
  cases c with
  | goToPosition position => exact goToPosition h
  | goUp => exact go h
  | goDown => exact go h
  | stop => exact stop h
  | goToMyPosition =>
      obtain ⟨b, -, h⟩ := Option.bind_eq_some_iff.mp h
      split_ifs at h
      · exact Option.some.inj h ▸ refl d
      · exact pressButtons h
  | saveMyPosition =>
      obtain ⟨b, -, h⟩ := Option.bind_eq_some_iff.mp h
      split_ifs at h
      · exact pressButtons h
      · exact Option.some.inj h ▸ refl d
  | buttonsPressed button long =>
      obtain ⟨b, -, rfl⟩ := Option.map_eq_some_iff.mp h
      exact modifyBlind d k _ fun b _ => b.reacts_buttonsPressed button long d.clock
  | updatePosition position state =>
      obtain ⟨b, -, h⟩ := Option.bind_eq_some_iff.mp h
      obtain ⟨e, he, rfl⟩ := Option.map_eq_some_iff.mp h
      exact (retime d k _ fun _ => rfl).trans ((moveBlind he).trans (retime e k _ fun _ => rfl))

end Reacts

/-- A press reacts on the blinds and leaves the lists of the remotes. -/
theorem Reacts.listens (h : d.Reacts d') {b' : Blind} (hremote : b'.remote = b.remote) :
    d'.listens k b' = d.listens k b := by
  unfold Device.listens
  rw [hremote, (h.remote b.remote).fields.2.2.1]

theorem primaryPressed_blind {button : SomfyButton} {repeats : UInt16}
    (hb : d.blinds[k]? = some b) (hn : (d.heap b.remote).associatedBlinds.Nodup)
    (h : d.pressButtons b.remote button repeats = some d') :
    d'.clock = d.clock ∧
      d'.blinds[k]? = some (b.primaryPressed button (repeats > shortPress) d.clock (d.listens k b)) := by
  obtain ⟨hclock, hblind⟩ := pressButtons_blind h hn k
  refine ⟨hclock, ?_⟩
  rw [hblind, hb, Option.map_some]
  simp only [Blind.primaryPressed, listens, decide_eq_true_eq]

theorem remote_primaryPressed (b : Blind) (button : SomfyButton) (long : Bool) (now : ℤ)
    (listens : Bool) : (b.primaryPressed button long now listens).remote = b.remote := by
  unfold Blind.primaryPressed
  split_ifs
  · exact (Prod.ext_iff.mp (b.reacts_buttonsPressed button long now).link).2
  · rfl

theorem goWhen_blind {button : SomfyButton} {cond : Blind → Bool} (hb : d.blinds[k]? = some b)
    (hn : (d.heap b.remote).associatedBlinds.Nodup) (h : d.goWhen k button cond = some d') :
    d'.clock = d.clock ∧ d'.blinds[k]? =
      some (if cond b then b.primaryPressed button false d.clock (d.listens k b) else b) := by
  rcases goWhen_cases hb h with ⟨hc, hpress⟩ | ⟨hc, rfl⟩
  · rw [hc, if_pos rfl]
    exact primaryPressed_blind hb hn hpress
  · rw [hc, if_neg (by simp)]
    exact ⟨rfl, hb⟩

theorem goToPosition_blind {position : Int32} (hb : d.blinds[k]? = some b)
    (hn : (d.heap b.remote).associatedBlinds.Nodup) (h : d.goToPosition k position = some d') :
    d'.clock = d.clock ∧
      d'.blinds[k]? = some (b.goesTo (clampPosition position) d.clock (d.listens k b)) := by
  obtain ⟨d₁, h₁, h⟩ := Option.bind_eq_some_iff.mp h
  obtain ⟨d₂, h₂, rfl⟩ := Option.map_eq_some_iff.mp h
  obtain ⟨hclock₁, hb₁⟩ := goWhen_blind hb hn h₁
  simp only [Bool.or_eq_true, decide_eq_true_eq] at hb₁
  set first := if b.intermediatePosition > (clampPosition position).toInt ∨
    clampPosition position = 0 then b.primaryPressed .down false d.clock (d.listens k b) else b
    with hfirst
  have hremote : first.remote = b.remote := by
    rw [hfirst]
    split_ifs
    · exact remote_primaryPressed ..
    · rfl
  have hreacts := Reacts.goWhen h₁
  have hn₁ : (d₁.heap first.remote).associatedBlinds.Nodup := by
    rw [hremote, (hreacts.remote b.remote).fields.2.2.1]
    exact hn
  obtain ⟨hclock₂, hb₂⟩ := goWhen_blind hb₁ hn₁ h₂
  simp only [Bool.or_eq_true, decide_eq_true_eq] at hb₂
  refine ⟨hclock₂.trans hclock₁, ?_⟩
  rw [modifyBlind_self, hb₂, Option.map_some, hreacts.listens hremote, hclock₁]
  rfl

/-- A call does to its blind what `obeys` says. -/
theorem callBlind_blind {c : BlindCall} (hb : d.blinds[k]? = some b)
    (hn : (d.heap b.remote).associatedBlinds.Nodup) (h : d.callBlind k c = some d') :
    d'.clock = d.clock ∧
      d'.blinds[k]? = some (b.obeys d.clock (d.listens k b) d.mqttEnabled c) := by
  cases c with
  | goToPosition position => exact goToPosition_blind hb hn h
  | goUp => exact primaryPressed_blind hb hn (go_press hb h)
  | goDown => exact primaryPressed_blind hb hn (go_press hb h)
  | stop => exact stop_blind hb hn h
  | goToMyPosition =>
      obtain ⟨b', hb', h⟩ := Option.bind_eq_some_iff.mp h
      cases hb.symm.trans hb'
      simp only [Blind.obeys]
      split_ifs at h ⊢
      · exact ⟨(Option.some.inj h) ▸ rfl, (Option.some.inj h) ▸ hb⟩
      · exact primaryPressed_blind hb hn h
  | saveMyPosition =>
      obtain ⟨b', hb', h⟩ := Option.bind_eq_some_iff.mp h
      cases hb.symm.trans hb'
      simp only [Blind.obeys]
      split_ifs at h ⊢
      · exact primaryPressed_blind hb hn h
      · exact ⟨(Option.some.inj h) ▸ rfl, (Option.some.inj h) ▸ hb⟩
  | buttonsPressed button long =>
      obtain ⟨b', hb', rfl⟩ := Option.map_eq_some_iff.mp h
      refine ⟨rfl, ?_⟩
      rw [modifyBlind_self, hb, Option.map_some]
      rfl
  | updatePosition position state =>
      obtain ⟨b', hb', h⟩ := Option.bind_eq_some_iff.mp h
      cases hb.symm.trans hb'
      obtain ⟨e, he, rfl⟩ := Option.map_eq_some_iff.mp h
      have hstart : (d.modifyBlind k fun b => { b with refreshTimer := none }).blinds[k]? =
          some { b with refreshTimer := none } := by
        rw [modifyBlind_self, hb, Option.map_some]
      obtain ⟨hclock, hblind⟩ := moveBlind_blind hstart rfl hn he
      have hclock' : e.clock = d.clock := hclock
      have hmqtt : e.mqttEnabled = d.mqttEnabled := (Reacts.moveBlind he).mqttEnabled
      refine ⟨hclock', ?_⟩
      rw [modifyBlind_self, hblind, Option.map_some, hclock', hmqtt]
      rfl

theorem goWhen_total (button : SomfyButton) (cond : Blind → Bool) (hb : d.blinds[k]? = some b)
    (hp : d.Reaches b.remote) : ∃ d', d.goWhen k button cond = some d' := by
  unfold goWhen go
  rw [hb, Option.bind_some]
  split_ifs
  · exact pressButtons_total hp button shortPress
  · exact ⟨d, rfl⟩

theorem stop_total (hb : d.blinds[k]? = some b) (hp : d.Reaches b.remote) :
    ∃ d', d.stop k = some d' := by
  unfold Device.stop
  rw [hb, Option.bind_some]
  split_ifs
  · exact pressButtons_total hp .my shortPress
  · exact ⟨d, rfl⟩

theorem moveBlindBy_total (travel : Blind → ℤ → ℚ) (hb : d.blinds[k]? = some b)
    (hp : d.Reaches b.remote) (c : Blind) : ∃ d', d.moveBlindBy travel k c = some d' := by
  unfold Device.moveBlindBy
  split_ifs
  · exact ⟨d, rfl⟩
  · have harrived : (d.modifyBlind k fun b =>
        { b with intermediatePosition := b.targetPosition.toInt }).blinds[k]? =
        some { b with intermediatePosition := b.targetPosition.toInt } := by
      rw [modifyBlind_self, hb, Option.map_some]
    have hp' : (d.modifyBlind k fun b =>
        { b with intermediatePosition := b.targetPosition.toInt }).Reaches b.remote :=
      fun i hi => Std.ExtTreeMap.mem_modify.mpr (hp i hi)
    obtain ⟨e, he⟩ := stop_total harrived hp'
    refine ⟨e.modifyBlind k fun b => { b with motionDirection := 0 }, ?_⟩
    simp only [he, Option.map_some]
  · exact ⟨_, rfl⟩
  · exact ⟨_, rfl⟩

/-- When the blinds of its primary remote exist, no call on a blind fails. -/
theorem callBlind_total (hb : d.blinds[k]? = some b) (hp : d.Reaches b.remote) (c : BlindCall) :
    ∃ d', d.callBlind k c = some d' := by
  cases c with
  | goToPosition position =>
      obtain ⟨d₁, h₁⟩ := goWhen_total .down
        (fun b => b.intermediatePosition > (clampPosition position).toInt ||
          clampPosition position = 0) hb hp
      obtain ⟨b₁, hb₁, hremote⟩ : ∃ b₁, d₁.blinds[k]? = some b₁ ∧ b₁.remote = b.remote := by
        rcases goWhen_cases hb h₁ with ⟨-, hpress⟩ | ⟨-, rfl⟩
        · have hsame := pressButtons_place hpress k
          rw [hb, Option.map_some] at hsame
          obtain ⟨b₁, hb₁, heq⟩ := Option.map_eq_some_iff.mp hsame
          exact ⟨b₁, hb₁, (Prod.ext_iff.mp heq).1⟩
        · exact ⟨b, hb, rfl⟩
      obtain ⟨d₂, h₂⟩ := goWhen_total .up
        (fun b => b.intermediatePosition < (clampPosition position).toInt ||
          clampPosition position = 100) hb₁ (by rw [hremote]; exact (Reacts.goWhen h₁).reaches hp)
      refine ⟨d₂.modifyBlind k fun b => { b with targetPosition := clampPosition position }, ?_⟩
      change (d.goToPosition k position) = _
      unfold Device.goToPosition
      simp only [h₁, h₂, Option.bind_some, Option.map_some]
  | goUp =>
      unfold callBlind goUp go
      rw [hb, Option.bind_some]
      exact pressButtons_total hp .up shortPress
  | goDown =>
      unfold callBlind goDown go
      rw [hb, Option.bind_some]
      exact pressButtons_total hp .down shortPress
  | stop => exact stop_total hb hp
  | goToMyPosition =>
      unfold callBlind goToMyPosition
      rw [hb, Option.bind_some]
      split_ifs
      · exact ⟨d, rfl⟩
      · exact pressButtons_total hp .my shortPress
  | saveMyPosition =>
      unfold callBlind saveMyPosition
      rw [hb, Option.bind_some]
      split_ifs
      · exact pressButtons_total hp .my longPress
      · exact ⟨d, rfl⟩
  | buttonsPressed button long =>
      unfold callBlind blindPressed
      rw [hb]
      exact ⟨_, rfl⟩
  | updatePosition position state =>
      have hstart : (d.modifyBlind k fun b => { b with refreshTimer := none }).blinds[k]? =
          some { b with refreshTimer := none } := by
        rw [modifyBlind_self, hb, Option.map_some]
      have hp' : (d.modifyBlind k fun b => { b with refreshTimer := none }).Reaches b.remote :=
        fun i hi => Std.ExtTreeMap.mem_modify.mpr (hp i hi)
      obtain ⟨e, he⟩ : ∃ e,
          (d.modifyBlind k fun b => { b with refreshTimer := none }).moveBlind k b = some e :=
        moveBlindBy_total Blind.travel hstart hp' b
      change ∃ d', d.updatePosition k position state = some d'
      unfold updatePosition
      rw [hb, Option.bind_some, he]
      exact ⟨_, rfl⟩

end Device

end PicoSomfy
