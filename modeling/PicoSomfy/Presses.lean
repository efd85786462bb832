import PicoSomfy.BlindMotion

/-!
# What a press of a remote does

`PressButtons` makes a command, hands it to the queue and tells the blinds of the
remote, one after the other. The lemmas say what has happened afterwards: the entry
in the queue, the new rolling code and the notes of the observer, whether or not the
queue took the command.
-/
namespace PicoSomfy

namespace Device

variable {d d' : Device}

/-- The command of the next press of a remote. -/
def nextCommand (d : Device) (p : ℕ) (buttons : SomfyButton) (repeats : UInt16) : SomfyCommand :=
  ⟨(d.heap p).remoteId, (d.heap p).rollingCode, repeats, buttons⟩

/-- The blinds change and the observer notes that they were told; nothing else does. -/
theorem tells_eq {command : SomfyCommand} {long : Bool} {ks : List UInt16}
    (h : ks.foldlM (tell command long) d = some d') :
    d' = { d with
      blinds := d'.blinds
      history := d.history ++ ks.map fun k => .told k command } := by
  induction ks generalizing d with
  | nil =>
      simp only [List.foldlM_nil, Option.pure_def, Option.some.injEq] at h
      subst h
      simp only [List.map_nil, List.append_nil]
  | cons k ks ih =>
      rw [List.foldlM_cons] at h
      obtain ⟨e, he, h⟩ := Option.bind_eq_some_iff.mp h
      have hrest := ih h
      simp only [tell, Option.ite_none_right_eq_some, Option.some.injEq] at he
      obtain ⟨-, rfl⟩ := he
      rw [hrest]
      simp only [note, modifyBlind, List.map_cons, List.append_assoc, List.singleton_append]

/-- What a press leaves of a blind: the place it is thought to be at. -/
theorem tells_place {command : SomfyCommand} {long : Bool} {ks : List UInt16}
    (h : ks.foldlM (tell command long) d = some d') (k : UInt32) :
    (d'.blinds[k]?).map (fun b => (b.remote, b.intermediatePosition)) =
      (d.blinds[k]?).map fun b => (b.remote, b.intermediatePosition) := by
  refine Transitions.foldlM_keeps
    (R := fun (s t : Device) => (t.blinds[k]?).map (fun b => (b.remote, b.intermediatePosition)) =
      (s.blinds[k]?).map fun b => (b.remote, b.intermediatePosition))
    (fun _ => rfl) (fun hst htu => htu.trans hst) (fun {s i t} ht => ?_) h
  rw [(tell_blind ht k).2, Option.map_map]
  congr 1
  funext b
  simp only [Function.comp_apply]
  split_ifs
  · have hlink := (b.reacts_buttonsPressed command.button long s.clock).link
    have hremote : (b.buttonsPressed command.button long s.clock).remote = b.remote :=
      (Prod.ext_iff.mp hlink).2
    rw [Blind.press_position, hremote]
  · rfl

/-- Every lookup succeeds when all the ids are those of blinds. -/
theorem tells_total {ks : List UInt16} (h : ∀ i ∈ ks, i.toUInt32 ∈ d.blinds)
    (command : SomfyCommand) (long : Bool) : ∃ d', ks.foldlM (tell command long) d = some d' := by
  obtain ⟨d', hd', -⟩ := Transitions.foldlM_total (f := tell command long)
    (I := fun e => ∀ k, k ∈ d.blinds → k ∈ e.blinds)
    (fun {e i} (hi : i ∈ ks) he => by
      have hmem := he _ (h i hi)
      refine ⟨_, if_pos hmem, fun k hk => ?_⟩
      exact Std.ExtTreeMap.mem_modify.mpr (he k hk)) (fun _ hk => hk)
  exact ⟨d', hd'⟩

/-- The blinds that a remote lists all exist. -/
def Reaches (d : Device) (p : ℕ) : Prop :=
  ∀ i ∈ (d.heap p).associatedBlinds, i.toUInt32 ∈ d.blinds

theorem pressButtons_total {p : ℕ} (h : d.Reaches p) (buttons : SomfyButton) (repeats : UInt16) :
    ∃ d', d.pressButtons p buttons repeats = some d' :=
  tells_total (d := { (d.modifyRemote p SomfyRemote.advance).note (.pressed
    (d.nextCommand p buttons repeats) (d.radio.queueCommand (d.nextCommand p buttons repeats)).1)
    with radio := (d.radio.queueCommand (d.nextCommand p buttons repeats)).2 }) h _ _

theorem Reacts.reaches (h : d.Reacts d') {p : ℕ} (hp : d.Reaches p) : d'.Reaches p := by
  intro i hi
  rw [(h.remote p).fields.2.2.1] at hi
  exact h.sameRegistry.mem_blinds.mpr (hp i hi)

theorem pressButtons_eq {p : ℕ} {buttons : SomfyButton} {repeats : UInt16}
    (h : d.pressButtons p buttons repeats = some d') :
    d' = { d.modifyRemote p SomfyRemote.advance with
      blinds := d'.blinds
      radio := (d.radio.queueCommand (d.nextCommand p buttons repeats)).2
      history := d.history ++
        .pressed (d.nextCommand p buttons repeats)
            (d.radio.queueCommand (d.nextCommand p buttons repeats)).1 ::
          (d.heap p).associatedBlinds.map fun k => .told k (d.nextCommand p buttons repeats) } := by
  have htells := tells_eq h
  rw [htells]
  simp only [note, modifyRemote, nextCommand, List.append_assoc, List.singleton_append]

theorem pressButtons_place {p : ℕ} {buttons : SomfyButton} {repeats : UInt16}
    (h : d.pressButtons p buttons repeats = some d') (k : UInt32) :
    (d'.blinds[k]?).map (fun b => (b.remote, b.intermediatePosition)) =
      (d.blinds[k]?).map fun b => (b.remote, b.intermediatePosition) := tells_place h k

/-- The two presses `GoToPosition` may make. -/
def pressesDown (b : Blind) (p : Int32) : Prop := b.intermediatePosition > p.toInt ∨ p = 0

def pressesUp (b : Blind) (p : Int32) : Prop := b.intermediatePosition < p.toInt ∨ p = 100

theorem go_press {k : UInt32} {b : Blind} {button : SomfyButton} (hb : d.blinds[k]? = some b)
    (h : d.go k button = some d') : d.pressButtons b.remote button shortPress = some d' := by
  unfold go at h
  rwa [hb, Option.bind_some] at h

theorem goWhen_cases {k : UInt32} {b : Blind} {button : SomfyButton} {cond : Blind → Bool}
    (hb : d.blinds[k]? = some b) (h : d.goWhen k button cond = some d') :
    (cond b = true ∧ d.pressButtons b.remote button shortPress = some d') ∨
      (cond b = false ∧ d' = d) := by
  unfold goWhen at h
  rw [hb, Option.bind_some] at h
  split_ifs at h with hc
  · exact .inl ⟨hc, go_press hb h⟩
  · exact .inr ⟨by simpa using hc, (Option.some.inj h).symm⟩

/-- After the first press the blind still is where it was, so the second test has the
same answer it would have had before. -/
theorem goToPosition_cases {k : UInt32} {b : Blind} {position : Int32}
    (hb : d.blinds[k]? = some b) (h : d.goToPosition k position = some d') :
    ∃ d₁ b₁ d₂,
      ((pressesDown b (clampPosition position) ∧
          d.pressButtons b.remote .down shortPress = some d₁) ∨
        (¬pressesDown b (clampPosition position) ∧ d₁ = d)) ∧
      (d₁.blinds[k]? = some b₁ ∧ b₁.remote = b.remote ∧
        b₁.intermediatePosition = b.intermediatePosition) ∧
      ((pressesUp b (clampPosition position) ∧
          d₁.pressButtons b.remote .up shortPress = some d₂) ∨
        (¬pressesUp b (clampPosition position) ∧ d₂ = d₁)) ∧
      d' = d₂.modifyBlind k fun b => { b with targetPosition := clampPosition position } := by
  obtain ⟨d₁, h₁, h⟩ := Option.bind_eq_some_iff.mp h
  obtain ⟨d₂, h₂, rfl⟩ := Option.map_eq_some_iff.mp h
  have hfirst := goWhen_cases hb h₁
  have hplace : ∃ b₁, d₁.blinds[k]? = some b₁ ∧ b₁.remote = b.remote ∧
      b₁.intermediatePosition = b.intermediatePosition := by
    rcases hfirst with ⟨-, hpress⟩ | ⟨-, rfl⟩
    · have hsame := pressButtons_place hpress k
      rw [hb, Option.map_some] at hsame
      obtain ⟨b₁, hb₁, heq⟩ := Option.map_eq_some_iff.mp hsame
      exact ⟨b₁, hb₁, (Prod.ext_iff.mp heq).1, (Prod.ext_iff.mp heq).2⟩
    · exact ⟨b, hb, rfl, rfl⟩
  obtain ⟨b₁, hb₁, hremote, hinter⟩ := hplace
  have hsecond := goWhen_cases hb₁ h₂
  simp only [Bool.or_eq_true, Bool.or_eq_false_iff, decide_eq_true_eq, decide_eq_false_iff_not,
    hremote, hinter] at hfirst hsecond
  refine ⟨d₁, b₁, d₂, ?_, ⟨hb₁, hremote, hinter⟩, ?_, rfl⟩
  · exact hfirst.imp_right fun hc => ⟨not_or.mpr hc.1, hc.2⟩
  · exact hsecond.imp_right fun hc => ⟨not_or.mpr hc.1, hc.2⟩

end Device

end PicoSomfy
