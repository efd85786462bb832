import PicoSomfy.DeviceRuns
import PicoSomfy.Presses

/-!
# Clean means stored

Every change of what a record holds should set the dirty flag, so that an object
without the flag reads back from flash as it is. `CleanMeansStored` says so for
remotes and blinds, field by field.

`GoToPosition` sets the target of a blind after the presses it makes, and does not set
the flag itself. A blind that is already where it is sent to, or does not listen to its
own remote, keeps a target that nobody saves. The other gaps are in the records: a name
is cut at a zero byte, of more than 32 blinds of a remote the rest is left out, and two
ids have no record that can be read.
-/
namespace PicoSomfy

open SortedMap DeviceConfig CStrings

/-- What the record of a blind holds, and what ties the blind to the record. -/
def Blind.persistent (b : Blind) : List UInt8 × Int32 × Int32 × Int32 × Int32 × UInt16 × ℕ :=
  (b.name, b.targetPosition, b.favouritePosition, b.openTime, b.closeTime, b.blindId, b.remote)

/-- A blind that is clean afterwards was clean before, and its record still fits. -/
def Blind.Marks (b b' : Blind) : Prop :=
  b'.isDirty = false → b.isDirty = false ∧ b'.persistent = b.persistent

namespace Blind

variable {b b' b'' : Blind}

theorem Marks.refl (b : Blind) : b.Marks b := fun h => ⟨h, rfl⟩

theorem Marks.trans (h : b.Marks b') (k : b'.Marks b'') : b.Marks b'' := fun hclean => by
  obtain ⟨hclean', hsame'⟩ := k hclean
  obtain ⟨hclean'', hsame⟩ := h hclean'
  exact ⟨hclean'', hsame'.trans hsame⟩

theorem Marks.of_dirty (h : b'.isDirty = true) : b.Marks b' := fun hclean => by
  rw [h] at hclean
  cases hclean

/-- Buttons mark the blind, or do nothing at all. -/
theorem marks_buttonsPressed (b : Blind) (button : SomfyButton) (long : Bool) (now : ℤ) :
    b.Marks (b.buttonsPressed button long now) := by
  unfold Blind.buttonsPressed
  split_ifs
  case neg => exact .refl b
  all_goals exact .of_dirty rfl

theorem buttonsPressed_dirty {button : SomfyButton} (h : button = .up ∨ button = .down)
    (long : Bool) (now : ℤ) : (b.buttonsPressed button long now).isDirty = true := by
  unfold Blind.buttonsPressed
  rcases h with rfl | rfl
  · rfl
  · rw [if_neg (by decide), if_pos rfl]
    rfl

end Blind

namespace Device

variable {d d' d'' : Device}

/-- Every blind that changed is marked. -/
def Marks (d d' : Device) : Prop := ∀ k : UInt32, Option.Rel Blind.Marks d.blinds[k]? d'.blinds[k]?

namespace Marks

theorem refl (d : Device) : d.Marks d := fun k => by
  cases d.blinds[k]? with
  | none => exact .none
  | some b => exact .some (.refl b)

theorem of_eq (h : d'.blinds = d.blinds) : d.Marks d' := fun k => by
  rw [h]
  exact refl d k

theorem trans (h : d.Marks d') (k : d'.Marks d'') : d.Marks d'' := fun i => by
  have h₁ := h i
  have h₂ := k i
  revert h₁ h₂
  generalize d.blinds[i]? = x
  generalize d'.blinds[i]? = y
  generalize d''.blinds[i]? = z
  intro h₁ h₂
  cases h₁ with
  | some h₁ =>
      cases h₂ with
      | some h₂ => exact .some (h₁.trans h₂)
  | none =>
      cases h₂
      exact .none

theorem modifyBlind (d : Device) (k : UInt32) (f : Blind → Blind)
    (hf : ∀ b, d.blinds[k]? = some b → b.Marks (f b)) : d.Marks (d.modifyBlind k f) := fun i => by
  simp only [Device.modifyBlind, get_modify]
  split_ifs with hi
  · subst hi
    cases hb : d.blinds[k]? with
    | none => exact .none
    | some b => exact .some (hf b hb)
  · exact refl d i

/-- Where a blind is and when it moved last is not in its record. -/
theorem modifyMotion (d : Device) (k : UInt32) (f : Blind → Blind)
    (hf : ∀ b, (f b).isDirty = b.isDirty ∧ (f b).persistent = b.persistent) :
    d.Marks (d.modifyBlind k f) :=
  modifyBlind d k f fun b _ hclean => ⟨(hf b).1 ▸ hclean, (hf b).2⟩

theorem tell {command : SomfyCommand} {long : Bool} {blindId : UInt16}
    (h : d.tell command long blindId = some d') : d.Marks d' := by
  simp only [Device.tell, Option.ite_none_right_eq_some, Option.some.injEq] at h
  obtain ⟨-, rfl⟩ := h
  exact modifyBlind d _ _ fun b _ => b.marks_buttonsPressed _ _ _

theorem tells {command : SomfyCommand} {long : Bool} {blindIds : List UInt16}
    (h : blindIds.foldlM (Device.tell command long) d = some d') : d.Marks d' :=
  Transitions.foldlM_keeps refl trans tell h

theorem pressButtons {p : ℕ} {buttons : SomfyButton} {repeats : UInt16}
    (h : d.pressButtons p buttons repeats = some d') : d.Marks d' := by
  unfold Device.pressButtons at h
  refine trans (of_eq ?_) (tells h)
  rfl

theorem externalButtonPress {command : SomfyCommand}
    (h : d.externalButtonPress command = some d') : d.Marks d' := by
  unfold Device.externalButtonPress at h
  split at h
  · cases h
    exact of_eq rfl
  · unfold pressOverheard at h
    refine trans (of_eq ?_) (tells h)
    rfl

theorem stop {k : UInt32} (h : d.stop k = some d') : d.Marks d' := by
  obtain ⟨b, -, h⟩ := Option.bind_eq_some_iff.mp h
  split_ifs at h
  · exact pressButtons h
  · exact Option.some.inj h ▸ refl d

theorem go {k : UInt32} {button : SomfyButton} (h : d.go k button = some d') : d.Marks d' := by
  obtain ⟨b, -, h⟩ := Option.bind_eq_some_iff.mp h
  exact pressButtons h

theorem goWhen {k : UInt32} {button : SomfyButton} {cond : Blind → Bool}
    (h : d.goWhen k button cond = some d') : d.Marks d' := by
  obtain ⟨b, -, h⟩ := Option.bind_eq_some_iff.mp h
  split_ifs at h
  · exact go h
  · exact Option.some.inj h ▸ refl d

theorem moveBlind {k : UInt32} {b : Blind} (h : d.moveBlind k b = some d') : d.Marks d' := by
  unfold Device.moveBlind at h
  split at h
  · exact Option.some.inj h ▸ refl d
  split at h
  · obtain ⟨d₁, h₁, rfl⟩ := Option.map_eq_some_iff.mp h
    have harrive := modifyMotion d k
      (fun b => { b with intermediatePosition := b.targetPosition.toInt }) fun _ => ⟨rfl, rfl⟩
    have hstopped := modifyMotion d₁ k (fun b => { b with motionDirection := 0 })
      fun _ => ⟨rfl, rfl⟩
    refine harrive.trans (trans ?_ hstopped)
    split at h₁
    · exact stop h₁
    · exact Option.some.inj h₁ ▸ refl _
  · exact Option.some.inj h ▸ modifyMotion d k
      (fun b => { b with intermediatePosition := b.travel d.clock }) fun _ => ⟨rfl, rfl⟩

theorem tick {k : UInt32} {position state : Bool} (h : d.tick k position state = some d') :
    d.Marks d' := by
  obtain ⟨b, -, h⟩ := Option.bind_eq_some_iff.mp h
  split at h
  · obtain ⟨d₁, h₁, rfl⟩ := Option.map_eq_some_iff.mp h
    have hrun := modifyMotion d k (fun b => { b with refreshTimer := none }) fun _ => ⟨rfl, rfl⟩
    have hagain := modifyMotion d₁ k (fun b => b.finishTick d₁.clock
      (Blind.publishPosition d₁.mqttEnabled position state)) fun _ => ⟨rfl, rfl⟩
    exact hrun.trans ((moveBlind h₁).trans hagain)
  · cases h

/-- Every blind comes from one that it marks the changes of. -/
theorem old_blind (h : d.Marks d') {k : UInt32} {b' : Blind} (hb : d'.blinds[k]? = some b') :
    ∃ b, d.blinds[k]? = some b ∧ b.Marks b' := by
  have hk := h k
  rw [hb] at hk
  generalize hx : d.blinds[k]? = x at hk
  cases hk with
  | some hk => exact ⟨_, rfl, hk⟩

end Marks

/-- Once up or down was told to a blind, it is marked until it is saved. -/
theorem tells_dirty {command : SomfyCommand} {long : Bool} {ks : List UInt16} {k : UInt32}
    (hbutton : command.button = .up ∨ command.button = .down)
    (h : ks.foldlM (tell command long) d = some d') (hk : k ∈ ks.map (·.toUInt32)) {b' : Blind}
    (hb' : d'.blinds[k]? = some b') : b'.isDirty = true := by
  induction ks generalizing d with
  | nil => cases hk
  | cons i is ih =>
      rw [List.foldlM_cons] at h
      obtain ⟨e, he, hrest⟩ := Option.bind_eq_some_iff.mp h
      by_cases hi : k = i.toUInt32
      · -- the rest of the loop leaves the mark that this turn sets
        obtain ⟨b, hb, hmarks⟩ := (Marks.tells hrest).old_blind hb'
        rw [(tell_blind he k).2] at hb
        obtain ⟨b₀, -, rfl⟩ := Option.map_eq_some_iff.mp hb
        rw [if_pos hi.symm] at hmarks
        by_contra hclean
        have hdirty := (hmarks (by simpa using hclean)).1
        rw [Blind.buttonsPressed_dirty hbutton] at hdirty
        cases hdirty
      · exact ih hrest ((List.mem_cons.mp hk).resolve_left hi)

/-- `GoToPosition` changes the target after its presses. A blind that was marked before,
or hears one of them, or has this target already, is as good as marked. -/
def GoesMarked (d : Device) (k : UInt32) (position : Int32) : Prop :=
  ∀ b, d.blinds[k]? = some b → b.isDirty = true ∨ b.targetPosition = clampPosition position ∨
    ((pressesDown b (clampPosition position) ∨ pressesUp b (clampPosition position)) ∧
      d.listens k b = true)

theorem press_dirty {p : ℕ} {button : SomfyButton} {repeats : UInt16} {k : UInt32}
    (hbutton : button = .up ∨ button = .down) (h : d.pressButtons p button repeats = some d')
    (hk : k ∈ (d.heap p).associatedBlinds.map (·.toUInt32)) {b' : Blind}
    (hb' : d'.blinds[k]? = some b') : b'.isDirty = true := tells_dirty hbutton h hk hb'

theorem Marks.goToPosition {k : UInt32} {position : Int32} (hgoes : d.GoesMarked k position)
    (h : d.goToPosition k position = some d') : d.Marks d' := by
  obtain ⟨b, hb⟩ : ∃ b, d.blinds[k]? = some b := by
    obtain ⟨d₁, h₁, -⟩ := Option.bind_eq_some_iff.mp h
    obtain ⟨b, hb, -⟩ := Option.bind_eq_some_iff.mp h₁
    exact ⟨b, hb⟩
  obtain ⟨d₁, b₁, d₂, hfirst, ⟨hb₁, hremote, -⟩, hsecond, rfl⟩ := goToPosition_cases hb h
  have hmarks₁ : d.Marks d₁ := by
    rcases hfirst with ⟨-, hpress⟩ | ⟨-, rfl⟩
    · exact .pressButtons hpress
    · exact .refl _
  have hmarks₂ : d₁.Marks d₂ := by
    rcases hsecond with ⟨-, hpress⟩ | ⟨-, rfl⟩
    · exact .pressButtons hpress
    · exact .refl _
  have hlists : (d₁.heap b.remote).associatedBlinds = (d.heap b.remote).associatedBlinds := by
    rcases hfirst with ⟨-, hpress⟩ | ⟨-, rfl⟩
    · exact ((Reacts.pressButtons hpress).remote b.remote).fields.2.2.1
    · rfl
  have hmarks := hmarks₁.trans hmarks₂
  intro i
  by_cases hi : i = k
  · subst hi
    rw [modifyBlind_self]
    have hrel := hmarks i
    rw [hb] at hrel ⊢
    generalize hb₂ : d₂.blinds[i]? = x at hrel ⊢
    cases hrel with
    | @some _ b₂ hrel =>
        refine .some fun hclean => ?_
        obtain ⟨hclean', hsame⟩ := hrel hclean
        refine ⟨hclean', ?_⟩
        rcases hgoes b hb with hdirty | htarget | ⟨hpresses, hlistens⟩
        · rw [hclean'] at hdirty
          cases hdirty
        · rw [← hsame, ← htarget]
          have hold : b₂.targetPosition = b.targetPosition :=
            congrArg (fun x : List UInt8 × Int32 × Int32 × Int32 × Int32 × UInt16 × ℕ => x.2.1) hsame
          rw [← hold]
        · have hmem : i ∈ (d.heap b.remote).associatedBlinds.map (·.toUInt32) := by
            simpa only [listens, decide_eq_true_eq] using hlistens
          have hdirty : b₂.isDirty = true := by
            rcases hsecond with ⟨-, hpress⟩ | ⟨hnot, rfl⟩
            · exact press_dirty (.inl rfl) hpress (hlists ▸ hmem) hb₂
            · rcases hfirst with ⟨-, hpress⟩ | ⟨hnot', -⟩
              · exact press_dirty (.inr rfl) hpress hmem hb₂
              · exact absurd hpresses (not_or.mpr ⟨hnot', hnot⟩)
          rw [show b₂.isDirty = false from hclean] at hdirty
          cases hdirty
  · have hother : (d₂.modifyBlind k fun b =>
        { b with targetPosition := clampPosition position }).blinds[i]? = d₂.blinds[i]? := by
      change (d₂.blinds.modify k _)[i]? = _
      rw [get_modify, if_neg (Ne.symm hi)]
    rw [hother]
    exact hmarks i

end Device

/-- The record of the remote holds all of it. -/
structure SomfyRemote.Whole (r : SomfyRemote) : Prop where
  noNul : 0 ∉ r.remoteName
  few : r.associatedBlinds.length ≤ 32

/-- What is stored without being marked can be stored whole, and is marked else. -/
def Call.Mindful (d : Device) : Call → Prop
  | .goToPosition k position => d.GoesMarked k position
  | .saveRemotes => ∀ (id : UInt32) (p : ℕ), d.remotes[id]? = some p →
      (d.heap p).isDirty = true → (d.heap p).Whole
  | .saveBlinds => ∀ (k : UInt32) (b : Blind), d.blinds[k]? = some b → b.isDirty = true →
      0 ∉ b.name
  | .createRemote name | .addBlind name _ _ => 0 ∉ name
  | .importRemote name id => 0 ∉ name ∧ ¬Device.Reserved id
  | _ => True

namespace Device

variable {d d' : Device}

/-- The invariant: clean remotes and blinds have their records, and the records hold them
whole. -/
structure Faithful (d : Device) : Prop where
  inv : d.Inv
  remote : ∀ (id : UInt32) (p : ℕ), d.remotes[id]? = some p →
    ¬Reserved id ∧ ((d.heap p).isDirty = false → (d.heap p).Whole)
  blind : ∀ (k : UInt32) (b : Blind), d.blinds[k]? = some b →
    b.InRange ∧ (b.isDirty = false → d.BlindRecorded b ∧ 0 ∉ b.name)

/-- The record of a blind stays right as long as its fields do. -/
theorem BlindRecorded.congr {b b' : Blind} (h : d.BlindRecorded b)
    (hsame : b'.persistent = b.persistent)
    (hid : (d'.heap b.remote).remoteId = (d.heap b.remote).remoteId)
    (hconfig : d'.config.getBlindConfig b.blindId = d.config.getBlindConfig b.blindId) :
    d'.BlindRecorded b' := by
  obtain ⟨c, hc, hread⟩ := h
  simp only [Blind.persistent, Prod.mk.injEq] at hsame
  obtain ⟨hname, htarget, hfavourite, hopen, hclose, hkey, hremote⟩ := hsame
  refine ⟨c, ?_, by rw [hkey, hconfig, hread]⟩
  rw [hremote, hid, ← hc]
  unfold Blind.toConfig
  rw [hname, htarget, hfavourite, hopen, hclose]

theorem marks_perform {c : Call} (hc : c.reacts = true) (hm : c.Mindful d)
    (h : d.perform c = some d') : d.Marks d' := by
  cases c with
  | nothing => exact Option.some.inj h ▸ .refl d
  | press p buttons repeats => exact .pressButtons h
  | goUp k => exact .go h
  | goDown k => exact .go h
  | stop k => exact .stop h
  | goToPosition k position => exact .goToPosition hm h
  | overheard command => exact .externalButtonPress h
  | tick k position state => exact .tick h
  | wait microseconds =>
      cases h
      exact .of_eq rfl
  | worker packet =>
      obtain ⟨radio, -, rfl⟩ := Option.map_eq_some_iff.mp h
      exact .of_eq rfl
  | packetReady =>
      obtain ⟨radio, -, rfl⟩ := Option.map_eq_some_iff.mp h
      exact .of_eq rfl
  | discover =>
      cases h
      exact .of_eq rfl
  | _ => cases hc

/-- Changes in memory that mark what they change. -/
theorem Faithful.quiet (h : d.Faithful) (hinv : d'.Inv) (hs : SameRegistry d d')
    (hconfig : d'.config = d.config)
    (hremote : ∀ p, (d'.heap p).isDirty = false → d'.heap p = d.heap p) (hmarks : d.Marks d')
    (hrange : ∀ (k : UInt32) (b' : Blind), d'.blinds[k]? = some b' → b'.InRange) : d'.Faithful where
  inv := hinv
  remote id p hp := by
    rw [hs.remotes] at hp
    obtain ⟨hreadable, hwhole⟩ := h.remote id p hp
    refine ⟨hreadable, fun hclean => ?_⟩
    have hsame := hremote p hclean
    rw [hsame] at hclean ⊢
    exact hwhole hclean
  blind k b' hb' := by
    refine ⟨hrange k b' hb', fun hclean => ?_⟩
    obtain ⟨b, hb, hmark⟩ := hmarks.old_blind hb'
    obtain ⟨hold, hsame⟩ := hmark hclean
    obtain ⟨hrecorded, hname⟩ := (h.blind k b hb).2 hold
    refine ⟨hrecorded.congr hsame (hs.remoteId _) (by rw [hconfig]), ?_⟩
    rwa [show b'.name = b.name from congrArg Prod.fst hsame]

/-- Buttons and time leave the records and mark what they change. -/
theorem Faithful.reacts (h : d.Faithful) (hreacts : d.Reacts d') (hmarks : d.Marks d') :
    d'.Faithful := by
  refine h.quiet ?_ hreacts.sameRegistry hreacts.config
    (fun p => (hreacts.remote p).fields.2.2.2) hmarks fun k b' hb' => ?_
  · exact ⟨hreacts.sameRegistry.registry h.inv.registry, hreacts.stored h.inv.stored⟩
  · obtain ⟨b, hb, hreact⟩ := hreacts.old_blind hb'
    exact hreact.inRange (h.blind k b hb).1

/-- New settings of a remote mark it. -/
theorem Faithful.modifyRemote (h : d.Faithful) {p : ℕ} {f : SomfyRemote → SomfyRemote}
    (hinv : (d.modifyRemote p f).Inv) (hs : SameRegistry d (d.modifyRemote p f))
    (hf : (f (d.heap p)).isDirty = true) : (d.modifyRemote p f).Faithful := by
  refine h.quiet hinv hs rfl (fun q hq => ?_) (.of_eq rfl) fun k b hb => (h.blind k b hb).1
  by_cases hqp : q = p
  · subst hqp
    simp only [Device.modifyRemote, Function.update_self, hf] at hq
    cases hq
  · simp only [Device.modifyRemote, Function.update_of_ne hqp]

/-- New settings of a blind mark it. -/
theorem Faithful.updateBlind (h : d.Faithful) (k : UInt32) (name : List UInt8)
    (openTime closeTime : Int32)
    (hinv : (d.modifyBlind k fun b => b.updateConfig d.mqttEnabled name openTime closeTime).Inv) :
    (d.modifyBlind k fun b => b.updateConfig d.mqttEnabled name openTime closeTime).Faithful := by
  have hs := SameRegistry.modifyBlind d k
    (fun b => b.updateConfig d.mqttEnabled name openTime closeTime) fun _ _ => rfl
  refine h.quiet hinv hs rfl (fun _ _ => rfl) ?_ fun i b' hb' => ?_
  · exact Marks.modifyBlind d k _ fun b _ => .of_dirty rfl
  · change (d.blinds.modify k _)[i]? = some b' at hb'
    rw [get_modify] at hb'
    split_ifs at hb' with hi
    · obtain ⟨b, hb, rfl⟩ := Option.map_eq_some_iff.mp hb'
      obtain ⟨hrange, -⟩ := h.blind i b hb
      exact ⟨hrange.target, hrange.favourite, hrange.position⟩
    · exact (h.blind i b' hb').1

/-- No record of a blind changes. -/
def KeepsBlinds (d d' : Device) : Prop :=
  ∀ i : UInt16, d'.config.getBlindConfig i = d.config.getBlindConfig i

theorem getBlindConfig_onlyAt {dc dc' : DeviceConfig} {r : Record} (h : OnlyAt r dc dc') {i : UInt16}
    (hr : r ≠ .blind i) : dc'.getBlindConfig i = dc.getBlindConfig i :=
  congrArg (Option.map BlindConfig.decode) (h.other (s := .blind i) fun hk => blind_key_ne hr hk.symm)

theorem keepsBlinds_saveRemote {p : ℕ} {force : Bool} (hh : d.config.Healthy)
    (h : d.saveRemote p force = some d') : d.KeepsBlinds d' ∧ d'.config.Healthy := by
  rcases saveRemote_cases h with ⟨rfl, -⟩ | ⟨c, -, rfl⟩
  · exact ⟨fun _ => rfl, hh⟩
  · have honly := hh.onlyAt_saveRemoteConfig (d.heap p).remoteId c
    exact ⟨fun i => getBlindConfig_onlyAt honly nofun, honly.healthy⟩

theorem keepsBlinds_saveRemoteList (hh : d.config.Healthy) (hfew : d.FewRemotes)
    (h : d.saveRemoteList = some d') : d.KeepsBlinds d' ∧ d'.config.Healthy := by
  obtain ⟨hi, hx⟩ := hfew
  unfold saveRemoteList at h
  split_ifs at h
  cases h
  have h₁ : OnlyAt .remoteIds d.config (d.config.saveRemoteIds d.internalIds) :=
    hh.onlyAt_list .remoteIds (by rw [length_encode16s]; omega)
  have h₂ : OnlyAt .externalRemoteIds (d.config.saveRemoteIds d.internalIds)
      ((d.config.saveRemoteIds d.internalIds).saveExternalRemoteIds d.externalIds) :=
    h₁.healthy.onlyAt_list .externalRemoteIds (by rw [length_encode32s]; omega)
  refine ⟨fun i => ?_, h₂.healthy⟩
  have hi₁ := getBlindConfig_onlyAt h₁ (i := i) nofun
  have hi₂ := getBlindConfig_onlyAt h₂ (i := i) nofun
  exact hi₂.trans hi₁

theorem keepsBlinds_saveBlindList (hh : d.config.Healthy) (hb : d.blindIds.length ≤ 124)
    (h : d.saveBlindList = some d') : d.KeepsBlinds d' := by
  unfold saveBlindList at h
  split_ifs at h
  cases h
  have h₁ : OnlyAt .blindIds d.config (d.config.saveBlindIds d.blindIds) :=
    hh.onlyAt_list .blindIds (by rw [length_encode16s]; omega)
  exact fun i => getBlindConfig_onlyAt h₁ nofun

theorem keepsBlinds_registerRemote (hr : d.Registry) (hh : d.config.Healthy) {name : List UInt8}
    {id : UInt32} {isExternal : Bool} (hf : d.FreshHalf id)
    (hi : d.internalIds.length + (if isExternal then 0 else 1) ≤ 124)
    (hx : d.externalIds.length + (if isExternal then 1 else 0) ≤ 62)
    (h : d.registerRemote name id isExternal = some d') :
    d.KeepsBlinds d' ∧ d'.config.Healthy := by
  have hfew := fewRemotes_insert (fun hp => (hr.registered hp).1) hf.not_mem
    (r := d.newRemote name id isExternal)
    (by simpa using hi) (by simpa using hx)
  obtain ⟨d₁, h₁, h₂⟩ := Option.bind_eq_some_iff.mp h
  obtain ⟨c, -, rfl⟩ := saveRemote_new (newRemote_isDirty name id isExternal) h₁
  have honly := hh.onlyAt_saveRemoteConfig (d.newRemote name id isExternal).remoteId c
  obtain ⟨hkeeps, hh'⟩ := keepsBlinds_saveRemoteList (d := { d.insertRemote id
    (d.newRemote name id isExternal) with config := _ }) honly.healthy hfew h₂
  exact ⟨fun i => (hkeeps i).trans (getBlindConfig_onlyAt honly nofun), hh'⟩

theorem keepsBlinds_deleteRemote (hh : d.config.Healthy) (hfew : d.FewRemotes) {id : UInt32}
    (h : d.deleteRemote id = some d') : d.KeepsBlinds d' ∧ d'.config.Healthy := by
  have honly : OnlyAt (.remote id) d.config (d.config.deleteRemoteConfig id) :=
    hh.onlyAt_clear (.remote id)
  obtain ⟨hkeeps, hh'⟩ := keepsBlinds_saveRemoteList (d := { d with
    remotes := d.remotes.erase id
    config := d.config.deleteRemoteConfig id }) honly.healthy (fewRemotes_erase hfew id) h
  exact ⟨fun i => (hkeeps i).trans (getBlindConfig_onlyAt honly nofun), hh'⟩

/-- The remote that a blind points to keeps its id when another is registered. -/
theorem Registry.primary_heap (h : d.Registry) {k : UInt32} {b : Blind} (hb : d.blinds[k]? = some b)
    (id : UInt32) (r : SomfyRemote) : (d.insertRemote id r).heap b.remote = d.heap b.remote :=
  insertRemote_heap (h.registered (h.primary hb).1).1

/-- A new remote that its record holds whole. -/
theorem Faithful.insertRemote (h : d.Faithful) {id : UInt32} {r : SomfyRemote} (hf : d.FreshHalf id)
    (hreadable : ¬Reserved id) (hwhole : r.isDirty = false → r.Whole) (a : UInt32) (p : ℕ)
    (hp : (d.insertRemote id r).remotes[a]? = some p) :
    ¬Reserved a ∧ (((d.insertRemote id r).heap p).isDirty = false →
      ((d.insertRemote id r).heap p).Whole) := by
  rcases insertRemote_cases hf hp with ⟨rfl, rfl⟩ | ⟨-, hold⟩
  · rw [insertRemote_top]
    exact ⟨hreadable, hwhole⟩
  · rw [insertRemote_heap (h.inv.registry.registered hold).1]
    exact h.remote a p hold

theorem newRemote_whole {name : List UInt8} (hname : 0 ∉ name) (id : UInt32) (isExternal : Bool) :
    (d.newRemote name id isExternal).Whole := by
  have hfields : (d.newRemote name id isExternal).remoteName = name := by
    simp only [newRemote, SomfyRemote.create, SomfyRemote.triggerPublishDiscovery]
    split_ifs <;> rfl
  refine ⟨by rwa [hfields], ?_⟩
  rw [newRemote_associatedBlinds]
  exact Nat.zero_le _

theorem Faithful.registerRemote (h : d.Faithful) {name : List UInt8} {id : UInt32}
    {isExternal : Bool} (hf : d.FreshHalf id) (hname : 0 ∉ name) (hreadable : ¬Reserved id)
    (hi : d.internalIds.length + (if isExternal then 0 else 1) ≤ 124)
    (hx : d.externalIds.length + (if isExternal then 1 else 0) ≤ 62)
    (hd : d.registerRemote name id isExternal = some d') (hinv : d'.Inv) : d'.Faithful := by
  obtain ⟨hkeeps, -⟩ := keepsBlinds_registerRemote h.inv.registry h.inv.stored.clean.healthy hf
    hi hx hd
  obtain ⟨config, rfl⟩ := registerRemote_eq hd
  refine ⟨hinv, h.insertRemote hf hreadable fun _ => newRemote_whole hname id isExternal,
    fun k b hb => ?_⟩
  obtain ⟨hrange, hstored⟩ := h.blind k b hb
  refine ⟨hrange, fun hclean => ?_⟩
  obtain ⟨hrecorded, hnul⟩ := hstored hclean
  refine ⟨hrecorded.congr rfl ?_ (hkeeps _), hnul⟩
  exact congrArg SomfyRemote.remoteId (h.inv.registry.primary_heap hb id _)

theorem Faithful.deleteRemote (h : d.Faithful) (hfew : d.FewRemotes) {id : UInt32}
    (hd : d.deleteRemote id = some d') (hinv : d'.Inv) : d'.Faithful := by
  obtain ⟨hkeeps, -⟩ := keepsBlinds_deleteRemote h.inv.stored.clean.healthy hfew hd
  obtain ⟨config, rfl⟩ := deleteRemote_eq hd
  refine ⟨hinv, fun a p hp => ?_, fun k b hb => ?_⟩
  · rw [get_erase] at hp
    split_ifs at hp
    exact h.remote a p hp
  · obtain ⟨hrange, hstored⟩ := h.blind k b hb
    refine ⟨hrange, fun hclean => ?_⟩
    obtain ⟨hrecorded, hnul⟩ := hstored hclean
    exact ⟨hrecorded.congr rfl rfl (hkeeps _), hnul⟩

/-- Saving remotes leaves the blinds and their records alone. -/
structure StoresRemotes (d d' : Device) : Prop where
  healthy : d.config.Healthy → d'.config.Healthy
  keeps : d.config.Healthy → d.KeepsBlinds d'
  blinds : d'.blinds = d.blinds

theorem storesRemotes_saveRemote {p : ℕ} {force : Bool} (h : d.saveRemote p force = some d') :
    d.StoresRemotes d' := by
  refine ⟨fun hh => (keepsBlinds_saveRemote hh h).2, fun hh => (keepsBlinds_saveRemote hh h).1, ?_⟩
  rcases saveRemote_cases h with ⟨rfl, -⟩ | ⟨c, -, rfl⟩ <;> rfl

theorem storesRemotes_saveRemoteState (h : d.saveRemoteState = some d') : d.StoresRemotes d' := by
  refine Transitions.foldlM_keeps (R := StoresRemotes) (fun d => ⟨id, fun _ _ => rfl, rfl⟩) ?_
    storesRemotes_saveRemote h
  intro d d' d'' h k
  exact ⟨fun hh => k.healthy (h.healthy hh),
    fun hh i => (k.keeps (h.healthy hh) i).trans (h.keeps hh i), k.blinds.trans h.blinds⟩

/-- After a periodic save every remote is clean, and its record holds it whole. -/
theorem Faithful.saveRemoteState (h : d.Faithful) (hm : Call.saveRemotes.Mindful d)
    (hd : d.saveRemoteState = some d') (hlost : d'.config.lost = false) : d'.Faithful := by
  have hinv' := (Inv.saveRemoteState (fun _ => h.inv) hd hlost).1
  have hsaves := saves_saveRemoteState hd
  have hstores := storesRemotes_saveRemoteState hd
  refine ⟨hinv', fun id p hp => ?_, fun k b hb => ?_⟩
  · rw [hsaves.remotes] at hp
    obtain ⟨hreadable, hwhole⟩ := h.remote id p hp
    have hold : (d.heap p).Whole := by
      cases hdirty : (d.heap p).isDirty with
      | false => exact hwhole hdirty
      | true => exact hm id p hp hdirty
    rw [hsaves.remote p]
    exact ⟨hreadable, fun _ => ⟨hold.noNul, hold.few⟩⟩
  · rw [hstores.blinds] at hb
    obtain ⟨hrange, hstored⟩ := h.blind k b hb
    refine ⟨hrange, fun hclean => ?_⟩
    obtain ⟨hrecorded, hnul⟩ := hstored hclean
    exact ⟨hrecorded.congr rfl (hsaves.remoteId _)
      (hstores.keeps h.inv.stored.clean.healthy _), hnul⟩

/-- No blind has a name that its record cuts. -/
def NamesWhole (d : Device) : Prop := ∀ (k : UInt32) (b : Blind), d.blinds[k]? = some b → 0 ∉ b.name

theorem NamesWhole.saves (h : d.NamesWhole) (hs : d.Saves d') : d'.NamesWhole := fun k b' hb' => by
  have hk := hs.blind k
  rw [hb'] at hk
  generalize hx : d.blinds[k]? = x at hk
  cases hk with
  | @some b _ hk =>
      rw [hk]
      exact h k b hx

/-- One turn of the loop over the blinds. -/
theorem Faithful.saveBlindAt {k : UInt32} {force : Bool} (h : d.Faithful) (hn : d.NamesWhole)
    (hd : d.saveBlindAt force k = some d') (hlost : d'.config.lost = false) : d'.Faithful := by
  have hsaves := saves_saveBlindAt hd
  have hinv' : d'.Inv :=
    ⟨hsaves.registry h.inv.registry, h.inv.stored.saveBlindAt hd⟩
  have hremote : ∀ (id : UInt32) (p : ℕ), d'.heap = d.heap → d'.remotes[id]? = some p →
      ¬Reserved id ∧ ((d'.heap p).isDirty = false → (d'.heap p).Whole) := by
    intro id p hheap hp
    rw [hsaves.remotes] at hp
    rw [hheap]
    exact h.remote id p hp
  obtain ⟨b, hb, ⟨rfl, -⟩ | ⟨c, hc, rfl⟩⟩ := saveBlindAt_cases hd
  · refine ⟨hinv', fun id p hp => hremote id p rfl hp, fun i b' hi => ?_⟩
    have hsame : (d.modifyBlind k fun _ => b).blinds[i]? = d.blinds[i]? := by
      change (d.blinds.modify k _)[i]? = _
      rw [get_modify]
      split_ifs with hik
      · rw [← hik, hb, Option.map_some]
      · rfl
    exact h.blind i b' (hsame.symm.trans hi)
  · have hhealthy := h.inv.stored.clean.healthy
    have honly := hhealthy.onlyAt_saveBlindConfig b.blindId c
    refine ⟨hinv', fun id p hp => hremote id p rfl hp, fun i b' hi => ?_⟩
    change (d.blinds.modify k _)[i]? = some b' at hi
    rw [get_modify] at hi
    split_ifs at hi with hik
    · subst hik
      rw [hb, Option.map_some, Option.some.injEq] at hi
      subst hi
      obtain ⟨hrange, -⟩ := h.blind k b hb
      exact ⟨⟨hrange.target, hrange.favourite, hrange.position⟩, fun _ =>
        ⟨⟨c, hc, hhealthy.getBlindConfig_save b.blindId c hlost⟩, hn k b hb⟩⟩
    · obtain ⟨hrange, hstored⟩ := h.blind i b' hi
      refine ⟨hrange, fun hclean => ?_⟩
      obtain ⟨hrecorded, hnul⟩ := hstored hclean
      have hne : b'.blindId ≠ b.blindId := fun heq => hik (by
        rw [← (h.inv.registry.blind hb).1, ← (h.inv.registry.blind hi).1, heq])
      refine ⟨hrecorded.congr rfl rfl ?_, hnul⟩
      exact getBlindConfig_onlyAt honly (by simpa using hne.symm)

theorem Faithful.saveBlindState (h : d.Faithful) (hm : Call.saveBlinds.Mindful d)
    (hd : d.saveBlindState false = some d') (hlost : d'.config.lost = false) : d'.Faithful := by
  have hnames : d.NamesWhole := fun k b hb => by
    cases hdirty : b.isDirty with
    | false => exact ((h.blind k b hb).2 hdirty).2
    | true => exact hm k b hb hdirty
  have hend := Transitions.foldlM_invariant (f := fun (d : Device) k => d.saveBlindAt false k)
    (I := fun _ e => (e.config.lost = false → e.Faithful) ∧ e.NamesWhole)
    (fun {k rest e e'} he hs => ⟨fun hl =>
      (he.1 (lasting_saveBlindAt hs hl)).saveBlindAt he.2 hs hl, he.2.saves (saves_saveBlindAt hs)⟩)
    ⟨fun _ => h, hnames⟩ hd
  exact hend.1 hlost

theorem Faithful.createRemote (h : d.Faithful) {name : List UInt8} (hmay : d.MayCreate)
    (hname : 0 ∉ name) (hd : d.createRemote name = some d') (hinv : d'.Inv) : d'.Faithful := by
  obtain ⟨hf, hnext, hi, hx⟩ := hmay
  have hsucc : (d.nextRemoteId + 1).toNat = d.nextRemoteId.toNat + 1 := by
    rw [UInt32.toNat_add, UInt32.toNat_one]
    omega
  have hadv : Faithful { d with nextRemoteId := d.nextRemoteId + 1 } := by
    refine ⟨⟨h.inv.registry.advance _ _ (by omega) ⟨le_rfl, h.inv.registry.nextBlind⟩,
      ⟨h.inv.stored.clean.healthy, h.inv.stored.clean.recorded⟩,
      ⟨h.inv.stored.remotes.internal, h.inv.stored.remotes.external⟩, h.inv.stored.blinds⟩,
      h.remote, h.blind⟩
  have hreadable : ¬Reserved d.nextRemoteId := by
    have hlow := h.inv.registry.nextRemote.1
    rintro (heq | heq) <;> rw [heq] at hnext hlow
    · exact absurd hnext (by decide)
    · exact absurd hlow (by decide)
  refine hadv.registerRemote (d := { d with nextRemoteId := d.nextRemoteId + 1 }) hf hname hreadable
    ?_ ?_ hd hinv
  · exact hi
  · exact hx

theorem Faithful.addBlind (h : d.Faithful) {name : List UInt8} {openTime closeTime : Int32}
    (hmay : d.MayCreate) (hnext : d.nextBlindId.toNat < 65536) (hsize : d.blinds.size < 124)
    (hname : 0 ∉ name) (hd : d.addBlind name openTime closeTime = some d') (hinv : d'.Inv)
    (hlost : d'.config.lost = false) : d'.Faithful := by
  obtain ⟨d₁, h₁, h₂⟩ := Option.bind_eq_some_iff.mp hd
  obtain ⟨⟨config, b⟩, hb, h₃⟩ := Option.bind_eq_some_iff.mp h₂
  have hlost₂ := lasting_saveBlindList h₃ hlost
  unfold saveBlind at hb
  rw [if_pos (Bool.or_true _)] at hb
  obtain ⟨c, hc, heq⟩ := Option.map_eq_some_iff.mp hb
  cases heq
  have hinv₁ := h.inv.createRemote hmay h₁ (lost_saveBlindConfig _ _ hlost₂)
  have hfaithful₁ := h.createRemote hmay hname h₁ hinv₁
  have hhealthy₁ := hinv₁.stored.clean.healthy
  have honly := hhealthy₁.onlyAt_saveBlindConfig d.nextBlindId.toUInt16 c
  have hread := hhealthy₁.getBlindConfig_save d.nextBlindId.toUInt16 c hlost₂
  obtain ⟨config₁, hd₁⟩ := registerRemote_eq h₁
  have hblinds₁ : d₁.blinds = d.blinds := by
    rw [hd₁]
    rfl
  have hkeeps := keepsBlinds_saveBlindList honly.healthy (by
    rw [length_blindIds]
    refine (Std.ExtTreeMap.size_insertIfNew_le (t := d₁.blinds) (k := d.nextBlindId)).trans ?_
    rw [hblinds₁]
    exact hsize) h₃
  -- what the association and the new blind change in memory
  obtain ⟨config', hd'⟩ := saveBlindList_eq h₃
  have hremotes : d'.remotes = d₁.remotes := by
    rw [hd']
    rfl
  have htop : d'.heap d.heapTop = (d₁.heap d.heapTop).associateBlind d.nextBlindId.toUInt16 := by
    rw [hd']
    exact Function.update_self _ _ _
  have hother : ∀ p : ℕ, p ≠ d.heapTop → d'.heap p = d₁.heap p := fun p hp => by
    rw [hd']
    exact Function.update_of_ne hp _ _
  have hid : ∀ p : ℕ, (d'.heap p).remoteId = (d₁.heap p).remoteId := fun p => by
    by_cases hp : p = d.heapTop
    · rw [hp, htop]
      exact (associateBlind_fields _ _).1
    · rw [hother p hp]
  have hblinds : ∀ i : UInt32, d'.blinds[i]? = if d.nextBlindId = i then
      some (d.newBlind name openTime closeTime) else d₁.blinds[i]? := fun i => by
    rw [hd']
    change (d₁.blinds.insertIfNew d.nextBlindId _)[i]? = _
    rw [get_insertIfNew_fresh (by rw [hblinds₁]; exact h.inv.registry.next_blind_new)]
    rfl
  refine ⟨hinv, fun id p hp => ?_, fun i b' hi => ?_⟩
  · -- the new remote is marked by the association
    rw [hremotes] at hp
    obtain ⟨hreadable, hwhole⟩ := hfaithful₁.remote id p hp
    refine ⟨hreadable, fun hclean => ?_⟩
    by_cases hptop : p = d.heapTop
    · rw [hptop, htop, associateBlind_isDirty] at hclean
      cases hclean
    · rw [hother p hptop] at hclean ⊢
      exact hwhole hclean
  · rw [hblinds] at hi
    split_ifs at hi with hik
    · obtain rfl := Option.some.inj hi
      refine ⟨⟨by simp only [newBlind, Blind.create]; decide,
        by simp only [newBlind, Blind.create]; decide, ?_⟩, fun _ => ⟨⟨c, ?_, ?_⟩, hname⟩⟩
      · change (0 : ℚ) ≤ ((90 : Int32).toInt : ℚ) ∧ ((90 : Int32).toInt : ℚ) ≤ 100
        rw [show (90 : Int32).toInt = 90 from by decide]
        norm_num
      · rw [hid]
        exact hc
      · exact (hkeeps _).trans hread
    · obtain ⟨hrange, hstored⟩ := hfaithful₁.blind i b' hi
      refine ⟨hrange, fun hclean => ?_⟩
      obtain ⟨hrecorded, hnul⟩ := hstored hclean
      have hne : d.nextBlindId.toUInt16 ≠ b'.blindId := fun heq => hik (by
        rw [← (hinv₁.registry.blind hi).1, ← heq, toUInt32_toUInt16 hnext])
      refine ⟨hrecorded.congr rfl (hid _) ((hkeeps _).trans ?_), hnul⟩
      exact getBlindConfig_onlyAt honly (by simpa using hne)

theorem Faithful.removeBlind (h : d.Faithful) {k : UInt32} {b : Blind} (hk : d.blinds[k]? = some b)
    (hfew : d.FewRemotes) (hsize : d.blinds.size ≤ 124) (hd : d.removeBlind k b = some d')
    (hinv : d'.Inv) : d'.Faithful := by
  obtain ⟨d₁, h₁, h₂⟩ := Option.bind_eq_some_iff.mp hd
  obtain ⟨hkeeps₁, hhealthy₁⟩ := keepsBlinds_deleteRemote
    (d := { d with blinds := d.blinds.erase k }) h.inv.stored.clean.healthy hfew h₁
  have honly : OnlyAt (.blind k.toUInt16) d₁.config (d₁.config.deleteBlindConfig k.toUInt16) :=
    hhealthy₁.onlyAt_clear (.blind k.toUInt16)
  obtain ⟨config₁, rfl⟩ := deleteRemote_eq h₁
  have hkeeps₂ := keepsBlinds_saveBlindList honly.healthy (by
    rw [length_blindIds]
    exact Std.ExtTreeMap.size_erase_le.trans hsize) h₂
  obtain ⟨config₂, rfl⟩ := saveBlindList_eq h₂
  refine ⟨hinv, fun a p hp => ?_, fun i b' hi => ?_⟩
  · change (d.remotes.erase _)[a]? = some p at hp
    rw [get_erase] at hp
    split_ifs at hp
    exact h.remote a p hp
  · change (d.blinds.erase k)[i]? = some b' at hi
    rw [get_erase] at hi
    split_ifs at hi with hik
    obtain ⟨hrange, hstored⟩ := h.blind i b' hi
    refine ⟨hrange, fun hclean => ?_⟩
    obtain ⟨hrecorded, hnul⟩ := hstored hclean
    have hne : k.toUInt16 ≠ b'.blindId := fun heq => hik (by
      rw [← (h.inv.registry.blind hi).1, ← heq,
        toUInt32_toUInt16 (h.inv.registry.blind_small (mem_iff.mpr ⟨b, hk⟩))])
    refine ⟨hrecorded.congr rfl rfl ?_, hnul⟩
    exact (hkeeps₂ _).trans ((getBlindConfig_onlyAt honly (by simpa using hne)).trans (hkeeps₁ _))

theorem keeps_favourite {i : Int32} (h : 0 ≤ i.toInt ∧ i.toInt ≤ 100) :
    (if i > 100 ∨ i < 0 then 50 else i) = i := by
  refine if_neg ?_
  simp only [gt_iff_lt, Int32.lt_iff_toInt_lt, not_or, not_lt]
  exact ⟨h.2, h.1⟩

/-- A blind that was loaded has the record it was loaded from. -/
theorem blind_toConfig_reloaded {b : Blind} {id : UInt32} {c : BlindConfig} (hb : b.InRange)
    (h : b.toConfig id = some c) (mqttEnabled : Bool) (p : ℕ) :
    (b.reloaded mqttEnabled p).toConfig id = some c := by
  obtain ⟨name, hname, rfl⟩ := Option.map_eq_some_iff.mp h
  have hcopy : strcpy 48 (cText b.name) = some name :=
    strcpy_eq_some.mpr (by rw [cText_cText, strcpy_eq_some.mp hname])
  simp only [Blind.reloaded, Blind.toConfig, Blind.create, hcopy, Option.map_some,
    keeps_favourite hb.favourite]

theorem reloaded_inRange {b : Blind} (hb : b.InRange) (mqttEnabled : Bool) (p : ℕ) :
    (b.reloaded mqttEnabled p).InRange := by
  refine ⟨hb.target, ?_, ?_⟩
  · simp only [Blind.reloaded, Blind.create, keeps_favourite hb.favourite]
    exact hb.favourite
  · change (0 : ℚ) ≤ (b.targetPosition.toInt : ℚ) ∧ (b.targetPosition.toInt : ℚ) ≤ 100
    exact_mod_cast hb.target

/-- After a restart everything is clean, and everything that was loaded fits its record. -/
theorem Faithful.restart (h : d.config.lost = false → d.Faithful) {mqttEnabled : Bool}
    {slots : ℕ → RecvCommand} (hd : d.restart mqttEnabled slots = some d')
    (hlost : d'.config.lost = false) : d'.Faithful := by
  have hfaithful := h (lasting_restart hd hlost)
  obtain ⟨d₁, h₁, h₂⟩ := Option.bind_eq_some_iff.mp hd
  obtain ⟨hdurable, hsaves⟩ := saveAll_durable (fun _ => hfaithful.inv) h₁ (lasting_boot h₂ hlost)
  obtain ⟨d₂, hboot, hres, hconfig, -, hinv⟩ := boot_inv mqttEnabled slots d₁.history hdurable
  obtain rfl : d' = d₂ := Option.some.inj (h₂.symm.trans hboot)
  have hrange₁ : ∀ (k : UInt32) (b : Blind), d₁.blinds[k]? = some b → b.InRange := fun k b' hb' => by
    have hk := hsaves.blind k
    rw [hb'] at hk
    generalize hx : d.blinds[k]? = x at hk
    cases hk with
    | @some b _ hk =>
        obtain ⟨hrange, -⟩ := hfaithful.blind k b hx
        rw [hk]
        exact ⟨hrange.target, hrange.favourite, hrange.position⟩
  refine ⟨hinv, fun id p hp => ?_, fun k b' hb' => ?_⟩
  · obtain ⟨hreadable, q, -, hheap⟩ := hres.old_remote mqttEnabled hp
    obtain ⟨-, -, -, -, hblinds, hname⟩ := reloaded_fields mqttEnabled (d₁.heap q)
    rw [hheap]
    refine ⟨hreadable, fun _ => ⟨?_, ?_⟩⟩
    · rw [hname]
      exact zero_not_mem_cText _
    · rw [hblinds]
      exact List.length_take_le _ _
  · obtain ⟨b, p, hb, hp, rfl⟩ := hres.old_blind mqttEnabled hb'
    refine ⟨reloaded_inRange (hrange₁ k b hb) mqttEnabled p, fun _ => ⟨?_, zero_not_mem_cText _⟩⟩
    obtain ⟨c, hc, hread⟩ := hdurable.blind hb
    refine ⟨c, ?_, by rw [hconfig]; exact hread⟩
    have hid : (d'.heap p).remoteId = (d₁.heap b.remote).remoteId := (hinv.registry.registered hp).2
    change (b.reloaded mqttEnabled p).toConfig (d'.heap p).remoteId = some c
    rw [hid]
    exact blind_toConfig_reloaded (hrange₁ k b hb) hc mqttEnabled p

/-- What every call keeps while no write is lost. -/
theorem Faithful.perform {c : Call} (h : d.config.lost = false → d.Faithful) (hv : c.Valid d)
    (hr : c.Regular d) (hm : c.Mindful d) (hd : d.perform c = some d')
    (hlost : d'.config.lost = false) : d'.Faithful := by
  have hinv' := Inv.perform (fun hl => (h hl).inv) hv hr hd hlost
  by_cases hc : c.reacts = true
  · have hreacts := reacts_perform hc hd
    exact (h (hreacts.lasting hlost)).reacts hreacts (marks_perform hc hm hd)
  cases c with
  | saveRemotes =>
      have hl : d.Lasting d' := Transitions.foldlM_keeps
        (f := fun (d : Device) (entry : UInt32 × ℕ) => d.saveRemote entry.2 false) (R := Lasting)
        .refl .trans lasting_saveRemote hd
      exact (h (hl hlost)).saveRemoteState hm hd hlost
  | saveBlinds =>
      have hl : d.Lasting d' := Transitions.foldlM_keeps
        (f := fun (d : Device) k => d.saveBlindAt false k) (R := Lasting)
        .refl .trans lasting_saveBlindAt hd
      exact (h (hl hlost)).saveBlindState hm hd hlost
  | restart mqttEnabled slots => exact Faithful.restart h hd hlost
  | addBlind name openTime closeTime =>
      exact (h (lasting_addBlind hd hlost)).addBlind hr.1 hr.2.1 hr.2.2 hm hd hinv' hlost
  | updateBlind k b name openTime closeTime =>
      cases hd
      have hinv := (h hlost).inv
      have hs := SameRegistry.modifyBlind d k
        (fun b => b.updateConfig d.mqttEnabled name openTime closeTime) fun _ _ => rfl
      have hblind := (h hlost).updateBlind k name openTime closeTime
        ⟨hs.registry hinv.registry, hinv.stored.quiet hs rfl fun _ _ => rfl⟩
      have hf := setName_fields (d.heap b.remote) d.mqttEnabled name
      exact hblind.modifyRemote hinv' (.modifyRemote _ _ _ hf.1 hf.2.1) hf.2.2.1
  | removeBlind k b =>
      exact (h (lasting_removeBlind hd hlost)).removeBlind hv hr.1 hr.2 hd hinv'
  | createRemote name => exact (h (lasting_createRemote hd hlost)).createRemote hr hm hd hinv'
  | importRemote name id =>
      have hfaithful := h (lasting_registerRemote hd hlost)
      obtain ⟨hf, hi, hx⟩ := hr
      refine hfaithful.registerRemote hf hm.1 hm.2 ?_ ?_ hd hinv'
      · exact hi
      · exact hx
  | rename p name =>
      cases hd
      have hf := setName_fields (d.heap p) d.mqttEnabled name
      exact (h hlost).modifyRemote hinv' (.modifyRemote _ _ _ hf.1 hf.2.1) hf.2.2.1
  | deleteRemote id => exact (h (lasting_deleteRemote hd hlost)).deleteRemote hr hd hinv'
  | associate p blindId =>
      cases hd
      have hf := associateBlind_fields (d.heap p) blindId
      exact (h hlost).modifyRemote hinv' (.modifyRemote _ _ _ hf.1 hf.2)
        (associateBlind_isDirty _ _)
  | disassociate p blindId =>
      cases hd
      exact (h hlost).modifyRemote hinv' (.modifyRemote _ _ _ rfl rfl) rfl
  | _ => exact absurd rfl hc

/-- What the run asks of the calls besides the checks of the handlers. -/
def Mindful (d : Device) (e : Event) : Prop := ∀ c, d.call e = some c → c.Mindful d

end Device

end PicoSomfy
