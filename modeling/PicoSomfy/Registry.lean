import PicoSomfy.WebApi
import PicoSomfy.Transitions

/-!
# The registry of remotes and blinds

`Registry` is what the maps and the heap keep among themselves: an id leads to the
object that has it, no two remotes agree in the low half of their ids, and every
blind has a primary remote of its own, which is registered.

Most calls leave all objects where they are. `SameRegistry` says so, and `Reacts`
adds what buttons and time can do: a remote gets a new rolling code, a blind moves
inside its range.
-/
namespace PicoSomfy

open SortedMap

/-- What ties a blind to the maps. -/
def Blind.link (b : Blind) : UInt16 × ℕ := (b.blindId, b.remote)

/-- All positions of the blind lie between 0 and 100. -/
structure Blind.InRange (b : Blind) : Prop where
  target : 0 ≤ b.targetPosition.toInt ∧ b.targetPosition.toInt ≤ 100
  favourite : 0 ≤ b.favouritePosition.toInt ∧ b.favouritePosition.toInt ≤ 100
  position : 0 ≤ b.intermediatePosition ∧ b.intermediatePosition ≤ 100

namespace Device

variable {d d' d'' : Device}

/-- The object of a remote that requests can name. -/
def Registered (d : Device) (p : ℕ) : Prop := ∃ id : UInt32, d.remotes[id]? = some p

/-- The remote registered under an id. -/
def remote? (d : Device) (id : UInt32) : Option SomfyRemote := (d.remotes[id]?).map d.heap

structure Registry (d : Device) : Prop where
  registered : ∀ {id : UInt32} {p : ℕ}, d.remotes[id]? = some p → p < d.heapTop ∧ (d.heap p).remoteId = id
  internal : ∀ {id : UInt32} {p : ℕ}, d.remotes[id]? = some p → (d.heap p).isExternal = false →
    0x270000 < id.toNat ∧ id.toNat < d.nextRemoteId.toNat
  nextRemote : 0x270000 < d.nextRemoteId.toNat ∧ d.nextRemoteId.toNat ≤ 0x280000
  lowHalves : ∀ {a b : UInt32}, a ∈ d.remotes → b ∈ d.remotes → a.toUInt16 = b.toUInt16 → a = b
  blind : ∀ {k : UInt32} {b : Blind}, d.blinds[k]? = some b →
    b.blindId.toUInt32 = k ∧ k.toNat < d.nextBlindId.toNat
  nextBlind : d.nextBlindId.toNat ≤ 65536
  primary : ∀ {k : UInt32} {b : Blind}, d.blinds[k]? = some b →
    d.remotes[(d.heap b.remote).remoteId]? = some b.remote ∧
      (d.heap b.remote).isExternal = false
  distinct : ∀ {k k' : UInt32} {b b' : Blind}, d.blinds[k]? = some b → d.blinds[k']? = some b' →
    b.remote = b'.remote → k = k'

structure SameRegistry (d d' : Device) : Prop where
  heapTop : d'.heapTop = d.heapTop
  remotes : d'.remotes = d.remotes
  nextRemoteId : d'.nextRemoteId = d.nextRemoteId
  nextBlindId : d'.nextBlindId = d.nextBlindId
  remoteId : ∀ p, (d'.heap p).remoteId = (d.heap p).remoteId
  isExternal : ∀ p, (d'.heap p).isExternal = (d.heap p).isExternal
  link : ∀ k : UInt32, (d'.blinds[k]?).map Blind.link = (d.blinds[k]?).map Blind.link

namespace SameRegistry

theorem refl (d : Device) : SameRegistry d d :=
  ⟨rfl, rfl, rfl, rfl, fun _ => rfl, fun _ => rfl, fun _ => rfl⟩

theorem trans (h : SameRegistry d d') (k : SameRegistry d' d'') : SameRegistry d d'' where
  heapTop := k.heapTop.trans h.heapTop
  remotes := k.remotes.trans h.remotes
  nextRemoteId := k.nextRemoteId.trans h.nextRemoteId
  nextBlindId := k.nextBlindId.trans h.nextBlindId
  remoteId p := (k.remoteId p).trans (h.remoteId p)
  isExternal p := (k.isExternal p).trans (h.isExternal p)
  link i := (k.link i).trans (h.link i)

/-- Every blind was there before, with the same id and primary remote. -/
theorem old_blind (h : SameRegistry d d') {k : UInt32} {b' : Blind}
    (hb : d'.blinds[k]? = some b') :
    ∃ b, d.blinds[k]? = some b ∧ b'.blindId = b.blindId ∧ b'.remote = b.remote := by
  have hl := h.link k
  rw [hb, Option.map_some] at hl
  obtain ⟨b, hb', hlink⟩ := Option.map_eq_some_iff.mp hl.symm
  exact ⟨b, hb', (Prod.ext_iff.mp hlink).1.symm, (Prod.ext_iff.mp hlink).2.symm⟩

theorem mem_blinds (h : SameRegistry d d') {k : UInt32} : k ∈ d'.blinds ↔ k ∈ d.blinds := by
  have hl := congrArg Option.isSome (h.link k)
  simp only [Option.isSome_map] at hl
  rw [Std.ExtTreeMap.mem_iff_isSome_getElem?, Std.ExtTreeMap.mem_iff_isSome_getElem?, hl]

theorem registered (h : SameRegistry d d') {p : ℕ} : d'.Registered p ↔ d.Registered p := by
  simp only [Registered, h.remotes]

theorem registry (h : SameRegistry d d') (hr : d.Registry) : d'.Registry where
  registered {id p} hp := by
    rw [h.remotes] at hp
    rw [h.heapTop, h.remoteId]
    exact hr.registered hp
  internal {id p} hp he := by
    rw [h.remotes] at hp
    rw [h.isExternal] at he
    rw [h.nextRemoteId]
    exact hr.internal hp he
  nextRemote := by rw [h.nextRemoteId]; exact hr.nextRemote
  lowHalves {a b} := by rw [h.remotes]; exact hr.lowHalves
  blind {k b'} hb' := by
    obtain ⟨b, hb, hid, -⟩ := h.old_blind hb'
    rw [hid, h.nextBlindId]
    exact hr.blind hb
  nextBlind := by rw [h.nextBlindId]; exact hr.nextBlind
  primary {k b'} hb' := by
    obtain ⟨b, hb, -, hp⟩ := h.old_blind hb'
    rw [hp, h.remotes, h.remoteId, h.isExternal]
    exact hr.primary hb
  distinct {k k' b₁ b₂} h₁ h₂ hp := by
    obtain ⟨c₁, hc₁, -, hp₁⟩ := h.old_blind h₁
    obtain ⟨c₂, hc₂, -, hp₂⟩ := h.old_blind h₂
    exact hr.distinct hc₁ hc₂ (hp₁.symm.trans (hp.trans hp₂))

/-- A change of one remote that keeps its id and its origin. -/
theorem modifyRemote (d : Device) (p : ℕ) (f : SomfyRemote → SomfyRemote)
    (hid : (f (d.heap p)).remoteId = (d.heap p).remoteId)
    (hext : (f (d.heap p)).isExternal = (d.heap p).isExternal) :
    SameRegistry d (d.modifyRemote p f) := by
  refine ⟨rfl, rfl, rfl, rfl, fun q => ?_, fun q => ?_, fun _ => rfl⟩ <;>
  · by_cases hq : q = p
    · subst hq
      simp only [Device.modifyRemote, Function.update_self, hid, hext]
    · simp only [Device.modifyRemote, Function.update_of_ne hq]

/-- A change of one blind that keeps its id and its primary remote. -/
theorem modifyBlind (d : Device) (k : UInt32) (f : Blind → Blind)
    (hf : ∀ b, d.blinds[k]? = some b → (f b).link = b.link) :
    SameRegistry d (d.modifyBlind k f) := by
  refine ⟨rfl, rfl, rfl, rfl, fun _ => rfl, fun _ => rfl, fun i => ?_⟩
  simp only [Device.modifyBlind, get_modify]
  split_ifs with hi
  · subst hi
    cases hb : d.blinds[k]? with
    | none => rfl
    | some b => simp only [Option.map_some, hf b hb]
  · rfl

end SameRegistry

end Device

/-- What buttons and time do to a blind. -/
structure Blind.Reacts (b b' : Blind) : Prop where
  link : b'.link = b.link
  settings : b'.name = b.name ∧ b'.openTime = b.openTime ∧ b'.closeTime = b.closeTime
  inRange : b.InRange → b'.InRange

/-- What buttons do to a remote. -/
def SomfyRemote.Reacts (r r' : SomfyRemote) : Prop :=
  r' = r ∨ ∃ code, r' = { r with isDirty := true, rollingCode := code }

namespace Blind

variable {b : Blind}

theorem Reacts.refl (b : Blind) : b.Reacts b := ⟨rfl, ⟨rfl, rfl, rfl⟩, id⟩

theorem Reacts.trans {b' b'' : Blind} (h : b.Reacts b') (k : b'.Reacts b'') : b.Reacts b'' where
  link := k.link.trans h.link
  settings := ⟨k.settings.1.trans h.settings.1, k.settings.2.1.trans h.settings.2.1,
    k.settings.2.2.trans h.settings.2.2⟩
  inRange hb := k.inRange (h.inRange hb)

theorem roundAway_bounds {x : ℚ} (h : 0 ≤ x ∧ x ≤ 100) : 0 ≤ roundAway x ∧ roundAway x ≤ 100 := by
  rw [roundAway, if_pos h.1]
  constructor
  · exact Int.floor_nonneg.mpr (by linarith)
  · have hlt : ⌊x + 1 / 2⌋ < 101 := Int.floor_lt.mpr (by push_cast; linarith)
    omega

theorem toInt_ofInt_percent {i : ℤ} (h : 0 ≤ i ∧ i ≤ 100) : (Int32.ofInt i).toInt = i :=
  Int32.toInt_ofInt_of_le (by omega) (by omega)

theorem InRange.buttonsPressed (h : b.InRange) (button : SomfyButton) (long : Bool) (now : ℤ) :
    (b.buttonsPressed button long now).InRange := by
  have percent : ∀ {i : Int32}, i = 100 ∨ i = 0 → 0 ≤ i.toInt ∧ i.toInt ≤ 100 := by
    rintro i (rfl | rfl) <;> decide
  unfold Blind.buttonsPressed
  split_ifs
  · exact ⟨percent (.inl rfl), h.favourite, h.position⟩
  · exact ⟨percent (.inr rfl), h.favourite, h.position⟩
  · have hr := roundAway_bounds h.position
    refine ⟨?_, h.favourite, h.position⟩
    simpa only [touch, toInt_ofInt_percent hr] using hr
  · exact ⟨h.target, h.target, h.position⟩
  · exact h
  -- both directions towards the favourite
  · exact ⟨h.favourite, h.favourite, h.position⟩
  · exact ⟨h.favourite, h.favourite, h.position⟩
  · exact ⟨h.target, h.favourite, h.position⟩

theorem reacts_buttonsPressed (b : Blind) (button : SomfyButton) (long : Bool) (now : ℤ) :
    b.Reacts (b.buttonsPressed button long now) := by
  refine ⟨?_, ?_, fun h => h.buttonsPressed button long now⟩ <;>
  · unfold Blind.buttonsPressed
    split_ifs <;> simp [touch, Blind.link]

theorem travel_bounds (b : Blind) (now : ℤ) : 0 ≤ b.travel now ∧ b.travel now ≤ 100 := by
  unfold travel
  generalize (if b.motionDirection > 0 then b.openTime else -b.closeTime) = time
  split_ifs
  · norm_num
  · exact ⟨le_min (by norm_num) (le_max_left _ _), min_le_left _ _⟩

end Blind

namespace Device

variable {d d' d'' : Device}

structure Reacts (d d' : Device) : Prop where
  config : d'.config = d.config
  mqttEnabled : d'.mqttEnabled = d.mqttEnabled
  heapTop : d'.heapTop = d.heapTop
  remotes : d'.remotes = d.remotes
  nextRemoteId : d'.nextRemoteId = d.nextRemoteId
  nextBlindId : d'.nextBlindId = d.nextBlindId
  remote : ∀ p, (d.heap p).Reacts (d'.heap p)
  blind : ∀ k : UInt32, Option.Rel Blind.Reacts d.blinds[k]? d'.blinds[k]?

end Device

theorem SomfyRemote.Reacts.trans {r r' r'' : SomfyRemote} (h : r.Reacts r') (k : r'.Reacts r'') :
    r.Reacts r'' := by
  rcases k with rfl | ⟨code, rfl⟩
  · exact h
  · rcases h with rfl | ⟨code', rfl⟩
    · exact .inr ⟨code, rfl⟩
    · exact .inr ⟨code, rfl⟩

theorem SomfyRemote.Reacts.fields {r r' : SomfyRemote} (h : r.Reacts r') :
    r'.remoteId = r.remoteId ∧ r'.isExternal = r.isExternal ∧
      r'.associatedBlinds = r.associatedBlinds ∧ (r'.isDirty = false → r' = r) := by
  rcases h with rfl | ⟨code, rfl⟩
  · exact ⟨rfl, rfl, rfl, fun _ => rfl⟩
  · exact ⟨rfl, rfl, rfl, by simp⟩

namespace Device

variable {d d' d'' : Device}

namespace Reacts

theorem refl (d : Device) : d.Reacts d where
  config := rfl
  mqttEnabled := rfl
  heapTop := rfl
  remotes := rfl
  nextRemoteId := rfl
  nextBlindId := rfl
  remote _ := .inl rfl
  blind k := by
    cases d.blinds[k]? with
    | none => exact .none
    | some b => exact .some (.refl b)

theorem trans (h : d.Reacts d') (k : d'.Reacts d'') : d.Reacts d'' where
  config := k.config.trans h.config
  mqttEnabled := k.mqttEnabled.trans h.mqttEnabled
  heapTop := k.heapTop.trans h.heapTop
  remotes := k.remotes.trans h.remotes
  nextRemoteId := k.nextRemoteId.trans h.nextRemoteId
  nextBlindId := k.nextBlindId.trans h.nextBlindId
  remote p := (h.remote p).trans (k.remote p)
  blind i := by
    have h₁ := h.blind i
    have h₂ := k.blind i
    revert h₁ h₂
    generalize d.blinds[i]? = x
    generalize d'.blinds[i]? = y
    generalize d''.blinds[i]? = z
    rintro (h₁ | -) (h₂ | -)
    · exact .some (h₁.trans h₂)
    · exact .none

theorem sameRegistry (h : d.Reacts d') : SameRegistry d d' where
  heapTop := h.heapTop
  remotes := h.remotes
  nextRemoteId := h.nextRemoteId
  nextBlindId := h.nextBlindId
  remoteId p := (h.remote p).fields.1
  isExternal p := (h.remote p).fields.2.1
  link k := by
    have hk := h.blind k
    revert hk
    generalize d.blinds[k]? = x
    generalize d'.blinds[k]? = y
    rintro (hk | -)
    · simp only [Option.map_some, hk.link]
    · rfl

/-- Every blind comes from one that reacted. -/
theorem old_blind (h : d.Reacts d') {k : UInt32} {b' : Blind} (hb : d'.blinds[k]? = some b') :
    ∃ b, d.blinds[k]? = some b ∧ b.Reacts b' := by
  have hk := h.blind k
  rw [hb] at hk
  generalize hx : d.blinds[k]? = x at hk
  cases hk with
  | some hk => exact ⟨_, rfl, hk⟩

theorem modifyBlind (d : Device) (k : UInt32) (f : Blind → Blind)
    (hf : ∀ b, d.blinds[k]? = some b → b.Reacts (f b)) : d.Reacts (d.modifyBlind k f) := by
  refine { refl d with blind := fun i => ?_ }
  simp only [Device.modifyBlind, get_modify]
  split_ifs with hi
  · subst hi
    cases hb : d.blinds[k]? with
    | none => exact .none
    | some b => exact .some (hf b hb)
  · exact (refl d).blind i

theorem modifyRemote (d : Device) (p : ℕ) (f : SomfyRemote → SomfyRemote)
    (hf : (d.heap p).Reacts (f (d.heap p))) : d.Reacts (d.modifyRemote p f) := by
  refine { refl d with remote := fun q => ?_ }
  by_cases hq : q = p
  · subst hq
    simpa only [Device.modifyRemote, Function.update_self] using hf
  · simp only [Device.modifyRemote, Function.update_of_ne hq]
    exact .inl rfl

theorem note (d : Device) (h : Happening) : d.Reacts (d.note h) := { refl d with }

theorem tell {command : SomfyCommand} {long : Bool} {blindId : UInt16}
    (h : d.tell command long blindId = some d') : d.Reacts d' := by
  simp only [Device.tell, Option.ite_none_right_eq_some, Option.some.injEq] at h
  obtain ⟨-, rfl⟩ := h
  exact (modifyBlind d _ _ fun b _ => b.reacts_buttonsPressed _ _ _).trans (note _ _)

theorem tells {command : SomfyCommand} {long : Bool} {blindIds : List UInt16}
    (h : blindIds.foldlM (Device.tell command long) d = some d') : d.Reacts d' :=
  Transitions.foldlM_keeps refl trans tell h

theorem pressButtons {p : ℕ} {buttons : SomfyButton} {repeats : UInt16}
    (h : d.pressButtons p buttons repeats = some d') : d.Reacts d' := by
  unfold Device.pressButtons at h
  refine trans ?_ (tells h)
  have hr := (modifyRemote d p SomfyRemote.advance (.inr ⟨_, rfl⟩)).trans
    (note _ (.pressed ⟨(d.heap p).remoteId, (d.heap p).rollingCode, repeats, buttons⟩
      (d.radio.queueCommand
        ⟨(d.heap p).remoteId, (d.heap p).rollingCode, repeats, buttons⟩).1))
  exact { hr with }

theorem externalButtonPress {command : SomfyCommand}
    (h : d.externalButtonPress command = some d') : d.Reacts d' := by
  unfold Device.externalButtonPress at h
  split at h
  · cases h
    exact { refl d with }
  · unfold pressOverheard at h
    refine trans ?_ (tells h)
    exact (modifyRemote d _ _ (.inr ⟨_, rfl⟩)).trans (note _ _)

theorem stop {k : UInt32} (h : d.stop k = some d') : d.Reacts d' := by
  obtain ⟨b, -, h⟩ := Option.bind_eq_some_iff.mp h
  split_ifs at h
  · exact pressButtons h
  · exact Option.some.inj h ▸ refl d

theorem go {k : UInt32} {button : SomfyButton} (h : d.go k button = some d') : d.Reacts d' := by
  obtain ⟨b, -, h⟩ := Option.bind_eq_some_iff.mp h
  exact pressButtons h

theorem goWhen {k : UInt32} {button : SomfyButton} {c : Blind → Bool}
    (h : d.goWhen k button c = some d') : d.Reacts d' := by
  obtain ⟨b, -, h⟩ := Option.bind_eq_some_iff.mp h
  split_ifs at h
  · exact go h
  · exact Option.some.inj h ▸ refl d

theorem clampPosition_bounds (position : Int32) :
    0 ≤ (clampPosition position).toInt ∧ (clampPosition position).toInt ≤ 100 := by
  unfold clampPosition
  split_ifs with h₁ h₂
  · decide
  · decide
  · simp only [gt_iff_lt, Int32.lt_iff_toInt_lt, not_lt] at h₁ h₂
    exact ⟨h₂, h₁⟩

theorem goToPosition {k : UInt32} {position : Int32}
    (h : d.goToPosition k position = some d') : d.Reacts d' := by
  obtain ⟨d₁, h₁, h⟩ := Option.bind_eq_some_iff.mp h
  obtain ⟨d₂, h₂, rfl⟩ := Option.map_eq_some_iff.mp h
  refine (goWhen h₁).trans ((goWhen h₂).trans (modifyBlind d₂ k _ fun b _ => ⟨rfl, ?_, ?_⟩))
  · exact ⟨rfl, rfl, rfl⟩
  · exact fun hb => ⟨clampPosition_bounds position, hb.favourite, hb.position⟩

/-- The estimate of a blind becomes a position in the range. -/
theorem moveTo (d : Device) (k : UInt32) (position : Blind → ℚ)
    (hp : ∀ b : Blind, b.InRange → 0 ≤ position b ∧ position b ≤ 100) :
    d.Reacts (d.modifyBlind k fun b => { b with intermediatePosition := position b }) :=
  modifyBlind d k _ fun b _ =>
    ⟨rfl, ⟨rfl, rfl, rfl⟩, fun hb => ⟨hb.target, hb.favourite, hp b hb⟩⟩

/-- The direction and the times of a blind are not tied to anything. -/
theorem retime (d : Device) (k : UInt32) (f : Blind → Blind)
    (hf : ∀ b, f b = { b with
      lastTick := (f b).lastTick
      motionDirection := (f b).motionDirection
      refreshTimer := (f b).refreshTimer }) : d.Reacts (d.modifyBlind k f) := by
  refine modifyBlind d k f fun b _ => ?_
  rw [hf b]
  exact ⟨rfl, ⟨rfl, rfl, rfl⟩, fun hb => ⟨hb.target, hb.favourite, hb.position⟩⟩

theorem moveBlindBy {travel : Blind → ℤ → ℚ} {k : UInt32} {b : Blind}
    (htravel : ∀ b now, 0 ≤ travel b now ∧ travel b now ≤ 100)
    (h : d.moveBlindBy travel k b = some d') : d.Reacts d' := by
  unfold Device.moveBlindBy at h
  split at h
  · exact Option.some.inj h ▸ refl d
  split at h
  · obtain ⟨d₁, h₁, rfl⟩ := Option.map_eq_some_iff.mp h
    have harrive := moveTo d k (fun b => b.targetPosition.toInt) fun b hb => by
      exact_mod_cast hb.target
    refine harrive.trans (trans ?_ (retime d₁ k _ fun _ => rfl))
    split at h₁
    · exact stop h₁
    · exact Option.some.inj h₁ ▸ refl _
  · exact Option.some.inj h ▸ moveTo d k (fun b => travel b d.clock) fun b _ => htravel b _

theorem moveBlind {k : UInt32} {b : Blind} (h : d.moveBlind k b = some d') : d.Reacts d' :=
  moveBlindBy Blind.travel_bounds (show d.moveBlindBy Blind.travel k b = some d' from h)

theorem tickBy {travel : Blind → ℤ → ℚ} {k : UInt32} {position state : Bool}
    (htravel : ∀ b now, 0 ≤ travel b now ∧ travel b now ≤ 100)
    (h : d.tickBy travel k position state = some d') : d.Reacts d' := by
  obtain ⟨b, -, h⟩ := Option.bind_eq_some_iff.mp h
  split at h
  · obtain ⟨d₁, h₁, rfl⟩ := Option.map_eq_some_iff.mp h
    exact (retime d k _ fun _ => rfl).trans
      ((moveBlindBy htravel h₁).trans (retime d₁ k _ fun _ => rfl))
  · cases h

theorem tick {k : UInt32} {position state : Bool} (h : d.tick k position state = some d') :
    d.Reacts d' := by
  rw [← tickBy_travel] at h
  exact tickBy Blind.travel_bounds h

end Reacts

end Device

end PicoSomfy
