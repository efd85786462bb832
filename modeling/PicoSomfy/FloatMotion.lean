import PicoSomfy.Binary32
import PicoSomfy.DeviceRuns
import PicoSomfy.PositionRuns

/-!
# The motion in single precision

The position of a blind is a float. `UpdatePosition` rounds the time since the last tick to
a float and divides it, divides 100 by the travel time, multiplies, and adds the product to
the position, and each of these operations rounds once more.

The last place of a float near 100 is `2 ^ (-17)`. A tick that adds less than half of it
leaves the position where it is. A tick adds more when it takes 0.038148 microseconds or
longer for each second of travel time. Such a tick brings the blind nearer to its target, or
the blind arrives.
-/
namespace PicoSomfy

open SortedMap

namespace Blind

variable {b : Blind} {now : ℤ}

/-- The seconds that `UpdatePosition` divides by. -/
def divisor (b : Blind) : Int32 := if b.motionDirection > 0 then b.openTime else -b.closeTime

def elapsed (b : Blind) (now : ℤ) : ℚ :=
  Binary32.round (Binary32.round (now - b.lastTick : ℤ) / 1000000)

def pctPerSecond (b : Blind) : ℚ := Binary32.round (100 / Binary32.round b.divisor.toInt)

def travelled (b : Blind) (now : ℤ) : ℚ := Binary32.round (b.elapsed now * b.pctPerSecond)

/-- The float that is the position after moving since the last tick. -/
def travel32 (b : Blind) (now : ℤ) : ℚ :=
  if b.divisor = 0 then 100
  else min 100 (max 0 (Binary32.round (b.intermediatePosition + b.travelled now)))

theorem travel32_bounds (b : Blind) (now : ℤ) : 0 ≤ b.travel32 now ∧ b.travel32 now ≤ 100 := by
  unfold travel32
  split_ifs
  · norm_num
  · exact ⟨le_min (by norm_num) (le_max_left _ _), min_le_left _ _⟩

/-- The time for the whole way in the direction of the motion. -/
def travelTime (b : Blind) : ℤ :=
  if b.motionDirection > 0 then b.openTime.toInt else b.closeTime.toInt

theorem Moves.travelTime_pos (h : b.Moves) : 0 < b.travelTime := by
  unfold travelTime
  split_ifs
  · exact h.openTime
  · exact h.closeTime

theorem travelTime_lt (b : Blind) : b.travelTime < 2 ^ 31 := by
  have hopen := b.openTime.toInt_lt
  have hclose := b.closeTime.toInt_lt
  unfold travelTime
  split_ifs <;> omega

theorem Moves.toInt_divisor (h : b.Moves) :
    (b.motionDirection > 0 → b.divisor.toInt = b.travelTime) ∧
      (¬b.motionDirection > 0 → b.divisor.toInt = -b.travelTime) := by
  unfold divisor travelTime
  refine ⟨fun hd => by rw [if_pos hd, if_pos hd], fun hd => ?_⟩
  rw [if_neg hd, if_neg hd, toInt_neg_of_pos h.closeTime]

theorem Moves.abs_divisor (h : b.Moves) : |(b.divisor.toInt : ℚ)| = b.travelTime := by
  have hpos : (0 : ℚ) < b.travelTime := by exact_mod_cast h.travelTime_pos
  by_cases hd : b.motionDirection > 0
  · rw [h.toInt_divisor.1 hd, abs_of_pos hpos]
  · rw [h.toInt_divisor.2 hd, Int.cast_neg, abs_neg, abs_of_pos hpos]

theorem Moves.divisor_ne (h : b.Moves) : b.divisor ≠ 0 := by
  intro hzero
  have habs := h.abs_divisor
  rw [hzero, Int32.toInt_zero, Int.cast_zero, abs_zero] at habs
  have hpos : (0 : ℚ) < b.travelTime := by exact_mod_cast h.travelTime_pos
  exact absurd habs hpos.ne

/-- The rate after its two roundings. -/
theorem Moves.within_pctPerSecond (h : b.Moves) :
    Binary32.Within 2 (100 / b.divisor.toInt) b.pctPerSecond := by
  have habs := h.abs_divisor
  have hlow : (1 : ℚ) ≤ b.travelTime := by exact_mod_cast h.travelTime_pos
  have hhigh : (b.travelTime : ℚ) ≤ 2 ^ 31 := by exact_mod_cast b.travelTime_lt.le
  have htime : Binary32.Within 1 (b.divisor.toInt : ℚ) (Binary32.round b.divisor.toInt) :=
    Binary32.within_round (by rw [habs]; exact le_trans (by norm_num) hlow)
  refine ((Binary32.Within.refl 100).div htime).round (by norm_num) ?_
  rw [abs_div, habs, abs_of_pos (by norm_num), le_div_iff₀ (by linarith)]
  calc (2 : ℚ) ^ (-125 : ℤ) * b.travelTime ≤ 2 ^ (-125 : ℤ) * 2 ^ 31 := by gcongr
    _ ≤ 100 := by norm_num

theorem Moves.sign_pctPerSecond (h : b.Moves) :
    (b.motionDirection > 0 → 0 < b.pctPerSecond) ∧
      (b.motionDirection < 0 → b.pctPerSecond < 0) := by
  have hpos : (0 : ℚ) < b.travelTime := by exact_mod_cast h.travelTime_pos
  refine ⟨fun hd => ?_, fun hd => ?_⟩
  · rw [h.within_pctPerSecond.pos_iff, h.toInt_divisor.1 hd]
    positivity
  · rw [h.within_pctPerSecond.neg_iff, h.toInt_divisor.2 (by omega), Int.cast_neg, div_neg,
      neg_lt_zero]
    positivity

/-- What a tick adds, after all roundings. -/
theorem Moves.within_travelled (h : b.Moves) (hnow : b.lastTick < now) :
    Binary32.Within 5 (((now - b.lastTick : ℤ) : ℚ) / 1000000 * (100 / b.divisor.toInt))
      (b.travelled now) := by
  have habs := h.abs_divisor
  have hmicro : (1 : ℚ) ≤ ((now - b.lastTick : ℤ) : ℚ) := by
    exact_mod_cast (by omega : 1 ≤ now - b.lastTick)
  have hhigh : (b.travelTime : ℚ) ≤ 2 ^ 31 := by exact_mod_cast b.travelTime_lt.le
  have hpos : (0 : ℚ) < b.travelTime := by exact_mod_cast h.travelTime_pos
  have htime : Binary32.Within 1 ((now - b.lastTick : ℤ) : ℚ)
      (Binary32.round (now - b.lastTick : ℤ)) := by
    refine Binary32.within_round ?_
    rw [abs_of_pos (by linarith)]
    exact le_trans (by norm_num) hmicro
  have hseconds : (1 : ℚ) / 1000000 ≤ |((now - b.lastTick : ℤ) : ℚ) / 1000000| := by
    rw [abs_of_pos (by linarith)]
    gcongr
  have helapsed : Binary32.Within 2 (((now - b.lastTick : ℤ) : ℚ) / 1000000) (b.elapsed now) :=
    (htime.div (.refl 1000000)).round (by norm_num) (le_trans (by norm_num) hseconds)
  refine (helapsed.mul h.within_pctPerSecond).round (by norm_num) ?_
  have hrate : (100 : ℚ) / 2 ^ 31 ≤ |100 / (b.divisor.toInt : ℚ)| := by
    rw [abs_div, habs, abs_of_pos (by norm_num)]
    gcongr
  rw [abs_mul]
  calc (2 : ℚ) ^ (-125 : ℤ) ≤ 1 / 1000000 * (100 / 2 ^ 31) := by norm_num
    _ ≤ _ := mul_le_mul hseconds hrate (by norm_num) (abs_nonneg _)

/-- A tick of this time is not lost in the roundings. -/
def LongTick (b : Blind) (microseconds : ℤ) : Prop :=
  38148 * b.travelTime ≤ 1000000 * microseconds

theorem Moves.pos_of_longTick (h : b.Moves) {microseconds : ℤ} (hlong : b.LongTick microseconds) :
    0 < microseconds := by
  have hpos := h.travelTime_pos
  unfold LongTick at hlong
  omega

/-- A tick that is long enough adds more than half of the last place, in the direction of
the motion. -/
theorem Moves.travelled_far (h : b.Moves) (hlong : b.LongTick (now - b.lastTick)) :
    (b.motionDirection > 0 → 1 / 2 ^ 18 + 1 / 2 ^ 34 ≤ b.travelled now) ∧
      (¬b.motionDirection > 0 → b.travelled now ≤ -(1 / 2 ^ 18 + 1 / 2 ^ 34)) := by
  have hnow := h.pos_of_longTick hlong
  have hwithin := h.within_travelled (show b.lastTick < now by omega)
  have hmicro : (0 : ℚ) < ((now - b.lastTick : ℤ) : ℚ) := by exact_mod_cast hnow
  have hpos : (0 : ℚ) < b.travelTime := by exact_mod_cast h.travelTime_pos
  have hexact : (38148 : ℚ) / 10 ^ 10 ≤
      ((now - b.lastTick : ℤ) : ℚ) / 1000000 * (100 / b.travelTime) := by
    have hcast : (38148 : ℚ) * b.travelTime ≤ 1000000 * ((now - b.lastTick : ℤ) : ℚ) := by
      exact_mod_cast hlong
    rw [div_mul_div_comm, div_le_div_iff₀ (by norm_num) (by positivity)]
    linarith
  have hfar : (1 : ℚ) / 2 ^ 18 + 1 / 2 ^ 34 ≤ |b.travelled now| := by
    refine le_trans ?_ hwithin.abs_le
    rw [abs_mul, abs_div 100, h.abs_divisor, abs_of_pos (show (0 : ℚ) < 100 by norm_num),
      abs_of_pos (show 0 < ((now - b.lastTick : ℤ) : ℚ) / 1000000 by positivity)]
    calc (1 : ℚ) / 2 ^ 18 + 1 / 2 ^ 34 ≤ (1 - (5 : ℕ) / 2 ^ 24) * (38148 / 10 ^ 10) := by norm_num
      _ ≤ _ := by gcongr
  have hsign := hwithin.pos_iff
  refine ⟨fun hd => ?_, fun hd => ?_⟩
  · have htravelled : 0 < b.travelled now := by
      rw [hsign, h.toInt_divisor.1 hd]
      positivity
    rwa [abs_of_pos htravelled] at hfar
  · have htravelled : ¬0 < b.travelled now := by
      rw [hsign, h.toInt_divisor.2 hd, Int.cast_neg, div_neg, mul_neg, not_lt, neg_nonpos]
      positivity
    rw [abs_of_nonpos (not_lt.mp htravelled)] at hfar
    linarith

/-- How far the motion has come, in percent of the way. -/
def way (b : Blind) : ℚ :=
  if b.motionDirection > 0 then b.intermediatePosition else 100 - b.intermediatePosition

theorem way_bounds (h : b.InRange) : 0 ≤ b.way ∧ b.way ≤ 100 := by
  obtain ⟨hlow, hhigh⟩ := h.position
  unfold way
  split_ifs
  · exact ⟨hlow, hhigh⟩
  · constructor <;> linarith

/-- A blind that is still on its way after a long tick has come nearer. -/
theorem Moves.way_travel32 (h : b.Moves) (hd : b.motionDirection ≠ 0)
    (hlong : b.LongTick (now - b.lastTick))
    (haway : ¬{ b with intermediatePosition := b.travel32 now }.atTarget) :
    b.way + 1 / 2 ^ 34 ≤ { b with intermediatePosition := b.travel32 now }.way := by
  obtain ⟨hup, hdown⟩ := h.travelled_far hlong
  obtain ⟨hlow, hhigh⟩ := h.inRange.position
  have htarget : (0 : ℚ) ≤ b.targetPosition.toInt ∧ (b.targetPosition.toInt : ℚ) ≤ 100 := by
    exact_mod_cast h.inRange.target
  have htravel : b.travel32 now =
      min 100 (max 0 (Binary32.round (b.intermediatePosition + b.travelled now))) :=
    if_neg h.divisor_ne
  have hround := Binary32.abs_round_sub_le_or (n := 7) (by norm_num)
    (b.intermediatePosition + b.travelled now)
  rw [show (2 : ℚ) ^ ((7 : ℤ) - 25) = 1 / 2 ^ 18 by norm_num,
    show (2 : ℚ) ^ (7 : ℤ) = 128 by norm_num] at hround
  simp only [atTarget, not_or, not_and, not_le, ge_iff_le] at haway
  obtain ⟨habove, hbelow⟩ := haway
  unfold way
  by_cases hopen : b.motionDirection > 0
  · have hfar := hup hopen
    have hless := habove hopen
    rw [if_pos hopen, if_pos hopen]
    rw [htravel] at hless ⊢
    -- the position is below 100, so it was not cut off there
    have hposition : Binary32.round (b.intermediatePosition + b.travelled now) < 100 := by
      by_contra hbig
      rw [min_eq_left ((not_lt.mp hbig).trans (le_max_right _ _))] at hless
      linarith
    have hcut : Binary32.round (b.intermediatePosition + b.travelled now) ≤
        min 100 (max 0 (Binary32.round (b.intermediatePosition + b.travelled now))) :=
      le_min hposition.le (le_max_right _ _)
    rcases hround with hnear | ⟨hbig, hnear⟩
    · linarith [(abs_le.mp hnear).1]
    · rw [abs_of_nonneg (by linarith : 0 ≤ b.intermediatePosition + b.travelled now)] at hbig hnear
      linarith [(abs_le.mp hnear).1]
  · have hfar := hdown hopen
    have hmore := hbelow (lt_of_le_of_ne (not_lt.mp hopen) hd)
    rw [if_neg hopen, if_neg hopen]
    rw [htravel] at hmore ⊢
    have hposition : 0 < Binary32.round (b.intermediatePosition + b.travelled now) := by
      by_contra hsmall
      rw [max_eq_left (not_lt.mp hsmall), min_eq_right (by norm_num)] at hmore
      linarith
    have hcut : min 100 (max 0 (Binary32.round (b.intermediatePosition + b.travelled now))) ≤
        Binary32.round (b.intermediatePosition + b.travelled now) :=
      (min_le_right _ _).trans (max_le hposition.le le_rfl)
    rcases hround with hnear | ⟨hbig, hnear⟩
    · linarith [(abs_le.mp hnear).2]
    · have hneg : b.intermediatePosition + b.travelled now < 0 := by
        by_contra hpos
        rw [abs_of_nonneg (not_lt.mp hpos)] at hbig
        linarith
      rw [abs_of_neg hneg] at hbig hnear
      linarith [(abs_le.mp hnear).2]

end Blind

namespace Device

/-- The tick of the code, which computes with floats. -/
def tick32 (d : Device) (k : UInt32) (position state : Bool) : Option Device :=
  d.tickBy Blind.travel32 k position state

def perform32 (d : Device) : Call → Option Device
  | .tick k position state => d.tick32 k position state
  | c => d.perform c

def step32 (d : Device) (e : Event) : Option Device := (d.call e).bind d.perform32

/-- `Blind::UpdatePosition` with any arithmetic of the motion. -/
def updatePositionBy (travel : Blind → ℤ → ℚ) (d : Device) (k : UInt32) (position state : Bool) :
    Option Device :=
  (d.blinds[k]?).bind fun b =>
    ((d.modifyBlind k fun b => { b with refreshTimer := none }).moveBlindBy travel k b).map fun d =>
      d.modifyBlind k fun b =>
        b.finishTick d.clock (Blind.publishPosition d.mqttEnabled position state)

theorem updatePositionBy_travel : updatePositionBy Blind.travel = updatePosition := rfl

/-- The refresh timer runs it some time later. -/
def turn32 (k : UInt32) (d : Device) (e : ℤ × Bool × Bool) : Option Device :=
  (d.after e.1).updatePositionBy Blind.travel32 k e.2.1 e.2.2

variable {d d' : Device} {k : UInt32} {b : Blind} {e : ℤ × Bool × Bool}

theorem reacts_perform32 {c : Call} (hc : c.reacts = true) (h : d.perform32 c = some d') :
    d.Reacts d' := by
  cases c with
  | tick k position state => exact .tickBy Blind.travel32_bounds h
  | _ => exact reacts_perform hc h

/-- Only ticks compute with floats. -/
theorem perform32_eq {c : Call} (hc : c.reacts = false) : d.perform32 c = d.perform c := by
  cases c <;> first | rfl | cases hc

theorem turn32_reacts (h : turn32 k d e = some d') : (d.after e.1).Reacts d' := by
  obtain ⟨b, -, h⟩ := Option.bind_eq_some_iff.mp h
  obtain ⟨d₁, h₁, rfl⟩ := Option.map_eq_some_iff.mp h
  exact (Reacts.retime _ k _ fun _ => rfl).trans
    ((Reacts.moveBlindBy Blind.travel32_bounds h₁).trans (.retime d₁ k _ fun _ => rfl))

/-- When the blinds of its primary remote exist, no tick of a blind fails. -/
theorem turn32_total (hb : d.blinds[k]? = some b) (hp : d.Reaches b.remote)
    (e : ℤ × Bool × Bool) : ∃ d', turn32 k d e = some d' := by
  have hstart : ((d.after e.1).modifyBlind k fun b => { b with refreshTimer := none }).blinds[k]? =
      some { b with refreshTimer := none } := by
    rw [modifyBlind_self, show (d.after e.1).blinds[k]? = some b from hb, Option.map_some]
  have hreaches : ((d.after e.1).modifyBlind k fun b =>
      { b with refreshTimer := none }).Reaches b.remote :=
    fun i hi => Std.ExtTreeMap.mem_modify.mpr (hp i hi)
  obtain ⟨d₁, h₁⟩ := moveBlindBy_total Blind.travel32 hstart hreaches b
  unfold turn32 updatePositionBy
  rw [show (d.after e.1).blinds[k]? = some b from hb, Option.bind_some, h₁]
  exact ⟨_, rfl⟩

theorem ticks32_total (hb : d.blinds[k]? = some b) (hr : d.Reaches b.remote)
    (es : List (ℤ × Bool × Bool)) : ∃ d', es.foldlM (turn32 k) d = some d' := by
  obtain ⟨d', hd', -⟩ := Transitions.foldlM_total (f := turn32 k)
    (I := fun s => ∃ c, s.blinds[k]? = some c ∧ s.Reaches c.remote)
    (fun {s e} (_ : e ∈ es) ⟨c, hc, hreaches⟩ => by
      obtain ⟨t, ht⟩ := turn32_total hc hreaches e
      have hreacts := turn32_reacts ht
      have hrel := hreacts.blind k
      rw [show (s.after e.1).blinds[k]? = some c from hc] at hrel
      generalize hx : t.blinds[k]? = x at hrel
      cases hrel with
      | @some _ c' hrel =>
          have hremote : c'.remote = c.remote := (Prod.ext_iff.mp hrel.link).2
          exact ⟨t, ht, c', hx, by rw [hremote]; exact hreacts.reaches hreaches⟩)
    ⟨b, hb, hr⟩
  exact ⟨d', hd'⟩

/-- Stopping takes no time and leaves the blind where it is. -/
theorem stop_place (h : d.stop k = some d') :
    d'.clock = d.clock ∧ (d'.blinds[k]?).map (·.intermediatePosition) =
      (d.blinds[k]?).map (·.intermediatePosition) := by
  obtain ⟨b, -, h⟩ := Option.bind_eq_some_iff.mp h
  split_ifs at h
  · have hplace := pressButtons_place h k
    refine ⟨by rw [pressButtons_eq h]; rfl, ?_⟩
    have hsnd := congrArg (Option.map Prod.snd) hplace
    rw [Option.map_map, Option.map_map] at hsnd
    exact hsnd
  · obtain rfl := Option.some.inj h
    exact ⟨rfl, rfl⟩

/-- The blind moves on, or it has arrived and rests at its target. -/
theorem moveBlindBy_place {travel : Blind → ℤ → ℚ} {timer : Option ℤ}
    (htravel : ∀ now, travel { b with refreshTimer := timer } now = travel b now)
    (hb : d.blinds[k]? = some { b with refreshTimer := timer }) (hmoving : b.motionDirection ≠ 0)
    (h : d.moveBlindBy travel k b = some d') :
    d'.clock = d.clock ∧ ∃ b', d'.blinds[k]? = some b' ∧
      ((¬{ b with intermediatePosition := travel b d.clock }.atTarget ∧
          b' = { b with refreshTimer := timer, intermediatePosition := travel b d.clock }) ∨
        ({ b with intermediatePosition := travel b d.clock }.atTarget ∧
          b'.intermediatePosition = b.targetPosition.toInt ∧ b'.motionDirection = 0)) := by
  unfold Device.moveBlindBy at h
  rw [if_neg hmoving] at h
  by_cases hat : { b with intermediatePosition := travel b d.clock }.atTarget
  · rw [if_pos hat] at h
    obtain ⟨e, he, rfl⟩ := Option.map_eq_some_iff.mp h
    have hplaced : (d.modifyBlind k
        fun b => { b with intermediatePosition := b.targetPosition.toInt }).blinds[k]? =
          some { b with refreshTimer := timer, intermediatePosition := b.targetPosition.toInt } := by
      rw [modifyBlind_self, hb, Option.map_some]
    have harrived : e.clock = d.clock ∧ (e.blinds[k]?).map (·.intermediatePosition) =
        some (b.targetPosition.toInt : ℚ) := by
      split_ifs at he
      · obtain ⟨hclock, hplace⟩ := stop_place he
        exact ⟨hclock, by rw [hplace, hplaced, Option.map_some]⟩
      · obtain rfl := Option.some.inj he
        exact ⟨rfl, by rw [hplaced, Option.map_some]⟩
    obtain ⟨hclock, hplace⟩ := harrived
    obtain ⟨b₂, hb₂, hpos⟩ := Option.map_eq_some_iff.mp hplace
    refine ⟨hclock, { b₂ with motionDirection := 0 }, ?_, .inr ⟨hat, hpos, rfl⟩⟩
    rw [modifyBlind_self, hb₂, Option.map_some]
  · rw [if_neg hat] at h
    obtain rfl := Option.some.inj h
    refine ⟨rfl, { b with refreshTimer := timer, intermediatePosition := travel b d.clock }, ?_,
      .inl ⟨hat, rfl⟩⟩
    rw [modifyBlind_self, hb, Option.map_some, htravel]

/-- A tick of a moving blind. -/
theorem turn32_place (hb : d.blinds[k]? = some b) (hmoving : b.motionDirection ≠ 0)
    (h : turn32 k d e = some d') :
    d'.clock = d.clock + e.1 ∧ ∃ b', d'.blinds[k]? = some b' ∧
      ((¬{ b with intermediatePosition := b.travel32 (d.clock + e.1) }.atTarget ∧
          ∃ timer, b' = { b with
            refreshTimer := timer
            intermediatePosition := b.travel32 (d.clock + e.1)
            lastTick := d.clock + e.1 }) ∨
        ({ b with intermediatePosition := b.travel32 (d.clock + e.1) }.atTarget ∧
          b'.intermediatePosition = b.targetPosition.toInt ∧ b'.motionDirection = 0)) := by
  unfold turn32 updatePositionBy at h
  rw [show (d.after e.1).blinds[k]? = some b from hb, Option.bind_some] at h
  obtain ⟨d₁, h₁, rfl⟩ := Option.map_eq_some_iff.mp h
  have hstart : ((d.after e.1).modifyBlind k fun b => { b with refreshTimer := none }).blinds[k]? =
      some { b with refreshTimer := none } := by
    rw [modifyBlind_self, show (d.after e.1).blinds[k]? = some b from hb, Option.map_some]
  obtain ⟨hclock, b₁, hb₁, hcases⟩ := moveBlindBy_place (fun _ => rfl) hstart hmoving h₁
  have hclock' : d₁.clock = d.clock + e.1 := hclock
  refine ⟨hclock', _, by rw [modifyBlind_self, hb₁, Option.map_some], ?_⟩
  rcases hcases with ⟨hway, rfl⟩ | ⟨hat, hpos, hrest⟩
  · refine .inl ⟨hway, ?_⟩
    unfold Blind.finishTick
    rw [hclock']
    exact ⟨_, rfl⟩
  · exact .inr ⟨hat, hpos, hrest⟩

/-- The blind rests at the target of its motion. -/
def RestsAt (d : Device) (k : UInt32) (target : Int32) : Prop :=
  ∃ b, d.blinds[k]? = some b ∧ b.motionDirection = 0 ∧ b.intermediatePosition = target.toInt

/-- A blind in the same motion that has come nearer in so many ticks. -/
structure Nearing (b : Blind) (n : ℕ) (d : Device) (k : UInt32) (c : Blind) : Prop where
  blind : d.blinds[k]? = some c
  moves : c.Moves
  target : c.targetPosition = b.targetPosition
  direction : c.motionDirection = b.motionDirection
  travelTime : c.travelTime = b.travelTime
  lastTick : c.lastTick ≤ d.clock
  way : (n : ℚ) / 2 ^ 34 ≤ c.way

/-- One tick. -/
theorem Nearing.turn {c : Blind} {n : ℕ} (h : Nearing b n d k c) (hmoving : b.motionDirection ≠ 0)
    (he : b.LongTick e.1) (hd : turn32 k d e = some d') :
    d'.RestsAt k b.targetPosition ∨ ∃ c', Nearing b (n + 1) d' k c' := by
  have hmoving' : c.motionDirection ≠ 0 := by rwa [h.direction]
  have hlong : c.LongTick (d.clock + e.1 - c.lastTick) := by
    have hlast := h.lastTick
    unfold Blind.LongTick at he ⊢
    rw [h.travelTime]
    omega
  obtain ⟨hclock, c', hc', ⟨haway, timer, rfl⟩ | ⟨-, hpos, hrest⟩⟩ :=
    turn32_place h.blind hmoving' hd
  · right
    have hway := h.moves.way_travel32 hmoving' hlong haway
    have hplace := c.travel32_bounds (d.clock + e.1)
    refine ⟨_, hc', ⟨⟨h.moves.inRange.target, h.moves.inRange.favourite, hplace⟩,
      h.moves.openTime, h.moves.closeTime⟩, h.target, h.direction, h.travelTime, hclock.ge, ?_⟩
    calc ((n + 1 : ℕ) : ℚ) / 2 ^ 34 = n / 2 ^ 34 + 1 / 2 ^ 34 := by push_cast; ring
      _ ≤ c.way + 1 / 2 ^ 34 := by gcongr; exact h.way
      _ ≤ _ := hway
  · exact .inl ⟨c', hc', hrest, by rw [hpos, h.target]⟩

/-- A number of ticks after which every motion has ended. -/
def tickBound : ℕ := 100 * 2 ^ 34 + 1

/-- The motion of a blind ends at its target, whatever the ticks are, if none is lost. -/
def MotionEnds (d : Device) (k : UInt32) (b : Blind) : Prop :=
  ∀ es : List (ℤ × Bool × Bool), (∀ e ∈ es, b.LongTick e.1) → tickBound ≤ es.length →
    (d.Reaches b.remote → ∃ d', es.foldlM (turn32 k) d = some d') ∧
    ∀ d', es.foldlM (turn32 k) d = some d' →
      ∃ fs d₁, fs <+: es ∧ fs.foldlM (turn32 k) d = some d₁ ∧ d₁.RestsAt k b.targetPosition

theorem motionEnds (hb : d.blinds[k]? = some b) (hmoves : b.Moves) (hlast : b.lastTick ≤ d.clock)
    (hmoving : b.motionDirection ≠ 0) : d.MotionEnds k b := by
  intro es hes hlength
  refine ⟨fun hr => ticks32_total hb hr es, fun d' hrun => ?_⟩
  have hstart : Nearing b 0 d k b := by
    refine ⟨hb, hmoves, rfl, rfl, rfl, hlast, ?_⟩
    rw [Nat.cast_zero, zero_div]
    exact (Blind.way_bounds hmoves.inRange).1
  rcases Transitions.foldlM_nears (f := turn32 k) (fun d => d.RestsAt k b.targetPosition)
      (fun n d => ∃ c, Nearing b n d k c)
      (fun he ⟨_, hc⟩ ht => hc.turn hmoving (hes _ he) ht) ⟨b, hstart⟩ hrun with harrives | ⟨c, hc⟩
  · exact harrives
  -- no way is longer than 100
  exfalso
  have hway := hc.way.trans (Blind.way_bounds hc.moves.inRange).2
  rw [Nat.zero_add, div_le_iff₀ (by positivity)] at hway
  have hcount : es.length ≤ 100 * 2 ^ 34 := by exact_mod_cast hway
  unfold tickBound at hlength
  omega

end Device

end PicoSomfy
