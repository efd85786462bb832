import PicoSomfy.CleanRecords
import PicoSomfy.IssuedIds
import PicoSomfy.RequestCalls
import PicoSomfy.BackedRecords
import PicoSomfy.FloatMotion

/-!
# Travel times

The rate of a moving blind is a quotient by its travel time, which only the requests that
add and change blinds set. They read the times with `"%d"` and ask for no more than a
number, so zero and negative times get through, and a blank text passes as whatever the
variable held.

When the times that are read are positive, every blind and every record of a blind has
positive times, also after a restart. Then the rate has the sign of the motion, and a
motion comes to rest at its target, if no tick of it is lost in the roundings. With a long
travel time the ticks of the refresh timer are lost. The ticks of a device compute with
floats here.
-/
namespace PicoSomfy

open SortedMap DeviceConfig

/-- A blind loaded from the record starts inside its range, and its travel takes time. -/
structure BlindConfig.Usable (c : BlindConfig) : Prop where
  position : 0 ≤ c.currentPosition.toInt ∧ c.currentPosition.toInt ≤ 100
  openTime : 0 < c.openTime.toInt
  closeTime : 0 < c.closeTime.toInt

/-- A record of a blind that is written is usable. -/
def FlashCall.Usable : FlashCall → Prop
  | .saveBlind _ c => c.Usable
  | _ => True

namespace DeviceConfig

variable {dc : DeviceConfig}

structure UsableBlinds (dc : DeviceConfig) : Prop where
  healthy : dc.Healthy
  listed : ∃ ids, dc.StoresIds .blindIds ids
  record : ∀ (k : UInt16) (c : BlindConfig), dc.getBlindConfig k = some c → c.Usable

/-- What is read after a write, whether or not there was room for it. -/
theorem Healthy.read_written (h : dc.Healthy) (r : Record) {data : List UInt8}
    (h₀ : 0 < data.length) (hd : data.length ≤ 252) :
    (dc.write r.key data).read r.key = some (BlockStorage.padded data) ∨
      (dc.write r.key data).read r.key = dc.read r.key := by
  by_cases hroom : dc.Room
  · left
    rw [h.read_write r r h₀ hd hroom, if_pos rfl]
  · exact .inr (h.read_write_full r r h₀ hd hroom)

theorem Healthy.getBlindConfig_saved (h : dc.Healthy) (k : UInt16) (c : BlindConfig) :
    (dc.saveBlindConfig k c).getBlindConfig k = some c ∨
      (dc.saveBlindConfig k c).getBlindConfig k = dc.getBlindConfig k := by
  unfold DeviceConfig.saveBlindConfig
  split_ifs with hsame
  · exact .inl hsame
  · have hb := c.encode_bounds
    refine (h.read_written (.blind k) hb.1 hb.2).imp (fun hread => ?_) fun hread => ?_
    · change Option.map _ ((dc.write (Record.blind k).key _).read (Record.blind k).key) = _
      rw [hread, Option.map_some, BlockStorage.padded, BlindConfig.decode_encode]
    · exact congrArg (Option.map BlindConfig.decode) hread

theorem Healthy.storesIds_saved (h : dc.Healthy) (r : Record) {ids old : List UInt16}
    (hfit : ids.length ≤ 124) (hold : dc.StoresIds r old) :
    ∃ new, (dc.saveIdList r.key ids).StoresIds r new :=
  (h.holds_saved r (n := ids.length) (FlashCall.fits16 hfit) hold).elim (fun hnew => ⟨ids, hnew⟩)
    fun hsame => ⟨old, hsame⟩

/-- A write to flash keeps the records usable. -/
theorem UsableBlinds.run (h : dc.UsableBlinds) {f : FlashCall} (hf : f.Fits) (hu : f.Usable) :
    (f.run dc).UsableBlinds := by
  have honly := FlashCall.onlyAt h.healthy hf
  obtain ⟨ids, hids⟩ := h.listed
  have hlisted : f.record ≠ .blindIds → ∃ ids, (f.run dc).StoresIds .blindIds ids := fun hne => by
    refine ⟨ids, hids.congr (honly.other fun hk => hne ?_)⟩
    rcases Record.key_eq hk with heq | ⟨a, b, heq, -⟩
    · exact heq.symm
    · cases heq
  have hrecord : ∀ (k : UInt16) (c : BlindConfig), f.record ≠ .blind k →
      (f.run dc).getBlindConfig k = some c → c.Usable := fun k c hne hc => by
    rw [Device.getBlindConfig_onlyAt honly hne] at hc
    exact h.record k c hc
  cases f with
  | saveBlind i config =>
      refine ⟨honly.healthy, hlisted (by simp [FlashCall.record]), fun k c hc => ?_⟩
      by_cases hk : i = k
      · subst hk
        rcases h.healthy.getBlindConfig_saved i config with hnew | hold
        · rw [FlashCall.run, hnew] at hc
          exact Option.some.inj hc ▸ hu
        · rw [FlashCall.run, hold] at hc
          exact h.record i c hc
      · exact hrecord k c (by simpa [FlashCall.record] using hk) hc
  | deleteBlind i =>
      refine ⟨honly.healthy, hlisted (by simp [FlashCall.record]), fun k c hc => ?_⟩
      by_cases hk : i = k
      · subst hk
        have hnone : (dc.deleteBlindConfig i).getBlindConfig i = none := by
          have hread := h.healthy.read_clear (.blind i) (.blind i)
          rw [if_pos rfl] at hread
          exact congrArg (Option.map BlindConfig.decode) hread
        rw [FlashCall.run, hnone] at hc
        cases hc
      · exact hrecord k c (by simpa [FlashCall.record] using hk) hc
  | blindIds new =>
      exact ⟨honly.healthy, h.healthy.storesIds_saved .blindIds hf hids,
        fun k c hc => hrecord k c (by simp [FlashCall.record]) hc⟩
  | _ =>
      exact ⟨honly.healthy, hlisted (by simp [FlashCall.record]),
        fun k c hc => hrecord k c (by simp [FlashCall.record]) hc⟩

theorem UsableBlinds.runs (h : dc.UsableBlinds) {fs : List FlashCall}
    (hf : ∀ f ∈ fs, f.Fits ∧ f.Usable) : (fs.foldl FlashCall.run dc).UsableBlinds := by
  induction fs generalizing dc with
  | nil => exact h
  | cons f fs ih =>
      obtain ⟨hfit, hu⟩ := hf f List.mem_cons_self
      exact ih (h.run hfit hu) fun g hg => hf g (List.mem_cons_of_mem _ hg)

end DeviceConfig

structure Blind.Travels (b : Blind) (now : ℤ) : Prop where
  moves : b.Moves
  direction : b.motionDirection = -1 ∨ b.motionDirection = 0 ∨ b.motionDirection = 1
  lastTick : b.lastTick ≤ now

namespace Blind

variable {b : Blind} {now : ℤ}

theorem Travels.press (h : b.Travels now) (button : SomfyButton) (long : Bool) :
    (b.buttonsPressed button long now).Travels now := by
  refine ⟨h.moves.press button long now, ?_, ?_⟩
  · unfold Blind.buttonsPressed
    split_ifs <;> simp [touch, h.direction]
  · have hself : b.Alike b := ⟨rfl, rfl, rfl, rfl⟩
    rcases hself.lastTick_press button long now with ⟨heq, -⟩ | ⟨-, heq, -⟩
    · exact heq.le
    · rw [heq]
      exact h.lastTick

/-- A blind that is given another place inside its range. -/
theorem Travels.placed (h : b.Travels now) {position : ℚ} (hp : 0 ≤ position ∧ position ≤ 100) :
    Travels { b with intermediatePosition := position } now :=
  ⟨⟨⟨h.moves.inRange.target, h.moves.inRange.favourite, hp⟩, h.moves.openTime, h.moves.closeTime⟩,
    h.direction, h.lastTick⟩

theorem Travels.sent (h : b.Travels now) {target : Int32}
    (ht : 0 ≤ target.toInt ∧ target.toInt ≤ 100) :
    Travels { b with targetPosition := target } now :=
  ⟨⟨⟨ht, h.moves.inRange.favourite, h.moves.inRange.position⟩, h.moves.openTime, h.moves.closeTime⟩,
    h.direction, h.lastTick⟩

/-- The timer and the marks of a blind do not matter. -/
theorem Travels.retimed (h : b.Travels now) (f : Blind → Blind)
    (hf : ∀ b, f b = { b with
      lastTick := (f b).lastTick
      motionDirection := (f b).motionDirection
      refreshTimer := (f b).refreshTimer
      isDirty := (f b).isDirty })
    (hd : (f b).motionDirection = b.motionDirection ∨ (f b).motionDirection = 0)
    (hl : (f b).lastTick ≤ now) : (f b).Travels now := by
  refine ⟨?_, ?_, hl⟩
  · rw [hf b]
    exact ⟨⟨h.moves.inRange.target, h.moves.inRange.favourite, h.moves.inRange.position⟩,
      h.moves.openTime, h.moves.closeTime⟩
  · rcases hd with heq | heq
    · rw [heq]
      exact h.direction
    · exact .inr (.inl heq)

/-- A new blind, or one that was loaded. -/
theorem travels_create {currentPosition openTime closeTime : Int32}
    (hp : 0 ≤ currentPosition.toInt ∧ currentPosition.toInt ≤ 100) (ho : 0 < openTime.toInt)
    (hc : 0 < closeTime.toInt) (mqttEnabled : Bool) (now : ℤ) (blindId : UInt16) (name : List UInt8)
    (favourite : Int32) (remote : ℕ) :
    (Blind.create mqttEnabled now blindId name currentPosition favourite openTime closeTime
      remote).Travels now := by
  refine ⟨⟨⟨hp, ?_, ?_⟩, ho, hc⟩, .inr (.inl rfl), le_rfl⟩
  · simp only [Blind.create]
    split_ifs with hout
    · decide
    · simp only [not_or, gt_iff_lt, Int32.lt_iff_toInt_lt, not_lt] at hout
      exact ⟨hout.2, hout.1⟩
  · have hat : (0 : ℚ) ≤ currentPosition.toInt ∧ (currentPosition.toInt : ℚ) ≤ 100 := by
      exact_mod_cast hp
    exact hat

/-- The record of such a blind is usable. -/
theorem Travels.toConfig (h : b.Travels now) {id : UInt32} {c : BlindConfig}
    (hc : b.toConfig id = some c) : c.Usable := by
  obtain ⟨name, -, rfl⟩ := Option.map_eq_some_iff.mp hc
  exact ⟨h.moves.inRange.target, h.moves.openTime, h.moves.closeTime⟩

end Blind

namespace Device

variable {d d' : Device}

def AllTravel (d : Device) : Prop :=
  ∀ (k : UInt32) (b : Blind), d.blinds[k]? = some b → b.Travels d.clock

theorem AllTravel.modifyBlind (h : d.AllTravel) (k : UInt32) {f : Blind → Blind}
    (hf : ∀ b, d.blinds[k]? = some b → b.Travels d.clock → (f b).Travels d.clock) :
    (d.modifyBlind k f).AllTravel := fun i b hb => by
  change (d.blinds.modify k f)[i]? = some b at hb
  rw [get_modify] at hb
  split_ifs at hb with hi
  · subst hi
    obtain ⟨b₀, hb₀, rfl⟩ := Option.map_eq_some_iff.mp hb
    exact hf b₀ hb₀ (h k b₀ hb₀)
  · exact h i b hb

theorem AllTravel.tell {command : SomfyCommand} {long : Bool} {blindId : UInt16} (h : d.AllTravel)
    (hd : d.tell command long blindId = some d') : d'.AllTravel := by
  simp only [Device.tell, Option.ite_none_right_eq_some, Option.some.injEq] at hd
  obtain ⟨-, rfl⟩ := hd
  exact h.modifyBlind _ fun b _ hb => hb.press command.button long

theorem AllTravel.tells {command : SomfyCommand} {long : Bool} {ks : List UInt16} (h : d.AllTravel)
    (hd : ks.foldlM (Device.tell command long) d = some d') : d'.AllTravel :=
  Transitions.foldlM_invariant (f := Device.tell command long) (fun _ e => e.AllTravel)
    (fun he ht => he.tell ht) h hd

theorem AllTravel.pressButtons {p : ℕ} {buttons : SomfyButton} {repeats : UInt16} (h : d.AllTravel)
    (hd : d.pressButtons p buttons repeats = some d') : d'.AllTravel := by
  unfold Device.pressButtons at hd
  refine AllTravel.tells ?_ hd
  exact h

theorem AllTravel.externalButtonPress {command : SomfyCommand} (h : d.AllTravel)
    (hd : d.externalButtonPress command = some d') : d'.AllTravel := by
  unfold Device.externalButtonPress at hd
  split at hd
  · cases hd
    exact h
  · unfold pressOverheard at hd
    refine AllTravel.tells ?_ hd
    exact h

theorem AllTravel.stop {k : UInt32} (h : d.AllTravel) (hd : d.stop k = some d') : d'.AllTravel := by
  obtain ⟨b, -, hd⟩ := Option.bind_eq_some_iff.mp hd
  split_ifs at hd
  · exact h.pressButtons hd
  · exact Option.some.inj hd ▸ h

theorem AllTravel.go {k : UInt32} {button : SomfyButton} (h : d.AllTravel)
    (hd : d.go k button = some d') : d'.AllTravel := by
  obtain ⟨b, -, hd⟩ := Option.bind_eq_some_iff.mp hd
  exact h.pressButtons hd

theorem AllTravel.goWhen {k : UInt32} {button : SomfyButton} {cond : Blind → Bool}
    (h : d.AllTravel) (hd : d.goWhen k button cond = some d') : d'.AllTravel := by
  obtain ⟨b, -, hd⟩ := Option.bind_eq_some_iff.mp hd
  split_ifs at hd
  · exact h.go hd
  · exact Option.some.inj hd ▸ h

theorem AllTravel.goToPosition {k : UInt32} {position : Int32} (h : d.AllTravel)
    (hd : d.goToPosition k position = some d') : d'.AllTravel := by
  obtain ⟨d₁, h₁, hd⟩ := Option.bind_eq_some_iff.mp hd
  obtain ⟨d₂, h₂, rfl⟩ := Option.map_eq_some_iff.mp hd
  exact ((h.goWhen h₁).goWhen h₂).modifyBlind k fun b _ hb =>
    hb.sent (Reacts.clampPosition_bounds position)

theorem AllTravel.moveBlindBy {travel : Blind → ℤ → ℚ} {k : UInt32} {b : Blind}
    (htravel : ∀ b now, 0 ≤ travel b now ∧ travel b now ≤ 100) (h : d.AllTravel)
    (hd : d.moveBlindBy travel k b = some d') : d'.AllTravel := by
  unfold Device.moveBlindBy at hd
  split at hd
  · exact Option.some.inj hd ▸ h
  split at hd
  · obtain ⟨d₁, h₁, rfl⟩ := Option.map_eq_some_iff.mp hd
    have harrived : (d.modifyBlind k fun b =>
        { b with intermediatePosition := b.targetPosition.toInt }).AllTravel :=
      h.modifyBlind k fun b _ hb => hb.placed (by exact_mod_cast hb.moves.inRange.target)
    have hstopped : d₁.AllTravel := by
      split at h₁
      · exact harrived.stop h₁
      · exact Option.some.inj h₁ ▸ harrived
    exact hstopped.modifyBlind k fun b _ hb =>
      hb.retimed (fun b => { b with motionDirection := 0 }) (fun _ => rfl) (.inr rfl) hb.lastTick
  · exact Option.some.inj hd ▸ h.modifyBlind k fun b _ hb => hb.placed (htravel b d.clock)

theorem AllTravel.tickBy {travel : Blind → ℤ → ℚ} {k : UInt32} {position state : Bool}
    (htravel : ∀ b now, 0 ≤ travel b now ∧ travel b now ≤ 100) (h : d.AllTravel)
    (hd : d.tickBy travel k position state = some d') : d'.AllTravel := by
  obtain ⟨b, -, hd⟩ := Option.bind_eq_some_iff.mp hd
  split at hd
  · obtain ⟨d₁, h₁, rfl⟩ := Option.map_eq_some_iff.mp hd
    have hstart : (d.modifyBlind k fun b => { b with refreshTimer := none }).AllTravel :=
      h.modifyBlind k fun b _ hb =>
        hb.retimed (fun b => { b with refreshTimer := none }) (fun _ => rfl) (.inl rfl) hb.lastTick
    exact (hstart.moveBlindBy htravel h₁).modifyBlind k fun b _ hb => hb.retimed
      (fun b => b.finishTick d₁.clock (Blind.publishPosition d₁.mqttEnabled position state))
      (fun _ => rfl) (.inl rfl) le_rfl
  · cases hd

/-- Buttons and time. -/
theorem AllTravel.reacts {c : Call} (h : d.AllTravel) (hc : c.reacts = true)
    (hd : d.perform32 c = some d') : d'.AllTravel := by
  cases c with
  | nothing => exact Option.some.inj hd ▸ h
  | press p buttons repeats => exact h.pressButtons hd
  | goUp k => exact h.go hd
  | goDown k => exact h.go hd
  | stop k => exact h.stop hd
  | goToPosition k position => exact h.goToPosition hd
  | overheard command => exact h.externalButtonPress hd
  | tick k position state => exact h.tickBy Blind.travel32_bounds hd
  | wait microseconds =>
      cases hd
      intro k b hb
      obtain ⟨hm, hdir, hl⟩ := h k b hb
      exact ⟨hm, hdir, hl.trans (Int.le_add_of_nonneg_right (Int.natCast_nonneg _))⟩
  | worker packet =>
      obtain ⟨radio, -, rfl⟩ := Option.map_eq_some_iff.mp hd
      exact h
  | packetReady =>
      obtain ⟨radio, -, rfl⟩ := Option.map_eq_some_iff.mp hd
      exact h
  | discover =>
      cases hd
      exact h
  | _ => cases hc

theorem AllTravel.insert (h : d.AllTravel) (k : UInt32) {b : Blind} (hb : b.Travels d.clock)
    (hclock : d'.clock = d.clock) (hblinds : d'.blinds = d.blinds.insertIfNew k b) :
    d'.AllTravel := fun i c hc => by
  rw [hblinds, get_insertIfNew] at hc
  rw [hclock]
  split_ifs at hc
  · exact Option.some.inj hc ▸ hb
  · exact h i c hc

theorem AllTravel.erase (h : d.AllTravel) (k : UInt32) (hclock : d'.clock = d.clock)
    (hblinds : d'.blinds = d.blinds.erase k) : d'.AllTravel := fun i c hc => by
  rw [hblinds, get_erase] at hc
  rw [hclock]
  split_ifs at hc
  exact h i c hc

/-- Saving does not change where a blind is. -/
theorem AllTravel.saves (h : d.AllTravel) (hs : d.Saves d') (hclock : d'.clock = d.clock) :
    d'.AllTravel := fun k b' hb' => by
  have hk := hs.blind k
  rw [hb'] at hk
  generalize hx : d.blinds[k]? = x at hk
  cases hk with
  | @some b _ hk =>
      rw [hk, hclock]
      exact (h k b hx).retimed (fun b => { b with isDirty := b'.isDirty }) (fun _ => rfl) (.inl rfl)
        (h k b hx).lastTick

theorem clock_saveRemote {p : ℕ} {force : Bool} (h : d.saveRemote p force = some d') :
    d'.clock = d.clock := by
  rcases saveRemote_cases h with ⟨rfl, -⟩ | ⟨c, -, rfl⟩ <;> rfl

theorem clock_saveBlindAt {force : Bool} {k : UInt32} (h : d.saveBlindAt force k = some d') :
    d'.clock = d.clock := by
  obtain ⟨b, -, ⟨rfl, -⟩ | ⟨c, -, rfl⟩⟩ := saveBlindAt_cases h <;> rfl

/-- All times that the device can come to use are positive. -/
structure PositiveTimes (d : Device) : Prop where
  config : d.config.UsableBlinds
  blinds : d.AllTravel

theorem PositiveTimes.saveRemote (h : d.PositiveTimes) {p : ℕ} {force : Bool}
    (hd : d.saveRemote p force = some d') : d'.PositiveTimes := by
  refine ⟨?_, h.blinds.saves (saves_saveRemote hd) (clock_saveRemote hd)⟩
  rcases saveRemote_cases hd with ⟨rfl, -⟩ | ⟨c, -, rfl⟩
  · exact h.config
  · exact h.config.run (f := .saveRemote (d.heap p).remoteId c) trivial trivial

theorem PositiveTimes.saveBlindAt (h : d.PositiveTimes) {force : Bool} {k : UInt32}
    (hd : d.saveBlindAt force k = some d') : d'.PositiveTimes := by
  refine ⟨?_, h.blinds.saves (saves_saveBlindAt hd) (clock_saveBlindAt hd)⟩
  obtain ⟨b, hb, ⟨rfl, -⟩ | ⟨c, hc, rfl⟩⟩ := saveBlindAt_cases hd
  · exact h.config
  · exact h.config.run (f := .saveBlind b.blindId c) trivial ((h.blinds k b hb).toConfig hc)

theorem PositiveTimes.saveRemoteState (h : d.PositiveTimes) (hd : d.saveRemoteState = some d') :
    d'.PositiveTimes :=
  Transitions.foldlM_invariant
    (f := fun (d : Device) (entry : UInt32 × ℕ) => d.saveRemote entry.2 false)
    (fun _ e => e.PositiveTimes) (fun he hs => he.saveRemote hs) h hd

theorem PositiveTimes.saveBlindState (h : d.PositiveTimes) {force : Bool}
    (hd : d.saveBlindState force = some d') : d'.PositiveTimes :=
  Transitions.foldlM_invariant (f := fun (d : Device) k => d.saveBlindAt force k)
    (fun _ e => e.PositiveTimes) (fun he hs => he.saveBlindAt hs) h hd

theorem PositiveTimes.saveBlindList (h : d.PositiveTimes) (hfit : d.blinds.size ≤ 124)
    (hd : d.saveBlindList = some d') : d'.PositiveTimes := by
  obtain ⟨config, rfl⟩ := saveBlindList_eq hd
  have hconfig := saveBlindList_config hd
  rw [← length_blindIds] at hfit
  refine ⟨?_, h.blinds⟩
  rw [hconfig]
  exact h.config.run (f := .blindIds d.blindIds) hfit trivial

/-- One turn of the loop keeps the times, and adds at most one blind. -/
theorem PositiveTimes.loadBlind {s t : Device × Bool} {k : UInt16} (h : s.1.PositiveTimes)
    (hd : loadBlind s k = some t) :
    t.1.PositiveTimes ∧ t.1.blinds.size ≤ s.1.blinds.size + 1 := by
  obtain ⟨cfg, hcfg, rfl⟩ := Option.map_eq_some_iff.mp hd
  obtain ⟨hp, ho, hc⟩ := h.config.record k cfg hcfg
  have hraise : ∃ next, s.1.raiseNextBlindId k.toUInt32 = { s.1 with nextBlindId := next } := by
    unfold raiseNextBlindId
    split_ifs
    · exact ⟨_, rfl⟩
    · exact ⟨s.1.nextBlindId, rfl⟩
  obtain ⟨next, hnext⟩ := hraise
  rw [hnext]
  unfold restoreBlind
  split
  case h_1 p _ =>
    exact ⟨⟨h.config, h.blinds.insert k.toUInt32 (Blind.travels_create hp ho hc _ _ _ _ _ _) rfl rfl⟩,
      Std.ExtTreeMap.size_insertIfNew_le⟩
  case h_2 =>
    exact ⟨⟨h.config.run (f := .deleteBlind k) trivial trivial, h.blinds⟩, Nat.le_succ _⟩

theorem positiveTimes_boot {dc : DeviceConfig} {mqttEnabled : Bool} {slots : ℕ → RecvCommand}
    {history : List Happening} (h : dc.UsableBlinds)
    (hd : boot dc mqttEnabled slots history = some d) : d.PositiveTimes := by
  have hloads := loads_loadRemotes (blank dc mqttEnabled slots history)
  have hconfig : (blank dc mqttEnabled slots history).loadRemotes.config = dc := hloads.config
  have hempty : (blank dc mqttEnabled slots history).loadRemotes.blinds = ∅ := hloads.blinds
  obtain ⟨ids, hids⟩ := h.listed
  have hlength := hids.length_le
  unfold boot initializeBlinds at hd
  rw [hconfig, getBlindIds_of_stored hids] at hd
  obtain ⟨⟨d₁, errors⟩, hloop, hend⟩ := Option.bind_eq_some_iff.mp hd
  have hstart : (blank dc mqttEnabled slots history).loadRemotes.PositiveTimes := by
    refine ⟨by rwa [hconfig], fun k b hb => ?_⟩
    rw [hempty] at hb
    simp at hb
  -- every listed id adds at most one blind
  obtain ⟨htimes, hsize⟩ := Transitions.foldlM_invariant (f := Device.loadBlind)
    (fun rest s => s.1.PositiveTimes ∧ s.1.blinds.size + rest.length ≤ 124)
    (fun {k rest s t} hs ht => by
      obtain ⟨htimes, hsize⟩ := hs.1.loadBlind ht
      have hcount := hs.2
      rw [List.length_cons] at hcount
      exact ⟨htimes, by omega⟩)
    ⟨hstart, by rw [hempty]; simpa using hlength⟩ hloop
  dsimp only at hend
  split_ifs at hend
  · exact htimes.saveBlindList hsize hend
  · exact Option.some.inj hend ▸ htimes

theorem PositiveTimes.restart (h : d.PositiveTimes) {mqttEnabled : Bool} {slots : ℕ → RecvCommand}
    (hd : d.restart mqttEnabled slots = some d') : d'.PositiveTimes := by
  obtain ⟨d₂, hsave, hboot⟩ := Option.bind_eq_some_iff.mp hd
  obtain ⟨d₁, h₁, h₂⟩ := Option.bind_eq_some_iff.mp hsave
  exact positiveTimes_boot ((h.saveRemoteState h₁).saveBlindState h₂).config hboot

/-- A reset device has no records. -/
theorem fresh_positiveTimes {dc : DeviceConfig} {mqttEnabled : Bool} {slots : ℕ → RecvCommand}
    (hpages : dc.storage.blockPages = 1) (hok : ∀ i, dc.chip.verdict i = true)
    (h : freshDevice dc mqttEnabled slots = some d) : d.PositiveTimes := by
  obtain ⟨hhealthy, hnone⟩ := dc.hardReset_read hpages hok
  refine positiveTimes_boot ⟨hhealthy, ⟨[], by simp, .inr ⟨rfl, ?_⟩⟩, fun k c hc => ?_⟩ h
  · exact hnone .blindIds nofun nofun
  · have hread : dc.hardReset.getBlindConfig k = none :=
      congrArg (Option.map BlindConfig.decode) (hnone (.blind k) nofun nofun)
    rw [hread] at hc
    cases hc

end Device

/-- A call that sets times sets positive ones. -/
def Call.PositiveTimes : Call → Prop
  | .addBlind _ openTime closeTime | .updateBlind _ _ _ openTime closeTime =>
      0 < openTime.toInt ∧ 0 < closeTime.toInt
  | _ => True

/-- The lists that a call saves fit into their blocks. -/
def Call.FitsLists (d : Device) (c : Call) : Prop := ∀ f ∈ c.flashCalls d, f.Fits

namespace Device

variable {d d' : Device}

theorem registerCalls_usable (d : Device) (name : List UInt8) (id : UInt32) (isExternal : Bool) :
    ∀ f ∈ d.registerCalls name id isExternal, f.Usable := by
  intro f hmem
  rcases List.mem_append.mp hmem with hnew | hlists
  · obtain ⟨c, -, rfl⟩ := List.mem_map.mp hnew
    trivial
  · simp only [remoteListCalls, List.mem_cons, List.not_mem_nil, or_false] at hlists
    rcases hlists with rfl | rfl <;> trivial

theorem deleteCalls_usable (d : Device) (id : UInt32) : ∀ f ∈ d.deleteCalls id, f.Usable := by
  intro f hmem
  simp only [deleteCalls, remoteListCalls, List.mem_cons, List.not_mem_nil, or_false] at hmem
  rcases hmem with rfl | rfl | rfl <;> trivial

theorem travels_newBlind (d : Device) (name : List UInt8) {openTime closeTime : Int32}
    (ho : 0 < openTime.toInt) (hc : 0 < closeTime.toInt) :
    (d.newBlind name openTime closeTime).Travels d.clock :=
  Blind.travels_create (by decide) ho hc _ _ _ _ _ _

theorem flashCalls_usable {c : Call} (ht : c.PositiveTimes) :
    ∀ f ∈ c.flashCalls d, f.Usable := by
  cases c with
  | addBlind name openTime closeTime =>
      intro f hmem
      rcases List.mem_append.mp hmem with hremote | hrest
      · exact registerCalls_usable _ _ _ _ f hremote
      · rcases List.mem_append.mp hrest with hblind | hlist
        · obtain ⟨cfg, hcfg, rfl⟩ := List.mem_map.mp hblind
          exact (d.travels_newBlind name ht.1 ht.2).toConfig (Option.mem_toList.mp hcfg)
        · obtain rfl := List.mem_singleton.mp hlist
          trivial
  | createRemote name => exact registerCalls_usable _ _ _ _
  | importRemote name id => exact registerCalls_usable _ _ _ _
  | deleteRemote id => exact deleteCalls_usable _ _
  | removeBlind k b =>
      intro f hmem
      rcases List.mem_append.mp hmem with hremote | hrest
      · exact deleteCalls_usable _ _ f hremote
      · simp only [List.mem_cons, List.not_mem_nil, or_false] at hrest
        rcases hrest with rfl | rfl <;> trivial
  | _ => exact fun f hmem => absurd hmem List.not_mem_nil

/-- New settings with positive times. -/
theorem AllTravel.updateConfig (h : d.AllTravel) (k : UInt32) (b : Blind) (name : List UInt8)
    {openTime closeTime : Int32} (ho : 0 < openTime.toInt) (hc : 0 < closeTime.toInt) :
    (d.updateConfig k b name openTime closeTime).AllTravel := by
  have hblinds : (d.modifyBlind k fun b =>
      b.updateConfig d.mqttEnabled name openTime closeTime).AllTravel :=
    h.modifyBlind k fun b _ hb =>
      ⟨⟨⟨hb.moves.inRange.target, hb.moves.inRange.favourite, hb.moves.inRange.position⟩, ho, hc⟩,
        hb.direction, hb.lastTick⟩
  exact hblinds

theorem AllTravel.perform (h : d.AllTravel) {c : Call} (hreacts : c.reacts = false)
    (hsaves : c.saves = false) (ht : c.PositiveTimes) (hd : d.perform c = some d') :
    d'.AllTravel := by
  cases c with
  | addBlind name openTime closeTime =>
      obtain ⟨config, rfl⟩ := addBlind_eq hd
      exact h.insert d.nextBlindId (d.travels_newBlind name ht.1 ht.2) rfl rfl
  | updateBlind k b name openTime closeTime =>
      cases hd
      exact h.updateConfig k b name ht.1 ht.2
  | removeBlind k b =>
      obtain ⟨config, rfl⟩ := removeBlind_eq hd
      exact h.erase k rfl rfl
  | createRemote name =>
      obtain ⟨config, rfl⟩ := registerRemote_eq hd
      exact h
  | importRemote name id =>
      obtain ⟨config, rfl⟩ := registerRemote_eq hd
      exact h
  | deleteRemote id =>
      obtain ⟨config, rfl⟩ := deleteRemote_eq hd
      exact h
  | rename p name =>
      cases hd
      exact h
  | associate p blindId =>
      cases hd
      exact h
  | disassociate p blindId =>
      cases hd
      exact h
  | saveRemotes => cases hsaves
  | saveBlinds => cases hsaves
  | restart mqttEnabled slots => cases hsaves
  | _ => cases hreacts

/-- Whatever happens, times stay positive when none else are set. -/
theorem PositiveTimes.perform32 (h : d.PositiveTimes) {c : Call} (hfit : c.FitsLists d)
    (ht : c.PositiveTimes) (hd : d.perform32 c = some d') : d'.PositiveTimes := by
  cases hreacts : c.reacts with
  | true =>
      refine ⟨?_, h.blinds.reacts hreacts hd⟩
      rw [(reacts_perform32 hreacts hd).config]
      exact h.config
  | false =>
      rw [perform32_eq hreacts] at hd
      cases hsaves : c.saves with
      | false =>
          refine ⟨?_, h.blinds.perform hreacts hsaves ht hd⟩
          rw [perform_config hsaves hd]
          exact h.config.runs fun f hf => ⟨hfit f hf, flashCalls_usable ht f hf⟩
      | true =>
          cases c with
          | saveRemotes => exact h.saveRemoteState hd
          | saveBlinds => exact h.saveBlindState hd
          | restart mqttEnabled slots => exact h.restart hd
          | _ => cases hsaves

/-- The times that a request sets are positive, as its handler scans them. -/
def GivesTimes : Event → Prop
  | .request .addBlind params locals | .request .updateBlind params locals =>
      (∀ t, Scan.held Scan.d params "openTime" locals.openTime = some t → 0 < t.toInt) ∧
        ∀ t, Scan.held Scan.d params "closeTime" locals.closeTime = some t → 0 < t.toInt
  | _ => True

/-- What the run asks of an event: its lists fit, and it sets positive times. -/
def SetsTimes (d : Device) (e : Event) : Prop :=
  (∀ c, d.call e = some c → c.FitsLists d) ∧ GivesTimes e

theorem call_positiveTimes {e : Event} {c : Call} (h : d.call e = some c) (ht : GivesTimes e) :
    c.PositiveTimes := by
  have hasked := call_asked h
  cases c with
  | addBlind name openTime closeTime =>
      obtain ⟨params, locals, rfl, -, ho, hc⟩ := hasked
      exact ⟨ht.1 _ ho, ht.2 _ hc⟩
  | updateBlind k b name openTime closeTime =>
      obtain ⟨params, locals, rfl, -, ho, hc⟩ := hasked
      exact ⟨ht.1 _ ho, ht.2 _ hc⟩
  | _ => trivial

/-- What a blind needs to move: times that are positive, a rate with the sign of its
motion, and an end of its motion. -/
structure TimesUsable (d : Device) : Prop where
  times : ∀ (k : UInt32) (b : Blind), d.blinds[k]? = some b →
    0 < b.openTime.toInt ∧ 0 < b.closeTime.toInt
  rate : ∀ (k : UInt32) (b : Blind), d.blinds[k]? = some b → b.divisor ≠ 0 ∧
    (b.motionDirection > 0 → 0 < b.pctPerSecond) ∧ (b.motionDirection < 0 → b.pctPerSecond < 0)
  ends : ∀ (k : UInt32) (b : Blind), d.blinds[k]? = some b → b.motionDirection ≠ 0 →
    d.MotionEnds k b

theorem AllTravel.timesUsable (h : d.AllTravel) : d.TimesUsable where
  times k b hb := ⟨(h k b hb).moves.openTime, (h k b hb).moves.closeTime⟩
  rate k b hb := ⟨(h k b hb).moves.divisor_ne, (h k b hb).moves.sign_pctPerSecond⟩
  ends k b hb hmoving := motionEnds hb (h k b hb).moves (h k b hb).lastTick hmoving

/-- In every run of a reset device whose requests set positive times, with restarts or
without, every blind can move. -/
theorem travel_times_usable {dc : DeviceConfig} {mqttEnabled : Bool} {slots : ℕ → RecvCommand}
    (hpages : dc.storage.blockPages = 1) (hok : ∀ i, dc.chip.verdict i = true) {d₀ : Device}
    (hd₀ : freshDevice dc mqttEnabled slots = some d₀) {es : List Event}
    (hrun : Transitions.Run step32 SetsTimes d₀ es d) : d.TimesUsable := by
  have hend := hrun.invariant (I := PositiveTimes)
    (fun {d e d'} h hguard hstep => by
      obtain ⟨c, hc, hp⟩ := Option.bind_eq_some_iff.mp hstep
      exact h.perform32 (hguard.1 c hc) (call_positiveTimes hc hguard.2) hp)
    (fresh_positiveTimes hpages hok hd₀)
  exact hend.blinds.timesUsable

theorem travel_times_usable_addBlind :
    ∃ d₀ d : Device, freshDevice oneSector false (fun _ => ⟨⟨0, 0, 0, 0⟩, 0⟩) = some d₀ ∧
      d₀.step32 addSalon = some d ∧ (∃ b, d.blinds[(1 : UInt32)]? = some b) ∧ d.TimesUsable := by
  obtain ⟨d₀, d, hd₀, hregular, hd, -, b, hb, -⟩ := first_blind
  have hinv := (fresh_inv rfl (fun _ => rfl) hd₀).1
  have hopen : Scan.held Scan.d (query [("name", "salon"), ("openTime", "10"), ("closeTime", "10")])
      "openTime" (default : Locals).openTime = some 10 := rfl
  have hclose : Scan.held Scan.d (query [("name", "salon"), ("openTime", "10"), ("closeTime", "10")])
      "closeTime" (default : Locals).closeTime = some 10 := rfl
  have hguard : d₀.SetsTimes addSalon := by
    refine ⟨fun c hc => flashCalls_fit hinv.registry (hregular c hc), fun t ht => ?_, fun t ht => ?_⟩
    · obtain rfl := Option.some.inj (hopen.symm.trans ht)
      decide
    · obtain rfl := Option.some.inj (hclose.symm.trans ht)
      decide
  have hd' : d₀.step32 addSalon = some d := by
    rw [step32, call_addSalon, Option.bind_some, perform32_eq rfl]
    rwa [step, call_addSalon, Option.bind_some] at hd
  refine ⟨d₀, d, hd₀, hd', ⟨b, hb⟩, ?_⟩
  exact travel_times_usable rfl (fun _ => rfl) hd₀ (.single hguard hd')

/-- A blind that takes no time to open. -/
def addInstant : Event :=
  .request .addBlind (query [("name", "salon"), ("openTime", "0"), ("closeTime", "10")]) default

/-- A blind that takes most of a year to open. -/
def addSlow : Event :=
  .request .addBlind (query [("name", "salon"), ("openTime", "30000000"), ("closeTime", "10")])
    default

/-- A second of its motion is less than half of the last place of 90. -/
theorem travel32_slow {b : Blind} (hd : b.motionDirection = 1) (ho : b.openTime = 30000000)
    (hp : b.intermediatePosition = 90) : b.travel32 (b.lastTick + 1000000) = 90 := by
  have hdivisor : b.divisor = 30000000 := by
    unfold Blind.divisor
    rw [if_pos (by omega), ho]
  have hround : Binary32.round (90 + Binary32.round
      (Binary32.round (Binary32.round ((1000000 : ℤ) : ℚ) / 1000000) *
        Binary32.round (100 / Binary32.round ((30000000 : Int32).toInt : ℚ)))) = 90 := by
    decide +kernel
  unfold Blind.travel32 Blind.travelled Blind.elapsed Blind.pctPerSecond
  rw [hdivisor, hp, if_neg (by decide), add_sub_cancel_left, hround]
  norm_num

/-- The slow blind on its way from 90 to 100, as far as the last tick shows. -/
structure Stalled (d : Device) (k : UInt32) (b : Blind) : Prop where
  blind : d.blinds[k]? = some b
  direction : b.motionDirection = 1
  target : b.targetPosition = 100
  openTime : b.openTime = 30000000
  position : b.intermediatePosition = 90
  lastTick : b.lastTick = d.clock

theorem Stalled.turn {k : UInt32} {b : Blind} (h : Stalled d k b) {e : ℤ × Bool × Bool}
    (he : e.1 = 1000000) (hd : turn32 k d e = some d') : ∃ b', Stalled d' k b' := by
  have hmoving : b.motionDirection ≠ 0 := by
    rw [h.direction]
    decide
  have htravel : b.travel32 (d.clock + e.1) = 90 := by
    rw [he, ← h.lastTick]
    exact travel32_slow h.direction h.openTime h.position
  obtain ⟨hclock, b', hb', ⟨-, timer, rfl⟩ | ⟨hat, -⟩⟩ := turn32_place h.blind hmoving hd
  · exact ⟨_, hb', h.direction, h.target, h.openTime, htravel, hclock.symm⟩
  · rw [htravel, Blind.atTarget, h.direction, h.target] at hat
    rcases hat with ⟨-, hat⟩ | ⟨hat, -⟩
    · have harrived : (90 : ℚ) ≥ ((100 : Int32).toInt : ℚ) := hat
      exact absurd harrived (by decide +kernel)
    · exact absurd hat (by decide)

/-- It stays on its way. -/
theorem Stalled.run {k : UInt32} {b : Blind} (h : Stalled d k b) {es : List (ℤ × Bool × Bool)}
    (hes : ∀ e ∈ es, e.1 = 1000000) (hd : es.foldlM (turn32 k) d = some d') :
    ∃ b', Stalled d' k b' :=
  (Transitions.foldlM_invariant (f := turn32 k)
    (fun rest d => (∃ b, Stalled d k b) ∧ ∀ e ∈ rest, e.1 = 1000000)
    (fun ⟨⟨_, hb⟩, hrest⟩ ht => ⟨hb.turn (hrest _ List.mem_cons_self) ht,
      fun e he => hrest e (List.mem_cons_of_mem _ he)⟩) ⟨⟨b, h⟩, hes⟩ hd).1

/-- A time of zero is accepted, and opening the blind divides by it. And with a very long time
the ticks of a second never bring the blind to its target. -/
theorem zero_time_accepted :
    (∃ d₀ d : Device, freshDevice oneSector false (fun _ => ⟨⟨0, 0, 0, 0⟩, 0⟩) = some d₀ ∧
      Transitions.Run step32 Transitions.Free d₀ [addInstant, .blindTopic 1 (ascii "open")] d ∧
      d.config.lost = false ∧
      (∃ b, d.blinds[(1 : UInt32)]? = some b ∧ b.motionDirection > 0 ∧ b.divisor = 0) ∧
      ¬d.TimesUsable) ∧
    ∃ d₀ d : Device, freshDevice oneSector false (fun _ => ⟨⟨0, 0, 0, 0⟩, 0⟩) = some d₀ ∧
      Transitions.Run step32 Transitions.Free d₀ [addSlow, .blindTopic 1 (ascii "open")] d ∧
      (∃ b, d.blinds[(1 : UInt32)]? = some b ∧ b.openTime = 30000000 ∧ b.closeTime = 10 ∧
        b.motionDirection = 1 ∧ b.targetPosition = 100) ∧
      ∀ es : List (ℤ × Bool × Bool), (∀ e ∈ es, e.1 = 1000000) →
        ∀ d', es.foldlM (turn32 1) d = some d' → ¬d'.RestsAt 1 100 := by
  constructor
  · have hany : (freshDevice oneSector false fun _ => ⟨⟨0, 0, 0, 0⟩, 0⟩).any (fun d₀ =>
        (Transitions.exec step32 d₀ [addInstant, .blindTopic 1 (ascii "open")]).any fun d =>
          !d.config.lost && (d.blinds[(1 : UInt32)]?).any fun b =>
            b.motionDirection == 1 && b.openTime == 0) = true := by
      decide +kernel
    obtain ⟨d₀, hd₀, hrun⟩ := (Option.any_eq_true _ _).mp hany
    obtain ⟨d, hd, hrest⟩ := (Option.any_eq_true _ _).mp hrun
    simp only [Bool.and_eq_true, Bool.not_eq_true'] at hrest
    obtain ⟨hlost, hblind⟩ := hrest
    obtain ⟨b, hb, htimes⟩ := (Option.any_eq_true _ _).mp hblind
    simp only [Bool.and_eq_true, beq_iff_eq] at htimes
    obtain ⟨hdir, hopen⟩ := htimes
    have hdivisor : b.divisor = 0 := by
      unfold Blind.divisor
      rw [if_pos (by omega), hopen]
    exact ⟨d₀, d, hd₀, Transitions.run_of_exec hd, hlost, ⟨b, hb, by omega, hdivisor⟩,
      fun h => (h.rate 1 b hb).1 hdivisor⟩
  · have hany : (freshDevice oneSector false fun _ => ⟨⟨0, 0, 0, 0⟩, 0⟩).any (fun d₀ =>
        (Transitions.exec step32 d₀ [addSlow, .blindTopic 1 (ascii "open")]).any fun d =>
          (d.blinds[(1 : UInt32)]?).any fun b =>
            b.motionDirection == 1 && b.targetPosition == 100 && b.openTime == 30000000 &&
              b.closeTime == 10 && b.intermediatePosition == 90 && b.lastTick == d.clock) =
        true := by
      decide +kernel
    obtain ⟨d₀, hd₀, hrun⟩ := (Option.any_eq_true _ _).mp hany
    obtain ⟨d, hd, hblind⟩ := (Option.any_eq_true _ _).mp hrun
    obtain ⟨b, hb, hfields⟩ := (Option.any_eq_true _ _).mp hblind
    simp only [Bool.and_eq_true, beq_iff_eq] at hfields
    obtain ⟨⟨⟨⟨⟨hdir, htarget⟩, hopen⟩, hclose⟩, hposition⟩, hlast⟩ := hfields
    have hstalled : Stalled d 1 b := ⟨hb, hdir, htarget, hopen, hposition, hlast⟩
    refine ⟨d₀, d, hd₀, Transitions.run_of_exec hd, ⟨b, hb, hopen, hclose, hdir, htarget⟩,
      fun es hes d' hrun' hrests => ?_⟩
    obtain ⟨c, hc⟩ := hstalled.run hes hrun'
    obtain ⟨c', hc', hrest, -⟩ := hrests
    obtain rfl := Option.some.inj (hc.blind.symm.trans hc')
    rw [hc.direction] at hrest
    exact absurd hrest (by decide)

end Device

end PicoSomfy
