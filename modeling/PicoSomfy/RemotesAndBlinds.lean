import PicoSomfy.ConfigRecords
import PicoSomfy.CommandQueue

/-!
# Remotes and blinds

A `SomfyRemote` holds the rolling code of a remote and the ids of the blinds that
listen to it. A `Blind` estimates where it is from the buttons pressed on any of
these remotes, and has one primary remote through which it is commanded. Here are
the methods that change one object alone.

A blind keeps a pointer to its primary remote, the same object that is registered
under the remote's id. The subscriptions and the discovery workers of the two
classes are left out. Positions are rational instead of floating-point numbers,
times are microseconds, and a timer is the time at which it is due.
-/
namespace PicoSomfy

open CStrings

structure SomfyRemote where
  remoteName : List UInt8
  remoteId : UInt32
  rollingCode : UInt16
  isDirty : Bool
  isExternal : Bool
  needsPublish : Bool
  associatedBlinds : List UInt16
  deriving DecidableEq, Inhabited

namespace SomfyRemote

/-- Discovery is never published for the clone of a real remote. -/
def triggerPublishDiscovery (r : SomfyRemote) (mqttEnabled : Bool) : SomfyRemote :=
  if mqttEnabled && !r.isExternal then { r with needsPublish := true } else r

/-- The constructor. -/
def create (mqttEnabled : Bool) (name : List UInt8) (remoteId : UInt32) (rollingCode : UInt16)
    (associatedBlinds : List UInt16) (isExternal : Bool) : SomfyRemote :=
  triggerPublishDiscovery
    ⟨name, remoteId, rollingCode, false, isExternal, false, associatedBlinds⟩ mqttEnabled

def setName (r : SomfyRemote) (mqttEnabled : Bool) (name : List UInt8) : SomfyRemote :=
  triggerPublishDiscovery { r with isDirty := true, remoteName := name } mqttEnabled

def associateBlind (r : SomfyRemote) (blindId : UInt16) : SomfyRemote :=
  if blindId ∈ r.associatedBlinds then { r with isDirty := true }
  else { r with isDirty := true, associatedBlinds := r.associatedBlinds ++ [blindId] }

def disassociateBlind (r : SomfyRemote) (blindId : UInt16) : SomfyRemote :=
  { r with isDirty := true, associatedBlinds := r.associatedBlinds.erase blindId }

/-- The record `SaveConfig` fills in. The name goes through `strcpy`, and only the
first 32 blinds are kept. -/
def toConfig (r : SomfyRemote) : Option RemoteConfig :=
  (strcpy 48 r.remoteName).map fun name =>
    ⟨name, r.remoteId, r.rollingCode, r.associatedBlinds.take 32, by simp⟩

/-- The remote after a press of its own buttons. -/
def advance (r : SomfyRemote) : SomfyRemote :=
  { r with isDirty := true, rollingCode := r.rollingCode + 1 }

/-- The remote after a press was overheard. -/
def follow (r : SomfyRemote) (rollingCode : UInt16) : SomfyRemote :=
  { r with isDirty := true, rollingCode := rollingCode + 1 }

end SomfyRemote

structure Blind where
  blindId : UInt16
  isDirty : Bool
  needsPublish : Bool
  name : List UInt8
  openTime : Int32
  closeTime : Int32
  lastTick : ℤ
  motionDirection : ℤ
  intermediatePosition : ℚ
  targetPosition : Int32
  favouritePosition : Int32
  remote : ℕ
  refreshTimer : Option ℤ
  deriving DecidableEq

/-- `round` of the C library, half away from zero. -/
def roundAway (x : ℚ) : ℤ := if 0 ≤ x then ⌊x + 1 / 2⌋ else ⌈x - 1 / 2⌉

namespace Blind

/-- The constructor. A favourite outside 0 to 100 becomes 50. -/
def create (mqttEnabled : Bool) (now : ℤ) (blindId : UInt16) (name : List UInt8)
    (currentPosition favouritePosition openTime closeTime : Int32) (remote : ℕ) : Blind where
  blindId := blindId
  isDirty := false
  needsPublish := mqttEnabled
  name := name
  openTime := openTime
  closeTime := closeTime
  lastTick := now
  motionDirection := 0
  intermediatePosition := currentPosition.toInt
  targetPosition := currentPosition
  favouritePosition := if favouritePosition > 100 ∨ favouritePosition < 0 then 50
    else favouritePosition
  remote := remote
  refreshTimer := none

/-- The changes of `UpdateConfig` to the blind itself. -/
def updateConfig (b : Blind) (mqttEnabled : Bool) (name : List UInt8)
    (openTime closeTime : Int32) : Blind :=
  { b with
    name := name
    openTime := openTime
    closeTime := closeTime
    isDirty := true
    needsPublish := b.needsPublish || mqttEnabled }

/-- The record `SaveConfig` fills in. The position stored is the target. -/
def toConfig (b : Blind) (remoteId : UInt32) : Option BlindConfig :=
  (strcpy 48 b.name).map fun name =>
    ⟨name, b.targetPosition, b.favouritePosition, b.openTime, b.closeTime, remoteId⟩

/-- The end of `ButtonsPressed`. -/
def touch (b : Blind) (now : ℤ) : Blind :=
  { b with lastTick := now, refreshTimer := some (now + 500000), isDirty := true }

def buttonsPressed (b : Blind) (button : SomfyButton) (long : Bool) (now : ℤ) : Blind :=
  if button = .up then { b with targetPosition := 100, motionDirection := 1 }.touch now
  else if button = .down then { b with targetPosition := 0, motionDirection := -1 }.touch now
  else if button = .my then
    if b.motionDirection ≠ 0 then
      { b with
        targetPosition := Int32.ofInt (roundAway b.intermediatePosition)
        motionDirection := 0 }.touch now
    else if long then
      -- a favourite is only taken inside the range, else nothing at all is noted
      if 0 < b.targetPosition ∧ b.targetPosition < 100 then
        { b with favouritePosition := b.targetPosition }.touch now
      else b
    else
      { b with
        targetPosition := b.favouritePosition
        motionDirection :=
          if (b.favouritePosition.toInt : ℚ) > b.intermediatePosition then 1 else -1 }.touch now
  else b.touch now

/-- The position after moving since the last tick. With a travel time of zero the
rate is positive infinity, also for a closing blind; a moving blind is never ticked
at the time of its last tick, so the product is not `NaN`. -/
def travel (b : Blind) (now : ℤ) : ℚ :=
  if (if b.motionDirection > 0 then b.openTime else -b.closeTime) = 0 then 100
  else
    min 100 (max 0 (b.intermediatePosition + (now - b.lastTick : ℤ) / 1000000 *
      (100 / ((if b.motionDirection > 0 then b.openTime else -b.closeTime).toInt : ℚ))))

/-- The test of `UpdatePosition` for a blind that stops now. -/
def atTarget (b : Blind) : Prop :=
  (b.motionDirection > 0 ∧ b.intermediatePosition ≥ b.targetPosition.toInt) ∨
    (b.motionDirection < 0 ∧ b.intermediatePosition ≤ b.targetPosition.toInt)

instance (b : Blind) : Decidable b.atTarget := by
  unfold atTarget
  infer_instance

/-- `PublishPosition`: true asks for another attempt later. The arguments are the
results of the two calls of `Publish`. -/
def publishPosition (mqttEnabled position state : Bool) : Bool :=
  if !mqttEnabled then true else if !position then false else !state

/-- The end of `UpdatePosition`: the timer runs again while the blind moves, or when
something is still to be published. -/
def finishTick (b : Blind) (now : ℤ) (again : Bool) : Blind :=
  { b with
    lastTick := now
    refreshTimer :=
      if b.motionDirection ≠ 0 then some (now + 1000000)
      else if again then some (now + 30000000) else b.refreshTimer }

end Blind

end PicoSomfy
