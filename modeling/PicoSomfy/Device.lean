import PicoSomfy.RemotesAndBlinds
import PicoSomfy.SortedMap

/-!
# The device in service mode

`SomfyRemotes` and `Blinds` share the configuration, the command queue and the
remote objects. A remote object is reached from the map of the registered remotes
and from the blinds it is primary for, so the objects live in a heap and the maps
hold pointers. A function is `none` where the source leaves what the language
defines: an iterator at the end of a map dereferenced, `map::at` without the key,
an array or a string overrun.

`history` records what was sent, told and overheard; no function reads it.
-/
namespace PicoSomfy

open CStrings

/-- What an observer of the device notes. -/
inductive Happening where
  | pressed (command : SomfyCommand) (accepted : Bool)
  | overheard (command : SomfyCommand)
  | told (blindId : UInt16) (command : SomfyCommand)
  deriving DecidableEq

structure Device where
  config : DeviceConfig
  mqttEnabled : Bool
  clock : ℤ
  radio : RadioCommandQueue
  heap : ℕ → SomfyRemote
  heapTop : ℕ
  remotes : Std.ExtTreeMap UInt32 ℕ
  nextRemoteId : UInt32
  detectedRemotes : List UInt32
  blinds : Std.ExtTreeMap UInt32 Blind
  nextBlindId : UInt32
  history : List Happening

def baseRemoteId : UInt32 := 0x270000

namespace Device

def modifyRemote (d : Device) (p : ℕ) (f : SomfyRemote → SomfyRemote) : Device :=
  { d with heap := Function.update d.heap p (f (d.heap p)) }

def modifyBlind (d : Device) (k : UInt32) (f : Blind → Blind) : Device :=
  { d with blinds := d.blinds.modify k f }

def note (d : Device) (h : Happening) : Device := { d with history := d.history ++ [h] }

/-- `SomfyRemote::SaveConfig` -/
def saveRemote (d : Device) (p : ℕ) (force : Bool) : Option Device :=
  if (d.heap p).isDirty || force then
    (d.heap p).toConfig.map fun config =>
      { d.modifyRemote p fun r => { r with isDirty := false } with
        config := d.config.saveRemoteConfig (d.heap p).remoteId config }
  else some d

/-- `Blind::SaveConfig`, for a blind that need not be in the map yet. -/
def saveBlind (d : Device) (b : Blind) (force : Bool) : Option (DeviceConfig × Blind) :=
  if b.isDirty || force then
    (b.toConfig (d.heap b.remote).remoteId).map fun config =>
      (d.config.saveBlindConfig b.blindId config, { b with isDirty := false })
  else some (d.config, b)

def saveRemoteState (d : Device) : Option Device :=
  d.remotes.toList.foldlM (fun d entry => d.saveRemote entry.2 false) d

/-- One turn of `SaveBlindState`. -/
def saveBlindAt (d : Device) (force : Bool) (k : UInt32) : Option Device :=
  (d.blinds[k]?).bind fun b => (d.saveBlind b force).map fun (config, b) =>
    { d.modifyBlind k fun _ => b with config := config }

def saveBlindState (d : Device) (force : Bool) : Option Device :=
  d.blinds.keys.foldlM (fun d k => d.saveBlindAt force k) d

/-- The low halves of the ids of the created remotes, in the order of the map. -/
def internalIds (d : Device) : List UInt16 :=
  (d.remotes.toList.filter fun entry => !(d.heap entry.2).isExternal).map (·.1.toUInt16)

def externalIds (d : Device) : List UInt32 :=
  (d.remotes.toList.filter fun entry => (d.heap entry.2).isExternal).map (·.1)

def blindIds (d : Device) : List UInt16 := d.blinds.keys.map (·.toUInt16)

/-- The two arrays of ids have 128 and 64 elements. -/
def saveRemoteList (d : Device) : Option Device :=
  if d.internalIds.length ≤ 128 ∧ d.externalIds.length ≤ 64 then
    some { d with
      config := (d.config.saveRemoteIds d.internalIds).saveExternalRemoteIds d.externalIds }
  else none

def saveBlindList (d : Device) : Option Device :=
  if d.blindIds.length ≤ 128 then some { d with config := d.config.saveBlindIds d.blindIds }
  else none

/-- `GetBlind(blindId)->ButtonsPressed(...)` -/
def tell (command : SomfyCommand) (long : Bool) (d : Device) (blindId : UInt16) :
    Option Device :=
  if blindId.toUInt32 ∈ d.blinds then
    some ((d.modifyBlind blindId.toUInt32 fun b =>
      b.buttonsPressed command.button long d.clock).note (.told blindId command))
  else none

/-- `SomfyRemote::PressButtons`. The result of `QueueCommand` is not looked at. -/
def pressButtons (d : Device) (p : ℕ) (buttons : SomfyButton) (repeats : UInt16) :
    Option Device :=
  let command : SomfyCommand := ⟨(d.heap p).remoteId, (d.heap p).rollingCode, repeats, buttons⟩
  let queued := d.radio.queueCommand command
  (d.heap p).associatedBlinds.foldlM (tell command (repeats > shortPress))
    { (d.modifyRemote p SomfyRemote.advance).note (.pressed command queued.1) with
      radio := queued.2 }

/-- `SomfyRemote::ExternalButtonPress` -/
def pressOverheard (d : Device) (p : ℕ) (command : SomfyCommand) : Option Device :=
  (d.heap p).associatedBlinds.foldlM (tell command (command.repeats > 7))
    ((d.modifyRemote p fun r => r.follow command.rollingCode).note (.overheard command))

/-- `SomfyRemotes::ExternalButtonPress`. Of the unknown remotes four are kept. -/
def externalButtonPress (d : Device) (command : SomfyCommand) : Option Device :=
  match d.remotes[command.remoteId]? with
  | none =>
      some { d with
        detectedRemotes := (d.detectedRemotes ++ [command.remoteId]).take 4 }
  | some p => d.pressOverheard p command

/-- `Blind::Stop` -/
def stop (d : Device) (k : UInt32) : Option Device :=
  (d.blinds[k]?).bind fun b =>
    if b.motionDirection ≠ 0 then d.pressButtons b.remote .my shortPress else some d

/-- A short press of a button of the primary remote. -/
def go (d : Device) (k : UInt32) (button : SomfyButton) : Option Device :=
  (d.blinds[k]?).bind fun b => d.pressButtons b.remote button shortPress

def goUp (d : Device) (k : UInt32) : Option Device := d.go k .up

def goDown (d : Device) (k : UInt32) : Option Device := d.go k .down

def clampPosition (position : Int32) : Int32 :=
  if position > 100 then 100 else if position < 0 then 0 else position

/-- Presses a button of the primary remote when the blind meets a condition. -/
def goWhen (d : Device) (k : UInt32) (button : SomfyButton) (c : Blind → Bool) : Option Device :=
  (d.blinds[k]?).bind fun b => if c b then d.go k button else some d

/-- `Blind::GoToPosition`. The second test sees the blind after the first press. -/
def goToPosition (d : Device) (k : UInt32) (position : Int32) : Option Device :=
  let p := clampPosition position
  (d.goWhen k .down fun b => b.intermediatePosition > p.toInt || p = 0).bind fun d =>
    (d.goWhen k .up fun b => b.intermediatePosition < p.toInt || p = 100).map fun d =>
      d.modifyBlind k fun b => { b with targetPosition := p }

/-- The first half of `UpdatePosition`: a moving blind moves on, and stops at its
target. Inside the range it has to be stopped with the My button. -/
def moveBlind (d : Device) (k : UInt32) (b : Blind) : Option Device :=
  if b.motionDirection = 0 then some d
  else if { b with intermediatePosition := b.travel d.clock }.atTarget then
    let arrived := d.modifyBlind k fun b =>
      { b with intermediatePosition := b.targetPosition.toInt }
    (if b.targetPosition < 100 ∧ b.targetPosition > 0 then arrived.stop k else some arrived).map
      fun d => d.modifyBlind k fun b => { b with motionDirection := 0 }
  else some (d.modifyBlind k fun b => { b with intermediatePosition := b.travel d.clock })

/-- The same with another arithmetic of the motion. -/
def moveBlindBy (travel : Blind → ℤ → ℚ) (d : Device) (k : UInt32) (b : Blind) : Option Device :=
  if b.motionDirection = 0 then some d
  else if { b with intermediatePosition := travel b d.clock }.atTarget then
    let arrived := d.modifyBlind k fun b =>
      { b with intermediatePosition := b.targetPosition.toInt }
    (if b.targetPosition < 100 ∧ b.targetPosition > 0 then arrived.stop k else some arrived).map
      fun d => d.modifyBlind k fun b => { b with motionDirection := 0 }
  else some (d.modifyBlind k fun b => { b with intermediatePosition := travel b d.clock })

/-- The refresh timer of a blind runs `UpdatePosition`. It is not pending while its
callback runs. The last two arguments are the results of publishing. -/
def tick (d : Device) (k : UInt32) (position state : Bool) : Option Device :=
  (d.blinds[k]?).bind fun b =>
    if b.refreshTimer.any (· ≤ d.clock) then
      ((d.modifyBlind k fun b => { b with refreshTimer := none }).moveBlind k b).map fun d =>
        d.modifyBlind k fun b =>
          b.finishTick d.clock (Blind.publishPosition d.mqttEnabled position state)
    else none

/-- The tick with another arithmetic of the motion. -/
def tickBy (travel : Blind → ℤ → ℚ) (d : Device) (k : UInt32) (position state : Bool) :
    Option Device :=
  (d.blinds[k]?).bind fun b =>
    if b.refreshTimer.any (· ≤ d.clock) then
      ((d.modifyBlind k fun b => { b with refreshTimer := none }).moveBlindBy travel k b).map
        fun d => d.modifyBlind k fun b =>
          b.finishTick d.clock (Blind.publishPosition d.mqttEnabled position state)
    else none

theorem tickBy_travel : tickBy Blind.travel = tick := rfl

/-- Puts a new remote object on the heap and into the map, which keeps an entry that
is there. The pointer to the new object is the old top of the heap. -/
def insertRemote (d : Device) (id : UInt32) (r : SomfyRemote) : Device :=
  { d with
    heap := Function.update d.heap d.heapTop r
    heapTop := d.heapTop + 1
    remotes := d.remotes.insertIfNew id d.heapTop }

/-- Registers a remote with rolling code 1, stores it and the lists of ids. -/
def registerRemote (d : Device) (name : List UInt8) (id : UInt32) (isExternal : Bool) :
    Option Device :=
  ((d.insertRemote id (.create d.mqttEnabled name id 1 [] isExternal)).saveRemote
    d.heapTop true).bind saveRemoteList

/-- The pointer to the created remote is the old top of the heap. -/
def createRemote (d : Device) (remoteName : List UInt8) : Option Device :=
  { d with nextRemoteId := d.nextRemoteId + 1 }.registerRemote remoteName d.nextRemoteId false

def deleteRemote (d : Device) (remoteId : UInt32) : Option Device :=
  { d with
    remotes := d.remotes.erase remoteId
    config := d.config.deleteRemoteConfig remoteId }.saveRemoteList

def isAPrimaryRemote (d : Device) (remoteId : UInt32) : Bool :=
  d.blinds.toList.any fun entry => (d.heap entry.2.remote).remoteId == remoteId

/-- The part of `DoAddBlind` after its checks. The new blind starts at 90 with the
favourite 50. -/
def addBlind (d : Device) (name : List UInt8) (openTime closeTime : Int32) : Option Device :=
  (d.createRemote name).bind fun d' =>
    (d'.saveBlind (.create d.mqttEnabled d.clock d.nextBlindId.toUInt16 name 90 50 openTime
      closeTime d.heapTop) true).bind fun (config, b) =>
        ({ d' with
          nextBlindId := d.nextBlindId + 1
          config := config
          blinds := d'.blinds.insertIfNew d.nextBlindId b }.modifyRemote d.heapTop fun r =>
            r.associateBlind d.nextBlindId.toUInt16).saveBlindList

/-- The part of `DoDeleteBlind` after the blind was found. -/
def removeBlind (d : Device) (k : UInt32) (b : Blind) : Option Device :=
  ({ d with blinds := d.blinds.erase k }.deleteRemote (d.heap b.remote).remoteId).bind fun d =>
    { d with config := d.config.deleteBlindConfig k.toUInt16 }.saveBlindList

/-- The maps are empty and no id was given out. -/
def blank (config : DeviceConfig) (mqttEnabled : Bool) (slots : ℕ → RecvCommand)
    (history : List Happening) : Device where
  config := config
  mqttEnabled := mqttEnabled
  clock := 0
  radio := .create slots
  heap := fun _ => default
  heapTop := 0
  remotes := ∅
  nextRemoteId := baseRemoteId + 1
  detectedRemotes := []
  blinds := ∅
  nextBlindId := 1
  history := history

/-- A remote of one of the two lists. A remote without a record is skipped. -/
def loadRemote (isExternal : Bool) (d : Device) (id : UInt32) : Device :=
  match d.config.getRemoteConfig id with
  | none => d
  | some cfg =>
      d.insertRemote id
        (.create d.mqttEnabled cfg.remoteName.chars id cfg.rollingCode cfg.blinds isExternal)

/-- The id that the list of created remotes means by a low half. -/
def fullId (low : UInt16) : UInt32 := low.toUInt32 ||| baseRemoteId

def raiseNextRemoteId (d : Device) (id : UInt32) : Device :=
  if id ≥ d.nextRemoteId then { d with nextRemoteId := id + 1 } else d

def loadInternal (d : Device) (low : UInt16) : Device :=
  loadRemote false (d.raiseNextRemoteId (fullId low)) (fullId low)

/-- The constructor of `SomfyRemotes`. -/
def loadRemotes (d : Device) : Device :=
  d.config.getExternalRemoteIds.foldl (loadRemote true)
    (d.config.getRemoteIds.foldl loadInternal d)

def raiseNextBlindId (d : Device) (k : UInt32) : Device :=
  if k ≥ d.nextBlindId then { d with nextBlindId := k + 1 } else d

/-- A stored blind is loaded, or its record is deleted when its remote is missing. The
answer is what becomes of the variable `errors`. -/
def restoreBlind (d : Device) (blindId : UInt16) (cfg : BlindConfig) (errors : Bool) :
    Device × Bool :=
  match d.remotes[cfg.remoteId]? with
  | some remote =>
      ({ d with
        blinds := d.blinds.insertIfNew blindId.toUInt32
          (.create d.mqttEnabled d.clock blindId cfg.blindName.chars cfg.currentPosition
            cfg.myPosition cfg.openTime cfg.closeTime remote) }, errors)
  | none => ({ d with config := d.config.deleteBlindConfig blindId }, true)

/-- One turn of the loop in `Blinds::Initialize`. The record of a listed blind is
dereferenced without a test. -/
def loadBlind (s : Device × Bool) (blindId : UInt16) : Option (Device × Bool) :=
  (s.1.config.getBlindConfig blindId).map fun cfg =>
    (s.1.raiseNextBlindId blindId.toUInt32).restoreBlind blindId cfg s.2

/-- `Blinds::Initialize` -/
def initializeBlinds (d : Device) : Option Device :=
  (d.config.getBlindIds.foldlM loadBlind (d, false)).bind fun (d, errors) =>
    if errors then d.saveBlindList else some d

/-- The start of service mode on stored records. -/
def boot (config : DeviceConfig) (mqttEnabled : Bool) (slots : ℕ → RecvCommand)
    (history : List Happening) : Option Device :=
  (blank config mqttEnabled slots history).loadRemotes.initializeBlinds

/-- The end of service mode. -/
def saveAll (d : Device) : Option Device :=
  d.saveRemoteState.bind fun d => d.saveBlindState true

/-- Everything is saved and the device starts again, with the MQTT settings of then. -/
def restart (d : Device) (mqttEnabled : Bool) (slots : ℕ → RecvCommand) : Option Device :=
  d.saveAll.bind fun d => boot d.config mqttEnabled slots d.history

end Device

end PicoSomfy
