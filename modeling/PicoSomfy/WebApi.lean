import PicoSomfy.Device
import PicoSomfy.Scan

/-!
# Requests and the events of the device

The web server hands a handler the parameters of a request, decoded. A handler
checks them against the device and ends in one call, with the answer it gives; a
refused request ends in no call. A number that `sscanf` did not assign stays what
the variable held before, which is the business of the compiler: `Locals` has such
values. The position in a payload is a float that is rounded to an int; what becomes of
one that no int can hold is open as well.

`Device.step` takes the device through one event in service mode: `Device.call` is
what the event comes down to, `Device.perform` does it.
-/
namespace PicoSomfy

abbrev CgiParams := String → Option (List UInt8)

/-- The parameters of a request, given as text. -/
def query (fields : List (String × String)) : CgiParams :=
  fun name => (fields.lookup name).map ascii

/-- What the local variables of a handler hold before they are assigned, and what a float
becomes that overflows an int. -/
structure Locals where
  id : UInt32
  blindId : UInt16
  openTime : Int32
  closeTime : Int32
  buttons : SomfyButton
  overflow : Int32
  deriving Inhabited

/-- The checks on the name of a remote: it is there, not empty, fits the record and has
no double quote. -/
def nameParam (params : CgiParams) : Option (List UInt8) :=
  (params "name").filter fun name => name ≠ [] ∧ name.length + 1 ≤ 48 ∧ 34 ∉ name

/-- The calls events come down to. Remotes are given by pointer, blinds by key. -/
inductive Call where
  | nothing
  | press (p : ℕ) (buttons : SomfyButton) (repeats : UInt16)
  | goUp (k : UInt32)
  | goDown (k : UInt32)
  | stop (k : UInt32)
  | goToPosition (k : UInt32) (position : Int32)
  | overheard (command : SomfyCommand)
  | tick (k : UInt32) (position state : Bool)
  | wait (microseconds : ℕ)
  | worker (packet : Packet)
  | packetReady
  | discover
  | saveRemotes
  | saveBlinds
  | restart (mqttEnabled : Bool) (slots : ℕ → RecvCommand)
  | addBlind (name : List UInt8) (openTime closeTime : Int32)
  | updateBlind (k : UInt32) (b : Blind) (name : List UInt8) (openTime closeTime : Int32)
  | removeBlind (k : UInt32) (b : Blind)
  | createRemote (name : List UInt8)
  | importRemote (name : List UInt8) (id : UInt32)
  | rename (p : ℕ) (name : List UInt8)
  | deleteRemote (id : UInt32)
  | associate (p : ℕ) (blindId : UInt16)
  | disassociate (p : ℕ) (blindId : UInt16)

namespace Call

def refuse : Option (Call × Bool) := some (nothing, false)

def accept (c : Call) : Option (Call × Bool) := some (c, true)

end Call

open Call

namespace Device

/-- `SomfyRemote::OnCommand` -/
def remoteOnCommand (p : ℕ) (payload : List UInt8) : Call :=
  if payload = ascii "up" then press p .up shortPress
  else if payload = ascii "down" then press p .down shortPress
  else if payload = ascii "stop" then press p .my shortPress
  else nothing

/-- `Blind::OnCommand` -/
def onCommand (k : UInt32) (payload : List UInt8) : Call :=
  if payload = ascii "open" then .goUp k
  else if payload = ascii "close" then .goDown k
  else if payload = ascii "stop" then .stop k
  else nothing

/-- The float that was read, rounded and converted to an int. The variable is zero before. -/
def readPosition (overflow : Int32) : Scan (Option ℚ) → Int32
  | .assigned (some x) =>
      if -2147483648 ≤ roundAway x ∧ roundAway x ≤ 2147483647 then Int32.ofInt (roundAway x)
      else overflow
  | .assigned none => overflow
  | .mismatch | .eof => 0

/-- `Blind::OnSetPosition` -/
def onSetPosition (k : UInt32) (payload : List UInt8) (overflow : Int32) : Call :=
  if payload.length > 31 then nothing
  else .goToPosition k (readPosition overflow (Scan.f payload))

def doAddBlind (params : CgiParams) (locals : Locals) : Option (Call × Bool) :=
  match params "name", params "openTime", params "closeTime" with
  | some name, some openTimeParam, some closeTimeParam =>
      match (Scan.d openTimeParam).read locals.openTime,
        (Scan.d closeTimeParam).read locals.closeTime with
      | some openTime, some closeTime => accept (.addBlind name openTime closeTime)
      | _, _ => refuse
  | _, _, _ => refuse

def doUpdateBlind (d : Device) (params : CgiParams) (locals : Locals) : Option (Call × Bool) :=
  match params "id", params "name", params "openTime", params "closeTime" with
  | some idParam, some name, some openTimeParam, some closeTimeParam =>
      match (Scan.hu idParam).read locals.blindId, (Scan.d openTimeParam).read locals.openTime,
        (Scan.d closeTimeParam).read locals.closeTime with
      | some id, some openTime, some closeTime =>
          match d.blinds[id.toUInt32]? with
          | some b => accept (updateBlind id.toUInt32 b name openTime closeTime)
          | none => refuse
      | _, _, _ => refuse
  | _, _, _, _ => refuse

/-- The id is read without a test that there is one. -/
def doDeleteBlind (d : Device) (params : CgiParams) (locals : Locals) : Option (Call × Bool) :=
  (params "id").bind fun idParam =>
    match (Scan.d idParam).read locals.id.toInt32 with
    | none => refuse
    | some id =>
        match d.blinds[id.toUInt32]? with
        | none => refuse
        | some b => accept (.removeBlind id.toUInt32 b)

/-- An unknown command is only reported: the answer is true. -/
def doBlindCommand (d : Device) (params : CgiParams) (locals : Locals) :
    Option (Call × Bool) :=
  match params "id", params "command", params "payload" with
  | some idParam, some command, some payload =>
      match (Scan.d idParam).read locals.id.toInt32 with
      | none => refuse
      | some id =>
          if id.toUInt32 ∈ d.blinds then
            if command = ascii "cmd" then accept (onCommand id.toUInt32 payload)
            else if command = ascii "pos" then
              accept (onSetPosition id.toUInt32 payload locals.overflow)
            else accept nothing
          else refuse
  | _, _, _ => refuse

/-- The pointer `GetRemoteParam` returns, `none` for a null pointer. -/
def getRemoteParam (d : Device) (params : CgiParams) (locals : Locals) : Option ℕ :=
  (params "id").bind fun idParam => ((Scan.u idParam).read locals.id).bind fun id => d.remotes[id]?

def doAddRemote (params : CgiParams) : Option (Call × Bool) :=
  match nameParam params with
  | none => refuse
  | some name => accept (.createRemote name)

def doImportRemote (d : Device) (params : CgiParams) (locals : Locals) :
    Option (Call × Bool) :=
  match nameParam params, params "id" with
  | some name, some idParam =>
      match (Scan.u idParam).read locals.id with
      | none => refuse
      | some id => if id ∈ d.remotes then refuse else accept (importRemote name id)
  | _, _ => refuse

def doUpdateRemote (remote : Option ℕ) (params : CgiParams) : Option (Call × Bool) :=
  match remote, nameParam params with
  | some p, some name => accept (rename p name)
  | _, _ => refuse

/-- A null pointer is dereferenced. -/
def doDeleteRemote (d : Device) (remote : Option ℕ) : Option (Call × Bool) :=
  remote.bind fun p =>
    if d.isAPrimaryRemote (d.heap p).remoteId then refuse
    else accept (.deleteRemote (d.heap p).remoteId)

def doAddOrRemoveBlindToRemote (d : Device) (remote : Option ℕ) (params : CgiParams)
    (locals : Locals) (assocFunc : ℕ → UInt16 → Call) : Option (Call × Bool) :=
  match remote, params "blindId" with
  | some p, some idParam =>
      match (Scan.hu idParam).read locals.blindId with
      | none => refuse
      | some id => if id.toUInt32 ∈ d.blinds then accept (assocFunc p id) else refuse
  | _, _ => refuse

/-- Bad buttons are reported, and pressed all the same. -/
def doButtonPress (remote : Option ℕ) (params : CgiParams) (locals : Locals) :
    Option (Call × Bool) :=
  match remote with
  | none => refuse
  | some p =>
      accept (press p
        (((params "buttons").bind fun buttons => (Scan.d buttons).read locals.buttons).getD
          locals.buttons)
        (if params "long" = some (ascii "true") then longPress else shortPress))

/-- The requests, by the last part of their paths. -/
inductive Request where
  | addBlind
  | updateBlind
  | deleteBlind
  | blindCommand
  | addRemote
  | importRemote
  | updateRemote
  | deleteRemote
  | bindBlind
  | unbindBlind
  | remoteCommand
  | discover

def handle (d : Device) (request : Request) (params : CgiParams) (locals : Locals) :
    Option (Call × Bool) :=
  match request with
  | .addBlind => doAddBlind params locals
  | .updateBlind => d.doUpdateBlind params locals
  | .deleteBlind => d.doDeleteBlind params locals
  | .blindCommand => d.doBlindCommand params locals
  | .addRemote => doAddRemote params
  | .importRemote => d.doImportRemote params locals
  | .updateRemote => doUpdateRemote (d.getRemoteParam params locals) params
  | .deleteRemote => d.doDeleteRemote (d.getRemoteParam params locals)
  | .bindBlind =>
      d.doAddOrRemoveBlindToRemote (d.getRemoteParam params locals) params locals associate
  | .unbindBlind =>
      d.doAddOrRemoveBlindToRemote (d.getRemoteParam params locals) params locals disassociate
  | .remoteCommand => doButtonPress (d.getRemoteParam params locals) params locals
  | .discover => accept discover

/-- What can happen to a device in service mode. An overheard command is whatever the
main loop reads from the receive ring. -/
inductive Event where
  | request (request : Request) (params : CgiParams) (locals : Locals)
  | remoteTopic (remoteId : UInt32) (payload : List UInt8)
  | blindTopic (blindId : UInt32) (payload : List UInt8)
  | positionTopic (blindId : UInt32) (payload : List UInt8) (overflow : Int32)
  | overheard (command : SomfyCommand)
  | tick (blindId : UInt32) (position state : Bool)
  | wait (microseconds : ℕ)
  | saveRemotes
  | saveBlinds
  | worker (packet : Packet)
  | packetReady
  | restart (mqttEnabled : Bool) (slots : ℕ → RecvCommand)

/-- A message on a topic without a subscriber is dropped. -/
def call (d : Device) : Event → Option Call
  | .request request params locals => (d.handle request params locals).map (·.1)
  | .remoteTopic remoteId payload =>
      some ((d.remotes[remoteId]?).elim nothing fun p => remoteOnCommand p payload)
  | .blindTopic blindId payload =>
      some (if blindId ∈ d.blinds then onCommand blindId payload else nothing)
  | .positionTopic blindId payload overflow =>
      some (if blindId ∈ d.blinds then onSetPosition blindId payload overflow else nothing)
  | .overheard command => some (.overheard command)
  | .tick blindId position state => some (.tick blindId position state)
  | .wait microseconds => some (.wait microseconds)
  | .saveRemotes => some .saveRemotes
  | .saveBlinds => some .saveBlinds
  | .worker packet => some (.worker packet)
  | .packetReady => some .packetReady
  | .restart mqttEnabled slots => some (.restart mqttEnabled slots)

/-- `Blind::UpdateConfig`, which renames the primary remote as well. -/
def updateConfig (d : Device) (k : UInt32) (b : Blind) (name : List UInt8)
    (openTime closeTime : Int32) : Device :=
  (d.modifyBlind k fun b => b.updateConfig d.mqttEnabled name openTime closeTime).modifyRemote
    b.remote fun r => r.setName d.mqttEnabled name

def perform (d : Device) : Call → Option Device
  | .nothing => some d
  | .press p buttons repeats => d.pressButtons p buttons repeats
  | .goUp k => d.goUp k
  | .goDown k => d.goDown k
  | .stop k => d.stop k
  | .goToPosition k position => d.goToPosition k position
  | .overheard command => d.externalButtonPress command
  | .tick k position state => d.tick k position state
  | .wait microseconds => some { d with clock := d.clock + microseconds }
  | .worker packet =>
      (d.radio.workerStep packet d.clock).map fun radio => { d with radio := radio }
  | .packetReady => d.radio.queueReceive.map fun radio => { d with radio := radio }
  | .discover => some { d with detectedRemotes := [] }
  | .saveRemotes => d.saveRemoteState
  | .saveBlinds => d.saveBlindState false
  | .restart mqttEnabled slots => d.restart mqttEnabled slots
  | .addBlind name openTime closeTime => d.addBlind name openTime closeTime
  | .updateBlind k b name openTime closeTime => some (d.updateConfig k b name openTime closeTime)
  | .removeBlind k b => d.removeBlind k b
  | .createRemote name => d.createRemote name
  | .importRemote name id => d.registerRemote name id true
  | .rename p name => some (d.modifyRemote p fun r => r.setName d.mqttEnabled name)
  | .deleteRemote id => d.deleteRemote id
  | .associate p blindId => some (d.modifyRemote p fun r => r.associateBlind blindId)
  | .disassociate p blindId => some (d.modifyRemote p fun r => r.disassociateBlind blindId)

def step (d : Device) (e : Event) : Option Device := (d.call e).bind d.perform

/-- A device that starts for the first time after all settings were reset. -/
def freshDevice (dc : DeviceConfig) (mqttEnabled : Bool) (slots : ℕ → RecvCommand) :
    Option Device :=
  boot dc.hardReset mqttEnabled slots []

end Device

end PicoSomfy
