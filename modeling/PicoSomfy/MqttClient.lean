import PicoSomfy.Transitions

/-!
# Reassembly of MQTT messages

The network stack announces a message with its topic and total length and then
hands over its payload in fragments, the last one flagged. `MqttClient` collects
the fragments of a known topic in one buffer and calls the subscriber of the
topic at the end. The buffer, its length and the count of received bytes outlive
a message, and the constructor leaves the two numbers uninitialised.

A `memcpy` to a null or too short buffer and a call of an empty function are
faults; a run stops there. Bytes of a new buffer are `none` until written.
-/
namespace PicoSomfy

open Transitions

inductive MqttFault where
  | nullPayload
  | overrun
  | emptyFunction
  deriving DecidableEq, Repr

/-- A call of a subscriber, with the topic it was looked up under. -/
structure SubscriberCall (σ : Type*) where
  topic : String
  callback : σ
  payload : List (Option UInt8)
  deriving DecidableEq, Repr

/-- `client` says whether `_client` is not null. -/
structure MqttClient (σ : Type*) where
  client : Bool
  topicCallbacks : Std.ExtTreeMap String σ
  currentTopic : String
  payload : Option (List (Option UInt8))
  payloadLength : UInt32
  payloadReceived : UInt32

/-- `MQTT_DATA_FLAG_LAST` -/
def mqttDataFlagLast : UInt8 := 1

/-- `memcpy` into a buffer, from an offset on. -/
def copyInto (buf : List (Option UInt8)) (off : ℕ) (data : List UInt8) : List (Option UInt8) :=
  buf.take off ++ data.map some ++ buf.drop (off + data.length)

namespace MqttClient

variable {σ : Type*}

/-- The constructor, with whatever the two numbers hold. -/
def create (payloadLength payloadReceived : UInt32) : MqttClient σ where
  client := false
  topicCallbacks := ∅
  currentTopic := ""
  payload := none
  payloadLength := payloadLength
  payloadReceived := payloadReceived

def start (m : MqttClient σ) (brokerConfigured : Bool) : MqttClient σ :=
  if brokerConfigured then { m with client := true } else m

/-- `insert` keeps the callback of a topic that has one. -/
def addTopicCallback (m : MqttClient σ) (topic : String) (callback : σ) : MqttClient σ :=
  if m.client then
    { m with topicCallbacks := m.topicCallbacks.insertIfNew topic callback }
  else m

def removeTopicCallback (m : MqttClient σ) (topic : String) : MqttClient σ :=
  if m.client then { m with topicCallbacks := m.topicCallbacks.erase topic } else m

def incomingPublishCallback (m : MqttClient σ) (topic : String) (totLen : UInt32) :
    MqttClient σ :=
  match m.topicCallbacks[topic]? with
  | none => { m with payload := none }
  | some _ =>
      if totLen > 2048 then m
      else { m with
        currentTopic := topic
        payload := some (List.replicate totLen.toNat none)
        payloadLength := totLen
        payloadReceived := 0 }

def remaining (m : MqttClient σ) : UInt32 := m.payloadLength - m.payloadReceived

/-- The length of the fragment is a 16-bit number. After the message for a null
buffer the source goes on with the stale numbers. -/
def incomingPayloadCallback (m : MqttClient σ) (data : List UInt8) (flags : UInt8) :
    Except MqttFault (MqttClient σ × Option (SubscriberCall σ)) :=
  if UInt32.ofNat data.length > m.remaining then .ok ({ m with payload := none }, none)
  else
    match m.payload with
    | none => .error .nullPayload
    | some buf =>
        if buf.length < m.payloadReceived.toNat + data.length then .error .overrun
        else
          let buf := copyInto buf m.payloadReceived.toNat data
          let received := m.payloadReceived + UInt32.ofNat data.length
          if flags &&& mqttDataFlagLast ≠ 0 then
            match m.topicCallbacks[m.currentTopic]? with
            | none => .error .emptyFunction
            | some callback =>
                .ok ({ m with payload := none, payloadReceived := received },
                  some ⟨m.currentTopic, callback, buf.take m.payloadLength.toNat⟩)
          else .ok ({ m with payload := some buf, payloadReceived := received }, none)

end MqttClient

/-- A message under way: what the stack has handed over of it so far, and whether
its topic was known when it was announced. -/
structure IncomingMessage where
  topic : String
  totLen : UInt32
  got : List UInt8
  known : Bool

/-- A client, the message under way, and two histories: the calls that were made
and the calls that were due. -/
structure MqttSession (σ : Type*) where
  mqtt : MqttClient σ
  incoming : Option IncomingMessage
  calls : List (SubscriberCall σ)
  due : List (SubscriberCall σ)
  fault : Option MqttFault

inductive MqttEvent (σ : Type*) where
  | start (brokerConfigured : Bool)
  | add (topic : String) (callback : σ)
  | remove (topic : String)
  | publish (topic : String) (totLen : UInt32)
  | fragment (data : List UInt8) (flags : UInt8)
  | drop

namespace MqttSession

variable {σ : Type*}

def init (payloadLength payloadReceived : UInt32) : MqttSession σ :=
  ⟨.create payloadLength payloadReceived, none, [], [], none⟩

/-- The call that a complete message asks for: none for a message of more than
2048 bytes or a topic without a subscriber. -/
def dueCall (m : MqttClient σ) (msg : IncomingMessage) (bytes : List UInt8) :
    Option (SubscriberCall σ) :=
  if msg.totLen > 2048 then none
  else (m.topicCallbacks[msg.topic]?).map fun callback => ⟨msg.topic, callback, bytes.map some⟩

/-- What the stack may hand over: at most the announced length in fragments of at
most 65535 bytes, with all of it there at the flagged one. -/
def Allowed (msg : IncomingMessage) (data : List UInt8) (flags : UInt8) : Prop :=
  data.length < 65536 ∧ msg.got.length + data.length ≤ msg.totLen.toNat ∧
    (flags &&& mqttDataFlagLast ≠ 0 → msg.got.length + data.length = msg.totLen.toNat)

instance (msg : IncomingMessage) (data : List UInt8) (flags : UInt8) :
    Decidable (Allowed msg data flags) := by
  unfold Allowed
  infer_instance

/-- One fragment of the message under way. -/
def fragmentStep (s : MqttSession σ) (msg : IncomingMessage) (data : List UInt8)
    (flags : UInt8) : MqttSession σ :=
  match s.mqtt.incomingPayloadCallback data flags with
  | .error fault => { s with fault := some fault }
  | .ok (mqtt, call) =>
      { s with
        mqtt := mqtt
        calls := s.calls ++ call.toList
        due := s.due ++ if flags &&& mqttDataFlagLast ≠ 0
          then (dueCall s.mqtt msg (msg.got ++ data)).toList else []
        incoming := if flags &&& mqttDataFlagLast ≠ 0 then none
          else some { msg with got := msg.got ++ data } }

/-- Messages only come while there is a client, one after the other. After a fault
nothing happens any more. -/
def step (s : MqttSession σ) (e : MqttEvent σ) : Option (MqttSession σ) :=
  if s.fault.isSome then none
  else
    match e with
    | .start brokerConfigured => some { s with mqtt := s.mqtt.start brokerConfigured }
    | .add topic callback => some { s with mqtt := s.mqtt.addTopicCallback topic callback }
    | .remove topic => some { s with mqtt := s.mqtt.removeTopicCallback topic }
    | .publish topic totLen =>
        if s.mqtt.client = true ∧ s.incoming.isNone = true then
          some { s with
            mqtt := s.mqtt.incomingPublishCallback topic totLen
            incoming := some ⟨topic, totLen, [], (s.mqtt.topicCallbacks[topic]?).isSome⟩ }
        else none
    | .fragment data flags =>
        match s.incoming with
        | none => none
        | some msg => if Allowed msg data flags then some (s.fragmentStep msg data flags) else none
    | .drop => some { s with incoming := none }

end MqttSession

end PicoSomfy
