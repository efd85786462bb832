import PicoSomfy.MqttClient
import PicoSomfy.DiscoveryTopics
import PicoSomfy.OwnedNames

/-!
# Subscriptions of remotes and blinds

A remote enters the topic of its commands into the MQTT client when it is built, a blind
two topics, and the destructors remove them. A remote object lives as long as the map of
the remotes or a blind points to it; a blind lives in the map of the blinds.

`Wired` is a device with its MQTT client, and `perform` does for both what a call does.
The client dispatches by the text of a topic; what a subscriber then does is the call that
the device makes of the message.
-/
namespace PicoSomfy

open CStrings SortedMap OwnedNames

/-- The formats of the three topics. -/
inductive Topic where
  | remote (remoteId : UInt32)
  | blind (blindId : UInt16)
  | position (blindId : UInt16)
  deriving DecidableEq

namespace Topic

def bytes : Topic → List UInt8
  | remote remoteId => ascii "pico_somfy/remotes/" ++ (hex08 remoteId ++ ascii "/cmd")
  | blind blindId => ascii "pico_somfy/blinds/" ++ (hex08 blindId.toUInt32 ++ ascii "/cmd")
  | position blindId => ascii "pico_somfy/blinds/" ++ (hex08 blindId.toUInt32 ++ ascii "/pos")

/-- The topic as the client stores it. -/
def text (t : Topic) : String := String.ofList (t.bytes.map fun b => Char.ofNat b.toNat)

/-- What a message on the topic is for the device. -/
def event (payload : List UInt8) (overflow : Int32) : Topic → Device.Event
  | .remote remoteId => .remoteTopic remoteId payload
  | .blind blindId => .blindTopic blindId.toUInt32 payload
  | .position blindId => .positionTopic blindId.toUInt32 payload overflow

end Topic

/-- The objects behind the callbacks. A remote is known by its place on the heap, a blind by
its key. -/
inductive Subscriber where
  | remoteCommand (p : ℕ)
  | blindCommand (k : UInt32)
  | blindPosition (k : UInt32)
  deriving DecidableEq

/-- What the callback makes of a message. -/
def Subscriber.call (payload : List UInt8) (overflow : Int32) : Subscriber → Call
  | remoteCommand p => Device.remoteOnCommand p payload
  | blindCommand k => Device.onCommand k payload
  | blindPosition k => Device.onSetPosition k payload overflow

/-- A pointer to the remote is left in a map or in a blind. -/
def Device.holds (d : Device) (p : ℕ) : Bool :=
  d.remotes.toList.any (fun entry => entry.2 == p) ||
    d.blinds.toList.any fun entry => entry.2.remote == p

namespace MqttClient

variable (m : MqttClient Subscriber)

/-- The constructor of `SomfyRemote` -/
def addRemote (p : ℕ) (remoteId : UInt32) : MqttClient Subscriber :=
  m.addTopicCallback (Topic.remote remoteId).text (.remoteCommand p)

/-- The constructor of `Blind` -/
def addBlind (k : UInt32) (blindId : UInt16) : MqttClient Subscriber :=
  (m.addTopicCallback (Topic.blind blindId).text (.blindCommand k)).addTopicCallback
    (Topic.position blindId).text (.blindPosition k)

/-- The destructor of `Blind` -/
def dropBlind (blindId : UInt16) : MqttClient Subscriber :=
  (m.removeTopicCallback (Topic.position blindId).text).removeTopicCallback
    (Topic.blind blindId).text

/-- A pointer to a remote goes away. The last one destroys it. -/
def release (d : Device) (p : ℕ) : MqttClient Subscriber :=
  if d.holds p then m else m.removeTopicCallback (Topic.remote (d.heap p).remoteId).text

end MqttClient

/-- The objects that a call builds and destroys. An object that finds its key taken is
destroyed at once, and with it the topic of the one that is there. -/
def Call.rewire (d d' : Device) (m : MqttClient Subscriber) : Call → MqttClient Subscriber
  | .createRemote _ => (m.addRemote d.heapTop d.nextRemoteId).release d' d.heapTop
  | .importRemote _ id => (m.addRemote d.heapTop id).release d' d.heapTop
  | .addBlind _ _ _ =>
      let built := (m.addRemote d.heapTop d.nextRemoteId).addBlind d.nextBlindId
        d.nextBlindId.toUInt16
      (if d.nextBlindId ∈ d.blinds then built.dropBlind d.nextBlindId.toUInt16
        else built).release d' d.heapTop
  | .deleteRemote id => (d.remotes[id]?).elim m (m.release d')
  | .removeBlind _ b =>
      -- the blind still holds its remote while the map lets go of it
      let id := (d.heap b.remote).remoteId
      let unlisted := (d.remotes[id]?).elim m
        (m.release { d with remotes := d.remotes.erase id })
      (unlisted.dropBlind b.blindId).release d' b.remote
  | _ => m

structure Wired where
  device : Device
  mqtt : MqttClient Subscriber

namespace Wired

/-- One turn of the loops in the constructor of `SomfyRemotes`. -/
def loadRemote (isExternal : Bool) (w : Wired) (id : UInt32) : Wired :=
  let d := Device.loadRemote isExternal w.device id
  ⟨d, if (w.device.config.getRemoteConfig id).isSome
    then (w.mqtt.addRemote w.device.heapTop id).release d w.device.heapTop else w.mqtt⟩

def loadInternal (w : Wired) (low : UInt16) : Wired :=
  loadRemote false ⟨w.device.raiseNextRemoteId (Device.fullId low), w.mqtt⟩ (Device.fullId low)

def loadRemotes (w : Wired) : Wired :=
  w.device.config.getExternalRemoteIds.foldl (loadRemote true)
    (w.device.config.getRemoteIds.foldl loadInternal w)

/-- The blind that is loaded for a record, if its remote is there. -/
def restoreBlind (w : Wired) (blindId : UInt16) : MqttClient Subscriber :=
  ((w.device.config.getBlindConfig blindId).bind fun cfg => w.device.remotes[cfg.remoteId]?).elim
    w.mqtt fun _ =>
      if blindId.toUInt32 ∈ w.device.blinds
        then (w.mqtt.addBlind blindId.toUInt32 blindId).dropBlind blindId
        else w.mqtt.addBlind blindId.toUInt32 blindId

/-- One turn of the loop in `Blinds::Initialize`. -/
def loadBlind (s : Wired × Bool) (blindId : UInt16) : Option (Wired × Bool) :=
  (Device.loadBlind (s.1.device, s.2) blindId).map fun t =>
    (⟨t.1, s.1.restoreBlind blindId⟩, t.2)

def initializeBlinds (w : Wired) : Option Wired :=
  (w.device.config.getBlindIds.foldlM loadBlind (w, false)).bind fun s =>
    if s.2 then s.1.device.saveBlindList.map fun d => ⟨d, s.1.mqtt⟩ else some s.1

/-- The start of service mode. The client finds two numbers in memory. -/
def boot (config : DeviceConfig) (mqttEnabled : Bool) (slots : ℕ → RecvCommand)
    (history : List Happening) (stale : UInt32 × UInt32) : Option Wired :=
  (loadRemotes ⟨Device.blank config mqttEnabled slots history,
    (MqttClient.create stale.1 stale.2).start mqttEnabled⟩).initializeBlinds

def perform (w : Wired) (stale : UInt32 × UInt32) : Call → Option Wired
  | .restart mqttEnabled slots =>
      w.device.saveAll.bind fun d => boot d.config mqttEnabled slots d.history stale
  | c => (w.device.perform c).map fun d => ⟨d, c.rewire w.device d w.mqtt⟩

/-- An event, and the two numbers in case it is a restart. -/
def step (w : Wired) (e : Device.Event × (UInt32 × UInt32)) : Option Wired :=
  (w.device.call e.1).bind fun c => w.perform e.2 c

def fresh (dc : DeviceConfig) (mqttEnabled : Bool) (slots : ℕ → RecvCommand)
    (stale : UInt32 × UInt32) : Option Wired :=
  boot dc.hardReset mqttEnabled slots [] stale

/-- What a message on a topic makes the device do. -/
def dispatch (w : Wired) (topic : String) (payload : List UInt8) (overflow : Int32) : Call :=
  (w.mqtt.topicCallbacks[topic]?).elim .nothing (Subscriber.call payload overflow)

theorem device_loadRemotes (w : Wired) : w.loadRemotes.device = w.device.loadRemotes := by
  have hfold : ∀ {ι : Type} {f : Wired → ι → Wired} {g : Device → ι → Device},
      (∀ w i, (f w i).device = g w.device i) → ∀ (is : List ι) (w : Wired),
        (is.foldl f w).device = is.foldl g w.device := by
    intro ι f g hturn is
    induction is with
    | nil => exact fun w => rfl
    | cons i is ih =>
        intro w
        rw [List.foldl_cons, List.foldl_cons, ih, hturn]
  have hexternal := hfold (f := loadRemote true) (g := Device.loadRemote true) fun w i => rfl
  have hinternal := hfold (f := loadInternal) (g := Device.loadInternal) fun w i => rfl
  unfold loadRemotes Device.loadRemotes
  rw [hexternal, hinternal]

theorem device_loadBlinds (ks : List UInt16) (s : Wired × Bool) :
    (ks.foldlM loadBlind s).map (fun t => (t.1.device, t.2)) =
      ks.foldlM Device.loadBlind (s.1.device, s.2) := by
  induction ks generalizing s with
  | nil => rfl
  | cons k ks ih =>
      rw [List.foldlM_cons, List.foldlM_cons, loadBlind]
      cases Device.loadBlind (s.1.device, s.2) k with
      | none => rfl
      | some t => exact ih (⟨t.1, s.1.restoreBlind k⟩, t.2)

theorem device_boot (config : DeviceConfig) (mqttEnabled : Bool) (slots : ℕ → RecvCommand)
    (history : List Happening) (stale : UInt32 × UInt32) :
    (boot config mqttEnabled slots history stale).map device =
      Device.boot config mqttEnabled slots history := by
  unfold boot Device.boot
  rw [← device_loadRemotes ⟨Device.blank config mqttEnabled slots history,
    (MqttClient.create stale.1 stale.2).start mqttEnabled⟩]
  generalize loadRemotes _ = w
  unfold initializeBlinds Device.initializeBlinds
  rw [← device_loadBlinds _ (w, false)]
  cases w.device.config.getBlindIds.foldlM loadBlind (w, false) with
  | none => rfl
  | some s =>
      rw [Option.bind_some, Option.map_some, Option.bind_some]
      dsimp only
      split_ifs
      · rw [Option.map_map]
        exact Option.map_id'
      · rfl

/-- Every call but a restart goes on with the client it found. -/
theorem perform_eq {c : Call} (hc : ∀ mqttEnabled slots, c ≠ .restart mqttEnabled slots) (w : Wired)
    (stale : UInt32 × UInt32) :
    w.perform stale c = (w.device.perform c).map fun d => ⟨d, c.rewire w.device d w.mqtt⟩ := by
  cases c with
  | restart mqttEnabled slots => exact absurd rfl (hc mqttEnabled slots)
  | _ => rfl

/-- The client has no influence on the device. -/
theorem device_perform (w : Wired) (stale : UInt32 × UInt32) (c : Call) :
    (w.perform stale c).map device = w.device.perform c := by
  by_cases hc : ∃ mqttEnabled slots, c = .restart mqttEnabled slots
  · obtain ⟨mqttEnabled, slots, rfl⟩ := hc
    change (w.device.saveAll.bind _).map device = w.device.saveAll.bind _
    rw [Option.map_bind]
    exact congrArg _ (funext fun d => device_boot d.config mqttEnabled slots d.history stale)
  · rw [perform_eq (fun mqttEnabled slots heq => hc ⟨mqttEnabled, slots, heq⟩), Option.map_map]
    exact Option.map_id'

theorem device_step (w : Wired) (e : Device.Event × (UInt32 × UInt32)) :
    (w.step e).map device = w.device.step e.1 := by
  unfold step Device.step
  rw [Option.map_bind]
  exact congrArg _ (funext fun c => w.device_perform e.2 c)

end Wired

end PicoSomfy
