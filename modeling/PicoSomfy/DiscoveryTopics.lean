import PicoSomfy.ConfigService
import PicoSomfy.ListReports
import PicoSomfy.OutputBuffers

/-!
# The topics of discovery messages

A blind announces itself with one retained message, and a remote that is primary for no
blind with one for each of its buttons. The topic begins with the configured prefix, of
up to 127 bytes, and `snprintf` writes it to an array of 64 or 68 bytes. Of a longer topic
it keeps the start. Since the id stands behind the prefix, long prefixes make all devices
share one topic, and the broker keeps the message of the last one.

The stack under `MqttClient` decides whether a message is accepted; `answers` gives its
answer to each message. Messages are noted with the device and the command they announce.
-/
namespace PicoSomfy

open CStrings SortedMap Transitions

/-- A device, or a button of a remote. -/
inductive Announced where
  | cover (blindId : UInt16)
  | button (remoteId : UInt32) (cmd : List UInt8)
  deriving DecidableEq

namespace Announced

/-- The topic the formats of the two `snprintf` stand for. -/
def fullTopic (baseTopic : List UInt8) : Announced → List UInt8
  | .cover blindId =>
      baseTopic ++ (ascii "/cover/pico_somfy/" ++ (hex08 blindId.toUInt32 ++ ascii "/config"))
  | .button remoteId cmd =>
      baseTopic ++ (ascii "/button/pico_somfy/" ++
        (hex08 remoteId ++ (ascii "_" ++ (cmd ++ ascii "/config"))))

/-- `sizeof(topic)` -/
def topicSize : Announced → ℕ
  | .cover _ => 64
  | .button _ _ => 68

/-- `snprintf` into the array, the last byte of which is zero. -/
def topic (baseTopic : List UInt8) (a : Announced) : List UInt8 :=
  (a.fullTopic baseTopic).take (a.topicSize - 1)

/-- The bytes of a topic besides the prefix. -/
def fixedLength : Announced → ℕ
  | .cover _ => 33
  | .button _ cmd => 35 + cmd.length

end Announced

structure Publication where
  announced : Announced
  topic : List UInt8
  payload : List UInt8
  deriving DecidableEq

/-- The publishing half of `MqttClient`: the messages handed to the stack, and its answer to
each of them. -/
structure PublishingClient where
  connected : Bool
  answers : ℕ → Bool
  published : List Publication

/-- `MqttClient::Publish` -/
def PublishingClient.publish (m : PublishingClient) (p : Publication) : Bool × PublishingClient :=
  if m.connected then
    (m.answers m.published.length, { m with published := m.published ++ [p] })
  else (false, m)

/-- The payload is written to an array of 512 bytes. -/
def discoveryPayload (calls : List OutputCall) : List UInt8 :=
  (calls.foldl OutputCall.run (.create 512)).bytes

namespace Blind

def discoveryCalls (b : Blind) : List OutputCall :=
  [.cString (ascii "\x7b \"~\": \"pico_somfy/blinds/"),
    .hex b.blindId.toUInt32,
    .cString (ascii "\", \"name\": null"),
    .cString (ascii (", \"avty_t\": \"pico_somfy/status\", \"pl_avail\": \"online\", " ++
      "\"pl_not_avail\": \"offline\", " ++
      "\"stat_t\": \"~/state\", \"cmd_t\": \"~/cmd\", \"pl_open\": \"open\", " ++
      "\"pl_cls\": \"close\", \"pl_stop\": \"stop\", " ++
      "\"pos_t\": \"~/position\", \"set_pos_t\": \"~/pos\", \"uniq_id\": \"ps_cover_")),
    .hex b.blindId.toUInt32,
    .cString (ascii "\", \"device\": \x7b \"name\": \""),
    .escaped b.name,
    .cString (ascii ("\", \"mdl\": \"Pico-Somfy controlled cover\", \"mf\": \"Bagpuss\", " ++
      "\"ids\": [\"psb_")),
    .hex b.blindId.toUInt32,
    .cString (ascii "\"] \x7d \x7d")]

def publication (b : Blind) (baseTopic : List UInt8) : Publication :=
  ⟨.cover b.blindId, (Announced.cover b.blindId).topic baseTopic, discoveryPayload b.discoveryCalls⟩

/-- `Blind::PublishDiscovery`. Without a configuration a null pointer is dereferenced. -/
def publishDiscovery (b : Blind) (config : Option MqttConfig) (m : PublishingClient) :
    Option (Blind × PublishingClient) :=
  if m.connected then
    config.map fun mqttConfig =>
      if mqttConfig.topic.chars = [] then ({ b with needsPublish := false }, m)
      else
        let r := m.publish (b.publication mqttConfig.topic.chars)
        ({ b with needsPublish := b.needsPublish && !r.1 }, r.2)
  else some (b, m)

end Blind

namespace SomfyRemote

def discoveryCalls (r : SomfyRemote) (cmd name : List UInt8) : List OutputCall :=
  [.cString (ascii "\x7b \"name\": \""),
    .cString name,
    .cString (ascii ("\", \"avty_t\": \"pico_somfy/status\", \"pl_avail\": \"online\", " ++
      "\"pl_not_avail\": \"offline\", \"cmd_t\": \"pico_somfy/remotes/")),
    .hex r.remoteId,
    .cString (ascii "/cmd\", \"pl_prs\": \""),
    .cString cmd,
    .cString (ascii "\", \"uniq_id\": \"psrem_"),
    .hex r.remoteId,
    .cString cmd,
    .cString (ascii "\", \"device\": \x7b \"name\": \""),
    .escaped r.remoteName,
    .cString (ascii ("\", \"mdl\": \"Pico-Somfy Remote\", \"mf\": \"Bagpuss\", " ++
      "\"ids\": [\"psr_")),
    .hex r.remoteId,
    .cString (ascii "\"] \x7d \x7d")]

def publication (r : SomfyRemote) (cmd name baseTopic : List UInt8) : Publication :=
  ⟨.button r.remoteId cmd, (Announced.button r.remoteId cmd).topic baseTopic,
    discoveryPayload (r.discoveryCalls cmd name)⟩

/-- The overload of `PublishDiscovery` for one command. -/
def publishCommand (r : SomfyRemote) (cmd name baseTopic : List UInt8) (m : PublishingClient) :
    Bool × PublishingClient :=
  m.publish (r.publication cmd name baseTopic)

/-- The three messages. The first one that is refused ends them. -/
def publishCommands (r : SomfyRemote) (baseTopic : List UInt8) (m : PublishingClient) :
    Bool × PublishingClient :=
  let up := r.publishCommand (ascii "up") (ascii "Up Button") baseTopic m
  if up.1 then
    let down := r.publishCommand (ascii "down") (ascii "Down Button") baseTopic up.2
    if down.1 then r.publishCommand (ascii "stop") (ascii "Stop Button") baseTopic down.2
    else down
  else up

/-- `SomfyRemote::PublishDiscovery` -/
def publishDiscovery (r : SomfyRemote) (config : Option MqttConfig) (isPrimary : Bool)
    (m : PublishingClient) : Option (SomfyRemote × PublishingClient) :=
  if m.connected then
    config.map fun mqttConfig =>
      if mqttConfig.topic.chars = [] then ({ r with needsPublish := false }, m)
      else if isPrimary then ({ r with needsPublish := false }, m)
      else
        let sent := r.publishCommands mqttConfig.topic.chars m
        ({ r with needsPublish := r.needsPublish && !sent.1 }, sent.2)
  else some (r, m)

end SomfyRemote

/-- A device with its client. -/
structure Announcer where
  device : Device
  mqtt : PublishingClient

/-- The connection comes or goes, or the discovery worker of a blind or of a remote runs. -/
inductive DiscoveryEvent where
  | connection (up : Bool)
  | blind (k : UInt32)
  | remote (id : UInt32)

namespace Announcer

/-- The worker of an external remote is never scheduled. -/
def step (s : Announcer) : DiscoveryEvent → Option Announcer
  | .connection up => some { s with mqtt := { s.mqtt with connected := up } }
  | .blind k =>
      (s.device.blinds[k]?).bind fun b =>
        (b.publishDiscovery s.device.config.getMqttConfig s.mqtt).map fun (b, m) =>
          ⟨s.device.modifyBlind k fun _ => b, m⟩
  | .remote id =>
      (s.device.remotes[id]?).bind fun p =>
        if (s.device.heap p).isExternal then none
        else
          ((s.device.heap p).publishDiscovery s.device.config.getMqttConfig
            (s.device.isAPrimaryRemote (s.device.heap p).remoteId) s.mqtt).map fun (r, m) =>
              ⟨s.device.modifyRemote p fun _ => r, m⟩

/-- Before the first message. -/
def start (d : Device) (answers : ℕ → Bool) : Announcer := ⟨d, ⟨false, answers, []⟩⟩

/-- Every topic is the full one, and no two devices or commands share a topic. -/
def Distinct (baseTopic : List UInt8) (s : Announcer) : Prop :=
  (∀ p ∈ s.mqtt.published, p.topic = p.announced.fullTopic baseTopic) ∧
    ∀ p ∈ s.mqtt.published, ∀ q ∈ s.mqtt.published,
      p.announced ≠ q.announced → p.topic ≠ q.topic

end Announcer

theorem hexByte_injective {a b : ℕ} (ha : a < 16) (hb : b < 16) (h : hexByte a = hexByte b) :
    a = b := by
  have hall : ∀ a < 16, ∀ b < 16, hexByte a = hexByte b → a = b := by decide
  exact hall a ha b hb h

/-- Two numbers with the same eight digits agree above each digit, from the first one on. -/
theorem hex08_injective {a b : UInt32} (h : hex08 a = hex08 b) : a = b := by
  have hdigit : ∀ i < 8, a.toNat / 16 ^ (7 - i) % 16 = b.toNat / 16 ^ (7 - i) % 16 := by
    intro i hi
    exact hexByte_injective (Nat.mod_lt _ (by decide)) (Nat.mod_lt _ (by decide))
      (List.map_inj_left.mp h i (List.mem_range.mpr hi))
  have hhigh : ∀ i ≤ 8, a.toNat / 16 ^ (8 - i) = b.toNat / 16 ^ (8 - i) := by
    intro i
    induction i with
    | zero =>
        intro _
        have ha : a.toNat < 16 ^ (8 - 0) := a.toNat_lt
        have hb : b.toNat < 16 ^ (8 - 0) := b.toNat_lt
        rw [Nat.div_eq_of_lt ha, Nat.div_eq_of_lt hb]
    | succ i ih =>
        intro hi
        have hpow : 16 ^ (8 - i) = 16 ^ (7 - i) * 16 := by
          rw [← Nat.pow_succ]
          congr 1
          omega
        have hih := ih (by omega)
        rw [hpow, ← Nat.div_div_eq_div_mul, ← Nat.div_div_eq_div_mul] at hih
        have hi' := hdigit i hi
        rw [show 8 - (i + 1) = 7 - i by omega]
        omega
  have hlast := hhigh 8 le_rfl
  rw [Nat.sub_self, Nat.pow_zero, Nat.div_one, Nat.div_one] at hlast
  exact UInt32.toNat_inj.mp hlast

namespace Announced

variable {baseTopic : List UInt8} {a b : Announced}

theorem length_fullTopic : (a.fullTopic baseTopic).length = baseTopic.length + a.fixedLength := by
  cases a with
  | cover blindId =>
      change (baseTopic ++ (_ ++ (_ ++ _))).length = baseTopic.length + 33
      simp only [List.length_append]
      rfl
  | button remoteId cmd =>
      have hslashes : (ascii "/button/pico_somfy/").length = 19 := rfl
      have hhex : (hex08 remoteId).length = 8 := rfl
      have hbar : (ascii "_").length = 1 := rfl
      have hconfig : (ascii "/config").length = 7 := rfl
      simp only [fullTopic, fixedLength, List.length_append, hslashes, hhex, hbar, hconfig]
      omega

/-- The array holds all of the topic. -/
theorem topic_eq_fullTopic :
    a.topic baseTopic = a.fullTopic baseTopic ↔
      baseTopic.length + a.fixedLength ≤ a.topicSize - 1 := by
  rw [topic, List.take_eq_self_iff, length_fullTopic]

/-- The id and the command are read off behind the prefix. -/
theorem fullTopic_injective (h : a.fullTopic baseTopic = b.fullTopic baseTopic) : a = b := by
  cases a with
  | cover i =>
      cases b with
      | cover j =>
          have hids := List.append_cancel_left (List.append_cancel_left h)
          have hid : i.toUInt32 = j.toUInt32 := hex08_injective (List.append_inj hids rfl).1
          rw [UInt16.toUInt32_inj.mp hid]
      | button j cmd =>
          have hsecond : some (99 : UInt8) = some 98 :=
            congrArg (fun t => t[1]?) (List.append_cancel_left h)
          exact absurd hsecond (by decide)
  | button i cmd =>
      cases b with
      | cover j =>
          have hsecond : some (98 : UInt8) = some 99 :=
            congrArg (fun t => t[1]?) (List.append_cancel_left h)
          exact absurd hsecond (by decide)
      | button j cmd' =>
          have hids := List.append_cancel_left (List.append_cancel_left h)
          obtain ⟨hid, hcmds⟩ := List.append_inj hids rfl
          have hcmd : cmd = cmd' := List.append_cancel_right (List.append_cancel_left hcmds)
          rw [hex08_injective hid, hcmd]

end Announced

/-- The commands of a remote that are announced. -/
def announcedCommands : List (List UInt8) := [ascii "up", ascii "down", ascii "stop"]

theorem PublishingClient.mem_publish {m : PublishingClient} {p q : Publication}
    (h : q ∈ (m.publish p).2.published) : q ∈ m.published ∨ q = p := by
  unfold publish at h
  split_ifs at h with hconnected
  · exact (List.mem_append.mp h).imp id List.mem_singleton.mp
  · exact .inl h

namespace Blind

variable {b b' : Blind} {cfg : MqttConfig} {m m' : PublishingClient}

theorem publishDiscovery_spec (h : b.publishDiscovery (some cfg) m = some (b', m')) :
    b'.blindId = b.blindId ∧ b'.remote = b.remote ∧
      ∀ p ∈ m'.published, p ∈ m.published ∨ p = b.publication cfg.topic.chars := by
  unfold publishDiscovery at h
  split_ifs at h with hconnected
  · simp only [Option.map_some, Option.some.injEq] at h
    split_ifs at h with htopic
    · cases h
      exact ⟨rfl, rfl, fun p hp => .inl hp⟩
    · cases h
      exact ⟨rfl, rfl, fun p hp => PublishingClient.mem_publish hp⟩
  · cases h
    exact ⟨rfl, rfl, fun p hp => .inl hp⟩

end Blind

namespace SomfyRemote

variable {r r' : SomfyRemote} {cfg : MqttConfig} {isPrimary : Bool} {m m' : PublishingClient}

theorem mem_publishCommands {baseTopic : List UInt8} {p : Publication}
    (h : p ∈ (r.publishCommands baseTopic m).2.published) :
    p ∈ m.published ∨ ∃ cmd ∈ announcedCommands, ∃ name, p = r.publication cmd name baseTopic := by
  have hup : ascii "up" ∈ announcedCommands := by decide
  have hdown : ascii "down" ∈ announcedCommands := by decide
  have hstop : ascii "stop" ∈ announcedCommands := by decide
  unfold publishCommands at h
  dsimp only at h
  split_ifs at h with hfirst hsecond
  · rcases PublishingClient.mem_publish h with h | h
    · rcases PublishingClient.mem_publish h with h | h
      · rcases PublishingClient.mem_publish h with h | h
        · exact .inl h
        · exact .inr ⟨_, hup, _, h⟩
      · exact .inr ⟨_, hdown, _, h⟩
    · exact .inr ⟨_, hstop, _, h⟩
  · rcases PublishingClient.mem_publish h with h | h
    · rcases PublishingClient.mem_publish h with h | h
      · exact .inl h
      · exact .inr ⟨_, hup, _, h⟩
    · exact .inr ⟨_, hdown, _, h⟩
  · rcases PublishingClient.mem_publish h with h | h
    · exact .inl h
    · exact .inr ⟨_, hup, _, h⟩

theorem publishDiscovery_spec (h : r.publishDiscovery (some cfg) isPrimary m = some (r', m')) :
    r'.remoteId = r.remoteId ∧ r'.isExternal = r.isExternal ∧
      ∀ p ∈ m'.published, p ∈ m.published ∨ (isPrimary = false ∧
        ∃ cmd ∈ announcedCommands, ∃ name, p = r.publication cmd name cfg.topic.chars) := by
  unfold publishDiscovery at h
  by_cases hconnected : m.connected
  · rw [if_pos hconnected, Option.map_some, Option.some.injEq] at h
    by_cases htopic : cfg.topic.chars = []
    · rw [if_pos htopic] at h
      cases h
      exact ⟨rfl, rfl, fun p hp => .inl hp⟩
    rw [if_neg htopic] at h
    cases isPrimary with
    | true =>
        cases h
        exact ⟨rfl, rfl, fun p hp => .inl hp⟩
    | false =>
        cases h
        exact ⟨rfl, rfl, fun p hp => (mem_publishCommands hp).imp id fun hcmd => ⟨rfl, hcmd⟩⟩
  · rw [if_neg hconnected] at h
    cases h
    exact ⟨rfl, rfl, fun p hp => .inl hp⟩

end SomfyRemote

namespace Announcer

variable {d : Device} {s s' : Announcer} {e : DiscoveryEvent} {baseTopic : List UInt8}

/-- What the device may announce: its blinds, and the buttons of the created remotes that
are primary for none of them. -/
def MayAnnounce (d : Device) : Announced → Prop
  | .cover blindId => ∃ (k : UInt32) (b : Blind), d.blinds[k]? = some b ∧ b.blindId = blindId
  | .button remoteId cmd => cmd ∈ announcedCommands ∧ d.isAPrimaryRemote remoteId = false ∧
      ∃ (id : UInt32) (p : ℕ), d.remotes[id]? = some p ∧ (d.heap p).remoteId = remoteId ∧
        (d.heap p).isExternal = false

/-- The devices are the ones of the start, apart from their flags. -/
structure SameDevices (d d' : Device) : Prop where
  config : d'.config = d.config
  remotes : d'.remotes = d.remotes
  heap : ∀ p, (d'.heap p).remoteId = (d.heap p).remoteId ∧
    (d'.heap p).isExternal = (d.heap p).isExternal
  blinds : ∀ k : UInt32, (d'.blinds[k]?).map (fun b : Blind => (b.blindId, b.remote)) =
    (d.blinds[k]?).map fun b : Blind => (b.blindId, b.remote)

namespace SameDevices

variable {d' : Device} {k : UInt32} {b b' : Blind} {p : ℕ} {r : SomfyRemote}

theorem refl (d : Device) : SameDevices d d := ⟨rfl, rfl, fun _ => ⟨rfl, rfl⟩, fun _ => rfl⟩

theorem symm (h : SameDevices d d') : SameDevices d' d where
  config := h.config.symm
  remotes := h.remotes.symm
  heap p := ⟨(h.heap p).1.symm, (h.heap p).2.symm⟩
  blinds k := (h.blinds k).symm

theorem blind (h : SameDevices d d') (hb : d'.blinds[k]? = some b') :
    ∃ b, d.blinds[k]? = some b ∧ b.blindId = b'.blindId ∧ b.remote = b'.remote := by
  have hmap := h.blinds k
  rw [hb, Option.map_some] at hmap
  obtain ⟨b, hb, heq⟩ := Option.map_eq_some_iff.mp hmap.symm
  exact ⟨b, hb, (Prod.mk.inj heq).1, (Prod.mk.inj heq).2⟩

theorem isAPrimaryRemote_of (h : SameDevices d d') {id : UInt32}
    (hp : d'.isAPrimaryRemote id = true) : d.isAPrimaryRemote id = true := by
  obtain ⟨entry, hentry, hid⟩ := List.any_eq_true.mp hp
  obtain ⟨b, hb, -, hremote⟩ := h.blind (mem_toList.mp hentry)
  rw [← hremote, (h.heap b.remote).1] at hid
  exact List.any_eq_true.mpr ⟨(entry.1, b), mem_toList.mpr hb, hid⟩

theorem isAPrimaryRemote (h : SameDevices d d') (id : UInt32) :
    d'.isAPrimaryRemote id = d.isAPrimaryRemote id :=
  Bool.eq_iff_iff.mpr ⟨h.isAPrimaryRemote_of, h.symm.isAPrimaryRemote_of⟩

/-- A blind is replaced by one with the same id and the same remote. -/
theorem modifyBlind (h : SameDevices d d') (hb : d'.blinds[k]? = some b)
    (hid : b'.blindId = b.blindId) (hremote : b'.remote = b.remote) :
    SameDevices d (d'.modifyBlind k fun _ => b') where
  config := h.config
  remotes := h.remotes
  heap := h.heap
  blinds j := by
    rw [← h.blinds j]
    change ((d'.blinds.modify k fun _ => b')[j]?).map _ = _
    rw [get_modify]
    split_ifs with hj
    · rw [← hj, hb, Option.map_some, Option.map_some, Option.map_some, hid, hremote]
    · rfl

/-- A remote is replaced by one with the same id that is external if the old one is. -/
theorem modifyRemote (h : SameDevices d d') (hid : r.remoteId = (d'.heap p).remoteId)
    (hexternal : r.isExternal = (d'.heap p).isExternal) :
    SameDevices d (d'.modifyRemote p fun _ => r) where
  config := h.config
  remotes := h.remotes
  heap q := by
    change (Function.update d'.heap p r q).remoteId = _ ∧ (Function.update d'.heap p r q).isExternal = _
    by_cases hq : q = p
    · rw [hq, Function.update_self, hid, hexternal]
      exact h.heap p
    · rw [Function.update_of_ne hq]
      exact h.heap q
  blinds := h.blinds

end SameDevices

/-- The messages are about these devices, under the topics of the arrays. -/
structure Announces (d : Device) (baseTopic : List UInt8) (s : Announcer) : Prop where
  devices : SameDevices d s.device
  published : ∀ p ∈ s.mqtt.published,
    p.topic = p.announced.topic baseTopic ∧ MayAnnounce d p.announced

theorem Announces.step {cfg : MqttConfig} (hcfg : d.config.getMqttConfig = some cfg)
    (h : Announces d cfg.topic.chars s) (hstep : s.step e = some s') :
    Announces d cfg.topic.chars s' := by
  have hconfig : s.device.config.getMqttConfig = some cfg := by rw [h.devices.config, hcfg]
  cases e with
  | connection up =>
      cases hstep
      exact ⟨h.devices, h.published⟩
  | blind k =>
      obtain ⟨b, hb, hstep⟩ := Option.bind_eq_some_iff.mp hstep
      rw [hconfig] at hstep
      obtain ⟨⟨b', m⟩, hpublish, heq⟩ := Option.map_eq_some_iff.mp hstep
      obtain ⟨hid, hremote, hnew⟩ := Blind.publishDiscovery_spec hpublish
      cases heq
      refine ⟨h.devices.modifyBlind hb hid hremote, fun p hp => ?_⟩
      rcases hnew p hp with hold | rfl
      · exact h.published p hold
      · obtain ⟨b₀, hb₀, hid₀, -⟩ := h.devices.blind hb
        exact ⟨rfl, k, b₀, hb₀, hid₀⟩
  | remote id =>
      obtain ⟨p, hp, hstep⟩ := Option.bind_eq_some_iff.mp hstep
      split_ifs at hstep with hexternal
      rw [hconfig] at hstep
      obtain ⟨⟨r, m⟩, hpublish, heq⟩ := Option.map_eq_some_iff.mp hstep
      obtain ⟨hid, hext, hnew⟩ := SomfyRemote.publishDiscovery_spec hpublish
      cases heq
      refine ⟨h.devices.modifyRemote hid hext, fun q hq => ?_⟩
      rcases hnew q hq with hold | ⟨hprimary, cmd, hcmd, name, rfl⟩
      · exact h.published q hold
      · have hheap := h.devices.heap p
        rw [h.devices.isAPrimaryRemote] at hprimary
        rw [h.devices.remotes] at hp
        exact ⟨rfl, hcmd, hprimary, id, p, hp, hheap.1.symm,
          hheap.2.symm.trans (Bool.eq_false_iff.mpr hexternal)⟩

/-- Everything that is ever published. -/
theorem announces_of_run {cfg : MqttConfig} (hcfg : d.config.getMqttConfig = some cfg)
    {answers : ℕ → Bool} {es : List DiscoveryEvent}
    (hrun : Run Announcer.step Free (start d answers) es s) : Announces d cfg.topic.chars s :=
  hrun.invariant (I := Announces d cfg.topic.chars) (fun h _ hstep => h.step hcfg hstep)
    ⟨.refl d, fun _ hp => absurd hp List.not_mem_nil⟩

/-- A connected client publishes the message of a blind. -/
theorem exists_run_blind {cfg : MqttConfig} (hcfg : d.config.getMqttConfig = some cfg)
    (htopic : cfg.topic.chars ≠ []) {k : UInt32} {b : Blind} (hb : d.blinds[k]? = some b) :
    ∃ s, Run Announcer.step Free (start d fun _ => true) [.connection true, .blind k] s ∧
      s.mqtt.published = [b.publication cfg.topic.chars] := by
  have hpublish : b.publishDiscovery d.config.getMqttConfig ⟨true, fun _ => true, []⟩ =
      some ({ b with needsPublish := b.needsPublish && !true },
        ⟨true, fun _ => true, [b.publication cfg.topic.chars]⟩) := by
    rw [hcfg, Blind.publishDiscovery, if_pos rfl, Option.map_some, if_neg htopic]
    rfl
  have hstep : step ⟨d, true, fun _ => true, []⟩ (.blind k) =
      some ⟨d.modifyBlind k fun _ => { b with needsPublish := b.needsPublish && !true },
        true, fun _ => true, [b.publication cfg.topic.chars]⟩ := by
    simp only [step, hb, Option.bind_some, hpublish, Option.map_some]
  exact ⟨_, run_of_exec (congrArg (Option.bind · some) hstep), rfl⟩

/-- A connected client publishes the three messages of a remote. -/
theorem exists_run_remote {cfg : MqttConfig} (hcfg : d.config.getMqttConfig = some cfg)
    (htopic : cfg.topic.chars ≠ []) {id : UInt32} {p : ℕ} (hp : d.remotes[id]? = some p)
    (hexternal : (d.heap p).isExternal = false)
    (hprimary : d.isAPrimaryRemote (d.heap p).remoteId = false) :
    ∃ s, Run Announcer.step Free (start d fun _ => true) [.connection true, .remote id] s ∧
      s.mqtt.published =
        [(d.heap p).publication (ascii "up") (ascii "Up Button") cfg.topic.chars,
          (d.heap p).publication (ascii "down") (ascii "Down Button") cfg.topic.chars,
          (d.heap p).publication (ascii "stop") (ascii "Stop Button") cfg.topic.chars] := by
  have hpublish : (d.heap p).publishDiscovery d.config.getMqttConfig false
      ⟨true, fun _ => true, []⟩ =
      some ({ d.heap p with needsPublish := (d.heap p).needsPublish && !true },
        ⟨true, fun _ => true,
          [(d.heap p).publication (ascii "up") (ascii "Up Button") cfg.topic.chars,
            (d.heap p).publication (ascii "down") (ascii "Down Button") cfg.topic.chars,
            (d.heap p).publication (ascii "stop") (ascii "Stop Button") cfg.topic.chars]⟩) := by
    rw [hcfg, SomfyRemote.publishDiscovery, if_pos rfl, Option.map_some, if_neg htopic]
    rfl
  have hstep : step ⟨d, true, fun _ => true, []⟩ (.remote id) =
      some ⟨d.modifyRemote p fun _ =>
          { d.heap p with needsPublish := (d.heap p).needsPublish && !true },
        true, fun _ => true,
          [(d.heap p).publication (ascii "up") (ascii "Up Button") cfg.topic.chars,
            (d.heap p).publication (ascii "down") (ascii "Down Button") cfg.topic.chars,
            (d.heap p).publication (ascii "stop") (ascii "Stop Button") cfg.topic.chars]⟩ := by
    simp only [step, hp, Option.bind_some, if_neg (Bool.eq_false_iff.mp hexternal), hprimary,
      hpublish, Option.map_some]
  exact ⟨_, run_of_exec (congrArg (Option.bind · some) hstep), rfl⟩

/-- The topics are full and distinct in every run, for every answer of the stack, exactly
when the arrays are long enough for the prefix: 30 bytes of it for a blind, 28 for the
commands of a remote. -/
theorem topics_distinct {d : Device} {cfg : MqttConfig}
    (hcfg : d.config.getMqttConfig = some cfg) (htopic : cfg.topic.chars ≠ []) :
    (∀ answers es s, Run Announcer.step Free (start d answers) es s →
      s.Distinct cfg.topic.chars) ↔
      (∀ (k : UInt32) (b : Blind), d.blinds[k]? = some b → cfg.topic.chars.length ≤ 30) ∧
        ∀ (id : UInt32) (p : ℕ), d.remotes[id]? = some p → (d.heap p).isExternal = false →
          d.isAPrimaryRemote (d.heap p).remoteId = false → cfg.topic.chars.length ≤ 28 := by
  constructor
  · intro hall
    constructor
    · intro k b hb
      obtain ⟨s, hrun, hpublished⟩ := exists_run_blind hcfg htopic hb
      have hmem : b.publication cfg.topic.chars ∈ s.mqtt.published := by simp [hpublished]
      have hfits := Announced.topic_eq_fullTopic.mp ((hall _ _ _ hrun).1 _ hmem)
      change _ + 33 ≤ 63 at hfits
      omega
    · intro id p hp hexternal hprimary
      obtain ⟨s, hrun, hpublished⟩ := exists_run_remote hcfg htopic hp hexternal hprimary
      have hmem : (d.heap p).publication (ascii "stop") (ascii "Stop Button") cfg.topic.chars ∈
          s.mqtt.published := by simp [hpublished]
      have hfits := Announced.topic_eq_fullTopic.mp ((hall _ _ _ hrun).1 _ hmem)
      change _ + 39 ≤ 67 at hfits
      omega
  · rintro ⟨hblinds, hremotes⟩ answers es s hrun
    have hannounces := announces_of_run hcfg hrun
    have hfull : ∀ p ∈ s.mqtt.published, p.topic = p.announced.fullTopic cfg.topic.chars := by
      intro p hp
      obtain ⟨htopic, hmay⟩ := hannounces.published p hp
      rw [htopic, Announced.topic_eq_fullTopic]
      cases ha : p.announced with
      | cover blindId =>
          rw [ha] at hmay
          obtain ⟨k, b, hb, -⟩ := hmay
          have hlength := hblinds k b hb
          change _ + 33 ≤ 63
          omega
      | button remoteId cmd =>
          rw [ha] at hmay
          obtain ⟨hcmd, hprimary, id, q, hq, rfl, hexternal⟩ := hmay
          have hlength := hremotes id q hq hexternal hprimary
          have hcmds : ∀ cmd ∈ announcedCommands, cmd.length ≤ 4 := by decide
          have hshort := hcmds cmd hcmd
          change _ + (35 + cmd.length) ≤ 67
          omega
    refine ⟨hfull, fun p hp q hq hne heq => hne ?_⟩
    rw [hfull p hp, hfull q hq] at heq
    exact Announced.fullTopic_injective heq

/-- Two blinds and a remote are added, and the broker and the prefix are set. -/
def furnish (topic : String) : List Service.Event :=
  [.device Device.addSalon, .device Device.addSalon, .device (Device.addRemoteNamed "hall"),
    .configure (query [("mode", "mqtt"), ("host", "10.0.0.2"), ("port", "1883"),
      ("username", "u"), ("password", "p"), ("topic", topic)])]

/-- The usual prefix is short enough. -/
theorem topics_distinct_homeassistant :
    ∃ (d₀ : Device) (s : Service) (cfg : MqttConfig),
      Device.freshDevice DeviceConfig.oneSector false (fun _ => ⟨⟨0, 0, 0, 0⟩, 0⟩) = some d₀ ∧
      Run Service.step Free ⟨d₀, .create⟩ (furnish "homeassistant") s ∧
      s.device.config.getMqttConfig = some cfg ∧ cfg.topic.chars = ascii "homeassistant" ∧
      ∀ answers es t, Run Announcer.step Free (start s.device answers) es t →
        t.Distinct cfg.topic.chars := by
  have hany : (Device.freshDevice DeviceConfig.oneSector false fun _ => ⟨⟨0, 0, 0, 0⟩, 0⟩).any
      (fun d₀ => (exec Service.step ⟨d₀, .create⟩ (furnish "homeassistant")).any fun s =>
        s.device.config.getMqttConfig.any fun cfg =>
          cfg.topic.chars == ascii "homeassistant") = true := by
    decide +kernel
  obtain ⟨d₀, hd₀, hrun⟩ := (Option.any_eq_true _ _).mp hany
  obtain ⟨s, hs, hconfig⟩ := (Option.any_eq_true _ _).mp hrun
  obtain ⟨cfg, hcfg, htopic⟩ := (Option.any_eq_true _ _).mp hconfig
  have htopic : cfg.topic.chars = ascii "homeassistant" := beq_iff_eq.mp htopic
  have hne : cfg.topic.chars ≠ [] := by
    rw [htopic]
    decide
  have hlength : cfg.topic.chars.length = 13 := by
    rw [htopic]
    rfl
  refine ⟨d₀, s, cfg, hd₀, run_of_exec hs, hcfg, htopic, (topics_distinct hcfg hne).mpr ⟨?_, ?_⟩⟩
  · intro k b _
    omega
  · intro id p _ _ _
    omega

/-- Behind a prefix of 47 bytes the array has room for `/cover/pico_somf`, which both blinds
share. -/
theorem long_topic_shared :
    ∃ (d₀ : Device) (s : Service) (cfg : MqttConfig) (t : Announcer) (p q : Publication),
      Device.freshDevice DeviceConfig.oneSector false (fun _ => ⟨⟨0, 0, 0, 0⟩, 0⟩) = some d₀ ∧
      Run Service.step Free ⟨d₀, .create⟩
        (furnish "homeassistant/discovery/houses/number-seventeen") s ∧
      s.device.config.getMqttConfig = some cfg ∧
      Run Announcer.step Free (start s.device fun _ => true)
        [.connection true, .blind 1, .blind 2] t ∧
      p ∈ t.mqtt.published ∧ q ∈ t.mqtt.published ∧ p.announced = .cover 1 ∧
      q.announced = .cover 2 ∧ p.topic = q.topic ∧ ¬t.Distinct cfg.topic.chars := by
  have hany : (Device.freshDevice DeviceConfig.oneSector false fun _ => ⟨⟨0, 0, 0, 0⟩, 0⟩).any
      (fun d₀ => (exec Service.step ⟨d₀, .create⟩
        (furnish "homeassistant/discovery/houses/number-seventeen")).any fun s =>
          s.device.config.getMqttConfig.isSome &&
            (exec Announcer.step (start s.device fun _ => true)
              [.connection true, .blind 1, .blind 2]).any fun t =>
                t.mqtt.published.any fun p => t.mqtt.published.any fun q =>
                  p.announced == .cover 1 && q.announced == .cover 2 &&
                    p.topic == q.topic) = true := by
    decide +kernel
  obtain ⟨d₀, hd₀, hrun⟩ := (Option.any_eq_true _ _).mp hany
  obtain ⟨s, hs, hrest⟩ := (Option.any_eq_true _ _).mp hrun
  obtain ⟨hconfig, hrest⟩ := Bool.and_eq_true_iff.mp hrest
  obtain ⟨cfg, hcfg⟩ := Option.isSome_iff_exists.mp hconfig
  obtain ⟨t, ht, hrest⟩ := (Option.any_eq_true _ _).mp hrest
  obtain ⟨p, hp, hrest⟩ := List.any_eq_true.mp hrest
  obtain ⟨q, hq, hrest⟩ := List.any_eq_true.mp hrest
  simp only [Bool.and_eq_true, beq_iff_eq] at hrest
  obtain ⟨⟨hone, htwo⟩, htopic⟩ := hrest
  refine ⟨d₀, s, cfg, t, p, q, hd₀, run_of_exec hs, hcfg, run_of_exec ht, hp, hq, hone, htwo,
    htopic, fun hdistinct => hdistinct.2 p hp q hq ?_ htopic⟩
  rw [hone, htwo]
  decide

end Announcer

end PicoSomfy
