import PicoSomfy.ConfigService
import PicoSomfy.DeviceRuns
import PicoSomfy.Presses
import PicoSomfy.RequestChecks

/-!
# What an answer is worth

A handler answers true or false. An answer is truthful if `false` means that nothing
has changed and `true` that what was asked for has been done. What was asked for is
read from the parameters here, without a look at the handler.

The answers fall short of that in four ways. The settings of MQTT are stored and the
device stops, and the answer is false. A command nobody knows, a position that is no
number, a press without a button and a command the queue has no room for are answered
true. The answer is true after a blank number, for whatever number was in its place. And
it is true for a number outside the range of its conversion, when the number it becomes
will do.
-/
namespace PicoSomfy

open CStrings SortedMap Call

namespace Scan

/-- The types of the variables that are read, as integers. -/
class Numeral (α : Type) where
  value : α → ℤ

instance : Numeral Int32 := ⟨Int32.toInt⟩

instance : Numeral UInt32 := ⟨fun v => v.toNat⟩

instance : Numeral UInt16 := ⟨fun v => v.toNat⟩

variable {α : Type} {scan : List UInt8 → Scan α} {params : CgiParams} {name : String}
  {junk v : α} {c : Conversion}

/-- `"%d"` into an unsigned variable. -/
def key (bytes : List UInt8) : Scan UInt32 := (d bytes).map (·.toUInt32)

/-- The parameter is this number, and the conversion reads it as it is. -/
def Says [Numeral α] (scan : List UInt8 → Scan α) (params : CgiParams) (name : String) (v : α) :
    Prop :=
  ∃ t, params name = some t ∧ scan t = .assigned v ∧ int t = .assigned (Numeral.value v)

/-- What the variable holds after the conversion, if the caller goes on. -/
def held (scan : List UInt8 → Scan α) (params : CgiParams) (name : String) (junk : α) :
    Option α := (params name).bind fun t => (scan t).read junk

/-- The parameter is there and has a number in the range of the conversion. -/
def IsNumber (c : Conversion) (params : CgiParams) (name : String) : Prop :=
  ∃ t z, params name = some t ∧ int t = .assigned z ∧ c.Holds z

theorem Says.held [Numeral α] (h : Says scan params name v) :
    held scan params name junk = some v := by
  obtain ⟨t, ht, hv, -⟩ := h
  rw [Scan.held, ht, Option.bind_some, hv, read]

/-- The payload is a number that rounds to this position. -/
def AsksPosition (payload : List UInt8) (position : Int32) : Prop :=
  ∃ x, f payload = .assigned (some x) ∧ roundAway x = position.toInt

theorem AsksPosition.readPosition {payload : List UInt8} {position : Int32}
    (h : AsksPosition payload position) (overflow : Int32) :
    Device.readPosition overflow (f payload) = position := by
  obtain ⟨x, hx, hround⟩ := h
  have hlow := position.le_toInt
  have hhigh := position.toInt_lt
  rw [hx, Device.readPosition, if_pos (by omega), hround, Int32.ofInt_toInt]

end Scan

open Scan

namespace Device

/-- The press was queued. -/
def Sent (d d' : Device) (p : ℕ) (buttons : SomfyButton) (repeats : UInt16) : Prop :=
  ∃ rest, d'.history = d.history ++ .pressed (d.nextCommand p buttons repeats) true :: rest

/-- The request passes the checks of its handler, with these unassigned variables. -/
def Accepts (d : Device) (params : CgiParams) (locals : Locals) : Request → Prop
  | .addBlind => (params "name").isSome ∧ (held Scan.d params "openTime" locals.openTime).isSome ∧
      (held Scan.d params "closeTime" locals.closeTime).isSome
  | .updateBlind => (∃ id, held Scan.hu params "id" locals.blindId = some id ∧
        id.toUInt32 ∈ d.blinds) ∧ (params "name").isSome ∧
      (held Scan.d params "openTime" locals.openTime).isSome ∧
      (held Scan.d params "closeTime" locals.closeTime).isSome
  | .deleteBlind => ∃ id, held Scan.d params "id" locals.id.toInt32 = some id ∧
      id.toUInt32 ∈ d.blinds
  | .blindCommand => (∃ id, held Scan.d params "id" locals.id.toInt32 = some id ∧
        id.toUInt32 ∈ d.blinds) ∧ (params "command").isSome ∧ (params "payload").isSome
  | .addRemote => (nameParam params).isSome
  | .importRemote => (nameParam params).isSome ∧
      ∃ id, held Scan.u params "id" locals.id = some id ∧ id ∉ d.remotes
  | .updateRemote => (nameParam params).isSome ∧ (d.getRemoteParam params locals).isSome
  | .deleteRemote => ∃ p, d.getRemoteParam params locals = some p ∧
      d.isAPrimaryRemote (d.heap p).remoteId = false
  | .bindBlind | .unbindBlind => (d.getRemoteParam params locals).isSome ∧
      ∃ id, held Scan.hu params "blindId" locals.blindId = some id ∧ id.toUInt32 ∈ d.blinds
  | .remoteCommand => (d.getRemoteParam params locals).isSome
  | .discover => True

/-- The queue takes one more command. -/
def QueueHasRoom (d : Device) : Prop := d.radio.queue.length < queueCapacity

instance (d : Device) : Decidable d.QueueHasRoom := by
  unfold QueueHasRoom
  infer_instance

/-- The blind knows the command, and the queue has room for the presses it takes. -/
def Known (d : Device) (b : Blind) (command payload : List UInt8) : Prop :=
  (command = ascii "cmd" ∧ (payload = ascii "open" ∨ payload = ascii "close") ∧ d.QueueHasRoom) ∨
  (command = ascii "cmd" ∧ payload = ascii "stop" ∧ (b.motionDirection ≠ 0 → d.QueueHasRoom)) ∨
  (command = ascii "pos" ∧ payload.length ≤ 31 ∧ ∃ position, AsksPosition payload position ∧
    (pressesDown b (clampPosition position) → d.QueueHasRoom) ∧
    (pressesUp b (clampPosition position) → d.QueueHasRoom ∧
      (pressesDown b (clampPosition position) → d.radio.queue.length + 1 < queueCapacity)))

/-- What the handlers do not check. The next ids are free, the command of a blind is
known and the queue has room. -/
def Able (d : Device) (params : CgiParams) : Request → Prop
  | .addBlind => d.remotes[d.nextRemoteId]? = none ∧ d.blinds[d.nextBlindId]? = none
  | .addRemote => d.remotes[d.nextRemoteId]? = none
  | .blindCommand => ∀ k b command payload, Says Scan.key params "id" k →
      d.blinds[k]? = some b → params "command" = some command →
      params "payload" = some payload → d.Known b command payload
  | .unbindBlind => ∀ id p blindId, Says Scan.u params "id" id → d.remotes[id]? = some p →
      Says Scan.hu params "blindId" blindId → (d.heap p).associatedBlinds.count blindId ≤ 1
  | .remoteCommand => d.QueueHasRoom
  | _ => True

/-- The numbers of an accepted request can be read, and it can be done. -/
def Sound (d : Device) (params : CgiParams) (locals : Locals) (request : Request) : Prop :=
  d.Accepts params locals request →
    (∀ entry ∈ request.conversions, IsNumber entry.2 params entry.1) ∧ d.Able params request

variable {d d' : Device} {request : Request} {params : CgiParams} {locals : Locals} {c : Call}
  {answer : Bool}

theorem setName_name (r : SomfyRemote) (mqttEnabled : Bool) (name : List UInt8) :
    (r.setName mqttEnabled name).remoteName = name := by
  unfold SomfyRemote.setName SomfyRemote.triggerPublishDiscovery
  split_ifs <;> rfl

theorem newRemote_remoteName (name : List UInt8) (id : UInt32) (isExternal : Bool) :
    (d.newRemote name id isExternal).remoteName = name := by
  simp only [newRemote, SomfyRemote.create, SomfyRemote.triggerPublishDiscovery]
  split_ifs <;> rfl

/-- Every registered remote is the object under its own id. -/
def Named (d : Device) : Prop := ∀ (id : UInt32) (p : ℕ), d.remotes[id]? = some p →
  p < d.heapTop ∧ (d.heap p).remoteId = id

theorem Named.same (h : d.Named) (hs : SameRegistry d d') : d'.Named := fun id p hp => by
  rw [hs.remotes] at hp
  rw [hs.heapTop, hs.remoteId]
  exact h id p hp

theorem Named.insertRemote (h : d.Named) {id : UInt32} {r : SomfyRemote} (hid : r.remoteId = id) :
    (d.insertRemote id r).Named := fun a p hp => by
  change (d.remotes.insertIfNew id d.heapTop)[a]? = some p at hp
  rw [get_insertIfNew] at hp
  split_ifs at hp with hnew
  · obtain rfl := Option.some.inj hp
    exact ⟨Nat.lt_succ_self _, by rw [insertRemote_top, hid, hnew.1]⟩
  · obtain ⟨hlt, hpid⟩ := h a p hp
    exact ⟨Nat.lt_succ_of_lt hlt, by rw [insertRemote_heap hlt, hpid]⟩

theorem Named.erase (h : d.Named) (id : UInt32) :
    Named { d with remotes := d.remotes.erase id } := fun a p hp => by
  rw [get_erase] at hp
  split_ifs at hp
  exact h a p hp

theorem create_remoteId (mqttEnabled : Bool) (name : List UInt8) (id : UInt32) (code : UInt16)
    (blinds : List UInt16) (isExternal : Bool) :
    (SomfyRemote.create mqttEnabled name id code blinds isExternal).remoteId = id := by
  simp only [SomfyRemote.create, SomfyRemote.triggerPublishDiscovery]
  split_ifs <;> rfl

theorem Named.loadRemote (h : d.Named) (isExternal : Bool) (id : UInt32) :
    (loadRemote isExternal d id).Named := by
  unfold Device.loadRemote
  split
  · exact h
  · exact h.insertRemote (create_remoteId ..)

theorem Named.loadInternal (h : d.Named) (low : UInt16) : (loadInternal d low).Named := by
  refine Named.loadRemote ?_ false _
  unfold raiseNextRemoteId
  split_ifs <;> exact h

theorem Named.loadRemotes (h : d.Named) : d.loadRemotes.Named := by
  have hinternal : ∀ (lows : List UInt16) {d : Device}, d.Named →
      (lows.foldl Device.loadInternal d).Named := by
    intro lows
    induction lows with
    | nil => exact fun hd => hd
    | cons low lows ih => exact fun hd => ih (hd.loadInternal low)
  have hexternal : ∀ (ids : List UInt32) {d : Device}, d.Named →
      (ids.foldl (Device.loadRemote true) d).Named := by
    intro ids
    induction ids with
    | nil => exact fun hd => hd
    | cons id ids ih => exact fun hd => ih (hd.loadRemote true id)
  exact hexternal _ (hinternal _ h)

theorem Named.loadBlind {s t : Device × Bool} {k : UInt16} (h : s.1.Named)
    (ht : loadBlind s k = some t) : t.1.Named := by
  obtain ⟨cfg, -, rfl⟩ := Option.map_eq_some_iff.mp ht
  unfold raiseNextBlindId restoreBlind
  split_ifs <;> split <;> exact h

theorem named_boot {config : DeviceConfig} {mqttEnabled : Bool} {slots : ℕ → RecvCommand}
    {history : List Happening} (h : boot config mqttEnabled slots history = some d) : d.Named := by
  obtain ⟨⟨d₁, errors⟩, h₁, h₂⟩ := Option.bind_eq_some_iff.mp h
  have hblank : (blank config mqttEnabled slots history).Named := fun id p hp => by
    simp [blank] at hp
  have hloop : d₁.Named := Transitions.foldlM_keeps (f := Device.loadBlind)
    (R := fun (s t : Device × Bool) => s.1.Named → t.1.Named) (fun _ hn => hn)
    (fun hst htu hn => htu (hst hn)) (fun ht hn => hn.loadBlind ht) h₁ hblank.loadRemotes
  dsimp only at h₂
  split_ifs at h₂
  · obtain ⟨config', rfl⟩ := saveBlindList_eq h₂
    exact hloop
  · exact Option.some.inj h₂ ▸ hloop

theorem Named.registerRemote (h : d.Named) {name : List UInt8} {id : UInt32} {isExternal : Bool}
    (hd : d.registerRemote name id isExternal = some d') : d'.Named := by
  obtain ⟨config, rfl⟩ := registerRemote_eq hd
  exact h.insertRemote (newRemote_remoteId name id isExternal)

/-- Whatever happens, an id leads to the object that has it. -/
theorem Named.perform (h : d.Named) (hd : d.perform c = some d') : d'.Named := by
  by_cases hc : c.reacts = true
  · exact h.same (reacts_perform hc hd).sameRegistry
  cases c with
  | saveRemotes => exact h.same (saves_saveRemoteState hd).toSameRegistry
  | saveBlinds => exact h.same (saves_saveBlindState hd).toSameRegistry
  | restart mqttEnabled slots =>
      obtain ⟨d₁, -, hboot⟩ := Option.bind_eq_some_iff.mp hd
      exact named_boot hboot
  | addBlind name openTime closeTime =>
      obtain ⟨config, rfl⟩ := addBlind_eq hd
      exact h.insertRemote (newPrimary_remoteId name)
  | updateBlind k b name openTime closeTime =>
      cases hd
      have hb := SameRegistry.modifyBlind d k
        (fun b => b.updateConfig d.mqttEnabled name openTime closeTime) fun _ _ => rfl
      have hf := setName_fields (d.heap b.remote) d.mqttEnabled name
      exact h.same (hb.trans (.modifyRemote _ b.remote _ hf.1 hf.2.1))
  | removeBlind k b =>
      obtain ⟨config, rfl⟩ := removeBlind_eq hd
      exact h.erase _
  | createRemote name =>
      exact Named.registerRemote (d := { d with nextRemoteId := d.nextRemoteId + 1 }) h hd
  | importRemote name id => exact h.registerRemote hd
  | rename p name =>
      cases hd
      have hf := setName_fields (d.heap p) d.mqttEnabled name
      exact h.same (SameRegistry.modifyRemote d p (fun r => r.setName d.mqttEnabled name)
        hf.1 hf.2.1)
  | deleteRemote id =>
      obtain ⟨config, rfl⟩ := deleteRemote_eq hd
      exact h.erase _
  | associate p blindId =>
      cases hd
      have hf := associateBlind_fields (d.heap p) blindId
      exact h.same (SameRegistry.modifyRemote d p (fun r => r.associateBlind blindId) hf.1 hf.2)
  | disassociate p blindId =>
      cases hd
      exact h.same (SameRegistry.modifyRemote d p (fun r => r.disassociateBlind blindId) rfl rfl)
  | _ => exact absurd rfl hc

theorem Named.step {e : Event} (h : d.Named) (hd : d.step e = some d') : d'.Named := by
  obtain ⟨c, -, hp⟩ := Option.bind_eq_some_iff.mp hd
  exact h.perform hp

end Device

namespace Service

/-- The password is the one that was sent, or the old one for eight stars. -/
def PasswordSet (old : Option (CString 64)) (password : List UInt8) (new : CString 64) : Prop :=
  if password = ascii "********" then old = some new else new.chars = password

/-- Nothing in memory, no stored record and no request to stop is new. -/
structure Unchanged (s s' : Service) : Prop where
  memory : s'.device = { s.device with config := s'.device.config }
  records : ∀ r : Record, s'.device.config.read r.key = s.device.config.read r.key
  control : s'.control = s.control

/-- The Wi-Fi settings that were sent are the stored ones. -/
def WifiStored (s : Service) (ssid password : List UInt8) : Prop :=
  ∃ cfg, s.device.config.getWifiConfig = some cfg ∧ cfg.ssid.chars = ssid ∧
    (password = ascii "********" ∨ cfg.password.chars = password)

/-- The texts of the Wi-Fi settings fit, and there is room for the record or it is stored
already. A stop was requested before the settings of MQTT come, and there is no room for
the record or it is stored already. All flash calls run. -/
def SoundSettings (s : Service) (params : CgiParams) : Prop :=
  (params "mode" = some (ascii "wifi") → ∀ ssid password, params "ssid" = some ssid →
    params "password" = some password → (ssid.length < 36 ∧ 0 ∉ ssid) ∧
      (password = ascii "********" ∨ (password.length < 64 ∧ 0 ∉ password)) ∧
      s.device.config.Healthy ∧ (s.device.config.Room ∨ s.WifiStored ssid password)) ∧
  (params "mode" = some (ascii "mqtt") → ∀ host port username password topic cfg,
    params "host" = some host → params "port" = some port → params "username" = some username →
    params "password" = some password → params "topic" = some topic →
    s.mqttConfig host port username password topic = some cfg →
      s.control = ⟨true, false⟩ ∧ s.device.config.Healthy ∧ (¬s.device.config.Room ∨
        s.device.config.read Record.mqtt.key = some (BlockStorage.padded cfg.encode)))

def Sound (s : Service) (params : CgiParams) (locals : Locals) : Request → Prop
  | .configure => s.SoundSettings params
  | .device request => s.device.Sound params locals request

variable {s s' : Service} {params : CgiParams} {locals : Locals} {answer : Bool}

theorem Unchanged.refl (s : Service) : s.Unchanged s := ⟨rfl, fun _ => rfl, rfl⟩

theorem PasswordSet.fits {old : Option (CString 64)} {password : List UInt8} {w : CString 64}
    (h : PasswordSet old password w) :
    password = ascii "********" ∨ (password.length < 64 ∧ 0 ∉ password) := by
  unfold PasswordSet at h
  split_ifs at h with hstars
  · exact .inl hstars
  · exact .inr ⟨h ▸ w.fits, h ▸ w.noNul⟩

/-- A text that was in an array fits into another one of its size. -/
theorem strlcpy_self {n : ℕ} (hn : 0 < n) (w : CString n) : strlcpy n hn w.chars = w :=
  CString.ext ((strlcpy_chars hn).mpr ⟨w.fits, w.noNul⟩)

theorem PasswordSet.unique {old : Option (CString 64)} {password : List UInt8}
    {new w : CString 64} (h : PasswordSet old password w)
    (hnew : newPassword old password = some new) : w = new := by
  unfold newPassword at hnew
  unfold PasswordSet at h
  split_ifs at h hnew
  · rw [h, Option.map_some, strlcpy_self] at hnew
    exact Option.some.inj hnew
  · rw [← h, strlcpy_self] at hnew
    exact Option.some.inj hnew

theorem onConfigure_memory (h : s.onConfigure params = some (s', answer)) :
    s'.device = { s.device with config := s'.device.config } := by
  unfold onConfigure configureWifi configureMqtt at h
  repeat' split at h
  all_goals first
    | cases h
      rfl
    | obtain ⟨cfg, -, heq⟩ := Option.map_eq_some_iff.mp h
      obtain ⟨rfl, -⟩ := Prod.mk.inj heq
      rfl

/-- A state of the service after any events since it was reset. -/
def Reachable (s : Service) : Prop :=
  ∃ dc mqttEnabled slots d events, Device.freshDevice dc mqttEnabled slots = some d ∧
    Transitions.Run Service.step Transitions.Free ⟨d, .create⟩ events s

theorem Reachable.named (h : s.Reachable) : s.device.Named := by
  obtain ⟨dc, mqttEnabled, slots, d, events, hfresh, hrun⟩ := h
  refine hrun.invariant (I := fun s : Service => s.device.Named) (fun {s e t} hs _ ht => ?_)
    (Device.named_boot hfresh)
  unfold step at ht
  split at ht
  · obtain ⟨⟨t', answer⟩, hconfigure, rfl⟩ := Option.map_eq_some_iff.mp ht
    rw [onConfigure_memory hconfigure]
    exact hs
  · cases ht
    exact hs
  · obtain ⟨d', hd', rfl⟩ := Option.map_eq_some_iff.mp ht
    exact hs.step hd'
  · obtain ⟨d', hd', rfl⟩ := Option.map_eq_some_iff.mp ht
    exact hs.step hd'

end Service

end PicoSomfy
