import PicoSomfy.WebApi

/-!
# Settings and the end of service mode

`ConfigService` is the third set of handlers. It stores the Wi-Fi and the MQTT
settings, and whatever it is asked for, the device has to start again: it sets the
flags of `ServiceControl`, which the main loop polls. A service is a device with
these flags.
-/
namespace PicoSomfy

open CStrings

structure ServiceControl where
  stopRequested : Bool
  firmwareMode : Bool
  deriving DecidableEq

namespace ServiceControl

/-- The constructor. -/
def create : ServiceControl := ⟨false, false⟩

def stopService (_ : ServiceControl) (firmwareMode : Bool) : ServiceControl := ⟨true, firmwareMode⟩

end ServiceControl

/-- `strlcpy` into an array of `n` bytes, which cuts off what does not fit. -/
def strlcpy (n : ℕ) (hn : 0 < n) (bytes : List UInt8) : CString n where
  chars := (cText bytes).take (n - 1)
  fits := by
    rw [List.length_take]
    omega
  noNul h := zero_not_mem_cText bytes (List.mem_of_mem_take h)

/-- What does not have to be cut off is copied. -/
theorem strlcpy_chars {n : ℕ} (hn : 0 < n) {bytes : List UInt8} :
    (strlcpy n hn bytes).chars = bytes ↔ bytes.length < n ∧ 0 ∉ bytes := by
  constructor
  · intro h
    rw [← h]
    exact ⟨(strlcpy n hn bytes).fits, (strlcpy n hn bytes).noNul⟩
  · intro ⟨hlen, hzero⟩
    change (cText bytes).take (n - 1) = bytes
    rw [cText_eq_self hzero, List.take_of_length_le (by omega)]

structure Service where
  device : Device
  control : ServiceControl

namespace Service

/-- A password that is not shown is sent back as eight stars, and is kept then. Without
a record to keep it from, a null pointer is dereferenced. -/
def newPassword (old : Option (CString 64)) (password : List UInt8) : Option (CString 64) :=
  if password = ascii "********" then old.map fun s => strlcpy 64 password_pos s.chars
  else some (strlcpy 64 password_pos password)

/-- The record the mode `"wifi"` stores. -/
def wifiConfig (s : Service) (ssid password : List UInt8) : Option WifiConfig :=
  (newPassword (s.device.config.getWifiConfig.map (·.password)) password).map fun password =>
    ⟨strlcpy 36 ssid_pos ssid, password⟩

/-- The record the mode `"mqtt"` stores. The port stays zero if there is no number. -/
def mqttConfig (s : Service) (host port username password topic : List UInt8) :
    Option MqttConfig :=
  (newPassword (s.device.config.getMqttConfig.map (·.password)) password).map fun password =>
    ⟨strlcpy 16 brokerAddress_pos host, ((Scan.hu port).read 0).getD 0,
      strlcpy 32 username_pos username, password, strlcpy 128 topic_pos topic⟩

/-- New settings are stored and the device has to start again. -/
def reconfigure (s : Service) (config : DeviceConfig) : Service where
  device := { s.device with config := config }
  control := s.control.stopService false

def configureWifi (s : Service) (params : CgiParams) : Option (Service × Bool) :=
  match params "ssid", params "password" with
  | some ssid, some password =>
      (s.wifiConfig ssid password).map fun cfg =>
        (s.reconfigure (s.device.config.saveWifiConfig cfg), true)
  | _, _ => some (s, false)

/-- This mode ends in the last line of `OnConfigure`, which answers false. -/
def configureMqtt (s : Service) (params : CgiParams) : Option (Service × Bool) :=
  match params "host", params "port", params "username", params "password", params "topic" with
  | some host, some port, some username, some password, some topic =>
      (s.mqttConfig host port username password topic).map fun cfg =>
        (s.reconfigure (s.device.config.saveMqttConfig cfg), false)
  | _, _, _, _, _ => some (s, false)

/-- `ConfigService::OnConfigure` -/
def onConfigure (s : Service) (params : CgiParams) : Option (Service × Bool) :=
  match params "mode" with
  | none => some (s, false)
  | some mode =>
      if mode = ascii "wifi" then s.configureWifi params
      else if mode = ascii "mqtt" then s.configureMqtt params
      else if mode = ascii "firmware" then
        some ({ s with control := s.control.stopService true }, true)
      else some (s, false)

/-- The requests with a handler. -/
inductive Request where
  | configure
  | device (request : Device.Request)

/-- The handler of a request, and the answer it gives. -/
def handle (s : Service) (request : Request) (params : CgiParams) (locals : Locals) :
    Option (Service × Bool) :=
  match request with
  | .configure => s.onConfigure params
  | .device request =>
      (s.device.handle request params locals).bind fun (c, answer) =>
        (s.device.perform c).map fun d => ({ s with device := d }, answer)

inductive Event where
  | configure (params : CgiParams)
  | resetPushed
  | device (e : Device.Event)

/-- After a restart no stop is requested. -/
def step (s : Service) : Event → Option Service
  | .configure params => (s.onConfigure params).map (·.1)
  | .resetPushed => some { s with control := s.control.stopService false }
  | .device (.restart mqttEnabled slots) =>
      (s.device.step (.restart mqttEnabled slots)).map fun d => ⟨d, .create⟩
  | .device e => (s.device.step e).map fun d => { s with device := d }

end Service

end PicoSomfy
