import PicoSomfy.BlockMap
import PicoSomfy.CStrings

/-!
# Device configuration records

Every record lives in one block of the storage, under a key made of a magic
number and, for blinds and remotes, the low sixteen bits of an id. A record is
read through a pointer to the block and written as the bytes of its structure.
The bytes a structure leaves uninitialised are zero here; no reader sees them.

`lost` records that some `SaveBlock` did not program its data. The source only
prints a message then, and no function below reads the field.
-/
namespace PicoSomfy

open NorFlash CStrings

structure WifiConfig where
  ssid : CString 36
  password : CString 64
  deriving DecidableEq, Repr

structure MqttConfig where
  brokerAddress : CString 16
  port : UInt16
  username : CString 32
  password : CString 64
  topic : CString 128
  deriving DecidableEq, Repr

structure BlindConfig where
  blindName : CString 48
  currentPosition : Int32
  myPosition : Int32
  openTime : Int32
  closeTime : Int32
  remoteId : UInt32
  deriving DecidableEq

/-- The first `blindCount` entries of `blinds` are kept as a list of at most 32. -/
structure RemoteConfig where
  remoteName : CString 48
  remoteId : UInt32
  rollingCode : UInt16
  blinds : List UInt16
  blindCount_le : blinds.length ≤ 32
  deriving DecidableEq

theorem ssid_pos : 0 < 36 := by decide

theorem password_pos : 0 < 64 := by decide

theorem brokerAddress_pos : 0 < 16 := by decide

theorem username_pos : 0 < 32 := by decide

theorem topic_pos : 0 < 128 := by decide

theorem name_pos : 0 < 48 := by decide

namespace WifiConfig

def encode (c : WifiConfig) : List UInt8 := c.ssid.encode ++ c.password.encode

def decode (bs : List UInt8) : WifiConfig where
  ssid := CString.decode 36 (by decide) bs
  password := CString.decode 64 (by decide) (bs.drop 36)

theorem length_encode (c : WifiConfig) : c.encode.length = 100 := by simp [encode]

theorem decode_encode (c : WifiConfig) (rest : List UInt8) : decode (c.encode ++ rest) = c := by
  unfold decode encode
  rw [List.append_assoc, CString.decode_encode, List.drop_left' c.ssid.length_encode,
    CString.decode_encode]

end WifiConfig

namespace MqttConfig

def encode (c : MqttConfig) : List UInt8 :=
  c.brokerAddress.encode ++ encode16 c.port ++ c.username.encode ++ c.password.encode ++
    c.topic.encode

def decode (bs : List UInt8) : MqttConfig where
  brokerAddress := CString.decode 16 (by decide) bs
  port := decode16 (bs.drop 16)
  username := CString.decode 32 (by decide) ((bs.drop 16).drop 2)
  password := CString.decode 64 (by decide) (((bs.drop 16).drop 2).drop 32)
  topic := CString.decode 128 (by decide) ((((bs.drop 16).drop 2).drop 32).drop 64)

theorem length_encode (c : MqttConfig) : c.encode.length = 242 := by simp [encode]

theorem decode_encode (c : MqttConfig) (rest : List UInt8) : decode (c.encode ++ rest) = c := by
  unfold decode encode
  simp only [List.append_assoc, CString.decode_encode, decode16_encode16,
    List.drop_left' (CString.length_encode _), List.drop_left' (length_encode16 _)]

end MqttConfig

namespace BlindConfig

def encode (c : BlindConfig) : List UInt8 :=
  c.blindName.encode ++ encode32 c.currentPosition.toUInt32 ++ encode32 c.myPosition.toUInt32 ++
    encode32 c.openTime.toUInt32 ++ encode32 c.closeTime.toUInt32 ++ encode32 c.remoteId

def decode (bs : List UInt8) : BlindConfig where
  blindName := CString.decode 48 (by decide) bs
  currentPosition := (decode32 (bs.drop 48)).toInt32
  myPosition := (decode32 ((bs.drop 48).drop 4)).toInt32
  openTime := (decode32 (((bs.drop 48).drop 4).drop 4)).toInt32
  closeTime := (decode32 ((((bs.drop 48).drop 4).drop 4).drop 4)).toInt32
  remoteId := decode32 (((((bs.drop 48).drop 4).drop 4).drop 4).drop 4)

theorem length_encode (c : BlindConfig) : c.encode.length = 68 := by simp [encode]

theorem decode_encode (c : BlindConfig) (rest : List UInt8) : decode (c.encode ++ rest) = c := by
  unfold decode encode
  simp only [List.append_assoc, CString.decode_encode, decode32_encode32,
    List.drop_left' (CString.length_encode _), List.drop_left' (length_encode32 _),
    Int32.toInt32_toUInt32]

end BlindConfig

namespace RemoteConfig

def encode (c : RemoteConfig) : List UInt8 :=
  c.remoteName.encode ++ encode32 c.remoteId ++ encode16 c.rollingCode ++
    encode16 (UInt16.ofNat c.blinds.length) ++ encode16s c.blinds ++
    List.replicate (64 - 2 * c.blinds.length) 0

/-- A count above 32 would read past the array; no writer stores one. -/
def decode (bs : List UInt8) : RemoteConfig where
  remoteName := CString.decode 48 (by decide) bs
  remoteId := decode32 (bs.drop 48)
  rollingCode := decode16 ((bs.drop 48).drop 4)
  blinds := decode16s (min (decode16 (((bs.drop 48).drop 4).drop 2)).toNat 32)
    ((((bs.drop 48).drop 4).drop 2).drop 2)
  blindCount_le := by simp

theorem length_encode (c : RemoteConfig) : c.encode.length = 120 := by
  have h := c.blindCount_le
  simp only [encode, List.length_append, CString.length_encode, length_encode32, length_encode16,
    length_encode16s, List.length_replicate]
  omega

theorem decode_encode (c : RemoteConfig) (rest : List UInt8) : decode (c.encode ++ rest) = c := by
  have h := c.blindCount_le
  have hcount : min (UInt16.ofNat c.blinds.length).toNat 32 = c.blinds.length := by
    rw [UInt16.toNat_ofNat_of_lt' (by rw [UInt16.size]; omega)]
    omega
  unfold decode encode
  simp only [List.append_assoc, CString.decode_encode, decode32_encode32, decode16_encode16,
    List.drop_left' (CString.length_encode _), List.drop_left' (length_encode32 _),
    List.drop_left' (length_encode16 _), hcount, decode16s_encode16s]

end RemoteConfig

def wifiConfigMagic : UInt32 := 0x19841984
def mqttConfigMagic : UInt32 := 0x19841985
def blindsConfigMagic : UInt32 := 0x19841986
def remotesConfigMagic : UInt32 := 0x19841987
def externalRemotesConfigMagic : UInt32 := 0x19841990
def blindConfigMagic : UInt32 := 0x19850000
def remoteConfigMagic : UInt32 := 0x19860000

def blindKey (blindId : UInt16) : UInt32 := blindConfigMagic ||| blindId.toUInt32

def remoteKey (remoteId : UInt32) : UInt32 := remoteConfigMagic ||| (remoteId &&& 0xFFFF)

structure DeviceConfig where
  storage : BlockStorage
  chip : Chip
  lost : Bool

namespace DeviceConfig

/-- The data of the block with a key, `none` for a null pointer. -/
def read (dc : DeviceConfig) (key : UInt32) : Option (List UInt8) :=
  dc.storage.contents dc.chip.image key

def write (dc : DeviceConfig) (key : UInt32) (data : List UInt8) : DeviceConfig :=
  let r := dc.storage.saveBlock dc.chip key data
  { dc with chip := r.2, lost := dc.lost || !r.1 }

def clear (dc : DeviceConfig) (key : UInt32) : DeviceConfig :=
  { dc with chip := dc.storage.clearBlock dc.chip key }

def getWifiConfig (dc : DeviceConfig) : Option WifiConfig :=
  (dc.read wifiConfigMagic).map WifiConfig.decode

def saveWifiConfig (dc : DeviceConfig) (config : WifiConfig) : DeviceConfig :=
  dc.write wifiConfigMagic config.encode

def getMqttConfig (dc : DeviceConfig) : Option MqttConfig :=
  (dc.read mqttConfigMagic).map MqttConfig.decode

def saveMqttConfig (dc : DeviceConfig) (mqttConfig : MqttConfig) : DeviceConfig :=
  dc.write mqttConfigMagic mqttConfig.encode

def getBlindConfig (dc : DeviceConfig) (blindId : UInt16) : Option BlindConfig :=
  (dc.read (blindKey blindId)).map BlindConfig.decode

/-- A record equal to the stored one is not written again. -/
def saveBlindConfig (dc : DeviceConfig) (blindId : UInt16) (blindConfig : BlindConfig) :
    DeviceConfig :=
  if dc.getBlindConfig blindId = some blindConfig then dc
  else dc.write (blindKey blindId) blindConfig.encode

def deleteBlindConfig (dc : DeviceConfig) (blindId : UInt16) : DeviceConfig :=
  dc.clear (blindKey blindId)

def getRemoteConfig (dc : DeviceConfig) (remoteId : UInt32) : Option RemoteConfig :=
  if remoteId = 0xFFFFFFFF ∨ remoteId = 0 then none
  else (dc.read (remoteKey remoteId)).map RemoteConfig.decode

def saveRemoteConfig (dc : DeviceConfig) (remoteId : UInt32) (remoteConfig : RemoteConfig) :
    DeviceConfig :=
  if dc.getRemoteConfig remoteId = some remoteConfig then dc
  else dc.write (remoteKey remoteId) remoteConfig.encode

def deleteRemoteConfig (dc : DeviceConfig) (remoteId : UInt32) : DeviceConfig :=
  dc.clear (remoteKey remoteId)

/-- The count is stored before the ids. A list longer than the block is only
reported: the source goes on and saves it. -/
def saveIdList (dc : DeviceConfig) (header : UInt32) (ids : List UInt16) : DeviceConfig :=
  dc.write header (encode32 (UInt32.ofNat ids.length) ++ encode16s ids)

def saveIdList32 (dc : DeviceConfig) (header : UInt32) (ids : List UInt32) : DeviceConfig :=
  dc.write header (encode32 (UInt32.ofNat ids.length) ++ encode32s ids)

/-- The ids are read from flash as far as the count says, also past the block. -/
def getIdList (dc : DeviceConfig) (header : UInt32) : List UInt16 :=
  match dc.storage.getBlock dc.chip.image header with
  | none => []
  | some block =>
      let count := (word32 dc.chip.image block).toNat
      decode16s count (bytesAt dc.chip.image (block + 4) (2 * count))

def getIdList32 (dc : DeviceConfig) (header : UInt32) : List UInt32 :=
  match dc.storage.getBlock dc.chip.image header with
  | none => []
  | some block =>
      let count := (word32 dc.chip.image block).toNat
      decode32s count (bytesAt dc.chip.image (block + 4) (4 * count))

def getBlindIds (dc : DeviceConfig) : List UInt16 := dc.getIdList blindsConfigMagic

def saveBlindIds (dc : DeviceConfig) (blindIds : List UInt16) : DeviceConfig :=
  dc.saveIdList blindsConfigMagic blindIds

def getRemoteIds (dc : DeviceConfig) : List UInt16 := dc.getIdList remotesConfigMagic

def saveRemoteIds (dc : DeviceConfig) (remoteIds : List UInt16) : DeviceConfig :=
  dc.saveIdList remotesConfigMagic remoteIds

def getExternalRemoteIds (dc : DeviceConfig) : List UInt32 :=
  dc.getIdList32 externalRemotesConfigMagic

def saveExternalRemoteIds (dc : DeviceConfig) (remoteIds : List UInt32) : DeviceConfig :=
  dc.saveIdList32 externalRemotesConfigMagic remoteIds

def format (dc : DeviceConfig) : DeviceConfig := { dc with chip := dc.storage.format dc.chip }

/-- Formats the storage and stores the default Wi-Fi and MQTT records. -/
def hardReset (dc : DeviceConfig) : DeviceConfig :=
  (dc.format.saveWifiConfig ⟨.empty (by decide), .empty (by decide)⟩).saveMqttConfig
    ⟨.empty (by decide), 1883, .empty (by decide), .empty (by decide), .empty (by decide)⟩

/-- `checkConfig` of the main program: without a Wi-Fi record, or with the reset
button held, everything is reset. The result is `none` when the records cannot be
read back. -/
def checkConfig (dc : DeviceConfig) (resetHeld : Bool) : DeviceConfig × Option WifiConfig :=
  let needReset := dc.getWifiConfig.isNone || resetHeld
  let dc := if needReset then dc.hardReset else dc
  (dc, if dc.getMqttConfig.isNone then none else dc.getWifiConfig)

end DeviceConfig

end PicoSomfy
