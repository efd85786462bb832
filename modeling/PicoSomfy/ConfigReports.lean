import PicoSomfy.ConfigService
import PicoSomfy.JsonSpace
import PicoSomfy.ListReports
import PicoSomfy.WifiScanner

/-!
# What the settings pages are told

The pages for the settings read two texts with tags in them. The strings that are put in the
place of the tags are the stored ones and the names of the networks that were heard. None of
them is escaped, so the texts are read as what they should say exactly as long as nobody
stored or sent a string with a quote, a backslash or a control character in it.
-/
namespace PicoSomfy

open JsonText

inductive WifiTag where
  | ssid
  | ssidList
  deriving DecidableEq

inductive MqttTag where
  | addr
  | port
  | user
  | topic
  deriving DecidableEq

/-- One name of the list, which ends with a comma unless it is the last one. -/
def ssidPart (ssids : List (List UInt8)) (tagPart : UInt16) : Part :=
  match ssids[tagPart.toNat]? with
  | none => ([], none)
  | some ssid =>
      if tagPart.toNat + 1 ≠ ssids.length then (34 :: (ssid ++ [34, 44]), some (tagPart + 1))
      else (34 :: (ssid ++ [34]), none)

namespace DeviceConfig

/-- `HandleWifiConfigResponse`, with the scanner it leaves. It never looks at the insert
length. Without a record of the settings a null pointer is dereferenced. -/
def handleWifiConfigResponse (dc : DeviceConfig) (w : WifiScanner) (tag : WifiTag)
    (tagPart : UInt16) : Option (WifiScanner × Part) :=
  match tag with
  | .ssid => dc.getWifiConfig.map fun cfg => (w, cfg.ssid.chars, none)
  | .ssidList =>
      let w := if tagPart = 0 then w.collectResults else w
      some (w, ssidPart w.ssids tagPart)

/-- `HandleMqttConfigResponse`. Of the four tags only the last one is cut off. -/
def handleMqttConfigResponse (dc : DeviceConfig) (tag : MqttTag) (iInsertLen : ℕ) : Option Part :=
  dc.getMqttConfig.map fun cfg =>
    match tag with
    | .addr => (cfg.brokerAddress.chars, none)
    | .port => (ascii (toString (cfg.port.toNat : ℤ)), none)
    | .user => (cfg.username.chars, none)
    | .topic => (cfg.topic.chars.take iInsertLen, none)

end DeviceConfig

/-- The template `wifi.json`, with texts in the place of its tags. -/
def wifiJson (ssid ssidList : List UInt8) : List UInt8 :=
  ascii "\x7b\n    \"currentSsid\": \"" ++ ssid ++ ascii "\",\n    \"availableSsids\": [" ++
    ssidList ++ ascii "]\n\x7d"

/-- The template `mqtt.json`. -/
def mqttJson (mqttAddr mqttPort mqttUser mqttTopi : List UInt8) : List UInt8 :=
  ascii "\x7b\n    \"address\": \"" ++ mqttAddr ++ ascii "\",\n    \"port\": " ++ mqttPort ++
    ascii ",\n    \"username\": \"" ++ mqttUser ++
    ascii "\",\n    \"password\": \"********\",\n    \"topic\": \"" ++ mqttTopi ++ ascii "\"\n\x7d\n"

/-- The scanner at the requests for the parts of one response. The first one collects the
results, and until the last one nothing else does. -/
structure WifiScanner.Asked (w : WifiScanner) (scanner : UInt16 → WifiScanner) : Prop where
  first : scanner 0 = w
  later : ∀ tagPart ≠ 0, w.collectResults.Listens (scanner tagPart)

/-- Nothing needs to be heard in between. -/
theorem WifiScanner.asked_alone (w : WifiScanner) :
    w.Asked fun tagPart => if tagPart = 0 then w else w.collectResults where
  first := if_pos rfl
  later _ h := ⟨[], nofun, by rw [if_neg h]; rfl⟩

/-- The text is put in the place of a tag, in parts that are not too long. -/
def Inserted (respond : UInt16 → Option Part) (text : List UInt8) : Prop :=
  ∃ texts, Served respond 0 texts ∧ texts.flatten = text ∧ ∀ t ∈ texts, t.length ≤ 192

/-- The names of the networks, each of them once. -/
def Names (names : List (List UInt8)) (listed : List Ssid) : Prop :=
  names.Nodup ∧ ∀ n, n ∈ names ↔ ∃ s ∈ listed, s.bytes = n

namespace DeviceConfig

variable (dc : DeviceConfig)

def wifiPart (scanner : UInt16 → WifiScanner) (tag : WifiTag) (tagPart : UInt16) : Option Part :=
  (dc.handleWifiConfigResponse (scanner tagPart) tag tagPart).map (·.2)

def mqttPart (tag : MqttTag) (_ : UInt16) : Option Part := dc.handleMqttConfigResponse tag 192

/-- The first response is read as the name of the network in use and those of the networks
that were heard. -/
def WifiReported (scanner : UInt16 → WifiScanner) (wifi : WifiConfig) (listed : List Ssid) : Prop :=
  ∃ ssid ssidList names, Inserted (dc.wifiPart scanner .ssid) ssid ∧
    Inserted (dc.wifiPart scanner .ssidList) ssidList ∧ Names names listed ∧
    parse (wifiJson ssid ssidList) = some (.obj [(ascii "currentSsid", .str wifi.ssid.chars),
      (ascii "availableSsids", .arr (names.map .str))])

/-- The second response is read as the settings of MQTT, except for the password. -/
def MqttReported (mqtt : MqttConfig) : Prop :=
  ∃ addr port user topic, Inserted (dc.mqttPart .addr) addr ∧ Inserted (dc.mqttPart .port) port ∧
    Inserted (dc.mqttPart .user) user ∧ Inserted (dc.mqttPart .topic) topic ∧
    parse (mqttJson addr port user topic) = some (.obj [
      (ascii "address", .str mqtt.brokerAddress.chars), (ascii "port", .num mqtt.port.toNat),
      (ascii "username", .str mqtt.username.chars), (ascii "password", .str (ascii "********")),
      (ascii "topic", .str mqtt.topic.chars)])

end DeviceConfig

theorem inserted_once {respond : UInt16 → Option Part} {text : List UInt8}
    (h : respond 0 = some (text, none)) {t : List UInt8} :
    Inserted respond t ↔ t = text ∧ text.length ≤ 192 := by
  constructor
  · rintro ⟨texts, hserved, rfl, hlen⟩
    obtain rfl := (served_last h).mp hserved
    exact ⟨List.append_nil text, hlen text List.mem_cons_self⟩
  · rintro ⟨rfl, hlen⟩
    exact ⟨[t], .last h, List.append_nil t, fun u hu => List.mem_singleton.mp hu ▸ hlen⟩

/-- A name in its quotes. -/
def quoted (ssid : List UInt8) : List UInt8 := 34 :: (ssid ++ [34])

section SsidList
variable {ssids : List (List UInt8)}

/-- The parts of the list of names. -/
def ssidRows (ssids : List (List UInt8)) : List (List UInt8) :=
  (rows (fun ssid => [.text (34 :: ssid)]) [34, 44] [34] ssids).map Piece.whole

theorem length_ssidRows (ssids : List (List UInt8)) :
    (ssidRows ssids).length = max 1 ssids.length := by
  rw [ssidRows, List.length_map, length_rows]

theorem getElem_ssidRows {i : ℕ} (h : i < (ssidRows ssids).length) :
    (ssidRows ssids)[i] =
      Piece.whole (partPieces (fun ssid => [.text (34 :: ssid)]) [34, 44] [34] (ssids.drop i)) := by
  simp only [ssidRows, List.getElem_map, getElem_rows]

theorem ssidRows_part (ssids : List (List UInt8)) (tagPart : UInt16)
    (h : tagPart.toNat < (ssidRows ssids).length) :
    some (ssidPart ssids tagPart) = some ((ssidRows ssids)[tagPart.toNat],
      if tagPart.toNat + 1 < (ssidRows ssids).length then some (tagPart + 1) else none) := by
  have hlen := length_ssidRows ssids
  have hnext : tagPart.toNat + 1 < (ssidRows ssids).length ↔ tagPart.toNat + 1 < ssids.length := by
    omega
  rw [getElem_ssidRows, if_congr hnext rfl rfl, ssidPart]
  by_cases hin : tagPart.toNat < ssids.length
  · rw [List.getElem?_eq_getElem hin, List.drop_eq_getElem_cons hin]
    dsimp only
    by_cases hmore : tagPart.toNat + 1 < ssids.length
    · rw [List.drop_eq_getElem_cons hmore, if_pos hmore.ne, if_pos hmore]
      simp [partPieces, Piece.full]
    · rw [List.drop_eq_nil_of_le (not_lt.mp hmore), if_neg (by omega), if_neg hmore]
      simp [partPieces, Piece.full]
  · rw [List.getElem?_eq_none (not_lt.mp hin), List.drop_eq_nil_of_le (not_lt.mp hin),
      if_neg (by omega)]
    rfl

theorem flatten_ssidRows (ssids : List (List UInt8)) :
    (ssidRows ssids).flatten = commaJoin (ssids.map quoted) := by
  rw [ssidRows, flatten_rows (show [34, 44] = [34] ++ [44] from rfl)]
  refine congrArg commaJoin (List.map_congr_left fun ssid _ => ?_)
  simp [object, quoted, Piece.full]

theorem length_ssidRow_le (h : ∀ t ∈ ssids, t.length ≤ 32) {row : List UInt8}
    (hrow : row ∈ ssidRows ssids) : row.length ≤ 192 := by
  obtain ⟨ps, hps, rfl⟩ := List.mem_map.mp hrow
  obtain ⟨i, -, rfl⟩ := mem_rows.mp hps
  cases hdrop : ssids.drop i with
  | nil => exact Nat.zero_le _
  | cons t ts =>
      have ht := h t (List.mem_of_mem_drop (hdrop ▸ List.mem_cons_self))
      cases ts with
      | nil => simp [partPieces, Piece.full]; omega
      | cons u ts => simp [partPieces, Piece.full]; omega

/-- Whatever is heard between its parts, the list is the one that was collected at its
first part. -/
theorem inserted_ssidList {dc : DeviceConfig} {w : WifiScanner} {scanner : UInt16 → WifiScanner}
    (hw : w.Asked scanner) (h : ∀ t ∈ w.collectResults.ssids, t.length ≤ 32) {text : List UInt8} :
    Inserted (dc.wifiPart scanner .ssidList) text ↔
      w.collectResults.ssids.length ≤ 65536 ∧
        text = commaJoin (w.collectResults.ssids.map quoted) := by
  have hpart : ∀ tagPart, dc.wifiPart scanner .ssidList tagPart =
      some (ssidPart w.collectResults.ssids tagPart) := fun tagPart => by
    by_cases hzero : tagPart = 0
    · subst hzero
      rw [← hw.first]
      rfl
    · rw [← (hw.later tagPart hzero).ssids]
      rw [DeviceConfig.wifiPart, DeviceConfig.handleWifiConfigResponse, if_neg hzero]
      rfl
  have hlen := length_ssidRows w.collectResults.ssids
  have hne : ssidRows w.collectResults.ssids ≠ [] := List.ne_nil_of_length_pos (by omega)
  have hserved : ∀ {texts}, Served (dc.wifiPart scanner .ssidList) 0 texts ↔ _ :=
    served_rows hne fun tagPart hlt => (hpart tagPart).trans (ssidRows_part _ tagPart hlt)
  constructor
  · rintro ⟨texts, hs, rfl, -⟩
    obtain ⟨hcount, rfl⟩ := hserved.mp hs
    exact ⟨by omega, flatten_ssidRows _⟩
  · rintro ⟨hcount, rfl⟩
    exact ⟨_, hserved.mpr ⟨by omega, rfl⟩, flatten_ssidRows _, fun t ht => length_ssidRow_le h ht⟩

end SsidList

theorem spells_ssidList {ssids : List (List UInt8)} (h : ∀ t ∈ ssids, Unescaped t) :
    Spells (91 :: (commaJoin (ssids.map quoted) ++ [93])) (.arr (ssids.map .str)) := by
  have hspell := spells_arr (ssids.map fun t => (quoted t, .str t)) fun t ht => by
    obtain ⟨u, hu, rfl⟩ := List.mem_map.mp ht
    exact spells_unescaped (h u hu)
  rwa [List.map_map, List.map_map] at hspell

theorem blank_line : Blank (ascii "\n    ") := by
  unfold Blank
  decide +kernel

theorem blank_newline : Blank (ascii "\n") := by
  unfold Blank
  decide +kernel

/-- A member of the texts stands on a line of its own. -/
def line (key : String) (t : List UInt8) : List UInt8 :=
  ascii "\n    " ++ ([] ++ 34 :: (ascii key ++ [34, 58] ++ ([32] ++ t)))

theorem reads_line (key : String) {t : List UInt8} {v : Value} (hkey : Unescaped (ascii key))
    (h : Spells t v) : ReadsMember (line key t) (ascii key, v) :=
  (spells_member hkey h (.inl rfl) (.inr rfl)).behind blank_line

theorem parse_wifiJson {ssid : List UInt8} {ssids : List (List UInt8)} (hssid : Unescaped ssid)
    (hssids : ∀ t ∈ ssids, Unescaped t) :
    parse (wifiJson ssid (commaJoin (ssids.map quoted))) =
      some (.obj [(ascii "currentSsid", .str ssid),
        (ascii "availableSsids", .arr (ssids.map .str))]) := by
  have htext : wifiJson ssid (commaJoin (ssids.map quoted)) =
      123 :: (commaJoin [line "currentSsid" (34 :: (ssid ++ [34])),
        line "availableSsids" (91 :: (commaJoin (ssids.map quoted) ++ [93]))] ++
          (ascii "\n" ++ 125 :: [])) := by
    have hopen : ascii "\x7b\n    \"currentSsid\": \"" =
        123 :: (ascii "\n    " ++ 34 :: (ascii "currentSsid" ++ [34, 58, 32, 34])) := by
      decide +kernel
    have hnext : ascii "\",\n    \"availableSsids\": [" =
        34 :: 44 :: (ascii "\n    " ++ 34 :: (ascii "availableSsids" ++ [34, 58, 32, 91])) := by
      decide +kernel
    have hclose : ascii "]\n\x7d" = 93 :: (ascii "\n" ++ [125]) := by decide +kernel
    simp only [wifiJson, hopen, hnext, hclose, line, commaJoin, List.nil_append, List.cons_append,
      List.append_assoc]
  rw [htext]
  exact parse_obj (.cons (reads_line "currentSsid" (by decide +kernel) (spells_unescaped hssid)) <|
    .cons (reads_line "availableSsids" (by decide +kernel) (spells_ssidList hssids)) .nil)
    blank_newline blank_nil

theorem parse_mqttJson {mqtt : MqttConfig} (haddr : Unescaped mqtt.brokerAddress.chars)
    (huser : Unescaped mqtt.username.chars) (htopic : Unescaped mqtt.topic.chars) :
    parse (mqttJson mqtt.brokerAddress.chars (ascii (toString (mqtt.port.toNat : ℤ)))
      mqtt.username.chars mqtt.topic.chars) = some (.obj [
        (ascii "address", .str mqtt.brokerAddress.chars), (ascii "port", .num mqtt.port.toNat),
        (ascii "username", .str mqtt.username.chars), (ascii "password", .str (ascii "********")),
        (ascii "topic", .str mqtt.topic.chars)]) := by
  have htext : mqttJson mqtt.brokerAddress.chars (ascii (toString (mqtt.port.toNat : ℤ)))
      mqtt.username.chars mqtt.topic.chars =
      123 :: (commaJoin [line "address" (34 :: (mqtt.brokerAddress.chars ++ [34])),
        line "port" (ascii (toString (mqtt.port.toNat : ℤ))),
        line "username" (34 :: (mqtt.username.chars ++ [34])),
        line "password" (34 :: (ascii "********" ++ [34])),
        line "topic" (34 :: (mqtt.topic.chars ++ [34]))] ++ (ascii "\n" ++ 125 :: ascii "\n")) := by
    have hopen : ascii "\x7b\n    \"address\": \"" =
        123 :: (ascii "\n    " ++ 34 :: (ascii "address" ++ [34, 58, 32, 34])) := by decide +kernel
    have hport : ascii "\",\n    \"port\": " =
        34 :: 44 :: (ascii "\n    " ++ 34 :: (ascii "port" ++ [34, 58, 32])) := by decide +kernel
    have huser : ascii ",\n    \"username\": \"" =
        44 :: (ascii "\n    " ++ 34 :: (ascii "username" ++ [34, 58, 32, 34])) := by decide +kernel
    have htopic : ascii "\",\n    \"password\": \"********\",\n    \"topic\": \"" =
        34 :: 44 :: (ascii "\n    " ++ 34 :: (ascii "password" ++ 34 :: 58 :: 32 :: 34 ::
          (ascii "********" ++ 34 :: 44 :: (ascii "\n    " ++ 34 ::
            (ascii "topic" ++ [34, 58, 32, 34]))))) := by decide +kernel
    have hclose : ascii "\"\n\x7d\n" = 34 :: (ascii "\n" ++ 125 :: ascii "\n") := by decide +kernel
    simp only [mqttJson, hopen, hport, huser, htopic, hclose, line, commaJoin, List.nil_append,
      List.cons_append, List.append_assoc]
  rw [htext]
  exact parse_obj (.cons (reads_line "address" (by decide +kernel) (spells_unescaped haddr)) <|
    .cons (reads_line "port" (by decide +kernel) (spells_num mqtt.port.toNat)) <|
    .cons (reads_line "username" (by decide +kernel) (spells_unescaped huser)) <|
    .cons (reads_line "password" (by decide +kernel) (spells_unescaped (by decide +kernel))) <|
    .cons (reads_line "topic" (by decide +kernel) (spells_unescaped htopic)) .nil)
    blank_newline blank_newline

theorem sum_strBulk (names : List (List UInt8)) :
    (Value.arr (names.map .str)).bulk =
      2 + (names.map fun n => 2 + (n.map cost).sum).sum + (names.length - 1) := by
  rw [Value.bulk, listBulk, List.map_map, List.length_map]
  refine congrArg (fun ws : List ℕ => 2 + ws.sum + (names.length - 1))
    (List.map_congr_left fun n _ => ?_)
  rw [Function.comp_apply, Value.bulk, strBulk]

theorem bulk_ssidList (ssids : List (List UInt8)) :
    bulk (commaJoin (ssids.map quoted)) =
      (ssids.map fun t => 2 + bulk t).sum + (ssids.length - 1) := by
  rw [bulk_commaJoin, List.map_map, List.length_map]
  refine congrArg (fun ws : List ℕ => ws.sum + (ssids.length - 1))
    (List.map_congr_left fun t _ => ?_)
  simp only [Function.comp_apply, quoted, bulk_cons, bulk_append, bulk_nil,
    show bulkByte 34 = 1 from rfl]
  omega

/-- A response that is read as these names holds all that they cost. -/
theorem cost_of_parse_wifi {ssid list name : List UInt8} {names : List (List UInt8)}
    (h : parse (wifiJson ssid list) = some (.obj [(ascii "currentSsid", .str name),
      (ascii "availableSsids", .arr (names.map .str))])) :
    (name.map cost).sum + ((names.map fun n => 2 + (n.map cost).sum).sum + (names.length - 1)) ≤
      bulk ssid + bulk list := by
  have hle := bulk_parse_flat h
  have hvalue := sum_strBulk names
  have hopen : bulk (flat (ascii "\x7b\n    \"currentSsid\": \"")) = 16 := by decide +kernel
  have hnext : bulk (flat (ascii "\",\n    \"availableSsids\": [")) = 20 := by decide +kernel
  have hclose : bulk (flat (ascii "]\n\x7d")) = 2 := by decide +kernel
  have hssid : strBulk (ascii "currentSsid") = 13 := by decide +kernel
  have hlist : strBulk (ascii "availableSsids") = 16 := by decide +kernel
  rw [wifiJson, flat_append, flat_append, flat_append, flat_append, bulk_append, bulk_append,
    bulk_append, bulk_append, hopen, hnext, hclose, Value.bulk] at hle
  simp only [listBulk, List.map_cons, List.map_nil, List.sum_cons, List.sum_nil, List.length_cons,
    List.length_nil, hssid, hlist, hvalue] at hle
  rw [Value.bulk, strBulk] at hle
  have h₁ := bulk_flat_le ssid
  have h₂ := bulk_flat_le list
  omega

theorem cost_of_parse_mqtt {addr port user topic : List UInt8} {mqtt : MqttConfig}
    (h : parse (mqttJson addr port user topic) = some (.obj [
        (ascii "address", .str mqtt.brokerAddress.chars), (ascii "port", .num mqtt.port.toNat),
        (ascii "username", .str mqtt.username.chars), (ascii "password", .str (ascii "********")),
        (ascii "topic", .str mqtt.topic.chars)])) :
    (mqtt.brokerAddress.chars.map cost).sum + (mqtt.username.chars.map cost).sum +
        (mqtt.topic.chars.map cost).sum ≤ bulk addr + bulk port + bulk user + bulk topic := by
  have hle := bulk_parse_flat h
  have hopen : bulk (flat (ascii "\x7b\n    \"address\": \"")) = 12 := by decide +kernel
  have hport : bulk (flat (ascii "\",\n    \"port\": ")) = 9 := by decide +kernel
  have huser : bulk (flat (ascii ",\n    \"username\": \"")) = 13 := by decide +kernel
  have htopic : bulk (flat (ascii
      "\",\n    \"password\": \"********\",\n    \"topic\": \"")) = 33 := by decide +kernel
  have hclose : bulk (flat (ascii "\"\n\x7d\n")) = 2 := by decide +kernel
  have haddrKey : strBulk (ascii "address") = 9 := by decide +kernel
  have hportKey : strBulk (ascii "port") = 6 := by decide +kernel
  have huserKey : strBulk (ascii "username") = 10 := by decide +kernel
  have hpasswordKey : strBulk (ascii "password") = 10 := by decide +kernel
  have hstars : strBulk (ascii "********") = 10 := by decide +kernel
  have htopicKey : strBulk (ascii "topic") = 7 := by decide +kernel
  simp only [mqttJson, flat_append, bulk_append, hopen, hport, huser, htopic, hclose] at hle
  rw [Value.bulk] at hle
  simp only [listBulk, List.map_cons, List.map_nil, List.sum_cons, List.sum_nil, List.length_cons,
    List.length_nil, haddrKey, hportKey, huserKey, hpasswordKey, htopicKey, Value.bulk, hstars] at hle
  simp only [strBulk] at hle
  have h₁ := bulk_flat_le addr
  have h₂ := bulk_flat_le port
  have h₃ := bulk_flat_le user
  have h₄ := bulk_flat_le topic
  omega

theorem Names.length {names : List (List UInt8)} {listed : List Ssid} (h : Names names listed) :
    names.length = (listed.map (·.bytes)).dedup.length := by
  refine List.Perm.length_eq ((List.perm_ext_iff_of_nodup h.1 (List.nodup_dedup _)).mpr fun n => ?_)
  rw [h.2, List.mem_dedup, List.mem_map]

theorem zero_not_mem_of_unescaped {s : List UInt8} (h : Unescaped s) : 0 ∉ s :=
  fun hzero => (h 0 hzero).2.2 (by decide)

/-- Names that need no escape are copied as they are. -/
theorem Texts.names {texts : List (List UInt8)} {listed : List Ssid} (h : Texts texts listed)
    (hplain : ∀ s ∈ listed, Unescaped s.bytes) : Names texts listed := by
  refine ⟨h.nodup, fun n => (h.mem n).trans ?_⟩
  refine exists_congr fun s => and_congr_right fun hs => ?_
  rw [Ssid.text_eq_some, and_iff_right (h.readable s hs),
    CStrings.cText_eq_self (zero_not_mem_of_unescaped (hplain s hs)), eq_comm]

/-- Copied as C strings, the names are not worth more than they were. -/
theorem Texts.worth_le {texts names : List (List UInt8)} {listed : List Ssid}
    (h : Texts texts listed) (hn : Names names listed) :
    (texts.map fun t => 2 + bulk t).sum + (texts.length - 1) ≤
      (names.map fun n => 2 + bulk n).sum + (names.length - 1) := by
  have hsubset : texts ⊆ names.map CStrings.cText := fun t ht => by
    obtain ⟨s, hs, htext⟩ := (h.mem t).mp ht
    rw [(Ssid.text_eq_some.mp htext).2]
    exact List.mem_map_of_mem ((hn.2 _).mpr ⟨s, hs, rfl⟩)
  obtain ⟨kept, hperm, hsub⟩ := h.nodup.subperm hsubset
  have hlen := hsub.length_le
  rw [hperm.length_eq, List.length_map] at hlen
  have hsum : (texts.map fun t => 2 + bulk t).sum ≤ (names.map fun n => 2 + bulk n).sum :=
    calc (texts.map fun t => 2 + bulk t).sum
        = (kept.map fun t => 2 + bulk t).sum := (hperm.map _).sum_eq.symm
      _ ≤ ((names.map CStrings.cText).map fun t => 2 + bulk t).sum :=
          (hsub.map _).sum_le_sum fun _ _ => Nat.zero_le _
      _ = (names.map fun n => 2 + bulk (CStrings.cText n)).sum := by rw [List.map_map]; rfl
      _ ≤ (names.map fun n => 2 + bulk n).sum := List.sum_le_sum fun n _ =>
          Nat.add_le_add_left (((List.takeWhile_sublist _).map _).sum_le_sum
            fun _ _ => Nat.zero_le _) 2
  omega

namespace DeviceConfig

variable {dc : DeviceConfig} {wifi : WifiConfig} {mqtt : MqttConfig}

theorem mqtt_reported_iff (hmqtt : dc.getMqttConfig = some mqtt) :
    dc.MqttReported mqtt ↔ Unescaped mqtt.brokerAddress.chars ∧ Unescaped mqtt.username.chars ∧
      Unescaped mqtt.topic.chars := by
  have haddrFits := mqtt.brokerAddress.fits
  have huserFits := mqtt.username.fits
  have htopicFits := mqtt.topic.fits
  have hport : (ascii (toString (mqtt.port.toNat : ℤ))).length ≤ 11 := by
    have hlt := mqtt.port.toNat_lt
    exact length_intText_le (by omega) (by omega)
  have haddr : dc.mqttPart .addr 0 = some (mqtt.brokerAddress.chars, none) := by
    rw [mqttPart, handleMqttConfigResponse, hmqtt]
    rfl
  have hportPart : dc.mqttPart .port 0 = some (ascii (toString (mqtt.port.toNat : ℤ)), none) := by
    rw [mqttPart, handleMqttConfigResponse, hmqtt]
    rfl
  have huser : dc.mqttPart .user 0 = some (mqtt.username.chars, none) := by
    rw [mqttPart, handleMqttConfigResponse, hmqtt]
    rfl
  have htopic : dc.mqttPart .topic 0 = some (mqtt.topic.chars, none) := by
    rw [mqttPart, handleMqttConfigResponse, hmqtt, Option.map_some, List.take_of_length_le (by omega)]
  constructor
  · rintro ⟨addr, port, user, topic, haddrIn, hportIn, huserIn, htopicIn, hparse⟩
    obtain ⟨rfl, -⟩ := (inserted_once haddr).mp haddrIn
    obtain ⟨rfl, -⟩ := (inserted_once hportPart).mp hportIn
    obtain ⟨rfl, -⟩ := (inserted_once huser).mp huserIn
    obtain ⟨rfl, -⟩ := (inserted_once htopic).mp htopicIn
    have hcost := cost_of_parse_mqtt hparse
    have hdigits : bulk (ascii (toString (mqtt.port.toNat : ℤ))) = 0 := bulk_digits (intText_bytes _)
    have h₁ := bulk_le_cost mqtt.brokerAddress.chars
    have h₂ := bulk_le_cost mqtt.username.chars
    have h₃ := bulk_le_cost mqtt.topic.chars
    refine ⟨?_, ?_, ?_⟩ <;> refine unescaped_of_cost_le ?_ <;> omega
  · rintro ⟨haddrPlain, huserPlain, htopicPlain⟩
    exact ⟨_, _, _, _, (inserted_once haddr).mpr ⟨rfl, by omega⟩,
      (inserted_once hportPart).mpr ⟨rfl, by omega⟩, (inserted_once huser).mpr ⟨rfl, by omega⟩,
      (inserted_once htopic).mpr ⟨rfl, by omega⟩,
      parse_mqttJson haddrPlain huserPlain htopicPlain⟩

theorem wifi_reported_iff {w : WifiScanner} {scanner : UInt16 → WifiScanner} {listed : List Ssid}
    (hwifi : dc.getWifiConfig = some wifi) (hw : w.Asked scanner)
    (hlisted : Texts w.collectResults.ssids listed) :
    dc.WifiReported scanner wifi listed ↔ Unescaped wifi.ssid.chars ∧
      (∀ s ∈ listed, Unescaped s.bytes) ∧ (listed.map (·.bytes)).dedup.length ≤ 65536 := by
  have hfits := wifi.ssid.fits
  have hssid : dc.wifiPart scanner .ssid 0 = some (wifi.ssid.chars, none) := by
    rw [wifiPart, handleWifiConfigResponse, hwifi]
    rfl
  have hshort : ∀ t ∈ w.collectResults.ssids, t.length ≤ 32 := fun t ht => by
    obtain ⟨s, -, htext⟩ := (hlisted.mem t).mp ht
    exact Ssid.length_text_le htext
  have hlist : ∀ {text}, Inserted (dc.wifiPart scanner .ssidList) text ↔ _ :=
    inserted_ssidList hw hshort
  constructor
  · rintro ⟨ssid, ssidList, names, hssidIn, hlistIn, hnames, hparse⟩
    obtain ⟨rfl, -⟩ := (inserted_once hssid).mp hssidIn
    obtain ⟨hcount, rfl⟩ := hlist.mp hlistIn
    have hcost := cost_of_parse_wifi hparse
    rw [bulk_ssidList] at hcost
    have hworth := hlisted.worth_le hnames
    have h₁ := bulk_le_cost wifi.ssid.chars
    have h₂ : (names.map fun n => 2 + bulk n).sum ≤ (names.map fun n => 2 + (n.map cost).sum).sum :=
      List.sum_le_sum fun n _ => Nat.add_le_add_left (bulk_le_cost n) 2
    have hplain : ∀ s ∈ listed, Unescaped s.bytes := fun s hs => by
      by_contra hbad
      have hlt := List.sum_lt_sum (fun n => 2 + bulk n) (fun n => 2 + (n.map cost).sum)
        (fun n _ => Nat.add_le_add_left (bulk_le_cost n) 2)
        ⟨s.bytes, (hnames.2 _).mpr ⟨s, hs, rfl⟩, Nat.add_lt_add_left (bulk_lt_cost hbad) 2⟩
      omega
    refine ⟨unescaped_of_cost_le (by omega), hplain, ?_⟩
    rw [← (hlisted.names hplain).length]
    exact hcount
  · rintro ⟨hplain, hall, hcount⟩
    have hnames := hlisted.names hall
    have htexts : ∀ t ∈ w.collectResults.ssids, Unescaped t := fun t ht => by
      obtain ⟨s, hs, rfl⟩ := (hnames.2 t).mp ht
      exact hall s hs
    refine ⟨_, _, w.collectResults.ssids, (inserted_once hssid).mpr ⟨rfl, by omega⟩,
      hlist.mpr ⟨?_, rfl⟩, hnames, parse_wifiJson hplain htexts⟩
    rw [hnames.length]
    exact hcount

/-- Nothing that is stored and nothing that is shown has to be escaped, and each network that
is shown has a number of its own. -/
structure Showable (wifi : WifiConfig) (mqtt : MqttConfig) (listed : List Ssid) : Prop where
  ssid : Unescaped wifi.ssid.chars
  brokerAddress : Unescaped mqtt.brokerAddress.chars
  username : Unescaped mqtt.username.chars
  topic : Unescaped mqtt.topic.chars
  names : ∀ s ∈ listed, Unescaped s.bytes
  count : (listed.map (·.bytes)).dedup.length ≤ 65536

/-- After every run of the scanner, and whatever is heard while the responses are served,
they are read as the settings and the networks that were heard exactly when all names could
be copied and nothing has to be escaped. -/
theorem config_reported_iff (hwifi : dc.getWifiConfig = some wifi)
    (hmqtt : dc.getMqttConfig = some mqtt) (oneTimeScan : Bool) (es : List ScanEvent) :
    (∃ w, es.foldlM WifiScanner.step (.create oneTimeScan) = some w ∧
      ∀ scanner, w.Asked scanner →
        dc.WifiReported scanner wifi (ScanLog.shown oneTimeScan es) ∧ dc.MqttReported mqtt) ↔
      (∀ e ∈ es, e.Readable) ∧ Showable wifi mqtt (ScanLog.shown oneTimeScan es) := by
  obtain ⟨hruns, hlogs⟩ := (Logs.create oneTimeScan).run es
  have hwifiIff := fun (w : WifiScanner) hw scanner (hasked : w.Asked scanner) =>
    wifi_reported_iff hwifi hasked (hlogs w hw).collect.listed
  have hmqttIff := mqtt_reported_iff hmqtt
  constructor
  · rintro ⟨w, hw, hreported⟩
    obtain ⟨hwifiReported, hmqttReported⟩ := hreported _ w.asked_alone
    obtain ⟨hssid, hnames, hcount⟩ := (hwifiIff w hw _ w.asked_alone).mp hwifiReported
    obtain ⟨haddr, huser, htopic⟩ := hmqttIff.mp hmqttReported
    exact ⟨hruns.mp ⟨w, hw⟩, hssid, haddr, huser, htopic, hnames, hcount⟩
  · rintro ⟨hall, hshow⟩
    obtain ⟨w, hw⟩ := hruns.mpr hall
    exact ⟨w, hw, fun scanner hasked =>
      ⟨(hwifiIff w hw scanner hasked).mpr ⟨hshow.ssid, hshow.names, hshow.count⟩,
        hmqttIff.mpr ⟨hshow.brokerAddress, hshow.username, hshow.topic⟩⟩⟩

/-- The settings of a device in use, in a storage of one sector. -/
def inUse : DeviceConfig :=
  (oneSector.saveWifiConfig ⟨strlcpy 36 ssid_pos (ascii "home"), .empty password_pos⟩).saveMqttConfig
    ⟨strlcpy 16 brokerAddress_pos (ascii "10.0.0.2"), 1883, strlcpy 32 username_pos (ascii "pico"),
      .empty password_pos, strlcpy 128 topic_pos (ascii "homeassistant")⟩

/-- Two networks, one of them heard twice. -/
def twoNetworks : List ScanEvent :=
  [.result (some ⟨ascii "home", by decide +kernel, by decide +kernel⟩),
    .result (some ⟨ascii "cafe", by decide +kernel, by decide +kernel⟩), .result none,
    .result (some ⟨ascii "home", by decide +kernel, by decide +kernel⟩), .scanOver]

theorem config_reported_inUse : ∃ wifi mqtt w, inUse.getWifiConfig = some wifi ∧
    inUse.getMqttConfig = some mqtt ∧
    twoNetworks.foldlM WifiScanner.step (.create true) = some w ∧
    ∀ scanner, w.Asked scanner →
      inUse.WifiReported scanner wifi (ScanLog.shown true twoNetworks) ∧ inUse.MqttReported mqtt := by
  have hwifi : inUse.getWifiConfig = some
      ⟨strlcpy 36 (by decide) (ascii "home"), .empty (by decide)⟩ := by decide +kernel
  have hmqtt : inUse.getMqttConfig = some ⟨strlcpy 16 (by decide) (ascii "10.0.0.2"), 1883,
      strlcpy 32 (by decide) (ascii "pico"), .empty (by decide),
      strlcpy 128 (by decide) (ascii "homeassistant")⟩ := by decide +kernel
  obtain ⟨w, hw, hreported⟩ := (config_reported_iff hwifi hmqtt true twoNetworks).mpr ⟨by
    simp only [twoNetworks, List.forall_mem_cons, List.not_mem_nil, false_imp_iff, implies_true,
      ScanEvent.Readable, Ssid.Terminated, and_true, true_and]
    decide +kernel, by decide +kernel, by decide +kernel, by decide +kernel, by decide +kernel,
    by decide +kernel, by decide +kernel⟩
  exact ⟨_, _, w, hwifi, hmqtt, hw, hreported⟩

end DeviceConfig

/-- A quote in the name of the network ends the string that shows it. -/
theorem quoted_ssid_not_reported : ∃ d s' wifi,
    Device.freshDevice DeviceConfig.formatted false (fun _ => ⟨⟨0, 0, 0, 0⟩, 0⟩) = some d ∧
    (Service.mk d .create).onConfigure (query [("mode", "wifi"), ("ssid", "a\"b"),
      ("password", "p")]) = some (s', true) ∧
    s'.device.config.getWifiConfig = some wifi ∧ wifi.ssid.chars = ascii "a\"b" ∧
    ∀ scanner, (WifiScanner.create true).Asked scanner →
      ¬s'.device.config.WifiReported scanner wifi [] := by
  have hany : (Device.freshDevice DeviceConfig.formatted false fun _ => ⟨⟨0, 0, 0, 0⟩, 0⟩).any
      (fun d => ((Service.mk d .create).onConfigure (query [("mode", "wifi"), ("ssid", "a\"b"),
        ("password", "p")])).any fun r => r.2 && r.1.device.config.getWifiConfig.any
          fun wifi => decide (wifi.ssid.chars = ascii "a\"b")) = true := by
    decide +kernel
  obtain ⟨d, hd, hrest⟩ := (Option.any_eq_true _ _).mp hany
  obtain ⟨⟨s', answer⟩, hs', hstored⟩ := (Option.any_eq_true _ _).mp hrest
  obtain ⟨hyes, hwifi⟩ := Bool.and_eq_true_iff.mp hstored
  obtain rfl : answer = true := hyes
  obtain ⟨wifi, hget, hchars⟩ := (Option.any_eq_true _ _).mp hwifi
  have hssid := of_decide_eq_true hchars
  refine ⟨d, s', wifi, hd, hs', hget, hssid, fun scanner hasked hreported => ?_⟩
  have hplain := ((DeviceConfig.wifi_reported_iff hget hasked texts_nil).mp hreported).1
  rw [hssid] at hplain
  exact absurd hplain (by decide +kernel)

end PicoSomfy
