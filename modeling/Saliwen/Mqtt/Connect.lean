import Saliwen.Mqtt.Acknowledge

/-!
# CONNECT packets

`MQTTSerialize_connect` of the client and `MQTTDeserialize_connect` of the server half of the
library. The main result says which packets of the client the server half takes, and that it
then reads all the options back.
-/

namespace Saliwen.Mqtt

open CJson (Bytes)

/-- `MQTTPacket_willOptions`. -/
structure WillOptions where
  topicName : MQTTString
  message : MQTTString
  retained : ℕ
  qos : ℕ

/-- `MQTTPacket_connectData`. -/
structure ConnectData where
  mqttVersion : ℕ
  clientID : MQTTString
  keepAliveInterval : ℕ
  cleansession : ℕ
  willFlag : ℕ
  will : WillOptions
  username : MQTTString
  password : MQTTString

/-- One of the two pointers of a string is set. -/
def MQTTString.isSet (s : MQTTString) : Bool := s.cstring.isSome || s.lenstring.isSome

/-- The byte of `MQTTConnectFlags`. -/
def connectFlags (cleansession will willQoS willRetain password username : ℕ) : UInt8 :=
  UInt8.ofNat (cleansession % 2 * 2 + will % 2 * 4 + willQoS % 4 * 8 + willRetain % 2 * 32 +
    password % 2 * 64 + username % 2 * 128)

/-- `MQTTSerialize_connectLength`. -/
def mqttSerializeConnectLength (options : ConnectData) : ℕ :=
  (if options.mqttVersion = 3 then 12 else if options.mqttVersion = 4 then 10 else 0) +
    (mqttStrlen options.clientID + 2) +
    (if options.willFlag ≠ 0 then
      mqttStrlen options.will.topicName + 2 + mqttStrlen options.will.message + 2 else 0) +
    (if options.username.isSet then mqttStrlen options.username + 2 else 0) +
    (if options.password.isSet then mqttStrlen options.password + 2 else 0)

/-- The protocol name "MQTT". -/
def protocolMQTT : Bytes := [77, 81, 84, 84]

/-- The protocol name "MQIsdp". -/
def protocolMQIsdp : Bytes := [77, 81, 73, 115, 100, 112]

/-- The flags that the serializer sets. -/
def ConnectData.flags (options : ConnectData) : UInt8 :=
  connectFlags options.cleansession (if options.willFlag ≠ 0 then 1 else 0)
    (if options.willFlag ≠ 0 then options.will.qos else 0)
    (if options.willFlag ≠ 0 then options.will.retained else 0)
    options.password.isSet.toNat options.username.isSet.toNat

/-- What the serializer writes behind the remaining length. -/
def ConnectData.body (options : ConnectData) : Bytes :=
  (if options.mqttVersion = 4 then writeCString protocolMQTT ++ [4]
    else writeCString protocolMQIsdp ++ [3]) ++
  ([options.flags] ++ (writeInt options.keepAliveInterval ++
  (writeMQTTString options.clientID ++
  ((if options.willFlag ≠ 0 then
      writeMQTTString options.will.topicName ++ writeMQTTString options.will.message else []) ++
  ((if options.username.isSet then writeMQTTString options.username else []) ++
  (if options.password.isSet then writeMQTTString options.password else []))))))

/-- `MQTTSerialize_connect`: the return value and the bytes written to the buffer. -/
def mqttSerializeConnect (buflen : ℕ) (options : ConnectData) : ℤ × Bytes :=
  let len := mqttSerializeConnectLength options
  if buflen < mqttPacketLen len then (-2, [])
  else
    let written := headerByte 1 0 0 0 :: (mqttPacketEncode len ++ options.body)
    (written.length, written)

/-! ## The server half -/

/-- What `MQTTDeserialize_connect` fills in; the strings are pointers into the buffer. -/
structure ConnectRead where
  cleansession : ℕ
  keepAliveInterval : ℕ
  clientID : LenString
  willFlag : ℕ
  willQos : ℕ
  willRetained : ℕ
  willTopicName : LenString
  willMessage : LenString
  username : LenString
  password : LenString
  deriving DecidableEq, Repr

/-- `MQTTPacket_checkVersion`: only as many bytes are compared as the name has. -/
def mqttPacketCheckVersion (protocol : Bytes) (version : ℕ) : Bool :=
  (version = 3 && protocol.take 6 = protocolMQIsdp.take protocol.length) ||
    (version = 4 && protocol.take 4 = protocolMQTT.take protocol.length)

/-- The part of `MQTTDeserialize_connect` for the will. -/
def readWill (flags : ℕ) (buf : Bytes) (enddata : ℕ) (data : ConnectRead) (curdata : ℕ) :
    Option (Bool × ConnectRead × ℕ) := do
  let data := { data with willFlag := flags / 4 % 2 }
  if flags / 4 % 2 = 0 then return (true, data, curdata)
  let data := { data with willQos := flags / 8 % 4, willRetained := flags / 32 % 2 }
  let (ok, topicName, curdata) ← readMQTTLenString data.willTopicName buf curdata enddata
  let data := { data with willTopicName := topicName }
  if ok = false then return (false, data, curdata)
  let (ok, message, curdata) ← readMQTTLenString data.willMessage buf curdata enddata
  return (ok, { data with willMessage := message }, curdata)

/-- The part of `MQTTDeserialize_connect` for user name and password. -/
def readCredentials (flags : ℕ) (buf : Bytes) (enddata : ℕ) (data : ConnectRead) (curdata : ℕ) :
    Option (ℤ × ConnectRead) := do
  if flags / 128 % 2 = 0 then return (if flags / 64 % 2 = 0 then 1 else 0, data)
  if enddata < curdata + 3 then return (0, data)
  let (ok, username, curdata) ← readMQTTLenString data.username buf curdata enddata
  let data := { data with username }
  if ok = false then return (0, data)
  if flags / 64 % 2 = 0 then return (1, data)
  if enddata < curdata + 3 then return (0, data)
  let (ok, password, _) ← readMQTTLenString data.password buf curdata enddata
  return (if ok then 1 else 0, { data with password })

/-- `MQTTDeserialize_connect`: the return value and the caller's structure. -/
def mqttDeserializeConnect (old : ConnectRead) (buf : Bytes) (len : ℕ) :
    Option (ℤ × ConnectRead) := do
  let (header, curdata) ← readChar buf 0
  if headerType header ≠ 1 then return (0, old)
  let (rc, _) ← mqttPacketDecodeBuf buf curdata
  let (ok, protocol, curdata) ← readMQTTLenString ⟨0, 0⟩ buf (curdata + rc) len
  if ok = false ∨ len < curdata then return (0, old)
  let (version, curdata) ← readChar buf curdata
  if mqttPacketCheckVersion (protocol.text buf) version.toNat = false then return (0, old)
  let (flags, curdata) ← readChar buf curdata
  let (keepAliveInterval, curdata) ← readInt buf curdata
  let data := { old with cleansession := flags.toNat / 2 % 2, keepAliveInterval }
  let (ok, clientID, curdata) ← readMQTTLenString data.clientID buf curdata len
  let data := { data with clientID }
  if ok = false then return (0, data)
  let (ok, data, curdata) ← readWill flags.toNat buf len data curdata
  if ok = false then return (0, data)
  readCredentials flags.toNat buf len data curdata

/-! ## Reading along a buffer -/

/-- An integer at a pointer. -/
theorem readInt_of_drop {buf after : Bytes} {p n : ℕ} (hn : n < 65536)
    (h : buf.drop p = writeInt n ++ after) :
    readInt buf p = some (n, p + 2) ∧ buf.drop (p + 2) = after := by
  have hread := readInt_writeInt hn (buf.take p) after
  have hp : p ≤ buf.length := by
    by_contra hlong
    rw [List.drop_eq_nil_of_le (by omega)] at h
    simp [writeInt] at h
  rw [List.append_assoc, ← h, List.take_append_drop, List.length_take_of_le hp] at hread
  refine ⟨hread, ?_⟩
  rw [← List.drop_drop, h]
  rfl

/-- A string at a pointer. -/
theorem readMQTTLenString_of_drop (old : LenString) {buf after : Bytes} {p enddata : ℕ}
    {s : MQTTString} (hplain : s.Plain) (hshort : s.text.length < 65536)
    (h : buf.drop p = writeMQTTString s ++ after) (hend : p + 2 + s.text.length ≤ enddata) :
    ∃ l : LenString, l.text buf = s.text ∧
      readMQTTLenString old buf p enddata = some (true, l, p + 2 + s.text.length) ∧
      buf.drop (p + 2 + s.text.length) = after := by
  rw [writeMQTTString_eq hplain, List.append_assoc] at h
  obtain ⟨hread, hdrop⟩ := readInt_of_drop hshort h
  refine ⟨⟨s.text.length, p + 2⟩, ?_, ?_, ?_⟩
  · rw [LenString.text, hdrop, List.take_left]
  · unfold readMQTTLenString
    rw [if_pos (by omega), hread]
    simp only [Option.bind_eq_bind, Option.bind_some]
    rw [if_pos hend]
    rfl
  · rw [← List.drop_drop, hdrop, List.drop_left]

/-! ## Round trip -/

/-- The strings of the options. -/
def ConnectData.strings (options : ConnectData) : List MQTTString :=
  [options.clientID, options.will.topicName, options.will.message, options.username,
    options.password]

/-- Options that can be put into a packet: a version that the serializer knows, strings with
one representation and a length of two bytes, and an interval of two bytes. -/
structure ConnectData.Sendable (options : ConnectData) : Prop where
  version : options.mqttVersion = 3 ∨ options.mqttVersion = 4
  plain : ∀ s ∈ options.strings, s.Plain
  short : ∀ s ∈ options.strings, s.text.length < 65536
  interval : options.keepAliveInterval < 65536

/-- The server half takes no password without a user name, no empty password, and an empty
user name only with a password behind it. -/
def ConnectData.CredentialsOk (options : ConnectData) : Prop :=
  if options.username.isSet then
    (options.username.text = [] → options.password.isSet) ∧
      (options.password.isSet → options.password.text ≠ [])
  else options.password.isSet = false

/-- The options are read back; what is not in the packet is left out. -/
structure ConnectRead.Holds (data : ConnectRead) (buf : Bytes) (options : ConnectData) : Prop where
  cleansession : data.cleansession = options.cleansession % 2
  keepAliveInterval : data.keepAliveInterval = options.keepAliveInterval
  clientID : data.clientID.text buf = options.clientID.text
  willFlag : data.willFlag = if options.willFlag ≠ 0 then 1 else 0
  will : options.willFlag ≠ 0 → data.willQos = options.will.qos % 4 ∧
    data.willRetained = options.will.retained % 2 ∧
    data.willTopicName.text buf = options.will.topicName.text ∧
    data.willMessage.text buf = options.will.message.text
  username : options.username.isSet → data.username.text buf = options.username.text
  password : options.password.isSet → data.password.text buf = options.password.text

/-- The flags of a CONNECT as a number. -/
theorem connectFlags_toNat (cleansession will willQoS willRetain password username : ℕ) :
    (connectFlags cleansession will willQoS willRetain password username).toNat =
      cleansession % 2 * 2 + will % 2 * 4 + willQoS % 4 * 8 + willRetain % 2 * 32 +
        password % 2 * 64 + username % 2 * 128 := by
  rw [connectFlags, UInt8.toNat_ofNat']
  omega

/-- A string is written with two bytes for its length. -/
theorem writeMQTTString_length {s : MQTTString} (h : s.Plain) :
    (writeMQTTString s).length = 2 + s.text.length := by
  rw [writeMQTTString_eq h, List.length_append]
  rfl

/-- The length of the body, part by part. -/
theorem ConnectData.Sendable.body_parts {options : ConnectData} (h : options.Sendable) :
    options.body.length = (if options.mqttVersion = 4 then writeCString protocolMQTT ++ [4]
        else writeCString protocolMQIsdp ++ [3]).length + 3 + (2 + options.clientID.text.length) +
      (if options.willFlag ≠ 0 then
        4 + options.will.topicName.text.length + options.will.message.text.length else 0) +
      (if options.username.isSet then 2 + options.username.text.length else 0) +
      (if options.password.isSet then 2 + options.password.text.length else 0) := by
  have hclient := writeMQTTString_length (h.plain options.clientID (by simp [strings]))
  have htopic := writeMQTTString_length (h.plain options.will.topicName (by simp [strings]))
  have hmessage := writeMQTTString_length (h.plain options.will.message (by simp [strings]))
  have huser := writeMQTTString_length (h.plain options.username (by simp [strings]))
  have hpassword := writeMQTTString_length (h.plain options.password (by simp [strings]))
  have hint : (writeInt options.keepAliveInterval).length = 2 := rfl
  unfold ConnectData.body
  generalize (if options.mqttVersion = 4 then writeCString protocolMQTT ++ [4]
    else writeCString protocolMQIsdp ++ [3]) = protocol
  simp only [List.length_append, List.length_singleton, hint, hclient]
  split_ifs <;> simp only [List.length_append, List.length_nil, htopic, hmessage, huser,
    hpassword] <;> omega

/-- For the versions it knows, the serializer announces the length that it writes. -/
theorem ConnectData.Sendable.body_length {options : ConnectData} (h : options.Sendable) :
    options.body.length = mqttSerializeConnectLength options := by
  have hprotocol : (if options.mqttVersion = 3 then 12
      else if options.mqttVersion = 4 then 10 else 0) =
      (if options.mqttVersion = 4 then writeCString protocolMQTT ++ [4]
        else writeCString protocolMQIsdp ++ [3]).length + 3 := by
    rcases h.version with hv | hv <;> rw [hv] <;> decide
  rw [h.body_parts, mqttSerializeConnectLength, hprotocol]
  simp only [mqttStrlen_eq]
  split_ifs <;> omega

/-- What is read of the will. -/
theorem readWill_of_drop {options : ConnectData} (h : options.Sendable) {buf after : Bytes}
    {p enddata : ℕ} (data : ConnectRead)
    (hdrop : buf.drop p = (if options.willFlag ≠ 0 then
      writeMQTTString options.will.topicName ++ writeMQTTString options.will.message else []) ++
        after)
    (hend : p + (if options.willFlag ≠ 0 then
      4 + options.will.topicName.text.length + options.will.message.text.length else 0) ≤ enddata) :
    ∃ (topicName message : LenString) (p' : ℕ),
      readWill options.flags.toNat buf enddata data p = some (true, if options.willFlag ≠ 0 then
        { data with
          willFlag := 1, willQos := options.will.qos % 4
          willRetained := options.will.retained % 2
          willTopicName := topicName, willMessage := message }
        else { data with willFlag := 0 }, p') ∧
      (options.willFlag ≠ 0 → topicName.text buf = options.will.topicName.text ∧
        message.text buf = options.will.message.text) ∧
      p' = p + (if options.willFlag ≠ 0 then
        4 + options.will.topicName.text.length + options.will.message.text.length else 0) ∧
      buf.drop p' = after := by
  have hflags := connectFlags_toNat options.cleansession (if options.willFlag ≠ 0 then 1 else 0)
    (if options.willFlag ≠ 0 then options.will.qos else 0)
    (if options.willFlag ≠ 0 then options.will.retained else 0)
    options.password.isSet.toNat options.username.isSet.toNat
  unfold readWill ConnectData.flags
  rw [hflags]
  by_cases hwill : options.willFlag ≠ 0
  · simp only [if_pos hwill] at hdrop hend ⊢
    rw [List.append_assoc] at hdrop
    obtain ⟨topicName, htopic, hread, hnext⟩ := readMQTTLenString_of_drop data.willTopicName
      (h.plain options.will.topicName (by simp [ConnectData.strings]))
      (h.short options.will.topicName (by simp [ConnectData.strings])) hdrop
      (show p + 2 + options.will.topicName.text.length ≤ enddata by omega)
    obtain ⟨message, hmessage, hread', hnext'⟩ := readMQTTLenString_of_drop data.willMessage
      (h.plain options.will.message (by simp [ConnectData.strings]))
      (h.short options.will.message (by simp [ConnectData.strings])) hnext
      (show p + 2 + options.will.topicName.text.length + 2 + options.will.message.text.length ≤
        enddata by omega)
    refine ⟨topicName, message, _, ?_, fun _ => ⟨htopic, hmessage⟩, ?_, hnext'⟩
    · generalize hall : options.cleansession % 2 * 2 + 1 % 2 * 4 + options.will.qos % 4 * 8 +
        options.will.retained % 2 * 32 + options.password.isSet.toNat % 2 * 64 +
        options.username.isSet.toNat % 2 * 128 = flags
      have hbit : flags / 4 % 2 = 1 := by omega
      have hqos : flags / 8 % 4 = options.will.qos % 4 := by omega
      have hretained : flags / 32 % 2 = options.will.retained % 2 := by omega
      rw [hbit, hqos, hretained, hread]
      simp only [one_ne_zero, if_false, Option.bind_eq_bind, Option.bind_some,
        Bool.true_eq_false]
      rw [hread']
      rfl
    · omega
  · simp only [if_neg hwill] at hdrop hend ⊢
    refine ⟨⟨0, 0⟩, ⟨0, 0⟩, p, ?_, fun hset => absurd hset hwill, rfl, by simpa using hdrop⟩
    generalize hall : options.cleansession % 2 * 2 + 0 % 2 * 4 + 0 % 4 * 8 + 0 % 2 * 32 +
      options.password.isSet.toNat % 2 * 64 + options.username.isSet.toNat % 2 * 128 = flags
    have hbit : flags / 4 % 2 = 0 := by omega
    rw [hbit]
    rfl

/-- The two flags of the credentials. -/
theorem flags_credentials (options : ConnectData) :
    options.flags.toNat / 64 % 2 = options.password.isSet.toNat ∧
      options.flags.toNat / 128 % 2 = options.username.isSet.toNat := by
  rw [ConnectData.flags, connectFlags_toNat]
  have huser := Bool.toNat_lt options.username.isSet
  have hpassword := Bool.toNat_lt options.password.isSet
  omega

/-- What is read of user name and password, at the end of the packet. -/
theorem readCredentials_of_drop {options : ConnectData} (h : options.Sendable)
    {buf rest : Bytes} {p enddata : ℕ} (data : ConnectRead)
    (hdrop : buf.drop p =
      (if options.username.isSet then writeMQTTString options.username else []) ++
        ((if options.password.isSet then writeMQTTString options.password else []) ++ rest))
    (hend : p + (if options.username.isSet then 2 + options.username.text.length else 0) +
      (if options.password.isSet then 2 + options.password.text.length else 0) = enddata) :
    ∃ (rc : ℤ) (username password : LenString),
      readCredentials options.flags.toNat buf enddata data p =
        some (rc, { data with username, password }) ∧
      (rc = 1 ↔ options.CredentialsOk) ∧
      (rc = 1 → (options.username.isSet → username.text buf = options.username.text) ∧
        (options.password.isSet → password.text buf = options.password.text)) := by
  obtain ⟨hpassword, husername⟩ := flags_credentials options
  have huserPlain := h.plain options.username (by simp [ConnectData.strings])
  have huserShort := h.short options.username (by simp [ConnectData.strings])
  have hpassPlain := h.plain options.password (by simp [ConnectData.strings])
  have hpassShort := h.short options.password (by simp [ConnectData.strings])
  unfold readCredentials ConnectData.CredentialsOk
  rw [hpassword, husername]
  cases huser : options.username.isSet with
  | false =>
    refine ⟨if options.password.isSet.toNat = 0 then 1 else 0, data.username, data.password, rfl,
      ?_, ?_⟩
    · cases options.password.isSet <;> simp
    · cases options.password.isSet <;> simp
  | true =>
    simp only [huser, if_true] at hdrop hend ⊢
    simp only [Bool.toNat_true, one_ne_zero, if_false]
    by_cases hroom : enddata < p + 3
    · -- nothing but an empty user name is left
      refine ⟨0, data.username, data.password, by rw [if_pos hroom]; rfl, ?_, by simp⟩
      cases hpass : options.password.isSet with
      | true =>
        rw [hpass, if_pos rfl] at hend
        omega
      | false =>
        rw [hpass] at hend
        have hempty : options.username.text = [] := by
          apply List.eq_nil_of_length_eq_zero
          simp only [Bool.false_eq_true, if_false] at hend
          omega
        simp [hempty]
    · rw [if_neg hroom]
      obtain ⟨username, htext, hread, hnext⟩ := readMQTTLenString_of_drop data.username huserPlain
        huserShort hdrop (show p + 2 + options.username.text.length ≤ enddata by omega)
      rw [hread]
      simp only [Option.bind_eq_bind, Option.bind_some, Bool.true_eq_false, if_false]
      cases hpass : options.password.isSet with
      | false =>
        simp only [hpass, Bool.false_eq_true, if_false] at hend
        have hname : options.username.text ≠ [] := by
          intro hempty
          rw [hempty, List.length_nil] at hend
          omega
        exact ⟨1, username, data.password, rfl, by simp [hname], by simp [htext]⟩
      | true =>
        simp only [hpass, if_true] at hend hnext
        simp only [Bool.toNat_true, one_ne_zero, if_false]
        by_cases hroom' : enddata < p + 2 + options.username.text.length + 3
        · have hempty : options.password.text = [] := by
            apply List.eq_nil_of_length_eq_zero
            omega
          refine ⟨0, username, data.password, by rw [if_pos hroom']; rfl, ?_, by simp⟩
          simp [hempty]
        · have hfull : options.password.text ≠ [] := by
            intro hempty
            rw [hempty, List.length_nil] at hend
            omega
          rw [if_neg hroom']
          obtain ⟨password, htext', hread', -⟩ := readMQTTLenString_of_drop data.password
            hpassPlain hpassShort hnext (show p + 2 + options.username.text.length + 2 +
              options.password.text.length ≤ enddata by omega)
          rw [hread']
          exact ⟨1, username, password, rfl, by simp [hfull], by simp [htext, htext']⟩

/-- A protocol name and a version that are read. -/
structure ProtocolRead (buf : Bytes) (p enddata : ℕ) (written after : Bytes)
    (protocol : LenString) (version : UInt8) (p' : ℕ) : Prop where
  readName : readMQTTLenString ⟨0, 0⟩ buf p enddata = some (true, protocol, p')
  inside : p' ≤ enddata
  readVersion : readChar buf p' = some (version, p' + 1)
  check : mqttPacketCheckVersion (protocol.text buf) version.toNat = true
  length : p' + 1 = p + written.length
  drop : buf.drop (p' + 1) = after

/-- The protocol name and version are read and checked. -/
theorem readProtocol_name {buf after name : Bytes} {p enddata : ℕ} {version : UInt8}
    (hplain : CJson.cString name = name) (hlength : name.length ≤ 6)
    (hcheck : mqttPacketCheckVersion name version.toNat = true)
    (hdrop : buf.drop p = writeCString name ++ [version] ++ after) (hend : p + 9 ≤ enddata) :
    ∃ protocol version' p', ProtocolRead buf p enddata (writeCString name ++ [version]) after
      protocol version' p' := by
  have hname : MQTTString.text ⟨some name, none⟩ = name := hplain
  rw [List.append_assoc] at hdrop
  obtain ⟨protocol, htext, hread, hnext⟩ := readMQTTLenString_of_drop ⟨0, 0⟩
    (s := ⟨some name, none⟩) (Or.inr rfl) (by rw [hname]; omega) hdrop
    (show p + 2 + (MQTTString.text ⟨some name, none⟩).length ≤ enddata by rw [hname]; omega)
  rw [hname] at htext hread hnext
  obtain ⟨hchar, hrest⟩ := readChar_of_drop hnext
  refine ⟨protocol, version, _, hread, by omega, hchar, by rw [htext]; exact hcheck, ?_, hrest⟩
  simp only [writeCString, writeInt, hplain, List.length_append, List.length_cons,
    List.length_nil]
  omega

/-- Protocol name and version as the serializer writes them. -/
theorem readProtocol_of_drop {options : ConnectData} (h : options.Sendable) {buf after : Bytes}
    {p enddata : ℕ}
    (hdrop : buf.drop p = (if options.mqttVersion = 4 then writeCString protocolMQTT ++ [4]
      else writeCString protocolMQIsdp ++ [3]) ++ after)
    (hend : p + 9 ≤ enddata) :
    ∃ protocol version p', ProtocolRead buf p enddata
      (if options.mqttVersion = 4 then writeCString protocolMQTT ++ [4]
        else writeCString protocolMQIsdp ++ [3]) after protocol version p' := by
  rcases h.version with hv | hv
  · rw [if_neg (by omega)] at hdrop ⊢
    exact readProtocol_name (by decide) (by decide) (by decide) hdrop hend
  · rw [if_pos hv] at hdrop ⊢
    exact readProtocol_name (by decide) (by decide) (by decide) hdrop hend

/-- The server half takes a CONNECT of the client exactly when the credentials are as it wants
them, and then it has read all the options. -/
theorem mqttDeserializeConnect_mqttSerializeConnect (old : ConnectRead) {options : ConnectData}
    (h : options.Sendable) {buflen : ℕ}
    (hfits : mqttPacketLen (mqttSerializeConnectLength options) ≤ buflen) (rest : Bytes) :
    ∃ rc data, mqttDeserializeConnect old ((mqttSerializeConnect buflen options).2 ++ rest)
        (mqttSerializeConnect buflen options).2.length = some (rc, data) ∧
      (rc = 1 ↔ options.CredentialsOk) ∧
      (rc = 1 → data.Holds ((mqttSerializeConnect buflen options).2 ++ rest) options) := by
  have hwritten : (mqttSerializeConnect buflen options).2 =
      frame (headerByte 1 0 0 0) options.body := by
    unfold mqttSerializeConnect
    rw [if_neg (by omega), frame, h.body_length]
  have hbody := h.body_length
  have hmax : options.body.length < 2 ^ 28 := by
    have hclient := h.short options.clientID (by simp [ConnectData.strings])
    have htopic := h.short options.will.topicName (by simp [ConnectData.strings])
    have hmessage := h.short options.will.message (by simp [ConnectData.strings])
    have huser := h.short options.username (by simp [ConnectData.strings])
    have hpass := h.short options.password (by simp [ConnectData.strings])
    rw [hbody, mqttSerializeConnectLength]
    simp only [mqttStrlen_eq]
    split_ifs <;> omega
  have hdrop := frame_drop (headerByte 1 0 0 0) options.body rest
  have hlength : (frame (headerByte 1 0 0 0) options.body).length =
      bodyStart options.body + options.body.length := frame_length ..
  rw [hwritten, hlength]
  have hchar := readChar_frame (headerByte 1 0 0 0) options.body rest
  have hdecode := mqttPacketDecodeBuf_frame (headerByte 1 0 0 0) rest hmax
  generalize frame (headerByte 1 0 0 0) options.body ++ rest = buf at hdrop hchar hdecode ⊢
  have hparts := h.body_parts
  have hprotocol : 7 ≤ (if options.mqttVersion = 4 then writeCString protocolMQTT ++ [4]
      else writeCString protocolMQIsdp ++ [3]).length := by
    split_ifs <;> decide
  generalize hstart : bodyStart options.body = start at hdrop ⊢
  generalize hend : start + options.body.length = enddata
  unfold ConnectData.body at hdrop
  simp only [List.append_assoc] at hdrop
  -- one part after the other, each with what is left behind it
  obtain ⟨protocol, version, p₁, hread₁⟩ := readProtocol_of_drop h hdrop
    (show start + 9 ≤ enddata by omega)
  have hlength₁ := hread₁.length
  obtain ⟨hflags, hdrop₂⟩ := readChar_of_drop hread₁.drop
  obtain ⟨hinterval, hdrop₃⟩ := readInt_of_drop h.interval hdrop₂
  obtain ⟨clientID, hclient, hread₄, hdrop₄⟩ := readMQTTLenString_of_drop old.clientID
    (h.plain options.clientID (by simp [ConnectData.strings]))
    (h.short options.clientID (by simp [ConnectData.strings])) hdrop₃
    (show p₁ + 1 + 1 + 2 + 2 + options.clientID.text.length ≤ enddata by omega)
  have hroom : p₁ + 1 + 1 + 2 + 2 + options.clientID.text.length + (if options.willFlag ≠ 0 then
      4 + options.will.topicName.text.length + options.will.message.text.length else 0) ≤
      enddata := by omega
  generalize hdata : ({ old with
    cleansession := options.flags.toNat / 2 % 2
    keepAliveInterval := options.keepAliveInterval
    clientID := clientID } : ConnectRead) = data
  obtain ⟨topicName, message, p₅, hread₅, hwill, hp₅, hdrop₅⟩ := readWill_of_drop h data hdrop₄
    hroom
  generalize hdata₅ : (if options.willFlag ≠ 0 then { data with
      willFlag := 1, willQos := options.will.qos % 4
      willRetained := options.will.retained % 2
      willTopicName := topicName, willMessage := message }
    else { data with willFlag := 0 }) = data₅ at hread₅
  obtain ⟨rc, username, password, hread₆, hrc, htexts⟩ := readCredentials_of_drop h data₅ hdrop₅
    (show p₅ + (if options.username.isSet then 2 + options.username.text.length else 0) +
      (if options.password.isSet then 2 + options.password.text.length else 0) = enddata by omega)
  refine ⟨rc, { data₅ with username, password }, ?_, hrc, fun hsuccess => ?_⟩
  · unfold mqttDeserializeConnect
    rw [hchar]
    simp only [Option.bind_eq_bind, Option.bind_some, headerType_headerByte]
    rw [if_neg (by decide), hdecode]
    simp only [Option.bind_some]
    rw [bodyStart_eq, hstart, hread₁.readName]
    simp only [Option.bind_some, Bool.true_eq_false, false_or]
    rw [if_neg (by have := hread₁.inside; omega), hread₁.readVersion]
    simp only [Option.bind_some]
    rw [if_neg (by rw [hread₁.check]; decide), hflags]
    simp only [Option.bind_some]
    rw [hinterval]
    simp only [Option.bind_some]
    rw [hread₄]
    simp only [Option.bind_some, Bool.true_eq_false, if_false]
    rw [hdata, hread₅]
    simp only [Option.bind_some, Bool.true_eq_false, if_false]
    exact hread₆
  · obtain ⟨huser, hpass⟩ := htexts hsuccess
    have hclean : options.flags.toNat / 2 % 2 = options.cleansession % 2 := by
      rw [ConnectData.flags, connectFlags_toNat]
      omega
    by_cases hflag : options.willFlag ≠ 0
    · obtain ⟨htopic, hmessage⟩ := hwill hflag
      rw [if_pos hflag] at hdata₅
      subst hdata₅ hdata
      exact ⟨hclean, rfl, hclient, by rw [if_pos hflag], fun _ => ⟨rfl, rfl, htopic, hmessage⟩,
        huser, hpass⟩
    · rw [if_neg hflag] at hdata₅
      subst hdata₅ hdata
      exact ⟨hclean, rfl, hclient, by rw [if_neg hflag], fun hset => absurd hset hflag,
        huser, hpass⟩

/-- The options of a client called "dev" that logs in as "u" with the password "p". -/
def loginOptions : ConnectData where
  mqttVersion := 4
  clientID := ⟨some [100, 101, 118], none⟩
  keepAliveInterval := 100
  cleansession := 0
  willFlag := 0
  will := ⟨⟨none, none⟩, ⟨none, none⟩, 0, 0⟩
  username := ⟨some [117], none⟩
  password := ⟨some [112], none⟩

/-- A client with a name and a password logs in. -/
theorem mqttDeserializeConnect_loginOptions :
    loginOptions.Sendable ∧ mqttPacketLen (mqttSerializeConnectLength loginOptions) ≤ 1024 ∧
      ∃ rc data, mqttDeserializeConnect ⟨0, 0, ⟨0, 0⟩, 0, 0, 0, ⟨0, 0⟩, ⟨0, 0⟩, ⟨0, 0⟩, ⟨0, 0⟩⟩
          ((mqttSerializeConnect 1024 loginOptions).2 ++ [])
          (mqttSerializeConnect 1024 loginOptions).2.length = some (rc, data) ∧
        (rc = 1 ↔ loginOptions.CredentialsOk) ∧
        (rc = 1 → data.Holds ((mqttSerializeConnect 1024 loginOptions).2 ++ []) loginOptions) := by
  have hsendable : loginOptions.Sendable := by
    refine ⟨Or.inr rfl, ?_, ?_, by decide⟩
    · simp [ConnectData.strings, loginOptions, MQTTString.Plain,
        MQTTString.lenstringText]
    · simp [ConnectData.strings, loginOptions, MQTTString.text,
        MQTTString.lenstringText, CJson.cString]
  have hfits : mqttPacketLen (mqttSerializeConnectLength loginOptions) ≤ 1024 := by decide
  exact ⟨hsendable, hfits, mqttDeserializeConnect_mqttSerializeConnect _ hsendable hfits []⟩

end Saliwen.Mqtt
