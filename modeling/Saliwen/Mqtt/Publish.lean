import Saliwen.Mqtt.Packet

/-!
# PUBLISH packets

`MQTTSerialize_publish` and `MQTTDeserialize_publish`. The deserializer gets pointers to its
caller's variables; what it does not write keeps the value it had, so the model takes the old
values and returns the new ones. The results are the round trip and an exact account of the
packets that the deserializer accepts.
-/

namespace Saliwen.Mqtt

open CJson (Bytes cString)

/-- `MQTTSerialize_publishLength`: the remaining length of a PUBLISH. -/
def mqttSerializePublishLength (qos : ℕ) (topicName : MQTTString) (payloadlen : ℕ) : ℕ :=
  2 + mqttStrlen topicName + payloadlen + if 0 < qos then 2 else 0

/-- `MQTTSerialize_publish`: the return value and the bytes written to the buffer. -/
def mqttSerializePublish (buflen dup qos retained packetid : ℕ) (topicName : MQTTString)
    (payload : Bytes) : ℤ × Bytes :=
  let remLen := mqttSerializePublishLength qos topicName payload.length
  if buflen < mqttPacketLen remLen then (-2, [])
  else
    let written := headerByte 3 dup qos retained :: (mqttPacketEncode remLen ++
      writeMQTTString topicName ++ (if 0 < qos then writeInt packetid else []) ++ payload)
    (written.length, written)

/-- The variables that `MQTTDeserialize_publish` fills in. -/
structure PublishData where
  dup : ℕ
  qos : ℕ
  retained : ℕ
  packetid : ℕ
  topicName : LenString
  payload : ℕ
  payloadlen : ℤ
  deriving DecidableEq, Repr

/-- `MQTTDeserialize_publish`: the return value and the caller's variables. On the way to an
error the return value is the number of bytes of the length field. -/
def mqttDeserializePublish (old : PublishData) (buf : Bytes) : Option (ℤ × PublishData) := do
  let (header, curdata) ← readChar buf 0
  if headerType header ≠ 3 then return (0, old)
  let data := { old with
    dup := headerDup header, qos := headerQos header, retained := headerRetain header }
  let (rc, mylen) ← mqttPacketDecodeBuf buf curdata
  let curdata := curdata + rc
  let enddata := curdata + mylen
  let (ok, topicName, curdata) ← readMQTTLenString data.topicName buf curdata enddata
  let data := { data with topicName }
  if ok = false ∨ enddata < curdata then return ((rc : ℤ), data)
  if 0 < data.qos then
    let (packetid, curdata) ← readInt buf curdata
    return (1, { data with packetid, payloadlen := (enddata : ℤ) - curdata, payload := curdata })
  else return (1, { data with payloadlen := (enddata : ℤ) - curdata, payload := curdata })

/-! ## Frames -/

/-- A packet as it stands in a buffer: header, remaining length, body. -/
def frame (header : UInt8) (body : Bytes) : Bytes :=
  header :: (mqttPacketEncode body.length ++ body)

/-- A frame has a header byte, its length field and its body. -/
theorem frame_length (header : UInt8) (body : Bytes) :
    (frame header body).length = 1 + (mqttPacketEncode body.length).length + body.length := by
  simp only [frame, List.length_cons, List.length_append]
  omega

/-- The header byte is the first of a frame. -/
theorem readChar_frame (header : UInt8) (body rest : Bytes) :
    readChar (frame header body ++ rest) 0 = some (header, 1) := by
  simp [readChar, frame]

/-- The length of the body is read from the frame. -/
theorem mqttPacketDecodeBuf_frame (header : UInt8) {body : Bytes} (rest : Bytes)
    (h : body.length < 2 ^ 28) :
    mqttPacketDecodeBuf (frame header body ++ rest) 1 =
      some ((mqttPacketEncode body.length).length, body.length) := by
  have hbuf := mqttPacketDecodeBuf_encode h [header] (body ++ rest)
  simpa [frame] using hbuf

/-- The offset of the body in a frame. -/
def bodyStart (body : Bytes) : ℕ := 1 + (mqttPacketEncode body.length).length

/-- Where the body of a frame begins. -/
theorem bodyStart_eq (body : Bytes) :
    1 + (mqttPacketEncode body.length).length = bodyStart body := rfl

/-- What comes behind the length field of a frame. -/
theorem frame_drop (header : UInt8) (body rest : Bytes) :
    (frame header body ++ rest).drop (bodyStart body) = body ++ rest := by
  have hfront : frame header body ++ rest =
      (header :: mqttPacketEncode body.length) ++ (body ++ rest) := by
    simp [frame]
  have hstart : bodyStart body = (header :: mqttPacketEncode body.length).length := by
    rw [bodyStart, List.length_cons, add_comm]
  rw [hfront, hstart, List.drop_left]

/-- Reading an integer at an offset into the body. -/
theorem readInt_frame (header high low : UInt8) (body rest before after : Bytes)
    (h : body ++ rest = before ++ high :: low :: after) :
    readInt (frame header body ++ rest) (bodyStart body + before.length) =
      some (256 * high.toNat + low.toNat, bodyStart body + before.length + 2) := by
  have hat : ∀ i, (frame header body ++ rest)[bodyStart body + before.length + i]? =
      (high :: low :: after)[i]? := by
    intro i
    rw [add_assoc, ← List.getElem?_drop, frame_drop, h,
      List.getElem?_append_right (Nat.le_add_right ..), Nat.add_sub_cancel_left]
  have hhigh := hat 0
  have hlow := hat 1
  rw [add_zero] at hhigh
  simp only [readInt, hhigh, hlow]
  rfl

/-! ## Round trip -/

/-- The text of a string that is handed to a serializer. -/
def MQTTString.text (s : MQTTString) : Bytes :=
  match s.cstring with
  | some buf => cString buf
  | none => s.lenstringText

/-- A string with one of its two representations only. -/
def MQTTString.Plain (s : MQTTString) : Prop := s.cstring = none ∨ s.lenstringText = []

/-- `MQTTstrlen` is the length of the text. -/
theorem mqttStrlen_eq (s : MQTTString) : mqttStrlen s = s.text.length := by
  unfold mqttStrlen MQTTString.text
  cases s.cstring <;> rfl

/-- A plain string is written with its length in front. -/
theorem writeMQTTString_eq {s : MQTTString} (h : s.Plain) :
    writeMQTTString s = writeInt s.text.length ++ s.text := by
  unfold writeMQTTString MQTTString.text
  rcases h with hnone | hnil
  · rw [hnone]
    by_cases hempty : s.lenstringText = []
    · simp [hempty]
    · rw [if_pos (List.length_pos_iff.mpr hempty)]
  · rw [hnil]
    cases s.cstring <;> simp [writeCString]

/-- The body of a PUBLISH. -/
def publishBody (qos packetid : ℕ) (topic payload : Bytes) : Bytes :=
  writeInt topic.length ++ topic ++ (if 0 < qos then writeInt packetid else []) ++ payload

/-- The length of the body of a PUBLISH. -/
theorem publishBody_length (qos packetid : ℕ) (topic payload : Bytes) :
    (publishBody qos packetid topic payload).length =
      2 + topic.length + payload.length + if 0 < qos then 2 else 0 := by
  unfold publishBody
  split_ifs <;> simp [writeInt] <;> omega

/-- What the serializer writes when the buffer is large enough: one frame. -/
theorem mqttSerializePublish_eq {buflen qos : ℕ} (dup retained packetid : ℕ)
    {topicName : MQTTString} {payload : Bytes} (hplain : topicName.Plain)
    (hfits : mqttPacketLen (mqttSerializePublishLength qos topicName payload.length) ≤ buflen) :
    (mqttSerializePublish buflen dup qos retained packetid topicName payload).2 =
      frame (headerByte 3 dup qos retained)
        (publishBody qos packetid topicName.text payload) := by
  have hlength := publishBody_length qos packetid topicName.text payload
  unfold mqttSerializePublish
  rw [if_neg (by omega), frame, hlength]
  simp only [mqttSerializePublishLength, mqttStrlen_eq, writeMQTTString_eq hplain, publishBody,
    List.append_assoc]

/-! ## What the deserializer accepts -/

/-- The topic of a PUBLISH body lies inside the body. -/
def TopicFits : Bytes → Prop
  | high :: low :: tail => 256 * high.toNat + low.toNat ≤ tail.length
  | _ => False

/-- The caller's variables after the header byte. -/
def PublishData.withHeader (old : PublishData) (header : UInt8) : PublishData :=
  { old with dup := headerDup header, qos := headerQos header, retained := headerRetain header }

/-- A packet of another type is refused. -/
theorem mqttDeserializePublish_type (old : PublishData) {header : UInt8} (body rest : Bytes)
    (htype : headerType header ≠ 3) :
    mqttDeserializePublish old (frame header body ++ rest) = some (0, old) := by
  unfold mqttDeserializePublish
  rw [readChar_frame]
  simp [htype]

/-- The topic of a body, if it fits. -/
theorem readMQTTLenString_frame (old : LenString) (header high low : UInt8) (tail rest : Bytes) :
    readMQTTLenString old (frame header (high :: low :: tail) ++ rest)
        (bodyStart (high :: low :: tail))
        (bodyStart (high :: low :: tail) + (high :: low :: tail).length) =
      some (if 256 * high.toNat + low.toNat ≤ tail.length then
        (true, ⟨256 * high.toNat + low.toNat, bodyStart (high :: low :: tail) + 2⟩,
          bodyStart (high :: low :: tail) + 2 + (256 * high.toNat + low.toNat))
      else (false, { old with len := 256 * high.toNat + low.toNat },
        bodyStart (high :: low :: tail) + 2)) := by
  have hread := readInt_frame header high low (high :: low :: tail) rest [] (tail ++ rest) rfl
  rw [List.length_nil, add_zero] at hread
  unfold readMQTTLenString
  rw [if_pos (by simp), hread]
  by_cases hfits : 256 * high.toNat + low.toNat ≤ tail.length
  · rw [if_pos hfits]
    simp only [Option.bind_eq_bind, Option.bind_some]
    rw [if_pos (by simp only [List.length_cons]; omega)]
    rfl
  · rw [if_neg hfits]
    simp only [Option.bind_eq_bind, Option.bind_some]
    rw [if_neg (by simp only [List.length_cons]; omega)]
    rfl

/-- A packet whose topic does not fit: the return value is the size of the length field, and
the data of the topic and the payload are not written. The length of the topic is written if the
body is long enough to have one. -/
theorem mqttDeserializePublish_unfit (old : PublishData) {header : UInt8} (body rest : Bytes)
    (htype : headerType header = 3) (hlength : body.length < 2 ^ 28)
    (hfits : ¬ TopicFits body) :
    ∃ len : ℕ, (body.length < 2 → len = old.topicName.len) ∧
      mqttDeserializePublish old (frame header body ++ rest) =
        some (((mqttPacketEncode body.length).length : ℤ),
          { old.withHeader header with topicName := { old.topicName with len } }) := by
  unfold mqttDeserializePublish
  rw [readChar_frame]
  simp only [Option.bind_eq_bind, Option.bind_some, htype, ne_eq, not_true_eq_false, if_false,
    mqttPacketDecodeBuf_frame header rest hlength, bodyStart_eq]
  match body, hfits with
  | [], _ =>
    exact ⟨old.topicName.len, fun _ => rfl, by simp [PublishData.withHeader, readMQTTLenString]⟩
  | [c], _ =>
    exact ⟨old.topicName.len, fun _ => rfl, by simp [PublishData.withHeader, readMQTTLenString]⟩
  | high :: low :: tail, hfits =>
    refine ⟨256 * high.toNat + low.toNat, fun hshort => ?_, ?_⟩
    · simp only [List.length_cons] at hshort
      omega
    have hlong : ¬ 256 * high.toNat + low.toNat ≤ tail.length := hfits
    rw [readMQTTLenString_frame, if_neg hlong]
    rfl

/-- A packet of quality of service 0 whose topic fits. -/
theorem mqttDeserializePublish_qos_zero (old : PublishData) {header high low : UInt8}
    {tail : Bytes} (rest : Bytes) {len : ℕ} (htype : headerType header = 3)
    (hlength : (high :: low :: tail).length < 2 ^ 28)
    (hlen : 256 * high.toNat + low.toNat = len) (hfits : len ≤ tail.length)
    (hqos : headerQos header = 0) :
    mqttDeserializePublish old (frame header (high :: low :: tail) ++ rest) =
      some (1, { old.withHeader header with
        topicName := ⟨len, bodyStart (high :: low :: tail) + 2⟩
        payload := bodyStart (high :: low :: tail) + 2 + len
        payloadlen := (tail.length : ℤ) - len }) := by
  unfold mqttDeserializePublish
  rw [readChar_frame]
  simp only [Option.bind_eq_bind, Option.bind_some, htype, ne_eq, not_true_eq_false, if_false,
    mqttPacketDecodeBuf_frame header rest hlength, bodyStart_eq, readMQTTLenString_frame, hlen,
    if_pos hfits, hqos]
  have hend : ¬ (true = false ∨ bodyStart (high :: low :: tail) + (high :: low :: tail).length <
      bodyStart (high :: low :: tail) + 2 + len) := by
    simp only [Bool.true_eq_false, false_or, not_lt, List.length_cons]
    omega
  rw [if_neg hend, if_neg (by decide)]
  simp only [PublishData.withHeader, hqos, List.length_cons, Option.pure_def, Option.some.injEq,
    Prod.mk.injEq, PublishData.mk.injEq, true_and]
  omega

/-- A packet of a higher quality of service whose topic fits. The packet identifier is read
behind the topic, also when the packet has ended before. -/
theorem mqttDeserializePublish_qos_pos (old : PublishData) {header high low : UInt8}
    {tail : Bytes} {len : ℕ} (rest before after : Bytes) (idHigh idLow : UInt8)
    (htype : headerType header = 3) (hlength : (high :: low :: tail).length < 2 ^ 28)
    (hlen : 256 * high.toNat + low.toNat = len) (hfits : len ≤ tail.length)
    (hqos : 0 < headerQos header)
    (hid : high :: low :: tail ++ rest = before ++ idHigh :: idLow :: after)
    (hbefore : before.length = 2 + len) :
    mqttDeserializePublish old (frame header (high :: low :: tail) ++ rest) =
      some (1, { old.withHeader header with
        packetid := 256 * idHigh.toNat + idLow.toNat
        topicName := ⟨len, bodyStart (high :: low :: tail) + 2⟩
        payload := bodyStart (high :: low :: tail) + 2 + len + 2
        payloadlen := (tail.length : ℤ) - len - 2 }) := by
  have hread := readInt_frame header idHigh idLow _ rest before after hid
  rw [hbefore, ← add_assoc] at hread
  unfold mqttDeserializePublish
  rw [readChar_frame]
  simp only [Option.bind_eq_bind, Option.bind_some, htype, ne_eq, not_true_eq_false, if_false,
    mqttPacketDecodeBuf_frame header rest hlength, bodyStart_eq, readMQTTLenString_frame, hlen,
    if_pos hfits]
  have hend : ¬ (true = false ∨ bodyStart (high :: low :: tail) + (high :: low :: tail).length <
      bodyStart (high :: low :: tail) + 2 + len) := by
    simp only [Bool.true_eq_false, false_or, not_lt, List.length_cons]
    omega
  rw [if_neg hend, if_pos hqos, hread]
  simp only [PublishData.withHeader, List.length_cons, Option.pure_def, Option.bind_some,
    Option.some.injEq, Prod.mk.injEq, PublishData.mk.injEq, true_and]
  omega

/-- The topic length in front of a body. -/
def topicLength (body : Bytes) : ℕ :=
  256 * (body[0]?.getD 0).toNat + (body[1]?.getD 0).toNat

/-- Topic and packet identifier of a PUBLISH lie inside the body. -/
def Complete (header : UInt8) (body : Bytes) : Prop :=
  2 + topicLength body + (if 0 < headerQos header then 2 else 0) ≤ body.length

/-- The length field has one byte exactly for short bodies. -/
theorem mqttPacketEncode_length_eq_one {length : ℕ} (h : length < 2 ^ 28) :
    (mqttPacketEncode length).length = 1 ↔ length < 128 := by
  rw [mqttPacketEncode_length h]
  split_ifs <;> omega

/-- Two bytes at an offset that leaves room for them. -/
theorem exists_two_bytes {bytes : Bytes} {offset : ℕ} (h : offset + 2 ≤ bytes.length) :
    ∃ before high low after, bytes = before ++ high :: low :: after ∧ before.length = offset := by
  refine ⟨bytes.take offset, bytes[offset], bytes[offset + 1], bytes.drop (offset + 2), ?_, ?_⟩
  · rw [List.getElem_cons_drop, List.getElem_cons_drop, List.take_append_drop]
  · rw [List.length_take]
    omega

/-- Which packets the deserializer accepts, and what its caller gets. It accepts every PUBLISH
whose topic fits, and also every PUBLISH with a length field of one byte whose topic does not
fit; there the topic's data and the payload keep what they held before the call. The payload of
an accepted packet with a fitting topic ends with the packet, and its length is negative
exactly when the packet identifier is missing. -/
theorem mqttDeserializePublish_accepts (old : PublishData) (header : UInt8) (body rest : Bytes)
    (hlength : body.length < 2 ^ 28) (hrest : 2 ≤ rest.length) :
    ∃ (rc : ℤ) (d : PublishData),
      mqttDeserializePublish old (frame header body ++ rest) = some (rc, d) ∧
      (rc = 1 ↔ headerType header = 3 ∧ (TopicFits body ∨ body.length < 128)) ∧
      (¬ (headerType header = 3 ∧ TopicFits body) →
        d.topicName.data = old.topicName.data ∧ d.payload = old.payload ∧
          d.payloadlen = old.payloadlen) ∧
      (headerType header = 3 ∧ TopicFits body →
        d.payload + d.payloadlen = (frame header body).length ∧
          (0 ≤ d.payloadlen ↔ Complete header body)) := by
  by_cases htype : headerType header = 3
  swap
  · exact ⟨0, old, mqttDeserializePublish_type old body rest htype, by simp [htype], by simp,
      fun h => absurd h.1 htype⟩
  by_cases hfits : TopicFits body
  swap
  · obtain ⟨len, -, hrun⟩ := mqttDeserializePublish_unfit old body rest htype hlength hfits
    refine ⟨_, _, hrun, ?_, fun _ => ⟨rfl, rfl, rfl⟩, fun h => absurd h.2 hfits⟩
    have hone := mqttPacketEncode_length_eq_one hlength
    simp only [htype, hfits, false_or, true_and]
    exact_mod_cast hone
  match body, hfits with
  | high :: low :: tail, hfits =>
    have hfits' : 256 * high.toNat + low.toNat ≤ tail.length := hfits
    have hframe := frame_length header (high :: low :: tail)
    rw [bodyStart_eq] at hframe
    by_cases hqos : 0 < headerQos header
    · have hroom :
          2 + (256 * high.toNat + low.toNat) + 2 ≤ (high :: low :: tail ++ rest).length := by
        simp only [List.length_append, List.length_cons]
        omega
      obtain ⟨before, idHigh, idLow, after, hid, hbefore⟩ := exists_two_bytes hroom
      refine ⟨_, _, mqttDeserializePublish_qos_pos old rest before after idHigh idLow htype
        hlength rfl hfits' hqos hid hbefore,
        by simp [htype, hfits], fun h => absurd ⟨htype, hfits⟩ h, fun _ => ⟨?_, ?_⟩⟩
      · rw [hframe]
        simp only [List.length_cons]
        omega
      · simp [Complete, topicLength, hqos]
        omega
    · refine ⟨_, _, mqttDeserializePublish_qos_zero old rest htype hlength rfl hfits' (by omega),
        by simp [htype, hfits], fun h => absurd ⟨htype, hfits⟩ h, fun _ => ⟨?_, ?_⟩⟩
      · rw [hframe]
        simp only [List.length_cons]
        omega
      · simp [Complete, topicLength, hqos]
        omega

/-- A PUBLISH of three bytes whose topic would have to be 97 times 256 bytes long. -/
theorem mqttDeserializePublish_accepts_unfit :
    ([97, 0, 1] : Bytes).length < 2 ^ 28 ∧ 2 ≤ ([0, 0] : Bytes).length ∧
      ∃ (rc : ℤ) (d : PublishData),
        mqttDeserializePublish ⟨0, 0, 0, 0, ⟨0, 7⟩, 9, 0⟩ (frame 0x30 [97, 0, 1] ++ [0, 0]) =
          some (rc, d) ∧
        (rc = 1 ↔
          headerType 0x30 = 3 ∧ (TopicFits [97, 0, 1] ∨ ([97, 0, 1] : Bytes).length < 128)) ∧
        (¬ (headerType 0x30 = 3 ∧ TopicFits [97, 0, 1]) →
          d.topicName.data = 7 ∧ d.payload = 9 ∧ d.payloadlen = 0) ∧
        (headerType 0x30 = 3 ∧ TopicFits [97, 0, 1] →
          d.payload + d.payloadlen = (frame 0x30 [97, 0, 1]).length ∧
            (0 ≤ d.payloadlen ↔ Complete 0x30 [97, 0, 1])) :=
  ⟨by decide, by decide, mqttDeserializePublish_accepts ⟨0, 0, 0, 0, ⟨0, 7⟩, 9, 0⟩ 0x30 [97, 0, 1]
    [0, 0] (by decide) (by decide)⟩

/-- The payload in the buffer, by its pointer and its length. -/
def PublishData.payloadText (d : PublishData) (buf : Bytes) : Bytes :=
  (buf.drop d.payload).take d.payloadlen.toNat

/-- A number of 16 bits is read back from its two bytes. -/
theorem writeInt_value {n : ℕ} (h : n < 65536) :
    256 * (UInt8.ofNat (n / 256)).toNat + (UInt8.ofNat (n % 256)).toNat = n := by
  have hhigh : n / 256 < 256 := by omega
  have hlow : n % 256 < 256 := by omega
  simp only [UInt8.toNat_ofNat', Nat.mod_eq_of_lt hhigh, Nat.mod_eq_of_lt hlow]
  omega

/-- The body of a PUBLISH begins with the length of the topic. -/
theorem publishBody_eq (qos packetid : ℕ) (topic payload : Bytes) :
    publishBody qos packetid topic payload =
      UInt8.ofNat (topic.length / 256) :: UInt8.ofNat (topic.length % 256) ::
        (topic ++ (if 0 < qos then writeInt packetid else []) ++ payload) := by
  simp [publishBody, writeInt]

/-- A text at an offset into the body. -/
theorem frame_text (header : UInt8) (body rest before text after : Bytes)
    (h : body ++ rest = before ++ text ++ after) :
    ((frame header body ++ rest).drop (bodyStart body + before.length)).take text.length =
      text := by
  rw [← List.drop_drop, frame_drop, h, List.append_assoc, List.drop_left, List.take_left]

/-- The deserializer reads back what was put into a PUBLISH body. -/
theorem mqttDeserializePublish_publishBody (old : PublishData) {dup qos retained packetid : ℕ}
    {topic payload : Bytes} (rest : Bytes) (hdup : dup < 2) (hqos : qos < 4)
    (hretained : retained < 2) (hid : packetid < 65536) (htopic : topic.length < 65536)
    (hlength : (publishBody qos packetid topic payload).length < 2 ^ 28) :
    ∃ d, mqttDeserializePublish old (frame (headerByte 3 dup qos retained)
          (publishBody qos packetid topic payload) ++ rest) = some (1, d) ∧
      d.dup = dup ∧ d.qos = qos ∧ d.retained = retained ∧ (0 < qos → d.packetid = packetid) ∧
      d.topicName.text (frame (headerByte 3 dup qos retained)
        (publishBody qos packetid topic payload) ++ rest) = topic ∧
      d.payloadlen = payload.length ∧
      d.payloadText (frame (headerByte 3 dup qos retained)
        (publishBody qos packetid topic payload) ++ rest) = payload := by
  have hvalue := writeInt_value htopic
  have htype : headerType (headerByte 3 dup qos retained) = 3 := by simp
  have hdup' : headerDup (headerByte 3 dup qos retained) = dup := by simp; omega
  have hqos' : headerQos (headerByte 3 dup qos retained) = qos := by simp; omega
  have hretained' : headerRetain (headerByte 3 dup qos retained) = retained := by simp; omega
  generalize headerByte 3 dup qos retained = header at *
  have hbody := publishBody_eq qos packetid topic payload
  have htopicText := frame_text header (publishBody qos packetid topic payload) rest
    (writeInt topic.length) topic ((if 0 < qos then writeInt packetid else []) ++ payload ++ rest)
    (by simp [publishBody])
  have hpayloadText := frame_text header (publishBody qos packetid topic payload) rest
    (writeInt topic.length ++ topic ++ if 0 < qos then writeInt packetid else []) payload rest
    (by simp [publishBody])
  rw [hbody] at hlength htopicText hpayloadText ⊢
  by_cases hpos : 0 < qos
  · rw [if_pos hpos] at hlength htopicText hpayloadText ⊢
    have hrun := mqttDeserializePublish_qos_pos old rest
      (UInt8.ofNat (topic.length / 256) :: UInt8.ofNat (topic.length % 256) :: topic)
      (payload ++ rest) (UInt8.ofNat (packetid / 256)) (UInt8.ofNat (packetid % 256)) htype hlength
      hvalue (by simp) (by omega) (by simp [writeInt]) (by simp; omega)
    rw [writeInt_value hid] at hrun
    have hlen : ((topic ++ writeInt packetid ++ payload).length : ℤ) - topic.length - 2 =
        payload.length := by
      simp [writeInt]
      omega
    refine ⟨_, hrun, hdup', hqos', hretained', fun _ => rfl, ?_, hlen, ?_⟩
    · simpa [LenString.text, writeInt] using htopicText
    · have hbefore : (writeInt topic.length ++ topic ++ writeInt packetid).length =
          2 + topic.length + 2 := by
        simp [writeInt]
        omega
      rw [hbefore] at hpayloadText
      simp only [PublishData.payloadText, hlen, Int.toNat_natCast]
      simpa only [add_assoc] using hpayloadText
  · rw [if_neg hpos] at hlength htopicText hpayloadText ⊢
    have hrun := mqttDeserializePublish_qos_zero old rest htype hlength hvalue (by simp) (by omega)
    have hlen : ((topic ++ [] ++ payload).length : ℤ) - topic.length = payload.length := by
      simp
    refine ⟨_, hrun, hdup', hqos', hretained', fun h => absurd h hpos, ?_, hlen, ?_⟩
    · simpa [LenString.text, writeInt] using htopicText
    · simp only [PublishData.payloadText, hlen, Int.toNat_natCast]
      simpa [writeInt, add_assoc, add_comm, add_left_comm] using hpayloadText

/-- Round trip of a PUBLISH: what the serializer writes stays inside its buffer, and the
deserializer gets every field back from it, whatever follows in the receive buffer. -/
theorem mqttDeserializePublish_mqttSerializePublish (old : PublishData)
    {buflen dup qos retained packetid : ℕ} {topicName : MQTTString} {payload : Bytes}
    (rest : Bytes) (hplain : topicName.Plain) (hdup : dup < 2) (hqos : qos < 4)
    (hretained : retained < 2) (hid : packetid < 65536) (htopic : topicName.text.length < 65536)
    (hlength : mqttSerializePublishLength qos topicName payload.length < 2 ^ 28)
    (hbuflen : mqttPacketLen (mqttSerializePublishLength qos topicName payload.length) ≤ buflen) :
    ∃ written, mqttSerializePublish buflen dup qos retained packetid topicName payload =
        ((written.length : ℤ), written) ∧ written.length ≤ buflen ∧
      ∃ d, mqttDeserializePublish old (written ++ rest) = some (1, d) ∧
        d.dup = dup ∧ d.qos = qos ∧ d.retained = retained ∧ (0 < qos → d.packetid = packetid) ∧
        d.topicName.text (written ++ rest) = topicName.text ∧
        d.payloadlen = payload.length ∧ d.payloadText (written ++ rest) = payload := by
  have hwritten := mqttSerializePublish_eq dup retained packetid hplain hbuflen
  have hbody : (publishBody qos packetid topicName.text payload).length =
      mqttSerializePublishLength qos topicName payload.length := by
    rw [publishBody_length, mqttSerializePublishLength, mqttStrlen_eq]
  refine ⟨(mqttSerializePublish buflen dup qos retained packetid topicName payload).2, ?_, ?_, ?_⟩
  · unfold mqttSerializePublish
    rw [if_neg (not_lt.mpr hbuflen)]
  · rw [hwritten, frame_length, hbody]
    exact (packet_length_le_mqttPacketLen hlength).trans hbuflen
  · rw [hwritten]
    rw [← hbody] at hlength
    exact mqttDeserializePublish_publishBody old rest hdup hqos hretained hid htopic hlength

/-- A message of quality of service 1 is read back with two bytes behind it. -/
theorem mqttDeserializePublish_mqttSerializePublish_one :
    (MQTTString.mk (some [97]) none).Plain ∧
      mqttPacketLen (mqttSerializePublishLength 1 ⟨some [97], none⟩ 1) ≤ 16 ∧
      ∃ written, mqttSerializePublish 16 0 1 0 5 ⟨some [97], none⟩ [98] =
          ((written.length : ℤ), written) ∧ written.length ≤ 16 ∧
        ∃ d, mqttDeserializePublish ⟨0, 0, 0, 0, ⟨0, 0⟩, 0, 0⟩ (written ++ [1, 2]) = some (1, d) ∧
          d.dup = 0 ∧ d.qos = 1 ∧ d.retained = 0 ∧ (0 < 1 → d.packetid = 5) ∧
          d.topicName.text (written ++ [1, 2]) = (MQTTString.mk (some [97]) none).text ∧
          d.payloadlen = ([98] : Bytes).length ∧ d.payloadText (written ++ [1, 2]) = [98] :=
  ⟨Or.inr rfl, by decide, mqttDeserializePublish_mqttSerializePublish ⟨0, 0, 0, 0, ⟨0, 0⟩, 0, 0⟩
    [1, 2] (Or.inr rfl) (by decide) (by decide) (by decide) (by decide) (by decide) (by decide)
    (by decide)⟩

end Saliwen.Mqtt
