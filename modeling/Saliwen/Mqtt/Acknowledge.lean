import Saliwen.Mqtt.Publish

/-!
# Acknowledgements

The packets that only carry a packet identifier, the answers to CONNECT and SUBSCRIBE, and
the two packets of length zero. A deserializer whose packet is too short leaves with the size
of the length field as its return value, and a short packet has a length field of one byte:
so it returns 1, which its callers take for success.
-/

namespace Saliwen.Mqtt

open CJson (Bytes)

/-- `MQTTSerialize_ack`: the return value and the bytes written to the buffer. -/
def mqttSerializeAck (buflen packettype dup packetid : ℕ) : ℤ × Bytes :=
  if buflen < 4 then (-2, [])
  else
    let written := headerByte packettype dup (if packettype = 6 then 1 else 0) 0 ::
      (mqttPacketEncode 2 ++ writeInt packetid)
    (written.length, written)

/-- `MQTTSerialize_zero`, for PINGREQ and DISCONNECT. -/
def mqttSerializeZero (buflen packettype : ℕ) : ℤ × Bytes :=
  if buflen < 2 then (-2, [])
  else
    let written := headerByte packettype 0 0 0 :: mqttPacketEncode 0
    (written.length, written)

/-- The variables that `MQTTDeserialize_ack` fills in. -/
structure AckData where
  packettype : ℕ
  dup : ℕ
  packetid : ℕ
  deriving DecidableEq, Repr

/-- `MQTTDeserialize_ack`: the return value and the caller's variables. -/
def mqttDeserializeAck (old : AckData) (buf : Bytes) : Option (ℤ × AckData) := do
  let (header, curdata) ← readChar buf 0
  let data := { old with dup := headerDup header, packettype := headerType header }
  let (rc, mylen) ← mqttPacketDecodeBuf buf curdata
  if mylen < 2 then return ((rc : ℤ), data)
  let (packetid, _) ← readInt buf (curdata + rc)
  return (1, { data with packetid })

/-- `MQTTDeserialize_unsuback`: the return value and the packet identifier. -/
def mqttDeserializeUnsuback (old : ℕ) (buf : Bytes) : Option (ℤ × ℕ) := do
  let (rc, data) ← mqttDeserializeAck ⟨0, 0, old⟩ buf
  return (if data.packettype = 11 then 1 else rc, data.packetid)

/-- The loop of `MQTTDeserialize_suback` over the bytes up to `enddata`: the return value and
the codes stored in `grantedQoSs`, one behind the other. -/
def subackLoop (maxcount : ℕ) (buf : Bytes) (enddata : ℕ) :
    ℕ → ℕ → List ℕ → Option (ℤ × List ℕ)
  | 0, _, granted => some (1, granted)
  | fuel + 1, curdata, granted =>
    if curdata < enddata then
      if maxcount < granted.length then some (-1, granted)
      else do
        let (c, curdata) ← readChar buf curdata
        subackLoop maxcount buf enddata fuel curdata (granted ++ [c.toNat])
    else some (1, granted)

/-- `MQTTDeserialize_suback`: the return value, the packet identifier and the codes that were
stored. -/
def mqttDeserializeSuback (maxcount old : ℕ) (buf : Bytes) : Option (ℤ × ℕ × List ℕ) := do
  let (header, curdata) ← readChar buf 0
  if headerType header ≠ 9 then return (0, old, [])
  let (rc, mylen) ← mqttPacketDecodeBuf buf curdata
  if mylen < 2 then return ((rc : ℤ), old, [])
  let enddata := curdata + rc + mylen
  let (packetid, curdata) ← readInt buf (curdata + rc)
  let (rc, granted) ← subackLoop maxcount buf enddata mylen curdata []
  return (rc, packetid, granted)

/-- The variables that `MQTTDeserialize_connack` fills in. -/
structure ConnackData where
  sessionPresent : ℕ
  connackRc : ℕ
  deriving DecidableEq, Repr

/-- `MQTTDeserialize_connack`: the return value and the caller's variables. -/
def mqttDeserializeConnack (old : ConnackData) (buf : Bytes) : Option (ℤ × ConnackData) := do
  let (header, curdata) ← readChar buf 0
  if headerType header ≠ 2 then return (0, old)
  let (rc, mylen) ← mqttPacketDecodeBuf buf curdata
  if mylen < 2 then return ((rc : ℤ), old)
  let (flags, curdata) ← readChar buf (curdata + rc)
  let (connackRc, _) ← readChar buf curdata
  return (1, ⟨flags.toNat % 2, connackRc.toNat⟩)

/-! ## Short packets -/

/-- A short remaining length takes one byte. -/
theorem mqttPacketEncode_length_of_lt {length : ℕ} (h : length < 128) :
    (mqttPacketEncode length).length = 1 := by
  rw [mqttPacketEncode_eq, if_pos h]
  rfl

/-- The packet identifier of a frame. -/
theorem readInt_body (header high low : UInt8) (tail rest : Bytes) :
    readInt (frame header (high :: low :: tail) ++ rest) (bodyStart (high :: low :: tail)) =
      some (256 * high.toNat + low.toNat, bodyStart (high :: low :: tail) + 2) := by
  have hread := readInt_frame header high low (high :: low :: tail) rest [] (tail ++ rest) rfl
  simpa using hread

/-- The identifier that a deserializer reports: the first two bytes of the body, or what its
variable held before when the body is shorter. -/
def idOr (old : ℕ) : Bytes → ℕ
  | high :: low :: _ => 256 * high.toNat + low.toNat
  | _ => old

/-- `MQTTDeserialize_ack` returns 1 on every packet. A packet without an identifier leaves the
caller's variable as it was. -/
theorem mqttDeserializeAck_frame (old : AckData) (header : UInt8) (body rest : Bytes)
    (hlength : body.length < 2 ^ 28) :
    mqttDeserializeAck old (frame header body ++ rest) =
      some (1, ⟨headerType header, headerDup header, idOr old.packetid body⟩) := by
  unfold mqttDeserializeAck
  rw [readChar_frame]
  simp only [Option.bind_eq_bind, Option.bind_some, mqttPacketDecodeBuf_frame header rest hlength,
    bodyStart_eq]
  match body with
  | [] => simp [idOr, mqttPacketEncode_length_of_lt]
  | [c] => simp [idOr, mqttPacketEncode_length_of_lt]
  | high :: low :: tail =>
    rw [if_neg (by simp), readInt_body]
    rfl

/-- `MQTTDeserialize_unsuback` returns 1 on every packet, of whatever type. -/
theorem mqttDeserializeUnsuback_frame (old : ℕ) (header : UInt8) (body rest : Bytes)
    (hlength : body.length < 2 ^ 28) :
    mqttDeserializeUnsuback old (frame header body ++ rest) = some (1, idOr old body) := by
  unfold mqttDeserializeUnsuback
  rw [mqttDeserializeAck_frame _ _ _ _ hlength]
  simp

/-- The bytes of a text in a buffer, one by one. -/
theorem readChar_of_drop {buf after : Bytes} {p : ℕ} {c : UInt8} (h : buf.drop p = c :: after) :
    readChar buf p = some (c, p + 1) ∧ buf.drop (p + 1) = after := by
  have hget : buf[p]? = some c := by
    rw [← List.head?_drop, h]
    rfl
  refine ⟨by simp [readChar, hget], ?_⟩
  rw [← List.drop_drop, h]
  rfl

/-- `MQTTDeserialize_connack` on a CONNACK: it returns 1, and a body of less than two bytes
leaves the caller's variables as they were. -/
theorem mqttDeserializeConnack_frame (old : ConnackData) {header : UInt8} {body : Bytes}
    (rest : Bytes) (htype : headerType header = 2) (hlength : body.length < 2 ^ 28) :
    mqttDeserializeConnack old (frame header body ++ rest) =
      some (1, match body with
        | flags :: code :: _ => ⟨flags.toNat % 2, code.toNat⟩
        | _ => old) := by
  unfold mqttDeserializeConnack
  rw [readChar_frame]
  simp only [Option.bind_eq_bind, Option.bind_some, htype, ne_eq, not_true_eq_false, if_false,
    mqttPacketDecodeBuf_frame header rest hlength, bodyStart_eq]
  match body with
  | [] => simp [mqttPacketEncode_length_of_lt]
  | [c] => simp [mqttPacketEncode_length_of_lt]
  | flags :: code :: tail =>
    obtain ⟨hflags, hdrop⟩ := readChar_of_drop (frame_drop header (flags :: code :: tail) rest)
    obtain ⟨hcode, -⟩ := readChar_of_drop hdrop
    rw [if_neg (by simp), hflags]
    simp only [Option.bind_some]
    rw [hcode]
    rfl

/-- The loop over the codes of a SUBACK stores one code more than the array has room for before
it gives up. -/
theorem subackLoop_eq {maxcount : ℕ} {buf : Bytes} (codes : Bytes) :
    ∀ (fuel : ℕ) (granted : List ℕ) {curdata : ℕ} {after : Bytes}, codes.length ≤ fuel →
      buf.drop curdata = codes ++ after → granted.length ≤ maxcount + 1 →
      subackLoop maxcount buf (curdata + codes.length) fuel curdata granted =
        some (if granted.length + codes.length ≤ maxcount + 1 then 1 else -1,
          granted ++ (codes.take (maxcount + 1 - granted.length)).map UInt8.toNat) := by
  induction codes with
  | nil =>
    intro fuel granted curdata after _ _ hgranted
    rw [List.length_nil, add_zero, add_zero, if_pos hgranted]
    cases fuel with
    | zero => simp [subackLoop]
    | succ fuel => simp [subackLoop]
  | cons c codes ih =>
    intro fuel granted curdata after hfuel hdrop hgranted
    obtain ⟨fuel, rfl⟩ : ∃ k, fuel = k + 1 := ⟨fuel - 1, by simp at hfuel; omega⟩
    obtain ⟨hread, hnext⟩ := readChar_of_drop hdrop
    simp only [List.length_cons] at hfuel ⊢
    rw [subackLoop, if_pos (by omega)]
    by_cases hfull : maxcount < granted.length
    · have hroom : maxcount + 1 - granted.length = 0 := by omega
      rw [if_pos hfull, if_neg (by omega), hroom]
      simp
    · have hrest := ih fuel (granted ++ [c.toNat]) (by omega) hnext
        (by simp; omega)
      have hend : curdata + (codes.length + 1) = curdata + 1 + codes.length := by omega
      have hroom : maxcount + 1 - granted.length =
          maxcount + 1 - (granted ++ [c.toNat]).length + 1 := by
        simp only [List.length_append, List.length_cons, List.length_nil]
        omega
      have hcount : (granted ++ [c.toNat]).length + codes.length =
          granted.length + (codes.length + 1) := by
        simp only [List.length_append, List.length_cons, List.length_nil]
        omega
      simp only [hcount] at hrest
      rw [if_neg hfull, hread, hend, hroom]
      simpa using hrest

/-- `MQTTDeserialize_suback` on a SUBACK with an identifier: it refuses the packet when it holds
more than `maxcount + 1` codes, and it stores up to `maxcount + 1` of them. -/
theorem mqttDeserializeSuback_frame {maxcount old : ℕ} {header high low : UInt8} {codes : Bytes}
    (rest : Bytes) (htype : headerType header = 9)
    (hlength : (high :: low :: codes).length < 2 ^ 28) :
    mqttDeserializeSuback maxcount old (frame header (high :: low :: codes) ++ rest) =
      some (if codes.length ≤ maxcount + 1 then 1 else -1, 256 * high.toNat + low.toNat,
        (codes.take (maxcount + 1)).map UInt8.toNat) := by
  unfold mqttDeserializeSuback
  rw [readChar_frame]
  simp only [Option.bind_eq_bind, Option.bind_some, htype, ne_eq, not_true_eq_false, if_false,
    mqttPacketDecodeBuf_frame header rest hlength, bodyStart_eq]
  rw [if_neg (by simp), readInt_body]
  have hdrop : (frame header (high :: low :: codes) ++ rest).drop
      (bodyStart (high :: low :: codes) + 2) = codes ++ rest := by
    rw [← List.drop_drop, frame_drop]
    rfl
  have hend : bodyStart (high :: low :: codes) + (high :: low :: codes).length =
      bodyStart (high :: low :: codes) + 2 + codes.length := by
    simp only [List.length_cons]
    omega
  simp only [Option.bind_some]
  rw [hend, subackLoop_eq codes _ [] (by simp only [List.length_cons]; omega) hdrop (by simp)]
  simp

end Saliwen.Mqtt
