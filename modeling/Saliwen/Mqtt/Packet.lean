import Saliwen.CJson.Value

/-!
# The packet layer of the MQTT client

The fixed header of an MQTT packet, the remaining length in its variable number of bytes, and
the integers and strings of a packet body, as `MQTTPacket.c` writes and reads them. A writer
gives the bytes it stores at the pointer. A reader works on the receive buffer with a pointer
that is an offset into it, and `none` is a read outside of the buffer.
-/

namespace Saliwen.Mqtt

open CJson (Bytes cString)

/-! ## The header byte -/

/-- The byte of an `MQTTHeader` with these bit fields; each field keeps its own bits only. -/
def headerByte (type dup qos retain : ℕ) : UInt8 :=
  UInt8.ofNat (type % 16 * 16 + dup % 2 * 8 + qos % 4 * 2 + retain % 2)

/-- `header.bits.type`. -/
def headerType (byte : UInt8) : ℕ := byte.toNat / 16

/-- `header.bits.dup`. -/
def headerDup (byte : UInt8) : ℕ := byte.toNat / 8 % 2

/-- `header.bits.qos`. -/
def headerQos (byte : UInt8) : ℕ := byte.toNat / 2 % 4

/-- `header.bits.retain`. -/
def headerRetain (byte : UInt8) : ℕ := byte.toNat % 2

/-- The header byte as a number. -/
theorem headerByte_toNat (type dup qos retain : ℕ) :
    (headerByte type dup qos retain).toNat =
      type % 16 * 16 + dup % 2 * 8 + qos % 4 * 2 + retain % 2 := by
  unfold headerByte
  apply UInt8.toNat_ofNat_of_lt
  simp only [UInt8.size]
  omega

/-- The packet type is read back from the header byte. -/
@[simp] theorem headerType_headerByte (type dup qos retain : ℕ) :
    headerType (headerByte type dup qos retain) = type % 16 := by
  rw [headerType, headerByte_toNat]
  omega

/-- The duplicate flag is read back from the header byte. -/
@[simp] theorem headerDup_headerByte (type dup qos retain : ℕ) :
    headerDup (headerByte type dup qos retain) = dup % 2 := by
  rw [headerDup, headerByte_toNat]
  omega

/-- The quality of service is read back from the header byte. -/
@[simp] theorem headerQos_headerByte (type dup qos retain : ℕ) :
    headerQos (headerByte type dup qos retain) = qos % 4 := by
  rw [headerQos, headerByte_toNat]
  omega

/-- The retain flag is read back from the header byte. -/
@[simp] theorem headerRetain_headerByte (type dup qos retain : ℕ) :
    headerRetain (headerByte type dup qos retain) = retain % 2 := by
  rw [headerRetain, headerByte_toNat]
  omega

/-! ## The remaining length -/

/-- The loop of `MQTTPacket_encode`: seven bits at a time, the top bit set while digits
follow. -/
def encodeLoop : ℕ → ℕ → Bytes
  | 0, _ => []
  | fuel + 1, length =>
    let d := UInt8.ofNat (length % 128)
    if 0 < length / 128 then (d ||| 0x80) :: encodeLoop fuel (length / 128) else [d]

/-- `MQTTPacket_encode`: the bytes written for a length. -/
def mqttPacketEncode (length : ℕ) : Bytes := encodeLoop (length + 1) length

/-- The loop of `MQTTPacket_decode` over any source of bytes, with the number of bytes it may
still read. It returns the counter `len`, the value so far and the source; the counter also
counts a read that failed and a byte that is not read any more. -/
def decodeLoop {σ : Type*} (getcharfn : σ → Option UInt8 × σ) :
    ℕ → ℕ → ℕ → ℕ → σ → ℕ × ℕ × σ
  | 0, len, value, _, source => (len + 1, value, source)
  | left + 1, len, value, multiplier, source =>
    match getcharfn source with
    | (none, source) => (len + 1, value, source)
    | (some c, source) =>
      let value := value + (c &&& 127).toNat * multiplier
      if c &&& 128 ≠ 0 then decodeLoop getcharfn left (len + 1) value (multiplier * 128) source
      else (len + 1, value, source)

/-- `MQTTPacket_decode`, also the loop of `mqtt_decode_packet`: at most four bytes. -/
def mqttPacketDecode {σ : Type*} (getcharfn : σ → Option UInt8 × σ) (source : σ) : ℕ × ℕ × σ :=
  decodeLoop getcharfn 4 0 0 1 source

/-- `MQTTPacket_len`: the size of a packet as the serializers compute it. -/
def mqttPacketLen (remLen : ℕ) : ℕ :=
  if remLen + 1 < 128 then remLen + 1 + 1
  else if remLen + 1 < 16384 then remLen + 1 + 2
  else if remLen + 1 < 2097151 then remLen + 1 + 3
  else remLen + 1 + 4

/-- A digit with the top bit set. -/
theorem marked_digit {d : ℕ} (h : d < 128) : ((UInt8.ofNat d ||| 0x80) &&& 127).toNat = d := by
  have hall : ∀ d < 128, ((UInt8.ofNat d ||| 0x80) &&& 127).toNat = d := by decide
  exact hall d h

/-- A marked digit says that more digits follow. -/
theorem marked_continues {d : ℕ} (h : d < 128) : (UInt8.ofNat d ||| 0x80) &&& 128 ≠ 0 := by
  have hall : ∀ d < 128, (UInt8.ofNat d ||| 0x80) &&& 128 ≠ 0 := by decide
  exact hall d h

/-- The last digit is read back. -/
theorem last_digit {d : ℕ} (h : d < 128) : (UInt8.ofNat d &&& 127).toNat = d := by
  have hall : ∀ d < 128, (UInt8.ofNat d &&& 127).toNat = d := by decide
  exact hall d h

/-- The last digit says that no more digits follow. -/
theorem last_stops {d : ℕ} (h : d < 128) : UInt8.ofNat d &&& 128 = 0 := by
  have hall : ∀ d < 128, UInt8.ofNat d &&& 128 = 0 := by decide
  exact hall d h

/-- The fuel of the encoder never runs out. -/
theorem encodeLoop_fuel {fuel length : ℕ} (h : length < fuel) :
    encodeLoop fuel length = mqttPacketEncode length := by
  unfold mqttPacketEncode
  induction fuel using Nat.strong_induction_on generalizing length with
  | _ fuel ih =>
    obtain ⟨fuel, rfl⟩ : ∃ k, fuel = k + 1 := ⟨fuel - 1, by omega⟩
    simp only [encodeLoop]
    by_cases hmore : 0 < length / 128
    · have hsmaller : length / 128 < length := by omega
      rw [if_pos hmore, if_pos hmore, ih fuel (by omega) (by omega)]
      by_cases hfuel : length < fuel
      · rw [ih length (by omega) hsmaller]
      · obtain rfl : length = fuel := by omega
        rw [ih length (by omega) hsmaller]
    · rw [if_neg hmore, if_neg hmore]

/-- The encoder as a recursion on the length. -/
theorem mqttPacketEncode_eq (length : ℕ) :
    mqttPacketEncode length =
      if length < 128 then [UInt8.ofNat length]
      else (UInt8.ofNat (length % 128) ||| 0x80) :: mqttPacketEncode (length / 128) := by
  conv_lhs => unfold mqttPacketEncode
  simp only [encodeLoop]
  by_cases hsmall : length < 128
  · rw [if_neg (by omega), if_pos hsmall, Nat.mod_eq_of_lt hsmall]
  · rw [if_pos (by omega), if_neg hsmall, encodeLoop_fuel (by omega)]

/-- The number of bytes of the length field. -/
theorem mqttPacketEncode_length {length : ℕ} (h : length < 2 ^ 28) :
    (mqttPacketEncode length).length =
      if length < 128 then 1
      else if length < 16384 then 2 else if length < 2097152 then 3 else 4 := by
  rw [mqttPacketEncode_eq, mqttPacketEncode_eq (length / 128),
    mqttPacketEncode_eq (length / 128 / 128), mqttPacketEncode_eq (length / 128 / 128 / 128)]
  split_ifs <;> first | omega | rfl

/-- The serializers' estimate of a packet's size is never too small. -/
theorem packet_length_le_mqttPacketLen {remLen : ℕ} (h : remLen < 2 ^ 28) :
    1 + (mqttPacketEncode remLen).length + remLen ≤ mqttPacketLen remLen := by
  rw [mqttPacketEncode_length h]
  unfold mqttPacketLen
  split_ifs <;> omega

/-- A source from which the bytes can be read one after the other, ending at another source. -/
def Yields {σ : Type*} (getcharfn : σ → Option UInt8 × σ) : σ → Bytes → σ → Prop
  | source, [], last => source = last
  | source, c :: bytes, last =>
    ∃ next, getcharfn source = (some c, next) ∧ Yields getcharfn next bytes last

/-- Reading an encoded length gives the length back and reads exactly its bytes. -/
theorem decodeLoop_encode {σ : Type*} {getcharfn : σ → Option UInt8 × σ} {left : ℕ} :
    ∀ {length len value multiplier : ℕ} {source last : σ}, length < 128 ^ (left + 1) →
      Yields getcharfn source (mqttPacketEncode length) last →
      decodeLoop getcharfn (left + 1) len value multiplier source =
        (len + (mqttPacketEncode length).length, value + length * multiplier, last) := by
  -- The induction is on the bytes that may still be read; the last one allowed has no mark.
  induction left with
  | zero =>
    intro length len value multiplier source last hlength hyields
    have hsmall : length < 128 := by simpa using hlength
    rw [mqttPacketEncode_eq, if_pos hsmall] at hyields ⊢
    obtain ⟨next, hget, rfl⟩ := hyields
    simp [decodeLoop, hget, last_digit hsmall, last_stops hsmall]
  | succ left ih =>
    intro length len value multiplier source last hlength hyields
    rw [mqttPacketEncode_eq] at hyields ⊢
    by_cases hsmall : length < 128
    · rw [if_pos hsmall] at hyields ⊢
      obtain ⟨next, hget, rfl⟩ := hyields
      simp [decodeLoop, hget, last_digit hsmall, last_stops hsmall]
    · rw [if_neg hsmall] at hyields ⊢
      obtain ⟨next, hget, hrest⟩ := hyields
      have hdigit : length % 128 < 128 := Nat.mod_lt _ (by decide)
      have hrestLength : length / 128 < 128 ^ (left + 1) := by
        rw [pow_succ] at hlength
        exact Nat.div_lt_of_lt_mul (by rwa [mul_comm])
      rw [decodeLoop, hget]
      simp only [marked_digit hdigit]
      rw [if_pos (marked_continues hdigit), ih hrestLength hrest]
      have hsplit : length % 128 + 128 * (length / 128) = length := Nat.mod_add_div length 128
      have hvalue : value + length % 128 * multiplier + length / 128 * (multiplier * 128) =
          value + length * multiplier := by
        calc value + length % 128 * multiplier + length / 128 * (multiplier * 128)
            = value + (length % 128 + 128 * (length / 128)) * multiplier := by ring
          _ = value + length * multiplier := by rw [hsplit]
      rw [hvalue, List.length_cons, add_right_comm, add_assoc]

/-- `MQTTPacket_decode` after `MQTTPacket_encode`. -/
theorem mqttPacketDecode_encode {σ : Type*} {getcharfn : σ → Option UInt8 × σ} {length : ℕ}
    {source last : σ} (hlength : length < 2 ^ 28)
    (hyields : Yields getcharfn source (mqttPacketEncode length) last) :
    mqttPacketDecode getcharfn source = ((mqttPacketEncode length).length, length, last) := by
  unfold mqttPacketDecode
  rw [decodeLoop_encode (by simpa using hlength) hyields]
  simp

/-! ## Integers and strings of a packet body -/

/-- `writeInt`: two bytes, the high one first. -/
def writeInt (anInt : ℕ) : Bytes := [UInt8.ofNat (anInt / 256), UInt8.ofNat (anInt % 256)]

/-- An `MQTTString`: a C string and a string with its length, each if its pointer is set. -/
structure MQTTString where
  cstring : Option Bytes
  lenstring : Option Bytes

/-- The string with its length, which is zero where the pointer is not set. -/
def MQTTString.lenstringText (s : MQTTString) : Bytes := s.lenstring.getD []

/-- `MQTTstrlen`: the C string counts when there is one. -/
def mqttStrlen (s : MQTTString) : ℕ :=
  match s.cstring with
  | some buf => (cString buf).length
  | none => s.lenstringText.length

/-- `writeCString`. -/
def writeCString (buf : Bytes) : Bytes := writeInt (cString buf).length ++ cString buf

/-- `writeMQTTString`: here the string with its length counts when it is not empty. -/
def writeMQTTString (s : MQTTString) : Bytes :=
  if 0 < s.lenstringText.length then writeInt s.lenstringText.length ++ s.lenstringText
  else match s.cstring with
    | some buf => writeCString buf
    | none => writeInt 0

/-- `readChar`, with the pointer it leaves. -/
def readChar (buf : Bytes) (pptr : ℕ) : Option (UInt8 × ℕ) := do
  let c ← buf[pptr]?
  return (c, pptr + 1)

/-- `readInt`, with the pointer it leaves. -/
def readInt (buf : Bytes) (pptr : ℕ) : Option (ℕ × ℕ) := do
  let high ← buf[pptr]?
  let low ← buf[pptr + 1]?
  return (256 * high.toNat + low.toNat, pptr + 2)

/-- `MQTTPacket_decodeBuf` at a pointer: the counter and the value. -/
def mqttPacketDecodeBuf (buf : Bytes) (pptr : ℕ) : Option (ℕ × ℕ) :=
  match mqttPacketDecode (fun p => (buf[p]?, p + 1)) pptr with
  | (len, value, last) => if last ≤ buf.length then some (len, value) else none

/-- The length and the data of an `MQTTString` that is read from a packet; the data is a
pointer into the buffer. -/
structure LenString where
  len : ℕ
  data : ℕ
  deriving DecidableEq, Repr

/-- `readMQTTLenString`: whether it succeeded, the string and the pointer it leaves. A length
that does not fit is stored all the same. -/
def readMQTTLenString (old : LenString) (buf : Bytes) (pptr enddata : ℕ) :
    Option (Bool × LenString × ℕ) :=
  if pptr + 1 < enddata then do
    let (len, pptr) ← readInt buf pptr
    if pptr + len ≤ enddata then return (true, ⟨len, pptr⟩, pptr + len)
    else return (false, { old with len }, pptr)
  else return (false, old, pptr)

/-- The text of a string in the buffer. -/
def LenString.text (s : LenString) (buf : Bytes) : Bytes := (buf.drop s.data).take s.len

/-- Reading an integer where it was written. -/
theorem readInt_writeInt {n : ℕ} (h : n < 65536) (before after : Bytes) :
    readInt (before ++ writeInt n ++ after) before.length = some (n, before.length + 2) := by
  simp only [readInt, writeInt, List.append_assoc, List.cons_append, List.nil_append]
  simp
  omega

/-- The bytes of a text that stands in the buffer. -/
theorem yields_buffer (bytes : Bytes) : ∀ before after : Bytes,
    Yields (fun p => ((before ++ bytes ++ after)[p]?, p + 1)) before.length bytes
      (before.length + bytes.length) := by
  induction bytes with
  | nil =>
    intro before after
    simp [Yields]
  | cons c bytes ih =>
    intro before after
    have hrest := ih (before ++ [c]) after
    simp only [List.append_assoc, List.cons_append, List.nil_append, List.length_append,
      List.length_cons, List.length_nil] at hrest ⊢
    refine ⟨before.length + 1, by simp, ?_⟩
    have hlast : before.length + (bytes.length + 1) = before.length + (0 + 1) + bytes.length := by
      omega
    rw [hlast]
    exact hrest

/-- The length field is read back from a buffer. -/
theorem mqttPacketDecodeBuf_encode {length : ℕ} (h : length < 2 ^ 28) (before after : Bytes) :
    mqttPacketDecodeBuf (before ++ mqttPacketEncode length ++ after) before.length =
      some ((mqttPacketEncode length).length, length) := by
  unfold mqttPacketDecodeBuf
  rw [mqttPacketDecode_encode h (yields_buffer _ before after)]
  simp

end Saliwen.Mqtt
