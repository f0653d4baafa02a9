import Saliwen.Mqtt.Records

/-!
# What is sent, and what is kept to be sent again

A record of the list of acknowledgements holds a copy of the packet that has to be sent again.
The copy is taken from the write buffer. Where the record is made under the same lock as the
packet, the copy is that packet. The record of a PUBREL is made under a second lock, and holds
the PUBREC only if no other thread has used the write buffer in between.
-/

namespace Saliwen.Mqtt

open CJson (Bytes cString)

/-! ## Packets of the serializers -/

/-- A serializer has failed and written nothing, or has written a frame that fits. -/
def Fills (n : ℕ) (serialized : ℤ × Bytes) (header : UInt8) (body : Bytes) : Prop :=
  (serialized.1 ≤ 0 ∧ serialized.2 = []) ∨
    (serialized.1 = serialized.2.length ∧ serialized.2 = frame header body ∧
      serialized.2.length ≤ n)

/-- A frame whose length the serializer has looked at. -/
theorem fills_frame {n : ℕ} (header : UInt8) {body : Bytes} (hn : n < 65536)
    (hroom : ¬ n < mqttPacketLen body.length) :
    Fills n ((frame header body).length, frame header body) header body := by
  right
  have hsmall : body.length < mqttPacketLen body.length := by
    unfold mqttPacketLen
    split_ifs <;> omega
  have hle := packet_length_le_mqttPacketLen (show body.length < 2 ^ 28 by omega)
  refine ⟨rfl, rfl, ?_⟩
  rw [frame_length]
  omega

/-- A PUBLISH that fits is a frame. -/
theorem fills_mqttSerializePublish {n : ℕ} (hn : n < 65536) (dup qos retained packetid : ℕ)
    (topic payload : Bytes) :
    Fills n (mqttSerializePublish n dup qos retained packetid ⟨some topic, none⟩ payload)
      (headerByte 3 dup qos retained) (publishBody qos packetid (cString topic) payload) := by
  have hlength := publishBody_length qos packetid (cString topic) payload
  have hwrite := writeMQTTString_eq (s := ⟨some topic, none⟩) (Or.inr rfl)
  unfold mqttSerializePublish
  by_cases hroom : n < mqttPacketLen
      (mqttSerializePublishLength qos ⟨some topic, none⟩ payload.length)
  · rw [if_pos hroom]
    exact Or.inl ⟨by decide, rfl⟩
  · rw [if_neg hroom]
    have hremLen : mqttSerializePublishLength qos ⟨some topic, none⟩ payload.length =
        (publishBody qos packetid (cString topic) payload).length := hlength.symm
    have hframe : headerByte 3 dup qos retained :: (mqttPacketEncode
        (mqttSerializePublishLength qos ⟨some topic, none⟩ payload.length) ++
          writeMQTTString ⟨some topic, none⟩ ++ (if 0 < qos then writeInt packetid else []) ++
          payload) = frame (headerByte 3 dup qos retained)
        (publishBody qos packetid (cString topic) payload) := by
      rw [frame, ← hremLen, hwrite]
      simp only [publishBody, MQTTString.text, List.append_assoc]
    rw [hremLen] at hroom
    simp only [hframe]
    exact fills_frame _ hn hroom

/-- A SUBSCRIBE that fits is a frame. -/
theorem fills_mqttSerializeSubscribe {n : ℕ} (hn : n < 65536) (dup packetid : ℕ) (topic : Bytes)
    (qos : ℕ) :
    Fills n (mqttSerializeSubscribe n dup packetid ⟨some topic, none⟩ qos) (headerByte 8 dup 1 0)
      (writeInt packetid ++ (writeInt (cString topic).length ++ (cString topic ++
        [UInt8.ofNat qos]))) := by
  have hwrite := writeMQTTString_eq (s := ⟨some topic, none⟩) (Or.inr rfl)
  have hlength : 2 + (2 + mqttStrlen ⟨some topic, none⟩ + 1) =
      (writeInt packetid ++ (writeInt (cString topic).length ++ (cString topic ++
        [UInt8.ofNat qos]))).length := by
    simp only [mqttStrlen, writeInt, List.length_append, List.length_cons, List.length_nil]
    omega
  unfold mqttSerializeSubscribe
  simp only [hlength]
  split_ifs with hroom
  · exact Or.inl ⟨by decide, rfl⟩
  · have hframe := fills_frame (headerByte 8 dup 1 0) hn hroom
    simpa only [frame, hwrite, MQTTString.text, List.append_assoc] using hframe

/-- An UNSUBSCRIBE that fits is a frame. -/
theorem fills_mqttSerializeUnsubscribe {n : ℕ} (hn : n < 65536) (dup packetid : ℕ)
    (topic : Bytes) :
    Fills n (mqttSerializeUnsubscribe n dup packetid ⟨some topic, none⟩) (headerByte 10 dup 1 0)
      (writeInt packetid ++ (writeInt (cString topic).length ++ cString topic)) := by
  have hwrite := writeMQTTString_eq (s := ⟨some topic, none⟩) (Or.inr rfl)
  have hlength : 2 + (2 + mqttStrlen ⟨some topic, none⟩) =
      (writeInt packetid ++ (writeInt (cString topic).length ++ cString topic)).length := by
    simp only [mqttStrlen, writeInt, List.length_append, List.length_cons, List.length_nil]
  unfold mqttSerializeUnsubscribe
  simp only [hlength]
  split_ifs with hroom
  · exact Or.inl ⟨by decide, rfl⟩
  · have hframe := fills_frame (headerByte 10 dup 1 0) hn hroom
    simpa only [frame, hwrite, MQTTString.text, List.append_assoc] using hframe

/-- The frame of an acknowledgement. -/
def ackFrame (type packetid : ℕ) : Bytes :=
  frame (headerByte type 0 (if type = 6 then 1 else 0) 0) (writeInt packetid)

/-- An acknowledgement has four bytes. -/
theorem ackFrame_length (type packetid : ℕ) : (ackFrame type packetid).length = 4 := by
  have hbody : (writeInt packetid).length = 2 := rfl
  rw [ackFrame, frame_length, hbody, mqttPacketEncode_length_of_lt (by decide)]

/-- An acknowledgement that fits is a frame. -/
theorem fills_mqttSerializeAck (n type packetid : ℕ) :
    Fills n (mqttSerializeAck n type 0 packetid)
      (headerByte type 0 (if type = 6 then 1 else 0) 0) (writeInt packetid) := by
  unfold mqttSerializeAck
  by_cases hroom : n < 4
  · rw [if_pos hroom]
    exact Or.inl ⟨by decide, rfl⟩
  · rw [if_neg hroom]
    refine Or.inr ⟨rfl, rfl, ?_⟩
    have hfour := ackFrame_length type packetid
    change (ackFrame type packetid).length ≤ n
    omega

/-- A packet without a body that fits is a frame. -/
theorem fills_mqttSerializeZero (n type : ℕ) :
    Fills n (mqttSerializeZero n type) (headerByte type 0 0 0) [] := by
  unfold mqttSerializeZero
  by_cases hroom : n < 2
  · rw [if_pos hroom]
    exact Or.inl ⟨by decide, rfl⟩
  · rw [if_neg hroom]
    refine Or.inr ⟨rfl, rfl, ?_⟩
    change 2 ≤ n
    omega

/-- A CONNECT that fits is a frame. -/
theorem fills_mqttSerializeConnect {n : ℕ} (hn : n < 65536) {options : ConnectData}
    (h : options.Sendable) :
    Fills n (mqttSerializeConnect n options) (headerByte 1 0 0 0) options.body := by
  unfold mqttSerializeConnect
  simp only [← h.body_length]
  split_ifs with hroom
  · exact Or.inl ⟨by decide, rfl⟩
  · exact fills_frame _ hn hroom

/-! ## Records -/

/-- The packet that belongs to a record: a PUBLISH marked as a duplicate, the PUBREC of a
message that was received, a PUBREL, a SUBSCRIBE or an UNSUBSCRIBE, with the identifier of the
record. -/
def AckHandler.Fits (a : AckHandler) : Prop :=
  match a.type with
  | 4 => ∃ retained topic payload,
      a.payload = frame (headerByte 3 1 1 retained) (publishBody 1 a.packetId topic payload)
  | 5 => ∃ retained topic payload,
      a.payload = frame (headerByte 3 1 2 retained) (publishBody 2 a.packetId topic payload)
  | 6 => a.payload = ackFrame 5 a.packetId
  | 7 => a.payload = ackFrame 6 a.packetId
  | 9 => ∃ h : MsgHandler, a.handler = some h ∧ a.payload = frame (headerByte 8 0 1 0)
      (writeInt a.packetId ++ (writeInt h.topicFilter.length ++ (h.topicFilter ++
        [UInt8.ofNat h.qos])))
  | 11 => ∃ h : MsgHandler, a.handler = some h ∧ a.payload = frame (headerByte 10 0 1 0)
      (writeInt a.packetId ++ (writeInt h.topicFilter.length ++ h.topicFilter))
  | _ => False

/-- A packet that can be told from what follows it. -/
def IsFrame (packet : Bytes) : Prop :=
  ∃ header body, packet = frame header body ∧ body.length < 2 ^ 28

/-- What goes out of a packet handed to the network: the packet itself, if success is reported,
and otherwise a beginning of it, or the packet with other bytes behind it. -/
def Sending.Matches (s : Sending) : Prop :=
  (s.success = true → s.wire = s.packet) ∧ (s.wire <+: s.packet ∨ s.packet <+: s.wire)

/-- The client waits for the second lock for a message of quality of service 2. -/
def Pending.Waits (pending : Pending) : Prop := ∃ len d, pending = .recordPubrel len d

/-- The invariant. In strict runs no other thread uses the write buffer between the two locks,
and then it also holds for the records of a PUBREL and for what is sent again. -/
structure Client.Kept (strict : Prop) (n : ℕ) (c : Client) : Prop where
  length : c.writeBuf.length = n
  bounded : ∀ a ∈ c.ackHandlers, a.payload.length ≤ n
  fits : ∀ a ∈ c.ackHandlers, a.type ≠ 6 ∨ strict → a.Fits
  waits : ∀ len d, c.pending = .recordPubrel len d → strict →
    len = 4 ∧ ackFrame 5 d.packetid <+: c.writeBuf
  sent : ∀ s ∈ c.sent, s.Matches ∧ (strict → IsFrame s.packet)

variable {strict : Prop} {n : ℕ}

/-- What the invariant looks at. -/
theorem Client.Kept.congr {c c' : Client} (h : c.Kept strict n) (hbuf : c'.writeBuf = c.writeBuf)
    (hacks : c'.ackHandlers = c.ackHandlers) (hpending : c'.pending = c.pending)
    (hsent : c'.sent = c.sent) : c'.Kept strict n := by
  refine ⟨?_, ?_, ?_, ?_, ?_⟩
  · rw [hbuf]
    exact h.length
  · rw [hacks]
    exact h.bounded
  · rw [hacks]
    exact h.fits
  · rw [hbuf, hpending]
    exact h.waits
  · rw [hsent]
    exact h.sent

/-- Fewer records. -/
theorem Client.Kept.drop {c c' : Client} (h : c.Kept strict n) (hbuf : c'.writeBuf = c.writeBuf)
    (hacks : ∀ a ∈ c'.ackHandlers, a ∈ c.ackHandlers) (hpending : ¬ c'.pending.Waits)
    (hsent : c'.sent = c.sent) : c'.Kept strict n where
  length := by
    rw [hbuf]
    exact h.length
  bounded a ha := h.bounded a (hacks a ha)
  fits a ha := h.fits a (hacks a ha)
  waits len d hwaits := absurd ⟨len, d, hwaits⟩ hpending
  sent := by
    rw [hsent]
    exact h.sent

/-- One more record. -/
theorem Client.Kept.record {c : Client} (h : c.Kept strict n) (e : Env) (type packetId len : ℕ)
    (handler : Option MsgHandler)
    (hfits : ∀ a : AckHandler, (a.type, a.packetId) = (type, packetId) → a.handler = handler →
      a.payload = c.writeBuf.take (len % 65536) → type ≠ 6 ∨ strict → a.Fits) :
    (c.mqttAckListRecord e type packetId len handler).2.Kept strict n := by
  rcases mqttAckListRecord_cases c e type packetId len handler with
    ⟨heq, -⟩ | ⟨heq, -⟩ | ⟨a, hkey, -, hhandler, hpayload, heq⟩
  · rw [heq]
    exact h
  · rw [heq]
    exact h
  · rw [heq]
    refine ⟨h.length, ?_, ?_, h.waits, h.sent⟩
    · intro b hb
      rcases List.mem_append.mp hb with hb | hb
      · exact h.bounded b hb
      · rw [List.mem_singleton.mp hb, hpayload, List.length_take, h.length]
        omega
    · intro b hb htype
      rcases List.mem_append.mp hb with hb | hb
      · exact h.fits b hb htype
      · rw [List.mem_singleton.mp hb] at htype ⊢
        have hatype : a.type = type := congrArg Prod.fst hkey
        rw [hatype] at htype
        exact hfits a hkey hhandler hpayload htype

/-- Bytes stored at the start of a buffer come before what it held behind them. -/
theorem store_zero (buf bytes : Bytes) : store buf 0 bytes = bytes ++ buf.drop bytes.length := by
  simp [store]

/-- A packet is written, and nothing waits for what was in the buffer before. -/
theorem Client.Kept.write {c : Client} (h : c.Kept strict n) (written : Bytes)
    (hroom : written.length ≤ n) (hidle : strict → ¬ c.pending.Waits) :
    (c.write written).Kept strict n where
  length := by
    rw [Client.write, store_length (by rw [h.length]; omega)]
    exact h.length
  bounded := h.bounded
  fits := h.fits
  waits len d hwaits hstrict := absurd ⟨len, d, hwaits⟩ (hidle hstrict)
  sent := h.sent

/-- The network takes bytes from the front of the write buffer on. -/
theorem matches_mqttSendPacket (writeBuf beyond : Bytes) (network : List ℤ) {len : ℕ}
    (hlen : len ≤ writeBuf.length) :
    let r := mqttSendPacket (writeBuf ++ beyond) len network
    (⟨writeBuf.take len, r.1, r.2⟩ : Sending).Matches := by
  intro r
  obtain ⟨⟨k, hwire⟩, hsuccess⟩ := mqttSendPacket_eq (writeBuf ++ beyond) len network
  have hpacket : writeBuf.take len = (writeBuf ++ beyond).take len :=
    (List.take_append_of_le_length hlen).symm
  refine ⟨fun hr => (hsuccess hr).trans hpacket.symm, ?_⟩
  rw [hpacket, show r.2 = _ from hwire]
  exact List.prefix_or_prefix_of_prefix (List.take_prefix _ _) (List.take_prefix _ _)

/-- The front of the write buffer is sent. -/
theorem Client.Kept.send {c : Client} (h : c.Kept strict n) (e : Env) {len : ℕ} (hlen : len ≤ n)
    (hframe : strict → IsFrame (c.writeBuf.take len)) :
    (c.mqttSendPacket e len).2.Kept strict n where
  length := h.length
  bounded := h.bounded
  fits := h.fits
  waits := h.waits
  sent s hs := by
    rcases List.mem_append.mp hs with hs | hs
    · exact h.sent s hs
    · rw [List.mem_singleton.mp hs]
      exact ⟨matches_mqttSendPacket c.writeBuf e.beyond e.network (by rw [h.length]; exact hlen),
        hframe⟩

/-- Sending a packet: afterwards it stands at the front of the write buffer. -/
theorem Client.Kept.transmit {c : Client} (hn : n < 65536) (h : c.Kept strict n) {e : Env}
    {serialized : ℤ × Bytes} {header : UInt8} {body : Bytes} {next : ℕ → Client → Client}
    (hfills : Fills n serialized header body) (hidle : strict → ¬ c.pending.Waits)
    (hnext : ∀ c' : Client, c'.Kept strict n → c'.pending = c.pending →
      (∃ rest, c'.writeBuf = frame header body ++ rest) → (frame header body).length ≤ n →
      (next (frame header body).length c').Kept strict n) :
    (c.transmit e serialized next).Kept strict n := by
  unfold Client.transmit
  rcases hfills with ⟨hrc, hempty⟩ | ⟨hrc, hframe, hroom⟩
  · rw [if_pos hrc]
    refine h.congr ?_ rfl rfl rfl
    rw [Client.write, hempty, store_zero]
    simp
  · have hlen : serialized.1.toNat = (frame header body).length := by
      rw [hrc, hframe]
      rfl
    have hfront : (c.write serialized.2).writeBuf =
        frame header body ++ c.writeBuf.drop (frame header body).length := by
      rw [Client.write, hframe, store_zero]
    have hwrite := h.write serialized.2 hroom hidle
    rw [hframe] at hroom
    have hsend := hwrite.send e hroom fun _ => by
      rw [hfront, List.take_left]
      have hlength := frame_length header body
      exact ⟨header, body, rfl, by omega⟩
    rw [← hlen] at hsend
    simp only
    split_ifs
    · exact hwrite
    · rw [hlen] at hsend ⊢
      exact hnext _ hsend rfl ⟨_, hfront⟩ hroom
    · exact hsend

/-! ## Steps -/

/-- The mark of a duplicate, in a write buffer that starts with a PUBLISH. -/
theorem setPublishDup_frame (qos retained : ℕ) (body rest : Bytes) :
    setPublishDup (frame (headerByte 3 0 qos retained) body ++ rest) =
      frame (headerByte 3 1 (qos % 4) (retained % 2)) body ++ rest := by
  simp [setPublishDup, frame]

/-- The header does not change the length of a frame. -/
theorem frame_length_congr (header header' : UInt8) (body : Bytes) :
    (frame header body).length = (frame header' body).length := by
  rw [frame_length, frame_length]

/-- The copy of a packet at the front of the write buffer. -/
theorem take_frame {len : ℕ} {packet rest writeBuf : Bytes} (hn : n < 65536)
    (hbuf : writeBuf = packet ++ rest) (hlen : len = packet.length) (hroom : len ≤ n) :
    writeBuf.take (len % 65536) = packet := by
  rw [Nat.mod_eq_of_lt (by omega), hlen, hbuf, List.take_left]

/-- Sending a PUBLISH keeps what the records hold. -/
theorem kept_publishPacket {c : Client} (hn : n < 65536) (h : c.Kept strict n) (e : Env)
    (topic : Bytes) (qos retained id : ℕ) (payload : Bytes)
    (hidle : strict → ¬ c.pending.Waits) :
    (c.publishPacket e topic qos retained id payload).Kept strict n := by
  unfold Client.publishPacket
  rw [h.length]
  refine h.transmit hn (fills_mqttSerializePublish hn 0 qos retained id topic payload) hidle ?_
  intro c' hc' hpending hfront hroom
  obtain ⟨rest, hfront⟩ := hfront
  by_cases hqos : qos = 1 ∨ qos = 2
  · simp only [if_pos hqos]
    have hmod : qos % 4 = qos := by omega
    have hdup := setPublishDup_frame qos retained (publishBody qos id (cString topic) payload) rest
    rw [hmod] at hdup
    have hmarked : Client.Kept strict n { c' with writeBuf := setPublishDup c'.writeBuf } := by
      refine ⟨?_, hc'.bounded, hc'.fits, ?_, hc'.sent⟩
      · have hlength := hc'.length
        rw [hfront] at hlength
        rw [hfront, hdup, List.length_append,
          frame_length_congr _ (headerByte 3 0 qos retained), ← List.length_append]
        exact hlength
      · intro len d hwaits hstrict
        exact absurd ⟨len, d, by rw [← hpending]; exact hwaits⟩ (hidle hstrict)
    have hrecord := hmarked.record e (if qos = 1 then 4 else 5) id
      (frame (headerByte 3 0 qos retained) (publishBody qos id (cString topic) payload)).length
      none ?_
    · generalize Client.mqttAckListRecord { c' with writeBuf := setPublishDup c'.writeBuf } e
        (if qos = 1 then 4 else 5) id _ none = r at hrecord ⊢
      split_ifs
      · exact hrecord.congr rfl rfl rfl rfl
      · exact hrecord
    · intro a hkey _ hpayload _
      have hcopy := take_frame hn (hfront ▸ hdup)
        (frame_length_congr (headerByte 3 0 qos retained) _ _) hroom
      rw [hcopy] at hpayload
      obtain ⟨htype, hid⟩ := Prod.mk.inj hkey
      unfold AckHandler.Fits
      rcases hqos with rfl | rfl
      · rw [htype, hid]
        exact ⟨_, _, _, hpayload⟩
      · rw [htype, hid]
        exact ⟨_, _, _, hpayload⟩
  · simp only [if_neg hqos]
    exact hc'

/-- `mqtt_publish` keeps what the records hold. -/
theorem kept_mqttPublish {c : Client} (hn : n < 65536) (h : c.Kept strict n) (e : Env)
    (packetId : ℕ) (topic : Bytes) (qos retained id : ℕ) (payload : Bytes)
    (hidle : strict → ¬ c.pending.Waits) :
    (c.mqttPublish e packetId topic qos retained id payload).Kept strict n := by
  unfold Client.mqttPublish
  split_ifs
  · exact h
  · exact kept_publishPacket hn h e _ _ _ _ _ hidle
  · exact h.congr rfl rfl rfl rfl
  · exact kept_publishPacket hn h e _ _ _ _ _ hidle

/-- SUBSCRIBE and UNSUBSCRIBE. -/
theorem kept_sendAndRecord {c : Client} (hn : n < 65536) (h : c.Kept strict n) (e : Env)
    (type packetId : ℕ) {serialized : ℤ × Bytes} {header : UInt8} {body : Bytes}
    (handler : MsgHandler) (hfills : Fills n serialized header body)
    (hfits : ∀ a : AckHandler, (a.type, a.packetId) = (type, packetId) →
      a.handler = some handler → a.payload = frame header body → a.Fits)
    (hidle : strict → ¬ c.pending.Waits) :
    (c.sendAndRecord e type packetId serialized handler).Kept strict n := by
  refine h.transmit hn hfills hidle ?_
  intro c' hc' _ hfront hroom
  obtain ⟨rest, hfront⟩ := hfront
  split_ifs
  · refine hc'.record e type packetId _ _ fun a hkey hhandler hpayload _ => ?_
    rw [take_frame hn hfront rfl hroom] at hpayload
    exact hfits a hkey hhandler hpayload
  · exact hc'

/-- `mqtt_subscribe` keeps what the records hold. -/
theorem kept_mqttSubscribe {c : Client} (hn : n < 65536) (h : c.Kept strict n) (e : Env)
    (packetId : ℕ) (topicFilter : Bytes) (qos : ℕ) (handler : Option ℕ)
    (hidle : strict → ¬ c.pending.Waits) :
    (c.mqttSubscribe e packetId topicFilter qos handler).Kept strict n := by
  unfold Client.mqttSubscribe
  rw [h.length]
  split_ifs
  · exact h
  · refine kept_sendAndRecord hn h e 9 packetId _
      (fills_mqttSerializeSubscribe hn 0 packetId topicFilter qos) ?_ hidle
    intro a hkey hhandler hpayload
    obtain ⟨htype, hid⟩ := Prod.mk.inj hkey
    unfold AckHandler.Fits
    rw [htype, hid]
    exact ⟨_, hhandler, hpayload⟩

/-- `mqtt_unsubscribe` keeps what the records hold. -/
theorem kept_mqttUnsubscribe {c : Client} (hn : n < 65536) (h : c.Kept strict n) (e : Env)
    (packetId : ℕ) (topicFilter : Bytes) (hidle : strict → ¬ c.pending.Waits) :
    (c.mqttUnsubscribe e packetId topicFilter).Kept strict n := by
  unfold Client.mqttUnsubscribe
  rw [h.length]
  split_ifs
  · exact h
  · refine kept_sendAndRecord hn h e 11 packetId _
      (fills_mqttSerializeUnsubscribe hn 0 packetId topicFilter) ?_ hidle
    intro a hkey hhandler hpayload
    obtain ⟨htype, hid⟩ := Prod.mk.inj hkey
    unfold AckHandler.Fits
    rw [htype, hid]
    exact ⟨_, hhandler, hpayload⟩

/-- A packet that is only sent. -/
theorem kept_transmit_only {c : Client} (hn : n < 65536) (h : c.Kept strict n) (e : Env)
    {serialized : ℤ × Bytes} {header : UInt8} {body : Bytes}
    (hfills : Fills n serialized header body) (hidle : strict → ¬ c.pending.Waits) :
    (c.transmit e serialized fun _ c => c).Kept strict n :=
  h.transmit hn hfills hidle fun _ hc' _ _ _ => hc'

/-- `mqtt_disconnect` keeps what the records hold. -/
theorem kept_mqttDisconnect {c : Client} (hn : n < 65536) (h : c.Kept strict n) (e : Env)
    (hidle : strict → ¬ c.pending.Waits) : (c.mqttDisconnect e).Kept strict n := by
  unfold Client.mqttDisconnect
  rw [h.length]
  exact (kept_transmit_only hn h e (fills_mqttSerializeZero n 14) hidle).congr rfl rfl rfl rfl

/-- The delivery of a message keeps what the records hold. -/
theorem kept_mqttDeliverMessage {c : Client} (h : c.Kept strict n) (d : PublishData) :
    (c.mqttDeliverMessage d).Kept strict n := by
  obtain ⟨ds, readBuf, fault, -, -, heq⟩ := mqttDeliverMessage_eq c d
  rw [heq]
  exact h.congr rfl rfl rfl rfl

/-- A PUBLISH that arrives keeps what the records hold. -/
theorem kept_mqttPublishPacketHandle {c : Client} (hn : n < 65536) (h : c.Kept strict n)
    (e : Env) (hidle : strict → ¬ c.pending.Waits) :
    (c.mqttPublishPacketHandle e).Kept strict n := by
  unfold Client.mqttPublishPacketHandle
  split
  · exact h.congr rfl rfl rfl rfl
  · rw [h.length]
    split_ifs
    · exact h
    · exact kept_mqttDeliverMessage h _
    · exact h.transmit hn (fills_mqttSerializeAck n 4 _) hidle fun c' hc' _ _ _ =>
        kept_mqttDeliverMessage hc' _
    · refine h.transmit hn (fills_mqttSerializeAck n 5 _) hidle fun c' hc' _ hfront _ => ?_
      obtain ⟨rest, hfront⟩ := hfront
      refine ⟨hc'.length, hc'.bounded, hc'.fits, ?_, hc'.sent⟩
      rintro len d hwaits -
      obtain ⟨rfl, rfl⟩ : _ = len ∧ _ = d := by simpa using hwaits
      exact ⟨ackFrame_length 5 _, rest, hfront.symm⟩
    · exact h

/-- A client that has nothing to do does not wait to record. -/
theorem not_waits_nothing : ¬ Pending.nothing.Waits := by
  rintro ⟨len, d, h⟩
  simp at h

/-- An acknowledgement is a frame. -/
theorem isFrame_ackFrame (type packetid : ℕ) : IsFrame (ackFrame type packetid) :=
  ⟨_, _, rfl, by simp [writeInt]⟩

/-- An acknowledgement at the front of the write buffer. -/
theorem take_write_ackFrame {c : Client} (type packetid : ℕ) :
    (c.write (ackFrame type packetid)).writeBuf.take 4 = ackFrame type packetid := by
  rw [Client.write, store_zero, ← ackFrame_length type packetid, List.take_left]

/-- An acknowledgement fits a buffer of four bytes. -/
theorem mqttSerializeAck_eq (hfour : 4 ≤ n) (type packetid : ℕ) :
    mqttSerializeAck n type 0 packetid = (4, ackFrame type packetid) := by
  have hlength := ackFrame_length type packetid
  unfold mqttSerializeAck
  rw [if_neg (by omega)]
  change (((ackFrame type packetid).length : ℤ), ackFrame type packetid) = _
  rw [hlength]
  rfl

/-- An acknowledgement keeps what the records hold. -/
theorem kept_mqttPublishAckPacket {c : Client} (hn : n < 65536) (hfour : 4 ≤ n)
    (h : c.Kept strict n) (e : Env) (packetId packetType : ℕ) (hidle : ¬ c.pending.Waits) :
    (c.mqttPublishAckPacket e packetId packetType).Kept strict n := by
  unfold Client.mqttPublishAckPacket
  rw [h.length]
  split
  · have hwrite := h.write (ackFrame 6 packetId) (by rw [ackFrame_length]; exact hfour)
      fun _ => hidle
    have hrecord := hwrite.record e 7 packetId 4 none fun a hkey _ hpayload _ => by
      obtain ⟨htype, hid⟩ := Prod.mk.inj hkey
      rw [show 4 % 65536 = 4 from rfl, take_write_ackFrame] at hpayload
      unfold AckHandler.Fits
      rw [htype, hid]
      exact hpayload
    rw [mqttSerializeAck_eq hfour]
    simp only
    split_ifs
    · refine hrecord.send e hfour fun _ => ?_
      have hbuf :
          ((c.write (ackFrame 6 packetId)).mqttAckListRecord e 7 packetId 4 none).2.writeBuf =
            (c.write (ackFrame 6 packetId)).writeBuf := by
        rcases mqttAckListRecord_cases (c.write (ackFrame 6 packetId)) e 7 packetId 4 none with
          ⟨heq, -⟩ | ⟨heq, -⟩ | ⟨a, -, -, -, -, heq⟩ <;> rw [heq]
      change IsFrame (List.take 4 _)
      rw [hbuf, take_write_ackFrame]
      exact isFrame_ackFrame 6 packetId
    · exact hrecord
  · exact kept_transmit_only hn h e (fills_mqttSerializeAck n 7 packetId) fun _ => hidle
  · exact h

/-- A PUBREC or PUBREL that arrives keeps what the records hold. -/
theorem kept_mqttPubrecAndPubrelPacketHandle {c : Client} (hn : n < 65536) (hfour : 4 ≤ n)
    (h : c.Kept strict n) (e : Env) (hidle : ¬ c.pending.Waits) :
    (c.mqttPubrecAndPubrelPacketHandle e).Kept strict n := by
  unfold Client.mqttPubrecAndPubrelPacketHandle
  split
  · exact h.congr rfl rfl rfl rfl
  · split_ifs
    · exact h
    · refine (kept_mqttPublishAckPacket hn hfour h e _ _ hidle).drop rfl (fun a ha => ha) ?_ rfl
      rintro ⟨len, d, heq⟩
      simp at heq

/-- Records are taken away. -/
theorem kept_mqttAckListUnrecord {c : Client} (h : c.Kept strict n) (type packetId : ℕ)
    (hidle : ¬ c.pending.Waits) : (c.mqttAckListUnrecord type packetId).2.Kept strict n :=
  h.drop rfl (fun _ ha => List.mem_of_mem_filter ha) hidle rfl

/-- Every packet that arrives keeps what the records hold. -/
theorem kept_mqttPacketHandle {c : Client} (hn : n < 65536) (hfour : 4 ≤ n)
    (h : c.Kept strict n) (e : Env) (hidle : ¬ c.pending.Waits) :
    (c.mqttPacketHandle e).Kept strict n := by
  have hack : (c.mqttPubackAndPubcompPacketHandle e).Kept strict n := by
    unfold Client.mqttPubackAndPubcompPacketHandle
    split
    · exact h.congr rfl rfl rfl rfl
    · exact kept_mqttAckListUnrecord h _ _ hidle
  unfold Client.mqttPacketHandle
  split_ifs
  · exact h.congr rfl rfl rfl rfl
  · exact h
  · split
    · exact kept_mqttPublishPacketHandle hn h e fun _ => hidle
    · exact hack
    · exact hack
    · exact kept_mqttPubrecAndPubrelPacketHandle hn hfour h e hidle
    · exact kept_mqttPubrecAndPubrelPacketHandle hn hfour h e hidle
    · unfold Client.mqttSubackPacketHandle
      split
      · exact h.congr rfl rfl rfl rfl
      · rename_i rc packetId granted _
        have hfault : Client.Kept strict n
            { c with fault := c.fault || decide (1 < granted.length) } := h.congr rfl rfl rfl rfl
        have hunrecord := kept_mqttAckListUnrecord hfault 9 packetId hidle
        simp only
        split_ifs
        · exact hfault
        · obtain ⟨msgHandlers, hinstall⟩ := installGranted_eq (Client.mqttAckListUnrecord
            { c with fault := c.fault || decide (1 < granted.length) } 9 packetId).2
            (Client.mqttAckListUnrecord
              { c with fault := c.fault || decide (1 < granted.length) } 9 packetId).1
            (granted.headD 0)
          rw [hinstall]
          exact hunrecord.congr rfl rfl rfl rfl
    · unfold Client.mqttUnsubackPacketHandle
      split
      · exact h.congr rfl rfl rfl rfl
      · simp only
        split_ifs
        · exact h
        · exact kept_mqttAckListUnrecord h 11 _ hidle
        · split
          · exact kept_mqttAckListUnrecord h 11 _ hidle
          · exact (kept_mqttAckListUnrecord h 11 _ hidle).congr rfl rfl rfl rfl
          · exact (kept_mqttAckListUnrecord h 11 _ hidle).congr rfl rfl rfl rfl
    · exact h

/-- The second half of a packet keeps what the records hold. -/
theorem kept_finish {c : Client} (h : c.Kept strict n) (e : Env) : (c.finish e).Kept strict n := by
  unfold Client.finish
  split
  · exact h
  · rename_i len d hpending
    have hrecord := h.record e 6 d.packetid len none fun a hkey _ hpayload hstrict => by
      obtain ⟨htype, hid⟩ := Prod.mk.inj hkey
      obtain ⟨rfl, rest, hfront⟩ := h.waits len d hpending (hstrict.resolve_left (by simp))
      unfold AckHandler.Fits
      rw [htype, hid]
      rw [← hfront, show 4 % 65536 = (ackFrame 5 d.packetid).length from
        (ackFrame_length 5 _).symm, List.take_left] at hpayload
      exact hpayload
    simp only
    split_ifs
    · exact hrecord.drop rfl (fun a ha => ha) not_waits_nothing rfl
    · exact (kept_mqttDeliverMessage hrecord d).drop rfl (fun a ha => ha) not_waits_nothing rfl
  · exact h.drop rfl (fun _ ha => List.mem_of_mem_filter ha) not_waits_nothing rfl

/-- The packet of a record is a frame. -/
theorem AckHandler.Fits.isFrame {a : AckHandler} (h : a.Fits) (hn : n < 65536)
    (hbounded : a.payload.length ≤ n) : IsFrame a.payload := by
  have hframe : ∀ header body, a.payload = frame header body → IsFrame a.payload := by
    intro header body heq
    have hlength := frame_length header body
    rw [heq] at hbounded
    exact ⟨header, body, heq, by omega⟩
  unfold AckHandler.Fits at h
  split at h
  · obtain ⟨_, _, _, heq⟩ := h
    exact hframe _ _ heq
  · obtain ⟨_, _, _, heq⟩ := h
    exact hframe _ _ heq
  · exact hframe _ _ h
  · exact hframe _ _ h
  · obtain ⟨_, -, heq⟩ := h
    exact hframe _ _ heq
  · obtain ⟨_, -, heq⟩ := h
    exact hframe _ _ heq
  · exact h.elim

/-- A record gets a new timer. -/
theorem Client.Kept.setTimer {c : Client} (h : c.Kept strict n) (index : ℕ) {a : AckHandler}
    (ha : a ∈ c.ackHandlers) (timer : ℕ) :
    Client.Kept strict n { c with ackHandlers := c.ackHandlers.set index { a with timer } } := by
  refine ⟨h.length, ?_, ?_, h.waits, h.sent⟩
  · intro b hb
    rcases List.mem_or_eq_of_mem_set hb with hb | rfl
    · exact h.bounded b hb
    · exact h.bounded a ha
  · intro b hb htype
    rcases List.mem_or_eq_of_mem_set hb with hb | rfl
    · exact h.fits b hb htype
    · exact h.fits a ha htype

/-- A record that is sent again keeps what the records hold. -/
theorem kept_mqttAckListScan {c : Client} (hn : n < 65536) (h : c.Kept strict n) (e : Env)
    (index : ℕ) (flag : Bool) (hidle : ¬ c.pending.Waits) :
    (c.mqttAckListScan e index flag).Kept strict n := by
  unfold Client.mqttAckListScan
  by_cases hstate : e.state ≠ .connected
  · rw [if_pos hstate]
    exact h
  · rw [if_neg hstate]
    split
    · exact h
    · rename_i a hget
      have ha : a ∈ c.ackHandlers := List.mem_of_getElem? hget
      split_ifs
      · exact h
      · have hset := h.setTimer index ha (platformTimerCutdown e.now cmdTimeout)
        have hwrite := hset.write a.payload (h.bounded a ha) fun _ => hidle
        have hsend := hwrite.send e (h.bounded a ha) fun hstrict => by
          rw [Client.write, store_zero, List.take_left]
          exact (h.fits a ha (Or.inr hstrict)).isFrame hn (h.bounded a ha)
        unfold Client.mqttAckHandlerResend Client.transmit
        simp only [Int.toNat_natCast]
        split_ifs
        · exact hwrite
        · exact hsend
        · exact hsend
      · exact h.drop rfl (fun b hb => List.mem_of_mem_eraseIdx hb) hidle rfl
      · exact h

/-- The keep-alive keeps what the records hold. -/
theorem kept_mqttKeepAlive {c : Client} (hn : n < 65536) (h : c.Kept strict n) (e : Env)
    (expired : Bool) (hidle : ¬ c.pending.Waits) :
    (c.mqttKeepAlive e expired).Kept strict n := by
  unfold Client.mqttKeepAlive
  rw [h.length]
  simp only
  split_ifs
  · exact h
  · exact h.congr rfl rfl rfl rfl
  · exact (kept_transmit_only hn h e (fills_mqttSerializeZero n 12) fun _ => hidle).congr
      rfl rfl rfl rfl
  · exact h
  · exact h

/-- A connection that is accepted keeps what the records hold. -/
theorem kept_acceptConnection {c : Client} (h : c.Kept strict n) (e : Env) :
    (c.acceptConnection e).Kept strict n := by
  obtain ⟨thread, state, heq⟩ := acceptConnection_eq c e
  rw [heq]
  exact h.congr rfl rfl rfl rfl

/-- A connection keeps what the records hold. -/
theorem kept_mqttConnectWithResults {c : Client} (hn : n < 65536) (h : c.Kept strict n)
    (e : Env) {options : ConnectData} (hoptions : options.Sendable) (answer : Option Bytes)
    (hidle : strict → ¬ c.pending.Waits) :
    (c.mqttConnectWithResults e options answer).Kept strict n := by
  unfold Client.mqttConnectWithResults
  rw [h.length]
  by_cases hstate : e.state = .connected
  · rw [if_pos hstate]
    exact h
  · rw [if_neg hstate]
    rcases fills_mqttSerializeConnect hn hoptions with ⟨hrc, -⟩ | ⟨hrc, hframe, hroom⟩
    · simp only [if_pos hrc]
      exact kept_acceptConnection h e
    · have hwrite := h.write _ hroom hidle
      have hpos : ¬ (mqttSerializeConnect n options).1 ≤ 0 := by
        rw [hrc, hframe, frame_length]
        omega
      have hsend := hwrite.send e hroom fun _ => by
        rw [Client.write, store_zero, List.take_left, hframe]
        rw [hframe, frame_length] at hroom
        exact ⟨_, _, rfl, by omega⟩
      rw [show (mqttSerializeConnect n options).2.length =
        (mqttSerializeConnect n options).1.toNat by rw [hrc, Int.toNat_natCast]] at hsend
      simp only [if_neg hpos]
      split_ifs
      · exact kept_acceptConnection hsend e
      · exact hsend.congr rfl rfl rfl rfl

/-! ## Whole runs -/

/-- The options of a connection can be put into a packet. -/
def Action.Sendable : Action → Prop
  | .connect options _ => options.Sendable
  | _ => True

/-- No call of the application while the client waits for its second lock. -/
def Calm (c : Client) : Action × Env → Prop
  | (.publish .., _) | (.subscribe .., _) | (.unsubscribe .., _) | (.disconnect, _)
  | (.connect .., _) => ¬ c.pending.Waits
  | _ => True

/-- What may wait for the rest of a packet keeps what the records hold. -/
theorem kept_whenIdle {c : Client} {next : Client → Client} (h : c.Kept strict n)
    (hnext : ¬ c.pending.Waits → (next c).Kept strict n) : (c.whenIdle next).Kept strict n := by
  unfold Client.whenIdle
  split
  · rename_i hnothing
    exact hnext (by rw [hnothing]; exact not_waits_nothing)
  · exact h

/-- What uses an identifier that was read keeps what the records hold. -/
theorem kept_withIssued {c : Client} {next : ℕ → Client} (h : c.Kept strict n) (ticket : ℕ)
    (hnext : ∀ packetId, (next packetId).Kept strict n) :
    (c.withIssued ticket next).Kept strict n := by
  unfold Client.withIssued
  split
  · exact hnext _
  · exact h

/-- Every step keeps what the records hold. -/
theorem Client.Kept.step {c : Client} (hn : n < 65536) (hfour : 4 ≤ n) (h : c.Kept strict n)
    {x : Action × Env} (hsendable : x.1.Sendable) (hcalm : strict → Calm c x) :
    (c.step x).Kept strict n := by
  obtain ⟨a, e⟩ := x
  cases a with
  | nextPacketId => exact h.congr rfl rfl rfl rfl
  | readPacketId => exact h.congr rfl rfl rfl rfl
  | publish ticket topic qos retained id payload =>
    simp only [Client.step]
    split_ifs
    · exact kept_mqttPublish hn h e _ _ _ _ _ _ hcalm
    · exact kept_withIssued h ticket fun packetId => kept_mqttPublish hn h e _ _ _ _ _ _ hcalm
  | subscribe ticket topicFilter qos handler =>
    exact kept_withIssued h ticket fun packetId => kept_mqttSubscribe hn h e _ _ _ _ hcalm
  | unsubscribe ticket topicFilter =>
    exact kept_withIssued h ticket fun packetId => kept_mqttUnsubscribe hn h e _ _ hcalm
  | disconnect => exact kept_mqttDisconnect hn h e hcalm
  | packet readBuf =>
    apply kept_whenIdle h
    intro hidle
    exact kept_mqttPacketHandle hn hfour (c := { c with readBuf := readBuf })
      (h.congr rfl rfl rfl rfl) e hidle
  | finish => exact kept_finish h e
  | scan index flag =>
    apply kept_whenIdle h
    intro hidle
    exact kept_mqttAckListScan hn h e index flag hidle
  | keepAlive expired =>
    apply kept_whenIdle h
    intro hidle
    exact kept_mqttKeepAlive hn h e expired hidle
  | connect options answer => exact kept_mqttConnectWithResults hn h e hsendable answer hcalm
  | cleanSession =>
    apply kept_whenIdle h
    intro hidle
    unfold Client.mqttCleanSession
    split_ifs
    · exact h.drop rfl (fun a ha => by simp at ha) hidle rfl
    · exact h

/-- What the records hold, and what was handed over, in every run. -/
theorem run_kept (strict : Prop) {writeBuf : Bytes} (readBuf : Bytes)
    (interceptorHandler : Option ℕ) (hfour : 4 ≤ writeBuf.length)
    (hn : writeBuf.length < 65536) {l : List (Action × Env)}
    (hsendable : ∀ x ∈ l, x.1.Sendable)
    (hcalm : strict → Run.EachStep Client.step Calm
      (Client.init writeBuf readBuf interceptorHandler) l) :
    (Client.run writeBuf readBuf interceptorHandler l).Kept strict writeBuf.length := by
  have hinit : (Client.init writeBuf readBuf interceptorHandler).Kept strict writeBuf.length := by
    refine ⟨rfl, by simp [Client.init], by simp [Client.init], ?_, by simp [Client.init]⟩
    intro len d hwaits
    exact absurd ⟨len, d, hwaits⟩ not_waits_nothing
  refine Run.inv_after (C := fun c x => x.1.Sendable ∧ (strict → Calm c x)) ?_ hinit ?_
  · rintro c x hc ⟨hsend, hquiet⟩
    exact hc.step hn hfour hsend hquiet
  · intro l₁ x hl
    exact ⟨hsendable x (hl.subset (by simp)), fun hstrict => hcalm hstrict l₁ x hl⟩

/-- In every run, each record but those of a PUBREL holds the packet that belongs to its type
and identifier, and whatever is handed to the network goes out as it is if success is reported,
and otherwise in a part or with other bytes behind it. If no call of the application comes between
the two locks for a message of quality of service 2, the records of a PUBREL hold their PUBREC
too, and everything that is handed to the network, again or for the first time, is a whole
packet. -/
theorem run_resends {writeBuf : Bytes} (readBuf : Bytes) (interceptorHandler : Option ℕ)
    (hfour : 4 ≤ writeBuf.length) (hn : writeBuf.length < 65536) {l : List (Action × Env)}
    (hsendable : ∀ x ∈ l, x.1.Sendable) :
    (∀ a ∈ (Client.run writeBuf readBuf interceptorHandler l).ackHandlers,
        a.type ≠ 6 → a.Fits) ∧
      (∀ s ∈ (Client.run writeBuf readBuf interceptorHandler l).sent, s.Matches) ∧
      (Run.EachStep Client.step Calm (Client.init writeBuf readBuf interceptorHandler) l →
        (∀ a ∈ (Client.run writeBuf readBuf interceptorHandler l).ackHandlers, a.Fits) ∧
          ∀ s ∈ (Client.run writeBuf readBuf interceptorHandler l).sent, IsFrame s.packet) := by
  have hkept := run_kept False readBuf interceptorHandler hfour hn hsendable False.elim
  refine ⟨fun a ha htype => hkept.fits a ha (Or.inl htype), fun s hs => (hkept.sent s hs).1, ?_⟩
  intro hcalm
  have hkept := run_kept True readBuf interceptorHandler hfour hn hsendable fun _ => hcalm
  exact ⟨fun a ha => hkept.fits a ha (Or.inr trivial), fun s hs => (hkept.sent s hs).2 trivial⟩

/-- A PUBLISH of quality of service 1 that waits for its PUBACK. -/
def published : List (Action × Env) :=
  [(.nextPacketId, calmEnv .connected), (.readPacketId, calmEnv .connected),
    (.publish 0 [97] 1 0 0 [98], calmEnv .connected)]

/-- The PUBLISH is a record and was handed to the network. -/
theorem run_resends_published :
    4 ≤ (List.replicate 16 0 : Bytes).length ∧ (List.replicate 16 0 : Bytes).length < 65536 ∧
      (∀ x ∈ published, x.1.Sendable) ∧
      (∀ a ∈ (Client.run (List.replicate 16 0) [] none published).ackHandlers,
        a.type ≠ 6 → a.Fits) ∧
      (∀ s ∈ (Client.run (List.replicate 16 0) [] none published).sent, s.Matches) ∧
      (Run.EachStep Client.step Calm (Client.init (List.replicate 16 0) [] none) published →
        (∀ a ∈ (Client.run (List.replicate 16 0) [] none published).ackHandlers, a.Fits) ∧
          ∀ s ∈ (Client.run (List.replicate 16 0) [] none published).sent, IsFrame s.packet) := by
  have hsendable : ∀ x ∈ published, x.1.Sendable := by simp [published, Action.Sendable]
  exact ⟨by decide, by decide, hsendable,
    run_resends [] none (by decide) (by decide) hsendable⟩

end Saliwen.Mqtt
