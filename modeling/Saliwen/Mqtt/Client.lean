import Saliwen.Lib.Once
import Saliwen.Lib.Run
import Saliwen.Mqtt.Connect
import Saliwen.Mqtt.Send
import Saliwen.Mqtt.Stream
import Saliwen.Mqtt.Topic

/-!
# The MQTT client

The client keeps a list of the acknowledgements it waits for and a list of message handlers.
Application threads publish, subscribe and unsubscribe; the thread of the client handles the
packets that arrive and looks through the list of acknowledgements. A step of the model is what
happens under the write lock, together with the code around it that touches no shared data.
Where the client's thread takes the lock twice for one packet, `pending` says what it still has
to do, and the other threads can come in between. The counter of packet identifiers has a lock
of its own, and is read behind it: both are steps, and a call uses an identifier that was read
before. A thread looks at the state of the client before it takes the lock, so what it saw is an
input of its step, like memory, the network, the clock and the values of variables that are not
initialised. Two things are simpler than in the source. `mqtt_clean_session` takes no lock there
and is one step here, into which no other call falls. A message handler has the text of its
filter, where the source keeps the pointer of the caller, whose text has to stay as it is. A step
that leaves a buffer or follows a pointer that is not initialised sets `fault`; behind it the
source can do anything, so what is said of a run is to be read up to its first fault.
-/

namespace Saliwen.Mqtt

open CJson (Bytes)

/-! ## Data -/

/-- `client_state_t`. -/
inductive ClientState where
  | invalid
  | initialized
  | connected
  | disconnected
  | cleanSession
  deriving DecidableEq, Repr

/-- `message_handlers_t`: the C string of the filter, the quality of service and the callback. -/
structure MsgHandler where
  topicFilter : Bytes
  qos : ℕ
  handler : Option ℕ
  deriving DecidableEq, Repr

/-- `ack_handlers_t`: the packet type that is waited for, the identifier, the message handler of
a SUBSCRIBE or UNSUBSCRIBE, the packet to send again, and the end of the waiting time. -/
structure AckHandler where
  type : ℕ
  packetId : ℕ
  handler : Option MsgHandler
  payload : Bytes
  timer : ℕ
  deriving DecidableEq, Repr

/-- A call of a callback with a message. -/
structure Delivery where
  handler : Option ℕ
  topic : Bytes
  message : PublishData
  payload : Bytes

/-- What the client's thread has still to do for the packet in the read buffer. -/
inductive Pending where
  | nothing
  /-- The PUBREC for a PUBLISH of quality of service 2 is sent. -/
  | recordPubrel (len : ℕ) (message : PublishData)
  /-- The answer to a PUBREC or PUBREL is sent. -/
  | unrecord (type packetId : ℕ)

/-- A call of `mqtt_send_packet`: the packet in the write buffer, whether success was reported,
and the bytes that have gone out. -/
structure Sending where
  packet : Bytes
  success : Bool
  wire : Bytes
  deriving DecidableEq, Repr

/-- What is in a pointer to a message handler that is not initialised. -/
inductive Stray where
  | null
  /-- The address of an installed handler, by its place in the list. -/
  | installed (index : ℕ)
  /-- The address of anything else. -/
  | other
  deriving DecidableEq, Repr

/-- `mqtt_client_t`, with the packet identifiers that were read, what the client has sent and
delivered, the takes and releases of the identifiers of quality of service 2, and whether it has
used memory that is not its own. -/
structure Client where
  /-- Whether `mqtt_thread` is set. -/
  thread : Bool
  state : ClientState
  packetId : ℕ
  issued : List ℕ
  ackHandlerNumber : ℕ
  ackHandlers : List AckHandler
  msgHandlers : List MsgHandler
  pingOutstanding : ℕ
  writeBuf : Bytes
  readBuf : Bytes
  interceptorHandler : Option ℕ
  pending : Pending
  sent : List Sending
  delivered : List Delivery
  log : List (Once.Event ℕ)
  fault : Bool

/-- What the surroundings decide during a step: the state that the thread has seen, the clock,
the return values of `network_write` until its timer expires, the memory behind the write buffer,
whether the allocations and the creation of a thread succeed, and what is in variables before they
are set. -/
structure Env where
  state : ClientState
  now : ℕ
  network : List ℤ
  beyond : Bytes
  handlerMemory : Bool
  ackMemory : Bool
  threadMemory : Bool
  publish : PublishData
  ack : AckData
  msgHandler : Stray

/-- `c->mqtt_cmd_timeout` in milliseconds. -/
def cmdTimeout : ℕ := 4000

/-- `platform_timer_cutdown`, in a clock of 32 bits. -/
def platformTimerCutdown (now timeout : ℕ) : ℕ := (now + timeout) % 2 ^ 32

/-- `platform_timer_is_expired`. -/
def platformTimerIsExpired (now timer : ℕ) : Bool := timer < now

/-! ## The list of acknowledgements -/

/-- The part of `mqtt_get_next_packet_id` under the lock of the counter. -/
def Client.nextPacketId (c : Client) : Client :=
  { c with packetId := if c.packetId = 0xFFFE then 1 else c.packetId + 1 }

/-- The part of `mqtt_get_next_packet_id` behind it: the counter is read once more. -/
def Client.readPacketId (c : Client) : Client := { c with issued := c.issued ++ [c.packetId] }

/-- `mqtt_ack_handler_is_maximum`. -/
def Client.mqttAckHandlerIsMaximum (c : Client) : Bool := 64 ≤ c.ackHandlerNumber

/-- `mqtt_ack_list_node_is_exist`. -/
def Client.mqttAckListNodeIsExist (c : Client) (type packetId : ℕ) : Bool :=
  c.ackHandlers.any fun a => a.packetId = packetId && a.type = type

/-- The return values of `mqtt_ack_list_record`. -/
inductive RecordRc where
  | success
  | nodeIsExist
  | memNotEnough
  deriving DecidableEq, Repr

/-- `mqtt_ack_list_record`: the payload is copied from the write buffer. -/
def Client.mqttAckListRecord (c : Client) (e : Env) (type packetId payloadLen : ℕ)
    (handler : Option MsgHandler) : RecordRc × Client :=
  if c.mqttAckListNodeIsExist type packetId then (.nodeIsExist, c)
  else if e.ackMemory then
    (.success, { c with
      ackHandlers := c.ackHandlers ++ [{
        type, packetId, handler
        payload := c.writeBuf.take (payloadLen % 65536)
        timer := platformTimerCutdown e.now cmdTimeout }]
      ackHandlerNumber := c.ackHandlerNumber + 1 })
  else (.memNotEnough, c)

/-- `mqtt_ack_list_unrecord`: every matching record goes, and the variable behind `handler` gets
the handler of the last one, if there is one. -/
def Client.mqttAckListUnrecord (c : Client) (type packetId : ℕ) :
    Option (Option MsgHandler) × Client :=
  let hits := c.ackHandlers.filter fun a => a.packetId = packetId && a.type = type
  (hits.getLast?.map (·.handler), { c with
    ackHandlers := c.ackHandlers.filter fun a => !(a.packetId = packetId && a.type = type)
    ackHandlerNumber := c.ackHandlerNumber - hits.length })

/-- `mqtt_send_packet` of the first bytes of the write buffer, with what it reports. -/
def Client.mqttSendPacket (c : Client) (e : Env) (length : ℕ) : Bool × Client :=
  let r := Mqtt.mqttSendPacket (c.writeBuf ++ e.beyond) length e.network
  (r.1, { c with sent := c.sent ++ [⟨c.writeBuf.take length, r.1, r.2⟩] })

/-- A serializer has written to the write buffer. -/
def Client.write (c : Client) (written : Bytes) : Client :=
  { c with writeBuf := store c.writeBuf 0 written }

/-- How a packet is sent: it is serialized into the write buffer and handed to the network. If
one of the two fails, the caller returns; otherwise it goes on with the length of the packet. -/
def Client.transmit (c : Client) (e : Env) (serialized : ℤ × Bytes)
    (next : ℕ → Client → Client) : Client :=
  let c := c.write serialized.2
  if serialized.1 ≤ 0 then c
  else
    let r := c.mqttSendPacket e serialized.1.toNat
    if r.1 then next serialized.1.toNat r.2 else r.2

/-! ## Message handlers -/

/-- `mqtt_msg_handlers_install`: a handler with the filter of an installed one is dropped. -/
def Client.mqttMsgHandlersInstall (c : Client) (handler : MsgHandler) : Client :=
  if c.msgHandlers.any fun h => h.topicFilter = handler.topicFilter then c
  else { c with msgHandlers := c.msgHandlers ++ [handler] }

/-- `mqtt_get_msg_handler`: the first handler whose filter equals or matches the topic. -/
def Client.mqttGetMsgHandler (c : Client) (topic : Bytes) : Option MsgHandler :=
  c.msgHandlers.find? fun h => h.topicFilter = topic || mqttTopicIsMatched h.topicFilter topic

/-- Topic and payload of a message lie inside of the read buffer. -/
def PublishData.Inside (d : PublishData) (readBuf : Bytes) : Prop :=
  d.topicName.data + d.topicName.len ≤ readBuf.length ∧
    0 ≤ d.payloadlen ∧ d.payload + d.payloadlen ≤ readBuf.length

instance (d : PublishData) (readBuf : Bytes) : Decidable (d.Inside readBuf) :=
  inferInstanceAs (Decidable (_ ∧ _ ∧ _))

/-- `memset(ptr, 0, len)` in the read buffer. -/
def zeroed (buf : Bytes) (ptr len : ℕ) : Bytes := store buf ptr (List.replicate len 0)

/-- `mqtt_deliver_message`: the handler of the topic is called, or else the interceptor, and
payload and topic are erased. Pointers that lead out of the buffer are a fault. -/
def Client.mqttDeliverMessage (c : Client) (d : PublishData) : Client :=
  if d.Inside c.readBuf then
    let topic := d.topicName.text c.readBuf
    let callback := match c.mqttGetMsgHandler topic with
      | some h => some h.handler
      | none => c.interceptorHandler.map some
    { c with
      delivered := c.delivered ++
        (callback.map fun handler => ⟨handler, topic.take 63, d, d.payloadText c.readBuf⟩).toList
      readBuf := zeroed (zeroed c.readBuf d.payload d.payloadlen.toNat) d.topicName.data
        d.topicName.len }
  else { c with fault := true }

/-! ## Calls of the application -/

/-- `mqtt_set_publish_dup(c, 1)`. -/
def setPublishDup : Bytes → Bytes
  | [] => []
  | byte :: rest =>
    if headerType byte = 3 then headerByte 3 1 (headerQos byte) (headerRetain byte) :: rest
    else byte :: rest

/-- The part of `mqtt_publish` behind the choice of the identifier: the packet is sent, and for a
quality of service above 0 it is kept, marked as a duplicate, until it is acknowledged. -/
def Client.publishPacket (c : Client) (e : Env) (topic : Bytes) (qos retained id : ℕ)
    (payload : Bytes) : Client :=
  c.transmit e (mqttSerializePublish c.writeBuf.length 0 qos retained id ⟨some topic, none⟩ payload)
    fun len c =>
      if qos = 1 ∨ qos = 2 then
        let c := { c with writeBuf := setPublishDup c.writeBuf }
        let r := c.mqttAckListRecord e (if qos = 1 then 4 else 5) id len none
        if r.1 = .memNotEnough then { r.2 with state := .disconnected } else r.2
      else c

/-- `mqtt_publish` of a message with its payload; `qos` is 0, 1 or 2. A message of quality of
service 0 keeps the identifier that the caller has given it. -/
def Client.mqttPublish (c : Client) (e : Env) (packetId : ℕ) (topic : Bytes)
    (qos retained id : ℕ) (payload : Bytes) : Client :=
  if e.state ≠ .connected then c
  else if qos = 0 then c.publishPacket e topic qos retained id payload
  else if c.mqttAckHandlerIsMaximum then { c with state := .disconnected }
  else c.publishPacket e topic qos retained packetId payload

/-- `MQTTSerialize_subscribe` for one filter. -/
def mqttSerializeSubscribe (buflen dup packetid : ℕ) (topicFilter : MQTTString) (qos : ℕ) :
    ℤ × Bytes :=
  let remLen := 2 + (2 + mqttStrlen topicFilter + 1)
  if buflen < mqttPacketLen remLen then (-2, [])
  else
    let written := headerByte 8 dup 1 0 :: (mqttPacketEncode remLen ++ writeInt packetid ++
      writeMQTTString topicFilter ++ [UInt8.ofNat qos])
    (written.length, written)

/-- `MQTTSerialize_unsubscribe` for one filter. -/
def mqttSerializeUnsubscribe (buflen dup packetid : ℕ) (topicFilter : MQTTString) : ℤ × Bytes :=
  let remLen := 2 + (2 + mqttStrlen topicFilter)
  if buflen < mqttPacketLen remLen then (-2, [])
  else
    let written := headerByte 10 dup 1 0 :: (mqttPacketEncode remLen ++ writeInt packetid ++
      writeMQTTString topicFilter)
    (written.length, written)

/-- The common part of `mqtt_subscribe` and `mqtt_unsubscribe` behind the serializer: send the
packet, create the message handler and record the acknowledgement. -/
def Client.sendAndRecord (c : Client) (e : Env) (type packetId : ℕ) (serialized : ℤ × Bytes)
    (handler : MsgHandler) : Client :=
  c.transmit e serialized fun len c =>
    if e.handlerMemory then (c.mqttAckListRecord e type packetId len (some handler)).2 else c

/-- `mqtt_subscribe`; callback 0 is `default_msg_handler`. -/
def Client.mqttSubscribe (c : Client) (e : Env) (packetId : ℕ) (topicFilter : Bytes) (qos : ℕ)
    (handler : Option ℕ) : Client :=
  if e.state ≠ .connected then c
  else c.sendAndRecord e 9 packetId
    (mqttSerializeSubscribe c.writeBuf.length 0 packetId ⟨some topicFilter, none⟩ qos)
    ⟨CJson.cString topicFilter, qos, some (handler.getD 0)⟩

/-- `mqtt_unsubscribe`. -/
def Client.mqttUnsubscribe (c : Client) (e : Env) (packetId : ℕ) (topicFilter : Bytes) :
    Client :=
  if e.state ≠ .connected then c
  else c.sendAndRecord e 11 packetId
    (mqttSerializeUnsubscribe c.writeBuf.length 0 packetId ⟨some topicFilter, none⟩)
    ⟨CJson.cString topicFilter, 0, none⟩

/-- `mqtt_disconnect`. -/
def Client.mqttDisconnect (c : Client) (e : Env) : Client :=
  { c.transmit e (mqttSerializeZero c.writeBuf.length 14) fun _ c => c with
    state := .cleanSession }

/-! ## Packets that arrive -/

/-- `mqtt_puback_and_pubcomp_packet_handle`. -/
def Client.mqttPubackAndPubcompPacketHandle (c : Client) (e : Env) : Client :=
  match mqttDeserializeAck e.ack c.readBuf with
  | none => { c with fault := true }
  | some (_, data) => (c.mqttAckListUnrecord data.packettype data.packetid).2

/-- The end of `mqtt_suback_packet_handle`: the handler of the record is installed, unless the
broker has refused the subscription. -/
def Client.installGranted (c : Client) (handler : Option (Option MsgHandler)) (grantedQos : ℕ) :
    Client :=
  match handler with
  | some (some handler) => if grantedQos = 0x80 then c else c.mqttMsgHandlersInstall handler
  | _ => c

/-- `mqtt_suback_packet_handle`. There is room for one code; a second one is stored behind it. -/
def Client.mqttSubackPacketHandle (c : Client) (e : Env) : Client :=
  match mqttDeserializeSuback 1 e.ack.packetid c.readBuf with
  | none => { c with fault := true }
  | some (rc, packetId, granted) =>
    let c := { c with fault := c.fault || decide (1 < granted.length) }
    if rc ≠ 1 then c
    else
      let r := c.mqttAckListUnrecord 9 packetId
      r.2.installGranted r.1 (granted.headD 0)

/-- `mqtt_unsuback_packet_handle`. The handler of the record is destroyed, not the installed one.
The variable `msg_handler` is not initialised: without a record, whatever it points to is taken
out of its list and freed. -/
def Client.mqttUnsubackPacketHandle (c : Client) (e : Env) : Client :=
  match mqttDeserializeUnsuback 0 c.readBuf with
  | none => { c with fault := true }
  | some (rc, packetId) =>
    if rc ≠ 1 then c
    else
      let r := c.mqttAckListUnrecord 11 packetId
      if r.1 ≠ none then r.2
      else match e.msgHandler with
        | .null => r.2
        | .installed index =>
          { r.2 with msgHandlers := r.2.msgHandlers.eraseIdx index, fault := true }
        | .other => { r.2 with fault := true }

/-- `mqtt_publish_packet_handle`, up to the point where the write lock is taken a second time. -/
def Client.mqttPublishPacketHandle (c : Client) (e : Env) : Client :=
  match mqttDeserializePublish { e.publish with payloadlen := 0 } c.readBuf with
  | none => { c with fault := true }
  | some (rc, d) =>
    if rc ≠ 1 then c
    else if d.qos = 0 then c.mqttDeliverMessage d
    else if d.qos = 1 then
      c.transmit e (mqttSerializeAck c.writeBuf.length 4 0 d.packetid) fun _ c =>
        c.mqttDeliverMessage d
    else if d.qos = 2 then
      c.transmit e (mqttSerializeAck c.writeBuf.length 5 0 d.packetid) fun len c =>
        { c with pending := .recordPubrel len d }
    else c

/-- `mqtt_publish_ack_packet`: the answer to a PUBREC or a PUBREL. -/
def Client.mqttPublishAckPacket (c : Client) (e : Env) (packetId packetType : ℕ) : Client :=
  match packetType with
  | 5 =>
    let (len, written) := mqttSerializeAck c.writeBuf.length 6 0 packetId
    let r := (c.write written).mqttAckListRecord e 7 packetId len.toNat none
    if r.1 = .success ∧ 0 < len then (r.2.mqttSendPacket e len.toNat).2 else r.2
  | 6 => c.transmit e (mqttSerializeAck c.writeBuf.length 7 0 packetId) fun _ c => c
  | _ => c

/-- `mqtt_pubrec_and_pubrel_packet_handle`, up to the point where the write lock is taken a
second time. The return value of the answer is not looked at. -/
def Client.mqttPubrecAndPubrelPacketHandle (c : Client) (e : Env) : Client :=
  match mqttDeserializeAck e.ack c.readBuf with
  | none => { c with fault := true }
  | some (rc, data) =>
    if rc ≠ 1 then c
    else { c.mqttPublishAckPacket e data.packetid data.packettype with
      pending := .unrecord data.packettype data.packetid }

/-- `mqtt_packet_handle` for a packet that was read into the read buffer. Each handler but the
one of PINGRESP returns when the client is not connected. -/
def Client.mqttPacketHandle (c : Client) (e : Env) : Client :=
  if headerType (c.readBuf.headD 0) = 13 then { c with pingOutstanding := 0 }
  else if e.state ≠ .connected then c
  else match headerType (c.readBuf.headD 0) with
    | 3 => c.mqttPublishPacketHandle e
    | 4 | 7 => c.mqttPubackAndPubcompPacketHandle e
    | 5 | 6 => c.mqttPubrecAndPubrelPacketHandle e
    | 9 => c.mqttSubackPacketHandle e
    | 11 => c.mqttUnsubackPacketHandle e
    | _ => c

/-- What is left to do for a packet behind the second lock. -/
def Client.finish (c : Client) (e : Env) : Client :=
  match c.pending with
  | .nothing => c
  | .recordPubrel len d =>
    let r := c.mqttAckListRecord e 6 d.packetid len none
    if r.1 = .nodeIsExist then { r.2 with pending := .nothing }
    else { r.2.mqttDeliverMessage d with
      pending := .nothing, log := r.2.log ++ [.take d.packetid] }
  | .unrecord type packetId =>
    let c := (c.mqttAckListUnrecord type packetId).2
    { c with
      pending := .nothing
      log := if type = 6 then c.log ++ [.release packetId] else c.log }

/-! ## The other work of the client's thread -/

/-- `mqtt_ack_handler_resend` for the record at an index: its time starts again, and its packet
is copied to the write buffer and sent. -/
def Client.mqttAckHandlerResend (c : Client) (e : Env) (index : ℕ) (a : AckHandler) : Client :=
  let a := { a with timer := platformTimerCutdown e.now cmdTimeout }
  let c := { c with ackHandlers := c.ackHandlers.set index a }
  c.transmit e (a.payload.length, a.payload) fun _ c => c

/-- `mqtt_ack_list_scan` at one record: a record of a PUBLISH or of its acknowledgements is
sent again, another one is destroyed. -/
def Client.mqttAckListScan (c : Client) (e : Env) (index : ℕ) (flag : Bool) : Client :=
  if e.state ≠ .connected then c
  else match c.ackHandlers[index]? with
    | none => c
    | some a =>
      if !platformTimerIsExpired e.now a.timer && flag then c
      else if a.type = 4 ∨ a.type = 5 ∨ a.type = 6 ∨ a.type = 7 then
        c.mqttAckHandlerResend e index a
      else if flag then { c with
        ackHandlers := c.ackHandlers.eraseIdx index
        ackHandlerNumber := c.ackHandlerNumber - 1 }
      else c

/-- `mqtt_keep_alive`. -/
def Client.mqttKeepAlive (c : Client) (e : Env) (expired : Bool) : Client :=
  if e.state ≠ .connected then c
  else if expired then
    if c.pingOutstanding ≠ 0 then { c with state := .disconnected }
    else
      let (len, written) := mqttSerializeZero c.writeBuf.length 12
      if 0 < len then
        { c.transmit e (len, written) fun _ c => c with
          pingOutstanding := (c.pingOutstanding + 1) % 4 }
      else c
  else c

/-- Whether the read buffer at the arrival of a CONNACK says that the connection is accepted;
the variables behind `MQTTDeserialize_connack` are 0. -/
def connackAccepted (answer : Option Bytes) : Bool :=
  match answer.bind (mqttDeserializeConnack ⟨0, 0⟩) with
  | some (rc, data) => rc = 1 && data.connackRc = 0
  | none => false

/-- The end of `mqtt_connect_with_results` for a connection that was accepted. The first time,
the client's thread is created; if that fails, the network is released and the state stays as it
is. -/
def Client.acceptConnection (c : Client) (e : Env) : Client :=
  let c :=
    if c.thread then { c with state := .connected }
    else if e.threadMemory then { c with thread := true, state := .connected }
    else c
  { c with pingOutstanding := 0 }

/-- `mqtt_connect_with_results`, once the network is connected: the CONNECT is sent, and the
answer of the broker decides on the state. If the CONNECT does not fit into the write buffer,
`rc` is still that of `network_connect`, which was a success. -/
def Client.mqttConnectWithResults (c : Client) (e : Env) (options : ConnectData)
    (answer : Option Bytes) : Client :=
  if e.state = .connected then c
  else
    let serialized := mqttSerializeConnect c.writeBuf.length options
    if serialized.1 ≤ 0 then c.acceptConnection e
    else
      let r := (c.write serialized.2).mqttSendPacket e serialized.1.toNat
      if r.1 && connackAccepted answer then r.2.acceptConnection e
      else { r.2 with state := .initialized }

/-- `mqtt_clean_session`, at the end of the client's thread, with nothing in between. -/
def Client.mqttCleanSession (c : Client) (e : Env) : Client :=
  if e.state = .cleanSession then
    { c with ackHandlers := [], msgHandlers := [], state := .invalid, log := c.log ++ [.reset] }
  else c

/-! ## Schedules -/

/-- The steps of the application threads and of the client's thread. A call that needs a packet
identifier names the one of the issued ones that its thread has read. -/
inductive Action where
  | nextPacketId
  | readPacketId
  | publish (ticket : ℕ) (topic : Bytes) (qos retained id : ℕ) (payload : Bytes)
  | subscribe (ticket : ℕ) (topicFilter : Bytes) (qos : ℕ) (handler : Option ℕ)
  | unsubscribe (ticket : ℕ) (topicFilter : Bytes)
  | disconnect
  /-- A packet was read into the read buffer. -/
  | packet (readBuf : Bytes)
  | finish
  | scan (index : ℕ) (flag : Bool)
  | keepAlive (expired : Bool)
  | connect (options : ConnectData) (answer : Option Bytes)
  | cleanSession

/-- The client's thread takes up nothing new before it has finished a packet. -/
def Client.whenIdle (c : Client) (next : Client → Client) : Client :=
  match c.pending with
  | .nothing => next c
  | _ => c

/-- A thread goes on with a packet identifier that it has read. -/
def Client.withIssued (c : Client) (ticket : ℕ) (next : ℕ → Client) : Client :=
  match c.issued[ticket]? with
  | some packetId => next packetId
  | none => c

/-- One step. -/
def Client.step (c : Client) : Action × Env → Client
  | (.nextPacketId, _) => c.nextPacketId
  | (.readPacketId, _) => c.readPacketId
  | (.publish ticket topic qos retained id payload, e) =>
    if qos = 0 then c.mqttPublish e id topic qos retained id payload
    else c.withIssued ticket fun packetId => c.mqttPublish e packetId topic qos retained id payload
  | (.subscribe ticket topicFilter qos handler, e) => c.withIssued ticket fun packetId =>
    c.mqttSubscribe e packetId topicFilter qos handler
  | (.unsubscribe ticket topicFilter, e) => c.withIssued ticket fun packetId =>
    c.mqttUnsubscribe e packetId topicFilter
  | (.disconnect, e) => c.mqttDisconnect e
  | (.packet readBuf, e) => c.whenIdle fun c =>
    { c with readBuf := readBuf }.mqttPacketHandle e
  | (.finish, e) => c.finish e
  | (.scan index flag, e) => c.whenIdle fun c => c.mqttAckListScan e index flag
  | (.keepAlive expired, e) => c.whenIdle fun c => c.mqttKeepAlive e expired
  | (.connect options answer, e) => c.mqttConnectWithResults e options answer
  | (.cleanSession, e) => c.whenIdle fun c => c.mqttCleanSession e

/-- `mqtt_init`: the client before it connects, with its buffers. -/
def Client.init (writeBuf readBuf : Bytes) (interceptorHandler : Option ℕ) : Client where
  thread := false
  state := .initialized
  packetId := 1
  issued := []
  ackHandlerNumber := 0
  ackHandlers := []
  msgHandlers := []
  pingOutstanding := 0
  writeBuf := writeBuf
  readBuf := readBuf
  interceptorHandler := interceptorHandler
  pending := .nothing
  sent := []
  delivered := []
  log := []
  fault := false

/-! ## Connecting -/

/-- A CONNACK is taken as an acceptance when its code is 0, and also when it has none. -/
theorem connackAccepted_frame {header : UInt8} {body : Bytes} (rest : Bytes)
    (htype : headerType header = 2) (hlength : body.length < 2 ^ 28) :
    connackAccepted (some (frame header body ++ rest)) = true ↔
      body.length < 2 ∨ ∃ flags tail, body = flags :: 0 :: tail := by
  unfold connackAccepted
  rw [Option.bind_some, mqttDeserializeConnack_frame _ rest htype hlength]
  match body with
  | [] => simp
  | [flags] => simp
  | flags :: code :: tail =>
    have hzero : code.toNat = 0 ↔ code = 0 := UInt8.toNat_inj (b := 0)
    simp [hzero]

/-- An accepted connection touches the state, the thread and the pings. -/
theorem acceptConnection_eq (c : Client) (e : Env) : ∃ thread state, c.acceptConnection e =
    { c with thread := thread, state := state, pingOutstanding := 0 } := by
  unfold Client.acceptConnection
  simp only
  split_ifs
  · exact ⟨_, _, rfl⟩
  · exact ⟨_, _, rfl⟩
  · exact ⟨_, _, rfl⟩

/-- An accepted connection makes the client connected if its thread runs or can be created. -/
theorem acceptConnection_connected_iff (c : Client) (e : Env) :
    (c.acceptConnection e).state = .connected ↔
      c.thread = true ∨ e.threadMemory = true ∨ c.state = .connected := by
  unfold Client.acceptConnection
  cases c.thread with
  | true => simp
  | false => cases e.threadMemory <;> simp

/-- The client counts as connected after a CONNACK exactly when its thread runs already or can be
created (or another thread has connected it since the state was looked at), and its CONNECT did
not fit into the write buffer and was not sent at all, or was sent as a whole and the answer has
code 0 or no code. -/
theorem mqttConnectWithResults_connected_iff (c : Client) (e : Env) (options : ConnectData)
    {header : UInt8} {body : Bytes} (rest : Bytes) (hstate : e.state ≠ .connected)
    (htype : headerType header = 2) (hlength : body.length < 2 ^ 28) :
    (c.mqttConnectWithResults e options (some (frame header body ++ rest))).state = .connected ↔
      (c.thread = true ∨ e.threadMemory = true ∨ c.state = .connected) ∧
        (c.writeBuf.length < mqttPacketLen (mqttSerializeConnectLength options) ∨
          ((c.write (mqttSerializeConnect c.writeBuf.length options).2).mqttSendPacket e
              (mqttSerializeConnect c.writeBuf.length options).1.toNat).1 = true ∧
            (body.length < 2 ∨ ∃ flags tail, body = flags :: 0 :: tail)) := by
  unfold Client.mqttConnectWithResults
  rw [if_neg hstate]
  by_cases hfits : c.writeBuf.length < mqttPacketLen (mqttSerializeConnectLength options)
  · have hrc : (mqttSerializeConnect c.writeBuf.length options).1 = -2 := by
      rw [mqttSerializeConnect, if_pos hfits]
    simp only [hrc]
    rw [if_pos (by decide), acceptConnection_connected_iff]
    simp only [hfits, true_or, and_true]
  · have hrc : ¬ (mqttSerializeConnect c.writeBuf.length options).1 ≤ 0 := by
      rw [mqttSerializeConnect, if_neg hfits]
      simp only [List.length_cons]
      omega
    simp only
    rw [if_neg hrc, ← connackAccepted_frame rest htype hlength]
    generalize connackAccepted (some (frame header body ++ rest)) = accepted
    generalize hsend : (c.write (mqttSerializeConnect c.writeBuf.length options).2).mqttSendPacket
      e (mqttSerializeConnect c.writeBuf.length options).1.toNat = r
    have hkeep : r.2.thread = c.thread ∧ r.2.state = c.state := by
      rw [← hsend]
      exact ⟨rfl, rfl⟩
    by_cases haccepted : r.1 = true ∧ accepted = true
    · rw [if_pos (by simpa using haccepted), acceptConnection_connected_iff, hkeep.1, hkeep.2]
      simp only [haccepted, and_self, or_true, and_true]
    · rw [if_neg (by simpa using haccepted)]
      simp [hfits, haccepted]

/-- Surroundings in which everything succeeds, for a client in a given state: the network takes
the packet byte by byte. -/
def calmEnv (state : ClientState) : Env :=
  ⟨state, 0, List.replicate 64 1, [], true, true, true, ⟨0, 0, 0, 0, ⟨0, 0⟩, 0, 0⟩, ⟨0, 0, 0⟩,
    .null⟩

/-- A client that can send its CONNECT, and a broker that refuses it with code 5. -/
theorem mqttConnectWithResults_refused :
    let c := Client.init (List.replicate 64 0) [] none
    let e := calmEnv .initialized
    e.state ≠ .connected ∧ headerType 0x20 = 2 ∧ ([0, 5] : Bytes).length < 2 ^ 28 ∧
      ((c.mqttConnectWithResults e loginOptions (some (frame 0x20 [0, 5] ++ []))).state =
          .connected ↔
        (c.thread = true ∨ e.threadMemory = true ∨ c.state = .connected) ∧
          (c.writeBuf.length < mqttPacketLen (mqttSerializeConnectLength loginOptions) ∨
            ((c.write (mqttSerializeConnect c.writeBuf.length loginOptions).2).mqttSendPacket e
                (mqttSerializeConnect c.writeBuf.length loginOptions).1.toNat).1 = true ∧
              (([0, 5] : Bytes).length < 2 ∨
                ∃ flags tail, ([0, 5] : Bytes) = flags :: 0 :: tail))) :=
  ⟨by decide, by decide, by decide, mqttConnectWithResults_connected_iff
    (Client.init (List.replicate 64 0) [] none) (calmEnv .initialized) loginOptions []
    (by decide) (by decide) (by decide)⟩

end Saliwen.Mqtt
