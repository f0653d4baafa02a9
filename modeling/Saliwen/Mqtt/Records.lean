import Mathlib.Data.List.Nodup
import Saliwen.Mqtt.Client

/-!
# The list of acknowledgements over whole runs

What any step of the client does to the list of acknowledgements is one of a few changes of
its keys, the pairs of type and identifier. From this follow, for every interleaving of the
threads, that no key is in the list twice, that the counter of the list is its length, and that
a message of quality of service 2 is delivered once for each handshake.
-/

namespace Saliwen.Mqtt

open CJson (Bytes)

/-- Type and identifier of a record. -/
abbrev Key := ℕ × ℕ

/-- The keys in the list. -/
def Client.keys (c : Client) : List Key := c.ackHandlers.map fun a => (a.type, a.packetId)

/-- The changes of keys and counter, with the takes and releases of identifiers of quality of
service 2 that go with them; PUBREL records have type 6. When memory is short, a message can be
taken without a record. -/
inductive AckStep (short : Prop) :
    List Key → ℕ → List Key → ℕ → List (Once.Event ℕ) → Prop where
  | keep (keys : List Key) (n : ℕ) : AckStep short keys n keys n []
  | record (keys : List Key) (n : ℕ) (k : Key) (hnew : k ∉ keys) (htype : k.1 ≠ 6) :
      AckStep short keys n (keys ++ [k]) (n + 1) []
  | take (keys : List Key) (n id : ℕ) (hnew : (6, id) ∉ keys) :
      AckStep short keys n (keys ++ [(6, id)]) (n + 1) [.take id]
  | unrecord (keys : List Key) (n : ℕ) (k : Key) (htype : k.1 ≠ 6) :
      AckStep short keys n (keys.filter (· ≠ k)) (n - keys.count k) []
  | release (keys : List Key) (n id : ℕ) :
      AckStep short keys n (keys.filter (· ≠ (6, id))) (n - keys.count (6, id)) [.release id]
  | erase (keys : List Key) (n i : ℕ) (k : Key) (hget : keys[i]? = some k) (htype : k.1 ≠ 6) :
      AckStep short keys n (keys.eraseIdx i) (n - 1) []
  | slip (keys : List Key) (n id : ℕ) (hshort : short) : AckStep short keys n keys n [.take id]
  | clear (keys : List Key) (n : ℕ) : AckStep short keys n [] n [.reset]

/-- The identifiers that are taken. -/
def takes (log : List (Once.Event ℕ)) : List ℕ :=
  log.filterMap fun
    | .take id => some id
    | _ => none

/-- The identifiers of the messages of quality of service 2 among some deliveries. -/
def qos2Ids (ds : List Delivery) : List ℕ :=
  (ds.filter fun d => d.message.qos = 2).map fun d => d.message.packetid

/-- A step as a change of the list. What it delivers of quality of service 2 is also taken. -/
def Client.Changes (c : Client) (short : Prop) (c' : Client) : Prop :=
  ∃ events ds, AckStep short c.keys c.ackHandlerNumber c'.keys c'.ackHandlerNumber events ∧
    c'.log = c.log ++ events ∧ c'.delivered = c.delivered ++ ds ∧
    (qos2Ids ds).Sublist (takes events)

/-! ## Single operations -/

variable {short : Prop}

/-- A step may leave the records as they are. -/
theorem Client.Changes.refl (c : Client) : c.Changes short c :=
  ⟨[], [], .keep _ _, by simp, by simp, List.Sublist.refl _⟩

/-- A step that touches neither the list nor its counter, and delivers nothing. -/
theorem Client.Changes.of_eq {c c' : Client} (hacks : c'.ackHandlers = c.ackHandlers)
    (hnumber : c'.ackHandlerNumber = c.ackHandlerNumber) (hlog : c'.log = c.log)
    (hdelivered : c'.delivered = c.delivered) : c.Changes short c' := by
  refine ⟨[], [], ?_, by simp [hlog], by simp [hdelivered], List.Sublist.refl _⟩
  rw [hnumber, show c'.keys = c.keys by rw [Client.keys, hacks]; rfl]
  exact .keep _ _

/-- The key is in the list exactly when the search finds it. -/
theorem mqttAckListNodeIsExist_iff (c : Client) (type packetId : ℕ) :
    c.mqttAckListNodeIsExist type packetId = true ↔ (type, packetId) ∈ c.keys := by
  simp only [Client.mqttAckListNodeIsExist, Client.keys, List.any_eq_true, List.mem_map,
    Bool.and_eq_true, decide_eq_true_eq, Prod.mk.injEq]
  constructor
  · rintro ⟨a, ha, hid, htype⟩
    exact ⟨a, ha, htype, hid⟩
  · rintro ⟨a, ha, htype, hid⟩
    exact ⟨a, ha, hid, htype⟩

/-- What recording does: nothing, or one new key at the end. -/
theorem mqttAckListRecord_cases (c : Client) (e : Env) (type packetId len : ℕ)
    (handler : Option MsgHandler) :
    (c.mqttAckListRecord e type packetId len handler = (.nodeIsExist, c) ∧
        (type, packetId) ∈ c.keys) ∨
      (c.mqttAckListRecord e type packetId len handler = (.memNotEnough, c) ∧
        e.ackMemory = false) ∨
      ∃ a : AckHandler, (a.type, a.packetId) = (type, packetId) ∧ (type, packetId) ∉ c.keys ∧
        a.handler = handler ∧ a.payload = c.writeBuf.take (len % 65536) ∧
        c.mqttAckListRecord e type packetId len handler =
          (.success, { c with
            ackHandlers := c.ackHandlers ++ [a], ackHandlerNumber := c.ackHandlerNumber + 1 }) := by
  unfold Client.mqttAckListRecord
  by_cases hexist : c.mqttAckListNodeIsExist type packetId = true
  · left
    exact ⟨if_pos hexist, (mqttAckListNodeIsExist_iff ..).mp hexist⟩
  · right
    have hnew : (type, packetId) ∉ c.keys := fun h =>
      hexist ((mqttAckListNodeIsExist_iff ..).mpr h)
    rw [if_neg hexist]
    by_cases hmemory : e.ackMemory = true
    · right
      rw [if_pos hmemory]
      exact ⟨_, rfl, hnew, rfl, rfl, rfl⟩
    · left
      rw [if_neg hmemory]
      exact ⟨rfl, by simpa using hmemory⟩

/-- Recording anything but a PUBREL. -/
theorem changes_mqttAckListRecord (short : Prop) (c : Client) (e : Env) {type : ℕ}
    (packetId len : ℕ) (handler : Option MsgHandler) (htype : type ≠ 6) :
    c.Changes short (c.mqttAckListRecord e type packetId len handler).2 := by
  rcases mqttAckListRecord_cases c e type packetId len handler with
    ⟨heq, -⟩ | ⟨heq, -⟩ | ⟨a, hkey, hnew, -, -, heq⟩
  · rw [heq]
    exact .refl c
  · rw [heq]
    exact .refl c
  · rw [heq]
    refine ⟨[], [], ?_, by simp, by simp, List.Sublist.refl _⟩
    have hkeys : (c.ackHandlers ++ [a]).map (fun a => (a.type, a.packetId)) =
        c.keys ++ [(type, packetId)] := by
      rw [List.map_append, ← hkey]
      rfl
    simp only [Client.keys, hkeys]
    exact .record _ _ _ hnew htype

/-- The keys behind the removal of a key. -/
theorem keys_mqttAckListUnrecord (c : Client) (type packetId : ℕ) :
    (c.mqttAckListUnrecord type packetId).2.keys = c.keys.filter (· ≠ (type, packetId)) := by
  simp only [Client.mqttAckListUnrecord, Client.keys, List.filter_map]
  congr 1
  apply List.filter_congr
  intro a _
  simp only [Function.comp_apply, ne_eq, Prod.mk.injEq, decide_not]
  by_cases htype : a.type = type <;> by_cases hid : a.packetId = packetId <;> simp [htype, hid]

/-- The counter goes down with the records that are removed. -/
theorem number_mqttAckListUnrecord (c : Client) (type packetId : ℕ) :
    (c.mqttAckListUnrecord type packetId).2.ackHandlerNumber =
      c.ackHandlerNumber - c.keys.count (type, packetId) := by
  have hcount : c.keys.count (type, packetId) = (c.ackHandlers.filter fun a =>
      a.packetId = packetId && a.type = type).length := by
    rw [List.count, Client.keys, List.countP_map, List.countP_eq_length_filter]
    congr 2
    funext a
    rw [Function.comp_apply, Bool.eq_iff_iff, beq_iff_eq, Prod.mk.injEq]
    by_cases htype : a.type = type <;> by_cases hid : a.packetId = packetId <;> simp [htype, hid]
  rw [hcount]
  rfl

/-- Removing any key but that of a PUBREL. -/
theorem changes_mqttAckListUnrecord (short : Prop) (c : Client) {type : ℕ} (packetId : ℕ)
    (htype : type ≠ 6) :
    c.Changes short (c.mqttAckListUnrecord type packetId).2 := by
  refine ⟨[], [], ?_, by simp [Client.mqttAckListUnrecord], by simp [Client.mqttAckListUnrecord],
    List.Sublist.refl _⟩
  rw [keys_mqttAckListUnrecord, number_mqttAckListUnrecord]
  exact .unrecord _ _ _ htype

/-! ## Steps -/

/-- Delivering touches the read buffer and what was delivered, and nothing else. -/
theorem mqttDeliverMessage_eq (c : Client) (d : PublishData) : ∃ ds readBuf fault,
    (∀ x ∈ ds, x.message = d) ∧ ds.length ≤ 1 ∧ c.mqttDeliverMessage d =
      { c with delivered := c.delivered ++ ds, readBuf := readBuf, fault := fault } := by
  unfold Client.mqttDeliverMessage
  split_ifs
  · refine ⟨_, _, _, ?_, ?_, rfl⟩
    · intro x hx
      obtain ⟨callback, -, rfl⟩ := Option.map_eq_some_iff.mp (Option.mem_toList.mp hx)
      rfl
    · exact Option.length_toList_le
  · exact ⟨[], c.readBuf, true, by simp, by simp, by simp⟩

/-- A message of another quality of service has no identifier to be counted. -/
theorem qos2Ids_of_ne {ds : List Delivery} {d : PublishData} (h : ∀ x ∈ ds, x.message = d)
    (hqos : d.qos ≠ 2) : qos2Ids ds = [] := by
  rw [qos2Ids, List.map_eq_nil_iff, List.filter_eq_nil_iff]
  intro x hx
  rw [h x hx]
  simpa using hqos

/-- The type that `MQTTDeserialize_ack` reports is that of the header. -/
theorem mqttDeserializeAck_packettype {old data : AckData} {buf : Bytes} {rc : ℤ}
    (h : mqttDeserializeAck old buf = some (rc, data)) :
    data.packettype = headerType (buf.headD 0) := by
  unfold mqttDeserializeAck at h
  cases buf with
  | nil => simp [readChar] at h
  | cons header rest =>
    simp only [readChar, List.getElem?_cons_zero, Option.pure_def, Option.bind_eq_bind,
      Option.bind_some, Option.bind_eq_some_iff] at h
    obtain ⟨⟨len, value⟩, -, h⟩ := h
    split_ifs at h
    · simp only [Option.some.injEq, Prod.mk.injEq] at h
      rw [← h.2]
      rfl
    · simp only [Option.bind_eq_some_iff, Option.some.injEq, Prod.mk.injEq] at h
      obtain ⟨⟨id, p⟩, -, -, h⟩ := h
      rw [← h]
      rfl

/-- Sending a packet, and what its sender does afterwards. -/
theorem changes_transmit {c : Client} {e : Env} {serialized : ℤ × Bytes}
    {next : ℕ → Client → Client}
    (h : ∀ len c', c'.ackHandlers = c.ackHandlers → c'.ackHandlerNumber = c.ackHandlerNumber →
      c'.log = c.log → c'.delivered = c.delivered → c.Changes short (next len c')) :
    c.Changes short (c.transmit e serialized next) := by
  unfold Client.transmit
  simp only
  split_ifs
  · exact .of_eq rfl rfl rfl rfl
  · exact h _ _ rfl rfl rfl rfl
  · exact .of_eq rfl rfl rfl rfl

/-- A change from a client with the same records. -/
theorem Client.Changes.congr {c c₁ c' : Client} (h : c₁.Changes short c')
    (hacks : c₁.ackHandlers = c.ackHandlers)
    (hnumber : c₁.ackHandlerNumber = c.ackHandlerNumber) (hlog : c₁.log = c.log)
    (hdelivered : c₁.delivered = c.delivered) : c.Changes short c' := by
  obtain ⟨events, ds, hstep, hevents, hds, hsub⟩ := h
  have hkeys : c₁.keys = c.keys := by rw [Client.keys, hacks]; rfl
  rw [hkeys, hnumber] at hstep
  exact ⟨events, ds, hstep, hlog ▸ hevents, hdelivered ▸ hds, hsub⟩

/-- A change to a client with the same records. -/
theorem Client.Changes.congr_right {c c₁ c' : Client} (h : c.Changes short c₁)
    (hacks : c'.ackHandlers = c₁.ackHandlers)
    (hnumber : c'.ackHandlerNumber = c₁.ackHandlerNumber) (hlog : c'.log = c₁.log)
    (hdelivered : c'.delivered = c₁.delivered) : c.Changes short c' := by
  obtain ⟨events, ds, hstep, hevents, hds, hsub⟩ := h
  have hkeys : c'.keys = c₁.keys := by rw [Client.keys, hacks]; rfl
  rw [← hkeys, ← hnumber] at hstep
  exact ⟨events, ds, hstep, hlog.trans hevents, hdelivered.trans hds, hsub⟩

/-- Sending a PUBLISH changes no record. -/
theorem changes_publishPacket (c : Client) (e : Env) (topic : Bytes) (qos retained id : ℕ)
    (payload : Bytes) : c.Changes short (c.publishPacket e topic qos retained id payload) := by
  apply changes_transmit
  intro len c₁ hacks hnumber hlog hdelivered
  by_cases hqos : qos = 1 ∨ qos = 2
  · have htype : (if qos = 1 then 4 else 5) ≠ 6 := by split_ifs <;> decide
    have hrecord := (changes_mqttAckListRecord short
      { c₁ with writeBuf := setPublishDup c₁.writeBuf } e id len none htype).congr hacks hnumber
        hlog hdelivered
    simp only [if_pos hqos]
    by_cases hmemory : (Client.mqttAckListRecord { c₁ with writeBuf := setPublishDup c₁.writeBuf }
        e (if qos = 1 then 4 else 5) id len none).1 = .memNotEnough
    · rw [if_pos hmemory]
      exact hrecord.congr_right rfl rfl rfl rfl
    · rw [if_neg hmemory]
      exact hrecord
  · simp only [if_neg hqos]
    exact .of_eq hacks hnumber hlog hdelivered

/-- `mqtt_publish` makes at most one record, of its own identifier. -/
theorem changes_mqttPublish (c : Client) (e : Env) (packetId : ℕ) (topic : Bytes)
    (qos retained id : ℕ) (payload : Bytes) :
    c.Changes short (c.mqttPublish e packetId topic qos retained id payload) := by
  unfold Client.mqttPublish
  split_ifs
  · exact .refl c
  · exact changes_publishPacket ..
  · exact .of_eq rfl rfl rfl rfl
  · exact changes_publishPacket ..

/-- A packet that is sent makes at most one record. -/
theorem changes_sendAndRecord (c : Client) (e : Env) {type : ℕ} (packetId : ℕ)
    (serialized : ℤ × Bytes) (handler : MsgHandler) (htype : type ≠ 6) :
    c.Changes short (c.sendAndRecord e type packetId serialized handler) := by
  apply changes_transmit
  intro len c₁ hacks hnumber hlog hdelivered
  split_ifs
  · exact (changes_mqttAckListRecord short c₁ e packetId len _ htype).congr hacks hnumber hlog
      hdelivered
  · exact .of_eq hacks hnumber hlog hdelivered

/-- `mqtt_subscribe` makes at most one record. -/
theorem changes_mqttSubscribe (c : Client) (e : Env) (packetId : ℕ) (topicFilter : Bytes)
    (qos : ℕ) (handler : Option ℕ) :
    c.Changes short (c.mqttSubscribe e packetId topicFilter qos handler) := by
  unfold Client.mqttSubscribe
  split_ifs
  · exact .refl c
  · exact changes_sendAndRecord c e _ _ _ (by decide)

/-- `mqtt_unsubscribe` makes at most one record. -/
theorem changes_mqttUnsubscribe (c : Client) (e : Env) (packetId : ℕ) (topicFilter : Bytes) :
    c.Changes short (c.mqttUnsubscribe e packetId topicFilter) := by
  unfold Client.mqttUnsubscribe
  split_ifs
  · exact .refl c
  · exact changes_sendAndRecord c e _ _ _ (by decide)

/-- A packet that is only sent. -/
theorem changes_transmit_only (c : Client) (e : Env) (serialized : ℤ × Bytes) :
    c.Changes short (c.transmit e serialized fun _ c => c) :=
  changes_transmit fun _ _ hacks hnumber hlog hdelivered => .of_eq hacks hnumber hlog hdelivered

/-- `mqtt_disconnect` makes no record. -/
theorem changes_mqttDisconnect (c : Client) (e : Env) :
    c.Changes short (c.mqttDisconnect e) :=
  (changes_transmit_only c e _).congr_right rfl rfl rfl rfl

/-- The delivery of a message of another quality of service changes no record. -/
theorem changes_mqttDeliverMessage (c : Client) {d : PublishData} (hqos : d.qos ≠ 2) :
    c.Changes short (c.mqttDeliverMessage d) := by
  obtain ⟨ds, readBuf, fault, hmessage, -, heq⟩ := mqttDeliverMessage_eq c d
  rw [heq]
  refine ⟨[], ds, .keep _ _, by simp, rfl, ?_⟩
  rw [qos2Ids_of_ne hmessage hqos]
  exact List.nil_sublist _

/-- The first half of a PUBLISH changes no record. -/
theorem changes_mqttPublishPacketHandle (c : Client) (e : Env) :
    c.Changes short (c.mqttPublishPacketHandle e) := by
  unfold Client.mqttPublishPacketHandle
  split
  · exact .of_eq rfl rfl rfl rfl
  · split_ifs with _ hqos hqos
    · exact .refl c
    · exact changes_mqttDeliverMessage c (by omega)
    · apply changes_transmit
      intro len c₁ hacks hnumber hlog hdelivered
      exact (changes_mqttDeliverMessage c₁ (by omega)).congr hacks hnumber hlog hdelivered
    · apply changes_transmit
      intro len c₁ hacks hnumber hlog hdelivered
      exact .of_eq hacks hnumber hlog hdelivered
    · exact .refl c

/-- An acknowledgement changes the records by those it waits for. -/
theorem changes_mqttPublishAckPacket (c : Client) (e : Env) (packetId packetType : ℕ) :
    c.Changes short (c.mqttPublishAckPacket e packetId packetType) := by
  unfold Client.mqttPublishAckPacket
  split
  · have hrecord := (changes_mqttAckListRecord short
      (c.write (mqttSerializeAck c.writeBuf.length 6 0 packetId).2) e packetId
      (mqttSerializeAck c.writeBuf.length 6 0 packetId).1.toNat none
      (by decide : 7 ≠ 6)).congr rfl rfl rfl rfl
    simp only
    split_ifs
    · exact hrecord.congr_right rfl rfl rfl rfl
    · exact hrecord
  · exact changes_transmit_only ..
  · exact .refl c

/-- A PUBREC or PUBREL changes the records in its first half by one at most. -/
theorem changes_mqttPubrecAndPubrelPacketHandle (c : Client) (e : Env) :
    c.Changes short (c.mqttPubrecAndPubrelPacketHandle e) := by
  unfold Client.mqttPubrecAndPubrelPacketHandle
  split
  · exact .of_eq rfl rfl rfl rfl
  · split_ifs
    · exact .refl c
    · exact (changes_mqttPublishAckPacket ..).congr_right rfl rfl rfl rfl

/-- A PUBACK or PUBCOMP removes the record of its identifier. -/
theorem changes_mqttPubackAndPubcompPacketHandle (c : Client) (e : Env)
    (htype : headerType (c.readBuf.headD 0) ≠ 6) :
    c.Changes short (c.mqttPubackAndPubcompPacketHandle e) := by
  unfold Client.mqttPubackAndPubcompPacketHandle
  split
  · exact .of_eq rfl rfl rfl rfl
  · rename_i rc data hack
    rw [← mqttDeserializeAck_packettype hack] at htype
    exact changes_mqttAckListUnrecord short c _ htype

/-- Installing touches the message handlers, and nothing else. -/
theorem installGranted_eq (c : Client) (handler : Option (Option MsgHandler)) (grantedQos : ℕ) :
    ∃ msgHandlers, c.installGranted handler grantedQos = { c with msgHandlers := msgHandlers } := by
  unfold Client.installGranted Client.mqttMsgHandlersInstall
  split
  · split_ifs
    · exact ⟨c.msgHandlers, rfl⟩
    · exact ⟨c.msgHandlers, rfl⟩
    · exact ⟨_, rfl⟩
  · exact ⟨c.msgHandlers, rfl⟩

/-- A SUBACK removes the record of its identifier. -/
theorem changes_mqttSubackPacketHandle (c : Client) (e : Env) :
    c.Changes short (c.mqttSubackPacketHandle e) := by
  unfold Client.mqttSubackPacketHandle
  split
  · exact .of_eq rfl rfl rfl rfl
  · rename_i rc packetId granted _
    have hunrecord := changes_mqttAckListUnrecord short
      { c with fault := c.fault || decide (1 < granted.length) } packetId (by decide : 9 ≠ 6)
    simp only
    split_ifs
    · exact .of_eq rfl rfl rfl rfl
    · obtain ⟨msgHandlers, hinstall⟩ := installGranted_eq (Client.mqttAckListUnrecord
        { c with fault := c.fault || decide (1 < granted.length) } 9 packetId).2
        (Client.mqttAckListUnrecord
          { c with fault := c.fault || decide (1 < granted.length) } 9 packetId).1
        (granted.headD 0)
      rw [hinstall]
      exact (hunrecord.congr rfl rfl rfl rfl).congr_right rfl rfl rfl rfl

/-- An UNSUBACK removes the record of its identifier. -/
theorem changes_mqttUnsubackPacketHandle (c : Client) (e : Env) :
    c.Changes short (c.mqttUnsubackPacketHandle e) := by
  unfold Client.mqttUnsubackPacketHandle
  split
  · exact .of_eq rfl rfl rfl rfl
  · rename_i rc packetId _
    have hunrecord := changes_mqttAckListUnrecord short c packetId (by decide : 11 ≠ 6)
    simp only
    split_ifs
    · exact .refl c
    · exact hunrecord
    · split
      · exact hunrecord
      · exact hunrecord.congr_right rfl rfl rfl rfl
      · exact hunrecord.congr_right rfl rfl rfl rfl

/-- Every packet that arrives changes the records in one of these ways. -/
theorem changes_mqttPacketHandle (c : Client) (e : Env) :
    c.Changes short (c.mqttPacketHandle e) := by
  unfold Client.mqttPacketHandle
  split_ifs
  · exact .of_eq rfl rfl rfl rfl
  · exact .refl c
  · split
    · exact changes_mqttPublishPacketHandle ..
    · rename_i htype
      exact changes_mqttPubackAndPubcompPacketHandle c e (by rw [htype]; decide)
    · rename_i htype
      exact changes_mqttPubackAndPubcompPacketHandle c e (by rw [htype]; decide)
    · exact changes_mqttPubrecAndPubrelPacketHandle ..
    · exact changes_mqttPubrecAndPubrelPacketHandle ..
    · exact changes_mqttSubackPacketHandle ..
    · exact changes_mqttUnsubackPacketHandle ..
    · exact .refl c

/-- One delivery at most, of the message that is taken. -/
theorem qos2Ids_sublist {ds : List Delivery} {d : PublishData} (h : ∀ x ∈ ds, x.message = d)
    (hlength : ds.length ≤ 1) : (qos2Ids ds).Sublist (takes [.take d.packetid]) := by
  match ds, hlength with
  | [], _ => exact List.nil_sublist _
  | [x], _ =>
    have hx : x.message = d := h x (by simp)
    by_cases hqos : d.qos = 2
    · simp [qos2Ids, takes, hx, hqos]
    · simp [qos2Ids, hx, hqos]

/-- Finishing a packet takes the identifier of a message, or releases it. -/
theorem changes_finish (c : Client) (e : Env) : c.Changes (e.ackMemory = false) (c.finish e) := by
  unfold Client.finish
  split
  · exact .refl c
  · rename_i len d _
    simp only
    rcases mqttAckListRecord_cases c e 6 d.packetid len none with
      ⟨heq, -⟩ | ⟨heq, hshort⟩ | ⟨a, hkey, hnew, -, -, heq⟩
    · rw [heq, if_pos rfl]
      exact .of_eq rfl rfl rfl rfl
    · rw [heq, if_neg (by simp)]
      obtain ⟨ds, readBuf, fault, hmessage, hlength, hdeliver⟩ := mqttDeliverMessage_eq c d
      simp only [hdeliver]
      exact ⟨[.take d.packetid], ds, .slip _ _ _ hshort, rfl, rfl, qos2Ids_sublist hmessage hlength⟩
    · rw [heq, if_neg (by simp)]
      obtain ⟨ds, readBuf, fault, hmessage, hlength, hdeliver⟩ := mqttDeliverMessage_eq { c with
        ackHandlers := c.ackHandlers ++ [a], ackHandlerNumber := c.ackHandlerNumber + 1 } d
      simp only [hdeliver]
      refine ⟨[.take d.packetid], ds, ?_, rfl, rfl, qos2Ids_sublist hmessage hlength⟩
      have hkeys : (c.ackHandlers ++ [a]).map (fun a => (a.type, a.packetId)) =
          c.keys ++ [(6, d.packetid)] := by
        rw [List.map_append, ← hkey]
        rfl
      simp only [Client.keys, hkeys]
      exact .take _ _ _ hnew
  · rename_i type packetId _
    have hkeys := keys_mqttAckListUnrecord c type packetId
    have hnumber := number_mqttAckListUnrecord c type packetId
    by_cases htype : type = 6
    · subst htype
      refine ⟨[.release packetId], [], ?_, rfl, (List.append_nil _).symm, List.Sublist.refl _⟩
      have hstep : AckStep (e.ackMemory = false) c.keys c.ackHandlerNumber _ _
          [.release packetId] := .release c.keys c.ackHandlerNumber packetId
      rw [← hkeys, ← hnumber] at hstep
      exact hstep
    · simp only [if_neg htype]
      exact (changes_mqttAckListUnrecord _ c packetId htype).congr_right rfl rfl rfl rfl

/-- A record replaced by one with the same key. -/
theorem keys_set {acks : List AckHandler} {index : ℕ} {a a' : AckHandler}
    (ha : acks[index]? = some a) (hkey : (a'.type, a'.packetId) = (a.type, a.packetId)) :
    (acks.set index a').map (fun a => (a.type, a.packetId)) =
      acks.map fun a => (a.type, a.packetId) := by
  rw [List.map_set]
  apply List.ext_getElem?
  intro i
  by_cases hi : index = i
  · subst hi
    have hlt := (List.getElem?_eq_some_iff.mp ha).1
    rw [List.getElem?_set_self (by simpa using hlt), List.getElem?_map, ha, hkey]
    rfl
  · rw [List.getElem?_set_ne hi]

/-- Sending again changes the timer of a record, and no key. -/
theorem changes_mqttAckHandlerResend (c : Client) (e : Env) {index : ℕ} {a : AckHandler}
    (ha : c.ackHandlers[index]? = some a) :
    c.Changes short (c.mqttAckHandlerResend e index a) := by
  unfold Client.mqttAckHandlerResend
  generalize ha' : { a with timer := platformTimerCutdown e.now cmdTimeout } = a'
  have hkeys := keys_set ha (show (a'.type, a'.packetId) = _ by rw [← ha'])
  have hset : c.Changes short { c with ackHandlers := c.ackHandlers.set index a' } := by
    refine ⟨[], [], ?_, by simp, by simp, List.Sublist.refl _⟩
    simp only [Client.keys, hkeys]
    exact .keep _ _
  unfold Client.transmit
  simp only
  split_ifs
  · exact hset.congr_right rfl rfl rfl rfl
  · exact hset.congr_right rfl rfl rfl rfl
  · exact hset.congr_right rfl rfl rfl rfl

/-- A visit of `mqtt_ack_list_scan` removes the record or leaves it. -/
theorem changes_mqttAckListScan (c : Client) (e : Env) (index : ℕ) (flag : Bool) :
    c.Changes short (c.mqttAckListScan e index flag) := by
  unfold Client.mqttAckListScan
  by_cases hstate : e.state ≠ .connected
  · rw [if_pos hstate]
    exact .refl c
  · rw [if_neg hstate]
    split
    · exact .refl c
    · rename_i a ha
      split_ifs with hwait htype
      · exact .refl c
      · exact changes_mqttAckHandlerResend c e ha
      · have hkey : c.keys[index]? = some (a.type, a.packetId) := by
          rw [Client.keys, List.getElem?_map, ha]
          rfl
        refine ⟨[], [], ?_, by simp, by simp, List.Sublist.refl _⟩
        have hkeys : (c.ackHandlers.eraseIdx index).map (fun a => (a.type, a.packetId)) =
            c.keys.eraseIdx index := (List.eraseIdx_map ..).symm
        simp only [Client.keys, hkeys]
        exact .erase _ _ _ _ hkey (by simp only; omega)
      · exact .refl c

/-- The keep-alive changes no record. -/
theorem changes_mqttKeepAlive (c : Client) (e : Env) (expired : Bool) :
    c.Changes short (c.mqttKeepAlive e expired) := by
  unfold Client.mqttKeepAlive
  simp only
  split_ifs
  · exact .refl c
  · exact .of_eq rfl rfl rfl rfl
  · exact (changes_transmit_only c e _).congr_right rfl rfl rfl rfl
  · exact .refl c
  · exact .refl c

/-- A connection changes no record. -/
theorem changes_mqttConnectWithResults (c : Client) (e : Env) (options : ConnectData)
    (answer : Option Bytes) :
    c.Changes short (c.mqttConnectWithResults e options answer) := by
  have haccept : ∀ c' : Client, c'.ackHandlers = c.ackHandlers →
      c'.ackHandlerNumber = c.ackHandlerNumber → c'.log = c.log → c'.delivered = c.delivered →
      c.Changes short (c'.acceptConnection e) := by
    intro c' hacks hnumber hlog hdelivered
    obtain ⟨thread, state, heq⟩ := acceptConnection_eq c' e
    rw [heq]
    exact .of_eq hacks hnumber hlog hdelivered
  unfold Client.mqttConnectWithResults
  simp only
  split_ifs
  · exact .refl c
  · exact haccept c rfl rfl rfl rfl
  · exact haccept _ rfl rfl rfl rfl
  · exact .of_eq rfl rfl rfl rfl

/-- The end of the session removes all records. -/
theorem changes_mqttCleanSession (c : Client) (e : Env) :
    c.Changes short (c.mqttCleanSession e) := by
  unfold Client.mqttCleanSession
  split_ifs
  · exact ⟨[.reset], [], .clear _ _, rfl, (List.append_nil _).symm, List.Sublist.refl _⟩
  · exact .refl c

/-- What may wait for the rest of a packet changes no more. -/
theorem changes_whenIdle {c : Client} {next : Client → Client} (h : c.Changes short (next c)) :
    c.Changes short (c.whenIdle next) := by
  unfold Client.whenIdle
  split
  · exact h
  · exact .refl c

/-- What uses an identifier that was read changes no more. -/
theorem changes_withIssued {c : Client} {next : ℕ → Client} (ticket : ℕ)
    (h : ∀ packetId, c.Changes short (next packetId)) :
    c.Changes short (c.withIssued ticket next) := by
  unfold Client.withIssued
  split
  · exact h _
  · exact .refl c

/-- Every step is one of the changes. -/
theorem changes_step (c : Client) (a : Action) (e : Env) :
    c.Changes (e.ackMemory = false) (c.step (a, e)) := by
  cases a with
  | nextPacketId => exact .of_eq rfl rfl rfl rfl
  | readPacketId => exact .of_eq rfl rfl rfl rfl
  | publish ticket topic qos retained id payload =>
    by_cases hqos : qos = 0
    · simp only [Client.step, if_pos hqos]
      exact changes_mqttPublish ..
    · simp only [Client.step, if_neg hqos]
      exact changes_withIssued ticket fun packetId => changes_mqttPublish ..
  | subscribe ticket topicFilter qos handler =>
    exact changes_withIssued ticket fun packetId => changes_mqttSubscribe ..
  | unsubscribe ticket topicFilter =>
    exact changes_withIssued ticket fun packetId => changes_mqttUnsubscribe ..
  | disconnect => exact changes_mqttDisconnect ..
  | finish => exact changes_finish c e
  | packet readBuf => exact changes_whenIdle ((changes_mqttPacketHandle ..).congr rfl rfl rfl rfl)
  | scan index flag => exact changes_whenIdle (changes_mqttAckListScan ..)
  | keepAlive expired => exact changes_whenIdle (changes_mqttKeepAlive ..)
  | connect options answer => exact changes_mqttConnectWithResults ..
  | cleanSession => exact changes_whenIdle (changes_mqttCleanSession ..)

/-! ## Whole runs -/

/-- The client after a schedule, from its initialisation. -/
def Client.run (writeBuf readBuf : Bytes) (interceptorHandler : Option ℕ)
    (l : List (Action × Env)) : Client :=
  Run.after Client.step (Client.init writeBuf readBuf interceptorHandler) l

/-- A list without one of its keys is shorter by the number of times it was there. -/
theorem length_filter_ne (keys : List Key) (k : Key) :
    (keys.filter (· ≠ k)).length = keys.length - keys.count k := by
  have htotal := List.length_eq_countP_add_countP (fun x => x == k) (l := keys)
  have hfilter : (keys.filter (· ≠ k)).length = keys.countP fun x => ¬ (x == k) = true := by
    rw [List.countP_eq_length_filter]
    congr 1
    apply List.filter_congr
    intro x _
    simp
  rw [hfilter, List.count]
  omega

/-- The keys stay different. -/
theorem AckStep.nodup {keys keys' : List Key} {n n' : ℕ} {events : List (Once.Event ℕ)}
    (hstep : AckStep short keys n keys' n' events) (h : keys.Nodup) : keys'.Nodup := by
  cases hstep with
  | keep => exact h
  | record k hnew _ =>
    rw [← List.concat_eq_append]
    exact List.Nodup.concat hnew h
  | take id hnew =>
    rw [← List.concat_eq_append]
    exact List.Nodup.concat hnew h
  | unrecord k _ => exact h.filter _
  | release id => exact h.filter _
  | erase i k _ _ => exact h.eraseIdx i
  | slip id _ => exact h
  | clear => exact List.nodup_nil

/-- The counter stays the length of the list, until a session is cleaned. -/
theorem AckStep.number {keys keys' : List Key} {n n' : ℕ} {events : List (Once.Event ℕ)}
    (hstep : AckStep short keys n keys' n' events) (hreset : .reset ∉ events)
    (h : n = keys.length) : n' = keys'.length := by
  cases hstep with
  | keep => exact h
  | record k _ _ => simp [h]
  | take id _ => simp [h]
  | unrecord k _ => rw [length_filter_ne, h]
  | release id => rw [length_filter_ne, h]
  | erase i k hget _ =>
    rw [List.length_eraseIdx_of_lt (List.getElem?_eq_some_iff.mp hget).1, h]
  | slip id _ => exact h
  | clear => simp at hreset

/-- An identifier is held exactly while there is a PUBREL record for it. -/
structure Handshakes (keys : List Key) (log : List (Once.Event ℕ)) : Prop where
  gated : Once.Gated log
  held : ∀ id, Once.Held id log ↔ (6, id) ∈ keys

/-- A change of the records keeps up with the handshakes. -/
theorem AckStep.handshakes {keys keys' : List Key} {n n' : ℕ} {log events : List (Once.Event ℕ)}
    (hstep : AckStep False keys n keys' n' events) (h : Handshakes keys log) :
    Handshakes keys' (log ++ events) := by
  cases hstep with
  | keep => simpa using h
  | record k hnew htype =>
    rw [List.append_nil]
    refine ⟨h.gated, fun id => ?_⟩
    have hne : (6, id) ≠ k := fun heq => htype (by rw [← heq])
    simp [h.held, hne]
  | take id hnew =>
    refine ⟨h.gated.snoc ?_, fun id' => ?_⟩
    · intro id' heq
      obtain rfl : id = id' := by simpa using heq
      rw [h.held]
      exact hnew
    · rw [Once.held_snoc, h.held]
      simp only [List.mem_append, List.mem_singleton, Prod.mk.injEq, true_and]
      simp [or_comm, eq_comm]
  | unrecord k htype =>
    rw [List.append_nil]
    refine ⟨h.gated, fun id => ?_⟩
    have hne : (6, id) ≠ k := fun heq => htype (by rw [← heq])
    simp [h.held, hne]
  | release id =>
    refine ⟨h.gated.snoc (by simp), fun id' => ?_⟩
    rw [Once.held_snoc, h.held]
    by_cases heq : id' = id
    · simp [heq]
    · simp [heq, Ne.symm heq]
  | erase i k hget htype =>
    rw [List.append_nil]
    refine ⟨h.gated, fun id => ?_⟩
    rw [h.held, List.mem_eraseIdx_iff_getElem?, List.mem_iff_getElem?]
    constructor
    · rintro ⟨j, hj⟩
      refine ⟨j, ?_, hj⟩
      rintro rfl
      rw [hget] at hj
      exact htype (by rw [Option.some.inj hj])
    · rintro ⟨j, -, hj⟩
      exact ⟨j, hj⟩
  | slip id hshort => exact hshort.elim
  | clear =>
    refine ⟨h.gated.snoc (by simp), fun id => ?_⟩
    rw [Once.held_snoc]
    simp

/-- Keys that differ, and a counter that is right until a session is cleaned. -/
structure Client.Counted (c : Client) : Prop where
  nodup : c.keys.Nodup
  number : .reset ∉ c.log → c.ackHandlerNumber = c.keys.length

/-- Every step keeps the records without repetition and counted. -/
theorem Client.Counted.step {c : Client} (h : c.Counted) (a : Action × Env) :
    (c.step a).Counted := by
  obtain ⟨events, ds, hstep, hlog, -, -⟩ := changes_step c a.1 a.2
  refine ⟨hstep.nodup h.nodup, fun hreset => ?_⟩
  have hboth : .reset ∉ c.log ++ events := hlog ▸ hreset
  rw [List.mem_append, not_or] at hboth
  exact hstep.number hboth.2 (h.number hboth.1)

/-- In every run, no two records have the same type and identifier, and until a session is
cleaned the counter that `mqtt_publish` looks at is the number of records. -/
theorem run_records (writeBuf readBuf : Bytes) (interceptorHandler : Option ℕ)
    (l : List (Action × Env)) :
    (Client.run writeBuf readBuf interceptorHandler l).keys.Nodup ∧
      (.reset ∉ (Client.run writeBuf readBuf interceptorHandler l).log →
        (Client.run writeBuf readBuf interceptorHandler l).ackHandlerNumber =
          (Client.run writeBuf readBuf interceptorHandler l).ackHandlers.length) := by
  have hinit : (Client.init writeBuf readBuf interceptorHandler).Counted :=
    ⟨List.nodup_nil, fun _ => rfl⟩
  have hrun : (Client.run writeBuf readBuf interceptorHandler l).Counted :=
    Run.inv_of_step (fun c a hc => hc.step a) hinit l
  refine ⟨hrun.nodup, fun hreset => ?_⟩
  rw [hrun.number hreset, Client.keys, List.length_map]

/-- The state of the handshakes, and what was delivered in them. -/
structure Client.Shaken (c : Client) : Prop where
  handshakes : Handshakes c.keys c.log
  delivered : (qos2Ids c.delivered).Sublist (takes c.log)

/-- A change of the records keeps what is delivered to the handshakes. -/
theorem Client.Changes.shaken {c c' : Client} (hchange : c.Changes False c') (h : c.Shaken) :
    c'.Shaken := by
  obtain ⟨events, ds, hstep, hlog, hds, hsub⟩ := hchange
  constructor
  · rw [hlog]
    exact hstep.handshakes h.handshakes
  · rw [hlog, hds, qos2Ids, takes, List.filter_append, List.map_append, List.filterMap_append]
    exact h.delivered.append hsub

/-- With memory for the records, nothing is taken without a record. -/
theorem Client.Changes.of_memory {c c' : Client} {e : Env} (hmemory : e.ackMemory = true)
    (h : c.Changes (e.ackMemory = false) c') : c.Changes False c' := by
  have hfalse : (e.ackMemory = false) = False := by simp [hmemory]
  rwa [hfalse] at h

/-- What holds of the handshakes in every run with memory for the records. -/
theorem run_shaken (writeBuf readBuf : Bytes) (interceptorHandler : Option ℕ)
    {l : List (Action × Env)} (hmemory : ∀ a ∈ l, a.2.ackMemory = true) :
    (Client.run writeBuf readBuf interceptorHandler l).Shaken := by
  have hinit : (Client.init writeBuf readBuf interceptorHandler).Shaken :=
    ⟨⟨Once.gated_nil, by simp [Client.init, Client.keys]⟩, List.nil_sublist _⟩
  refine Run.inv_after (C := fun _ a => a.2.ackMemory = true) ?_ hinit
    (Run.eachStep_label_iff.mpr hmemory)
  intro c a hc hmem
  exact ((changes_step c a.1 a.2).of_memory hmem).shaken hc

/-- Behind the second lock there is a record for the message, a new one or one from before. -/
theorem mem_keys_finish {c : Client} {e : Env} {len : ℕ} {d : PublishData}
    (hpending : c.pending = .recordPubrel len d) (hmemory : e.ackMemory = true) :
    (6, d.packetid) ∈ (c.finish e).keys := by
  unfold Client.finish
  rw [hpending]
  simp only
  rcases mqttAckListRecord_cases c e 6 d.packetid len none with
    ⟨heq, hmem⟩ | ⟨-, hshort⟩ | ⟨a, hkey, -, -, -, heq⟩
  · rw [heq, if_pos rfl]
    exact hmem
  · rw [hmemory] at hshort
    exact absurd hshort (by decide)
  · rw [heq, if_neg (by simp)]
    obtain ⟨ds, readBuf, fault, -, -, hdeliver⟩ := mqttDeliverMessage_eq { c with
      ackHandlers := c.ackHandlers ++ [a], ackHandlerNumber := c.ackHandlerNumber + 1 } d
    simp only [hdeliver, Client.keys, List.map_append, List.mem_append]
    right
    rw [← hkey]
    exact List.mem_singleton_self _

/-- Quality of service 2. In every run in which the records could be allocated, and whatever the
threads do in between: the messages of this quality that reach a callback are among the takes,
between two takes of one identifier its PUBREL was handled or the session was cleaned, and when
a message has been handled its identifier is held, so it was taken for this handshake. -/
theorem qos2_exactly_once (writeBuf readBuf : Bytes) (interceptorHandler : Option ℕ)
    {l : List (Action × Env)} (hmemory : ∀ a ∈ l, a.2.ackMemory = true) :
    (qos2Ids (Client.run writeBuf readBuf interceptorHandler l).delivered).Sublist
        (takes (Client.run writeBuf readBuf interceptorHandler l).log) ∧
      (∀ pre mid post id, (Client.run writeBuf readBuf interceptorHandler l).log =
          pre ++ .take id :: mid ++ .take id :: post → .release id ∈ mid ∨ .reset ∈ mid) ∧
      ∀ len d e, (Client.run writeBuf readBuf interceptorHandler l).pending =
          .recordPubrel len d → e.ackMemory = true →
        Once.Held d.packetid ((Client.run writeBuf readBuf interceptorHandler l).finish e).log := by
  have hrun := run_shaken writeBuf readBuf interceptorHandler hmemory
  refine ⟨hrun.delivered, fun pre mid post id hlog => ?_, ?_⟩
  · exact hrun.handshakes.gated.release_between hlog
  intro len d e hpending hmem
  have hnext := ((changes_finish _ e).of_memory hmem).shaken hrun
  exact (hnext.handshakes.held d.packetid).mpr (mem_keys_finish hpending hmem)

/-- A message of quality of service 2 with identifier 5 arrives, and arrives again. -/
def receivedTwice : List (Action × Env) :=
  [(.packet [0x34, 6, 0, 1, 97, 0, 5, 98], calmEnv .connected), (.finish, calmEnv .connected),
    (.packet [0x3C, 6, 0, 1, 97, 0, 5, 98], calmEnv .connected)]

/-- A message that arrives twice is delivered once. -/
theorem qos2_exactly_once_receivedTwice :
    (∀ a ∈ receivedTwice, a.2.ackMemory = true) ∧
      (qos2Ids (Client.run (List.replicate 16 0) [] (some 7) receivedTwice).delivered).Sublist
        (takes (Client.run (List.replicate 16 0) [] (some 7) receivedTwice).log) ∧
      (∀ pre mid post id, (Client.run (List.replicate 16 0) [] (some 7) receivedTwice).log =
          pre ++ .take id :: mid ++ .take id :: post → .release id ∈ mid ∨ .reset ∈ mid) ∧
      ∀ len d e, (Client.run (List.replicate 16 0) [] (some 7) receivedTwice).pending =
          .recordPubrel len d → e.ackMemory = true →
        Once.Held d.packetid
          ((Client.run (List.replicate 16 0) [] (some 7) receivedTwice).finish e).log := by
  have hmemory : ∀ a ∈ receivedTwice, a.2.ackMemory = true := by simp [receivedTwice, calmEnv]
  exact ⟨hmemory, qos2_exactly_once (List.replicate 16 0) [] (some 7) hmemory⟩

example : qos2Ids (Client.run (List.replicate 16 0) [] (some 7)
    (receivedTwice ++ [(.finish, calmEnv .connected)])).delivered = [5] := by
  decide +kernel

end Saliwen.Mqtt
