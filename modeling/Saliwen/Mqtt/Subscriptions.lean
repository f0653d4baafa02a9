import Saliwen.Mqtt.Records

/-!
# Message handlers and packet identifiers over whole runs

A handler is installed when its SUBSCRIBE is acknowledged, and stays installed until the session
is cleaned: an UNSUBSCRIBE takes nothing away. The exception is an UNSUBACK without a record, for
which a pointer that is not initialised is followed; it can be the address of an installed
handler. Packet identifiers are read outside of the lock of their counter, so two calls can get
the same one; the last section says when.
-/

namespace Saliwen.Mqtt

open CJson (Bytes)

/-! ## Message handlers -/

/-- No two handlers have one filter, and every handler that is installed, that waits for its
SUBACK or that was called has a callback. -/
structure Client.Served (c : Client) : Prop where
  filters : (c.msgHandlers.map (·.topicFilter)).Nodup
  callbacks : ∀ h ∈ c.msgHandlers, h.handler ≠ none
  records : ∀ a ∈ c.ackHandlers, a.type = 9 → ∀ h, a.handler = some h → h.handler ≠ none
  delivered : ∀ d ∈ c.delivered, d.handler ≠ none

/-- A step that keeps this, takes no handler away unless it is a fault, and leaves the packet
identifiers alone. -/
structure Client.Serves (c c' : Client) : Prop where
  served : c.Served → c'.Served
  handlers : c'.fault = false → c.msgHandlers <+: c'.msgHandlers
  fault : c.fault = true → c'.fault = true
  packetId : c'.packetId = c.packetId
  issued : c'.issued = c.issued

/-- A client may leave its subscriptions as they are. -/
theorem Client.Serves.refl (c : Client) : c.Serves c :=
  ⟨id, fun _ => List.prefix_rfl, id, rfl, rfl⟩

/-- Two changes of the subscriptions in sequence. -/
theorem Client.Serves.trans {c₁ c₂ c₃ : Client} (h : c₁.Serves c₂) (h' : c₂.Serves c₃) :
    c₁.Serves c₃ := by
  refine ⟨h'.served ∘ h.served, fun hfault => ?_, h'.fault ∘ h.fault,
    h'.packetId.trans h.packetId, h'.issued.trans h.issued⟩
  have hbefore : c₂.fault = false := by
    by_contra hset
    rw [h'.fault (by simpa using hset)] at hfault
    cases hfault
  exact (h.handlers hbefore).trans (h'.handlers hfault)

/-- No new records, handlers and deliveries. -/
theorem Client.Serves.of_eq {c c' : Client} (hacks : ∀ a ∈ c'.ackHandlers, a ∈ c.ackHandlers)
    (hhandlers : c'.msgHandlers = c.msgHandlers) (hdelivered : c'.delivered = c.delivered)
    (hfault : c'.fault = c.fault) (hpacketId : c'.packetId = c.packetId)
    (hissued : c'.issued = c.issued) : c.Serves c' := by
  refine ⟨fun h => ⟨?_, ?_, fun a ha => h.records a (hacks a ha), ?_⟩, fun _ => ?_, fun hset => ?_,
    hpacketId, hissued⟩
  · rw [hhandlers]
    exact h.filters
  · rw [hhandlers]
    exact h.callbacks
  · rw [hdelivered]
    exact h.delivered
  · rw [hhandlers]
  · rw [hfault]
    exact hset

/-- The client uses memory that is not its own. -/
theorem serves_fault (c : Client) : c.Serves { c with fault := true } :=
  ⟨fun h => ⟨h.filters, h.callbacks, h.records, h.delivered⟩, fun _ => List.prefix_rfl,
    fun _ => rfl, rfl, rfl⟩

/-- One more record; the handler of a SUBSCRIBE has a callback. -/
theorem serves_mqttAckListRecord (c : Client) (e : Env) (type packetId len : ℕ)
    (handler : Option MsgHandler)
    (hhandler : type = 9 → ∀ h, handler = some h → h.handler ≠ none) :
    c.Serves (c.mqttAckListRecord e type packetId len handler).2 := by
  rcases mqttAckListRecord_cases c e type packetId len handler with
    ⟨heq, -⟩ | ⟨heq, -⟩ | ⟨a, hkey, -, hcopied, -, heq⟩
  · rw [heq]
    exact .refl c
  · rw [heq]
    exact .refl c
  · rw [heq]
    refine ⟨fun h => ⟨h.filters, h.callbacks, fun b hb htype handler' hb' => ?_, h.delivered⟩,
      fun _ => List.prefix_rfl, id, rfl, rfl⟩
    rcases List.mem_append.mp hb with hb | hb
    · exact h.records b hb htype handler' hb'
    · obtain rfl := List.mem_singleton.mp hb
      rw [hcopied] at hb'
      exact hhandler ((congrArg Prod.fst hkey).symm.trans htype) handler' hb'

/-- A packet is sent. -/
theorem serves_transmit {c : Client} {e : Env} {serialized : ℤ × Bytes}
    {next : ℕ → Client → Client} (h : ∀ (len : ℕ) (c' : Client), c'.Serves (next len c')) :
    c.Serves (c.transmit e serialized next) := by
  unfold Client.transmit
  simp only
  split_ifs
  · exact .of_eq (fun _ ha => ha) rfl rfl rfl rfl rfl
  · have hsent : c.Serves ((c.write serialized.2).mqttSendPacket e serialized.1.toNat).2 :=
      .of_eq (fun _ ha => ha) rfl rfl rfl rfl rfl
    exact hsent.trans (h _ _)
  · exact .of_eq (fun _ ha => ha) rfl rfl rfl rfl rfl

/-- Sending a packet leaves the subscriptions as they are. -/
theorem serves_transmit_only (c : Client) (e : Env) (serialized : ℤ × Bytes) :
    c.Serves (c.transmit e serialized fun _ c => c) := serves_transmit fun _ _ => .refl _

/-- Sending a PUBLISH leaves the subscriptions as they are. -/
theorem serves_publishPacket (c : Client) (e : Env) (topic : Bytes) (qos retained id : ℕ)
    (payload : Bytes) : c.Serves (c.publishPacket e topic qos retained id payload) := by
  apply serves_transmit
  intro len c'
  by_cases hqos : qos = 1 ∨ qos = 2
  · simp only [if_pos hqos]
    have hrecord := serves_mqttAckListRecord { c' with writeBuf := setPublishDup c'.writeBuf } e
      (if qos = 1 then 4 else 5) id len none (by simp)
    have hmark : c'.Serves { c' with writeBuf := setPublishDup c'.writeBuf } :=
      .of_eq (fun _ ha => ha) rfl rfl rfl rfl rfl
    generalize Client.mqttAckListRecord { c' with writeBuf := setPublishDup c'.writeBuf } e
      (if qos = 1 then 4 else 5) id len none = r at hrecord ⊢
    split_ifs
    · exact (hmark.trans hrecord).trans (.of_eq (fun _ ha => ha) rfl rfl rfl rfl rfl)
    · exact hmark.trans hrecord
  · simp only [if_neg hqos]
    exact .refl c'

/-- `mqtt_publish` leaves the subscriptions as they are. -/
theorem serves_mqttPublish (c : Client) (e : Env) (packetId : ℕ) (topic : Bytes)
    (qos retained id : ℕ) (payload : Bytes) :
    c.Serves (c.mqttPublish e packetId topic qos retained id payload) := by
  unfold Client.mqttPublish
  split_ifs
  · exact .refl c
  · exact serves_publishPacket ..
  · exact .of_eq (fun _ ha => ha) rfl rfl rfl rfl rfl
  · exact serves_publishPacket ..

/-- A packet that is recorded leaves the subscriptions as they are. -/
theorem serves_sendAndRecord (c : Client) (e : Env) (type packetId : ℕ) (serialized : ℤ × Bytes)
    {handler : MsgHandler} (hhandler : type = 9 → handler.handler ≠ none) :
    c.Serves (c.sendAndRecord e type packetId serialized handler) := by
  apply serves_transmit
  intro len c'
  split_ifs
  · apply serves_mqttAckListRecord
    rintro htype h ⟨⟩
    exact hhandler htype
  · exact .refl c'

/-- `mqtt_subscribe` records the handler and installs nothing. -/
theorem serves_mqttSubscribe (c : Client) (e : Env) (packetId : ℕ) (topicFilter : Bytes)
    (qos : ℕ) (handler : Option ℕ) :
    c.Serves (c.mqttSubscribe e packetId topicFilter qos handler) := by
  unfold Client.mqttSubscribe
  split_ifs
  · exact .refl c
  · exact serves_sendAndRecord c e _ _ _ (by simp)

/-- `mqtt_unsubscribe` leaves the subscriptions as they are. -/
theorem serves_mqttUnsubscribe (c : Client) (e : Env) (packetId : ℕ) (topicFilter : Bytes) :
    c.Serves (c.mqttUnsubscribe e packetId topicFilter) := by
  unfold Client.mqttUnsubscribe
  split_ifs
  · exact .refl c
  · exact serves_sendAndRecord c e _ _ _ (by simp)

/-- What is delivered goes to an installed callback, or to the interceptor. -/
theorem serves_mqttDeliverMessage (c : Client) (d : PublishData) :
    c.Serves (c.mqttDeliverMessage d) := by
  unfold Client.mqttDeliverMessage
  split_ifs
  · refine ⟨fun h => ⟨h.filters, h.callbacks, h.records, fun x hx => ?_⟩,
      fun _ => List.prefix_rfl, id, rfl, rfl⟩
    rcases List.mem_append.mp hx with hx | hx
    · exact h.delivered x hx
    · obtain ⟨callback, hcallback, rfl⟩ := Option.map_eq_some_iff.mp (Option.mem_toList.mp hx)
      cases hfind : c.mqttGetMsgHandler (d.topicName.text c.readBuf) with
      | some handler =>
        rw [hfind] at hcallback
        obtain rfl : handler.handler = callback := by simpa using hcallback
        exact h.callbacks handler (List.mem_of_find?_eq_some hfind)
      | none =>
        rw [hfind] at hcallback
        obtain ⟨interceptor, -, rfl⟩ := Option.map_eq_some_iff.mp hcallback
        exact Option.some_ne_none interceptor
  · exact serves_fault c

/-- A handler is installed. -/
theorem served_mqttMsgHandlersInstall {c : Client} (h : c.Served) {handler : MsgHandler}
    (hcallback : handler.handler ≠ none) : (c.mqttMsgHandlersInstall handler).Served := by
  unfold Client.mqttMsgHandlersInstall
  split_ifs with hexist
  · exact h
  · refine ⟨?_, ?_, h.records, h.delivered⟩
    · simp only [List.map_append, List.map_cons, List.map_nil]
      rw [← List.concat_eq_append]
      refine List.Nodup.concat ?_ h.filters
      intro hmem
      obtain ⟨h', hh', heq⟩ := List.mem_map.mp hmem
      exact hexist (List.any_eq_true.mpr ⟨h', hh', by simpa using heq⟩)
    · intro h' hh'
      rcases List.mem_append.mp hh' with hh' | hh'
      · exact h.callbacks h' hh'
      · rw [List.mem_singleton.mp hh']
        exact hcallback

/-- A handler is installed behind the others. -/
theorem prefix_mqttMsgHandlersInstall (c : Client) (handler : MsgHandler) :
    c.msgHandlers <+: (c.mqttMsgHandlersInstall handler).msgHandlers := by
  unfold Client.mqttMsgHandlersInstall
  split_ifs
  · exact List.prefix_rfl
  · exact List.prefix_append ..

/-- Installing a handler uses no memory that is not its own. -/
theorem fault_mqttMsgHandlersInstall (c : Client) (handler : MsgHandler) :
    (c.mqttMsgHandlersInstall handler).fault = c.fault := by
  unfold Client.mqttMsgHandlersInstall
  split_ifs <;> rfl

/-- Installing a handler leaves the counter of identifiers as it is. -/
theorem packetId_mqttMsgHandlersInstall (c : Client) (handler : MsgHandler) :
    (c.mqttMsgHandlersInstall handler).packetId = c.packetId := by
  unfold Client.mqttMsgHandlersInstall
  split_ifs <;> rfl

/-- Installing a handler leaves the identifiers that were read as they are. -/
theorem issued_mqttMsgHandlersInstall (c : Client) (handler : MsgHandler) :
    (c.mqttMsgHandlersInstall handler).issued = c.issued := by
  unfold Client.mqttMsgHandlersInstall
  split_ifs <;> rfl

/-- The handler that a removed record gives back was the handler of a record. -/
theorem mem_of_mqttAckListUnrecord {c : Client} {type packetId : ℕ} {handler : Option MsgHandler}
    (h : (c.mqttAckListUnrecord type packetId).1 = some handler) :
    ∃ a ∈ c.ackHandlers, a.type = type ∧ a.handler = handler := by
  obtain ⟨a, hlast, rfl⟩ := Option.map_eq_some_iff.mp h
  have ha := List.mem_filter.mp (List.mem_of_getLast? hlast)
  exact ⟨a, ha.1, (by simpa using ha.2 : a.packetId = packetId ∧ a.type = type).2, rfl⟩

/-- Removing records leaves the subscriptions as they are. -/
theorem serves_mqttAckListUnrecord (c : Client) (type packetId : ℕ) :
    c.Serves (c.mqttAckListUnrecord type packetId).2 :=
  .of_eq (fun _ ha => List.mem_of_mem_filter ha) rfl rfl rfl rfl rfl

/-- A SUBACK installs the handler of its record, if it grants the subscription. -/
theorem serves_mqttSubackPacketHandle (c : Client) (e : Env) :
    c.Serves (c.mqttSubackPacketHandle e) := by
  unfold Client.mqttSubackPacketHandle
  split
  · exact serves_fault c
  · rename_i rc packetId granted _
    have hfault : c.Serves { c with fault := c.fault || decide (1 < granted.length) } :=
      ⟨fun h => ⟨h.filters, h.callbacks, h.records, h.delivered⟩, fun _ => List.prefix_rfl,
        fun hset => by simp [hset], rfl, rfl⟩
    simp only
    generalize ({ c with fault := c.fault || decide (1 < granted.length) } : Client) = c₁
      at hfault ⊢
    split_ifs
    · exact hfault
    · have hunrecord := serves_mqttAckListUnrecord c₁ 9 packetId
      refine hfault.trans ?_
      unfold Client.installGranted
      split
      · rename_i handler hhandler
        split_ifs
        · exact hunrecord
        · refine ⟨fun h => ?_, fun hfault => ?_, ?_, ?_, ?_⟩
          · obtain ⟨a, ha, htype, hcopy⟩ := mem_of_mqttAckListUnrecord hhandler
            exact served_mqttMsgHandlersInstall (hunrecord.served h)
              (h.records a ha htype handler hcopy)
          · rw [fault_mqttMsgHandlersInstall] at hfault
            exact (hunrecord.handlers hfault).trans (prefix_mqttMsgHandlersInstall _ handler)
          · rw [fault_mqttMsgHandlersInstall]
            exact hunrecord.fault
          · exact packetId_mqttMsgHandlersInstall ..
          · exact issued_mqttMsgHandlersInstall ..
      · exact hunrecord

/-- Without a record, a stray pointer can take an installed handler away. -/
theorem serves_mqttUnsubackPacketHandle (c : Client) (e : Env) :
    c.Serves (c.mqttUnsubackPacketHandle e) := by
  unfold Client.mqttUnsubackPacketHandle
  split
  · exact serves_fault c
  · rename_i rc packetId _
    have hunrecord := serves_mqttAckListUnrecord c 11 packetId
    simp only
    split_ifs
    · exact .refl c
    · exact hunrecord
    · split
      · exact hunrecord
      · refine hunrecord.trans ⟨fun h => ⟨?_, fun h' hh' => ?_, h.records, h.delivered⟩,
          fun hclash => by simp at hclash, fun _ => rfl, rfl, rfl⟩
        · rw [← List.eraseIdx_map]
          exact h.filters.sublist (List.eraseIdx_sublist _ _)
        · exact h.callbacks h' (List.mem_of_mem_eraseIdx hh')
      · exact hunrecord.trans (serves_fault _)

/-- A PUBLISH leaves the subscriptions as they are. -/
theorem serves_mqttPublishPacketHandle (c : Client) (e : Env) :
    c.Serves (c.mqttPublishPacketHandle e) := by
  unfold Client.mqttPublishPacketHandle
  split
  · exact serves_fault c
  · split_ifs
    · exact .refl c
    · exact serves_mqttDeliverMessage ..
    · exact serves_transmit fun _ c' => serves_mqttDeliverMessage c' _
    · exact serves_transmit fun _ c' => .of_eq (fun _ ha => ha) rfl rfl rfl rfl rfl
    · exact .refl c

/-- A PUBREC or PUBREL leaves the subscriptions as they are. -/
theorem serves_mqttPubrecAndPubrelPacketHandle (c : Client) (e : Env) :
    c.Serves (c.mqttPubrecAndPubrelPacketHandle e) := by
  have hanswer : ∀ packetId packetType,
      c.Serves (c.mqttPublishAckPacket e packetId packetType) := by
    intro packetId packetType
    unfold Client.mqttPublishAckPacket
    split
    · have hwrite : c.Serves (c.write (mqttSerializeAck c.writeBuf.length 6 0 packetId).2) :=
        .of_eq (fun _ ha => ha) rfl rfl rfl rfl rfl
      have hrecord := hwrite.trans (serves_mqttAckListRecord _ e 7 packetId
        (mqttSerializeAck c.writeBuf.length 6 0 packetId).1.toNat none (by simp))
      simp only
      split_ifs
      · exact hrecord.trans (.of_eq (fun _ ha => ha) rfl rfl rfl rfl rfl)
      · exact hrecord
    · exact serves_transmit_only ..
    · exact .refl c
  unfold Client.mqttPubrecAndPubrelPacketHandle
  split
  · exact serves_fault c
  · split_ifs
    · exact .refl c
    · exact (hanswer _ _).trans (.of_eq (fun _ ha => ha) rfl rfl rfl rfl rfl)

/-- Every packet that arrives changes the subscriptions in one of these ways. -/
theorem serves_mqttPacketHandle (c : Client) (e : Env) : c.Serves (c.mqttPacketHandle e) := by
  have hack : c.Serves (c.mqttPubackAndPubcompPacketHandle e) := by
    unfold Client.mqttPubackAndPubcompPacketHandle
    split
    · exact serves_fault c
    · exact serves_mqttAckListUnrecord ..
  unfold Client.mqttPacketHandle
  split_ifs
  · exact .of_eq (fun _ ha => ha) rfl rfl rfl rfl rfl
  · exact .refl c
  · split
    · exact serves_mqttPublishPacketHandle ..
    · exact hack
    · exact hack
    · exact serves_mqttPubrecAndPubrelPacketHandle ..
    · exact serves_mqttPubrecAndPubrelPacketHandle ..
    · exact serves_mqttSubackPacketHandle ..
    · exact serves_mqttUnsubackPacketHandle ..
    · exact .refl c

/-- The second half of a packet leaves the subscriptions as they are. -/
theorem serves_finish (c : Client) (e : Env) : c.Serves (c.finish e) := by
  unfold Client.finish
  split
  · exact .refl c
  · rename_i len d _
    have hrecord := serves_mqttAckListRecord c e 6 d.packetid len none (by simp)
    simp only
    split_ifs
    · exact hrecord.trans (.of_eq (fun _ ha => ha) rfl rfl rfl rfl rfl)
    · exact (hrecord.trans (serves_mqttDeliverMessage _ d)).trans
        (.of_eq (fun _ ha => ha) rfl rfl rfl rfl rfl)
  · exact (serves_mqttAckListUnrecord ..).trans (.of_eq (fun _ ha => ha) rfl rfl rfl rfl rfl)

/-- A record gets a new timer. -/
theorem serves_set (c : Client) {index : ℕ} {a a' : AckHandler}
    (hget : c.ackHandlers[index]? = some a) (htype : a'.type = a.type)
    (hhandler : a'.handler = a.handler) :
    c.Serves { c with ackHandlers := c.ackHandlers.set index a' } := by
  refine ⟨fun h => ⟨h.filters, h.callbacks, fun b hb => ?_, h.delivered⟩,
    fun _ => List.prefix_rfl, id, rfl, rfl⟩
  rcases List.mem_or_eq_of_mem_set hb with hb | rfl
  · exact h.records b hb
  · rw [htype, hhandler]
    exact h.records a (List.mem_of_getElem? hget)

/-- A visit of `mqtt_ack_list_scan` leaves the subscriptions as they are. -/
theorem serves_mqttAckListScan (c : Client) (e : Env) (index : ℕ) (flag : Bool) :
    c.Serves (c.mqttAckListScan e index flag) := by
  unfold Client.mqttAckListScan
  by_cases hstate : e.state ≠ .connected
  · rw [if_pos hstate]
    exact .refl c
  · rw [if_neg hstate]
    split
    · exact .refl c
    · rename_i a hget
      split_ifs
      · exact .refl c
      · unfold Client.mqttAckHandlerResend
        generalize ha' : { a with timer := platformTimerCutdown e.now cmdTimeout } = a'
        have hset := serves_set c hget (show a'.type = a.type by rw [← ha'])
          (show a'.handler = a.handler by rw [← ha'])
        exact hset.trans (serves_transmit_only ..)
      · exact .of_eq (fun _ ha => List.mem_of_mem_eraseIdx ha) rfl rfl rfl rfl rfl
      · exact .refl c

/-- The keep-alive leaves the subscriptions as they are. -/
theorem serves_mqttKeepAlive (c : Client) (e : Env) (expired : Bool) :
    c.Serves (c.mqttKeepAlive e expired) := by
  unfold Client.mqttKeepAlive
  simp only
  split_ifs
  · exact .refl c
  · exact .of_eq (fun _ ha => ha) rfl rfl rfl rfl rfl
  · exact (serves_transmit_only c e _).trans (.of_eq (fun _ ha => ha) rfl rfl rfl rfl rfl)
  · exact .refl c
  · exact .refl c

/-- A connection leaves the subscriptions as they are. -/
theorem serves_mqttConnectWithResults (c : Client) (e : Env) (options : ConnectData)
    (answer : Option Bytes) : c.Serves (c.mqttConnectWithResults e options answer) := by
  have haccept : ∀ c' : Client, c'.Serves (c'.acceptConnection e) := by
    intro c'
    obtain ⟨thread, state, heq⟩ := acceptConnection_eq c' e
    rw [heq]
    exact .of_eq (fun _ ha => ha) rfl rfl rfl rfl rfl
  have hsent : ∀ len bytes, c.Serves ((c.write bytes).mqttSendPacket e len).2 := fun len bytes =>
    .of_eq (fun _ ha => ha) rfl rfl rfl rfl rfl
  unfold Client.mqttConnectWithResults
  simp only
  split_ifs
  · exact .refl c
  · exact haccept c
  · exact (hsent _ _).trans (haccept _)
  · exact .of_eq (fun _ ha => ha) rfl rfl rfl rfl rfl

/-- What may wait for the rest of a packet changes no more subscriptions. -/
theorem serves_whenIdle {c : Client} {next : Client → Client} (h : c.Serves (next c)) :
    c.Serves (c.whenIdle next) := by
  unfold Client.whenIdle
  split
  · exact h
  · exact .refl c

/-- What uses an identifier that was read changes no more subscriptions. -/
theorem serves_withIssued {c : Client} {next : ℕ → Client} (ticket : ℕ)
    (h : ∀ packetId, c.Serves (next packetId)) : c.Serves (c.withIssued ticket next) := by
  unfold Client.withIssued
  split
  · exact h _
  · exact .refl c

/-- The step ends the session. -/
def Ends : Action × Env → Prop
  | (.cleanSession, e) => e.state = .cleanSession
  | _ => False

/-- The steps of `mqtt_get_next_packet_id`. -/
def Counts : Action × Env → Prop
  | (.nextPacketId, _) | (.readPacketId, _) => True
  | _ => False

/-- Every other step that does not end the session takes no handler away. -/
theorem serves_step (c : Client) {x : Action × Env} (hx : ¬ Ends x) (hcounts : ¬ Counts x) :
    c.Serves (c.step x) := by
  obtain ⟨a, e⟩ := x
  cases a with
  | nextPacketId => exact absurd trivial hcounts
  | readPacketId => exact absurd trivial hcounts
  | publish ticket topic qos retained id payload =>
    simp only [Client.step]
    split_ifs
    · exact serves_mqttPublish ..
    · exact serves_withIssued ticket fun packetId => serves_mqttPublish ..
  | subscribe ticket topicFilter qos handler =>
    exact serves_withIssued ticket fun packetId => serves_mqttSubscribe ..
  | unsubscribe ticket topicFilter =>
    exact serves_withIssued ticket fun packetId => serves_mqttUnsubscribe ..
  | disconnect =>
    exact (serves_transmit_only c e _).trans (.of_eq (fun _ ha => ha) rfl rfl rfl rfl rfl)
  | packet readBuf =>
    apply serves_whenIdle
    have hread : c.Serves { c with readBuf := readBuf } :=
      .of_eq (fun _ ha => ha) rfl rfl rfl rfl rfl
    exact hread.trans (serves_mqttPacketHandle _ e)
  | finish => exact serves_finish ..
  | scan index flag =>
    apply serves_whenIdle
    exact serves_mqttAckListScan c e index flag
  | keepAlive expired =>
    apply serves_whenIdle
    exact serves_mqttKeepAlive c e expired
  | connect options answer => exact serves_mqttConnectWithResults c e options answer
  | cleanSession =>
    apply serves_whenIdle
    unfold Client.mqttCleanSession
    rw [if_neg (show ¬ e.state = .cleanSession from hx)]
    exact .refl c

/-- The end of a session. -/
theorem step_ends (c : Client) {x : Action × Env} (hx : Ends x) :
    c.step x = c ∨ c.step x = { c with
      ackHandlers := [], msgHandlers := [], state := .invalid, log := c.log ++ [.reset] } := by
  obtain ⟨a, e⟩ := x
  cases a <;> try exact absurd hx id
  have hstate : e.state = .cleanSession := hx
  simp only [Client.step, Client.whenIdle, Client.mqttCleanSession, if_pos hstate]
  split
  · exact Or.inr rfl
  · exact Or.inl rfl

/-- Every step keeps the filters apart and the callbacks set. -/
theorem Client.Served.step {c : Client} (h : c.Served) (x : Action × Env) :
    (c.step x).Served := by
  by_cases hends : Ends x
  · rcases step_ends c hends with heq | heq
    · rw [heq]
      exact h
    · rw [heq]
      exact ⟨List.nodup_nil, by simp, by simp, h.delivered⟩
  · by_cases hcounts : Counts x
    · obtain ⟨a, e⟩ := x
      cases a <;> first | exact absurd hcounts id | exact ⟨h.1, h.2, h.3, h.4⟩
    · exact (serves_step c hends hcounts).served h

/-- In every run, no two installed handlers have the same filter, and no message is given to a
callback that is not set. -/
theorem run_handlers (writeBuf readBuf : Bytes) (interceptorHandler : Option ℕ)
    (l : List (Action × Env)) :
    ((Client.run writeBuf readBuf interceptorHandler l).msgHandlers.map
        (·.topicFilter)).Nodup ∧
      ∀ d ∈ (Client.run writeBuf readBuf interceptorHandler l).delivered, d.handler ≠ none := by
  have hinit : (Client.init writeBuf readBuf interceptorHandler).Served :=
    ⟨List.nodup_nil, by simp [Client.init], by simp [Client.init], by simp [Client.init]⟩
  have hrun : (Client.run writeBuf readBuf interceptorHandler l).Served :=
    Run.inv_of_step (fun c x hc => hc.step x) hinit l
  exact ⟨hrun.filters, hrun.delivered⟩

/-- A step that does not end the session removes no handler. -/
theorem prefix_step (c : Client) {x : Action × Env} (hx : ¬ Ends x)
    (hfault : (c.step x).fault = false) : c.msgHandlers <+: (c.step x).msgHandlers := by
  by_cases hcounts : Counts x
  · obtain ⟨a, e⟩ := x
    cases a <;> first | exact absurd hcounts id | exact List.prefix_rfl
  · exact (serves_step c hx hcounts).handlers hfault

/-- A fault stays. -/
theorem fault_step (c : Client) (x : Action × Env) (hfault : (c.step x).fault = false) :
    c.fault = false := by
  by_contra hset
  have hset : c.fault = true := by simpa using hset
  have hstays : (c.step x).fault = true := by
    by_cases hends : Ends x
    · rcases step_ends c hends with heq | heq <;> rw [heq] <;> exact hset
    · by_cases hcounts : Counts x
      · obtain ⟨a, e⟩ := x
        cases a <;> first | exact absurd hcounts id | exact hset
      · exact (serves_step c hends hcounts).fault hset
  rw [hstays] at hfault
  cases hfault

/-- The handlers of a client stay installed as long as the session is not ended and the client
uses no memory that is not its own. -/
theorem prefix_after (c : Client) {l : List (Action × Env)} (hl : ∀ x ∈ l, ¬ Ends x)
    (hfault : (Run.after Client.step c l).fault = false) :
    c.msgHandlers <+: (Run.after Client.step c l).msgHandlers := by
  refine Run.inv_after (I := fun c' : Client => c'.fault = false → c.msgHandlers <+: c'.msgHandlers)
    (C := fun _ x => ¬ Ends x) ?_ (fun _ => List.prefix_rfl) (Run.eachStep_label_iff.mpr hl) hfault
  intro c' x hc' hx hstep
  exact (hc' (fault_step c' x hstep)).trans (prefix_step c' hx hstep)

/-- Once a topic has a handler, all its messages go to this handler until the session is ended,
whatever else is subscribed, unsubscribed and acknowledged, as long as no pointer that is not
initialised is followed. -/
theorem mqttGetMsgHandler_stays (writeBuf readBuf : Bytes) (interceptorHandler : Option ℕ)
    (l : List (Action × Env)) {l' : List (Action × Env)} (hl' : ∀ x ∈ l', ¬ Ends x)
    (hfault : (Client.run writeBuf readBuf interceptorHandler (l ++ l')).fault = false)
    {topic : Bytes} {h : MsgHandler}
    (hinstalled : (Client.run writeBuf readBuf interceptorHandler l).mqttGetMsgHandler topic =
      some h) :
    (Client.run writeBuf readBuf interceptorHandler (l ++ l')).mqttGetMsgHandler topic =
      some h := by
  have hrun : Client.run writeBuf readBuf interceptorHandler (l ++ l') =
      Run.after Client.step (Client.run writeBuf readBuf interceptorHandler l) l' :=
    Run.after_append ..
  rw [hrun] at hfault ⊢
  obtain ⟨more, hmore⟩ := prefix_after (Client.run writeBuf readBuf interceptorHandler l) hl' hfault
  unfold Client.mqttGetMsgHandler at hinstalled ⊢
  rw [← hmore, List.find?_append, hinstalled]
  rfl

/-- A subscription of "a" with callback 7, and its SUBACK. -/
def subscribed : List (Action × Env) :=
  [(.nextPacketId, calmEnv .connected), (.readPacketId, calmEnv .connected),
    (.subscribe 0 [97] 0 (some 7), calmEnv .connected),
    (.packet [0x90, 3, 0, 2, 0], calmEnv .connected)]

/-- The end of this subscription, and its UNSUBACK. -/
def unsubscribed : List (Action × Env) :=
  [(.nextPacketId, calmEnv .connected), (.readPacketId, calmEnv .connected),
    (.unsubscribe 1 [97], calmEnv .connected), (.packet [0xB0, 2, 0, 3], calmEnv .connected)]

/-- A topic is still delivered after its unsubscription is acknowledged. -/
theorem mqttGetMsgHandler_stays_unsubscribed :
    (∀ x ∈ unsubscribed, ¬ Ends x) ∧
      (Client.run (List.replicate 16 0) [] none (subscribed ++ unsubscribed)).fault = false ∧
      (Client.run (List.replicate 16 0) [] none subscribed).mqttGetMsgHandler [97] =
        some ⟨[97], 0, some 7⟩ ∧
      (Client.run (List.replicate 16 0) [] none (subscribed ++ unsubscribed)).mqttGetMsgHandler
        [97] = some ⟨[97], 0, some 7⟩ := by
  have hends : ∀ x ∈ unsubscribed, ¬ Ends x := by simp [unsubscribed, Ends]
  have hfault : (Client.run (List.replicate 16 0) [] none (subscribed ++ unsubscribed)).fault =
      false := by decide +kernel
  have hinstalled : (Client.run (List.replicate 16 0) [] none subscribed).mqttGetMsgHandler [97] =
      some ⟨[97], 0, some 7⟩ := by decide +kernel
  exact ⟨hends, hfault, hinstalled, mqttGetMsgHandler_stays _ _ _ _ hends hfault hinstalled⟩

/-! ## Packet identifiers -/

/-- The counter of identifiers is stepped. -/
def isNext : Action × Env → Bool
  | (.nextPacketId, _) => true
  | _ => false

/-- The counter of identifiers is read. -/
def isRead : Action × Env → Bool
  | (.readPacketId, _) => true
  | _ => false

/-- A step that does not touch the identifiers. -/
theorem ids_step (c : Client) {x : Action × Env} (hcounts : ¬ Counts x) :
    (c.step x).packetId = c.packetId ∧ (c.step x).issued = c.issued := by
  by_cases hends : Ends x
  · rcases step_ends c hends with heq | heq <;> rw [heq] <;> exact ⟨rfl, rfl⟩
  · have hserves := serves_step c hends hcounts
    exact ⟨hserves.packetId, hserves.issued⟩

/-- Counter and issued identifiers after each kind of step. -/
theorem ids_step_cases (c : Client) (x : Action × Env) :
    (isNext x = true ∧ isRead x = false ∧
        (c.step x).packetId = (if c.packetId = 0xFFFE then 1 else c.packetId + 1) ∧
        (c.step x).issued = c.issued) ∨
      (isNext x = false ∧ isRead x = true ∧ (c.step x).packetId = c.packetId ∧
        (c.step x).issued = c.issued ++ [c.packetId]) ∨
      (isNext x = false ∧ isRead x = false ∧ (c.step x).packetId = c.packetId ∧
        (c.step x).issued = c.issued) := by
  by_cases hcounts : Counts x
  · obtain ⟨a, e⟩ := x
    cases a <;> try exact absurd hcounts id
    · exact Or.inl ⟨rfl, rfl, rfl, rfl⟩
    · exact Or.inr (Or.inl ⟨rfl, rfl, rfl, rfl⟩)
  · have hids := ids_step c hcounts
    obtain ⟨a, e⟩ := x
    cases a <;> first | exact absurd trivial hcounts | exact Or.inr (Or.inr ⟨rfl, rfl, hids⟩)

/-- The counter after a schedule, and how many identifiers were read. -/
theorem ids_run (writeBuf readBuf : Bytes) (interceptorHandler : Option ℕ)
    (l : List (Action × Env)) :
    (Client.run writeBuf readBuf interceptorHandler l).packetId = l.countP isNext % 65534 + 1 ∧
      (Client.run writeBuf readBuf interceptorHandler l).issued.length = l.countP isRead := by
  induction l using List.reverseRecOn with
  | nil => exact ⟨rfl, rfl⟩
  | append_singleton l x ih =>
    obtain ⟨hpacketId, hissued⟩ := ih
    have hrun : Client.run writeBuf readBuf interceptorHandler (l ++ [x]) =
        (Client.run writeBuf readBuf interceptorHandler l).step x := Run.after_snoc ..
    rw [hrun, List.countP_append, List.countP_append, List.countP_singleton,
      List.countP_singleton]
    rcases ids_step_cases (Client.run writeBuf readBuf interceptorHandler l) x with
      ⟨hnext, hread, hid, hlist⟩ | ⟨hnext, hread, hid, hlist⟩ | ⟨hnext, hread, hid, hlist⟩
    · rw [hid, hlist, hnext, hread, hpacketId, hissued]
      refine ⟨?_, rfl⟩
      rw [if_pos rfl]
      split_ifs <;> omega
    · rw [hid, hlist, hnext, hread, hpacketId, List.length_append, hissued]
      exact ⟨rfl, rfl⟩
    · rw [hid, hlist, hnext, hread, hpacketId, hissued]
      exact ⟨rfl, rfl⟩

/-- The identifiers that were read stay. -/
theorem issued_prefix (c : Client) (l : List (Action × Env)) :
    c.issued <+: (Run.after Client.step c l).issued := by
  refine Run.inv_of_step (I := fun c' : Client => c.issued <+: c'.issued) ?_ List.prefix_rfl l
  intro c' x hc'
  rcases ids_step_cases c' x with ⟨-, -, -, hlist⟩ | ⟨-, -, -, hlist⟩ | ⟨-, -, -, hlist⟩
  · rw [hlist]
    exact hc'
  · rw [hlist]
    exact hc'.trans (List.prefix_append ..)
  · rw [hlist]
    exact hc'

/-- What a read of the counter has given to its thread. -/
theorem issued_at (writeBuf readBuf : Bytes) (interceptorHandler : Option ℕ)
    (pre post : List (Action × Env)) (e : Env) :
    (Client.run writeBuf readBuf interceptorHandler
        (pre ++ (.readPacketId, e) :: post)).issued[pre.countP isRead]? =
      some (pre.countP isNext % 65534 + 1) := by
  obtain ⟨hpacketId, hissued⟩ := ids_run writeBuf readBuf interceptorHandler pre
  have hrun : Client.run writeBuf readBuf interceptorHandler (pre ++ (.readPacketId, e) :: post) =
      Run.after Client.step
        (Client.run writeBuf readBuf interceptorHandler pre).readPacketId post :=
    Run.after_append ..
  obtain ⟨more, hmore⟩ := issued_prefix
    (Client.run writeBuf readBuf interceptorHandler pre).readPacketId post
  rw [hrun, ← hmore, ← hissued, ← hpacketId, Client.readPacketId]
  simp

/-- Two calls that read the counter, with anything before, between and after: both get an
identifier from 1 to 0xFFFE, and they get the same one exactly when the number of steps of the
counter between the two reads is a multiple of 0xFFFE, so also when there is none. -/
theorem issued_eq_iff (writeBuf readBuf : Bytes) (interceptorHandler : Option ℕ)
    (pre mid post : List (Action × Env)) (e e' : Env) :
    ∃ x y, (Client.run writeBuf readBuf interceptorHandler (pre ++ (.readPacketId, e) ::
          (mid ++ (.readPacketId, e') :: post))).issued[pre.countP isRead]? = some x ∧
      (Client.run writeBuf readBuf interceptorHandler (pre ++ (.readPacketId, e) ::
          (mid ++ (.readPacketId, e') :: post))).issued[pre.countP isRead + 1 +
            mid.countP isRead]? = some y ∧
      1 ≤ x ∧ x ≤ 0xFFFE ∧ 1 ≤ y ∧ y ≤ 0xFFFE ∧ (x = y ↔ 0xFFFE ∣ mid.countP isNext) := by
  have hfirst := issued_at writeBuf readBuf interceptorHandler pre
    (mid ++ (.readPacketId, e') :: post) e
  have hsecond := issued_at writeBuf readBuf interceptorHandler
    (pre ++ (.readPacketId, e) :: mid) post e'
  have hreads : (pre ++ (.readPacketId, e) :: mid).countP isRead =
      pre.countP isRead + 1 + mid.countP isRead := by
    rw [List.countP_append, List.countP_cons_of_pos rfl]
    omega
  have hnexts : (pre ++ (.readPacketId, e) :: mid).countP isNext =
      pre.countP isNext + mid.countP isNext := by
    rw [List.countP_append, List.countP_cons_of_neg (by simp [isNext])]
  rw [hreads, hnexts, List.append_assoc, List.cons_append] at hsecond
  refine ⟨_, _, hfirst, hsecond, by omega, by omega, by omega, by omega, ?_⟩
  rw [Nat.dvd_iff_mod_eq_zero]
  omega

end Saliwen.Mqtt
