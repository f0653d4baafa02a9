import Saliwen.Mqtt.Publish
import Saliwen.Mqtt.Connection

/-!
# Reading packets from the connection

`mqtt_read_packet` takes one packet after the other from the connection into the read buffer,
and `mqtt_packet_drain` throws away a packet that is too long for it. The main result is that
the calls of `mqtt_read_packet` recover the sequence of packets that was sent, however the
connection cuts it into pieces, as long as no timeout falls into the middle of a packet.
-/

namespace Saliwen.Mqtt

open CJson (Bytes)

/-- The read buffer and the connection. -/
structure Link where
  readBuf : Bytes
  socket : List Arrival

/-- Bytes stored at an offset of a buffer. -/
def store (buf : Bytes) (offset : ℕ) (bytes : Bytes) : Bytes :=
  buf.take offset ++ bytes ++ buf.drop (offset + bytes.length)

/-- `network_read` into the read buffer at an offset. -/
def Link.networkRead (l : Link) (offset len : ℕ) : Option (ℤ × Link) := do
  let (rc, got, socket) ← platformNetSocketRecvTimeout len l.socket
  return (rc, ⟨store l.readBuf offset got, socket⟩)

/-- `network_read` of one byte into a variable, as a source for the decoder; a source that
is `none` is still waiting. -/
def networkChar : Option (List Arrival) → Option UInt8 × Option (List Arrival)
  | none => (none, none)
  | some socket =>
    match platformNetSocketRecvTimeout 1 socket with
    | none => (none, none)
    | some (rc, got, socket) => (if rc = 1 then got.head? else none, some socket)

/-- `mqtt_decode_packet`: the value and the connection. -/
def mqttDecodePacket (socket : List Arrival) : Option (ℕ × List Arrival) :=
  match mqttPacketDecode networkChar (some socket) with
  | (_, value, socket) => socket.map fun socket => (value, socket)

/-- The loop of `mqtt_packet_drain`. A failed read counts as minus one byte. -/
def drainLoop (size packetLen : ℕ) : ℕ → ℤ → ℕ → Link → Option Link
  | 0, _, _, _ => none
  | fuel + 1, total, bytes2read, l => do
    let (readLen, l) ← l.networkRead 0 bytes2read
    if readLen = 0 then return l
    let total := total + readLen
    if total < packetLen then
      drainLoop size packetLen fuel total
        (if (size : ℤ) ≤ packetLen - total then size else (packetLen - total).toNat) l
    else return l

/-- `mqtt_packet_drain`. Every turn of the loop takes a byte or an error from the connection. -/
def mqttPacketDrain (size packetLen : ℕ) (l : Link) : Option Link :=
  drainLoop size packetLen ((events l.socket).length + 1) 0
    (if packetLen < size then packetLen else size) l

/-- The return values of `mqtt_read_packet`. -/
inductive ReadRc where
  | success
  | nothingToRead
  | bufferTooShort
  deriving DecidableEq, Repr

/-- `mqtt_read_packet` with a read buffer of `size` bytes: the return value, `packet_type`,
which the caller has set to 0, and the link. -/
def mqttReadPacket (size : ℕ) (l : Link) : Option (ReadRc × ℕ × Link) := do
  let (rc, l) ← l.networkRead 0 1
  if rc ≠ 1 then return (.nothingToRead, 0, l)
  let (remainLen, socket) ← mqttDecodePacket l.socket
  let l : Link := ⟨store l.readBuf 1 (mqttPacketEncode remainLen), socket⟩
  let len := 1 + (mqttPacketEncode remainLen).length
  if size < len + remainLen then
    let l ← mqttPacketDrain size remainLen l
    return (.bufferTooShort, 0, l)
  if 0 < remainLen then
    let (rc, l) ← l.networkRead len remainLen
    if rc ≠ remainLen then return (.nothingToRead, 0, l)
    return (.success, headerType (l.readBuf.headD 0), l)
  return (.success, headerType (l.readBuf.headD 0), l)

/-! ## Single reads -/

/-- Bytes that fit do not lengthen the buffer. -/
theorem store_length {buf bytes : Bytes} {offset : ℕ} (h : offset + bytes.length ≤ buf.length) :
    (store buf offset bytes).length = buf.length := by
  simp only [store, List.length_append, List.length_take, List.length_drop]
  omega

/-- Storing behind a beginning of the buffer extends it. -/
theorem prefix_store {buf front : Bytes} (bytes : Bytes) (h : front <+: buf) :
    front ++ bytes <+: store buf front.length bytes := by
  have htake : buf.take front.length = front := (List.prefix_iff_eq_take.mp h).symm
  rw [store, htake]
  exact List.prefix_append ..

/-- A read of bytes that are on their way. -/
theorem networkRead_bytes {l : Link} (offset : ℕ) {bytes : Bytes} {rest : List (Option UInt8)}
    (hopen : StaysOpen l.socket) (hevents : events l.socket = bytes.map some ++ rest) :
    ∃ socket, l.networkRead offset bytes.length =
        some ((bytes.length : ℤ), ⟨store l.readBuf offset bytes, socket⟩) ∧
      StaysOpen socket ∧ events socket = rest := by
  obtain ⟨socket, hrun, hopen', hrest⟩ :=
    recvLoop_bytes bytes.length [] bytes hopen hevents rfl
  refine ⟨socket, ?_, hopen', hrest⟩
  simp [Link.networkRead, platformNetSocketRecvTimeout, hrun]

/-- A read that meets an error at once. -/
theorem networkRead_error {l : Link} (offset len : ℕ) {rest : List (Option UInt8)}
    (hopen : StaysOpen l.socket) (hevents : events l.socket = none :: rest) :
    ∃ socket, l.networkRead offset (len + 1) = some (-1, ⟨store l.readBuf offset [], socket⟩) ∧
      StaysOpen socket ∧ events socket = rest := by
  obtain ⟨socket, hrun, hopen', hrest⟩ :=
    recvLoop_error (len + 1) [] [] hopen hevents (Nat.succ_pos len)
  refine ⟨socket, ?_, hopen', hrest⟩
  simp [Link.networkRead, platformNetSocketRecvTimeout, hrun]

/-- One byte for the decoder. -/
theorem networkChar_byte {socket : List Arrival} {c : UInt8} {rest : List (Option UInt8)}
    (hopen : StaysOpen socket) (hevents : events socket = some c :: rest) :
    ∃ socket', networkChar (some socket) = (some c, some socket') ∧ StaysOpen socket' ∧
      events socket' = rest := by
  obtain ⟨socket', hrun, hopen', hrest⟩ :=
    recvLoop_bytes 1 [] [c] hopen hevents List.length_singleton
  refine ⟨socket', ?_, hopen', hrest⟩
  simp [networkChar, platformNetSocketRecvTimeout, hrun]

/-- The decoder reads from the connection what is on its way. -/
theorem yields_connection (bytes : Bytes) : ∀ {socket : List Arrival} {rest : List (Option UInt8)},
    StaysOpen socket → events socket = bytes.map some ++ rest →
    ∃ socket', Yields networkChar (some socket) bytes (some socket') ∧ StaysOpen socket' ∧
      events socket' = rest := by
  induction bytes with
  | nil =>
    intro socket rest hopen hevents
    exact ⟨socket, rfl, hopen, hevents⟩
  | cons c bytes ih =>
    intro socket rest hopen hevents
    obtain ⟨next, hchar, hopen', hnext⟩ := networkChar_byte hopen hevents
    obtain ⟨last, hyields, hopen'', hlast⟩ := ih hopen' hnext
    exact ⟨last, ⟨some next, hchar, hyields⟩, hopen'', hlast⟩

/-- The length field on the connection. -/
theorem mqttDecodePacket_encode {length : ℕ} {socket : List Arrival}
    {rest : List (Option UInt8)} (hlength : length < 2 ^ 28) (hopen : StaysOpen socket)
    (hevents : events socket = (mqttPacketEncode length).map some ++ rest) :
    ∃ socket', mqttDecodePacket socket = some (length, socket') ∧ StaysOpen socket' ∧
      events socket' = rest := by
  obtain ⟨socket', hyields, hopen', hrest⟩ := yields_connection _ hopen hevents
  refine ⟨socket', ?_, hopen', hrest⟩
  unfold mqttDecodePacket
  rw [mqttPacketDecode_encode hlength hyields]
  rfl

/-! ## Packets that are too long -/

/-- Draining takes exactly the bytes of the packet when no error comes in between. -/
theorem drainLoop_bytes {size packetLen : ℕ} (hsize : 0 < size) {fuel : ℕ} :
    ∀ (total : ℕ) {bytes : Bytes} {l : Link} {rest : List (Option UInt8)},
      size ≤ l.readBuf.length → StaysOpen l.socket →
      events l.socket = bytes.map some ++ rest → total + bytes.length = packetLen →
      0 < bytes.length → bytes.length ≤ fuel →
      ∃ l', drainLoop size packetLen fuel total (min size bytes.length) l = some l' ∧
        l'.readBuf.length = l.readBuf.length ∧ StaysOpen l'.socket ∧
        events l'.socket = rest := by
  -- One turn takes a buffer full of the remaining bytes, or all of them.
  induction fuel with
  | zero =>
    intro total bytes l rest _ _ _ _ hpos hfuel
    omega
  | succ fuel ih =>
    intro total bytes l rest hbuf hopen hevents htotal hpos hfuel
    have hsplit : events l.socket =
        (bytes.take (min size bytes.length)).map some ++
          ((bytes.drop (min size bytes.length)).map some ++ rest) := by
      rw [hevents, ← List.append_assoc, ← List.map_append, List.take_append_drop]
    have hlength : (bytes.take (min size bytes.length)).length = min size bytes.length := by
      rw [List.length_take]
      omega
    obtain ⟨socket, hread, hopen', hrest⟩ := networkRead_bytes 0 hopen hsplit
    rw [hlength] at hread
    have hstored : (store l.readBuf 0 (bytes.take (min size bytes.length))).length =
        l.readBuf.length := by
      apply store_length
      rw [hlength]
      omega
    rw [drainLoop, hread]
    simp only [Option.bind_eq_bind, Option.bind_some]
    rw [if_neg (by omega)]
    by_cases hmore : size < bytes.length
    · have hmin : min size bytes.length = size := by omega
      simp only [hmin] at hrest hstored hread ⊢
      have hdropLength : (bytes.drop size).length = bytes.length - size := List.length_drop
      obtain ⟨l', hrun, hkeep, hopen'', hlast⟩ :=
        ih (total + size)
          (l := ⟨store l.readBuf 0 (bytes.take size), socket⟩) (by simp only; omega) hopen' hrest
          (by omega) (by omega) (by omega)
      refine ⟨l', ?_, hkeep.trans hstored, hopen'', hlast⟩
      rw [if_pos (by omega)]
      have hnext : (if (size : ℤ) ≤ (packetLen : ℤ) - ((total : ℤ) + (size : ℤ)) then size
          else ((packetLen : ℤ) - ((total : ℤ) + (size : ℤ))).toNat) =
          min size (bytes.drop size).length := by
        split_ifs <;> omega
      rw [hnext, ← hrun]
      norm_num
    · have hmin : min size bytes.length = bytes.length := by omega
      simp only [hmin, List.drop_length, List.map_nil, List.nil_append, List.take_length]
        at hrest hstored ⊢
      rw [if_neg (by omega)]
      exact ⟨_, rfl, hstored, hopen', hrest⟩

/-- A socket that delivers some bytes has at least as many events. -/
theorem events_length_of_eq {socket : List Arrival} {bytes : Bytes} {rest : List (Option UInt8)}
    (h : events socket = bytes.map some ++ rest) : bytes.length ≤ (events socket).length := by
  rw [h, List.length_append, List.length_map]
  omega

/-- `mqtt_packet_drain` on a packet that arrives completely. -/
theorem mqttPacketDrain_bytes {size : ℕ} (hsize : 0 < size) {bytes : Bytes} {l : Link}
    {rest : List (Option UInt8)} (hbuf : size ≤ l.readBuf.length) (hopen : StaysOpen l.socket)
    (hevents : events l.socket = bytes.map some ++ rest) (hpos : 0 < bytes.length) :
    ∃ l', mqttPacketDrain size bytes.length l = some l' ∧
      l'.readBuf.length = l.readBuf.length ∧ StaysOpen l'.socket ∧ events l'.socket = rest := by
  have hcount := events_length_of_eq hevents
  have hfirst : (if bytes.length < size then bytes.length else size) = min size bytes.length := by
    split_ifs <;> omega
  unfold mqttPacketDrain
  rw [hfirst]
  exact drainLoop_bytes hsize 0 hbuf hopen hevents (by omega) hpos (by omega)

/-! ## The sequence of packets -/

/-- A packet on the wire: the header byte and the body. -/
structure Packet where
  header : UInt8
  body : Bytes
  short : body.length < 2 ^ 28

/-- The bytes of a packet. -/
def Packet.bytes (p : Packet) : Bytes := frame p.header p.body

/-- What the connection brings: a packet, or a timeout between two packets. -/
def wire : List (Option Packet) → List (Option UInt8)
  | [] => []
  | some p :: script => p.bytes.map some ++ wire script
  | none :: script => none :: wire script

/-- What one call of `mqtt_read_packet` has to report for it: return value, packet type and
read buffer. -/
def Reports (size : ℕ) : Option Packet → ReadRc × ℕ × Bytes → Prop
  | none, (rc, type, _) => rc = .nothingToRead ∧ type = 0
  | some p, (rc, type, readBuf) =>
    if p.bytes.length ≤ size then
      rc = .success ∧ type = headerType p.header ∧ p.bytes <+: readBuf
    else rc = .bufferTooShort ∧ type = 0

/-- The reports of successive calls. -/
def readPackets (size : ℕ) : ℕ → Link → Option (List (ReadRc × ℕ × Bytes) × Link)
  | 0, l => some ([], l)
  | n + 1, l => do
    let (rc, type, l) ← mqttReadPacket size l
    let (reports, l') ← readPackets size n l
    return ((rc, type, l.readBuf) :: reports, l')

/-- A link between two packets. -/
structure Ready (size : ℕ) (l : Link) (rest : List (Option UInt8)) : Prop where
  buffer : l.readBuf.length = size
  stays : StaysOpen l.socket
  arrives : events l.socket = rest

/-- The beginning of a packet is read into the buffer: header, then the remaining length. -/
theorem mqttReadPacket_front {size : ℕ} (hsize : 5 ≤ size) {l : Link} {p : Packet}
    {rest : List (Option UInt8)} (h : Ready size l (p.bytes.map some ++ rest)) :
    ∃ l₁ socket, l.networkRead 0 1 = some (1, l₁) ∧
      mqttDecodePacket l₁.socket = some (p.body.length, socket) ∧
      (p.header :: mqttPacketEncode p.body.length) <+:
        store l₁.readBuf 1 (mqttPacketEncode p.body.length) ∧
      Ready size ⟨store l₁.readBuf 1 (mqttPacketEncode p.body.length), socket⟩
        (p.body.map some ++ rest) := by
  have hheader : events l.socket = [p.header].map some ++
      ((mqttPacketEncode p.body.length).map some ++ (p.body.map some ++ rest)) := by
    rw [h.arrives, Packet.bytes, frame]
    simp
  obtain ⟨socket₁, hread, hopen₁, hrest₁⟩ := networkRead_bytes 0 h.stays hheader
  obtain ⟨socket, hdecode, hopen, hrest⟩ := mqttDecodePacket_encode p.short hopen₁ hrest₁
  have hfield : (mqttPacketEncode p.body.length).length ≤ 4 := by
    rw [mqttPacketEncode_length p.short]
    split_ifs <;> omega
  have hbuffer := h.buffer
  have hfirst : (store l.readBuf 0 [p.header]).length = size := by
    rw [store_length (by simp only [List.length_cons, List.length_nil]; omega), hbuffer]
  refine ⟨⟨store l.readBuf 0 [p.header], socket₁⟩, socket, hread, hdecode, ?_, ?_, hopen, hrest⟩
  · have hfront : [p.header] <+: store l.readBuf 0 [p.header] := by
      simpa using prefix_store [p.header] (List.nil_prefix (l := l.readBuf))
    exact prefix_store _ hfront
  · rw [store_length (by rw [hfirst]; omega), hfirst]

/-- The first byte of a buffer that begins with a text. -/
theorem headD_of_front {c : UInt8} {bytes buf : Bytes} (h : c :: bytes <+: buf) :
    buf.headD 0 = c := by
  obtain ⟨after, rfl⟩ := h
  rfl

/-- A call that meets a packet reports it and leaves the connection behind the packet. -/
theorem mqttReadPacket_packet {size : ℕ} (hsize : 5 ≤ size) {l : Link} {p : Packet}
    {rest : List (Option UInt8)} (h : Ready size l (p.bytes.map some ++ rest)) :
    ∃ rc type l', mqttReadPacket size l = some (rc, type, l') ∧
      Reports size (some p) (rc, type, l'.readBuf) ∧ Ready size l' rest := by
  obtain ⟨l₁, socket, hread, hdecode, hfront, hready⟩ := mqttReadPacket_front hsize h
  generalize hl₂ : (⟨store l₁.readBuf 1 (mqttPacketEncode p.body.length), socket⟩ : Link) = l₂
    at hready
  have hbuf₂ : store l₁.readBuf 1 (mqttPacketEncode p.body.length) = l₂.readBuf := by rw [← hl₂]
  rw [hbuf₂] at hfront
  have hbytes : p.bytes.length = 1 + (mqttPacketEncode p.body.length).length + p.body.length :=
    frame_length ..
  have hfield : (mqttPacketEncode p.body.length).length ≤ 4 := by
    rw [mqttPacketEncode_length p.short]
    split_ifs <;> omega
  unfold mqttReadPacket
  rw [hread]
  simp only [Option.bind_eq_bind, Option.bind_some, ne_eq, not_true_eq_false, if_false, hdecode,
    hl₂]
  by_cases hlong : size < 1 + (mqttPacketEncode p.body.length).length + p.body.length
  · -- Too long for the buffer: the body is thrown away.
    obtain ⟨l', hdrain, hkeep, hopen, hrest⟩ := mqttPacketDrain_bytes (by omega)
      hready.buffer.ge hready.stays hready.arrives (by omega)
    rw [if_pos hlong, hdrain]
    refine ⟨_, _, _, rfl, ?_, hkeep.trans hready.buffer, hopen, hrest⟩
    rw [Reports, if_neg (by omega)]
    exact ⟨rfl, rfl⟩
  · rw [if_neg hlong]
    by_cases hempty : 0 < p.body.length
    · have hstart : 1 + (mqttPacketEncode p.body.length).length =
          (p.header :: mqttPacketEncode p.body.length).length := by
        rw [List.length_cons, add_comm]
      obtain ⟨socket', hbody, hopen, hrest⟩ :=
        networkRead_bytes (1 + (mqttPacketEncode p.body.length).length)
          hready.stays hready.arrives
      have hwhole : p.bytes <+: store l₂.readBuf (1 + (mqttPacketEncode p.body.length).length)
          p.body := by
        rw [hstart]
        exact prefix_store _ hfront
      rw [if_pos hempty, hbody]
      simp only [Option.bind_some, not_true_eq_false, if_false]
      refine ⟨_, _, _, rfl, ?_, ?_, hopen, hrest⟩
      · rw [Reports, if_pos (by omega)]
        exact ⟨rfl, congrArg headerType (headD_of_front hwhole), hwhole⟩
      · rw [store_length (by rw [hready.buffer]; omega), hready.buffer]
    · have hnil : p.body = [] := List.length_eq_zero_iff.mp (by omega)
      rw [if_neg hempty]
      refine ⟨_, _, _, rfl, ?_, hready.buffer, hready.stays, ?_⟩
      · have hwhole : p.bytes <+: l₂.readBuf := by
          simpa [Packet.bytes, frame, hnil] using hfront
        rw [Reports, if_pos (by omega), hbuf₂]
        exact ⟨rfl, congrArg headerType (headD_of_front hwhole), hwhole⟩
      · simpa [hnil] using hready.arrives

/-- A call that meets a timeout between two packets. -/
theorem mqttReadPacket_timeout {size : ℕ} {l : Link} {rest : List (Option UInt8)}
    (h : Ready size l (none :: rest)) :
    ∃ rc type l', mqttReadPacket size l = some (rc, type, l') ∧
      Reports size none (rc, type, l'.readBuf) ∧ Ready size l' rest := by
  obtain ⟨socket, hread, hopen, hrest⟩ :=
    networkRead_error 0 0 h.stays h.arrives
  have hstore : store l.readBuf 0 [] = l.readBuf := by simp [store]
  rw [hstore] at hread
  unfold mqttReadPacket
  rw [hread]
  exact ⟨_, _, _, rfl, ⟨rfl, rfl⟩, h.buffer, hopen, hrest⟩

/-- Successive calls recover the packets that were sent, in their order and however the
connection cuts the bytes into pieces. A packet that does not fit into the read buffer is
reported as such, and the packets behind it are not affected. -/
theorem readPackets_wire {size : ℕ} (hsize : 5 ≤ size) (script : List (Option Packet)) :
    ∀ {l : Link} {rest : List (Option UInt8)}, Ready size l (wire script ++ rest) →
      ∃ reports l', readPackets size script.length l = some (reports, l') ∧
        List.Forall₂ (Reports size) script reports ∧ Ready size l' rest := by
  induction script with
  | nil =>
    intro l rest h
    exact ⟨[], l, rfl, .nil, h⟩
  | cons p script ih =>
    intro l rest h
    obtain ⟨rc, type, l₁, hread, hreport, hready⟩ : ∃ rc type l', mqttReadPacket size l =
        some (rc, type, l') ∧ Reports size p (rc, type, l'.readBuf) ∧
          Ready size l' (wire script ++ rest) := by
      cases p with
      | none => exact mqttReadPacket_timeout h
      | some p =>
        rw [wire, List.append_assoc] at h
        exact mqttReadPacket_packet hsize h
    obtain ⟨reports, l', hrun, hreports, hlast⟩ := ih hready
    refine ⟨(rc, type, l₁.readBuf) :: reports, l', ?_, .cons hreport hreports, hlast⟩
    rw [List.length_cons, readPackets, hread]
    simp only [Option.bind_eq_bind, Option.bind_some]
    rw [hrun]
    rfl

/-- A PUBACK, and a PUBLISH that is too long for a read buffer of five bytes. -/
def pubackThenPublish : List (Option Packet) :=
  [some ⟨0x40, [0, 7], by decide⟩, none, some ⟨0x30, [0, 1, 97, 1, 2, 3], by decide⟩]

/-- The two packets, with a timeout between them, arrive in pieces that do not respect their
boundaries, and the second one is drained. -/
theorem readPackets_wire_drained :
    let socket : List Arrival := [.data [0x40], .data [2, 0], .data [7], .error, .data [0x30, 6, 0],
      .data [1, 97, 1, 2], .data [3, 0xD0]]
    Ready 5 ⟨[0, 0, 0, 0, 0], socket⟩ (wire pubackThenPublish ++ [some 0xD0]) ∧
      ∃ reports l', readPackets 5 3 ⟨[0, 0, 0, 0, 0], socket⟩ = some (reports, l') ∧
        List.Forall₂ (Reports 5) pubackThenPublish reports ∧ Ready 5 l' [some 0xD0] := by
  intro socket
  have hready : Ready 5 ⟨[0, 0, 0, 0, 0], socket⟩ (wire pubackThenPublish ++ [some 0xD0]) :=
    ⟨rfl, by simp [StaysOpen, socket], by decide⟩
  exact ⟨hready, readPackets_wire (by decide) pubackThenPublish hready⟩

/-! ## A timeout inside of a packet -/

/-- A timeout instead of the first byte of the length field: the length is taken to be zero. -/
theorem mqttDecodePacket_timeout {socket : List Arrival} {rest : List (Option UInt8)}
    (hopen : StaysOpen socket) (hevents : events socket = none :: rest) :
    ∃ socket', mqttDecodePacket socket = some (0, socket') ∧ StaysOpen socket' ∧
      events socket' = rest := by
  obtain ⟨socket', hrun, hopen', hrest⟩ :=
    recvLoop_error 1 [] [] hopen hevents Nat.one_pos
  refine ⟨socket', ?_, hopen', hrest⟩
  simp [mqttDecodePacket, mqttPacketDecode, decodeLoop, networkChar,
    platformNetSocketRecvTimeout, hrun]

/-- A timeout right behind the header byte: `mqtt_read_packet` reports success, with a packet of
that type and an empty body in the buffer. If it is a PUBLISH, the deserializer accepts this
packet too, and it leaves the topic, the payload and the payload length as they were. -/
theorem mqttReadPacket_timeout_after_header {size : ℕ} (hsize : 5 ≤ size) {l : Link}
    {header : UInt8} {rest : List (Option UInt8)} (h : Ready size l (some header :: none :: rest)) :
    ∃ l', mqttReadPacket size l = some (.success, headerType header, l') ∧ Ready size l' rest ∧
      frame header [] <+: l'.readBuf ∧
      (headerType header = 3 → ∀ old, ∃ d, mqttDeserializePublish old l'.readBuf = some (1, d) ∧
        d.topicName = old.topicName ∧ d.payload = old.payload ∧
        d.payloadlen = old.payloadlen) := by
  have hheader : events l.socket = [header].map some ++ none :: rest := h.arrives
  obtain ⟨socket₁, hread, hopen₁, hrest₁⟩ := networkRead_bytes 0 h.stays hheader
  obtain ⟨socket, hdecode, hopen, hrest⟩ := mqttDecodePacket_timeout hopen₁ hrest₁
  have hbuffer := h.buffer
  have hzero : mqttPacketEncode 0 = [0] := by decide
  have hfirst : (store l.readBuf 0 [header]).length = size := by
    rw [store_length (by simp only [List.length_cons, List.length_nil]; omega), hbuffer]
  have hfront : frame header [] <+: store (store l.readBuf 0 [header]) 1 [0] := by
    have hstored : [header] <+: store l.readBuf 0 [header] := by
      simpa using prefix_store [header] (List.nil_prefix (l := l.readBuf))
    simpa [frame, hzero] using prefix_store [0] hstored
  refine ⟨⟨store (store l.readBuf 0 [header]) 1 [0], socket⟩, ?_, ⟨?_, hopen, hrest⟩, hfront, ?_⟩
  · unfold mqttReadPacket
    rw [List.length_singleton] at hread
    rw [hread]
    simp only [Nat.cast_one, Option.bind_eq_bind, Option.bind_some, ne_eq, not_true_eq_false,
      if_false, hdecode, hzero, List.length_singleton]
    rw [if_neg (by omega), if_neg (by omega), headD_of_front hfront]
    rfl
  · rw [store_length (by simp only [List.length_cons, List.length_nil]; omega), hfirst]
  · intro htype old
    obtain ⟨after, hafter⟩ := hfront
    obtain ⟨len, hlen, hrun⟩ := mqttDeserializePublish_unfit old [] after htype (by simp)
      (by simp [TopicFits])
    rw [hafter, List.length_nil, hzero, List.length_singleton, Nat.cast_one, hlen (by simp)] at hrun
    exact ⟨_, hrun, rfl, rfl, rfl⟩

/-- A PUBLISH whose header byte is followed by a timeout. -/
theorem mqttReadPacket_timeout_after_header_publish :
    Ready 5 ⟨[0, 0, 0, 0, 0], [.data [0x30], .error]⟩ (some 0x30 :: none :: []) ∧
      ∃ l', mqttReadPacket 5 ⟨[0, 0, 0, 0, 0], [.data [0x30], .error]⟩ =
          some (.success, headerType 0x30, l') ∧ Ready 5 l' [] ∧
        frame 0x30 [] <+: l'.readBuf ∧
        (headerType 0x30 = 3 → ∀ old, ∃ d, mqttDeserializePublish old l'.readBuf = some (1, d) ∧
          d.topicName = old.topicName ∧ d.payload = old.payload ∧
          d.payloadlen = old.payloadlen) := by
  have hready : Ready 5 ⟨[0, 0, 0, 0, 0], [.data [0x30], .error]⟩ (some 0x30 :: none :: []) :=
    ⟨rfl, by simp [StaysOpen], by decide⟩
  exact ⟨hready, mqttReadPacket_timeout_after_header (by decide) hready⟩

end Saliwen.Mqtt
