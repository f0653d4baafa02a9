import Saliwen.CJson.Value

/-!
# The connection to the broker

`platform_net_socket_recv_timeout` reads a given number of bytes from a TCP connection. The
connection delivers its bytes in pieces of any size, and a `recv` can run into its timeout at
any moment. The model keeps the pieces and the timeouts that are still to come; `none` is a
call that is still waiting when they are used up.
-/

namespace Saliwen.Mqtt

open CJson (Bytes)

/-- What a `recv` meets: a piece of the byte stream, or an error, as after a timeout. The empty
piece is the end of the connection. -/
inductive Arrival where
  | data (bytes : Bytes)
  | error
  deriving DecidableEq, Repr

/-- The loop of `platform_net_socket_recv_timeout`, with `nleft` and the bytes stored so far: the
return value, the bytes stored and the connection after the call. -/
def recvLoop (len : ℕ) : ℕ → Bytes → List Arrival → Option (ℤ × Bytes × List Arrival)
  | 0, got, socket => some (len, got, socket)
  | _ + 1, _, [] => none
  | _ + 1, got, .error :: socket => some (-1, got, socket)
  | nleft + 1, got, .data bytes :: socket =>
    if bytes.length = 0 then some ((len : ℤ) - (nleft + 1), got, socket)
    else if bytes.length ≤ nleft + 1 then
      recvLoop len (nleft + 1 - bytes.length) (got ++ bytes) socket
    else some (len, got ++ bytes.take (nleft + 1), .data (bytes.drop (nleft + 1)) :: socket)

/-- `platform_net_socket_recv_timeout`. -/
def platformNetSocketRecvTimeout (len : ℕ) (socket : List Arrival) :
    Option (ℤ × Bytes × List Arrival) :=
  recvLoop len len [] socket

/-- The bytes and the errors of a connection in their order, without the boundaries of the
pieces. -/
def events (socket : List Arrival) : List (Option UInt8) :=
  socket.flatMap fun
    | .data bytes => bytes.map some
    | .error => [none]

/-- The connection is not closed by the other side. -/
def StaysOpen (socket : List Arrival) : Prop := .data [] ∉ socket

/-- An error is one event of the socket. -/
@[simp] theorem events_error (socket : List Arrival) :
    events (.error :: socket) = none :: events socket := rfl

/-- The bytes that arrive are one event each. -/
@[simp] theorem events_data (bytes : Bytes) (socket : List Arrival) :
    events (.data bytes :: socket) = bytes.map some ++ events socket := rfl

/-- A socket that stays open stays so later. -/
theorem StaysOpen.tail {a : Arrival} {socket : List Arrival} (h : StaysOpen (a :: socket)) :
    StaysOpen socket := fun hmem => h (List.mem_cons_of_mem a hmem)

/-- A socket that stays open delivers no empty data. -/
theorem StaysOpen.data_ne_nil {bytes : Bytes} {socket : List Arrival}
    (h : StaysOpen (.data bytes :: socket)) : bytes ≠ [] := by
  rintro rfl
  exact h List.mem_cons_self

/-- A socket that stays open may first deliver some bytes. -/
theorem StaysOpen.cons {bytes : Bytes} {socket : List Arrival} (hne : bytes ≠ [])
    (h : StaysOpen socket) : StaysOpen (.data bytes :: socket) := by
  intro hmem
  rcases List.mem_cons.mp hmem with heq | hmem
  · simp only [Arrival.data.injEq] at heq
    exact hne heq.symm
  · exact h hmem

/-- A piece that is not longer than the next bytes of the stream is their beginning. -/
theorem piece_split {piece bytes : Bytes} {after rest : List (Option UInt8)}
    (hevents : piece.map some ++ after = bytes.map some ++ rest)
    (hle : piece.length ≤ bytes.length) :
    ∃ more : Bytes, bytes = piece ++ more ∧ after = more.map some ++ rest := by
  refine ⟨bytes.drop piece.length, ?_, ?_⟩
  · have htake := congrArg (List.take piece.length) hevents
    rw [List.take_left' (by simp), List.take_append_of_le_length (by simpa using hle),
      ← List.map_take] at htake
    have hpiece : piece = bytes.take piece.length :=
      List.map_injective_iff.mpr (Option.some_injective _) htake
    conv_lhs => rw [← List.take_append_drop piece.length bytes, ← hpiece]
  · have hdrop := congrArg (List.drop piece.length) hevents
    rw [List.drop_left' (by simp), List.drop_append_of_le_length (by simpa using hle),
      ← List.map_drop] at hdrop
    exact hdrop

/-- A read gets the next bytes of the stream, however they are cut into pieces. -/
theorem recvLoop_bytes (len : ℕ) {socket : List Arrival} :
    ∀ {nleft : ℕ} (got bytes : Bytes) {rest : List (Option UInt8)}, StaysOpen socket →
      events socket = bytes.map some ++ rest → bytes.length = nleft →
      ∃ socket', recvLoop len nleft got socket = some ((len : ℤ), got ++ bytes, socket') ∧
        StaysOpen socket' ∧ events socket' = rest := by
  induction socket with
  | nil =>
    intro nleft got bytes rest hopen hevents hlength
    obtain ⟨hbytes, rfl⟩ := List.append_eq_nil_iff.mp hevents.symm
    obtain rfl : bytes = [] := by simpa using hbytes
    subst hlength
    exact ⟨[], by simp [recvLoop], hopen, rfl⟩
  | cons a socket ih =>
    intro nleft got bytes rest hopen hevents hlength
    cases nleft with
    | zero =>
      obtain rfl : bytes = [] := List.length_eq_zero_iff.mp hlength
      exact ⟨a :: socket, by simp [recvLoop], hopen, hevents⟩
    | succ nleft =>
      cases a with
      | error =>
        cases bytes with
        | nil => simp at hlength
        | cons c bytes => simp at hevents
      | data piece =>
        have hne := hopen.data_ne_nil
        have hpos : piece.length ≠ 0 := fun h => hne (List.length_eq_zero_iff.mp h)
        rw [events_data] at hevents
        by_cases hle : piece.length ≤ nleft + 1
        · -- The whole piece is stored, and the loop goes on with what is left of the bytes.
          obtain ⟨more, rfl, hsocket⟩ := piece_split hevents (by omega)
          have hmoreLength : more.length = nleft + 1 - piece.length := by
            rw [List.length_append] at hlength
            omega
          obtain ⟨socket', hrun, hopen', hrest⟩ :=
            ih (got ++ piece) more hopen.tail hsocket hmoreLength
          refine ⟨socket', ?_, hopen', hrest⟩
          rw [recvLoop, if_neg hpos, if_pos hle, hrun, List.append_assoc]
        · -- The piece holds more than is asked for and stays, shortened.
          obtain ⟨more, rfl, hrest⟩ := piece_split hevents.symm (by omega)
          have htake : (bytes ++ more).take (nleft + 1) = bytes := List.take_left' hlength
          have hdrop : (bytes ++ more).drop (nleft + 1) = more := List.drop_left' hlength
          refine ⟨.data more :: socket, ?_, ?_, ?_⟩
          · rw [recvLoop, if_neg hpos, if_neg hle, htake, hdrop]
          · apply StaysOpen.cons _ hopen.tail
            rintro rfl
            simp only [List.append_nil] at hle
            omega
          · rw [events_data, hrest]

/-- An error before the read is complete: the read fails, and the bytes that came before are
taken from the stream. -/
theorem recvLoop_error (len : ℕ) {socket : List Arrival} :
    ∀ {nleft : ℕ} (got bytes : Bytes) {rest : List (Option UInt8)}, StaysOpen socket →
      events socket = bytes.map some ++ none :: rest → bytes.length < nleft →
      ∃ socket', recvLoop len nleft got socket = some (-1, got ++ bytes, socket') ∧
        StaysOpen socket' ∧ events socket' = rest := by
  induction socket with
  | nil =>
    intro nleft got bytes rest _ hevents _
    simp [events] at hevents
  | cons a socket ih =>
    intro nleft got bytes rest hopen hevents hlength
    obtain ⟨nleft, rfl⟩ : ∃ k, nleft = k + 1 := ⟨nleft - 1, by omega⟩
    cases a with
    | error =>
      cases bytes with
      | nil =>
        simp only [events_error, List.map_nil, List.nil_append, List.cons.injEq, true_and]
          at hevents
        exact ⟨socket, by simp [recvLoop], hopen.tail, hevents⟩
      | cons c bytes => simp at hevents
    | data piece =>
      have hpos : piece.length ≠ 0 := fun h =>
        hopen.data_ne_nil (List.length_eq_zero_iff.mp h)
      rw [events_data] at hevents
      have hle : piece.length ≤ bytes.length := by
        by_contra hlong
        have hat := congrArg (fun l => l[bytes.length]?) hevents
        have hinside : bytes.length < (piece.map some).length := by simpa using hlong
        simp only [List.getElem?_append_left hinside] at hat
        rw [List.getElem?_append_right (by simp)] at hat
        simp at hat
      obtain ⟨more, rfl, hsocket⟩ := piece_split hevents hle
      have hmore : more.length < nleft + 1 - piece.length := by
        rw [List.length_append] at hlength
        omega
      obtain ⟨socket', hrun, hopen', hrest⟩ :=
        ih (got ++ piece) more hopen.tail hsocket hmore
      refine ⟨socket', ?_, hopen', hrest⟩
      rw [List.length_append] at hlength
      rw [recvLoop, if_neg hpos, if_pos (by omega), hrun, List.append_assoc]

end Saliwen.Mqtt
