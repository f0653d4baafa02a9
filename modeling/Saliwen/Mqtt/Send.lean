import Mathlib.Algebra.Order.BigOperators.Group.List
import Saliwen.CJson.Value

/-!
# Sending a packet

`mqtt_send_packet` hands the packet in the write buffer to the network until it has gone out or
its timer has expired. Each turn offers as many bytes as the whole packet has, also when a part
of it has been taken already. So what goes out can be longer than the packet.
-/

namespace Saliwen.Mqtt

open CJson (Bytes)

/-- The loop of `mqtt_send_packet`: the memory from the write buffer on, the length of the
packet, the return values of `network_write` until the timer expires, `sent`, and the bytes that
have gone out. -/
def sendLoop (memory : Bytes) (length : ℕ) : List ℤ → ℕ → Bytes → ℕ × Bytes
  | [], sent, wire => (sent, wire)
  | rc :: results, sent, wire =>
    if sent < length then
      if rc ≤ 0 then (sent, wire)
      else sendLoop memory length results (sent + rc.toNat)
        (wire ++ (memory.drop sent).take rc.toNat)
    else (sent, wire)

/-- `mqtt_send_packet`: whether it reports success, and what has gone out. -/
def mqttSendPacket (memory : Bytes) (length : ℕ) (results : List ℤ) : Bool × Bytes :=
  let (sent, wire) := sendLoop memory length results 0 []
  (sent = length, wire)

/-- The results that the loop uses: positive ones, until the packet has gone out. -/
def used (length : ℕ) : List ℤ → ℕ → List ℕ
  | [], _ => []
  | rc :: results, sent =>
    if sent < length ∧ 0 < rc then rc.toNat :: used length results (sent + rc.toNat) else []

/-- Two stretches of memory, one behind the other. -/
theorem take_append_drop_take (memory : Bytes) (m k : ℕ) :
    memory.take m ++ (memory.drop m).take k = memory.take (m + k) := (List.take_add ..).symm

/-- What the loop has sent is a beginning of the memory. -/
theorem sendLoop_eq (memory : Bytes) (length : ℕ) (results : List ℤ) : ∀ sent,
    sendLoop memory length results sent (memory.take sent) =
      (sent + (used length results sent).sum,
        memory.take (sent + (used length results sent).sum)) := by
  induction results with
  | nil =>
    intro sent
    simp [sendLoop, used]
  | cons rc results ih =>
    intro sent
    unfold sendLoop used
    by_cases hmore : sent < length
    · by_cases hrc : rc ≤ 0
      · rw [if_pos hmore, if_pos hrc, if_neg (by omega)]
        simp
      · rw [if_pos hmore, if_neg hrc, if_pos (by omega), take_append_drop_take, ih,
          List.sum_cons, add_assoc]
    · rw [if_neg hmore, if_neg (by omega)]
      simp

/-- What goes out is a beginning of the memory, and it is the packet when success is reported. -/
theorem mqttSendPacket_eq (memory : Bytes) (length : ℕ) (results : List ℤ) :
    (∃ k, (mqttSendPacket memory length results).2 = memory.take k) ∧
      ((mqttSendPacket memory length results).1 = true →
        (mqttSendPacket memory length results).2 = memory.take length) := by
  have hrun := sendLoop_eq memory length results 0
  rw [List.take_zero] at hrun
  unfold mqttSendPacket
  rw [hrun]
  refine ⟨⟨_, rfl⟩, fun hsuccess => ?_⟩
  rw [show 0 + (used length results 0).sum = length by simpa using hsuccess]

/-- The loop stops with less than one packet beyond what it had to send. -/
theorem used_sum_lt {length : ℕ} {results : List ℤ} (hoffered : ∀ rc ∈ results, rc ≤ length) :
    ∀ {sent}, sent < 2 * length → sent + (used length results sent).sum < 2 * length := by
  induction results with
  | nil =>
    intro sent hsent
    simpa [used] using hsent
  | cons rc results ih =>
    intro sent hsent
    unfold used
    split_ifs with hmore
    · have hrc := hoffered rc (by simp)
      have hrest := ih (fun rc' h => hoffered rc' (List.mem_cons_of_mem _ h))
        (show sent + rc.toNat < 2 * length by omega)
      rw [List.sum_cons]
      omega
    · simpa using hsent

/-- The packet goes out as a whole exactly when positive results add up to its length. -/
theorem used_sum_iff {length : ℕ} (results : List ℤ) : ∀ {sent}, sent ≤ length →
    (sent + (used length results sent).sum = length ↔
      ∃ taken, taken <+: results ∧ (∀ rc ∈ taken, 0 < rc) ∧ sent + taken.sum = length) := by
  induction results with
  | nil =>
    intro sent _
    simp only [used, List.sum_nil, add_zero, List.prefix_nil]
    constructor
    · rintro rfl
      exact ⟨[], rfl, by simp, by simp⟩
    · rintro ⟨taken, rfl, -, hsum⟩
      simpa using hsum
  | cons rc results ih =>
    intro sent hsent
    unfold used
    by_cases hfull : sent = length
    · rw [if_neg (by omega)]
      refine iff_of_true (by simpa using hfull) ⟨[], List.nil_prefix, by simp, ?_⟩
      simpa using hfull
    · by_cases hrc : 0 < rc
      · rw [if_pos ⟨by omega, hrc⟩, List.sum_cons, ← add_assoc]
        by_cases hpast : sent + rc.toNat ≤ length
        · rw [ih hpast]
          constructor
          · rintro ⟨taken, hprefix, hpos, hsum⟩
            refine ⟨rc :: taken, List.cons_prefix_cons.mpr ⟨rfl, hprefix⟩, ?_, ?_⟩
            · intro rc' hmem
              rcases List.mem_cons.mp hmem with rfl | hmem
              · exact hrc
              · exact hpos rc' hmem
            · rw [List.sum_cons]
              omega
          · rintro ⟨taken, hprefix, hpos, hsum⟩
            cases taken with
            | nil => exact absurd (by simpa using hsum) hfull
            | cons rc' taken =>
              obtain ⟨rfl, htail⟩ := List.cons_prefix_cons.mp hprefix
              refine ⟨taken, htail, fun rc hmem => hpos rc (List.mem_cons_of_mem _ hmem), ?_⟩
              rw [List.sum_cons] at hsum
              omega
        · refine iff_of_false (by omega) ?_
          rintro ⟨taken, hprefix, hpos, hsum⟩
          cases taken with
          | nil => exact hfull (by simpa using hsum)
          | cons rc' taken =>
            obtain ⟨rfl, -⟩ := List.cons_prefix_cons.mp hprefix
            have hrest : 0 ≤ taken.sum := List.sum_nonneg fun rc hmem =>
              (hpos rc (List.mem_cons_of_mem _ hmem)).le
            rw [List.sum_cons] at hsum
            omega
      · rw [if_neg (by omega)]
        refine iff_of_false (by simpa using hfull) ?_
        rintro ⟨taken, hprefix, hpos, hsum⟩
        cases taken with
        | nil => exact hfull (by simpa using hsum)
        | cons rc' taken =>
          obtain ⟨rfl, -⟩ := List.cons_prefix_cons.mp hprefix
          exact hrc (hpos rc' (by simp))

/-- For every sequence of results of the network, which never takes more than it is offered:
what goes out is a beginning of the memory and shorter than two packets. Success is reported
exactly when it is the packet, and this is so exactly when positive results add up to its
length. -/
theorem mqttSendPacket_wire {memory : Bytes} {length : ℕ} {results : List ℤ} (hlength : 0 < length)
    (hmemory : 2 * length ≤ memory.length) (hoffered : ∀ rc ∈ results, rc ≤ length) :
    (mqttSendPacket memory length results).2 <+: memory ∧
      (mqttSendPacket memory length results).2.length < 2 * length ∧
      ((mqttSendPacket memory length results).1 = true ↔
        (mqttSendPacket memory length results).2 = memory.take length) ∧
      ((mqttSendPacket memory length results).1 = true ↔
        ∃ taken, taken <+: results ∧ (∀ rc ∈ taken, 0 < rc) ∧ taken.sum = length) := by
  have hrun := sendLoop_eq memory length results 0
  have hbound := used_sum_lt hoffered (show 0 < 2 * length by omega)
  have hwhole := used_sum_iff results (Nat.zero_le length)
  rw [List.take_zero] at hrun
  simp only [Nat.cast_zero, zero_add] at hrun hbound hwhole
  unfold mqttSendPacket
  rw [hrun]
  simp only [decide_eq_true_eq]
  refine ⟨List.take_prefix .., ?_, ?_, hwhole⟩
  · rw [List.length_take]
    omega
  · constructor
    · intro hsum
      rw [hsum]
    · intro hwire
      have hlengths := congrArg List.length hwire
      rw [List.length_take, List.length_take] at hlengths
      omega

/-- A packet of three bytes: the network takes two of them, and then all it is offered. -/
theorem mqttSendPacket_wire_partial :
    0 < 3 ∧ 2 * 3 ≤ ([1, 2, 3, 4, 5, 6] : Bytes).length ∧ (∀ rc ∈ ([2, 3] : List ℤ), rc ≤ (3 : ℕ)) ∧
      (mqttSendPacket [1, 2, 3, 4, 5, 6] 3 [2, 3]).2 <+: [1, 2, 3, 4, 5, 6] ∧
      (mqttSendPacket [1, 2, 3, 4, 5, 6] 3 [2, 3]).2.length < 2 * 3 ∧
      ((mqttSendPacket [1, 2, 3, 4, 5, 6] 3 [2, 3]).1 = true ↔
        (mqttSendPacket [1, 2, 3, 4, 5, 6] 3 [2, 3]).2 = ([1, 2, 3, 4, 5, 6] : Bytes).take 3) ∧
      ((mqttSendPacket [1, 2, 3, 4, 5, 6] 3 [2, 3]).1 = true ↔
        ∃ taken, taken <+: ([2, 3] : List ℤ) ∧ (∀ rc ∈ taken, 0 < rc) ∧ taken.sum = (3 : ℕ)) :=
  ⟨by decide, by decide, by decide,
    mqttSendPacket_wire (by decide) (by decide) (by decide)⟩

example : (mqttSendPacket [1, 2, 3, 4, 5, 6] 3 [2, 3]).2 = [1, 2, 3, 4, 5] := by decide

end Saliwen.Mqtt
