import Saliwen.Publish.Loop
import Saliwen.Lib.Mailbox
import Mathlib.Data.List.Pairwise

/-!
# Measured and published values

A light reading travels through the one-slot mailbox and a 16-bit parameter into the
message; the humidity word through the driver's conversion. This file determines the runs
in which every published number is the measured one.
-/

namespace Saliwen.Publish

/-- The light reading that a message reports, under the number of the mail it answers. -/
def Message.reported (m : Message) : Reading := ⟨m.mail.id, m.lightIntensity.toUInt32⟩

/-- The published light values are an in-order subsequence of the accepted readings,
unaltered and without repetition, and every published humidity is within a hundredth of
what its humidity word stands for. -/
def PublishesMeasured (s : State) : Prop :=
  (s.published.map Message.reported).Sublist s.accepted ∧
    (s.published.map Message.reported).Nodup ∧
    ∀ m ∈ s.published, ∀ w, m.humidityWord = some w → w.kind = .humidity →
      |m.humidity - w.humidity| < 1 / 100

/-- The message of the current round is exact enough: the mail fits the 16-bit parameter,
and the humidity word loses less than a hundredth to the integer division. -/
def State.Representable (s : State) : Prop :=
  s.receivedData.light.toNat < 65536 ∧
    ∀ w, s.humidityWord = some w → w.kind = .humidity → 125 * w.signal % 65536 ≤ 655

/-- Whether the MQTT thread holds a mail at a program point. -/
def Pc.holdsMail : Pc → Bool
  | .recv | .sleep => false
  | _ => true

/-- The path of the mails through the loop. -/
def State.flow (s : State) : Mailbox.Flow Reading where
  accepted := s.accepted
  slot := s.mailbox
  hand := if s.pc.holdsMail then some s.receivedData else none
  delivered := s.published.map Message.mail

/-- A guarded step of the thread that keeps the mail it holds does not move mails. -/
theorem flow_guarded_eq {s t : State} {pc : Pc} (haccepted : t.accepted = s.accepted)
    (hmailbox : t.mailbox = s.mailbox) (hpublished : t.published = s.published)
    (hreceived : t.receivedData = s.receivedData) (hpc : t.pc.holdsMail = pc.holdsMail) :
    (if s.pc = pc then t else s).flow = s.flow := by
  by_cases hguard : s.pc = pc
  · simp only [hguard, if_true, State.flow, haccepted, hmailbox, hpublished, hreceived, hpc]
  · simp only [hguard, if_false]

/-- Every step of the publishing loop is a step of the mailbox or moves no mail. -/
theorem step_flow (s : State) (a : Label) :
    (step s a).flow = s.flow ∨ Mailbox.Step s.flow (step s a).flow := by
  cases a with
  | key1 => exact Or.inl rfl
  | clapSpaceTimer cnt => exact Or.inl rfl
  | sampleLight v =>
    left
    simp only [step]
    split <;> rfl
  | mbSend =>
    cases hlight : s.light with
    | none =>
      left
      simp only [step, hlight]
    | some mail =>
      cases hmailbox : s.mailbox with
      | none =>
        right
        have hstep := Mailbox.Step.post s.flow mail hmailbox
        simp only [step, hlight, State.rtMbSend, hmailbox]
        exact hstep
      | some old =>
        left
        simp only [step, hlight, State.rtMbSend, hmailbox, State.flow]
  | mbRecv =>
    cases hmailbox : s.mailbox with
    | none =>
      left
      simp only [step, hmailbox, ite_self]
    | some mail =>
      by_cases hpc : s.pc = .recv
      · right
        have hstep := Mailbox.Step.take s.flow (by simp [State.flow, hpc, Pc.holdsMail])
        simpa [step, hpc, hmailbox, State.flow, Pc.holdsMail] using hstep
      · left
        simp only [step, if_neg hpc]
  | testFlag =>
    by_cases hpc : s.pc = .test
    · by_cases hflag : s.app.flagClapSend = 1
      · left
        simp [step, hpc, hflag, State.flow, Pc.holdsMail]
      · right
        have hstep := Mailbox.Step.drop s.flow
        simpa [step, hpc, hflag, State.flow, Pc.holdsMail] using hstep
    · left
      simp only [step, if_neg hpc]
  | publish =>
    by_cases hpc : s.pc = .publish
    · right
      have hstep := Mailbox.Step.deliver s.flow
      simpa [step, hpc, State.flow, Pc.holdsMail, State.message] using hstep
    · left
      simp only [step, if_neg hpc]
  | mbRecvError | clearFlag | beginSampling | readTemp own | readHumi own | readFbm dev | wake =>
    exact Or.inl (flow_guarded_eq rfl rfl rfl rfl rfl)

/-- The readings posted or about to be posted, in the order of sampling. -/
def State.readings (s : State) : List Reading := s.accepted ++ s.light.toList

/-- The readings are numbered upwards, below the number of samples. -/
def Numbered (s : State) : Prop :=
  s.readings.Pairwise (fun q r => q.id < r.id) ∧ ∀ r ∈ s.readings, r.id < s.sampled

/-- A step keeps the numbering if it only removes readings. -/
theorem Numbered.of_sublist {s t : State} (h : Numbered s)
    (hreadings : t.readings.Sublist s.readings) (hsampled : t.sampled = s.sampled) :
    Numbered t := by
  refine ⟨h.1.sublist hreadings, ?_⟩
  intro r hr
  rw [hsampled]
  exact h.2 r (hreadings.subset hr)

/-- Only the main loop samples and posts readings. -/
theorem step_readings (s : State) {a : Label} (hsample : ∀ v, a ≠ .sampleLight v)
    (hsend : a ≠ .mbSend) :
    (step s a).readings = s.readings ∧ (step s a).sampled = s.sampled := by
  cases a with
  | sampleLight v => exact absurd rfl (hsample v)
  | mbSend => exact absurd rfl hsend
  | key1 | clapSpaceTimer cnt => exact ⟨rfl, rfl⟩
  | mbRecv =>
    simp only [step]
    split
    · split <;> exact ⟨rfl, rfl⟩
    · exact ⟨rfl, rfl⟩
  | mbRecvError | testFlag | clearFlag | beginSampling | readTemp own | readHumi own
  | readFbm dev | publish | wake =>
    simp only [step]
    split <;> exact ⟨rfl, rfl⟩

/-- A new sample gets a number above all others. -/
theorem Numbered.sampleLight {s : State} (h : Numbered s) (v : UInt32) :
    Numbered (step s (.sampleLight v)) := by
  cases hlight : s.light with
  | none =>
    have hold : s.readings = s.accepted := by simp [State.readings, hlight]
    obtain ⟨hpairs, hbound⟩ := h
    rw [hold] at hpairs hbound
    simp only [step, hlight, if_true]
    constructor
    · simp only [State.readings, Option.toList_some]
      rw [List.pairwise_append]
      refine ⟨hpairs, List.pairwise_singleton _ _, ?_⟩
      intro q hq r hr
      obtain rfl := List.mem_singleton.mp hr
      exact hbound q hq
    · intro r hr
      simp only [State.readings, Option.toList_some, List.mem_append, List.mem_singleton] at hr
      rcases hr with hr | rfl
      · have hlt := hbound r hr
        dsimp only
        omega
      · dsimp only
        omega
  | some mail => simpa only [step, hlight, reduceCtorEq, if_false] using h

/-- Posting moves the sampled reading to the mailbox or loses it. -/
theorem Numbered.mbSend {s : State} (h : Numbered s) : Numbered (step s .mbSend) := by
  cases hlight : s.light with
  | none => simpa only [step, hlight] using h
  | some mail =>
    simp only [step, hlight]
    cases hmailbox : s.mailbox with
    | none =>
      refine h.of_sublist ?_ (by simp only [State.rtMbSend, hmailbox])
      simp [State.readings, State.rtMbSend, hmailbox, hlight]
    | some old =>
      refine h.of_sublist ?_ (by simp only [State.rtMbSend, hmailbox])
      simp [State.readings, State.rtMbSend, hmailbox, hlight]

/-- Every step keeps the readings numbered. -/
theorem Numbered.step {s : State} (h : Numbered s) (a : Label) : Numbered (step s a) := by
  by_cases hsample : ∃ v, a = .sampleLight v
  · obtain ⟨v, rfl⟩ := hsample
    exact h.sampleLight v
  by_cases hsend : a = .mbSend
  · rw [hsend]
    exact h.mbSend
  obtain ⟨hreadings, hsampled⟩ := step_readings s (fun v hv => hsample ⟨v, hv⟩) hsend
  exact h.of_sublist (by rw [hreadings]) hsampled

/-- After `read_humi` the thread holds the conversion of the word it read. -/
def HumidityRead (s : State) : Prop :=
  s.pc = .readFbm ∨ s.pc = .publish → s.humidity = Htu21d.readHumi binary32.round s.humidityWord

/-- Every step keeps the humidity the one of the last word. -/
theorem HumidityRead.step {s : State} (h : HumidityRead s) (a : Label) :
    HumidityRead (step s a) := by
  cases a with
  | key1 => exact h
  | clapSpaceTimer cnt => exact h
  | readHumi own =>
    simp only [Publish.step]
    split
    · intro _
      rfl
    · exact h
  | readFbm dev =>
    simp only [Publish.step]
    split
    · rename_i hpc
      intro _
      exact h (Or.inl hpc)
    · exact h
  | mbSend =>
    simp only [Publish.step, State.rtMbSend]
    split
    · exact h
    · split <;> exact h
  | sampleLight v =>
    simp only [Publish.step]
    split <;> exact h
  | mbRecv =>
    simp only [Publish.step]
    split
    · split
      · exact h
      · intro hpc
        simp at hpc
    · exact h
  | testFlag =>
    simp only [Publish.step]
    split
    · intro hpc
      split at hpc <;> simp at hpc
    · exact h
  | mbRecvError | clearFlag | beginSampling | readTemp own | publish | wake =>
    simp only [Publish.step]
    split
    · intro hpc
      simp at hpc
    · exact h

/-- Facts about the loop that hold whatever it measures. -/
structure LoopInv (s : State) : Prop where
  flow : Mailbox.Inv s.flow
  numbered : Numbered s
  humidity : HumidityRead s

/-- Every step keeps the invariant of the loop. -/
theorem LoopInv.step {s : State} (h : LoopInv s) (a : Label) : LoopInv (step s a) := by
  refine ⟨?_, h.numbered.step a, h.humidity.step a⟩
  rcases step_flow s a with hsame | hstep
  · rw [hsame]
    exact h.flow
  · exact h.flow.step hstep

/-- The invariant of the loop at the start. -/
theorem LoopInv.boot (app : App) (fbm : Fbm320.Driver) : LoopInv (State.boot app fbm) := by
  refine ⟨⟨[], rfl, List.Sublist.refl _⟩, ⟨List.Pairwise.nil, ?_⟩, ?_⟩
  · intro r hr
    cases hr
  · intro hpc
    simp [State.boot] at hpc

/-- Accepted readings are determined by their numbers. -/
theorem Numbered.eq_of_id_eq {s : State} (h : Numbered s) {q r : Reading}
    (hq : q ∈ s.accepted) (hr : r ∈ s.accepted) (hid : q.id = r.id) : q = r := by
  have hpairs : (s.accepted.map Reading.id).Pairwise (· < ·) :=
    List.pairwise_map.mpr (h.1.sublist (List.sublist_append_left _ _))
  exact List.inj_on_of_nodup_map (hpairs.imp fun hlt => Nat.ne_of_lt hlt) hq hr hid

/-- A message reports the mail it answers, and the humidity of its word to a hundredth. -/
def Message.Exact (m : Message) : Prop :=
  m.reported = m.mail ∧
    ∀ w, m.humidityWord = some w → w.kind = .humidity → |m.humidity - w.humidity| < 1 / 100

/-- The published values are the measured ones exactly when each message is exact. -/
theorem publishesMeasured_iff {s : State} (h : LoopInv s) :
    PublishesMeasured s ↔ ∀ m ∈ s.published, m.Exact := by
  have hmails : (s.published.map Message.mail).Sublist s.accepted := h.flow.delivered_sublist
  constructor
  · rintro ⟨hlights, -, hhumidity⟩ m hm
    refine ⟨?_, hhumidity m hm⟩
    have hreported : m.reported ∈ s.accepted := hlights.subset (List.mem_map_of_mem hm)
    have hmail : m.mail ∈ s.accepted := hmails.subset (List.mem_map_of_mem hm)
    exact h.numbered.eq_of_id_eq hreported hmail rfl
  · intro hexact
    have hsame : s.published.map Message.reported = s.published.map Message.mail :=
      List.map_congr_left fun m hm => (hexact m hm).1
    have hnodup : s.accepted.Nodup := by
      refine (h.numbered.1.sublist (List.sublist_append_left _ _)).imp ?_
      rintro q r hlt rfl
      exact Nat.lt_irrefl _ hlt
    unfold PublishesMeasured
    rw [hsame]
    exact ⟨hmails, hnodup.sublist hmails, fun m hm => (hexact m hm).2⟩

/-- The cast to `rt_uint16_t` keeps exactly the values below 65536. -/
theorem toUInt16_toUInt32_eq_iff (v : UInt32) : v.toUInt16.toUInt32 = v ↔ v.toNat < 65536 := by
  rw [← UInt32.toNat_inj, UInt16.toNat_toUInt32, UInt32.toNat_toUInt16]
  omega

/-- `read_humi` is within a hundredth of the measured humidity exactly when the discarded
fraction is. -/
theorem readHumi_near_iff {w : Htu21d.Word} (hkind : w.kind = .humidity) :
    |Htu21d.readHumi binary32.round (some w) - w.humidity| < 1 / 100 ↔
      125 * w.signal % 65536 ≤ 655 := by
  have hvalue := Htu21d.readHumi_of_humidity hkind fun n hn => binary32.round_intCast hn
  have hdiff := w.humidity_sub_floor
  rw [← hvalue] at hdiff
  have hnonneg : (0 : ℚ) ≤ ((125 * w.signal % 65536 : ℕ) : ℚ) / 65536 := by positivity
  rw [abs_sub_comm, hdiff, abs_of_nonneg hnonneg]
  constructor
  · intro hlt
    have hrat : ((125 * w.signal % 65536 : ℕ) : ℚ) * 100 < 65536 := by linarith
    have hnat : 125 * w.signal % 65536 * 100 < 65536 := by exact_mod_cast hrat
    omega
  · intro hle
    have hrat : ((125 * w.signal % 65536 : ℕ) : ℚ) ≤ 655 := by exact_mod_cast hle
    linarith

/-- The message about to be published is exact exactly when it is representable. -/
theorem message_exact_iff {s : State} (hpc : s.pc = .publish) (h : HumidityRead s) :
    s.message.Exact ↔ s.Representable := by
  have hhumidity := h (Or.inr hpc)
  refine and_congr ?_ (forall_congr' fun w => forall₂_congr fun hw hkind => ?_)
  · simp only [Message.reported, State.message]
    rw [← toUInt16_toUInt32_eq_iff]
    constructor
    · intro hsame
      exact congrArg Reading.light hsame
    · intro hsame
      rw [hsame]
  · have hword : s.humidityWord = some w := hw
    simp only [State.message]
    rw [hhumidity, hword]
    exact readHumi_near_iff hkind

/-- A step publishes the message of the round, or publishes nothing. -/
theorem step_published (s : State) (a : Label) :
    (a = .publish ∧ s.pc = .publish ∧ (step s a).published = s.published ++ [s.message]) ∨
      (¬ (a = .publish ∧ s.pc = .publish) ∧ (step s a).published = s.published) := by
  cases a with
  | publish =>
    by_cases hpc : s.pc = .publish
    · exact Or.inl ⟨rfl, hpc, by simp only [step, if_pos hpc]⟩
    · exact Or.inr ⟨fun hboth => hpc hboth.2, by simp only [step, if_neg hpc]⟩
  | mbSend =>
    refine Or.inr ⟨by simp, ?_⟩
    simp only [step, State.rtMbSend]
    split
    · rfl
    · split <;> rfl
  | mbRecv =>
    refine Or.inr ⟨by simp, ?_⟩
    simp only [step]
    split
    · split <;> rfl
    · rfl
  | key1 | clapSpaceTimer cnt => exact Or.inr ⟨by simp, rfl⟩
  | sampleLight v | mbRecvError | testFlag | clearFlag | beginSampling | readTemp own
  | readHumi own | readFbm dev | wake =>
    refine Or.inr ⟨by simp, ?_⟩
    simp only [step]
    split <;> rfl

/-- In every interleaving of the main loop, the MQTT thread and the interrupts, for all
light readings and all humidity words, the published measurements are the measured ones
throughout exactly when every publication starts in a state whose mail is below 65536 and
whose humidity word loses less than a hundredth to the integer division. -/
theorem publishesMeasured_run_iff (app : App) (fbm : Fbm320.Driver) (l : List Label) :
    Run.Always step PublishesMeasured (State.boot app fbm) l ↔
      Run.EachStep step (fun s a => a = .publish → s.pc = .publish → s.Representable)
        (State.boot app fbm) l := by
  refine Run.always_iff_eachStep
    (I := fun s : State => LoopInv s ∧ ∀ m ∈ s.published, m.Exact) ?_ ?_ ?_ ?_ l
  · rintro s ⟨hinv, hexact⟩
    exact (publishesMeasured_iff hinv).mpr hexact
  · rintro s a ⟨hinv, hexact⟩ hcond
    refine ⟨hinv.step a, ?_⟩
    rcases step_published s a with ⟨ha, hpc, hnext⟩ | ⟨-, hnext⟩
    · rw [hnext]
      intro m hm
      rcases List.mem_append.mp hm with hm | hm
      · exact hexact m hm
      · obtain rfl := List.mem_singleton.mp hm
        exact (message_exact_iff hpc hinv.humidity).mpr (hcond ha hpc)
    · rw [hnext]
      exact hexact
  · rintro s a ⟨hinv, -⟩ hcond hmeasured
    apply hcond
    intro ha hpc
    have hexact := (publishesMeasured_iff (hinv.step a)).mp hmeasured
    rcases step_published s a with ⟨-, -, hnext⟩ | ⟨hnot, -⟩
    · apply (message_exact_iff hpc hinv.humidity).mp
      exact hexact s.message (by simp [hnext])
    · exact absurd ⟨ha, hpc⟩ hnot
  · refine ⟨LoopInv.boot app fbm, ?_⟩
    intro m hm
    cases hm

/-- One round on a working bus: a key press requests it, the main loop samples 6553.6 lux,
and the sensors answer with words whose humidity is exact. -/
def brightRound : List Label :=
  [.key1, .sampleLight 65536, .mbSend, .mbRecv, .testFlag, .clearFlag, .beginSampling,
    .readTemp (some ⟨0x60, 0⟩), .readHumi (some ⟨0, 2⟩),
    .readFbm ⟨fun _ => 0, fun _ _ => 0, fun _ => true⟩, .publish]

/-- The bright reading is published as 0. -/
theorem publishesMeasured_bright_round_fails :
    ¬ Run.Always step PublishesMeasured
      (State.boot (App.boot ⟨fun _ => .high, .low, ⟨.high, .low, false⟩⟩) Fbm320.Driver.boot)
      brightRound := by
  intro h
  have hlights := (h _ List.prefix_rfl).1
  revert hlights
  decide

end Saliwen.Publish
