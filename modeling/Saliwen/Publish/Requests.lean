import Saliwen.Lib.Latch
import Saliwen.Publish.Loop

/-!
# Requests and publications

`flag_clap_send` is a one-bit latch: the key and the clap window raise it, and the MQTT
thread tests and clears it in two steps before it samples and publishes. Seen through its
latch, with the events read off the schedule, every step of the publishing loop is a step
of the abstract latch or no step at all, so the loop inherits its guarantees.
-/

namespace Saliwen.Publish

/-- The handler runs that request a publication. -/
def Label.isRequest : Label → Bool
  | .key1 => true
  | .clapSpaceTimer cnt => cnt = 2
  | _ => false

/-- What a label does to the latch in the state it is executed in. -/
def State.event (s : State) : Label → Option Latch.Event
  | .key1 => some .request
  | .clapSpaceTimer cnt => if cnt = 2 then some .request else none
  | .clearFlag => if s.pc = .clear then some .clear else none
  | .beginSampling => if s.pc = .sample then some .start else none
  | .publish => if s.pc = .publish then some .finish else none
  | _ => none

/-- The part of a round that a program point of the MQTT thread belongs to. -/
def Pc.phase : Pc → Latch.Phase
  | .recv | .test | .sleep => .idle
  | .clear => .tested
  | .sample => .cleared
  | .readTemp | .readHumi | .readFbm | .publish => .working

/-- The publishing loop seen through its latch, after the given events. -/
def State.latch (s : State) (log : List Latch.Event) : Latch.State :=
  ⟨decide (s.app.flagClapSend = 1), s.pc.phase, log⟩

/-- The flag is up for exactly one program point after a successful test. -/
theorem Pc.phase_eq_tested_iff {pc : Pc} : pc.phase = .tested ↔ pc = .clear := by
  cases pc <;> simp [Pc.phase]

/-- The sampling is due at exactly one program point. -/
theorem Pc.phase_eq_cleared_iff {pc : Pc} : pc.phase = .cleared ↔ pc = .sample := by
  cases pc <;> simp [Pc.phase]

/-! ### Events and labels -/

/-- Requests are made by the handlers, in whatever state they run. -/
theorem event_eq_request_iff {s : State} {a : Label} :
    s.event a = some .request ↔ a.isRequest = true := by
  cases a <;> simp [State.event, Label.isRequest]

/-- A clear is the clearing statement executed by the thread that stands before it. -/
theorem event_eq_clear_iff {s : State} {a : Label} :
    s.event a = some .clear ↔ a = .clearFlag ∧ s.pc = .clear := by
  cases a <;> simp [State.event]

/-- A sampling starts with the call of `read_temp` by the thread that stands before it. -/
theorem event_eq_start_iff {s : State} {a : Label} :
    s.event a = some .start ↔ a = .beginSampling ∧ s.pc = .sample := by
  cases a <;> simp [State.event]

/-- A message is published exactly at the last event of a round. -/
theorem event_published (s : State) (a : Label) :
    (step s a).published = if s.event a = some .finish then s.published ++ [s.message]
      else s.published := by
  cases a with
  | publish =>
    by_cases hpc : s.pc = .publish
    · simp [step, State.event, hpc]
    · simp [step, State.event, hpc]
  | mbSend =>
    simp only [step, State.event, State.rtMbSend]
    split
    · rfl
    · split <;> rfl
  | mbRecv =>
    simp only [step, State.event]
    split
    · split <;> rfl
    · rfl
  | key1 | clapSpaceTimer cnt | sampleLight v | mbRecvError | testFlag | clearFlag
  | beginSampling | readTemp own | readHumi own | readFbm dev | wake =>
    simp [step, State.event] <;> split <;> rfl

/-- A schedule publishes one message for each round that comes to its end. -/
theorem after_published (s : State) (l : List Label) :
    ∃ sent, (Run.after step s l).published = s.published ++ sent ∧
      sent.length = (Run.trace step State.event s l).count .finish := by
  induction l using List.reverseRecOn with
  | nil => exact ⟨[], by simp, rfl⟩
  | append_singleton l a ih =>
    obtain ⟨sent, hsent, hlength⟩ := ih
    rw [Run.after_snoc, Run.trace_snoc, event_published, List.count_append, hsent]
    by_cases hfinish : (Run.after step s l).event a = some .finish
    · exact ⟨sent ++ [(Run.after step s l).message], by simp [hfinish], by simp [hfinish, hlength]⟩
    · refine ⟨sent, by simp [hfinish], ?_⟩
      cases hevent : (Run.after step s l).event a with
      | none => simpa using hlength
      | some e =>
        have he : e ≠ .finish := fun h => hfinish (hevent.trans (congrArg some h))
        simp [he, hlength]

/-- Something was published since exactly when a round came to its end. -/
theorem after_published_eq_iff {s : State} {l : List Label} :
    (Run.after step s l).published = s.published ↔
      .finish ∉ Run.trace step State.event s l := by
  obtain ⟨sent, hsent, hlength⟩ := after_published s l
  rw [hsent, List.append_right_eq_self, ← List.count_eq_zero, ← hlength, List.length_eq_zero_iff]

/-- A step publishes exactly when it ends a round. -/
theorem publishes_iff {s : State} {a : Label} :
    (step s a).published ≠ s.published ↔ s.event a = some .finish := by
  rw [event_published]
  by_cases hfinish : s.event a = some .finish
  · simp [hfinish]
  · simp [hfinish]

/-- The requests among the events are the labels that request. -/
theorem count_request (s : State) (l : List Label) :
    (Run.trace step State.event s l).count .request = l.countP Label.isRequest := by
  induction l generalizing s with
  | nil => rfl
  | cons a l ih =>
    rw [Run.trace, List.count_append, ih, List.countP_cons]
    by_cases hrequest : a.isRequest = true
    · simp [event_eq_request_iff.mpr hrequest, hrequest, Nat.add_comm]
    · have hevent : s.event a ≠ some .request := fun h => hrequest (event_eq_request_iff.mp h)
      cases hsome : s.event a with
      | none => simp [hrequest]
      | some e =>
        have he : e ≠ .request := fun h => hevent (hsome.trans (congrArg some h))
        simp [hrequest, he]

/-! ### Simulation of the latch -/

/-- Both interrupt handlers that request a publication raise the latch. -/
theorem latch_request {s t : State} {log : List Latch.Event} (hflag : t.app.flagClapSend = 1)
    (hpc : t.pc = s.pc) : Latch.Step (s.latch log) (t.latch (log ++ [.request])) := by
  have hview : t.latch (log ++ [.request]) = ⟨true, (s.latch log).phase, log ++ [.request]⟩ := by
    simp [State.latch, hflag, hpc]
  rw [hview]
  exact .request (s.latch log)

/-- A guarded step of the thread that touches neither the flag nor the phase is invisible. -/
theorem latch_guarded_eq {s t : State} {pc : Pc} {log : List Latch.Event}
    (hflag : t.app.flagClapSend = s.app.flagClapSend) (hphase : t.pc.phase = pc.phase) :
    (if s.pc = pc then t else s).latch log = s.latch log := by
  by_cases hpc : s.pc = pc
  · simp only [hpc, if_true, State.latch, hflag, hphase]
  · simp only [hpc, if_false]

/-- Every step of the publishing loop is invisible to its latch or a step of it. -/
theorem step_latch (s : State) (log : List Latch.Event) (a : Label) :
    (step s a).latch (log ++ (s.event a).toList) = s.latch log ∨
      Latch.Step (s.latch log) ((step s a).latch (log ++ (s.event a).toList)) := by
  cases a with
  | key1 => exact Or.inr (latch_request rfl rfl)
  | clapSpaceTimer cnt =>
    by_cases hcnt : cnt = 2
    · right
      simp only [State.event, hcnt, if_true, Option.toList_some]
      refine latch_request ?_ rfl
      simp [step, onClapSpaceTimer_flagClapSend]
    · left
      simp [State.latch, State.event, step, onClapSpaceTimer_flagClapSend, hcnt]
  | clearFlag =>
    by_cases hpc : s.pc = .clear
    · right
      have hstep := Latch.Step.clear (s.latch log) (by simp [State.latch, hpc, Pc.phase])
      simpa [State.latch, State.event, step, hpc, Pc.phase] using hstep
    · left
      simp [State.event, step, hpc]
  | beginSampling =>
    by_cases hpc : s.pc = .sample
    · right
      have hstep := Latch.Step.start (s.latch log) (by simp [State.latch, hpc, Pc.phase])
      simpa [State.latch, State.event, step, hpc, Pc.phase] using hstep
    · left
      simp [State.event, step, hpc]
  | publish =>
    by_cases hpc : s.pc = .publish
    · right
      have hstep := Latch.Step.finish (s.latch log) (by simp [State.latch, hpc, Pc.phase])
      simpa [State.latch, State.event, step, hpc, Pc.phase] using hstep
    · left
      simp [State.event, step, hpc]
  | testFlag =>
    simp only [State.event, Option.toList_none, List.append_nil]
    by_cases hpc : s.pc = .test
    · by_cases hflag : s.app.flagClapSend = 1
      · right
        have hstep := Latch.Step.test (s.latch log) (by simp [State.latch, hpc, Pc.phase])
          (by simp [State.latch, hflag])
        simpa [State.latch, step, hpc, hflag, Pc.phase] using hstep
      · left
        simp [State.latch, step, hpc, hflag, Pc.phase]
    · left
      simp [step, hpc]
  | sampleLight v =>
    left
    simp only [State.event, Option.toList_none, List.append_nil, step]
    split <;> rfl
  | mbSend =>
    left
    simp only [State.event, Option.toList_none, List.append_nil, step, State.rtMbSend]
    split
    · rfl
    · split <;> rfl
  | mbRecv =>
    left
    simp only [State.event, Option.toList_none, List.append_nil]
    cases hmail : s.mailbox with
    | none => simp only [step, hmail, ite_self]
    | some mail =>
      simp only [step, hmail]
      exact latch_guarded_eq rfl rfl
  | mbRecvError | readTemp own | readHumi own | readFbm dev | wake =>
    simp only [State.event, Option.toList_none, List.append_nil]
    exact Or.inl (latch_guarded_eq rfl rfl)

/-- The latch invariant holds after every schedule, of the events of the schedule. -/
theorem latch_inv (b : Board) (fbm : Fbm320.Driver) (l : List Label) :
    Latch.Inv ((Run.after step (State.boot (App.boot b) fbm) l).latch
      (Run.trace step State.event (State.boot (App.boot b) fbm) l)) := by
  induction l using List.reverseRecOn with
  | nil => exact Latch.Inv.boot
  | append_singleton l a ih =>
    rw [Run.after_snoc, Run.trace_snoc]
    rcases step_latch (Run.after step (State.boot (App.boot b) fbm) l)
        (Run.trace step State.event (State.boot (App.boot b) fbm) l) a with hsame | hstep
    · rw [hsame]
      exact ih
    · exact ih.step hstep

/-! ### Requests answered -/

/-- The MQTT thread is between a successful test and the sampling that follows it. -/
def State.BetweenTestAndSampling (s : State) : Prop := s.pc = .clear ∨ s.pc = .sample

/-- No request of the schedule `l` is lost and none is invented.

A publication is a step that adds to the messages published; its clear is the one after the
publication before it. -/
structure RequestsAnswered (s : State) (l : List Label) : Prop where
  /-- Publications never outnumber requests. -/
  counted : (Run.after step s l).published.length ≤
    s.published.length + l.countP Label.isRequest
  /-- A publication has a clear of its own: since that clear, nothing was published. -/
  ownClear : ∀ pre a post, l = pre ++ a :: post →
    (Run.after step s (pre ++ [a])).published ≠ (Run.after step s pre).published →
      ∃ early late, pre = early ++ .clearFlag :: late ∧ (Run.after step s early).pc = .clear ∧
        (Run.after step s pre).published = (Run.after step s early).published
  /-- A publication was requested. -/
  requested : ∀ pre a post, l = pre ++ a :: post →
    (Run.after step s (pre ++ [a])).published ≠ (Run.after step s pre).published →
      ∃ r ∈ pre, r.isRequest = true
  /-- A publication was requested after the clear of each publication before it. -/
  requestedSince : ∀ pre a post, l = pre ++ a :: post →
    (Run.after step s (pre ++ [a])).published ≠ (Run.after step s pre).published →
      ∀ early late, pre = early ++ .clearFlag :: late → (Run.after step s early).pc = .clear →
        (Run.after step s pre).published ≠ (Run.after step s early).published →
          ∃ r ∈ late, r.isRequest = true
  /-- A request is followed by a sampling that begins after it, or the flag is still set, or
  the thread is between a successful test and the sampling that follows. -/
  answered : ∀ pre r post, l = pre ++ r :: post → r.isRequest = true →
    (∃ mid rest, post = mid ++ .beginSampling :: rest ∧
        (Run.after step s (pre ++ r :: mid)).pc = .sample) ∨
      (Run.after step s l).app.flagClapSend = 1 ∨
      (Run.after step s l).BetweenTestAndSampling

/-- A request among the events of a schedule is one of its labels. -/
theorem mem_of_request_mem {s : State} {l : List Label}
    (h : .request ∈ Run.trace step State.event s l) : ∃ r ∈ l, r.isRequest = true := by
  obtain ⟨pre, r, post, rfl, hr⟩ := Run.mem_trace.mp h
  exact ⟨r, by simp, event_eq_request_iff.mp hr⟩

/-- What the latch knows when a publication is made, said of the schedule before it. -/
theorem round_of_publishes {s : State} {pre : List Label} {a : Label}
    (hinv : Latch.Inv ((Run.after step s (pre ++ [a])).latch
      (Run.trace step State.event s (pre ++ [a]))))
    (hpub : (Run.after step s (pre ++ [a])).published ≠ (Run.after step s pre).published) :
    Latch.HasOwnClear (Run.trace step State.event s pre) ∧
      Latch.Justified (Run.trace step State.event s pre) := by
  rw [Run.after_snoc] at hpub
  refine hinv.finishes (Run.trace step State.event s pre) [] ?_
  change Run.trace step State.event s (pre ++ [a]) = _
  rw [Run.trace_snoc, publishes_iff.mp hpub, Option.toList_some]

/-- Since a clear something was published exactly when a round came to its end behind it. -/
theorem published_since_clear {s : State} {early late : List Label}
    (hpc : (Run.after step s early).pc = .clear) :
    (Run.after step s (early ++ .clearFlag :: late)).published =
        (Run.after step s early).published ↔
      .finish ∉ Run.trace step State.event (Run.after step s (early ++ [.clearFlag])) late := by
  have hclear : (Run.after step s early).event .clearFlag = some .clear :=
    event_eq_clear_iff.mpr ⟨rfl, hpc⟩
  have hsame : (Run.after step s (early ++ [.clearFlag])).published =
      (Run.after step s early).published := by
    rw [Run.after_snoc, event_published, hclear]
    simp
  rw [List.append_cons, Run.after_append, ← hsame]
  exact after_published_eq_iff

/-- The clear that a publication has of its own. -/
theorem ownClear_of_publishes {b : Board} {fbm : Fbm320.Driver} {pre : List Label} {a : Label}
    (hpub : (Run.after step (State.boot (App.boot b) fbm) (pre ++ [a])).published ≠
      (Run.after step (State.boot (App.boot b) fbm) pre).published) :
    ∃ early late, pre = early ++ .clearFlag :: late ∧
      (Run.after step (State.boot (App.boot b) fbm) early).pc = .clear ∧
        (Run.after step (State.boot (App.boot b) fbm) pre).published =
          (Run.after step (State.boot (App.boot b) fbm) early).published := by
  obtain ⟨⟨log₁, log₂, hsplit, hfinish⟩, _⟩ :=
    round_of_publishes (latch_inv b fbm (pre ++ [a])) hpub
  obtain ⟨early, c, late, rfl, hclear, _, rfl⟩ := Run.trace_eq_append_cons hsplit
  obtain ⟨rfl, hpc⟩ := event_eq_clear_iff.mp hclear
  exact ⟨early, late, rfl, hpc, (published_since_clear hpc).mpr hfinish⟩

/-- The request that a publication has behind the clear of each publication before it. -/
theorem requested_of_publishes {b : Board} {fbm : Fbm320.Driver} {early late : List Label}
    {a : Label} (hpc : (Run.after step (State.boot (App.boot b) fbm) early).pc = .clear)
    (hpub : (Run.after step (State.boot (App.boot b) fbm)
        (early ++ .clearFlag :: late ++ [a])).published ≠
      (Run.after step (State.boot (App.boot b) fbm) (early ++ .clearFlag :: late)).published)
    (hsince : (Run.after step (State.boot (App.boot b) fbm)
        (early ++ .clearFlag :: late)).published ≠
      (Run.after step (State.boot (App.boot b) fbm) early).published) :
    ∃ r ∈ late, r.isRequest = true := by
  have hjust := (round_of_publishes (latch_inv b fbm _) hpub).2.2
  have hclear : (Run.after step (State.boot (App.boot b) fbm) early).event .clearFlag =
      some .clear := event_eq_clear_iff.mpr ⟨rfl, hpc⟩
  have hfinish : .finish ∈ Run.trace step State.event
      (Run.after step (State.boot (App.boot b) fbm) (early ++ [.clearFlag])) late := by
    by_contra hnone
    exact hsince ((published_since_clear hpc).mpr hnone)
  obtain ⟨mid, rest, hlate⟩ := List.append_of_mem hfinish
  have hmem := hjust (Run.trace step State.event (State.boot (App.boot b) fbm) early) mid rest
    (by rw [Run.trace_append_cons hclear, hlate]; simp)
  refine mem_of_request_mem
    (s := Run.after step (State.boot (App.boot b) fbm) (early ++ [.clearFlag])) ?_
  rw [hlate]
  rcases List.mem_append.mp hmem with hmid | hrest
  · exact List.mem_append_left _ hmid
  · exact List.mem_append_right _ (List.mem_cons_of_mem _ hrest)

/-- What becomes of a request. -/
theorem answered_of_isRequest {b : Board} {fbm : Fbm320.Driver} {pre post : List Label}
    {r : Label} (hr : r.isRequest = true) :
    (∃ mid rest, post = mid ++ .beginSampling :: rest ∧
        (Run.after step (State.boot (App.boot b) fbm) (pre ++ r :: mid)).pc = .sample) ∨
      (Run.after step (State.boot (App.boot b) fbm) (pre ++ r :: post)).app.flagClapSend = 1 ∨
      (Run.after step (State.boot (App.boot b) fbm) (pre ++ r :: post)).BetweenTestAndSampling := by
  have hrequest : (Run.after step (State.boot (App.boot b) fbm) pre).event r =
      some .request := event_eq_request_iff.mpr hr
  rcases (latch_inv b fbm (pre ++ r :: post)).lost _ _ (Run.trace_append_cons hrequest) with
    hstart | hraised | htested | hcleared
  · left
    obtain ⟨mid, c, rest, hpost, hc⟩ := Run.mem_trace.mp hstart
    obtain ⟨rfl, hpc⟩ := event_eq_start_iff.mp hc
    refine ⟨mid, rest, hpost, ?_⟩
    rwa [List.append_cons, Run.after_append]
  · right
    left
    simpa [State.latch] using hraised
  · exact Or.inr (Or.inr (Or.inl (Pc.phase_eq_tested_iff.mp htested)))
  · exact Or.inr (Or.inr (Or.inr (Pc.phase_eq_cleared_iff.mp hcleared)))

/-- In every state of every interleaving of requests with the publishing loop, no request
is lost and no publication is invented. -/
theorem requests_answered (b : Board) (fbm : Fbm320.Driver) (l : List Label) :
    RequestsAnswered (State.boot (App.boot b) fbm) l := by
  constructor
  · obtain ⟨sent, hsent, hlength⟩ := after_published (State.boot (App.boot b) fbm) l
    have hcount := (latch_inv b fbm l).noneInvented.2
    simp only [State.latch, count_request] at hcount
    rw [hsent, List.length_append, hlength]
    omega
  · intro pre a post _ hpub
    exact ownClear_of_publishes hpub
  · intro pre a post _ hpub
    exact mem_of_request_mem (round_of_publishes (latch_inv b fbm (pre ++ [a])) hpub).2.1
  · intro pre a post _ hpub early late hpre hpc hsince
    subst hpre
    exact requested_of_publishes hpc hpub hsince
  · intro pre r post hl hr
    subst hl
    exact answered_of_isRequest hr

end Saliwen.Publish
