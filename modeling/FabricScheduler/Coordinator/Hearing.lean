import FabricScheduler.Coordinator.Answers
import FabricScheduler.Coordinator.Failover
import FabricScheduler.Persistence.Contract

/-!
# What controllers hear of a run

In every run of a coordinator, whatever its threads do in between, a controller hears of a
commitment and of a handoff exactly what the scheduler returned, and of a placement too when
the evidence it rests on can be read.
-/

namespace FabricScheduler

/-- Every answer in a suspended call is one that its message tells in full. -/
def Call.Plain : Call → Prop
  | .settling _ _ answer => answer.Plain
  | .releasing _ _ out => out.Plain
  | .launching _ handoff => handoff.Plain
  | .scheduling _ _ | .committing _ _ | .authorizing _ _ => True

/-- The answer the event reports is one that its message tells in full. -/
def Event.Plain : Event → Prop
  | .commitRefused _ _ out | .commitReturned _ _ out => out.Plain
  | .handoffRefused _ _ out | .handoffReturned _ _ out => out.Plain
  | .ingested _ | .scheduleReturned _ _ | .scheduleThrew _ _ | .brokerCommit _ _ _ _
  | .brokerRelease _ _ _ | .commitThrew _ _ _ | .authorize _ _ _ _ | .handoffThrew _ _ _
  | .saved _ => True

namespace Sample

/-- What a commit returned. -/
def committed? : Event → Option (Nat × PlacementPlanId × ResourceCommitResult)
  | .commitReturned c k out => some (c, k, out)
  | _ => none

/-- What a handoff returned. -/
def launched? : Event → Option (Nat × PlacementPlanId × ExecutionHandoff)
  | .handoffReturned c k out => some (c, k, out)
  | _ => none

/-- What a pass returned. -/
def placed? : Event → Option (Nat × PlacementDecision)
  | .scheduleReturned c d => some (c, d)
  | _ => none

/-- The evidence that was accepted. -/
def accepted? : Event → Option Candidate
  | .ingested c => some c
  | _ => none

/-- The placed plan is committed and handed off. -/
def launchingPlaced : List CoordinatorAction :=
  placing ++ [.commitRequest ⟨1⟩, .brokerCommit 1, .commitFinish 1, .executionHandoff ⟨1⟩,
    .authorize 2, .handoffFinish 2]

theorem legible_candidate : (candidate ⟨1⟩ ⟨1⟩).Legible where
  encodable := ⟨⟨by decide, List.forall_mem_nil _⟩, by decide, by decide, by decide, by decide,
    by decide, by decide⟩
  numeric := by
    refine (isNaN_factorCost_iff (request ⟨1⟩) _).mp ?_
    intro kind
    cases kind <;> decide +kernel
  degradation := by decide

end Sample

theorem InMemoryBroker.plain_commit (broker : InMemoryBroker) (claims : List ResourceClaim) :
    (broker.commit claims).1.Plain := by
  have hreason : (text "capacity changed at commit time").length ≤ maxString := by
    decide +kernel
  unfold InMemoryBroker.commit
  dsimp only
  split
  · exact ⟨Nat.zero_le _, hreason, rfl⟩
  · have hwords : (text "tok-").length = 4 := by decide +kernel
    have hdigits := length_decimal_le (broker.nextToken + 1)
    refine ⟨?_, Nat.zero_le _, rfl⟩
    rw [List.length_append, hwords]
    exact (Nat.add_le_add_left hdigits 4).trans (by decide)

namespace SchedulerState

variable {st : SchedulerState} {k : PlacementPlanId}

theorem plain_commitRefused {generation : ResourceGeneration} {reason : Bytes}
    (h : reason.length ≤ maxString) : (commitRefused generation reason).Plain :=
  ⟨Nat.zero_le _, h, rfl⟩

theorem plain_commitFirst {out : ResourceCommitResult}
    (h : (st.commitFirst k).1 = .ok (.inl out)) : out.Plain := by
  have hrefused : ∀ {generation : ResourceGeneration} {reason : Bytes},
      reason.length ≤ maxString →
      (.ok (.inl (commitRefused generation reason)) :
        Except FabricError (ResourceCommitResult ⊕ List ResourceClaim)) = .ok (.inl out) →
      out.Plain := by
    intro generation reason hreason he
    cases he
    exact plain_commitRefused hreason
  unfold commitFirst at h
  split at h
  · exact hrefused (by decide +kernel) h
  · split at h
    · exact hrefused (by decide +kernel) h
    · split at h
      · exact hrefused (by decide +kernel) h
      · split at h
        · exact hrefused (by decide +kernel) h
        · dsimp only at h
          split at h <;> cases h

theorem plain_commitSecond {claims : List ResourceClaim} {answer out : ResourceCommitResult}
    {token : Option Bytes} (hanswer : answer.Plain)
    (h : (st.commitSecond k claims answer).1 = .ok (out, token)) : out.Plain := by
  unfold commitSecond at h
  split at h
  · cases h
    exact plain_commitRefused (by decide +kernel)
  · dsimp only at h
    split at h
    · cases h
      refine plain_commitRefused ?_
      split <;> decide +kernel
    · split at h
      · split at h
        · cases h
        · cases h
          exact plain_commitRefused hanswer.failureReason
      · split at h
        · cases h
        · cases h
          exact ⟨hanswer.commitmentToken, Nat.zero_le _, rfl⟩

theorem plain_handoffFirst {out : ExecutionHandoff}
    (h : (st.handoffFirst k).1 = .ok (.inl out)) : out.Plain := by
  have hunauthorized : out = makeUnauthorized → out.Plain := by
    rintro rfl
    rfl
  unfold handoffFirst at h
  split at h
  · cases h
    exact hunauthorized rfl
  · split at h
    · cases h
      exact hunauthorized rfl
    · split at h
      · cases h
        exact hunauthorized rfl
      · split at h
        · cases h
          exact hunauthorized rfl
        · dsimp only at h
          split at h <;> cases h

theorem plain_handoffSecond {handoff out : ExecutionHandoff} (hplain : handoff.Plain)
    (h : (st.handoffSecond k handoff).1 = .ok out) : out.Plain := by
  unfold handoffSecond at h
  split at h
  · cases h
    exact hplain
  · split at h
    · cases h
      rw [ExecutionHandoff.Plain, hplain]
    · dsimp only at h
      split at h
      · split at h
        · cases h
        · cases h
          exact hplain
      · cases h
        exact hplain

end SchedulerState

namespace System

variable {config : SchedulerConfig} {s t : System} {a : Action}

/-- A suspended pass evaluates no more candidates than the store holds. -/
def PassesFit (s : System) : Prop := ∀ n request snapshot,
  s.pending n = some (.scheduling request snapshot) →
    snapshot.length ≤ s.sched.candidates.size

theorem Stepped.size_candidates_le (h : Stepped s a t) (hno : s.NoRestore a) :
    s.sched.candidates.size ≤ t.sched.candidates.size := by
  rcases h.candidates_cases hno with ⟨c, hinsert, _⟩ | ⟨hsame, _⟩
  · rw [hinsert]
    exact OrderedMap.size_le_size_insert ..
  · rw [hsame]

theorem passesFit (h : (scheduler config).Reachable NoRestore s) : s.PassesFit := by
  refine h.invariant PassesFit ?_ ?_
  · rintro _ rfl n request snapshot hn
    rw [pending, initial, CallTable.pending_empty] at hn
    cases hn
  · intro u a v hno hn hu n request snapshot hpending
    have hstep := stepped_of_step hn
    have hle := hstep.size_candidates_le hno
    rcases hstep.scheduling_cases hpending with hold | ⟨_, rfl⟩
    · exact (hu n request snapshot hold).trans hle
    · rw [OrderedMap.length_values]
      exact hle

/-- Every answer the system holds or has given is one that its message tells in full. -/
structure Plain (s : System) : Prop where
  calls : ∀ c call, s.pending c = some call → call.Plain
  log : ∀ e ∈ s.log, e.Plain

/-- The external owner gives an answer that is told in full. -/
def AnswersPlain (_ : System) : Action → Prop
  | .brokerCommit _ answer => answer.Plain
  | .authorize _ handoff => handoff.Plain
  | _ => True

theorem plain_initial (config : SchedulerConfig) : (initial config).Plain where
  calls c call hc := by
    rw [pending, initial, CallTable.pending_empty] at hc
    cases hc
  log _ he := by cases he

section Steps

variable {sched : SchedulerState} {call : Option Call} {events : List Event}

private theorem plain_log (h : s.Plain) (hevents : ∀ e ∈ events, e.Plain) :
    ∀ e ∈ s.log ++ events, e.Plain :=
  fun e he => (List.mem_append.mp he).elim (h.log e) (hevents e)

theorem Plain.whole (h : s.Plain) (hevents : ∀ e ∈ events, e.Plain) :
    (s.whole sched events).Plain := ⟨h.calls, plain_log h hevents⟩

theorem Plain.begun (h : s.Plain) (hcall : ∀ x ∈ call, x.Plain)
    (hevents : ∀ e ∈ events, e.Plain) : (s.begun sched call events).Plain where
  calls c x hc := (CallTable.pending_opened_cases hc).elim (hcall x) (h.calls c x)
  log := plain_log h hevents

theorem Plain.continued (h : s.Plain) {c : Nat} {old : Call} (hc : s.pending c = some old)
    (hcall : ∀ x ∈ call, x.Plain) (hevents : ∀ e ∈ events, e.Plain) :
    (s.continued c sched call events).Plain where
  calls n x hn := (CallTable.pending_resumed_cases hc hn).elim (fun hx => hcall x hx.2)
    (h.calls n x)
  log := plain_log h hevents

end Steps

/-- Every step keeps to answers that are told in full when the external owners do. -/
theorem Plain.step (h : s.Plain) (ha : s.AnswersPlain a) (hn : s.step a = some t) :
    t.Plain := by
  have hnone : ∀ x ∈ (none : Option Call), x.Plain := fun _ hx => nomatch hx
  have hsome : ∀ {x : Call}, x.Plain → ∀ y ∈ some x, y.Plain := by
    rintro x hx _ ⟨⟩
    exact hx
  have hone : ∀ {e : Event}, e.Plain → ∀ e' ∈ [e], e'.Plain :=
    fun he => List.forall_mem_singleton.mpr he
  have hnil : ∀ e ∈ ([] : List Event), e.Plain := List.forall_mem_nil _
  cases a with
  | setEpoch | fenceWorker | fenceSource | revalidate | cancel | supersede | restore =>
      exact Option.some.inj hn ▸ h.whole hnil
  | snapshot =>
      exact Option.some.inj hn ▸ h.whole (hone trivial)
  | ingestCandidate candidate =>
      obtain rfl := Option.some.inj hn
      unfold System.ingestCandidate
      split
      · exact h.whole (hone trivial)
      · exact h.whole hnil
  | scheduleBegin request =>
      obtain rfl := Option.some.inj hn
      unfold System.scheduleBegin
      split
      · exact h.begun (hsome trivial) hnil
      · exact h.begun hnone (hone trivial)
  | commitBegin k =>
      obtain rfl := Option.some.inj hn
      unfold System.commitBegin
      split
      · rename_i out st heq
        have hout := SchedulerState.plain_commitFirst (congrArg Prod.fst heq)
        exact h.begun hnone (hone hout)
      · exact h.begun (hsome trivial) hnil
      · exact h.begun hnone (hone trivial)
  | handoffBegin k =>
      obtain rfl := Option.some.inj hn
      unfold System.handoffBegin
      split
      · rename_i out st heq
        have hout := SchedulerState.plain_handoffFirst (congrArg Prod.fst heq)
        exact h.begun hnone (hone hout)
      · exact h.begun (hsome trivial) hnil
      · exact h.begun hnone (hone trivial)
  | scheduleFinish c views =>
      simp only [System.step] at hn
      split at hn
      · rename_i hc
        obtain rfl := Option.some.inj hn
        unfold System.scheduleFinish
        split
        · exact h.continued hc hnone (hone trivial)
        · exact h.continued hc hnone (hone trivial)
      · cases hn
  | brokerCommit c answer =>
      simp only [System.step] at hn
      split at hn
      · rename_i hc
        obtain rfl := Option.some.inj hn
        exact h.continued hc (hsome ha) (hone trivial)
      · cases hn
  | commitFinish c =>
      simp only [System.step] at hn
      split at hn
      · rename_i k claims answer hc
        obtain rfl := Option.some.inj hn
        have hanswer : answer.Plain := h.calls c _ hc
        unfold System.commitFinish
        split
        · rename_i out st heq
          have hout := SchedulerState.plain_commitSecond hanswer (congrArg Prod.fst heq)
          exact h.continued hc hnone (hone hout)
        · rename_i out token st heq
          have hout := SchedulerState.plain_commitSecond hanswer (congrArg Prod.fst heq)
          exact h.continued hc (hsome hout) hnil
        · exact h.continued hc hnone (hone trivial)
      · cases hn
  | brokerRelease c returns =>
      simp only [System.step] at hn
      split at hn
      · rename_i k token out hc
        obtain rfl := Option.some.inj hn
        have hout : out.Plain := h.calls c _ hc
        refine h.continued hc hnone (List.forall_mem_cons.mpr ⟨trivial, hone ?_⟩)
        split
        · exact hout
        · exact trivial
      · cases hn
  | authorize c handoff =>
      simp only [System.step] at hn
      split at hn
      · rename_i hc
        obtain rfl := Option.some.inj hn
        exact h.continued hc (hsome ha) (hone trivial)
      · cases hn
  | handoffFinish c =>
      simp only [System.step] at hn
      split at hn
      · rename_i k handoff hc
        obtain rfl := Option.some.inj hn
        have hhandoff : handoff.Plain := h.calls c _ hc
        unfold System.handoffFinish
        split
        · rename_i out st heq
          have hout := SchedulerState.plain_handoffSecond hhandoff (congrArg Prod.fst heq)
          exact h.continued hc hnone (hone hout)
        · exact h.continued hc hnone (hone trivial)
      · cases hn
  | unwind c =>
      simp only [System.step] at hn
      split at hn
      · rename_i hc
        obtain rfl := Option.some.inj hn
        exact h.continued hc hnone (hone trivial)
      · rename_i hc
        obtain rfl := Option.some.inj hn
        exact h.continued hc hnone (hone trivial)
      · rename_i hc
        obtain rfl := Option.some.inj hn
        exact h.continued hc hnone (hone trivial)
      · cases hn

end System

namespace Coordinator

variable {config : SchedulerConfig} {s t : Coordinator} {a : CoordinatorAction}
  {es : List (TransitionSystem.Step Coordinator CoordinatorAction)} {n : Nat}
  {k : PlacementPlanId} {d : PlacementDecision} {controller : TcpChannel}

/-- The broker and the execution fabric of the coordinator give answers that are told in
full. -/
theorem plain_step (hs : s.system.Plain) (h : s.step a = some t) : t.system.Plain := by
  have hserved : ∀ {u v : Coordinator} {b : Action}, u.serve b = some v →
      u.system = s.system → s.system.AnswersPlain b → v.system.Plain := by
    intro u v b hv hu hb
    obtain ⟨system, hn, rfl⟩ := Option.map_eq_some_iff.mp hv
    rw [hu] at hn
    exact hs.step hb hn
  cases a with
  | consult c =>
      simp only [step] at h
      split at h
      · split at h
        · cases h
          exact hs
        · cases h
      · cases h
  | submitFinish c =>
      simp only [step] at h
      split at h
      · split at h
        · exact hserved h rfl trivial
        · cases h
      · cases h
  | brokerCommit c =>
      simp only [step] at h
      split at h
      · rename_i claims _
        exact hserved h rfl (s.broker.plain_commit claims)
      · cases h
  | authorize c =>
      simp only [step] at h
      split at h
      · exact hserved h rfl rfl
      · cases h
  | fenceWorker boot =>
      simp only [step] at h
      obtain ⟨u, hu, rfl⟩ := Option.map_eq_some_iff.mp h
      exact (hserved hu rfl trivial :)
  | fenceInsert c | fenceRead c =>
      simp only [step] at h
      split at h
      · cases h
        exact hs
      · cases h
  | fenceBump c =>
      simp only [step] at h
      split at h
      · obtain ⟨u, hu, rfl⟩ := Option.map_eq_some_iff.mp h
        exact (hserved hu rfl trivial :)
      · cases h
  | _ => exact hserved h rfl trivial

theorem plain_of_run {P : Coordinator → CoordinatorAction → Prop}
    (h : (coordinator config).Run P (initial config) es t) : t.system.Plain :=
  h.stable (fun u => u.system.Plain) (fun _ _ _ _ hn hu => plain_step hu hn)
    (System.plain_initial config)

/-- In every run a controller hears of each commit and of each handoff what the scheduler
returned, in whatever chunks the answer arrives. -/
theorem settlements_heard {P : Coordinator → CoordinatorAction → Prop}
    (h : (coordinator config).Run P (initial config) es t) :
    (∀ (n : Nat) (k : PlacementPlanId) (out : ResourceCommitResult) (controller : TcpChannel),
      Event.commitReturned n k out ∈ t.system.log ∨ Event.commitRefused n k out ∈ t.system.log →
      Arrives (.commitment out) controller → listen controller commitPlan = .ok out) ∧
    ∀ (n : Nat) (k : PlacementPlanId) (out : ExecutionHandoff) (controller : TcpChannel),
      Event.handoffReturned n k out ∈ t.system.log ∨ Event.handoffRefused n k out ∈ t.system.log →
      Arrives (.execution out) controller → listen controller handoffPlan = .ok out := by
  have hplain := plain_of_run h
  constructor
  · intro n k out controller hlog harrives
    have hout : out.Plain := hlog.elim (hplain.log _) (hplain.log _)
    have hfits : (Answer.commitment out).Fits := by
      have htoken := hout.commitmentToken
      have hreason := hout.failureReason
      simp only [Answer.Fits, Answer.message, List.flatten_cons, List.flatten_nil,
        List.append_nil, List.length_append, length_putBool, length_putId, length_putString,
        maxFramePayload]
      simp only [maxString] at htoken hreason
      omega
    rw [harrives.listen_eq, Answer.sent_of_fits hfits]
    exact expectAnswer_of_reads (reads_readCommitment hout) _
  · intro n k out controller hlog harrives
    have hout : out.Plain := hlog.elim (hplain.log _) (hplain.log _)
    have hfits : (Answer.execution out).Fits := by
      simp only [Answer.Fits, Answer.message, List.flatten_cons, List.flatten_nil,
        List.append_nil, List.length_append, length_putBool, length_putId, maxFramePayload]
      decide
    rw [harrives.listen_eq, Answer.sent_of_fits hfits]
    exact expectAnswer_of_reads (reads_readExecution hout) _

/-- A controller hears byte by byte that the plan is committed and that it is launched. -/
theorem settlements_heard_bytewise : ∃ es t c k out c' k' handoff,
    (coordinator Sample.config).Run (fun _ _ => True) (initial Sample.config) es t ∧
    Event.commitReturned c k out ∈ t.system.log ∧ out.succeeded = true ∧
    Event.handoffReturned c' k' handoff ∈ t.system.log ∧ handoff.authorized = true ∧
    listen (Answer.commitment out).bytewise commitPlan = .ok out ∧
    listen (Answer.execution handoff).bytewise handoffPlan = .ok handoff := by
  have hlaunched : ((coordinator Sample.config).exec (fun _ _ => True) (initial Sample.config)
      Sample.launchingPlaced).map (fun t =>
        ((t.system.log.findSome? Sample.committed?).map fun r => r.2.2.succeeded,
          (t.system.log.findSome? Sample.launched?).map fun r => r.2.2.authorized)) =
      some (some true, some true) := by decide +kernel
  obtain ⟨es, t, hrun, _, ht⟩ := TransitionSystem.exists_run_of_exec hlaunched
  obtain ⟨hcommitted, hlaunched⟩ := Prod.mk.injEq .. ▸ ht
  obtain ⟨⟨c, k, out⟩, hfound, hsucceeded⟩ := Option.map_eq_some_iff.mp hcommitted
  obtain ⟨⟨c', k', handoff⟩, hfound', hauthorized⟩ := Option.map_eq_some_iff.mp hlaunched
  obtain ⟨e, he, hout⟩ := List.exists_of_findSome?_eq_some hfound
  obtain ⟨e', he', hhandoff⟩ := List.exists_of_findSome?_eq_some hfound'
  cases e <;> cases hout
  cases e' <;> cases hhandoff
  obtain ⟨hcommits, hhandoffs⟩ := settlements_heard hrun
  exact ⟨es, t, c, k, out, c', k', handoff, hrun, he, hsucceeded, he', hauthorized,
    hcommits c k out _ (.inl he) (arrives_bytewise _),
    hhandoffs c' k' handoff _ (.inl he') (arrives_bytewise _)⟩

/-- A decision is returned by a pass under the views of the coordinator. -/
theorem returned_cases (h : s.step a = some t)
    (hd : Event.scheduleReturned n d ∈ t.system.log) :
    Event.scheduleReturned n d ∈ s.system.log ∨ ∃ request snapshot,
      s.system.pending n = some (.scheduling request snapshot) ∧
      (s.system.sched.scheduleSecond request (liveViews snapshot (s.consulted n)) snapshot).1 =
        .ok d := by
  have hother : ∀ {b : Action} {system : System}, s.system.step b = some system →
      (∀ n views, b ≠ .scheduleFinish n views) →
      Event.scheduleReturned n d ∈ system.log → Event.scheduleReturned n d ∈ s.system.log := by
    intro b system hn hplaces hlog
    by_contra hnot
    have hsince := System.mem_since_of_step (System.stepped_of_step hn) hlog hnot
    cases System.stepped_of_step hn with
    | scheduled => exact hplaces _ _ rfl
    | _ => simp at hsince
  cases stepped_of_step h with
  | served _ _ hn hplaces => exact Or.inl (hother hn hplaces hd)
  | consulted | fenceInsert | fenceRead => exact Or.inl hd
  | fenceWorker hn => exact Or.inl (hother hn (by rintro _ _ ⟨⟩) hd)
  | fenceBump _ hn => exact Or.inl (hother hn (by rintro _ _ ⟨⟩) hd)
  | @submitted c request snapshot system hc hn =>
      obtain ⟨d', hd'⟩ := s.system.sched.scheduleSecond_isOk request
        (liveViews snapshot (s.consulted c)) snapshot
      simp only [System.step, hc, Option.some.injEq, System.scheduleFinish] at hn
      split at hn
      · rename_i decision st heq
        have hdecision := congrArg Prod.fst heq
        dsimp only at hdecision
        subst hn
        rcases List.mem_append.mp hd with hold | hnew
        · exact Or.inl hold
        · obtain ⟨rfl, rfl⟩ := Event.scheduleReturned.inj (List.mem_singleton.mp hnew)
          exact Or.inr ⟨request, snapshot, hc, hdecision⟩
      · rename_i e st heq
        have herror := congrArg Prod.fst heq
        rw [hd'] at herror
        cases herror

/-- The decision was made under the coordinator's views from evidence that was accepted, on no
more candidates than the store holds. -/
def DecidedOn (config : SchedulerConfig) (s : Coordinator) (d : PlacementDecision) : Prop :=
  ∃ (st : SchedulerState) (request : SchedulingRequest) (snapshot : List Candidate)
    (consulted : List (Finset WorkerBootId)), st.rankOptions = config.rankOptions ∧
    (st.scheduleSecond request (liveViews snapshot consulted) snapshot).1 = .ok d ∧
    (∀ c ∈ snapshot, Event.ingested c ∈ s.system.log) ∧
    snapshot.length ≤ s.system.sched.candidates.size

theorem decidedOn {P : Coordinator → CoordinatorAction → Prop}
    (h : (coordinator config).Run P (initial config) es t) :
    ∀ n d, Event.scheduleReturned n d ∈ t.system.log → DecidedOn config t d := by
  have hall : (scheduler config).Reachable System.NoRestore t.system ∧
      ∀ n d, Event.scheduleReturned n d ∈ t.system.log → DecidedOn config t d := by
    refine h.stable (fun u => (scheduler config).Reachable System.NoRestore u.system ∧
      ∀ n d, Event.scheduleReturned n d ∈ u.system.log → DecidedOn config u d) ?_ ?_
    · rintro u a v _ hn ⟨hu, hdecided⟩
      have hstep := stepped_of_step hn
      have hgrows := hstep.log_grows
      have hsize : u.system.sched.candidates.size ≤ v.system.sched.candidates.size := by
        rcases hstep.system_step with hsame | ⟨b, hno, hb⟩
        · rw [hsame]
        · exact (System.stepped_of_step hb).size_candidates_le hno
      refine ⟨hstep.reachable hu, ?_⟩
      intro n d hd
      rcases returned_cases hn hd with hold | ⟨request, snapshot, hpending, hpass⟩
      · obtain ⟨st, request, snapshot, consulted, hoptions, hpass, hevidence, hcount⟩ :=
          hdecided n d hold
        exact ⟨st, request, snapshot, consulted, hoptions, hpass,
          fun c hc => hgrows.subset (hevidence c hc), hcount.trans hsize⟩
      · exact ⟨u.system.sched, request, snapshot, u.consulted n, System.rankOptions_eq hu, hpass,
          fun c hc => hgrows.subset ((System.evidenced hu).snapshots n _ _ hpending c hc),
          (System.passesFit hu n _ _ hpending).trans hsize⟩
    · exact ⟨System.reachable_of_run .nil, fun _ _ hd => nomatch hd⟩
  exact hall.2

theorem terse_liveViews (request : SchedulingRequest) (snapshot : List Candidate)
    (consulted : List (Finset WorkerBootId)) (c : Candidate) :
    (liveViews snapshot consulted).Terse request c := by
  have hfenced : (text "worker boot is fenced").length = 21 := by decide +kernel
  constructor
  · rintro v ⟨⟩
    have hnone : 0 + 24 ≤ maxString := by decide
    exact hnone
  · rintro v ⟨⟩
    unfold liveVeto
    dsimp only
    split
    · rw [hfenced]
      decide
    · decide

/-- In every run of a coordinator that ranks by the default weights, on evidence that can be
read and a store of no more than a list can hold, a controller hears of each placement the
plan, or that there is none and why, or that the answer was too long for a frame. -/
theorem placements_heard {P : Coordinator → CoordinatorAction → Prop}
    (h : (coordinator config).Run P (initial config) es t)
    (hoptions : config.rankOptions = ⟨.default⟩)
    (hlegible : ∀ c, Event.ingested c ∈ t.system.log → c.Legible)
    (hcount : t.system.sched.candidates.size ≤ maxRecords)
    (hd : Event.scheduleReturned n d ∈ t.system.log)
    (harrives : Arrives (.placement d) controller) :
    listen controller submitAndGetPlan =
      if (Answer.placement d).Fits then
        if d.producedPlan = true then .ok d.plan
        else .error (.runtime (text "no plan produced: " ++ d.summary))
      else .error (.runtime (text "expected PLACEMENT_PLAN, got " ++ text "ERROR")) := by
  obtain ⟨st, request, snapshot, consulted, hst, hpass, hevidence, hfit⟩ := decidedOn h n d hd
  obtain ⟨hplan, hsummary⟩ := SchedulerState.encodable_decision (hst.trans hoptions)
    (hfit.trans hcount) (fun c hc => hlegible c (hevidence c hc))
    (fun c _ => terse_liveViews request snapshot consulted c) hpass
  rw [harrives.listen_eq]
  split
  · rename_i hfits
    rw [Answer.sent_of_fits hfits]
    exact submitAndGetPlan_of_reads (reads_readPlacement hplan hsummary)
  · rename_i hfits
    rw [Answer.sent_of_not_fits hfits]
    rfl

/-- A controller hears byte by byte of the plan that was made. -/
theorem placements_heard_bytewise : ∃ es t n d,
    (coordinator Sample.config).Run (fun _ _ => True) (initial Sample.config) es t ∧
    Event.scheduleReturned n d ∈ t.system.log ∧
    listen (Answer.placement d).bytewise submitAndGetPlan = .ok d.plan := by
  have hplaced : ((coordinator Sample.config).exec (fun _ _ => True) (initial Sample.config)
      Sample.placing).map (fun t =>
        ((t.system.log.findSome? Sample.placed?).map fun r =>
            (decide (Answer.placement r.2).Fits, r.2.producedPlan),
          t.system.log.filterMap Sample.accepted?,
          decide (t.system.sched.candidates.size ≤ maxRecords))) =
      some (some (true, true), [Sample.candidate ⟨1⟩ ⟨1⟩], true) := by decide +kernel
  obtain ⟨es, t, hrun, _, ht⟩ := TransitionSystem.exists_run_of_exec hplaced
  simp only [Prod.mk.injEq, decide_eq_true_eq] at ht
  obtain ⟨hplaced, haccepted, hcount⟩ := ht
  obtain ⟨⟨n, d⟩, hfound, hfits⟩ := Option.map_eq_some_iff.mp hplaced
  simp only [Prod.mk.injEq, decide_eq_true_eq] at hfits
  obtain ⟨e, he, hd⟩ := List.exists_of_findSome?_eq_some hfound
  cases e <;> cases hd
  have hlegible : ∀ c, Event.ingested c ∈ t.system.log → c.Legible := by
    intro c hc
    have hin : c ∈ t.system.log.filterMap Sample.accepted? :=
      List.mem_filterMap.mpr ⟨_, hc, rfl⟩
    rw [haccepted] at hin
    exact List.mem_singleton.mp hin ▸ Sample.legible_candidate
  refine ⟨es, t, n, d, hrun, he, ?_⟩
  rw [placements_heard hrun rfl hlegible hcount he (arrives_bytewise _), if_pos hfits.1,
    if_pos hfits.2]

end Coordinator

end FabricScheduler
