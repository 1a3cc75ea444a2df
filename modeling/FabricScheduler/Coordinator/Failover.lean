import FabricScheduler.Coordinator.Disconnection
import FabricScheduler.Coordinator.Placement
import FabricScheduler.Scheduler.Agreement
import FabricScheduler.Scheduler.Failover

/-!
# Resubmitting a workload after a worker is lost

The live set only grows, so a pass sees every boot as fenced that an earlier one saw so. A
workload that is submitted again over the same candidates is placed where the earlier
decision would have fallen back to, and nowhere on a boot that was fenced before.
-/

namespace FabricScheduler

namespace SchedulerState

variable {st st' : SchedulerState}

/-- No step changes the options of the ranking. -/
theorem Changed.rankOptions_eq (h : st.Changed st') : st'.rankOptions = st.rankOptions := by
  cases h with
  | scheduled request views snapshot => rw [scheduleSecond_frame]
  | _ => rfl

end SchedulerState

namespace System

variable {config : SchedulerConfig} {P : System → Action → Prop} {s t : System} {a : Action}

theorem rankOptions_eq (h : (scheduler config).Reachable P s) :
    s.sched.rankOptions = config.rankOptions := by
  refine h.invariant (fun u => u.sched.rankOptions = config.rankOptions) ?_ ?_
  · rintro _ rfl
    rfl
  · intro u a v _ hn hu
    rcases (stepped_of_step hn).changed with ⟨persisted, _, hv⟩ | hchanged
    · rw [hv, ← hu]
      rfl
    · rw [hchanged.rankOptions_eq, hu]

/-- A call that was open stays suspended as it was until it ends or goes on. -/
theorem Stepped.scheduling_kept (h : Stepped s a t) {n : Nat} (hn : n < s.calls.fresh)
    {request : SchedulingRequest} {snapshot : List Candidate}
    (hkept : ∀ call, s.pending n = some call → call = .scheduling request snapshot)
    {call : Call} (hcall : t.pending n = some call) : call = .scheduling request snapshot := by
  have hopened : ∀ x, (s.calls.opened x).pending n = some call →
      call = .scheduling request snapshot := by
    intro x hx
    rw [CallTable.pending_opened, if_neg (Nat.ne_of_lt hn)] at hx
    exact hkept call hx
  cases h with
  | scheduleRefused | scheduleBegun | commitRefused | commitAsks | handoffRefused
  | handoffAsks => exact hopened _ hcall
  | scheduled hc | scheduleThrew hc | brokerThrows hc | commitTooLate hc | commitDenied hc
  | commitGranted hc | releaseReturns hc | releaseThrows hc | fabricThrows hc
  | handoffVanished hc | handoffFenced hc | handoffDenied hc | handoffLaunches hc
  | handoffThrows hc =>
      exact hkept call ((CallTable.pending_resumed_cases hc hcall).resolve_left nofun)
  | brokerAnswers hc | commitReleases hc | fabricAnswers hc =>
      rcases CallTable.pending_resumed_cases hc hcall with ⟨rfl, _⟩ | hcall
      · cases hkept _ hc
      · exact hkept call hcall
  | _ => exact hkept call hcall

end System

namespace Sample

/-- Two workers publish equal candidates. -/
def paired : List CoordinatorAction :=
  [.publish (candidate ⟨1⟩ ⟨1⟩),
    .publish { candidate ⟨2⟩ ⟨1⟩ with workerId := ⟨2⟩, workerBootId := ⟨2⟩ }]

/-- The coordinator after the actions when they are enabled. -/
def led (s : Coordinator) (as : List CoordinatorAction) : Coordinator :=
  ((coordinator config).exec (fun _ _ => True) s as).getD s

theorem exec_led {s : Coordinator} {as : List CoordinatorAction}
    (h : ((coordinator config).exec (fun _ _ => True) s as).isSome = true) :
    (coordinator config).exec (fun _ _ => True) s as = some (led s as) := by
  obtain ⟨t, ht⟩ := Option.isSome_iff_exists.mp h
  rw [led, ht, Option.getD_some]

theorem exists_run_led {s : Coordinator} {as : List CoordinatorAction}
    (h : ((coordinator config).exec (fun _ _ => True) s as).isSome = true) :
    ∃ es, (coordinator config).Run (fun _ _ => True) s es (led s as) :=
  (TransitionSystem.run_of_exec (exec_led h)).imp fun _ hrun => hrun.2

/-- Both workers have published. -/
def publishedPair : Coordinator := led (.initial config) paired

/-- A workload is submitted and the live set is consulted about both candidates. -/
def consulting (call : Nat) : List CoordinatorAction :=
  [.submitWorkload (request ⟨1⟩), .consult call, .consult call]

/-- The workload is submitted and its pass is about to end. -/
def consultedPair (s : Coordinator) : Coordinator := led s (consulting s.system.calls.fresh)

/-- The workload is submitted and its pass runs to its end. -/
def placedPair (s : Coordinator) : Coordinator :=
  led (consultedPair s) [.submitFinish s.system.calls.fresh]

/-- The first worker is lost after the workload was placed. -/
def lostPair : Coordinator := led (placedPair publishedPair) fencing

/-- Whether the last decision made a plan, with its choice and fallbacks. -/
def lastDecision (s : Coordinator) : Option (Bool × CandidateId × List CandidateId) :=
  match s.system.log.getLast? with
  | some (.scheduleReturned _ d) =>
      some (d.producedPlan, d.plan.selectedCandidate, d.plan.fallbackCandidates)
  | _ => none

end Sample

namespace Coordinator

variable {config : SchedulerConfig} {s s' f f' t t' u v : Coordinator} {a : CoordinatorAction}
  {request : SchedulingRequest} {d d' : PlacementDecision} {n : Nat} {c : Candidate}
  {snapshot : List Candidate} {consulted consulted' : List (Finset WorkerBootId)}

/-- The coordinator's views admit what the constraints admit on a boot not seen as fenced. -/
theorem admits_liveViews : (liveViews snapshot consulted).admits request c = true ↔
    Admitted request c none none ∧ c.workerBootId ∉ sawFenced snapshot consulted c := by
  unfold ScheduleViews.admits
  rw [eligible_iff_admitted]
  constructor
  · intro h
    have hallowed := h.policy _ rfl
    exact ⟨{ h with
      dependency := fun _ hd => nomatch hd
      policy := fun _ hp => nomatch hp }, of_decide_eq_true hallowed⟩
  · rintro ⟨h, halive⟩
    refine { h with dependency := ?_, policy := ?_ }
    · intro d hd
      cases hd
      rfl
    · intro p hp
      cases hp
      exact decide_eq_true halive

/-- A pass that consulted the live set about every candidate saw one of the sets. -/
theorem sawFenced_mem (hlength : consulted.length = snapshot.length) (hc : c ∈ snapshot) :
    sawFenced snapshot consulted c ∈ consulted := by
  unfold sawFenced
  obtain ⟨i, hi, rfl⟩ := List.mem_iff_getElem.mp hc
  have hzip : i < (snapshot.zip consulted).length := by
    rw [List.length_zip]
    omega
  cases hfind : (snapshot.zip consulted).find? fun e => e.1.candidateId = snapshot[i].candidateId
    with
  | some e => exact (List.of_mem_zip (List.mem_of_find?_eq_some hfind)).2
  | none =>
      have hnone := List.find?_eq_none.mp hfind _ (List.getElem_mem hzip)
      rw [List.getElem_zip] at hnone
      exact absurd (decide_eq_true rfl) hnone

theorem pending_of_consult (h : s.step (.consult n) = some t) :
    ∃ call, s.system.pending n = some call := by
  simp only [step] at h
  split at h
  · exact ⟨_, ‹_›⟩
  · cases h

theorem Stepped.fresh_le_calls (h : Stepped s a t) :
    s.system.calls.fresh ≤ t.system.calls.fresh := by
  rcases h.system_step with hsame | ⟨b, _, hn⟩
  · rw [hsame]
  · exact (System.stepped_of_step hn).fresh_le

/-- Only a consultation of the call changes what was seen for it. -/
theorem Stepped.consulted_cases (h : Stepped s a t) : t.consulted n = s.consulted n ∨
    a = .consult n ∧ t.consulted n = s.consulted n ++ [s.fenced] := by
  cases h with
  | consulted m =>
      by_cases hn : n = m
      · subst hn
        exact Or.inr ⟨rfl, Function.update_self ..⟩
      · exact Or.inl (Function.update_of_ne hn ..)
  | _ => exact Or.inl rfl

/-- Nothing was seen yet for a call that has not begun. -/
theorem unconsulted {P : Coordinator → CoordinatorAction → Prop}
    {es : List (TransitionSystem.Step Coordinator CoordinatorAction)}
    (h : (coordinator config).Run P (initial config) es s) :
    ∀ m, s.system.calls.fresh ≤ m → s.consulted m = [] := by
  refine h.stable (fun u => ∀ m, u.system.calls.fresh ≤ m → u.consulted m = []) ?_
    fun _ _ => rfl
  intro u a v _ hn hu m hm
  have hstep := stepped_of_step hn
  have hle := hstep.fresh_le_calls
  rcases hstep.consulted_cases (n := m) with hsame | ⟨rfl, _⟩
  · rw [hsame]
    exact hu m (hle.trans hm)
  · obtain ⟨call, hcall⟩ := pending_of_consult hn
    have hlt := CallTable.lt_fresh_of_pending hcall
    omega

/-- How far the pass for the request that begins in the first state has come in the second:
it is suspended as it began or has ended, and it saw the live set at some time since. -/
structure Passing (s : Coordinator) (request : SchedulingRequest) (u : Coordinator) : Prop where
  opened : s.system.calls.fresh < u.system.calls.fresh
  held : ∀ call, u.system.pending s.system.calls.fresh = some call →
    call = .scheduling request s.system.sched.candidates.values
  live : s.fenced ⊆ u.fenced
  saw : ∀ seen ∈ u.consulted s.system.calls.fresh, s.fenced ⊆ seen ∧ seen ⊆ u.fenced

theorem passing_begun (hempty : s.consulted s.system.calls.fresh = [])
    (h : s.step (.submitWorkload request) = some u) : Passing s request u := by
  have hkept : u.fenced = s.fenced ∧ u.consulted = s.consulted ∧
      s.system.step (.scheduleBegin request) = some u.system := by
    simp only [step] at h
    obtain ⟨system, hn, rfl⟩ := Option.map_eq_some_iff.mp h
    exact ⟨rfl, rfl, hn⟩
  obtain ⟨hfenced, hconsulted, hn⟩ := hkept
  have hopened : s.system.calls.fresh < u.system.calls.fresh ∧
      ∀ call, u.system.pending s.system.calls.fresh = some call →
        call = .scheduling request s.system.sched.candidates.values := by
    generalize u.system = system at hn
    cases System.stepped_of_step hn with
    | scheduleRefused =>
        refine ⟨?_, ?_⟩
        · simp only [System.begun, CallTable.fresh_opened]
          omega
        · intro call hcall
          simp only [System.pending, System.begun, CallTable.pending_opened, ite_true] at hcall
          cases hcall
    | scheduleBegun =>
        refine ⟨?_, ?_⟩
        · simp only [System.begun, CallTable.fresh_opened]
          omega
        · intro call hcall
          simp only [System.pending, System.begun, CallTable.pending_opened, ite_true] at hcall
          exact (Option.some.inj hcall).symm
  refine ⟨hopened.1, hopened.2, hfenced.ge, ?_⟩
  intro seen hseen
  rw [hconsulted, hempty] at hseen
  cases hseen

theorem Passing.stepped (h : Passing s request u) (hstep : Stepped u a v) :
    Passing s request v := by
  have hlive := hstep.fenced_subset
  refine ⟨h.opened.trans_le hstep.fresh_le_calls, ?_, h.live.trans hlive, ?_⟩
  · intro call hcall
    rcases hstep.system_step with hsame | ⟨b, _, hn⟩
    · rw [hsame] at hcall
      exact h.held call hcall
    · exact (System.stepped_of_step hn).scheduling_kept h.opened h.held hcall
  · intro seen hseen
    rcases hstep.consulted_cases with hsame | ⟨_, hmore⟩
    · rw [hsame] at hseen
      exact ⟨(h.saw seen hseen).1, (h.saw seen hseen).2.trans hlive⟩
    · rw [hmore] at hseen
      rcases List.mem_append.mp hseen with hseen | hseen
      · exact ⟨(h.saw seen hseen).1, (h.saw seen hseen).2.trans hlive⟩
      · rw [List.mem_singleton.mp hseen]
        exact ⟨h.live, hlive⟩

/-- A workload is submitted in the first state, its pass ends from the second to the third,
and it returns the decision. -/
structure Places (config : SchedulerConfig) (request : SchedulingRequest)
    (s f t : Coordinator) (d : PlacementDecision) : Prop where
  begins : ∃ b es, s.step (.submitWorkload request) = some b ∧
    (coordinator config).Run (fun _ _ => True) b es f
  finishes : f.step (.submitFinish s.system.calls.fresh) = some t
  returns : t.system.log = f.system.log ++ [.scheduleReturned s.system.calls.fresh d]

/-- A pass that ends has consulted the live set about every candidate it began with. -/
theorem exists_returned (h : Passing s request f)
    (hn : f.step (.submitFinish s.system.calls.fresh) = some t) :
    (f.consulted s.system.calls.fresh).length = s.system.sched.candidates.values.length ∧
    t.fenced = f.fenced ∧ ∃ d,
      t.system.log = f.system.log ++ [.scheduleReturned s.system.calls.fresh d] ∧
      (f.system.sched.scheduleSecond request (liveViews s.system.sched.candidates.values
        (f.consulted s.system.calls.fresh)) s.system.sched.candidates.values).1 = .ok d := by
  simp only [step] at hn
  split at hn
  · rename_i hpending
    cases h.held _ hpending
    split at hn
    · rename_i hlength
      obtain ⟨system, hsystem, rfl⟩ := Option.map_eq_some_iff.mp hn
      refine ⟨hlength, rfl, ?_⟩
      simp only [System.step, hpending, Option.some.injEq] at hsystem
      subst hsystem
      obtain ⟨d, hd⟩ := f.system.sched.scheduleSecond_isOk request
        (liveViews s.system.sched.candidates.values (f.consulted s.system.calls.fresh))
        s.system.sched.candidates.values
      refine ⟨d, ?_, hd⟩
      unfold System.scheduleFinish
      split
      · rename_i heq
        rw [heq] at hd
        cases hd
        rfl
      · rename_i heq
        rw [heq] at hd
        cases hd
    · cases hn
  · cases hn

/-- The candidate of the id is not on a boot that the pass from the first state to the second
saw as fenced. -/
def survives (s f : Coordinator) (id : CandidateId) : Bool :=
  match s.system.sched.candidates.find? id with
  | some c => c.workerBootId ∉ sawFenced s.system.sched.candidates.values
      (f.consulted s.system.calls.fresh) c
  | none => false

theorem Places.passing {P : Coordinator → CoordinatorAction → Prop}
    {es : List (TransitionSystem.Step Coordinator CoordinatorAction)}
    (hs : (coordinator config).Run P (initial config) es s)
    (h : Places config request s f t d) : Passing s request f := by
  obtain ⟨b, fs, hbegin, hrun⟩ := h.begins
  refine hrun.stable (Passing s request) ?_ ?_
  · intro u a v _ hn hu
    exact hu.stepped (stepped_of_step hn)
  · exact passing_begun (unconsulted hs _ le_rfl) hbegin

theorem Places.run {es : List (TransitionSystem.Step Coordinator CoordinatorAction)}
    (hs : (coordinator config).Run (fun _ _ => True) (initial config) es s)
    (h : Places config request s f t d) :
    (∃ fs, (coordinator config).Run (fun _ _ => True) (initial config) fs f) ∧
      ∃ fs, (coordinator config).Run (fun _ _ => True) (initial config) fs t := by
  obtain ⟨b, fs, hbegin, hrun⟩ := h.begins
  have hbegun : (coordinator config).next s (.submitWorkload request) = some b := hbegin
  have hfinished : (coordinator config).next f (.submitFinish s.system.calls.fresh) = some t :=
    h.finishes
  have hf := (hs.snoc trivial hbegun).append hrun
  exact ⟨⟨_, hf⟩, _, hf.snoc trivial hfinished⟩

/-- What the pass saw and decided. -/
theorem Places.decides {P : Coordinator → CoordinatorAction → Prop}
    {es : List (TransitionSystem.Step Coordinator CoordinatorAction)}
    (hs : (coordinator config).Run P (initial config) es s)
    (h : Places config request s f t d) :
    (f.consulted s.system.calls.fresh).length = s.system.sched.candidates.values.length ∧
    t.fenced = f.fenced ∧
    (f.system.sched.scheduleSecond request (liveViews s.system.sched.candidates.values
      (f.consulted s.system.calls.fresh)) s.system.sched.candidates.values).1 = .ok d := by
  obtain ⟨hlength, hfenced, d', hreturned, hd'⟩ := exists_returned (h.passing hs) h.finishes
  have hsame := List.append_cancel_left (h.returns.symm.trans hreturned)
  cases hsame
  exact ⟨hlength, hfenced, hd'⟩

theorem fenced_subset_of_run {P : Coordinator → CoordinatorAction → Prop}
    {es : List (TransitionSystem.Step Coordinator CoordinatorAction)}
    (h : (coordinator config).Run P s es t) : s.fenced ⊆ t.fenced :=
  h.stable (fun u => s.fenced ⊆ u.fenced)
    (fun _ _ _ _ hn hu => hu.trans (stepped_of_step hn).fenced_subset) Finset.Subset.rfl

/-- An execution that submits a workload and comes to the end of its pass places it. -/
theorem exists_places {es : List (TransitionSystem.Step Coordinator CoordinatorAction)}
    {as : List CoordinatorAction}
    (hs : (coordinator config).Run (fun _ _ => True) (initial config) es s)
    (hf : (coordinator config).exec (fun _ _ => True) s (.submitWorkload request :: as) =
      some f)
    (ht : (coordinator config).exec (fun _ _ => True) f [.submitFinish s.system.calls.fresh] =
      some t) : ∃ d, Places config request s f t d := by
  simp only [TransitionSystem.exec, ite_true, Option.bind_eq_some_iff, Option.some.injEq,
    exists_eq_right] at hf ht
  obtain ⟨b, hbegin, hexec⟩ := hf
  obtain ⟨fs, _, hrun⟩ := TransitionSystem.run_of_exec hexec
  have hpass : Passing s request f :=
    hrun.stable (Passing s request) (fun _ _ _ _ hn hu => hu.stepped (stepped_of_step hn))
      (passing_begun (unconsulted hs _ le_rfl) hbegin)
  obtain ⟨_, _, d, hreturned, _⟩ := exists_returned hpass ht
  exact ⟨d, ⟨b, fs, hbegin, hrun⟩, ht, hreturned⟩

theorem Places.lastDecision (h : Places config request s f t d) : Sample.lastDecision t =
    some (d.producedPlan, d.plan.selectedCandidate, d.plan.fallbackCandidates) := by
  rw [Sample.lastDecision, h.returns, List.getLast?_concat]

theorem exists_places_pair {es : List (TransitionSystem.Step Coordinator CoordinatorAction)}
    (hs : (coordinator Sample.config).Run (fun _ _ => True) (initial Sample.config) es s)
    (hf : ((coordinator Sample.config).exec (fun _ _ => True) s
      (Sample.consulting s.system.calls.fresh)).isSome = true)
    (ht : ((coordinator Sample.config).exec (fun _ _ => True) (Sample.consultedPair s)
      [.submitFinish s.system.calls.fresh]).isSome = true) :
    ∃ d, Places Sample.config (Sample.request ⟨1⟩) s (Sample.consultedPair s)
      (Sample.placedPair s) d :=
  exists_places hs (Sample.exec_led hf) (Sample.exec_led ht)

end Coordinator

end FabricScheduler
