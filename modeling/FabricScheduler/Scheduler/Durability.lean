import FabricScheduler.Scheduler.Evidence

/-!
# What a scheduler can hand over to its successor

The invariants of the guarded state that survive a recovery from a snapshot taken earlier:
every record is stored under its own id, its requests are valid, its commitments are
evident, and no plan id is ahead of those given out. The candidates are not among what is
recovered, so a plan may outlive the evidence of its candidate.
-/

namespace FabricScheduler

/-- The plan ids in use are among those given out, one for each plan, unless the ordinals
have run out. -/
def IssuedIds (ids : List PlacementPlanId) (next : UInt64) : Prop :=
  ids.length + 1 < 2 ^ 64 → next.toNat = ids.length + 1 ∧ ∀ k ∈ ids, k.value < next

namespace SchedulerState

variable {st st' : SchedulerState} {k : PlacementPlanId}

/-- What a snapshot of the state relies on. -/
structure Durable (st : SchedulerState) : Prop where
  epoch : st.epoch.isValid = true
  requests : ∀ id r, st.requests.find? id = some r →
    r.requestId = id ∧ r.demand.validate = .ok ()
  plans : ∀ k p, st.plans.find? k = some p → p.planId = k ∧ p.Evident
  candidates : ∀ id c, st.candidates.find? id = some c → c.candidateId = id
  issued : IssuedIds st.plans.keys st.nextPlanId

/-- The candidate store knows the candidate of every stored plan. -/
def SelectionsHeld (st : SchedulerState) : Prop :=
  ∀ k p, st.plans.find? k = some p → ∃ c, st.candidates.find? p.selectedCandidate = some c

instance (st : SchedulerState) : Decidable st.SelectionsHeld :=
  decidable_of_iff
    (∀ p ∈ st.plans.values, (st.candidates.find? p.selectedCandidate).isSome = true) <| by
    simp only [Option.isSome_iff_exists, OrderedMap.mem_values_iff, forall_exists_index]
    exact forall_comm

theorem durable_initial (config : SchedulerConfig) : (initial config).Durable where
  epoch := rfl
  requests _ _ h := by cases h
  plans _ _ h := by cases h
  candidates _ _ h := by cases h
  issued _ := ⟨rfl, fun _ h => (List.not_mem_nil h).elim⟩

/-- Only a scheduling pass stores a plan under an id, gives one out or makes a plan the
latest of its request. -/
theorem Changed.keys_cases (h : st.Changed st') :
    (st'.plans.keys = st.plans.keys ∧ st'.nextPlanId = st.nextPlanId ∧
        st'.latestPlanByRequest = st.latestPlanByRequest) ∨
      ∃ request views snapshot, st' = (st.scheduleSecond request views snapshot).2 := by
  cases h with
  | scheduled request views snapshot => exact Or.inr ⟨request, views, snapshot, rfl⟩
  | advanced | cancel | supersede => exact Or.inl ⟨OrderedMap.keys_pass .., rfl, rfl⟩
  | asked hp | granted _ hp | launched hp | withdrawn hp =>
      exact Or.inl ⟨OrderedMap.keys_insert_of_some _ hp, rfl, rfl⟩
  | _ => exact Or.inl ⟨rfl, rfl, rfl⟩

/-- A plan appears only at the end of a scheduling pass. -/
theorem Changed.created (h : st.Changed st') {q : PlacementPlan}
    (hnone : st.plans.find? k = none) (hq : st'.plans.find? k = some q) :
    k = ⟨st.nextPlanId⟩ ∧ ∃ request snapshot, Created st request snapshot q := by
  rcases h.keys_cases with ⟨hkeys, _⟩ | ⟨request, views, snapshot, rfl⟩
  · have hmem : k ∈ st.plans.keys := hkeys ▸ OrderedMap.mem_keys_iff.mpr ⟨q, hq⟩
    obtain ⟨p, hp⟩ := OrderedMap.mem_keys_iff.mp hmem
    rw [hnone] at hp
    cases hp
  · rcases st.scheduleSecond_plans request views snapshot k with hk | ⟨_, hnext, r, hr, hk⟩
    · rw [hk, hnone] at hq
      cases hq
    · obtain rfl := Option.some.inj (hk.symm.trans hq)
      exact ⟨hnext, request, snapshot, hr⟩

/-- The candidate store only takes in candidates under their own ids. -/
theorem Changed.candidates_cases (h : st.Changed st') :
    st'.candidates = st.candidates ∨
      ∃ c, st'.candidates = st.candidates.insert c.candidateId c := by
  cases h with
  | @ingested candidate _ => exact Or.inr ⟨candidate, rfl⟩
  | scheduled request views snapshot =>
      have hframe := st.scheduleSecond_frame request views snapshot
      exact Or.inl (congrArg SchedulerState.candidates hframe :)
  | _ => exact Or.inl rfl

/-- The next plan id is above those in use, while ids last. -/
theorem IssuedIds.lt_next {m : OrderedMap PlacementPlanId PlacementPlan} {next : UInt64}
    (h : IssuedIds m.keys next) (hsize : m.size + 1 < 2 ^ 64) :
    ∀ k ∈ m.keys, k < ⟨next⟩ :=
  (h (by rwa [OrderedMap.length_keys])).2

theorem IssuedIds.find?_next {m : OrderedMap PlacementPlanId PlacementPlan} {next : UInt64}
    (h : IssuedIds m.keys next) (hsize : m.size + 1 < 2 ^ 64) : m.find? ⟨next⟩ = none := by
  cases hnext : m.find? ⟨next⟩ with
  | none => rfl
  | some p =>
      have hself := IssuedIds.lt_next h hsize _ (OrderedMap.mem_keys_iff.mpr ⟨p, hnext⟩)
      exact absurd hself (UInt64.lt_irrefl next)

private theorem issuedIds_emplace {m : OrderedMap PlacementPlanId PlacementPlan}
    {next : UInt64} (h : IssuedIds m.keys next) (q : PlacementPlan) :
    IssuedIds (m.emplace ⟨next⟩ q).keys (next + 1) := by
  intro hlt
  rw [OrderedMap.length_keys] at hlt ⊢
  have hsize : m.size + 1 < 2 ^ 64 := by
    have hle := m.size_le_size_emplace ⟨next⟩ q
    omega
  have hnext := IssuedIds.find?_next h hsize
  rw [OrderedMap.size_emplace_of_none q hnext] at hlt ⊢
  obtain ⟨hcount, hbelow⟩ := h (by rw [OrderedMap.length_keys]; omega)
  rw [OrderedMap.length_keys] at hcount
  have hsucc : (next + 1).toNat = next.toNat + 1 := by
    rw [UInt64.toNat_add, hcount]
    exact Nat.mod_eq_of_lt hlt
  refine ⟨by rw [hsucc, hcount], ?_⟩
  intro k hk
  obtain ⟨r, hr⟩ := OrderedMap.mem_keys_iff.mp hk
  rw [OrderedMap.find?_emplace] at hr
  rw [UInt64.lt_iff_toNat_lt, hsucc]
  split at hr
  · rename_i hself
    rw [hself]
    exact Nat.lt_succ_self next.toNat
  · have hold := hbelow k (OrderedMap.mem_keys_iff.mpr ⟨r, hr⟩)
    rw [UInt64.lt_iff_toNat_lt] at hold
    omega

private theorem IssuedIds.changed (h : IssuedIds st.plans.keys st.nextPlanId)
    (hc : st.Changed st') : IssuedIds st'.plans.keys st'.nextPlanId := by
  rcases hc.keys_cases with ⟨hkeys, hnext, _⟩ | ⟨request, views, snapshot, rfl⟩
  · rwa [hkeys, hnext]
  · cases hr : rankSnapshot st.rankOptions request views snapshot with
    | nil =>
        rw [scheduleSecond_of_nil hr]
        exact h
    | cons winner others =>
        rw [scheduleSecond_of_cons hr]
        exact issuedIds_emplace h _

private theorem plans_of_carries
    (h : ∀ k p, st.plans.find? k = some p → p.planId = k ∧ p.Evident)
    (hcarries : st.Carries st') {p q : PlacementPlan} (hp : st.plans.find? k = some p)
    (hq : st'.plans.find? k = some q) : q.planId = k ∧ q.Evident := by
  obtain ⟨hid, hevident⟩ := h k p hp
  obtain ⟨r, hr, hcarried⟩ := hcarries k p hp
  obtain rfl := Option.some.inj (hq.symm.trans hr)
  exact ⟨hcarried.planId.trans hid, hcarried.evident hevident⟩

/-- A change keeps the state durable when the requests it records are valid. -/
theorem Durable.changed (h : st.Durable) (hc : st.Changed st')
    (hrequests : ∀ id r, st'.requests.find? id = some r →
      r.requestId = id ∧ r.demand.validate = .ok ()) : st'.Durable where
  epoch := by
    have hle := StrongId.le_iff.mp hc.epoch_le
    have hvalid := h.epoch
    simp only [StrongId.isValid, bne_iff_ne, ne_eq, ← UInt64.toNat_inj] at hvalid ⊢
    change ¬_ = 0 at hvalid
    change ¬_ = 0
    omega
  requests := hrequests
  plans k q hq := by
    cases hp : st.plans.find? k with
    | some p => exact plans_of_carries h.plans hc.carries hp hq
    | none =>
        obtain ⟨rfl, _, _, hcreated⟩ := hc.created hp hq
        refine ⟨hcreated.planId, ?_⟩
        intro hauth
        rw [hcreated.ready] at hauth
        cases hauth
  candidates id c hc' := by
    rcases hc.candidates_cases with hsame | ⟨d, hinsert⟩
    · exact h.candidates id c (hsame ▸ hc')
    · rw [hinsert, OrderedMap.find?_insert] at hc'
      split at hc'
      · rename_i hid
        rw [← Option.some.inj hc', hid]
      · exact h.candidates id c hc'
  issued := IssuedIds.changed h.issued hc

/-- The state recovered from a snapshot, before its plans are forced. -/
def recovered (st st₀ : SchedulerState) : SchedulerState :=
  { st₀ with
    policy := st.policy
    rankOptions := st.rankOptions
    latestPlanByRequest := rebuildLatest st₀.plans.values
    candidates := .empty
    fencedWorkers := ∅
    fencedSources := ∅ }

/-- A recovery from a snapshot restores its requests and plans under their ids. -/
theorem Durable.restore_eq {st₀ : SchedulerState} (h : st₀.Durable) (st : SchedulerState) :
    st.restore st₀.snapshot = (st.recovered st₀).forcePlans
      (fun plan => !plan.state.isTerminal) id .revalidationRequired := by
  have hrequests : OrderedMap.collect SchedulingRequest.requestId st₀.requests.values =
      st₀.requests := OrderedMap.collect_values _ fun id r hr => (h.requests id r hr).1
  have hplans : OrderedMap.collect PlacementPlan.planId st₀.plans.values = st₀.plans :=
    OrderedMap.collect_values _ fun k p hp => (h.plans k p hp).1
  simp only [restore, snapshot, hrequests, hplans]
  rfl

/-- A recovery stores plans under the ids of the recovered plans. -/
theorem keys_restore (st : SchedulerState) (p : Persisted) :
    (st.restore p).plans.keys = (OrderedMap.collect PlacementPlan.planId p.plans).keys :=
  OrderedMap.keys_pass ..

/-- A recovery from a snapshot keeps the plan ids in use. -/
theorem Durable.keys_restore {st₀ : SchedulerState} (h : st₀.Durable) (st : SchedulerState) :
    (st.restore st₀.snapshot).plans.keys = st₀.plans.keys := by
  rw [h.restore_eq st]
  exact OrderedMap.keys_pass ..

/-- A recovery from a snapshot carries its plans over. -/
theorem Durable.carries_restore {st₀ : SchedulerState} (h : st₀.Durable)
    (st : SchedulerState) : st₀.Carries (st.restore st₀.snapshot) := by
  rw [h.restore_eq st]
  exact carries_displaced
    (displacement_forcePlans (st.recovered st₀) _ id _ rfl .refl fun _ => rfl)

/-- What is recovered from the snapshot of a durable state is durable. -/
theorem Durable.restore {st₀ : SchedulerState} (h : st₀.Durable) (st : SchedulerState) :
    (st.restore st₀.snapshot).Durable := by
  have hkeys := h.keys_restore st
  have hcarries := h.carries_restore st
  rw [h.restore_eq st] at hkeys hcarries ⊢
  refine ⟨h.epoch, h.requests, ?_, ?_, ?_⟩
  · intro k q hq
    have hmem := OrderedMap.mem_keys_iff.mpr ⟨q, hq⟩
    rw [hkeys] at hmem
    obtain ⟨p, hp⟩ := OrderedMap.mem_keys_iff.mp hmem
    exact plans_of_carries h.plans hcarries hp hq
  · intro id c hc
    cases hc
  · rw [hkeys]
    exact h.issued

end SchedulerState

namespace System

variable {config : SchedulerConfig} {s t : System} {a : Action}
  {es : List (TransitionSystem.Step System Action)}

/-- The guarded state is durable, and so was every state a snapshot was taken of. -/
structure Recoverable (s : System) : Prop where
  durable : s.sched.Durable
  passes : ∀ n request snapshot, s.pending n = some (.scheduling request snapshot) →
    request.demand.validate = .ok ()
  saved : ∀ p, Event.saved p ∈ s.log → ∃ st : SchedulerState, st.Durable ∧ p = st.snapshot

theorem recoverable_initial (config : SchedulerConfig) : (initial config).Recoverable where
  durable := SchedulerState.durable_initial config
  passes n _ _ hn := by
    rw [pending, initial, CallTable.pending_empty] at hn
    cases hn
  saved _ hp := by cases hp

/-- An action is a recovery or is not. -/
theorem noRestore_or (s : System) (a : Action) : s.NoRestore a ∨ ∃ p, a = .restore p := by
  cases a with
  | restore p => exact Or.inr ⟨p, rfl⟩
  | _ => exact Or.inl trivial

/-- Only a scheduling pass records its request. -/
theorem Stepped.requests_cases (h : Stepped s a t) (hno : s.NoRestore a) :
    t.sched.requests = s.sched.requests ∨
      ∃ n r snapshot, s.pending n = some (.scheduling r snapshot) ∧
        t.sched.requests = s.sched.requests.insert r.requestId r := by
  cases h with
  | setEpoch epoch =>
      exact Or.inl (congrArg SchedulerState.requests (s.sched.setEpoch_frame epoch) :)
  | revalidate planId current =>
      have hframe := s.sched.revalidate_frame planId current
      exact Or.inl (congrArg SchedulerState.requests hframe :)
  | @scheduled n request snapshot hn views _ =>
      change (s.sched.scheduleSecond request views snapshot).2.requests = _ ∨ _
      cases hr : rankSnapshot s.sched.rankOptions request views snapshot with
      | nil =>
          refine Or.inr ⟨n, request, snapshot, hn, ?_⟩
          exact congrArg SchedulerState.requests (SchedulerState.scheduleSecond_of_nil hr)
      | cons winner others =>
          rw [SchedulerState.scheduleSecond_of_cons hr]
          exact Or.inl rfl
  | restore => exact hno.elim
  | _ => exact Or.inl rfl

/-- A snapshot is saved of the current state. -/
theorem Stepped.saved_cases (h : Stepped s a t) {p : Persisted}
    (hp : Event.saved p ∈ s.since t) : p = s.sched.snapshot := by
  cases h with
  | snapshot =>
      cases List.mem_singleton.mp (since_whole .. ▸ hp)
      rfl
  | _ =>
      simp only [since_whole, since_begun, since_continued, List.mem_cons, List.not_mem_nil,
        or_false, reduceCtorEq] at hp

/-- A step that is not a recovery keeps the guarded state durable. -/
private theorem Recoverable.durable_stepped (h : s.Recoverable) (hstep : Stepped s a t)
    (hno : s.NoRestore a) : t.sched.Durable := by
  refine h.durable.changed (hstep.changed_of_noRestore hno) ?_
  intro id r hr
  rcases hstep.requests_cases hno with hsame | ⟨n, request, snapshot, hn, hinsert⟩
  · exact h.durable.requests id r (hsame ▸ hr)
  · rw [hinsert, OrderedMap.find?_insert] at hr
    split at hr
    · rename_i hid
      rw [← Option.some.inj hr, hid]
      exact ⟨rfl, h.passes n request snapshot hn⟩
    · exact h.durable.requests id r hr

/-- A step that recovers only what was saved keeps the system recoverable. -/
theorem Recoverable.stepped (h : s.Recoverable) (hstep : Stepped s a t)
    (hown : s.RestoresOwn a) : t.Recoverable where
  durable := by
    rcases s.noRestore_or a with hno | ⟨p, rfl⟩
    · exact h.durable_stepped hstep hno
    · obtain ⟨st, hst, rfl⟩ := h.saved p hown
      cases hstep
      exact hst.restore s.sched
  passes n request snapshot hn := by
    rcases hstep.scheduling_cases hn with hold | ⟨hvalid, _⟩
    · exact h.passes n request snapshot hold
    · exact hvalid
  saved p hp := by
    rw [log_eq_append_since hstep.log_grows] at hp
    rcases List.mem_append.mp hp with hold | hnew
    · exact h.saved p hold
    · exact ⟨s.sched, h.durable, hstep.saved_cases hnew⟩

theorem recoverable (h : (scheduler config).Reachable RestoresOwn s) : s.Recoverable := by
  refine h.invariant Recoverable ?_ ?_
  · rintro s rfl
    exact recoverable_initial config
  · intro u a v hown hn hu
    exact hu.stepped (stepped_of_step hn) hown

/-- A property of the guarded state that every permitted change keeps, and that a permitted
recovery from the snapshot of a state with it restores, holds wherever permitted steps lead,
and held of every state a snapshot was taken of. -/
theorem invariant_of_permitted {P : System → Action → Prop}
    (h : (scheduler config).Reachable P s) (hown : ∀ u a, P u a → u.RestoresOwn a)
    (I : SchedulerState → Prop) (hinit : I (.initial config))
    (hchanged : ∀ u a v, P u a → u.step a = some v → u.NoRestore a → u.sched.Durable →
      u.sched.Changed v.sched → I u.sched → I v.sched)
    (hrestore : ∀ (u : System) (st₀ : SchedulerState), P u (.restore st₀.snapshot) →
      st₀.Durable → I st₀ → I (u.sched.restore st₀.snapshot)) :
    I s.sched ∧ ∀ p, Event.saved p ∈ s.log →
      ∃ st : SchedulerState, st.Durable ∧ I st ∧ p = st.snapshot := by
  have hall : s.Recoverable ∧ I s.sched ∧ ∀ p, Event.saved p ∈ s.log →
      ∃ st : SchedulerState, st.Durable ∧ I st ∧ p = st.snapshot := by
    refine h.invariant (fun u => u.Recoverable ∧ I u.sched ∧ ∀ p, Event.saved p ∈ u.log →
      ∃ st : SchedulerState, st.Durable ∧ I st ∧ p = st.snapshot) ?_ ?_
    · rintro s rfl
      exact ⟨recoverable_initial config, hinit, fun _ hp => by cases hp⟩
    · rintro u a v hpermitted hn ⟨hu, hI, hsaved⟩
      have hstep := stepped_of_step hn
      refine ⟨hu.stepped hstep (hown u a hpermitted), ?_, ?_⟩
      · rcases u.noRestore_or a with hno | ⟨p, rfl⟩
        · exact hchanged u a v hpermitted hn hno hu.durable (hstep.changed_of_noRestore hno) hI
        · obtain ⟨st, hst, hIst, rfl⟩ := hsaved p (hown u _ hpermitted)
          cases hstep
          exact hrestore u st hpermitted hst hIst
      · intro p hp
        rw [log_eq_append_since hstep.log_grows] at hp
        rcases List.mem_append.mp hp with hold | hnew
        · exact hsaved p hold
        · exact ⟨u.sched, hu.durable, hI, hstep.saved_cases hnew⟩
  exact hall.2

/-- A property of the guarded state that every change keeps, and that a recovery from the
snapshot of a state with it restores, holds wherever recoveries of own snapshots lead, and
held of every state a snapshot was taken of. -/
theorem invariant_of_reachable (h : (scheduler config).Reachable RestoresOwn s)
    (I : SchedulerState → Prop) (hinit : I (.initial config))
    (hchanged : ∀ st st', st.Durable → st.Changed st' → I st → I st')
    (hrestore : ∀ st st₀ : SchedulerState, st₀.Durable → I st₀ →
      I (st.restore st₀.snapshot)) :
    I s.sched ∧ ∀ p, Event.saved p ∈ s.log →
      ∃ st : SchedulerState, st.Durable ∧ I st ∧ p = st.snapshot := by
  refine invariant_of_permitted h (fun _ _ hown => hown) I hinit ?_ ?_
  · exact fun u _ v _ _ _ hdurable hc hI => hchanged u.sched v.sched hdurable hc hI
  · exact fun u st₀ _ hdurable hI => hrestore u.sched st₀ hdurable hI

/-- A recovery leaves neither a plan nor a scheduling pass behind its candidates. -/
def KeepsEvidence (s : System) : Action → Prop
  | .restore p => p.plans = [] ∧
      ∀ n request snapshot, s.pending n ≠ some (.scheduling request snapshot)
  | _ => True

/-- The candidate store knows the candidates of the stored plans and of the suspended
scheduling passes. -/
structure Provided (s : System) : Prop where
  selections : s.sched.SelectionsHeld
  passes : ∀ n request snapshot, s.pending n = some (.scheduling request snapshot) →
    ∀ c ∈ snapshot, ∃ held, s.sched.candidates.find? c.candidateId = some held

theorem provided_initial (config : SchedulerConfig) : (initial config).Provided where
  selections _ _ hp := by cases hp
  passes n _ _ hn := by
    rw [pending, initial, CallTable.pending_empty] at hn
    cases hn

/-- A candidate is never dropped other than by a recovery. -/
private theorem exists_held (h : s.sched.Changed t.sched) {id : CandidateId} {c : Candidate}
    (hc : s.sched.candidates.find? id = some c) :
    ∃ held, t.sched.candidates.find? id = some held := by
  rcases h.candidates_cases with hsame | ⟨d, hinsert⟩
  · exact ⟨c, hsame ▸ hc⟩
  · rw [hinsert, OrderedMap.find?_insert]
    split
    · exact ⟨d, rfl⟩
    · exact ⟨c, hc⟩

/-- A step that is not a recovery keeps the candidates of plans and passes known. -/
private theorem Provided.stepped_of_noRestore (h : s.Provided) (hdurable : s.sched.Durable)
    (hstep : Stepped s a t) (hno : s.NoRestore a) : t.Provided where
  selections k q hq := by
    have hchanged := hstep.changed_of_noRestore hno
    cases hp : s.sched.plans.find? k with
    | some p =>
        obtain ⟨r, hr, hcarried⟩ := hchanged.carries k p hp
        obtain rfl := Option.some.inj (hq.symm.trans hr)
        obtain ⟨c, hc⟩ := h.selections k p hp
        rw [hcarried.selectedCandidate]
        exact exists_held hchanged hc
    | none =>
        obtain ⟨n, request, snapshot, hn, hcreated, _⟩ := hstep.stored hno hp hq
        obtain ⟨c, hc, hid, _⟩ := hcreated.selected
        obtain ⟨held, hheld⟩ := h.passes n request snapshot hn c hc
        rw [hid]
        exact exists_held hchanged hheld
  passes n request snapshot hn c hc := by
    have hchanged := hstep.changed_of_noRestore hno
    rcases hstep.scheduling_cases hn with hold | ⟨_, rfl⟩
    · obtain ⟨held, hheld⟩ := h.passes n request snapshot hold c hc
      exact exists_held hchanged hheld
    · obtain ⟨id, hid⟩ := OrderedMap.mem_values_iff.mp hc
      rw [hdurable.candidates id c hid]
      exact exists_held hchanged hid

theorem Provided.stepped (h : s.Provided) (hdurable : s.sched.Durable)
    (hstep : Stepped s a t) (hkeeps : s.KeepsEvidence a) : t.Provided := by
  rcases s.noRestore_or a with hno | ⟨p, rfl⟩
  · exact h.stepped_of_noRestore hdurable hstep hno
  · obtain ⟨hplans, hidle⟩ := hkeeps
    cases hstep
    refine ⟨?_, fun n request snapshot hn => absurd hn (hidle n request snapshot)⟩
    intro k q hq
    have hmem : k ∈ (s.sched.restore p).plans.keys := OrderedMap.mem_keys_iff.mpr ⟨q, hq⟩
    rw [SchedulerState.keys_restore, hplans] at hmem
    cases hmem

/-- The candidates of the stored plans are known in every run whose recoveries leave no plan
and no scheduling pass behind. -/
theorem selectionsHeld_of_run (h : (scheduler config).Run RestoresOwn (initial config) es t)
    (hkeeps : ∀ e ∈ es, e.src.KeepsEvidence e.act) : t.sched.SelectionsHeld := by
  have hrun := h.strengthen KeepsEvidence hkeeps
  have hboth : t.Recoverable ∧ t.Provided := by
    refine hrun.stable (fun u => u.Recoverable ∧ u.Provided) ?_
      ⟨recoverable_initial config, provided_initial config⟩
    rintro u a v ⟨hown, hkeeps⟩ hn ⟨hu, hprovided⟩
    exact ⟨hu.stepped (stepped_of_step hn) hown,
      hprovided.stepped hu.durable (stepped_of_step hn) hkeeps⟩
  exact hboth.2.selections

end System

end FabricScheduler
