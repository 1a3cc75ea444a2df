import FabricScheduler.Coordinator.Fencing

/-!
# Placements on the boots of lost workers

A pass that consulted the live set before a boot was inserted may place on the boot after
its fence has returned, under the epoch the fence moved to; nothing fences that plan. When
every pass consults the set in time, no plan is placed on a boot whose fence has returned
and none placed there before is committed or handed off.
-/

namespace FabricScheduler

/-- The fence is one of the boot, and the epoch it is about to write is no news. -/
def FenceStage.Lost (epoch : CoordinatorEpoch) (boot : WorkerBootId) : FenceStage → Prop
  | .read b cur => b = boot ∧ cur.next ≤ epoch
  | _ => False

instance (epoch : CoordinatorEpoch) (boot : WorkerBootId) :
    DecidablePred (FenceStage.Lost epoch boot)
  | .fencing _ => isFalse id
  | .inserted _ => isFalse id
  | .read _ _ => inferInstanceAs (Decidable (_ ∧ _))

/-- The plan is placed on evidence the worker boot has published. -/
def System.PlacedOn (s : System) (p : PlacementPlan) (boot : WorkerBootId) : Prop :=
  ∃ c, Event.ingested c ∈ s.log ∧ p.selectedCandidate = c.candidateId ∧
    p.selectedCandidateGeneration = c.candidateGeneration ∧ c.workerBootId = boot

namespace Sample

/-- The first worker is lost, and its fence by call 0 runs to its end. -/
def fencing : List CoordinatorAction :=
  [.fenceWorker ⟨1⟩, .fenceInsert 0, .fenceRead 0, .fenceBump 0]

/-- The only worker is lost after the pass of call 0 consulted the live set. -/
def late : List CoordinatorAction :=
  .publish (candidate ⟨1⟩ ⟨1⟩) :: .submitWorkload (request ⟨1⟩) :: .consult 0 :: fencing

/-- One of two workers is lost before a workload is submitted. -/
def surviving : List CoordinatorAction :=
  .publish (candidate ⟨1⟩ ⟨1⟩) ::
    .publish { candidate ⟨2⟩ ⟨1⟩ with workerId := ⟨2⟩, workerBootId := ⟨2⟩ } :: (fencing ++
      [.submitWorkload (request ⟨1⟩), .consult 0, .consult 0, .submitFinish 0])

end Sample

namespace Coordinator

variable {config : SchedulerConfig} {s t : Coordinator} {a : CoordinatorAction}
  {k : PlacementPlanId} {boot : WorkerBootId}

/-- A fence of the boot has returned, or is about to return without moving the epoch on. -/
def FenceSpent (s : Coordinator) (boot : WorkerBootId) : Prop :=
  boot ∈ s.returned ∨ ∃ c < s.fences.fresh, ∃ stage ∈ s.fences.pending c,
    stage.Lost s.system.sched.epoch boot

instance : Decidable (s.FenceSpent boot) := inferInstanceAs (Decidable (_ ∨ _))

/-- A scheduling pass consulted the live set about every candidate of a boot whose fence is
spent after the boot was inserted. -/
def PassInTime (s : Coordinator) (consulted : List (Finset WorkerBootId)) : Call → Prop
  | .scheduling _ snapshot => ∀ c ∈ snapshot, s.FenceSpent c.workerBootId →
      c.workerBootId ∈ sawFenced snapshot consulted c
  | _ => True

instance (consulted : List (Finset WorkerBootId)) :
    DecidablePred (s.PassInTime consulted)
  | .scheduling _ snapshot => inferInstanceAs (Decidable (∀ c ∈ snapshot, _))
  | .committing _ _ | .settling _ _ _ | .releasing _ _ _ | .authorizing _ _
  | .launching _ _ => isTrue trivial

/-- A scheduling pass ends only when it consulted the live set in time. -/
def ConsultedInTime (s : Coordinator) : CoordinatorAction → Prop
  | .submitFinish n => ∀ call ∈ s.system.pending n, s.PassInTime (s.consulted n) call
  | _ => True

instance (s : Coordinator) (a : CoordinatorAction) : Decidable (s.ConsultedInTime a) :=
  match a with
  | .submitFinish n => inferInstanceAs (Decidable (∀ call ∈ s.system.pending n, _))
  | .publish _ | .submitWorkload _ | .consult _ | .commitRequest _ | .brokerCommit _
  | .commitFinish _ | .brokerRelease _ | .executionHandoff _ | .authorize _
  | .handoffFinish _ | .revalidate _ _ | .cancel _ | .supersede _ _ | .save
  | .fenceWorker _ | .fenceInsert _ | .fenceRead _ | .fenceBump _ => isTrue trivial

/-- The step stores no plan placed on a boot whose fence has returned, and commits and hands
off none. -/
structure AvoidsFenced (e : TransitionSystem.Step Coordinator CoordinatorAction) : Prop where
  places : ∀ k p, e.src.system.sched.plans.find? k = none →
    e.tgt.system.sched.plans.find? k = some p → ∀ boot ∈ e.src.returned,
      ¬e.tgt.system.PlacedOn p boot
  uses : ∀ k p, e.src.system.sched.plans.find? k = some p → ∀ boot ∈ e.src.returned,
    e.src.system.PlacedOn p boot → e.src.system.Defeated e.tgt.system k

/-- No plan placed on a boot whose fence is spent is on its way to execution. -/
def SpentCleared (s : Coordinator) : Prop :=
  ∀ k p boot, s.system.sched.plans.find? k = some p → s.system.PlacedOn p boot →
    s.FenceSpent boot → p.state.isUnresolved = false

/-- A fence that has read the epoch read it in the step or before. -/
theorem Stepped.read_cases (h : Stepped s a t) {c : Nat} {cur : CoordinatorEpoch}
    (hc : t.fences.pending c = some (.read boot cur)) :
    s.fences.pending c = some (.read boot cur) ∨
      a = .fenceRead c ∧ cur = s.system.sched.epoch := by
  cases h with
  | fenceWorker => exact Or.inl ((CallTable.pending_opened_cases hc).resolve_left nofun)
  | fenceInsert hc₀ =>
      rcases CallTable.pending_resumed_cases hc₀ hc with ⟨_, hx⟩ | hc
      · cases hx
      · exact Or.inl hc
  | fenceRead hc₀ =>
      rcases CallTable.pending_resumed_cases hc₀ hc with ⟨rfl, hx⟩ | hc
      · cases hx
        exact Or.inr ⟨rfl, rfl⟩
      · exact Or.inl hc
  | fenceBump hc₀ =>
      rcases CallTable.pending_resumed_cases hc₀ hc with ⟨_, hx⟩ | hc
      · cases hx
      · exact Or.inl hc
  | _ => exact Or.inl hc

/-- A fence that returns leaves the epoch at least where it meant to move it. -/
theorem Stepped.returned_cases (h : Stepped s a t) (hboot : boot ∈ t.returned) :
    boot ∈ s.returned ∨ ∃ c cur, s.fences.pending c = some (.read boot cur) ∧
      cur.next ≤ t.system.sched.epoch := by
  cases h with
  | @fenceBump c b cur system hc hn =>
      rcases Finset.mem_insert.mp hboot with rfl | hboot
      · obtain rfl := Option.some.inj hn
        refine Or.inr ⟨c, cur, hc, ?_⟩
        change cur.next ≤ (s.system.sched.setEpoch cur.next).2.epoch
        rcases s.system.sched.setEpoch_cases cur.next with ⟨hle, hset⟩ | ⟨_, hset⟩
        · rw [hset]
          exact hle
        · rw [hset]
          exact le_refl _
      · exact Or.inl hboot
  | _ => exact Or.inl hboot

/-- Where the epoch stays, a fence is not spent by the step unless it was before. -/
theorem Stepped.fenceSpent (h : Stepped s a t) (hfit : s.EpochsFit a)
    (hepoch : t.system.sched.epoch = s.system.sched.epoch) (hspent : t.FenceSpent boot) :
    s.FenceSpent boot := by
  have hheld : ∀ {c cur}, s.fences.pending c = some (.read boot cur) →
      cur.next ≤ s.system.sched.epoch → s.FenceSpent boot :=
    fun hc hle => Or.inr ⟨_, CallTable.lt_fresh_of_pending hc, _, hc, rfl, hle⟩
  rcases hspent with hboot | ⟨c, _, stage, hc, hlost⟩
  · rcases h.returned_cases hboot with hboot | ⟨c, cur, hc, hle⟩
    · exact Or.inl hboot
    · rw [hepoch] at hle
      exact hheld hc hle
  · rw [hepoch] at hlost
    cases stage with
    | fencing => exact hlost.elim
    | inserted => exact hlost.elim
    | read b cur =>
        obtain ⟨rfl, hle⟩ := hlost
        rcases h.read_cases hc with hc | ⟨rfl, rfl⟩
        · exact hheld hc hle
        · exact absurd (StrongId.lt_next hfit) (not_lt.mpr hle)

/-- A plan stored by a step whose pass consulted the live set in time is placed on no boot
whose fence is spent. -/
theorem Stepped.not_fenceSpent_of_stored
    (hs : (scheduler config).Reachable System.NoRestore s.system) (h : Stepped s a t)
    (htime : s.ConsultedInTime a) (hnone : s.system.sched.plans.find? k = none)
    {p : PlacementPlan} (hp : t.system.sched.plans.find? k = some p)
    (hplaced : t.system.PlacedOn p boot) : ¬s.FenceSpent boot := by
  have ht := h.reachable hs
  have hother : ∀ {b : Action}, s.system.NoRestore b → s.system.step b = some t.system →
      (∀ n views, b ≠ .scheduleFinish n views) → False := by
    intro b hno hn hplaces
    obtain ⟨n, _, _, _, _, _, views, hb⟩ := (System.stepped_of_step hn).stored hno hnone hp
    exact hplaces n views hb
  have hkept : t.system.sched.plans.find? k ≠ none := by
    rw [hp]
    exact Option.some_ne_none p
  cases h with
  | served _ hno hn hplaces => exact (hother hno hn hplaces).elim
  | consulted => exact absurd hnone hkept
  | @fenceWorker b _ hn =>
      have hno : s.system.NoRestore (.fenceWorker b) := trivial
      exact (hother hno hn fun _ _ hb => Action.noConfusion hb).elim
  | fenceInsert => exact absurd hnone hkept
  | fenceRead => exact absurd hnone hkept
  | @fenceBump _ _ cur _ _ hn =>
      have hno : s.system.NoRestore (.setEpoch cur.next) := trivial
      exact (hother hno hn fun _ _ hb => Action.noConfusion hb).elim
  | @submitted c request snapshot system hc hn =>
      cases System.stepped_of_step hn with
      | @scheduled _ request' snapshot' hc' _ decision =>
          obtain ⟨rfl, rfl⟩ := Call.scheduling.inj (Option.some.inj (hc'.symm.trans hc))
          obtain ⟨d, hd, hid, hgen, heligible⟩ :=
            SchedulerState.exists_eligible_of_stored hnone hp
          have hunfenced := of_decide_eq_true (allows_of_eligible heligible)
          have hlog : Event.ingested d ∈ s.system.log :=
            (System.evidenced hs).snapshots c _ _ hc d hd
          obtain ⟨e, he, heid, hegen, rfl⟩ := hplaced
          obtain rfl := System.ingested_unique ht he (List.mem_append_left _ hlog)
            (heid.symm.trans hid) (hegen.symm.trans hgen)
          exact fun hspent => hunfenced (htime _ hc e hd hspent)

/-- A stored plan stays on the boot it was placed on. -/
theorem Stepped.placedOn (hs : (scheduler config).Reachable System.NoRestore s.system)
    (h : Stepped s a t)
    {p q : PlacementPlan} (hp : s.system.sched.plans.find? k = some p) (hcarried : p.Carried q)
    (hplaced : t.system.PlacedOn q boot) : s.system.PlacedOn p boot := by
  have ht := h.reachable hs
  obtain ⟨d, hd, hid, hgen⟩ := (System.evidenced hs).selected k p hp
  obtain ⟨e, he, heid, hegen, rfl⟩ := hplaced
  rw [hcarried.selectedCandidate] at heid
  rw [hcarried.selectedCandidateGeneration] at hegen
  obtain rfl := System.ingested_unique ht he (h.log_grows.subset hd)
    (heid.symm.trans hid) (hegen.symm.trans hgen)
  exact ⟨e, hd, hid, hgen, rfl⟩

/-- A fence that becomes spent has seen the epoch move, and every plan off its way to
execution with it. -/
theorem SpentCleared.stepped (h : s.SpentCleared)
    (hs : (scheduler config).Reachable System.NoRestore s.system) (hstep : Stepped s a t)
    (hfit : s.EpochsFit a) (htime : s.ConsultedInTime a) : t.SpentCleared := by
  intro k q boot hq hplaced hspent
  by_contra hne
  have hu : q.state.isUnresolved = true := Bool.not_eq_false _ ▸ hne
  have hepoch : t.system.sched.epoch = s.system.sched.epoch := by
    by_contra hmoved
    exact hne (hstep.changed.isUnresolved_of_epoch_ne hmoved hq)
  have hbefore := hstep.fenceSpent hfit hepoch hspent
  cases hp : s.system.sched.plans.find? k with
  | none => exact hstep.not_fenceSpent_of_stored hs htime hp hq hplaced hbefore
  | some p =>
      obtain ⟨r, hr, hcarried⟩ := hstep.changed.carries k p hp
      obtain rfl := Option.some.inj (hq.symm.trans hr)
      have hcleared := h k p boot hp (hstep.placedOn hs hp hcarried hplaced) hbefore
      rw [hcarried.unresolved hu] at hcleared
      cases hcleared

theorem spentCleared_initial (config : SchedulerConfig) : (initial config).SpentCleared :=
  fun _ _ _ hp => by cases hp

/-- In a run in which no fence reads the largest epoch and every pass that ends consulted
the live set in time, no step stores a plan placed on a boot whose fence has returned, and
none commits or hands off a plan placed on such a boot. -/
theorem avoidsFenced {es : List (TransitionSystem.Step Coordinator CoordinatorAction)}
    (h : (coordinator config).Run (fun s a => s.EpochsFit a ∧ s.ConsultedInTime a)
      (initial config) es t) : ∀ e ∈ es, AvoidsFenced e := by
  intro e he
  obtain ⟨before, after, rfl, hbefore, ⟨hfit, htime⟩, hn, _⟩ := h.of_mem he
  have hstep := stepped_of_step hn
  have hs := reachable_system hbefore
  have hcleared : (scheduler config).Reachable System.NoRestore e.src.system ∧
      e.src.SpentCleared := by
    refine hbefore.stable (fun u => (scheduler config).Reachable System.NoRestore u.system ∧
      u.SpentCleared) ?_ ⟨System.reachable_of_run .nil, spentCleared_initial config⟩
    rintro u a v ⟨hfit, htime⟩ hn ⟨hu, hcleared⟩
    have hstep := stepped_of_step hn
    exact ⟨hstep.reachable hu, hcleared.stepped hu hstep hfit htime⟩
  refine ⟨?_, ?_⟩
  · intro k p hnone hp boot hboot hplaced
    exact hstep.not_fenceSpent_of_stored hs htime hnone hp hplaced (Or.inl hboot)
  · intro k p hp boot hboot hplaced
    have hu := hcleared.2 k p boot hp hplaced (Or.inl hboot)
    have hlast : (coordinator config).Run (fun _ _ => True) e.src
        ([] ++ [⟨e.src, e.act, e.tgt⟩]) e.tgt := TransitionSystem.Run.nil.snoc trivial hn
    obtain ⟨fs, hfs⟩ := exists_run_system hlast
    exact (System.fenced_of_not_isUnresolved hs hfs hp hu).2

/-- A workload submitted after a boot was fenced is placed on the candidate of another. -/
theorem avoidsFenced_survivor : ∃ es t,
    (coordinator Sample.config).Run (fun s a => s.EpochsFit a ∧ s.ConsultedInTime a)
      (initial Sample.config) es t ∧ t.returned = {⟨1⟩} ∧
    (t.system.sched.plans.find? ⟨1⟩).map PlacementPlan.selectedCandidate = some ⟨2⟩ ∧
    ∀ e ∈ es, AvoidsFenced e := by
  have hplaced : ((coordinator Sample.config).exec
      (fun s a => s.EpochsFit a ∧ s.ConsultedInTime a) (initial Sample.config)
      Sample.surviving).map
      (fun u => (u.returned,
        (u.system.sched.plans.find? ⟨1⟩).map PlacementPlan.selectedCandidate)) =
      some ({⟨1⟩}, some ⟨2⟩) := by decide +kernel
  obtain ⟨es, t, hr, _, ht⟩ := TransitionSystem.exists_run_of_exec hplaced
  obtain ⟨hreturned, hselected⟩ := Prod.mk.injEq .. ▸ ht
  exact ⟨es, t, hr, hreturned, hselected, avoidsFenced hr⟩

/-- A pass consults the live set, the only worker is lost and its fence returns, and then
the pass places on the worker. -/
theorem not_avoidsFenced : ¬∀ config es t,
    (coordinator config).Run (fun _ _ => True) (initial config) es t →
      ∀ e ∈ es, AvoidsFenced e := by
  intro h
  have hfenced : ((coordinator Sample.config).exec (fun _ _ => True) (initial Sample.config)
      Sample.late).map
      (fun u => (decide (⟨1⟩ ∈ u.returned), (u.system.sched.plans.find? ⟨1⟩).isNone)) =
      some (true, true) := by decide +kernel
  have hplaced : ((coordinator Sample.config).exec (fun _ _ => True) (initial Sample.config)
      (Sample.late ++ [.submitFinish 0])).map
      (fun t => (t.system.sched.plans.find? ⟨1⟩).map fun p => t.system.log.any fun
        | .ingested c => p.selectedCandidate = c.candidateId &&
            p.selectedCandidateGeneration = c.candidateGeneration && c.workerBootId = ⟨1⟩
        | _ => false) = some (some true) := by decide +kernel
  obtain ⟨es, u, fs, t, hr, hr', _, hact, hu, ht⟩ :=
    TransitionSystem.exists_runs_of_exec hfenced hplaced
  obtain ⟨v, gs, _, hn, hrun, hgs⟩ := hr'.uncons hact
  obtain rfl := List.map_eq_nil_iff.mp hgs
  obtain rfl := hrun.eq_of_nil
  obtain ⟨hreturned, hnone⟩ := Prod.mk.injEq .. ▸ hu
  obtain ⟨p, hp, hlog⟩ := Option.map_eq_some_iff.mp ht
  have havoids := h Sample.config _ v (hr.snoc trivial hn) _
    (List.mem_append_right _ (List.mem_singleton_self _))
  refine havoids.places ⟨1⟩ p (Option.isNone_iff_eq_none.mp hnone) hp ⟨1⟩
    (of_decide_eq_true hreturned) ?_
  obtain ⟨e, he, hpublished⟩ := List.any_eq_true.mp hlog
  cases e with
  | ingested c =>
      simp only [Bool.and_eq_true, decide_eq_true_eq] at hpublished
      obtain ⟨⟨hid, hgen⟩, hboot⟩ := hpublished
      exact ⟨c, he, hid, hgen, hboot⟩
  | _ => cases hpublished

end Coordinator

end FabricScheduler
