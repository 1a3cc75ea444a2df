import FabricScheduler.Scheduler.Durability
import FabricScheduler.Scheduler.Execution

/-!
# Authority across recoveries

A recovery goes back to the epoch and the authority of its snapshot and issues no authority
of its own. Fresh authority comes from the next accepted epoch change: it is above that of
every recovered plan, and so is the authority of every plan built until the next recovery.
-/

namespace FabricScheduler

namespace SchedulerState

variable {st st' : SchedulerState} {first : AuthorityGeneration}

/-- An authority for each epoch so far fits below the 64-bit boundary. -/
def AuthorityLasts (first : AuthorityGeneration) (st : SchedulerState) : Prop :=
  first.value.toNat + st.epoch.value.toNat ≤ 2 ^ 64

/-- With the default first authority, authorities last as long as epochs do. -/
theorem authorityLasts_of_le_one (h : first.value.toNat ≤ 1) (st : SchedulerState) :
    st.AuthorityLasts first := by
  have hlt := st.epoch.value.toNat_lt
  unfold AuthorityLasts
  omega

/-- While authorities last, there have been no more of them than epochs, and no plan has
one that is still to come. -/
def Issued (first : AuthorityGeneration) (st : SchedulerState) : Prop :=
  st.AuthorityLasts first →
    st.authority.value.toNat + 1 ≤ first.value.toNat + st.epoch.value.toNat ∧
      ∀ k p, st.plans.find? k = some p → p.authorityGeneration ≤ st.authority

theorem issued_initial (config : SchedulerConfig) :
    (initial config).Issued config.initialAuthority := by
  intro _
  exact ⟨le_refl _, fun _ _ hp => by cases hp⟩

/-- Authorities lasted before a change if they last after it. -/
theorem Changed.authorityLasts (h : st.Changed st') (hlasts : st'.AuthorityLasts first) :
    st.AuthorityLasts first := by
  have hle := StrongId.le_iff.mp h.epoch_le
  unfold AuthorityLasts at hlasts ⊢
  omega

/-- A change either keeps the epoch and the authority or moves both forward. -/
theorem Issued.authority_cases (h : st.Issued first) (hc : st.Changed st')
    (hlasts : st'.AuthorityLasts first) :
    (st'.epoch = st.epoch ∧ st'.authority = st.authority) ∨
      (st.epoch < st'.epoch ∧
        st'.authority.value.toNat = st.authority.value.toNat + 1) := by
  rcases hc.authority_cases with hsame | ⟨hlt, hauth⟩
  · exact Or.inl hsame
  · refine Or.inr ⟨hlt, ?_⟩
    obtain ⟨hcount, _⟩ := h (hc.authorityLasts hlasts)
    rw [StrongId.lt_iff] at hlt
    unfold AuthorityLasts at hlasts
    rw [hauth]
    apply StrongId.toNat_next
    omega

theorem Issued.authority_le (h : st.Issued first) (hc : st.Changed st')
    (hlasts : st'.AuthorityLasts first) : st.authority ≤ st'.authority := by
  rw [StrongId.le_iff]
  rcases h.authority_cases hc hlasts with ⟨_, hauth⟩ | ⟨_, hauth⟩
  · rw [hauth]
  · omega

/-- A change builds plans with the authority it finds. -/
private theorem Issued.plan_le (h : ∀ k p, st.plans.find? k = some p →
      p.authorityGeneration ≤ st.authority) (hc : st.Changed st') {k : PlacementPlanId}
    {q : PlacementPlan} (hq : st'.plans.find? k = some q) :
    q.authorityGeneration ≤ st.authority := by
  cases hp : st.plans.find? k with
  | some p =>
      obtain ⟨r, hr, hcarried⟩ := hc.carries k p hp
      obtain rfl := Option.some.inj (hq.symm.trans hr)
      rw [hcarried.authorityGeneration]
      exact h k p hp
  | none =>
      obtain ⟨_, _, _, hcreated⟩ := hc.created hp hq
      exact hcreated.authority.le

theorem Issued.changed (h : st.Issued first) (hc : st.Changed st') : st'.Issued first := by
  intro hlasts
  obtain ⟨hcount, hplans⟩ := h (hc.authorityLasts hlasts)
  refine ⟨?_, fun k q hq => (Issued.plan_le hplans hc hq).trans (h.authority_le hc hlasts)⟩
  rcases h.authority_cases hc hlasts with ⟨hepoch, hauth⟩ | ⟨hlt, hauth⟩
  · rwa [hepoch, hauth]
  · rw [StrongId.lt_iff] at hlt
    omega

/-- What is recovered from a snapshot was issued before the snapshot. -/
theorem Issued.restore {st₀ : SchedulerState} (h : st₀.Issued first) (hdurable : st₀.Durable)
    (st : SchedulerState) : (st.restore st₀.snapshot).Issued first := by
  intro hlasts
  obtain ⟨hcount, hplans⟩ := h hlasts
  refine ⟨hcount, ?_⟩
  intro k q hq
  have hmem := OrderedMap.mem_keys_iff.mpr ⟨q, hq⟩
  rw [hdurable.keys_restore st] at hmem
  obtain ⟨p, hp⟩ := OrderedMap.mem_keys_iff.mp hmem
  obtain ⟨r, hr, hcarried⟩ := hdurable.carries_restore st k p hp
  obtain rfl := Option.some.inj (hq.symm.trans hr)
  rw [hcarried.authorityGeneration]
  exact hplans k p hp

end SchedulerState

namespace System

variable {config : SchedulerConfig} {s t : System} {a : Action}
  {es : List (TransitionSystem.Step System Action)}

theorem issued (h : (scheduler config).Reachable RestoresOwn s) :
    s.sched.Issued config.initialAuthority ∧ ∀ p, Event.saved p ∈ s.log →
      ∃ st : SchedulerState, st.Durable ∧ st.Issued config.initialAuthority ∧
        p = st.snapshot := by
  refine invariant_of_reachable h (SchedulerState.Issued config.initialAuthority)
    (SchedulerState.issued_initial config) ?_ ?_
  · intro st st' _ hchanged hissued
    exact hissued.changed hchanged
  · intro st st₀ hdurable hissued
    exact hissued.restore hdurable st

/-- Without a recovery the authority only moves forward. -/
theorem authority_le_of_run (hs : (scheduler config).Reachable RestoresOwn s)
    (h : (scheduler config).Run RestoresOwn s es t)
    (hno : ∀ e ∈ es, e.src.NoRestore e.act)
    (hlasts : t.sched.AuthorityLasts config.initialAuthority) :
    s.sched.authority ≤ t.sched.authority := by
  have hrun := h.strengthen NoRestore hno
  have hboth : (scheduler config).Reachable RestoresOwn t ∧
      (t.sched.AuthorityLasts config.initialAuthority →
        s.sched.authority ≤ t.sched.authority) := by
    refine hrun.stable (fun u => (scheduler config).Reachable RestoresOwn u ∧
      (u.sched.AuthorityLasts config.initialAuthority →
        s.sched.authority ≤ u.sched.authority)) ?_ ⟨hs, fun _ => le_refl _⟩
    rintro u a v ⟨hown, hno⟩ hn ⟨hu, hle⟩
    refine ⟨hu.next hown hn, ?_⟩
    intro hlasts
    have hchanged := (stepped_of_step hn).changed_of_noRestore hno
    exact (hle (hchanged.authorityLasts hlasts)).trans
      ((issued hu).1.authority_le hchanged hlasts)
  exact hboth.2 hlasts

/-- A recovered plan is not ahead of the authority of its snapshot. -/
theorem authority_le_of_saved (hs : (scheduler config).Reachable RestoresOwn s)
    {p : Persisted} (hp : Event.saved p ∈ s.log)
    (hlasts : (s.sched.restore p).AuthorityLasts config.initialAuthority)
    {q : PlacementPlan} (hq : q ∈ p.plans) : q.authorityGeneration ≤ p.authority := by
  obtain ⟨st, _, hissued, rfl⟩ := (issued hs).2 p hp
  obtain ⟨k, hk⟩ := OrderedMap.mem_values_iff.mp hq
  exact (hissued hlasts).2 k q hk

/-- An accepted epoch change issues an authority above the one before. -/
theorem authority_lt_of_setEpoch (hs : (scheduler config).Reachable RestoresOwn s)
    {epoch : CoordinatorEpoch} (hn : s.step (.setEpoch epoch) = some t)
    (hlt : s.sched.epoch < epoch)
    (hlasts : t.sched.AuthorityLasts config.initialAuthority) :
    s.sched.authority < t.sched.authority := by
  obtain rfl := Option.some.inj hn
  have hadvanced : (s.sched.setEpoch epoch).2 = s.sched.advanced epoch := by
    rcases s.sched.setEpoch_cases epoch with ⟨hle, _⟩ | ⟨_, h⟩
    · exact absurd hle (not_le.mpr hlt)
    · exact h
  change (s.sched.setEpoch epoch).2.AuthorityLasts config.initialAuthority at hlasts
  change s.sched.authority < (s.sched.setEpoch epoch).2.authority
  rw [hadvanced] at hlasts ⊢
  rcases (issued hs).1.authority_cases (.advanced hlt) hlasts with ⟨hsame, _⟩ | ⟨_, hauth⟩
  · exact absurd hsame hlt.ne'
  · rw [StrongId.lt_iff]
    omega

/-- While authorities last, epoch and authority go back in no step but a recovery. A recovery
adopts those of its snapshot, which no plan of the snapshot is ahead of. From the next
accepted epoch change to the next recovery, the authority and the authorities of the plans
built are above those of all recovered plans. -/
theorem authority_reissued (h : (scheduler config).Run RestoresOwn (initial config) es t)
    (hlasts : ∀ e ∈ es, e.tgt.sched.AuthorityLasts config.initialAuthority) :
    (∀ e ∈ es, e.src.NoRestore e.act → e.src.sched.epoch ≤ e.tgt.sched.epoch ∧
      e.src.sched.authority ≤ e.tgt.sched.authority) ∧
    ∀ before e after p, es = before ++ e :: after → e.act = .restore p →
      e.tgt.sched.epoch = p.epoch ∧ e.tgt.sched.authority = p.authority ∧
      (∀ q ∈ p.plans, q.authorityGeneration ≤ p.authority) ∧
      ∀ mid g rest epoch, after = mid ++ g :: rest →
        (∀ f ∈ mid, f.src.NoRestore f.act) → g.act = .setEpoch epoch →
        g.src.sched.epoch < epoch →
        (∀ q ∈ p.plans, q.authorityGeneration < g.tgt.sched.authority) ∧
        ∀ later f rest', rest = later ++ f :: rest' →
          (∀ f' ∈ later, f'.src.NoRestore f'.act) → f.src.NoRestore f.act →
          ∀ k r, f.src.sched.plans.find? k = none → f.tgt.sched.plans.find? k = some r →
            ∀ q ∈ p.plans, q.authorityGeneration < r.authorityGeneration := by
  constructor
  · intro e he hno
    obtain ⟨before, _, _, hbefore, _, hn, _⟩ := h.of_mem he
    have hchanged := (stepped_of_step hn).changed_of_noRestore hno
    exact ⟨hchanged.epoch_le,
      (issued (reachable_of_run hbefore)).1.authority_le hchanged (hlasts e he)⟩
  · rintro before e after p rfl hact
    obtain ⟨hbefore, hown, hn, hafter⟩ := h.split
    have hreach := reachable_of_run hbefore
    have htgt := hreach.next hown hn
    have hlast := hlasts e (List.mem_append_right _ (List.mem_cons_self ..))
    rw [hact] at hown hn
    obtain ⟨src, act, tgt⟩ := e
    obtain rfl : src.whole (src.sched.restore p) [] = tgt := Option.some.inj hn
    have hrecovered : ∀ q ∈ p.plans, q.authorityGeneration ≤ p.authority :=
      fun q hq => authority_le_of_saved hreach hown hlast hq
    refine ⟨rfl, rfl, hrecovered, ?_⟩
    rintro mid g rest epoch rfl hmid hgact hlt
    obtain ⟨hrun, hgown, hgn, hrest⟩ := hafter.split
    have hsrc := htgt.run hrun
    have hmem : ∀ f ∈ g :: rest, f.tgt.sched.AuthorityLasts config.initialAuthority :=
      fun f hf => hlasts f (List.mem_append_right _ (List.mem_cons_of_mem _
        (List.mem_append_right _ hf)))
    have hglast := hmem g (List.mem_cons_self ..)
    have hgtgt := hsrc.next hgown hgn
    have hgno : g.src.NoRestore g.act := by
      rw [hgact]
      trivial
    have hgsrclast :=
      ((stepped_of_step hgn).changed_of_noRestore hgno).authorityLasts hglast
    have hstart := authority_le_of_run htgt hrun hmid hgsrclast
    rw [hgact] at hgn
    have hadvance := authority_lt_of_setEpoch hsrc hgn hlt hglast
    have hfresh : ∀ q ∈ p.plans, q.authorityGeneration < g.tgt.sched.authority :=
      fun q hq => ((hrecovered q hq).trans hstart).trans_lt hadvance
    refine ⟨hfresh, ?_⟩
    rintro later f rest' rfl hlater hfno k r hnone hr q hq
    obtain ⟨hlaterrun, _, hfn, _⟩ := hrest.split
    have hfstep := stepped_of_step hfn
    have hflast := hmem f (List.mem_cons_of_mem _ (List.mem_append_right _
      (List.mem_cons_self ..)))
    have hkept := authority_le_of_run hgtgt hlaterrun hlater
      ((hfstep.changed_of_noRestore hfno).authorityLasts hflast)
    obtain ⟨_, _, _, _, hcreated, _⟩ := hfstep.stored hfno hnone hr
    rw [hcreated.authority]
    exact (hfresh q hq).trans_le hkept

/-- A scheduled plan is recovered and the epoch moved forward. -/
theorem authority_reissued_scheduled : ∃ es t p q,
    (scheduler Sample.config).Run RestoresOwn (initial Sample.config) es t ∧
    es.map TransitionSystem.Step.act =
      Sample.scheduling ++ [.snapshot, .restore p, .setEpoch ⟨2⟩] ∧
    q ∈ p.plans ∧ q.authorityGeneration < t.sched.authority := by
  have hscheduled : (after Sample.config NoRestore Sample.scheduling).map
      (fun s => (s.sched.epoch, Sample.stateOf ⟨1⟩ s)) = some (⟨1⟩, some .planReady) := by
    decide +kernel
  obtain ⟨es, s, hr, hact, hs⟩ := exists_run_of_after hscheduled
  obtain ⟨hepoch, hstate⟩ := Prod.mk.injEq .. ▸ hs
  obtain ⟨q, hq, _⟩ := Option.map_eq_some_iff.mp hstate
  have hmem : q ∈ s.sched.snapshot.plans := OrderedMap.mem_values_iff.mpr ⟨⟨1⟩, hq⟩
  have hrestored := run_cycled (hr.mono RestoresOwn.of_noRestore)
  have hown : s.cycled.RestoresOwn (.setEpoch ⟨2⟩) := trivial
  have hrun := hrestored.snoc hown rfl
  rw [List.append_assoc _ [_] [_]] at hrun
  refine ⟨_, _, s.sched.snapshot, q, hrun, ?_, hmem, ?_⟩
  · simp only [List.map_append, List.map_cons, List.map_nil, hact, List.append_assoc,
      List.cons_append, List.nil_append]
  · obtain ⟨_, hreissued⟩ := authority_reissued hrun
      fun e _ => e.tgt.sched.authorityLasts_of_le_one (le_refl 1)
    obtain ⟨_, _, _, hnext⟩ := hreissued (es ++ [_]) _ [_] s.sched.snapshot rfl rfl
    have hlt : s.cycled.sched.epoch < ⟨2⟩ := by
      change s.sched.epoch < ⟨2⟩
      rw [hepoch]
      decide
    have hnone : ∀ f ∈ ([] : List (TransitionSystem.Step System Action)),
        f.src.NoRestore f.act := fun _ hf => (List.not_mem_nil hf).elim
    exact (hnext [] _ [] ⟨2⟩ rfl hnone rfl hlt).1 q hmem

/-- A recovery after an epoch change takes epoch and authority back, and a recovery right
after a snapshot goes on with the authority its plans were built with. -/
theorem not_authority_fresh :
    (¬∀ config es t, (scheduler config).Run RestoresOwn (initial config) es t →
      ∀ e ∈ es, e.src.sched.epoch ≤ e.tgt.sched.epoch ∧
        e.src.sched.authority ≤ e.tgt.sched.authority) ∧
    ¬∀ config es t, (scheduler config).Run RestoresOwn (initial config) es t →
      ∀ e ∈ es, ∀ p, e.act = .restore p →
        ∀ q ∈ p.plans, q.authorityGeneration ≠ e.tgt.sched.authority := by
  constructor
  · intro h
    let saved := (initial Sample.config).whole (.initial Sample.config)
      [.saved (SchedulerState.initial Sample.config).snapshot]
    let advanced := saved.whole (saved.sched.setEpoch ⟨2⟩).2 []
    have hsnapshot : (initial Sample.config).RestoresOwn .snapshot := trivial
    have hadvance : saved.RestoresOwn (.setEpoch ⟨2⟩) := trivial
    have hown : advanced.RestoresOwn
        (.restore (SchedulerState.initial Sample.config).snapshot) := List.mem_singleton_self _
    have hsaved : (scheduler Sample.config).Run RestoresOwn (initial Sample.config) _ saved :=
      TransitionSystem.Run.nil.snoc hsnapshot rfl
    have hrun := (hsaved.snoc hadvance (rfl : _ = some advanced)).snoc hown rfl
    obtain ⟨hepoch, _⟩ := h Sample.config _ _ hrun _
      (List.mem_append_right _ (List.mem_singleton_self _))
    exact absurd hepoch (by decide)
  · intro h
    have hscheduled : (after Sample.config NoRestore Sample.scheduling).map
        (fun s => (s.sched.plans.find? ⟨1⟩).map fun p =>
          (p.authorityGeneration, s.sched.authority)) = some (some (⟨1⟩, ⟨1⟩)) := by
      decide +kernel
    obtain ⟨es, s, hr, _, hs⟩ := exists_run_of_after hscheduled
    obtain ⟨q, hq, hauth⟩ := Option.map_eq_some_iff.mp hs
    obtain ⟨hplan, hcurrent⟩ := Prod.mk.injEq .. ▸ hauth
    have hrun := run_cycled (hr.mono RestoresOwn.of_noRestore)
    refine h _ _ _ hrun _ (List.mem_append_right _ (List.mem_singleton_self _)) _ rfl q
      (OrderedMap.mem_values_iff.mpr ⟨⟨1⟩, hq⟩) ?_
    exact hplan.trans hcurrent.symm

end System

end FabricScheduler
