import Mathlib.Order.Interval.Finset.Nat
import FabricScheduler.Library.Tickets
import FabricScheduler.Scheduler.Restoration

/-!
# The representation of the store

Plan ids and event ordinals are drawn from counters, by passes, by single rewrites and by
loops that number the plans they force. As long as the counters do not wrap, every plan lies
under its own id below the next one, the latest-plan index names the largest id of each
request, and no event ordinal is recorded twice.
-/

namespace FabricScheduler

open Tickets

namespace PlacementPlan

/-- The event ordinals in the history of a plan. -/
def ordinals (p : PlacementPlan) : List Nat := p.stateHistory.map fun e => e.2.toNat

/-- A rewrite of a plan records at most one ordinal, the one it was given. -/
def Records (p q : PlacementPlan) (ordinal : UInt64) : Prop :=
  q.ordinals = p.ordinals ∨ q.ordinals = p.ordinals ++ [ordinal.toNat]

theorem records_enter (p : PlacementPlan) (dst : PlacementLifecycleState) (ordinal : UInt64) :
    p.Records (p.enter dst ordinal) ordinal := by
  rw [Records, ordinals, ordinals, enter]
  split
  · exact Or.inr (List.map_append ..)
  · exact Or.inl rfl

theorem records_forceState (p : PlacementPlan) (dst : PlacementLifecycleState)
    (ordinal : UInt64) : p.Records (p.forceState dst ordinal) ordinal := by
  rw [forceState]
  split
  · exact Or.inl rfl
  · exact p.records_enter dst ordinal

/-- The pipeline of a new plan records the four ordinals it consumes. -/
theorem ordinals_pipelined {p : PlacementPlan} (h : p.stateHistory = []) (ordinal : UInt64) :
    (SchedulerState.pipelined p ordinal).ordinals =
      [ordinal.toNat, (ordinal + 1).toNat, (ordinal + 2).toNat, (ordinal + 3).toNat] := by
  simp [SchedulerState.pipelined, enter, ordinals, h, maxPlanHistory]

end PlacementPlan

/-- Short of wrapping, a counter that was advanced is that much larger. -/
private theorem toNat_add_of_le {n : UInt64} {c : Nat} (hc : c < 2 ^ 64)
    (h : n ≤ n + UInt64.ofNat c) : (n + UInt64.ofNat c).toNat = n.toNat + c := by
  have hn := n.toNat_lt
  rw [UInt64.le_iff_toNat_le, UInt64.toNat_add, UInt64.toNat_ofNat'] at h
  rw [UInt64.toNat_add, UInt64.toNat_ofNat']
  omega

namespace SchedulerState

variable {st st' : SchedulerState} {k : PlacementPlanId} {p q : PlacementPlan}

/-- The event ordinals recorded in the plan stored under an id. -/
def ordinalsOf (st : SchedulerState) (k : PlacementPlanId) : List Nat :=
  ((st.plans.find? k).map PlacementPlan.ordinals).getD []

theorem ordinalsOf_eq (h : st.plans.find? k = some p) : st.ordinalsOf k = p.ordinals := by
  rw [ordinalsOf, h, Option.map_some, Option.getD_some]

/-- The plan ids in use are positive and below the next one, and the recorded ordinals are
those of a counter that only moved forward. -/
structure Numbered (st : SchedulerState) : Prop where
  next : 0 < st.nextPlanId
  ids : ∀ k ∈ st.plans.keys, 0 < k.value ∧ k.value < st.nextPlanId
  drawn : Drawn st.ordinalsOf st.nextEventOrdinal.toNat

theorem numbered_initial (config : SchedulerConfig) : (initial config).Numbered where
  next := UInt64.lt_iff_toNat_lt.mpr Nat.one_pos
  ids _ hk := (List.not_mem_nil hk).elim
  drawn := drawn_nil _

/-- There are fewer plans than ids below the next one. -/
theorem Numbered.size_lt (h : st.Numbered) : st.plans.size < st.nextPlanId.toNat := by
  have hnodup : (st.plans.keys.map fun k => k.value.toNat).Nodup :=
    st.plans.nodup_keys.map StrongId.toNat_value_injective
  have hsub : (st.plans.keys.map fun k => k.value.toNat).toFinset ⊆
      Finset.Ico 1 st.nextPlanId.toNat := by
    intro n hn
    obtain ⟨k, hk, rfl⟩ := List.mem_map.mp (List.mem_toFinset.mp hn)
    obtain ⟨hpos, hlt⟩ := h.ids k hk
    rw [UInt64.lt_iff_toNat_lt] at hpos hlt
    exact Finset.mem_Ico.mpr ⟨hpos, hlt⟩
  have hcard := Finset.card_le_card hsub
  rw [List.toFinset_card_of_nodup hnodup, List.length_map, OrderedMap.length_keys,
    Nat.card_Ico] at hcard
  have hpos := h.next
  rw [UInt64.lt_iff_toNat_lt] at hpos
  change 0 < _ at hpos
  omega

/-- Fewer plans are counted than a counter can count. -/
private theorem Numbered.countP_lt (h : st.Numbered) (when : PlacementPlan → Bool) :
    st.plans.values.countP when < 2 ^ 64 := by
  have hsize := h.size_lt
  have hnext := st.nextPlanId.toNat_lt
  have hle := List.countP_le_length (p := when) (l := st.plans.values)
  rw [OrderedMap.length_values] at hle
  omega

/-- A step that rewrites a single plan records its ordinal there or nowhere. -/
private theorem draws_withPlan (hle : st.nextEventOrdinal ≤ st.nextEventOrdinal + 1)
    (hp : st.plans.find? k = some p) (hq : p.Records q st.nextEventOrdinal) :
    Draws st.ordinalsOf st.nextEventOrdinal.toNat (st.withPlan k q).ordinalsOf
      (st.withPlan k q).nextEventOrdinal.toNat := by
  have hnext : (st.withPlan k q).nextEventOrdinal.toNat = st.nextEventOrdinal.toNat + 1 :=
    toNat_add_of_le (by decide) hle
  have hother : ∀ k', k' ≠ k → (st.withPlan k q).ordinalsOf k' = st.ordinalsOf k' := by
    intro k' hk
    rw [ordinalsOf, find?_withPlan_other (Ne.symm hk), ordinalsOf]
  rw [hnext]
  rcases hq with hsame | happended
  · refine .unrecorded (Nat.le_succ _) fun k' => ?_
    by_cases hk : k' = k
    · rw [hk, ordinalsOf_eq find?_withPlan_self, ordinalsOf_eq hp, hsame]
    · exact hother k' hk
  · refine .single (l := [st.nextEventOrdinal.toNat]) (k := k) (Nat.le_succ _)
      (List.pairwise_singleton ..) ?_ fun k' => ?_
    · intro n hn
      rw [List.mem_singleton] at hn
      omega
    · by_cases hk : k' = k
      · rw [hk, if_pos rfl, ordinalsOf_eq find?_withPlan_self, ordinalsOf_eq hp, happended]
      · rw [if_neg hk, List.append_nil, hother k' hk]

/-- What the fencing loop records under an id: nothing, or the number of its plan among
those it forces. -/
private theorem ordinalsOf_forcePlans {when : PlacementPlan → Bool}
    {edit : PlacementPlan → PlacementPlan} (dst : PlacementLifecycleState)
    (hcount : st.nextEventOrdinal.toNat + st.plans.values.countP when < 2 ^ 64)
    (hedit : ∀ p, (edit p).ordinals = p.ordinals) (k : PlacementPlanId) :
    ∃ l, (st.forcePlans when edit dst).ordinalsOf k = st.ordinalsOf k ++ l ∧
      (l = [] ∨ (∃ p, st.plans.find? k = some p ∧ when p = true) ∧
        l = [st.nextEventOrdinal.toNat + (st.plans.before k).countP when]) := by
  have hforced := st.find?_forcePlans_before when edit dst k
  cases hp : st.plans.find? k with
  | none =>
      rw [hp] at hforced
      exact ⟨[], by rw [ordinalsOf, hforced, ordinalsOf, hp]; rfl, Or.inl rfl⟩
  | some p =>
      rw [hp, Option.map_some] at hforced
      rw [ordinalsOf_eq hforced, ordinalsOf_eq hp]
      cases hwhen : when p with
      | false => exact ⟨[], by simp, Or.inl rfl⟩
      | true =>
          have hbefore := (OrderedMap.countP_before_lt when hp hwhen).1
          have hordinal : (st.nextEventOrdinal +
              UInt64.ofNat ((st.plans.before k).countP when)).toNat =
              st.nextEventOrdinal.toNat + (st.plans.before k).countP when := by
            rw [UInt64.toNat_add, UInt64.toNat_ofNat']
            omega
          rw [if_pos rfl, ← hedit p, ← hordinal]
          rcases (edit p).records_forceState dst (st.nextEventOrdinal +
            UInt64.ofNat ((st.plans.before k).countP when)) with hsame | happended
          · exact ⟨[], by rw [hsame, List.append_nil], Or.inl rfl⟩
          · exact ⟨_, happended, Or.inr ⟨⟨p, rfl, hwhen⟩, rfl⟩⟩

/-- The fencing loop numbers the plans it forces. -/
private theorem draws_forcePlans {when : PlacementPlan → Bool}
    {edit : PlacementPlan → PlacementPlan} {dst : PlacementLifecycleState}
    (hcount : st.plans.values.countP when < 2 ^ 64)
    (hle : st.nextEventOrdinal ≤ (st.forcePlans when edit dst).nextEventOrdinal)
    (hedit : ∀ p, (edit p).ordinals = p.ordinals) :
    Draws st.ordinalsOf st.nextEventOrdinal.toNat (st.forcePlans when edit dst).ordinalsOf
      (st.forcePlans when edit dst).nextEventOrdinal.toNat := by
  have hnext := st.nextEventOrdinal_forcePlans when edit dst
  rw [hnext] at hle
  have htotal := toNat_add_of_le hcount hle
  have hbound := (st.nextEventOrdinal + UInt64.ofNat (st.plans.values.countP when)).toNat_lt
  rw [htotal] at hbound
  rw [hnext, htotal]
  choose fresh hfresh hcases using ordinalsOf_forcePlans dst hbound hedit
  have hmem : ∀ k n, n ∈ fresh k → ∃ p, st.plans.find? k = some p ∧ when p = true ∧
      n = st.nextEventOrdinal.toNat + (st.plans.before k).countP when := by
    intro k n hn
    rcases hcases k with hnil | ⟨⟨p, hp, hwhen⟩, hsingle⟩
    · rw [hnil] at hn
      cases hn
    · rw [hsingle, List.mem_singleton] at hn
      exact ⟨p, hp, hwhen, hn⟩
  refine ⟨Nat.le_add_right .., fresh, ⟨fun k => ?_, fun k n hn => ?_, ?_⟩, ?_, hfresh⟩
  · rcases hcases k with hnil | ⟨_, hsingle⟩
    · rw [hnil]
      exact List.Pairwise.nil
    · rw [hsingle]
      exact List.pairwise_singleton ..
  · obtain ⟨p, hp, hwhen, rfl⟩ := hmem k n hn
    exact Nat.add_lt_add_left (OrderedMap.countP_before_lt when hp hwhen).1 _
  · intro k k' hne n hn hn'
    obtain ⟨p, hp, hwhen, rfl⟩ := hmem k n hn
    obtain ⟨p', hp', hwhen', heq⟩ := hmem k' _ hn'
    rcases lt_or_gt_of_ne hne with hlt | hlt
    · have hcount := (OrderedMap.countP_before_lt when hp hwhen).2 k' hlt
      omega
    · have hcount := (OrderedMap.countP_before_lt when hp' hwhen').2 k hlt
      omega
  · intro k n hn
    obtain ⟨_, _, _, rfl⟩ := hmem k n hn
    exact Nat.le_add_right ..

/-- No plan is stored under the next id. -/
theorem Numbered.find?_next (h : st.Numbered) : st.plans.find? ⟨st.nextPlanId⟩ = none := by
  cases hnext : st.plans.find? ⟨st.nextPlanId⟩ with
  | none => rfl
  | some p =>
      have hself := (h.ids _ (OrderedMap.mem_keys_iff.mpr ⟨p, hnext⟩)).2
      exact absurd hself (UInt64.lt_irrefl st.nextPlanId)

/-- A pass records the four ordinals it consumes in the plan it stores. -/
private theorem draws_scheduled (h : st.Numbered) (request : SchedulingRequest)
    (views : ScheduleViews) (snapshot : List Candidate)
    (hle : st.nextEventOrdinal ≤
      (st.scheduleSecond request views snapshot).2.nextEventOrdinal) :
    Draws st.ordinalsOf st.nextEventOrdinal.toNat
      (st.scheduleSecond request views snapshot).2.ordinalsOf
      (st.scheduleSecond request views snapshot).2.nextEventOrdinal.toNat := by
  cases hrank : rankSnapshot st.rankOptions request views snapshot with
  | nil =>
      rw [scheduleSecond_of_nil hrank]
      exact .unrecorded le_rfl fun _ => rfl
  | cons winner others =>
      rw [scheduleSecond_of_cons hrank] at hle ⊢
      have hfour : (st.nextEventOrdinal + 4).toNat = st.nextEventOrdinal.toNat + 4 :=
        toNat_add_of_le (by decide) hle
      have hbound := (st.nextEventOrdinal + 4).toNat_lt
      have hordinals := PlacementPlan.ordinals_pipelined (p := st.buildPlan request views
        (rejectSnapshot st.rankOptions request views snapshot) winner others) rfl
        st.nextEventOrdinal
      have hstep : ∀ c : UInt64, c.toNat < 4 →
          (st.nextEventOrdinal + c).toNat = st.nextEventOrdinal.toNat + c.toNat := by
        intro c hc
        rw [UInt64.toNat_add]
        omega
      rw [hstep 1 (by decide), hstep 2 (by decide), hstep 3 (by decide)] at hordinals
      change _ = [_, _ + 1, _ + 2, _ + 3] at hordinals
      change Draws _ _ _ (st.nextEventOrdinal + 4).toNat
      rw [hfour]
      refine .single (k := ⟨st.nextPlanId⟩) (Nat.le_add_right _ _) ?_ ?_
        (l := [st.nextEventOrdinal.toNat, st.nextEventOrdinal.toNat + 1,
          st.nextEventOrdinal.toNat + 2, st.nextEventOrdinal.toNat + 3]) fun k => ?_
      · simp
      · simp
      · rw [ordinalsOf, ordinalsOf]
        simp only [OrderedMap.find?_emplace_of_none _ h.find?_next]
        split
        · rename_i hk
          rw [hk, h.find?_next]
          exact hordinals
        · rw [List.append_nil]

/-- Whatever a change records was drawn from the counter. -/
private theorem Numbered.draws (h : st.Numbered) (hc : st.Changed st')
    (hle : st.nextEventOrdinal ≤ st'.nextEventOrdinal) :
    Draws st.ordinalsOf st.nextEventOrdinal.toNat st'.ordinalsOf
      st'.nextEventOrdinal.toNat := by
  have hle' := UInt64.le_iff_toNat_le.mp hle
  cases hc with
  | advanced => exact draws_forcePlans (h.countP_lt _) hle fun _ => rfl
  | cancel => exact draws_forcePlans (h.countP_lt _) hle fun _ => rfl
  | supersede => exact draws_forcePlans (h.countP_lt _) hle fun _ => rfl
  | scheduled request views snapshot => exact draws_scheduled h request views snapshot hle
  | @asked k p dst hp => exact draws_withPlan hle hp (p.records_enter dst _)
  | @granted k p claims hp =>
      exact draws_withPlan hle hp
        (({ p with hasCommitmentEvidence := true } : PlacementPlan).records_enter .committed _)
  | @launched k p hp => exact draws_withPlan hle hp (p.records_forceState .active _)
  | @withdrawn k p hp => exact draws_withPlan hle hp (p.records_forceState _ _)
  | _ => exact .unrecorded hle' fun _ => rfl

/-- A change that does not wrap a counter keeps ids and ordinals in order. -/
theorem Numbered.changed (h : st.Numbered) (hc : st.Changed st')
    (hid : st.nextPlanId ≤ st'.nextPlanId) (hle : st.nextEventOrdinal ≤ st'.nextEventOrdinal) :
    st'.Numbered where
  next := UInt64.lt_of_lt_of_le h.next hid
  ids k hk := by
    rcases hc.keys_cases with ⟨hkeys, hnext, _⟩ | ⟨request, views, snapshot, rfl⟩
    · rw [hnext]
      exact h.ids k (hkeys ▸ hk)
    · cases hrank : rankSnapshot st.rankOptions request views snapshot with
      | nil =>
          rw [scheduleSecond_of_nil hrank] at hk ⊢
          exact h.ids k hk
      | cons winner others =>
          rw [scheduleSecond_of_cons hrank] at hk hid ⊢
          have hone : (st.nextPlanId + 1).toNat = st.nextPlanId.toNat + 1 :=
            toNat_add_of_le (by decide) hid
          obtain ⟨q, hq⟩ := OrderedMap.mem_keys_iff.mp hk
          rw [OrderedMap.find?_emplace_of_none _ h.find?_next] at hq
          change _ ∧ k.value < st.nextPlanId + 1
          rw [UInt64.lt_iff_toNat_lt (b := st.nextPlanId + 1), hone]
          split at hq
          · rename_i hself
            rw [hself]
            exact ⟨h.next, Nat.lt_succ_self _⟩
          · obtain ⟨hpos, hlt⟩ := h.ids k (OrderedMap.mem_keys_iff.mpr ⟨q, hq⟩)
            exact ⟨hpos, (UInt64.lt_iff_toNat_lt.mp hlt).trans (Nat.lt_succ_self _)⟩
  drawn := h.drawn.draws (h.draws hc hle)

/-- A recovery from a snapshot that does not wrap the ordinals keeps them in order. -/
theorem Numbered.restore {st₀ : SchedulerState} (h : st₀.Numbered) (hdurable : st₀.Durable)
    (hle : st₀.nextEventOrdinal ≤ (st.restore st₀.snapshot).nextEventOrdinal) :
    (st.restore st₀.snapshot).Numbered where
  next := h.next
  ids k hk := by
    rw [hdurable.keys_restore st] at hk
    exact h.ids k hk
  drawn := by
    rw [hdurable.restore_eq st] at hle ⊢
    have hdraws := @draws_forcePlans (st.recovered st₀) _ _ _ (h.countP_lt _) hle fun _ => rfl
    exact h.drawn.draws hdraws

/-- In plans of increasing ids the index names the largest id of each request. -/
theorem find?_rebuildLatest {plans : List PlacementPlan}
    (hsorted : (plans.map PlacementPlan.planId).Pairwise (· < ·))
    (request : SchedulingRequestId) :
    ((∃ k, (rebuildLatest plans).find? request = some k) ↔
        ∃ p ∈ plans, p.requestId = request) ∧
      ∀ k, (rebuildLatest plans).find? request = some k →
        (∃ p ∈ plans, p.requestId = request ∧ p.planId = k) ∧
        ∀ p ∈ plans, p.requestId = request → p.planId ≤ k := by
  induction plans using List.reverseRecOn with
  | nil =>
      refine ⟨⟨?_, ?_⟩, fun k hk => ?_⟩
      · rintro ⟨k, hk⟩
        cases hk
      · rintro ⟨p, hp, _⟩
        cases hp
      · cases hk
  | append_singleton plans q ih =>
      rw [List.map_append, List.pairwise_append] at hsorted
      obtain ⟨hplans, _, hlast⟩ := hsorted
      have hbelow : ∀ p ∈ plans, p.planId < q.planId := fun p hp =>
        hlast _ (List.mem_map_of_mem hp) _ (List.mem_singleton_self _)
      obtain ⟨hindexed, hlatest⟩ := ih hplans
      rw [rebuildLatest_append hbelow]
      simp only [OrderedMap.find?_insert, List.mem_append, List.mem_singleton]
      by_cases hr : request = q.requestId
      · subst hr
        refine ⟨⟨fun _ => ⟨q, Or.inr rfl, rfl⟩, fun _ => ⟨q.planId, if_pos rfl⟩⟩, ?_⟩
        intro k hk
        rw [if_pos rfl] at hk
        obtain rfl := Option.some.inj hk
        refine ⟨⟨q, Or.inr rfl, rfl, rfl⟩, ?_⟩
        rintro p (hp | rfl) _
        · exact (hbelow p hp).le
        · exact le_rfl
      · have hold : ∀ p, (p ∈ plans ∨ p = q) → p.requestId = request → p ∈ plans := by
          rintro p (hp | rfl) hreq
          · exact hp
          · exact absurd hreq.symm hr
        simp only [if_neg hr]
        refine ⟨hindexed.trans ⟨?_, ?_⟩, fun k hk => ?_⟩
        · exact fun ⟨p, hp, hreq⟩ => ⟨p, Or.inl hp, hreq⟩
        · exact fun ⟨p, hp, hreq⟩ => ⟨p, hold p hp hreq, hreq⟩
        · obtain ⟨⟨p, hp, hreq, hid⟩, hle⟩ := hlatest k hk
          exact ⟨⟨p, Or.inl hp, hreq, hid⟩, fun p hp hreq => hle p (hold p hp hreq) hreq⟩

/-- The representation invariant of the store: every plan is stored under its own id, which
is positive and below the next one; the index names a plan of each request that has one, the
one with the largest id; and the event ordinals in all histories are distinct, below the next
one, and increasing within each history. -/
structure Consistent (st : SchedulerState) : Prop where
  plans : ∀ k p, st.plans.find? k = some p →
    p.planId = k ∧ 1 ≤ k.value ∧ k.value < st.nextPlanId
  indexed : ∀ request, (∃ k, st.latestPlanByRequest.find? request = some k) ↔
    ∃ k p, st.plans.find? k = some p ∧ p.requestId = request
  latest : ∀ request k, st.latestPlanByRequest.find? request = some k →
    (∃ p, st.plans.find? k = some p ∧ p.requestId = request) ∧
      ∀ k' p, st.plans.find? k' = some p → p.requestId = request → k' ≤ k
  distinct : (st.plans.values.flatMap fun p => p.stateHistory.map Prod.snd).Nodup
  below : ∀ k p, st.plans.find? k = some p → ∀ e ∈ p.stateHistory, e.2 < st.nextEventOrdinal
  increasing : ∀ k p, st.plans.find? k = some p →
    p.stateHistory.Pairwise fun e e' => e.2 < e'.2

/-- The ordinals recorded in all histories, as those recorded under each id. -/
private theorem map_toNat_histories (st : SchedulerState) :
    (st.plans.values.flatMap fun p => p.stateHistory.map Prod.snd).map UInt64.toNat =
      st.plans.keys.flatMap st.ordinalsOf := by
  have hkeys : st.plans.keys.flatMap st.ordinalsOf =
      (st.plans.keys.map st.plans.find?).flatMap fun o =>
        (o.map PlacementPlan.ordinals).getD [] := by
    rw [List.flatMap_map]
    rfl
  rw [hkeys, OrderedMap.map_find?_keys, List.flatMap_map, List.map_flatMap]
  congr 1
  funext p
  exact List.map_map ..

/-- The plans of a durable state lie in the order of their ids. -/
theorem Durable.sorted (h : st.Durable) :
    (st.plans.values.map PlacementPlan.planId).Pairwise (· < ·) := by
  rw [OrderedMap.map_values PlacementPlan.planId fun k p hp => (h.plans k p hp).1]
  exact List.pairwise_map.mpr st.plans.sorted

theorem Numbered.consistent (h : st.Numbered) (hdurable : st.Durable) (hindex : st.Indexed) :
    st.Consistent := by
  have hid : ∀ k p, st.plans.find? k = some p → p.planId = k := fun k p hp =>
    (hdurable.plans k p hp).1
  have hlatest : st.latestPlanByRequest = rebuildLatest st.plans.values := by
    have hsize := h.size_lt
    have hbound := st.nextPlanId.toNat_lt
    exact hindex (by omega)
  have hindexed := fun request => find?_rebuildLatest hdurable.sorted request
  rw [← hlatest] at hindexed
  refine ⟨fun k p hp => ?_, fun request => ?_, fun request k hk => ?_, ?_, fun k p hp e he => ?_,
    fun k p hp => ?_⟩
  · obtain ⟨hpos, hlt⟩ := h.ids k (OrderedMap.mem_keys_iff.mpr ⟨p, hp⟩)
    refine ⟨hid k p hp, ?_, hlt⟩
    rw [UInt64.lt_iff_toNat_lt] at hpos
    exact UInt64.le_iff_toNat_le.mpr hpos
  · rw [(hindexed request).1]
    constructor
    · rintro ⟨p, hp, hreq⟩
      obtain ⟨k, hk⟩ := OrderedMap.mem_values_iff.mp hp
      exact ⟨k, p, hk, hreq⟩
    · rintro ⟨k, p, hp, hreq⟩
      exact ⟨p, OrderedMap.mem_values_iff.mpr ⟨k, hp⟩, hreq⟩
  · obtain ⟨⟨p, hp, hreq, rfl⟩, hle⟩ := (hindexed request).2 k hk
    obtain ⟨k', hk'⟩ := OrderedMap.mem_values_iff.mp hp
    refine ⟨⟨p, by rw [hid k' p hk', hk'], hreq⟩, fun j q hq hqreq => ?_⟩
    rw [← hid j q hq]
    exact hle q (OrderedMap.mem_values_iff.mpr ⟨j, hq⟩) hqreq
  · apply List.Nodup.of_map UInt64.toNat
    rw [map_toNat_histories]
    exact h.drawn.nodup_flatMap st.plans.nodup_keys
  · have hmem : e.2.toNat ∈ st.ordinalsOf k := by
      rw [ordinalsOf_eq hp]
      exact List.mem_map_of_mem he
    exact UInt64.lt_iff_toNat_lt.mpr (h.drawn.below k _ hmem)
  · have hincreasing := h.drawn.increasing k
    rw [ordinalsOf_eq hp, PlacementPlan.ordinals, List.pairwise_map] at hincreasing
    exact hincreasing.imp UInt64.lt_iff_toNat_lt.mpr

/-- The plan a pass returns is the one it stored, under an id that was not in use. -/
theorem Numbered.scheduleSecond_stored (h : st.Numbered) {request : SchedulingRequest}
    {views : ScheduleViews} {snapshot : List Candidate} {d : PlacementDecision}
    (hd : (st.scheduleSecond request views snapshot).1 = .ok d) (hplan : d.producedPlan = true) :
    st.plans.find? d.plan.planId = none ∧
      (st.scheduleSecond request views snapshot).2.plans.find? d.plan.planId =
        some d.plan := by
  obtain ⟨winner, others, hrank, _, hstored⟩ := exists_storedPlan_of_producedPlan hd hplan
  have hid : (st.storedPlan request views snapshot winner others).planId = ⟨st.nextPlanId⟩ := rfl
  rw [hstored, scheduleSecond_of_cons hrank]
  simp only [hid, OrderedMap.find?_emplace_of_none _ h.find?_next, ite_true]
  exact ⟨h.find?_next, trivial⟩

end SchedulerState

namespace System

variable {config : SchedulerConfig} {s : System}

/-- No counter wraps in the step: the next plan id and the next event ordinal do not move
back, and those of a recovery do not move back behind its snapshot. -/
def Unwrapped (s : System) (a : Action) : Prop :=
  match a with
  | .restore p => p.nextEventOrdinal ≤ (s.sched.restore p).nextEventOrdinal
  | a => ∀ t ∈ s.step a, s.sched.nextPlanId ≤ t.sched.nextPlanId ∧
      s.sched.nextEventOrdinal ≤ t.sched.nextEventOrdinal

instance (s : System) (a : Action) : Decidable (s.Unwrapped a) :=
  match a with
  | .restore _ => inferInstanceAs (Decidable (_ ≤ _))
  | .setEpoch _ | .fenceWorker _ | .fenceSource _ | .ingestCandidate _ | .scheduleBegin _
  | .scheduleFinish _ _ | .commitBegin _ | .brokerCommit _ _ | .commitFinish _
  | .brokerRelease _ _ | .handoffBegin _ | .authorize _ _ | .handoffFinish _ | .unwind _
  | .revalidate _ _ | .cancel _ | .supersede _ _ _ | .snapshot =>
      inferInstanceAs (Decidable (∀ t ∈ step s _, _ ∧ _))

/-- A recovery reads back what this scheduler saved, and no counter wraps. -/
def RestoresUnwrapped (s : System) (a : Action) : Prop := s.RestoresOwn a ∧ s.Unwrapped a

private theorem numbered_of_reachable (h : (scheduler config).Reachable RestoresUnwrapped s) :
    s.sched.Numbered := by
  refine (invariant_of_permitted h (fun _ _ hown => hown.1) SchedulerState.Numbered
    (SchedulerState.numbered_initial config) ?_ ?_).1
  · rintro u a v ⟨_, hunwrapped⟩ hn hno _ hc hnumbered
    have hle : u.sched.nextPlanId ≤ v.sched.nextPlanId ∧
        u.sched.nextEventOrdinal ≤ v.sched.nextEventOrdinal := by
      cases a with
      | restore p => exact hno.elim
      | _ => exact hunwrapped v hn
    exact hnumbered.changed hc hle.1 hle.2
  · rintro u st₀ ⟨_, hunwrapped⟩ hdurable hnumbered
    exact hnumbered.restore hdurable hunwrapped

/-- In every state that the sections of all operations lead to, with recoveries of own
snapshots and short of wrapping a counter, the store is consistent, and the plan that a pass
returns is the one it stores, under an id that was not in use. -/
theorem consistent_of_reachable (h : (scheduler config).Reachable RestoresUnwrapped s) :
    s.sched.Consistent ∧
      ∀ request views snapshot d, (s.sched.scheduleSecond request views snapshot).1 = .ok d →
        d.producedPlan = true → s.sched.plans.find? d.plan.planId = none ∧
          (s.sched.scheduleSecond request views snapshot).2.plans.find? d.plan.planId =
            some d.plan := by
  have hown := h.mono fun _ _ hboth => hboth.1
  have hnumbered := numbered_of_reachable h
  refine ⟨hnumbered.consistent (recoverable hown).durable (indexed_of_reachable hown), ?_⟩
  intro request views snapshot d hd hplan
  exact hnumbered.scheduleSecond_stored hd hplan

/-- A plan that is scheduled, committed and launched records eight ordinals in a consistent
store. -/
theorem consistent_of_reachable_launched :
    ∃ s, (scheduler Sample.config).Reachable RestoresUnwrapped s ∧
      (s.sched.plans.find? ⟨1⟩).map (fun p => p.stateHistory.map Prod.snd) =
        some [1, 2, 3, 4, 5, 6, 7, 8] ∧ s.sched.Consistent := by
  have hlaunched : (after Sample.config (fun s a => s.NoRestore a ∧ s.Unwrapped a)
      Sample.launching).map (fun s =>
        (s.sched.plans.find? ⟨1⟩).map fun p => p.stateHistory.map Prod.snd) =
      some (some [1, 2, 3, 4, 5, 6, 7, 8]) := by decide +kernel
  obtain ⟨es, s, hr, _, hs⟩ := exists_run_of_after hlaunched
  have hreach : (scheduler Sample.config).Reachable RestoresUnwrapped s :=
    (reachable_of_run hr).mono fun u a hboth => ⟨RestoresOwn.of_noRestore u a hboth.1, hboth.2⟩
  exact ⟨s, hreach, hs, (consistent_of_reachable hreach).1⟩

end System

end FabricScheduler
