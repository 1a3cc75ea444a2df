import FabricScheduler.Scheduler.History

/-!
# Call numbers and commitment tokens

Every event of a call is logged while the call is open, so a call that its first section
refused has no other event. Under brokers that grant fresh tokens a token names the one
broker call it was granted by.
-/

namespace FabricScheduler

namespace System

variable {config : SchedulerConfig} {s t : System} {a : Action} {k : PlacementPlanId}
  {L : Ledger} {c : Nat} {token : Bytes}
  {es : List (TransitionSystem.Step System Action)}

/-- What a step does to the calls whose events it logs: it begins the call, or it
continues one that is suspended. -/
inductive Numbered (s t : System) (c : Nat) : Prop
  | begun (hc : c = s.calls.fresh) (hcalls : t.calls = s.calls.opened none)
  | continued {old : Call} (hc : s.pending c = some old)

theorem Stepped.numbered (h : Stepped s a t) {e : Event} (hin : e ∈ s.since t) {c : Nat}
    (hc : e.call? = some c) : s.Numbered t c := by
  cases h with
  | scheduled hp | scheduleThrew hp | brokerAnswers hp | brokerThrows hp | commitTooLate hp
  | commitDenied hp | commitGranted hp | fabricAnswers hp | fabricThrows hp
  | handoffVanished hp | handoffFenced hp | handoffDenied hp | handoffLaunches hp
  | handoffThrows hp =>
      cases List.mem_singleton.mp (since_continued .. ▸ hin)
      cases hc
      exact .continued hp
  | releaseReturns hp | releaseThrows hp =>
      rcases List.mem_cons.mp (since_continued .. ▸ hin) with rfl | hlast
      · cases hc
        exact .continued hp
      · cases List.mem_singleton.mp hlast
        cases hc
        exact .continued hp
  | scheduleRefused | commitRefused | handoffRefused =>
      cases List.mem_singleton.mp (since_begun .. ▸ hin)
      cases hc
      exact .begun rfl rfl
  | ingested | snapshot =>
      cases List.mem_singleton.mp (since_whole .. ▸ hin)
      cases hc
  | _ => simp only [since_whole, since_begun, since_continued, List.not_mem_nil] at hin

/-- Calls are only ever added. -/
theorem Stepped.fresh_le (h : Stepped s a t) : s.calls.fresh ≤ t.calls.fresh := by
  cases h <;> simp only [whole, begun, continued, CallTable.fresh_opened,
    CallTable.fresh_resumed] <;> omega

/-- A call that has ended stays so. -/
theorem Stepped.ended (h : Stepped s a t) (hc : s.calls.Ended c) : t.calls.Ended c := by
  cases h with
  | scheduled hp | scheduleThrew hp | brokerAnswers hp | brokerThrows hp | commitTooLate hp
  | commitReleases hp | commitDenied hp | commitGranted hp | releaseReturns hp
  | releaseThrows hp | fabricAnswers hp | fabricThrows hp | handoffVanished hp
  | handoffFenced hp | handoffDenied hp | handoffLaunches hp | handoffThrows hp =>
      exact hc.resumed hp _
  | scheduleRefused | scheduleBegun | commitRefused | commitAsks | handoffRefused
  | handoffAsks => exact hc.opened _
  | _ => exact hc

/-- The calls of logged events have been opened. -/
theorem call_lt_fresh {P : System → Action → Prop} (h : (scheduler config).Reachable P s)
    {e : Event} (he : e ∈ s.log) (hc : e.call? = some c) : c < s.calls.fresh := by
  have hinv := h.invariant
    (fun s => ∀ e ∈ s.log, ∀ c, e.call? = some c → c < s.calls.fresh) ?_ ?_
  · exact hinv e he c hc
  · rintro s rfl e he
    cases he
  · intro u a v _ hn hu e he c hc
    have hstep := stepped_of_step hn
    have hgrow : u.calls.fresh ≤ v.calls.fresh := hstep.fresh_le
    by_cases hold : e ∈ u.log
    · exact lt_of_lt_of_le (hu e hold c hc) hgrow
    · cases hstep.numbered (mem_since_of_step hstep he hold) hc with
      | begun hfresh hcalls =>
          rw [hcalls, CallTable.fresh_opened, hfresh]
          omega
      | continued hp => exact lt_of_lt_of_le (CallTable.lt_fresh_of_pending hp) hgrow

/-- What logs a commit refused by its first section. -/
theorem Stepped.of_commitRefused (h : Stepped s a t) {out : ResourceCommitResult}
    (hin : Event.commitRefused c k out ∈ s.since t) :
    c = s.calls.fresh ∧ out.succeeded = false ∧ t.calls = s.calls.opened none ∧
      t.log = s.log ++ [.commitRefused c k out] := by
  cases h with
  | commitRefused planId hout =>
      cases List.mem_singleton.mp (since_begun .. ▸ hin)
      exact ⟨rfl, hout, rfl, rfl⟩
  | releaseReturns | releaseThrows =>
      rcases List.mem_cons.mp (since_continued .. ▸ hin) with h | h
      · cases h
      · cases List.mem_singleton.mp h
  | _ =>
      simp only [since_whole, since_begun, since_continued, List.mem_cons, List.not_mem_nil,
        or_false, reduceCtorEq] at hin

/-- A commit refused by its first section is over and has logged nothing else. -/
structure RefusedOnly (s : System) (c : Nat) (k : PlacementPlanId)
    (out : ResourceCommitResult) : Prop where
  failed : out.succeeded = false
  ended : s.calls.Ended c
  only : ∀ e ∈ s.log, e.call? = some c → e = .commitRefused c k out

theorem refusedOnly {P : System → Action → Prop} (h : (scheduler config).Reachable P s)
    {out : ResourceCommitResult} (he : Event.commitRefused c k out ∈ s.log) :
    s.RefusedOnly c k out := by
  obtain ⟨s₀, es, rfl, hr⟩ := h
  obtain ⟨before, e, after, rfl, hbefore, _, hstep, hafter, hin⟩ := exists_logs hr he
  have hreach : (scheduler config).Reachable P e.src := ⟨_, before, rfl, hbefore⟩
  obtain ⟨rfl, hout, hcalls, hlog⟩ := hstep.of_commitRefused hin
  have hstart : e.tgt.RefusedOnly e.src.calls.fresh k out := by
    refine ⟨hout, ?_, ?_⟩
    · rw [hcalls]
      refine ⟨?_, ?_⟩
      · rw [CallTable.fresh_opened]
        omega
      · rw [CallTable.pending_opened, if_pos rfl]
    · intro x hx hcall
      rw [hlog] at hx
      rcases List.mem_append.mp hx with hx | hx
      · have hlt := call_lt_fresh hreach hx hcall
        omega
      · exact List.mem_singleton.mp hx
  refine hafter.stable (fun u => u.RefusedOnly e.src.calls.fresh k out) ?_ hstart
  intro u a v _ hn' hu
  have hstep := stepped_of_step hn'
  refine ⟨hout, hstep.ended hu.ended, ?_⟩
  intro x hx hcall
  by_cases hold : x ∈ u.log
  · exact hu.only x hold hcall
  · obtain ⟨hlt, hpending⟩ := hu.ended
    cases hstep.numbered (mem_since_of_step hstep hx hold) hcall with
    | begun hfresh _ => omega
    | continued hp =>
        rw [CallTable.pending] at hpending
        rw [pending, CallTable.pending, hpending] at hp
        cases hp

/-- What logs the grant of a token. -/
theorem Stepped.of_grants (h : Stepped s a t) {e : Event} (hin : e ∈ s.since t)
    (he : e.grants? = some token) :
    ∃ c answer, a = .brokerCommit c answer ∧ answer.succeeded = true ∧
      answer.commitmentToken = token ∧ t.log = s.log ++ [e] := by
  cases h with
  | @brokerAnswers c planId claims hc answer =>
      cases List.mem_singleton.mp (since_continued .. ▸ hin)
      cases hs : answer.succeeded with
      | true =>
          rw [Event.grants?, hs, if_pos rfl] at he
          exact ⟨c, answer, rfl, hs, Option.some.inj he, rfl⟩
      | false =>
          rw [Event.grants?, hs, if_neg Bool.false_ne_true] at he
          cases he
  | releaseReturns | releaseThrows =>
      rcases List.mem_cons.mp (since_continued .. ▸ hin) with rfl | h
      · cases he
      · cases List.mem_singleton.mp h
        cases he
  | ingested | scheduleRefused | scheduled | scheduleThrew | commitRefused | brokerThrows
  | commitTooLate | commitDenied | commitGranted | handoffRefused | fabricAnswers
  | fabricThrows | handoffVanished | handoffFenced | handoffDenied | handoffLaunches
  | handoffThrows | snapshot =>
      simp only [since_whole, since_begun, since_continued, List.mem_singleton] at hin
      cases hin
      cases he
  | _ => simp only [since_whole, since_begun, since_continued, List.not_mem_nil] at hin

/-- Every granted token is non-empty and was granted once. -/
structure TokensFresh (s : System) : Prop where
  nonempty : ∀ e ∈ s.log, ∀ token, e.grants? = some token → token ≠ []
  unique : ∀ e ∈ s.log, ∀ e' ∈ s.log, ∀ token, e.grants? = some token →
    e'.grants? = some token → e = e'

theorem tokensFresh (h : (scheduler config).Reachable GrantsFresh s) : s.TokensFresh := by
  refine h.invariant TokensFresh ?_ ?_
  · rintro s rfl
    exact ⟨fun e he => (List.not_mem_nil he).elim, fun e he => (List.not_mem_nil he).elim⟩
  · intro u a v hP hn hu
    have hstep := stepped_of_step hn
    have hnew : ∀ e ∈ v.log, e ∉ u.log → ∀ token, e.grants? = some token →
        token ≠ [] ∧ token ∉ u.granted ∧ v.log = u.log ++ [e] := by
      intro e he hnot token hgrant
      obtain ⟨c, answer, rfl, hs, rfl, hlog⟩ := hstep.of_grants (mem_since_of_step hstep he hnot) hgrant
      exact ⟨(hP hs).1, (hP hs).2, hlog⟩
    have hgranted : ∀ e ∈ u.log, ∀ token, e.grants? = some token → token ∈ u.granted :=
      fun e he token hgrant => List.mem_filterMap.mpr ⟨e, he, hgrant⟩
    refine ⟨?_, ?_⟩
    · intro e he token hgrant
      by_cases hold : e ∈ u.log
      · exact hu.nonempty e hold token hgrant
      · exact (hnew e he hold token hgrant).1
    · intro e he e' he' token hgrant hgrant'
      by_cases hold : e ∈ u.log <;> by_cases hold' : e' ∈ u.log
      · exact hu.unique e hold e' hold' token hgrant hgrant'
      · exact absurd (hgranted e hold token hgrant) (hnew e' he' hold' token hgrant').2.1
      · exact absurd (hgranted e' hold' token hgrant') (hnew e he hold token hgrant).2.1
      · have hlog := (hnew e he hold token hgrant).2.2
        rw [hlog] at he'
        exact (List.mem_singleton.mp ((List.mem_append.mp he').resolve_left hold')).symm

end System

end FabricScheduler
