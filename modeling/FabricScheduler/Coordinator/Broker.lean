import Mathlib.Data.List.Nodup
import FabricScheduler.Coordinator.Fencing
import FabricScheduler.Scheduler.Conservation

/-!
# The broker of the coordinator

The in-memory broker numbers its tokens and never throws. As long as its counter does not
wrap, what it has granted are the first tokens in order, so that a coordinator's scheduler
meets the contract the results about commits assume of their brokers.
-/

namespace FabricScheduler

/-- The token of the grant with a number. -/
def InMemoryBroker.token (number : Nat) : Bytes := text "tok-" ++ decimal (UInt64.ofNat number)

/-- The tokens of the first grants, in order. -/
def InMemoryBroker.firstTokens (count : Nat) : List Bytes :=
  (List.range count).map fun n => token (n + 1)

theorem InMemoryBroker.token_ne_nil (number : Nat) : token number ≠ [] := by
  have htext : text "tok-" ≠ [] := by decide +kernel
  exact List.append_ne_nil_of_left_ne_nil htext _

/-- Numbers that fit the counter have different tokens. -/
theorem InMemoryBroker.token_inj {m n : Nat} (hm : m < 2 ^ 64) (hn : n < 2 ^ 64)
    (h : token m = token n) : m = n := by
  have hnumber := congrArg UInt64.toNat (decimal_injective (List.append_cancel_left h))
  rwa [UInt64.toNat_ofNat_of_lt' hm, UInt64.toNat_ofNat_of_lt' hn] at hnumber

theorem InMemoryBroker.token_notMem_firstTokens {count : Nat} (h : count + 1 < 2 ^ 64) :
    token (count + 1) ∉ firstTokens count := by
  intro hmem
  obtain ⟨n, hn, htoken⟩ := List.mem_map.mp hmem
  have hlt : n < count := List.mem_range.mp hn
  have heq := token_inj (by omega) h htoken
  omega

theorem InMemoryBroker.nodup_firstTokens {count : Nat} (h : count < 2 ^ 64) :
    (firstTokens count).Nodup := by
  refine List.Nodup.map_on ?_ List.nodup_range
  intro m hm n hn htoken
  have hm' := List.mem_range.mp hm
  have hn' := List.mem_range.mp hn
  have heq := token_inj (by omega) (by omega) htoken
  omega

/-- A commit fails once when it is told to, and grants the next token otherwise. -/
theorem InMemoryBroker.commit_cases (broker : InMemoryBroker) (claims : List ResourceClaim) :
    ((broker.commit claims).1.succeeded = false ∧
      (broker.commit claims).2.nextToken = broker.nextToken) ∨
    ((broker.commit claims).1.succeeded = true ∧
      (broker.commit claims).1.commitmentToken = text "tok-" ++ decimal (broker.nextToken + 1) ∧
      (broker.commit claims).2.nextToken = broker.nextToken + 1) := by
  cases hfail : broker.failNext with
  | true => exact Or.inl (by simp only [commit, hfail, if_pos, and_self])
  | false =>
      exact Or.inr (by simp only [commit, hfail, Bool.false_eq_true, if_false, and_self])

/-- Only the answer of a broker grants a token. -/
theorem System.Stepped.granted_eq {s t : System} {a : Action} (h : s.Stepped a t)
    (ha : ∀ c answer, a ≠ .brokerCommit c answer) : t.granted = s.granted := by
  have hnone : (s.since t).filterMap Event.grants? = [] := by
    refine List.filterMap_eq_nil_iff.mpr fun e he => ?_
    cases hgrant : e.grants? with
    | none => rfl
    | some token =>
        obtain ⟨c, answer, rfl, _⟩ := h.of_grants he hgrant
        exact absurd rfl (ha c answer)
  rw [System.granted, System.log_eq_append_since h.log_grows, List.filterMap_append, hnone,
    List.append_nil, System.granted]

namespace Sample

/-- Two plans are committed, and a worker is fenced in between. -/
def committingTwice : List CoordinatorAction :=
  placing ++ [.submitWorkload (request ⟨2⟩), .consult 1, .submitFinish 1, .commitRequest ⟨1⟩,
    .brokerCommit 2, .fenceWorker ⟨2⟩, .commitFinish 2, .commitRequest ⟨2⟩, .brokerCommit 3]

end Sample

namespace Coordinator

variable {config : SchedulerConfig} {s t : Coordinator} {a : CoordinatorAction}

/-- The counter of the broker does not wrap. -/
def TokensFit (s : Coordinator) : CoordinatorAction → Prop
  | .brokerCommit _ => s.broker.nextToken.toNat + 1 < 2 ^ 64
  | _ => True

instance (s : Coordinator) (a : CoordinatorAction) : Decidable (TokensFit s a) :=
  match a with
  | .brokerCommit _ => Nat.decLt _ _
  | .publish _ | .submitWorkload _ | .consult _ | .submitFinish _ | .commitRequest _
  | .commitFinish _ | .brokerRelease _ | .executionHandoff _ | .authorize _ | .handoffFinish _
  | .revalidate _ _ | .cancel _ | .supersede _ _ | .save | .fenceWorker _ | .fenceInsert _
  | .fenceRead _ | .fenceBump _ => isTrue trivial

/-- What was granted are the first tokens, as many as the broker has counted. -/
def Issued (s : Coordinator) : Prop :=
  s.system.granted = InMemoryBroker.firstTokens s.broker.nextToken.toNat

/-- The scheduler stays where it is or makes a step under the contract of brokers. -/
def MeetsContract (s t : Coordinator) : Prop :=
  t.system = s.system ∨ ∃ b, s.system.BrokerContract b ∧ s.system.step b = some t.system

private theorem meets_of_serve {b : Action} (h : s.serve b = some t)
    (hb : s.system.BrokerContract b) (hgrants : ∀ c answer, b ≠ .brokerCommit c answer)
    (hs : s.Issued) : t.Issued ∧ s.MeetsContract t := by
  obtain ⟨system, hn, rfl⟩ := Option.map_eq_some_iff.mp h
  refine ⟨?_, Or.inr ⟨b, hb, hn⟩⟩
  change system.granted = _
  rw [(System.stepped_of_step hn).granted_eq hgrants]
  exact hs

/-- The broker's answer keeps the contract: its token is the next one. -/
private theorem meets_of_brokerCommit {c : Nat} (h : s.step (.brokerCommit c) = some t)
    (hfit : s.broker.nextToken.toNat + 1 < 2 ^ 64) (hs : s.Issued) :
    t.Issued ∧ s.MeetsContract t := by
  simp only [step] at h
  split at h
  · rename_i planId claims hc
    obtain ⟨system, hn, rfl⟩ := Option.map_eq_some_iff.mp h
    have hsystem : system = s.system.continued c s.system.sched
        (some (.settling planId claims (s.broker.commit claims).1))
        [.brokerCommit c planId claims (s.broker.commit claims).1] := by
      simp only [System.step, hc] at hn
      exact (Option.some.inj hn).symm
    have hgranted : system.granted = s.system.granted ++
        (Event.brokerCommit c planId claims (s.broker.commit claims).1).grants?.toList := by
      rw [hsystem, System.granted, System.continued, List.filterMap_append]
      cases hg : (Event.brokerCommit c planId claims (s.broker.commit claims).1).grants? <;>
        simp only [List.filterMap_cons, List.filterMap_nil, hg, Option.toList] <;> rfl
    rw [Event.grants?] at hgranted
    rcases s.broker.commit_cases claims with ⟨hanswer, hnext⟩ | ⟨hanswer, htoken, hnext⟩
    · rw [hanswer, if_neg Bool.false_ne_true] at hgranted
      refine ⟨?_, Or.inr ⟨.brokerCommit c (s.broker.commit claims).1,
        ⟨fun hsucceeded => ?_, trivial⟩, hn⟩⟩
      · change system.granted = InMemoryBroker.firstTokens (s.broker.commit claims).2.nextToken.toNat
        rw [hgranted, hnext, ← hs]
        exact List.append_nil _
      · rw [hanswer] at hsucceeded
        cases hsucceeded
    · have hcount : (s.broker.nextToken + 1).toNat = s.broker.nextToken.toNat + 1 := by
        rw [UInt64.toNat_add, UInt64.toNat_one, Nat.mod_eq_of_lt hfit]
      have htoken' : (s.broker.commit claims).1.commitmentToken =
          InMemoryBroker.token (s.broker.nextToken.toNat + 1) := by
        rw [htoken, InMemoryBroker.token, ← hcount, UInt64.ofNat_toNat]
      rw [hanswer, if_pos rfl, htoken'] at hgranted
      refine ⟨?_, Or.inr ⟨.brokerCommit c (s.broker.commit claims).1,
        ⟨fun _ => ⟨?_, ?_⟩, trivial⟩, hn⟩⟩
      · change system.granted = InMemoryBroker.firstTokens (s.broker.commit claims).2.nextToken.toNat
        rw [hgranted, hnext, hcount, hs, InMemoryBroker.firstTokens, InMemoryBroker.firstTokens,
          List.range_succ, List.map_append]
        rfl
      · rw [htoken']
        exact InMemoryBroker.token_ne_nil _
      · rw [htoken']
        rw [hs]
        exact InMemoryBroker.token_notMem_firstTokens hfit
  · cases h

theorem meets_of_step (h : s.step a = some t) (hfit : s.TokensFit a) (hs : s.Issued) :
    t.Issued ∧ s.MeetsContract t := by
  have hserved : ∀ {b : Action} {u : Coordinator}, s.serve b = some u →
      s.system.BrokerContract b → (∀ c answer, b ≠ .brokerCommit c answer) →
      u.Issued ∧ s.MeetsContract u := fun h hb hne => meets_of_serve h hb hne hs
  cases a with
  | brokerCommit c => exact meets_of_brokerCommit h hfit hs
  | consult c =>
      simp only [step] at h
      split at h
      · split at h
        · cases h
          exact ⟨hs, Or.inl rfl⟩
        · cases h
      · cases h
  | submitFinish c | authorize c =>
      simp only [step] at h
      split at h
      · first
        | exact hserved h ⟨trivial, trivial⟩ (by rintro _ _ ⟨⟩)
        | split at h
          · exact hserved h ⟨trivial, trivial⟩ (by rintro _ _ ⟨⟩)
          · cases h
      · cases h
  | fenceWorker boot =>
      simp only [step] at h
      obtain ⟨u, hu, rfl⟩ := Option.map_eq_some_iff.mp h
      obtain ⟨hissued, hmeets⟩ := hserved hu ⟨trivial, trivial⟩ (by rintro _ _ ⟨⟩)
      exact ⟨hissued, hmeets⟩
  | fenceInsert c | fenceRead c =>
      simp only [step] at h
      split at h
      · cases h
        exact ⟨hs, Or.inl rfl⟩
      · cases h
  | fenceBump c =>
      simp only [step] at h
      split at h
      · obtain ⟨u, hu, rfl⟩ := Option.map_eq_some_iff.mp h
        obtain ⟨hissued, hmeets⟩ := hserved hu ⟨trivial, trivial⟩ (by rintro _ _ ⟨⟩)
        exact ⟨hissued, hmeets⟩
      · cases h
  | brokerRelease c => exact hserved h ⟨trivial, rfl⟩ (by rintro _ _ ⟨⟩)
  | _ => exact hserved h ⟨trivial, trivial⟩ (by rintro _ _ ⟨⟩)

/-- As long as the counter of its broker does not wrap, every run of the coordinator is a run of
its scheduler with a broker that returns normally and grants a fresh non-empty token on success;
and what was granted are the first tokens, each of them once and in order. -/
theorem broker_contract {es : List (TransitionSystem.Step Coordinator CoordinatorAction)}
    (h : (coordinator config).Run TokensFit (initial config) es t) :
    (∃ fs, (scheduler config).Run System.BrokerContract (System.initial config) fs t.system) ∧
      t.system.granted = InMemoryBroker.firstTokens t.broker.nextToken.toNat ∧
      t.system.granted.Nodup := by
  have hall : t.Issued ∧
      ∃ fs, (scheduler config).Run System.BrokerContract (System.initial config) fs t.system := by
    refine h.stable (fun u => u.Issued ∧ ∃ fs, (scheduler config).Run System.BrokerContract
      (System.initial config) fs u.system) ?_ ⟨rfl, [], .nil⟩
    rintro u a v hfit hn ⟨hissued, fs, hfs⟩
    obtain ⟨hissued', hmeets⟩ := meets_of_step hn hfit hissued
    refine ⟨hissued', ?_⟩
    rcases hmeets with hsame | ⟨b, hb, hstep⟩
    · exact ⟨fs, hsame ▸ hfs⟩
    · exact ⟨_, hfs.snoc hb hstep⟩
  obtain ⟨hissued, hrun⟩ := hall
  refine ⟨hrun, hissued, ?_⟩
  rw [hissued]
  exact InMemoryBroker.nodup_firstTokens (UInt64.toNat_lt _)

/-- Two commits get the first two tokens, although a fence cuts in between. -/
theorem broker_contract_twice : ∃ es t,
    (coordinator Sample.config).Run TokensFit (initial Sample.config) es t ∧
    t.broker.nextToken = 2 ∧ t.system.granted = InMemoryBroker.firstTokens 2 ∧
    ∃ fs, (scheduler Sample.config).Run System.BrokerContract (System.initial Sample.config) fs
      t.system := by
  have hrun : ((coordinator Sample.config).exec TokensFit (initial Sample.config)
      Sample.committingTwice).map (fun u => u.broker.nextToken) = some 2 := by decide +kernel
  obtain ⟨es, t, hr, _, hcount⟩ := TransitionSystem.exists_run_of_exec hrun
  obtain ⟨hfs, hgranted, _⟩ := broker_contract hr
  rw [hcount] at hgranted
  exact ⟨es, t, hr, hcount, hgranted, hfs⟩

end Coordinator

end FabricScheduler
