import Mathlib.Data.List.Basic

/-!
# Guarded executable transition systems

A system is a step function that is defined exactly where an action is enabled, so the
guard used by a proof is the guard used by an execution. A run records every step with
its source and target, and is restricted to the steps meeting a chosen condition. The
invariant and stability rules below are the only inductions over runs.
-/

/-- An initial condition and a partial step function. -/
structure TransitionSystem (σ α : Type*) where
  /-- The states in which a run may start. -/
  init : σ → Prop
  /-- The state after an enabled action; `none` when the action is not enabled. -/
  next : σ → α → Option σ

namespace TransitionSystem

/-- A recorded step of a run. -/
structure Step (σ α : Type*) where
  /-- The state the step leaves. -/
  src : σ
  /-- The action taken. -/
  act : α
  /-- The state the step enters. -/
  tgt : σ

variable {σ α : Type*} (M : TransitionSystem σ α)

/-- Runs from one state to another whose every step meets the condition `P`. -/
inductive Run (P : σ → α → Prop) (s : σ) : List (Step σ α) → σ → Prop
  | nil : Run P s [] s
  | snoc {t u : σ} {es : List (Step σ α)} {a : α} :
      Run P s es t → P t a → M.next t a = some u → Run P s (es ++ [⟨t, a, u⟩]) u

/-- The states some run from an initial state ends in. -/
def Reachable (P : σ → α → Prop) (s : σ) : Prop :=
  ∃ s₀ es, M.init s₀ ∧ M.Run P s₀ es s

variable {M} {P Q : σ → α → Prop}

/-- Runs under a stronger condition are runs under a weaker one. -/
theorem Run.mono {s t : σ} {es : List (Step σ α)} (h : M.Run P s es t)
    (hPQ : ∀ s a, P s a → Q s a) : M.Run Q s es t := by
  induction h with
  | nil => exact .nil
  | snoc _ hP hn ih => exact .snoc ih (hPQ _ _ hP) hn

/-- A run whose recorded steps all meet a further condition is a run under both. -/
theorem Run.strengthen {s t : σ} {es : List (Step σ α)} (h : M.Run P s es t)
    (Q : σ → α → Prop) (hQ : ∀ e ∈ es, Q e.src e.act) : M.Run (fun s a => P s a ∧ Q s a) s es t := by
  induction h with
  | nil => exact .nil
  | @snoc u v es a hr hP hn ih =>
      have hlast := hQ ⟨u, a, v⟩ (List.mem_append_right _ (List.mem_singleton_self _))
      exact .snoc (ih fun e he => hQ e (List.mem_append_left _ he)) ⟨hP, hlast⟩ hn

/-- Consecutive runs compose. -/
theorem Run.append {s t u : σ} {es fs : List (Step σ α)} (h : M.Run P s es t)
    (h' : M.Run P t fs u) : M.Run P s (es ++ fs) u := by
  induction h' with
  | nil => simpa only [List.append_nil] using h
  | snoc _ hP hn ih => simpa only [List.append_assoc] using ih.snoc hP hn

/-- A run is cut at any of its steps into the run before, the step and the run after. -/
theorem Run.split {s t : σ} {es fs : List (Step σ α)} {e : Step σ α}
    (h : M.Run P s (es ++ e :: fs) t) :
    M.Run P s es e.src ∧ P e.src e.act ∧ M.next e.src e.act = some e.tgt ∧
      M.Run P e.tgt fs t := by
  generalize hl : es ++ e :: fs = l at h
  induction h generalizing fs with
  | nil => simp at hl
  | @snoc t u gs a hr hP hn ih =>
      rcases List.eq_nil_or_concat fs with rfl | ⟨fs', f, rfl⟩
      · obtain ⟨rfl, he⟩ := List.append_inj' hl rfl
        obtain rfl := List.singleton_inj.mp he
        exact ⟨hr, hP, hn, .nil⟩
      · have hl' : (es ++ e :: fs') ++ [f] = gs ++ [⟨t, a, u⟩] := by
          simpa only [List.append_assoc, List.cons_append, List.concat_eq_append] using hl
        obtain ⟨hgs, hf⟩ := List.append_inj' hl' rfl
        obtain rfl := List.singleton_inj.mp hf
        obtain ⟨h₁, h₂, h₃, h₄⟩ := ih hgs
        refine ⟨h₁, h₂, h₃, ?_⟩
        simpa only [List.concat_eq_append] using h₄.snoc hP hn

/-- A run without steps stays where it is. -/
theorem Run.eq_of_nil {s t : σ} (h : M.Run P s [] t) : s = t := by
  generalize hl : ([] : List (Step σ α)) = l at h
  cases h with
  | nil => rfl
  | snoc => simp at hl

/-- A run of given actions starts with a step of the first. -/
theorem Run.uncons {s t : σ} {es : List (Step σ α)} {a : α} {as : List α}
    (h : M.Run P s es t) (hact : es.map Step.act = a :: as) :
    ∃ u fs, P s a ∧ M.next s a = some u ∧ M.Run P u fs t ∧ fs.map Step.act = as := by
  obtain ⟨e, fs, rfl, rfl, hfs⟩ := List.map_eq_cons_iff.mp hact
  have hcut : M.Run P s ([] ++ e :: fs) t := h
  obtain ⟨hnil, hP, hn, hr⟩ := hcut.split
  rw [hnil.eq_of_nil]
  exact ⟨e.tgt, fs, hP, hn, hr, hfs⟩

/-- Every step of a run is an enabled step meeting the condition, reached by a prefix. -/
theorem Run.of_mem {s t : σ} {es : List (Step σ α)} (h : M.Run P s es t) {e : Step σ α}
    (he : e ∈ es) : ∃ before after, es = before ++ e :: after ∧ M.Run P s before e.src ∧
      P e.src e.act ∧ M.next e.src e.act = some e.tgt ∧ M.Run P e.tgt after t := by
  obtain ⟨before, after, rfl⟩ := List.append_of_mem he
  exact ⟨before, after, rfl, h.split⟩

/-- Recorded steps are cut at one of their actions. -/
theorem exists_cut {es : List (Step σ α)} {as bs : List α} {a : α}
    (h : es.map Step.act = as ++ a :: bs) : ∃ before e after, es = before ++ e :: after ∧
      e.act = a ∧ before.map Step.act = as ∧ after.map Step.act = bs := by
  obtain ⟨before, rest, rfl, hbefore, hrest⟩ := List.map_eq_append_iff.mp h
  obtain ⟨e, after, rfl, he, hafter⟩ := List.map_eq_cons_iff.mp hrest
  exact ⟨before, e, after, rfl, he, hbefore, hafter⟩

/-- A property kept by every step of the run is carried from its start to its end. -/
theorem Run.stable {s t : σ} {es : List (Step σ α)} (h : M.Run P s es t) (I : σ → Prop)
    (hstep : ∀ u a v, P u a → M.next u a = some v → I u → I v) (hs : I s) : I t := by
  induction h with
  | nil => exact hs
  | snoc _ hP hn ih => exact hstep _ _ _ hP hn ih

/-- A property of the steps taken so far and the state reached that every further step keeps
holds at the end of the run. -/
theorem Run.traced {s t : σ} {es : List (Step σ α)} (h : M.Run P s es t)
    (I : List (Step σ α) → σ → Prop) (hs : I [] s)
    (hstep : ∀ fs u a v, P u a → M.next u a = some v → I fs u → I (fs ++ [⟨u, a, v⟩]) v) :
    I es t := by
  induction h with
  | nil => exact hs
  | snoc _ hP hn ih => exact hstep _ _ _ _ hP hn ih

/-- When a condition on a step is exactly what the step needs to enter a state with a
property from one with it, every state of a run has the property just when every step
meets the condition. -/
theorem Run.forall_tgt_iff {s t : σ} {es : List (Step σ α)} (h : M.Run P s es t)
    (I : σ → Prop) (C : Step σ α → Prop) (hs : I s)
    (hkeeps : ∀ e, P e.src e.act → M.next e.src e.act = some e.tgt → C e → I e.src → I e.tgt)
    (hneeds : ∀ e, P e.src e.act → M.next e.src e.act = some e.tgt → I e.tgt → C e) :
    (∀ e ∈ es, I e.tgt) ↔ ∀ e ∈ es, C e := by
  constructor
  · intro hI e he
    obtain ⟨_, _, _, _, hP, hn, _⟩ := h.of_mem he
    exact hneeds e hP hn (hI e he)
  · intro hC
    have hall : (∀ e ∈ es, I e.tgt) ∧ I t := by
      induction h with
      | nil => exact ⟨fun e he => (List.not_mem_nil he).elim, hs⟩
      | @snoc u v es a hr hP hn ih =>
          obtain ⟨hbefore, hu⟩ := ih fun e he => hC e (List.mem_append_left _ he)
          have hlast := hC ⟨u, a, v⟩ (List.mem_append_right _ (List.mem_singleton_self _))
          have hv : I v := hkeeps ⟨u, a, v⟩ hP hn hlast hu
          refine ⟨?_, hv⟩
          intro e he
          rcases List.mem_append.mp he with he | he
          · exact hbefore e he
          · rw [List.mem_singleton.mp he]
            exact hv
    exact hall.1

/-- The refinement rule: when every step is one of another system under a map of the states,
or leaves the image where it is, the image of a run is a run. -/
theorem Run.project {τ β : Type*} {N : TransitionSystem τ β} {R : τ → β → Prop} (f : σ → τ)
    (hstep : ∀ u a v, P u a → M.next u a = some v →
      f v = f u ∨ ∃ b, R (f u) b ∧ N.next (f u) b = some (f v))
    {s t : σ} {es : List (Step σ α)} (h : M.Run P s es t) : ∃ fs, N.Run R (f s) fs (f t) := by
  induction h with
  | nil => exact ⟨[], .nil⟩
  | @snoc u v es a hr hP hn ih =>
      obtain ⟨fs, hfs⟩ := ih
      rcases hstep u a v hP hn with hsame | ⟨b, hR, hb⟩
      · rw [hsame]
        exact ⟨fs, hfs⟩
      · exact ⟨_, hfs.snoc hR hb⟩

/-- The rule for deterministic abstractions: when every step moves the image by the operation
read off the step, if there is one, the image of the last state is computed from that of the
first and the operations alone. -/
theorem Run.followed {τ β : Type*} (view : σ → τ) (op : σ → α → Option β) (move : τ → β → τ)
    (hstep : ∀ u a v, P u a → M.next u a = some v →
      view v = ((op u a).map (move (view u))).getD (view u))
    {s t : σ} {es : List (Step σ α)} (h : M.Run P s es t) :
    view t = (es.filterMap fun e => op e.src e.act).foldl move (view s) := by
  induction h with
  | nil => rfl
  | @snoc u v es a hr hP hn ih =>
      rw [hstep u a v hP hn, List.filterMap_append, List.foldl_append, ← ih]
      cases hop : op u a with
      | none => simp only [hop, List.filterMap_cons, List.filterMap_nil, List.foldl_nil,
          Option.map_none, Option.getD_none]
      | some b => simp only [hop, List.filterMap_cons, List.filterMap_nil, List.foldl_cons,
          List.foldl_nil, Option.map_some, Option.getD_some]

theorem Reachable.mono {s : σ} (h : M.Reachable P s) (hPQ : ∀ s a, P s a → Q s a) :
    M.Reachable Q s := by
  obtain ⟨s₀, es, h₀, hr⟩ := h
  exact ⟨s₀, es, h₀, hr.mono hPQ⟩

/-- Reachability is closed under further runs. -/
theorem Reachable.run {s t : σ} {es : List (Step σ α)} (h : M.Reachable P s)
    (hr : M.Run P s es t) : M.Reachable P t := by
  obtain ⟨s₀, es₀, h₀, hr₀⟩ := h
  exact ⟨s₀, es₀ ++ es, h₀, hr₀.append hr⟩

theorem Reachable.next {s t : σ} {a : α} (h : M.Reachable P s) (hP : P s a)
    (hn : M.next s a = some t) : M.Reachable P t :=
  h.run (.snoc .nil hP hn)

/-- The states a run from an initial one goes through are reachable. -/
theorem Run.reachable_tgt {s t : σ} {es : List (Step σ α)} (h : M.Run P s es t)
    (hs : M.init s) {e : Step σ α} (he : e ∈ es) : M.Reachable P e.tgt := by
  obtain ⟨before, _, _, hbefore, hP, hn, _⟩ := h.of_mem he
  exact ⟨s, before ++ [e], hs, hbefore.snoc hP hn⟩

/-- The invariant rule: what holds initially and is kept by every enabled step leaving a
state where it holds, holds in every reachable state. -/
theorem Reachable.invariant {s : σ} (h : M.Reachable P s) (I : σ → Prop)
    (hinit : ∀ s, M.init s → I s)
    (hstep : ∀ u a v, P u a → M.next u a = some v → I u → I v) : I s := by
  obtain ⟨s₀, es, h₀, hr⟩ := h
  exact hr.stable I hstep (hinit s₀ h₀)

section Execution

variable (M) (P) [∀ s a, Decidable (P s a)]

/-- Execute a list of actions, stopping at an action that is disabled or breaks `P`. -/
def exec (s : σ) : List α → Option σ
  | [] => some s
  | a :: rest => if P s a then (M.next s a).bind fun t => exec t rest else none

variable {M} {P}

/-- A completed execution is a run. -/
theorem run_of_exec {s t : σ} {as : List α} (h : M.exec P s as = some t) :
    ∃ es, es.map Step.act = as ∧ M.Run P s es t := by
  induction as generalizing s with
  | nil => exact ⟨[], rfl, Option.some.inj h ▸ .nil⟩
  | cons a rest ih =>
      simp only [exec] at h
      split at h
      · rename_i hP
        obtain ⟨u, hn, hu⟩ := Option.bind_eq_some_iff.mp h
        obtain ⟨es, hm, hr⟩ := ih hu
        refine ⟨⟨s, a, u⟩ :: es, by simp only [List.map_cons, hm], ?_⟩
        exact (Run.nil.snoc hP hn).append hr
      · cases h

/-- Executing a concatenation is executing its parts in turn. -/
theorem exec_append (s : σ) (as bs : List α) :
    M.exec P s (as ++ bs) = (M.exec P s as).bind fun t => M.exec P t bs := by
  induction as generalizing s with
  | nil => rfl
  | cons a rest ih =>
      simp only [List.cons_append, exec]
      split
      · cases M.next s a with
        | none => rfl
        | some u => simp only [Option.bind_some, ih]
      · rfl

/-- An execution that completes with a certain observation is a run of the given actions to
a state with that observation. -/
theorem exists_run_of_exec {β : Type*} {s : σ} {as : List α} {f : σ → β} {b : β}
    (h : (M.exec P s as).map f = some b) :
    ∃ es t, M.Run P s es t ∧ es.map Step.act = as ∧ f t = b := by
  obtain ⟨t, ht, hf⟩ := Option.map_eq_some_iff.mp h
  obtain ⟨es, hact, hr⟩ := run_of_exec ht
  exact ⟨es, t, hr, hact, hf⟩

/-- A completed execution passes through the state its first part ends in. -/
theorem exists_runs_of_exec {β γ : Type*} {s : σ} {as bs : List α} {f : σ → β} {g : σ → γ}
    {b : β} {c : γ} (hf : (M.exec P s as).map f = some b)
    (hg : (M.exec P s (as ++ bs)).map g = some c) :
    ∃ es u fs t, M.Run P s es u ∧ M.Run P u fs t ∧ es.map Step.act = as ∧
      fs.map Step.act = bs ∧ f u = b ∧ g t = c := by
  obtain ⟨u, hu, hfu⟩ := Option.map_eq_some_iff.mp hf
  rw [exec_append, hu, Option.bind_some] at hg
  obtain ⟨fs, t, hr', hfs, hgt⟩ := exists_run_of_exec hg
  obtain ⟨es, hes, hr⟩ := run_of_exec hu
  exact ⟨es, u, fs, t, hr, hr', hes, hfs, hfu, hgt⟩

end Execution

end TransitionSystem
