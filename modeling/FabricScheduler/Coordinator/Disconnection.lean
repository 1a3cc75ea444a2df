import FabricScheduler.Coordinator.Connection

/-!
# What a lost connection leaves fenced

A thread that loses its connection fences the last boot it read, first in the scheduler and
then in the live set. Every boot registered on the connection is fenced exactly when it is
that boot, or when the thread of another connection fences it.
-/

namespace FabricScheduler

namespace Sample

/-- A registration of a boot. -/
def register (boot : UInt64) : ServiceAction :=
  .receive .register (putU64 1 ++ putU64 boot ++ putString [])

/-- The thread loses its connection and fences its boot. -/
def losing : List ServiceAction :=
  [.lose, .shared (.fenceInsert 0), .shared (.fenceRead 0), .shared (.fenceBump 0), .leave]

/-- A boot is registered, a frame is not read, a greeting is not answered, and the boot is
registered again. -/
def reregistering : List ServiceAction :=
  [register 1, .answer false, .receive .cancel [], .receive .hello [], .answer true,
    register 1, .answer false] ++ losing

/-- Two boots are registered in turn. -/
def registeringTwo : List ServiceAction :=
  [register 1, .answer false, register 2, .answer false] ++ losing

end Sample

/-- A boot that is fenced stays so. -/
theorem SchedulerState.Changed.fencedWorkers_subset {st st' : SchedulerState}
    (h : st.Changed st') : st.fencedWorkers ⊆ st'.fencedWorkers := by
  cases h with
  | fenceWorker bootId => exact Finset.subset_insert bootId st.fencedWorkers
  | scheduled request views snapshot =>
      have hframe := st.scheduleSecond_frame request views snapshot
      exact (congrArg SchedulerState.fencedWorkers hframe :).symm.subset
  | _ => exact Finset.Subset.refl _

namespace Coordinator

variable {config : SchedulerConfig} {s t : Coordinator} {a : CoordinatorAction}
  {boot : WorkerBootId} {c : Nat}

/-- A boot comes into the live set when a fence inserts it. -/
theorem Stepped.fenced_cases (h : Stepped s a t) (hboot : boot ∈ t.fenced) :
    boot ∈ s.fenced ∨ ∃ c, a = .fenceInsert c ∧ s.fences.pending c = some (.fencing boot) := by
  cases h with
  | @fenceInsert c b hc =>
      rcases Finset.mem_insert.mp hboot with rfl | hboot
      · exact Or.inr ⟨c, rfl, hc⟩
      · exact Or.inl hboot
  | _ => exact Or.inl hboot

theorem Stepped.fenced_subset (h : Stepped s a t) : s.fenced ⊆ t.fenced := by
  cases h with
  | @fenceInsert c boot _ => exact Finset.subset_insert boot s.fenced
  | _ => exact Finset.Subset.refl _

/-- Only an insertion changes the live set. -/
theorem Stepped.fenced_eq (h : Stepped s a t) (hne : ∀ c, a ≠ .fenceInsert c) :
    t.fenced = s.fenced := by
  cases h with
  | fenceInsert => exact absurd rfl (hne _)
  | _ => rfl

theorem Stepped.fresh_le (h : Stepped s a t) : s.fences.fresh ≤ t.fences.fresh := by
  cases h with
  | fenceWorker => rw [CallTable.fresh_opened]; exact Nat.le_succ _
  | fenceInsert | fenceRead | fenceBump => rw [CallTable.fresh_resumed]
  | _ => exact le_rfl

/-- A fence is entered for its boot. -/
theorem Stepped.fencing_cases (h : Stepped s a t)
    (hc : t.fences.pending c = some (.fencing boot)) :
    s.fences.pending c = some (.fencing boot) ∨
      c = s.fences.fresh ∧ boot ∈ t.system.sched.fencedWorkers := by
  cases h with
  | fenceWorker hn =>
      obtain rfl := Option.some.inj hn
      rw [CallTable.pending_opened] at hc
      split at hc
      · rename_i hfresh
        obtain rfl := FenceStage.fencing.inj (Option.some.inj hc)
        exact Or.inr ⟨hfresh, Finset.mem_insert_self ..⟩
      · exact Or.inl hc
  | fenceInsert hc₀ | fenceRead hc₀ | fenceBump hc₀ =>
      rcases CallTable.pending_resumed_cases hc₀ hc with ⟨_, hx⟩ | hc
      · cases hx
      · exact Or.inl hc
  | _ => exact Or.inl hc

/-- A fence that is entered goes on to put its boot in the live set. -/
theorem Stepped.fencing_kept (h : Stepped s a t)
    (hc : s.fences.pending c = some (.fencing boot)) :
    t.fences.pending c = some (.fencing boot) ∨ boot ∈ t.fenced := by
  cases h with
  | fenceWorker => exact Or.inl (CallTable.pending_opened_of_pending hc _)
  | @fenceInsert c₀ b hc₀ =>
      by_cases hcc : c = c₀
      · subst hcc
        cases hc.symm.trans hc₀
        exact Or.inr (Finset.mem_insert_self _ _)
      · exact Or.inl (CallTable.pending_resumed_other hc₀ hcc hc _)
  | @fenceRead c₀ b hc₀ | @fenceBump c₀ b _ _ hc₀ =>
      have hne : c ≠ c₀ := by
        rintro rfl
        cases hc.symm.trans hc₀
      exact Or.inl (CallTable.pending_resumed_other hc₀ hne hc _)
  | _ => exact Or.inl hc

/-- An insertion puts the boot of its fence in the live set. -/
theorem mem_fenced_of_fenceInsert (h : s.step (.fenceInsert c) = some t)
    (hc : s.fences.pending c = some (.fencing boot)) : boot ∈ t.fenced := by
  cases stepped_of_step h with
  | served _ _ _ _ hfences => cases hfences
  | fenceInsert hc₀ =>
      cases hc.symm.trans hc₀
      exact Finset.mem_insert_self ..

/-- A fence that is entered is the next call of its kind. -/
theorem pending_fenceWorker (h : s.step (.fenceWorker boot) = some t) :
    t.fences.pending s.fences.fresh = some (.fencing boot) := by
  cases stepped_of_step h with
  | served _ _ _ _ hfences => cases hfences
  | fenceWorker => rw [CallTable.pending_opened, if_pos rfl]

/-- A boot is fenced in the scheduler before it is in the live set. -/
structure FencedFirst (s : Coordinator) : Prop where
  live : ∀ boot ∈ s.fenced, boot ∈ s.system.sched.fencedWorkers
  entered : ∀ c boot, s.fences.pending c = some (.fencing boot) →
    boot ∈ s.system.sched.fencedWorkers

theorem fencedFirst_initial (config : SchedulerConfig) : (initial config).FencedFirst where
  live boot hboot := absurd hboot (Finset.notMem_empty boot)
  entered c boot hc := by
    rw [initial, CallTable.pending_empty] at hc
    cases hc

theorem FencedFirst.stepped (h : s.FencedFirst) (hstep : Stepped s a t) : t.FencedFirst where
  live boot hboot := by
    have hgrows := hstep.changed.fencedWorkers_subset
    rcases hstep.fenced_cases hboot with hboot | ⟨c, _, hc⟩
    · exact hgrows (h.live boot hboot)
    · exact hgrows (h.entered c boot hc)
  entered c boot hc := by
    rcases hstep.fencing_cases hc with hc | ⟨_, hboot⟩
    · exact hstep.changed.fencedWorkers_subset (h.entered c boot hc)
    · exact hboot

end Coordinator

/-- The boot of the last registration whose payload could be read. -/
def lastBoot (actions : List ServiceAction) : Option WorkerBootId :=
  (actions.filterMap ServiceAction.boot?).getLast?

theorem lastBoot_append (actions : List ServiceAction) (a : ServiceAction) :
    lastBoot (actions ++ [a]) = a.boot?.or (lastBoot actions) := by
  rw [lastBoot, lastBoot, List.filterMap_append, List.getLast?_append]
  cases ha : a.boot? with
  | none => simp [ha]
  | some boot => simp [ha]

theorem ServiceAction.boot?_of_isQuiet {a : ServiceAction} (h : a.isQuiet = true) :
    a.boot? = none := by
  cases a with
  | shared => cases h
  | _ => exact Option.isNone_iff_eq_none.mp h

namespace Service

variable {config : SchedulerConfig} {s t : Service} {a : ServiceAction}
  {es : List (TransitionSystem.Step Service ServiceAction)} {boot : WorkerBootId}

/-- The boot the thread holds is the last one it read, and it holds one as soon as it has
registered one. -/
structure Holds (es : List (TransitionSystem.Step Service ServiceAction)) (s : Service) :
    Prop where
  last : lastBoot (es.map TransitionSystem.Step.act) =
    if s.thread.hasBoot then some s.thread.boot else none
  registered : ∀ boot ∈ s.thread.registered, s.thread.hasBoot = true
  registering : ∀ call, s.thread.stage = .handling .register call → s.thread.hasBoot = true

theorem holds_initial (config : SchedulerConfig) : Holds [] (initial config) where
  last := rfl
  registered boot hboot := absurd hboot (Finset.notMem_empty boot)
  registering _ hstage := by cases hstage

theorem Holds.stepped (h : Holds es s) (hstep : Stepped s a t) :
    Holds (es ++ [⟨s, a, t⟩]) t := by
  have hlast : lastBoot ((es ++ [(⟨s, a, t⟩ : TransitionSystem.Step _ _)]).map
      TransitionSystem.Step.act) =
      a.boot?.or (if s.thread.hasBoot then some s.thread.boot else none) := by
    rw [List.map_append, List.map_singleton, lastBoot_append, h.last]
  cases hstep with
  | shared => exact ⟨hlast, h.registered, h.registering⟩
  | registering _ hboot =>
      refine ⟨hlast.trans ?_, fun _ _ => rfl, fun _ _ => rfl⟩
      rw [hboot]
      rfl
  | acknowledged hstage =>
      exact ⟨hlast, fun _ _ => h.registering _ hstage, nofun⟩
  | called hquiet _ hplain | moved hquiet _ hplain =>
      rw [ServiceAction.boot?_of_isQuiet hquiet] at hlast
      refine ⟨hlast, h.registered, ?_⟩
      rintro call rfl
      exact absurd rfl hplain
  | fenced hquiet _ hboot =>
      rw [ServiceAction.boot?_of_isQuiet hquiet] at hlast
      exact ⟨hlast, h.registered, nofun⟩
  | left => exact ⟨hlast, h.registered, nofun⟩

/-- The fence of the thread is of its boot, and has put it in the live set or is about to. -/
structure FencesOwn (s : Service) : Prop where
  fencing : ∀ c lost, s.thread.stage = .fencing c lost → s.thread.hasBoot = true ∧
    c < s.coordinator.fences.fresh ∧
    (∀ boot, s.coordinator.fences.pending c = some (.fencing boot) → boot = s.thread.boot) ∧
    (s.coordinator.fences.pending c = some (.fencing s.thread.boot) ∨
      s.thread.boot ∈ s.coordinator.fenced)
  lost : s.thread.stage = .returned true → s.thread.hasBoot = true →
    s.thread.boot ∈ s.coordinator.fenced

theorem fencesOwn_initial (config : SchedulerConfig) : (initial config).FencesOwn where
  fencing _ _ hstage := by cases hstage
  lost hstage := by cases hstage

private theorem fencesOwn_of_plain (h : s.thread.stage.Plain s.thread.hasBoot) :
    s.FencesOwn where
  fencing c lost hstage := by
    rw [hstage] at h
    exact h.elim
  lost hstage hboot := by
    rw [hstage] at h
    rw [h rfl] at hboot
    cases hboot

theorem FencesOwn.stepped (h : s.FencesOwn) (hstep : Stepped s a t) : t.FencesOwn := by
  cases hstep with
  | shared hn =>
      have hstep := Coordinator.stepped_of_step hn
      refine ⟨fun c lost hstage => ?_, fun hstage hboot => ?_⟩
      · obtain ⟨hboot, hlt, hown, hfence⟩ := h.fencing c lost hstage
        refine ⟨hboot, hlt.trans_le hstep.fresh_le, fun boot hc => ?_, ?_⟩
        · rcases hstep.fencing_cases hc with hc | ⟨rfl, _⟩
          · exact hown boot hc
          · exact absurd hlt (lt_irrefl _)
        · rcases hfence with hc | hlive
          · exact hstep.fencing_kept hc
          · exact Or.inr (hstep.fenced_subset hlive)
      · exact hstep.fenced_subset (h.lost hstage hboot)
  | registering => exact ⟨nofun, nofun⟩
  | acknowledged => exact fencesOwn_of_plain trivial
  | called _ _ hplain | moved _ _ hplain => exact fencesOwn_of_plain hplain
  | fenced _ _ hboot hn =>
      refine ⟨fun c lost hstage => ?_, nofun⟩
      obtain ⟨rfl, _⟩ := ServeStage.fencing.inj hstage
      have hcall := Coordinator.pending_fenceWorker hn
      refine ⟨hboot, ?_, fun boot hc => ?_, Or.inl hcall⟩
      · exact CallTable.lt_fresh_of_pending hcall
      · exact (FenceStage.fencing.inj (Option.some.inj (hcall.symm.trans hc))).symm
  | left hstage hended =>
      refine ⟨nofun, fun hlost hboot => ?_⟩
      obtain ⟨_, _, _, hfence⟩ := h.fencing _ _ hstage
      rcases hfence with hc | hlive
      · rw [hended] at hc
        cases hc
      · exact hlive

/-- The thread of another connection inserts the boot in the live set in the step. -/
def InsertsElsewhere (e : TransitionSystem.Step Service ServiceAction) (boot : WorkerBootId) :
    Prop :=
  ∃ c, e.act = .shared (.fenceInsert c) ∧
    e.src.coordinator.fences.pending c = some (.fencing boot) ∧
    ∀ lost, e.src.thread.stage ≠ .fencing c lost

/-- A boot in the live set was inserted by the thread of another connection, or is the boot
of the thread, which is done with its frames. -/
structure Inserted (es : List (TransitionSystem.Step Service ServiceAction)) (s : Service) :
    Prop where
  elsewhere : ∀ e ∈ es, ∀ boot, InsertsElsewhere e boot → boot ∈ s.coordinator.fenced
  live : ∀ boot ∈ s.coordinator.fenced, (∃ e ∈ es, InsertsElsewhere e boot) ∨
    s.thread.stage.isLeaving = true ∧ s.thread.hasBoot = true ∧ boot = s.thread.boot

theorem inserted_initial (config : SchedulerConfig) : Inserted [] (initial config) where
  elsewhere _ he := absurd he List.not_mem_nil
  live boot hboot := absurd hboot (Finset.notMem_empty boot)

/-- A step of another kind inserts nothing elsewhere and leaves the live set. -/
private theorem Inserted.snoc (h : Inserted es s) (hno : ∀ c, a ≠ .shared (.fenceInsert c))
    (hfenced : t.coordinator.fenced = s.coordinator.fenced)
    (hthread : s.thread.stage.isLeaving = true →
      t.thread.stage.isLeaving = true ∧ t.thread.hasBoot = s.thread.hasBoot ∧
        t.thread.boot = s.thread.boot) : Inserted (es ++ [⟨s, a, t⟩]) t := by
  refine ⟨fun e he boot hinserts => ?_, fun boot hboot => ?_⟩
  · rw [hfenced]
    rcases List.mem_append.mp he with he | he
    · exact h.elsewhere e he boot hinserts
    · obtain rfl := List.mem_singleton.mp he
      obtain ⟨c, hact, _⟩ := hinserts
      exact absurd hact (hno c)
  · rw [hfenced] at hboot
    rcases h.live boot hboot with ⟨e, he, hinserts⟩ | ⟨hleaving, hhas, rfl⟩
    · exact Or.inl ⟨e, List.mem_append_left _ he, hinserts⟩
    · obtain ⟨hleaving', hhas', hboot'⟩ := hthread hleaving
      exact Or.inr ⟨hleaving', hhas'.trans hhas, hboot'.symm⟩

/-- An insertion is one of another connection, or of the boot of the thread. -/
private theorem Inserted.inserted (h : Inserted es s) (hown : s.FencesOwn) {c : Nat}
    {coordinator : Coordinator} (hn : s.coordinator.step (.fenceInsert c) = some coordinator) :
    Inserted (es ++ [⟨s, .shared (.fenceInsert c), { s with coordinator }⟩])
      { s with coordinator } := by
  have hstep := Coordinator.stepped_of_step hn
  refine ⟨fun e he boot hinserts => ?_, fun boot hboot => ?_⟩
  · rcases List.mem_append.mp he with he | he
    · exact hstep.fenced_subset (h.elsewhere e he boot hinserts)
    · obtain rfl := List.mem_singleton.mp he
      obtain ⟨c', hact, hc, _⟩ := hinserts
      obtain rfl := CoordinatorAction.fenceInsert.inj (ServiceAction.shared.inj hact)
      exact Coordinator.mem_fenced_of_fenceInsert hn hc
  · rcases hstep.fenced_cases hboot with hboot | ⟨c', hact, hc⟩
    · rcases h.live boot hboot with ⟨e, he, hinserts⟩ | hthread
      · exact Or.inl ⟨e, List.mem_append_left _ he, hinserts⟩
      · exact Or.inr hthread
    · obtain rfl := CoordinatorAction.fenceInsert.inj hact
      by_cases hmine : ∃ lost, s.thread.stage = .fencing c lost
      · obtain ⟨lost, hstage⟩ := hmine
        obtain ⟨hhas, _, hboot', _⟩ := hown.fencing c lost hstage
        refine Or.inr ⟨?_, hhas, hboot' boot hc⟩
        change s.thread.stage.isLeaving = true
        rw [hstage]
        rfl
      · exact Or.inl ⟨_, List.mem_append_right _ (List.mem_singleton_self _), c, rfl, hc,
          not_exists.mp hmine⟩

theorem Inserted.stepped (h : Inserted es s) (hown : s.FencesOwn) (hstep : Stepped s a t) :
    Inserted (es ++ [⟨s, a, t⟩]) t := by
  have hbusy : s.thread.stage.isLeaving = false → ∀ P : Prop,
      s.thread.stage.isLeaving = true → P := by
    intro hstage P hleaving
    rw [hstage] at hleaving
    cases hleaving
  have hquiet : a.isQuiet = true → ∀ c, a ≠ .shared (.fenceInsert c) := by
    rintro hquiet c rfl
    cases hquiet
  cases hstep with
  | @shared b coordinator hn =>
      by_cases hinsert : ∃ c, b = .fenceInsert c
      · obtain ⟨c, rfl⟩ := hinsert
        exact h.inserted hown hn
      · have hne : ∀ c, b ≠ .fenceInsert c := not_exists.mp hinsert
        refine h.snoc (fun c hact => hne c (ServiceAction.shared.inj hact)) ?_
          fun hleaving => ⟨hleaving, rfl, rfl⟩
        exact (Coordinator.stepped_of_step hn).fenced_eq hne
  | registering hstage => exact h.snoc nofun rfl (hbusy hstage _)
  | acknowledged hstage => exact h.snoc nofun rfl (hbusy (hstage ▸ rfl) _)
  | @called _ call _ _ hq hstage _ hn =>
      refine h.snoc (hquiet hq) ?_ (hbusy hstage _)
      refine (Coordinator.stepped_of_step hn).fenced_eq fun c hact => ?_
      have hfences := call.2
      rw [hact] at hfences
      cases hfences
  | moved hq hstage => exact h.snoc (hquiet hq) rfl (hbusy hstage _)
  | fenced hq hstage _ hn =>
      exact h.snoc (hquiet hq) ((Coordinator.stepped_of_step hn).fenced_eq nofun)
        (hbusy hstage _)
  | left => exact h.snoc nofun rfl fun _ => ⟨rfl, rfl, rfl⟩

/-- The coordinator of a service makes a run of its own. -/
theorem exists_run_coordinator {P : Service → ServiceAction → Prop}
    (h : (service config).Run P s es t) :
    ∃ fs, (FabricScheduler.coordinator config).Run (fun _ _ => True) s.coordinator fs t.coordinator :=
  h.project Service.coordinator fun _ _ _ _ hn =>
    (stepped_of_step hn).coordinator_step.imp id fun ⟨b, hb⟩ => ⟨b, trivial, hb⟩

/-- When a thread has returned after it lost its connection, every boot registered on the
connection is fenced in the scheduler and in the live set exactly when it is the last boot a
registration set or the thread of another connection put it in the live set. -/
theorem registered_fenced_iff {P : Service → ServiceAction → Prop}
    (h : (service config).Run P (initial config) es t)
    (hlost : t.thread.stage = .returned true) :
    (∀ boot ∈ t.thread.registered, boot ∈ t.coordinator.system.sched.fencedWorkers ∧
        boot ∈ t.coordinator.fenced) ↔
      ∀ boot ∈ t.thread.registered,
        lastBoot (es.map TransitionSystem.Step.act) = some boot ∨
          ∃ e ∈ es, InsertsElsewhere e boot := by
  have hholds : Holds es t := h.traced Holds (holds_initial config)
    fun _ _ _ _ _ hn hu => hu.stepped (stepped_of_step hn)
  have hboth : Inserted es t ∧ t.FencesOwn := by
    refine h.traced (fun es u => Inserted es u ∧ u.FencesOwn)
      ⟨inserted_initial config, fencesOwn_initial config⟩ ?_
    rintro fs u a v _ hn ⟨hinserted, hown⟩
    exact ⟨hinserted.stepped hown (stepped_of_step hn), hown.stepped (stepped_of_step hn)⟩
  obtain ⟨hinserted, hown⟩ := hboth
  have hfirst : t.coordinator.FencedFirst := by
    obtain ⟨fs, hfs⟩ := exists_run_coordinator h
    exact hfs.stable Coordinator.FencedFirst
      (fun _ _ _ _ hn hu => hu.stepped (Coordinator.stepped_of_step hn))
      (Coordinator.fencedFirst_initial config)
  constructor
  · intro hfenced boot hboot
    rcases hinserted.live boot (hfenced boot hboot).2 with helsewhere | ⟨_, hhas, rfl⟩
    · exact Or.inr helsewhere
    · refine Or.inl ?_
      rw [hholds.last, if_pos hhas]
  · intro hcondition boot hboot
    have hlive : boot ∈ t.coordinator.fenced := by
      rcases hcondition boot hboot with hlast | ⟨e, he, hinserts⟩
      · have hhas := hholds.registered boot hboot
        rw [hholds.last, if_pos hhas, Option.some.injEq] at hlast
        rw [← hlast]
        exact hown.lost hlost hhas
      · exact hinserted.elsewhere e he boot hinserts
    exact ⟨hfirst.live boot hlive, hlive⟩

/-- A worker that registers again after an error, under the boot it has, is fenced when it
loses its connection. -/
theorem registered_fenced_again : ∃ es t,
    (service Sample.config).Run (fun _ _ => True) (initial Sample.config) es t ∧
    t.thread.stage = .returned true ∧ t.thread.registered = {⟨1⟩} ∧
    ∀ boot ∈ t.thread.registered, boot ∈ t.coordinator.system.sched.fencedWorkers ∧
      boot ∈ t.coordinator.fenced := by
  have hrun : ((service Sample.config).exec (fun _ _ => True) (initial Sample.config)
      Sample.reregistering).map (fun t => (t.thread.stage, t.thread.registered)) =
      some (.returned true, {⟨1⟩}) := by decide +kernel
  obtain ⟨es, t, hr, hact, hobs⟩ := TransitionSystem.exists_run_of_exec hrun
  obtain ⟨hstage, hregistered⟩ := Prod.mk.injEq .. ▸ hobs
  refine ⟨es, t, hr, hstage, hregistered, (registered_fenced_iff hr hstage).mpr ?_⟩
  intro boot hboot
  rw [hregistered, Finset.mem_singleton] at hboot
  rw [hact, hboot]
  exact Or.inl (by decide +kernel)

/-- A boot that is registered before another on the same connection is not fenced when the
connection is lost. -/
theorem registered_not_fenced : ¬∀ config es t,
    (service config).Run (fun _ _ => True) (initial config) es t →
      t.thread.stage = .returned true → ∀ boot ∈ t.thread.registered,
        boot ∈ t.coordinator.system.sched.fencedWorkers ∧ boot ∈ t.coordinator.fenced := by
  intro h
  have hrun : ((service Sample.config).exec (fun _ _ => True) (initial Sample.config)
      Sample.registeringTwo).map (fun t => (t.thread.stage, decide (⟨1⟩ ∈ t.thread.registered),
        decide (⟨1⟩ ∈ t.coordinator.fenced))) = some (.returned true, true, false) := by
    decide +kernel
  obtain ⟨es, t, hr, _, hobs⟩ := TransitionSystem.exists_run_of_exec hrun
  obtain ⟨hstage, hobs⟩ := Prod.mk.injEq .. ▸ hobs
  obtain ⟨hregistered, hfenced⟩ := Prod.mk.injEq .. ▸ hobs
  exact of_decide_eq_false hfenced (h _ es t hr hstage ⟨1⟩ (of_decide_eq_true hregistered)).2

end Service

end FabricScheduler
