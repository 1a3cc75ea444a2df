import Mathlib.Data.List.Nodup
import Mathlib.Order.Basic

/-!
# Tickets drawn from one counter

Tickets are drawn from a counter one after the other and recorded in lists, one list for
each key. As long as the counter only moves forward, every list increases and no ticket is
recorded twice, whoever drew it.
-/

namespace Tickets

variable {κ τ : Type*} [Preorder τ] {f g : κ → List τ} {next next' : τ}

/-- The recorded tickets increase under every key, lie below the next one, and none is
recorded under two keys. -/
structure Drawn (f : κ → List τ) (next : τ) : Prop where
  increasing : ∀ k, (f k).Pairwise (· < ·)
  below : ∀ k, ∀ n ∈ f k, n < next
  disjoint : ∀ k k', k ≠ k' → (f k).Disjoint (f k')

/-- The counter moves forward and some of the tickets it passes are added to the records. -/
structure Draws (f : κ → List τ) (next : τ) (g : κ → List τ) (next' : τ) : Prop where
  le : next ≤ next'
  exists_fresh : ∃ fresh : κ → List τ, Drawn fresh next' ∧ (∀ k, ∀ n ∈ fresh k, next ≤ n) ∧
    ∀ k, g k = f k ++ fresh k

theorem drawn_nil (next : τ) : Drawn (fun _ : κ => []) next where
  increasing _ := List.Pairwise.nil
  below _ _ hn := (List.not_mem_nil hn).elim
  disjoint _ _ _ := List.disjoint_nil_left _

/-- Drawing further tickets keeps the records in order. -/
theorem Drawn.draws (h : Drawn f next) (hd : Draws f next g next') : Drawn g next' := by
  obtain ⟨hle, fresh, hfresh, habove, hg⟩ := hd
  have hold : ∀ k k', (f k).Disjoint (fresh k') := by
    intro k k' n hn hn'
    exact lt_irrefl n (lt_of_lt_of_le (h.below k n hn) (habove k' n hn'))
  refine ⟨fun k => ?_, fun k n hn => ?_, fun k k' hne => ?_⟩
  · rw [hg, List.pairwise_append]
    refine ⟨h.increasing k, hfresh.increasing k, fun n hn n' hn' => ?_⟩
    exact lt_of_lt_of_le (h.below k n hn) (habove k n' hn')
  · rw [hg, List.mem_append] at hn
    rcases hn with hn | hn
    · exact lt_of_lt_of_le (h.below k n hn) hle
    · exact hfresh.below k n hn
  · rw [hg, hg, List.disjoint_append_left, List.disjoint_append_right,
      List.disjoint_append_right]
    exact ⟨⟨h.disjoint k k' hne, hold k k'⟩, fun n hn hn' => hold k' k hn' hn,
      hfresh.disjoint k k' hne⟩

/-- A counter that moves forward without a record. -/
theorem Draws.unrecorded (hle : next ≤ next') (hg : ∀ k, g k = f k) : Draws f next g next' where
  le := hle
  exists_fresh := ⟨fun _ => [], drawn_nil next', fun _ _ hn => (List.not_mem_nil hn).elim,
    fun k => by rw [hg, List.append_nil]⟩

/-- Tickets recorded under a single key. -/
theorem Draws.single [DecidableEq κ] {k : κ} {l : List τ} (hle : next ≤ next')
    (hl : l.Pairwise (· < ·)) (hbounds : ∀ n ∈ l, next ≤ n ∧ n < next')
    (hg : ∀ k', g k' = f k' ++ if k' = k then l else []) : Draws f next g next' where
  le := hle
  exists_fresh := by
    have hmem : ∀ {k' n}, n ∈ (if k' = k then l else []) → k' = k ∧ n ∈ l := by
      intro k' n hn
      split at hn
      · rename_i hk
        exact ⟨hk, hn⟩
      · exact (List.not_mem_nil hn).elim
    refine ⟨fun k' => if k' = k then l else [], ⟨fun k' => ?_, fun k' n hn => ?_,
      fun k' k'' hne n hn hn' => ?_⟩, fun k' n hn => ?_, hg⟩
    · split
      · exact hl
      · exact List.Pairwise.nil
    · exact (hbounds n (hmem hn).2).2
    · exact hne ((hmem hn).1.trans (hmem hn').1.symm)
    · exact (hbounds n (hmem hn).2).1

/-- The tickets recorded under distinct keys are distinct. -/
theorem Drawn.nodup_flatMap (h : Drawn f next) {keys : List κ} (hkeys : keys.Nodup) :
    (keys.flatMap f).Nodup := by
  rw [List.nodup_flatMap]
  refine ⟨fun k _ => (h.increasing k).imp ne_of_lt, ?_⟩
  exact hkeys.imp fun hne => h.disjoint _ _ hne

end Tickets
