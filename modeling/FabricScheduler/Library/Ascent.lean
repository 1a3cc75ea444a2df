import Mathlib.Logic.Relation
import Mathlib.Order.WellFounded

/-!
# Links that go up

A relation whose links lead to a larger element, in an order without infinite ascent. Such
links form no cycle, and following them from anywhere ends.
-/

namespace Ascent

variable {α : Type*} [Preorder α] {r : α → α → Prop}

/-- A chain of links that go up goes up. -/
theorem lt_of_transGen (h : ∀ a b, r a b → a < b) {a b : α} (hab : Relation.TransGen r a b) :
    a < b := by
  induction hab with
  | single hr => exact h _ _ hr
  | tail _ hr ih => exact ih.trans (h _ _ hr)

theorem acyclic (h : ∀ a b, r a b → a < b) (a : α) : ¬Relation.TransGen r a a :=
  fun hcycle => lt_irrefl a (lt_of_transGen h hcycle)

/-- Following the links from any element that has a property they keep ends at an element
with the property that has no link. -/
theorem exists_end [WellFoundedGT α] {P : α → Prop} (h : ∀ a b, r a b → a < b)
    (hkeeps : ∀ a b, r a b → P b) {a : α} (ha : P a) :
    ∃ b, Relation.ReflTransGen r a b ∧ P b ∧ ∀ c, ¬r b c := by
  induction a using WellFoundedGT.induction with
  | ind a ih =>
      by_cases hlink : ∃ b, r a b
      · obtain ⟨b, hab⟩ := hlink
        obtain ⟨c, hbc, hc⟩ := ih b (h a b hab) (hkeeps a b hab)
        exact ⟨c, .head hab hbc, hc⟩
      · exact ⟨a, .refl, ha, not_exists.mp hlink⟩

end Ascent
