import Mathlib.Data.List.Chain

/-!
# Trails of a relation

The points entered on the way from one point to another, each of them a link away from the
one before it. What stands before and after a point of a trail is read off the relation.
-/

/-- The points entered on the way from `a` to `b`. -/
structure Trail {α : Type*} (r : α → α → Prop) (a : α) (xs : List α) (b : α) : Prop where
  chain : (a :: xs).IsChain r
  last : (a :: xs).getLast (List.cons_ne_nil a xs) = b

namespace Trail

variable {α : Type*} {r : α → α → Prop} {a b c e p x : α} {xs before after : List α}

theorem nil (a : α) : Trail r a [] a := ⟨List.isChain_singleton a, rfl⟩

/-- A trail is extended by a link from its end. -/
theorem snoc (h : Trail r a xs b) (hr : r b c) : Trail r a (xs ++ [c]) c := by
  constructor
  · rw [← List.cons_append]
    refine h.chain.append (List.isChain_singleton c) ?_
    intro y hy z hz
    rw [List.getLast?_eq_some_getLast (List.cons_ne_nil a xs), h.last] at hy
    obtain rfl := Option.some.inj hy
    obtain rfl := Option.some.inj hz
    exact hr
  · simp only [← List.cons_append, List.getLast_concat]

/-- The last link of a trail that ends at a point it has entered. -/
theorem of_concat (h : Trail r a (xs ++ [c]) b) : c = b ∧ ∃ d, Trail r a xs d ∧ r d c := by
  have hlast := h.last
  have hchain := h.chain
  simp only [← List.cons_append, List.getLast_concat] at hlast hchain
  refine ⟨hlast, _, ⟨hchain.left_of_append, rfl⟩, ?_⟩
  exact hchain.rel_getLast_head_of_append (List.cons_ne_nil a xs) (List.cons_ne_nil c [])

/-- A trail is cut at any point it enters. -/
theorem split (h : Trail r a (before ++ x :: after) b) :
    Trail r a (before ++ [x]) x ∧ Trail r x after b := by
  obtain ⟨hbefore, hafter⟩ := List.isChain_cons_split.mp h.chain
  refine ⟨⟨hbefore, ?_⟩, hafter, ?_⟩
  · simp only [← List.cons_append, List.getLast_concat]
  · rw [← h.last]
    simp only [← List.cons_append, List.getLast_append_of_ne_nil _ (List.cons_ne_nil x after)]

/-- A point that is entered from one other point only has that point before it, unless the
trail starts there. -/
theorem exists_before (h : Trail r a (before ++ x :: after) b) (hx : ∀ y, r y x → y = p)
    (hne : a ≠ p) : ∃ earlier, before = earlier ++ [p] := by
  obtain ⟨_, d, hd, hr⟩ := h.split.1.of_concat
  obtain rfl := hx d hr
  rcases List.eq_nil_or_concat before with rfl | ⟨earlier, y, rfl⟩
  · exact absurd hd.last hne
  · rw [List.concat_eq_append] at hd ⊢
    exact ⟨earlier, by rw [hd.of_concat.1]⟩

/-- A trail along which a measure grows is no longer than the measure has grown. -/
theorem length_le (h : Trail r a xs b) (measure : α → Nat)
    (hr : ∀ x y, r x y → measure x < measure y) : measure a + xs.length ≤ measure b := by
  induction xs generalizing a with
  | nil =>
      obtain rfl : a = b := h.last
      exact Nat.le_refl _
  | cons y ys ih =>
      have hcut : Trail r a ([] ++ y :: ys) b := h
      have hle := ih hcut.split.2
      have hlt := hr a y h.chain.rel
      rw [List.length_cons]
      omega

/-- Nothing is entered from a point without links. -/
theorem eq_nil (h : Trail r a xs b) (hend : ∀ y, ¬r a y) : xs = [] := by
  cases xs with
  | nil => rfl
  | cons y ys => exact absurd h.chain.rel (hend y)

/-- From a point whose links all lead to a point without links, at most that is entered. -/
theorem eq_nil_or_singleton (h : Trail r a xs b) (hto : ∀ y, r a y → y = e)
    (hend : ∀ y, ¬r e y) : xs = [] ∨ xs = [e] := by
  cases xs with
  | nil => exact Or.inl rfl
  | cons y ys =>
      have hcut : Trail r a ([] ++ y :: ys) b := h
      obtain rfl := hto y h.chain.rel
      rw [hcut.split.2.eq_nil hend]
      exact Or.inr rfl

end Trail
