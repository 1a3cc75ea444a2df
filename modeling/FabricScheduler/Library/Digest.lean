import Mathlib.Data.List.Basic
import Mathlib.Logic.Function.Basic

/-!
# Digests by folding

A digest absorbs a string symbol by symbol. When no step loses anything of what it has
absorbed or of the symbol it absorbs, the substitution of one symbol changes the digest,
whatever follows it.
-/

/-- Two strings of one length that differ at exactly one position. -/
structure DiffersAt {α : Type*} (i : Nat) (xs ys : List α) : Prop where
  length : xs.length = ys.length
  differs : xs[i]? ≠ ys[i]?
  agrees : ∀ j, j ≠ i → xs[j]? = ys[j]?

namespace DiffersAt

variable {α : Type*} {i : Nat} {xs ys : List α}

theorem lt (h : DiffersAt i xs ys) : i < xs.length := by
  by_contra hle
  have hnone : ys[i]? = none := List.getElem?_eq_none (by rw [← h.length]; omega)
  exact h.differs ((List.getElem?_eq_none (by omega)).trans hnone.symm)

/-- Outside the position nothing differs. -/
theorem slice_eq (h : DiffersAt i xs ys) {a n : Nat} (hi : ¬(a ≤ i ∧ i < a + n)) :
    (xs.drop a).take n = (ys.drop a).take n := by
  apply List.ext_getElem?
  intro j
  rw [List.getElem?_take, List.getElem?_take]
  split
  · rw [List.getElem?_drop, List.getElem?_drop]
    exact h.agrees _ (by omega)
  · rfl

/-- A part that holds the position differs at exactly one position. -/
theorem slice (h : DiffersAt i xs ys) {a n : Nat} (hi : a ≤ i ∧ i < a + n) :
    DiffersAt (i - a) ((xs.drop a).take n) ((ys.drop a).take n) where
  length := by
    rw [List.length_take, List.length_take, List.length_drop, List.length_drop, h.length]
  differs := by
    rw [List.getElem?_take_of_lt (by omega), List.getElem?_take_of_lt (by omega),
      List.getElem?_drop, List.getElem?_drop, Nat.add_sub_cancel' hi.1]
    exact h.differs
  agrees := by
    intro j hj
    rw [List.getElem?_take, List.getElem?_take]
    split
    · rw [List.getElem?_drop, List.getElem?_drop]
      exact h.agrees _ (by omega)
    · rfl

end DiffersAt

/-- The substitution of one symbol by another. -/
theorem differsAt_set {α : Type*} {i : Nat} {xs : List α} {a : α} (hi : i < xs.length)
    (hne : xs[i] ≠ a) : DiffersAt i xs (xs.set i a) where
  length := List.length_set.symm
  differs := by
    rw [List.getElem?_set_self hi, List.getElem?_eq_getElem hi]
    exact fun h => hne (Option.some.inj h)
  agrees := fun j hj => (List.getElem?_set_ne hj.symm).symm

section Fold

variable {σ α : Type*} {step : σ → α → σ}

/-- Absorbing a string loses nothing of what was absorbed before. -/
theorem foldl_injective (hstate : ∀ a, Function.Injective fun s => step s a) (l : List α) :
    Function.Injective fun s => l.foldl step s := by
  induction l with
  | nil => exact fun _ _ h => h
  | cons a l ih => exact fun s t h => hstate a (ih h)

/-- The substitution of one symbol changes the digest. -/
theorem foldl_ne_of_differsAt (hstate : ∀ a, Function.Injective fun s => step s a)
    (hsymbol : ∀ s, Function.Injective (step s)) {i : Nat} {xs ys : List α}
    (h : DiffersAt i xs ys) (s : σ) : xs.foldl step s ≠ ys.foldl step s := by
  induction xs generalizing i ys s with
  | nil => exact absurd h.lt (Nat.not_lt_zero i)
  | cons a xs ih =>
      cases ys with
      | nil => exact absurd h.length (Nat.succ_ne_zero _)
      | cons b ys =>
          have hlength := h.length
          have hdiffers := h.differs
          have hagrees := h.agrees
          cases i with
          | zero =>
              have htail : xs = ys := List.ext_getElem? fun j => hagrees (j + 1) (by omega)
              have hab : a ≠ b := fun heq => hdiffers (congrArg some heq)
              rw [List.foldl_cons, List.foldl_cons, htail]
              intro heq
              exact hab (hsymbol s (foldl_injective hstate ys heq))
          | succ i =>
              have hab : a = b := Option.some.inj (hagrees 0 (by omega))
              have htail : DiffersAt i xs ys :=
                ⟨Nat.succ.inj hlength, hdiffers, fun j hj => hagrees (j + 1) (by omega)⟩
              rw [List.foldl_cons, List.foldl_cons, hab]
              exact ih htail (step s b)

end Fold
