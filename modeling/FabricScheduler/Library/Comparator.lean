import Mathlib.Data.List.Sort
import Mathlib.Data.Prod.Lex

/-!
# Comparators that compare keys

A boolean comparator that agrees with the strict order of a key orders the elements with
distinct keys strictly and totally. A list of such elements has one sorted arrangement, so
it does not matter which algorithm sorts it or in what order it arrives.
-/

variable {α β κ κ' : Type*}

/-- On the elements meeting `S` the comparator compares their keys. -/
def Compares [LT κ] (comes : α → α → Bool) (key : α → κ) (S : α → Prop) : Prop :=
  ∀ ⦃a⦄, S a → ∀ ⦃b⦄, S b → (comes a b = true ↔ key a < key b)

namespace Compares

section Chain

variable [LinearOrder κ] [LinearOrder κ']

/-- One link of a tie-break chain: where the first keys differ they decide, otherwise the
rest of the chain does. -/
theorem link {differs first rest : Bool} {x y : κ} {x' y' : κ'}
    (hdiffers : differs = true ↔ x ≠ y) (hfirst : first = true ↔ x < y)
    (hrest : rest = true ↔ x' < y') :
    (if differs = true then first else rest) = true ↔ toLex (x, x') < toLex (y, y') := by
  rw [Prod.Lex.toLex_lt_toLex]
  by_cases hxy : x = y
  · have hsame : ¬differs = true := fun h => hdiffers.mp h hxy
    rw [if_neg hsame, hrest]
    simp only [hxy, lt_irrefl, false_or, true_and]
  · rw [if_pos (hdiffers.mpr hxy), hfirst]
    simp only [hxy, false_and, or_false]

end Chain

variable [LinearOrder κ] {comes : α → α → Bool} {key : α → κ} {S : α → Prop} {a b c : α}

theorem irrefl (h : Compares comes key S) (ha : S a) : comes a a = false := by
  rw [← Bool.not_eq_true, h ha ha]
  exact lt_irrefl (key a)

theorem trans (h : Compares comes key S) (ha : S a) (hb : S b) (hc : S c)
    (hab : comes a b = true) (hbc : comes b c = true) : comes a c = true := by
  rw [h ha hb] at hab
  rw [h hb hc] at hbc
  exact (h ha hc).mpr (hab.trans hbc)

theorem asymm (h : Compares comes key S) (ha : S a) (hb : S b) (hab : comes a b = true) :
    comes b a = false := by
  rw [← Bool.not_eq_true, h hb ha]
  exact ((h ha hb).mp hab).asymm

theorem total (h : Compares comes key S) (ha : S a) (hb : S b) (hne : key a ≠ key b) :
    comes a b = true ∨ comes b a = true := by
  rw [h ha hb, h hb ha]
  exact lt_or_gt_of_ne hne

/-- Sorting may rely on the comparator, equal keys included. -/
theorem isStrictWeakOrder (h : Compares comes key S) :
    IsStrictWeakOrder {a // S a} fun a b => comes a b = true where
  irrefl a := by
    rw [h.irrefl a.2]
    exact Bool.false_ne_true
  trans a b c := h.trans a.2 b.2 c.2
  incomp_trans a b c := by
    rw [h a.2 b.2, h b.2 a.2, h b.2 c.2, h c.2 b.2, h a.2 c.2, h c.2 a.2]
    simp only [not_lt]
    rintro ⟨hba, hab⟩ ⟨hcb, hbc⟩
    exact ⟨hcb.trans hba, hab.trans hbc⟩

theorem imp (h : Compares comes key S) {S' : α → Prop} (hS : ∀ a, S' a → S a) :
    Compares comes key S' :=
  fun _ ha _ hb => h (hS _ ha) (hS _ hb)

/-- Elements are compared through what they carry. -/
theorem comap (h : Compares comes key S) (f : β → α) :
    Compares (fun a b => comes (f a) (f b)) (key ∘ f) (S ∘ f) :=
  fun _ ha _ hb => h ha hb

/-- A list that is sorted by the comparator is the only sorted arrangement of itself. -/
theorem eq_of_perm (h : Compares comes key S) {l l' : List α} (hS : ∀ a ∈ l, S a)
    (hperm : l'.Perm l) (hl' : l'.Pairwise fun a b => comes a b = true)
    (hl : l.Pairwise fun a b => comes a b = true) : l' = l := by
  refine hperm.eq_of_pairwise ?_ hl' hl
  intro a b ha hb hab hba
  rw [h.asymm (hS a (hperm.subset ha)) (hS b hb) hab] at hba
  cases hba

/-- Insertion into sorted lists sorts elements with distinct keys. -/
theorem pairwise_insertionSort (h : Compares comes key S) {l : List α}
    (hS : ∀ a ∈ l, S a) (hkeys : (l.map key).Nodup) :
    (l.insertionSort fun a b => comes b a = false).Pairwise fun a b => comes a b = true := by
  have hperm := l.perm_insertionSort fun a b => comes b a = false
  have hle : ∀ a ∈ l, ∀ b ∈ l, comes b a = false ↔ key a ≤ key b := by
    intro a ha b hb
    rw [← Bool.not_eq_true, h (hS b hb) (hS a ha), not_lt]
  have hsorted : ((l.insertionSort fun a b => comes b a = false).map key).Pairwise
      (· ≤ ·) := by
    rw [List.map_insertionSort (fun a b => comes b a = false) (· ≤ ·) key l hle]
    exact List.pairwise_insertionSort (· ≤ ·) (l.map key)
  have hdistinct : ((l.insertionSort fun a b => comes b a = false).map key).Nodup :=
    (hperm.map key).nodup_iff.mpr hkeys
  have hstrict := List.pairwise_map.mp (hsorted.and hdistinct)
  refine hstrict.imp_of_mem ?_
  intro a b ha hb hab
  rw [h (hS a (hperm.subset ha)) (hS b (hperm.subset hb))]
  exact lt_of_le_of_ne hab.1 hab.2

/-- Sorting what passes a test is picking it from the sorted list: elements that fail the test
have no influence on the order of the others. -/
theorem insertionSort_filter (h : Compares comes key S) {l : List α} (hS : ∀ a ∈ l, S a)
    (hkeys : (l.map key).Nodup) (test : α → Bool) :
    ((l.filter test).insertionSort fun a b => comes b a = false) =
      (l.insertionSort fun a b => comes b a = false).filter test := by
  have hperm := l.perm_insertionSort fun a b => comes b a = false
  have hpicked := (l.filter test).perm_insertionSort fun a b => comes b a = false
  refine h.eq_of_perm ?_ (hpicked.trans (hperm.filter test).symm) ?_ ?_
  · exact fun a ha => hS a (hperm.subset (List.mem_of_mem_filter ha))
  · exact h.pairwise_insertionSort (fun a ha => hS a (List.mem_of_mem_filter ha))
      (hkeys.sublist (List.filter_sublist.map key))
  · exact (h.pairwise_insertionSort hS hkeys).filter test

end Compares
