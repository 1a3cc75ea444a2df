import Mathlib.Algebra.Ring.Nat
import Mathlib.Data.List.Basic

/-!
# Tables of suspended calls

A call is numbered when it is opened and its number is never given out again. A slot
holds what the suspended call carries over to its next section, and is empty once the
call has ended. The rules below follow the only suspended call of a chosen kind through
the opening, resuming and ending of any call.
-/

/-- Suspended calls, indexed by the order in which they were opened. -/
structure CallTable (γ : Type*) where
  /-- What each call carries over; `none` once it has ended. -/
  slots : List (Option γ)

namespace CallTable

variable {γ : Type*} {t : CallTable γ} {sel : γ → Prop} {o : Option (Nat × γ)}

/-- The table before any call. -/
def empty : CallTable γ := ⟨[]⟩

/-- What a call is suspended with. -/
def pending (t : CallTable γ) (c : Nat) : Option γ := t.slots[c]?.join

/-- The number the next call will get. -/
def fresh (t : CallTable γ) : Nat := t.slots.length

/-- Open a call, suspended with `x` or ended at once. -/
def opened (t : CallTable γ) (x : Option γ) : CallTable γ := ⟨t.slots ++ [x]⟩

/-- Resume a call, which suspends again with `x` or ends. -/
def resumed (t : CallTable γ) (c : Nat) (x : Option γ) : CallTable γ := ⟨t.slots.set c x⟩

@[simp] theorem pending_empty (c : Nat) : (empty : CallTable γ).pending c = none := rfl

@[simp] theorem fresh_opened (x : Option γ) : (t.opened x).fresh = t.fresh + 1 := by
  simp only [fresh, opened, List.length_append, List.length_singleton]

@[simp] theorem fresh_resumed (c : Nat) (x : Option γ) : (t.resumed c x).fresh = t.fresh := by
  simp only [fresh, resumed, List.length_set]

theorem pending_of_fresh_le {c : Nat} (h : t.fresh ≤ c) : t.pending c = none := by
  rw [pending, List.getElem?_eq_none h, Option.join_none]

theorem lt_fresh_of_pending {c : Nat} {x : γ} (h : t.pending c = some x) : c < t.fresh := by
  by_contra hc
  rw [pending_of_fresh_le (by omega)] at h
  cases h

theorem pending_opened (x : Option γ) (c : Nat) :
    (t.opened x).pending c = if c = t.fresh then x else t.pending c := by
  rcases Nat.lt_trichotomy c t.fresh with h | rfl | h
  · rw [if_neg (Nat.ne_of_lt h), pending, pending, opened, List.getElem?_append_left h]
  · rw [if_pos rfl, pending, opened, fresh, List.getElem?_concat_length, Option.join_some]
  · have hle : (t.opened x).fresh ≤ c := by
      rw [fresh_opened]
      omega
    rw [if_neg (Nat.ne_of_gt h), pending_of_fresh_le hle, pending_of_fresh_le (Nat.le_of_lt h)]

theorem pending_resumed {c₀ : Nat} {old : γ} (h : t.pending c₀ = some old) (x : Option γ)
    (c : Nat) : (t.resumed c₀ x).pending c = if c = c₀ then x else t.pending c := by
  have hlt : c₀ < t.slots.length := lt_fresh_of_pending h
  simp only [pending, resumed]
  by_cases hc : c = c₀
  · rw [hc, List.getElem?_set_self hlt, if_pos rfl, Option.join_some]
  · rw [List.getElem?_set_ne (Ne.symm hc), if_neg hc]

/-- A call is suspended after an opening as it was before, or as it was opened. -/
theorem pending_opened_cases {c : Nat} {x : Option γ} {y : γ}
    (h : (t.opened x).pending c = some y) : x = some y ∨ t.pending c = some y := by
  rw [pending_opened] at h
  split at h
  · exact Or.inl h
  · exact Or.inr h

/-- A call is suspended after a resumption as it was before, or as it was resumed. -/
theorem pending_resumed_cases {c₀ c : Nat} {old y : γ} {x : Option γ}
    (h₀ : t.pending c₀ = some old) (h : (t.resumed c₀ x).pending c = some y) :
    c = c₀ ∧ x = some y ∨ t.pending c = some y := by
  rw [pending_resumed h₀] at h
  split at h
  · rename_i hc
    exact Or.inl ⟨hc, h⟩
  · exact Or.inr h

/-- Opening a call leaves the suspended ones. -/
theorem pending_opened_of_pending {c : Nat} {y : γ} (h : t.pending c = some y)
    (x : Option γ) : (t.opened x).pending c = some y := by
  rw [pending_opened, if_neg (Nat.ne_of_lt (lt_fresh_of_pending h)), h]

/-- Resuming a call leaves the others. -/
theorem pending_resumed_other {c₀ c : Nat} {old y : γ} (h₀ : t.pending c₀ = some old)
    (hne : c ≠ c₀) (h : t.pending c = some y) (x : Option γ) :
    (t.resumed c₀ x).pending c = some y := by
  rw [pending_resumed h₀, if_neg hne, h]

theorem pending_resumed_self {c₀ : Nat} {old : γ} (h₀ : t.pending c₀ = some old)
    (x : Option γ) : (t.resumed c₀ x).pending c₀ = x := by
  rw [pending_resumed h₀, if_pos rfl]

/-- The weights of the suspended calls, added up. -/
def total (t : CallTable γ) (weight : γ → Nat) : Nat :=
  (t.slots.map fun x => x.elim 0 weight).sum

theorem total_opened (weight : γ → Nat) (x : Option γ) :
    (t.opened x).total weight = t.total weight + x.elim 0 weight := by
  rw [total, opened, List.map_append, List.sum_append, List.map_singleton, List.sum_singleton,
    total]

/-- A resumption gives up what the call was suspended with for what it is suspended with. -/
theorem total_resumed {c : Nat} {old : γ} (h : t.pending c = some old) (weight : γ → Nat)
    (x : Option γ) : (t.resumed c x).total weight + weight old =
      t.total weight + x.elim 0 weight := by
  have hslot : t.slots[c]? = some (some old) := Option.join_eq_some_iff.mp h
  obtain ⟨hlt, hold⟩ := List.getElem?_eq_some_iff.mp hslot
  have hcut : t.slots = t.slots.take c ++ some old :: t.slots.drop (c + 1) := by
    rw [← hold, List.getElem_cons_drop, List.take_append_drop]
  have hset : t.slots.set c x = t.slots.take c ++ x :: t.slots.drop (c + 1) :=
    List.set_eq_take_append_cons_drop.trans (if_pos hlt)
  rw [total, total, resumed, hset]
  conv_rhs => rw [hcut]
  simp only [List.map_append, List.map_cons, List.sum_append, List.sum_cons, Option.elim_some]
  omega

/-- When every suspended call weighs something, the table weighs nothing exactly when no call
is suspended. -/
theorem total_eq_zero_iff {weight : γ → Nat} (hpos : ∀ x, 0 < weight x) :
    t.total weight = 0 ↔ ∀ c, t.pending c = none := by
  rw [total, List.sum_eq_zero_iff_forall_eq_nat]
  constructor
  · intro hzero c
    cases hc : t.pending c with
    | none => rfl
    | some x =>
        have hslot : t.slots[c]? = some (some x) := Option.join_eq_some_iff.mp hc
        have hweight := hzero _ (List.mem_map_of_mem (List.mem_of_getElem? hslot))
        exact absurd hweight (Nat.ne_of_gt (hpos x))
  · intro hnone n hn
    obtain ⟨slot, hslot, rfl⟩ := List.mem_map.mp hn
    obtain ⟨c, hc⟩ := List.getElem?_of_mem hslot
    have hpending := hnone c
    rw [pending, hc, Option.join_some] at hpending
    rw [hpending, Option.elim_none]

/-- The call was opened and has ended. -/
def Ended (t : CallTable γ) (c : Nat) : Prop := c < t.fresh ∧ t.pending c = none

theorem Ended.opened {c : Nat} (h : t.Ended c) (x : Option γ) : (t.opened x).Ended c := by
  obtain ⟨hlt, hp⟩ := h
  refine ⟨by rw [fresh_opened]; omega, ?_⟩
  rw [pending_opened, if_neg (by omega), hp]

theorem Ended.resumed {c c₀ : Nat} {old : γ} (h : t.Ended c) (h₀ : t.pending c₀ = some old)
    (x : Option γ) : (t.resumed c₀ x).Ended c := by
  obtain ⟨hlt, hp⟩ := h
  have hne : c ≠ c₀ := by
    intro he
    rw [he, h₀] at hp
    cases hp
  refine ⟨by rw [fresh_resumed]; exact hlt, ?_⟩
  rw [pending_resumed h₀, if_neg hne, hp]

/-- `o` is the only suspended call meeting `sel`. -/
structure Only (t : CallTable γ) (sel : γ → Prop) (o : Option (Nat × γ)) : Prop where
  /-- Whatever is suspended and meets `sel` is the recorded call. -/
  unique : ∀ c x, t.pending c = some x → sel x → o = some (c, x)
  /-- The recorded call is suspended and meets `sel`. -/
  held : ∀ c x, o = some (c, x) → t.pending c = some x ∧ sel x

theorem only_empty (sel : γ → Prop) : (empty : CallTable γ).Only sel none where
  unique _ _ hp := by cases hp
  held _ _ ho := by cases ho

theorem Only.opened_other (h : t.Only sel o) {x : Option γ} (hx : ∀ y ∈ x, ¬sel y) :
    (t.opened x).Only sel o where
  unique c y hp hs := by
    rw [pending_opened] at hp
    split at hp
    · exact absurd hs (hx y hp)
    · exact h.unique c y hp hs
  held c y ho := by
    obtain ⟨hp, hs⟩ := h.held c y ho
    have hne : c ≠ t.fresh := Nat.ne_of_lt (lt_fresh_of_pending hp)
    rw [pending_opened, if_neg hne]
    exact ⟨hp, hs⟩

theorem Only.opened (h : t.Only sel none) {x : γ} (hx : sel x) :
    (t.opened (some x)).Only sel (some (t.fresh, x)) where
  unique c y hp hs := by
    rw [pending_opened] at hp
    split at hp
    · rename_i hc
      rw [hc, Option.some.inj hp]
    · cases h.unique c y hp hs
  held c y ho := by
    obtain ⟨rfl, rfl⟩ := Prod.mk.inj (Option.some.inj ho)
    rw [pending_opened, if_pos rfl]
    exact ⟨rfl, hx⟩

theorem Only.resumed_other (h : t.Only sel o) {c₀ : Nat} {old : γ}
    (h₀ : t.pending c₀ = some old) (hold : ¬sel old) {x : Option γ} (hx : ∀ y ∈ x, ¬sel y) :
    (t.resumed c₀ x).Only sel o where
  unique c y hp hs := by
    rw [pending_resumed h₀] at hp
    split at hp
    · exact absurd hs (hx y hp)
    · exact h.unique c y hp hs
  held c y ho := by
    obtain ⟨hp, hs⟩ := h.held c y ho
    have hne : c ≠ c₀ := by
      rintro rfl
      rw [h₀] at hp
      exact hold (Option.some.inj hp ▸ hs)
    rw [pending_resumed h₀, if_neg hne]
    exact ⟨hp, hs⟩

theorem Only.resumed {c₀ : Nat} {old : γ} (h : t.Only sel (some (c₀, old))) {x : Option γ}
    (hx : ∀ y ∈ x, sel y) : (t.resumed c₀ x).Only sel (x.map fun y => (c₀, y)) where
  unique c y hp hs := by
    rw [pending_resumed (h.held c₀ old rfl).1] at hp
    split at hp
    · rename_i hc
      rw [hp, hc, Option.map_some]
    · rename_i hc
      exact absurd (Prod.mk.inj (Option.some.inj (h.unique c y hp hs))).1.symm hc
  held c y ho := by
    obtain ⟨z, hz, he⟩ := Option.map_eq_some_iff.mp ho
    obtain ⟨rfl, rfl⟩ := Prod.mk.inj he
    rw [pending_resumed (h.held c₀ old rfl).1, if_pos rfl]
    exact ⟨hz, hx z hz⟩

end CallTable
