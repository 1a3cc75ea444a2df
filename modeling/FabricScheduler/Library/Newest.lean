import Mathlib.Data.List.Nodup
import Mathlib.Order.Lattice

/-!
# Keeping the newest of what is offered

A slot adopts an offer that ranks strictly above what it holds. What it holds after a list
of offers of distinct ranks is the newest of them, or what it held if none ranks above
that, so the order of the offers does not matter.
-/

namespace Newest

variable {α ρ : Type*} [LinearOrder ρ] (rank : α → ρ)

/-- The slot after one offer. -/
def adopt (held : Option α) (a : α) : Option α :=
  match held with
  | none => some a
  | some h => if rank h < rank a then some a else some h

/-- What a slot keeps of the offers: one that ranks above what it held and not below any
other, or what it held when no offer ranks above that. -/
def Kept (held : Option α) (offers : List α) (a : α) : Prop :=
  (a ∈ offers ∧ (∀ b ∈ offers, rank b ≤ rank a) ∧ ∀ h ∈ held, rank h < rank a) ∨
    held = some a ∧ ∀ b ∈ offers, rank b ≤ rank a

variable {rank} {held : Option α} {offers : List α} {a b : α}

theorem kept_none :
    Kept rank none offers a ↔ a ∈ offers ∧ ∀ b ∈ offers, rank b ≤ rank a := by
  simp [Kept]

theorem kept_some {h : α} : Kept rank (some h) offers a ↔
    (a ∈ offers ∧ (∀ b ∈ offers, rank b ≤ rank a) ∧ rank h < rank a) ∨
      h = a ∧ ∀ b ∈ offers, rank b ≤ rank a := by
  simp [Kept]

private theorem kept_cons_none (hfresh : ∀ x ∈ offers, rank x ≠ rank b) :
    Kept rank (some b) offers a ↔ Kept rank none (b :: offers) a := by
  rw [kept_none, kept_some, List.mem_cons, List.forall_mem_cons]
  constructor
  · rintro (⟨hmem, hmax, hlt⟩ | ⟨rfl, hmax⟩)
    · exact ⟨Or.inr hmem, hlt.le, hmax⟩
    · exact ⟨Or.inl rfl, le_rfl, hmax⟩
  · rintro ⟨rfl | hmem, hle, hmax⟩
    · exact Or.inr ⟨rfl, hmax⟩
    · exact Or.inl ⟨hmem, hmax, lt_of_le_of_ne hle (hfresh a hmem).symm⟩

private theorem kept_cons_above {h : α} (hlt : rank h < rank b)
    (hfresh : ∀ x ∈ offers, rank x ≠ rank b) :
    Kept rank (some b) offers a ↔ Kept rank (some h) (b :: offers) a := by
  rw [kept_cons_none hfresh, kept_none, kept_some, List.forall_mem_cons]
  constructor
  · rintro ⟨hmem, hle, hmax⟩
    exact Or.inl ⟨hmem, ⟨hle, hmax⟩, hlt.trans_le hle⟩
  · rintro (⟨hmem, hmax, _⟩ | ⟨rfl, hle, _⟩)
    · exact ⟨hmem, hmax⟩
    · exact absurd hlt (not_lt.mpr hle)

private theorem kept_cons_below {h : α} (hle : rank b ≤ rank h) :
    Kept rank (some h) offers a ↔ Kept rank (some h) (b :: offers) a := by
  rw [kept_some, kept_some, List.mem_cons, List.forall_mem_cons]
  constructor
  · rintro (⟨hmem, hmax, hlt⟩ | ⟨rfl, hmax⟩)
    · exact Or.inl ⟨Or.inr hmem, ⟨hle.trans hlt.le, hmax⟩, hlt⟩
    · exact Or.inr ⟨rfl, hle, hmax⟩
  · rintro (⟨rfl | hmem, ⟨_, hmax⟩, hlt⟩ | ⟨rfl, _, hmax⟩)
    · exact absurd hlt (not_lt.mpr hle)
    · exact Or.inl ⟨hmem, hmax, hlt⟩
    · exact Or.inr ⟨rfl, hmax⟩

/-- After offers of distinct ranks a slot holds exactly what it keeps of them. -/
theorem foldl_adopt_eq_some_iff (hdistinct : (offers.map rank).Nodup) :
    offers.foldl (adopt rank) held = some a ↔ Kept rank held offers a := by
  induction offers generalizing held with
  | nil => simp [Kept]
  | cons b offers ih =>
      rw [List.map_cons, List.nodup_cons] at hdistinct
      have hfresh : ∀ x ∈ offers, rank x ≠ rank b := by
        intro x hx heq
        exact hdistinct.1 (heq ▸ List.mem_map_of_mem hx)
      rw [List.foldl_cons, ih hdistinct.2]
      cases held with
      | none => exact kept_cons_none hfresh
      | some h =>
          rw [adopt]
          split
          · rename_i hlt
            exact kept_cons_above hlt hfresh
          · rename_i hle
            exact kept_cons_below (not_lt.mp hle)

/-- The order in which offers of distinct ranks arrive does not matter. -/
theorem foldl_adopt_perm {offers' : List α} (hperm : offers.Perm offers')
    (hdistinct : (offers.map rank).Nodup) :
    offers.foldl (adopt rank) held = offers'.foldl (adopt rank) held := by
  apply Option.ext
  intro a
  rw [foldl_adopt_eq_some_iff hdistinct,
    foldl_adopt_eq_some_iff ((hperm.map rank).nodup_iff.mp hdistinct)]
  simp only [Kept, hperm.mem_iff]

end Newest
