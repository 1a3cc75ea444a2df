import Mathlib.Data.List.Perm.Subperm

/-!
# Enumerations in declaration order

An enumeration lists its members once, in declaration order. The code of a member is its
position, and a code beyond the last member names nothing.
-/

/-- A type whose members are listed once in declaration order. -/
class Enumeration (α : Type*) where
  /-- The members in declaration order. -/
  all : List α
  /-- No member is listed twice. -/
  nodup : all.Nodup
  /-- Every member is listed. -/
  complete : ∀ a, a ∈ all

namespace Enumeration

variable {α : Type*} [Enumeration α]

/-- The member at a position of the declaration order. -/
def ofCode? (n : Nat) : Option α := (all : List α)[n]?

/-- A list without duplicates is no longer than the list of all members. -/
theorem length_le_of_nodup {l : List α} (h : l.Nodup) : l.length ≤ (all : List α).length :=
  (List.subperm_of_subset h fun a _ => complete a).length_le

variable [DecidableEq α]

/-- The position of a member in the declaration order. -/
def code (a : α) : Nat := (all : List α).idxOf a

theorem code_lt (a : α) : code a < (all : List α).length :=
  List.idxOf_lt_length_of_mem (complete a)

/-- Reading a code back yields the member it was written for. -/
@[simp] theorem ofCode?_code (a : α) : ofCode? (code a) = some a := by
  have h : (all : List α).idxOf a < (all : List α).length := code_lt a
  rw [ofCode?, code, List.getElem?_eq_getElem h, List.getElem_idxOf h]

/-- A code names the member whose code it is. -/
theorem code_of_ofCode? {n : Nat} {a : α} (h : ofCode? n = some a) : code a = n := by
  obtain ⟨hn, rfl⟩ := List.getElem?_eq_some_iff.mp h
  exact nodup.idxOf_getElem n hn

end Enumeration
