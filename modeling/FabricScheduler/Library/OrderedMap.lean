import Mathlib.Order.Basic
import Mathlib.Data.List.Sort

/-!
# Finite maps iterated in key order

An associative container is a list of entries together with the proof that its keys
increase strictly, so a duplicate key or an out-of-order iteration cannot be built.
Lookup, overwriting insertion, insertion of absent keys only and an accumulating pass
over all entries are characterised by lookup alone, and lookup determines the map.
-/

/-- Entries in strictly increasing key order; each key occurs at most once. -/
structure OrderedMap (κ β : Type*) [LinearOrder κ] where
  /-- The stored entries in iteration order. -/
  entries : List (κ × β)
  /-- Keys increase strictly along the iteration. -/
  sorted : entries.Pairwise fun a b => a.1 < b.1

namespace OrderedMap

variable {κ β γ : Type*} [LinearOrder κ]

/-- The first value stored under a key of an entry list. -/
def lookupEntries (k : κ) : List (κ × β) → Option β
  | [] => none
  | (k', v) :: rest => if k = k' then some v else lookupEntries k rest

/-- Place an entry at its ordered position, replacing a value already stored there. -/
def putEntry (k : κ) (v : β) : List (κ × β) → List (κ × β)
  | [] => [(k, v)]
  | (k', v') :: rest =>
      if k < k' then (k, v) :: (k', v') :: rest
      else if k = k' then (k, v) :: rest
      else (k', v') :: putEntry k v rest

/-- One pass over the entries in key order, threading an accumulator. -/
def passEntries (f : γ → κ → β → γ × β) : γ → List (κ × β) → γ × List (κ × β)
  | c, [] => (c, [])
  | c, (k, v) :: rest =>
      let (c', v') := f c k v
      let (c'', rest') := passEntries f c' rest
      (c'', (k, v') :: rest')

theorem mem_putEntry {k : κ} {v : β} {l : List (κ × β)} {e : κ × β}
    (h : e ∈ putEntry k v l) : e = (k, v) ∨ e ∈ l := by
  induction l with
  | nil => exact Or.inl (List.mem_singleton.mp h)
  | cons a rest ih =>
      simp only [putEntry] at h
      split at h
      · exact List.mem_cons.mp h
      · split at h
        · rcases List.mem_cons.mp h with he | hr
          · exact Or.inl he
          · exact Or.inr (List.mem_cons_of_mem _ hr)
        · rcases List.mem_cons.mp h with he | hr
          · exact Or.inr (he ▸ List.mem_cons_self ..)
          · exact (ih hr).imp_right (List.mem_cons_of_mem _)

theorem pairwise_putEntry (k : κ) (v : β) {l : List (κ × β)}
    (h : l.Pairwise fun a b => a.1 < b.1) :
    (putEntry k v l).Pairwise fun a b => a.1 < b.1 := by
  induction l with
  | nil => exact List.pairwise_singleton _ _
  | cons a rest ih =>
      obtain ⟨ha, hrest⟩ := List.pairwise_cons.mp h
      simp only [putEntry]
      split
      · rename_i hk
        refine List.pairwise_cons.mpr ⟨?_, h⟩
        intro b hb
        rcases List.mem_cons.mp hb with rfl | hb
        · exact hk
        · exact lt_trans hk (ha b hb)
      · rename_i hk
        split
        · rename_i he
          exact List.pairwise_cons.mpr ⟨fun b hb => he ▸ ha b hb, hrest⟩
        · rename_i hne
          refine List.pairwise_cons.mpr ⟨?_, ih hrest⟩
          intro b hb
          rcases mem_putEntry hb with rfl | hb
          · exact lt_of_le_of_ne (not_lt.mp hk) (Ne.symm hne)
          · exact ha b hb

omit [LinearOrder κ] in
theorem mem_passEntries {f : γ → κ → β → γ × β} {c : γ} {l : List (κ × β)} {e : κ × β}
    (h : e ∈ (passEntries f c l).2) : ∃ v, (e.1, v) ∈ l := by
  induction l generalizing c with
  | nil => cases h
  | cons a rest ih =>
      simp only [passEntries] at h
      rcases List.mem_cons.mp h with he | hr
      · exact ⟨a.2, by simp [he]⟩
      · obtain ⟨v, hv⟩ := ih hr
        exact ⟨v, List.mem_cons_of_mem _ hv⟩

theorem pairwise_passEntries (f : γ → κ → β → γ × β) (c : γ) {l : List (κ × β)}
    (h : l.Pairwise fun a b => a.1 < b.1) :
    (passEntries f c l).2.Pairwise fun a b => a.1 < b.1 := by
  induction l generalizing c with
  | nil => exact List.Pairwise.nil
  | cons a rest ih =>
      obtain ⟨ha, hrest⟩ := List.pairwise_cons.mp h
      simp only [passEntries]
      refine List.pairwise_cons.mpr ⟨?_, ih _ hrest⟩
      intro b hb
      obtain ⟨v, hv⟩ := mem_passEntries hb
      exact ha (b.1, v) hv

/-- The map without entries. -/
def empty : OrderedMap κ β := ⟨[], List.Pairwise.nil⟩

/-- The value stored under a key. -/
def find? (m : OrderedMap κ β) (k : κ) : Option β := lookupEntries k m.entries

/-- Store a value under a key, overwriting the previous one. -/
def insert (m : OrderedMap κ β) (k : κ) (v : β) : OrderedMap κ β :=
  ⟨putEntry k v m.entries, pairwise_putEntry k v m.sorted⟩

/-- Store a value only when the key is absent; a present key keeps its value. -/
def emplace (m : OrderedMap κ β) (k : κ) (v : β) : OrderedMap κ β :=
  if (m.find? k).isSome then m else m.insert k v

/-- Collect a list under the keys of its elements; the first element of a key is kept. -/
def collect (key : β → κ) (l : List β) : OrderedMap κ β :=
  l.foldl (fun m v => m.emplace (key v) v) empty

/-- Update every value in key order while threading an accumulator. -/
def pass (m : OrderedMap κ β) (f : γ → κ → β → γ × β) (c : γ) : γ × OrderedMap κ β :=
  ((passEntries f c m.entries).1,
    ⟨(passEntries f c m.entries).2, pairwise_passEntries f c m.sorted⟩)

/-- The stored values in key order. -/
def values (m : OrderedMap κ β) : List β := m.entries.map Prod.snd

/-- The keys in use, in order. -/
def keys (m : OrderedMap κ β) : List κ := m.entries.map Prod.fst

/-- The values stored under the keys below one, in key order. -/
def before (m : OrderedMap κ β) (k : κ) : List β :=
  (m.entries.filter fun e => e.1 < k).map Prod.snd

/-- The number of entries. -/
def size (m : OrderedMap κ β) : Nat := m.entries.length

@[simp] theorem find?_empty (k : κ) : (empty : OrderedMap κ β).find? k = none := rfl

theorem lookupEntries_putEntry (k k' : κ) (v : β) (l : List (κ × β)) :
    lookupEntries k' (putEntry k v l) = if k' = k then some v else lookupEntries k' l := by
  induction l with
  | nil => rfl
  | cons a rest ih =>
      by_cases hlt : k < a.1
      · simp [putEntry, hlt, lookupEntries]
      · by_cases he : k = a.1
        · subst he
          simp only [putEntry, lt_irrefl, lookupEntries, ite_true, ite_false]
          split <;> rfl
        · simp only [putEntry, hlt, he, lookupEntries, ite_false, ih]
          by_cases hk : k' = a.1
          · simp [hk, Ne.symm he]
          · simp [hk]

/-- An insertion is visible at its own key and nowhere else. -/
@[simp] theorem find?_insert (m : OrderedMap κ β) (k k' : κ) (v : β) :
    (m.insert k v).find? k' = if k' = k then some v else m.find? k' :=
  lookupEntries_putEntry k k' v m.entries

/-- A guarded insertion changes only an absent key. -/
theorem find?_emplace (m : OrderedMap κ β) (k k' : κ) (v : β) :
    (m.emplace k v).find? k' =
      if k' = k then some ((m.find? k).getD v) else m.find? k' := by
  unfold emplace
  cases h : m.find? k with
  | none => simp
  | some w =>
      simp only [Option.isSome_some, ite_true, Option.getD_some]
      split
      · rename_i he
        rw [he, h]
      · rfl

theorem find?_emplace_of_none {m : OrderedMap κ β} {k : κ} (v : β) (h : m.find? k = none)
    (k' : κ) : (m.emplace k v).find? k' = if k' = k then some v else m.find? k' := by
  rw [find?_emplace, h, Option.getD_none]

theorem lookupEntries_passEntries (f : γ → κ → β → γ × β) (k : κ) (l : List (κ × β)) :
    ∀ c, ∃ c', lookupEntries k (passEntries f c l).2 =
      (lookupEntries k l).map fun v => (f c' k v).2 := by
  induction l with
  | nil => exact fun c => ⟨c, rfl⟩
  | cons a rest ih =>
      intro c
      by_cases hk : k = a.1
      · exact ⟨c, by simp [passEntries, lookupEntries, hk]⟩
      · obtain ⟨c', hc'⟩ := ih (f c a.1 a.2).1
        exact ⟨c', by simp [passEntries, lookupEntries, hk, hc']⟩

/-- A pass updates each entry by the step function at some accumulator value and
neither adds nor removes keys. -/
theorem find?_pass (m : OrderedMap κ β) (f : γ → κ → β → γ × β) (c : γ) (k : κ) :
    ∃ c', (m.pass f c).2.find? k = (m.find? k).map fun v => (f c' k v).2 :=
  lookupEntries_passEntries f k m.entries c

theorem mem_of_lookupEntries {k : κ} {v : β} {l : List (κ × β)}
    (h : lookupEntries k l = some v) : (k, v) ∈ l := by
  induction l with
  | nil => cases h
  | cons a rest ih =>
      simp only [lookupEntries] at h
      split at h
      · rename_i he
        rw [← Option.some.inj h, he]
        exact List.mem_cons_self ..
      · exact List.mem_cons_of_mem _ (ih h)

theorem lookupEntries_of_mem {k : κ} {v : β} {l : List (κ × β)}
    (hs : l.Pairwise fun a b => a.1 < b.1) (h : (k, v) ∈ l) : lookupEntries k l = some v := by
  induction l with
  | nil => cases h
  | cons a rest ih =>
      obtain ⟨ha, hrest⟩ := List.pairwise_cons.mp hs
      rcases List.mem_cons.mp h with rfl | hr
      · simp [lookupEntries]
      · have hne : k ≠ a.1 := ne_of_gt (ha _ hr)
        simpa only [lookupEntries, hne, ite_false] using ih hrest hr

/-- Lookup and membership in the entry list agree. -/
theorem find?_eq_some_iff {m : OrderedMap κ β} {k : κ} {v : β} :
    m.find? k = some v ↔ (k, v) ∈ m.entries :=
  ⟨mem_of_lookupEntries, lookupEntries_of_mem m.sorted⟩

theorem mem_values_iff {m : OrderedMap κ β} {v : β} :
    v ∈ m.values ↔ ∃ k, m.find? k = some v := by
  simp only [values, List.mem_map, Prod.exists, exists_eq_right, find?_eq_some_iff]

theorem mem_keys_iff {m : OrderedMap κ β} {k : κ} : k ∈ m.keys ↔ ∃ v, m.find? k = some v := by
  simp only [keys, List.mem_map, Prod.exists, exists_and_right, exists_eq_right,
    find?_eq_some_iff]

theorem nodup_keys (m : OrderedMap κ β) : m.keys.Nodup :=
  List.pairwise_map.mpr (m.sorted.imp ne_of_lt)

theorem length_keys (m : OrderedMap κ β) : m.keys.length = m.size := List.length_map ..

/-- The values name the keys in use when every value knows its key. -/
theorem map_values {m : OrderedMap κ β} (key : β → κ)
    (hkey : ∀ k v, m.find? k = some v → key v = k) : m.values.map key = m.keys := by
  rw [values, keys, List.map_map]
  refine List.map_congr_left ?_
  intro e he
  exact hkey e.1 e.2 (find?_eq_some_iff.mpr he)

/-- A pass keeps the keys in use. -/
theorem keys_pass (m : OrderedMap κ β) (f : γ → κ → β → γ × β) (c : γ) :
    (m.pass f c).2.keys = m.keys := by
  have h : ∀ (l : List (κ × β)) (c : γ),
      (passEntries f c l).2.map Prod.fst = l.map Prod.fst := by
    intro l
    induction l with
    | nil => exact fun _ => rfl
    | cons a rest ih =>
        intro c
        rw [passEntries, List.map_cons, List.map_cons, ih]
  exact h m.entries c

/-- Overwriting keeps the keys in use. -/
theorem keys_insert_of_some {m : OrderedMap κ β} {k : κ} {w : β} (v : β)
    (h : m.find? k = some w) : (m.insert k v).keys = m.keys := by
  have hl : ∀ l : List (κ × β), l.Pairwise (fun a b => a.1 < b.1) → (k, w) ∈ l →
      (putEntry k v l).map Prod.fst = l.map Prod.fst := by
    intro l hs hmem
    induction l with
    | nil => cases hmem
    | cons a rest ih =>
        obtain ⟨ha, hrest⟩ := List.pairwise_cons.mp hs
        rcases List.mem_cons.mp hmem with rfl | hmem
        · rw [putEntry, if_neg (lt_irrefl k), if_pos rfl, List.map_cons, List.map_cons]
        · have hlt : a.1 < k := ha _ hmem
          rw [putEntry, if_neg (lt_asymm hlt), if_neg (ne_of_gt hlt), List.map_cons,
            List.map_cons, ih hrest hmem]
  exact hl m.entries m.sorted (find?_eq_some_iff.mp h)

theorem map_find?_keys (m : OrderedMap κ β) : m.keys.map m.find? = m.values.map some := by
  rw [keys, values, List.map_map, List.map_map]
  refine List.map_congr_left ?_
  intro e he
  exact find?_eq_some_iff.mpr he

/-- What a function makes of the values is determined by the keys and what it makes of the
value of each key. -/
theorem map_values_congr {m m' : OrderedMap κ β} (f : β → γ) (hkeys : m'.keys = m.keys)
    (h : ∀ k v, m.find? k = some v → ∃ v', m'.find? k = some v' ∧ f v' = f v) :
    m'.values.map f = m.values.map f := by
  have hsome : ∀ n : OrderedMap κ β, (n.values.map f).map some =
      n.keys.map fun k => (n.find? k).map f := by
    intro n
    have hmap := congrArg (List.map (Option.map f)) n.map_find?_keys
    rw [List.map_map, List.map_map] at hmap
    rw [List.map_map]
    exact hmap.symm
  apply List.map_injective_iff.mpr (Option.some_injective γ)
  rw [hsome, hsome, hkeys]
  refine List.map_congr_left ?_
  intro k hk
  obtain ⟨v, hv⟩ := mem_keys_iff.mp hk
  obtain ⟨v', hv', hf⟩ := h k v hv
  rw [hv, hv', Option.map_some, Option.map_some, hf]

/-- The keys in use are those with a lookup. -/
theorem keys_congr {m : OrderedMap κ β} {m' : OrderedMap κ γ}
    (h : ∀ k, (m'.find? k).isSome = (m.find? k).isSome) : m'.keys = m.keys := by
  have hmem : ∀ k, k ∈ m'.keys ↔ k ∈ m.keys := by
    intro k
    rw [mem_keys_iff, mem_keys_iff, ← Option.isSome_iff_exists, ← Option.isSome_iff_exists, h]
  have hperm : m'.keys.Perm m.keys :=
    (List.perm_ext_iff_of_nodup m'.nodup_keys m.nodup_keys).mpr hmem
  have hs : m.keys.Pairwise (· < ·) := List.pairwise_map.mpr m.sorted
  have hs' : m'.keys.Pairwise (· < ·) := List.pairwise_map.mpr m'.sorted
  exact hperm.eq_of_pairwise (fun a b _ _ hab hba => absurd (lt_trans hab hba) (lt_irrefl _))
    hs' hs

/-- What a function makes of the values is determined by what it makes of each lookup. -/
theorem map_values_of_find? {m m' : OrderedMap κ β} (f : β → γ)
    (h : ∀ k, (m'.find? k).map f = (m.find? k).map f) :
    m'.values.map f = m.values.map f := by
  refine map_values_congr f (keys_congr fun k => ?_) fun k v hv => ?_
  · simpa using congrArg Option.isSome (h k)
  · have hk := h k
    rw [hv, Option.map_some] at hk
    exact Option.map_eq_some_iff.mp hk

/-- Storing a value exchanges it for the one stored under its key. -/
theorem countP_insert (m : OrderedMap κ β) (k : κ) (v : β) (test : β → Bool) :
    (m.insert k v).values.countP test + ((m.find? k).any test).toNat =
      m.values.countP test + (test v).toNat := by
  have hl : ∀ l : List (κ × β), l.Pairwise (fun a b => a.1 < b.1) →
      ((putEntry k v l).map Prod.snd).countP test + ((lookupEntries k l).any test).toNat =
        (l.map Prod.snd).countP test + (test v).toNat := by
    intro l hs
    induction l with
    | nil => cases hv : test v <;> simp [putEntry, lookupEntries, hv]
    | cons a rest ih =>
        obtain ⟨ha, hrest⟩ := List.pairwise_cons.mp hs
        rcases lt_trichotomy k a.1 with hlt | rfl | hgt
        · have hnone : lookupEntries k (a :: rest) = none := by
            cases hfind : lookupEntries k (a :: rest) with
            | none => rfl
            | some w =>
                rcases List.mem_cons.mp (mem_of_lookupEntries hfind) with he | hmem
                · exact absurd (he ▸ hlt) (lt_irrefl _)
                · exact absurd (hlt.trans (ha _ hmem)) (lt_irrefl _)
          rw [hnone, putEntry, if_pos hlt]
          cases hv : test v <;> simp [hv]
        · rw [putEntry, if_neg (lt_irrefl _), if_pos rfl, lookupEntries, if_pos rfl]
          cases hv : test v <;> cases ha : test a.2 <;> simp [hv, ha]
        · rw [putEntry, if_neg hgt.not_gt, if_neg hgt.ne', lookupEntries, if_neg hgt.ne',
            List.map_cons, List.map_cons, List.countP_cons, List.countP_cons]
          have hih := ih hrest
          simp only
          omega
  exact hl m.entries m.sorted

/-- A guarded insertion of a value that fails a test leaves the count of those that meet
it. -/
theorem countP_emplace_of_not (m : OrderedMap κ β) (k : κ) {v : β} {test : β → Bool}
    (hv : test v = false) : (m.emplace k v).values.countP test = m.values.countP test := by
  unfold emplace
  cases h : m.find? k with
  | some w => rw [Option.isSome_some, if_pos rfl]
  | none =>
      have hcount := m.countP_insert k v test
      rw [h, hv] at hcount
      rw [Option.isSome_none, if_neg Bool.false_ne_true]
      simpa using hcount

/-- A key above all keys in use is placed last. -/
theorem values_emplace_of_above {m : OrderedMap κ β} {k : κ} (v : β)
    (h : ∀ k' ∈ m.keys, k' < k) : (m.emplace k v).values = m.values ++ [v] := by
  have hput : ∀ l : List (κ × β), (∀ e ∈ l, e.1 < k) → putEntry k v l = l ++ [(k, v)] := by
    intro l hl
    induction l with
    | nil => rfl
    | cons a rest ih =>
        have ha := hl a (List.mem_cons_self ..)
        rw [putEntry, if_neg (lt_asymm ha), if_neg (ne_of_gt ha),
          ih fun e he => hl e (List.mem_cons_of_mem _ he), List.cons_append]
  have hnone : (m.find? k).isSome = false := by
    cases hk : m.find? k with
    | none => rfl
    | some w => exact absurd (h k (mem_keys_iff.mpr ⟨w, hk⟩)) (lt_irrefl k)
  have habove : ∀ e ∈ m.entries, e.1 < k := fun e he => h e.1 (List.mem_map_of_mem he)
  rw [emplace, hnone, if_neg Bool.false_ne_true]
  change (putEntry k v m.entries).map Prod.snd = _
  rw [hput m.entries habove, List.map_append]
  rfl

/-- The accumulator after a pass that advances it by the values alone. -/
theorem fst_pass (m : OrderedMap κ β) {f : γ → κ → β → γ × β} {g : γ → β → γ}
    (hf : ∀ c k v, (f c k v).1 = g c v) (c : γ) : (m.pass f c).1 = m.values.foldl g c := by
  have h : ∀ (l : List (κ × β)) (c : γ),
      (passEntries f c l).1 = (l.map Prod.snd).foldl g c := by
    intro l
    induction l with
    | nil => exact fun _ => rfl
    | cons a rest ih =>
        intro c
        rw [passEntries, List.map_cons, List.foldl_cons, ← hf c a.1 a.2]
        exact ih _
  exact h m.entries c

/-- What a pass makes of an entry when it advances its accumulator by the values alone: the
step function is applied at the accumulator reached below the key. -/
theorem find?_pass_before (m : OrderedMap κ β) {f : γ → κ → β → γ × β} {g : γ → β → γ}
    (hf : ∀ c k v, (f c k v).1 = g c v) (c : γ) (k : κ) :
    (m.pass f c).2.find? k = (m.find? k).map fun v => (f ((m.before k).foldl g c) k v).2 := by
  have h : ∀ l : List (κ × β), l.Pairwise (fun a b => a.1 < b.1) → ∀ c,
      lookupEntries k (passEntries f c l).2 = (lookupEntries k l).map fun v =>
        (f (((l.filter fun e => e.1 < k).map Prod.snd).foldl g c) k v).2 := by
    intro l
    induction l with
    | nil => exact fun _ _ => rfl
    | cons a rest ih =>
        intro hs c
        obtain ⟨ha, hrest⟩ := List.pairwise_cons.mp hs
        by_cases hk : k = a.1
        · have hnone : rest.filter (fun e => e.1 < k) = [] := by
            rw [List.filter_eq_nil_iff]
            intro e he hlt
            exact lt_asymm (ha e he) (hk ▸ of_decide_eq_true hlt)
          have hself : decide (a.1 < k) = false := decide_eq_false (hk ▸ lt_irrefl k)
          rw [List.filter_cons, hself, hnone]
          simp only [passEntries, lookupEntries, hk, ite_true, Option.map_some,
            Bool.false_eq_true, ite_false, List.map_nil, List.foldl_nil]
        · have hskip : lookupEntries k (passEntries f c (a :: rest)).2 =
              lookupEntries k (passEntries f (g c a.2) rest).2 := by
            rw [← hf c a.1 a.2]
            exact if_neg hk
          have hskip' : lookupEntries k (a :: rest) = lookupEntries k rest := if_neg hk
          rw [hskip, hskip', ih hrest, List.filter_cons]
          by_cases hlt : a.1 < k
          · rw [decide_eq_true hlt, if_pos rfl, List.map_cons, List.foldl_cons]
          · -- nothing is stored under a key below the first one
            have hnone : lookupEntries k rest = none := by
              cases hfind : lookupEntries k rest with
              | none => rfl
              | some v =>
                  exact absurd (ha _ (mem_of_lookupEntries hfind)) hlt
            rw [hnone]
            rfl
  exact h m.entries m.sorted c

/-- A value that meets a test is one more than those below its key. -/
theorem countP_before_lt {m : OrderedMap κ β} {k : κ} {v : β} (when : β → Bool)
    (hv : m.find? k = some v) (hwhen : when v = true) :
    (m.before k).countP when < m.values.countP when ∧
      ∀ k', k < k' → (m.before k).countP when < (m.before k').countP when := by
  have hmem := find?_eq_some_iff.mp hv
  have hstrict : ∀ q : κ × β → Bool, (∀ e : κ × β, e.1 ≤ k → q e = true) →
      (m.before k).countP when < ((m.entries.filter q).map Prod.snd).countP when := by
    intro q hq
    rw [before, List.countP_map, List.countP_map, List.countP_filter, List.countP_filter,
      List.countP_eq_length_filter, List.countP_eq_length_filter]
    have hsub := List.monotone_filter_right (p := fun e => when e.2 && decide (e.1 < k))
      (q := fun e => when e.2 && q e) m.entries ?_
    · refine lt_of_le_of_ne hsub.length_le fun hlen => ?_
      have heq := hsub.eq_of_length hlen
      have hk : (k, v) ∈ m.entries.filter fun e => when e.2 && q e :=
        List.mem_filter.mpr ⟨hmem, by simp [hwhen, hq (k, v) le_rfl]⟩
      rw [← heq, List.mem_filter] at hk
      simp at hk
    · intro e he
      simp only [Bool.and_eq_true, decide_eq_true_eq] at he ⊢
      exact ⟨he.1, hq e he.2.le⟩
  constructor
  · have hall := hstrict (fun _ => true) fun _ _ => rfl
    rwa [List.filter_true] at hall
  · exact fun k' hk => hstrict (fun e => e.1 < k') fun e he =>
      decide_eq_true (lt_of_le_of_lt he hk)

theorem length_values (m : OrderedMap κ β) : m.values.length = m.size := List.length_map ..

/-- Two maps with the same lookups are the same map. -/
theorem ext_find? {m m' : OrderedMap κ β} (h : ∀ k, m.find? k = m'.find? k) : m = m' := by
  have hmem : ∀ e, e ∈ m.entries ↔ e ∈ m'.entries := by
    rintro ⟨k, v⟩
    rw [← find?_eq_some_iff, ← find?_eq_some_iff, h]
  have hnd : ∀ n : OrderedMap κ β, n.entries.Nodup := by
    intro n
    refine n.sorted.imp ?_
    intro a b hab he
    rw [he] at hab
    exact lt_irrefl _ hab
  have hperm : m.entries.Perm m'.entries :=
    (List.perm_ext_iff_of_nodup (hnd m) (hnd m')).mpr hmem
  have heq : m.entries = m'.entries :=
    hperm.eq_of_pairwise (fun a b _ _ hab hba => absurd (lt_trans hab hba) (lt_irrefl _))
      m.sorted m'.sorted
  cases m
  cases m'
  simpa only [mk.injEq] using heq

theorem size_insert_of_none {m : OrderedMap κ β} {k : κ} (v : β) (h : m.find? k = none) :
    (m.insert k v).size = m.size + 1 := by
  have hl : ∀ l : List (κ × β), lookupEntries k l = none →
      (putEntry k v l).length = l.length + 1 := by
    intro l
    induction l with
    | nil => exact fun _ => rfl
    | cons a rest ih =>
        intro hn
        simp only [lookupEntries] at hn
        split at hn
        · cases hn
        · rename_i hne
          simp only [putEntry, hne, ite_false]
          split <;> simp [ih hn]
  exact hl m.entries h

theorem size_le_size_insert (m : OrderedMap κ β) (k : κ) (v : β) :
    m.size ≤ (m.insert k v).size := by
  rw [← length_keys, ← length_keys]
  refine (List.subperm_of_subset m.nodup_keys ?_).length_le
  intro k' hk'
  obtain ⟨v', hv'⟩ := mem_keys_iff.mp hk'
  rw [mem_keys_iff, find?_insert]
  split
  · exact ⟨v, rfl⟩
  · exact ⟨v', hv'⟩

theorem size_emplace_of_none {m : OrderedMap κ β} {k : κ} (v : β) (h : m.find? k = none) :
    (m.emplace k v).size = m.size + 1 := by
  simp only [emplace, h, Option.isSome_none, Bool.false_eq_true, ite_false]
  exact size_insert_of_none v h

theorem size_emplace_of_some {m : OrderedMap κ β} {k : κ} (v : β)
    (h : (m.find? k).isSome = true) : (m.emplace k v).size = m.size := by
  simp only [emplace, h, ite_true]

theorem size_le_size_emplace (m : OrderedMap κ β) (k : κ) (v : β) :
    m.size ≤ (m.emplace k v).size := by
  cases h : m.find? k with
  | none =>
      rw [size_emplace_of_none v h]
      exact Nat.le_succ _
  | some w => rw [size_emplace_of_some v (by rw [h]; rfl)]

theorem find?_foldl_emplace (key : β → κ) (l : List β) (m : OrderedMap κ β) (k : κ) :
    (l.foldl (fun m v => m.emplace (key v) v) m).find? k =
      (m.find? k).or (l.find? fun v => k = key v) := by
  induction l generalizing m with
  | nil => simp
  | cons a rest ih =>
      rw [List.foldl_cons, ih, find?_emplace]
      by_cases hk : k = key a
      · subst hk
        cases h : m.find? (key a) <;> simp
      · simp [hk]

/-- A collected map holds the first element of each key. -/
theorem find?_collect (key : β → κ) (l : List β) (k : κ) :
    (collect key l).find? k = l.find? fun v => k = key v := by
  rw [collect, find?_foldl_emplace, find?_empty, Option.none_or]

/-- Collecting the values of a map restores it when every value knows its key. -/
theorem collect_values {m : OrderedMap κ β} (key : β → κ)
    (hkey : ∀ k v, m.find? k = some v → key v = k) : collect key m.values = m := by
  apply ext_find?
  intro k
  rw [find?_collect]
  cases h : m.find? k with
  | none =>
      rw [List.find?_eq_none]
      intro v hv hk
      obtain ⟨k', hk'⟩ := mem_values_iff.mp hv
      have he : k = k' := (of_decide_eq_true hk).trans (hkey k' v hk')
      rw [he, hk'] at h
      cases h
  | some v =>
      have hv : v ∈ m.values := mem_values_iff.mpr ⟨k, h⟩
      cases hf : m.values.find? fun w => k = key w with
      | none =>
          have hn := List.find?_eq_none.mp hf v hv
          exact absurd (decide_eq_true (hkey k v h).symm) hn
      | some w =>
          obtain ⟨k', hk'⟩ := mem_values_iff.mp (List.mem_of_find?_eq_some hf)
          have hkw : k = key w := by simpa using List.find?_some hf
          have he : k = k' := hkw.trans (hkey k' w hk')
          rw [he, hk'] at h
          rw [Option.some.inj h]

end OrderedMap
