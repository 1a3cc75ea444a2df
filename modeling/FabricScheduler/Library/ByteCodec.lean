import Mathlib.Algebra.Group.Nat.Defs
import Mathlib.Algebra.Ring.Nat
import Mathlib.Data.List.Basic

/-!
# Decoders of byte strings

A decoder takes a value off the front of a byte string or fails. It reads an encoding when
it takes exactly those bytes off any input that starts with them, so that decoders compose
by the rules of the monad while encodings compose by concatenation.
-/

/-- A decoder leaves the bytes it has not taken, or fails. -/
abbrev Decoder (ε α : Type) := StateT (List UInt8) (Except ε) α

namespace Decoder

variable {ε α β κ : Type} [DecidableEq κ]

/-- The decoder takes exactly these bytes and yields this value. -/
def Reads (d : Decoder ε α) (bytes : List UInt8) (a : α) : Prop :=
  ∀ rest, d (bytes ++ rest) = .ok (a, rest)

/-- Take a fixed number of bytes. -/
def exactly (short : ε) (n : Nat) : Decoder ε (List UInt8) := fun input =>
  if input.length < n then .error short else .ok (input.take n, input.drop n)

/-- Go on when the condition holds. -/
def ensure (c : Prop) [Decidable c] (e : ε) : Decoder ε Unit := fun input =>
  if c then .ok ((), input) else .error e

/-- Go on with the value of a computation, and fail as it does otherwise. -/
def check (x : Except ε α) : Decoder ε α := fun input => x.map fun a => (a, input)

/-- The value a code stands for. -/
def known (x : Option α) (e : ε) : Decoder ε α := fun input =>
  match x with
  | some a => .ok (a, input)
  | none => .error e

/-- Take a value, and fail when it does not use up the input. -/
def whole (garbage : ε) (d : Decoder ε α) (input : List UInt8) : Except ε α :=
  match d input with
  | .ok (a, []) => .ok a
  | .ok _ => .error garbage
  | .error e => .error e

/-- Take a fixed number of values in turn. -/
def many (d : Decoder ε α) : Nat → Decoder ε (List α)
  | 0 => pure []
  | n + 1 => do
      let a ← d
      let rest ← many d n
      pure (a :: rest)

/-- Take a fixed number of values whose keys are distinct from each other and from those
seen before. -/
def distinct (key : α → κ) (duplicate : ε) (d : Decoder ε α) :
    Nat → List κ → Decoder ε (List α)
  | 0, _ => pure []
  | n + 1, seen => do
      let a ← d
      ensure (key a ∉ seen) duplicate
      let rest ← distinct key duplicate d n (key a :: seen)
      pure (a :: rest)

theorem pure_ok {a b : α} {s rest : List UInt8} :
    (pure a : Decoder ε α) s = .ok (b, rest) ↔ a = b ∧ rest = s := by
  change Except.ok (a, s) = .ok (b, rest) ↔ _
  rw [Except.ok.injEq, Prod.mk.injEq, @eq_comm _ s]

/-- A sequence succeeds exactly when both of its parts do. -/
theorem bind_ok {d : Decoder ε α} {f : α → Decoder ε β} {s rest : List UInt8} {b : β} :
    (d >>= f) s = .ok (b, rest) ↔ ∃ a s', d s = .ok (a, s') ∧ f a s' = .ok (b, rest) := by
  change (d s).bind (fun p => f p.1 p.2) = _ ↔ _
  cases d s with
  | ok p =>
      constructor
      · exact fun h => ⟨p.1, p.2, rfl, h⟩
      · rintro ⟨a, s', hd, hf⟩
        cases hd
        exact hf
  | error e =>
      constructor
      · intro h
        cases h
      · rintro ⟨a, s', hd, _⟩
        cases hd

theorem bind_eq {d : Decoder ε α} {s s' : List UInt8} {a : α} (h : d s = .ok (a, s'))
    (f : α → Decoder ε β) : (d >>= f) s = f a s' := by
  change (d s).bind (fun p => f p.1 p.2) = _
  rw [h]
  rfl

theorem bind_error {d : Decoder ε α} {s : List UInt8} {e : ε} (h : d s = .error e)
    (f : α → Decoder ε β) : (d >>= f) s = .error e := by
  change (d s).bind (fun p => f p.1 p.2) = _
  rw [h]
  rfl

theorem exactly_short {s : List UInt8} {n : Nat} (h : s.length < n) (short : ε) :
    exactly short n s = .error short := if_pos h

theorem exactly_ok {short : ε} {n : Nat} {s bytes rest : List UInt8} :
    exactly short n s = .ok (bytes, rest) ↔ s = bytes ++ rest ∧ bytes.length = n := by
  rw [exactly]
  split
  · rename_i hshort
    constructor
    · intro h
      cases h
    · rintro ⟨rfl, hlen⟩
      rw [List.length_append] at hshort
      omega
  · rename_i hshort
    rw [Except.ok.injEq, Prod.mk.injEq]
    constructor
    · rintro ⟨rfl, rfl⟩
      exact ⟨(List.take_append_drop n s).symm, List.length_take_of_le (Nat.le_of_not_lt hshort)⟩
    · rintro ⟨rfl, hlen⟩
      exact ⟨List.take_left' hlen, List.drop_left' hlen⟩

theorem ensure_ok {c : Prop} [Decidable c] {e : ε} {u : Unit} {s rest : List UInt8} :
    ensure c e s = .ok (u, rest) ↔ c ∧ rest = s := by
  rw [ensure]
  split
  · rename_i hc
    rw [Except.ok.injEq, Prod.mk.injEq, @eq_comm _ s]
    exact ⟨fun h => ⟨hc, h.2⟩, fun h => ⟨rfl, h.2⟩⟩
  · rename_i hc
    constructor
    · intro h
      cases h
    · exact fun h => absurd h.1 hc

theorem check_ok {x : Except ε α} {a : α} {s rest : List UInt8} :
    check x s = .ok (a, rest) ↔ x = .ok a ∧ rest = s := by
  rw [check]
  cases x with
  | ok b =>
      change Except.ok (b, s) = .ok (a, rest) ↔ _
      rw [Except.ok.injEq, Prod.mk.injEq, Except.ok.injEq, @eq_comm _ s]
  | error e =>
      constructor
      · intro h
        cases h
      · rintro ⟨h, _⟩
        cases h

theorem known_ok {x : Option α} {e : ε} {a : α} {s rest : List UInt8} :
    known x e s = .ok (a, rest) ↔ x = some a ∧ rest = s := by
  cases x with
  | some b =>
      change Except.ok (b, s) = .ok (a, rest) ↔ _
      rw [Except.ok.injEq, Prod.mk.injEq, Option.some.injEq, @eq_comm _ s]
  | none =>
      constructor
      · intro h
        cases h
      · rintro ⟨h, _⟩
        cases h

/-- A value is accepted as a whole exactly when nothing is left after it. -/
theorem whole_ok {garbage : ε} {d : Decoder ε α} {input : List UInt8} {a : α} :
    whole garbage d input = .ok a ↔ d input = .ok (a, []) := by
  rw [whole]
  split <;> simp_all

theorem reads_pure (a : α) : (pure a : Decoder ε α).Reads [] a := fun _ => rfl

theorem Reads.bind {d : Decoder ε α} {f : α → Decoder ε β} {xs ys : List UInt8} {a : α}
    {b : β} (h : d.Reads xs a) (hf : (f a).Reads ys b) : (d >>= f).Reads (xs ++ ys) b := by
  intro rest
  change (d (xs ++ ys ++ rest)).bind _ = _
  rw [List.append_assoc, h]
  exact hf rest

/-- What follows takes no further bytes. -/
theorem Reads.last {d : Decoder ε α} {f : α → Decoder ε β} {xs : List UInt8} {a : α} {b : β}
    (h : d.Reads xs a) (hf : (f a).Reads [] b) : (d >>= f).Reads xs b := by
  have hbind := h.bind hf
  rwa [List.append_nil] at hbind

/-- A field is read and the fields after it follow. -/
theorem Reads.field {d : Decoder ε α} {f : α → Decoder ε β} {x : List UInt8}
    {fields : List (List UInt8)} {a : α} {b : β} (h : d.Reads x a)
    (hf : (f a).Reads fields.flatten b) : (d >>= f).Reads (x :: fields).flatten b := by
  rw [List.flatten_cons]
  exact h.bind hf

/-- A step that takes no bytes. -/
theorem Reads.silent {d : Decoder ε α} {f : α → Decoder ε β} {ys : List UInt8} {a : α} {b : β}
    (h : d.Reads [] a) (hf : (f a).Reads ys b) : (d >>= f).Reads ys b := h.bind hf

/-- An encoding on its own is used up. -/
theorem Reads.run {d : Decoder ε α} {xs : List UInt8} {a : α} (h : d.Reads xs a) :
    d xs = .ok (a, []) := by
  have hempty := h []
  rwa [List.append_nil] at hempty

/-- Only the value that was written is read. -/
theorem Reads.unique {d : Decoder ε α} {xs : List UInt8} {a a' : α} (h : d.Reads xs a)
    (h' : d.Reads xs a') : a = a' := by
  have heq := h.run.symm.trans h'.run
  cases heq
  rfl

theorem reads_exactly (short : ε) (bytes : List UInt8) {n : Nat} (h : bytes.length = n) :
    (exactly short n).Reads bytes bytes := by
  intro rest
  have hlen : ¬(bytes ++ rest).length < n := by
    rw [List.length_append]
    omega
  rw [exactly, if_neg hlen, List.take_left' h, List.drop_left' h]

theorem reads_ensure {c : Prop} [Decidable c] (h : c) (e : ε) : (ensure c e).Reads [] () := by
  intro rest
  rw [ensure, if_pos h]
  rfl

theorem reads_check {x : Except ε α} {a : α} (h : x = .ok a) : (check x).Reads [] a := by
  intro rest
  rw [check, h]
  rfl

/-- A value that is read off its encoding and then checked is accepted or refused as the
check goes. -/
theorem Reads.whole_check {d : Decoder ε α} {xs : List UInt8} {a : α} (h : d.Reads xs a)
    (garbage : ε) (x : α → Except ε Unit) :
    whole garbage (do let a ← d; check (x a); pure a) xs = (x a).map fun _ => a := by
  have hrun : (do let a ← d; check (x a); pure a : Decoder ε α) xs =
      (x a).map fun _ => (a, []) := by
    change (d xs).bind _ = _
    rw [h.run]
    change (check (x a) []).bind _ = _
    rw [check]
    cases x a <;> rfl
  rw [whole, hrun]
  cases x a <;> rfl

theorem reads_known {x : Option α} {a : α} (h : x = some a) (e : ε) :
    (known x e).Reads [] a := by
  intro rest
  rw [h]
  rfl

section ReadsWhen

variable {d : Decoder ε α} {f : α → Decoder ε β} {bound : Nat} {P Q : Prop}
  {xs ys : List UInt8} {a : α} {b : β}

/-- The decoder reads the encoding back when the condition holds, and accepts an encoding
shorter than the bound in no other case. -/
structure ReadsWhen (d : Decoder ε α) (bound : Nat) (P : Prop) (bytes : List UInt8) (a : α) :
    Prop where
  reads : P → d.Reads bytes a
  only : bytes.length < bound → ∀ s b rest, d (bytes ++ s) = .ok (b, rest) → P

theorem Reads.when (h : d.Reads xs a) : d.ReadsWhen bound True xs a :=
  ⟨fun _ => h, fun _ _ _ _ _ => trivial⟩

theorem ReadsWhen.congr (h : d.ReadsWhen bound P xs a) (hPQ : P ↔ Q) :
    d.ReadsWhen bound Q xs a :=
  ⟨fun hQ => h.reads (hPQ.mpr hQ), fun hlen s b rest hd => hPQ.mp (h.only hlen s b rest hd)⟩

theorem readsWhen_pure (a : α) : (pure a : Decoder ε α).ReadsWhen bound True [] a :=
  (reads_pure a).when

/-- A sequence accepts an encoding when both of its parts accept theirs. -/
theorem ReadsWhen.bind (h : d.ReadsWhen bound P xs a)
    (hf : P → (f a).ReadsWhen bound Q ys b) :
    (d >>= f).ReadsWhen bound (P ∧ Q) (xs ++ ys) b := by
  constructor
  · intro hPQ
    exact (h.reads hPQ.1).bind ((hf hPQ.1).reads hPQ.2)
  · intro hlen s b' rest hbind
    rw [List.length_append] at hlen
    rw [List.append_assoc] at hbind
    obtain ⟨a', s', hd, hrest⟩ := bind_ok.mp hbind
    have hP : P := h.only (by omega) _ _ _ hd
    rw [h.reads hP] at hd
    cases hd
    exact ⟨hP, (hf hP).only (by omega) _ _ _ hrest⟩

/-- A field that is always accepted and the fields after it. -/
theorem ReadsWhen.field {x : List UInt8} {fields : List (List UInt8)} (h : d.Reads x a)
    (hf : (f a).ReadsWhen bound P fields.flatten b) :
    (d >>= f).ReadsWhen bound P (x :: fields).flatten b := by
  rw [List.flatten_cons]
  exact (h.when.bind fun _ => hf).congr (iff_of_eq (true_and P))

/-- A field that is accepted on a condition and the fields after it. -/
theorem ReadsWhen.guarded {x : List UInt8} {fields : List (List UInt8)}
    (h : d.ReadsWhen bound P x a) (hf : P → (f a).ReadsWhen bound Q fields.flatten b) :
    (d >>= f).ReadsWhen bound (P ∧ Q) (x :: fields).flatten b := by
  rw [List.flatten_cons]
  exact h.bind hf

/-- What follows takes no further bytes. -/
theorem ReadsWhen.last (h : d.ReadsWhen bound P xs a) (hf : (f a).Reads [] b) :
    (d >>= f).ReadsWhen bound P xs b := by
  have hbind : (d >>= f).ReadsWhen bound (P ∧ True) (xs ++ []) b := h.bind fun _ => hf.when
  rw [List.append_nil] at hbind
  exact hbind.congr (iff_of_eq (and_true P))

/-- A test that takes no bytes and what follows it. -/
theorem ReadsWhen.test (h : d.ReadsWhen bound P [] a)
    (hf : P → (f a).ReadsWhen bound Q ys b) : (d >>= f).ReadsWhen bound (P ∧ Q) ys b :=
  h.bind hf

theorem readsWhen_ensure {c : Prop} [Decidable c] (e : ε) :
    (ensure c e).ReadsWhen bound c [] () :=
  ⟨fun h => reads_ensure h e, fun _ _ _ _ h => (ensure_ok.mp h).1⟩

/-- The outcome of a check is accepted when the check comes out well. -/
theorem readsWhen_check {x : Except ε α} (hok : P → x = .ok a) (honly : ∀ b, x = .ok b → P) :
    (check x).ReadsWhen bound P [] a :=
  ⟨fun hP => reads_check (hok hP), fun _ _ b _ h => honly b (check_ok.mp h).1⟩

/-- An encoding on its own is accepted exactly when the condition holds. -/
theorem ReadsWhen.run_iff (h : d.ReadsWhen bound P xs a) (hlen : xs.length < bound) :
    (∃ p, d xs = .ok p) ↔ P := by
  constructor
  · rintro ⟨⟨b, rest⟩, hd⟩
    exact h.only hlen [] b rest (by rwa [List.append_nil])
  · exact fun hP => ⟨(a, []), (h.reads hP).run⟩

/-- Values written one after the other are accepted when each of them is. -/
theorem readsWhen_many {enc : β → List UInt8} (f : β → α) {P : β → Prop} {l : List β}
    (h : ∀ b ∈ l, d.ReadsWhen bound (P b) (enc b) (f b)) :
    (many d l.length).ReadsWhen bound (∀ b ∈ l, P b) (l.flatMap enc) (l.map f) := by
  induction l with
  | nil => exact (readsWhen_pure []).congr (by simp)
  | cons b l ih =>
      rw [List.flatMap_cons, List.forall_mem_cons]
      refine (h b (List.mem_cons_self ..)).bind fun _ => ?_
      exact (ih fun x hx => h x (List.mem_cons_of_mem b hx)).last (reads_pure _)

/-- Values with distinct keys written one after the other are accepted when each of them
is, the keys differ from each other and none of them has been seen. -/
theorem readsWhen_distinct {key : α → κ} {duplicate : ε} {enc : β → List UInt8} (f : β → α)
    {P : β → Prop} {l : List β} {seen : List κ}
    (h : ∀ b ∈ l, d.ReadsWhen bound (P b) (enc b) (f b)) :
    (distinct key duplicate d l.length seen).ReadsWhen bound
      ((l.map fun b => key (f b)).Nodup ∧ (∀ b ∈ l, key (f b) ∉ seen) ∧ ∀ b ∈ l, P b)
      (l.flatMap enc) (l.map f) := by
  induction l generalizing seen with
  | nil => exact (readsWhen_pure []).congr (by simp)
  | cons b l ih =>
      have hcons : (distinct key duplicate d (l.length + 1) seen).ReadsWhen bound
          (P b ∧ key (f b) ∉ seen ∧ (l.map fun b => key (f b)).Nodup ∧
            (∀ x ∈ l, key (f x) ∉ key (f b) :: seen) ∧ ∀ x ∈ l, P x)
          (enc b ++ l.flatMap enc) (f b :: l.map f) := by
        refine (h b (List.mem_cons_self ..)).bind fun _ => ?_
        refine (readsWhen_ensure duplicate).test fun _ => ?_
        exact (ih fun x hx => h x (List.mem_cons_of_mem b hx)).last (reads_pure _)
      rw [List.flatMap_cons]
      refine hcons.congr ?_
      rw [List.map_cons, List.nodup_cons, List.mem_map, List.forall_mem_cons,
        List.forall_mem_cons]
      simp only [List.mem_cons, not_or]
      constructor
      · rintro ⟨hb, hnew, hnodup, hfresh, hl⟩
        exact ⟨⟨fun ⟨x, hx, heq⟩ => (hfresh x hx).1 heq, hnodup⟩,
          ⟨hnew, fun x hx => (hfresh x hx).2⟩, hb, hl⟩
      · rintro ⟨⟨hother, hnodup⟩, ⟨hnew, hseen⟩, hb, hl⟩
        exact ⟨hb, hnew, hnodup, fun x hx => ⟨fun heq => hother ⟨x, hx, heq⟩, hseen x hx⟩, hl⟩

end ReadsWhen

/-- Reading a list of values written one after the other. -/
theorem reads_many {d : Decoder ε α} {enc : β → List UInt8} (f : β → α) {l : List β}
    (h : ∀ b ∈ l, d.Reads (enc b) (f b)) :
    (many d l.length).Reads (l.flatMap enc) (l.map f) := by
  have hwhen : ∀ b ∈ l, d.ReadsWhen 0 True (enc b) (f b) := fun b hb => (h b hb).when
  exact (readsWhen_many f hwhen).reads fun _ _ => trivial

/-- Reading a list of values with distinct keys written one after the other. -/
theorem reads_distinct {key : α → κ} {duplicate : ε} {d : Decoder ε α} {enc : β → List UInt8}
    (f : β → α) {l : List β} {seen : List κ} (h : ∀ b ∈ l, d.Reads (enc b) (f b))
    (hkeys : (l.map fun b => key (f b)).Nodup) (hseen : ∀ b ∈ l, key (f b) ∉ seen) :
    (distinct key duplicate d l.length seen).Reads (l.flatMap enc) (l.map f) := by
  have hwhen : ∀ b ∈ l, d.ReadsWhen 0 True (enc b) (f b) := fun b hb => (h b hb).when
  exact (readsWhen_distinct f hwhen).reads ⟨hkeys, hseen, fun _ _ => trivial⟩

section Yields

variable {d : Decoder ε α} {f : α → Decoder ε β} {P : α → Prop} {Q : β → Prop}

/-- Whatever is read, the value has the property. -/
def Yields (d : Decoder ε α) (P : α → Prop) : Prop :=
  ∀ s a rest, d s = .ok (a, rest) → P a

theorem yields_pure {a : α} (h : P a) : (pure a : Decoder ε α).Yields P := by
  intro s b rest hpure
  obtain ⟨rfl, _⟩ := pure_ok.mp hpure
  exact h

theorem Yields.bind (h : d.Yields P) (hf : ∀ a, P a → (f a).Yields Q) :
    (d >>= f).Yields Q := by
  intro s b rest hbind
  obtain ⟨a, s', hd, hrest⟩ := bind_ok.mp hbind
  exact hf a (h s a s' hd) s' b rest hrest

/-- A step whose value does not matter. -/
theorem Yields.skip (hf : ∀ a, (f a).Yields Q) : (d >>= f).Yields Q := by
  intro s b rest hbind
  obtain ⟨a, s', _, hrest⟩ := bind_ok.mp hbind
  exact hf a s' b rest hrest

theorem yields_ensure {c : Prop} [Decidable c] {e : ε} : (ensure c e).Yields fun _ => c :=
  fun _ _ _ h => (ensure_ok.mp h).1

theorem yields_check {x : Except ε α} : (check x).Yields fun a => x = .ok a :=
  fun _ _ _ h => (check_ok.mp h).1

theorem yields_many (h : d.Yields P) (n : Nat) : (many d n).Yields fun l => ∀ a ∈ l, P a := by
  induction n with
  | zero => exact yields_pure fun a ha => absurd ha List.not_mem_nil
  | succ n ih =>
      refine h.bind fun a ha => ih.bind fun rest hrest => yields_pure ?_
      exact List.forall_mem_cons.mpr ⟨ha, hrest⟩

theorem yields_distinct {key : α → κ} {duplicate : ε} (h : d.Yields P) (n : Nat)
    (seen : List κ) : (distinct key duplicate d n seen).Yields fun l =>
      ((l.map key).Nodup ∧ ∀ k ∈ l.map key, k ∉ seen) ∧ ∀ a ∈ l, P a := by
  induction n generalizing seen with
  | zero => exact yields_pure (by simp)
  | succ n ih =>
      refine h.bind fun a ha => yields_ensure.bind fun _ hnew => ?_
      refine (ih (key a :: seen)).bind fun rest ⟨⟨hnodup, hfresh⟩, hrest⟩ => yields_pure ?_
      have hkey : key a ∉ rest.map key := fun hmem => hfresh _ hmem (List.mem_cons_self ..)
      refine ⟨⟨?_, ?_⟩, List.forall_mem_cons.mpr ⟨ha, hrest⟩⟩
      · rw [List.map_cons]
        exact List.nodup_cons.mpr ⟨hkey, hnodup⟩
      · rw [List.map_cons, List.forall_mem_cons]
        exact ⟨hnew, fun k hk hmem => hfresh k hk (List.mem_cons_of_mem _ hmem)⟩

end Yields

section Spends

variable {d : Decoder ε α} {f : α → Decoder ε β} {P : α → Prop} {Q : β → Prop}
  {size : α → Nat} {total : β → Nat} {n : Nat}

/-- Whatever is read after a number of bytes has the property and, by its size, is worth no
more than those bytes and the bytes that were taken for it. -/
def Spends (n : Nat) (d : Decoder ε α) (P : α → Prop) (size : α → Nat) : Prop :=
  ∀ s a rest, d s = .ok (a, rest) → P a ∧ size a + rest.length ≤ n + s.length

theorem spends_pure {a : α} (h : P a) (hsize : size a ≤ n) :
    Spends n (pure a : Decoder ε α) P size := by
  intro s b rest hpure
  obtain ⟨rfl, rfl⟩ := pure_ok.mp hpure
  exact ⟨h, Nat.add_le_add_right hsize _⟩

/-- What a value is worth is at hand for the values after it. -/
theorem Spends.bind (h : Spends 0 d P size)
    (hf : ∀ a, P a → Spends (n + size a) (f a) Q total) : Spends n (d >>= f) Q total := by
  intro s b rest hbind
  obtain ⟨a, s', hd, hrest⟩ := bind_ok.mp hbind
  obtain ⟨ha, hspent⟩ := h s a s' hd
  obtain ⟨hb, htotal⟩ := hf a ha s' b rest hrest
  refine ⟨hb, ?_⟩
  omega

theorem Spends.imp (h : Spends n d P size) {P' : α → Prop} {size' : α → Nat}
    (hP : ∀ a, P a → P' a) (hsize : ∀ a, P a → size' a ≤ size a) : Spends n d P' size' := by
  intro s a rest hd
  obtain ⟨ha, hspent⟩ := h s a rest hd
  exact ⟨hP a ha, Nat.le_trans (Nat.add_le_add_right (hsize a ha) _) hspent⟩

theorem Spends.after (h : Spends 0 d P size) : Spends n d P fun a => n + size a := by
  intro s a rest hd
  obtain ⟨ha, hspent⟩ := h s a rest hd
  refine ⟨ha, ?_⟩
  dsimp only
  omega

theorem spends_exactly (short : ε) (k : Nat) :
    Spends 0 (exactly short k) (fun bytes => bytes.length = k) List.length := by
  intro s bytes rest h
  obtain ⟨rfl, hlen⟩ := exactly_ok.mp h
  rw [List.length_append, Nat.zero_add]
  exact ⟨hlen, le_rfl⟩

theorem spends_ensure {c : Prop} [Decidable c] {e : ε} :
    Spends 0 (ensure c e) (fun _ => c) (fun _ => 0) := by
  intro s u rest h
  obtain ⟨hc, rfl⟩ := ensure_ok.mp h
  exact ⟨hc, le_rfl⟩

theorem spends_check {x : Except ε α} : Spends 0 (check x) (fun a => x = .ok a) (fun _ => 0) := by
  intro s a rest h
  obtain ⟨ha, rfl⟩ := check_ok.mp h
  exact ⟨ha, le_rfl⟩

theorem spends_known {x : Option α} {e : ε} :
    Spends 0 (known x e) (fun a => x = some a) (fun _ => 0) := by
  intro s a rest h
  obtain ⟨ha, rfl⟩ := known_ok.mp h
  exact ⟨ha, le_rfl⟩

/-- Values read one after the other are worth no more together than the bytes taken. -/
theorem spends_many (h : Spends 0 d P size) (k : Nat) :
    Spends 0 (many d k) (fun l => l.length = k ∧ ∀ a ∈ l, P a) fun l => (l.map size).sum := by
  induction k with
  | zero => exact spends_pure ⟨rfl, fun a ha => absurd ha List.not_mem_nil⟩ le_rfl
  | succ k ih =>
      refine h.bind fun a ha => ih.bind fun l ⟨hlen, hl⟩ => spends_pure ⟨?_, ?_⟩ ?_
      · rw [List.length_cons, hlen]
      · exact List.forall_mem_cons.mpr ⟨ha, hl⟩
      · rw [List.map_cons, List.sum_cons, Nat.zero_add]

theorem spends_distinct {key : α → κ} {duplicate : ε} (h : Spends 0 d P size) (k : Nat)
    (seen : List κ) : Spends 0 (distinct key duplicate d k seen)
      (fun l => l.length = k ∧ ∀ a ∈ l, P a) fun l => (l.map size).sum := by
  induction k generalizing seen with
  | zero => exact spends_pure ⟨rfl, fun a ha => absurd ha List.not_mem_nil⟩ le_rfl
  | succ k ih =>
      refine h.bind fun a ha => spends_ensure.bind fun _ _ => ?_
      refine (ih (key a :: seen)).bind fun l ⟨hlen, hl⟩ => spends_pure ⟨?_, ?_⟩ ?_
      · rw [List.length_cons, hlen]
      · exact List.forall_mem_cons.mpr ⟨ha, hl⟩
      · rw [List.map_cons, List.sum_cons, Nat.zero_add, Nat.add_zero]

end Spends

section Splits

variable {d : Decoder ε α} {s : List UInt8} {as bs : List α} {last last' : List UInt8} {n : Nat}

/-- Values are read off the bytes one after the other, up to a rest off which none is read. -/
inductive Splits (d : Decoder ε α) : List UInt8 → List α → List UInt8 → Prop
  | stop {s : List UInt8} {e : ε} (h : d s = .error e) : Splits d s [] s
  | next {s rest last : List UInt8} {a : α} {as : List α} (h : d s = .ok (a, rest))
      (hrest : Splits d rest as last) : Splits d s (a :: as) last

/-- A decoder that takes bytes whenever it succeeds comes to an end on any bytes. -/
theorem exists_splits (hd : ∀ s a rest, d s = .ok (a, rest) → rest.length < s.length)
    (s : List UInt8) : ∃ as last, Splits d s as last := by
  induction hlen : s.length using Nat.strongRecOn generalizing s with
  | ind n ih =>
      cases hs : d s with
      | error e => exact ⟨[], s, .stop hs⟩
      | ok p =>
          obtain ⟨a, rest⟩ := p
          have hlt := hd s a rest hs
          obtain ⟨as, last, hrest⟩ := ih rest.length (hlen ▸ hlt) rest rfl
          exact ⟨a :: as, last, .next hs hrest⟩

/-- Bytes are split in one way. -/
theorem Splits.unique (h : Splits d s as last) (h' : Splits d s bs last') :
    as = bs ∧ last = last' := by
  induction h generalizing bs with
  | stop h =>
      cases h' with
      | stop => exact ⟨rfl, rfl⟩
      | next h' => cases h.symm.trans h'
  | next h _ ih =>
      cases h' with
      | stop h' => cases h.symm.trans h'
      | next h' hrest' =>
          cases h.symm.trans h'
          obtain ⟨rfl, rfl⟩ := ih hrest'
          exact ⟨rfl, rfl⟩

/-- As many values as there are can be read, and they are the first of them. -/
theorem Splits.many_ok (h : Splits d s as last) (hn : n ≤ as.length) :
    ∃ rest, many d n s = .ok (as.take n, rest) ∧ Splits d rest (as.drop n) last := by
  induction h generalizing n with
  | stop h =>
      obtain rfl := Nat.le_zero.mp hn
      exact ⟨_, rfl, .stop h⟩
  | @next s rest last a as h hrest ih =>
      cases n with
      | zero => exact ⟨s, rfl, .next h hrest⟩
      | succ n =>
          obtain ⟨rest', hmany, hsplits⟩ := ih (Nat.le_of_succ_le_succ hn)
          refine ⟨rest', ?_, hsplits⟩
          rw [many, bind_eq h, bind_eq hmany]
          rfl

/-- More values than there are cannot be read. -/
theorem Splits.many_error (h : Splits d s as last) (hn : as.length < n) :
    ∃ e, many d n s = .error e := by
  cases hmany : many d n s with
  | error e => exact ⟨e, rfl⟩
  | ok p =>
      obtain ⟨bs, rest⟩ := p
      exfalso
      induction h generalizing n bs rest with
      | stop h =>
          obtain ⟨m, rfl⟩ := Nat.exists_eq_succ_of_ne_zero (Nat.ne_zero_of_lt hn)
          rw [many] at hmany
          obtain ⟨a, s', hd, _⟩ := bind_ok.mp hmany
          cases h.symm.trans hd
      | next h _ ih =>
          obtain ⟨m, rfl⟩ := Nat.exists_eq_succ_of_ne_zero (Nat.ne_zero_of_lt hn)
          rw [many, bind_eq h] at hmany
          obtain ⟨bs', s', hd, _⟩ := bind_ok.mp hmany
          exact ih (Nat.lt_of_succ_lt_succ hn) bs' s' hd

end Splits

section Follows

variable {τ : Type} {R : List UInt8 → τ → Prop}

/-- A computation over another kind of input follows a decoder when, on related inputs, it
yields what the decoder yields and leaves related inputs, and fails when the decoder does. -/
def Follows (R : List UInt8 → τ → Prop) (x : StateT τ (Except ε) α) (d : Decoder ε α) : Prop :=
  ∀ s t, R s t →
    (∀ a rest, d s = .ok (a, rest) → ∃ t', x t = .ok (a, t') ∧ R rest t') ∧
    ∀ e, d s = .error e → ∃ e', x t = .error e'

theorem follows_pure (a : α) : Follows R (pure a : StateT τ (Except ε) α) (pure a) := by
  intro s t hR
  constructor
  · intro b rest h
    obtain ⟨rfl, rfl⟩ := pure_ok.mp h
    exact ⟨t, rfl, hR⟩
  · intro e h
    cases h

theorem Follows.bind {x : StateT τ (Except ε) α} {d : Decoder ε α}
    {y : α → StateT τ (Except ε) β} {f : α → Decoder ε β} (h : Follows R x d)
    (hf : ∀ a, Follows R (y a) (f a)) : Follows R (x >>= y) (d >>= f) := by
  intro s t hR
  obtain ⟨hok, herror⟩ := h s t hR
  change _ ∧ ∀ e, (d s).bind (fun p => f p.1 p.2) = .error e →
    ∃ e', (x t).bind (fun p => y p.1 p.2) = .error e'
  constructor
  · intro b rest hbind
    obtain ⟨a, s', hd, hrest⟩ := bind_ok.mp hbind
    obtain ⟨t', hx, hR'⟩ := hok a s' hd
    obtain ⟨t'', hy, hR''⟩ := (hf a s' t' hR').1 b rest hrest
    refine ⟨t'', ?_, hR''⟩
    change (x t).bind _ = _
    rw [hx]
    exact hy
  · intro e hbind
    cases hd : d s with
    | ok p =>
        obtain ⟨t', hx, hR'⟩ := hok p.1 p.2 hd
        rw [hd] at hbind
        rw [hx]
        exact (hf p.1 p.2 t' hR').2 e hbind
    | error e' =>
        obtain ⟨e'', hx⟩ := herror e' hd
        rw [hx]
        exact ⟨e'', rfl⟩

/-- A step that takes no input. -/
theorem follows_lift (x : Except ε α) :
    Follows R (StateT.lift x : StateT τ (Except ε) α) (check x) := by
  intro s t hR
  cases x with
  | ok b =>
      constructor
      · intro a rest h
        obtain ⟨hb, rfl⟩ := check_ok.mp h
        cases hb
        exact ⟨t, rfl, hR⟩
      · intro e h
        cases h
  | error e =>
      constructor
      · intro a rest h
        cases h
      · intro e' h
        exact ⟨e, rfl⟩

end Follows

end Decoder

/-- The little-endian bytes of a number, lowest first. -/
def littleEndian : Nat → Nat → List UInt8
  | 0, _ => []
  | n + 1, v => UInt8.ofNat v :: littleEndian n (v / 256)

/-- The number with the given little-endian bytes. -/
def ofLittleEndian : List UInt8 → Nat
  | [] => 0
  | b :: rest => b.toNat + 256 * ofLittleEndian rest

@[simp] theorem length_littleEndian (n v : Nat) : (littleEndian n v).length = n := by
  induction n generalizing v with
  | zero => rfl
  | succ n ih => rw [littleEndian, List.length_cons, ih]

/-- Reading the bytes of a number that fits them yields the number. -/
theorem ofLittleEndian_littleEndian {n v : Nat} (h : v < 256 ^ n) :
    ofLittleEndian (littleEndian n v) = v := by
  induction n generalizing v with
  | zero =>
      rw [Nat.pow_zero] at h
      rw [littleEndian, ofLittleEndian]
      omega
  | succ n ih =>
      have hdiv : v / 256 < 256 ^ n := by
        rw [Nat.pow_succ] at h
        exact Nat.div_lt_of_lt_mul (by rwa [Nat.mul_comm] at h)
      rw [littleEndian, ofLittleEndian, ih hdiv, UInt8.toNat_ofNat']
      exact Nat.mod_add_div v 256

/-- The bytes a number was read from are its bytes. -/
theorem littleEndian_ofLittleEndian (bytes : List UInt8) :
    littleEndian bytes.length (ofLittleEndian bytes) = bytes := by
  induction bytes with
  | nil => rfl
  | cons b rest ih =>
      have hb := b.toNat_lt
      have hdiv : (b.toNat + 256 * ofLittleEndian rest) / 256 = ofLittleEndian rest := by omega
      rw [List.length_cons, ofLittleEndian, littleEndian, hdiv, ih]
      congr 1
      apply UInt8.toNat_inj.mp
      rw [UInt8.toNat_ofNat']
      omega

theorem ofLittleEndian_lt (bytes : List UInt8) : ofLittleEndian bytes < 256 ^ bytes.length := by
  induction bytes with
  | nil => decide
  | cons b rest ih =>
      have hb := b.toNat_lt
      rw [List.length_cons, ofLittleEndian, Nat.pow_succ]
      omega
