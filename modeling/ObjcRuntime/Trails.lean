-- Computations that leave a trail of events and may fail, with a triple for them: what every event
-- is, when the computation succeeds, and what its value is then.
import Mathlib.Data.List.Basic

namespace objc_runtime.trails

variable {ε α β σ : Type}

/-- The events of a computation up to its end, and its value, unless it failed. -/
structure Trail (ε α : Type) where
  events : List ε
  value? : Option α

namespace Trail

instance : Monad (Trail ε) where
  pure a := { events := [], value? := some a }
  bind t f :=
    match t.value? with
    | none => { events := t.events, value? := none }
    | some a => { events := t.events ++ (f a).events, value? := (f a).value? }

theorem bind_of_none {t : Trail ε α} (h : t.value? = none) (f : α → Trail ε β) :
    t >>= f = { events := t.events, value? := none } := by
  obtain ⟨events, value?⟩ := t
  obtain rfl : value? = _ := h
  rfl

theorem bind_of_some {t : Trail ε α} {a : α} (h : t.value? = some a) (f : α → Trail ε β) :
    t >>= f = { events := t.events ++ (f a).events, value? := (f a).value? } := by
  obtain ⟨events, value?⟩ := t
  obtain rfl : value? = _ := h
  rfl

def fail : Trail ε α := { events := [], value? := none }

def emit (e : ε) : Trail ε Unit := { events := [e], value? := some () }

def ofOption : Option α → Trail ε α
  | none => fail
  | some a => pure a

def require (c : Prop) [Decidable c] : Trail ε Unit := if c then pure () else fail

/-- The failure of a computation as a value. -/
def attempt (t : Trail ε α) : Trail ε (Option α) := { events := t.events, value? := some t.value? }

/-- The body of a loop, a number of times. -/
def loop (body : σ → Trail ε σ) : Nat → σ → Trail ε σ
  | 0, s => pure s
  | n + 1, s => do
    let s ← body s
    loop body n s

/-- Every event satisfies `P`; the computation succeeds if and only if `A`, with a value that
satisfies `Q`. -/
structure Spec (P : ε → Prop) (t : Trail ε α) (A : Prop) (Q : α → Prop) : Prop where
  events : ∀ e ∈ t.events, P e
  value : A → ∃ a, t.value? = some a ∧ Q a
  failure : ¬ A → t.value? = none

variable {P : ε → Prop} {t : Trail ε α} {A B : Prop} {Q Q' : α → Prop} {R : β → Prop}

theorem Spec.pure {a : α} (h : Q a) : Spec P (pure a) True Q where
  events _ he := absurd he List.not_mem_nil
  value _ := ⟨a, rfl, h⟩
  failure hnot := absurd trivial hnot

theorem Spec.pure_eq {a : α} : Spec P (Pure.pure a) True fun b => b = a := Spec.pure rfl

theorem Spec.fail : Spec P (Trail.fail : Trail ε α) False Q where
  events _ he := absurd he List.not_mem_nil
  value h := h.elim
  failure _ := rfl

theorem Spec.emit {e : ε} (he : P e) : Spec P (Trail.emit e) True (fun _ => True) where
  events _ he' := List.mem_singleton.mp he' ▸ he
  value _ := ⟨(), rfl, trivial⟩
  failure hnot := absurd trivial hnot

theorem Spec.require {c : Prop} [Decidable c] : Spec P (Trail.require c) c (fun _ => True) := by
  unfold Trail.require
  split_ifs with hc
  · exact ⟨fun e he => absurd he List.not_mem_nil, fun _ => ⟨(), rfl, trivial⟩, fun hnot => absurd hc hnot⟩
  · exact ⟨fun e he => absurd he List.not_mem_nil, fun h => absurd h hc, fun _ => rfl⟩

theorem Spec.mono (h : Spec P t A Q) (hok : B ↔ A) (hQ : A → ∀ a, Q a → Q' a) :
    Spec P t B Q' where
  events := h.events
  value h' := by
    obtain ⟨a, ha, hq⟩ := h.value (hok.mp h')
    exact ⟨a, ha, hQ (hok.mp h') a hq⟩
  failure h' := h.failure fun hnot => h' (hok.mpr hnot)

theorem Spec.iff (h : Spec P t A Q) (hok : B ↔ A) : Spec P t B Q := h.mono hok fun _ _ hq => hq

/-- The value of a computation that succeeded. -/
theorem Spec.of_value (h : Spec P t A Q) {a : α} (ha : t.value? = some a) : A ∧ Q a := by
  by_cases hok : A
  · obtain ⟨a', ha', hq⟩ := h.value hok
    obtain rfl := Option.some.inj (ha.symm.trans ha')
    exact ⟨hok, hq⟩
  · exact nomatch ha.symm.trans (h.failure hok)

theorem Spec.bind {f : α → Trail ε β} (h : Spec P t A Q) (hf : A → ∀ a, Q a → Spec P (f a) B R) :
    Spec P (t >>= f) (A ∧ B) R := by
  cases hv : t.value? with
  | none =>
    rw [bind_of_none hv]
    refine ⟨h.events, fun hboth => ?_, fun _ => rfl⟩
    obtain ⟨a, ha, -⟩ := h.value hboth.1
    exact nomatch hv.symm.trans ha
  | some a =>
    obtain ⟨hok, hq⟩ := h.of_value hv
    have hnext := hf hok a hq
    rw [bind_of_some hv]
    refine ⟨fun e he => ?_, fun hboth => hnext.value hboth.2,
      fun hnot => hnext.failure fun h' => hnot ⟨hok, h'⟩⟩
    obtain hbefore | hafter := List.mem_append.mp he
    · exact h.events e hbefore
    · exact hnext.events e hafter

/-- A computation with a rest that always succeeds. -/
theorem Spec.andThen {f : α → Trail ε β} (h : Spec P t A Q)
    (hf : A → ∀ a, Q a → Spec P (f a) True R) : Spec P (t >>= f) A R :=
  (h.bind hf).iff (and_iff_left trivial).symm

theorem Spec.attempt (h : Spec P t A Q) :
    Spec P t.attempt True fun a? => (A → ∃ a, a? = some a ∧ Q a) ∧ (¬ A → a? = none) where
  events := h.events
  value _ := ⟨t.value?, rfl, h.value, h.failure⟩
  failure hnot := absurd trivial hnot

/-! ## Records -/

variable {γ : Type}

/-- The records at the front of a list, each with what is behind it. -/
def records (size : List γ → Nat) : Nat → List γ → List (List γ)
  | 0, _ => []
  | n + 1, l => l :: records size n (l.drop (size l))

theorem le_length_of_mem_records {k n : Nat} {l r : List γ} (hl : n * k ≤ l.length)
    (hr : r ∈ records (fun _ => k) n l) : k ≤ r.length := by
  induction n generalizing l with
  | zero => exact absurd hr List.not_mem_nil
  | succ n ih =>
    rw [Nat.succ_mul] at hl
    obtain rfl | hr := List.mem_cons.mp hr
    · omega
    · refine ih ?_ hr
      rw [List.length_drop]
      exact Nat.le_sub_of_add_le hl

/-- A loop with one record for each turn. `At s l done` is the state with `l` left of the list and
the records `done` behind it. -/
theorem Spec.loop {body : σ → Trail ε σ} {size : List γ → Nat} {Ok : List γ → Prop}
    {At : σ → List γ → List (List γ) → Prop}
    (hbody : ∀ s l done, At s l done →
      Spec P (body s) (Ok l) fun s' => At s' (l.drop (size l)) (done ++ [l]))
    (n : Nat) {s : σ} {l : List γ} {done : List (List γ)} (h : At s l done) :
    Spec P (loop body n s) (∀ r ∈ records size n l, Ok r) fun s' =>
      ∃ rest, At s' rest (done ++ records size n l) := by
  induction n generalizing s l done with
  | zero =>
    have hrest : ∃ rest, At s rest (done ++ records size 0 l) := ⟨l, by rwa [records, List.append_nil]⟩
    have hnone : (∀ r ∈ records size 0 l, Ok r) ↔ True := by
      simp [records]
    exact Spec.mono (Q := fun s' => ∃ rest, At s' rest (done ++ records size 0 l)) (Spec.pure hrest)
      hnone fun _ _ hq => hq
  | succ n ih =>
    refine ((hbody s l done h).bind fun _ s' hs' => ih hs').mono ?_ fun _ s' hq => ?_
    · simp only [records, List.forall_mem_cons]
    · rwa [records, List.append_cons]

end Trail

end objc_runtime.trails
