-- Linearizable histories. Calls overlap, and each takes effect at one moment between its
-- invocation and its response, so that the effects are a run of the sequential object in an
-- order that real time does not contradict.
import ObjcRuntime.Runs

open objc_runtime.runs

namespace objc_runtime.linearizability

variable {Id Op Ret σ : Type*}

inductive Event (Id Op Ret : Type*)
  | invoke (id : Id) (op : Op)
  | respond (id : Id) (ret : Ret)

/-- What a call does, and what it returns for it. -/
structure Effect (Id Op Ret : Type*) where
  id : Id
  op : Op
  ret : Ret

/-- A call has responded before another one is invoked. -/
def Precedes (history : List (Event Id Op Ret)) (a b : Id) : Prop :=
  ∃ before after op ret, history = before ++ .invoke b op :: after ∧ .respond a ret ∈ before

/-- A call takes effect before another one. -/
def EffectBefore (effects : List (Effect Id Op Ret)) (a b : Id) : Prop :=
  ∃ before after, effects = before ++ after ∧ a ∈ before.map Effect.id ∧ b ∈ after.map Effect.id

/-- The effects lead from one state of the sequential object to another, each is that of an
invoked call, all calls that have responded are among them, and their order is that of the
calls that do not overlap. -/
structure Linearizes (spec : σ → Effect Id Op Ret → σ → Prop) (s : σ)
    (history : List (Event Id Op Ret)) (effects : List (Effect Id Op Ret)) (t : σ) : Prop where
  legal : Run spec s effects t
  once : (effects.map Effect.id).Nodup
  invoked : ∀ e, e ∈ effects → .invoke e.id e.op ∈ history
  responded : ∀ id ret, .respond id ret ∈ history → ∃ e, e ∈ effects ∧ e.id = id ∧ e.ret = ret
  ordered : ∀ e, e ∈ effects → ∀ a, Precedes history a e.id → EffectBefore effects a e.id

theorem EffectBefore.append {effects : List (Effect Id Op Ret)} {a b : Id}
    (h : EffectBefore effects a b) (more : List (Effect Id Op Ret)) :
    EffectBefore (effects ++ more) a b := by
  obtain ⟨before, after, rfl, ha, hb⟩ := h
  exact ⟨before, after ++ more, by simp, ha, by simp [hb]⟩

/-- A new event makes a call precede another one only when it invokes that one. -/
theorem precedes_snoc {history : List (Event Id Op Ret)} {event : Event Id Op Ret} {a b : Id}
    (h : Precedes (history ++ [event]) a b) :
    Precedes history a b ∨ ∃ op, event = .invoke b op := by
  obtain ⟨before, after, op, ret, heq, hret⟩ := h
  rcases List.eq_nil_or_concat after with rfl | ⟨after, last, rfl⟩
  · obtain ⟨-, hlast⟩ := List.append_inj' heq rfl
    exact .inr ⟨op, List.singleton_inj.mp hlast⟩
  · left
    rw [List.concat_eq_append, ← List.cons_append, ← List.append_assoc] at heq
    obtain ⟨rfl, -⟩ := List.append_inj' heq rfl
    exact ⟨before, after, op, ret, rfl, hret⟩

theorem Precedes.responded {history : List (Event Id Op Ret)} {a b : Id}
    (h : Precedes history a b) : ∃ ret, .respond a ret ∈ history := by
  obtain ⟨before, after, op, ret, rfl, hret⟩ := h
  exact ⟨ret, List.mem_append_left _ hret⟩

/-! ## A machine linearizes its history step by step -/

section steps
variable {spec spec' : σ → Effect Id Op Ret → σ → Prop} {s t u : σ}
  {history : List (Event Id Op Ret)} {effects : List (Effect Id Op Ret)}

theorem linearizes_nil (spec : σ → Effect Id Op Ret → σ → Prop) (s : σ) :
    Linearizes spec s [] [] s where
  legal := .nil
  once := List.nodup_nil
  invoked := by simp
  responded := by simp
  ordered := by simp

theorem Linearizes.mono (h : Linearizes spec s history effects t)
    (hspec : ∀ t e u, spec t e u → spec' t e u) : Linearizes spec' s history effects t :=
  ⟨h.legal.mono hspec, h.once, h.invoked, h.responded, h.ordered⟩

/-- A new call. -/
theorem Linearizes.invoke (h : Linearizes spec s history effects t) {id : Id} (op : Op)
    (hnew : ∀ op, .invoke id op ∉ history) :
    Linearizes spec s (history ++ [.invoke id op]) effects t where
  legal := h.legal
  once := h.once
  invoked := fun e he => List.mem_append_left _ (h.invoked e he)
  responded := by
    intro a ret ha
    exact h.responded a ret (by simpa using ha)
  ordered := by
    intro e he a ha
    rcases precedes_snoc ha with hold | ⟨op', heq⟩
    · exact h.ordered e he a hold
    · injection heq with hid
      exact absurd (hid ▸ h.invoked e he) (hnew e.op)

/-- A call that is invoked and has had no effect takes effect. -/
theorem Linearizes.takesEffect (h : Linearizes spec s history effects t) {e : Effect Id Op Ret}
    (hinvoked : .invoke e.id e.op ∈ history) (hfirst : e.id ∉ effects.map Effect.id)
    (hspec : spec t e u) : Linearizes spec s history (effects ++ [e]) u where
  legal := h.legal.snoc hspec
  once := by
    rw [List.map_append, List.map_singleton]
    refine List.nodup_append.mpr ⟨h.once, by simp, ?_⟩
    rintro a ha b hb rfl
    exact hfirst (List.mem_singleton.mp hb ▸ ha)
  invoked := by
    intro e' he'
    rcases List.mem_append.mp he' with hold | hnew
    · exact h.invoked e' hold
    · obtain rfl := List.mem_singleton.mp hnew
      exact hinvoked
  responded := by
    intro id ret hret
    obtain ⟨e', he', hid, hret'⟩ := h.responded id ret hret
    exact ⟨e', List.mem_append_left _ he', hid, hret'⟩
  ordered := by
    intro e' he' a ha
    rcases List.mem_append.mp he' with hold | hnew
    · exact (h.ordered e' hold a ha).append [e]
    · obtain rfl := List.mem_singleton.mp hnew
      obtain ⟨ret, hret⟩ := ha.responded
      obtain ⟨first, hfirst', hid, -⟩ := h.responded a ret hret
      exact ⟨effects, [e'], rfl, hid ▸ List.mem_map_of_mem hfirst', by simp⟩

/-- A call that has had its effect returns. -/
theorem Linearizes.respond (h : Linearizes spec s history effects t) {e : Effect Id Op Ret}
    (he : e ∈ effects) : Linearizes spec s (history ++ [.respond e.id e.ret]) effects t where
  legal := h.legal
  once := h.once
  invoked := fun e' he' => List.mem_append_left _ (h.invoked e' he')
  responded := by
    intro id ret hret
    rcases List.mem_append.mp hret with hold | hnew
    · exact h.responded id ret hold
    · injection List.mem_singleton.mp hnew with hid hret'
      exact ⟨e, he, hid.symm, hret'.symm⟩
  ordered := by
    intro e' he' a ha
    rcases precedes_snoc ha with hold | ⟨op, heq⟩
    · exact h.ordered e' he' a hold
    · cases heq

end steps

end objc_runtime.linearizability
