-- Runs of a machine: a start state, a list of actions and the state after
-- them. The laws of the runtime are about every run, of any length, so each
-- proof needs only what one step keeps.
import Mathlib.Data.List.Induction

namespace objc_runtime.runs

variable {σ α τ : Type*}

/-- `Run step s as t`: the actions `as`, one by one, lead from `s` to `t`. -/
inductive Run (step : σ → α → σ → Prop) (s : σ) : List α → σ → Prop
  | nil : Run step s [] s
  | snoc {as : List α} {t u : σ} {a : α} :
      Run step s as t → step t a u → Run step s (as ++ [a]) u

/-- What the start has and each step keeps, every state of a run has. -/
theorem Run.invariant {step : σ → α → σ → Prop} {Inv : σ → Prop} {s t : σ} {as : List α}
    (h : Run step s as t) (h0 : Inv s) (hstep : ∀ t a u, Inv t → step t a u → Inv u) : Inv t := by
  induction h with
  | nil => exact h0
  | snoc _ hs ih => exact hstep _ _ _ ih hs

theorem Run.mono {step step' : σ → α → σ → Prop} {s t : σ} {as : List α}
    (h : Run step s as t) (hstep : ∀ t a u, step t a u → step' t a u) : Run step' s as t := by
  induction h with
  | nil => exact .nil
  | snoc _ hs ih => exact .snoc ih (hstep _ _ _ hs)

theorem Run.append {step : σ → α → σ → Prop} {s t u : σ} {as bs : List α}
    (h : Run step s as t) (h' : Run step t bs u) : Run step s (as ++ bs) u := by
  induction h' with
  | nil => simpa using h
  | snoc _ hs ih => rw [← List.append_assoc]; exact .snoc ih hs

/-- A run of two lists of actions goes through a state between them. -/
theorem Run.exists_append {step : σ → α → σ → Prop} {s u : σ} {as bs : List α}
    (h : Run step s (as ++ bs) u) : ∃ t, Run step s as t ∧ Run step t bs u := by
  induction bs using List.reverseRecOn generalizing u with
  | nil => exact ⟨u, by simpa using h, .nil⟩
  | append_singleton bs b ih =>
    rw [← List.append_assoc] at h
    generalize hl : as ++ bs ++ [b] = l at h
    cases h with
    | nil => simp at hl
    | snoc hrun hs =>
      obtain ⟨rfl, hb⟩ := List.append_inj' hl rfl
      obtain rfl := List.singleton_inj.mp hb
      obtain ⟨t, hfirst, hrest⟩ := ih hrun
      exact ⟨t, hfirst, .snoc hrest hs⟩

theorem Run.eq_of_nil {step : σ → α → σ → Prop} {s t : σ} (h : Run step s [] t) : s = t := by
  generalize hl : ([] : List α) = l at h
  cases h with
  | nil => rfl
  | snoc _ _ => simp at hl

theorem Run.exists_cons {step : σ → α → σ → Prop} {s u : σ} {a : α} {as : List α}
    (h : Run step s (a :: as) u) : ∃ t, step s a t ∧ Run step t as u := by
  rw [← List.singleton_append] at h
  obtain ⟨t, hfirst, hrest⟩ := h.exists_append
  generalize hl : [a] = l at hfirst
  cases hfirst with
  | nil => simp at hl
  | @snoc before _ _ b hrun hs =>
    obtain ⟨rfl, rfl⟩ : before = [] ∧ b = a := by simpa using List.append_eq_singleton_iff.mp hl.symm
    obtain rfl := hrun.eq_of_nil
    exact ⟨t, hs, hrest⟩

/-! ## Machines that are functions -/

/-- The state after a list of actions, when each action is a function of the state. -/
def exec (f : σ → α → σ) (s : σ) (as : List α) : σ := as.foldl f s

@[simp] theorem exec_nil (f : σ → α → σ) (s : σ) : exec f s [] = s := rfl

@[simp] theorem exec_cons (f : σ → α → σ) (s : σ) (a : α) (as : List α) :
    exec f s (a :: as) = exec f (f s a) as := rfl

theorem exec_append (f : σ → α → σ) (s : σ) (as bs : List α) :
    exec f s (as ++ bs) = exec f (exec f s as) bs := by
  simp [exec]

/-- What a function that may fail computes from a start is a run of its steps. -/
theorem run_of_foldlM {f : σ → α → Option σ} {s t : σ} {as : List α}
    (h : as.foldlM f s = some t) : Run (fun s a t => f s a = some t) s as t := by
  induction as using List.reverseRecOn generalizing t with
  | nil =>
    obtain rfl : s = t := Option.some.inj h
    exact .nil
  | append_singleton as a ih =>
    rw [List.foldlM_append] at h
    obtain ⟨u, hu, hlast⟩ := Option.bind_eq_some_iff.mp h
    exact .snoc (ih hu) (by simpa using hlast)

end objc_runtime.runs
