import Mathlib.Data.Option.Basic

/-!
# Runs of labelled transition systems

A system is a partial function `step` from a state and a label to the next
state; a run is a list of labels.  `Meets cond` says of a run that `cond` holds
at every step of it, on the state before the step and its label.

Since every beginning of a run is a run, what holds at the end of all runs holds
in every state they pass.

## Main results

* `invariant_of_run` — what every step that meets the condition preserves is
  preserved by every run that meets it.
-/

namespace Ellipticoind.Verified.Runs

variable {σ α : Type}

/-- The state after a list of labels, if all of them are enabled in turn. -/
def run (step : σ → α → Option σ) : σ → List α → Option σ
  | s, [] => some s
  | s, a :: rest => (step s a).bind fun s' => run step s' rest

/-- A run, and one that follows it. -/
theorem run_append (step : σ → α → Option σ) (s : σ) (as bs : List α) :
    run step s (as ++ bs) = (run step s as).bind fun s' => run step s' bs := by
  induction as generalizing s with
  | nil => rfl
  | cons a as ih =>
      show ((step s a).bind fun s' => run step s' (as ++ bs)) = _
      simp only [ih, run, Option.bind_assoc]

/-- Every step of the run meets the condition. -/
def Meets (step : σ → α → Option σ) (cond : σ → α → Prop) : σ → List α → Prop
  | _, [] => True
  | s, a :: rest => cond s a ∧ ∀ s', step s a = some s' → Meets step cond s' rest

theorem run_cons {step : σ → α → Option σ} {s s'' : σ} {a : α} {rest : List α} :
    run step s (a :: rest) = some s'' ↔
      ∃ s', step s a = some s' ∧ run step s' rest = some s'' :=
  Option.bind_eq_some_iff

theorem meets_cons {step : σ → α → Option σ} {cond : σ → α → Prop} {s s' : σ} {a : α}
    {rest : List α} (hcond : cond s a) (hstep : step s a = some s')
    (hrest : Meets step cond s' rest) : Meets step cond s (a :: rest) := by
  refine ⟨hcond, fun s₁ hs₁ => ?_⟩
  rw [Option.some.inj (hs₁.symm.trans hstep)]
  exact hrest

/-- The run meets the condition and comes to a state with the property. -/
def Reaches (step : σ → α → Option σ) (cond : σ → α → Prop) (s : σ) (as : List α)
    (p : σ → Prop) : Prop :=
  Meets step cond s as ∧ ∃ s', run step s as = some s' ∧ p s'

theorem reaches_nil {step : σ → α → Option σ} {cond : σ → α → Prop} {s : σ} {p : σ → Prop}
    (h : p s) : Reaches step cond s [] p :=
  ⟨trivial, s, rfl, h⟩

theorem reaches_cons {step : σ → α → Option σ} {cond : σ → α → Prop} {s s' : σ} {a : α}
    {rest : List α} {p : σ → Prop} (hcond : cond s a) (hstep : step s a = some s')
    (hrest : Reaches step cond s' rest p) : Reaches step cond s (a :: rest) p := by
  obtain ⟨hmeets, s'', hrun, hp⟩ := hrest
  exact ⟨meets_cons hcond hstep hmeets, s'', run_cons.mpr ⟨s', hstep, hrun⟩, hp⟩

/-- What every step that meets the condition preserves is preserved by every
run that meets it. -/
theorem invariant_of_run {step : σ → α → Option σ} {cond : σ → α → Prop}
    {inv : σ → Prop}
    (hstep : ∀ s a s', inv s → cond s a → step s a = some s' → inv s')
    {as : List α} {s s' : σ} (hs : inv s) (hmeets : Meets step cond s as)
    (hrun : run step s as = some s') : inv s' := by
  induction as generalizing s with
  | nil =>
      cases hrun
      exact hs
  | cons a rest ih =>
      obtain ⟨s₁, hfirst, hrest⟩ := run_cons.mp hrun
      exact ih (hstep s a s₁ hs hmeets.1 hfirst) (hmeets.2 s₁ hfirst) hrest

/-- A condition that every label of the run meets in every state. -/
theorem meets_of_forall {step : σ → α → Option σ} {cond : σ → α → Prop} {as : List α}
    (h : ∀ a ∈ as, ∀ s, cond s a) (s : σ) : Meets step cond s as := by
  induction as generalizing s with
  | nil => trivial
  | cons a rest ih =>
      refine ⟨h a List.mem_cons_self s, fun s' _ => ih (fun b hb => ?_) s'⟩
      exact h b (List.mem_cons_of_mem a hb)

/-- Without a condition. -/
theorem meets_true {step : σ → α → Option σ} (s : σ) (as : List α) :
    Meets step (fun _ _ => True) s as :=
  meets_of_forall (fun _ _ _ => trivial) s

end Ellipticoind.Verified.Runs
