import Mcrpc.Lib.Unwinding

/-!
# Simulation

Two systems that take inputs one after another and answer each. When each step of the one is matched
by a step of the other from related states, so is each run.
-/

section

variable {σ τ α α' β β' : Type*}

def answers (step : σ → α → σ × β) : σ → List α → List β
  | _, [] => []
  | s, a :: inputs => (step s a).2 :: answers step (step s a).1 inputs

/-- The same inputs in related states have answers of the same meaning and lead to related states. -/
structure Simulates (step : σ → α → σ × β) (step' : τ → α' → τ × β') (Same : α → α' → Prop)
    (Means : β → β' → Prop) (R : σ → τ → Prop) : Prop where
  step : ∀ {s t a a'}, R s t → Same a a' →
    Means (step s a).2 (step' t a').2 ∧ R (step s a).1 (step' t a').1

variable {step : σ → α → σ × β} {step' : τ → α' → τ × β'} {Same : α → α' → Prop}
  {Means : β → β' → Prop} {R : σ → τ → Prop}

theorem Simulates.run (h : Simulates step step' Same Means R) {s : σ} {t : τ} (hst : R s t)
    {inputs : List α} {inputs' : List α'} (hinputs : List.Forall₂ Same inputs inputs') :
    List.Forall₂ Means (answers step s inputs) (answers step' t inputs') ∧
      R (finalState step s inputs) (finalState step' t inputs') := by
  induction hinputs generalizing s t with
  | nil => exact ⟨.nil, hst⟩
  | cons hsame _ ih =>
    obtain ⟨hmeans, hnext⟩ := h.step hst hsame
    obtain ⟨hanswers, hfinal⟩ := ih hnext
    exact ⟨.cons hmeans hanswers, hfinal⟩

end
