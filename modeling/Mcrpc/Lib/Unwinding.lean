import Mathlib.Data.List.Induction

/-!
# Isolation of a part of a system

A system takes inputs one after another and answers each. The inputs of one part are `mine`; the
part is isolated in a run when it gets the answers it would get were its own inputs the only ones.
The unwinding rule reduces this to two facts about single steps in states that look alike.
-/

section

variable {σ α β : Type*} (step : σ → α → σ × β)

def finalState (s : σ) (inputs : List α) : σ := inputs.foldl (fun s a => (step s a).1) s

def answersOf (mine : α → Bool) : σ → List α → List β
  | _, [] => []
  | s, a :: inputs =>
    let r := step s a
    if mine a then r.2 :: answersOf mine r.1 inputs else answersOf mine r.1 inputs

theorem length_answersOf (mine : α → Bool) (s : σ) (inputs : List α) :
    (answersOf step mine s inputs).length = (inputs.filter mine).length := by
  induction inputs generalizing s with
  | nil => rfl
  | cons a inputs ih =>
    cases hmine : mine a <;> simp [answersOf, hmine, ih]

/-- Every step of the run meets the condition in the state it is taken in. -/
def EveryStep (ok : σ → α → Prop) : σ → List α → Prop
  | _, [] => True
  | s, a :: inputs => ok s a ∧ EveryStep ok (step s a).1 inputs

/-- The unwinding conditions of a relation: an input of the part gets the same answer on both
sides, another one does nothing that the part's side would have to follow. -/
structure Unwinds (mine : α → Bool) (ok : σ → α → Prop) (R : σ → σ → Prop) : Prop where
  own : ∀ {s t a}, R s t → ok s a → mine a = true →
    (step s a).2 = (step t a).2 ∧ R (step s a).1 (step t a).1
  other : ∀ {s t a}, R s t → ok s a → mine a = false → R (step s a).1 t

variable {step} {mine : α → Bool} {ok : σ → α → Prop} {R : σ → σ → Prop}

/-- A part with an unwinding relation is isolated. -/
theorem Unwinds.isolated (h : Unwinds step mine ok R) {s t : σ} (hst : R s t) (inputs : List α)
    (hok : EveryStep step ok s inputs) :
    answersOf step mine s inputs = answersOf step mine t (inputs.filter mine) ∧
      R (finalState step s inputs) (finalState step t (inputs.filter mine)) := by
  induction inputs generalizing s t with
  | nil => exact ⟨rfl, hst⟩
  | cons a inputs ih =>
    obtain ⟨ha, hrest⟩ := hok
    cases hmine : mine a with
    | true =>
      obtain ⟨hanswer, hnext⟩ := h.own hst ha hmine
      obtain ⟨hanswers, hfinal⟩ := ih hnext hrest
      rw [List.filter_cons_of_pos hmine]
      simp only [answersOf, hmine, if_true, hanswer, hanswers]
      exact ⟨trivial, hfinal⟩
    | false =>
      rw [List.filter_cons_of_neg (by rw [hmine]; exact Bool.false_ne_true)]
      simp only [answersOf, hmine, Bool.false_eq_true, if_false]
      exact ih (h.other hst ha hmine) hrest

/-- Every step meets a condition that follows from an invariant. -/
theorem EveryStep.of_invariant {I : σ → Prop} (hok : ∀ s a, I s → ok s a)
    (hstep : ∀ s a, I s → I (step s a).1) {s : σ} (hs : I s) (inputs : List α) :
    EveryStep step ok s inputs := by
  induction inputs generalizing s with
  | nil => trivial
  | cons a inputs ih => exact ⟨hok s a hs, ih (hstep s a hs)⟩

/-- In a run whose steps meet a condition that keeps an invariant, every step has what the two
imply. -/
theorem EveryStep.imp_of_invariant {I : σ → Prop} {P : σ → α → Prop}
    (hstep : ∀ s a, I s → ok s a → P s a ∧ I (step s a).1) {s : σ} (hs : I s) {inputs : List α}
    (hok : EveryStep step ok s inputs) : EveryStep step P s inputs := by
  induction inputs generalizing s with
  | nil => trivial
  | cons a inputs ih =>
    obtain ⟨hP, hnext⟩ := hstep s a hs hok.1
    exact ⟨hP, ih hnext hok.2⟩

theorem finalState_concat (s : σ) (inputs : List α) (a : α) :
    finalState step s (inputs ++ [a]) = (step (finalState step s inputs) a).1 := by
  rw [finalState, List.foldl_append]
  rfl

theorem everyStep_append {s : σ} {inputs rest : List α} :
    EveryStep step ok s (inputs ++ rest) ↔
      EveryStep step ok s inputs ∧ EveryStep step ok (finalState step s inputs) rest := by
  induction inputs generalizing s with
  | nil => exact (and_iff_right trivial).symm
  | cons a inputs ih =>
    rw [List.cons_append, EveryStep, EveryStep, ih, and_assoc]
    rfl

/-- What holds of the empty run and is kept by the steps that meet the condition holds after every
part of the run. -/
theorem EveryStep.invariant {J : List α → σ → Prop} {s : σ} {inputs : List α}
    (hok : EveryStep step ok s inputs) (hinit : J [] s)
    (hstep : ∀ done t a, J done t → ok t a → J (done ++ [a]) (step t a).1) :
    ∀ done, done <+: inputs → J done (finalState step s done) := by
  intro done
  induction done using List.reverseRecOn with
  | nil => exact fun _ => hinit
  | append_singleton done a ih =>
    rintro ⟨rest, rfl⟩
    obtain ⟨hdone, ha, -⟩ := everyStep_append.mp (everyStep_append.mp hok).1
    rw [finalState_concat]
    refine hstep done _ a (ih ⟨a :: rest, ?_⟩) ha
    rw [List.append_assoc]
    rfl

/-- When the condition of a step says whether it keeps a property, the states of a run all have the
property exactly when every step meets the condition. -/
theorem forall_prefix_iff_everyStep {P : σ → Prop}
    (hstep : ∀ s a, P s → (P (step s a).1 ↔ ok s a)) {s : σ} (hs : P s) (inputs : List α) :
    (∀ done, done <+: inputs → P (finalState step s done)) ↔ EveryStep step ok s inputs := by
  induction inputs generalizing s with
  | nil =>
    refine iff_of_true (fun done hdone => ?_) trivial
    rw [List.prefix_nil.mp hdone]
    exact hs
  | cons a inputs ih =>
    constructor
    · intro hP
      have hnext : P (step s a).1 := hP [a] (List.cons_prefix_cons.mpr ⟨rfl, List.nil_prefix⟩)
      refine ⟨(hstep s a hs).mp hnext, (ih hnext).mp (fun done hdone => ?_)⟩
      exact hP (a :: done) (List.cons_prefix_cons.mpr ⟨rfl, hdone⟩)
    · rintro ⟨hok, hrest⟩ done hdone
      cases done with
      | nil => exact hs
      | cons b done =>
        obtain ⟨heq, htail⟩ := List.cons_prefix_cons.mp hdone
        subst heq
        exact (ih ((hstep s b hs).mpr hok)).mpr hrest done htail

end
