import Mathlib.Data.Option.Basic
import Mathlib.Tactic.Common

/-!
# Choices with a fall-back

`choose keep a b` is the value of `a` when there is one that is kept, and `b` otherwise. The lemmas
say when a value is the one chosen, for one choice and for two values tried in both orders.
-/

namespace Fallback

variable {V : Type*} {keep : V → Bool} {a b c : Option V} {v : V}

def choose (keep : V → Bool) : Option V → Option V → Option V
  | some a, b => if keep a then some a else b
  | none, b => b

def Passes (keep : V → Bool) (a : Option V) : Prop := ∀ x, a = some x → keep x = false

theorem passes_none : Passes keep none := fun _ h => absurd h (by simp)

theorem passes_some : Passes keep (some v) ↔ keep v = false := by
  constructor
  · exact fun h => h v rfl
  · rintro h x hx
    exact Option.some.inj hx ▸ h

theorem choose_eq_some_iff :
    choose keep a b = some v ↔ keep v = true ∧ a = some v ∨ Passes keep a ∧ b = some v := by
  cases a with
  | none => simp [choose, passes_none]
  | some a =>
    rw [choose, passes_some]
    cases hkeep : keep a with
    | false =>
      rw [if_neg Bool.false_ne_true, and_iff_right rfl, or_iff_right]
      rintro ⟨hv, heq⟩
      rw [← Option.some.inj heq, hkeep] at hv
      cases hv
    | true =>
      rw [if_pos rfl, or_iff_left (fun h => Bool.noConfusion h.1), iff_and_self]
      exact fun heq => Option.some.inj heq ▸ hkeep

theorem choose_left_iff : choose keep (some v) b = some v ↔ keep v = true ∨ b = some v := by
  rw [choose_eq_some_iff, passes_some, and_iff_left rfl]
  cases keep v <;> simp

/-- The second side is chosen unless the first has a kept value of its own. -/
theorem choose_right_iff :
    choose keep a (some v) = some v ↔ ∀ x, a = some x → keep x = true → x = v := by
  rw [choose_eq_some_iff, and_iff_left rfl]
  cases a with
  | none => simp [passes_none]
  | some a =>
    rw [passes_some]
    cases hkeep : keep a with
    | false => simp [hkeep]
    | true =>
      simp only [Option.some.injEq, Bool.true_eq_false, or_false, forall_eq', hkeep, forall_const,
        and_iff_right_iff_imp]
      exact fun heq => heq ▸ hkeep

/-- A value in front of another, the two tried in both orders, is chosen unless it is passed over
and nothing at the end of the chain repeats it. -/
theorem swap_left_iff :
    (choose keep (some v) (choose keep b c) = some v ∨
      choose keep b (choose keep (some v) c) = some v) ↔
    keep v = true ∨ Passes keep b ∧ c = some v := by
  rw [choose_left_iff, choose_eq_some_iff, choose_eq_some_iff, choose_left_iff]
  tauto

/-- The end of the chain is chosen unless other values are kept. -/
theorem swap_right_iff :
    (choose keep a (choose keep b (some v)) = some v ∨
      choose keep b (choose keep a (some v)) = some v) ↔
    Passes keep a ∧ Passes keep b ∨ keep v = true ∧ (a = some v ∨ b = some v) := by
  simp only [choose_eq_some_iff, and_true]
  tauto

theorem or_eq_choose (a b : Option V) : a.or b = choose (fun _ => true) a b := by
  cases a <;> rfl

end Fallback
