import Mathlib.Logic.Function.Basic

/-!
# Parts of a state

A lens says where a part `σ` sits in a state `τ`; code that works on the part lifts to code that
works on the whole and changes nothing else.
-/

structure Lens (τ σ : Type*) where
  get : τ → σ
  set : σ → τ → τ
  get_set : ∀ s w, get (set s w) = s
  set_get : ∀ w, set (get w) w = w
  set_set : ∀ s s' w, set s' (set s w) = set s' w

namespace Lens

variable {τ σ α : Type*} (l : Lens τ σ)

def lift (f : σ → α × σ) (w : τ) : α × τ := ((f (l.get w)).1, l.set (f (l.get w)).2 w)

theorem lift_set (f : σ → α × σ) (s : σ) (w : τ) :
    l.lift f (l.set s w) = ((f s).1, l.set (f s).2 w) := by
  rw [lift, l.get_set, l.set_set]

def place {ι : Type*} [DecidableEq ι] (i : ι) : Lens (ι → σ) σ where
  get f := f i
  set s f := Function.update f i s
  get_set _ _ := Function.update_self ..
  set_get f := Function.update_eq_self i f
  set_set _ _ _ := Function.update_idem ..

def fst {ρ : Type*} : Lens (σ × ρ) σ where
  get w := w.1
  set s w := (s, w.2)
  get_set _ _ := rfl
  set_get _ := rfl
  set_set _ _ _ := rfl

end Lens
