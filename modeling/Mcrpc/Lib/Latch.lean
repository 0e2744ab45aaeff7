import Mathlib.Order.Basic
import Mathlib.Tactic.Common

/-!
# A latch over two signals

At each time a latch is set, else reset, else it holds what it has. It fires when it is set and was
open. When the signals never come together, the firings are separated by resets, and every set
signal with a reset behind the last firing is a firing.
-/

namespace Latch

variable (set reset : ℕ → Bool)

def state : ℕ → Bool
  | 0 => false
  | i + 1 => if set i then true else if reset i then false else state i

def Fires (i : ℕ) : Prop := set i = true ∧ state set reset i = false

/-- No reset from `j` up to `i`. -/
def Quiet (j i : ℕ) : Prop := ∀ k, j ≤ k → k < i → reset k = false

variable {set reset}

theorem Quiet.succ {j i : ℕ} (h : Quiet reset j i) (hi : reset i = false) :
    Quiet reset j (i + 1) := by
  intro k hjk hk
  rcases Nat.lt_succ_iff_lt_or_eq.mp hk with hk | rfl
  · exact h k hjk hk
  · exact hi

theorem Quiet.pred {j i : ℕ} (h : Quiet reset j (i + 1)) : Quiet reset j i :=
  fun k hjk hk => h k hjk (Nat.lt_succ_of_lt hk)

/-- A latch that is closed has fired since the last reset. -/
theorem state_iff (hdisjoint : ∀ i, set i = true → reset i = false) (i : ℕ) :
    state set reset i = true ↔ ∃ j < i, Fires set reset j ∧ Quiet reset j i := by
  induction i with
  | zero => exact iff_of_false Bool.false_ne_true (fun ⟨j, hj, _⟩ => Nat.not_lt_zero j hj)
  | succ i ih =>
    rw [state]
    cases hset : set i with
    | true =>
      refine iff_of_true rfl ?_
      cases hstate : state set reset i with
      | false =>
        have hself : Quiet reset i i := fun k hik hk => absurd hk (Nat.not_lt.mpr hik)
        exact ⟨i, i.lt_succ_self, ⟨hset, hstate⟩, hself.succ (hdisjoint i hset)⟩
      | true =>
        obtain ⟨j, hj, hfires, hquiet⟩ := ih.mp hstate
        exact ⟨j, Nat.lt_succ_of_lt hj, hfires, hquiet.succ (hdisjoint i hset)⟩
    | false =>
      cases hreset : reset i with
      | true =>
        refine iff_of_false Bool.false_ne_true ?_
        rintro ⟨j, hj, -, hquiet⟩
        exact Bool.noConfusion
          (hreset.symm.trans (hquiet i (Nat.le_of_lt_succ hj) i.lt_succ_self))
      | false =>
        refine ih.trans ⟨?_, ?_⟩
        · rintro ⟨j, hj, hfires, hquiet⟩
          exact ⟨j, Nat.lt_succ_of_lt hj, hfires, hquiet.succ hreset⟩
        · rintro ⟨j, hj, hfires, hquiet⟩
          rcases Nat.lt_succ_iff_lt_or_eq.mp hj with hj | rfl
          · exact ⟨j, hj, hfires, hquiet.pred⟩
          · exact Bool.noConfusion (hset.symm.trans hfires.1)

theorem fires_iff (hdisjoint : ∀ i, set i = true → reset i = false) (i : ℕ) :
    Fires set reset i ↔
      set i = true ∧ ∀ j < i, Quiet reset j i → ¬ Fires set reset j := by
  rw [Fires, ← Bool.not_eq_true, state_iff hdisjoint]
  refine and_congr_right (fun _ => ⟨?_, ?_⟩)
  · intro hopen j hj hquiet hfires
    exact hopen ⟨j, hj, hfires, hquiet⟩
  · rintro hnone ⟨j, hj, hfires, hquiet⟩
    exact hnone j hj hquiet hfires

theorem reset_between (hdisjoint : ∀ i, set i = true → reset i = false) {i j : ℕ} (hij : i < j)
    (hi : Fires set reset i) (hj : Fires set reset j) :
    ∃ k, i < k ∧ k < j ∧ reset k = true := by
  by_contra! hnone
  refine ((fires_iff hdisjoint j).mp hj).2 i hij (fun k hik hk => ?_) hi
  rcases Nat.eq_or_lt_of_le hik with rfl | hik
  · exact hdisjoint i hi.1
  · exact eq_false_of_ne_true (hnone k hik hk)

/-- A latch is closed when it has been set and not reset since. -/
theorem state_of_quiet {j i : ℕ} (hj : j < i) (hset : set j = true)
    (hquiet : Quiet reset (j + 1) i) : state set reset i = true := by
  induction i with
  | zero => exact absurd hj (Nat.not_lt_zero j)
  | succ i ih =>
    rw [state]
    split
    · rfl
    · next hopen =>
      have hlt : j < i := by
        rcases Nat.lt_succ_iff_lt_or_eq.mp hj with hlt | rfl
        · exact hlt
        · exact absurd hset hopen
      rw [hquiet i hlt i.lt_succ_self, if_neg Bool.false_ne_true]
      exact ih hlt hquiet.pred

/-- A latch fires where it is set with a reset since every earlier set. -/
theorem fires_iff_forall (hdisjoint : ∀ i, set i = true → reset i = false) (i : ℕ) :
    Fires set reset i ↔ set i = true ∧
      ∀ j < i, set j = true → ∃ k, j < k ∧ k < i ∧ reset k = true := by
  refine and_congr_right (fun _ => ⟨fun hopen j hj hset => ?_, fun hall => ?_⟩)
  · by_contra! hnone
    refine Bool.noConfusion (hopen.symm.trans (state_of_quiet hj hset (fun k hjk hk => ?_)))
    exact eq_false_of_ne_true (hnone k hjk hk)
  · rw [← Bool.not_eq_true, state_iff hdisjoint]
    rintro ⟨j, hj, hfires, hquiet⟩
    obtain ⟨k, hjk, hk, hreset⟩ := hall j hj hfires.1
    exact Bool.noConfusion (hreset.symm.trans (hquiet k (Nat.le_of_lt hjk) hk))

end Latch
