import Mcrpc.Lib.Unwinding
import Mathlib.Data.List.Nodup

/-!
# Bounded tables of keys

A table with room for `cap` keys that looks at its length before it looks for the key. A program
tabulates keys when each of its steps does this to the keys of its state. In a run that brings no
key of a full table again, the table accepts exactly what a bounded set accepts.
-/

namespace BoundedKeys

variable {κ : Type*} [DecidableEq κ] {cap : ℕ} {keys : List κ} {k : κ}

/-- The test of the length, then the search, then the new key at the end. -/
def register (cap : ℕ) (keys : List κ) (k : κ) : List κ × Bool :=
  if cap ≤ keys.length then (keys, false)
  else if k ∈ keys then (keys, true)
  else (keys ++ [k], true)

theorem nodup_register (h : keys.Nodup) : (register cap keys k).1.Nodup := by
  rw [register]
  split_ifs with hfull hmem
  · exact h
  · exact h
  · rw [← List.concat_eq_append]
    exact h.concat hmem

/-- A key that is accepted is in the table afterwards. -/
theorem mem_register (h : (register cap keys k).2 = true) : k ∈ (register cap keys k).1 := by
  rw [register] at h ⊢
  split_ifs at h ⊢ with hfull hmem
  · exact hmem
  · exact List.mem_append_right keys (List.mem_singleton_self k)

theorem register_iff : (register cap keys k).2 = true ↔ keys.length < cap := by
  rw [register]
  split_ifs with hfull hmem
  · exact iff_of_false id (Nat.not_lt.mpr hfull)
  · exact iff_of_true rfl (Nat.not_le.mp hfull)
  · exact iff_of_true rfl (Nat.not_le.mp hfull)

variable {σ γ : Type*}

/-- The steps of a program, as long as its states have the invariant and its inputs are proper. -/
structure Tabulates (step : σ → γ → σ × Bool) (keys : σ → List κ) (key : γ → κ) (cap : ℕ)
    (invariant : σ → Prop) (proper : γ → Prop) : Prop where
  commutes : ∀ s c, invariant s → proper c →
    (keys (step s c).1, (step s c).2) = register cap (keys s) (key c)
  invariant : ∀ s c, invariant s → proper c → invariant (step s c).1

/-- No key of a full table comes again. -/
def NoneAgain (keys : σ → List κ) (key : γ → κ) (cap : ℕ) (s : σ) (c : γ) : Prop :=
  key c ∈ keys s → (keys s).length < cap

/-- What a bounded set does in a run: no key is in it twice, a key it holds is accepted, and one it
does not hold while there is room; what is accepted it holds. -/
structure BoundedSet (step : σ → γ → σ × Bool) (keys : σ → List κ) (key : γ → κ) (cap : ℕ)
    (init : σ) (calls : List γ) : Prop where
  distinct : ∀ done, done <+: calls → (keys (finalState step init done)).Nodup
  answer : EveryStep step
    (fun s c => (step s c).2 = true ↔ key c ∈ keys s ∨ (keys s).length < cap) init calls
  held : EveryStep step (fun s c => (step s c).2 = true → key c ∈ keys (step s c).1) init calls

variable {step : σ → γ → σ × Bool} {keysOf : σ → List κ} {key : γ → κ} {I : σ → Prop}
  {proper : γ → Prop}

theorem Tabulates.boundedSet (h : Tabulates step keysOf key cap I proper) {init : σ}
    (hinit : I init) (hnil : keysOf init = []) {calls : List γ}
    (hok : EveryStep step (fun s c => proper c ∧ NoneAgain keysOf key cap s c) init calls) :
    BoundedSet step keysOf key cap init calls := by
  have hstep (s : σ) (c : γ) (hs : I s) (hc : proper c) :
      keysOf (step s c).1 = (register cap (keysOf s) (key c)).1 ∧
        (step s c).2 = (register cap (keysOf s) (key c)).2 := Prod.mk.inj (h.commutes s c hs hc)
  have hnodup (s : σ) (c : γ) (hs : I s ∧ (keysOf s).Nodup) (hc : proper c) :
      I (step s c).1 ∧ (keysOf (step s c).1).Nodup := by
    refine ⟨h.invariant s c hs.1 hc, ?_⟩
    rw [(hstep s c hs.1 hc).1]
    exact nodup_register hs.2
  constructor
  · intro done hdone
    have hinit' : I init ∧ (keysOf init).Nodup := ⟨hinit, hnil ▸ List.nodup_nil⟩
    have hrun := hok.invariant (J := fun _ s => I s ∧ (keysOf s).Nodup) hinit'
      (fun _ s c hs hc => hnodup s c hs hc.1)
    exact (hrun done hdone).2
  · refine hok.imp_of_invariant (I := I) (fun s c hs hc => ⟨?_, h.invariant s c hs hc.1⟩) hinit
    rw [(hstep s c hs hc.1).2, register_iff]
    exact (or_iff_right_of_imp hc.2).symm
  · refine hok.imp_of_invariant (I := I) (fun s c hs hc => ⟨?_, h.invariant s c hs hc.1⟩) hinit
    rw [(hstep s c hs hc.1).1, (hstep s c hs hc.1).2]
    exact mem_register

/-- A table that holds the beginning of a list is completed to the list by a run over all of it,
when an entry it holds changes nothing and the next one is put at its end. -/
theorem table_foldl_of_prefix {α : Type*} {step : σ → α → σ} (table : σ → List α) {all : List α}
    (hheld : ∀ s a, table s <+: all → a ∈ table s → step s a = s)
    (hnew : ∀ s a, table s ++ [a] <+: all → table (step s a) = table s ++ [a]) {s : σ}
    (h : table s <+: all) : table (all.foldl step s) = all := by
  have hskip (l : List α) (hl : ∀ a ∈ l, a ∈ table s) : l.foldl step s = s := by
    induction l with
    | nil => rfl
    | cons a l ih =>
      obtain ⟨ha, hl⟩ := List.forall_mem_cons.mp hl
      rw [List.foldl_cons, hheld s a h ha, ih hl]
  have hfill (new : List α) (s : σ) (hs : table s ++ new = all) :
      table (new.foldl step s) = all := by
    induction new generalizing s with
    | nil =>
      rw [List.append_nil] at hs
      exact hs
    | cons a new ih =>
      rw [List.append_cons] at hs
      apply ih
      rw [hnew s a ⟨new, hs⟩]
      exact hs
  obtain ⟨new, hall⟩ := h
  rw [← hall, List.foldl_append, hskip (table s) (fun _ ha => ha), hall]
  exact hfill new s hall

end BoundedKeys
