import Mathlib.Data.List.TakeWhile
import Mathlib.Data.List.DropRight

/-!
# Greedy scans over lists

A greedy scan reads the longest prefix of one class of symbols. `Run p` is a nonempty word of the
class, `Stops p s` says that `s` does not continue such a word. The lemmas compute a scan of a
concatenation: a scan over a word followed by a stopping text returns exactly that word and leaves
exactly that text.
-/

namespace Scan

variable {α : Type*} {p q : α → Bool} {w s : List α}

/-- A property of all symbols of a literal word, by evaluation. -/
theorem forall_of_all {P : α → Prop} [DecidablePred P] (h : s.all (fun c => decide (P c)) = true) :
    ∀ c ∈ s, P c := by
  simpa using h

/-- A nonempty word over the class `p`. -/
structure Run (p : α → Bool) where
  chars : List α
  ne_nil : chars ≠ []
  all : ∀ c ∈ chars, p c = true

def Stops (p : α → Bool) (s : List α) : Prop := ∀ c ∈ s.head?, p c = false

@[simp] theorem stops_nil : Stops p [] := by simp [Stops]

@[simp] theorem stops_cons {c : α} : Stops p (c :: s) ↔ p c = false := by simp [Stops]

theorem stops_dropWhile (p : α → Bool) (s : List α) : Stops p (s.dropWhile p) := by
  induction s with
  | nil => exact stops_nil
  | cons c s ih =>
    by_cases hc : p c = true
    · rwa [List.dropWhile_cons_of_pos hc]
    · rw [List.dropWhile_cons_of_neg hc, stops_cons]
      simpa using hc

theorem takeWhile_append (hw : ∀ c ∈ w, p c = true) (hs : Stops p s) :
    (w ++ s).takeWhile p = w := by
  rw [List.takeWhile_append_of_pos hw]
  cases s with
  | nil => simp
  | cons c s => rw [List.takeWhile_cons_of_neg (by simpa using hs), List.append_nil]

theorem dropWhile_append (hw : ∀ c ∈ w, p c = true) (hs : Stops p s) :
    (w ++ s).dropWhile p = s := by
  rw [List.dropWhile_append_of_pos hw]
  cases s with
  | nil => rfl
  | cons c s => exact List.dropWhile_cons_of_neg (by simpa using hs)

theorem dropWhile_eq_self (hs : Stops p s) : s.dropWhile p = s :=
  dropWhile_append (w := []) (by simp) hs

theorem takeWhile_eq_nil (hs : Stops p s) : s.takeWhile p = [] :=
  takeWhile_append (w := []) (by simp) hs

/-- A scan depends on the class only at the symbols of the text. -/
theorem takeWhile_congr (h : ∀ c ∈ s, p c = q c) : s.takeWhile p = s.takeWhile q := by
  induction s with
  | nil => rfl
  | cons c s ih =>
    rw [List.takeWhile_cons, List.takeWhile_cons, h c List.mem_cons_self,
      ih (fun c' hc' => h c' (List.mem_cons_of_mem c hc'))]

theorem dropWhile_congr (h : ∀ c ∈ s, p c = q c) : s.dropWhile p = s.dropWhile q := by
  induction s with
  | nil => rfl
  | cons c s ih =>
    rw [List.dropWhile_cons, List.dropWhile_cons, h c List.mem_cons_self,
      ih (fun c' hc' => h c' (List.mem_cons_of_mem c hc'))]

theorem mem_takeWhile {c : α} (hc : c ∈ s.takeWhile p) : p c = true := by
  have h := List.all_takeWhile (l := s) (p := p)
  exact List.all_eq_true.mp h c hc

theorem all_ne_of_not_mem [DecidableEq α] {x : α} (h : x ∉ w) : ∀ c ∈ w, decide (c ≠ x) = true := by
  intro c hc
  exact decide_eq_true (fun he => h (he ▸ hc))

def Run.ofTakeWhile (p : α → Bool) (s : List α) (h : s.takeWhile p ≠ []) : Run p :=
  ⟨s.takeWhile p, h, fun _ hc => mem_takeWhile hc⟩

theorem rdropWhile_cons (p : α → Bool) (c : α) (s : List α) :
    (c :: s).rdropWhile p =
      if p c = true ∧ s.rdropWhile p = [] then [] else c :: s.rdropWhile p := by
  induction s using List.reverseRecOn with
  | nil => simp [List.rdropWhile_singleton]
  | append_singleton s d ih =>
    rw [← List.cons_append, List.rdropWhile_concat, List.rdropWhile_concat]
    by_cases hd : p d = true
    · rw [if_pos hd, if_pos hd, ih]
    · rw [if_neg hd, if_neg hd, if_neg (fun h => List.append_ne_nil_of_right_ne_nil s
        (List.cons_ne_nil d []) h.2), List.cons_append]

namespace Run

def word (s : List α) (h : (!s.isEmpty && s.all p) = true := by exact Eq.refl true) : Run p where
  chars := s
  ne_nil := by
    rintro rfl
    cases h
  all := List.all_eq_true.mp (Bool.and_eq_true_iff.mp h).2

@[simp] theorem chars_ofTakeWhile (h : s.takeWhile p ≠ []) :
    (ofTakeWhile p s h).chars = s.takeWhile p := rfl

theorem stops (r : Run p) (hpq : ∀ c, p c = true → q c = false) (s : List α) :
    Stops q (r.chars ++ s) := by
  obtain ⟨c, w, hw⟩ := List.exists_cons_of_ne_nil r.ne_nil
  rw [hw, List.cons_append, stops_cons]
  exact hpq c (r.all c (by simp [hw]))

theorem not_mem (r : Run p) {c : α} (hc : p c = false) : c ∉ r.chars := by
  intro hmem
  rw [r.all c hmem] at hc
  cases hc

@[ext] theorem ext {r r' : Run p} (h : r.chars = r'.chars) : r = r' := by
  cases r; cases r'; simpa using h

end Run
end Scan
