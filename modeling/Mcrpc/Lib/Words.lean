import Mathlib.Data.List.DropRight
import Mcrpc.Lib.Scan

/-!
# The words of a text

`words p s` are the maximal nonempty pieces of `s` without a separator, a symbol of the class `p`.
One equation, at a separator, determines them; trimming separators on either side keeps them.
-/

namespace Words

variable {α : Type*} {p : α → Bool} {s t : List α}

def words (p : α → Bool) (s : List α) : List (List α) := (s.splitOnP p).filter (fun w => !w.isEmpty)

@[simp] theorem words_nil : words p [] = [] := by simp [words, List.splitOnP_nil]

theorem words_append_cons {c : α} (hc : p c = true) :
    words p (s ++ c :: t) = words p s ++ words p t := by
  rw [words, List.splitOnP_append_cons s t hc, List.filter_append]
  rfl

theorem words_cons {c : α} (hc : p c = true) : words p (c :: t) = words p t := by
  simpa using words_append_cons (s := []) hc

theorem words_eq_singleton (hne : s ≠ []) (hs : ∀ c ∈ s, p c = false) : words p s = [s] := by
  rw [words, List.splitOnP_eq_singleton hs]
  simp [hne]

theorem words_append_flatMap {c : α} (hc : p c = true) (s : List α) {ws : List (List α)}
    (h : ∀ w ∈ ws, w ≠ [] ∧ ∀ d ∈ w, p d = false) :
    words p (s ++ ws.flatMap (c :: ·)) = words p s ++ ws := by
  induction ws generalizing s with
  | nil => rw [List.flatMap_nil, List.append_nil, List.append_nil]
  | cons w ws ih =>
    obtain ⟨⟨hne, hw⟩, hws⟩ := List.forall_mem_cons.mp h
    have hrest := ih w hws
    rw [words_eq_singleton hne hw] at hrest
    rw [List.flatMap_cons, List.cons_append, words_append_cons hc, hrest]
    rfl

theorem words_separators (hs : ∀ c ∈ s, p c = true) : words p s = [] := by
  induction s with
  | nil => exact words_nil
  | cons c s ih => rw [words_cons (hs c (by simp)), ih (fun c' hc' => hs c' (by simp [hc']))]

theorem words_append_separators (hs : ∀ c ∈ t, p c = true) : words p (s ++ t) = words p s := by
  cases t with
  | nil => rw [List.append_nil]
  | cons c t =>
    have ht : words p t = [] := words_separators (fun c' hc' => hs c' (List.mem_cons_of_mem c hc'))
    rw [words_append_cons (hs c List.mem_cons_self), ht, List.append_nil]

theorem words_dropWhile (p : α → Bool) (s : List α) : words p (s.dropWhile p) = words p s := by
  induction s with
  | nil => rfl
  | cons c s ih =>
    by_cases hc : p c = true
    · rw [List.dropWhile_cons_of_pos hc, ih, words_cons hc]
    · rw [List.dropWhile_cons_of_neg hc]

theorem words_rdropWhile (p : α → Bool) (s : List α) : words p (s.rdropWhile p) = words p s := by
  induction s using List.reverseRecOn with
  | nil => rfl
  | append_singleton s c ih =>
    by_cases hc : p c = true
    · rw [List.rdropWhile_concat_pos p s c hc, ih,
        words_append_separators (t := [c]) (by simpa using hc)]
    · rw [List.rdropWhile_concat_neg p s c hc]

theorem words_append_word {w t : List α} (hs : ∀ c ∈ s, p c = true) (hne : w ≠ [])
    (hw : ∀ c ∈ w, p c = false) (ht : Scan.Stops (fun c => !p c) t) :
    words p (s ++ (w ++ t)) = w :: words p t := by
  have hlead : words p (s ++ (w ++ t)) = words p (w ++ t) := by
    induction s with
    | nil => rfl
    | cons c s ih =>
      rw [List.cons_append, words_cons (hs c List.mem_cons_self)]
      exact ih (fun c' hc' => hs c' (List.mem_cons_of_mem c hc'))
  rw [hlead]
  cases t with
  | nil => rw [List.append_nil, words_eq_singleton hne hw, words_nil]
  | cons c t =>
    have hc : p c = true := by simpa using ht
    rw [words_append_cons hc, words_eq_singleton hne hw, words_cons hc, List.singleton_append]

theorem exists_of_words_eq_cons {w : List α} {ws : List (List α)} (h : words p s = w :: ws) :
    ∃ pre t, s = pre ++ (w ++ t) ∧ (∀ c ∈ pre, p c = true) ∧ w ≠ [] ∧ (∀ c ∈ w, p c = false) ∧
      Scan.Stops (fun c => !p c) t ∧ ws = words p t := by
  have hpre : ∀ c ∈ s.takeWhile p, p c = true := fun _ => Scan.mem_takeWhile
  have hw : ∀ c ∈ (s.dropWhile p).takeWhile (fun c => !p c), p c = false := by
    intro c hc
    simpa using Scan.mem_takeWhile hc
  have hsplit : s = s.takeWhile p ++ ((s.dropWhile p).takeWhile (fun c => !p c) ++
      (s.dropWhile p).dropWhile (fun c => !p c)) := by
    rw [List.takeWhile_append_dropWhile, List.takeWhile_append_dropWhile]
  have hstop := Scan.stops_dropWhile (fun c => !p c) (s.dropWhile p)
  have hne : (s.dropWhile p).takeWhile (fun c => !p c) ≠ [] := by
    intro hnil
    have hdrop : s.dropWhile p = [] := by
      have hhead := Scan.stops_dropWhile p s
      cases hd : s.dropWhile p with
      | nil => rfl
      | cons c d =>
        rw [hd, Scan.stops_cons] at hhead
        rw [hd, List.takeWhile_cons_of_pos (by simpa using hhead)] at hnil
        cases hnil
    rw [← words_dropWhile, hdrop, words_nil] at h
    cases h
  have hwords := words_append_word hpre hne hw hstop
  rw [← hsplit, h] at hwords
  obtain ⟨rfl, rfl⟩ := List.cons.inj hwords
  exact ⟨_, _, hsplit, hpre, hne, hw, hstop, rfl⟩

/-- No word has a separator. -/
theorem not_separator_of_mem_words {w : List α} (h : w ∈ words p s) : ∀ c ∈ w, p c = false := by
  generalize hws : words p s = ws at h
  induction ws generalizing s with
  | nil => cases h
  | cons v ws ih =>
    obtain ⟨_, t, -, -, -, hv, -, rfl⟩ := exists_of_words_eq_cons hws
    rcases List.mem_cons.mp h with rfl | hmem
    · exact hv
    · exact ih rfl hmem

/-- The words have no symbols of their own. -/
theorem mem_of_mem_words {w : List α} (h : w ∈ words p s) {c : α} (hc : c ∈ w) : c ∈ s := by
  generalize hws : words p s = ws at h
  induction ws generalizing s with
  | nil => cases h
  | cons v ws ih =>
    obtain ⟨pre, t, rfl, -, -, -, -, rfl⟩ := exists_of_words_eq_cons hws
    apply List.mem_append_right pre
    rcases List.mem_cons.mp h with rfl | hmem
    · exact List.mem_append_left t hc
    · exact List.mem_append_right v (ih rfl hmem)

end Words
