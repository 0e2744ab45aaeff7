import Mathlib.Computability.RegularExpressions

/-!
# Character classes of regular expressions

A class of symbols as the sum of its members, and what the class, its closure and a regular
expression anchored at the end of a line match.
-/

namespace CharClass

variable {α : Type*} [DecidableEq α]

/-- `[abc]` -/
def oneOf : List α → RegularExpression α
  | [] => 0
  | c :: cs => .char c + oneOf cs

theorem rmatch_oneOf {cs s : List α} : (oneOf cs).rmatch s = true ↔ ∃ c ∈ cs, s = [c] := by
  induction cs with
  | nil => simp [oneOf, RegularExpression.zero_rmatch]
  | cons c cs ih =>
    rw [oneOf, RegularExpression.add_rmatch_iff, RegularExpression.char_rmatch_iff, ih]
    simp only [List.mem_cons, exists_eq_or_imp]

theorem rmatch_star_oneOf {cs s : List α} :
    (oneOf cs).star.rmatch s = true ↔ ∀ c ∈ s, c ∈ cs := by
  rw [RegularExpression.star_rmatch_iff]
  constructor
  · rintro ⟨words, rfl, hwords⟩ c hc
    obtain ⟨w, hw, hcw⟩ := List.mem_flatten.mp hc
    obtain ⟨d, hd, rfl⟩ := rmatch_oneOf.mp (hwords w hw).2
    rwa [List.mem_singleton.mp hcw]
  · intro h
    refine ⟨s.map (fun c => [c]), ?_, ?_⟩
    · rw [← List.flatMap_def, List.flatMap_singleton']
    · intro t ht
      obtain ⟨c, hc, rfl⟩ := List.mem_map.mp ht
      exact ⟨List.cons_ne_nil c [], rmatch_oneOf.mpr ⟨c, h c hc, rfl⟩⟩

/-- A match of the whole text with `$` at the end, which stands also in front of a newline that ends
the text. -/
def matchLine (newline : α) (r : RegularExpression α) (s : List α) : Bool :=
  r.rmatch s || (s.getLast? == some newline && r.rmatch s.dropLast)

theorem matchLine_iff {newline : α} {r : RegularExpression α} {s : List α} :
    matchLine newline r s = true ↔
      r.rmatch s = true ∨ ∃ t, r.rmatch t = true ∧ s = t ++ [newline] := by
  rw [matchLine, Bool.or_eq_true, Bool.and_eq_true, beq_iff_eq]
  refine or_congr_right ⟨?_, ?_⟩
  · rintro ⟨hlast, hmatch⟩
    exact ⟨s.dropLast, hmatch, (List.dropLast_append_getLast? newline hlast).symm⟩
  · rintro ⟨t, hmatch, rfl⟩
    rw [List.getLast?_concat, List.dropLast_concat]
    exact ⟨rfl, hmatch⟩

end CharClass
