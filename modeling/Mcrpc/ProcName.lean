import Mcrpc.CallResult
import Mcrpc.Python.CallResult

/-!
# Procedure names

The grammar `ns.action` of section 4.2 of RFC-0002 and the two validators. The `$` of the regular
expression lets a newline pass behind the name.
-/

namespace Mcrpc

/-- `ALPHA *(ALPHA / DIGIT / "_")` -/
def ProcSegment (s : Text) : Prop :=
  ∃ c rest, s = c :: rest ∧ c.isAlpha = true ∧ ∀ d ∈ rest, d.isAlphanum = true ∨ d = '_'

/-- `ns "." action` -/
def ProcName (s : Text) : Prop :=
  ∃ ns action, s = ns ++ '.' :: action ∧ ProcSegment ns ∧ ProcSegment action

theorem ProcSegment.mem {s : Text} (h : ProcSegment s) {c : Char} (hc : c ∈ s) :
    c.isAlphanum = true ∨ c = '_' := by
  obtain ⟨d, rest, rfl, hd, hrest⟩ := h
  rcases List.mem_cons.mp hc with rfl | hc
  · refine .inl ?_
    rw [Char.isAlphanum, hd]
    rfl
  · exact hrest c hc

theorem ProcSegment.dot {s : Text} (h : ProcSegment s) : '.' ∉ s := by
  intro hmem
  exact absurd (h.mem hmem) (by decide)

theorem ProcSegment.ne_nil {s : Text} (h : ProcSegment s) : s ≠ [] := by
  obtain ⟨c, rest, rfl, -⟩ := h
  exact List.cons_ne_nil c rest

theorem ProcName.mem {s : Text} (h : ProcName s) {c : Char} (hc : c ∈ s) :
    c.isAlphanum = true ∨ c = '_' ∨ c = '.' := by
  obtain ⟨ns, action, rfl, hns, haction⟩ := h
  rcases List.mem_append.mp hc with hc | hc
  · exact (hns.mem hc).imp_right .inl
  · rcases List.mem_cons.mp hc with rfl | hc
    · exact .inr (.inr rfl)
    · exact (haction.mem hc).imp_right .inl

theorem ProcName.ne_nil {s : Text} (h : ProcName s) : s ≠ [] := by
  obtain ⟨ns, action, rfl, -⟩ := h
  exact List.append_ne_nil_of_right_ne_nil ns (List.cons_ne_nil '.' action)

theorem ProcName.count_dot {s : Text} (h : ProcName s) : s.count '.' = 1 := by
  obtain ⟨ns, action, rfl, hns, haction⟩ := h
  rw [List.count_append, List.count_cons_self, List.count_eq_zero.mpr hns.dot,
    List.count_eq_zero.mpr haction.dot]

/-! ### The firmware -/

namespace CallResult

theorem letter_iff (c : Char) :
    (('a' ≤ c && c ≤ 'z') || ('A' ≤ c && c ≤ 'Z')) = true ↔ c.isAlpha = true := by
  simp only [Bool.or_eq_true, Bool.and_eq_true, decide_eq_true_eq, Ascii.le_iff_toNat, isAlpha_iff]
  change 97 ≤ c.toNat ∧ c.toNat ≤ 122 ∨ 65 ≤ c.toNat ∧ c.toNat ≤ 90 ↔ _
  omega

theorem isProcSegment_iff (s : Text) : isProcSegment s = true ↔ ProcSegment s := by
  have hchar (c : Char) : (('a' ≤ c && c ≤ 'z') || ('A' ≤ c && c ≤ 'Z') ||
      ('0' ≤ c && c ≤ '9') || c == '_') = true ↔ c.isAlphanum = true ∨ c = '_' := by
    rw [Bool.or_eq_true, Bool.or_eq_true, letter_iff, beq_iff_eq, Char.isAlphanum, Bool.or_eq_true,
      Char.isDigit_iff_toNat, Bool.and_eq_true, decide_eq_true_eq, decide_eq_true_eq,
      Ascii.le_iff_toNat, Ascii.le_iff_toNat]
  cases s with
  | nil => exact iff_of_false Bool.false_ne_true (fun h => h.ne_nil rfl)
  | cons c rest =>
    simp only [isProcSegment, Bool.and_eq_true, letter_iff, List.all_eq_true, hchar]
    constructor
    · exact fun h => ⟨c, rest, rfl, h⟩
    · rintro ⟨d, rest', heq, h⟩
      obtain ⟨rfl, rfl⟩ := List.cons.inj heq
      exact h

theorem isValidProc_append {ns action : Text} (hns : '.' ∉ ns) :
    isValidProc (ns ++ '.' :: action) = true ↔ ProcSegment ns ∧ ProcSegment action := by
  have hkey := Scan.all_ne_of_not_mem hns
  have htake : (ns ++ '.' :: action).takeWhile (· ≠ '.') = ns := by
    rw [List.takeWhile_append_of_pos hkey, List.takeWhile_cons_of_neg (by simp), List.append_nil]
  have hdrop : (ns ++ '.' :: action).dropWhile (· ≠ '.') = '.' :: action := by
    rw [List.dropWhile_append_of_pos hkey, List.dropWhile_cons_of_neg (by simp)]
  rw [isValidProc, hdrop, htake]
  simp only [Bool.and_eq_true, isProcSegment_iff, decide_eq_true_eq, Bool.not_eq_true',
    List.contains_eq_mem, decide_eq_false_iff_not]
  constructor
  · rintro ⟨⟨-, h⟩, h'⟩
    exact ⟨h, h'⟩
  · rintro ⟨h, h'⟩
    exact ⟨⟨⟨⟨h.ne_nil, h'.ne_nil⟩, h'.dot⟩, h⟩, h'⟩

/-- The firmware accepts the grammar. -/
theorem isValidProc_iff (s : Text) : isValidProc s = true ↔ ProcName s := by
  constructor
  · intro h
    by_cases hdot : '.' ∈ s
    · obtain ⟨ns, action, rfl, hns⟩ := List.eq_append_cons_of_mem hdot
      exact ⟨ns, action, rfl, (isValidProc_append hns).mp h⟩
    · have hdrop : s.dropWhile (· ≠ '.') = [] :=
        List.dropWhile_eq_nil_iff.mpr (Scan.all_ne_of_not_mem hdot)
      rw [isValidProc, hdrop] at h
      cases h
  · rintro ⟨ns, action, rfl, hns, haction⟩
    exact (isValidProc_append hns.dot).mpr ⟨hns, haction⟩

end CallResult

/-! ### The Python package -/

theorem mem_procLetters {c : Char} : c ∈ procLetters ↔ c.isAlpha = true := by
  have hascii (c : Char) (h : c.isAlpha = true) : c.toNat < 128 := by
    have := isAlpha_iff.mp h
    omega
  exact Ascii.mem_iff_of_all (by decide) (by decide +kernel) hascii

theorem mem_procChars {c : Char} : c ∈ procChars ↔ c.isAlphanum = true ∨ c = '_' := by
  have hascii (c : Char) (h : (c.isAlphanum || c == '_') = true) : c.toNat < 128 := by
    rcases Bool.or_eq_true_iff.mp h with h | h
    · have := isAlphanum_iff.mp h
      omega
    · rw [beq_iff_eq.mp h]
      decide
  have hclass : c ∈ procChars ↔ (c.isAlphanum || c == '_') = true :=
    Ascii.mem_iff_of_all (by decide) (by decide +kernel) hascii
  rw [hclass, Bool.or_eq_true, beq_iff_eq]

theorem rmatch_procSegmentRe {s : Text} : procSegmentRe.rmatch s = true ↔ ProcSegment s := by
  rw [procSegmentRe, RegularExpression.mul_rmatch_iff]
  constructor
  · rintro ⟨first, rest, rfl, hfirst, hrest⟩
    obtain ⟨c, hc, rfl⟩ := CharClass.rmatch_oneOf.mp hfirst
    refine ⟨c, rest, rfl, mem_procLetters.mp hc, fun d hd => ?_⟩
    exact mem_procChars.mp (CharClass.rmatch_star_oneOf.mp hrest d hd)
  · rintro ⟨c, rest, rfl, hc, hrest⟩
    refine ⟨[c], rest, rfl, CharClass.rmatch_oneOf.mpr ⟨c, mem_procLetters.mpr hc, rfl⟩, ?_⟩
    exact CharClass.rmatch_star_oneOf.mpr (fun d hd => mem_procChars.mpr (hrest d hd))

theorem rmatch_procRe {s : Text} : procRe.rmatch s = true ↔ ProcName s := by
  rw [procRe, RegularExpression.mul_rmatch_iff]
  constructor
  · rintro ⟨ns, tail, rfl, hns, htail⟩
    obtain ⟨dot, action, rfl, hdot, haction⟩ := (RegularExpression.mul_rmatch_iff _ _ _).mp htail
    obtain rfl := (RegularExpression.char_rmatch_iff '.' _).mp hdot
    exact ⟨ns, action, rfl, rmatch_procSegmentRe.mp hns, rmatch_procSegmentRe.mp haction⟩
  · rintro ⟨ns, action, rfl, hns, haction⟩
    refine ⟨ns, '.' :: action, rfl, rmatch_procSegmentRe.mpr hns, ?_⟩
    refine (RegularExpression.mul_rmatch_iff _ _ _).mpr ⟨['.'], action, rfl, ?_, ?_⟩
    · exact (RegularExpression.char_rmatch_iff '.' _).mpr rfl
    · exact rmatch_procSegmentRe.mpr haction

/-- The Python package accepts the grammar, and every name of it with a newline behind. -/
theorem python_isValidProc_iff (s : Text) : Python.isValidProc (some s) = true ↔
    ProcName s ∨ ∃ t, ProcName t ∧ s = t ++ ['\n'] := by
  have hline : CharClass.matchLine '\n' procRe s = true ↔
      ProcName s ∨ ∃ t, ProcName t ∧ s = t ++ ['\n'] := by
    simp only [CharClass.matchLine_iff, rmatch_procRe]
  have hshape : (ProcName s ∨ ∃ t, ProcName t ∧ s = t ++ ['\n']) → s ≠ [] ∧ s.count '.' = 1 := by
    rintro (h | ⟨t, h, rfl⟩)
    · exact ⟨h.ne_nil, h.count_dot⟩
    · refine ⟨List.append_ne_nil_of_left_ne_nil h.ne_nil _, ?_⟩
      rw [List.count_append, h.count_dot]
      rfl
  change (if s = [] then false else if s.count '.' ≠ 1 then false
    else CharClass.matchLine '\n' procRe s) = true ↔ _
  split_ifs with hnil hcount
  · exact iff_of_false id (fun h => (hshape h).1 hnil)
  · exact iff_of_false id (fun h => hcount (hshape h).2)
  · exact hline

/-- Both validators decide the grammar on every text but a name with a newline behind. -/
theorem isValidProc_agree_iff (s : Text) :
    ((CallResult.isValidProc s = true ↔ ProcName s) ∧
      Python.isValidProc (some s) = CallResult.isValidProc s) ↔
      ¬ ∃ t, ProcName t ∧ s = t ++ ['\n'] := by
  rw [and_iff_right (CallResult.isValidProc_iff s), Bool.eq_iff_iff, python_isValidProc_iff,
    CallResult.isValidProc_iff]
  constructor
  · rintro h ⟨t, ht, rfl⟩
    have hname := h.mp (.inr ⟨t, ht, rfl⟩)
    exact absurd (hname.mem (List.mem_append_right t (List.mem_singleton_self _))) (by decide)
  · exact fun h => or_iff_left h

/-- The Python package takes a name with a newline behind, the firmware does not. -/
theorem isValidProc_newline : Python.isValidProc (some "ha.notify\n".toList) = true ∧
    CallResult.isValidProc "ha.notify\n".toList = false := by
  refine ⟨(python_isValidProc_iff _).mpr (.inr ⟨"ha.notify".toList, ?_, rfl⟩), by decide⟩
  exact (CallResult.isValidProc_iff _).mp (by decide)

end Mcrpc
