import Mcrpc.Correlator
import Mcrpc.Python.RequestScan

/-!
# Lines that start with a request id

What the Python package makes of a line whose first word starts with `#`: it is no event and no
request, and the digits of the word are the request id of the response.
-/

namespace Mcrpc

open Scan

def firstWord (line : Text) : Option Text := (split line).head?

theorem nil_space : ∀ c ∈ ([] : Text), isSpace c = true := fun _ h => absurd h List.not_mem_nil

theorem firstWord_append {pre w t : Text} (hpre : ∀ c ∈ pre, isSpace c = true)
    (hne : w ≠ [])
    (hw : ∀ c ∈ w, isSpace c = false) (ht : Stops (fun c => !isSpace c) t) :
    firstWord (pre ++ (w ++ t)) = some w := by
  rw [firstWord, split, Words.words_append_word hpre hne hw ht]
  rfl

theorem exists_of_firstWord {line w : Text} (h : firstWord line = some w) :
    ∃ pre t, line = pre ++ (w ++ t) ∧ (∀ c ∈ pre, isSpace c = true) ∧ w ≠ [] := by
  obtain ⟨ws, hws⟩ := List.head?_eq_some_iff.mp h
  obtain ⟨pre, t, hline, hpre, hne, -⟩ := Words.exists_of_words_eq_cons hws
  exact ⟨pre, t, hline, hpre, hne⟩

theorem dropWhile_append_cons {p : Char → Bool} {c : Char} (hc : p c = false) (pre t : Text) :
    ∃ pre', (pre ++ c :: t).dropWhile p = pre' ++ c :: t ∧ ∀ d ∈ pre', d ∈ pre := by
  induction pre with
  | nil => exact ⟨[], List.dropWhile_cons_of_neg (by simp [hc]), fun _ h => h⟩
  | cons d pre ih =>
    by_cases hd : p d = true
    · obtain ⟨pre', hdrop, hsub⟩ := ih
      rw [List.cons_append, List.dropWhile_cons_of_pos hd]
      exact ⟨pre', hdrop, fun e he => List.mem_cons_of_mem d (hsub e he)⟩
    · exact ⟨d :: pre, List.dropWhile_cons_of_neg hd, fun _ h => h⟩

/-- The request of a line starts behind some of its leading white space. -/
theorem startOf_append {pre t : Text} {c : Char} (hpre : ∀ d ∈ pre, isSpace d = true)
    (hblank : isBlank c = false) (hend : isLineEnd c = false) :
    ∃ pre', startOf (pre ++ c :: t) = pre' ++ c :: t ∧ ∀ d ∈ pre', isSpace d = true := by
  obtain ⟨pre₁, h₁, hsub₁⟩ := dropWhile_append_cons hblank pre t
  obtain ⟨pre₂, h₂, hsub₂⟩ := dropWhile_append_cons hend pre₁ t
  obtain ⟨pre₃, h₃, hsub₃⟩ := dropWhile_append_cons hblank pre₂ t
  refine ⟨pre₃, ?_, fun d hd => hpre d (hsub₁ d (hsub₂ d (hsub₃ d hd)))⟩
  rw [startOf, skipSpaces, skipSpaces, h₁, h₂, h₃]

/-- The id is the first word of a reply that carries one. -/
theorem split_hash_decimal (n : ℕ) (rest : Text) :
    split ('#' :: (decimal n ++ [' ']) ++ rest) = ('#' :: decimal n) :: split rest := by
  have hspace : ∀ c ∈ '#' :: decimal n, isSpace c = false := by
    refine List.forall_mem_cons.mpr ⟨rfl, fun c hc => ?_⟩
    rw [← Bool.not_eq_true, isSpace_iff]
    have := isDigit_iff.mp (isDigit_of_mem_decimal hc)
    omega
  have hword := Words.words_append_word (s := []) (t := ' ' :: rest) nil_space
    (List.cons_ne_nil _ _) hspace (stops_cons.mpr rfl)
  rw [Words.words_cons (by rfl)] at hword
  simpa [split] using hword

namespace Python

section Decimal

variable {F : Type} (py : Python F)

theorem isdigitStr_decimal (n : ℕ) : py.isdigitStr (decimal n) = true := by
  rw [isdigitStr, Bool.and_eq_true, decide_eq_true_eq, List.all_eq_true]
  refine ⟨decimal_ne_nil n, fun c hc => ?_⟩
  have hdigit := isDigit_of_mem_decimal hc
  rw [py.isdigit_ascii c (by have := isDigit_iff.mp hdigit; omega), hdigit]

theorem int_decimal {n : ℕ} (h : (decimal n).length ≤ 4300) : py.int (decimal n) = some (n : ℤ) := by
  rw [py.int_digits _ (decimal_ne_nil n) (fun c hc => isDigit_of_mem_decimal hc), if_pos h, decimal,
    Nat.ofDigitChars_ten_toDigits]

theorem takeRequestId_decimal {n : ℕ} (h : (decimal n).length ≤ 4300) (rest : List Text) :
    py.takeRequestId (('#' :: decimal n) :: rest) = .ok (some (n : ℤ), rest) :=
  py.takeRequestId_of_isdigitStr (py.isdigitStr_decimal n) (py.int_decimal h)

theorem coerceNumber_decimal {n : ℕ} (h : (decimal n).length ≤ 4300) :
    py.coerceNumber (decimal n) = .int n := by
  have hchar : ∀ c ∈ decimal n, 48 ≤ c.toNat ∧ c.toNat ≤ 57 := fun c hc =>
    isDigit_iff.mp (isDigit_of_mem_decimal hc)
  have hdot : '.' ∉ decimal n := fun hc => absurd (hchar '.' hc) (by decide)
  have he : 'e' ∉ py.lower (decimal n) := by
    rw [py.lower_ascii _ (fun c hc => by have := hchar c hc; omega)]
    intro hmem
    obtain ⟨c, hc, hce⟩ := List.mem_map.mp hmem
    have hcode := hchar c hc
    rw [Ascii.eq_iff_toNat, Ascii.toNat_toLower, if_neg (by omega)] at hce
    have : 'e'.toNat = 101 := rfl
    omega
  rw [coerceNumber, if_neg (not_or.mpr ⟨hdot, he⟩), py.int_decimal h]

end Decimal

variable {F : Type} {py : Python F}

theorem Regular.isIdentChar_eq_false (h : py.Regular) {c : Char}
    (hc : isSpace c = true ∨ c = '#') : py.isIdentChar c = false := by
  have hcode : c.toNat ≠ 95 ∧ c.toNat ≠ 45 := by
    rcases hc with hc | rfl
    · have := isSpace_iff.mp hc
      omega
    · decide
  have halnum : py.isalnum c = false := by
    rcases hc with hc | rfl
    · exact h.isalnum_space c hc
    · exact py.isalnum_ascii '#' (by decide)
  have hunder : c ≠ '_' := fun he => hcode.1 (by rw [he]; rfl)
  have hdash : c ≠ '-' := fun he => hcode.2 (by rw [he]; rfl)
  rw [isIdentChar, halnum]
  simp only [Bool.false_or, Bool.or_eq_false_iff, beq_eq_false_iff_ne]
  exact ⟨hunder, hdash⟩

theorem Regular.not_groupWord (h : py.Regular) {c : Char} {s : Text}
    (hc : isSpace c = true ∨ c = '#') : "group:".toList.isPrefixOf (py.lower (c :: s)) = false := by
  have hascii : ∀ d ∈ [c], d.toNat < 128 ∨ isSpace d = true := by
    rw [List.forall_mem_singleton]
    exact hc.symm.imp_left (fun he => by rw [he]; decide)
  obtain ⟨t, ht⟩ := h.lower_append [c] s hascii
  have hg : 'g' ≠ c.toLower := by
    intro he
    have hcode := (congrArg Char.toNat he).trans (Ascii.toNat_toLower c)
    change 103 = _ at hcode
    rcases hc with hc | rfl
    · have := isSpace_iff.mp hc
      split_ifs at hcode <;> omega
    · revert hcode
      decide
  rw [List.singleton_append] at ht
  rw [ht, ← Bool.not_eq_true, List.isPrefixOf_iff_prefix]
  rintro ⟨u, hu⟩
  exact hg (List.cons.inj hu).1

theorem Regular.parseTarget_none (h : py.Regular) {c : Char} {s : Text}
    (hc : isSpace c = true ∨ c = '#') (hblank : isBlank c = false) :
    (py.parseTarget (c :: s) {}).1 = none := by
  have hat : c ≠ '@' := by
    rintro rfl
    revert hc
    decide
  have hread : py.readToken (c :: s) true = (none, c :: s) := by
    have hstop : Stops py.isIdentChar (c :: s) := stops_cons.mpr (h.isIdentChar_eq_false hc)
    have hskip : skipSpaces (c :: s) = c :: s := dropWhile_eq_self (stops_cons.mpr hblank)
    rw [readToken, hskip]
    simp only [tokenClass, if_true, takeWhile_eq_nil hstop, List.cons_ne_nil, if_false]
  unfold parseTarget
  split
  · next he => exact absurd (List.cons.inj he).1 hat
  · rw [h.not_groupWord hc]
    simp only [Bool.false_eq_true, if_false, hread]

theorem Regular.looksLikeRequest_hash (h : py.Regular) {line digits : Text}
    (hword : firstWord line = some ('#' :: digits)) :
    RequestCorrelator.looksLikeRequest py line = .ok false := by
  obtain ⟨pre, t, rfl, hpre, -⟩ := exists_of_firstWord hword
  obtain ⟨pre', hstart, hpre'⟩ := startOf_append (c := '#') (t := digits ++ t) hpre rfl rfl
  rw [List.cons_append]
  obtain ⟨c, s, hcs, hc⟩ : ∃ c s, startOf (pre ++ '#' :: (digits ++ t)) = c :: s ∧
      (isSpace c = true ∨ c = '#') := by
    rw [hstart]
    cases pre' with
    | nil => exact ⟨'#', _, rfl, .inr rfl⟩
    | cons c pre' => exact ⟨c, _, rfl, .inl (hpre' c List.mem_cons_self)⟩
  have hblank : isBlank c = false := by
    have hstop : Stops isBlank (startOf (pre ++ '#' :: (digits ++ t))) := stops_dropWhile isBlank _
    rw [hcs] at hstop
    exact stops_cons.mp hstop
  have hne : startOf (pre ++ '#' :: (digits ++ t)) ≠ [] := by
    rw [hcs]
    exact List.cons_ne_nil c s
  have hparse := py.parse_eq_parseRequest hne
  have htarget : py.parseTarget (c :: s) {} = (none, (py.parseTarget (c :: s) {}).2) :=
    Prod.ext (h.parseTarget_none hc hblank) rfl
  rw [hcs, parseRequest, htarget] at hparse
  simp only [RequestCorrelator.looksLikeRequest, hparse]

theorem Regular.isEventWord_hash (h : py.Regular) (digits : Text) :
    py.isEventWord ('#' :: digits) = false := by
  obtain ⟨t, ht⟩ := h.lower_append ['#'] digits (List.forall_mem_singleton.mpr (.inl (by decide)))
  rw [List.singleton_append] at ht
  rw [isEventWord, ht, decide_eq_false_iff_not]
  exact fun he => absurd (List.cons.inj he).1 (by decide)

theorem Regular.parseEvent_hash (h : py.Regular) {line digits : Text}
    (hword : firstWord line = some ('#' :: digits)) : py.parseEvent (some line) = none := by
  rw [parseEvent_eq_none_iff]
  intro head hhead
  change head ∈ firstWord line at hhead
  rw [hword, Option.mem_def, Option.some.injEq] at hhead
  rw [← hhead]
  exact h.isEventWord_hash digits

/-- The classification of a message whose text starts with a word `#…`. -/
theorem Regular.classifyInbound_hash {V T : Type} [Truthy V] (h : py.Regular)
    (c : RequestCorrelator V T) {raw digits : Text} {rest : List Text}
    (hwords : split (stripSenderPrefix (some raw)) = ('#' :: digits) :: rest) (consume : Bool) :
    c.classifyInbound py raw consume =
      match py.takeRequestId (('#' :: digits) :: rest) with
      | .error e => (.error e, c)
      | .ok (rid, tokens) =>
        let r := c.matchResponse
          (py.responseOf (strip (stripSenderPrefix (some raw))) rid tokens) consume
        (.ok r.1, r.2) := by
  have hword : firstWord (stripSenderPrefix (some raw)) = some ('#' :: digits) := by
    rw [firstWord, hwords]
    rfl
  simp only [RequestCorrelator.classifyInbound, h.parseEvent_hash hword,
    h.looksLikeRequest_hash hword, parseResponse, Option.getD_some, splitTokens_eq_split,
    split_strip, stripRequestId_eq, hwords]
  cases py.takeRequestId (('#' :: digits) :: rest) with
  | error e => rfl
  | ok r => rfl

theorem Regular.classifyInbound_decimal {V T : Type} [Truthy V] (h : py.Regular)
    (c : RequestCorrelator V T) {n : ℕ} (hn : (decimal n).length ≤ 4300) {raw : Text}
    {rest : List Text}
    (hwords : split (stripSenderPrefix (some raw)) = ('#' :: decimal n) :: rest) (consume : Bool) :
    ∃ resp : ParsedResponse F, resp.requestId = some (n : ℤ) ∧ c.classifyInbound py raw consume =
      (.ok (c.matchResponse resp consume).1, (c.matchResponse resp consume).2) := by
  rw [h.classifyInbound_hash c hwords consume, py.takeRequestId_decimal hn]
  exact ⟨_, py.requestId_responseOf _ _ _, rfl⟩

end Python
end Mcrpc
