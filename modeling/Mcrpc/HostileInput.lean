import Mcrpc.Python.CallResult
import Mcrpc.Python.Discover
import Mcrpc.ReplyLine

/-!
# Which texts the Python parsers reject with an exception

The only calls of `int` that no `except` surrounds are those on the digits of a request id, which
`isdigit` admits. The parsers return a value exactly on the texts where `int` accepts the digits at
each of the two places: the first word, and behind the target.
-/

namespace Mcrpc

open Scan

def Returns {α : Type} (e : Except PyError α) : Prop := ∃ x, e = .ok x

theorem returns_ok {α : Type} (x : α) : Returns (.ok x) := ⟨x, rfl⟩

theorem not_returns_error {α : Type} (e : PyError) : ¬ Returns (.error e : Except PyError α) := by
  rintro ⟨x, hx⟩
  cases hx

namespace Python

variable {F : Type} (py : Python F)

def wordId (line : Text) : Option Text :=
  match firstWord line with
  | some ('#' :: digits) => if py.isdigitStr digits then some digits else none
  | _ => none

def afterTarget (s : Text) : Option Text :=
  match s with
  | '@' :: p => if p.takeWhile isHexChar = [] then none else some (p.dropWhile isHexChar)
  | s =>
    let name := skipSpaces (if "group:".toList.isPrefixOf (py.lower s) then s.drop 6 else s)
    if name.takeWhile py.isIdentChar = [] then none else some (name.dropWhile py.isIdentChar)

def targetId (line : Text) : Option Text :=
  match py.afterTarget (startOf line) with
  | none => none
  | some q =>
    match skipSpaces q with
    | '#' :: p => if p.takeWhile py.isdigit = [] then none else some (p.takeWhile py.isdigit)
    | _ => none

def Convertible (digits : Option Text) : Prop := ∀ d ∈ digits, py.int d ≠ none

theorem returns_takeRequestId_iff (line : Text) :
    Returns (py.takeRequestId (split line)) ↔ py.Convertible (py.wordId line) := by
  rw [wordId, firstWord]
  cases split line with
  | nil => exact iff_of_true (returns_ok _) (fun d hd => by cases hd)
  | cons token rest =>
    by_cases hhash : ∃ digits, token = '#' :: digits
    · obtain ⟨digits, rfl⟩ := hhash
      cases hdigits : py.isdigitStr digits with
      | false =>
        rw [py.takeRequestId_of_not_isdigitStr hdigits]
        simp only [List.head?_cons, hdigits, Bool.false_eq_true, if_false]
        exact iff_of_true (returns_ok _) (fun d hd => by cases hd)
      | true =>
        simp only [List.head?_cons, hdigits, if_true]
        cases hint : py.int digits with
        | none =>
          rw [takeRequestId, if_pos hdigits, hint]
          exact iff_of_false (not_returns_error _) (fun h => h digits rfl hint)
        | some n =>
          rw [py.takeRequestId_of_isdigitStr hdigits hint]
          refine iff_of_true (returns_ok _) (fun d hd => ?_)
          rw [← Option.some.inj hd, hint]
          exact Option.some_ne_none n
    · have hne := not_exists.mp hhash
      rw [py.takeRequestId_of_ne hne]
      refine iff_of_true (returns_ok _) ?_
      intro d hd
      dsimp only [List.head?_cons] at hd
      split at hd
      · next digits he => exact absurd (Option.some.inj he) (hne digits)
      · cases hd

/-- A parser that fails only where the request id is read. -/
theorem returns_bind_iff {α : Type} {line : Text}
    {rest : Option ℤ × List Text → Except PyError α} (hrest : ∀ r, Returns (rest r)) :
    Returns (py.takeRequestId (split line) >>= rest) ↔ py.Convertible (py.wordId line) := by
  rw [← py.returns_takeRequestId_iff]
  cases py.takeRequestId (split line) with
  | error e => exact iff_of_false (not_returns_error e) (not_returns_error e)
  | ok r => exact iff_of_true (hrest r) (returns_ok r)

theorem returns_parseResponse_iff (line : Text) :
    Returns (py.parseResponse (some line)) ↔ py.Convertible (py.wordId line) := by
  rw [parseResponse, Option.getD_some, splitTokens_eq_split, split_strip, stripRequestId_eq]
  exact py.returns_bind_iff (fun r => returns_ok _)

theorem returns_parseStatus_iff (line : Text) :
    Returns (py.parseStatus (some line)) ↔ py.Convertible (py.wordId line) := by
  rw [parseStatus, Option.getD_some, splitTokens_eq_split, split_strip]
  exact py.returns_bind_iff (fun r => returns_ok _)

theorem returns_parseDiscover_iff (line : Text) :
    Returns (py.parseDiscover (some line)) ↔ py.Convertible (py.wordId line) := by
  rw [parseDiscover, Option.getD_some, splitTokens_eq_split, split_strip]
  exact py.returns_bind_iff (fun r => returns_ok _)

theorem returns_parseCallResult_iff (line : Text) :
    Returns (py.parseCallResult (some line)) ↔ py.Convertible (py.wordId line) := by
  rw [parseCallResult, Option.getD_some, split_strip]
  refine py.returns_bind_iff (fun r => ?_)
  obtain ⟨rid, tokens⟩ := r
  cases tokens with
  | nil => exact returns_ok _
  | cons token rest =>
    dsimp only
    split
    · cases rest with
      | nil => exact returns_ok _
      | cons code rest => exact returns_ok _
    · exact returns_ok _

theorem readToken_eq (p : Text) : py.readToken p true =
    if (skipSpaces p).takeWhile py.isIdentChar = [] then (none, skipSpaces p)
    else (some ((skipSpaces p).takeWhile py.isIdentChar),
      (skipSpaces p).dropWhile py.isIdentChar) := by
  rw [readToken]
  split
  · next h => rw [h]; rfl
  · rfl

theorem hash_not_mem_takeWhile (s : Text) : '#' ∉ s.takeWhile py.isIdentChar := by
  intro hmem
  have hident : py.isIdentChar '#' = false := (py.isIdentChar_ascii (by decide)).trans rfl
  rw [mem_takeWhile hmem] at hident
  cases hident

theorem parseTarget_at (p : Text) : py.parseTarget ('@' :: p) {} =
    if p.takeWhile isHexChar = [] then (none, {})
    else (some (p.dropWhile isHexChar), { target := p.takeWhile isHexChar, addressKind := .id }) :=
  rfl

theorem parseTarget_of_ne {s : Text} (h : ∀ p, s ≠ '@' :: p) : py.parseTarget s {} =
    if "group:".toList.isPrefixOf (py.lower s) then
      match py.readToken (s.drop 6) true with
      | (none, _) => (none, { addressKind := .group })
      | (some token, p) => (some p, { addressKind := .group, target := token })
    else
      match py.readToken s true with
      | (none, _) => (none, {})
      | (some token, p) =>
        (some p, {
          target := token
          addressKind :=
            if py.lower token = "all".toList then .all
            else if py.lower token = "self".toList then .self
            else .named }) := by
  unfold parseTarget
  split
  · next p => exact absurd rfl (h p)
  · rfl

theorem afterTarget_of_ne {s : Text} (h : ∀ p, s ≠ '@' :: p) : py.afterTarget s =
    if (skipSpaces (if "group:".toList.isPrefixOf (py.lower s) then s.drop 6 else s)).takeWhile
        py.isIdentChar = [] then none
    else some ((skipSpaces (if "group:".toList.isPrefixOf (py.lower s) then s.drop 6 else s)).dropWhile
        py.isIdentChar) := by
  unfold afterTarget
  split
  · next p => exact absurd rfl (h p)
  · rfl

/-- The target is read up to where it ends, and has no `#`. -/
theorem parseTarget_spec (s : Text) : (py.parseTarget s {}).1 = py.afterTarget s ∧
    '#' ∉ (py.parseTarget s {}).2.target := by
  by_cases hat : ∃ p, s = '@' :: p
  · obtain ⟨p, rfl⟩ := hat
    rw [parseTarget_at]
    split
    · next hnil => exact ⟨(if_pos hnil).symm, List.not_mem_nil⟩
    · next hnil =>
      refine ⟨(if_neg hnil).symm, fun hmem => ?_⟩
      have hhex : isHexChar '#' = false := by decide
      rw [mem_takeWhile hmem] at hhex
      cases hhex
  · have hne := not_exists.mp hat
    rw [py.parseTarget_of_ne hne, py.afterTarget_of_ne hne]
    split
    · by_cases hnil : (skipSpaces (s.drop 6)).takeWhile py.isIdentChar = []
      · rw [py.readToken_eq, if_pos hnil, if_pos hnil]
        exact ⟨rfl, List.not_mem_nil⟩
      · rw [py.readToken_eq, if_neg hnil, if_neg hnil]
        exact ⟨rfl, py.hash_not_mem_takeWhile _⟩
    · by_cases hnil : (skipSpaces s).takeWhile py.isIdentChar = []
      · rw [py.readToken_eq, if_pos hnil, if_pos hnil]
        exact ⟨rfl, List.not_mem_nil⟩
      · rw [py.readToken_eq, if_neg hnil, if_neg hnil]
        exact ⟨rfl, py.hash_not_mem_takeWhile _⟩

theorem returns_parseRequestId_iff (q : Text) (out : PyRequest) :
    Returns (py.parseRequestId q out) ↔ ∀ p, skipSpaces q = '#' :: p →
      p.takeWhile py.isdigit ≠ [] → py.int (p.takeWhile py.isdigit) ≠ none := by
  unfold parseRequestId
  split
  · next p hp =>
    split
    · next hnil =>
      refine iff_of_true (returns_ok _) (fun p' hp' hne => ?_)
      rw [hp, List.cons.injEq] at hp'
      rw [← hp'.2] at hne
      exact absurd hnil hne
    · next hnil =>
      cases hint : py.int (p.takeWhile py.isdigit) with
      | none => exact iff_of_false (not_returns_error _) (fun h => h p hp hnil hint)
      | some n =>
        refine iff_of_true (returns_ok _) (fun p' hp' _ => ?_)
        rw [hp, List.cons.injEq] at hp'
        rw [← hp'.2, hint]
        exact Option.some_ne_none n
  · next hne => exact iff_of_true (returns_ok _) (fun p hp => absurd hp (hne p))

theorem convertible_targetId_iff {line q : Text} (h : py.afterTarget (startOf line) = some q) :
    py.Convertible (py.targetId line) ↔ ∀ p, skipSpaces q = '#' :: p →
      p.takeWhile py.isdigit ≠ [] → py.int (p.takeWhile py.isdigit) ≠ none := by
  simp only [targetId, h]
  split
  · next p hp =>
    simp only [hp, List.cons.injEq, true_and, forall_eq']
    split
    · next hnil => exact iff_of_true (fun d hd => by cases hd) (fun hne => absurd hnil hne)
    · next hnil =>
      rw [Convertible]
      simp only [Option.mem_def, Option.some.injEq, forall_eq', ne_eq, hnil, not_false_eq_true,
        forall_const]
  · next hne => exact iff_of_true (fun d hd => by cases hd) (fun p hp => absurd hp (hne p))

theorem returns_parse_iff (line : Text) :
    Returns (py.parse (some line)) ↔ py.Convertible (py.targetId line) := by
  by_cases hstart : startOf line = []
  · have hempty : py.lower [] = [] := py.lower_ascii [] (fun c hc => by cases hc)
    have hnone : py.targetId line = none := by
      rw [targetId, hstart, py.afterTarget_of_ne (fun p hp => by cases hp), hempty]
      rfl
    rw [hnone]
    refine iff_of_true ?_ (fun d hd => by cases hd)
    rw [parse]
    split
    · exact returns_ok _
    · rw [if_pos (show skipSpaces ((skipSpaces line).dropWhile isLineEnd) = [] from hstart)]
      exact returns_ok _
  · obtain ⟨hfst, hhash⟩ := py.parseTarget_spec (startOf line)
    rw [py.parse_eq_parseRequest hstart, parseRequest]
    cases htarget : py.parseTarget (startOf line) {} with
    | mk rest out =>
      rw [htarget] at hfst hhash
      cases rest with
      | none =>
        have hnone : py.targetId line = none := by
          rw [targetId, ← hfst]
        rw [hnone]
        exact iff_of_true (returns_ok _) (fun d hd => by cases hd)
      | some q =>
        rw [py.convertible_targetId_iff hfst.symm, ← py.returns_parseRequestId_iff q out]
        simp only [py.splitTargetId_eq_self out hhash]
        cases py.parseRequestId q out with
        | error e => exact iff_of_false (not_returns_error e) (not_returns_error e)
        | ok r =>
          obtain ⟨p, out'⟩ := r
          cases p <;> exact iff_of_true (returns_ok _) (returns_ok _)

variable {V T : Type} [Truthy V]

theorem returns_looksLikeRequest_iff (line : Text) :
    Returns (RequestCorrelator.looksLikeRequest py line) ↔ py.Convertible (py.targetId line) := by
  rw [← py.returns_parse_iff, RequestCorrelator.looksLikeRequest]
  cases py.parse (some line) with
  | error e => exact iff_of_false (not_returns_error e) (not_returns_error e)
  | ok r =>
    obtain ⟨result, req⟩ := r
    cases result <;> exact iff_of_true (returns_ok _) (returns_ok _)

def IsEvent (line : Text) : Prop := ∃ head, firstWord line = some head ∧ py.isEventWord head = true

theorem wordId_eq_none {line : Text} (h : ∀ digits, firstWord line ≠ some ('#' :: digits)) :
    py.wordId line = none := by
  rw [wordId]
  split
  · next digits hd => exact absurd hd (h digits)
  · rfl

variable {py}

theorem Regular.returns_classifyInbound_iff (h : py.Regular) (c : RequestCorrelator V T)
    (raw : Text) (consume : Bool) : Returns (c.classifyInbound py raw consume).1 ↔
      py.IsEvent (stripSenderPrefix (some raw)) ∨
        (py.Convertible (py.targetId (stripSenderPrefix (some raw))) ∧
          py.Convertible (py.wordId (stripSenderPrefix (some raw)))) := by
  generalize hbody : stripSenderPrefix (some raw) = body
  simp only [RequestCorrelator.classifyInbound, hbody]
  have hevent : py.parseEvent (some body) = none ↔ ¬ py.IsEvent body := by
    rw [parseEvent_eq_none_iff, IsEvent, not_exists]
    simp only [not_and, Bool.not_eq_true]
    exact Iff.rfl
  cases he : py.parseEvent (some body) with
  | some event =>
    have hyes : py.IsEvent body := by
      by_contra hno
      rw [hevent.mpr hno] at he
      cases he
    exact iff_of_true (returns_ok _) (.inl hyes)
  | none =>
    rw [or_iff_right (hevent.mp he), ← py.returns_looksLikeRequest_iff,
      ← py.returns_parseResponse_iff]
    cases hlooks : RequestCorrelator.looksLikeRequest py body with
    | error e =>
      exact iff_of_false (not_returns_error e) (fun hand => not_returns_error e hand.1)
    | ok request =>
      cases request with
      | false =>
        rw [and_iff_right (returns_ok _)]
        cases py.parseResponse (some body) with
        | error e => exact iff_of_false (not_returns_error e) (not_returns_error e)
        | ok resp => exact iff_of_true (returns_ok _) (returns_ok _)
      | true =>
        refine iff_of_true (returns_ok _) ⟨returns_ok _, ?_⟩
        rw [py.returns_parseResponse_iff, py.wordId_eq_none]
        · exact fun d hd => by cases hd
        · intro digits hword
          rw [h.looksLikeRequest_hash hword] at hlooks
          cases hlooks

/-- No parser raises on the text. `parse_event` has no exception to raise. -/
structure NeverRaises (py : Python F) (c : RequestCorrelator V T) (consume : Bool) (raw : Text) :
    Prop where
  parse : Returns (py.parse (some raw))
  parseResponse : Returns (py.parseResponse (some raw))
  parseStatus : Returns (py.parseStatus (some raw))
  parseDiscover : Returns (py.parseDiscover (some raw))
  parseCallResult : Returns (py.parseCallResult (some raw))
  classifyInbound : Returns (c.classifyInbound py raw consume).1

/-- The parsers return a value exactly when `int` accepts the digits of the first word and those
behind the target, and does so for the text without its sender's name unless that is an event. -/
theorem Regular.neverRaises_iff (h : py.Regular) (c : RequestCorrelator V T) (consume : Bool)
    (raw : Text) : NeverRaises py c consume raw ↔
      (py.Convertible (py.wordId raw) ∧ py.Convertible (py.targetId raw)) ∧
        (py.IsEvent (stripSenderPrefix (some raw)) ∨
          (py.Convertible (py.targetId (stripSenderPrefix (some raw))) ∧
            py.Convertible (py.wordId (stripSenderPrefix (some raw))))) := by
  rw [← h.returns_classifyInbound_iff c raw consume]
  constructor
  · intro hall
    exact ⟨⟨(py.returns_parseResponse_iff raw).mp hall.parseResponse,
      (py.returns_parse_iff raw).mp hall.parse⟩, hall.classifyInbound⟩
  · rintro ⟨⟨hword, htarget⟩, hclassify⟩
    exact ⟨(py.returns_parse_iff raw).mpr htarget, (py.returns_parseResponse_iff raw).mpr hword,
      (py.returns_parseStatus_iff raw).mpr hword, (py.returns_parseDiscover_iff raw).mpr hword,
      (py.returns_parseCallResult_iff raw).mpr hword, hclassify⟩

theorem ne_superscript {c : Char} (hc : c.toNat < 128) : (c == '²') = false := by
  rw [beq_eq_false_iff_ne]
  rintro rfl
  revert hc
  decide

/-- An interpreter that also knows the superscript two, a digit that is no decimal digit. -/
def superscript : Python ℚ :=
  { ascii with
    isalnum := fun c => c.isAlphanum || c == '²'
    isdigit := fun c => c.isDigit || c == '²'
    isalnum_ascii := fun c hc => by rw [ne_superscript hc, Bool.or_false]
    isdigit_ascii := fun c hc => by rw [ne_superscript hc, Bool.or_false] }

theorem superscript_regular : superscript.Regular where
  lower_append := ascii_regular.lower_append
  isalnum_space c hc := by
    have htwo : c ≠ '²' := by
      rintro rfl
      revert hc
      decide
    have halnum : c.isAlphanum = false := ascii_regular.isalnum_space c hc
    change (c.isAlphanum || c == '²') = false
    rw [halnum, Bool.false_or, beq_eq_false_iff_ne]
    exact htwo
  int_letter := ascii_regular.int_letter

theorem neverRaises_iff_pong :
    NeverRaises superscript ({ defaultTimeout := 15 } : RequestCorrelator Bool ℕ) true
        "#7 pong".toList ↔
      (superscript.Convertible (superscript.wordId "#7 pong".toList) ∧
        superscript.Convertible (superscript.targetId "#7 pong".toList)) ∧
      (superscript.IsEvent (stripSenderPrefix (some "#7 pong".toList)) ∨
        (superscript.Convertible
            (superscript.targetId (stripSenderPrefix (some "#7 pong".toList))) ∧
          superscript.Convertible
            (superscript.wordId (stripSenderPrefix (some "#7 pong".toList))))) :=
  superscript_regular.neverRaises_iff { defaultTimeout := 15 } true "#7 pong".toList

/-- `#² pong` raises in the response parsers, `ha #² ping` in the request parser. -/
theorem superscript_raises :
    ¬ NeverRaises superscript ({ defaultTimeout := 15 } : RequestCorrelator Bool ℕ) true
        "#² pong".toList ∧
      superscript.parse (some "ha #² ping".toList) = .error .valueError := by
  refine ⟨fun h => ?_, rfl⟩
  exact (superscript.returns_parseResponse_iff _).mp h.parseResponse "²".toList rfl rfl

end Python
end Mcrpc
