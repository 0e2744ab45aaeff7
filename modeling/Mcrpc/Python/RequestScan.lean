import Mcrpc.ParserAgreement

/-!
# What the Python parser does with each part of a request

`parser.py` on a target, an optional request id and a command, each followed by any text that does
not continue it.
-/

namespace Mcrpc

open Scan

theorem isAscii_ident (w : Ident) : IsAscii w.chars := by
  intro c hc
  have := isIdentChar_iff.mp (w.all c hc)
  omega

theorem isSpace_of_isIdentChar {c : Char} (h : isIdentChar c = true) : isSpace c = false := by
  rw [← Bool.not_eq_true, isSpace_iff]
  have := isIdentChar_iff.mp h
  omega

theorem Ident.lower_ne_nil (w : Ident) : lower w.chars ≠ [] := by
  rw [ne_eq, lower, List.map_eq_nil_iff]
  exact w.ne_nil

theorem Ident.isIdentChar_of_mem_lower (w : Ident) : ∀ c ∈ lower w.chars, isIdentChar c = true := by
  intro c hc
  obtain ⟨d, hd, rfl⟩ := List.mem_map.mp hc
  have hident := isIdentChar_iff.mp (w.all d hd)
  rw [isIdentChar_iff, Ascii.toNat_toLower]
  split_ifs <;> omega

def lowerIdent (w : Ident) : Ident := ⟨lower w.chars, w.lower_ne_nil, w.isIdentChar_of_mem_lower⟩

theorem startOf_eq_self {p : Text} (hp : ∃ c w, p = c :: w ∧ isTokenChar c = true) :
    startOf p = p := by
  obtain ⟨c, w, rfl, hc⟩ := hp
  have hblank : Stops isBlank (c :: w) := stops_cons.mpr (not_isBlank_of_isTokenChar hc)
  have hend : Stops isLineEnd (c :: w) := stops_cons.mpr (not_isLineEnd_of_isTokenChar hc)
  rw [startOf, skipSpaces_eq_self hblank, dropWhile_eq_self hend, skipSpaces_eq_self hblank]

namespace Python

variable {F : Type} (py : Python F)

theorem parse_eq_parseRequest {line : Text} (h : startOf line ≠ []) :
    py.parse (some line) = py.parseRequest (startOf line) := by
  have hstart : (skipSpaces line).dropWhile isLineEnd ≠ [] := by
    intro hnil
    rw [startOf, hnil] at h
    exact h rfl
  have hskip : skipSpaces ((skipSpaces line).dropWhile isLineEnd) ≠ [] := h
  simp only [parse, hstart, hskip, if_false, startOf]

theorem isIdentChar_of_mem (w : Ident) : ∀ c ∈ w.chars, py.isIdentChar c = true := by
  intro c hc
  rw [py.isIdentChar_ascii (isAscii_ident w c hc), w.all c hc]

/-- An identifier ends at a 7-bit character of another class. -/
theorem stops_isIdentChar {c : Char} (hc : c.toNat < 128) (hident : Mcrpc.isIdentChar c = false)
    (s : Text) : Stops py.isIdentChar (c :: s) := by
  rw [stops_cons, py.isIdentChar_ascii hc, hident]

theorem stops_isIdentChar_of_isBlank {c : Char} (hc : isBlank c = true) (s : Text) :
    Stops py.isIdentChar (c :: s) := by
  refine py.stops_isIdentChar ?_ (not_isIdentChar_of_isBlank hc) s
  have := isBlank_iff.mp hc
  omega

theorem stops_of_afterTarget {s : Text} (hs : AfterTarget s) : Stops py.isIdentChar s := by
  obtain ⟨c, hc, hclass⟩ := hs
  obtain ⟨w, rfl⟩ := List.head?_eq_some_iff.mp hc
  rcases hclass with hblank | rfl
  · exact py.stops_isIdentChar_of_isBlank hblank w
  · exact py.stops_isIdentChar (by decide) rfl w

theorem readToken_run {g s : Text} (hg : ∀ c ∈ g, isBlank c = true) (w : Ident)
    (hs : Stops py.isIdentChar s) : py.readToken (g ++ (w.chars ++ s)) true = (some w.chars, s) := by
  obtain ⟨c, v, hw⟩ := List.exists_cons_of_ne_nil w.ne_nil
  have hne : w.chars ++ s ≠ [] := by
    rw [hw]
    exact List.cons_ne_nil c _
  rw [readToken, skipSpaces_append hg (ident_stops_isBlank w s)]
  simp only [tokenClass, if_true, takeWhile_append (py.isIdentChar_of_mem w) hs,
    dropWhile_append (py.isIdentChar_of_mem w) hs, if_neg hne, if_neg w.ne_nil]

variable {py}

theorem Regular.lower_ident (h : py.Regular) (w : Ident) {s : Text} (hs : AfterTarget s) :
    ∃ t, AfterTarget t ∧ py.lower (w.chars ++ s) = (lowerIdent w).chars ++ t := by
  obtain ⟨c, hc, hclass⟩ := hs
  obtain ⟨v, rfl⟩ := List.head?_eq_some_iff.mp hc
  have hcode : c.toNat = 32 ∨ c.toNat = 9 ∨ c.toNat = 35 := by
    rcases hclass with hblank | rfl
    · have := isBlank_iff.mp hblank
      omega
    · exact .inr (.inr rfl)
  have hascii : ∀ d ∈ w.chars ++ [c], d.toNat < 128 ∨ isSpace d = true := by
    rw [List.forall_mem_append, List.forall_mem_singleton]
    exact ⟨fun d hd => .inl (isAscii_ident w d hd), .inl (by omega)⟩
  obtain ⟨t, ht⟩ := h.lower_append (w.chars ++ [c]) v hascii
  have hlower : c.toLower = c := by
    rw [Ascii.eq_iff_toNat, Ascii.toNat_toLower]
    split_ifs <;> omega
  refine ⟨c :: t, ⟨c, rfl, hclass⟩, ?_⟩
  rw [List.append_assoc, List.singleton_append] at ht
  rw [ht, Mcrpc.lower, List.map_append, List.map_singleton, hlower, List.append_assoc]
  rfl

theorem Regular.parseTarget_ident (h : py.Regular) (w : Ident) {s : Text} (hs : AfterTarget s) :
    py.parseTarget (w.chars ++ s) {} = (some s, {
      target := w.chars
      addressKind := if ieq w.chars "all".toList then .all
        else if ieq w.chars "self".toList then .self else .named }) := by
  have hread : py.readToken (w.chars ++ s) true = (some w.chars, s) :=
    py.readToken_run (g := []) nil_blank w (py.stops_of_afterTarget hs)
  have hgroup : "group:".toList.isPrefixOf (py.lower (w.chars ++ s)) = false := by
    obtain ⟨t, ht, hlower⟩ := h.lower_ident w hs
    rw [hlower]
    exact not_isPrefixOf_ident false (lowerIdent w) ht
  obtain ⟨c, v, hw⟩ := List.exists_cons_of_ne_nil w.ne_nil
  have hc : c ≠ '@' := ne_of_isIdentChar (w.all c (by simp [hw])) rfl
  unfold parseTarget
  split
  · next start he =>
    rw [hw, List.cons_append] at he
    exact absurd (List.cons.inj he).1 hc
  · rw [hgroup]
    simp only [Bool.false_eq_true, if_false, hread,
      py.lower_eq_iff (isAscii_ident w) (w := "all".toList) (by decide),
      py.lower_eq_iff (isAscii_ident w) (w := "self".toList) (by decide)]

theorem Regular.parseTarget_group (h : py.Regular) (upper : Bool) (w : Ident) {s : Text}
    (hs : AfterTarget s) : py.parseTarget (groupKeyword upper ++ (w.chars ++ s)) {} =
      (some s, { addressKind := .group, target := w.chars }) := by
  have hread : py.readToken (w.chars ++ s) true = (some w.chars, s) :=
    py.readToken_run (g := []) nil_blank w (py.stops_of_afterTarget hs)
  have hascii : ∀ c ∈ groupKeyword upper, c.toNat < 128 ∨ isSpace c = true := by
    cases upper <;> exact forall_of_all rfl
  obtain ⟨t, ht⟩ := h.lower_append (groupKeyword upper) (w.chars ++ s) hascii
  have hkeyword : "group:".toList.isPrefixOf (py.lower (groupKeyword upper ++ (w.chars ++ s))) =
      true := by
    rw [ht, List.isPrefixOf_iff_prefix]
    cases upper <;> exact ⟨t, rfl⟩
  have hdrop : (groupKeyword upper ++ (w.chars ++ s)).drop 6 = w.chars ++ s := by
    cases upper <;> rfl
  unfold parseTarget
  split
  · next start he => cases upper <;> cases he
  · rw [hkeyword]
    simp only [if_true, hdrop, hread]

theorem Regular.parseTarget_text (h : py.Regular) (t : Target) {s : Text} (hs : AfterTarget s) :
    py.parseTarget (t.text ++ s) {} = (some s, { addressKind := t.kind, target := t.name }) := by
  cases t with
  | named w hall hself =>
    rw [Target.text, h.parseTarget_ident w hs, hall, hself]
    rfl
  | all w hall =>
    rw [Target.text, h.parseTarget_ident w hs, hall]
    rfl
  | self w hself =>
    have hall : ieq w.chars "all".toList = false := by
      rw [← Bool.not_eq_true, ieq_iff, (ieq_iff _ _).mp hself]
      decide
    rw [Target.text, h.parseTarget_ident w hs, hall, hself]
    rfl
  | group upper w =>
    rw [Target.text, List.append_assoc, h.parseTarget_group upper w hs]
    rfl
  | id hex =>
    have hstop : Stops Mcrpc.isHexChar s := by
      intro c hc
      by_contra hhex
      have := hs.stops c hc
      rw [isIdentChar_of_isHexChar (by simpa using hhex)] at this
      cases this
    have hclass : isHexChar = Mcrpc.isHexChar := funext isHexChar_eq
    simp only [Target.text, List.cons_append, parseTarget, hclass,
      takeWhile_append hex.all hstop, dropWhile_append hex.all hstop, if_neg hex.ne_nil]
    rfl

variable (py)

theorem parseRequestId_idText {id : Option IdField} (out : PyRequest) (gap : Blanks) (w : Ident)
    (s : Text) (hdigits : ∀ i ∈ id, i.digits.chars.length ≤ 4300)
    (hout : out.hasRequestId = false ∧ out.requestId = 0) :
    ∃ g, (∀ c ∈ g, isBlank c = true) ∧
      py.parseRequestId (idText id ++ (gap.chars ++ (w.chars ++ s))) out =
        .ok (some (g ++ (w.chars ++ s)), { out with
          hasRequestId := id.isSome
          requestId := ((id.map (fun i => i.digits.value)).getD 0 : ℕ) }) := by
  cases id with
  | none =>
    have hskip : skipSpaces (idText none ++ (gap.chars ++ (w.chars ++ s))) = w.chars ++ s :=
      skipSpaces_append gap.all (ident_stops_isBlank w s)
    have hhash := ident_head_ne_hash w s
    refine ⟨[], nil_blank, ?_⟩
    have hsame : { out with hasRequestId := false, requestId := 0 } = out := by
      rw [← hout.1, ← hout.2]
    unfold parseRequestId
    rw [hskip]
    split
    · next p hp =>
      rw [hp] at hhash
      exact absurd rfl (hhash '#' rfl)
    · exact congrArg (fun out => Except.ok (some (w.chars ++ s), out)) hsame.symm
  | some i =>
    have hskip := skipSpaces_idField i (gap.chars ++ (w.chars ++ s))
    have hdigit : ∀ c ∈ i.digits.chars, py.isdigit c = true := by
      intro c hc
      have hc := i.digits.all c hc
      rw [py.isdigit_ascii c (by have := isDigit_iff.mp hc; omega), hc]
    have hstop : Stops py.isdigit (gap.chars ++ (w.chars ++ s)) := by
      refine gap.stops (fun c hc => ?_) _
      have := isBlank_iff.mp hc
      rw [py.isdigit_ascii c (by omega), ← Bool.not_eq_true, isDigit_iff]
      omega
    have hint := py.int_digits i.digits.chars i.digits.ne_nil i.digits.all
    rw [if_pos (hdigits i rfl)] at hint
    refine ⟨gap.chars, gap.all, ?_⟩
    simp only [parseRequestId, idText, Option.map_some, Option.getD_some, hskip,
      takeWhile_append hdigit hstop, dropWhile_append hdigit hstop, if_neg i.digits.ne_nil, hint]
    rfl

theorem parseCommand_run {g s : Text} (hg : ∀ c ∈ g, isBlank c = true) (w : Ident)
    (hs : Stops py.isIdentChar s) (out : PyRequest) :
    py.parseCommand (g ++ (w.chars ++ s)) out = (.ok, { out with
      command := Parser.canonicalCommand w.chars
      args := wholeArgs s.length s }) := by
  rw [parseCommand, py.readToken_run hg w hs]
  simp only [py.lower_ascii _ (isAscii_ident w), py.readArgs_eq_wholeArgs, canonicalCommand_eq]

variable {py}

theorem Regular.parse_head (h : py.Regular) (t : Target) (id : Option IdField) (gap : Blanks)
    (w : Ident) {s : Text} (hs : Stops py.isIdentChar s)
    (hdigits : ∀ i ∈ id, i.digits.chars.length ≤ 4300) :
    py.parse (some (t.text ++ (idText id ++ (gap.chars ++ (w.chars ++ s))))) = .ok (.ok, {
      addressKind := t.kind
      target := t.name
      hasRequestId := id.isSome
      requestId := ((id.map (fun i => i.digits.value)).getD 0 : ℕ)
      command := Parser.canonicalCommand w.chars
      args := wholeArgs s.length s }) := by
  have hstart := startOf_eq_self
    (p := t.text ++ (idText id ++ (gap.chars ++ (w.chars ++ s)))) (by
      obtain ⟨c, v, hv, hc⟩ := t.exists_text_cons
      exact ⟨c, v ++ (idText id ++ (gap.chars ++ (w.chars ++ s))), by rw [hv]; rfl, hc⟩)
  have hne : t.text ++ (idText id ++ (gap.chars ++ (w.chars ++ s))) ≠ [] := by
    obtain ⟨c, v, hv, -⟩ := t.exists_text_cons
    rw [hv]
    exact List.cons_ne_nil c _
  have hhash : '#' ∉ t.name := fun hmem => absurd (t.isIdentChar_of_mem_name hmem) (by decide)
  have htarget := h.parseTarget_text t (afterTarget_idText id gap (w.chars ++ s))
  have hsplit := py.splitTargetId_eq_self { addressKind := t.kind, target := t.name } hhash
  obtain ⟨g, hg, hid⟩ := py.parseRequestId_idText
    { addressKind := t.kind, target := t.name } gap w s hdigits ⟨rfl, rfl⟩
  rw [py.parse_eq_parseRequest (by rw [hstart]; exact hne), hstart, parseRequest, htarget]
  simp only [hsplit, hid, py.parseCommand_run hg w hs]

end Python
end Mcrpc
