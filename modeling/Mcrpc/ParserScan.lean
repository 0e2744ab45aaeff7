import Mcrpc.Grammar

/-!
# What the parser reads from a rendered line

One lemma for each scan of `Parser::parse`, on a text that starts with the piece the scan looks for.
`parse_text` chains them: on every request line the parser answers `Ok`, and the request it stores
is the line's own up to the sizes of its fields. The digits of a request id past the fifteenth are
left in front of the command, where the next scan takes them for the command.
-/

namespace Mcrpc

open Scan

theorem not_isBlank_of_tokenClass {identOnly : Bool} {c : Char}
    (h : tokenClass identOnly c = true) : isBlank c = false := by
  cases identOnly
  · exact not_isBlank_of_isTokenChar h
  · exact not_isBlank_of_isTokenChar (isTokenChar_of_isIdentChar h)

theorem stops_isIdentChar_of_isTokenChar {s : Text} (h : Stops isTokenChar s) :
    Stops isIdentChar s := by
  intro c hc
  by_contra hident
  have := h c hc
  rw [isTokenChar_of_isIdentChar (by simpa using hident)] at this
  cases this

theorem stops_argsText (args : List (Blanks × Token)) {s : Text}
    (hs : ∀ c ∈ s, isTokenChar c = false) : Stops isTokenChar (argsText args ++ s) := by
  cases args with
  | nil =>
    intro c hc
    exact hs c (List.mem_of_mem_head? hc)
  | cons a args =>
    simp only [argsText, List.flatMap_cons, List.append_assoc]
    exact a.1.stops (fun _ => not_isTokenChar_of_isBlank) _

theorem skipSpaces_append {g s : Text} (hg : ∀ c ∈ g, isBlank c = true) (hs : Stops isBlank s) :
    skipSpaces (g ++ s) = s := dropWhile_append hg hs

theorem skipSpaces_eq_self {s : Text} (hs : Stops isBlank s) : skipSpaces s = s :=
  dropWhile_eq_self hs

theorem ident_stops_isBlank (w : Ident) (s : Text) : Stops isBlank (w.chars ++ s) :=
  w.stops (fun _ h => not_isBlank_of_isTokenChar (isTokenChar_of_isIdentChar h)) s

theorem ident_head_ne_hash (w : Ident) (s : Text) : ∀ c ∈ (w.chars ++ s).head?, c ≠ '#' := by
  intro c hc
  have h := w.stops (q := (· == '#')) (fun c h => by simpa using ne_of_isIdentChar h rfl) s
  simpa using h c hc

theorem blanks_stops_isDigit (g : Blanks) (s : Text) : Stops Char.isDigit (g.chars ++ s) := by
  refine g.stops (fun c h => ?_) s
  rw [← Bool.not_eq_true]
  intro hd
  have hident := not_isIdentChar_of_isBlank h
  rw [isIdentChar_of_isDigit hd] at hident
  cases hident

theorem readToken_run (identOnly : Bool) (n : ℕ) {g w s : Text}
    (hg : ∀ c ∈ g, isBlank c = true) (hne : w ≠ [])
    (hw : ∀ c ∈ w, tokenClass identOnly c = true) (hs : Stops (tokenClass identOnly) s) :
    readToken (g ++ (w ++ s)) n identOnly = (some (copyToken n w), s) := by
  have hblank : Stops isBlank (w ++ s) :=
    Run.stops ⟨w, hne, hw⟩ (fun _ => not_isBlank_of_tokenClass) s
  have hskip : skipSpaces (g ++ (w ++ s)) = w ++ s := skipSpaces_append hg hblank
  simp only [readToken, hskip, takeWhile_append hw hs, dropWhile_append hw hs]
  rw [if_neg (by simp [hne]), if_neg hne]

theorem readToken_none {identOnly : Bool} (n : ℕ) {p : Text}
    (h : Stops (tokenClass identOnly) (skipSpaces p)) :
    readToken p n identOnly = (none, skipSpaces p) := by
  simp only [readToken, takeWhile_eq_nil h, if_true, ite_self]

/-- The digit loop of the request id reads at most `room` of the digits. -/
theorem readDigits_append (room : ℕ) {d s : Text} (hd : ∀ c ∈ d, c.isDigit = true)
    (hs : Stops Char.isDigit s) :
    Parser.readDigits room (d ++ s) = (d.take room, d.drop room ++ s) := by
  induction room generalizing d with
  | zero => cases d <;> simp [Parser.readDigits]
  | succ room ih =>
    cases d with
    | nil =>
      cases s with
      | nil => rfl
      | cons c s => simp [Parser.readDigits, stops_cons.mp hs]
    | cons c d =>
      have hc : c.isDigit = true := hd c (by simp)
      have hrest := ih (d := d) (fun c' hc' => hd c' (by simp [hc']))
      simp only [List.cons_append, Parser.readDigits, hc, if_true, hrest, List.take_succ_cons,
        List.drop_succ_cons]

theorem readArgs_append (room : ℕ) (args : List (Blanks × Token)) {s : Text}
    (hs : ∀ c ∈ s, isTokenChar c = false) :
    Parser.readArgs room (argsText args ++ s) =
      ((args.map (fun a => a.2.chars)).take room).map (copyToken maxToken) := by
  induction args generalizing room with
  | nil =>
    have hskip : Stops (tokenClass false) (skipSpaces s) := by
      intro c hc
      exact hs c ((List.dropWhile_sublist isBlank).mem (List.mem_of_mem_head? hc))
    cases room with
    | zero => rfl
    | succ room => simp [argsText, Parser.readArgs, readToken_none maxToken hskip]
  | cons a args ih =>
    cases room with
    | zero => rfl
    | succ room =>
      have hread : readToken (argsText (a :: args) ++ s) maxToken false =
          (some (copyToken maxToken a.2.chars), argsText args ++ s) := by
        have h := readToken_run false maxToken a.1.all a.2.ne_nil a.2.all
          (stops_argsText args hs)
        simpa only [argsText, List.flatMap_cons, List.append_assoc] using h
      simp only [Parser.readArgs, hread, ih, List.map_cons, List.take_succ_cons]

/-- What may follow a target: a blank, or the `#` of a glued request id. -/
def AfterTarget (s : Text) : Prop := ∃ c ∈ s.head?, isBlank c = true ∨ c = '#'

theorem AfterTarget.stops {s : Text} (h : AfterTarget s) : Stops isIdentChar s := by
  obtain ⟨c, hc, hclass⟩ := h
  intro d hd
  obtain rfl := Option.mem_unique hc hd
  rcases hclass with hblank | rfl
  · exact not_isIdentChar_of_isBlank hblank
  · decide

theorem afterTarget_idText (id : Option IdField) (gap : Blanks) (s : Text) :
    AfterTarget (idText id ++ (gap.chars ++ s)) := by
  cases id with
  | none =>
    obtain ⟨g, gs, hgap⟩ := List.exists_cons_of_ne_nil gap.ne_nil
    exact ⟨g, by simp [idText, hgap], .inl (gap.all g (by simp [hgap]))⟩
  | some i =>
    cases hb : i.blanks with
    | nil => exact ⟨'#', by simp [idText, IdField.text, hb], .inr rfl⟩
    | cons b bs =>
      exact ⟨b, by simp [idText, IdField.text, hb], .inl (i.blank b (by simp [hb]))⟩

theorem not_isPrefixOf_ident (upper : Bool) (w : Ident) {s : Text} (hs : AfterTarget s) :
    (groupKeyword upper).isPrefixOf (w.chars ++ s) = false := by
  rw [← Bool.not_eq_true, List.isPrefixOf_iff_prefix]
  rintro ⟨t, ht⟩
  -- the scan of an identifier stops at the `:` of the keyword and at the end of `w`
  obtain ⟨g, hg, hident⟩ : ∃ g, groupKeyword upper = g ++ [':'] ∧ ∀ c ∈ g, isIdentChar c = true := by
    cases upper
    · exact ⟨"group".toList, rfl, forall_of_all rfl⟩
    · exact ⟨"GROUP".toList, rfl, forall_of_all rfl⟩
  have hcolon : Stops isIdentChar ([':'] ++ t) := stops_cons.mpr rfl
  have hscan := congrArg (List.takeWhile isIdentChar) ht
  rw [takeWhile_append w.all hs.stops, hg, List.append_assoc,
    takeWhile_append hident hcolon] at hscan
  rw [hg, hscan, List.append_assoc, List.append_cancel_left_eq] at ht
  obtain ⟨c, hc, hclass⟩ := hs
  rw [← ht] at hc
  obtain rfl : ':' = c := Option.some.inj hc
  exact absurd hclass (by decide)

theorem ieq_copyToken (kw : Text) (hkw : kw.length < maxToken - 1) (w : Text) :
    ieq (copyToken maxToken w) kw = ieq w kw := by
  by_cases hw : w.length < maxToken
  · rw [copyToken_of_lt hw]
  · have hne {v : Text} (hv : v.length ≠ kw.length) : ieq v kw = false := by
      rw [← Bool.not_eq_true, ieq_iff]
      intro he
      apply hv
      simpa using congrArg List.length he
    have hlen : (copyToken maxToken w).length = maxToken - 1 := by
      simp only [copyToken, List.length_take]
      omega
    rw [hne (by omega), hne (by omega)]

theorem parseTarget_ident (w : Ident) {s : Text} (hs : AfterTarget s) :
    Parser.parseTarget (w.chars ++ s) {} = (some s, {
      target := copyToken maxToken w.chars
      addressKind := if ieq w.chars "all".toList then .all
        else if ieq w.chars "self".toList then .self else .named }) := by
  have hread : readToken (w.chars ++ s) maxToken true = (some (copyToken maxToken w.chars), s) :=
    readToken_run true maxToken (g := []) (by simp) w.ne_nil w.all hs.stops
  have hlower := not_isPrefixOf_ident false w hs
  have hupper := not_isPrefixOf_ident true w hs
  obtain ⟨c, v, hw⟩ := List.exists_cons_of_ne_nil w.ne_nil
  have hc : c ≠ '@' := ne_of_isIdentChar (w.all c (by simp [hw])) rfl
  unfold Parser.parseTarget
  split
  · next start he =>
    rw [hw, List.cons_append] at he
    exact absurd (List.cons.inj he).1 hc
  · change (if (groupKeyword false).isPrefixOf _ || (groupKeyword true).isPrefixOf _ then _ else _) = _
    rw [hlower, hupper]
    simp only [Bool.or_self, Bool.false_eq_true, if_false, hread,
      ieq_copyToken "all".toList (by decide), ieq_copyToken "self".toList (by decide)]

theorem parseTarget_group (upper : Bool) {rest q name : Text}
    (hread : readToken rest maxToken true = (some name, q)) :
    Parser.parseTarget (groupKeyword upper ++ rest) {} =
      (some q, { addressKind := .group, target := name }) := by
  unfold Parser.parseTarget
  split
  · next start h => cases upper <;> cases h
  · have hkeyword : ("group:".toList.isPrefixOf (groupKeyword upper ++ rest) ||
        "GROUP:".toList.isPrefixOf (groupKeyword upper ++ rest)) = true := by
      cases upper <;> rfl
    have hdrop : (groupKeyword upper ++ rest).drop 6 = rest := by
      cases upper <;> rfl
    simp only [hkeyword, hdrop, hread, if_true]

theorem parseTarget_text (t : Target) {s : Text} (hs : AfterTarget s) :
    Parser.parseTarget (t.text ++ s) {} =
      (some s, { addressKind := t.kind, target := copyToken maxToken t.name }) := by
  cases t with
  | named w hall hself =>
    rw [Target.text, parseTarget_ident w hs, hall, hself]
    rfl
  | all w hall =>
    rw [Target.text, parseTarget_ident w hs, hall]
    rfl
  | self w hself =>
    have hall : ieq w.chars "all".toList = false := by
      rw [← Bool.not_eq_true, ieq_iff, (ieq_iff _ _).mp hself]
      decide
    rw [Target.text, parseTarget_ident w hs, hall, hself]
    rfl
  | group upper w =>
    have hread : readToken (w.chars ++ s) maxToken true = (some (copyToken maxToken w.chars), s) :=
      readToken_run true maxToken (g := []) (by simp) w.ne_nil w.all hs.stops
    rw [Target.text, List.append_assoc, parseTarget_group upper hread]
    rfl
  | id h =>
    have hstop : Stops isHexChar s := by
      intro c hc
      by_contra hhex
      have := hs.stops c hc
      rw [isIdentChar_of_isHexChar (by simpa using hhex)] at this
      cases this
    simp only [Target.text, List.cons_append, Parser.parseTarget,
      takeWhile_append h.all hstop, dropWhile_append h.all hstop, if_neg h.ne_nil]
    rfl

theorem splitTargetId_eq_self {out : Request} (h : '#' ∉ out.target) :
    Parser.splitTargetId out = out := by
  rw [Parser.splitTargetId, List.dropWhile_eq_nil_iff.mpr (all_ne_of_not_mem h)]

/-- The stages of `Parser::parse` in order. -/
theorem parseRequest_eq_parseCommand {s q p : Text} {out out' : Request}
    (htarget : Parser.parseTarget s {} = (some q, out)) (hhash : '#' ∉ out.target)
    (hid : Parser.parseRequestId q out = (some p, out')) :
    Parser.parseRequest s = Parser.parseCommand p out' := by
  simp only [Parser.parseRequest, htarget, splitTargetId_eq_self hhash, hid]

theorem parseRequest_malformedId {s q : Text} {out : Request}
    (htarget : Parser.parseTarget s {} = (some q, out)) (hhash : '#' ∉ out.target)
    (hid : (Parser.parseRequestId q out).1 = none) :
    (Parser.parseRequest s).1 = .malformed := by
  have hread : Parser.parseRequestId q out = (none, (Parser.parseRequestId q out).2) :=
    Prod.ext hid rfl
  simp only [Parser.parseRequest, htarget, splitTargetId_eq_self hhash]
  rw [hread]

theorem parseRequestId_none {g s : Text} (out : Request) (hg : ∀ c ∈ g, isBlank c = true)
    (hs : Stops isBlank s) (hhash : ∀ c ∈ s.head?, c ≠ '#') :
    Parser.parseRequestId (g ++ s) out = (some s, out) := by
  rw [Parser.parseRequestId, skipSpaces_append hg hs]
  split
  · exact absurd rfl (hhash '#' rfl)
  · rfl

def IdField.excess (i : IdField) : Text := i.digits.chars.drop (Parser.idbufSize - 1)

def IdField.storedId (i : IdField) : UInt32 :=
  UInt32.ofNat (strtoul (i.digits.chars.take (Parser.idbufSize - 1)))

theorem skipSpaces_idField (i : IdField) (s : Text) :
    skipSpaces (i.text ++ s) = '#' :: (i.digits.chars ++ s) := by
  rw [IdField.text, List.append_assoc, List.cons_append]
  exact skipSpaces_append i.blank (stops_cons.mpr rfl)

theorem parseRequestId_some (i : IdField) {s : Text} (out : Request)
    (hs : Stops Char.isDigit s) :
    Parser.parseRequestId (i.text ++ s) out =
      (some (i.excess ++ s), { out with hasRequestId := true, requestId := i.storedId }) := by
  have hne : i.digits.chars.take (Parser.idbufSize - 1) ≠ [] := by
    rw [ne_eq, List.take_eq_nil_iff, not_or]
    exact ⟨by decide, i.digits.ne_nil⟩
  rw [Parser.parseRequestId, skipSpaces_idField]
  simp only [readDigits_append _ i.digits.all hs, if_neg hne]
  rfl

theorem parseCommand_append {g w s : Text} (args : List (Blanks × Token)) (out : Request)
    (hg : ∀ c ∈ g, isBlank c = true) (hne : w ≠ []) (hw : ∀ c ∈ w, isIdentChar c = true)
    (hs : ∀ c ∈ s, isTokenChar c = false) :
    Parser.parseCommand (g ++ (w ++ (argsText args ++ s))) out = (.ok, { out with
      command := Parser.canonicalCommand (copyToken maxToken w)
      args := ((args.map (fun a => a.2.chars)).take maxArgs).map (copyToken maxToken) }) := by
  have hread := readToken_run true maxToken hg hne hw
    (stops_isIdentChar_of_isTokenChar (stops_argsText args hs))
  rw [Parser.parseCommand, hread, ← readArgs_append maxArgs args hs]

/-- Leading blanks and line ends do not reach the target scan. -/
theorem parse_lead {lead p : Text} (hlead : ∀ c ∈ lead, isBlank c = true)
    (hp : ∃ c w, p = c :: w ∧ isTokenChar c = true) :
    Parser.parse (some (lead ++ p)) = Parser.parseRequest p := by
  obtain ⟨c, w, rfl, hc⟩ := hp
  have hblank : Stops isBlank (c :: w) := stops_cons.mpr (not_isBlank_of_isTokenChar hc)
  have hline : (c :: w).dropWhile isLineEnd = c :: w :=
    dropWhile_eq_self (stops_cons.mpr (not_isLineEnd_of_isTokenChar hc))
  simp only [Parser.parse, skipSpaces_append hlead hblank, hline, skipSpaces_eq_self hblank,
    reduceCtorEq, if_false]

theorem parse_head (t : Target) (i : IdField) (gap : Blanks) (w : Ident) {s : Text}
    (hs : Stops isIdentChar s) (hdigits : i.digits.chars.length ≤ Parser.idbufSize - 1) :
    Parser.parse (some (t.text ++ (i.text ++ (gap.chars ++ (w.chars ++ s))))) = (.ok, {
      addressKind := t.kind
      target := copyToken maxToken t.name
      hasRequestId := true
      requestId := i.storedId
      command := Parser.canonicalCommand (copyToken maxToken w.chars)
      args := Parser.readArgs maxArgs s }) := by
  have hstart : ∃ c v, t.text ++ (i.text ++ (gap.chars ++ (w.chars ++ s))) = c :: v ∧
      isTokenChar c = true := by
    obtain ⟨c, v, hv, hc⟩ := t.exists_text_cons
    exact ⟨c, v ++ (i.text ++ (gap.chars ++ (w.chars ++ s))), by rw [hv]; rfl, hc⟩
  have hhash : '#' ∉ copyToken maxToken t.name := fun hmem =>
    absurd (t.isIdentChar_of_mem_name (List.mem_of_mem_take hmem)) (by decide)
  have htarget : Parser.parseTarget (t.text ++ (i.text ++ (gap.chars ++ (w.chars ++ s)))) {} =
      (some (i.text ++ (gap.chars ++ (w.chars ++ s))),
        { addressKind := t.kind, target := copyToken maxToken t.name }) :=
    parseTarget_text t (afterTarget_idText (some i) gap (w.chars ++ s))
  have hid := parseRequestId_some i
    { addressKind := t.kind, target := copyToken maxToken t.name }
    (blanks_stops_isDigit gap (w.chars ++ s))
  have hexcess : i.excess = [] := List.drop_eq_nil_of_le hdigits
  have hread := readToken_run true maxToken gap.all w.ne_nil w.all hs
  rw [hexcess, List.nil_append] at hid
  have hparse := parse_lead nil_blank hstart
  rw [List.nil_append, parseRequest_eq_parseCommand htarget hhash hid] at hparse
  rw [hparse, Parser.parseCommand, hread]

namespace RequestLine

variable (L : RequestLine)

def excess : Text := (L.id.map IdField.excess).getD []

def readWords : Text × List Text :=
  if L.excess = [] then (L.command.chars, L.arguments)
  else (L.excess, L.command.chars :: L.arguments)

def stored : Request where
  addressKind := L.target.kind
  target := copyToken maxToken L.target.name
  hasRequestId := L.id.isSome
  requestId := (L.id.map IdField.storedId).getD 0
  command := Parser.canonicalCommand (copyToken maxToken L.readWords.1)
  args := (L.readWords.2.take maxArgs).map (copyToken maxToken)

theorem excess_of_id_none (h : L.id = none) : L.excess = [] := by simp [excess, h]

theorem excess_of_id_some {i : IdField} (h : L.id = some i) : L.excess = i.excess := by
  simp [excess, h]

def tail : Text :=
  idText L.id ++ (L.gap.chars ++ (L.command.chars ++ (argsText L.args ++ L.trail)))

theorem afterTarget_tail : AfterTarget L.tail := afterTarget_idText L.id L.gap _

theorem parseRequestId_tail (out : Request) : ∃ p, Parser.parseRequestId L.tail out =
    (some p, { out with
      hasRequestId := L.id.isSome || out.hasRequestId
      requestId := (L.id.map IdField.storedId).getD out.requestId }) ∧
    ∀ out, Parser.parseCommand p out = (.ok, { out with
      command := Parser.canonicalCommand (copyToken maxToken L.readWords.1)
      args := (L.readWords.2.take maxArgs).map (copyToken maxToken) }) := by
  cases hid : L.id with
  | none =>
    refine ⟨L.command.chars ++ (argsText L.args ++ L.trail), ?_, ?_⟩
    · rw [tail, hid]
      exact parseRequestId_none out L.gap.all (ident_stops_isBlank L.command _)
        (ident_head_ne_hash L.command _)
    · intro out
      rw [readWords, if_pos (L.excess_of_id_none hid)]
      exact parseCommand_append (g := []) L.args out (by simp) L.command.ne_nil L.command.all
        L.trail_end
  | some i =>
    refine ⟨i.excess ++ (L.gap.chars ++ (L.command.chars ++ (argsText L.args ++ L.trail))), ?_, ?_⟩
    · rw [tail, hid]
      exact parseRequestId_some i out (blanks_stops_isDigit L.gap _)
    · intro out
      rw [readWords, L.excess_of_id_some hid]
      by_cases he : i.excess = []
      · rw [if_pos he, he]
        exact parseCommand_append L.args out L.gap.all L.command.ne_nil L.command.all L.trail_end
      · -- the digits left over are read as the command, and the command as the first argument
        rw [if_neg he]
        have hdigits : ∀ c ∈ i.excess, isIdentChar c = true := fun c hc =>
          isIdentChar_of_isDigit (i.digits.all c (List.mem_of_mem_drop hc))
        have h := parseCommand_append (g := [])
          ((L.gap, ⟨L.command.chars, L.command.ne_nil,
            fun c hc => isTokenChar_of_isIdentChar (L.command.all c hc)⟩) :: L.args) out
          (by simp) he hdigits L.trail_end
        simpa only [argsText, List.flatMap_cons, List.append_assoc, List.nil_append,
          List.map_cons, arguments] using h

theorem parse_text : Parser.parse (some L.text) = (.ok, L.stored) := by
  obtain ⟨c, w, htarget, hc⟩ := L.target.exists_text_cons
  have hhash : '#' ∉ copyToken maxToken L.target.name := by
    intro h
    exact absurd (L.target.isIdentChar_of_mem_name (List.mem_of_mem_take h)) (by decide)
  obtain ⟨p, hread, hcommand⟩ :=
    L.parseRequestId_tail { addressKind := L.target.kind, target := copyToken maxToken L.target.name }
  have hstart : ∃ c w, L.target.text ++ L.tail = c :: w ∧ isTokenChar c = true :=
    ⟨c, w ++ L.tail, by rw [htarget]; rfl, hc⟩
  change Parser.parse (some (L.lead ++ (L.target.text ++ L.tail))) = _
  rw [parse_lead L.lead_blank hstart, parseRequest_eq_parseCommand
    (parseTarget_text L.target L.afterTarget_tail) hhash hread, hcommand]
  simp only [Bool.or_false, stored]

end RequestLine
end Mcrpc
