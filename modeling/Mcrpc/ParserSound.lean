import Mcrpc.ParserScan

/-!
# Which accepted texts are sentences of the request grammar

No scan of the parser checks the character that ended it. `Delimited` is the missing checks, read
off the text: nothing between `group:` and the name, a blank between what precedes the command and
the command, and a delimiter after the command. An accepted text is a sentence exactly when they
hold.
-/

namespace Mcrpc

open Scan

/-- A target, an optional request id, a gap and a command, as written. -/
structure RequestHead where
  target : Target
  id : Option IdField
  gap : Blanks
  command : Ident

def RequestHead.text (h : RequestHead) : Text :=
  h.target.text ++ (idText h.id ++ (h.gap.chars ++ h.command.chars))

def dropLead (input : Text) : Text := input.dropWhile (fun c => !isTokenChar c)

/-- After its lead the text is a request head, and a delimiter or the end follows the command. -/
def Sentence (input : Text) : Prop :=
  ∃ (h : RequestHead) (rest : Text), dropLead input = h.text ++ rest ∧ Stops isTokenChar rest

def hasGroupKeyword (s : Text) : Bool :=
  "group:".toList.isPrefixOf s || "GROUP:".toList.isPrefixOf s

def afterTarget (s : Text) : Text :=
  match s with
  | '@' :: start => start.dropWhile isHexChar
  | s => if hasGroupKeyword s then (s.drop 6).dropWhile isIdentChar else s.dropWhile isIdentChar

def afterId (s : Text) : Text :=
  match skipSpaces s with
  | '#' :: digits => digits.dropWhile Char.isDigit
  | _ => s

/-- The delimiter checks that `Parser::parse` leaves out, on the text `s` from its first token. -/
structure DelimitedHead (s : Text) : Prop where
  group : hasGroupKeyword s = true → (s.drop 6).takeWhile isBlank = []
  gap : (afterId (afterTarget s)).takeWhile isBlank ≠ []
  command : (skipSpaces (afterId (afterTarget s))).takeWhile isIdentChar ≠ []
  arguments : ((skipSpaces (afterId (afterTarget s))).dropWhile isIdentChar).takeWhile isTokenChar = []

def Delimited (input : Text) : Prop := DelimitedHead (dropLead input)

theorem stops_of_takeWhile_eq_nil {p : Char → Bool} {s : Text} (h : s.takeWhile p = []) :
    Stops p s := by
  cases s with
  | nil => exact stops_nil
  | cons c s =>
    rw [stops_cons, ← Bool.not_eq_true]
    intro hc
    rw [List.takeWhile_cons_of_pos hc] at h
    cases h

def Target.ofIdent (w : Ident) : Target :=
  if hall : ieq w.chars "all".toList = true then .all w hall
  else if hself : ieq w.chars "self".toList = true then .self w hself
  else .named w (by simpa using hall) (by simpa using hself)

theorem Target.text_ofIdent (w : Ident) : (Target.ofIdent w).text = w.chars := by
  unfold Target.ofIdent
  split_ifs <;> rfl

theorem eq_groupKeyword_append {p : Text} (h : hasGroupKeyword p = true) :
    ∃ upper, p = groupKeyword upper ++ p.drop 6 := by
  rcases Bool.or_eq_true_iff.mp h with hpre | hpre
  · obtain ⟨t, rfl⟩ := List.isPrefixOf_iff_prefix.mp hpre
    exact ⟨false, rfl⟩
  · obtain ⟨t, rfl⟩ := List.isPrefixOf_iff_prefix.mp hpre
    exact ⟨true, rfl⟩

theorem afterTarget_of_ne {p : Text} (h : ∀ start, p ≠ '@' :: start) : afterTarget p =
    if hasGroupKeyword p then (p.drop 6).dropWhile isIdentChar else p.dropWhile isIdentChar := by
  unfold afterTarget
  split
  · next start => exact absurd rfl (h start)
  · rfl

theorem readToken_some {p rest tok : Text} {n : ℕ} (h : readToken p n true = (some tok, rest)) :
    (skipSpaces p).takeWhile isIdentChar ≠ [] ∧ rest = (skipSpaces p).dropWhile isIdentChar := by
  simp only [readToken, tokenClass, if_true] at h
  split_ifs at h with hnil hrun
  · cases h
  · cases h
  · exact ⟨hrun, (congrArg Prod.snd h).symm⟩

/-- A successful target scan has read a target, and stopped where `afterTarget` says. -/
theorem parseTarget_sound {p q : Text} {out : Request} (hp : Stops isBlank p)
    (h : Parser.parseTarget p {} = (some q, out))
    (hg : hasGroupKeyword p = true → (p.drop 6).takeWhile isBlank = []) :
    q = afterTarget p ∧ ∃ t : Target, p = t.text ++ q := by
  unfold Parser.parseTarget at h
  split at h
  · next start =>
    split_ifs at h with hrun
    · cases h
    · obtain rfl : start.dropWhile isHexChar = q := Option.some.inj (congrArg Prod.fst h)
      refine ⟨rfl, .id (Run.ofTakeWhile isHexChar start hrun), ?_⟩
      rw [Target.text, List.cons_append, Run.chars_ofTakeWhile, List.takeWhile_append_dropWhile]
  · next hat =>
    rw [afterTarget_of_ne hat]
    by_cases hkw : hasGroupKeyword p = true
    · rw [if_pos hkw]
      rw [if_pos (show (_ || _) = true from hkw)] at h
      split at h
      · cases h
      · next target rest hread =>
        obtain ⟨hrun, hrest⟩ := readToken_some hread
        rw [skipSpaces_eq_self (stops_of_takeWhile_eq_nil (hg hkw))] at hrun hrest
        obtain rfl : rest = q := Option.some.inj (congrArg Prod.fst h)
        refine ⟨hrest, ?_⟩
        obtain ⟨upper, hupper⟩ := eq_groupKeyword_append hkw
        refine ⟨.group upper (Run.ofTakeWhile isIdentChar (p.drop 6) hrun), ?_⟩
        rw [Target.text, Run.chars_ofTakeWhile, List.append_assoc, hrest]
        exact hupper.trans (congrArg _ (List.takeWhile_append_dropWhile).symm)
    · rw [if_neg hkw]
      rw [if_neg (show ¬ (_ || _) = true from hkw)] at h
      split at h
      · cases h
      · next target rest hread =>
        obtain ⟨hrun, hrest⟩ := readToken_some hread
        rw [skipSpaces_eq_self hp] at hrun hrest
        obtain rfl : rest = q := Option.some.inj (congrArg Prod.fst h)
        refine ⟨hrest, Target.ofIdent (Run.ofTakeWhile isIdentChar p hrun), ?_⟩
        rw [Target.text_ofIdent, Run.chars_ofTakeWhile, hrest]
        exact (List.takeWhile_append_dropWhile).symm

theorem afterId_of_hash {s digits : Text} (h : skipSpaces s = '#' :: digits) :
    afterId s = digits.dropWhile Char.isDigit := by
  simp only [afterId, h]

theorem afterId_of_ne {s : Text} (h : ∀ digits, skipSpaces s ≠ '#' :: digits) : afterId s = s := by
  rw [afterId]
  split
  · next digits hskip => exact absurd hskip (h digits)
  · rfl

theorem parseRequestId_sound {p q : Text} {out out' : Request}
    (h : Parser.parseRequestId p out = (some q, out')) :
    ∃ id : Option IdField, p = idText id ++ afterId p := by
  unfold Parser.parseRequestId at h
  split at h
  · next digits hskip =>
    have hrun : digits.takeWhile Char.isDigit ≠ [] := by
      cases digits with
      | nil => cases h
      | cons c digits =>
        intro hnil
        have hc : c.isDigit = false :=
          stops_cons.mp (stops_of_takeWhile_eq_nil hnil)
        simp [Parser.idbufSize, Parser.readDigits, hc] at h
    refine ⟨some ⟨p.takeWhile isBlank, fun _ => mem_takeWhile,
      Run.ofTakeWhile Char.isDigit digits hrun⟩, ?_⟩
    simp only [afterId_of_hash hskip, idText, Option.map_some, Option.getD_some, IdField.text,
      Run.chars_ofTakeWhile, List.append_assoc, List.cons_append, List.takeWhile_append_dropWhile]
    rw [← hskip, skipSpaces, List.takeWhile_append_dropWhile]
  · next hhash => exact ⟨none, (afterId_of_ne hhash).symm⟩

theorem parseRequest_sound {s : Text} {req : Request} (hs : Stops isBlank s)
    (h : Parser.parseRequest s = (.ok, req)) (hd : DelimitedHead s) :
    ∃ (head : RequestHead) (rest : Text), s = head.text ++ rest ∧ Stops isTokenChar rest := by
  unfold Parser.parseRequest at h
  split at h
  · cases h
  · next q out htarget =>
    split at h
    · cases h
    · next r out' hid =>
      obtain ⟨hq, t, ht⟩ := parseTarget_sound hs htarget hd.group
      subst hq
      obtain ⟨id, hi⟩ := parseRequestId_sound hid
      let u := afterId (afterTarget s)
      refine ⟨⟨t, id, Run.ofTakeWhile isBlank u hd.gap,
        Run.ofTakeWhile isIdentChar (skipSpaces u) hd.command⟩,
        (skipSpaces u).dropWhile isIdentChar, ?_, stops_of_takeWhile_eq_nil hd.arguments⟩
      calc s = t.text ++ (idText id ++ u) := by rw [← hi]; exact ht
        _ = t.text ++ (idText id ++ (u.takeWhile isBlank ++ skipSpaces u)) := by
          rw [skipSpaces, List.takeWhile_append_dropWhile]
        _ = _ := by
          simp only [RequestHead.text, Run.chars_ofTakeWhile, List.append_assoc,
            List.takeWhile_append_dropWhile]

theorem exists_head_of_parseTarget {p q : Text} {out : Request} (hp : Stops isBlank p)
    (h : Parser.parseTarget p {} = (some q, out)) : ∃ c ∈ p.head?, isTokenChar c = true := by
  unfold Parser.parseTarget at h
  split at h
  · exact ⟨'@', rfl, rfl⟩
  · split at h
    · next hkw =>
      rcases Bool.or_eq_true_iff.mp hkw with hpre | hpre
      · obtain ⟨t, rfl⟩ := List.isPrefixOf_iff_prefix.mp hpre
        exact ⟨'g', rfl, rfl⟩
      · obtain ⟨t, rfl⟩ := List.isPrefixOf_iff_prefix.mp hpre
        exact ⟨'G', rfl, rfl⟩
    · split at h
      · cases h
      · next hread =>
        have hrun := (readToken_some hread).1
        rw [skipSpaces_eq_self hp] at hrun
        cases p with
        | nil => exact absurd rfl hrun
        | cons c p =>
          refine ⟨c, rfl, isTokenChar_of_isIdentChar ?_⟩
          by_contra hc
          exact hrun (List.takeWhile_cons_of_neg hc)

theorem not_isTokenChar_of_isLineEnd {c : Char} (h : isLineEnd c = true) :
    isTokenChar c = false := by
  rw [← Bool.not_eq_true]
  intro ht
  rw [not_isLineEnd_of_isTokenChar ht] at h
  cases h

/-- An accepted text is parsed from its first token on. -/
theorem parse_dropLead {input : Text} {req : Request}
    (h : Parser.parse (some input) = (.ok, req)) :
    Stops isBlank (dropLead input) ∧ Parser.parseRequest (dropLead input) = (.ok, req) := by
  unfold Parser.parse at h
  dsimp only at h
  split_ifs at h with hempty hmissing
  · cases h
  · cases h
  · let p := (skipSpaces input).dropWhile isLineEnd
    have hs : Stops isBlank (skipSpaces p) := stops_dropWhile isBlank p
    have hhead : ∃ c ∈ (skipSpaces p).head?, isTokenChar c = true := by
      cases htarget : Parser.parseTarget (skipSpaces p) {} with
      | mk rest out =>
        cases rest with
        | none =>
          rw [Parser.parseRequest, htarget] at h
          cases h
        | some q => exact exists_head_of_parseTarget hs htarget
    have hlead : dropLead input = skipSpaces p := by
      -- everything skipped before the target is a blank or a line end
      have hsplit : input = (input.takeWhile isBlank ++
          ((skipSpaces input).takeWhile isLineEnd ++ p.takeWhile isBlank)) ++ skipSpaces p := by
        simp only [List.append_assoc, p, skipSpaces, List.takeWhile_append_dropWhile]
      conv_lhs => rw [hsplit]
      refine dropWhile_append (fun c hc => ?_) ?_
      · simp only [List.mem_append] at hc
        rcases hc with hc | hc | hc
        · simp [not_isTokenChar_of_isBlank (mem_takeWhile hc)]
        · simp [not_isTokenChar_of_isLineEnd (mem_takeWhile hc)]
        · simp [not_isTokenChar_of_isBlank (mem_takeWhile hc)]
      · obtain ⟨c, hc, htok⟩ := hhead
        intro d hd
        obtain rfl := Option.mem_unique hc hd
        simp [htok]
    rw [hlead]
    exact ⟨hs, h⟩

theorem afterId_idText (id : Option IdField) (gap : Blanks) (command : Ident) (s : Text) :
    afterId (idText id ++ (gap.chars ++ (command.chars ++ s))) =
      gap.chars ++ (command.chars ++ s) := by
  unfold afterId
  cases id with
  | none =>
    rw [idText, Option.map_none, Option.getD_none, List.nil_append,
      skipSpaces_append gap.all (ident_stops_isBlank command s)]
    split
    · next he => exact absurd rfl (ident_head_ne_hash command s '#' (by rw [he]; rfl))
    · rfl
  | some i =>
    rw [idText, Option.map_some, Option.getD_some, skipSpaces_idField]
    exact dropWhile_append i.digits.all (blanks_stops_isDigit gap _)

theorem takeWhile_drop_group (t : Target) {s : Text} (hs : AfterTarget s)
    (h : hasGroupKeyword (t.text ++ s) = true) :
    ((t.text ++ s).drop 6).takeWhile isBlank = [] := by
  have hident (w : Ident) : hasGroupKeyword (w.chars ++ s) = false := by
    change ((groupKeyword false).isPrefixOf _ || (groupKeyword true).isPrefixOf _) = false
    rw [not_isPrefixOf_ident false w hs, not_isPrefixOf_ident true w hs]
    rfl
  cases t with
  | named w _ _ =>
    rw [Target.text, hident w] at h
    cases h
  | all w _ =>
    rw [Target.text, hident w] at h
    cases h
  | self w _ =>
    rw [Target.text, hident w] at h
    cases h
  | group upper w =>
    have hdrop : (Target.text (.group upper w) ++ s).drop 6 = w.chars ++ s := by
      cases upper <;> rfl
    rw [hdrop]
    exact takeWhile_eq_nil (ident_stops_isBlank w s)
  | id x => cases h

theorem DelimitedHead.of_head (h : RequestHead) {rest : Text} (hrest : Stops isTokenChar rest) :
    DelimitedHead (h.text ++ rest) := by
  let tail := idText h.id ++ (h.gap.chars ++ (h.command.chars ++ rest))
  have hafter : AfterTarget tail := afterTarget_idText h.id h.gap _
  have htext : h.text ++ rest = h.target.text ++ tail := by
    simp only [RequestHead.text, List.append_assoc, tail]
  have hgroup := takeWhile_drop_group h.target hafter
  obtain ⟨c, w, htarget, hc⟩ := h.target.exists_text_cons
  have hblank : Stops isBlank (h.target.text ++ tail) := by
    rw [htarget]
    exact stops_cons.mpr (not_isBlank_of_isTokenChar hc)
  have htail : afterTarget (h.target.text ++ tail) = tail :=
    ((parseTarget_sound hblank (parseTarget_text h.target hafter) hgroup).1).symm
  have hid : afterId tail = h.gap.chars ++ (h.command.chars ++ rest) :=
    afterId_idText h.id h.gap h.command rest
  have hcommand := ident_stops_isBlank h.command rest
  have hstop := stops_isIdentChar_of_isTokenChar hrest
  rw [htext]
  constructor
  case group => exact hgroup
  case gap =>
    rw [htail, hid, takeWhile_append h.gap.all hcommand]
    exact h.gap.ne_nil
  case command =>
    rw [htail, hid, skipSpaces_append h.gap.all hcommand, takeWhile_append h.command.all hstop]
    exact h.command.ne_nil
  case arguments =>
    rw [htail, hid, skipSpaces_append h.gap.all hcommand, dropWhile_append h.command.all hstop]
    exact takeWhile_eq_nil hrest

theorem Sentence.delimited {input : Text} (h : Sentence input) : Delimited input := by
  obtain ⟨head, rest, he, hrest⟩ := h
  rw [Delimited, he]
  exact DelimitedHead.of_head head hrest

/-- An accepted text is a sentence of the request grammar exactly when the delimiters the parser
does not look for are there. -/
theorem parse_sound_iff (input : Text) (req : Request)
    (h : Parser.parse (some input) = (.ok, req)) : Sentence input ↔ Delimited input := by
  obtain ⟨hs, hparse⟩ := parse_dropLead h
  exact ⟨Sentence.delimited, parseRequest_sound hs hparse⟩

theorem parse_sound_iff_ping : Sentence "ha#42 ping".toList ↔ Delimited "ha#42 ping".toList :=
  parse_sound_iff "ha#42 ping".toList
    { target := "ha".toList, hasRequestId := true, requestId := 42, command := "ping".toList }
    (by decide)

/-- `ha#42ping` is accepted. -/
theorem parse_not_sound : ¬ ∀ input req,
    Parser.parse (some input) = (.ok, req) → Sentence input := by
  intro h
  have hs := h "ha#42ping".toList
    { target := "ha".toList, hasRequestId := true, requestId := 42, command := "ping".toList }
    (by decide)
  exact absurd hs.delimited.gap (by decide)

end Mcrpc
