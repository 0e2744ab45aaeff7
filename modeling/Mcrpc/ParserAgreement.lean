import Mcrpc.WholeReading

/-!
# Where the two parsers agree

`parser.py` and `Parser.cpp` against the reading of a line with whole tokens. On 7-bit lines within
the limits they agree unless the group keyword is in mixed case; then `Parser.cpp` takes the keyword
for the name of a node and misses a command, so they agree only on lines without one.
-/

namespace Mcrpc

open Scan

def IsAscii (s : Text) : Prop := ∀ c ∈ s, c.toNat < 128

theorem IsAscii.of_sublist {s t : Text} (hs : IsAscii s) (h : t.Sublist s) : IsAscii t :=
  fun c hc => hs c (h.mem hc)

/-- A decidable fact about 7-bit characters holds when it holds of the 128 codes. -/
theorem forall_ascii {P : Char → Prop} (h : ∀ n < 128, P (Char.ofNat n)) {c : Char}
    (hc : c.toNat < 128) : P c := by
  rw [← Char.ofNat_toNat c]
  exact h c.toNat hc

theorem isAlphanum_ascii {c : Char} (hc : c.toNat < 128) :
    (c.isAlphanum || c == '_' || c == '-') = isIdentChar c :=
  forall_ascii (P := fun c => (c.isAlphanum || c == '_' || c == '-') = isIdentChar c)
    (by decide) hc

theorem isHexChar_eq (c : Char) : Python.isHexChar c = isHexChar c := by
  by_cases hc : c.toNat < 128
  · exact forall_ascii (P := fun c => Python.isHexChar c = isHexChar c) (by decide +kernel) hc
  · have hcpp : isHexChar c = false := by
      rw [← Bool.not_eq_true, isHexChar_iff]
      omega
    rw [hcpp, ← Bool.not_eq_true, Python.isHexChar, List.contains_iff_mem]
    intro hmem
    have hall : ∀ d ∈ "0123456789abcdefABCDEF".toList, d.toNat < 128 := Scan.forall_of_all rfl
    exact hc (hall c hmem)

namespace Python

variable {F : Type} (py : Python F) {s q : Text}

theorem isIdentChar_ascii {c : Char} (hc : c.toNat < 128) :
    py.isIdentChar c = Mcrpc.isIdentChar c := by
  rw [isIdentChar, py.isalnum_ascii c hc]
  exact isAlphanum_ascii hc

theorem isAscii_skipSpaces (hq : IsAscii q) : IsAscii (skipSpaces q) :=
  hq.of_sublist (List.dropWhile_sublist isBlank)

theorem readToken_ident (hq : IsAscii q) : py.readToken q true =
    if (wholeToken Mcrpc.isIdentChar q).1 = [] then (none, skipSpaces q)
    else (some (wholeToken Mcrpc.isIdentChar q).1, (wholeToken Mcrpc.isIdentChar q).2) := by
  have hcls : ∀ c ∈ skipSpaces q, py.tokenClass true c = Mcrpc.isIdentChar c := fun c hc =>
    py.isIdentChar_ascii (isAscii_skipSpaces hq c hc)
  rw [readToken, wholeToken, takeWhile_congr hcls, dropWhile_congr hcls]
  split
  · next h => rw [h]; rfl
  · rfl

theorem readToken_word (q : Text) : py.readToken q false =
    if (wholeToken isTokenChar q).1 = [] then (none, skipSpaces q)
    else (some (wholeToken isTokenChar q).1, (wholeToken isTokenChar q).2) := by
  rw [readToken, wholeToken]
  split
  · next h => rw [h]; rfl
  · rfl

theorem readArgs_eq_wholeArgs (fuel : ℕ) (q : Text) : py.readArgs fuel q = wholeArgs fuel q := by
  induction fuel generalizing q with
  | zero => rfl
  | succ fuel ih =>
    rw [readArgs, readToken_word, wholeArgs]
    by_cases h : (wholeToken isTokenChar q).1 = []
    · rw [if_pos h, if_pos h]
    · rw [if_neg h, if_neg h]
      exact congrArg _ (ih _)

theorem lower_eq_iff (hs : IsAscii s) {w : Text} (hw : Mcrpc.lower w = w) :
    py.lower s = w ↔ ieq s w = true := by
  rw [py.lower_ascii s hs, ieq_iff, hw]

theorem parseTarget_none (hs : IsAscii s) (h : (wholeTarget s).1 = []) :
    (py.parseTarget s {}).1 = none := by
  have hhex : isHexChar = Mcrpc.isHexChar := funext isHexChar_eq
  unfold parseTarget
  split
  · next p =>
    have hrun : p.takeWhile Mcrpc.isHexChar = [] := h
    rw [hhex, if_pos hrun]
  · next hat =>
    rw [wholeTarget_of_ne (fun q hq => hat q hq)] at h
    rw [py.lower_ascii s hs]
    change (if isGroupWord s = true then _ else _ : Option Text × PyRequest).1 = none
    split
    · next hkw =>
      rw [if_pos hkw] at h
      simp only [py.readToken_ident (hs.of_sublist (List.drop_sublist 6 s)), h, if_true]
    · next hkw =>
      rw [if_neg hkw] at h
      simp only [py.readToken_ident hs, h, if_true]

theorem isAscii_wholeTarget (hs : IsAscii s) :
    IsAscii (wholeTarget s).1 ∧ IsAscii (wholeTarget s).2 := by
  have hscan {p : Text} (hp : IsAscii p) (cls : Char → Bool) :
      IsAscii (p.takeWhile cls) ∧ IsAscii (p.dropWhile cls) :=
    ⟨hp.of_sublist (List.takeWhile_sublist cls), hp.of_sublist (List.dropWhile_sublist cls)⟩
  by_cases hat : ∃ p, s = '@' :: p
  · obtain ⟨p, rfl⟩ := hat
    exact hscan (hs.of_sublist (List.sublist_cons_self '@' p)) Mcrpc.isHexChar
  · rw [wholeTarget_of_ne (not_exists.mp hat)]
    refine hscan (isAscii_skipSpaces ?_) Mcrpc.isIdentChar
    split
    · exact hs.of_sublist (List.drop_sublist 6 s)
    · exact hs

theorem parseTarget_eq (hs : IsAscii s) (h : (wholeTarget s).1 ≠ []) :
    py.parseTarget s {} = (some (wholeTarget s).2,
      { addressKind := wholeKind s, target := (wholeTarget s).1 }) := by
  have hhex : isHexChar = Mcrpc.isHexChar := funext isHexChar_eq
  have hword := (isAscii_wholeTarget hs).1
  unfold parseTarget
  split
  · next p =>
    have hrun : p.takeWhile Mcrpc.isHexChar ≠ [] := h
    rw [hhex, if_neg hrun]
    rfl
  · next hat =>
    have htarget := wholeTarget_of_ne (fun q hq => hat q hq)
    rw [wholeKind_of_ne (fun q hq => hat q hq)]
    rw [htarget] at h hword ⊢
    rw [py.lower_ascii s hs]
    change (if isGroupWord s = true then _ else _) = _
    split
    · next hkw =>
      rw [if_pos hkw] at h
      simp only [py.readToken_ident (hs.of_sublist (List.drop_sublist 6 s)), if_neg h]
    · next hkw =>
      rw [if_neg hkw] at h hword
      simp only [py.readToken_ident hs, if_neg h,
        py.lower_eq_iff hword (w := "all".toList) (by decide),
        py.lower_eq_iff hword (w := "self".toList) (by decide)]

theorem splitTargetId_eq_self (out : PyRequest) (h : '#' ∉ out.target) :
    py.splitTargetId out = .ok out := by
  rw [splitTargetId, List.dropWhile_eq_nil_iff.mpr (all_ne_of_not_mem h)]

theorem takeWhile_isdigit (hq : IsAscii q) :
    q.takeWhile py.isdigit = q.takeWhile Char.isDigit ∧
      q.dropWhile py.isdigit = q.dropWhile Char.isDigit :=
  ⟨takeWhile_congr (fun c hc => py.isdigit_ascii c (hq c hc)),
    dropWhile_congr (fun c hc => py.isdigit_ascii c (hq c hc))⟩

theorem isAscii_hash {p : Text} (hq : IsAscii q) (hp : skipSpaces q = '#' :: p) : IsAscii p := by
  have hskip := isAscii_skipSpaces hq
  rw [hp] at hskip
  exact hskip.of_sublist (List.sublist_cons_self '#' p)

theorem parseRequestId_malformed (hq : IsAscii q) (out : PyRequest)
    (h : (wholeId q).1 = some []) : py.parseRequestId q out = .ok (none, out) := by
  by_cases hhash : ∃ p, skipSpaces q = '#' :: p
  · obtain ⟨p, hp⟩ := hhash
    rw [wholeId_of_eq hp] at h
    have hrun := (py.takeWhile_isdigit (isAscii_hash hq hp)).1.trans (Option.some.inj h)
    simp only [parseRequestId, hp, hrun, if_true]
  · rw [wholeId_of_ne (not_exists.mp hhash)] at h
    cases h

theorem parseRequestId_eq (hq : IsAscii q) (out : PyRequest) (h : (wholeId q).1 ≠ some [])
    (hlen : ∀ d ∈ (wholeId q).1, d.length ≤ 4300)
    (hout : out.hasRequestId = false ∧ out.requestId = 0) :
    py.parseRequestId q out = .ok (some (wholeId q).2, { out with
      hasRequestId := (wholeId q).1.isSome
      requestId := Nat.ofDigitChars 10 ((wholeId q).1.getD []) 0 }) := by
  by_cases hhash : ∃ p, skipSpaces q = '#' :: p
  · obtain ⟨p, hp⟩ := hhash
    rw [wholeId_of_eq hp] at h hlen ⊢
    obtain ⟨htake, hdrop⟩ := py.takeWhile_isdigit (isAscii_hash hq hp)
    have hne : p.takeWhile Char.isDigit ≠ [] := fun hnil => h (congrArg some hnil)
    have hint := py.int_digits _ hne (fun _ => mem_takeWhile)
    rw [if_pos (hlen _ rfl)] at hint
    simp only [parseRequestId, hp, htake, hdrop, if_neg hne, hint]
    rfl
  · have hne := not_exists.mp hhash
    rw [wholeId_of_ne hne]
    have hsame : { out with hasRequestId := false, requestId := 0 } = out := by
      rw [← hout.1, ← hout.2]
    unfold parseRequestId
    split
    · next p hp => exact absurd hp (hne p)
    · exact congrArg (fun out => Except.ok (some (skipSpaces q), out)) hsame.symm

theorem parseCommand_eq (hq : IsAscii q) (out : PyRequest) : py.parseCommand q out =
    if (wholeToken Mcrpc.isIdentChar q).1 = [] then (.missingCommand, out)
    else (.ok, { out with
      command :=
        if Mcrpc.lower (wholeToken Mcrpc.isIdentChar q).1 = "discover".toList
        then "discovery".toList else Mcrpc.lower (wholeToken Mcrpc.isIdentChar q).1
      args := wholeArgs (wholeToken Mcrpc.isIdentChar q).2.length
        (wholeToken Mcrpc.isIdentChar q).2 }) := by
  have hword : IsAscii (wholeToken Mcrpc.isIdentChar q).1 :=
    (isAscii_skipSpaces hq).of_sublist (List.takeWhile_sublist Mcrpc.isIdentChar)
  rw [parseCommand, py.readToken_ident hq]
  by_cases h : (wholeToken Mcrpc.isIdentChar q).1 = []
  · rw [if_pos h, if_pos h]
  · rw [if_neg h, if_neg h]
    simp only [py.lower_ascii _ hword, readArgs_eq_wholeArgs]

theorem isAscii_wholeId (hq : IsAscii q) : IsAscii (wholeId q).2 := by
  by_cases hhash : ∃ p, skipSpaces q = '#' :: p
  · obtain ⟨p, hp⟩ := hhash
    rw [wholeId_of_eq hp]
    exact (isAscii_hash hq hp).of_sublist (List.dropWhile_sublist Char.isDigit)
  · rw [wholeId_of_ne (not_exists.mp hhash)]
    exact isAscii_skipSpaces hq

/-- On 7-bit text `parser.py` reads whole tokens. -/
theorem parseRequest_whole (hs : IsAscii s)
    (hlen : ∀ d ∈ (wholeId (wholeTarget s).2).1, d.length ≤ 4300) :
    ∃ req, py.parseRequest s = .ok ((wholeRequest s).1, req) ∧
      ((wholeRequest s).1 = .ok → req = (wholeRequest s).2) := by
  by_cases ht : (wholeTarget s).1 = []
  · have hwhole : wholeRequest s = (.malformed, {}) := if_pos (.inl ht)
    have hread : py.parseTarget s {} = (none, (py.parseTarget s {}).2) :=
      Prod.ext (py.parseTarget_none hs ht) rfl
    rw [hwhole, parseRequest, hread]
    exact ⟨_, rfl, fun h => by cases h⟩
  have htarget := py.parseTarget_eq hs ht
  have hq := (isAscii_wholeTarget hs).2
  have hhash : '#' ∉ (wholeTarget s).1 := fun h =>
    absurd (isIdentChar_of_mem_wholeTarget h) (by decide)
  have hsplit := py.splitTargetId_eq_self
    { addressKind := wholeKind s, target := (wholeTarget s).1 } hhash
  rw [parseRequest, htarget]
  simp only [hsplit]
  by_cases hid : (wholeId (wholeTarget s).2).1 = some []
  · have hwhole : wholeRequest s = (.malformed, {}) := if_pos (.inr hid)
    rw [py.parseRequestId_malformed hq _ hid, hwhole]
    exact ⟨_, rfl, fun h => by cases h⟩
  rw [py.parseRequestId_eq hq _ hid hlen ⟨rfl, rfl⟩]
  simp only [py.parseCommand_eq (isAscii_wholeId hq)]
  by_cases hc : (wholeCommand (wholeTarget s).2).1 = []
  · have hwhole : wholeRequest s = (.missingCommand, {}) := by
      rw [wholeRequest, if_neg (not_or.mpr ⟨ht, hid⟩), if_pos hc]
    rw [if_pos (show (wholeToken Mcrpc.isIdentChar _).1 = [] from hc), hwhole]
    exact ⟨_, rfl, fun h => by cases h⟩
  · rw [if_neg (show (wholeToken Mcrpc.isIdentChar _).1 ≠ [] from hc), wholeRequest,
      if_neg (not_or.mpr ⟨ht, hid⟩), if_neg hc]
    exact ⟨_, rfl, fun _ => rfl⟩

end Python

/-! ### Agreement -/

def startOf (line : Text) : Text := skipSpaces ((skipSpaces line).dropWhile isLineEnd)

def ParsersAgree {F : Type} (py : Python F) (line : Text) : Prop :=
  ∃ req, py.parse (some line) = .ok ((Parser.parse (some line)).1, req) ∧
    ((Parser.parse (some line)).1 = .ok → SameRequest (Parser.parse (some line)).2 req)

/-- `group:` in neither of the two cases that `Parser.cpp` knows. -/
def MixedGroup (s : Text) : Prop := isGroupWord s = true ∧ hasGroupKeyword s = false

/-- A name and no command after the keyword, and no `#` without digits. -/
structure NoCommand (s : Text) : Prop where
  target : (wholeTarget s).1 ≠ []
  id : (wholeId (wholeTarget s).2).1 ≠ some []
  command : (wholeCommand (wholeTarget s).2).1 = []

theorem wholeRequest_missingCommand_iff {s : Text} :
    (wholeRequest s).1 = .missingCommand ↔ NoCommand s := by
  rw [wholeRequest]
  split_ifs with hmalformed hcommand
  · refine iff_of_false (by decide) (fun h => ?_)
    rcases hmalformed with ht | hid
    · exact h.target ht
    · exact h.id hid
  · exact iff_of_true rfl
      ⟨(not_or.mp hmalformed).1, (not_or.mp hmalformed).2, hcommand⟩
  · exact iff_of_false (by simp) (fun h => hcommand h.command)

theorem isGroupWord_of_hasGroupKeyword {s : Text} (h : hasGroupKeyword s = true) :
    isGroupWord s = true := by
  rw [hasGroupKeyword, Bool.or_eq_true, List.isPrefixOf_iff_prefix, List.isPrefixOf_iff_prefix] at h
  rw [isGroupWord, List.isPrefixOf_iff_prefix]
  rcases h with ⟨t, rfl⟩ | ⟨t, rfl⟩ <;> exact ⟨lower t, rfl⟩

theorem isIdentChar_of_toLower {c : Char} (h : isIdentChar c.toLower = true) :
    isIdentChar c = true := by
  rw [isIdentChar_iff, Ascii.toNat_toLower] at h
  rw [isIdentChar_iff]
  split_ifs at h <;> omega

theorem eq_colon_of_toLower {c : Char} (h : c.toLower = ':') : c = ':' := by
  rw [Ascii.eq_iff_toNat, Ascii.toNat_toLower] at h
  rw [Ascii.eq_iff_toNat]
  have hcode : ':'.toNat = 58 := rfl
  split_ifs at h <;> omega

theorem isGroupWord_split {s : Text} (h : isGroupWord s = true) :
    ∃ (w : Ident) (rest : Text), s = w.chars ++ ':' :: rest := by
  rw [isGroupWord, List.isPrefixOf_iff_prefix] at h
  obtain ⟨t, ht⟩ := h
  have hlower : lower s = "group".toList ++ ':' :: t := ht.symm
  obtain ⟨w, v, rfl, hw, hv⟩ := List.map_eq_append_iff.mp hlower
  obtain ⟨c, rest, rfl, hc, -⟩ := List.map_eq_cons_iff.mp hv
  obtain rfl := eq_colon_of_toLower hc
  refine ⟨⟨w, ?_, ?_⟩, rest, rfl⟩
  · rintro rfl
    cases hw
  · intro c hc
    have hall : ∀ d ∈ "group".toList, isIdentChar d = true := Scan.forall_of_all rfl
    exact isIdentChar_of_toLower (hall c.toLower (hw ▸ List.mem_map_of_mem hc))

/-- `Parser.cpp` stops before the `:` of a keyword in mixed case. -/
theorem parseRequest_mixedGroup {s : Text} (h : MixedGroup s) :
    (Parser.parseRequest s).1 = .missingCommand := by
  obtain ⟨w, rest, rfl⟩ := isGroupWord_split h.1
  have hcolon : Stops isIdentChar (':' :: rest) := stops_cons.mpr rfl
  have hword : wholeToken isIdentChar (w.chars ++ ':' :: rest) = (w.chars, ':' :: rest) := by
    rw [wholeToken, skipSpaces_eq_self (ident_stops_isBlank w _), takeWhile_append w.all hcolon,
      dropWhile_append w.all hcolon]
  obtain ⟨kind, htarget⟩ : ∃ kind, Parser.parseTarget (w.chars ++ ':' :: rest) {} =
      (some (':' :: rest), { addressKind := kind, target := copyToken maxToken w.chars }) := by
    unfold Parser.parseTarget
    split
    · next start he =>
      have hhead := w.stops (q := (· == '@'))
        (fun c h => by simpa using ne_of_isIdentChar h rfl) (':' :: rest)
      rw [he, stops_cons] at hhead
      exact absurd hhead (by decide)
    · change ∃ kind, (if hasGroupKeyword (w.chars ++ ':' :: rest) = true then _ else _) = _
      rw [h.2]
      simp only [Bool.false_eq_true, if_false, readToken_ident, hword, if_neg w.ne_nil]
      exact ⟨_, rfl⟩
  have hhash : '#' ∉ copyToken maxToken w.chars := fun h =>
    w.not_mem rfl (List.mem_of_mem_take h)
  have hid := parseRequestId_none (g := []) (s := ':' :: rest)
    { addressKind := kind, target := copyToken maxToken w.chars }
    (by simp) (stops_cons.mpr rfl) (by simp)
  have hcommand : (wholeToken isIdentChar (':' :: rest)).1 = [] := by
    rw [wholeToken, skipSpaces_eq_self (stops_cons.mpr rfl), takeWhile_eq_nil hcolon]
  rw [parseRequest_eq_parseCommand htarget hhash hid, parseCommand_eq, if_pos hcommand]

/-- Both parsers start at the same place. -/
theorem startOf_cases {F : Type} (py : Python F) (line : Text) :
    (startOf line = [] ∧ ParsersAgree py line) ∨
    (Parser.parse (some line) = Parser.parseRequest (startOf line) ∧
      py.parse (some line) = py.parseRequest (startOf line)) := by
  by_cases hempty : (skipSpaces line).dropWhile isLineEnd = []
  · refine .inl ⟨by rw [startOf, hempty]; rfl, {}, ?_⟩
    simp [Parser.parse, Python.parse, hempty]
  · by_cases hmissing : skipSpaces ((skipSpaces line).dropWhile isLineEnd) = []
    · refine .inl ⟨hmissing, {}, ?_⟩
      simp [Parser.parse, Python.parse, hempty, hmissing]
    · refine .inr ⟨?_, ?_⟩
      · simp only [Parser.parse, hempty, hmissing, if_false, startOf]
      · simp only [Python.parse, hempty, hmissing, if_false, startOf]

/-- On a 7-bit line within the limits the parsers agree exactly when the group keyword is not in
mixed case, or no command follows it. -/
theorem parsersAgree_iff {F : Type} (py : Python F) {line : Text}
    (hline : ∀ c ∈ line, c ≠ '\x00' ∧ c.toNat < 128) (hfit : FitsLimits (startOf line)) :
    ParsersAgree py line ↔ ¬ MixedGroup (startOf line) ∨ NoCommand (startOf line) := by
  rcases startOf_cases py line with ⟨hnil, hagree⟩ | ⟨hcpp, hpy⟩
  · refine iff_of_true hagree (.inl (fun h => ?_))
    rw [hnil] at h
    exact absurd h.1 (by decide)
  have hstart : IsAscii (startOf line) := by
    have hsub : (startOf line).Sublist line := ((List.dropWhile_sublist isBlank).trans
      (List.dropWhile_sublist isLineEnd)).trans (List.dropWhile_sublist isBlank)
    exact fun c hc => (hline c (hsub.mem hc)).2
  obtain ⟨req, hreq, hsame⟩ := py.parseRequest_whole hstart
    (fun d hd => (hfit.digits d hd).1.trans (by decide))
  rw [ParsersAgree, hcpp, hpy, hreq]
  by_cases hmixed : MixedGroup (startOf line)
  · rw [parseRequest_mixedGroup hmixed, ← wholeRequest_missingCommand_iff]
    constructor
    · rintro ⟨req', heq, -⟩
      exact .inr (congrArg Prod.fst (Except.ok.inj heq))
    · rintro (hnot | hcommand)
      · exact absurd hmixed hnot
      · exact ⟨req, by rw [hcommand], fun h => by cases h⟩
  · have hs : isGroupWord (startOf line) = hasGroupKeyword (startOf line) := by
      cases hkw : hasGroupKeyword (startOf line) with
      | true => exact isGroupWord_of_hasGroupKeyword hkw
      | false =>
        rw [← Bool.not_eq_true]
        exact fun hg => hmixed ⟨hg, hkw⟩
    obtain ⟨hresult, hrequest⟩ := parseRequest_whole hs hfit
    refine iff_of_true ⟨req, by rw [hresult], ?_⟩ (.inl hmixed)
    intro hok
    rw [hresult] at hok
    rw [hsame hok]
    exact hrequest hok

theorem parsersAgree_iff_ping : ParsersAgree Python.ascii "ha ping".toList ↔
    ¬ MixedGroup (startOf "ha ping".toList) ∨ NoCommand (startOf "ha ping".toList) :=
  parsersAgree_iff Python.ascii (Scan.forall_of_all rfl)
    ⟨by decide, by decide, by decide, by decide, by decide⟩

/-- `Group:gps status` -/
def mixedGroupLine : Text := "Group:gps status".toList

theorem fitsLimits_mixedGroupLine : FitsLimits (startOf mixedGroupLine) :=
  ⟨by decide, by decide, by decide, by decide, by decide⟩

theorem parsers_disagree : (∀ c ∈ mixedGroupLine, c ≠ '\x00' ∧ c.toNat < 128) ∧
    FitsLimits (startOf mixedGroupLine) ∧ ¬ ParsersAgree Python.ascii mixedGroupLine := by
  refine ⟨Scan.forall_of_all rfl, fitsLimits_mixedGroupLine, ?_⟩
  rintro ⟨req, hpy, -⟩
  have hcpp : (Parser.parse (some mixedGroupLine)).1 = .missingCommand := by decide
  have hok : Python.ascii.parse (some mixedGroupLine) = .ok (.ok, {
      addressKind := .group
      target := "gps".toList
      command := "status".toList }) := rfl
  rw [hcpp, hok] at hpy
  have hresult : ParseResult.ok = .missingCommand := congrArg Prod.fst (Except.ok.inj hpy)
  cases hresult

end Mcrpc
