import Mcrpc.Python.Parser
import Mcrpc.ParserSound
import Mcrpc.ParserComplete

/-!
# Reading a request with whole tokens

The request a text states when its tokens are kept whole and the group keyword is read in any letter
case: the common meaning of the two parsers. On 7-bit text the Python parser computes it. `Parser.cpp`
computes it for texts whose tokens have room in its fields, unless the group keyword is in mixed case.
-/

namespace Mcrpc

open Scan

/-- The token after blanks, and what follows it. -/
def wholeToken (cls : Char → Bool) (p : Text) : Text × Text :=
  ((skipSpaces p).takeWhile cls, (skipSpaces p).dropWhile cls)

def isGroupWord (s : Text) : Bool := "group:".toList.isPrefixOf (lower s)

def wholeTarget (s : Text) : Text × Text :=
  match s with
  | '@' :: p => (p.takeWhile isHexChar, p.dropWhile isHexChar)
  | s => wholeToken isIdentChar (if isGroupWord s then s.drop 6 else s)

def wholeKind (s : Text) : AddressKind :=
  match s with
  | '@' :: _ => .id
  | s =>
    if isGroupWord s then .group
    else if ieq (wholeTarget s).1 "all".toList then .all
    else if ieq (wholeTarget s).1 "self".toList then .self
    else .named

/-- `none` without a `#`. -/
def wholeId (q : Text) : Option Text × Text :=
  match skipSpaces q with
  | '#' :: p => (some (p.takeWhile Char.isDigit), p.dropWhile Char.isDigit)
  | p => (none, p)

def wholeCommand (q : Text) : Text × Text := wholeToken isIdentChar (wholeId q).2

def wholeArgs : ℕ → Text → List Text
  | 0, _ => []
  | fuel + 1, p =>
    if (wholeToken isTokenChar p).1 = [] then []
    else (wholeToken isTokenChar p).1 :: wholeArgs fuel (wholeToken isTokenChar p).2

def wholeRequest (s : Text) : ParseResult × PyRequest :=
  let t := wholeTarget s
  let i := wholeId t.2
  let c := wholeCommand t.2
  if t.1 = [] ∨ i.1 = some [] then (.malformed, {})
  else if c.1 = [] then (.missingCommand, {})
  else (.ok, {
    addressKind := wholeKind s
    target := t.1
    hasRequestId := i.1.isSome
    requestId := Nat.ofDigitChars 10 (i.1.getD []) 0
    command := if lower c.1 = "discover".toList then "discovery".toList else lower c.1
    args := wholeArgs c.2.length c.2 })

/-- The tokens of the request have room in the fields of a `Request`. -/
structure FitsLimits (s : Text) : Prop where
  target : (wholeTarget s).1.length < maxToken
  digits : ∀ d ∈ (wholeId (wholeTarget s).2).1, d.length ≤ 15 ∧ Nat.ofDigitChars 10 d 0 < 2 ^ 32
  command : (wholeCommand (wholeTarget s).2).1.length < maxToken
  argc : (wholeRequest s).2.args.length ≤ maxArgs
  args : ∀ a ∈ (wholeRequest s).2.args, a.length < maxToken

theorem length_wholeToken_lt {cls : Char → Bool} {p : Text} (h : (wholeToken cls p).1 ≠ []) :
    (wholeToken cls p).2.length < p.length := by
  have hsplit : (wholeToken cls p).1 ++ (wholeToken cls p).2 = skipSpaces p :=
    List.takeWhile_append_dropWhile
  have hlen := congrArg List.length hsplit
  rw [List.length_append] at hlen
  have hskip : (skipSpaces p).length ≤ p.length := (List.dropWhile_sublist isBlank).length_le
  have hpos := List.length_pos_iff.mpr h
  omega

section Cases

variable {s q : Text}

theorem wholeTarget_of_ne (h : ∀ p, s ≠ '@' :: p) :
    wholeTarget s = wholeToken isIdentChar (if isGroupWord s then s.drop 6 else s) := by
  unfold wholeTarget
  split
  · next p => exact absurd rfl (h p)
  · rfl

theorem wholeKind_of_ne (h : ∀ p, s ≠ '@' :: p) : wholeKind s =
    if isGroupWord s then .group
    else if ieq (wholeTarget s).1 "all".toList then .all
    else if ieq (wholeTarget s).1 "self".toList then .self
    else .named := by
  unfold wholeKind
  split
  · next p => exact absurd rfl (h p)
  · rfl

theorem wholeId_of_eq {p : Text} (h : skipSpaces q = '#' :: p) :
    wholeId q = (some (p.takeWhile Char.isDigit), p.dropWhile Char.isDigit) := by
  simp only [wholeId, h]

theorem wholeId_of_ne (h : ∀ p, skipSpaces q ≠ '#' :: p) : wholeId q = (none, skipSpaces q) := by
  unfold wholeId
  split
  · next p hp => exact absurd hp (h p)
  · rfl

theorem isIdentChar_of_mem_wholeTarget {c : Char} (h : c ∈ (wholeTarget s).1) :
    isIdentChar c = true := by
  by_cases hat : ∃ p, s = '@' :: p
  · obtain ⟨p, rfl⟩ := hat
    exact isIdentChar_of_isHexChar (mem_takeWhile h)
  · rw [wholeTarget_of_ne (not_exists.mp hat)] at h
    exact mem_takeWhile h

end Cases

/-! ### `Parser.cpp` -/

theorem readToken_eq (p : Text) (n : ℕ) (identOnly : Bool) : readToken p n identOnly =
    if (wholeToken (tokenClass identOnly) p).1 = [] then (none, skipSpaces p)
    else (some (copyToken n (wholeToken (tokenClass identOnly) p).1),
      (wholeToken (tokenClass identOnly) p).2) := by
  rw [readToken]
  split
  · next h => rw [wholeToken, h]; rfl
  · rfl

theorem readToken_ident (p : Text) (n : ℕ) : readToken p n true =
    if (wholeToken isIdentChar p).1 = [] then (none, skipSpaces p)
    else (some (copyToken n (wholeToken isIdentChar p).1), (wholeToken isIdentChar p).2) :=
  readToken_eq p n true

theorem readToken_word (p : Text) (n : ℕ) : readToken p n false =
    if (wholeToken isTokenChar p).1 = [] then (none, skipSpaces p)
    else (some (copyToken n (wholeToken isTokenChar p).1), (wholeToken isTokenChar p).2) :=
  readToken_eq p n false

theorem wholeToken_append {cls : Char → Bool} {g w s : Text} (hg : ∀ c ∈ g, isBlank c = true)
    (hblank : Stops isBlank (w ++ s)) (hw : ∀ c ∈ w, cls c = true) (hs : Stops cls s) :
    wholeToken cls (g ++ (w ++ s)) = (w, s) := by
  rw [wholeToken, skipSpaces_append hg hblank, takeWhile_append hw hs, dropWhile_append hw hs]

theorem wholeArgs_argsText {args : List (Blanks × Token)} {fuel : ℕ}
    (h : (argsText args).length ≤ fuel) : wholeArgs fuel (argsText args) =
      args.map (fun a => a.2.chars) := by
  induction args generalizing fuel with
  | nil => cases fuel <;> rfl
  | cons a args ih =>
    have htext : argsText (a :: args) = a.1.chars ++ (a.2.chars ++ argsText args) := by
      rw [argsText, List.flatMap_cons, List.append_assoc, argsText]
    have hstop : Stops isTokenChar (argsText args) := by
      have := stops_argsText args (s := []) (fun _ h => absurd h List.not_mem_nil)
      rwa [List.append_nil] at this
    have hread := wholeToken_append a.1.all
      (a.2.stops (fun _ => not_isBlank_of_isTokenChar) (argsText args)) a.2.all hstop
    have hpos := List.length_pos_iff.mpr a.1.ne_nil
    rw [htext, List.length_append, List.length_append] at h
    rw [htext]
    cases fuel with
    | zero => omega
    | succ fuel =>
      rw [wholeArgs, hread, if_neg a.2.ne_nil, ih (by omega), List.map_cons]

theorem readArgs_eq_wholeArgs (room : ℕ) {fuel : ℕ} {p : Text} (h : p.length ≤ fuel) :
    Parser.readArgs room p = ((wholeArgs fuel p).take room).map (copyToken maxToken) := by
  induction room generalizing fuel p with
  | zero => rfl
  | succ room ih =>
    rw [Parser.readArgs, readToken_word]
    by_cases hnil : (wholeToken isTokenChar p).1 = []
    · have hargs : wholeArgs fuel p = [] := by
        cases fuel with
        | zero => rfl
        | succ fuel => rw [wholeArgs, if_pos hnil]
      rw [hargs, if_pos hnil]
      rfl
    · have hlt := length_wholeToken_lt hnil
      cases fuel with
      | zero => omega
      | succ fuel =>
        rw [if_neg hnil, wholeArgs, if_neg hnil, List.take_succ_cons, List.map_cons]
        exact congrArg _ (ih (by omega))

theorem parseTarget_none {s : Text} (hs : isGroupWord s = hasGroupKeyword s)
    (h : (wholeTarget s).1 = []) : (Parser.parseTarget s {}).1 = none := by
  unfold Parser.parseTarget
  split
  · next p =>
    have hrun : p.takeWhile isHexChar = [] := h
    rw [if_pos hrun]
  · next hat =>
    rw [wholeTarget_of_ne (fun q hq => hat q hq), hs] at h
    change (if hasGroupKeyword s = true then _ else _ : Option Text × Request).1 = none
    split
    · next hkw =>
      rw [if_pos hkw] at h
      simp only [readToken_ident, h, if_true]
    · next hkw =>
      rw [if_neg hkw] at h
      simp only [readToken_ident, h, if_true]

theorem parseTarget_eq {s : Text} (hs : isGroupWord s = hasGroupKeyword s)
    (h : (wholeTarget s).1 ≠ []) : Parser.parseTarget s {} = (some (wholeTarget s).2,
      { addressKind := wholeKind s, target := copyToken maxToken (wholeTarget s).1 }) := by
  unfold Parser.parseTarget
  split
  · next p =>
    have hrun : p.takeWhile isHexChar ≠ [] := h
    rw [if_neg hrun]
    rfl
  · next hat =>
    have htarget := wholeTarget_of_ne (fun q hq => hat q hq)
    rw [wholeKind_of_ne (fun q hq => hat q hq)]
    rw [htarget, hs] at h ⊢
    change (if hasGroupKeyword s = true then _ else _) = _
    split
    · next hkw =>
      rw [if_pos hkw] at h
      simp only [readToken_ident, if_neg h]
    · next hkw =>
      rw [if_neg hkw] at h
      simp only [readToken_ident, if_neg h,
        ieq_copyToken "all".toList (by decide), ieq_copyToken "self".toList (by decide)]

theorem parseRequestId_malformed {q : Text} (out : Request) (h : (wholeId q).1 = some []) :
    (Parser.parseRequestId q out).1 = none := by
  by_cases hhash : ∃ p, skipSpaces q = '#' :: p
  · obtain ⟨p, hp⟩ := hhash
    rw [wholeId_of_eq hp] at h
    have hstop : Stops Char.isDigit p := stops_of_takeWhile_eq_nil (Option.some.inj h)
    have hread := readDigits_append (Parser.idbufSize - 1) (d := []) (by simp) hstop
    rw [List.nil_append, List.take_nil] at hread
    simp only [Parser.parseRequestId, hp, hread, if_true]
  · rw [wholeId_of_ne (not_exists.mp hhash)] at h
    cases h

theorem parseRequestId_eq {q : Text} (out : Request) (h : (wholeId q).1 ≠ some [])
    (hfit : ∀ d ∈ (wholeId q).1, d.length ≤ 15 ∧ Nat.ofDigitChars 10 d 0 < 2 ^ 32)
    (hout : out.hasRequestId = false ∧ out.requestId = 0) :
    ∃ n : UInt32, n.toNat = Nat.ofDigitChars 10 ((wholeId q).1.getD []) 0 ∧
      Parser.parseRequestId q out = (some (wholeId q).2,
        { out with hasRequestId := (wholeId q).1.isSome, requestId := n }) := by
  by_cases hhash : ∃ p, skipSpaces q = '#' :: p
  · obtain ⟨p, hp⟩ := hhash
    rw [wholeId_of_eq hp] at h hfit ⊢
    obtain ⟨hlen, hvalue⟩ := hfit _ rfl
    have hne : p.takeWhile Char.isDigit ≠ [] := fun hnil => h (congrArg some hnil)
    have hread := readDigits_append (Parser.idbufSize - 1) (d := p.takeWhile Char.isDigit)
      (fun _ => mem_takeWhile) (stops_dropWhile Char.isDigit p)
    have hcut : (p.takeWhile Char.isDigit).length ≤ Parser.idbufSize - 1 := hlen
    rw [List.takeWhile_append_dropWhile, List.take_of_length_le hcut,
      List.drop_eq_nil_of_le hcut, List.nil_append] at hread
    refine ⟨UInt32.ofNat (strtoul (p.takeWhile Char.isDigit)), strtoul_toNat hvalue, ?_⟩
    simp only [Parser.parseRequestId, hp, hread, if_neg hne]
    rfl
  · have hne := not_exists.mp hhash
    rw [wholeId_of_ne hne]
    refine ⟨0, rfl, ?_⟩
    have hsame : { out with hasRequestId := false, requestId := 0 } = out := by
      rw [← hout.1, ← hout.2]
    unfold Parser.parseRequestId
    split
    · next p hp => exact absurd hp (hne p)
    · exact congrArg (Prod.mk _) hsame.symm

theorem parseCommand_eq (q : Text) (out : Request) : Parser.parseCommand q out =
    if (wholeToken isIdentChar q).1 = [] then (.missingCommand, out)
    else (.ok, { out with
      command := Parser.canonicalCommand (copyToken maxToken (wholeToken isIdentChar q).1)
      args := Parser.readArgs maxArgs (wholeToken isIdentChar q).2 }) := by
  rw [Parser.parseCommand, readToken_ident]
  by_cases h : (wholeToken isIdentChar q).1 = []
  · rw [if_pos h, if_pos h]
  · rw [if_neg h, if_neg h]

structure SameRequest (req : Request) (req' : PyRequest) : Prop where
  kind : req.addressKind = req'.addressKind
  target : req.target = req'.target
  hasRequestId : req.hasRequestId = req'.hasRequestId
  requestId : (req.requestId.toNat : ℤ) = req'.requestId
  command : req.command = req'.command
  args : req.args = req'.args

/-- `Parser.cpp` reads whole tokens that have room, unless the group keyword is in mixed case. -/
theorem parseRequest_whole {s : Text} (hs : isGroupWord s = hasGroupKeyword s)
    (hfit : FitsLimits s) : (Parser.parseRequest s).1 = (wholeRequest s).1 ∧
      ((wholeRequest s).1 = .ok → SameRequest (Parser.parseRequest s).2 (wholeRequest s).2) := by
  by_cases ht : (wholeTarget s).1 = []
  · have hwhole : wholeRequest s = (.malformed, {}) := if_pos (.inl ht)
    have hread : Parser.parseTarget s {} = (none, (Parser.parseTarget s {}).2) :=
      Prod.ext (parseTarget_none hs ht) rfl
    rw [hwhole, Parser.parseRequest, hread]
    exact ⟨rfl, fun h => by cases h⟩
  have htarget := parseTarget_eq hs ht
  have hhash : '#' ∉ copyToken maxToken (wholeTarget s).1 := fun h =>
    absurd (isIdentChar_of_mem_wholeTarget (List.mem_of_mem_take h)) (by decide)
  by_cases hid : (wholeId (wholeTarget s).2).1 = some []
  · have hwhole : wholeRequest s = (.malformed, {}) := if_pos (.inr hid)
    rw [parseRequest_malformedId htarget hhash (parseRequestId_malformed _ hid), hwhole]
    exact ⟨rfl, fun h => by cases h⟩
  obtain ⟨n, hn, hread⟩ := parseRequestId_eq
    { addressKind := wholeKind s, target := copyToken maxToken (wholeTarget s).1 }
    hid hfit.digits ⟨rfl, rfl⟩
  rw [parseRequest_eq_parseCommand htarget hhash hread, parseCommand_eq]
  by_cases hc : (wholeCommand (wholeTarget s).2).1 = []
  · have hwhole : wholeRequest s = (.missingCommand, {}) := by
      rw [wholeRequest, if_neg (not_or.mpr ⟨ht, hid⟩), if_pos hc]
    rw [if_pos (show (wholeToken isIdentChar _).1 = [] from hc), hwhole]
    exact ⟨rfl, fun h => by cases h⟩
  · have hwhole : (wholeRequest s).1 = .ok := by
      rw [wholeRequest, if_neg (not_or.mpr ⟨ht, hid⟩), if_neg hc]
    rw [if_neg (show (wholeToken isIdentChar _).1 ≠ [] from hc)]
    refine ⟨hwhole.symm, fun _ => ?_⟩
    have hargc := hfit.argc
    have hargs := hfit.args
    rw [wholeRequest, if_neg (not_or.mpr ⟨ht, hid⟩), if_neg hc] at hargc hargs ⊢
    constructor
    case kind => rfl
    case target => exact copyToken_of_lt hfit.target
    case hasRequestId => rfl
    case requestId => exact congrArg Nat.cast hn
    case command => exact (canonicalCommand_copyToken_iff _).mpr hfit.command
    case args =>
      change Parser.readArgs maxArgs (wholeCommand (wholeTarget s).2).2 = _
      rw [readArgs_eq_wholeArgs maxArgs le_rfl]
      exact (map_copyToken_take_iff _).mpr ⟨hargc, hargs⟩

end Mcrpc
