import Mcrpc.Types
import Mathlib.Algebra.Group.Nat.Defs
import Mcrpc.Lib.Ascii

/-!
# The request parser

`Parser.cpp`. The read pointer `p` is the remaining text, and `*p == 0` is the end of the list.
`readToken` moves the pointer also when it fails, as the reference parameter does. The early
returns of `Parser::parse` keep the request written so far.
-/

namespace Mcrpc

def isBlank (c : Char) : Bool := c == ' ' || c == '\t'

def isLineEnd (c : Char) : Bool := c == '\r' || c == '\n'

def isIdentChar (c : Char) : Bool :=
  ('a' ≤ c && c ≤ 'z') || ('A' ≤ c && c ≤ 'Z') || ('0' ≤ c && c ≤ '9') || c == '_' || c == '-'

def isHexChar (c : Char) : Bool :=
  ('0' ≤ c.toLower && c.toLower ≤ '9') || ('a' ≤ c.toLower && c.toLower ≤ 'f')

/-- The loop condition for a token that is not an identifier. -/
def isTokenChar (c : Char) : Bool := !(isBlank c || isLineEnd c)

section CharClasses

variable {c : Char}

theorem isBlank_iff : isBlank c = true ↔ c.toNat = 32 ∨ c.toNat = 9 := by
  simp only [isBlank, Bool.or_eq_true, beq_iff_eq, Ascii.eq_iff_toNat]
  rfl

theorem isLineEnd_iff : isLineEnd c = true ↔ c.toNat = 13 ∨ c.toNat = 10 := by
  simp only [isLineEnd, Bool.or_eq_true, beq_iff_eq, Ascii.eq_iff_toNat]
  rfl

theorem isTokenChar_iff : isTokenChar c = true ↔
    c.toNat ≠ 32 ∧ c.toNat ≠ 9 ∧ c.toNat ≠ 13 ∧ c.toNat ≠ 10 := by
  have h : isTokenChar c = true ↔ ¬ (isBlank c = true ∨ isLineEnd c = true) := by
    simp [isTokenChar]
  rw [h, isBlank_iff, isLineEnd_iff]
  omega

theorem isIdentChar_iff : isIdentChar c = true ↔
    97 ≤ c.toNat ∧ c.toNat ≤ 122 ∨ 65 ≤ c.toNat ∧ c.toNat ≤ 90 ∨
      48 ≤ c.toNat ∧ c.toNat ≤ 57 ∨ c.toNat = 95 ∨ c.toNat = 45 := by
  simp only [isIdentChar, Bool.or_eq_true, Bool.and_eq_true, decide_eq_true_eq, beq_iff_eq,
    Ascii.le_iff_toNat, Ascii.eq_iff_toNat, or_assoc]
  rfl

theorem isHexChar_iff : isHexChar c = true ↔
    48 ≤ c.toNat ∧ c.toNat ≤ 57 ∨ 97 ≤ c.toNat ∧ c.toNat ≤ 102 ∨
      65 ≤ c.toNat ∧ c.toNat ≤ 70 := by
  simp only [isHexChar, Bool.or_eq_true, Bool.and_eq_true, decide_eq_true_eq, Ascii.le_iff_toNat,
    Ascii.toNat_toLower]
  change 48 ≤ _ ∧ _ ≤ 57 ∨ 97 ≤ _ ∧ _ ≤ 102 ↔ _
  split_ifs <;> omega

theorem isDigit_iff : c.isDigit = true ↔ 48 ≤ c.toNat ∧ c.toNat ≤ 57 :=
  Char.isDigit_iff_toNat

theorem isIdentChar_of_isDigit (h : c.isDigit = true) : isIdentChar c = true :=
  isIdentChar_iff.mpr (by have := isDigit_iff.mp h; omega)

theorem isIdentChar_of_isHexChar (h : isHexChar c = true) : isIdentChar c = true :=
  isIdentChar_iff.mpr (by have := isHexChar_iff.mp h; omega)

theorem isTokenChar_of_isIdentChar (h : isIdentChar c = true) : isTokenChar c = true :=
  isTokenChar_iff.mpr (by have := isIdentChar_iff.mp h; omega)

theorem not_isBlank_of_isTokenChar (h : isTokenChar c = true) : isBlank c = false := by
  rw [← Bool.not_eq_true, isBlank_iff]
  have := isTokenChar_iff.mp h
  omega

theorem not_isLineEnd_of_isTokenChar (h : isTokenChar c = true) : isLineEnd c = false := by
  rw [← Bool.not_eq_true, isLineEnd_iff]
  have := isTokenChar_iff.mp h
  omega

theorem not_isIdentChar_of_isBlank (h : isBlank c = true) : isIdentChar c = false := by
  rw [← Bool.not_eq_true, isIdentChar_iff]
  have := isBlank_iff.mp h
  omega

theorem not_isTokenChar_of_isBlank (h : isBlank c = true) : isTokenChar c = false := by
  rw [← Bool.not_eq_true, isTokenChar_iff]
  have := isBlank_iff.mp h
  omega

theorem ne_of_isIdentChar {d : Char} (h : isIdentChar c = true) (hd : isIdentChar d = false) :
    c ≠ d := by
  rintro rfl
  rw [h] at hd
  cases hd

end CharClasses

def skipSpaces (p : Text) : Text := p.dropWhile isBlank

/-- The condition of the scan loop `readToken` chooses. -/
def tokenClass (identOnly : Bool) : Char → Bool := if identOnly then isIdentChar else isTokenChar

def readToken (p : Text) (destSize : ℕ) (identOnly : Bool) : Option Text × Text :=
  let p := skipSpaces p
  if p = [] then (none, p)
  else if p.takeWhile (tokenClass identOnly) = [] then (none, p)
  else (some (copyToken destSize (p.takeWhile (tokenClass identOnly))),
    p.dropWhile (tokenClass identOnly))

/-- `strtoul(s, nullptr, 10)` on a string of decimal digits, `unsigned long` of 64 bits. -/
def strtoul (digits : Text) : ℕ := min (Nat.ofDigitChars 10 digits 0) (2 ^ 64 - 1)

namespace Parser

/-- `none` is `ParseResult::Malformed`. -/
def parseTarget (p : Text) (out : Request) : Option Text × Request :=
  match p with
  | '@' :: start =>
    if start.takeWhile isHexChar = [] then (none, out)
    else (some (start.dropWhile isHexChar),
      { out with target := copyToken maxToken (start.takeWhile isHexChar), addressKind := .id })
  | p =>
    if "group:".toList.isPrefixOf p || "GROUP:".toList.isPrefixOf p then
      let out := { out with addressKind := .group }
      match readToken (p.drop 6) maxToken true with
      | (none, _) => (none, out)
      | (some target, p) => (some p, { out with target := target })
    else
      match readToken p maxToken true with
      | (none, _) => (none, out)
      | (some target, p) =>
        (some p, { out with
          target := target
          addressKind :=
            if ieq target "all".toList then .all
            else if ieq target "self".toList then .self
            else .named })

/-- The block that looks for `#` and digits inside the stored target. -/
def splitTargetId (out : Request) : Request :=
  match out.target.dropWhile (· ≠ '#') with
  | _ :: digits =>
    if digits ≠ [] ∧ digits.all Char.isDigit then
      { out with
        hasRequestId := true
        requestId := UInt32.ofNat (strtoul digits)
        target := out.target.takeWhile (· ≠ '#') }
    else out
  | [] => out

/-- The loop that fills `idbuf`; `room` is `sizeof(idbuf) - 1 - i`. -/
def readDigits : ℕ → Text → Text × Text
  | room + 1, c :: p =>
    if c.isDigit then (c :: (readDigits room p).1, (readDigits room p).2) else ([], c :: p)
  | _, p => ([], p)

def idbufSize : ℕ := 16

def parseRequestId (p : Text) (out : Request) : Option Text × Request :=
  match skipSpaces p with
  | '#' :: p =>
    let idbuf := (readDigits (idbufSize - 1) p).1
    if idbuf = [] then (none, out)
    else (some (readDigits (idbufSize - 1) p).2,
      { out with hasRequestId := true, requestId := UInt32.ofNat (strtoul idbuf) })
  | p => (some p, out)

def canonicalCommand (command : Text) : Text :=
  if lower command = "discover".toList then copyToken maxToken "discovery".toList
  else lower command

/-- The argument loop with `room` of the argument slots left. -/
def readArgs : ℕ → Text → List Text
  | 0, _ => []
  | room + 1, p =>
    match readToken p maxToken false with
    | (none, _) => []
    | (some arg, p) => arg :: readArgs room p

def parseCommand (p : Text) (out : Request) : ParseResult × Request :=
  match readToken p maxToken true with
  | (none, _) => (.missingCommand, out)
  | (some command, p) =>
    (.ok, { out with command := canonicalCommand command, args := readArgs maxArgs p })

/-- `Parser::parse` from the target on. -/
def parseRequest (p : Text) : ParseResult × Request :=
  match parseTarget p {} with
  | (none, out) => (.malformed, out)
  | (some p, out) =>
    match parseRequestId p (splitTargetId out) with
    | (none, out) => (.malformed, out)
    | (some p, out) => parseCommand p out

/-- `none` is the null pointer. -/
def parse : Option Text → ParseResult × Request
  | none => (.empty, {})
  | some input =>
    let p := (skipSpaces input).dropWhile isLineEnd
    if p = [] then (.empty, {})
    else if skipSpaces p = [] then (.missingTarget, {})
    else parseRequest (skipSpaces p)

def stripSenderPrefix : Option Text → Text
  | none => []
  | some text =>
    match text.dropWhile (· ≠ ':') with
    | _ :: c :: msg => if isBlank c then msg.dropWhile isBlank else text
    | _ => text

end Parser
end Mcrpc
