import Mcrpc.Python.Builtins
import Mcrpc.Parser

/-!
# The request parser of the Python package

`parse` of `parser.py`. The position `i` is the remaining text `s[i:]`, as in the model of
`Parser.cpp`; an exception that `int` raises ends the parse.
-/

namespace Mcrpc

structure PyRequest where
  addressKind : AddressKind := .named
  target : Text := []
  hasRequestId : Bool := false
  requestId : ℤ := 0
  command : Text := []
  args : List Text := []
  deriving DecidableEq

namespace Python

variable {F : Type} (py : Python F)

def isIdentChar (c : Char) : Bool := py.isalnum c || c == '_' || c == '-'

def isHexChar (c : Char) : Bool := "0123456789abcdefABCDEF".toList.contains c

/-- The class of the scan loop `_read_token` chooses. -/
def tokenClass (identOnly : Bool) : Char → Bool := if identOnly then py.isIdentChar else isTokenChar

def readToken (p : Text) (identOnly : Bool) : Option Text × Text :=
  let p := skipSpaces p
  if p = [] then (none, p)
  else if p.takeWhile (py.tokenClass identOnly) = [] then (none, p)
  else (some (p.takeWhile (py.tokenClass identOnly)), p.dropWhile (py.tokenClass identOnly))

/-- `none` is `ParseResult.Malformed`. -/
def parseTarget (s : Text) (out : PyRequest) : Option Text × PyRequest :=
  match s with
  | '@' :: start =>
    if start.takeWhile isHexChar = [] then (none, out)
    else (some (start.dropWhile isHexChar),
      { out with target := start.takeWhile isHexChar, addressKind := .id })
  | s =>
    if "group:".toList.isPrefixOf (py.lower s) then
      let out := { out with addressKind := .group }
      match py.readToken (s.drop 6) true with
      | (none, _) => (none, out)
      | (some token, p) => (some p, { out with target := token })
    else
      match py.readToken s true with
      | (none, _) => (none, out)
      | (some token, p) =>
        (some p, { out with
          target := token
          addressKind :=
            if py.lower token = "all".toList then .all
            else if py.lower token = "self".toList then .self
            else .named })

/-- The block for an id glued to the target. -/
def splitTargetId (out : PyRequest) : Except PyError PyRequest :=
  match out.target.dropWhile (· ≠ '#') with
  | _ :: digits =>
    if digits ≠ [] ∧ py.isdigitStr digits then
      match py.int digits with
      | some n => .ok { out with
          hasRequestId := true
          requestId := n
          target := out.target.takeWhile (· ≠ '#') }
      | none => .error .valueError
    else .ok out
  | [] => .ok out

def parseRequestId (p : Text) (out : PyRequest) : Except PyError (Option Text × PyRequest) :=
  match skipSpaces p with
  | '#' :: p =>
    if p.takeWhile py.isdigit = [] then .ok (none, out)
    else
      match py.int (p.takeWhile py.isdigit) with
      | some n =>
        .ok (some (p.dropWhile py.isdigit), { out with hasRequestId := true, requestId := n })
      | none => .error .valueError
  | p => .ok (some p, out)

/-- The argument loop; a turn that goes on reads at least one character. -/
def readArgs : ℕ → Text → List Text
  | 0, _ => []
  | fuel + 1, p =>
    match py.readToken p false with
    | (none, _) => []
    | (some arg, p) => arg :: readArgs fuel p

def parseCommand (p : Text) (out : PyRequest) : ParseResult × PyRequest :=
  match py.readToken p true with
  | (none, _) => (.missingCommand, out)
  | (some cmd, p) =>
    (.ok, { out with
      command := if py.lower cmd = "discover".toList then "discovery".toList else py.lower cmd
      args := py.readArgs p.length p })

def parseRequest (p : Text) : Except PyError (ParseResult × PyRequest) :=
  match py.parseTarget p {} with
  | (none, out) => .ok (.malformed, out)
  | (some p, out) =>
    match py.splitTargetId out with
    | .error e => .error e
    | .ok out =>
      match py.parseRequestId p out with
      | .error e => .error e
      | .ok (none, out) => .ok (.malformed, out)
      | .ok (some p, out) => .ok (py.parseCommand p out)

/-- `none` is `None`. -/
def parse : Option Text → Except PyError (ParseResult × PyRequest)
  | none => .ok (.empty, {})
  | some s =>
    let p := (skipSpaces s).dropWhile isLineEnd
    if p = [] then .ok (.empty, {})
    else if skipSpaces p = [] then .ok (.missingTarget, {})
    else py.parseRequest (skipSpaces p)

/-- `none` is `None`. -/
def stripSenderPrefix : Option Text → Text
  | none => []
  | some text =>
    match text.dropWhile (· ≠ ':') with
    | _ :: c :: msg => if isBlank c then (c :: msg).dropWhile isBlank else text
    | _ => text

/-- The rule of `Parser.cpp`. -/
theorem stripSenderPrefix_eq (text : Option Text) :
    stripSenderPrefix text = Parser.stripSenderPrefix text := by
  cases text with
  | none => rfl
  | some text =>
    rw [stripSenderPrefix, Parser.stripSenderPrefix]
    cases text.dropWhile (· ≠ ':') with
    | nil => rfl
    | cons colon rest =>
      cases rest with
      | nil => rfl
      | cons c msg =>
        by_cases hc : isBlank c = true
        · simp only [hc, if_true, List.dropWhile_cons_of_pos]
        · simp only [hc, if_false, Bool.false_eq_true]

theorem stripSenderPrefix_append {sender body : Text} (hsender : ':' ∉ sender)
    (hbody : Scan.Stops isBlank body) :
    stripSenderPrefix (some (sender ++ ':' :: ' ' :: body)) = body := by
  have hdrop : (sender ++ ':' :: ' ' :: body).dropWhile (· ≠ ':') = ':' :: ' ' :: body :=
    Scan.dropWhile_append (Scan.all_ne_of_not_mem hsender) (Scan.stops_cons.mpr (by decide))
  have hblank : isBlank ' ' = true := rfl
  simp only [stripSenderPrefix, hdrop, hblank, if_true]
  rw [List.dropWhile_cons_of_pos hblank, Scan.dropWhile_eq_self hbody]

end Python
end Mcrpc
