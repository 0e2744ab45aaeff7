import Mcrpc.Python.Event
import Mcrpc.Python.Status

/-!
# The response parser of the Python package

`parse_response` of `response.py`: the request id, then an ordered chain of tests on the first word
and on the keys that are present; and `parse_caps_blob`.
-/

namespace Mcrpc

inductive ResponseKind
  | pong | ok | error | status | discover | caps | help | gps | battery | voltage | charging
  | event | data | unknown
  deriving DecidableEq, Repr

structure ParsedResponse (F : Type) where
  kind : ResponseKind
  raw : Text
  requestId : Option ℤ := none
  errorCode : Option Text := none
  okDetail : Option Text := none
  commandHint : Option Text := none
  parameters : List (Text × PyValue F) := []
  fields : Dict Text Text := .empty
  device : Option Text := none
  caps : List Text := []
  helpCommands : List Text := []

namespace Python

variable {F : Type} (py : Python F)

/-- `_strip_request_id`, which asks for a digit before it asks whether all are digits. -/
def stripRequestId (tokens : List Text) : Except PyError (Option ℤ × List Text) :=
  match tokens with
  | ('#' :: digits) :: rest =>
    if 0 < digits.length && py.isdigitStr digits then
      match py.int digits with
      | some n => .ok (some n, rest)
      | none => .error .valueError
    else .ok (none, tokens)
  | _ => .ok (none, tokens)

/-- The response a line states behind its request id. The test for a line of bare names around the
`caps` branch returns nothing of its own. -/
def responseOf (text : Text) (rid : Option ℤ) : List Text → ParsedResponse F
  | [] => { kind := .unknown, raw := text, requestId := rid }
  | token :: rest =>
    let head := py.lower token
    let kv := parseKvPairs rest
    let params := py.coerceFields kv
    let known (kind : ResponseKind) (hint : Option Text) : ParsedResponse F :=
      { kind := kind, raw := text, requestId := rid, commandHint := hint, parameters := params,
        fields := kv }
    if head = "pong".toList ∧ rest = [] then
      { kind := .pong, raw := text, requestId := rid, commandHint := some "ping".toList }
    else if head = "ok".toList then
      { known .ok none with okDetail := if rest = [] then none else some (join [' '] rest) }
    else if head = "err".toList then
      { known .error none with errorCode := some (rest.headD "internal".toList) }
    else if head = "event".toList then known .event rest.head?
    else if head = "status".toList then known .status (some "status".toList)
    else if head = "gps".toList then known .gps (some "gps".toList)
    else if head = "battery".toList then known .battery (some "battery".toList)
    else if head = "voltage".toList then known .voltage (some "voltage".toList)
    else if head = "charging".toList then known .charging (some "charging".toList)
    else if head = "caps".toList then
      { kind := .caps, raw := text, requestId := rid, commandHint := some "caps".toList,
        caps := rest }
    else if head = "help".toList then
      { kind := .help, raw := text, requestId := rid, commandHint := some "help".toList,
        helpCommands := rest }
    else if (kv.get "profile".toList).isSome || (kv.get "protocol".toList).isSome ||
        (kv.get "sdk".toList).isSome then
      { known .discover (some "discover".toList) with device := some token }
    else if kv.entries ≠ [] then known .data (some head)
    else known .unknown (some head)

def parseResponse (raw : Option Text) : Except PyError (ParsedResponse F) := do
  let text := strip (raw.getD [])
  let (rid, tokens) ← py.stripRequestId (splitTokens text)
  return py.responseOf text rid tokens

theorem stripRequestId_eq (tokens : List Text) :
    py.stripRequestId tokens = py.takeRequestId tokens := by
  unfold stripRequestId
  split
  · next digits rest =>
    cases hdigits : py.isdigitStr digits with
    | false => rw [py.takeRequestId_of_not_isdigitStr hdigits, Bool.and_false]; rfl
    | true =>
      have hpos : 0 < digits.length := by
        cases digits with
        | nil => cases hdigits
        | cons c digits => exact Nat.succ_pos _
      rw [decide_eq_true hpos, takeRequestId, hdigits]
      rfl
  · next hne =>
    cases tokens with
    | nil => rfl
    | cons token rest =>
      rw [py.takeRequestId_of_ne (fun digits he => hne digits rest (by rw [he]))]

def parseCapsBlob (text : Option Text) : List Text :=
  let text := text.getD []
  let caps := ((splitlines text).map strip).filter
    (fun name => name ≠ [] ∧ ' ' ∉ name ∧ '=' ∉ name)
  if caps = [] then
    -- names on one line behind an optional `caps`
    let tokens := splitTokens text
    let tokens :=
      match tokens with
      | head :: rest => if py.lower head = "caps".toList then rest else tokens
      | [] => tokens
    tokens.filter (fun t => '=' ∉ t)
  else caps

theorem requestId_responseOf (text : Text) (rid : Option ℤ) (tokens : List Text) :
    (py.responseOf text rid tokens).requestId = rid := by
  cases tokens with
  | nil => rfl
  | cons token rest =>
    rw [responseOf]
    repeat'
      refine iteInduction (motive := fun r : ParsedResponse F => r.requestId = rid)
        (fun _ => ?_) (fun _ => ?_)
    all_goals rfl

theorem parseResponse_of_eq {line : Text} {rid : Option ℤ} {tokens : List Text}
    (h : py.takeRequestId (split line) = .ok (rid, tokens)) :
    py.parseResponse (some line) = .ok (py.responseOf (strip line) rid tokens) := by
  rw [parseResponse, Option.getD_some, splitTokens_eq_split, split_strip, stripRequestId_eq, h]
  rfl

end Python
end Mcrpc
