import Mcrpc.Lib.CharClass
import Mcrpc.Python.Status

/-!
# The call results of the Python package

`is_valid_proc`, the builders and `parse_call_result` of `call_result.py`. A key the returned `dict`
does not have is `none`, as is `None`.
-/

namespace Mcrpc

/-- `[A-Za-z]` -/
def procLetters : Text := "ABCDEFGHIJKLMNOPQRSTUVWXYZabcdefghijklmnopqrstuvwxyz".toList

/-- `[A-Za-z0-9_]` -/
def procChars : Text := procLetters ++ "0123456789_".toList

/-- `[A-Za-z][A-Za-z0-9_]*` -/
def procSegmentRe : RegularExpression Char :=
  CharClass.oneOf procLetters * (CharClass.oneOf procChars).star

/-- `_PROC_RE` between its anchors -/
def procRe : RegularExpression Char := procSegmentRe * (.char '.' * procSegmentRe)

namespace Python

def isValidProc (proc : Option Text) : Bool :=
  match proc with
  | none => false
  | some s =>
    if s = [] then false
    else if s.count '.' ≠ 1 then false
    else CharClass.matchLine '\n' procRe s

end Python

/-- The words of a result, with `f"{k}={v}"` for each keyword argument behind them. -/
def resultLine (words : List Text) (kwargs : Dict Text Text) : Text :=
  join [' '] (words ++ kwargs.entries.map (fun e => e.1 ++ '=' :: e.2))

def buildCallOk (kwargs : Dict Text Text) : Text := resultLine ["ok".toList] kwargs

def buildCallErr (code : Text) (kwargs : Dict Text Text) : Text :=
  resultLine ["err".toList, if code ≠ [] then code else "internal".toList] kwargs

def buildCallBusy (kwargs : Dict Text Text) : Text := resultLine ["busy".toList] kwargs

def buildCallRetry (kwargs : Dict Text Text) : Text := resultLine ["retry".toList] kwargs

structure ParsedCallResult where
  ok : Bool
  kind : Option Text
  code : Option Text := none
  requestId : Option ℤ
  fields : Dict Text Text
  valid : Bool
  reason : Option Text := none
  knownErr : Option Bool := none

def errCodes : List Text :=
  ["unsupported".toList, "unknown_proc".toList, "invalid_argument".toList, "denied".toList,
    "timeout".toList, "internal".toList]

def resultKinds : List Text := ["ok".toList, "err".toList, "busy".toList, "retry".toList]

/-- The loop over the key=value tokens, with whether it reached the end. -/
def readResultFields : List Text → Dict Text Text → Bool × Dict Text Text
  | [], fields => (true, fields)
  | tok :: rest, fields =>
    if '=' ∈ tok then
      let kv := partition '=' tok
      readResultFields rest (fields.set kv.1 kv.2)
    else (false, fields)

def callResultOf (rid : Option ℤ) (kind : Text) (code : Option Text) (rest : List Text) :
    ParsedCallResult :=
  match readResultFields rest .empty with
  | (false, fields) =>
    { ok := false, kind := some kind, code := code, requestId := rid, fields := fields,
      valid := false, reason := some "non_kv_token".toList }
  | (true, fields) =>
    if kind ∉ resultKinds then
      { ok := false, kind := some kind, requestId := rid, fields := fields, valid := false }
    else
      { ok := kind = "ok".toList, kind := some kind, code := code, requestId := rid,
        fields := fields, valid := true, knownErr := code.map (fun c => decide (c ∈ errCodes)) }

namespace Python

variable {F : Type} (py : Python F)

def parseCallResult (raw : Option Text) : Except PyError ParsedCallResult := do
  let text := strip (raw.getD [])
  let (rid, tokens) ← py.takeRequestId (split text)
  match tokens with
  | [] => return { ok := false, kind := none, requestId := rid, fields := .empty, valid := false }
  | token :: rest =>
    let kind := py.lower token
    if kind = "err".toList then
      match rest with
      | [] => return {
          ok := false, kind := some "err".toList, code := some "internal".toList,
          requestId := rid, fields := .empty, valid := false }
      | code :: rest => return callResultOf rid kind (some code) rest
    else return callResultOf rid kind none rest

end Python
end Mcrpc
