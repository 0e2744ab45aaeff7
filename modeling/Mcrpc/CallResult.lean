import Mcrpc.ReplyBuffer

/-!
# Call results

`CallResult.h`.
-/

namespace Mcrpc.CallResult

def ok (out : ReplyBuffer) : ReplyBuffer := (out.clear.append "ok".toList).2

def busy (out : ReplyBuffer) : ReplyBuffer := (out.clear.append "busy".toList).2

def retry (out : ReplyBuffer) : ReplyBuffer := (out.clear.append "retry".toList).2

def err (out : ReplyBuffer) (code : Text) : ReplyBuffer :=
  ((out.clear.append "err ".toList).2.append (if code ≠ [] then code else "internal".toList)).2

/-- What was written before a piece without room stays in the buffer. -/
def appendKv (out : ReplyBuffer) (key value : Text) : Bool × ReplyBuffer :=
  if key = [] then (false, out)
  else if ' ' ∈ key ∨ '=' ∈ key then (false, out)
  else if ' ' ∈ value then (false, out)
  else
    match out.appendChar ' ' with
    | (false, out) => (false, out)
    | (true, out) =>
      match out.append key with
      | (false, out) => (false, out)
      | (true, out) =>
        match out.appendChar '=' with
        | (false, out) => (false, out)
        | (true, out) => out.append value

def isProcSegment : Text → Bool
  | [] => false
  | c :: rest =>
    (('a' ≤ c && c ≤ 'z') || ('A' ≤ c && c ≤ 'Z')) &&
      rest.all (fun c => ('a' ≤ c && c ≤ 'z') || ('A' ≤ c && c ≤ 'Z') || ('0' ≤ c && c ≤ '9') ||
        c == '_')

def isValidProc (proc : Text) : Bool :=
  match proc.dropWhile (· ≠ '.') with
  | [] => false
  | _ :: action =>
    proc.takeWhile (· ≠ '.') ≠ [] && action ≠ [] && !action.contains '.' &&
      isProcSegment (proc.takeWhile (· ≠ '.')) && isProcSegment action

end Mcrpc.CallResult
