import Mcrpc.Dispatcher
import Mcrpc.Python.Response

/-!
# The line builders of the Python package

`builder.py`.
-/

namespace Mcrpc

def intText (n : ℤ) : Text := if n < 0 then '-' :: decimal n.natAbs else decimal n.natAbs

/-- `str(n)`, which refuses more than 4300 digits as `int` does. -/
def pyStr (n : ℤ) : Except PyError Text :=
  if (decimal n.natAbs).length ≤ 4300 then .ok (intText n) else .error .valueError

/-- An argument that is `none` is `None`; `args=None` is the empty list. -/
def buildRequest (target command : Text) (requestId : Option ℤ) (args : List (Option Text)) :
    Except PyError Text :=
  if target = [] ∨ command = [] then .error .valueError
  else do
    let first ←
      match requestId with
      | some n => pure (target ++ '#' :: (← pyStr n))
      | none => pure target
    let line := first ++ ' ' :: command
    return if args = [] then line else line ++ ' ' :: join [' '] (args.filterMap id)

def prefixRequestId (body : Text) : Option ℤ → Except PyError Text
  | none => .ok body
  | some n => do return '#' :: ((← pyStr n) ++ ' ' :: body)

def buildEvent (name : Text) (kv : Option Text := none) : Except PyError Text :=
  if name = [] then .error .valueError
  else
    match kv with
    | some (c :: kv) => .ok ("event ".toList ++ name ++ ' ' :: c :: kv)
    | _ => .ok ("event ".toList ++ name)

def buildError (code : Option Text := none) : Text :=
  match code with
  | some (c :: code) => "err ".toList ++ c :: code
  | _ => "err internal".toList

def buildOk (detail : Option Text := none) : Text :=
  match detail with
  | some (c :: detail) => "ok ".toList ++ c :: detail
  | _ => "ok".toList

def argumentTail (args : List (Option Text)) : Text :=
  if args = [] then [] else ' ' :: join [' '] (args.filterMap id)

theorem intText_natCast (n : ℕ) : intText n = decimal n := by
  rw [intText, Int.natAbs_natCast, if_neg (by omega)]

theorem pyStr_natCast {n : ℕ} (h : (decimal n).length ≤ 4300) :
    pyStr n = .ok (decimal n) := by
  rw [pyStr, Int.natAbs_natCast, if_pos h, intText_natCast]

theorem buildRequest_some {target command : Text} (htarget : target ≠ []) (hcommand : command ≠ [])
    {n : ℕ} (hn : (decimal n).length ≤ 4300) (args : List (Option Text)) :
    buildRequest target command (some n) args =
      .ok (target ++ '#' :: (decimal n ++ ' ' :: (command ++ argumentTail args))) := by
  rw [buildRequest, if_neg (not_or.mpr ⟨htarget, hcommand⟩), argumentTail]
  simp only [pyStr_natCast hn]
  change Except.ok _ = _
  split <;> simp

theorem buildRequest_none {target command : Text} (htarget : target ≠ []) (hcommand : command ≠ [])
    (args : List (Option Text)) : buildRequest target command none args =
      .ok (target ++ ' ' :: (command ++ argumentTail args)) := by
  rw [buildRequest, if_neg (not_or.mpr ⟨htarget, hcommand⟩), argumentTail]
  change Except.ok _ = _
  split <;> simp

end Mcrpc
