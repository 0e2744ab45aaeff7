import Mcrpc.Dispatcher
import Mcrpc.Python.Builtins

/-!
# Uptime and short identity of the Python package

`uptime.py`.
-/

namespace Mcrpc.Python

def formatUptime (seconds : ℤ) : Text :=
  -- `int(max(0, seconds))`
  let seconds := (max 0 seconds).toNat
  if seconds < 60 then decimal seconds ++ ['s']
  else if seconds < 3600 then
    let (m, s) := (seconds / 60, seconds % 60)
    if s = 0 then decimal m ++ ['m'] else decimal m ++ 'm' :: (decimal s ++ ['s'])
  else if seconds < 86400 then
    let (h, rem) := (seconds / 3600, seconds % 3600)
    let m := rem / 60
    if m = 0 then decimal h ++ ['h'] else decimal h ++ 'h' :: (decimal m ++ ['m'])
  else
    let (d, rem) := (seconds / 86400, seconds % 86400)
    let h := rem / 3600
    if h = 0 then decimal d ++ ['d'] else decimal d ++ 'd' :: (decimal h ++ ['h'])

def lowerHexChars : Text := "0123456789abcdef".toList

def shortId8 {F : Type} (py : Python F) (fullHex : Option Text) : Text :=
  match fullHex with
  | none => []
  | some s => if s = [] then [] else ((py.lower s).filter (· ∈ lowerHexChars)).take 8

end Mcrpc.Python
