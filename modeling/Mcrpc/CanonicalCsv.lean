import Mcrpc.ReplyBuffer

/-!
# Canonical CSV

`canonicalizeCsv` of `CanonicalCsv.h` on the bytes of its output array, which may hold anything
before the call.
-/

namespace Mcrpc

def csvMaxTokens : ℕ := 24

def csvToken : ℕ := 32

/-- `out[pos..] = s` within the array. -/
def writeAt (out : List Char) (pos : ℕ) (s : Text) : List Char :=
  out.take pos ++ s ++ out.drop (pos + s.length)

/-- The loop that fills `buf`; `none` is a null token. -/
def collectTokens : List (Option Text) → List Text → List Text
  | [], buf => buf
  | token :: tokens, buf =>
    if csvMaxTokens ≤ buf.length then buf
    else
      match token with
      | none => collectTokens tokens buf
      | some t =>
        if t = [] then collectTokens tokens buf
        else
          let tmp := lower (copyToken csvToken t)
          if tmp ∈ buf then collectTokens tokens buf else collectTokens tokens (buf ++ [tmp])

/-- Moves `key` down the sorted prefix, given from its last element on. -/
def insertKey (key : Text) : List Text → List Text
  | [] => [key]
  | x :: xs => if key < x then x :: insertKey key xs else key :: x :: xs

def insertionSort (buf : List Text) : List Text :=
  (buf.foldl (fun sorted key => insertKey key sorted) []).reverse

/-- The output loop; an overflow returns with the array as it is then. -/
def writeTokens : List Text → Bool → ℕ → List Char → Bool × List Char
  | [], _, len, out => (true, writeAt out len [nul])
  | t :: tokens, first, len, out =>
    let piece := if first then t else ',' :: t
    if out.length < len + piece.length + 1 then (false, out)
    else writeTokens tokens false (len + piece.length) (writeAt out len piece)

def canonicalizeCsv (tokens : List (Option Text)) (out : List Char) : Bool × List Char :=
  if out = [] then (false, out)
  else
    let out := writeAt out 0 [nul]
    if tokens = [] then (true, out)
    else writeTokens (insertionSort (collectTokens tokens [])) true 0 out

end Mcrpc
