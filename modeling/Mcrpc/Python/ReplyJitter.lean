import Mcrpc.Python.Builtins

/-!
# The reply stagger of the Python package

`reply_jitter.py`. An `int` that cannot be negative is a natural number; an identity is `none` where
it is `None`.
-/

namespace Mcrpc.Python

def broadcastMinMs : ℕ := 400

def broadcastMaxMs : ℕ := 3600

def addressedMaxMs : ℕ := 120

def slotCount : ℕ := 16

/-- One turn of the loop of `identity_hash`. -/
def hashByte (h : ℕ) (b : UInt8) : ℕ := (h ^^^ b.toNat) * 16777619 % 4294967296

/-- `identity_hash`; no character of the model is a surrogate, so none is ignored. -/
def identityHash (identity : Option Text) : ℕ :=
  ((identity.getD []).flatMap String.utf8EncodeChar).foldl hashByte 2166136261

def hexChars : Text := "0123456789abcdefABCDEF".toList

section Seed

variable {F : Type} (py : Python F)

def slotSeed (identity : Option Text) : Text :=
  let s := strip (identity.getD [])
  if 8 ≤ s.length ∧ s.all (· ∈ hexChars) then py.lower (s.take 8) else s

def needsBroadcastStagger (addressKind target : Option Text) : Bool :=
  py.lower (strip (addressKind.getD [])) = "all".toList ||
    py.lower (strip (target.getD [])) = "all".toList

def jitterSeed (identity : Option Text) : Text :=
  if py.slotSeed identity ≠ [] then py.slotSeed identity else identity.getD []

def delayMs (broadcast : Bool) (identity : Option Text) (entropy : ℤ) : ℕ :=
  -- `int(entropy) & 0xFFFF`
  let entropy := (entropy % 65536).toNat
  if !broadcast then
    if addressedMaxMs ≤ 0 then 0 else entropy % (addressedMaxMs + 1)
  else
    let slotWidth := (broadcastMaxMs - broadcastMinMs) / slotCount
    let slot := identityHash (some (py.jitterSeed identity)) % slotCount
    let within := if 0 < slotWidth ∧ entropy ≠ 0 then entropy % slotWidth else 0
    min broadcastMaxMs (broadcastMinMs + slot * slotWidth + within)

end Seed

end Mcrpc.Python
