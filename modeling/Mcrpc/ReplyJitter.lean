import Mcrpc.UptimeFormat

/-!
# Reply stagger

`ReplyJitter.h`. The hash is 32-bit arithmetic; the delays stay far below the word size and are
natural numbers.
-/

namespace Mcrpc.ReplyJitter

def broadcastMinMs : ℕ := 400

def broadcastMaxMs : ℕ := 3600

def addressedMaxMs : ℕ := 120

def slotCount : ℕ := 16

def needsBroadcastStagger (kind : AddressKind) : Bool := kind = .all

def identityHash (identity : Text) : UInt32 :=
  identity.foldl (fun h c => (h ^^^ UInt32.ofNat c.toNat) * 16777619) 2166136261

def isHex (c : Char) : Bool :=
  ('0' ≤ c && c ≤ '9') || ('a' ≤ c && c ≤ 'f') || ('A' ≤ c && c ≤ 'F')

/-- The loop stops at the first character that is no hex digit and after 64 characters. -/
def slotSeed (identity : Text) : Text :=
  if (identity.take 64).all isHex && 8 ≤ (identity.take 64).length then
    (identity.take 8).map lowerHex
  else identity

def delayMs (broadcast : Bool) (identity : Text) (entropy : UInt16) : ℕ :=
  if !broadcast then entropy.toNat % (addressedMaxMs + 1)
  else
    let slotWidth := (broadcastMaxMs - broadcastMinMs) / slotCount
    let slot := (identityHash (slotSeed identity)).toNat % slotCount
    let within := if 0 < slotWidth ∧ entropy ≠ 0 then entropy.toNat % slotWidth else 0
    min (broadcastMinMs + slot * slotWidth + within) broadcastMaxMs

def delayMsFor (req : Request) (identity : Text) (entropy : UInt16) : ℕ :=
  delayMs (needsBroadcastStagger req.addressKind) identity entropy

end Mcrpc.ReplyJitter
