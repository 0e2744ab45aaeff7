import Mathlib.Data.Nat.Notation

/-!
# Core types

The data model of `McRpcTypes.h`. A C string is the list of its characters before the terminating
NUL; `char` is `Char`, of which the wire carries the byte values. A fixed field `char x[n]` that is
only ever read as a string is that string, and `copyToken` is where the field's size cuts it.
-/

namespace Mcrpc

abbrev Text := List Char

instance decidableMemTexts (w : Text) (ws : List Text) : Decidable (w ∈ ws) := inferInstance

def maxArgs : ℕ := 8

def maxToken : ℕ := 72

def maxReply : ℕ := 192

def maxCommands : ℕ := 48

def maxFeatures : ℕ := 16

def maxCaps : ℕ := 24

inductive ParseResult
  | ok | empty | missingTarget | missingCommand | malformed
  deriving DecidableEq, Repr

inductive AddressKind
  | named | all | self | group | id
  deriving DecidableEq, Repr

/-- `memset(&out, 0, sizeof(out))` is the value with every default. -/
structure Request where
  addressKind : AddressKind := .named
  target : Text := []
  hasRequestId : Bool := false
  requestId : UInt32 := 0
  command : Text := []
  args : List Text := []
  deriving DecidableEq, Repr

def Request.argc (req : Request) : ℕ := req.args.length

/-- `if (c >= 'A' && c <= 'Z') c = (char)(c - 'A' + 'a')`, at every place that folds case. -/
def lower (s : Text) : Text := s.map Char.toLower

@[simp] theorem lower_nil : lower [] = [] := rfl

@[simp] theorem lower_cons (c : Char) (s : Text) : lower (c :: s) = c.toLower :: lower s := rfl

@[simp] theorem length_lower (s : Text) : (lower s).length = s.length := by simp [lower]

def ieq : Text → Text → Bool
  | a :: as, b :: bs => if a.toLower = b.toLower then ieq as bs else false
  | [], [] => true
  | _, _ => false

theorem ieq_iff (a b : Text) : ieq a b = true ↔ lower a = lower b := by
  induction a generalizing b with
  | nil => cases b <;> simp [ieq]
  | cons c a ih => cases b <;> simp [ieq, ih]

/-- `copyToken(dest, dest_size, src, n)` with `src` the `n` characters copied. -/
def copyToken (destSize : ℕ) (src : Text) : Text := src.take (destSize - 1)

theorem length_copyToken_lt (destSize : ℕ) (h : 0 < destSize) (src : Text) :
    (copyToken destSize src).length < destSize := by
  simp only [copyToken, List.length_take]
  omega

theorem copyToken_eq_self_iff (destSize : ℕ) (h : 0 < destSize) (src : Text) :
    copyToken destSize src = src ↔ src.length < destSize := by
  constructor
  · intro he
    rw [← he]
    exact length_copyToken_lt destSize h src
  · intro hlt
    exact List.take_of_length_le (by omega)

theorem copyToken_of_lt {destSize : ℕ} {src : Text} (h : src.length < destSize) :
    copyToken destSize src = src :=
  (copyToken_eq_self_iff destSize (by omega) src).mpr h

theorem copyToken_ne_nil {t : Text} (h : t ≠ []) : copyToken maxToken t ≠ [] := by
  rw [copyToken, ne_eq, List.take_eq_nil_iff, not_or]
  exact ⟨by decide, h⟩

end Mcrpc
