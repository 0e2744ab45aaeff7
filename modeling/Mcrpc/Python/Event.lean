import Mcrpc.Python.Codec

/-!
# The event parser of the Python package

`event.py`.
-/

namespace Mcrpc

structure ParsedEvent (F : Type) where
  name : Text
  raw : Text
  parameters : List (Text × PyValue F) := []
  fields : Dict Text Text := .empty

namespace Python

variable {F : Type} (py : Python F)

/-- `{k: coerce_number(v) for k, v in kv.items()}` -/
def coerceFields (kv : Dict Text Text) : List (Text × PyValue F) :=
  kv.entries.map (fun e => (e.1, py.coerceNumber e.2))

def isEventWord (token : Text) : Bool := py.lower token = "event".toList

def parseEvent (raw : Option Text) : Option (ParsedEvent F) :=
  let text := strip (raw.getD [])
  match splitTokens text with
  | [] => none
  | head :: rest =>
    if !py.isEventWord head then none
    else
      match rest with
      | [] => some { name := [], raw := text }
      | name :: tokens =>
        let kv := parseKvPairs tokens
        some { name := name, raw := text, parameters := py.coerceFields kv, fields := kv }

def isEventLine (raw : Option Text) : Bool := (splitTokens (raw.getD [])).head?.any py.isEventWord

theorem parseEvent_eq_none_iff (line : Text) : py.parseEvent (some line) = none ↔
    ∀ head ∈ (split line).head?, py.isEventWord head = false := by
  rw [parseEvent, Option.getD_some, splitTokens_eq_split, split_strip]
  cases split line with
  | nil => simp
  | cons head rest =>
    cases hw : py.isEventWord head with
    | true => cases rest <;> simp [hw]
    | false => simp [hw]

theorem isEventLine_iff (line : Text) :
    py.isEventLine (some line) = true ↔ py.parseEvent (some line) ≠ none := by
  rw [Ne, py.parseEvent_eq_none_iff, isEventLine, Option.getD_some, splitTokens_eq_split]
  cases split line with
  | nil => simp
  | cons head rest => simp

end Python
end Mcrpc
