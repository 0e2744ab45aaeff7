import Mcrpc.Python.Codec

/-!
# The status parser of the Python package

`parse_status` of `status.py`.
-/

namespace Mcrpc

structure ParsedStatus (F : Type) where
  raw : Text
  fields : Dict Text Text
  parameters : List (Text × PyValue F)
  requestId : Option ℤ

namespace Python

variable {F : Type} (py : Python F)

/-- A leading `#` token with digits is the request id. -/
def takeRequestId (tokens : List Text) : Except PyError (Option ℤ × List Text) :=
  match tokens with
  | ('#' :: digits) :: rest =>
    if py.isdigitStr digits then
      match py.int digits with
      | some n => .ok (some n, rest)
      | none => .error .valueError
    else .ok (none, tokens)
  | _ => .ok (none, tokens)

theorem takeRequestId_of_ne {token : Text} {rest : List Text} (h : ∀ digits, token ≠ '#' :: digits) :
    py.takeRequestId (token :: rest) = .ok (none, token :: rest) := by
  unfold takeRequestId
  split
  · next digits _ he => exact absurd (List.cons.inj he).1 (h digits)
  · rfl

theorem takeRequestId_of_isdigitStr {digits : Text} {rest : List Text} {n : ℤ}
    (hdigits : py.isdigitStr digits = true) (hint : py.int digits = some n) :
    py.takeRequestId (('#' :: digits) :: rest) = .ok (some n, rest) := by
  rw [takeRequestId, if_pos hdigits, hint]

theorem takeRequestId_of_not_isdigitStr {digits : Text} {rest : List Text}
    (hdigits : py.isdigitStr digits = false) :
    py.takeRequestId (('#' :: digits) :: rest) = .ok (none, ('#' :: digits) :: rest) := by
  rw [takeRequestId, hdigits]
  rfl

theorem takeRequestId_ok {tokens rest : List Text} {rid : Option ℤ}
    (h : py.takeRequestId tokens = .ok (rid, rest)) :
    (∃ digits n, tokens = ('#' :: digits) :: rest ∧ py.isdigitStr digits = true ∧
      py.int digits = some n ∧ rid = some n) ∨ rest = tokens ∧ rid = none := by
  unfold takeRequestId at h
  split at h
  · next digits tail =>
    split_ifs at h with hdigits
    · split at h
      · next n hint =>
        obtain ⟨rfl, rfl⟩ := Prod.mk.inj (Except.ok.inj h)
        exact .inl ⟨digits, n, rfl, hdigits, hint, rfl⟩
      · cases h
    · obtain ⟨rfl, rfl⟩ := Prod.mk.inj (Except.ok.inj h)
      exact .inr ⟨rfl, rfl⟩
  · obtain ⟨rfl, rfl⟩ := Prod.mk.inj (Except.ok.inj h)
    exact .inr ⟨rfl, rfl⟩

def parseStatus (raw : Option Text) : Except PyError (ParsedStatus F) := do
  let text := strip (raw.getD [])
  let (rid, tokens) ← py.takeRequestId (splitTokens text)
  let tokens :=
    match tokens with
    | head :: rest => if py.lower head = "status".toList then rest else tokens
    | [] => tokens
  let fields := parseKvPairs tokens
  return {
    raw := text
    fields := fields
    parameters := fields.entries.map (fun e => (e.1, py.coerceNumber e.2))
    requestId := rid }

/-- The parse of a line whose first token is the word `status`. -/
theorem parseStatus_status {line : Text} {tokens : List Text}
    (h : split line = "status".toList :: tokens) :
    py.parseStatus (some line) = .ok {
      raw := strip line
      fields := parseKvPairs tokens
      parameters := (parseKvPairs tokens).entries.map (fun e => (e.1, py.coerceNumber e.2))
      requestId := none } := by
  have hlower : py.lower "status".toList = "status".toList := by
    rw [py.lower_ascii _ (Scan.forall_of_all rfl)]
    decide
  rw [parseStatus, Option.getD_some, splitTokens_eq_split, split_strip, h]
  change Except.ok _ = _
  simp only [hlower, if_true]

end Python
end Mcrpc
