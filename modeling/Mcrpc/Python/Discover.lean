import Mcrpc.Python.Event
import Mcrpc.Python.Status
import Mathlib.Data.List.Dedup

/-!
# The discovery parser of the Python package

`parse_discover` of `discover.py`.
-/

namespace Mcrpc

def coreKeys : List Text :=
  ["profile".toList, "tag".toList, "fw".toList, "firmware".toList, "board".toList,
    "protocol".toList, "protocol_min".toList, "protocol_max".toList, "sdk".toList, "v".toList,
    "name".toList, "id".toList, "id_full".toList, "caps".toList, "features".toList,
    "uptime".toList, "up".toList, "auth".toList, "transport".toList, "vendor".toList]

structure ParsedDiscover (F : Type) where
  raw : Text
  device : Text := []
  profile : Option Text := none
  tag : Option Text := none
  identityId : Option Text := none
  board : Option Text := none
  firmware : Option Text := none
  protocol : Option Text := none
  protocolMin : Option Text := none
  protocolMax : Option Text := none
  sdk : Option Text := none
  wireVersion : Option Text := none
  uptime : Option (PyValue F) := none
  features : List (Text × Text) := []
  featureTokens : List Text := []
  capabilities : List Text := []
  fields : Dict Text Text := .empty
  parameters : List (Text × PyValue F) := []
  requestId : Option ℤ := none

/-- `a or b` -/
def orText : Option Text → Option Text → Option Text
  | some (c :: s), _ => some (c :: s)
  | _, b => b

/-- `sorted(set(xs))` -/
def sortedSet (xs : List Text) : List Text := xs.dedup.mergeSort (fun a b => !decide (b < a))

namespace Python

variable {F : Type} (py : Python F)

def canonicalizeCsvTokens (raw : Option Text) : List Text :=
  match raw with
  | none => []
  | some raw =>
    if raw = [] then []
    else
      sortedSet (((raw.splitOn ',').filter (fun p => strip p ≠ [])).map
        (fun p => py.lower (strip p)))

def addCapability (caps : List Text) (part : Text) : List Text :=
  let c := py.lower (strip part)
  if c ≠ [] ∧ c ∉ caps then caps ++ [c] else caps

theorem mem_addCapability (caps : List Text) (part : Text) {x : Text} :
    x ∈ py.addCapability caps part ↔
      x ∈ caps ∨ x ≠ [] ∧ x = py.lower (strip part) := by
  rw [addCapability]
  split_ifs with h
  · rw [List.mem_append, List.mem_singleton]
    exact or_congr_right (iff_and_self.mpr (fun heq => heq ▸ h.1))
  · refine (or_iff_left_of_imp ?_).symm
    rintro ⟨hne, rfl⟩
    by_contra hmem
    exact h ⟨hne, hmem⟩

theorem mem_foldl_addCapability (parts caps : List Text) {x : Text} :
    x ∈ parts.foldl py.addCapability caps ↔
      x ∈ caps ∨ x ≠ [] ∧ ∃ part ∈ parts, x = py.lower (strip part) := by
  induction parts generalizing caps with
  | nil => simp
  | cons part parts ih =>
    rw [List.foldl_cons, ih, mem_addCapability]
    simp only [List.exists_mem_cons_iff]
    tauto

def flagValues : List Text := ["yes".toList, "1".toList, "true".toList]

def capabilitiesOf (fields : Dict Text Text) (features : List (Text × Text)) : List Text :=
  let caps := (features.filter (fun e => py.lower e.2 ∈ flagValues)).map Prod.fst
  match fields.get "caps".toList with
  | none => caps
  | some csv =>
    if csv = [] then caps else sortedSet ((csv.splitOn ',').foldl py.addCapability caps)

def discoverOf (text : Text) (rid : Option ℤ) : List Text → ParsedDiscover F
  | [] => { raw := text, requestId := rid }
  | device :: tokens =>
    let fields := parseKvPairs tokens
    let params := py.coerceFields fields
    let param (key : Text) : Option (PyValue F) := (params.find? (fun e => e.1 = key)).map Prod.snd
    let features := fields.entries.filter (fun e => e.1 ∉ coreKeys)
    { raw := text
      device := device
      profile := fields.get "profile".toList
      tag := orText (fields.get "tag".toList) (fields.get "profile".toList)
      identityId := fields.get "id".toList
      board := fields.get "board".toList
      firmware := orText (fields.get "fw".toList) (fields.get "firmware".toList)
      protocol := fields.get "protocol".toList
      protocolMin := fields.get "protocol_min".toList
      protocolMax := fields.get "protocol_max".toList
      sdk := fields.get "sdk".toList
      wireVersion := orText (fields.get "v".toList) (fields.get "protocol".toList)
      uptime := (param "up".toList).or (param "uptime".toList)
      features := features
      featureTokens := py.canonicalizeCsvTokens (fields.get "features".toList)
      capabilities := py.capabilitiesOf fields features
      fields := fields
      parameters := params
      requestId := rid }

def parseDiscover (raw : Option Text) : Except PyError (ParsedDiscover F) := do
  let text := strip (raw.getD [])
  let (rid, tokens) ← py.takeRequestId (splitTokens text)
  return py.discoverOf text rid tokens

theorem parseDiscover_of_split {line device : Text} {tokens : List Text}
    (h : split line = device :: tokens) (hdevice : ∀ digits, device ≠ '#' :: digits) :
    py.parseDiscover (some line) = .ok (py.discoverOf (strip line) none (device :: tokens)) := by
  rw [parseDiscover, Option.getD_some, splitTokens_eq_split, split_strip, h,
    py.takeRequestId_of_ne hdevice]
  rfl

end Python
end Mcrpc
