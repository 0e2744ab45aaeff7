import Mcrpc.Types
import Mathlib.Tactic.Common

/-!
# Command and capability registries

`CommandRegistry.cpp` and `CapabilityRegistry.cpp`: bounded tables searched without regard to case.
A handler is an element of `H`, the code a function pointer designates. The tables keep at most
their array's number of entries.
-/

namespace Mcrpc

structure CommandEntry (H : Type*) where
  name : Text
  handler : H
  help : Option Text := none

structure CommandRegistry (H : Type*) where
  entries : List (CommandEntry H)
  length_le : entries.length ≤ maxCommands

namespace CommandRegistry

variable {H : Type*}

def empty : CommandRegistry H := ⟨[], Nat.zero_le _⟩

def find (r : CommandRegistry H) (name : Text) : Option (CommandEntry H) :=
  r.entries.find? (fun e => ieq e.name name)

/-- Overwrites the handler and the help of the first entry of the name. -/
def replaceFirst (name : Text) (handler : H) (help : Option Text) :
    List (CommandEntry H) → List (CommandEntry H)
  | [] => []
  | e :: es =>
    if ieq e.name name then { e with handler := handler, help := help } :: es
    else e :: replaceFirst name handler help es

theorem length_replaceFirst (name : Text) (handler : H) (help : Option Text)
    (es : List (CommandEntry H)) : (replaceFirst name handler help es).length = es.length := by
  induction es with
  | nil => rfl
  | cons e es ih =>
    rw [replaceFirst]
    split
    · rfl
    · rw [List.length_cons, List.length_cons, ih]

/-- A full table refuses every name, also one it holds. -/
def registerCommand (r : CommandRegistry H) (name : Text) (handler : H)
    (help : Option Text := none) : Bool × CommandRegistry H :=
  if hfull : maxCommands ≤ r.entries.length then (false, r)
  else if r.entries.any (fun e => ieq e.name name) then
    (true, ⟨replaceFirst name handler help r.entries, by
      rw [length_replaceFirst]
      exact r.length_le⟩)
  else
    (true, ⟨r.entries ++ [{ name := name, handler := handler, help := help }], by
      rw [List.length_append, List.length_singleton]
      omega⟩)

def HandlersSatisfy (r : CommandRegistry H) (P : H → Prop) : Prop := ∀ e ∈ r.entries, P e.handler

theorem HandlersSatisfy.registerCommand {r : CommandRegistry H} {P : H → Prop}
    (hr : r.HandlersSatisfy P) (name : Text) {handler : H} (hhandler : P handler)
    (help : Option Text) : (r.registerCommand name handler help).2.HandlersSatisfy P := by
  have hreplace : ∀ es : List (CommandEntry H), (∀ e ∈ es, P e.handler) →
      ∀ e ∈ replaceFirst name handler help es, P e.handler := by
    intro es hes
    induction es with
    | nil => exact hes
    | cons e es ih =>
      obtain ⟨he, hes⟩ := List.forall_mem_cons.mp hes
      rw [replaceFirst]
      split
      · exact List.forall_mem_cons.mpr ⟨hhandler, hes⟩
      · exact List.forall_mem_cons.mpr ⟨he, ih hes⟩
  rw [CommandRegistry.registerCommand]
  split
  · exact hr
  · split
    · exact hreplace r.entries hr
    · exact List.forall_mem_append.mpr ⟨hr, List.forall_mem_singleton.mpr hhandler⟩

theorem HandlersSatisfy.find {r : CommandRegistry H} {P : H → Prop} (hr : r.HandlersSatisfy P)
    {name : Text} {entry : CommandEntry H} (h : r.find name = some entry) : P entry.handler :=
  hr entry (List.mem_of_find?_eq_some h)

end CommandRegistry

structure CapabilityRegistry where
  names : List Text
  length_le : names.length ≤ maxCaps

namespace CapabilityRegistry

def empty : CapabilityRegistry := ⟨[], Nat.zero_le _⟩

def registerCapability (r : CapabilityRegistry) (name : Text) : Bool × CapabilityRegistry :=
  if name = [] then (false, r)
  else if hfull : maxCaps ≤ r.names.length then (false, r)
  else if r.names.any (fun n => ieq n name) then (true, r)
  else
    (true, ⟨r.names ++ [name], by
      rw [List.length_append, List.length_singleton]
      omega⟩)

end CapabilityRegistry
end Mcrpc
