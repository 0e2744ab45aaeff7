import Mcrpc.Types
import Mathlib.Tactic.Common

/-!
# The event bus

`EventBus.cpp`: a bounded list of subscribers. A subscriber is the pair of its handler and context,
an element of `Sub`.
-/

namespace Mcrpc

def maxEventSubs : ℕ := 8

structure EventBus (Sub : Type*) where
  subs : List Sub
  length_le : subs.length ≤ maxEventSubs

namespace EventBus

variable {Sub σ : Type*}

def empty : EventBus Sub := ⟨[], Nat.zero_le _⟩

def subscribe (bus : EventBus Sub) (sub : Sub) : Bool × EventBus Sub :=
  if h : maxEventSubs ≤ bus.subs.length then (false, bus)
  else (true, ⟨bus.subs ++ [sub], by
    rw [List.length_append, List.length_singleton]
    omega⟩)

/-- `deliver` calls the handler of a subscriber; a `none` is a null pointer. -/
def publish (bus : EventBus Sub) (deliver : Sub → Text → Option Text → σ → σ)
    (eventName kv : Option Text) (w : σ) : Bool × σ :=
  match eventName with
  | none => (false, w)
  | some name =>
    if name = [] then (false, w)
    else bus.subs.foldl (fun r sub => (true, deliver sub name kv r.2)) (false, w)

def clear (_ : EventBus Sub) : EventBus Sub := empty

theorem publish_some (bus : EventBus Sub) (deliver : Sub → Text → Option Text → σ → σ)
    {name : Text} (h : name ≠ []) (kv : Option Text) (w : σ) :
    bus.publish deliver (some name) kv w =
      (decide (bus.subs ≠ []), bus.subs.foldl (fun w sub => deliver sub name kv w) w) := by
  have hloop (subs : List Sub) (any : Bool) (w : σ) :
      subs.foldl (fun r sub => (true, deliver sub name kv r.2)) (any, w) =
        (any || decide (subs ≠ []), subs.foldl (fun w sub => deliver sub name kv w) w) := by
    induction subs generalizing any w with
    | nil => simp
    | cons sub subs ih =>
      rw [List.foldl_cons, ih, List.foldl_cons]
      simp
  rw [publish, if_neg h, hloop, Bool.false_or]

end EventBus
end Mcrpc
