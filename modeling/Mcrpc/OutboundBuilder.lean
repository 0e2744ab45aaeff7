import Mcrpc.Dispatcher

/-!
# Outbound lines

The request builders of `OutboundBuilder.h`. `request` looks at the result of its last `append` only
and `requestWithArgs` at those of the arguments; a piece that does not fit is left out.
-/

namespace Mcrpc
namespace OutboundBuilder

open Bounded

def idSize : ℕ := 16

/-- The block that prints the id, which `snprintf` cuts to `id[16]`. -/
def appendId (out : ReplyBuffer) (hasId : Bool) (requestId : UInt32) : ReplyBuffer :=
  if hasId then (out.append (('#' :: decimal requestId.toNat).take (idSize - 1))).2 else out

/-- A `none` is a null pointer. -/
def request (out : ReplyBuffer) (target command : Option Text) (hasId : Bool := false)
    (requestId : UInt32 := 0) : Bool × ReplyBuffer :=
  match target, command with
  | some target, some command =>
    ((appendId (out.clear.append target).2 hasId requestId).appendChar ' ').2.append command
  | _, _ => (false, out)

/-- The loop over `argv`. -/
def appendArgs : List (Option Text) → ReplyBuffer → Bool × ReplyBuffer
  | [], out => (true, out)
  | none :: argv, out => appendArgs argv out
  | some a :: argv, out =>
    match (out.appendChar ' ').2.append a with
    | (true, out) => appendArgs argv out
    | (false, out) => (false, out)

def requestWithArgs (out : ReplyBuffer) (target command : Option Text) (argv : List (Option Text))
    (hasId : Bool := false) (requestId : UInt32 := 0) : Bool × ReplyBuffer :=
  match request out target command hasId requestId with
  | (true, out) => appendArgs argv out
  | (false, out) => (false, out)

def event (out : ReplyBuffer) (name : Option Text) (kv : Option Text := none) :
    Bool × ReplyBuffer :=
  match name with
  | none => (false, out)
  | some name =>
    let out := ((out.clear.append "event ".toList).2.append name).2
    match kv with
    | some (c :: kv) => (true, ((out.appendChar ' ').2.append (c :: kv)).2)
    | _ => (true, out)

def error (out : ReplyBuffer) (code : Option Text) : Bool × ReplyBuffer :=
  (out.clear.append "err ".toList).2.append (code.getD "internal".toList)

def ok (out : ReplyBuffer) (detail : Option Text := none) : Bool × ReplyBuffer :=
  let out := (out.clear.append "ok".toList).2
  match detail with
  | some (c :: detail) => (true, ((out.appendChar ' ').2.append (c :: detail)).2)
  | _ => (true, out)

def hashId (id : Option UInt32) : Text := (id.map (fun n => '#' :: decimal n.toNat)).getD []

def argsTail (argv : List (Option Text)) : Text := (argv.filterMap id).flatMap (' ' :: ·)

def argPieces (argv : List (Option Text)) : List Text :=
  (argv.filterMap id).flatMap (fun a => [[' '], a])

def upToLast (argv : List (Option Text)) : List (Option Text) :=
  argv.rdropWhile (fun a => a.getD [] = [])

theorem length_hashId_le (id : Option UInt32) : (hashId id).length ≤ 11 := by
  cases id with
  | none => exact Nat.zero_le _
  | some n =>
    have := length_decimal_le n
    simp only [hashId, Option.map_some, Option.getD_some, List.length_cons]
    omega

theorem flatten_argPieces (argv : List (Option Text)) :
    (argPieces argv).flatten = argsTail argv := by
  rw [argPieces, argsTail, List.flatMap_def, List.flatten_flatten, List.map_map, List.flatMap_def]
  congr 1
  refine List.map_congr_left (fun a _ => ?_)
  simp

theorem argsTail_some (a : Text) (argv : List (Option Text)) :
    argsTail (some a :: argv) = ' ' :: (a ++ argsTail argv) := by
  simp [argsTail]

theorem text_appendId (b : ReplyBuffer) (hasId : Bool) (requestId : UInt32) :
    (appendId b hasId requestId).text =
      push (maxReply - 1) b.text (hashId (if hasId then some requestId else none)) := by
  cases hasId with
  | false => exact push_nil.symm
  | true =>
    have htake : ('#' :: decimal requestId.toNat).take (idSize - 1) = hashId (some requestId) :=
      List.take_of_length_le ((length_hashId_le (some requestId)).trans (by decide))
    rw [appendId, if_pos rfl, htake, ReplyBuffer.text_append_eq_push, if_pos rfl]

/-! ### The loop over the arguments -/

theorem appendArgs_cons (a : Text) (argv : List (Option Text)) (out : ReplyBuffer) :
    appendArgs (some a :: argv) out =
      if ((out.append [' ']).2.append a).1 then
        appendArgs argv ((out.append [' ']).2.append a).2
      else (false, ((out.append [' ']).2.append a).2) := by
  rw [appendArgs, ReplyBuffer.appendChar_eq_append]
  split <;> simp [*]

theorem upToLast_cons (a : Option Text) (argv : List (Option Text)) :
    upToLast (a :: argv) = if a.getD [] = [] ∧ upToLast argv = [] then [] else
      a :: upToLast argv := by
  rw [upToLast, Scan.rdropWhile_cons]
  exact if_congr (and_congr_left' decide_eq_true_iff) rfl rfl

/-- What is left of the arguments has no length only when nothing is left. -/
theorem length_argsTail_upToLast_eq_zero (argv : List (Option Text)) :
    (argsTail (upToLast argv)).length = 0 ↔ upToLast argv = [] := by
  refine ⟨fun h => ?_, fun h => by rw [h]; rfl⟩
  induction argv with
  | nil => rfl
  | cons a argv ih =>
    rw [upToLast_cons] at h ⊢
    split_ifs at h ⊢ with hempty
    · rfl
    · cases a with
      | none => exact absurd ⟨rfl, ih h⟩ hempty
      | some a =>
        rw [argsTail_some] at h
        cases h

theorem length_argsTail_upToLast_some (a : Text) (argv : List (Option Text)) :
    (argsTail (upToLast (some a :: argv))).length =
      if a.length = 0 ∧ (argsTail (upToLast argv)).length = 0 then 0
      else 1 + a.length + (argsTail (upToLast argv)).length := by
  rw [if_congr (and_congr List.length_eq_zero_iff (length_argsTail_upToLast_eq_zero argv)) rfl rfl,
    upToLast_cons, Option.getD_some]
  split
  · rfl
  · rw [argsTail_some, List.length_cons, List.length_append]
    omega

/-- Not every append is checked, but no argument that is not empty is left out. -/
theorem appendArgs_spec (argv : List (Option Text)) (out : ReplyBuffer) :
    ((appendArgs argv out).1 = true ↔
      out.text.length + (argsTail (upToLast argv)).length ≤ maxReply - 1) ∧
    ((appendArgs argv out).1 = true →
      (appendArgs argv out).2.text = pushAll (maxReply - 1) out.text (argPieces argv)) := by
  induction argv generalizing out with
  | nil => exact ⟨iff_of_true rfl out.length_text_le, fun _ => rfl⟩
  | cons a argv ih =>
    cases a with
    | none =>
      have htail : argsTail (upToLast (none :: argv)) = argsTail (upToLast argv) := by
        rw [upToLast_cons]
        split
        · next h => rw [h.2]
        · rfl
      rw [htail]
      exact ih out
    | some a =>
      have hlen := out.length_text_le
      have hblank := length_push (maxReply - 1) out.text [' ']
      rw [← ReplyBuffer.text_append_eq_push, List.length_singleton] at hblank
      rw [length_argsTail_upToLast_some, appendArgs_cons]
      by_cases hroom : (out.append [' ']).2.text.length + a.length ≤ maxReply - 1
      · obtain ⟨hiff, htext⟩ := ih ((out.append [' ']).2.append a).2
        rw [if_pos ((ReplyBuffer.append_fst_iff _ a).mpr hroom)]
        refine ⟨hiff.trans ?_, fun h => ?_⟩
        · rw [ReplyBuffer.text_append_eq_push, push_of_le hroom, List.length_append]
          split_ifs at hblank ⊢ <;> omega
        · rw [htext h, ReplyBuffer.text_append_eq_push, ReplyBuffer.text_append_eq_push]
          rfl
      · rw [if_neg (fun h => hroom ((ReplyBuffer.append_fst_iff _ a).mp h))]
        refine ⟨iff_of_false Bool.false_ne_true ?_, fun h => absurd h Bool.false_ne_true⟩
        split_ifs at hblank ⊢ <;> omega

/-! ### A request -/

/-- The command of a request is written as an argument is. -/
theorem request_eq (out : ReplyBuffer) (target command : Text) (hasId : Bool) (requestId : UInt32) :
    request out (some target) (some command) hasId requestId =
      appendArgs [some command] (appendId (out.clear.append target).2 hasId requestId) := by
  rw [appendArgs_cons, ← ReplyBuffer.appendChar_eq_append]
  change ReplyBuffer.append _ command = _
  generalize ((appendId (out.clear.append target).2 hasId requestId).appendChar ' ').2.append
    command = r
  obtain ⟨ok, reply⟩ := r
  cases ok <;> rfl

theorem requestWithArgs_eq (out : ReplyBuffer) (target command : Text) (argv : List (Option Text))
    (hasId : Bool) (requestId : UInt32) :
    requestWithArgs out (some target) (some command) argv hasId requestId =
      appendArgs (some command :: argv)
        (appendId (out.clear.append target).2 hasId requestId) := by
  rw [requestWithArgs, request, appendArgs, ReplyBuffer.appendChar_eq_append]

theorem text_head (out : ReplyBuffer) (target : Text) (hasId : Bool) (requestId : UInt32) :
    (appendId (out.clear.append target).2 hasId requestId).text =
      push (maxReply - 1) (push (maxReply - 1) [] target)
        (hashId (if hasId then some requestId else none)) := by
  rw [text_appendId, ReplyBuffer.text_append_eq_push, ReplyBuffer.text_clear]

/-- A request is reported as written when the head, as far as it was written, leaves room for the
command and the arguments up to the last that is not empty. -/
theorem requestWithArgs_spec (out : ReplyBuffer) (target command : Text)
    (argv : List (Option Text)) (hasId : Bool) (requestId : UInt32) :
    let id := hashId (if hasId then some requestId else none)
    let r := requestWithArgs out (some target) (some command) argv hasId requestId
    (r.1 = true ↔ (push (maxReply - 1) (push (maxReply - 1) [] target) id).length +
      (argsTail (upToLast (some command :: argv))).length ≤ maxReply - 1) ∧
    (r.1 = true → r.2.text =
      pushAll (maxReply - 1) [] (target :: id :: argPieces (some command :: argv))) := by
  intro id r
  have h := appendArgs_spec (some command :: argv)
    (appendId (out.clear.append target).2 hasId requestId)
  rw [text_head, ← requestWithArgs_eq] at h
  exact h

def requestLine (target command : Text) (argv : List (Option Text)) (id : Option UInt32) : Text :=
  target ++ (hashId id ++ argsTail (some command :: argv))

theorem flatten_requestLine (target command : Text) (argv : List (Option Text))
    (id : Option UInt32) :
    (target :: hashId id :: argPieces (some command :: argv)).flatten =
      requestLine target command argv id := by
  rw [List.flatten_cons, List.flatten_cons, flatten_argPieces, requestLine]

theorem upToLast_eq_self {argv : List (Option Text)} (h : ∀ a ∈ argv, a.getD [] ≠ []) :
    upToLast argv = argv := by
  rw [upToLast, List.rdropWhile_eq_self_iff]
  intro hne
  rw [decide_eq_true_eq]
  exact h _ (List.getLast_mem hne)

end OutboundBuilder
end Mcrpc
