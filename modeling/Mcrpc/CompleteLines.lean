import Mcrpc.OutboundBuilder
import Mcrpc.Transport

/-!
# Complete lines

When a builder that reports success has written the complete line. `error` looks at the one append
that can fail. The others look at some of their appends or at none, so that a part in the middle is
left out when what follows it still has room.
-/

namespace Mcrpc

open Bounded OutboundBuilder

def Complete (line : Text) (r : Bool × ReplyBuffer) : Prop := r.1 = true → r.2.text = line

def optionalPart : Option Text → List Text
  | some (c :: s) => [[' '], c :: s]
  | _ => []

def eventLine (name : Text) (kv : Option Text) : Text :=
  "event ".toList ++ (name ++ (optionalPart kv).flatten)

def errorLine (code : Option Text) : Text := "err ".toList ++ code.getD "internal".toList

def okLine (detail : Option Text) : Text := "ok".toList ++ (optionalPart detail).flatten

/-- A part of a request is left out although success is reported: the target, the id, or the blanks
before empty arguments at the end. `needed` are the parts behind the id up to the last that is not
empty, `all` are all of them. -/
def LeavesOut (target id needed all : ℕ) : Prop :=
  191 < target ∧ id + needed ≤ 191 ∨
  target ≤ 191 ∧ 191 < target + id ∧ target + needed ≤ 191 ∨
  target + id + needed ≤ 191 ∧ 191 < target + id + all

def RequestLeavesOut (target : Text) (parts : List (Option Text)) (id : Option UInt32) : Prop :=
  LeavesOut target.length (hashId id).length (argsTail (upToLast parts)).length
    (argsTail parts).length

instance (target : Text) (parts : List (Option Text)) (id : Option UInt32) :
    Decidable (RequestLeavesOut target parts id) :=
  inferInstanceAs (Decidable (_ ∨ _ ∨ _))

theorem complete_requestWithArgs_iff (out : ReplyBuffer) (target command : Text)
    (argv : List (Option Text)) (hasId : Bool) (requestId : UInt32) :
    Complete (requestLine target command argv (if hasId then some requestId else none))
      (requestWithArgs out (some target) (some command) argv hasId requestId) ↔
      ¬ RequestLeavesOut target (some command :: argv) (if hasId then some requestId else none) := by
  obtain ⟨hok, htext⟩ := requestWithArgs_spec out target command argv hasId requestId
  generalize (if hasId then some requestId else none) = id at hok htext ⊢
  have hnil : ([] : Text).length ≤ maxReply - 1 := Nat.zero_le _
  have hwhole := pushAll_eq_iff (target :: hashId id :: argPieces (some command :: argv)) hnil
  rw [List.nil_append, flatten_requestLine] at hwhole
  have hcomplete : Complete (requestLine target command argv id)
      (requestWithArgs out (some target) (some command) argv hasId requestId) ↔
      ((requestWithArgs out (some target) (some command) argv hasId requestId).1 = true →
        (requestLine target command argv id).length ≤ 191) := by
    refine forall_congr' (fun h => ?_)
    rw [htext h, hwhole]
    exact iff_of_eq (congrArg (· ≤ 191) (Nat.zero_add _))
  have hid := length_hashId_le id
  have hsize : maxReply - 1 = 191 := rfl
  rw [hcomplete, hok, length_push, length_push, List.length_nil, Nat.zero_add, hsize, requestLine,
    List.length_append, List.length_append, RequestLeavesOut, LeavesOut]
  split_ifs <;> omega

theorem complete_request_iff (out : ReplyBuffer) (target command : Text) (hasId : Bool)
    (requestId : UInt32) :
    Complete (requestLine target command [] (if hasId then some requestId else none))
      (request out (some target) (some command) hasId requestId) ↔
      ¬ RequestLeavesOut target [some command] (if hasId then some requestId else none) := by
  rw [← complete_requestWithArgs_iff out, requestWithArgs_eq, request_eq]

/-! ### Lines with an optional part -/

/-- A line is written in pieces, and success is reported whatever happened to them. -/
theorem complete_pieces_iff {pieces : List Text} {r : Bool × ReplyBuffer} (hok : r.1 = true)
    (htext : r.2.text = pushAll (maxReply - 1) [] pieces) :
    Complete pieces.flatten r ↔ pieces.flatten.length ≤ 191 := by
  have hnil : ([] : Text).length ≤ maxReply - 1 := Nat.zero_le _
  rw [Complete, forall_prop_of_true hok, htext, ← List.nil_append pieces.flatten,
    pushAll_eq_iff pieces hnil, List.nil_append, List.length_nil, Nat.zero_add]
  rfl

theorem text_append_optional (b : ReplyBuffer) (c : Char) (s : Text) :
    ((b.appendChar ' ').2.append (c :: s)).2.text =
      pushAll (maxReply - 1) b.text (optionalPart (some (c :: s))) := by
  rw [ReplyBuffer.text_append_eq_push, ReplyBuffer.appendChar_eq_append,
    ReplyBuffer.text_append_eq_push]
  rfl

theorem event_spec (out : ReplyBuffer) (name : Text) (kv : Option Text) :
    (event out (some name) kv).1 = true ∧ (event out (some name) kv).2.text =
      pushAll (maxReply - 1) [] ("event ".toList :: name :: optionalPart kv) := by
  have hhead : ((out.clear.append "event ".toList).2.append name).2.text =
      pushAll (maxReply - 1) [] ["event ".toList, name] := by
    rw [ReplyBuffer.text_append_eq_push, ReplyBuffer.text_append_eq_push, ReplyBuffer.text_clear]
    rfl
  rcases kv with _ | _ | ⟨c, kv⟩
  · exact ⟨rfl, hhead⟩
  · exact ⟨rfl, hhead⟩
  · refine ⟨rfl, (text_append_optional _ c kv).trans ?_⟩
    rw [hhead]
    rfl

theorem ok_spec (out : ReplyBuffer) (detail : Option Text) :
    (OutboundBuilder.ok out detail).1 = true ∧ (OutboundBuilder.ok out detail).2.text =
      pushAll (maxReply - 1) [] ("ok".toList :: optionalPart detail) := by
  have hhead : (out.clear.append "ok".toList).2.text = pushAll (maxReply - 1) [] ["ok".toList] := by
    rw [ReplyBuffer.text_append_eq_push, ReplyBuffer.text_clear]
    rfl
  rcases detail with _ | _ | ⟨c, detail⟩
  · exact ⟨rfl, hhead⟩
  · exact ⟨rfl, hhead⟩
  · refine ⟨rfl, (text_append_optional _ c detail).trans ?_⟩
    rw [hhead]
    rfl

theorem complete_event_iff (out : ReplyBuffer) (name : Text) (kv : Option Text) :
    Complete (eventLine name kv) (event out (some name) kv) ↔ (eventLine name kv).length ≤ 191 := by
  obtain ⟨hok, htext⟩ := event_spec out name kv
  exact complete_pieces_iff hok htext

theorem complete_ok_iff (out : ReplyBuffer) (detail : Option Text) :
    Complete (okLine detail) (OutboundBuilder.ok out detail) ↔ (okLine detail).length ≤ 191 := by
  obtain ⟨hok, htext⟩ := ok_spec out detail
  exact complete_pieces_iff hok htext

theorem complete_error (out : ReplyBuffer) (code : Option Text) :
    Complete (errorLine code) (OutboundBuilder.error out code) := by
  have hword : (out.clear.append "err ".toList).2.text = "err ".toList := by
    rw [ReplyBuffer.text_append_eq_push, ReplyBuffer.text_clear]
    rfl
  intro h
  have hroom := (ReplyBuffer.append_fst_iff _ _).mp h
  rw [OutboundBuilder.error, ReplyBuffer.text_append_eq_push, push_of_le hroom, hword, errorLine]

/-! ### The event a node publishes -/

theorem eventBuffer_eq (name : Text) (kv : Option Text) :
    McRpc.eventBuffer name kv = (event .init (some name) kv).2 := by
  rcases kv with _ | _ | ⟨c, kv⟩ <;> rfl

theorem onEvent_iff {σ : Type} {cb : Callbacks σ} (hcb : cb.publishEx.isSome ∨ cb.publish.isSome)
    {name : Text} {kv : Option Text} (hnul : nul ∉ eventLine name kv) (w : σ) :
    (McRpc.onEvent cb.recorded name kv (w, [])).world.2.map Published.text =
      [eventLine name kv] ↔ (eventLine name kv).length ≤ 191 := by
  have hsent : (McRpc.onEvent cb.recorded name kv (w, [])).world.2 =
      [McRpc.sentAs cb (McRpc.eventBuffer name kv).cstr 0] :=
    McRpc.publishRaw_recorded hcb (McRpc.cstr_eventBuffer_ne_nil name kv) 0 (w, [])
  rw [hsent, List.map_singleton, List.singleton_inj]
  change (McRpc.eventBuffer name kv).cstr = _ ↔ _
  constructor
  · intro h
    rw [← h]
    exact Nat.le_of_lt_succ (ReplyBuffer.length_cstr_lt _)
  · intro h
    have htext : (McRpc.eventBuffer name kv).text = eventLine name kv := by
      rw [eventBuffer_eq]
      exact (complete_event_iff .init name kv).mpr h (event_spec .init name kv).1
    exact ReplyBuffer.cstr_of_text _ htext hnul

/-- A builder reports success for the complete line only, unless it leaves a part out: `request`
and `requestWithArgs` leave one out when the rest has room, `event`, `ok` and the event of a node
when the line has none. `error` never does. -/
theorem builders_complete_iff {σ : Type} {cb : Callbacks σ}
    (hcb : cb.publishEx.isSome ∨ cb.publish.isSome) (out : ReplyBuffer) (target command : Text)
    (argv : List (Option Text)) (hasId : Bool) (requestId : UInt32) (name : Text)
    (kv : Option Text) (hnul : nul ∉ eventLine name kv) (code detail : Option Text) (w : σ) :
    let id := if hasId then some requestId else none
    (Complete (requestLine target command [] id)
        (request out (some target) (some command) hasId requestId) ↔
      ¬ RequestLeavesOut target [some command] id) ∧
    (Complete (requestLine target command argv id)
        (requestWithArgs out (some target) (some command) argv hasId requestId) ↔
      ¬ RequestLeavesOut target (some command :: argv) id) ∧
    (Complete (eventLine name kv) (event out (some name) kv) ↔
      (eventLine name kv).length ≤ 191) ∧
    Complete (errorLine code) (OutboundBuilder.error out code) ∧
    (Complete (okLine detail) (OutboundBuilder.ok out detail) ↔ (okLine detail).length ≤ 191) ∧
    ((McRpc.onEvent cb.recorded name kv (w, [])).world.2.map Published.text =
      [eventLine name kv] ↔ (eventLine name kv).length ≤ 191) :=
  ⟨complete_request_iff out target command hasId requestId,
    complete_requestWithArgs_iff out target command argv hasId requestId,
    complete_event_iff out name kv, complete_error out code, complete_ok_iff out detail,
    onEvent_iff hcb hnul w⟩

def publishing : Callbacks Unit := { publish := some (fun _ w => (true, w)) }

theorem builders_complete_iff_ping :
    Complete (requestLine "node1".toList "ping".toList [] (some 7))
      (request .init (some "node1".toList) (some "ping".toList) true 7) ∧
    Complete (requestLine "node1".toList "ping".toList [some "a".toList, none, some []] (some 7))
      (requestWithArgs .init (some "node1".toList) (some "ping".toList)
        [some "a".toList, none, some []] true 7) ∧
    Complete (eventLine "boot".toList none) (event .init (some "boot".toList)) ∧
    Complete (errorLine none) (OutboundBuilder.error .init none) ∧
    Complete (okLine none) (OutboundBuilder.ok .init) ∧
    (McRpc.onEvent publishing.recorded "boot".toList none ((), [])).world.2.map Published.text =
      [eventLine "boot".toList none] := by
  obtain ⟨hrequest, hargs, hevent, herror, hok, hsent⟩ :=
    builders_complete_iff (show publishing.publishEx.isSome ∨ publishing.publish.isSome from
      .inr rfl) .init "node1".toList "ping".toList [some "a".toList, none, some []] true 7
      "boot".toList none (by decide) none none ()
  exact ⟨hrequest.mpr (by decide), hargs.mpr (by decide), hevent.mpr (by decide), herror,
    hok.mpr (by decide), hsent.mpr (by decide)⟩

/-- A target of 192 bytes vanishes from a request, a name of 186 bytes from an event. -/
theorem request_without_target :
    (request .init (some (List.replicate 192 'a')) (some "ping".toList)).1 = true ∧
    (request .init (some (List.replicate 192 'a')) (some "ping".toList)).2.text =
      " ping".toList ∧
    ¬ Complete (requestLine (List.replicate 192 'a') "ping".toList [] none)
      (request .init (some (List.replicate 192 'a')) (some "ping".toList)) ∧
    (McRpc.onEvent publishing.recorded (List.replicate 186 'a') (some "x=1".toList)
      ((), [])).world.2.map Published.text = ["event  x=1".toList] := by
  have hline : (request .init (some (List.replicate 192 'a')) (some "ping".toList)).1 = true ∧
      (request .init (some (List.replicate 192 'a')) (some "ping".toList)).2.text =
        " ping".toList := by decide +kernel
  refine ⟨hline.1, hline.2, fun h => ?_, by decide +kernel⟩
  have hlost := h hline.1
  rw [hline.2] at hlost
  cases hlost

end Mcrpc
