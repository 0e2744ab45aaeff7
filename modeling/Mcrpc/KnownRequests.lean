import Mcrpc.ResponseRecognition
import Mcrpc.WireRoundTrip

/-!
# Requests left to the host

A request with a known command that another node sends is classified as `other`, whatever its
arguments look like and whatever is pending. The test for a request comes before the message is read
as a response.
-/

namespace Mcrpc

open Scan OutboundBuilder

namespace Target

theorem graph_of_mem_text (t : Target) {c : Char} (hc : c ∈ t.text) :
    33 ≤ c.toNat ∧ c.toNat < 127 := by
  have hident {c : Char} (h : isIdentChar c = true) : 33 ≤ c.toNat ∧ c.toNat < 127 := by
    have := isIdentChar_iff.mp h
    omega
  cases t with
  | named w _ _ => exact hident (w.all c hc)
  | all w _ => exact hident (w.all c hc)
  | self w _ => exact hident (w.all c hc)
  | group upper w =>
    rcases List.mem_append.mp hc with hc | hc
    · have hall : (groupKeyword upper).all (fun c => 33 ≤ c.toNat && c.toNat < 127) = true := by
        cases upper <;> rfl
      simpa using List.all_eq_true.mp hall c hc
    · exact hident (w.all c hc)
  | id hex =>
    rcases List.mem_cons.mp hc with rfl | hc
    · decide
    · exact hident (isIdentChar_of_isHexChar (hex.all c hc))

end Target

theorem graph_of_mem_hashId {n : Option UInt32} {c : Char} (hc : c ∈ hashId n) :
    33 ≤ c.toNat ∧ c.toNat < 127 := by
  cases n with
  | none => cases hc
  | some n =>
    rcases List.mem_cons.mp hc with rfl | hc
    · decide
    · have := isDigit_iff.mp (isDigit_of_mem_decimal hc)
      omega

section Request

variable {F V T : Type} [Truthy V] {py : Python F} {t : Target} {n : Option UInt32} {w : Ident}

def requestText (t : Target) (n : Option UInt32) (w : Ident) (args : List (Option Text)) : Text :=
  t.text ++ (hashId n ++ ' ' :: (w.chars ++ argumentTail args))

theorem buildRequest_eq (t : Target) (n : Option UInt32) (w : Ident) (args : List (Option Text)) :
    buildRequest t.text w.chars (n.map (fun n => (n.toNat : ℤ))) args =
      .ok (requestText t n w args) := by
  cases n with
  | none => exact buildRequest_none (target_ne_nil t) w.ne_nil args
  | some n =>
    exact buildRequest_some (target_ne_nil t) w.ne_nil
      ((length_decimal_le n).trans (by decide)) args

theorem firstWord_requestText (args : List (Option Text)) :
    firstWord (requestText t n w args) = some (t.text ++ hashId n) := by
  have hne : t.text ++ hashId n ≠ [] := fun hnil =>
    target_ne_nil t (List.append_eq_nil_iff.mp hnil).1
  have hword : ∀ c ∈ t.text ++ hashId n, isSpace c = false := by
    intro c hc
    have hgraph := (List.mem_append.mp hc).elim t.graph_of_mem_text graph_of_mem_hashId
    rw [← Bool.not_eq_true, isSpace_iff]
    omega
  have hsplit := firstWord_append nil_space hne hword
    (stops_cons.mpr rfl : Stops (fun c => !isSpace c) (' ' :: (w.chars ++ argumentTail args)))
  rwa [List.nil_append, List.append_assoc] at hsplit

/-- The first word of a request names an event only when its target does. -/
theorem isEventWord_target (py : Python F) (ht : lower t.text ≠ "event".toList)
    (n : Option UInt32) : py.isEventWord (t.text ++ hashId n) = false := by
  have hascii : ∀ c ∈ t.text ++ hashId n, c.toNat < 128 := fun c hc => by
    have hgraph := (List.mem_append.mp hc).elim t.graph_of_mem_text graph_of_mem_hashId
    omega
  rw [Python.isEventWord, py.lower_ascii _ hascii, decide_eq_false_iff_not]
  intro he
  cases n with
  | none =>
    rw [hashId, Option.map_none, Option.getD_none, List.append_nil] at he
    exact ht he
  | some n =>
    have hhash : '#' ∈ lower (t.text ++ hashId (some n)) :=
      List.mem_map.mpr ⟨'#', List.mem_append_right _ List.mem_cons_self, rfl⟩
    rw [he] at hhash
    exact absurd hhash (by decide)

theorem looksLikeRequest_requestText (hpy : py.Regular) (t : Target) (n : Option UInt32)
    (w : Ident) (args : List (Option Text)) :
    RequestCorrelator.looksLikeRequest py (requestText t n w args) =
      .ok (decide (lower w.chars ∈ requestCommands)) := by
  have hstop : Stops py.isIdentChar (argumentTail args) := by
    rw [argumentTail]
    split
    · exact stops_nil
    · exact py.stops_isIdentChar (by decide) rfl _
  have hdigits : ∀ i ∈ (plainLine t n w []).id, i.digits.chars.length ≤ 4300 := by
    intro i hi
    obtain ⟨m, -, rfl⟩ := Option.map_eq_some_iff.mp hi
    exact (length_decimal_le m).trans (by decide)
  have hlooks := RequestCorrelator.looksLikeRequest_head hpy t (plainLine t n w []).id oneBlank w
    hstop hdigits
  rwa [idText_plain] at hlooks

/-- A request with a known command from another node is left to the host, with the pending requests
as they were. -/
theorem classifyInbound_knownRequest (hpy : py.Regular) (ht : lower t.text ≠ "event".toList)
    (hw : lower w.chars ∈ requestCommands) (n : Option UInt32) (args : List (Option Text))
    {sender : Text} (hsender : ':' ∉ sender) :
    ∃ line, buildRequest t.text w.chars (n.map (fun n => (n.toNat : ℤ))) args = .ok line ∧
      ∀ (c : RequestCorrelator V T) (consume : Bool),
        c.classifyInbound py (sender ++ ':' :: ' ' :: line) consume =
          (.ok { kind := .other }, c) := by
  refine ⟨requestText t n w args, buildRequest_eq t n w args, fun c consume => ?_⟩
  have hstop : Stops isBlank (requestText t n w args) := by
    obtain ⟨c, v, hv, hc⟩ := t.exists_text_cons
    rw [requestText, hv]
    exact stops_cons.mpr (not_isBlank_of_isTokenChar hc)
  have hbody := Python.stripSenderPrefix_append hsender hstop
  have hevent : py.parseEvent (some (requestText t n w args)) = none := by
    rw [py.parseEvent_eq_none_iff]
    intro head hhead
    change head ∈ firstWord (requestText t n w args) at hhead
    rw [firstWord_requestText, Option.mem_def, Option.some.injEq] at hhead
    rw [← hhead, isEventWord_target py ht n]
  simp only [RequestCorrelator.classifyInbound, hbody, hevent,
    looksLikeRequest_requestText hpy t n w args, hw, decide_true]

/-- A call with a field, under the id of a request that is pending. -/
theorem classifyInbound_knownRequest_call : ∃ line,
    buildRequest (Target.named (.word "ha".toList)).text (Run.word "CALL".toList : Ident).chars
        ((some 42 : Option UInt32).map (fun n => (n.toNat : ℤ)))
        [some "light.on".toList, none, some "entity=lamp: 1".toList] = .ok line ∧
      ∀ (c : RequestCorrelator Bool ℕ) (consume : Bool),
        c.classifyInbound Python.ascii ("node1".toList ++ ':' :: ' ' :: line) consume =
          (.ok { kind := .other }, c) :=
  classifyInbound_knownRequest Python.ascii_regular (by decide) (by decide) (some 42) _ (by decide)

end Request
end Mcrpc
