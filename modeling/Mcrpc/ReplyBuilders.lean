import Mcrpc.CompleteLines
import Mcrpc.ReplyLine
import Mcrpc.Python.Builder

/-!
# The lines of the reply builders

`build_ok`, `build_error` and `prefix_request_id` of `builder.py` and the two reply builders of
`OutboundBuilder.h`, against `parse_response`. A code or detail is any text, of which the parser
keeps the words. A text without room is dropped by the firmware, so that the reader finds the reply
without one.
-/

namespace Mcrpc

open Bounded

inductive BuiltReply
  | error (code : Option Text)
  | ok (detail : Option Text)

namespace BuiltReply

def text : BuiltReply → Option Text
  | error code => code
  | ok detail => detail

def build : BuiltReply → Text
  | error code => buildError code
  | ok detail => buildOk detail

def write (out : ReplyBuffer) : BuiltReply → Bool × ReplyBuffer
  | error code => OutboundBuilder.error out code
  | ok detail => OutboundBuilder.ok out detail

def line : BuiltReply → Text
  | error code => errorLine code
  | ok detail => okLine detail

def bare : BuiltReply → BuiltReply
  | error _ => error none
  | ok _ => ok none

variable {F : Type} (py : Python F)

def response (raw : Text) (rid : Option ℤ) (r : BuiltReply) : ParsedResponse F :=
  let words := split (r.text.getD [])
  let kv := parseKvPairs words
  let stated (kind : ResponseKind) : ParsedResponse F :=
    { kind := kind, raw := raw, requestId := rid, parameters := py.coerceFields kv, fields := kv }
  match r with
  | error _ => { stated .error with errorCode := some (words.headD "internal".toList) }
  | ok _ => { stated .ok with okDetail := if words = [] then none else some (join [' '] words) }

theorem requestId_response (raw : Text) (rid : Option ℤ) (r : BuiltReply) :
    (r.response py raw rid).requestId = rid := by
  cases r <;> rfl

/-! ### What is read of a line -/

/-- A line that says what the answer says: its head, and the words of its text behind it, or the
code that stands for none. -/
inductive States : List Text → BuiltReply → Prop
  | error (code : Option Text) : States ("err".toList :: split (code.getD [])) (error code)
  | internal (code : Option Text) : split (code.getD []) = [] →
      States ["err".toList, "internal".toList] (error code)
  | ok (detail : Option Text) : States ("ok".toList :: split (detail.getD [])) (ok detail)

theorem States.responseOf {tokens : List Text} {r : BuiltReply} (h : States tokens r) (raw : Text)
    (rid : Option ℤ) : py.responseOf raw rid tokens = r.response py raw rid := by
  have herr : py.lower "err".toList = "err".toList :=
    py.lower_ascii "err".toList (Scan.forall_of_all rfl)
  have hok : py.lower "ok".toList = "ok".toList :=
    py.lower_ascii "ok".toList (Scan.forall_of_all rfl)
  cases h with
  | error code =>
    rw [Python.responseOf, herr]
    rfl
  | internal code hwords =>
    have hkv : parseKvPairs ["internal".toList] = parseKvPairs (split (code.getD [])) := by
      rw [hwords]
      rfl
    rw [Python.responseOf, herr, response, text, hkv, hwords]
    rfl
  | ok detail =>
    rw [Python.responseOf, hok]
    rfl

theorem States.exists_cons {tokens : List Text} {r : BuiltReply} (h : States tokens r) :
    ∃ token rest, tokens = token :: rest ∧ ∀ digits, token ≠ '#' :: digits := by
  cases h with
  | error | internal => exact ⟨_, _, rfl, fun _ he => by cases he⟩
  | ok => exact ⟨_, _, rfl, fun _ he => by cases he⟩

theorem States.parseResponse {line : Text} {r : BuiltReply} (h : States (split line) r) :
    py.parseResponse (some line) = .ok (r.response py (strip line) none) := by
  obtain ⟨token, rest, htokens, hhash⟩ := h.exists_cons
  rw [← h.responseOf py]
  apply py.parseResponse_of_eq
  rw [htokens]
  exact py.takeRequestId_of_ne hhash

theorem split_err (s : Text) : split ("err ".toList ++ s) = "err".toList :: split s :=
  Words.words_append_cons (s := "err".toList) (t := s) rfl

theorem split_ok (s : Text) : split ("ok ".toList ++ s) = "ok".toList :: split s :=
  Words.words_append_cons (s := "ok".toList) (t := s) rfl

theorem states_build (r : BuiltReply) : States (split r.build) r := by
  rcases r with (_ | _ | ⟨c, s⟩) | (_ | _ | ⟨c, s⟩)
  · exact .internal none rfl
  · exact .internal (some []) rfl
  · exact (split_err (c :: s)).symm ▸ .error (some (c :: s))
  · exact .ok none
  · exact .ok (some [])
  · exact (split_ok (c :: s)).symm ▸ .ok (some (c :: s))

theorem states_line (r : BuiltReply) : States (split r.line) r := by
  rcases r with (_ | s) | (_ | _ | ⟨c, s⟩)
  · exact .internal none rfl
  · exact (split_err s).symm ▸ .error (some s)
  · exact .ok none
  · exact .ok (some [])
  · change States (split ("ok ".toList ++ (c :: s ++ []))) _
    rw [List.append_nil, split_ok]
    exact .ok (some (c :: s))

/-- The firmware puts the text behind a head that states the answer without one, and reports it
when a text without room is a code. -/
theorem write_eq_push (out : ReplyBuffer) (r : BuiltReply) : ∃ head s, r.line = head ++ s ∧
    (r.write out).2.text = push (maxReply - 1) head s ∧ States (split head) r.bare ∧
    ((r.write out).1 = false ↔ (∃ code, r = error code) ∧ 191 < r.line.length) := by
  cases r with
  | error code =>
    have hhead : (out.clear.append "err ".toList).2.text = "err ".toList := by
      rw [ReplyBuffer.text_append_eq_push, ReplyBuffer.text_clear]
      rfl
    refine ⟨"err ".toList, code.getD "internal".toList, rfl, ?_, .error none, ?_⟩
    · rw [write, OutboundBuilder.error, ReplyBuffer.text_append_eq_push, hhead]
    · rw [write, OutboundBuilder.error, ← Bool.not_eq_true, ReplyBuffer.append_fst_iff, hhead,
        Nat.not_le, line, errorLine, List.length_append]
      exact ⟨fun h => ⟨⟨code, rfl⟩, h⟩, fun h => h.2⟩
  | ok detail =>
    obtain ⟨htrue, htext⟩ := ok_spec out detail
    have hfst : ((OutboundBuilder.ok out detail).1 = false ↔
        (∃ code, ok detail = error code) ∧ 191 < (ok detail).line.length) := by
      rw [htrue]
      constructor
      · intro h
        cases h
      · rintro ⟨⟨_, h⟩, -⟩
        cases h
    rcases detail with _ | _ | ⟨c, s⟩
    · exact ⟨"ok".toList, [], rfl, htext.trans push_nil.symm, .ok none, hfst⟩
    · exact ⟨"ok".toList, [], rfl, htext.trans push_nil.symm, .ok none, hfst⟩
    · refine ⟨"ok ".toList, c :: s, ?_, htext, .ok none, hfst⟩
      change "ok ".toList ++ (c :: s ++ []) = _
      rw [List.append_nil]

/-- What is written of an answer without room states it without a text. -/
theorem states_write (out : ReplyBuffer) (r : BuiltReply) :
    States (split (r.write out).2.text) (if r.line.length ≤ 191 then r else r.bare) := by
  obtain ⟨head, s, hline, htext, hbare, -⟩ := r.write_eq_push out
  have hlen : r.line.length = head.length + s.length := by rw [hline, List.length_append]
  have hsize : maxReply - 1 = 191 := rfl
  rw [htext, push, hlen, hsize]
  split
  · rw [← hline]
    exact r.states_line
  · exact hbare

/-! ### The id before the line -/

theorem split_hash_intText (n : ℤ) (s : Text) :
    split ('#' :: (intText n ++ ' ' :: s)) = ('#' :: intText n) :: split s := by
  have hdecimal : ∀ c ∈ decimal n.natAbs, isSpace c = false := by
    intro c hc
    have hdigit := isDigit_iff.mp (isDigit_of_mem_decimal hc)
    rw [← Bool.not_eq_true, isSpace_iff]
    omega
  have hword : ∀ c ∈ '#' :: intText n, isSpace c = false := by
    rw [intText]
    split
    · exact List.forall_mem_cons.mpr ⟨rfl, List.forall_mem_cons.mpr ⟨rfl, hdecimal⟩⟩
    · exact List.forall_mem_cons.mpr ⟨rfl, hdecimal⟩
  have hone : split ('#' :: intText n) = ['#' :: intText n] :=
    Words.words_eq_singleton (List.cons_ne_nil _ _) hword
  rw [← List.cons_append, split, Words.words_append_cons rfl]
  exact congrArg (· ++ split s) hone

/-- The id is read back when it is not negative, and else the reply is not recognised. -/
theorem States.parseResponse_prefix {body : Text} {r : BuiltReply} (h : States (split body) r)
    {n : ℤ} (hdigits : (decimal n.natAbs).length ≤ 4300) :
    ∃ line resp, prefixRequestId body (some n) = .ok line ∧
      py.parseResponse (some line) = .ok resp ∧
      (0 ≤ n → resp = r.response py (strip line) (some n)) ∧
      (n < 0 → resp.requestId = none) := by
  have hline : prefixRequestId body (some n) = .ok ('#' :: (intText n ++ ' ' :: body)) := by
    rw [prefixRequestId, pyStr, if_pos hdigits]
    rfl
  have hsplit := split_hash_intText n body
  rcases Int.lt_or_le n 0 with hneg | hnonneg
  · have hnot : py.isdigitStr (intText n) = false := by
      rw [intText, if_pos hneg, Python.isdigitStr, List.all_cons, py.isdigit_ascii '-' (by decide)]
      rfl
    have htake : py.takeRequestId (('#' :: intText n) :: split body) =
        .ok (none, ('#' :: intText n) :: split body) := py.takeRequestId_of_not_isdigitStr hnot
    rw [← hsplit] at htake
    exact ⟨_, _, hline, py.parseResponse_of_eq htake, fun h => absurd hneg (Int.not_lt.mpr h),
      fun _ => py.requestId_responseOf _ _ _⟩
  · obtain ⟨m, rfl⟩ := Int.eq_ofNat_of_zero_le hnonneg
    have htake := py.takeRequestId_decimal hdigits (split body)
    rw [Int.natAbs_natCast, ← intText_natCast, ← hsplit] at htake
    exact ⟨_, _, hline, py.parseResponse_of_eq htake, fun _ => h.responseOf py _ _,
      fun h => absurd h (Int.not_lt.mpr hnonneg)⟩

/-- The reply builders of both languages are read as the answers they are given, in Python with the
id in front unless it is negative, in the firmware without a text that has no room. -/
theorem builders_read (r : BuiltReply) (hnul : nul ∉ r.line) (out : ReplyBuffer) (n : ℤ) :
    py.parseResponse (some r.build) = .ok (r.response py (strip r.build) none) ∧
      (4300 < (decimal n.natAbs).length →
        prefixRequestId r.build (some n) = .error .valueError) ∧
      ((decimal n.natAbs).length ≤ 4300 → ∃ line resp,
        prefixRequestId r.build (some n) = .ok line ∧ py.parseResponse (some line) = .ok resp ∧
        (0 ≤ n → resp = r.response py (strip line) (some n)) ∧
        (n < 0 → resp.requestId = none)) ∧
      py.parseResponse (some (r.write out).2.cstr) =
        .ok ((if r.line.length ≤ 191 then r else r.bare).response py
          (strip (r.write out).2.cstr) none) ∧
      ((r.write out).1 = false ↔ (∃ code, r = error code) ∧ 191 < r.line.length) := by
  obtain ⟨head, s, hline, htext, -, hfst⟩ := r.write_eq_push out
  have hcstr : (r.write out).2.cstr = (r.write out).2.text := by
    apply ReplyBuffer.cstr_of_text _ rfl
    rw [hline, List.mem_append, not_or] at hnul
    rw [htext, push]
    split
    · exact List.not_mem_append hnul.1 hnul.2
    · exact hnul.1
  have hwrite := r.states_write out
  rw [← hcstr] at hwrite
  refine ⟨r.states_build.parseResponse py, ?_, r.states_build.parseResponse_prefix py,
    hwrite.parseResponse py, hfst⟩
  intro hdigits
  rw [prefixRequestId, pyStr, if_neg (Nat.not_le.mpr hdigits)]
  rfl

/-- Of a code of two words the first is kept. -/
theorem builders_read_relay :
    (∃ line resp, prefixRequestId (buildError (some "no relay".toList)) (some 7) = .ok line ∧
      Python.ascii.parseResponse (some line) = .ok resp ∧
      resp.requestId = some 7 ∧ resp.errorCode = some "no".toList) ∧
    (OutboundBuilder.error .init (some "no relay".toList)).1 = true := by
  obtain ⟨-, -, hpython, -, hfst⟩ :=
    builders_read Python.ascii (error (some "no relay".toList)) (by decide) .init 7
  obtain ⟨line, resp, hline, hparse, hresp, -⟩ := hpython (by decide)
  have hresp := hresp (by decide)
  have hcode : (split "no relay".toList).headD "internal".toList = "no".toList := by decide
  refine ⟨⟨line, resp, hline, hparse, ?_, ?_⟩, ?_⟩
  · rw [hresp]
    rfl
  · rw [hresp]
    exact congrArg some hcode
  · apply (Bool.not_eq_false _).mp
    exact fun hfalse => absurd (hfst.mp hfalse).2 (by decide)

end BuiltReply
end Mcrpc
