import Mcrpc.ReplyLine
import Mcrpc.RequestId

/-!
# A request and its reply across the two implementations

A line that the Python correlator builds, a node that dispatches it, and the reply classified by the
correlator again. The reply comes back to the request it answers, whatever the handler writes.
-/

namespace Mcrpc

open Scan

def cText (s : Text) : Text := s.takeWhile (· ≠ nul)

theorem argumentTail_cases (args : List (Option Text)) :
    argumentTail args = [] ∨ ∃ s, argumentTail args = ' ' :: s := by
  rw [argumentTail]
  split
  · exact .inl rfl
  · exact .inr ⟨_, rfl⟩

theorem stops_cText_argumentTail (args : List (Option Text)) :
    Stops isIdentChar (cText (argumentTail args)) := by
  rcases argumentTail_cases args with h | ⟨s, h⟩
  · rw [h]
    exact stops_nil
  · have hblank : cText (' ' :: s) = ' ' :: cText s := List.takeWhile_cons_of_pos (by decide)
    rw [h, hblank]
    exact stops_cons.mpr rfl

theorem cText_append {s t : Text} (hs : nul ∉ s) : cText (s ++ t) = s ++ cText t :=
  List.takeWhile_append_of_pos (all_ne_of_not_mem hs)

def requestBytes (t : Target) (n : ℕ) (w : Ident) (args : List (Option Text)) : Text :=
  t.text ++ (IdField.text { digits := decimalDigits n } ++
    (oneBlank.chars ++ (w.chars ++ cText (argumentTail args))))

theorem cText_line (t : Target) (n : ℕ) (w : Ident) (args : List (Option Text)) :
    cText (t.text ++ '#' :: (decimal n ++ ' ' :: (w.chars ++ argumentTail args))) =
      requestBytes t n w args := by
  have hhead : nul ∉ t.text ++ ('#' :: (decimal n ++ ' ' :: w.chars)) := by
    have hdigits : nul ∉ decimal n := fun h => absurd (isDigit_of_mem_decimal h) (by decide)
    have hcommand : nul ∉ w.chars := w.not_mem rfl
    simp only [List.mem_append, List.mem_cons, not_or]
    exact ⟨nul_not_mem_target t, by decide, hdigits, by decide, hcommand⟩
  have hsplit : t.text ++ '#' :: (decimal n ++ ' ' :: (w.chars ++ argumentTail args)) =
      (t.text ++ ('#' :: (decimal n ++ ' ' :: w.chars))) ++ argumentTail args := by
    simp
  rw [hsplit, cText_append hhead]
  simp [requestBytes, IdField.text, decimalDigits, oneBlank, Run.word]

theorem parse_requestBytes (t : Target) {n : ℕ} (hn : n < 2 ^ 32) (w : Ident)
    (args : List (Option Text)) : ∃ req, Parser.parse (some (requestBytes t n w args)) =
      (.ok, req) ∧ req.hasRequestId = true ∧ req.requestId.toNat = n := by
  have hlen := length_decimal_le_of_lt hn
  have hroom : (decimalDigits n).chars.length ≤ Parser.idbufSize - 1 :=
    hlen.trans (by decide)
  refine ⟨_, parse_head t { digits := decimalDigits n } oneBlank w (stops_cText_argumentTail args)
    hroom, rfl, ?_⟩
  have hvalue := value_decimalDigits n
  rw [Digits.value] at hvalue
  rw [IdField.storedId, List.take_of_length_le hroom, strtoul_toNat (by rw [hvalue]; exact hn),
    hvalue]

namespace RequestCorrelator

variable {F V T H σ : Type} [Truthy V] {py : Python F}

/-- A message that starts with the id of a pending request returns that request and takes it from
the table, unless it is a broadcast. -/
theorem classifyInbound_hash_decimal (hpy : py.Regular) {c : RequestCorrelator V T}
    {p : PendingRequest V T} {n : ℕ} (hdigits : (decimal n).length ≤ 4300)
    (hpending : c.pending.get n = some p) (hbroadcast : p.isBroadcast = false)
    {sender : Text} (hsender : ':' ∉ sender) (rest : Text) :
    ∃ resp, c.classifyInbound py
        (sender ++ ':' :: ' ' :: ('#' :: (decimal n ++ [' ']) ++ rest)) =
          (.ok { kind := .response, response := some resp, event := none, pending := some p },
            { c with pending := c.pending.erase n }) ∧
      resp.requestId = some (n : ℤ) := by
  have hwords := split_hash_decimal n rest
  have hbody : Python.stripSenderPrefix
      (some (sender ++ ':' :: ' ' :: ('#' :: (decimal n ++ [' ']) ++ rest))) =
        '#' :: (decimal n ++ [' ']) ++ rest :=
    Python.stripSenderPrefix_append hsender (stops_cons.mpr rfl)
  rw [← hbody] at hwords
  obtain ⟨resp, hrid, hclassify⟩ := hpy.classifyInbound_decimal c hdigits hwords true
  refine ⟨resp, ?_, hrid⟩
  rw [hclassify, c.matchResponse_of_get hrid hpending, hbroadcast, if_neg Bool.false_ne_true]

variable [Add T]

/-- The reply of a node to a request that is still pending returns that request, takes it from the
table and leaves the others. -/
theorem classifyInbound_reply (hpy : py.Regular) {c c' later : RequestCorrelator V T} {now : T}
    {a : BuildCall V T} {line : Text} {p : PendingRequest V T} {t : Target} {w : Ident} {n : ℕ}
    (hbuild : c.build a now = (.ok (line, p), c')) (htarget : a.target = t.text)
    (hcommand : a.command = w.chars) (hid : (c.chooseId a.requestId).1 = n) (hn : n < 2 ^ 32)
    (hbroadcast : a.broadcast = false)
    (hmeta : (a.metadata.get "broadcast".toList).any Truthy.truthy = false)
    (hpending : later.pending.get n = some p)
    (d : Dispatcher H) (call : HandlerCall H σ) (reply : ReplyBuffer) (world : σ)
    (hanswered : (d.dispatch call (some (cText line)) reply world).answered = true)
    {sender : Text} (hsender : ':' ∉ sender) :
    ∃ resp after, later.classifyInbound py
        (sender ++ ':' :: ' ' :: (d.dispatch call (some (cText line)) reply world).reply.cstr) =
          (.ok { kind := .response, response := some resp, event := none, pending := some p },
            after) ∧
      resp.requestId = some (n : ℤ) ∧ after.pending.get n = none ∧
      (∀ m, m ≠ (n : ℤ) → after.pending.get m = later.pending.get m) ∧
      after = { later with pending := after.pending } := by
  obtain ⟨⟨hdest, hne, -⟩, hline, ⟨deadline, rfl⟩, -⟩ := c.build_ok hbuild
  have hto : a.dest = t.text := by rw [BuildCall.dest, hbroadcast, htarget]; rfl
  have hlen := length_decimal_le_of_lt hn
  have hdigits : (decimal n).length ≤ 4300 := hlen.trans (by decide)
  rw [hid, hto, hcommand, buildRequest_some (hto ▸ hdest) (hcommand ▸ hne) hdigits] at hline
  have hbytes : cText line = requestBytes t n w a.arguments := by
    rw [← Except.ok.inj hline, cText_line]
  rw [hbytes] at hanswered ⊢
  obtain ⟨req, hparse, hhas, hreq⟩ := parse_requestBytes t hn w a.arguments
  obtain ⟨-, rest, hreply⟩ := d.dispatch_answered call reply world hparse hanswered
  have hprefix : req.prefixText = '#' :: (decimal n ++ [' ']) := by
    rw [Request.prefixText, if_pos hhas, hreq]
    rfl
  rw [hreply, hprefix]
  obtain ⟨resp, hclassify, hrid⟩ := classifyInbound_hash_decimal hpy hdigits hpending hmeta
    hsender rest
  refine ⟨resp, { later with pending := later.pending.erase n }, hclassify, hrid,
    Dict.get_erase_self later.pending _, ?_, rfl⟩
  exact fun m hm => Dict.get_erase_of_ne later.pending hm

def pingTracker : BuildCall Bool ℕ := { target := "tracker".toList, command := "ping".toList }

theorem classifyInbound_reply_tracker : ∃ line p c' resp after,
    ({ defaultTimeout := 15 } : RequestCorrelator Bool ℕ).build pingTracker 0 =
        (.ok (line, p), c') ∧
      c'.classifyInbound Python.ascii ("node".toList ++ ':' :: ' ' ::
        (Dispatcher.tracker.dispatch (Dispatcher.writes "pong".toList) (some (cText line))
          .init ()).reply.cstr) =
        (.ok { kind := .response, response := some resp, event := none, pending := some p },
          after) ∧
      resp.requestId = some ((1 : ℕ) : ℤ) ∧ after.pending.get (1 : ℕ) = none := by
  have hbuild : ∃ line p c', ({ defaultTimeout := 15 } : RequestCorrelator Bool ℕ).build
      pingTracker 0 = (.ok (line, p), c') ∧ c'.pending.get (1 : ℕ) = some p ∧
      line = "tracker#1 ping".toList := ⟨_, _, _, rfl, rfl, rfl⟩
  obtain ⟨line, p, c', hbuild, hpending, hline⟩ := hbuild
  have hsender : ':' ∉ "node".toList := by decide
  have hanswered : (Dispatcher.tracker.dispatch (Dispatcher.writes "pong".toList)
      (some (cText line)) .init ()).answered = true := by
    rw [hline]
    decide
  obtain ⟨resp, after, hkind, hid, hget, -, -⟩ := classifyInbound_reply (n := 1)
    (t := .named (.word "tracker".toList) rfl rfl) (w := .word "ping".toList)
    Python.ascii_regular hbuild rfl rfl rfl (by decide) rfl rfl hpending
    Dispatcher.tracker (Dispatcher.writes "pong".toList) .init () hanswered hsender
  exact ⟨line, p, c', resp, after, hbuild, hkind, hid, hget⟩

end RequestCorrelator
end Mcrpc
