import Mcrpc.Parser
import Mcrpc.Registry
import Mcrpc.ReplyBuffer

/-!
# The dispatcher

`Dispatcher.cpp` over handlers of any kind: `call` runs the code a handler designates in a world `σ`,
everything a handler can read or change besides its reply. A reply is the handler's body behind the
request id; the main result says exactly when the two fit the reply buffer together.
-/

namespace Mcrpc

def hexIdPrefixMatch (fullId pre : Text) : Bool :=
  pre ≠ [] && go fullId pre
where
  isHex (c : Char) : Bool := ('0' ≤ c && c ≤ '9') || ('a' ≤ c && c ≤ 'f')
  go : Text → Text → Bool
    | _, [] => true
    | [], _ :: _ => false
    | a :: as, b :: bs =>
      if !isHex a.toLower || !isHex b.toLower || a.toLower ≠ b.toLower then false else go as bs

/-- What a handler does: it reads the request, writes its reply buffer and returns a verdict. -/
abbrev HandlerCall (H σ : Type*) := H → Request → ReplyBuffer → σ → (Bool × ReplyBuffer) × σ

structure Dispatcher (H : Type*) where
  registry : CommandRegistry H
  nodeName : Text := []
  nodeId : Text := []
  groupName : Text := []

structure DispatchResult (σ : Type*) where
  answered : Bool
  reply : ReplyBuffer
  outReq : Option Request
  world : σ

def decimal (n : ℕ) : Text := Nat.toDigits 10 n

/-- `"#%lu "` -/
def idPrefix (n : ℕ) : Text := '#' :: (decimal n ++ [' '])

namespace Dispatcher

variable {H σ : Type*} (d : Dispatcher H)

def isAddressedToUs (req : Request) : Bool :=
  match req.addressKind with
  | .all => true
  | .self => true
  | .group => d.groupName ≠ [] && ieq req.target d.groupName
  | .id => d.nodeId ≠ [] && (ieq req.target d.nodeId || hexIdPrefixMatch d.nodeId req.target)
  | .named => d.nodeName ≠ [] && ieq req.target d.nodeName

def writePrefixed (reply : ReplyBuffer) (req : Request) (body : Text) : ReplyBuffer :=
  let reply := reply.clear
  let reply := if req.hasRequestId then (reply.printf (idPrefix req.requestId.toNat)).2 else reply
  (reply.append body).2

/-- The body after the handler: an empty one is replaced. -/
def fillBody (ok : Bool) (body : ReplyBuffer) : ReplyBuffer :=
  let body := if !ok && body.len = 0 then (body.append "err internal".toList).2 else body
  if body.len = 0 then (body.append "ok".toList).2 else body

def dispatch (call : HandlerCall H σ) (line : Option Text) (reply : ReplyBuffer) (w : σ) :
    DispatchResult σ :=
  let reply := reply.clear
  match Parser.parse line with
  | (.ok, req) =>
    if d.isAddressedToUs req then
      match d.registry.find req.command with
      | none => ⟨true, writePrefixed reply req "err unknown_command".toList, some req, w⟩
      | some entry =>
        let ((ok, body), w) := call entry.handler req ReplyBuffer.init.clear w
        ⟨true, writePrefixed reply req (fillBody ok body).cstr, some req, w⟩
    else ⟨false, reply, some req, w⟩
  | _ => ⟨false, reply, none, w⟩

end Dispatcher

/-! ### Text of a prefixed reply -/

def Request.prefixText (req : Request) : Text :=
  if req.hasRequestId then idPrefix req.requestId.toNat else []

theorem isDigit_of_mem_decimal {n : ℕ} {c : Char} (h : c ∈ decimal n) : c.isDigit = true :=
  Nat.isDigit_of_mem_toDigits (by decide) (by decide) h

theorem decimal_ne_nil (n : ℕ) : decimal n ≠ [] := Nat.toDigits_ne_nil

theorem length_decimal_le_of_lt {n : ℕ} (h : n < 2 ^ 32) : (decimal n).length ≤ 10 := by
  rw [decimal, Nat.length_toDigits_le_iff (by decide) (by decide)]
  omega

theorem length_decimal_le (n : UInt32) : (decimal n.toNat).length ≤ 10 :=
  length_decimal_le_of_lt n.toNat_lt

theorem length_prefixText_le (req : Request) : req.prefixText.length ≤ 12 := by
  have := length_decimal_le req.requestId
  rw [Request.prefixText]
  split
  · simp only [idPrefix, List.length_cons, List.length_append, List.length_nil]
    omega
  · exact Nat.zero_le _

theorem nul_not_mem_prefixText (req : Request) : nul ∉ req.prefixText := by
  rw [Request.prefixText]
  split
  · have hdigits : nul ∉ decimal req.requestId.toNat := fun h =>
      absurd (isDigit_of_mem_decimal h) (by decide)
    simp only [idPrefix, List.mem_cons, List.mem_append, List.not_mem_nil, or_false, not_or]
    exact ⟨by decide, hdigits, by decide⟩
  · exact List.not_mem_nil

namespace Dispatcher

variable {H σ : Type*} (d : Dispatcher H)

theorem text_writePrefixed (reply : ReplyBuffer) (req : Request) (body : Text) :
    (writePrefixed reply req body).text =
      if req.prefixText.length + body.length < maxReply then req.prefixText ++ body
      else req.prefixText := by
  have hpre := length_prefixText_le req
  have hsize : maxReply = 192 := rfl
  have htext : (if req.hasRequestId then (reply.clear.printf (idPrefix req.requestId.toNat)).2
      else reply.clear).text = req.prefixText := by
    rw [Request.prefixText] at hpre ⊢
    split_ifs at hpre ⊢ with hid
    · have hcut : (idPrefix req.requestId.toNat).take (maxReply - 1) =
          idPrefix req.requestId.toNat := List.take_of_length_le (by omega)
      rw [ReplyBuffer.printf, ReplyBuffer.text_append, hcut, ReplyBuffer.text_clear,
        List.length_nil, if_pos (by omega), List.nil_append]
    · exact ReplyBuffer.text_clear reply
  rw [writePrefixed, ReplyBuffer.text_append, htext]

theorem cstr_writePrefixed (reply : ReplyBuffer) (req : Request) {body : Text}
    (hbody : nul ∉ body) :
    (writePrefixed reply req body).cstr = (writePrefixed reply req body).text := by
  apply ReplyBuffer.cstr_eq_text
  rw [text_writePrefixed]
  split
  · rw [List.mem_append, not_or]
    exact ⟨nul_not_mem_prefixText req, hbody⟩
  · exact nul_not_mem_prefixText req

/-- The prefix of the request id costs the body nothing exactly when both have room. -/
theorem cstr_writePrefixed_iff (reply : ReplyBuffer) (req : Request) {body : Text}
    (hbody : nul ∉ body) (hne : body ≠ []) :
    (writePrefixed reply req body).cstr = req.prefixText ++ body ↔
      req.prefixText.length + body.length < maxReply := by
  rw [cstr_writePrefixed reply req hbody, text_writePrefixed]
  split
  · next h => exact iff_of_true rfl h
  · next h =>
    refine iff_of_false (fun he => hne ?_) h
    exact List.append_cancel_left (he.symm.trans (List.append_nil _).symm)

/-- The request id survives whatever becomes of the body. -/
theorem cstr_writePrefixed_eq_append (reply : ReplyBuffer) (req : Request) {body : Text}
    (hbody : nul ∉ body) :
    ∃ rest, (writePrefixed reply req body).cstr = req.prefixText ++ rest := by
  rw [cstr_writePrefixed reply req hbody, text_writePrefixed]
  split
  · exact ⟨body, rfl⟩
  · exact ⟨[], (List.append_nil _).symm⟩

theorem fillBody_of_ne_nil {ok : Bool} {body : ReplyBuffer} (h : body.cstr ≠ []) :
    fillBody ok body = body := by
  have hlen : body.len ≠ 0 := by
    intro h0
    have := body.length_cstr_le
    rw [h0] at this
    exact h (List.length_eq_zero_iff.mp (by omega))
  simp [fillBody, hlen]

theorem dispatch_handler (call : HandlerCall H σ) {line : Option Text} (reply : ReplyBuffer)
    (w : σ) {req : Request} {entry : CommandEntry H}
    (hparse : Parser.parse line = (.ok, req)) (haddr : d.isAddressedToUs req = true)
    (hfind : d.registry.find req.command = some entry) :
    d.dispatch call line reply w =
      let r := call entry.handler req ReplyBuffer.init.clear w
      ⟨true, writePrefixed reply.clear req (fillBody r.1.1 r.1.2).cstr, some req, r.2⟩ := by
  simp only [dispatch, hparse, haddr, if_true, hfind]

/-- An answered line hands its request to the handler and its reply starts with the id. -/
theorem dispatch_answered (call : HandlerCall H σ) {line : Option Text} (reply : ReplyBuffer)
    (w : σ) {req : Request} (hparse : Parser.parse line = (.ok, req))
    (hanswered : (d.dispatch call line reply w).answered = true) :
    (d.dispatch call line reply w).outReq = some req ∧
      ∃ rest, (d.dispatch call line reply w).reply.cstr = req.prefixText ++ rest := by
  cases haddr : d.isAddressedToUs req with
  | false =>
    simp only [dispatch, hparse, haddr, Bool.false_eq_true, if_false] at hanswered
  | true =>
    cases hfind : d.registry.find req.command with
    | none =>
      simp only [dispatch, hparse, haddr, if_true, hfind]
      exact ⟨trivial, cstr_writePrefixed_eq_append _ req (by decide)⟩
    | some entry =>
      rw [d.dispatch_handler call reply w hparse haddr hfind]
      exact ⟨rfl, cstr_writePrefixed_eq_append _ req (ReplyBuffer.nul_not_mem_cstr _)⟩

/-- The reply to an answered line is the request id and the handler's whole body exactly when the
line has no request id, or the two fit in the buffer. -/
theorem dispatch_reply_iff (call : HandlerCall H σ) {line : Option Text} (reply : ReplyBuffer)
    (w : σ) {req : Request} {entry : CommandEntry H}
    (hparse : Parser.parse line = (.ok, req)) (haddr : d.isAddressedToUs req = true)
    (hfind : d.registry.find req.command = some entry)
    (hbody : (call entry.handler req ReplyBuffer.init.clear w).1.2.cstr ≠ []) :
    (d.dispatch call line reply w).answered = true ∧
      ((d.dispatch call line reply w).reply.cstr =
          (if req.hasRequestId then '#' :: (decimal req.requestId.toNat ++ [' ']) else []) ++
            (call entry.handler req ReplyBuffer.init.clear w).1.2.cstr ↔
        req.hasRequestId = false ∨ (decimal req.requestId.toNat).length + 2 +
          (call entry.handler req ReplyBuffer.init.clear w).1.2.cstr.length ≤ maxReply - 1) := by
  rw [d.dispatch_handler call reply w hparse haddr hfind]
  refine ⟨rfl, ?_⟩
  let body := (call entry.handler req ReplyBuffer.init.clear w).1.2
  have hlen := body.length_cstr_lt
  dsimp only
  rw [fillBody_of_ne_nil hbody]
  refine (cstr_writePrefixed_iff reply.clear req body.nul_not_mem_cstr hbody).trans ?_
  change req.prefixText.length + body.cstr.length < maxReply ↔
    req.hasRequestId = false ∨ _ + body.cstr.length ≤ maxReply - 1
  rw [Request.prefixText]
  split
  · next hid =>
    simp only [hid, idPrefix, List.length_cons, List.length_append, List.length_nil,
      Bool.true_eq_false, false_or]
    omega
  · next hid =>
    simp only [Bool.not_eq_true] at hid
    simp only [hid, List.length_nil, true_or, iff_true]
    omega

def pingEntry : CommandEntry Unit where
  name := "ping".toList
  handler := ()

def tracker : Dispatcher Unit where
  registry := ⟨[pingEntry], by decide⟩
  nodeName := "tracker".toList

def writes (body : Text) : HandlerCall Unit Unit := fun _ _ reply w =>
  ((true, (reply.append body).2), w)

def pingSeven : Request where
  target := "tracker".toList
  hasRequestId := true
  requestId := 7
  command := "ping".toList

theorem parse_pingSeven : Parser.parse (some "tracker#7 ping".toList) = (.ok, pingSeven) := by
  decide

theorem tracker_find_ping : tracker.registry.find pingSeven.command = some pingEntry := rfl

theorem dispatch_reply_iff_pong :
    (tracker.dispatch (writes "pong".toList) (some "tracker#7 ping".toList) .init ()).answered =
        true ∧
      ((tracker.dispatch (writes "pong".toList) (some "tracker#7 ping".toList) .init ()).reply.cstr =
          '#' :: (decimal 7 ++ [' ']) ++ "pong".toList ↔
        pingSeven.hasRequestId = false ∨ (decimal 7).length + 2 + 4 ≤ maxReply - 1) :=
  tracker.dispatch_reply_iff (writes "pong".toList) .init () parse_pingSeven rfl tracker_find_ping
    (by decide)

theorem cstr_append_190 : (ReplyBuffer.init.clear.append (List.replicate 190 'a')).2.cstr =
    List.replicate 190 'a' := by
  have hlen : (List.replicate 190 'a').length = 190 := List.length_replicate
  have hsize : maxReply = 192 := rfl
  have htext : (ReplyBuffer.init.clear.append (List.replicate 190 'a')).2.text =
      List.replicate 190 'a' := by
    rw [ReplyBuffer.text_append, ReplyBuffer.text_clear, List.nil_append]
    exact if_pos (by rw [List.length_nil, hlen]; omega)
  refine ReplyBuffer.cstr_of_text _ htext (fun h => ?_)
  exact absurd (List.eq_of_mem_replicate h) (by decide)

/-- A body of 190 bytes is lost behind `#7 `. -/
theorem dispatch_reply_lost :
    (tracker.dispatch (writes (List.replicate 190 'a')) (some "tracker#7 ping".toList)
      .init ()).answered = true ∧
    (tracker.dispatch (writes (List.replicate 190 'a')) (some "tracker#7 ping".toList)
      .init ()).reply.cstr ≠ '#' :: (decimal 7 ++ [' ']) ++
        (writes (List.replicate 190 'a') () pingSeven ReplyBuffer.init.clear ()).1.2.cstr := by
  have hlen : (List.replicate 190 'a').length = 190 := List.length_replicate
  have hne : List.replicate 190 'a' ≠ [] := by
    intro h
    rw [h] at hlen
    cases hlen
  have hcstr : (ReplyBuffer.init.clear.append (List.replicate 190 'a')).2.cstr ≠ [] := by
    rw [cstr_append_190]
    exact hne
  have hnul : nul ∉ List.replicate 190 'a' := fun h =>
    absurd (List.eq_of_mem_replicate h) (by decide)
  rw [tracker.dispatch_handler (writes (List.replicate 190 'a')) .init () parse_pingSeven rfl
    tracker_find_ping]
  refine ⟨rfl, ?_⟩
  dsimp only [writes]
  rw [fillBody_of_ne_nil hcstr, cstr_append_190]
  intro h
  have := (cstr_writePrefixed_iff _ pingSeven hnul hne).mp h
  rw [hlen] at this
  exact absurd this (by decide)

end Dispatcher
end Mcrpc
