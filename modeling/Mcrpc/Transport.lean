import Mcrpc.SenderPrefix
import Mcrpc.Lifting
import Mcrpc.Python.Parser

/-!
# What a node sends

The calls of the publish handlers are recorded beside the world of the application. A message makes
at most one call, with the reply the dispatcher gives and a delay of the window its address asks
for; an event makes one call for each time the engine is on the bus, without delay.
-/

namespace Mcrpc

section Recorded

variable {H Φ σ : Type*}

def Callbacks.recorded (cb : Callbacks σ) : Callbacks (σ × List Published) :=
  { cb.lift Lens.fst with
    publish := cb.publish.map (fun f text w =>
      let r := f text w.1
      (r.1, r.2, w.2 ++ [⟨text, none⟩]))
    publishEx := cb.publishEx.map (fun f text delayMs w =>
      let r := f text delayMs w.1
      (r.1, r.2, w.2 ++ [⟨text, some delayMs⟩])) }

def silent (call : HandlerCall H σ) : HandlerCall H (σ × List Published) := fun h req reply =>
  Lens.fst.lift (call h req reply)

def silentApps (apps : ℕ → Text → Option Text → σ → σ) :
    ℕ → Text → Option Text → σ × List Published → σ × List Published := fun n name kv w =>
  (apps n name kv w.1, w.2)

namespace McRpc

def sentAs (cb : Callbacks σ) (text : Text) (delayMs : ℕ) : Published :=
  ⟨text, if cb.publishEx.isSome then some delayMs else none⟩

theorem publishRaw_recorded {cb : Callbacks σ} (hcb : cb.publishEx.isSome ∨ cb.publish.isSome)
    {text : Text} (h : text ≠ []) (delayMs : ℕ) (w : σ × List Published) :
    (publishRaw cb.recorded text delayMs w).world.2 = w.2 ++ [sentAs cb text delayMs] := by
  rw [publishRaw, if_neg h]
  cases hex : cb.publishEx with
  | some publishEx => simp [Callbacks.recorded, sentAs, hex]
  | none =>
    cases hpub : cb.publish with
    | some publish => simp [Callbacks.recorded, sentAs, hex, hpub]
    | none => simp [hex, hpub] at hcb

theorem entropy16_recorded (cb : Callbacks σ) (w : σ × List Published) :
    (entropy16 cb.recorded w).2.2 = w.2 := by
  simp only [entropy16, Callbacks.recorded, Callbacks.lift]
  cases cb.entropy <;> rfl

end McRpc
end Recorded

namespace Dispatcher

variable {H σ : Type*} (d : Dispatcher H)

theorem text_fillBody (ok : Bool) (body : ReplyBuffer) : (fillBody ok body).text =
    if body.text = [] then (if ok then "ok".toList else "err internal".toList) else body.text := by
  have hlen : body.len = 0 ↔ body.text = [] := by
    rw [← body.length_text, List.length_eq_zero_iff]
  by_cases h : body.text = []
  · have hzero := hlen.mpr h
    have happend (s : Text) (hs : s.length < maxReply) : (body.append s).2.text = s := by
      rw [body.text_append, h, if_pos (by rwa [List.length_nil, Nat.zero_add]), List.nil_append]
    rw [if_pos h]
    cases ok with
    | true =>
      simp only [fillBody, Bool.not_true, Bool.false_and, Bool.false_eq_true, if_false, hzero,
        if_true]
      exact happend _ (by decide)
    | false =>
      have herr := happend "err internal".toList (by decide)
      have hne : (body.append "err internal".toList).2.len ≠ 0 := by
        rw [← ReplyBuffer.length_text, herr]
        decide
      simp only [fillBody, Bool.not_false, Bool.true_and, hzero, decide_true, if_true, if_neg hne]
      exact herr
  · rw [if_neg h, fillBody]
    simp [mt hlen.mp h]

/-- A handler's text that is NUL-free makes a reply. -/
theorem dispatch_cstr_ne_nil {call : HandlerCall H σ} {line : Option Text} (reply : ReplyBuffer)
    (w : σ) {req : Request} (hparse : Parser.parse line = (.ok, req))
    (haddr : d.isAddressedToUs req = true)
    (hcall : ∀ h, nul ∉ (call h req ReplyBuffer.init.clear w).1.2.text) :
    (d.dispatch call line reply w).reply.cstr ≠ [] := by
  cases hfind : d.registry.find req.command with
  | none =>
    simp only [dispatch, hparse, haddr, if_true, hfind]
    exact cstr_writePrefixed_ne_nil _ req (by decide) (by decide) (by decide)
  | some entry =>
    rw [d.dispatch_handler call reply w hparse haddr hfind]
    dsimp only
    generalize hr : call entry.handler req ReplyBuffer.init.clear w = r
    have hnul := hcall entry.handler
    rw [hr] at hnul
    have htext := text_fillBody r.1.1 r.1.2
    have hfilled : nul ∉ (fillBody r.1.1 r.1.2).text := by
      rw [htext]
      split_ifs
      · decide
      · decide
      · exact hnul
    have hbody : (fillBody r.1.1 r.1.2).text ≠ [] := by
      rw [htext]
      split_ifs with hnil
      · decide
      · decide
      · exact hnil
    rw [ReplyBuffer.cstr_eq_text _ hfilled]
    refine cstr_writePrefixed_ne_nil _ req hfilled hbody ?_
    rw [ReplyBuffer.length_text]
    exact ReplyBuffer.len_lt _

theorem dispatch_answered_iff (call : HandlerCall H σ) (line : Option Text) (reply : ReplyBuffer)
    (w : σ) : (d.dispatch call line reply w).answered = true ↔
      ∃ req, Parser.parse line = (.ok, req) ∧ d.isAddressedToUs req = true := by
  simp only [dispatch]
  split
  · next req hparse =>
    simp only [hparse, Prod.mk.injEq, true_and, exists_eq_left']
    split
    · next haddr =>
      refine iff_of_true ?_ haddr
      split <;> rfl
    · next haddr => exact iff_of_false Bool.false_ne_true haddr
  · next hparse =>
    refine iff_of_false Bool.false_ne_true (fun hex => ?_)
    obtain ⟨req, h, -⟩ := hex
    exact hparse req h

end Dispatcher

theorem ReplyJitter.delayMs_broadcast (identity : Text) (entropy : UInt16) :
    400 ≤ delayMs true identity entropy ∧ delayMs true identity entropy ≤ 3600 := by
  simp only [delayMs, Bool.not_true, Bool.false_eq_true, if_false, broadcastMinMs, broadcastMaxMs]
  omega

theorem ReplyJitter.delayMs_addressed (identity : Text) (entropy : UInt16) :
    delayMs false identity entropy ≤ 120 := by
  have := Nat.mod_lt entropy.toNat (show 0 < addressedMaxMs + 1 by decide)
  simp only [delayMs, Bool.not_false, if_true, addressedMaxMs] at *
  omega

/-- A payload behind a sender's name, or one that cannot be taken for a message with a sender. -/
inductive Carries (payload : Text) : Text → Prop
  | sent {sender : Text} : ':' ∉ sender → Carries payload (sender ++ ':' :: ' ' :: payload)
  | bare : (∀ u c v, payload = u ++ ':' :: c :: v → isBlank c = false) → Carries payload payload

theorem Carries.strip {payload text : Text} (h : Carries payload text)
    (hpayload : Scan.Stops isBlank payload) : Parser.stripSenderPrefix (some text) = payload := by
  cases h with
  | sent hsender =>
    rw [← Python.stripSenderPrefix_eq]
    exact Python.stripSenderPrefix_append hsender hpayload
  | bare hbare =>
    rw [stripSenderPrefix_eq_self_iff]
    by_cases hcolon : ':' ∈ payload
    · obtain ⟨u, v, hsplit, hu⟩ := List.eq_append_cons_of_mem hcolon
      rw [hsplit, afterColon_append hu, afterColon_cons]
      cases v with
      | nil => exact Scan.stops_nil
      | cons c v => exact Scan.stops_cons.mpr (hbare u c v hsplit)
    · rw [afterColon_of_not_mem hcolon]
      exact Scan.stops_nil

namespace McRpc

variable {H Φ σ : Type*} (m : McRpc H Φ)

def Asks (payload : Text) (req : Request) : Prop :=
  Parser.parse (some payload) = (.ok, req) ∧ m.dispatcher.isAddressedToUs req = true

/-- The delay a request's kind asks for. -/
def InWindow (kind : AddressKind) (delayMs : ℕ) : Prop :=
  if kind = .all then 400 ≤ delayMs ∧ delayMs ≤ 3600 else delayMs ≤ 120

theorem inWindow_delayMsFor (req : Request) (identity : Text) (entropy : UInt16) :
    InWindow req.addressKind (ReplyJitter.delayMsFor req identity entropy) := by
  rw [InWindow, ReplyJitter.delayMsFor, ReplyJitter.needsBroadcastStagger]
  split
  · next h =>
    rw [h, decide_eq_true rfl]
    exact ReplyJitter.delayMs_broadcast identity entropy
  · next h =>
    rw [decide_eq_false h]
    exact ReplyJitter.delayMs_addressed identity entropy

theorem dispatch_silent (call : HandlerCall H σ) (line : Option Text) (w : σ × List Published) :
    m.dispatcher.dispatch (silent call) line ReplyBuffer.init w =
      let r := m.dispatcher.dispatch call line ReplyBuffer.init w.1
      ⟨r.answered, r.reply, r.outReq, (r.world, w.2)⟩ :=
  m.dispatcher.dispatch_lift Lens.fst _ (fun _ _ _ _ => rfl)

/-- A line that asks this node sends the dispatcher's reply. -/
theorem handleLine_asks {cb : Callbacks σ} (hcb : cb.publishEx.isSome ∨ cb.publish.isSome)
    {call : HandlerCall H σ}
    (hcall : ∀ h req w, nul ∉ (call h req ReplyBuffer.init.clear w).1.2.text)
    {payload : Text} {req : Request} (hasks : m.Asks payload req) (w : σ × List Published) :
    ∃ delayMs, InWindow req.addressKind delayMs ∧
      (m.handleLine cb.recorded (silent call) payload w).world.2 = w.2 ++ [sentAs cb
        (m.dispatcher.dispatch call (some payload) ReplyBuffer.init w.1).reply.cstr delayMs] := by
  obtain ⟨hparse, haddr⟩ := hasks
  have hanswered := (m.dispatcher.dispatch_answered_iff call (some payload) ReplyBuffer.init
    w.1).mpr ⟨req, hparse, haddr⟩
  have hne := m.dispatcher.dispatch_cstr_ne_nil ReplyBuffer.init w.1 hparse haddr
    (fun h => hcall h req w.1)
  obtain ⟨hreq, -⟩ := m.dispatcher.dispatch_answered call ReplyBuffer.init w.1 hparse hanswered
  simp only [handleLine, dispatch_silent, hanswered, if_true, hreq, Option.getD_some]
  refine ⟨_, inWindow_delayMsFor req m.identityForJitter (entropy16 cb.recorded
    ((m.dispatcher.dispatch call (some payload) ReplyBuffer.init w.1).world, w.2)).1,
    (publishRaw_recorded hcb hne _ _).trans ?_⟩
  rw [entropy16_recorded]

theorem handleLine_not_asks (cb : Callbacks σ) (call : HandlerCall H σ) {payload : Text}
    (hasks : ¬ ∃ req, m.Asks payload req) (w : σ × List Published) :
    (m.handleLine cb.recorded (silent call) payload w).world.2 = w.2 := by
  have hanswered : (m.dispatcher.dispatch call (some payload) ReplyBuffer.init w.1).answered =
      false := by
    rw [← Bool.not_eq_true, m.dispatcher.dispatch_answered_iff]
    exact hasks
  simp only [handleLine, dispatch_silent, hanswered, Bool.false_eq_true, if_false]

theorem isPrefix_append (b : ReplyBuffer) (s : Text) : b.text <+: (b.append s).2.text := by
  rw [b.text_append]
  split
  · exact List.prefix_append _ _
  · exact List.prefix_rfl

theorem cstr_eventBuffer_ne_nil (name : Text) (kv : Option Text) :
    (eventBuffer name kv).cstr ≠ [] := by
  have hword : (ReplyBuffer.init.clear.append "event ".toList).2.text = "event ".toList := by decide
  have hname := isPrefix_append (ReplyBuffer.init.clear.append "event ".toList).2 name
  have hprefix : "event ".toList <+: (eventBuffer name kv).text := by
    rw [hword] at hname
    unfold eventBuffer
    split
    · exact hname.trans ((isPrefix_append _ [' ']).trans (isPrefix_append _ _))
    · exact hname
  obtain ⟨rest, hdata⟩ := (eventBuffer name kv).data_eq
  obtain ⟨t, ht⟩ := hprefix
  rw [ReplyBuffer.cstr, hdata, ← ht]
  exact List.cons_ne_nil 'e' _

/-- Each place of the engine on the bus sends the event without delay. -/
theorem publishEvent_recorded {cb : Callbacks σ} (hcb : cb.publishEx.isSome ∨ cb.publish.isSome)
    (apps : ℕ → Text → Option Text → σ → σ) {name : Text} (hname : name ≠ []) (kv : Option Text)
    (w : σ × List Published) :
    (m.publishEvent cb.recorded (silentApps apps) (some name) kv w).2.2 =
      w.2 ++ List.replicate (m.events.subs.count .engine)
        (sentAs cb (eventBuffer name kv).cstr 0) := by
  rw [publishEvent, m.events.publish_some _ hname]
  generalize m.events.subs = subs
  induction subs generalizing w with
  | nil => simp
  | cons sub subs ih =>
    rw [List.foldl_cons, ih]
    cases sub with
    | engine =>
      have hsent : (deliver cb.recorded (silentApps apps) .engine name kv w).2 =
          w.2 ++ [sentAs cb (eventBuffer name kv).cstr 0] :=
        publishRaw_recorded hcb (cstr_eventBuffer_ne_nil name kv) 0 w
      rw [hsent, List.count_cons_self, List.replicate_succ, List.append_assoc]
      rfl
    | app n =>
      rw [List.count_cons_of_ne (by simp)]
      rfl

def pingNode : McRpc Unit Unit where
  commands := Dispatcher.tracker.registry
  nodeName := "tracker".toList

theorem nul_not_mem_pong :
    nul ∉ (ReplyBuffer.init.clear.append "pong".toList).2.text := by decide

end McRpc
end Mcrpc
