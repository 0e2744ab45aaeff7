import Mcrpc.EndToEnd
import Mcrpc.Delivery
import Mcrpc.EventLines
import Mcrpc.Lib.CallService

/-!
# A channel with clients and nodes

Correlators of the Python package and nodes of the C++ library on one channel. Whatever is sent stays
in the air: a party hears any line of it at any time, again or never. The channel puts the name of
the sender in front of a line. The log of a network is what its clients and nodes did, as the calls
of a service of remote calls.
-/

namespace Mcrpc

structure Packet where
  sender : Text
  text : Text
  deriving DecidableEq

def Packet.wire (p : Packet) : Text := p.sender ++ ':' :: ' ' :: p.text

/-- A node with its application: the handlers of commands and of subscribers. -/
structure Station (H Φ σ : Type) where
  name : Text
  rpc : McRpc H Φ
  callbacks : Callbacks σ
  call : HandlerCall H σ
  apps : ℕ → Text → Option Text → σ → σ := fun _ _ _ w => w

structure Channel (κ ι H Φ σ F : Type) where
  py : Python F
  clientName : κ → Text
  station : ι → Station H Φ σ

inductive NetworkCall (κ ι V T : Type)
  | build (c : κ) (a : BuildCall V T) (now : T)
  | nextRequestId (c : κ)
  | take (c : κ) (requestId : Option ℤ)
  | expire (c : κ) (now : T)
  | classifyInbound (c : κ) (k : ℕ) (consume : Bool)
  | handleInbound (i : ι) (k : ℕ)
  | publish (i : ι) (name kv : Option Text)
  | chat (p : Packet)

abbrev Happening (κ ι V T : Type) :=
  CallService.Happening κ ι (PendingRequest V T) Text Packet

structure Network (κ ι σ V T : Type) where
  clients : κ → RequestCorrelator V T
  worlds : ι → σ
  air : List Packet := []
  log : List (Happening κ ι V T) := []

namespace Station

variable {H Φ σ : Type} (s : Station H Φ σ)

/-- The line a message carries for a node, which sees it up to the first NUL. -/
def lineOf (p : Packet) : Text := Parser.stripSenderPrefix (some (cText p.wire))

def handleInbound (p : Packet) (w : σ) : List Packet × σ :=
  let r := s.rpc.handleInbound s.callbacks.recorded (silent s.call) (some (cText p.wire)) (w, [])
  (r.world.2.map (fun c => ⟨s.name, c.text⟩), r.world.1)

def publish (name kv : Option Text) (w : σ) : List Packet × σ :=
  let r := s.rpc.publishEvent s.callbacks.recorded (silentApps s.apps) name kv (w, [])
  (r.2.2.map (fun c => ⟨s.name, c.text⟩), r.2.1)

end Station

namespace Network

variable {κ ι H Φ σ F V T : Type} [DecidableEq κ] [DecidableEq ι]
variable [Truthy V] [Add T] [LE T] [DecidableLE T]
variable (ch : Channel κ ι H Φ σ F) (n : Network κ ι σ V T)

def setClient (c : κ) (r : RequestCorrelator V T) : Network κ ι σ V T :=
  { n with clients := Function.update n.clients c r }

def returnedOn (c : κ) (p : Packet) (consume : Bool) (r : Except PyError (Inbound F V T)) :
    List (Happening κ ι V T) :=
  (RequestCorrelator.returnedPending r).map
    (fun q => .returned c q p (consume && !q.isBroadcast))

/-- The network after the call without its log, and what happened. A message that is not in the air
is not heard. -/
def stepWith : NetworkCall κ ι V T → Network κ ι σ V T × List (Happening κ ι V T)
  | .build c a now =>
    let r := (n.clients c).build a now
    match r.1 with
    | .ok (line, p) =>
      ({ n.setClient c r.2 with air := n.air ++ [⟨ch.clientName c, line⟩] }, [.issued c p])
    | .error _ => (n.setClient c r.2, [])
  | .nextRequestId c => (n.setClient c (n.clients c).nextRequestId.2, [])
  | .take c id =>
    let r := (n.clients c).take id
    (n.setClient c r.2, r.1.toList.map (.dropped c))
  | .expire c now =>
    let r := (n.clients c).expire now
    (n.setClient c r.2, r.1.map (.dropped c))
  | .classifyInbound c k consume =>
    match n.air[k]? with
    | none => (n, [])
    | some p =>
      let r := (n.clients c).classifyInbound ch.py p.wire consume
      (n.setClient c r.2, returnedOn c p consume r.1)
  | .handleInbound i k =>
    match n.air[k]? with
    | none => (n, [])
    | some p =>
      let r := (ch.station i).handleInbound p (n.worlds i)
      ({ n with worlds := Function.update n.worlds i r.2, air := n.air ++ r.1 },
        r.1.map (.executed i (Station.lineOf p)))
  | .publish i name kv =>
    let r := (ch.station i).publish name kv (n.worlds i)
    ({ n with worlds := Function.update n.worlds i r.2, air := n.air ++ r.1 }, [])
  | .chat p => ({ n with air := n.air ++ [p] }, [])

def step (call : NetworkCall κ ι V T) : Network κ ι σ V T × List (Happening κ ι V T) :=
  let r := n.stepWith ch call
  ({ r.1 with log := n.log ++ r.2 }, r.2)

def fresh (timeout : κ → T) (start : κ → ℤ) (worlds : ι → σ) : Network κ ι σ V T where
  clients c := { defaultTimeout := timeout c, nextId := start c }
  worlds := worlds

end Network
/-! ### What a node and a client do with a line -/

theorem cText_wire {p : Packet} (hsender : nul ∉ p.sender) :
    cText p.wire = p.sender ++ ':' :: ' ' :: cText p.text := by
  have hhead : nul ∉ p.sender ++ [':', ' '] := by
    rw [List.mem_append, not_or]
    exact ⟨hsender, by decide⟩
  have hsplit : p.wire = (p.sender ++ [':', ' ']) ++ p.text := by simp [Packet.wire]
  rw [hsplit, cText_append hhead]
  simp

/-- The name the channel puts in front comes off again. -/
theorem lineOf_eq {p : Packet} (hnul : nul ∉ p.sender) (hcolon : ':' ∉ p.sender)
    (htext : Scan.Stops isBlank (cText p.text)) : Station.lineOf p = cText p.text := by
  rw [Station.lineOf, cText_wire hnul]
  exact (Carries.sent hcolon).strip htext

theorem parse_hash (s : Text) (req : Request) : Parser.parse (some ('#' :: s)) ≠ (.ok, req) := by
  intro h
  have hnone : Parser.parse (some ('#' :: s)) = (.malformed, {}) := rfl
  rw [hnone] at h
  cases (Prod.mk.inj h).1

theorem McRpc.handleLine_of_not_asks {H Φ σ : Type*} (m : McRpc H Φ) (cb : Callbacks σ)
    (call : HandlerCall H σ) {line : Text} (h : ¬ ∃ req, m.Asks line req) (w : σ) :
    m.handleLine cb call line w = ⟨false, none, w⟩ := by
  cases hparse : Parser.parse (some line) with
  | mk result req =>
    cases result with
    | ok =>
      have haddr : m.dispatcher.isAddressedToUs req = false := by
        rw [← Bool.not_eq_true]
        exact fun haddr => h ⟨req, hparse, haddr⟩
      exact m.not_answered cb call hparse haddr w
    | _ => simp only [handleLine, Dispatcher.dispatch, hparse, Bool.false_eq_true, if_false]

namespace Station

variable {H Φ σ : Type} (s : Station H Φ σ)

/-- The node may send `reply` in answer to the line. -/
def Answers (line : Text) (reply : Packet) : Prop :=
  (∃ req, s.rpc.Asks line req) ∧ ∃ w : σ,
    reply = ⟨s.name, (s.rpc.dispatcher.dispatch s.call (some line) ReplyBuffer.init w).reply.cstr⟩

theorem handleInbound_eq (p : Packet) (w : σ) : s.handleInbound p w =
    let r := s.rpc.handleLine s.callbacks.recorded (silent s.call) (lineOf p) (w, [])
    (r.world.2.map (fun c => ⟨s.name, c.text⟩), r.world.1) := rfl

theorem handleInbound_not_asks {p : Packet} (h : ¬ ∃ req, s.rpc.Asks (lineOf p) req) (w : σ) :
    s.handleInbound p w = ([], w) := by
  rw [handleInbound_eq, s.rpc.handleLine_of_not_asks _ _ h]
  rfl

theorem handleLine_asks {line : Text} {req : Request} (h : s.rpc.Asks line req)
    (w : σ × List Published) : ∃ delayMs w', w'.2 = w.2 ∧
      (s.rpc.handleLine s.callbacks.recorded (silent s.call) line w).world =
        (McRpc.publishRaw s.callbacks.recorded (s.rpc.dispatcher.dispatch s.call (some line)
          ReplyBuffer.init w.1).reply.cstr delayMs w').world := by
  have hanswered := (s.rpc.dispatcher.dispatch_answered_iff s.call (some line) ReplyBuffer.init
    w.1).mpr ⟨req, h⟩
  simp only [McRpc.handleLine, s.rpc.dispatch_silent, hanswered, if_true]
  refine ⟨_, _, ?_, rfl⟩
  rw [McRpc.entropy16_recorded]

/-- A line is answered at most once. -/
theorem handleInbound_cases (p : Packet) (w : σ) : (s.handleInbound p w).1 = [] ∨
    ∃ reply, s.Answers (lineOf p) reply ∧ (s.handleInbound p w).1 = [reply] := by
  by_cases hasks : ∃ req, s.rpc.Asks (lineOf p) req
  · obtain ⟨req, hreq⟩ := hasks
    obtain ⟨delayMs, w', hlog, hworld⟩ := s.handleLine_asks hreq (w, [])
    rw [handleInbound_eq]
    dsimp only
    rw [hworld]
    rcases McRpc.publishRaw_recorded_cases s.callbacks (s.rpc.dispatcher.dispatch s.call
      (some (lineOf p)) ReplyBuffer.init w).reply.cstr delayMs w' with hsent | hsent
    · rw [hsent, hlog]
      exact .inl rfl
    · rw [hsent, hlog]
      exact .inr ⟨_, ⟨⟨req, hreq⟩, w, rfl⟩, rfl⟩
  · rw [s.handleInbound_not_asks hasks]
    exact .inl rfl

/-- A node with a transport answers a line that asks it under its request id. -/
theorem handleInbound_answers
    (hcb : s.callbacks.publishEx.isSome ∨ s.callbacks.publish.isSome) {p : Packet} {req : Request}
    (h : s.rpc.Asks (lineOf p) req) (hid : req.hasRequestId = true) (w : σ) :
    ∃ reply, s.Answers (lineOf p) reply ∧ (s.handleInbound p w).1 = [reply] := by
  obtain ⟨delayMs, w', hlog, hworld⟩ := s.handleLine_asks h (w, [])
  have hanswered := (s.rpc.dispatcher.dispatch_answered_iff s.call (some (lineOf p))
    ReplyBuffer.init w).mpr ⟨req, h⟩
  obtain ⟨-, rest, hreply⟩ := s.rpc.dispatcher.dispatch_answered s.call ReplyBuffer.init w h.1
    hanswered
  have hne : (s.rpc.dispatcher.dispatch s.call (some (lineOf p)) ReplyBuffer.init w).reply.cstr ≠
      [] := by
    rw [hreply, Request.prefixText, if_pos hid]
    exact List.cons_ne_nil _ _
  refine ⟨⟨s.name, _⟩, ⟨⟨req, h⟩, w, rfl⟩, ?_⟩
  rw [handleInbound_eq]
  dsimp only
  rw [hworld, McRpc.publishRaw_recorded hcb hne, hlog]
  rfl

/-- An answer carries the id of the line it answers. -/
theorem Answers.text_eq {s : Station H Φ σ} {line : Text} {reply : Packet}
    (h : s.Answers line reply) {req : Request} (hparse : Parser.parse (some line) = (.ok, req)) :
    ∃ rest, reply.text = req.prefixText ++ rest := by
  obtain ⟨hasks, w, rfl⟩ := h
  exact (s.rpc.dispatcher.dispatch_answered s.call ReplyBuffer.init w hparse
    ((s.rpc.dispatcher.dispatch_answered_iff s.call (some line) ReplyBuffer.init w).mpr hasks)).2

end Station

/-- A message whose text starts with no `#` word changes nothing and returns nothing. -/
theorem RequestCorrelator.classifyInbound_no_id {F V T : Type} [Truthy V]
    (c : RequestCorrelator V T) (py : Python F) {raw : Text}
    (h : ∀ digits, firstWord (Python.stripSenderPrefix (some raw)) ≠ some ('#' :: digits))
    (consume : Bool) : (c.classifyInbound py raw consume).2 = c ∧
      returnedPending (c.classifyInbound py raw consume).1 = [] := by
  have hid : py.takeRequestId (split (Python.stripSenderPrefix (some raw))) =
      .ok (none, split (Python.stripSenderPrefix (some raw))) := by
    cases hwords : split (Python.stripSenderPrefix (some raw)) with
    | nil => rfl
    | cons token rest =>
      refine py.takeRequestId_of_ne (fun digits he => h digits ?_)
      rw [firstWord, hwords, he]
      rfl
  simp only [classifyInbound, py.parseResponse_of_eq hid]
  split
  · exact ⟨rfl, rfl⟩
  · split
    · exact ⟨rfl, rfl⟩
    · exact ⟨rfl, rfl⟩
    · rw [c.matchResponse_of_peek]
      · exact ⟨rfl, rfl⟩
      · rw [py.requestId_responseOf]
        rfl

end Mcrpc
