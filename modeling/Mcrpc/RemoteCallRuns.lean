import Mcrpc.RemoteCalls

/-!
# Runs of a channel

What holds in every run whose requests use each id once: the log is one of the service of remote
calls, no reply sets off anything at a node and no request anything at a client, and a request that
is pending can still be answered.
-/

namespace Mcrpc

open CallService

variable {κ ι H Φ σ F V T : Type} {ch : Channel κ ι H Φ σ F}

namespace Network

/-- The log is a history of remote calls, and says what the clients and the air hold. -/
def Holds (ch : Channel κ ι H Φ σ F) (n : Network κ ι σ V T) : Prop :=
  Lawful ch.service n.log ∧ Tracks ch n

theorem holds_fresh (timeout : κ → T) (start : κ → ℤ) (worlds : ι → σ) :
    Holds ch (fresh timeout start worlds : Network κ ι σ V T) :=
  ⟨trivial, Tracks.fresh timeout start worlds⟩

theorem setClient_self [DecidableEq κ] (n : Network κ ι σ V T) (c : κ) :
    n.setClient c (n.clients c) = n := by
  rw [setClient, Function.update_eq_self]

variable [DecidableEq κ] [DecidableEq ι] [Truthy V] [Add T] [LE T] [DecidableLE T]

variable {n : Network κ ι σ V T}

/-- The network after a node answered a line. -/
theorem step_handleInbound (ch : Channel κ ι H Φ σ F) {i : ι} {k : ℕ} {p reply : Packet}
    (hk : n.air[k]? = some p)
    (hone : ((ch.station i).handleInbound p (n.worlds i)).1 = [reply]) :
    (n.step ch (.handleInbound i k)).1 = { n with
      worlds := Function.update n.worlds i ((ch.station i).handleInbound p (n.worlds i)).2
      air := n.air ++ [reply]
      log := n.log ++ [.executed i (Station.lineOf p) reply] } := by
  simp only [step, stepWith, hk]
  rw [hone]
  rfl

/-- A client that hears the answer to a pending request. -/
theorem step_classifyInbound (hch : ch.WellNamed) (hpy : ch.py.Regular) {c : κ} {m : ℤ}
    {p : PendingRequest V T} (hwritten : p.Written) (hid : p.requestId = m)
    (hget : (n.clients c).pending.get m = some p) (hbroadcast : p.isBroadcast = false) {i : ι}
    {reply : Packet} (hanswers : (ch.station i).Answers (cText p.rawRequest) reply) {j : ℕ}
    (hj : n.air[j]? = some reply) : (n.step ch (.classifyInbound c j true)).1 =
      { n.setClient c { n.clients c with pending := (n.clients c).pending.erase m } with
        log := n.log ++ [.returned c p reply true] } := by
  obtain ⟨m', rest, hm', hlt, hreply⟩ := hwritten.answer_eq hanswers
  obtain ⟨resp, hresp, hclassify⟩ := classifyInbound_id hpy (n.clients c) hlt (hch.station i).2 rest
    true
  rw [← hreply, (n.clients c).matchResponse_of_get hresp (by rw [← hm', hid, hget]), hbroadcast,
    ← hm', hid] at hclassify
  simp only [step, stepWith, hj, hclassify, returnedOn, RequestCorrelator.returnedPending,
    Option.toList_some, List.map_cons, List.map_nil, hbroadcast, Bool.not_false, Bool.and_self,
    Bool.false_eq_true, if_false]

/-! ### A client and the node `tracker` -/

def pingStation : Station Unit Unit Unit where
  name := "tracker".toList
  rpc := McRpc.pingNode
  callbacks := { publishEx := some (fun _ _ w => (true, w)) }
  call := Dispatcher.writes "pong".toList

def pingChannel : Channel Unit Unit Unit Unit Unit ℚ where
  py := Python.ascii
  clientName _ := "ha".toList
  station _ := pingStation

theorem pingChannel_wellNamed : pingChannel.WellNamed where
  client _ := show nul ∉ "ha".toList ∧ ':' ∉ "ha".toList by decide
  station _ := show nul ∉ "tracker".toList ∧ ':' ∉ "tracker".toList by decide
  noEvent _ := show ieq "event".toList "tracker".toList = false by decide

def pingCall : NetworkCall Unit Unit Bool ℕ := .build () RequestCorrelator.pingTracker 0

/-- The node hears the request and the client hears the reply twice. -/
def pingCalls : List (NetworkCall Unit Unit Bool ℕ) :=
  [pingCall, .handleInbound () 0, .classifyInbound () 1 true, .classifyInbound () 1 true]

abbrev pingFresh : Network Unit Unit Unit Bool ℕ := fresh (fun _ => 15) (fun _ => 1) (fun _ => ())

theorem proper_pingCall : Proper pingChannel pingFresh pingCall := fun _ =>
  ⟨⟨.named (.word "tracker".toList) rfl rfl, rfl⟩, ⟨.word "ping".toList, rfl⟩, ⟨1, rfl, by decide⟩,
    fun _ _ h => absurd h List.not_mem_nil⟩

theorem proper_onlyPing : EveryStep (step pingChannel) (Proper pingChannel) pingFresh [pingCall] :=
  ⟨proper_pingCall, trivial⟩

theorem proper_pingCalls : EveryStep (step pingChannel) (Proper pingChannel) pingFresh pingCalls :=
  ⟨proper_pingCall, trivial, trivial, trivial, trivial⟩

def pingPending : PendingRequest Bool ℕ :=
  RequestCorrelator.pingTracker.pendingRequest 1 "tracker#1 ping".toList 15

theorem asks_pingPending : pingStation.rpc.Asks (cText pingPending.rawRequest)
    { Dispatcher.pingSeven with requestId := 1 } := ⟨by decide, rfl⟩

def pongPacket : Packet := ⟨"tracker".toList, "#1 pong".toList⟩

def pingPast : List (Happening Unit Unit Bool ℕ) :=
  [.issued () pingPending, .executed () "tracker#1 ping".toList pongPacket]

theorem log_pingCalls : (finalState (step pingChannel) pingFresh pingCalls).log =
    pingPast ++ .returned () pingPending pongPacket true :: [] := rfl

/-! ### The runs -/

section Runs

variable (hch : ch.WellNamed) (hpy : ch.py.Regular) (timeout : κ → T) (start : κ → ℤ)
variable (worlds : ι → σ) {calls : List (NetworkCall κ ι V T)}

include hch hpy in
theorem Holds.step {n : Network κ ι σ V T} (h : Holds ch n) {call : NetworkCall κ ι V T}
    (hproper : Proper ch n call) : Holds ch (n.step ch call).1 := by
  obtain ⟨hmore, hnext⟩ := tracks_step hch hpy h.2 hproper
  exact ⟨h.1.append hmore, hnext⟩

include hch hpy in
theorem reachable (h : EveryStep (step ch) (Proper ch) (fresh timeout start worlds) calls) :
    Holds ch (finalState (step ch) (fresh timeout start worlds) calls) :=
  h.invariant (J := fun _ n => Holds ch n) (holds_fresh timeout start worlds)
    (fun _ _ _ hn hproper => hn.step hch hpy hproper) calls List.prefix_rfl

include hch hpy in
/-- What the clients and the nodes do is a history of remote calls. -/
theorem lawful_of_proper
    (h : EveryStep (step ch) (Proper ch) (fresh timeout start worlds) calls) :
    Lawful ch.service (finalState (step ch) (fresh timeout start worlds) calls).log :=
  (reachable hch hpy timeout start worlds h).1

theorem lawful_pingCalls :
    Lawful pingChannel.service (finalState (step pingChannel) pingFresh pingCalls).log :=
  lawful_of_proper pingChannel_wellNamed Python.ascii_regular _ _ _ proper_pingCalls

include hch hpy in
/-- A client is returned a reply only when a node that the request asks made it before, of that very
request; and a reply that is consumed, or a request that is given up, is the end of it. -/
theorem returned_of_proper
    (h : EveryStep (step ch) (Proper ch) (fresh timeout start worlds) calls)
    {past rest : List (Happening κ ι V T)} {c : κ} {p : PendingRequest V T} {reply : Packet}
    {final : Bool} (hlog : (finalState (step ch) (fresh timeout start worlds) calls).log =
      past ++ .returned c p reply final :: rest) :
    (∃ i, .executed i (cText p.rawRequest) reply ∈ past ∧
      (ch.station i).Answers (cText p.rawRequest) reply) ∧
    ¬ Closed past c p ∧ (final = true → ∀ reply' final', .returned c p reply' final' ∉ rest) := by
  obtain ⟨hlawful, -⟩ := reachable hch hpy timeout start worlds h
  rw [hlog] at hlawful
  refine ⟨hlawful.executed_before, hlawful.allowed.open_of_returned, ?_⟩
  rintro rfl
  exact hlawful.not_returned_after (.inl ⟨reply, List.mem_singleton_self _⟩)

theorem returned_pingCalls :
    (∃ i, .executed i (cText pingPending.rawRequest) pongPacket ∈ pingPast ∧
      (pingChannel.station i).Answers (cText pingPending.rawRequest) pongPacket) ∧
    ¬ Closed pingPast () pingPending := by
  obtain ⟨hexecuted, hopen, -⟩ := returned_of_proper pingChannel_wellNamed Python.ascii_regular _ _ _
    proper_pingCalls log_pingCalls
  exact ⟨hexecuted, hopen⟩

/-- Requests do nothing at the clients and replies do nothing at the nodes. -/
def Inert (ch : Channel κ ι H Φ σ F) (n : Network κ ι σ V T) : NetworkCall κ ι V T → Prop
  | .classifyInbound c k consume => ∀ c' p, .issued c' p ∈ n.log →
    n.air[k]? = some ⟨ch.clientName c', p.rawRequest⟩ →
      n.stepWith ch (.classifyInbound c k consume) = (n, [])
  | .handleInbound i k => ∀ j line reply, .executed j line reply ∈ n.log → n.air[k]? = some reply →
    n.stepWith ch (.handleInbound i k) = (n, [])
  | _ => True

include hch in
theorem Holds.inert {n : Network κ ι σ V T} (hn : Holds ch n) (call : NetworkCall κ ι V T) :
    Inert ch n call := by
  obtain ⟨hlawful, h⟩ := hn
  cases call with
  | classifyInbound c k consume =>
    intro c' p hissued hk
    obtain ⟨hsame, hnone⟩ := (n.clients c).classifyInbound_no_id ch.py
      ((h.written c' p hissued).firstWord_ne (hch.client c').2) consume
    simp only [stepWith, hk]
    rw [returnedOn, hsame, hnone, setClient_self]
    rfl
  | handleInbound i k =>
    intro j line reply hexecuted hk
    obtain ⟨hanswers, c, p, hissued, hline⟩ := hlawful.executed hexecuted
    rw [← hline] at hanswers
    obtain ⟨m, rest, -, -, hreply⟩ := (h.written c p hissued).answer_eq hanswers
    obtain ⟨hnul, hcolon⟩ := hch.station j
    have hasks : ¬ ∃ req, (ch.station i).rpc.Asks (Station.lineOf reply) req := by
      rw [hreply]
      exact not_asks_hash hnul hcolon _ _
    simp only [stepWith, hk]
    rw [(ch.station i).handleInbound_not_asks hasks, Function.update_eq_self]
    simp
  | _ => trivial

include hch hpy in
/-- No request that is heard again, or by another client, and no reply that reaches a node sets off
anything. -/
theorem inert_of_proper (h : EveryStep (step ch) (Proper ch) (fresh timeout start worlds) calls) :
    EveryStep (step ch) (Inert ch) (fresh timeout start worlds) calls := by
  refine h.imp_of_invariant (I := Holds ch) ?_ (holds_fresh timeout start worlds)
  exact fun n call hn hproper => ⟨hn.inert hch call, hn.step hch hpy hproper⟩

theorem inert_pingCalls :
    EveryStep (step pingChannel) (Inert pingChannel) pingFresh pingCalls :=
  inert_of_proper pingChannel_wellNamed Python.ascii_regular _ _ _ proper_pingCalls

include hch hpy in
/-- From wherever a run got to, a pending request is answered when a node it asks hears it and its
client hears the reply. -/
theorem answerable_of_proper
    (h : EveryStep (step ch) (Proper ch) (fresh timeout start worlds) calls) {c : κ} {m : ℤ}
    {p : PendingRequest V T}
    (hget : ((finalState (step ch) (fresh timeout start worlds) calls).clients c).pending.get m =
      some p) (hbroadcast : p.isBroadcast = false) {i : ι} {req : Request}
    (hasks : (ch.station i).rpc.Asks (cText p.rawRequest) req)
    (hcb : (ch.station i).callbacks.publishEx.isSome ∨ (ch.station i).callbacks.publish.isSome) :
    ∃ k j reply, let n := finalState (step ch) (fresh timeout start worlds) calls
      let answered := finalState (step ch) n [.handleInbound i k, .classifyInbound c j true]
      answered.log = n.log ++
          [.executed i (cText p.rawRequest) reply, .returned c p reply true] ∧
        (answered.clients c).pending = (n.clients c).pending.erase m ∧
        ∀ c', c' ≠ c → answered.clients c' = n.clients c' := by
  obtain ⟨hlawful, htracks⟩ := reachable hch hpy timeout start worlds h
  generalize finalState (step ch) (fresh timeout start worlds) calls = n at *
  obtain ⟨hissued, -⟩ := htracks.open_of_get hget
  have hwritten := htracks.written c p hissued
  obtain ⟨k, hk⟩ := List.mem_iff_getElem?.mp (htracks.sent c p hissued)
  have hline := hwritten.lineOf_eq (hch.client c).1 (hch.client c).2
  obtain ⟨req', hparse, hhas, -⟩ := hwritten.parse
  obtain rfl : req = req' := (Prod.mk.inj (hasks.1.symm.trans hparse)).2
  rw [← hline] at hasks
  obtain ⟨reply, hanswers, hone⟩ := (ch.station i).handleInbound_answers hcb hasks hhas (n.worlds i)
  have hanswered := step_handleInbound ch hk hone
  rw [hline] at hanswers hanswered
  refine ⟨k, n.air.length, reply, ?_⟩
  simp only [finalState, List.foldl_cons, List.foldl_nil]
  generalize (n.step ch (.handleInbound i k)).1 = answered at hanswered
  have hget' : (answered.clients c).pending.get m = some p := by rw [hanswered, hget]
  have hair : answered.air[n.air.length]? = some reply := by
    rw [hanswered]
    exact List.getElem?_concat_length
  rw [step_classifyInbound hch hpy hwritten (htracks.keyed c m p hget) hget' hbroadcast hanswers hair,
    hanswered]
  refine ⟨by simp, by simp [setClient], fun c' hc => ?_⟩
  exact Function.update_of_ne hc _ _

theorem answerable_pingCall :
    ∃ k j reply, let n := finalState (step pingChannel) pingFresh [pingCall]
      let answered := finalState (step pingChannel) n [.handleInbound () k, .classifyInbound () j true]
      answered.log = n.log ++
          [.executed () (cText pingPending.rawRequest) reply, .returned () pingPending reply true] ∧
        (answered.clients ()).pending = (n.clients ()).pending.erase 1 ∧
        ∀ c', c' ≠ () → answered.clients c' = n.clients c' :=
  answerable_of_proper pingChannel_wellNamed Python.ascii_regular (fun _ => 15) (fun _ => 1)
    (fun _ => ()) proper_onlyPing rfl rfl asks_pingPending (.inl rfl)

end Runs

end Network
end Mcrpc
