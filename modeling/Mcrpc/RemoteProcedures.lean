import Mcrpc.CallResultBuilders
import Mcrpc.FeatureReplies
import Mcrpc.Lib.Simulation
import Mcrpc.Wiring
import Mcrpc.WireRoundTrip

/-!
# Remote procedures

A service answers procedures by call results. A host that implements it makes its node a server of
it: what the callers read from the replies is what the service would answer them on the spot, call
after call, and the state of the host is that of the service.
-/

namespace Mcrpc

open Scan CallResult

/-! ### Services -/

/-- A result that a reader finds as it is, with room behind the longest id. -/
structure CallAnswer where
  head : Head
  pairs : List Field
  plain : ∀ f ∈ pairs, f.Plain
  nul_not_mem : ∀ f ∈ pairs, nul ∉ f.text
  length_le : (head.text ++ fieldsText pairs).length ≤ 179

namespace CallAnswer

def text (a : CallAnswer) : Text := a.head.text ++ fieldsText a.pairs

def plainHead (head : Head) (h : head.text.length ≤ 179) : CallAnswer where
  head := head
  pairs := []
  plain _ hf := absurd hf List.not_mem_nil
  nul_not_mem _ hf := absurd hf List.not_mem_nil
  length_le := (congrArg List.length (List.append_nil head.text)).trans_le h

def done : CallAnswer := plainHead .ok (by decide)

def invalidArgument : CallAnswer :=
  plainHead (.err (firmwareCode "invalid_argument".toList rfl (by decide))) (by decide)

def unknownProc : CallAnswer :=
  plainHead (.err (firmwareCode "unknown_proc".toList rfl (by decide))) (by decide)

def reason : Field := ("reason".toList, "proc".toList)

theorem writable_reason : reason.Writable := ⟨rfl, clean_word rfl⟩

def invalidProc : CallAnswer where
  head := .err (firmwareCode "invalid_argument".toList rfl (by decide))
  pairs := [reason]
  plain := List.forall_mem_singleton.mpr writable_reason.plain
  nul_not_mem := List.forall_mem_singleton.mpr writable_reason.nul_not_mem
  length_le := by decide

def result (a : CallAnswer) (rid : Option ℤ) : ParsedCallResult where
  ok := a.head.kind = "ok".toList
  kind := some a.head.kind
  code := a.head.code
  requestId := rid
  fields := pairsDict a.pairs
  valid := true
  knownErr := a.head.code.map (fun c => decide (c ∈ errCodes))

def write (a : CallAnswer) (reply : ReplyBuffer) : ReplyBuffer :=
  a.pairs.foldl (fun out f => (appendKv out f.1 f.2).2) (a.head.write reply)

end CallAnswer

/-- The answer to a procedure and its arguments, `none` when it is unknown, and the next state. -/
abbrev Service (S : Type) := Text → List Text → S → Option CallAnswer × S

/-- The service with the checks of the procedure name that come before it. -/
def Service.perform {S : Type} (f : Service S) (args : List Text) (s : S) : CallAnswer × S :=
  match args with
  | [] => (.invalidArgument, s)
  | proc :: rest =>
    if isValidProc proc then
      let (answer, s) := f proc rest s
      (answer.getD .unknownProc, s)
    else (.invalidProc, s)

/-- A host that takes the procedures of the service and leaves the answers, or nothing for a plain
`ok`. -/
structure HostServices.Implements {S R : Type} (h : HostServices S R) (f : Service S) : Prop where
  state : ∀ {req : Request} {proc : Text} {rest : List Text} (reply : ReplyBuffer) (s : S),
    req.args = proc :: rest → (h.handleCall proc req reply s).2 = (f proc rest s).2
  refuses : ∀ {req : Request} {proc : Text} {rest : List Text} (reply : ReplyBuffer) (s : S),
    req.args = proc :: rest → (f proc rest s).1 = none →
      (h.handleCall proc req reply s).1.1 = false
  answers : ∀ {req : Request} {proc : Text} {rest : List Text} (reply : ReplyBuffer) (s : S)
    {a : CallAnswer}, req.args = proc :: rest → (f proc rest s).1 = some a →
      (h.handleCall proc req reply s).1.1 = true ∧
        ((h.handleCall proc req reply s).1.2.text = a.text ∨
          a = .done ∧ (h.handleCall proc req reply s).1.2.len = 0)

def Service.host {S R : Type} (f : Service S) : HostServices S R where
  handleCall proc req reply s :=
    let (answer, s) := f proc req.args.tail s
    ((answer.isSome, answer.elim reply (·.write reply)), s)

namespace CallAnswer

variable (a : CallAnswer) (reply : ReplyBuffer)

/-- Pairs that `appendKv` takes are written behind what there is, if they have room as a whole. -/
theorem text_foldl_appendKv {pairs : List Field} (haccepts : ∀ f ∈ pairs, AcceptsKv f)
    {out : ReplyBuffer} (hroom : out.len + (fieldsText pairs).length < maxReply) :
    (pairs.foldl (fun out f => (appendKv out f.1 f.2).2) out).text =
      out.text ++ fieldsText pairs := by
  induction pairs generalizing out with
  | nil => exact (List.append_nil _).symm
  | cons f pairs ih =>
    obtain ⟨hf, hpairs⟩ := List.forall_mem_cons.mp haccepts
    have hfields : (fieldsText (f :: pairs)).length = f.text.length + (fieldsText pairs).length :=
      List.length_append
    have htext : (appendKv out f.1 f.2).2.text = out.text ++ f.text :=
      text_appendKv hf (by omega)
    have hlen : (appendKv out f.1 f.2).2.len = out.len + f.text.length := by
      rw [← ReplyBuffer.length_text, htext, List.length_append, ReplyBuffer.length_text]
    rw [List.foldl_cons, ih hpairs (by omega), htext, List.append_assoc]
    rfl

theorem accepts_of_mem {f : Field} (hf : f ∈ a.pairs) : AcceptsKv f := by
  have hplain := a.plain f hf
  have hspace (t : Text) (h : ∀ c ∈ t, isSpace c = false) : ' ' ∉ t := fun hmem =>
    absurd (h ' ' hmem) (by decide)
  exact ⟨hplain.key_ne_nil, ⟨hspace _ (fun c hc => (hplain.key c hc).2), hplain.equals⟩,
    hspace _ hplain.value⟩

/-- Every result can be written with `CallResult.h`. -/
theorem text_write : (a.write reply).text = a.text := by
  have hlen := a.length_le
  have hsize : maxReply = 192 := rfl
  have hhead : (a.head.write reply).len = a.head.text.length := by
    rw [← ReplyBuffer.length_text, a.head.text_write]
  rw [List.length_append] at hlen
  rw [write, text_foldl_appendKv (fun f hf => a.accepts_of_mem hf) (by omega), a.head.text_write]
  rfl

theorem text_ne_nil : a.text ≠ [] := by
  rw [text, a.head.text_eq]
  cases a.head <;> exact List.cons_ne_nil _ _

theorem nul_not_mem_text : nul ∉ a.text :=
  List.not_mem_append a.head.nul_not_mem_text (nul_not_mem_fieldsText a.nul_not_mem)

end CallAnswer

/-- Every service is implemented by a host. -/
theorem Service.implements_host {S R : Type} (f : Service S) :
    (f.host : HostServices S R).Implements f := by
  constructor
  · intro req proc rest reply s hargs
    change (f proc req.args.tail s).2 = _
    rw [hargs]
    rfl
  · intro req proc rest reply s hargs hanswer
    change (f proc req.args.tail s).1.isSome = false
    rw [hargs, List.tail_cons, hanswer]
    rfl
  · intro req proc rest reply s a hargs hanswer
    change (f proc req.args.tail s).1.isSome = true ∧
      (((f proc req.args.tail s).1.elim reply (·.write reply)).text = a.text ∨ _)
    rw [hargs, List.tail_cons, hanswer]
    exact ⟨rfl, .inl (a.text_write reply)⟩

/-! ### One call -/

section Call

variable {S R : Type} {f : Service S} {n : Node S R} (hhost : n.host.Implements f) (req : Request)
  (s : S)

include hhost

/-- What the host leaves of a procedure that the service knows. -/
theorem text_answered (reply : ReplyBuffer) {proc : Text} {rest : List Text} {out : ReplyBuffer}
    {taken : Bool} {s' : S} {a : CallAnswer} (hargs : req.args = proc :: rest)
    (hcall : n.host.handleCall proc req reply s = ((taken, out), s'))
    (ha : (f proc rest s).1 = some a) :
    taken = true ∧ (if out.len = 0 then CallResult.ok out else out).text = a.text := by
  obtain ⟨htaken, hwritten⟩ := hhost.answers reply s hargs ha
  rw [hcall] at htaken hwritten
  refine ⟨htaken, ?_⟩
  rcases hwritten with hwritten | ⟨rfl, hempty⟩
  · have hlen : out.len ≠ 0 := by
      rw [← ReplyBuffer.length_text, hwritten]
      exact (List.length_pos_of_ne_nil a.text_ne_nil).ne'
    rw [if_neg hlen]
    exact hwritten
  · rw [if_pos hempty]
    exact CallAnswer.done.text_write out

/-- The handler leaves the answer of the service. -/
theorem cmdCall_performs [CFloat R] (reply : ReplyBuffer) :
    ∃ body, cmdCall req reply (some (n, s)) = ((true, body), some (f.perform req.args s).2) ∧
      body.text = (f.perform req.args s).1.text := by
  cases hargs : req.args with
  | nil =>
    refine ⟨_, ?_, CallAnswer.invalidArgument.text_write reply⟩
    rw [cmdCall, hargs]
    rfl
  | cons proc rest =>
    cases hproc : isValidProc proc with
    | false =>
      have hperform : f.perform (proc :: rest) s = (.invalidProc, s) := by
        rw [Service.perform, hproc]
        rfl
      rw [hperform]
      refine ⟨_, ?_, CallAnswer.invalidProc.text_write reply⟩
      rw [cmdCall]
      simp only [hargs, hproc]
      rfl
    | true =>
      rcases hcall : n.host.handleCall proc req reply s with ⟨⟨taken, out⟩, s'⟩
      have hstate := hhost.state reply s hargs
      have hperform : f.perform (proc :: rest) s =
          ((f proc rest s).1.getD .unknownProc, (f proc rest s).2) := by
        rw [Service.perform, hproc]
        rfl
      rw [hcall] at hstate
      obtain rfl : s' = (f proc rest s).2 := hstate
      rw [hperform, cmdCall_of_isValidProc hargs hproc hcall]
      refine ⟨_, rfl, ?_⟩
      cases hanswer : (f proc rest s).1 with
      | none =>
        have htaken := hhost.refuses reply s hargs hanswer
        rw [hcall] at htaken
        obtain rfl : taken = false := htaken
        exact CallAnswer.unknownProc.text_write out
      | some a =>
        obtain ⟨rfl, htext⟩ := text_answered hhost req s reply hargs hcall hanswer
        exact htext

end Call

/-! ### The reply to a call -/

namespace CallAnswer

variable (a : CallAnswer) (req : Request)

theorem length_reply_lt : (req.prefixText ++ a.text).length < maxReply := by
  have hid := length_prefixText_le req
  have hlen : a.text.length ≤ 179 := a.length_le
  have hsize : maxReply = 192 := rfl
  rw [List.length_append]
  omega

theorem parse_prefixText {F : Type} (py : Python F) :
    py.parseCallResult (some (req.prefixText ++ a.text)) = .ok (a.result (Report.replyId req)) := by
  have hsplit : split a.text = a.head.kind :: (a.head.code.toList ++ a.pairs.map Field.token) := by
    rw [text, split_append_fieldsText _ a.plain, a.head.split_text]
    rfl
  have hkind : a.head.kind ∈ resultKinds := by
    cases a.head <;> simp [Head.kind, resultKinds]
  rw [parseCallResult_of_takeRequestId py a.head
      (Report.takeRequestId_prefixText py hsplit (kind_ne_hash a.head) req),
    callResultOf, readResultFields_tokens (fun f hf => (a.plain f hf).equals)]
  dsimp only
  rw [if_neg (not_not.mpr hkind)]
  rfl

end CallAnswer

/-! ### Calls over the wire -/

structure RemoteCall where
  target : Target
  id : Option UInt32
  args : List Token

namespace RemoteCall

def request (c : RemoteCall) : Request := wireRequest c.target c.id (.word "call".toList) c.args

theorem replyId_request (c : RemoteCall) :
    Report.replyId c.request = c.id.map (fun n => (n.toNat : ℤ)) := by
  obtain ⟨target, id, args⟩ := c
  cases id <;> rfl

/-- The line that `build_request` makes of the call asks the node with the dispatcher, and fits the
request of its parser. -/
structure Asks (d : Dispatcher Handler) (line : Text) (c : RemoteCall) : Prop where
  built : buildRequest c.target.text "call".toList (c.id.map (fun n => (n.toNat : ℤ)))
    (givenArgs c.args) = .ok line
  target_lt : c.target.name.length < maxToken
  args_le : c.args.length ≤ maxArgs
  args : ∀ a ∈ c.args, a.chars.length < maxToken ∧ nul ∉ a.chars
  addressed : d.isAddressedToUs c.request = true

theorem Asks.parse {d : Dispatcher Handler} {line : Text} {c : RemoteCall} (h : c.Asks d line) :
    Parser.parse (some line) = (.ok, c.request) := by
  have hbuilt := h.built.symm.trans (buildRequest_plain c.target c.id (.word "call".toList) c.args)
  obtain rfl := Except.ok.inj hbuilt
  exact parse_plain h.target_lt (by decide) (by decide) (by decide) h.args_le
    (fun a ha => (h.args a ha).1)

def perform {S : Type} (f : Service S) (s : S) (c : RemoteCall) : S × ParsedCallResult :=
  let r := f.perform (c.args.map Run.chars) s
  (r.2, r.1.result (c.id.map (fun n => (n.toNat : ℤ))))

end RemoteCall

namespace Process

variable {ι S R F : Type} [DecidableEq ι] [CFloat R]

def serve (d : Dispatcher Handler) (reply : ReplyBuffer) (p : Process ι S R) (line : Text) :
    Process ι S R × DispatchResult (Process ι S R) :=
  let out := d.dispatch call (some line) reply p
  (out.world, out)

variable {f : Service S} {p : Process ι S R} {i : ι} {d : Dispatcher Handler}
  {entry : CommandEntry Handler}

/-- A call is answered as the service answers it, which leaves its state in the host. -/
theorem dispatch_performs (hinstance : p.instances .core = some i)
    (hhost : (p.nodes i).host.Implements f) {line : Option Text} {req : Request}
    (hparse : Parser.parse line = (.ok, req)) (haddr : d.isAddressedToUs req = true)
    (hfind : d.registry.find req.command = some entry) (hentry : entry.handler = .cmdCall)
    (reply : ReplyBuffer) :
    let out := d.dispatch call line reply p
    let r := f.perform req.args (p.states i)
    out.answered = true ∧ out.reply.cstr = req.prefixText ++ r.1.text ∧
      out.world = (stateLens i).set r.2 p := by
  intro out r
  obtain ⟨body, hrun, htext⟩ := cmdCall_performs hhost req (p.states i) ReplyBuffer.init.clear
  have hread : p.read entry.handler = some i := by
    rw [hentry]
    exact hinstance
  have hcall : call entry.handler req ReplyBuffer.init.clear p =
      ((true, body), (stateLens i).set r.2 p) := by
    rw [call, hread, hentry]
    dsimp only
    rw [Handler.run, hrun]
    rfl
  obtain ⟨hanswered, hreply, hworld⟩ :=
    d.dispatch_of_body reply hparse haddr hfind (congrArg Prod.fst hcall)
  have hcstr : body.cstr = r.1.text := body.cstr_of_text htext r.1.nul_not_mem_text
  have hroom := r.1.length_reply_lt req
  rw [List.length_append] at hroom
  refine ⟨hanswered, ?_, hworld.trans (congrArg Prod.snd hcall)⟩
  rw [hreply, Dispatcher.fillBody_of_ne_nil (hcstr.trans_ne r.1.text_ne_nil), hcstr]
  exact (Dispatcher.cstr_writePrefixed_iff _ req r.1.nul_not_mem_text r.1.text_ne_nil).mpr hroom

variable (py : Python F)

/-- Serving the lines of the calls and performing the calls go together step by step. -/
theorem serve_simulates (hinstance : p.instances .core = some i)
    (hhost : (p.nodes i).host.Implements f)
    (hfind : d.registry.find "call".toList = some entry) (hentry : entry.handler = .cmdCall)
    (reply : ReplyBuffer) :
    Simulates (serve d reply) (RemoteCall.perform f) (fun line c => c.Asks d line)
      (fun out result => out.answered = true ∧
        py.parseCallResult (some out.reply.cstr) = .ok result)
      (fun q s => q = (stateLens i).set s p) := by
  constructor
  rintro q s line c rfl hasks
  let q := (stateLens i).set s p
  have hget : q.states i = s := (stateLens i).get_set s p
  obtain ⟨hanswered, hcstr, hworld⟩ :=
    @dispatch_performs ι S R _ _ f q i d entry hinstance hhost (some line) c.request hasks.parse
      hasks.addressed hfind hentry reply
  rw [hget] at hcstr hworld
  refine ⟨⟨hanswered, ?_⟩, ?_⟩
  · change py.parseCallResult (some (d.dispatch call (some line) reply q).reply.cstr) = _
    rw [hcstr, CallAnswer.parse_prefixText, c.replyId_request]
    rfl
  · exact hworld.trans ((stateLens i).set_set ..)

end Process

/-! ### A lamp -/

theorem writable_on (on : Bool) : Field.Writable ("on".toList, flag on) := ⟨rfl, clean_flag on⟩

def lampAnswer (on : Bool) : CallAnswer where
  head := .ok
  pairs := [("on".toList, flag on)]
  plain := List.forall_mem_singleton.mpr (writable_on on).plain
  nul_not_mem := List.forall_mem_singleton.mpr (writable_on on).nul_not_mem
  length_le := by cases on <;> decide

def lamp : Service Bool := fun proc _ on =>
  if proc = "lamp.toggle".toList then (some (lampAnswer !on), !on) else (none, on)

def lampNode : Process Unit Bool Unit where
  nodes _ := {
    rpc := [SetupCall.add (some .core), .begin].foldl SetupCall.run { nodeName := "hall".toList }
    host := lamp.host }
  states _ := false
  instances k := if k = .core then some () else none

def toggle (n : UInt32) : RemoteCall :=
  ⟨.named (.word "hall".toList) rfl rfl, some n, [.word "lamp.toggle".toList]⟩

theorem asks_toggle (n : UInt32) : (toggle n).Asks (lampNode.nodes ()).rpc.dispatcher
    (plainLine (toggle n).target (some n) (.word "call".toList) (toggle n).args).text where
  built := buildRequest_plain (toggle n).target (some n) (.word "call".toList) (toggle n).args
  target_lt := show "hall".toList.length < maxToken by decide
  args_le := show 1 ≤ maxArgs by decide
  args := List.forall_mem_singleton.mpr (by decide)
  addressed := rfl

end Mcrpc
