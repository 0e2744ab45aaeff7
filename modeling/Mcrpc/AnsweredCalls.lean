import Mcrpc.CallResultSyntax
import Mcrpc.NodeFields
import Mcrpc.ProcName
import Mcrpc.Process
import Mcrpc.RequestId
import Mcrpc.Transport

/-!
# Answered calls

The reply of a node to `call`. Each exit of `cmdCall` writes a call result, and the host may write
one of its own, which is kept only when it takes the call. The calls of the host are recorded beside
its state.
-/

namespace Mcrpc

namespace CallResult

/-- A text that is a call result without an id. -/
def WellFormed (text : Text) : Prop :=
  ∃ l : ResultLine, l.Grammatical ∧ l.id = none ∧ split text = l.tokens

/-- A body that is a call result and has room behind the longest id. -/
structure Deliverable (body : ReplyBuffer) : Prop where
  wellFormed : WellFormed body.cstr
  length_le : body.cstr.length ≤ 179

/-! ### Results the firmware writes -/

/-- The head of a result is a word of the grammar. -/
theorem Head.exists_resultWord (h : Head) :
    ∃ w : ResultWord, w.tokens = h.kind :: h.code.toList ∧ w.code = h.code := by
  cases h with
  | ok => exact ⟨.plain "ok".toList (by decide), rfl, rfl⟩
  | busy => exact ⟨.plain "busy".toList (by decide), rfl, rfl⟩
  | retry => exact ⟨.plain "retry".toList (by decide), rfl, rfl⟩
  | err code => exact ⟨.err "err".toList rfl code.text, rfl, rfl⟩

theorem wellFormed_head (h : Head) {pairs : List Field} (hpairs : ∀ f ∈ pairs, f.Plain) :
    WellFormed (h.text ++ fieldsText pairs) := by
  have hkeys : ∀ f ∈ pairs, '=' ∉ f.1 := fun f hf => (hpairs f hf).equals
  obtain ⟨w, htokens, hcode⟩ := h.exists_resultWord
  refine ⟨⟨none, w, pairs, hkeys⟩, ⟨?_, fun f hf => (hpairs f hf).key_ne_nil⟩, rfl, ?_⟩
  · intro code hmem
    rw [hcode] at hmem
    cases h with
    | err c =>
      obtain rfl : c.text = code := Option.some.inj hmem
      exact c.equals
    | _ => cases hmem
  · rw [split_append_fieldsText _ hpairs, h.split_text, ← htokens]
    rfl

theorem deliverable_of_text {body : ReplyBuffer} (h : Head) {pairs : List Field}
    (htext : body.text = h.text ++ fieldsText pairs) (hpairs : ∀ f ∈ pairs, f.Writable)
    (hlen : (h.text ++ fieldsText pairs).length ≤ 179) : Deliverable body := by
  have hnul : nul ∉ h.text ++ fieldsText pairs := List.not_mem_append h.nul_not_mem_text
    (nul_not_mem_fieldsText (fun f hf => (hpairs f hf).nul_not_mem))
  have hcstr := body.cstr_of_text htext hnul
  exact ⟨hcstr ▸ wellFormed_head h (fun f hf => (hpairs f hf).plain), hcstr ▸ hlen⟩

def firmwareCode (code : Text) (hkey : isKey code = true) (hlen : code.length ≤ 64) : ErrorCode :=
  ⟨code, (clean_of_isKey hkey).1, hlen, (clean_of_isKey hkey).2.1, (clean_of_isKey hkey).2.2⟩

theorem deliverable_write (h : Head) (out : ReplyBuffer) : Deliverable (h.write out) := by
  have hlen : h.text.length ≤ 68 := by
    cases h with
    | err code =>
      have hcode := code.length_le
      have hword : "err ".toList.length = 4 := rfl
      rw [Head.text, List.length_append]
      omega
    | _ => decide
  have htext : h.text ++ fieldsText [] = h.text := List.append_nil h.text
  have hwrite : (h.write out).text = h.text ++ fieldsText [] := by rw [h.text_write, htext]
  refine deliverable_of_text h hwrite (fun f hf => absurd hf List.not_mem_nil) ?_
  rw [htext]
  omega

theorem deliverable_err (out : ReplyBuffer) {code : Text} (hkey : isKey code = true)
    (hlen : code.length ≤ 64) : Deliverable (err out code) :=
  deliverable_write (.err (firmwareCode code hkey hlen)) out

/-- A pair that has room is written behind what there is. -/
theorem text_appendKv {f : Field} (h : AcceptsKv f) {out : ReplyBuffer}
    (hfits : out.len + f.text.length < maxReply) :
    (appendKv out f.1 f.2).2.text = out.text ++ f.text := by
  have hpos : 0 < f.text.length := Nat.succ_pos _
  obtain ⟨-, r, happ, htext⟩ | ⟨hfull, -⟩ | ⟨-, hroom, -⟩ := appendKv_cases h out
  · rw [happ, htext]
  · omega
  · omega

theorem deliverable_reason (out : ReplyBuffer) : Deliverable
    (appendKv (err out "invalid_argument".toList) "reason".toList "proc".toList).2 := by
  let reason : Field := ("reason".toList, "proc".toList)
  let head : Head := .err (firmwareCode "invalid_argument".toList rfl (by decide))
  have hwritable : ∀ f ∈ [reason], f.Writable :=
    List.forall_mem_singleton.mpr ⟨rfl, clean_word rfl⟩
  have haccepts : AcceptsKv reason := ⟨List.cons_ne_nil _ _, by decide, by decide⟩
  have hwrite : (err out "invalid_argument".toList).text = head.text := head.text_write out
  have hroom : (err out "invalid_argument".toList).len + reason.text.length < maxReply := by
    rw [← ReplyBuffer.length_text, hwrite]
    decide
  refine deliverable_of_text head ((text_appendKv haccepts hroom).trans ?_) hwritable (by decide)
  rw [hwrite, fieldsText, List.flatMap_singleton]

/-! ### The result behind the id -/

theorem WellFormed.ne_nil {body : Text} (h : WellFormed body) : body ≠ [] := by
  rintro rfl
  obtain ⟨l, -, hid, htokens⟩ := h
  rw [ResultLine.tokens, hid] at htokens
  cases htokens

theorem WellFormed.parse_prefixText {F : Type} (py : Python F) {body : Text} (h : WellFormed body)
    (req : Request) : ∃ r, py.parseCallResult (some (req.prefixText ++ body)) = .ok r ∧
      r.valid = true ∧
      r.requestId = if req.hasRequestId then some (req.requestId.toNat : ℤ) else none := by
  obtain ⟨l, -, hid, htokens⟩ := h
  rw [Request.prefixText]
  split
  · have hclean : Clean ('#' :: decimal req.requestId.toNat) :=
      (clean_word rfl : Clean ['#']).append (clean_decimal req.requestId.toNat)
    have hline : idPrefix req.requestId.toNat ++ body =
        ('#' :: decimal req.requestId.toNat) ++ ' ' :: body := by
      rw [idPrefix, List.cons_append, List.cons_append, List.append_assoc, List.singleton_append]
    have hsplit : split (idPrefix req.requestId.toNat ++ body) =
        ('#' :: decimal req.requestId.toNat) :: l.tokens := by
      rw [hline, split, Words.words_append_cons (by decide),
        Words.words_eq_singleton (List.cons_ne_nil _ _) hclean.2, List.singleton_append]
      exact congrArg (List.cons _) htokens
    let numbered : ResultLine := { l with id := some (decimalDigits req.requestId.toNat) }
    have hnumbered : split (idPrefix req.requestId.toNat ++ body) = numbered.tokens := by
      rw [hsplit, ResultLine.tokens, hid]
      rfl
    refine ⟨numbered.result, parseCallResult_line py numbered hnumbered ?_, rfl, ?_⟩
    · intro d hd
      obtain rfl := Option.some.inj hd
      exact (length_decimal_le req.requestId).trans (by decide)
    · exact congrArg (fun n : ℕ => some (n : ℤ)) (value_decimalDigits req.requestId.toNat)
  · refine ⟨l.result, parseCallResult_line py l htokens ?_, rfl, ?_⟩
    · intro d hd
      rw [hid] at hd
      cases hd
    · rw [ResultLine.result, hid]
      rfl

end CallResult

/-! ### The calls of the host -/

section Record

variable {ι S R : Type}

def HostServices.recorded (h : HostServices S R) : HostServices (S × List Text) R :=
  { h.lift Lens.fst with
    handleCall := fun proc req reply w =>
      let r := h.handleCall proc req reply w.1
      (r.1, r.2, w.2 ++ [proc]) }

def Node.recorded (n : Node S R) : Node (S × List Text) R where
  rpc := n.rpc
  callbacks := n.callbacks.lift Lens.fst
  host := n.host.recorded
  hasEngine := n.hasEngine
  pressCount := n.pressCount

def Process.recorded (p : Process ι S R) : Process ι (S × List Text) R where
  nodes i := (p.nodes i).recorded
  states i := (p.states i, [])
  instances := p.instances

end Record

open CallResult

section Exits

variable {S R : Type}

/-- A host that takes a call leaves nothing in the reply, or a result that has room behind the
longest id. -/
def HostServices.Obliging (h : HostServices S R) : Prop := ∀ proc req s,
  let r := (h.handleCall proc req ReplyBuffer.init.clear s).1
  r.1 = true → r.2.len = 0 ∨ Deliverable r.2

/-- The exits of `cmdCall`: the calls of the host, what is left in the reply, and the state. -/
inductive CallExit (h : HostServices S R) (req : Request) (reply : ReplyBuffer) (s : S) :
    List Text → ReplyBuffer → S → Prop
  | noInstance : CallExit h req reply s [] (err reply "internal".toList) s
  | noProc : req.args = [] → CallExit h req reply s [] (err reply "invalid_argument".toList) s
  | badProc (proc : Text) (rest : List Text) : req.args = proc :: rest → ¬ ProcName proc →
      CallExit h req reply s []
        (appendKv (err reply "invalid_argument".toList) "reason".toList "proc".toList).2 s
  | taken (proc : Text) (rest : List Text) (out : ReplyBuffer) (s' : S) :
      req.args = proc :: rest → ProcName proc →
      h.handleCall proc req reply s = ((true, out), s') →
        CallExit h req reply s [proc] (if out.len = 0 then ok out else out) s'
  | refused (proc : Text) (rest : List Text) (out : ReplyBuffer) (s' : S) :
      req.args = proc :: rest → ProcName proc →
      h.handleCall proc req reply s = ((false, out), s') →
        CallExit h req reply s [proc] (err out "unknown_proc".toList) s'

variable {h : HostServices S R} {req : Request} {reply : ReplyBuffer} {s s' : S}
  {ran : List Text} {body : ReplyBuffer}

/-- The host is called at most once, with a name of the grammar. -/
theorem CallExit.ran_le (he : CallExit h req reply s ran body s') :
    ran.length ≤ 1 ∧ ∀ proc ∈ ran, ProcName proc := by
  cases he with
  | taken proc rest out s' hargs hproc =>
    exact ⟨le_rfl, List.forall_mem_singleton.mpr hproc⟩
  | refused proc rest out s' hargs hproc =>
    exact ⟨le_rfl, List.forall_mem_singleton.mpr hproc⟩
  | _ => exact ⟨Nat.zero_le _, fun _ hmem => absurd hmem List.not_mem_nil⟩

/-- Every exit leaves a call result. -/
theorem CallExit.deliverable (hhost : h.Obliging)
    (he : CallExit h req ReplyBuffer.init.clear s ran body s') : Deliverable body := by
  cases he with
  | noInstance => exact deliverable_err _ rfl (by decide)
  | noProc => exact deliverable_err _ rfl (by decide)
  | badProc => exact deliverable_reason _
  | taken proc rest out s' hargs hproc hcall =>
    have hleft := hhost proc req s
    rw [hcall] at hleft
    split
    · exact deliverable_write .ok out
    · next hne => exact (hleft rfl).resolve_left hne
  | refused => exact deliverable_err _ rfl (by decide)

/-- What a host writes that refuses the call is not in the reply. -/
theorem CallExit.text_refused (he : CallExit h req reply s ran body s') {proc : Text}
    (hran : proc ∈ ran) (hrefused : (h.handleCall proc req reply s).1.1 = false) :
    body.text = "err unknown_proc".toList := by
  cases he with
  | taken _ rest out s' hargs hproc hcall =>
    obtain rfl := List.mem_singleton.mp hran
    rw [hcall] at hrefused
    cases hrefused
  | refused _ rest out s' hargs hproc hcall =>
    exact (Head.err (firmwareCode "unknown_proc".toList rfl (by decide))).text_write out
  | _ => exact absurd hran List.not_mem_nil

theorem NodeM.bind_run {α β : Type} (x : NodeM S R α) (f : α → NodeM S R β) (n : Node S R)
    (s : S) : (x >>= f) n s = f (x n s).1 n (x n s).2 := rfl

/-- What `cmdCall` does with a procedure name. -/
theorem cmdCall_of_isValidProc {n : Node S R} {out : ReplyBuffer} {proc : Text}
    {rest : List Text} {taken : Bool} (hargs : req.args = proc :: rest)
    (hproc : isValidProc proc = true)
    (hcall : n.host.handleCall proc req reply s = ((taken, out), s')) :
    cmdCall req reply (some (n, s)) =
      ((true, if taken then if out.len = 0 then ok out else out
        else err out "unknown_proc".toList), some s') := by
  simp only [cmdCall, withInstance, hargs, hproc, Bool.not_true, Bool.false_eq_true, if_false]
  have hhost : (host (·.handleCall proc req reply) : NodeM S R _) n s = ((taken, out), s') := hcall
  rw [NodeM.bind_run, hhost]
  cases taken <;> rfl

/-- `cmdCall` on an instance takes one of the exits, with the record and without. -/
theorem Node.exists_callExit (n : Node S R) (req : Request) (reply : ReplyBuffer) (s : S) :
    ∃ ran body s', CallExit n.host req reply s ran body s' ∧
      cmdCall req reply (some (n, s)) = ((true, body), some s') ∧
      cmdCall req reply (some (n.recorded, (s, []))) = ((true, body), some (s', ran)) := by
  cases hargs : req.args with
  | nil =>
    refine ⟨[], _, s, .noProc hargs, ?_, ?_⟩ <;> rw [cmdCall, hargs] <;> rfl
  | cons proc rest =>
    by_cases hproc : isValidProc proc = true
    · have hname := (isValidProc_iff proc).mp hproc
      cases hcall : n.host.handleCall proc req reply s with
      | mk result s' =>
        obtain ⟨taken, out⟩ := result
        have hrecorded : n.recorded.host.handleCall proc req reply (s, []) =
            ((taken, out), (s', [proc])) := by
          change (_, _, _) = _
          rw [hcall]
          rfl
        refine ⟨[proc], _, s', ?_, cmdCall_of_isValidProc hargs hproc hcall,
          cmdCall_of_isValidProc hargs hproc hrecorded⟩
        cases taken with
        | true => exact .taken proc rest out s' hargs hname hcall
        | false => exact .refused proc rest out s' hargs hname hcall
    · have hname : ¬ ProcName proc := fun h => hproc ((isValidProc_iff proc).mpr h)
      rw [Bool.not_eq_true] at hproc
      refine ⟨[], _, s, .badProc proc rest hargs hname, ?_, ?_⟩ <;>
        simp only [cmdCall, hargs, hproc, Bool.not_false, if_true] <;> rfl

end Exits

section Process

variable {S R : Type} [CFloat R]

theorem Process.exists_callExit (p : Process Unit S R) (req : Request) (reply : ReplyBuffer) :
    ∃ ran body s', CallExit (p.nodes ()).host req reply (p.states ()) ran body s' ∧
      (call .cmdCall req reply p).1 = (true, body) ∧
      (call .cmdCall req reply p.recorded).1 = (true, body) ∧
      ((call .cmdCall req reply p.recorded).2.states ()).2 = ran := by
  have hread : p.recorded.read .cmdCall = p.read .cmdCall := rfl
  unfold call
  rw [hread]
  cases p.read .cmdCall with
  | none => exact ⟨[], _, p.states (), .noInstance, rfl, rfl, rfl⟩
  | some i =>
    obtain ⟨ran, body, s', hexit, hcall, hrecorded⟩ :=
      (p.nodes ()).exists_callExit req reply (p.states ())
    refine ⟨ran, body, s', hexit, congrArg Prod.fst hcall, congrArg Prod.fst hrecorded, ?_⟩
    have hstate := congrArg (fun r => (r.2.getD (p.states (), [])).2) hrecorded
    exact (congrArg Prod.snd ((stateLens ()).get_set _ p.recorded)).trans hstate

/-- A body that has room behind the longest id is on the wire as it is. -/
theorem CallResult.Deliverable.cstr_writePrefixed {body : ReplyBuffer} (h : Deliverable body)
    (reply : ReplyBuffer) (req : Request) (verdict : Bool) :
    (Dispatcher.writePrefixed reply req (Dispatcher.fillBody verdict body).cstr).cstr =
      req.prefixText ++ body.cstr := by
  have hsize : maxReply = 192 := rfl
  have hpre := length_prefixText_le req
  have hlen := h.length_le
  have hne := h.wellFormed.ne_nil
  rw [Dispatcher.fillBody_of_ne_nil hne,
    Dispatcher.cstr_writePrefixed_iff reply req body.nul_not_mem_cstr hne]
  omega

theorem Dispatcher.dispatch_of_body {H σ : Type*} (d : Dispatcher H) {call : HandlerCall H σ}
    {line : Option Text} (reply : ReplyBuffer) {w : σ} {req : Request} {entry : CommandEntry H}
    {verdict : Bool} {body : ReplyBuffer} (hparse : Parser.parse line = (.ok, req))
    (haddr : d.isAddressedToUs req = true) (hfind : d.registry.find req.command = some entry)
    (hbody : (call entry.handler req ReplyBuffer.init.clear w).1 = (verdict, body)) :
    (d.dispatch call line reply w).answered = true ∧
    (d.dispatch call line reply w).reply =
      writePrefixed reply.clear req (fillBody verdict body).cstr ∧
    (d.dispatch call line reply w).world =
      (call entry.handler req ReplyBuffer.init.clear w).2 := by
  rw [d.dispatch_handler call reply w hparse haddr hfind]
  dsimp only
  rw [hbody]
  exact ⟨rfl, rfl, rfl⟩

/-- A call that reaches the only node of a process is answered with a call result that has the id of
the request. The host is called at most once, with a name of the grammar, and what it writes is not
sent when it refuses the call. -/
theorem call_answered {F : Type} (py : Python F) (p : Process Unit S R)
    (hhost : (p.nodes ()).host.Obliging) {line : Option Text} {req : Request}
    {entry : CommandEntry Handler} (hparse : Parser.parse line = (.ok, req))
    (haddr : (p.nodes ()).rpc.dispatcher.isAddressedToUs req = true)
    (hcommand : req.command = "call".toList)
    (hfind : (p.nodes ()).rpc.commands.find "call".toList = some entry)
    (hentry : entry.handler = .cmdCall) (reply : ReplyBuffer) :
    let r := (p.nodes ()).rpc.dispatcher.dispatch Process.call line reply p
    let recorded := (p.nodes ()).rpc.dispatcher.dispatch Process.call line reply p.recorded
    let ran := (recorded.world.states ()).2
    r.answered = true ∧ recorded.reply = r.reply ∧
    (∃ result, py.parseCallResult (some r.reply.cstr) = .ok result ∧ result.valid = true ∧
      result.requestId = if req.hasRequestId then some (req.requestId.toNat : ℤ) else none) ∧
    ran.length ≤ 1 ∧ (∀ proc ∈ ran, ProcName proc) ∧
    ∀ proc ∈ ran, ((p.nodes ()).host.handleCall proc req ReplyBuffer.init.clear
      (p.states ())).1.1 = false →
        r.reply.cstr = req.prefixText ++ "err unknown_proc".toList := by
  intro r recorded ran
  obtain ⟨ran', body, s', hexit, hcall, hrecorded, hran⟩ :=
    p.exists_callExit req ReplyBuffer.init.clear
  rw [← hcommand] at hfind
  rw [← hentry] at hcall hrecorded hran
  obtain ⟨hanswered, hreply, -⟩ :=
    (p.nodes ()).rpc.dispatcher.dispatch_of_body reply hparse haddr hfind hcall
  obtain ⟨-, hreply', hworld⟩ :=
    (p.nodes ()).rpc.dispatcher.dispatch_of_body reply hparse haddr hfind hrecorded
  obtain rfl : ran = ran' := by
    rw [← hran, ← hworld]
  have hdeliverable := hexit.deliverable hhost
  have hcstr : r.reply.cstr = req.prefixText ++ body.cstr := by
    rw [hreply]
    exact hdeliverable.cstr_writePrefixed _ req true
  refine ⟨hanswered, hreply'.trans hreply.symm, ?_, hexit.ran_le.1, hexit.ran_le.2, ?_⟩
  · rw [hcstr]
    exact hdeliverable.wellFormed.parse_prefixText py req
  · intro proc hmem hrefused
    rw [hcstr, body.cstr_of_text (hexit.text_refused hmem hrefused) (by decide)]

end Process

/-- A host that takes one procedure and starts a text before it refuses another. -/
def notifier : HostServices Unit Unit where
  handleCall proc _ reply s :=
    if proc = "ha.notify".toList then ((true, CallResult.ok reply), s)
    else ((false, (reply.append "partial".toList).2), s)

def notifierNode : Process Unit Unit Unit where
  nodes _ := {
    rpc := {
      nodeName := "tracker".toList
      commands := ⟨[{ name := "call".toList, handler := .cmdCall }], by decide⟩ }
    host := notifier }
  states _ := ()
  instances k := if k = .core then some () else none

theorem obliging_notifier : notifier.Obliging := by
  intro proc req s r htaken
  by_cases hproc : proc = "ha.notify".toList
  · have hr : r = (true, CallResult.ok ReplyBuffer.init.clear) :=
      congrArg Prod.fst (if_pos hproc)
    rw [hr]
    exact .inr (deliverable_write .ok _)
  · have hr : r = (false, (ReplyBuffer.init.clear.append "partial".toList).2) :=
      congrArg Prod.fst (if_neg hproc)
    rw [hr] at htaken
    cases htaken

def callSeven : Request where
  target := "tracker".toList
  hasRequestId := true
  requestId := 7
  command := "call".toList
  args := ["ha.open".toList]

theorem parse_callSeven :
    Parser.parse (some "tracker#7 call ha.open".toList) = (.ok, callSeven) := by
  decide

theorem call_answered_open :
    let d := (notifierNode.nodes ()).rpc.dispatcher
    let line := some "tracker#7 call ha.open".toList
    let r := d.dispatch Process.call line .init notifierNode
    ((d.dispatch Process.call line .init notifierNode.recorded).world.states ()).2.length ≤ 1 ∧
    ∃ result, Python.ascii.parseCallResult (some r.reply.cstr) = .ok result ∧
      result.valid = true ∧ result.requestId = some 7 := by
  obtain ⟨-, -, hresult, hran, -⟩ := call_answered Python.ascii notifierNode obliging_notifier
    parse_callSeven rfl rfl rfl rfl .init
  exact ⟨hran, hresult⟩

end Mcrpc
