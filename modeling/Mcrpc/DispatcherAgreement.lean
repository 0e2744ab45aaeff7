import Mcrpc.AddressedById
import Mcrpc.ParsedRequest
import Mcrpc.RegistryRuns
import Mcrpc.WireRoundTrip

/-!
# Two dispatchers with the same handlers

`dispatcher.py` stands beside `Dispatcher.cpp` so that the two can be tested against each other. With
the same names, the same registrations and handlers that return the same texts they answer the lines
that their parsers read alike, and their replies differ exactly when `Dispatcher.cpp` has no room for
the text.
-/

namespace Mcrpc

open Scan

theorem SameRequest.eq_toPython {req : Request} {req' : PyRequest} (h : SameRequest req req') :
    req' = req.toPython := by
  cases req'
  cases h.kind
  cases h.target
  cases h.hasRequestId
  cases h.requestId
  cases h.command
  cases h.args
  rfl

def writesText {σ : Type*} : HandlerCall (PyRequest → Text) σ := fun f req reply w =>
  ((true, (reply.append (f req.toPython)).2), w)

structure NodeSetup where
  nodeName : Text
  nodeId : Text
  groupName : Text
  commands : List (CommandRegistry.Registration (PyRequest → Text))

namespace NodeSetup

variable {F : Type} (s : NodeSetup)

def firmware : Dispatcher (PyRequest → Text) where
  registry := finalState CommandRegistry.register .empty s.commands
  nodeName := s.nodeName
  nodeId := s.nodeId
  groupName := s.groupName

def host (py : Python F) : PyDispatcher :=
  s.commands.foldl (fun d c => d.register py c.name c.handler)
    { nodeName := s.nodeName, nodeId := s.nodeId, groupName := s.groupName }

/-- 7-bit names, and a table that had room for every registration. -/
structure Usable : Prop where
  nodeName : IsAscii s.nodeName
  nodeId : IsAscii s.nodeId
  groupName : IsAscii s.groupName
  names : ∀ c ∈ s.commands, IsAscii c.name
  accepted : EveryStep CommandRegistry.register (fun r c => (r.register c).2 = true) .empty s.commands

end NodeSetup

/-! ### Addresses -/

theorem isAscii_of_isIdentChar {s : Text} (h : ∀ c ∈ s, isIdentChar c = true) : IsAscii s := by
  intro c hc
  have := isIdentChar_iff.mp (h c hc)
  omega

theorem hexIdPrefixMatch_go_hex {full pre : Text} (hpre : AllHex pre) :
    hexIdPrefixMatch.go full pre = true ↔ lower pre <+: lower full := by
  induction pre generalizing full with
  | nil =>
    rw [hexIdPrefixMatch.go]
    exact iff_of_true rfl List.nil_prefix
  | cons b pre ih =>
    cases full with
    | nil =>
      rw [hexIdPrefixMatch.go]
      refine iff_of_false Bool.false_ne_true (fun h => ?_)
      exact absurd (List.prefix_nil.mp h) (List.cons_ne_nil _ _)
    | cons a full =>
      obtain ⟨hb, hpre⟩ := List.forall_mem_cons.mp hpre
      rw [hexIdPrefixMatch.go, isHex_toLower hb, lower_cons, lower_cons, List.cons_prefix_cons,
        ← ih hpre]
      by_cases hab : a.toLower = b.toLower
      · simp [hab, isHex_toLower hb]
      · simp [hab, Ne.symm hab]

theorem lower_eq_decide_ieq {F : Type} (py : Python F) {a b : Text} (ha : IsAscii a)
    (hb : IsAscii b) : decide (py.lower a = py.lower b) = ieq a b := by
  rw [py.lower_ascii a ha, py.lower_ascii b hb, Bool.eq_iff_iff, decide_eq_true_eq, ieq_iff]

namespace NodeSetup

variable {F : Type} (py : Python F) {s : NodeSetup}

/-- What the registrations leave of the names of the host. -/
theorem host_identity (s : NodeSetup) : (s.host py).nodeName = s.nodeName ∧
    (s.host py).nodeId = s.nodeId ∧ (s.host py).groupName = s.groupName := by
  have hfold (d : PyDispatcher) (calls : List (CommandRegistry.Registration (PyRequest → Text))) :
      let r := calls.foldl (fun d c => d.register py c.name c.handler) d
      r.nodeName = d.nodeName ∧ r.nodeId = d.nodeId ∧ r.groupName = d.groupName := by
    induction calls generalizing d with
    | nil => exact ⟨rfl, rfl, rfl⟩
    | cons c calls ih => exact ih (d.register py c.name c.handler)
  exact hfold _ s.commands

theorem addressed_eq (hs : s.Usable) {req : Request} (hreq : req.WellFormed) :
    (s.host py).addressed py req.toPython = s.firmware.isAddressedToUs req := by
  obtain ⟨hname, hid, hgroup⟩ := s.host_identity py
  have htarget : IsAscii req.target := isAscii_of_isIdentChar hreq.target.all
  rw [PyDispatcher.addressed, Dispatcher.isAddressedToUs, hname, hid, hgroup]
  cases hkind : req.addressKind with
  | all => simp only [Request.toPython, hkind]
  | self => simp only [Request.toPython, hkind]
  | group =>
    simp only [Request.toPython, hkind, lower_eq_decide_ieq py htarget hs.groupName]
    rfl
  | named =>
    simp only [Request.toPython, hkind, lower_eq_decide_ieq py htarget hs.nodeName]
    rfl
  | id =>
    have hhex : AllHex req.target := hreq.hex hkind
    have hprefix : (lower req.target).isPrefixOf (lower s.nodeId) =
        hexIdPrefixMatch s.nodeId req.target := by
      rw [Bool.eq_iff_iff, List.isPrefixOf_iff_prefix, hexIdPrefixMatch,
        decide_eq_true hreq.target.ne_nil, Bool.true_and, hexIdPrefixMatch_go_hex hhex]
    have hsame : decide (py.lower s.nodeId = py.lower req.target) = ieq req.target s.nodeId := by
      rw [← lower_eq_decide_ieq py htarget hs.nodeId]
      exact decide_eq_decide.mpr eq_comm
    simp only [Request.toPython, hkind]
    by_cases hnil : s.nodeId = []
    · rw [if_pos hnil]
      change false = (decide (s.nodeId ≠ []) && _)
      rw [decide_eq_false (not_not.mpr hnil), Bool.false_and]
    · rw [if_neg hnil, hsame, py.lower_ascii _ htarget, py.lower_ascii _ hs.nodeId, hprefix]
      change _ = (decide (s.nodeId ≠ []) && _)
      rw [decide_eq_true hnil, Bool.true_and]
      rfl

/-- A command in lower case has the same handler in both tables. -/
theorem find_eq_get (hs : s.Usable) {command : Text} (hlower : lower command = command) :
    (s.firmware.registry.find command).map (·.handler) = (s.host py).handlers.get command := by
  have hrun := hs.accepted.invariant (J := fun done r => done <+: s.commands →
    (r.find command).map (·.handler) = (done.foldl (fun d c => d.register py c.name c.handler)
      ({ nodeName := s.nodeName, nodeId := s.nodeId, groupName := s.groupName } :
        PyDispatcher)).handlers.get command) (fun _ => rfl) ?_ s.commands List.prefix_rfl
  · exact hrun List.prefix_rfl
  · intro done r c ih haccepted hdone
    have hascii := hs.names c (hdone.subset (List.mem_append_right _ (List.mem_singleton_self c)))
    have hroom : r.entries.length < maxCommands := by
      by_contra hfull
      rw [CommandRegistry.register_of_full (Nat.not_lt.mp hfull)] at haccepted
      cases haccepted
    have hcontent := congrArg (Option.map Prod.fst)
      (CommandRegistry.find_register hroom c command)
    have hfst (e : Option (CommandEntry (PyRequest → Text))) :
        (e.map CommandRegistry.content).map Prod.fst = e.map (·.handler) := by
      cases e <;> rfl
    rw [hfst] at hcontent
    rw [hcontent, List.foldl_append, List.foldl_cons, List.foldl_nil, PyDispatcher.register]
    dsimp only
    rw [py.lower_ascii _ hascii, hlower]
    by_cases hname : command = lower c.name
    · rw [if_pos hname, hname, Dict.get_set_self]
      rfl
    · rw [if_neg hname, Dict.get_set_of_ne _ _ hname, hfst]
      exact ih ((List.prefix_append _ _).trans hdone)

end NodeSetup

/-! ### Replies -/

theorem prefixRequestId_toPython (req : Request) (body : Text) : prefixRequestId body
    (if req.toPython.hasRequestId then some req.toPython.requestId else none) =
      .ok (req.prefixText ++ body) := by
  have hdigits := (length_decimal_le req.requestId).trans (show 10 ≤ 4300 by decide)
  have hstr : pyStr req.toPython.requestId = .ok (decimal req.requestId.toNat) := pyStr_natCast hdigits
  have hhas : req.toPython.hasRequestId = req.hasRequestId := rfl
  rw [Request.prefixText, hhas]
  cases req.hasRequestId with
  | false => rfl
  | true =>
    simp only [if_true, prefixRequestId, hstr, idPrefix, List.cons_append, List.append_assoc,
      List.nil_append]
    rfl

theorem Parser.parse_stored {line : Text} (hnul : nul ∉ line) {req : Request}
    (h : parse (some line) = (.ok, req)) : req.WellFormed := by
  unfold parse at h
  dsimp only at h
  split_ifs at h
  · cases h
  · cases h
  · refine parseRequest_stored (fun hmem => hnul ?_) h
    exact (((List.dropWhile_suffix _).trans (List.dropWhile_suffix _)).trans
      (List.dropWhile_suffix _)).subset hmem

/-- The body of a handler that appends a text. -/
theorem cstr_fillBody_append {text : Text} (hnul : nul ∉ text) :
    (Dispatcher.fillBody true (ReplyBuffer.init.clear.append text).2).cstr =
      if text ≠ [] ∧ text.length < maxReply then text else "ok".toList := by
  have htext : (ReplyBuffer.init.clear.append text).2.text =
      if text.length < maxReply then text else [] := by
    rw [ReplyBuffer.text_append, ReplyBuffer.text_clear, List.nil_append, List.length_nil,
      Nat.zero_add]
  have hbody := Dispatcher.text_fillBody true (ReplyBuffer.init.clear.append text).2
  rw [htext, if_pos rfl] at hbody
  have hresult : (Dispatcher.fillBody true (ReplyBuffer.init.clear.append text).2).text =
      if text ≠ [] ∧ text.length < maxReply then text else "ok".toList := by
    rw [hbody]
    by_cases hlen : text.length < maxReply
    · by_cases hnil : text = []
      · rw [if_pos hlen, if_pos hnil, if_neg (fun h => h.1 hnil)]
      · rw [if_pos hlen, if_neg hnil, if_pos ⟨hnil, hlen⟩]
    · rw [if_neg hlen, if_pos rfl, if_neg (fun h => hlen h.2)]
  rw [ReplyBuffer.cstr_eq_text, hresult]
  rw [hresult]
  split
  · exact hnul
  · decide

/-- The reply is the one of `dispatcher.py` exactly when it has room. -/
theorem writesText_reply_iff {reply : ReplyBuffer} {req : Request} {text : Text}
    (hnul : nul ∉ text) :
    let body := if text ≠ [] then text else "ok".toList
    (Dispatcher.writePrefixed reply req
        (Dispatcher.fillBody true (ReplyBuffer.init.clear.append text).2).cstr).cstr =
      req.prefixText ++ body ↔ req.prefixText.length + body.length < maxReply := by
  have hpre := length_prefixText_le req
  have hok := Dispatcher.cstr_writePrefixed_iff reply req (show nul ∉ "ok".toList by decide)
    (by decide)
  have hroom : req.prefixText.length + "ok".toList.length < maxReply :=
    Nat.lt_of_le_of_lt (Nat.add_le_add_right hpre _) (by decide)
  dsimp only
  rw [cstr_fillBody_append hnul]
  by_cases hnil : text = []
  · rw [if_neg (fun h => h.1 hnil), if_neg (not_not.mpr hnil)]
    exact hok
  · rw [if_pos hnil]
    by_cases hlen : text.length < maxReply
    · rw [if_pos ⟨hnil, hlen⟩]
      exact Dispatcher.cstr_writePrefixed_iff reply req hnul hnil
    · rw [if_neg (fun h => hlen h.2), hok.mpr hroom]
      refine iff_of_false (fun he => hlen ?_) (by omega)
      rw [← List.append_cancel_left he]
      decide

namespace NodeSetup

variable {F : Type} (py : Python F) {s : NodeSetup}

theorem lower_command {req : Request} (hreq : req.WellFormed) :
    lower req.command = req.command := by
  have hsame : ∀ c ∈ req.command, c.toLower = c := by
    intro c hc
    have hcode := isCommandChar_iff.mp (hreq.command.all c hc)
    rw [Ascii.eq_iff_toNat, Ascii.toNat_toLower, if_neg (by omega)]
  exact (List.map_congr_left hsame).trans (List.map_id _)

theorem handlersSatisfy {P : (PyRequest → Text) → Prop} (hP : ∀ c ∈ s.commands, P c.handler) :
    s.firmware.registry.HandlersSatisfy P := by
  have hrun (r : CommandRegistry (PyRequest → Text)) (hr : r.HandlersSatisfy P)
      (calls : List (CommandRegistry.Registration (PyRequest → Text)))
      (hcalls : ∀ c ∈ calls, P c.handler) :
      (finalState CommandRegistry.register r calls).HandlersSatisfy P := by
    induction calls generalizing r with
    | nil => exact hr
    | cons c calls ih =>
      obtain ⟨hc, hcalls⟩ := List.forall_mem_cons.mp hcalls
      exact ih _ (hr.registerCommand c.name hc c.help) hcalls
  exact hrun .empty (fun e he => absurd he List.not_mem_nil) s.commands hP

/-- What `dispatcher.py` does with a line that both parsers read. -/
theorem host_dispatch_eq (hs : s.Usable) {line : Text} {req : Request} (hreq : req.WellFormed)
    (hread : py.parse (some line) = .ok (.ok, req.toPython)) :
    (s.host py).dispatch py line = .ok (if s.firmware.isAddressedToUs req then
      some (req.prefixText ++ (s.host py).body req.toPython) else none) := by
  rw [PyDispatcher.dispatch, hread]
  dsimp only
  rw [addressed_eq py hs hreq]
  split
  · rw [prefixRequestId_toPython]
    rfl
  · rfl

/-- The reply to an addressed line is the one of `dispatcher.py` exactly when it has room. -/
theorem firmware_reply_iff (hs : s.Usable) {σ : Type*} {line : Text} {req : Request}
    (hclean : ∀ c ∈ s.commands, nul ∉ c.handler req.toPython) (hreq : req.WellFormed)
    (hparse : Parser.parse (some line) = (.ok, req))
    (haddressed : s.firmware.isAddressedToUs req = true) (reply : ReplyBuffer) (w : σ) :
    (s.firmware.dispatch writesText (some line) reply w).reply.cstr =
        req.prefixText ++ (s.host py).body req.toPython ↔
      req.prefixText.length + ((s.host py).body req.toPython).length < maxReply := by
  have hget := find_eq_get py hs (lower_command hreq)
  cases hfind : s.firmware.registry.find req.command with
  | none =>
    rw [hfind] at hget
    have hbody : (s.host py).body req.toPython = "err unknown_command".toList := by
      rw [PyDispatcher.body, show req.toPython.command = req.command from rfl, ← hget]
      rfl
    have hreply : (s.firmware.dispatch writesText (some line) reply w).reply =
        Dispatcher.writePrefixed reply.clear req "err unknown_command".toList := by
      simp only [Dispatcher.dispatch, hparse, haddressed, if_true, hfind]
    rw [hbody, hreply]
    exact Dispatcher.cstr_writePrefixed_iff _ req (by decide) (by decide)
  | some entry =>
    rw [hfind] at hget
    have hbody : (s.host py).body req.toPython =
        if entry.handler req.toPython ≠ [] then entry.handler req.toPython else "ok".toList := by
      rw [PyDispatcher.body, show req.toPython.command = req.command from rfl, ← hget]
      rfl
    have hnul : nul ∉ entry.handler req.toPython :=
      (handlersSatisfy (P := fun f => nul ∉ f req.toPython) hclean).find hfind
    rw [hbody, Dispatcher.dispatch_handler _ writesText reply w hparse haddressed hfind]
    exact writesText_reply_iff hnul

theorem firmware_dispatch_of_ok {σ : Type*} {line : Text} {req : Request}
    (hparse : Parser.parse (some line) = (.ok, req)) (reply : ReplyBuffer) (w : σ) :
    let r := s.firmware.dispatch writesText (some line) reply w
    r.answered = s.firmware.isAddressedToUs req ∧ r.outReq = some req := by
  dsimp only
  rw [Dispatcher.dispatch, hparse]
  dsimp only
  split
  · next haddressed =>
    rw [haddressed]
    split
    · exact ⟨rfl, rfl⟩
    · exact ⟨rfl, rfl⟩
  · next haddressed => exact ⟨(Bool.eq_false_iff.mpr haddressed).symm, rfl⟩

/-- The two dispatchers answer the same lines, and their replies are the same exactly when
`Dispatcher.cpp` has room for the text. -/
theorem dispatchers_agree_iff (hs : s.Usable) {σ : Type*} {line : Text} (hnul : nul ∉ line)
    (hagree : ParsersAgree py line)
    (hclean : ∀ c ∈ s.commands, nul ∉ c.handler (Parser.parse (some line)).2.toPython)
    (reply : ReplyBuffer) (w : σ) :
    let r := s.firmware.dispatch writesText (some line) reply w
    (r.answered = true ↔ ∃ text, (s.host py).dispatch py line = .ok (some text)) ∧
      ((s.host py).dispatch py line = .ok (if r.answered then some r.reply.cstr else none) ↔
        ∀ req ∈ r.outReq, r.answered = true →
          req.prefixText.length + ((s.host py).body req.toPython).length < maxReply) := by
  obtain ⟨req', hread, hsame⟩ := hagree
  obtain ⟨result, req, hparse⟩ : ∃ result req, Parser.parse (some line) = (result, req) :=
    ⟨_, _, rfl⟩
  rw [hparse] at hread hsame hclean
  by_cases hok : result = .ok
  · subst hok
    obtain rfl := (hsame rfl).eq_toPython
    have hreq := Parser.parse_stored hnul hparse
    have hhost := host_dispatch_eq py hs hreq hread
    obtain ⟨hanswered, hout⟩ := firmware_dispatch_of_ok (s := s) hparse reply w
    dsimp only
    rw [hhost, hanswered, hout]
    cases haddressed : s.firmware.isAddressedToUs req with
    | false =>
      refine ⟨iff_of_false Bool.false_ne_true ?_, iff_of_true rfl ?_⟩
      · rintro ⟨text, htext⟩
        cases htext
      · exact fun _ _ h => absurd h Bool.false_ne_true
    | true =>
      refine ⟨iff_of_true rfl ⟨_, rfl⟩, ?_⟩
      have hreply := firmware_reply_iff py hs hclean hreq hparse haddressed reply w
      constructor
      · intro heq r hr _
        obtain rfl := Option.some.inj hr
        exact hreply.mp (Option.some.inj (Except.ok.inj heq)).symm
      · intro hroom
        rw [if_pos rfl, if_pos rfl, hreply.mpr (hroom req rfl rfl)]
  · have hsilent : s.firmware.dispatch writesText (some line) reply w =
        ⟨false, reply.clear, none, w⟩ := by
      rw [Dispatcher.dispatch, hparse]
      cases result with
      | ok => exact absurd rfl hok
      | _ => rfl
    have hhost : (s.host py).dispatch py line = .ok none := by
      rw [PyDispatcher.dispatch, hread]
      cases result with
      | ok => exact absurd rfl hok
      | _ => rfl
    rw [hsilent, hhost]
    refine ⟨iff_of_false Bool.false_ne_true ?_, iff_of_true rfl ?_⟩
    · rintro ⟨text, htext⟩
      cases htext
    · exact fun req h => absurd h (Option.not_mem_none req)

end NodeSetup

def echoSetup : NodeSetup where
  nodeName := "ha".toList
  nodeId := "abcdef0123456789".toList
  groupName := "gps".toList
  commands := [{ name := "Echo".toList, handler := fun req => req.args.flatten }]

theorem dispatchers_agree_echo :
    let line := "ha#7 echo hi".toList
    let r := echoSetup.firmware.dispatch writesText (some line) .init ()
    let host := echoSetup.host Python.ascii
    (r.answered = true ↔ ∃ text, host.dispatch Python.ascii line = .ok (some text)) ∧
      (host.dispatch Python.ascii line = .ok (if r.answered then some r.reply.cstr else none) ↔
        ∀ req ∈ r.outReq, r.answered = true →
          req.prefixText.length + (host.body req.toPython).length < maxReply) :=
  NodeSetup.dispatchers_agree_iff (s := echoSetup) Python.ascii
    { nodeName := Scan.forall_of_all rfl
      nodeId := Scan.forall_of_all rfl
      groupName := Scan.forall_of_all rfl
      names := List.forall_mem_singleton.mpr (Scan.forall_of_all rfl)
      accepted := ⟨rfl, trivial⟩ }
    (by decide) ⟨_, rfl, fun _ => ⟨rfl, rfl, rfl, rfl, rfl, rfl⟩⟩
    (List.forall_mem_singleton.mpr (by decide)) .init ()

end Mcrpc
