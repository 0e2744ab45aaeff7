import Mcrpc.Network

/-!
# The channel as a service of remote calls

Whatever the order in which the lines of the channel are heard, lost and repeated, the clients and
the nodes keep the rules of a service of remote calls: a request is answered by a node it asks, its
reply comes back to the client that made it, and once a reply is consumed there is no other. The
ids are what holds this together, so each is used once.
-/

namespace Mcrpc

open Scan CallService

variable {κ ι H Φ σ F V T : Type} (ch : Channel κ ι H Φ σ F)

def Channel.service : CallService ι (PendingRequest V T) Text Packet where
  message p := cText p.rawRequest
  serves i line reply := (ch.station i).Answers line reply

/-- Names the channel can put in front of a line, and no node that takes events for requests. -/
structure Channel.WellNamed : Prop where
  client : ∀ c, nul ∉ ch.clientName c ∧ ':' ∉ ch.clientName c
  station : ∀ i, nul ∉ (ch.station i).name ∧ ':' ∉ (ch.station i).name
  noEvent : ∀ i, ieq "event".toList (ch.station i).rpc.nodeName = false

/-- A line that asks no node and carries no request id. -/
structure Channel.Idle (p : Packet) : Prop where
  asks : ∀ i, ¬ ∃ req, (ch.station i).rpc.Asks (Station.lineOf p) req
  id : ∀ digits, firstWord (Python.stripSenderPrefix (some p.wire)) ≠ some ('#' :: digits)

/-- The request is written for a target and a command, under an id of 32 bits. -/
def PendingRequest.Written (p : PendingRequest V T) : Prop :=
  ∃ (t : Target) (m : ℕ) (w : Ident), p.requestId = m ∧ m < 2 ^ 32 ∧
    p.rawRequest = t.text ++ '#' :: (decimal m ++ ' ' :: (w.chars ++ argumentTail p.arguments))

inductive Known (log : List (Happening κ ι V T)) : Packet → Prop
  | request {c : κ} {p : PendingRequest V T} : .issued c p ∈ log →
    Known log ⟨ch.clientName c, p.rawRequest⟩
  | answer {c : κ} {p : PendingRequest V T} {i : ι} {reply : Packet} : .issued c p ∈ log →
    .executed i (cText p.rawRequest) reply ∈ log → (ch.station i).Answers (cText p.rawRequest) reply →
    Known log reply
  | idle {p : Packet} : ch.Idle p → Known log p

structure Tracks (n : Network κ ι σ V T) : Prop where
  pending : ∀ c m p, (n.clients c).pending.get m = some p ↔
    .issued c p ∈ n.log ∧ p.requestId = m ∧ ¬ Closed n.log c p
  ids : ∀ c c' p p', .issued c p ∈ n.log → .issued c' p' ∈ n.log → p.requestId = p'.requestId →
    c = c' ∧ p = p'
  closed : ∀ c p, Closed n.log c p → .issued c p ∈ n.log
  written : ∀ c p, .issued c p ∈ n.log → p.Written
  sent : ∀ c p, .issued c p ∈ n.log → ⟨ch.clientName c, p.rawRequest⟩ ∈ n.air
  air : ∀ p ∈ n.air, Known ch n.log p

/-! ### The lines -/

theorem Target.exists_head (t : Target) :
    ∃ c s, t.text = c :: s ∧ c ≠ '#' ∧ isSpace c = false ∧ isBlank c = false := by
  have hident (w : Ident) :
      ∃ c s, w.chars = c :: s ∧ c ≠ '#' ∧ isSpace c = false ∧ isBlank c = false := by
    obtain ⟨c, s, hw⟩ := List.exists_cons_of_ne_nil w.ne_nil
    have hc : isIdentChar c = true := w.all c (by simp [hw])
    refine ⟨c, s, hw, ne_of_isIdentChar hc rfl, ?_,
      not_isBlank_of_isTokenChar (isTokenChar_of_isIdentChar hc)⟩
    rw [← Bool.not_eq_true, isSpace_iff]
    have := isIdentChar_iff.mp hc
    omega
  cases t with
  | named w _ _ => exact hident w
  | all w _ => exact hident w
  | self w _ => exact hident w
  | group upper w => cases upper <;> exact ⟨_, _, rfl, by decide, rfl, rfl⟩
  | id h => exact ⟨'@', h.chars, rfl, by decide, rfl, rfl⟩

theorem firstWord_ne_hash {c : Char} {s : Text} (hc : c ≠ '#') (hspace : isSpace c = false)
    (digits : Text) : firstWord (c :: s) ≠ some ('#' :: digits) := by
  intro h
  obtain ⟨pre, t, hline, hpre, -⟩ := exists_of_firstWord h
  cases pre with
  | nil => exact hc (List.cons.inj hline).1
  | cons d pre =>
    have hd := hpre d List.mem_cons_self
    rw [← (List.cons.inj hline).1, hspace] at hd
    cases hd

namespace PendingRequest.Written

variable {p : PendingRequest V T}

theorem parse (h : p.Written) : ∃ req, Parser.parse (some (cText p.rawRequest)) = (.ok, req) ∧
    req.hasRequestId = true ∧ (req.requestId.toNat : ℤ) = p.requestId := by
  obtain ⟨t, m, w, hid, hm, hraw⟩ := h
  obtain ⟨req, hparse, hhas, hreq⟩ := parse_requestBytes t hm w p.arguments
  rw [hraw, cText_line, hid]
  exact ⟨req, hparse, hhas, congrArg _ hreq⟩

theorem exists_head (h : p.Written) :
    ∃ c s, p.rawRequest = c :: s ∧ cText p.rawRequest = c :: cText s ∧
      c ≠ '#' ∧ isSpace c = false ∧ isBlank c = false := by
  obtain ⟨t, m, w, -, -, hraw⟩ := h
  obtain ⟨c, s, ht, hhash, hspace, hblank⟩ := t.exists_head
  have hnul : decide (c ≠ nul) = true := by
    have hmem := nul_not_mem_target t
    rw [ht, List.mem_cons, not_or] at hmem
    exact decide_eq_true (Ne.symm hmem.1)
  rw [hraw, ht, List.cons_append]
  exact ⟨c, _, rfl, List.takeWhile_cons_of_pos hnul, hhash, hspace, hblank⟩

theorem lineOf_eq (h : p.Written) {sender : Text} (hnul : nul ∉ sender) (hcolon : ':' ∉ sender) :
    Station.lineOf ⟨sender, p.rawRequest⟩ = cText p.rawRequest := by
  obtain ⟨c, s, -, hbytes, -, -, hblank⟩ := h.exists_head
  apply Mcrpc.lineOf_eq hnul hcolon
  rw [hbytes]
  exact stops_cons.mpr hblank

theorem firstWord_ne (h : p.Written) {sender : Text} (hcolon : ':' ∉ sender) (digits : Text) :
    firstWord (Python.stripSenderPrefix (some (Packet.wire ⟨sender, p.rawRequest⟩))) ≠
      some ('#' :: digits) := by
  obtain ⟨c, s, hraw, -, hhash, hspace, hblank⟩ := h.exists_head
  rw [Packet.wire, Python.stripSenderPrefix_append hcolon (by rw [hraw]; exact stops_cons.mpr hblank),
    hraw]
  exact firstWord_ne_hash hhash hspace digits

/-- The answer of a node to the request. -/
theorem answer_eq (h : p.Written) {s : Station H Φ σ} {reply : Packet}
    (hreply : s.Answers (cText p.rawRequest) reply) :
    ∃ (m : ℕ) (rest : Text), p.requestId = m ∧ m < 2 ^ 32 ∧
      reply = ⟨s.name, '#' :: (decimal m ++ [' ']) ++ rest⟩ := by
  obtain ⟨req, hparse, hhas, hid⟩ := h.parse
  obtain ⟨rest, htext⟩ := hreply.text_eq hparse
  rw [Request.prefixText, if_pos hhas] at htext
  obtain ⟨-, w, rfl⟩ := hreply
  exact ⟨_, rest, hid.symm, req.requestId.toNat_lt, congrArg (Packet.mk s.name) htext⟩

end PendingRequest.Written

/-- A reply under a request id asks no node. -/
theorem not_asks_hash {sender : Text} (hnul : nul ∉ sender) (hcolon : ':' ∉ sender) (text : Text)
    (s : Station H Φ σ) : ¬ ∃ req, s.rpc.Asks (Station.lineOf ⟨sender, '#' :: text⟩) req := by
  have htext : cText ('#' :: text) = '#' :: cText text := List.takeWhile_cons_of_pos (by decide)
  have hstop : Stops isBlank (cText ('#' :: text)) := by
    rw [htext]
    exact stops_cons.mpr rfl
  rintro ⟨req, hparse, -⟩
  rw [lineOf_eq hnul hcolon hstop, htext] at hparse
  exact parse_hash _ req hparse

theorem classifyInbound_id [Truthy V] {py : Python F} (hpy : py.Regular)
    (c : RequestCorrelator V T) {m : ℕ} (hm : m < 2 ^ 32) {sender : Text} (hcolon : ':' ∉ sender)
    (rest : Text) (consume : Bool) : ∃ resp : ParsedResponse F, resp.requestId = some (m : ℤ) ∧
      c.classifyInbound py (Packet.wire ⟨sender, '#' :: (decimal m ++ [' ']) ++ rest⟩) consume =
        (.ok (c.matchResponse resp consume).1, (c.matchResponse resp consume).2) := by
  have hwords := split_hash_decimal m rest
  have hbody : Python.stripSenderPrefix
      (some (Packet.wire ⟨sender, '#' :: (decimal m ++ [' ']) ++ rest⟩)) =
        '#' :: (decimal m ++ [' ']) ++ rest :=
    Python.stripSenderPrefix_append hcolon (stops_cons.mpr rfl)
  rw [← hbody] at hwords
  exact hpy.classifyInbound_decimal c ((length_decimal_le_of_lt hm).trans (by decide)) hwords consume

/-- An event asks no node and answers no request. -/
theorem Channel.WellNamed.idle_event {ch : Channel κ ι H Φ σ F} (hch : ch.WellNamed) (i : ι)
    (rest : Text) : ch.Idle ⟨(ch.station i).name, McRpc.eventWord ++ rest⟩ := by
  obtain ⟨hnul, hcolon⟩ := hch.station i
  constructor
  case asks =>
    intro j
    have htext : cText (McRpc.eventWord ++ rest) = McRpc.eventWord ++ cText rest :=
      cText_append (by decide)
    rintro ⟨req, hparse, haddr⟩
    rw [lineOf_eq hnul hcolon (by rw [htext]; exact stops_cons.mpr rfl), htext] at hparse
    obtain ⟨hkind, htarget⟩ := Parser.parse_event hparse
    simp only [Dispatcher.isAddressedToUs, hkind, htarget, Bool.and_eq_true] at haddr
    have hother := hch.noEvent j
    rw [show (ch.station j).rpc.nodeName = (ch.station j).rpc.dispatcher.nodeName from rfl,
      haddr.2] at hother
    cases hother
  case id =>
    intro digits
    have hbody : Python.stripSenderPrefix
        (some (Packet.wire ⟨(ch.station i).name, McRpc.eventWord ++ rest⟩)) =
          McRpc.eventWord ++ rest := Python.stripSenderPrefix_append hcolon (stops_cons.mpr rfl)
    rw [hbody]
    exact firstWord_ne_hash (by decide) rfl digits

/-! ### The steps -/

variable {ch}

theorem Known.append {log : List (Happening κ ι V T)} {p : Packet} (h : Known ch log p)
    (more : List (Happening κ ι V T)) : Known ch (log ++ more) p := by
  cases h with
  | request hissued => exact .request (List.mem_append_left _ hissued)
  | answer hissued hexecuted hanswers =>
    exact .answer (List.mem_append_left _ hissued) (List.mem_append_left _ hexecuted) hanswers
  | idle hidle => exact .idle hidle

namespace Tracks

variable {n : Network κ ι σ V T}

theorem close [DecidableEq κ] (h : Tracks ch n) {c : κ} {r : RequestCorrelator V T}
    {more : List (Happening κ ι V T)} (hissued : ∀ c' p, .issued c' p ∉ more)
    (hclosed : ∀ c' p, Closed more c' p →
      c' = c ∧ (n.clients c).pending.get p.requestId = some p)
    (hpending : ∀ m p, r.pending.get m = some p ↔
      (n.clients c).pending.get m = some p ∧ ¬ Closed more c p) :
    Tracks ch { n.setClient c r with log := n.log ++ more } := by
  have hmem {c' : κ} {p : PendingRequest V T} : .issued c' p ∈ n.log ++ more ↔ .issued c' p ∈ n.log := by
    rw [List.mem_append, or_iff_left (hissued c' p)]
  constructor
  case pending =>
    intro c' m p
    dsimp only [Network.setClient]
    rw [hmem, closed_append, not_or]
    by_cases hc : c' = c
    · rw [hc, Function.update_self, hpending, h.pending, and_assoc, and_assoc]
    · rw [Function.update_of_ne hc, h.pending]
      refine and_congr_right fun _ => and_congr_right fun _ => (and_iff_left ?_).symm
      exact fun hp => hc (hclosed c' p hp).1
  case ids =>
    intro c₁ c₂ p₁ p₂ h₁ h₂
    exact h.ids c₁ c₂ p₁ p₂ (hmem.mp h₁) (hmem.mp h₂)
  case closed =>
    intro c' p hp
    rw [hmem]
    rcases closed_append.mp hp with hp | hp
    · exact h.closed c' p hp
    · obtain ⟨rfl, hget⟩ := hclosed c' p hp
      exact ((h.pending c' _ p).mp hget).1
  case written => exact fun c' p hp => h.written c' p (hmem.mp hp)
  case sent => exact fun c' p hp => h.sent c' p (hmem.mp hp)
  case air => exact fun p hp => (h.air p hp).append more

theorem leave [DecidableEq κ] (h : Tracks ch n) {c : κ} {r : RequestCorrelator V T}
    (hsame : r.pending = (n.clients c).pending) :
    Tracks ch { n.setClient c r with log := n.log ++ [] } := by
  apply h.close
  · exact fun c' p => List.not_mem_nil
  · exact fun c' p hp => absurd hp not_closed_nil
  · intro m p
    rw [hsame]
    exact (and_iff_left not_closed_nil).symm

theorem keyed (h : Tracks ch n) (c : κ) : (n.clients c).Keyed :=
  fun m p hm => ((h.pending c m p).mp hm).2.1

theorem open_of_get (h : Tracks ch n) {c : κ} {m : ℤ} {p : PendingRequest V T}
    (hget : (n.clients c).pending.get m = some p) : .issued c p ∈ n.log ∧ ¬ Closed n.log c p := by
  obtain ⟨hissued, -, hopen⟩ := (h.pending c m p).mp hget
  exact ⟨hissued, hopen⟩

/-- A client that closes the entry of an id. -/
theorem closeEntry [DecidableEq κ] (h : Tracks ch n) {c : κ} {m : ℤ} {p : PendingRequest V T}
    (hget : (n.clients c).pending.get m = some p) {x : Happening κ ι V T}
    (hissued : ∀ c' q, .issued c' q ≠ x) (hx : ∀ c' q, Closed [x] c' q ↔ c' = c ∧ q = p) :
    Tracks ch { n.setClient c { n.clients c with pending := (n.clients c).pending.erase m } with
      log := n.log ++ [x] } := by
  apply h.close
  · intro c' q hq
    exact hissued c' q (List.mem_singleton.mp hq)
  · intro c' q hq
    obtain ⟨hc, rfl⟩ := (hx c' q).mp hq
    exact ⟨hc, (h.keyed c m q hget).symm ▸ hget⟩
  · intro k q
    rw [hx]
    by_cases hk : k = m
    · rw [hk, Dict.get_erase_self, hget]
      refine iff_of_false (Option.some_ne_none q).symm ?_
      rintro ⟨hq, hnew⟩
      exact hnew ⟨rfl, (Option.some.inj hq).symm⟩
    · rw [Dict.get_erase_of_ne _ hk, iff_self_and]
      rintro hq ⟨-, rfl⟩
      exact hk ((h.keyed c k q hq).symm.trans (h.keyed c m q hget))

theorem closed_dropped {c c' : κ} {p q : PendingRequest V T} :
    Closed ([.dropped c p] : List (Happening κ ι V T)) c' q ↔ c' = c ∧ q = p := by
  simp [Closed]

theorem closed_returned {c c' : κ} {p q : PendingRequest V T} {reply : Packet} :
    Closed ([.returned c p reply true] : List (Happening κ ι V T)) c' q ↔ c' = c ∧ q = p := by
  simp [Closed]

theorem not_closed_returned {c c' : κ} {p q : PendingRequest V T} {reply : Packet} :
    ¬ Closed ([.returned c p reply false] : List (Happening κ ι V T)) c' q := by
  simp [Closed]

theorem take [DecidableEq κ] (h : Tracks ch n) (c : κ) (id : Option ℤ) :
    LawfulFrom ch.service n.log (((n.clients c).take id).1.toList.map (.dropped c)) ∧
      Tracks ch { n.setClient c ((n.clients c).take id).2 with
        log := n.log ++ ((n.clients c).take id).1.toList.map (.dropped c) } := by
  cases id with
  | none => exact ⟨trivial, h.leave rfl⟩
  | some m =>
    cases hget : (n.clients c).pending.get m with
    | some p =>
      obtain ⟨hissued, hopen⟩ := h.open_of_get hget
      simp only [RequestCorrelator.take, hget]
      exact ⟨lawfulFrom_singleton.mpr (.dropped hissued hopen),
        h.closeEntry hget (by simp) (fun _ _ => closed_dropped)⟩
    | none =>
      simp only [RequestCorrelator.take, hget]
      refine ⟨trivial, h.close (fun _ _ => List.not_mem_nil) (fun _ _ hp => absurd hp not_closed_nil)
        (fun k q => ?_)⟩
      refine Iff.trans ?_ (and_iff_left not_closed_nil).symm
      by_cases hk : k = m
      · rw [hk, Dict.get_erase_self, hget]
      · rw [Dict.get_erase_of_ne _ hk]

theorem expire [DecidableEq κ] [LE T] [DecidableLE T] (h : Tracks ch n) (c : κ) (now : T) :
    LawfulFrom ch.service n.log (((n.clients c).expire now).1.map (.dropped c)) ∧
      Tracks ch { n.setClient c ((n.clients c).expire now).2 with
        log := n.log ++ ((n.clients c).expire now).1.map (.dropped c) } := by
  have hdue : ∀ p ∈ ((n.clients c).expire now).1,
      (n.clients c).pending.get p.requestId = some p :=
    fun p hp => (h.keyed c).get_of_mem_values (List.mem_filter.mp hp).1
  have hclosed (c' : κ) (p : PendingRequest V T) :
      Closed ((((n.clients c).expire now).1.map (.dropped c)) : List (Happening κ ι V T)) c' p ↔
        c' = c ∧ p ∈ ((n.clients c).expire now).1 := by
    simp only [Closed, List.mem_map, reduceCtorEq, and_false, exists_false, false_or,
      Happening.dropped.injEq]
    constructor
    · rintro ⟨q, hq, rfl, rfl⟩
      exact ⟨rfl, hq⟩
    · rintro ⟨rfl, hp⟩
      exact ⟨p, hp, rfl, rfl⟩
  have hnodup : ((n.clients c).expire now).1.Nodup :=
    ((h.keyed c).nodup_ids.sublist (List.filter_sublist.map _)).of_map
  constructor
  · exact lawfulFrom_dropped hnodup (fun p hp => h.open_of_get (hdue p hp))
  · apply h.close
    · simp
    · intro c' p hp
      obtain ⟨hc, hmem⟩ := (hclosed c' p).mp hp
      exact ⟨hc, hdue p hmem⟩
    · intro m p
      rw [hclosed, RequestCorrelator.get_expire]
      split
      · next hid =>
        refine iff_of_false (Option.some_ne_none p).symm ?_
        rintro ⟨hget, hnew⟩
        obtain ⟨q, hq, hsame⟩ := List.mem_map.mp hid
        have hget' := hdue q hq
        rw [hsame, hget] at hget'
        exact hnew ⟨rfl, Option.some.inj hget' ▸ hq⟩
      · next hid =>
        rw [iff_self_and]
        rintro hget ⟨-, hp⟩
        exact hid (List.mem_map.mpr ⟨p, hp, h.keyed c m p hget⟩)

section Hear

variable [DecidableEq κ] [Truthy V]

/-- A line without a request id returns nothing. -/
theorem hear_no_id (h : Tracks ch n) (c : κ) {p : Packet}
    (hp : ∀ digits, firstWord (Python.stripSenderPrefix (some p.wire)) ≠ some ('#' :: digits))
    (consume : Bool) :
    let r := (n.clients c).classifyInbound ch.py p.wire consume
    LawfulFrom ch.service n.log (Network.returnedOn c p consume r.1) ∧
      Tracks ch { n.setClient c r.2 with log := n.log ++ Network.returnedOn c p consume r.1 } := by
  obtain ⟨hsame, hnone⟩ := (n.clients c).classifyInbound_no_id ch.py hp consume
  dsimp only
  rw [Network.returnedOn, hsame, hnone]
  exact ⟨trivial, h.leave rfl⟩

theorem hear_answer (h : Tracks ch n) (hpy : ch.py.Regular) (hch : ch.WellNamed) (c : κ) {c' : κ}
    {q : PendingRequest V T} {i : ι} {reply : Packet} (hissued : .issued c' q ∈ n.log)
    (hexecuted : .executed i (cText q.rawRequest) reply ∈ n.log)
    (hanswers : (ch.station i).Answers (cText q.rawRequest) reply) (consume : Bool) :
    let r := (n.clients c).classifyInbound ch.py reply.wire consume
    LawfulFrom ch.service n.log (Network.returnedOn c reply consume r.1) ∧
      Tracks ch { n.setClient c r.2 with
        log := n.log ++ Network.returnedOn c reply consume r.1 } := by
  obtain ⟨m, rest, hid, hm, hreply⟩ := (h.written c' q hissued).answer_eq hanswers
  obtain ⟨resp, hresp, hclassify⟩ := classifyInbound_id hpy (n.clients c) hm (hch.station i).2 rest
    consume
  rw [← hreply] at hclassify
  dsimp only
  rw [hclassify]
  rcases (n.clients c).matchResponse_spec resp consume with hnone | ⟨k, p, hk, hget, hsome⟩
  · rw [hnone]
    exact ⟨trivial, h.leave rfl⟩
  · rw [hsome]
    -- ids are used once, so the pending request is the one the node answered
    obtain ⟨hpissued, hopen⟩ := h.open_of_get hget
    have hsame : p.requestId = q.requestId := by
      rw [h.keyed c k p hget, hid]
      exact Option.some.inj (hk.symm.trans hresp)
    obtain ⟨-, rfl⟩ := h.ids c c' p q hpissued hissued hsame
    refine ⟨lawfulFrom_singleton.mpr (.returned hpissued hexecuted hopen), ?_⟩
    change Tracks ch { n.setClient c _ with log := n.log ++ [.returned c p reply _] }
    cases consume && !p.isBroadcast with
    | true => exact h.closeEntry hget (by simp) (fun _ _ => closed_returned)
    | false =>
      apply h.close
      · simp
      · exact fun _ _ hclosed => absurd hclosed not_closed_returned
      · exact fun _ _ => (and_iff_left not_closed_returned).symm

end Hear

theorem transmit (h : Tracks ch n) (worlds : ι → σ) {lines : List Packet}
    {more : List (Happening κ ι V T)} (hmore : ∀ x ∈ more, ∃ i l r, x = .executed i l r)
    (hlines : ∀ p ∈ lines, Known ch (n.log ++ more) p) :
    Tracks ch { n with worlds := worlds, air := n.air ++ lines, log := n.log ++ more } := by
  have hissued (c : κ) (p : PendingRequest V T) :
      .issued c p ∈ n.log ++ more ↔ .issued c p ∈ n.log := by
    rw [List.mem_append, or_iff_left_iff_imp]
    intro hmem
    obtain ⟨i, l, r, he⟩ := hmore _ hmem
    cases he
  have hopen (c : κ) (p : PendingRequest V T) : Closed (n.log ++ more) c p ↔ Closed n.log c p := by
    rw [closed_append, or_iff_left_iff_imp]
    rintro (⟨r, hmem⟩ | hmem)
    · obtain ⟨i, l, r', he⟩ := hmore _ hmem
      cases he
    · obtain ⟨i, l, r', he⟩ := hmore _ hmem
      cases he
  constructor
  case pending => exact fun c m p => by rw [hissued, hopen, h.pending]
  case ids =>
    intro c₁ c₂ p₁ p₂ h₁ h₂
    exact h.ids c₁ c₂ p₁ p₂ ((hissued _ _).mp h₁) ((hissued _ _).mp h₂)
  case closed => exact fun c p hp => (hissued c p).mpr (h.closed c p ((hopen c p).mp hp))
  case written => exact fun c p hp => h.written c p ((hissued c p).mp hp)
  case sent => exact fun c p hp => List.mem_append_left _ (h.sent c p ((hissued c p).mp hp))
  case air =>
    exact List.forall_mem_append.mpr ⟨fun p hp => (h.air p hp).append more, hlines⟩

theorem speak (h : Tracks ch n) (worlds : ι → σ) {lines : List Packet}
    (hlines : ∀ p ∈ lines, Known ch n.log p) :
    Tracks ch { n with worlds := worlds, air := n.air ++ lines, log := n.log ++ [] } := by
  apply h.transmit worlds (List.forall_mem_nil _)
  rwa [List.append_nil]

/-- A line that asks no node changes nothing. -/
theorem ignore [DecidableEq ι] (h : Tracks ch n) {i : ι} {p : Packet}
    (hasks : ¬ ∃ req, (ch.station i).rpc.Asks (Station.lineOf p) req) :
    let r := (ch.station i).handleInbound p (n.worlds i)
    let happened : List (Happening κ ι V T) := r.1.map (.executed i (Station.lineOf p))
    LawfulFrom ch.service n.log happened ∧ Tracks ch { n with
      worlds := Function.update n.worlds i r.2, air := n.air ++ r.1, log := n.log ++ happened } := by
  dsimp only
  rw [(ch.station i).handleInbound_not_asks hasks]
  exact ⟨trivial, h.speak _ (List.forall_mem_nil _)⟩

theorem issue [DecidableEq κ] (h : Tracks ch n) {c : κ} {r : RequestCorrelator V T}
    {p : PendingRequest V T} (hset : r.pending = (n.clients c).pending.set p.requestId p)
    (hwritten : p.Written) (hnew : ∀ c' q, .issued c' q ∈ n.log → q.requestId ≠ p.requestId) :
    Allowed ch.service n.log (.issued c p) ∧
      Tracks ch { n.setClient c r with
        air := n.air ++ [⟨ch.clientName c, p.rawRequest⟩], log := n.log ++ [.issued c p] } := by
  have hissued (c' : κ) (q : PendingRequest V T) :
      .issued c' q ∈ n.log ++ [.issued c p] ↔ .issued c' q ∈ n.log ∨ c' = c ∧ q = p := by
    simp
  have hopen (c' : κ) (q : PendingRequest V T) :
      Closed (n.log ++ [.issued c p]) c' q ↔ Closed n.log c' q := by
    rw [closed_append, or_iff_left (by simp [Closed])]
  have hfree : ¬ Closed n.log c p := fun hp => hnew c p (h.closed c p hp) rfl
  refine ⟨.issued (fun c' hp => hnew c' p hp rfl), ?_⟩
  constructor
  case pending =>
    intro c' m q
    dsimp only [Network.setClient]
    rw [hissued, hopen]
    by_cases hc : c' = c
    · rw [hc, Function.update_self, hset]
      by_cases hm : m = p.requestId
      · rw [hm, Dict.get_set_self, Option.some.injEq]
        constructor
        · rintro rfl
          exact ⟨.inr ⟨rfl, rfl⟩, rfl, hfree⟩
        · rintro ⟨hq | ⟨-, rfl⟩, hid, -⟩
          · exact absurd hid (hnew c q hq)
          · rfl
      · rw [Dict.get_set_of_ne _ _ hm, h.pending]
        refine and_congr_left fun hq => (or_iff_left ?_).symm
        rintro ⟨-, rfl⟩
        exact hm hq.1.symm
    · rw [Function.update_of_ne hc, h.pending]
      exact and_congr_left fun _ => (or_iff_left (fun hq => hc hq.1)).symm
  case ids =>
    intro c₁ c₂ p₁ p₂ h₁ h₂ hid
    rcases (hissued c₁ p₁).mp h₁ with hold₁ | ⟨hc₁, hp₁⟩
    · rcases (hissued c₂ p₂).mp h₂ with hold₂ | ⟨-, rfl⟩
      · exact h.ids c₁ c₂ p₁ p₂ hold₁ hold₂ hid
      · exact absurd hid (hnew c₁ p₁ hold₁)
    · rcases (hissued c₂ p₂).mp h₂ with hold₂ | ⟨hc₂, hp₂⟩
      · exact absurd (hp₁ ▸ hid.symm) (hnew c₂ p₂ hold₂)
      · exact ⟨hc₁.trans hc₂.symm, hp₁.trans hp₂.symm⟩
  case closed => exact fun c' q hq => (hissued c' q).mpr (.inl (h.closed c' q ((hopen c' q).mp hq)))
  case written =>
    intro c' q hq
    rcases (hissued c' q).mp hq with hq | ⟨-, rfl⟩
    · exact h.written c' q hq
    · exact hwritten
  case sent =>
    intro c' q hq
    rcases (hissued c' q).mp hq with hq | ⟨rfl, rfl⟩
    · exact List.mem_append_left _ (h.sent c' q hq)
    · exact List.mem_append_right _ (List.mem_singleton_self _)
  case air =>
    refine List.forall_mem_append.mpr ⟨fun q hq => (h.air q hq).append _, ?_⟩
    rw [List.forall_mem_singleton]
    exact .request ((hissued c p).mpr (.inr ⟨rfl, rfl⟩))

theorem fresh (timeout : κ → T) (start : κ → ℤ) (worlds : ι → σ) :
    Tracks ch (Network.fresh timeout start worlds : Network κ ι σ V T) where
  pending c m p := by
    refine iff_of_false (Option.some_ne_none p).symm ?_
    rintro ⟨hp, -⟩
    exact List.not_mem_nil hp
  ids c c' p p' hp := absurd hp List.not_mem_nil
  closed c p hp := absurd hp not_closed_nil
  written c p hp := absurd hp List.not_mem_nil
  sent c p hp := absurd hp List.not_mem_nil
  air p hp := absurd hp List.not_mem_nil

end Tracks

namespace Network

variable [DecidableEq κ] [DecidableEq ι] [Truthy V] [Add T] [LE T] [DecidableLE T]

/-- A request is written for a target and a command, under an id of 32 bits that no client used
before; what others say on the channel is idle. -/
def Proper (ch : Channel κ ι H Φ σ F) (n : Network κ ι σ V T) : NetworkCall κ ι V T → Prop
  | .build c a _ =>
    a.Writable ((n.clients c).chooseId a.requestId).1 →
      (∃ t : Target, a.dest = t.text) ∧ (∃ w : Ident, a.command = w.chars) ∧
      (∃ m : ℕ, ((n.clients c).chooseId a.requestId).1 = m ∧ m < 2 ^ 32) ∧
      ∀ c' p, .issued c' p ∈ n.log → p.requestId ≠ ((n.clients c).chooseId a.requestId).1
  | .chat p => ch.Idle p
  | _ => True

variable {n : Network κ ι σ V T}

theorem tracks_build (h : Tracks ch n) {c : κ} {a : BuildCall V T} {now : T}
    (hproper : Proper ch n (.build c a now)) :
    LawfulFrom ch.service n.log (n.stepWith ch (.build c a now)).2 ∧
      Tracks ch (n.step ch (.build c a now)).1 := by
  rw [step, stepWith]
  dsimp only
  cases hbuild : ((n.clients c).build a now).1 with
  | error e => exact ⟨trivial, h.leave (RequestCorrelator.pending_of_build_error hbuild)⟩
  | ok r =>
    obtain ⟨line, p⟩ := r
    obtain ⟨hwritable, hline, ⟨deadline, hp⟩, hset⟩ := (n.clients c).build_ok
      (Prod.ext hbuild rfl : (n.clients c).build a now = (.ok (line, p), _))
    obtain ⟨⟨t, ht⟩, ⟨w, hw⟩, ⟨m, hm, hlt⟩, hnew⟩ := hproper hwritable
    have hid : p.requestId = ((n.clients c).chooseId a.requestId).1 := by rw [hp]; rfl
    have hraw : p.rawRequest = line := by rw [hp]; rfl
    have hwritten : p.Written := by
      refine ⟨t, m, w, hid.trans hm, hlt, ?_⟩
      have hdigits : (decimal m).length ≤ 4300 := (length_decimal_le_of_lt hlt).trans (by decide)
      have hargs : p.arguments = a.arguments := by rw [hp]; rfl
      rw [hm, ht, hw, buildRequest_some (ht ▸ hwritable.dest) w.ne_nil hdigits] at hline
      rw [hraw, hargs]
      exact (Except.ok.inj hline).symm
    rw [← hid] at hset
    obtain ⟨hallowed, htracks⟩ := h.issue hset hwritten (by rwa [hid])
    rw [hraw] at htracks
    exact ⟨lawfulFrom_singleton.mpr hallowed, htracks⟩

theorem tracks_classifyInbound (hch : ch.WellNamed) (hpy : ch.py.Regular) (h : Tracks ch n) (c : κ)
    (k : ℕ) (consume : Bool) :
    LawfulFrom ch.service n.log (n.stepWith ch (.classifyInbound c k consume)).2 ∧
      Tracks ch (n.step ch (.classifyInbound c k consume)).1 := by
  rw [step, stepWith]
  dsimp only
  cases hk : n.air[k]? with
  | none => exact ⟨trivial, by simpa using h⟩
  | some p =>
    dsimp only
    cases h.air p (List.mem_of_getElem? hk) with
    | request hissued =>
      exact h.hear_no_id c ((h.written _ _ hissued).firstWord_ne (hch.client _).2) consume
    | answer hissued hexecuted hanswers =>
      exact h.hear_answer hpy hch c hissued hexecuted hanswers consume
    | idle hidle => exact h.hear_no_id c hidle.id consume

theorem tracks_handleInbound (hch : ch.WellNamed) (h : Tracks ch n) (i : ι) (k : ℕ) :
    LawfulFrom ch.service n.log (n.stepWith ch (.handleInbound i k)).2 ∧
      Tracks ch (n.step ch (.handleInbound i k)).1 := by
  rw [step, stepWith]
  dsimp only
  cases hk : n.air[k]? with
  | none => exact ⟨trivial, by simpa using h⟩
  | some p =>
    dsimp only
    cases h.air p (List.mem_of_getElem? hk) with
    | @request c q hissued =>
      have hline := (h.written c q hissued).lineOf_eq (hch.client c).1 (hch.client c).2
      rw [hline]
      rcases (ch.station i).handleInbound_cases ⟨ch.clientName c, q.rawRequest⟩ (n.worlds i) with
        hnone | ⟨reply, hanswers, hone⟩
      · rw [hnone]
        exact ⟨trivial, h.speak _ (List.forall_mem_nil _)⟩
      · rw [hline] at hanswers
        rw [hone]
        refine ⟨lawfulFrom_singleton.mpr (.executed hissued hanswers), h.transmit _ (by simp) ?_⟩
        rw [List.forall_mem_singleton]
        exact .answer (List.mem_append_left _ hissued)
          (List.mem_append_right _ (List.mem_singleton_self _)) hanswers
    | @answer c q j _ hissued _ hanswers =>
      obtain ⟨m, rest, -, -, hreply⟩ := (h.written c q hissued).answer_eq hanswers
      obtain ⟨hnul, hcolon⟩ := hch.station j
      apply h.ignore
      rw [hreply]
      exact not_asks_hash hnul hcolon _ _
    | idle hidle => exact h.ignore (hidle.asks i)

theorem tracks_publish (hch : ch.WellNamed) (h : Tracks ch n) (i : ι) (name kv : Option Text) :
    Tracks ch (n.step ch (.publish i name kv)).1 := by
  apply h.speak
  intro p hp
  obtain ⟨c, hc, rfl⟩ := List.mem_map.mp hp
  rcases (ch.station i).rpc.mem_publishEvent (ch.station i).apps name kv _ c hc with hnil | ⟨rest, he⟩
  · cases hnil
  · rw [he]
    exact .idle (hch.idle_event i rest)

/-- A step keeps the rules of the service and what the log says. -/
theorem tracks_step (hch : ch.WellNamed) (hpy : ch.py.Regular) (h : Tracks ch n)
    {call : NetworkCall κ ι V T} (hproper : Proper ch n call) :
    LawfulFrom ch.service n.log (n.stepWith ch call).2 ∧ Tracks ch (n.step ch call).1 := by
  cases call with
  | build c a now => exact tracks_build h hproper
  | nextRequestId c => exact ⟨trivial, h.leave rfl⟩
  | take c id => exact h.take c id
  | expire c now => exact h.expire c now
  | classifyInbound c k consume => exact tracks_classifyInbound hch hpy h c k consume
  | handleInbound i k => exact tracks_handleInbound hch h i k
  | publish i name kv => exact ⟨trivial, tracks_publish hch h i name kv⟩
  | chat p =>
    exact ⟨trivial, h.speak n.worlds (List.forall_mem_singleton.mpr (.idle hproper))⟩

end Network

end Mcrpc
