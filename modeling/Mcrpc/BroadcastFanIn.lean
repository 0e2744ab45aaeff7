import Mcrpc.Correlator
import Mcrpc.ReplyLine
import Mcrpc.RequestId

/-!
# Replies to a broadcast

A correlator over a run of replies. All replies to one request are matched with it exactly when the
`meta` of the request says `broadcast`, or there is only one; the argument of that name has no part
in it.
-/

namespace Mcrpc

/-- The message is `#id …`, with or without a sender. -/
def replyTo (n : ℤ) (raw : Text) : Bool :=
  firstWord (Python.stripSenderPrefix (some raw)) = some ('#' :: intText n)

def ReturnsPending {F V T : Type} (p : PendingRequest V T) (r : Except PyError (Inbound F V T)) :
    Prop :=
  ∃ i, r = .ok i ∧ i.kind = .response ∧ i.pending = some p

theorem ne_of_replyTo {m n : ℤ} {raw : Text} (hm : replyTo m raw = true)
    (hn : replyTo n raw = false) : m ≠ n := by
  rintro rfl
  rw [hm] at hn
  cases hn

namespace Python

variable {F : Type} (py : Python F)

/-- The id of `#id …` is the id, or there is none. -/
theorem takeRequestId_intText {n : ℤ} {rest tokens : List Text} {rid : Option ℤ}
    (h : py.takeRequestId (('#' :: intText n) :: rest) = .ok (rid, tokens)) :
    rid = if 0 ≤ n then some n else none := by
  rw [intText] at h
  by_cases hn : 0 ≤ n
  · obtain ⟨k, rfl⟩ := Int.eq_ofNat_of_zero_le hn
    rw [if_neg (by omega), Int.natAbs_natCast] at h
    rw [if_pos hn]
    by_cases hlen : (decimal k).length ≤ 4300
    · rw [py.takeRequestId_decimal hlen] at h
      exact (Prod.mk.inj (Except.ok.inj h)).1.symm
    · rw [takeRequestId, if_pos (py.isdigitStr_decimal k),
        py.int_digits _ (decimal_ne_nil k) (fun c hc => isDigit_of_mem_decimal hc),
        if_neg hlen] at h
      cases h
  · have hminus : py.isdigitStr ('-' :: decimal n.natAbs) = false := by
      have hdigit : py.isdigit '-' = false := py.isdigit_ascii '-' (by decide)
      rw [isdigitStr, List.all_cons, hdigit, Bool.false_and, Bool.and_false]
    rw [if_pos (by omega), py.takeRequestId_of_not_isdigitStr hminus] at h
    rw [if_neg hn]
    exact (Prod.mk.inj (Except.ok.inj h)).1.symm

end Python

namespace RequestCorrelator

variable {F V T : Type} [Truthy V] {py : Python F} {c : RequestCorrelator V T} {n : ℤ}
  {p : PendingRequest V T}

def receive (py : Python F) (c : RequestCorrelator V T) (raw : Text) :
    RequestCorrelator V T × Except PyError (Inbound F V T) :=
  ((c.classifyInbound py raw).2, (c.classifyInbound py raw).1)

theorem split_of_replyTo {raw : Text} (h : replyTo n raw = true) :
    ∃ rest, split (Python.stripSenderPrefix (some raw)) = ('#' :: intText n) :: rest :=
  List.head?_eq_some_iff.mp (of_decide_eq_true h)

theorem receive_reply (hpy : py.Regular) {k : ℕ} (hk : (decimal k).length ≤ 4300) {raw : Text}
    (h : replyTo k raw = true) : ∃ resp : ParsedResponse F, resp.requestId = some (k : ℤ) ∧
      receive py c raw = ((c.matchResponse resp true).2, .ok (c.matchResponse resp true).1) := by
  obtain ⟨rest, hwords⟩ := split_of_replyTo h
  rw [intText_natCast] at hwords
  obtain ⟨resp, hid, hclassify⟩ := hpy.classifyInbound_decimal c hk hwords true
  refine ⟨resp, hid, ?_⟩
  rw [receive, hclassify]

theorem get_receive_of_ne (hpy : py.Regular) {k : ℤ} (hk : k ≠ n) {raw : Text}
    (h : replyTo k raw = true) : (receive py c raw).1.pending.get n = c.pending.get n := by
  obtain ⟨rest, hwords⟩ := split_of_replyTo h
  rw [receive, hpy.classifyInbound_hash c hwords true]
  split
  · rfl
  · next rid tokens htake =>
    apply c.get_matchResponse_of_ne
    rw [py.requestId_responseOf, py.takeRequestId_intText htake]
    split
    · exact fun he => hk (Option.some.inj he)
    · exact (Option.some_ne_none n).symm

def AllReplies (msgs : List Text) : Prop := ∀ raw ∈ msgs, ∃ k, replyTo k raw = true

def repliesTo (n : ℤ) (msgs : List Text) : List Text := msgs.filter (replyTo n)

theorem receive_reply_of_get_none (hpy : py.Regular) (hget : 0 ≤ n → c.pending.get n = none)
    {raw : Text} (h : replyTo n raw = true) :
    (receive py c raw).1 = c ∧ ¬ ReturnsPending p (receive py c raw).2 := by
  obtain ⟨rest, hwords⟩ := split_of_replyTo h
  rw [receive, hpy.classifyInbound_hash c hwords true]
  split
  · refine ⟨rfl, ?_⟩
    rintro ⟨i, hi, -⟩
    cases hi
  · next rid tokens htake =>
    have hpeek : c.peek
        (py.responseOf (strip (Python.stripSenderPrefix (some raw))) rid tokens).requestId =
          none := by
      rw [py.requestId_responseOf, py.takeRequestId_intText htake]
      split
      · next hn => exact hget hn
      · rfl
    rw [c.matchResponse_of_peek hpeek]
    refine ⟨rfl, ?_⟩
    rintro ⟨i, hi, -, hpending⟩
    cases hi
    cases hpending

theorem not_returnsPending (hpy : py.Regular) (hget : 0 ≤ n → c.pending.get n = none)
    {msgs : List Text} (hmsgs : AllReplies msgs) :
    ∀ r ∈ answersOf (receive py) (replyTo n) c msgs, ¬ ReturnsPending p r := by
  induction msgs generalizing c with
  | nil =>
    intro r hr
    cases hr
  | cons raw msgs ih =>
    obtain ⟨⟨m, hm⟩, hmsgs⟩ := List.forall_mem_cons.mp hmsgs
    cases hmine : replyTo n raw with
    | true =>
      obtain ⟨hsame, hnot⟩ := receive_reply_of_get_none (p := p) hpy hget hmine
      simp only [answersOf, hmine, if_true, hsame]
      exact List.forall_mem_cons.mpr ⟨hnot, ih hget hmsgs⟩
    | false =>
      simp only [answersOf, hmine, Bool.false_eq_true, if_false]
      apply ih _ hmsgs
      rwa [get_receive_of_ne hpy (ne_of_replyTo hm hmine) hm]

/-- Once the request is gone, its replies return it only if there are none. -/
theorem returnsPending_iff_of_gone (hpy : py.Regular) {k : ℕ} (hgone : c.pending.get k = none)
    {msgs : List Text} (hmsgs : AllReplies msgs) :
    (∀ r ∈ answersOf (receive py) (replyTo k) c msgs, ReturnsPending p r) ↔
      repliesTo k msgs = [] := by
  have hlen := length_answersOf (receive py) (replyTo k) c msgs
  constructor
  · intro h
    cases hanswers : answersOf (receive py) (replyTo k) c msgs with
    | nil =>
      rw [hanswers] at hlen
      exact List.length_eq_zero_iff.mp hlen.symm
    | cons r rs =>
      have hr : r ∈ answersOf (receive py) (replyTo k) c msgs := by
        rw [hanswers]
        exact List.mem_cons_self
      exact absurd (h r hr) (not_returnsPending hpy (fun _ => hgone) hmsgs r hr)
  · intro h r hr
    have hnil : answersOf (receive py) (replyTo k) c msgs = [] := by
      refine List.length_eq_zero_iff.mp (hlen.trans ?_)
      exact List.length_eq_zero_iff.mpr h
    rw [hnil] at hr
    cases hr

/-- All replies are matched with the request exactly when it says that it is a broadcast, or they
are at most one. -/
theorem returnsPending_iff (hpy : py.Regular) {k : ℕ} (hk : (decimal k).length ≤ 4300)
    (hget : c.pending.get k = some p) {msgs : List Text} (hmsgs : AllReplies msgs) :
    (∀ r ∈ answersOf (receive py) (replyTo k) c msgs, ReturnsPending p r) ↔
      p.isBroadcast = true ∨ (repliesTo k msgs).length ≤ 1 := by
  induction msgs generalizing c with
  | nil => exact iff_of_true (fun r hr => by cases hr) (.inr (Nat.zero_le 1))
  | cons raw msgs ih =>
    obtain ⟨⟨m, hm⟩, hmsgs⟩ := List.forall_mem_cons.mp hmsgs
    rw [repliesTo]
    cases hmine : replyTo k raw with
    | true =>
      obtain ⟨resp, hid, hreceive⟩ := receive_reply (c := c) hpy hk hmine
      rw [c.matchResponse_of_get hid hget] at hreceive
      have hfirst : ReturnsPending p (receive py c raw).2 := by
        rw [hreceive]
        exact ⟨_, rfl, rfl, rfl⟩
      rw [List.filter_cons_of_pos hmine, List.length_cons]
      simp only [answersOf, hmine, if_true, List.forall_mem_cons]
      rw [and_iff_right hfirst]
      cases hbroadcast : p.isBroadcast with
      | true =>
        simp only [hreceive, hbroadcast, if_true, true_or, iff_true]
        exact (ih hget hmsgs).mpr (.inl hbroadcast)
      | false =>
        have hgone : (receive py c raw).1.pending.get k = none := by
          simp only [hreceive, hbroadcast, Bool.false_eq_true, if_false]
          exact Dict.get_erase_self c.pending k
        rw [returnsPending_iff_of_gone hpy hgone hmsgs, repliesTo, ← List.length_eq_zero_iff]
        simp only [Bool.false_eq_true, false_or]
        omega
    | false =>
      rw [List.filter_cons_of_neg (by rw [hmine]; exact Bool.false_ne_true)]
      simp only [answersOf, hmine, Bool.false_eq_true, if_false]
      apply ih _ hmsgs
      rw [get_receive_of_ne hpy (ne_of_replyTo hm hmine) hm, hget]

/-- Every reply to a broadcast returns its request exactly when the id is not negative and the
`meta` of the request says `broadcast`, or only one reply comes. -/
theorem broadcast_iff (hpy : py.Regular) [Add T] {a : BuildCall V T} {now : T} {line : Text}
    {c' : RequestCorrelator V T}
    (hbuild : c.build { a with broadcast := true } now = (.ok (line, p), c')) {msgs : List Text}
    (hmsgs : AllReplies msgs) (hsome : repliesTo (c.chooseId a.requestId).1 msgs ≠ []) :
    (∀ r ∈ answersOf (receive py) (replyTo (c.chooseId a.requestId).1) c' msgs,
        ReturnsPending p r) ↔
      0 ≤ (c.chooseId a.requestId).1 ∧
        ((a.metadata.get "broadcast".toList).any Truthy.truthy = true ∨
          (repliesTo (c.chooseId a.requestId).1 msgs).length = 1) := by
  obtain ⟨⟨-, -, hdigits⟩, -, ⟨deadline, rfl⟩, hpending⟩ := c.build_ok hbuild
  have hget := Dict.get_set_self c.pending (c.chooseId a.requestId).1
    (BuildCall.pendingRequest { a with broadcast := true } (c.chooseId a.requestId).1 line deadline)
  rw [← hpending] at hget
  generalize (c.chooseId a.requestId).1 = n at *
  have hpos := List.length_pos_iff.mpr hsome
  by_cases hn : 0 ≤ n
  · obtain ⟨k, rfl⟩ := Int.eq_ofNat_of_zero_le hn
    rw [Int.natAbs_natCast] at hdigits
    refine (returnsPending_iff hpy hdigits hget hmsgs).trans ?_
    rw [and_iff_right hn]
    exact or_congr Iff.rfl (by omega)
  · refine iff_of_false (fun h => ?_) (fun h => hn h.1)
    obtain ⟨r, hr⟩ := List.exists_mem_of_length_pos
      (Nat.lt_of_lt_of_eq hpos (length_answersOf (receive py) (replyTo n) c' msgs).symm)
    exact not_returnsPending hpy (fun h => absurd h hn) hmsgs r hr (h r hr)

def rollCall : BuildCall Bool ℕ := { target := [], command := "ping".toList, broadcast := true }

def peersAnswer : List Text := ["node1: #1 pong".toList, "node2: #1 pong".toList]

theorem allReplies_peersAnswer : AllReplies peersAnswer := by
  rw [AllReplies, peersAnswer, List.forall_mem_cons, List.forall_mem_singleton]
  exact ⟨⟨1, rfl⟩, ⟨1, rfl⟩⟩

theorem broadcast_iff_rollCall : ∃ line p c',
    ({ defaultTimeout := 15 } : RequestCorrelator Bool ℕ).build
        { rollCall with broadcast := true } 0 = (.ok (line, p), c') ∧
      ((∀ r ∈ answersOf (receive Python.ascii) (replyTo 1) c' peersAnswer,
          ReturnsPending p r) ↔
        (0 : ℤ) ≤ 1 ∧ ((rollCall.metadata.get "broadcast".toList).any Truthy.truthy = true ∨
          (repliesTo 1 peersAnswer).length = 1)) :=
  ⟨_, _, _, rfl, broadcast_iff (a := rollCall) (c := { defaultTimeout := 15 })
    Python.ascii_regular rfl allReplies_peersAnswer (List.cons_ne_nil _ _)⟩

/-- The first answer takes the request away from the second. -/
theorem broadcast_consumed : ∃ line p c',
    ({ defaultTimeout := 15 } : RequestCorrelator Bool ℕ).build rollCall 0 = (.ok (line, p), c') ∧
      ¬ ∀ r ∈ answersOf (receive Python.ascii) (replyTo 1) c' peersAnswer, ReturnsPending p r := by
  refine ⟨_, _, _, rfl, fun h => ?_⟩
  rcases (returnsPending_iff (k := 1) Python.ascii_regular (by decide) rfl
    allReplies_peersAnswer).mp h with hbroadcast | hlen
  · cases hbroadcast
  · exact absurd hlen (by decide)

end RequestCorrelator
end Mcrpc
