import Mcrpc.McRpc
import Mcrpc.ParserScan

/-!
# Request lines that look like chat

`stripSenderPrefix` takes everything up to the first `:` of a text for a sender's name when a blank
follows it. A request line loses its target and command that way exactly when its first argument with
a `:` ends in it and a blank comes next, and the target is not a group, whose `:` comes first.
-/

namespace Mcrpc

open Scan

def afterColon (s : Text) : Text := (s.dropWhile (· ≠ ':')).drop 1

theorem afterColon_append {u s : Text} (hu : ':' ∉ u) : afterColon (u ++ s) = afterColon s := by
  rw [afterColon, List.dropWhile_append_of_pos (all_ne_of_not_mem hu)]
  rfl

theorem afterColon_cons (s : Text) : afterColon (':' :: s) = s := by
  rw [afterColon, List.dropWhile_cons_of_neg (by simp), List.drop_one, List.tail_cons]

theorem afterColon_of_not_mem {s : Text} (hs : ':' ∉ s) : afterColon s = [] := by
  have h := afterColon_append (s := []) hs
  rwa [List.append_nil] at h

/-- A text has a sender prefix exactly when a blank follows its first `:`. -/
theorem stripSenderPrefix_eq_self_iff (s : Text) : Parser.stripSenderPrefix (some s) = s ↔
    Stops isBlank (afterColon s) := by
  have hsplit : s.takeWhile (· ≠ ':') ++ s.dropWhile (· ≠ ':') = s :=
    List.takeWhile_append_dropWhile
  rw [afterColon, Parser.stripSenderPrefix]
  split
  · next d c msg hd =>
    rw [hd, List.drop_one, List.tail_cons, stops_cons]
    split
    · next hc =>
      refine iff_of_false (fun he => ?_) (by simp [hc])
      -- the message is shorter than the text
      have hmsg : (msg.dropWhile isBlank).length ≤ msg.length :=
        (List.dropWhile_sublist isBlank).length_le
      have hlen := congrArg List.length hsplit
      rw [hd, List.length_append, List.length_cons, List.length_cons] at hlen
      rw [he] at hmsg
      omega
    · next hc => exact iff_of_true rfl (by simpa using hc)
  · next hshort =>
    refine iff_of_true rfl ?_
    cases hd : s.dropWhile (· ≠ ':') with
    | nil => exact stops_nil
    | cons d rest =>
      cases rest with
      | nil => exact stops_nil
      | cons c msg => exact absurd hd (hshort d c msg)

namespace RequestLine

variable (L : RequestLine)

/-- The first argument with a `:` ends in it, and a blank comes after. -/
def ColonThenBlank (args : List (Blanks × Token)) (trail : Text) : Prop :=
  ∃ before gap token after w, args = before ++ (gap, token) :: after ∧
    (∀ a ∈ before, ':' ∉ a.2.chars) ∧ token.chars = w ++ [':'] ∧ ':' ∉ w ∧
    ∃ c ∈ (argsText after ++ trail).head?, isBlank c = true

def LooksSent : Prop := L.target.kind ≠ .group ∧ ColonThenBlank L.args L.trail

theorem argsText_cons (a : Blanks × Token) (args : List (Blanks × Token)) (s : Text) :
    argsText (a :: args) ++ s = a.1.chars ++ (a.2.chars ++ (argsText args ++ s)) := by
  simp only [argsText, List.flatMap_cons, List.append_assoc]

theorem not_stops_iff {p : Char → Bool} {s : Text} :
    ¬ Stops p s ↔ ∃ c ∈ s.head?, p c = true := by
  simp [Stops]

/-- An argument's own `:` followed by more of the argument hides the later ones. -/
theorem stops_of_colon_inside {w v s : Text} {token : Token} (htoken : token.chars = w ++ ':' :: v)
    (hv : v ≠ []) : Stops isBlank (v ++ s) := by
  refine Run.stops ⟨v, hv, fun c hc => token.all c ?_⟩ (fun _ => not_isBlank_of_isTokenChar) s
  rw [htoken]
  exact List.mem_append_right w (List.mem_cons_of_mem ':' hc)

theorem colonThenBlank_cons_of_colon {a : Blanks × Token} {args : List (Blanks × Token)}
    {trail w v : Text} (htoken : a.2.chars = w ++ ':' :: v) (hw : ':' ∉ w) :
    ColonThenBlank (a :: args) trail ↔
      v = [] ∧ ∃ c ∈ (argsText args ++ trail).head?, isBlank c = true := by
  constructor
  · rintro ⟨before, gap, token, after, w', hargs, hbefore, htoken', hw', hblank⟩
    cases before with
    | nil =>
      obtain ⟨rfl, rfl⟩ := List.cons.inj hargs
      have hv := congrArg afterColon (htoken.symm.trans htoken')
      rw [afterColon_append hw, afterColon_cons, afterColon_append hw', afterColon_cons] at hv
      exact ⟨hv, hblank⟩
    | cons b before =>
      obtain ⟨rfl, -⟩ := List.cons.inj hargs
      exact absurd (by rw [htoken]; simp) (hbefore a List.mem_cons_self)
  · rintro ⟨rfl, hblank⟩
    exact ⟨[], a.1, a.2, args, w, rfl, by simp, htoken, hw, hblank⟩

theorem colonThenBlank_cons_of_not_mem {a : Blanks × Token} {args : List (Blanks × Token)}
    {trail : Text} (ha : ':' ∉ a.2.chars) :
    ColonThenBlank (a :: args) trail ↔ ColonThenBlank args trail := by
  constructor
  · rintro ⟨before, gap, token, after, w, hargs, hbefore, htoken, hw, hblank⟩
    cases before with
    | nil =>
      obtain ⟨rfl, rfl⟩ := List.cons.inj hargs
      exact absurd (by rw [htoken]; simp) ha
    | cons b before =>
      obtain ⟨rfl, rfl⟩ := List.cons.inj hargs
      exact ⟨before, gap, token, after, w, rfl, (List.forall_mem_cons.mp hbefore).2, htoken, hw,
        hblank⟩
  · rintro ⟨before, gap, token, after, w, rfl, hbefore, htoken, hw, hblank⟩
    exact ⟨a :: before, gap, token, after, w, rfl, List.forall_mem_cons.mpr ⟨ha, hbefore⟩, htoken,
      hw, hblank⟩

theorem not_stops_afterColon_args {args : List (Blanks × Token)} {trail : Text}
    (htrail : ∀ c ∈ trail, isTokenChar c = false) :
    ¬ Stops isBlank (afterColon (argsText args ++ trail)) ↔ ColonThenBlank args trail := by
  induction args with
  | nil =>
    have hcolon : ':' ∉ argsText [] ++ trail := fun h => absurd (htrail ':' h) (by decide)
    rw [afterColon_of_not_mem hcolon]
    refine iff_of_false (fun h => h stops_nil) ?_
    rintro ⟨before, gap, token, after, w, h, -⟩
    simp at h
  | cons a args ih =>
    rw [argsText_cons, afterColon_append (a.1.not_mem rfl)]
    by_cases hmem : ':' ∈ a.2.chars
    · obtain ⟨w, v, htoken, hw⟩ := List.eq_append_cons_of_mem hmem
      rw [colonThenBlank_cons_of_colon htoken hw, htoken, List.append_assoc, List.cons_append,
        afterColon_append hw, afterColon_cons]
      by_cases hv : v = []
      · rw [hv, List.nil_append, not_stops_iff]
        exact (and_iff_right rfl).symm
      · exact iff_of_false (fun h => h (stops_of_colon_inside htoken hv)) (fun h => hv h.1)
    · rw [colonThenBlank_cons_of_not_mem hmem, afterColon_append hmem, ih]

theorem colon_not_mem_idText (id : Option IdField) : ':' ∉ idText id := by
  cases id with
  | none => exact List.not_mem_nil
  | some i =>
    intro h
    rcases List.mem_append.mp h with hblank | hrest
    · exact absurd (i.blank ':' hblank) (by decide)
    · rcases List.mem_cons.mp hrest with he | hdigit
      · cases he
      · exact i.digits.not_mem rfl hdigit

theorem colon_not_mem_target {t : Target} (h : t.kind ≠ .group) : ':' ∉ t.text := by
  cases t with
  | named w _ _ => exact w.not_mem rfl
  | all w _ => exact w.not_mem rfl
  | self w _ => exact w.not_mem rfl
  | group upper w => exact absurd rfl h
  | id hex =>
    intro hmem
    rcases List.mem_cons.mp hmem with he | hhex
    · cases he
    · exact hex.not_mem rfl hhex

/-- A request line is left as it is exactly when it does not look like a chat message. -/
theorem stripSenderPrefix_text_iff :
    Parser.stripSenderPrefix (some L.text) = L.text ↔ ¬ L.LooksSent := by
  have hlead : ':' ∉ L.lead := fun h => absurd (L.lead_blank ':' h) (by decide)
  rw [stripSenderPrefix_eq_self_iff, text, afterColon_append hlead, LooksSent]
  by_cases hgroup : L.target.kind = .group
  · refine iff_of_true ?_ (fun h => h.1 hgroup)
    obtain ⟨upper, w, htarget⟩ : ∃ upper w, L.target = .group upper w := by
      cases ht : L.target with
      | group upper w => exact ⟨upper, w, rfl⟩
      | _ => rw [ht] at hgroup; cases hgroup
    have hkeyword (s : Text) : afterColon (groupKeyword upper ++ s) = s := by
      cases upper <;> exact afterColon_cons s
    rw [htarget, Target.text, List.append_assoc, hkeyword]
    exact ident_stops_isBlank w _
  · rw [afterColon_append (colon_not_mem_target hgroup), afterColon_append (colon_not_mem_idText L.id),
      afterColon_append (L.gap.not_mem rfl), afterColon_append (L.command.not_mem rfl),
      ← not_stops_afterColon_args L.trail_end]
    simp only [ne_eq, hgroup, not_false_eq_true, true_and]
    exact not_not.symm

end RequestLine

theorem cstr_writePrefixed_ne_nil (reply : ReplyBuffer) (req : Request) {body : Text}
    (hbody : nul ∉ body) (hne : body ≠ []) (hlen : body.length < maxReply) :
    (Dispatcher.writePrefixed reply req body).cstr ≠ [] := by
  rw [Dispatcher.cstr_writePrefixed reply req hbody, Dispatcher.text_writePrefixed]
  split
  · exact fun h => hne (List.append_eq_nil_iff.mp h).2
  · next hfull =>
    intro h
    rw [h, List.length_nil] at hfull
    omega

namespace McRpc

variable {H Φ : Type*} (m : McRpc H Φ)

theorem not_answered {σ : Type*} (cb : Callbacks σ) (call : HandlerCall H σ) {line : Text}
    {req : Request} (hparse : Parser.parse (some line) = (.ok, req))
    (haddr : m.dispatcher.isAddressedToUs req = false) (w : σ) :
    m.handleLine cb call line w = ⟨false, none, w⟩ := by
  simp only [handleLine, Dispatcher.dispatch, hparse, haddr, Bool.false_eq_true, if_false]

/-- The line is dispatched as it stands, and leaves the node alone when it names another one. -/
structure TakesAsIs (L : RequestLine) : Prop where
  strip : Parser.stripSenderPrefix (some L.text) = L.text
  inbound : ∀ {σ : Type} (cb : Callbacks σ) (call : HandlerCall H σ) (w : σ),
    m.handleInbound cb call (some L.text) w = m.handleLine cb call L.text w
  other : L.target.kind = .named → ieq L.target.name m.nodeName = false →
    ∀ {σ : Type} (cb : Callbacks σ) (call : HandlerCall H σ) (w : σ),
      m.handleInbound cb call (some L.text) w = ⟨false, none, w⟩

/-- The name of another node that is cut to this node's name. -/
structure CutToName (L : RequestLine) : Prop where
  kind : L.target.kind = .named
  other : ieq L.target.name m.nodeName = false
  cut : ieq (copyToken maxToken L.target.name) m.nodeName = true

theorem isAddressedToUs_named {L : RequestLine} (hkind : L.target.kind = .named) :
    m.dispatcher.isAddressedToUs L.stored = ieq (copyToken maxToken L.target.name) m.nodeName := by
  have hne : copyToken maxToken L.target.name ≠ [] := by
    have hname : L.target.name ≠ [] := by
      cases L.target with
      | named w _ _ => exact w.ne_nil
      | all w _ => exact w.ne_nil
      | self w _ => exact w.ne_nil
      | group _ w => exact w.ne_nil
      | id hex => exact hex.ne_nil
    rw [copyToken, ne_eq, List.take_eq_nil_iff, not_or]
    exact ⟨by decide, hname⟩
  have hstored : L.stored.addressKind = .named := hkind
  rw [Dispatcher.isAddressedToUs, hstored]
  change (decide (m.nodeName ≠ []) && ieq _ m.nodeName) = _
  cases hn : m.nodeName with
  | nil =>
    cases hc : copyToken maxToken L.target.name with
    | nil => exact absurd hc hne
    | cons c cs => rfl
  | cons c cs => rw [decide_eq_true (by simp), Bool.true_and]; rfl

def writesOk {σ : Type*} : HandlerCall H σ := fun _ _ reply w =>
  ((true, (reply.append "ok".toList).2), w)

theorem dispatch_writesOk {L : RequestLine}
    (haddr : m.dispatcher.isAddressedToUs L.stored = true) :
    (m.dispatcher.dispatch writesOk (some L.text) ReplyBuffer.init ()).answered = true ∧
      (m.dispatcher.dispatch writesOk (some L.text) ReplyBuffer.init ()).reply.cstr ≠ [] := by
  cases hfind : m.dispatcher.registry.find L.stored.command with
  | none =>
    simp only [Dispatcher.dispatch, L.parse_text, haddr, if_true, hfind]
    exact ⟨trivial, cstr_writePrefixed_ne_nil _ _ (by decide) (by decide) (by decide)⟩
  | some entry =>
    rw [m.dispatcher.dispatch_handler writesOk ReplyBuffer.init () L.parse_text haddr hfind]
    refine ⟨rfl, ?_⟩
    have hbody : (Dispatcher.fillBody true (ReplyBuffer.init.clear.append "ok".toList).2).cstr =
        "ok".toList := by decide
    dsimp only [writesOk]
    rw [hbody]
    exact cstr_writePrefixed_ne_nil _ _ (by decide) (by decide) (by decide)

/-- A node that publishes answers a line addressed to it. -/
theorem published_of_addressed {L : RequestLine}
    (haddr : m.dispatcher.isAddressedToUs L.stored = true) :
    (m.handleLine { publishEx := some (fun _ _ w => (true, w)) } writesOk L.text ()).published ≠
      none := by
  obtain ⟨hanswered, hreply⟩ := m.dispatch_writesOk haddr
  simp only [handleLine, hanswered, if_true, publishRaw, if_neg hreply]
  exact Option.some_ne_none _

/-- A node takes a request line as it is exactly when the line does not look like a chat message and
its target is not cut to the node's name. -/
theorem takesAsIs_iff (L : RequestLine) : m.TakesAsIs L ↔ ¬ L.LooksSent ∧ ¬ m.CutToName L := by
  constructor
  · intro h
    refine ⟨L.stripSenderPrefix_text_iff.mp h.strip, fun hcut => ?_⟩
    apply m.published_of_addressed ((m.isAddressedToUs_named hcut.kind).trans hcut.cut)
    rw [← h.inbound, h.other hcut.kind hcut.other]
  · rintro ⟨hsent, hcut⟩
    have hstrip := L.stripSenderPrefix_text_iff.mpr hsent
    constructor
    case strip => exact hstrip
    case inbound =>
      intro σ cb call w
      rw [handleInbound, hstrip]
    case other =>
      intro hkind hother σ cb call w
      rw [handleInbound, hstrip]
      apply m.not_answered cb call L.parse_text
      rw [m.isAddressedToUs_named hkind, ← Bool.not_eq_true]
      exact fun hname => hcut ⟨hkind, hother, hname⟩

/-- `other set note: all reboot` -/
def noteLine : RequestLine where
  target := .named (.word "other".toList)
  command := .word "set".toList
  args := [(oneBlank, .word "note:".toList),
    (oneBlank, .word "all".toList),
    (oneBlank, .word "reboot".toList)]

def rebootNode : McRpc Unit Unit where
  commands := ⟨[{ name := "reboot".toList, handler := () }], by decide⟩
  nodeName := "tracker".toList

/-- The request to another node reboots this one. -/
theorem rebootNode_takes_noteLine : noteLine.target.kind = .named ∧
    ieq noteLine.target.name rebootNode.nodeName = false ∧
    Parser.stripSenderPrefix (some noteLine.text) = "all reboot".toList ∧
    (rebootNode.handleInbound { publishEx := some (fun _ _ w => (true, w)) } writesOk
      (some noteLine.text) ()).published.map Published.text = some "ok".toList := by
  decide

end McRpc
end Mcrpc
