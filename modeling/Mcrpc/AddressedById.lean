import Mcrpc.Python.Dispatcher
import Mcrpc.Python.RequestScan
import Mcrpc.DiscoveryRoundTrip
import Mcrpc.Transport

/-!
# Requests by node id

A request to `@id` reaches the nodes whose ids start with it, without regard to letter case,
whichever of the two dispatchers they run. The short id a node advertises starts its own id.
-/

namespace Mcrpc

open Scan

def AllHex (s : Text) : Prop := ∀ c ∈ s, isHexChar c = true

theorem AllHex.isAscii {s : Text} (h : AllHex s) : IsAscii s := by
  intro c hc
  have := isHexChar_iff.mp (h c hc)
  omega

theorem isHex_toLower {c : Char} (h : isHexChar c = true) :
    hexIdPrefixMatch.isHex c.toLower = true := by
  have hcode := isHexChar_iff.mp h
  simp only [hexIdPrefixMatch.isHex, Bool.or_eq_true, Bool.and_eq_true, decide_eq_true_eq,
    Ascii.le_iff_toNat, Ascii.toNat_toLower]
  change 48 ≤ _ ∧ _ ≤ 57 ∨ 97 ≤ _ ∧ _ ≤ 102
  split_ifs <;> omega

theorem hexIdPrefixMatch_go_iff {full pre : Text} (hfull : AllHex full) (hpre : AllHex pre) :
    hexIdPrefixMatch.go full pre = true ↔ lower pre <+: lower full := by
  induction pre generalizing full with
  | nil =>
    rw [hexIdPrefixMatch.go]
    exact iff_of_true rfl List.nil_prefix
  | cons b pre ih =>
    cases full with
    | nil =>
      rw [hexIdPrefixMatch.go]
      refine iff_of_false Bool.false_ne_true (fun h => ?_)
      exact absurd (List.prefix_nil.mp h) (List.cons_ne_nil _ _)
    | cons a full =>
      obtain ⟨ha, hfull⟩ := List.forall_mem_cons.mp hfull
      obtain ⟨hb, hpre⟩ := List.forall_mem_cons.mp hpre
      rw [hexIdPrefixMatch.go, isHex_toLower ha, isHex_toLower hb, lower_cons, lower_cons,
        List.cons_prefix_cons, ← ih hfull hpre]
      by_cases hab : a.toLower = b.toLower
      · simp [hab]
      · simp [hab, Ne.symm hab]

theorem Dispatcher.addressed_id_iff {H : Type*} (d : Dispatcher H) {req : Request}
    (hkind : req.addressKind = .id) (htarget : AllHex req.target) (hne : req.target ≠ [])
    (hid : AllHex d.nodeId) :
    d.isAddressedToUs req = true ↔ lower req.target <+: lower d.nodeId := by
  have hmatch : hexIdPrefixMatch d.nodeId req.target = true ↔
      lower req.target <+: lower d.nodeId := by
    rw [hexIdPrefixMatch, decide_eq_true hne, Bool.true_and, hexIdPrefixMatch_go_iff hid htarget]
  simp only [isAddressedToUs, hkind, Bool.and_eq_true, Bool.or_eq_true, hmatch, ieq_iff,
    decide_eq_true_eq]
  constructor
  · rintro ⟨-, hsame | hpre⟩
    · exact hsame ▸ List.prefix_rfl
    · exact hpre
  · intro hpre
    refine ⟨fun hnil => hne ?_, .inr hpre⟩
    rw [hnil] at hpre
    exact List.map_eq_nil_iff.mp (List.prefix_nil.mp hpre)

theorem PyDispatcher.addressed_id_iff {F : Type} (py : Python F) (d : PyDispatcher)
    {req : PyRequest} (hkind : req.addressKind = .id) (htarget : AllHex req.target)
    (hne : req.target ≠ []) (hid : AllHex d.nodeId) :
    d.addressed py req = true ↔ lower req.target <+: lower d.nodeId := by
  simp only [addressed, hkind, py.lower_ascii _ htarget.isAscii, py.lower_ascii _ hid.isAscii]
  by_cases hnil : d.nodeId = []
  · rw [if_pos hnil, hnil]
    refine iff_of_false Bool.false_ne_true (fun hpre => hne ?_)
    exact List.map_eq_nil_iff.mp (List.prefix_nil.mp hpre)
  · rw [if_neg hnil, Bool.or_eq_true, decide_eq_true_eq, List.isPrefixOf_iff_prefix]
    exact or_iff_right_of_imp (fun hsame => hsame ▸ List.prefix_rfl)

/-- A node, on the firmware's dispatcher with its handlers and their world or on that of the Python
package. -/
inductive Peer (H σ : Type)
  | firmware (d : Dispatcher H) (call : HandlerCall H σ) (reply : ReplyBuffer) (w : σ)
  | host (d : PyDispatcher)

namespace Peer

variable {H σ F : Type} (py : Python F)

def nodeId : Peer H σ → Text
  | firmware d .. => d.nodeId
  | host d => d.nodeId

def Accepts (line : Text) : Peer H σ → Prop
  | firmware d call reply w => (d.dispatch call (some line) reply w).answered = true
  | host d => ∃ reply, d.dispatch py line = .ok (some reply)

end Peer

def idLine (id : Text) (command : Ident) : Text := '@' :: (id ++ ' ' :: command.chars)

def idRequest (id : Hex) (command : Ident) : RequestLine where
  target := .id id
  command := command

theorem text_idRequest (id : Hex) (command : Ident) :
    (idRequest id command).text = idLine id.chars command := by
  simp [RequestLine.text, idRequest, idLine, Target.text, idText, oneBlank, Run.word, argsText]

theorem Dispatcher.answered_idLine_iff {H σ : Type} (d : Dispatcher H) (call : HandlerCall H σ)
    (reply : ReplyBuffer) (w : σ) {id : Hex} (hlen : id.chars.length < maxToken) (command : Ident)
    (hid : AllHex d.nodeId) :
    (d.dispatch call (some (idLine id.chars command)) reply w).answered = true ↔
      lower id.chars <+: lower d.nodeId := by
  have htarget : (idRequest id command).stored.target = id.chars := copyToken_of_lt hlen
  have hkind : (idRequest id command).stored.addressKind = .id := rfl
  have haddressed := d.addressed_id_iff hkind (htarget ▸ id.all) (htarget ▸ id.ne_nil) hid
  have hparse := (idRequest id command).parse_text
  rw [text_idRequest] at hparse
  rw [htarget] at haddressed
  rw [d.dispatch_answered_iff, ← haddressed]
  simp only [hparse, Prod.mk.injEq, true_and, exists_eq_left']

theorem PyDispatcher.dispatch_idLine_iff {F : Type} {py : Python F} (hpy : py.Regular)
    (d : PyDispatcher) (id : Hex) (command : Ident) (hid : AllHex d.nodeId) :
    (∃ reply, d.dispatch py (idLine id.chars command) = .ok (some reply)) ↔
      lower id.chars <+: lower d.nodeId := by
  have hline : (Target.id id).text ++ (idText none ++ (oneBlank.chars ++ (command.chars ++ []))) =
      idLine id.chars command := by
    simp [idLine, Target.text, idText, oneBlank, Run.word]
  obtain ⟨req, hparse, hkind, htarget, hnone⟩ : ∃ req,
      py.parse (some (idLine id.chars command)) = .ok (.ok, req) ∧ req.addressKind = .id ∧
        req.target = id.chars ∧ req.hasRequestId = false := by
    have hparse := hpy.parse_head (.id id) none oneBlank command (stops_nil (p := py.isIdentChar))
      (by simp)
    rw [hline] at hparse
    exact ⟨_, hparse, rfl, rfl, rfl⟩
  have haddressed := d.addressed_id_iff py hkind (htarget ▸ id.all) (htarget ▸ id.ne_nil) hid
  rw [htarget] at haddressed
  rw [dispatch, hparse, ← haddressed]
  simp only [hnone, Bool.false_eq_true, if_false]
  split
  · next h => exact iff_of_true ⟨_, rfl⟩ h
  · next h =>
    apply iff_of_false _ h
    rintro ⟨reply, hreply⟩
    cases hreply

/-- A node accepts a request by id exactly when the id it was sent to starts its own. -/
theorem Peer.accepts_idLine_iff {H σ F : Type} {py : Python F} (hpy : py.Regular) (id : Hex)
    (hlen : id.chars.length < maxToken) (command : Ident) (node : Peer H σ)
    (hnode : AllHex node.nodeId) :
    node.Accepts py (idLine id.chars command) ↔ lower id.chars <+: lower node.nodeId := by
  cases node with
  | firmware d call reply w => exact d.answered_idLine_iff call reply w hlen command hnode
  | host d => exact d.dispatch_idLine_iff hpy id command hnode

theorem exists_shortId8 {id : Text} (hne : id ≠ []) (h : AllHex id) : ∃ s : Hex,
    shortId8 id = some s.chars ∧ s.chars.length < maxToken ∧ lower s.chars = s.chars ∧
      s.chars <+: lower id := by
  have hnonempty : lower (id.take 8) ≠ [] := by
    rw [ne_eq, lower, List.map_eq_nil_iff, List.take_eq_nil_iff, not_or]
    exact ⟨by decide, hne⟩
  have hhex : AllHex (lower (id.take 8)) := by
    intro c hc
    obtain ⟨d, hd, rfl⟩ := List.mem_map.mp hc
    have := isHexChar_iff.mp (h d (List.mem_of_mem_take hd))
    rw [isHexChar_iff, Ascii.toNat_toLower]
    split_ifs <;> omega
  refine ⟨⟨lower (id.take 8), hnonempty, hhex⟩, shortId8_eq hne h, ?_, lower_lower _, ?_⟩
  · have hlen : (lower (id.take 8)).length ≤ 8 := by
      rw [length_lower, List.length_take]
      omega
    exact Nat.lt_of_le_of_lt hlen (by decide)
  · exact (List.take_prefix 8 id).map Char.toLower

/-- The id a node advertises reaches the node, and another one exactly when that one's id starts
with it; any other id reaches the nodes whose ids it starts. -/
theorem advertisedId_reaches {H σ F : Type} {py : Python F} (hpy : py.Regular) (command : Ident)
    {x y : Peer H σ} (hne : x.nodeId ≠ []) (hx : AllHex x.nodeId) (hy : AllHex y.nodeId) :
    (∃ s, shortId8 x.nodeId = some s ∧ x.Accepts py (idLine s command) ∧
      (y.Accepts py (idLine s command) ↔ lower s <+: lower y.nodeId)) ∧
    ∀ id : Hex, id.chars.length ≤ 71 →
      (y.Accepts py (idLine id.chars command) ↔ lower id.chars <+: lower y.nodeId) := by
  constructor
  · obtain ⟨s, hshort, hlen, hlower, hpre⟩ := exists_shortId8 hne hx
    refine ⟨s.chars, hshort, ?_, y.accepts_idLine_iff hpy s hlen command hy⟩
    rw [x.accepts_idLine_iff hpy s hlen command hx, hlower]
    exact hpre
  · intro id hlen
    exact y.accepts_idLine_iff hpy id (Nat.lt_succ_of_le hlen) command hy

def trackerPeer : Peer Unit Unit :=
  .firmware { registry := .empty, nodeId := "3CBB01C6F2".toList } McRpc.writesOk .init ()

def hostPeer : Peer Unit Unit := .host { nodeId := "3cbb01C6".toList }

theorem advertisedId_reaches_tracker :
    (∃ s, shortId8 trackerPeer.nodeId = some s ∧
      trackerPeer.Accepts Python.ascii (idLine s (.word "ping".toList)) ∧
      (hostPeer.Accepts Python.ascii (idLine s (.word "ping".toList)) ↔
        lower s <+: lower hostPeer.nodeId)) ∧
    ∀ id : Hex, id.chars.length ≤ 71 →
      (hostPeer.Accepts Python.ascii (idLine id.chars (.word "ping".toList)) ↔
        lower id.chars <+: lower hostPeer.nodeId) :=
  advertisedId_reaches Python.ascii_regular (.word "ping".toList) (List.cons_ne_nil _ _)
    (forall_of_all rfl) (forall_of_all rfl)

end Mcrpc
