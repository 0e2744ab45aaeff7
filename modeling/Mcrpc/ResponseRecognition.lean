import Mcrpc.Features
import Mcrpc.ReplyLine

/-!
# Data lines that pass for requests

`classify_inbound` asks whether a message is a request before it reads it as a response. On a data
line the request parser takes the first word for the target and the first key for the command, so
the line is recognised as a response exactly when that key is no known command.
-/

namespace Mcrpc

open Scan

/-- `<word> key=value …` with at least one field. -/
structure DataLine where
  word : Ident
  key : Ident
  value : Text
  fields : List Field := []

def DataLine.text (L : DataLine) : Text :=
  L.word.chars ++ fieldsText ((L.key.chars, L.value) :: L.fields)

theorem canonicalCommand_mem_iff (w : Text) :
    Parser.canonicalCommand w ∈ requestCommands ↔ lower w ∈ requestCommands := by
  rw [canonicalCommand_eq]
  split
  · next h =>
    rw [h]
    decide
  · exact Iff.rfl

/-- What is read as a request is left to the host exactly when its command is a known one. -/
theorem RequestCorrelator.looksLikeRequest_head {F : Type} {py : Python F} (h : py.Regular)
    (t : Target) (id : Option IdField) (gap : Blanks) (w : Ident) {s : Text}
    (hs : Stops py.isIdentChar s) (hdigits : ∀ i ∈ id, i.digits.chars.length ≤ 4300) :
    RequestCorrelator.looksLikeRequest py
        (t.text ++ (idText id ++ (gap.chars ++ (w.chars ++ s)))) =
      .ok (decide (lower w.chars ∈ requestCommands)) := by
  have hascii : IsAscii (Parser.canonicalCommand w.chars) := by
    rw [canonicalCommand_eq]
    split
    · exact forall_of_all rfl
    · exact isAscii_ident (lowerIdent w)
  have hlower : lower (Parser.canonicalCommand w.chars) = Parser.canonicalCommand w.chars := by
    rw [canonicalCommand_eq]
    split
    · decide
    · exact lower_lower w.chars
  simp only [RequestCorrelator.looksLikeRequest, h.parse_head t id gap w hs hdigits,
    py.lower_ascii _ hascii, hlower, canonicalCommand_mem_iff]

namespace DataLine

variable (L : DataLine)

theorem text_eq : L.text = (Target.ofIdent L.word).text ++ (idText none ++ (oneBlank.chars ++
    (L.key.chars ++ '=' :: (L.value ++ fieldsText L.fields)))) := by
  rw [Target.text_ofIdent]
  simp [text, fieldsText, Field.text, idText, oneBlank, Run.word]

theorem firstWord_text : firstWord L.text = some L.word.chars := by
  have hspace : ∀ c ∈ L.word.chars, isSpace c = false := fun c hc =>
    isSpace_of_isIdentChar (L.word.all c hc)
  exact firstWord_append nil_space L.word.ne_nil hspace (stops_cons.mpr rfl)

theorem stops_text : Stops isBlank L.text := ident_stops_isBlank L.word _

variable {F : Type} {py : Python F}

theorem isEventWord_word (py : Python F) :
    py.isEventWord L.word.chars = decide (lower L.word.chars = "event".toList) := by
  rw [Python.isEventWord, py.lower_ascii _ (isAscii_ident L.word)]

theorem looksLikeRequest_text (h : py.Regular) : RequestCorrelator.looksLikeRequest py L.text =
    .ok (decide (lower L.key.chars ∈ requestCommands)) := by
  rw [L.text_eq]
  apply RequestCorrelator.looksLikeRequest_head h (Target.ofIdent L.word) none oneBlank L.key
  · exact py.stops_isIdentChar (by decide) rfl _
  · exact fun _ hi => absurd hi (Option.not_mem_none _)

theorem takeRequestId_text (py : Python F) :
    py.takeRequestId (split L.text) = .ok (none, split L.text) := by
  obtain ⟨rest, hsplit⟩ := List.head?_eq_some_iff.mp L.firstWord_text
  rw [hsplit]
  apply py.takeRequestId_of_ne
  intro digits he
  exact L.word.not_mem (c := '#') rfl (by rw [he]; exact List.mem_cons_self)

/-- A data line from another node is recognised as a response exactly when its first word is not
`event` and its first key is not a known command, in any letter case. -/
theorem classifyInbound_response_iff {V T : Type} [Truthy V] (h : py.Regular)
    (c : RequestCorrelator V T) {sender : Text} (hsender : ':' ∉ sender) (consume : Bool) :
    (∃ i, (c.classifyInbound py (sender ++ ':' :: ' ' :: L.text) consume).1 = .ok i ∧
        i.kind = .response) ↔
      lower L.word.chars ≠ "event".toList ∧ lower L.key.chars ∉ requestCommands := by
  have hbody := Python.stripSenderPrefix_append hsender L.stops_text
  have hword := L.isEventWord_word py
  have hevent := py.parseEvent_eq_none_iff L.text
  change _ ↔ ∀ head ∈ firstWord L.text, _ at hevent
  rw [L.firstWord_text] at hevent
  simp only [Option.mem_def, Option.some.injEq, forall_eq', hword, decide_eq_false_iff_not] at hevent
  simp only [RequestCorrelator.classifyInbound, hbody, L.looksLikeRequest_text h]
  by_cases hw : lower L.word.chars = "event".toList
  · obtain ⟨event, hsome⟩ := Option.ne_none_iff_exists'.mp (fun hnone => hevent.mp hnone hw)
    simp only [hsome, hw, ne_eq, not_true_eq_false, false_and, iff_false]
    rintro ⟨i, hi, hkind⟩
    rw [← Except.ok.inj hi] at hkind
    cases hkind
  · simp only [hevent.mpr hw]
    by_cases hk : lower L.key.chars ∈ requestCommands
    · simp only [hk, decide_true, not_true_eq_false, and_false, iff_false]
      rintro ⟨i, hi, hkind⟩
      rw [← Except.ok.inj hi] at hkind
      cases hkind
    · simp only [hk, decide_false, py.parseResponse_of_eq (L.takeRequestId_text py)]
      refine iff_of_true ⟨_, rfl, ?_⟩ ⟨hw, not_false⟩
      exact c.kind_matchResponse _ consume

/-- `gps status=fix sat=5` -/
def gpsStatusLine : DataLine where
  word := .word "gps".toList
  key := .word "status".toList
  value := "fix".toList
  fields := [("sat".toList, "5".toList)]

theorem classifyInbound_response_iff_gps :
    (∃ i, (({ defaultTimeout := 15 } : RequestCorrelator Bool ℕ).classifyInbound Python.ascii
        ("node1".toList ++ ':' :: ' ' :: gpsStatusLine.text) true).1 = .ok i ∧
        i.kind = .response) ↔
      lower gpsStatusLine.word.chars ≠ "event".toList ∧
        lower gpsStatusLine.key.chars ∉ requestCommands :=
  gpsStatusLine.classifyInbound_response_iff Python.ascii_regular { defaultTimeout := 15 }
    (by decide) true

def fixHost : HostServices Unit Unit where
  readGps fix s := ((true, { fix with valid := true, sats := 5 }), s)

/-- The answer to `gps status` is left to the host as a request. -/
theorem gps_status_other :
    (cmdGps { args := ["status".toList] } .init
        (some (({ host := fixHost } : Node Unit Unit), ()))).1.2.text = gpsStatusLine.text ∧
      ((({ defaultTimeout := 15 } : RequestCorrelator Bool ℕ).classifyInbound Python.ascii
        ("node1".toList ++ ':' :: ' ' :: gpsStatusLine.text)).1.map Inbound.kind) = .ok .other := by
  exact ⟨by decide +kernel, rfl⟩

end DataLine
end Mcrpc
