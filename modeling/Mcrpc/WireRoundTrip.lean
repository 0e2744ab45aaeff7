import Mcrpc.OutboundBuilder
import Mcrpc.RequestId
import Mcrpc.Python.Builder
import Mcrpc.Python.RequestScan

/-!
# Requests on the wire

The builder of the C++ library and that of the Python package write the same line, and the parsers
of both read the request back from it. The line written is the plain rendering of the request, with
single blanks and the id glued to the target; the builders and the parsers meet there. A character
of the line is a byte of the wire: between a `str` and a C string nothing is encoded, as for 7-bit
text.
-/

namespace Mcrpc

open Scan OutboundBuilder

def plainLine (t : Target) (n : Option UInt32) (w : Ident) (args : List Token) : RequestLine where
  target := t
  id := n.map (fun n => { digits := decimalDigits n.toNat })
  command := w
  args := args.map (fun a => (oneBlank, a))

def wireRequest (t : Target) (n : Option UInt32) (w : Ident) (args : List Token) : Request where
  addressKind := t.kind
  target := t.name
  hasRequestId := n.isSome
  requestId := n.getD 0
  command := w.chars
  args := args.map Run.chars

def Request.toPython (req : Request) : PyRequest where
  addressKind := req.addressKind
  target := req.target
  hasRequestId := req.hasRequestId
  requestId := req.requestId.toNat
  command := req.command
  args := req.args

def givenArgs (args : List Token) : List (Option Text) := args.map (fun a => some a.chars)

theorem filterMap_givenArgs (args : List Token) :
    (givenArgs args).filterMap id = args.map Run.chars := by
  simp [givenArgs, List.filterMap_map]

/-- Both builders write the arguments alike. -/
theorem argumentTail_givenArgs (args : List Token) :
    argumentTail (givenArgs args) = argsTail (givenArgs args) := by
  rw [argumentTail, argsTail, filterMap_givenArgs]
  cases args with
  | nil => rfl
  | cons a args =>
    have hne : givenArgs (a :: args) ≠ [] := List.cons_ne_nil _ _
    rw [if_neg hne, List.map_cons, join_cons]
    simp

section Text

variable (t : Target) (n : Option UInt32) (w : Ident) (args : List Token)

theorem idText_plain : idText (plainLine t n w args).id = hashId n := by
  cases n <;> rfl

theorem argsText_plain : argsText (plainLine t n w args).args = argsTail (givenArgs args) := by
  rw [argsTail, filterMap_givenArgs, argsText, plainLine, List.flatMap_map, List.flatMap_map]
  rfl

theorem text_plain : (plainLine t n w args).text =
    t.text ++ (hashId n ++ ' ' :: (w.chars ++ argsTail (givenArgs args))) := by
  rw [RequestLine.text, idText_plain, argsText_plain]
  simp [plainLine, oneBlank, Run.word]

theorem target_ne_nil : t.text ≠ [] := by
  obtain ⟨c, v, h, -⟩ := t.exists_text_cons
  rw [h]
  exact List.cons_ne_nil c v

theorem buildRequest_plain : buildRequest t.text w.chars (n.map (fun n => (n.toNat : ℤ)))
    (givenArgs args) = .ok (plainLine t n w args).text := by
  rw [text_plain, ← argumentTail_givenArgs]
  cases n with
  | none => exact buildRequest_none (target_ne_nil t) w.ne_nil (givenArgs args)
  | some n =>
    exact buildRequest_some (target_ne_nil t) w.ne_nil
      ((length_decimal_le n).trans (by decide)) (givenArgs args)

theorem length_target_le : t.text.length ≤ t.name.length + 6 := by
  cases t with
  | named w _ _ => exact Nat.le_add_right _ _
  | all w _ => exact Nat.le_add_right _ _
  | self w _ => exact Nat.le_add_right _ _
  | group upper w =>
    rw [Target.text, List.length_append, Nat.add_comm]
    cases upper <;> exact le_rfl
  | id hex =>
    rw [Target.text, List.length_cons, Target.name]
    omega

end Text

section RoundTrip

variable {t : Target} {n : Option UInt32} {w : Ident} {args : List Token}

/-- `requestWithArgs` writes the plain line whenever the reply buffer has room for it. -/
theorem requestWithArgs_plain (htarget : t.name.length < maxToken) (out : ReplyBuffer) :
    ((requestWithArgs out (some t.text) (some w.chars) (givenArgs args) n.isSome (n.getD 0)).1 =
        true ↔ (plainLine t n w args).text.length < maxReply) ∧
      ((requestWithArgs out (some t.text) (some w.chars) (givenArgs args) n.isSome (n.getD 0)).1 =
        true → (requestWithArgs out (some t.text) (some w.chars) (givenArgs args) n.isSome
          (n.getD 0)).2.text = (plainLine t n w args).text) := by
  have hid : (if n.isSome then some (n.getD 0) else none) = n := by cases n <;> rfl
  -- the head always fits
  have hhead : t.text.length + (hashId n).length ≤ maxReply - 1 := by
    have := length_target_le t
    have := length_hashId_le n
    simp only [maxToken, maxReply] at *
    omega
  have hnonempty : ∀ a ∈ some w.chars :: givenArgs args, a.getD [] ≠ [] := by
    refine List.forall_mem_cons.mpr ⟨w.ne_nil, fun a ha => ?_⟩
    obtain ⟨v, -, rfl⟩ := List.mem_map.mp ha
    exact v.ne_nil
  have hline : (plainLine t n w args).text = requestLine t.text w.chars (givenArgs args) n := by
    rw [text_plain, requestLine, argsTail_some]
  have hwhole : Bounded.push (maxReply - 1) (Bounded.push (maxReply - 1) [] t.text) (hashId n) =
      t.text ++ hashId n := by
    have htext : ([] : Text).length + t.text.length ≤ maxReply - 1 := by
      rw [List.length_nil]
      omega
    rw [Bounded.push_of_le htext, List.nil_append, Bounded.push_of_le hhead]
  obtain ⟨hiff, hwritten⟩ := requestWithArgs_spec out t.text w.chars (givenArgs args) n.isSome
    (n.getD 0)
  rw [hid] at hiff hwritten
  rw [hwhole, upToLast_eq_self hnonempty, ← List.length_append, List.append_assoc,
    ← requestLine, ← hline] at hiff
  refine ⟨hiff.trans (Nat.lt_iff_le_pred (by decide)).symm, fun h => ?_⟩
  rw [hwritten h, hline, ← flatten_requestLine, Bounded.pushAll_of_le, List.nil_append]
  rw [List.length_nil, Nat.zero_add, flatten_requestLine, ← hline]
  exact hiff.mp h

theorem parse_plain (htarget : t.name.length < maxToken) (hcommand : w.chars.length < maxToken)
    (hlower : lower w.chars = w.chars) (halias : w.chars ≠ "discover".toList)
    (hargc : args.length ≤ maxArgs) (hargs : ∀ a ∈ args, a.chars.length < maxToken) :
    Parser.parse (some (plainLine t n w args).text) = (.ok, wireRequest t n w args) := by
  have harguments : (plainLine t n w args).arguments = args.map Run.chars := by
    simp [plainLine, RequestLine.arguments, List.map_map, Function.comp_def]
  have hread := (plainLine t n w args).readAs_stored htarget hcommand
    (by rwa [harguments, List.length_map])
    (by rw [harguments, List.forall_mem_map]; exact hargs)
    (by
      intro i hi
      obtain ⟨n, -, rfl⟩ := Option.map_eq_some_iff.mp hi
      refine ⟨(length_decimal_le n).trans (by decide), ?_⟩
      rw [value_decimalDigits]
      exact n.toNat_lt)
  have hid : (plainLine t n w args).stored.requestId = n.getD 0 := by
    cases n with
    | none => rfl
    | some n =>
      exact UInt32.toNat_inj.mp
        (hread.requestId n.toNat (congrArg some (value_decimalDigits n.toNat)))
  have hproc : (plainLine t n w args).procedure = w.chars := by
    rw [RequestLine.procedure, plainLine, hlower, if_neg halias]
  have hhas : (plainLine t n w args).stored.hasRequestId = n.isSome := by
    rw [hread.hasRequestId, plainLine, Option.isSome_map]
  rw [(plainLine t n w args).parse_text]
  refine congrArg (Prod.mk _) ?_
  calc (plainLine t n w args).stored
      = ⟨t.kind, (plainLine t n w args).stored.target, (plainLine t n w args).stored.hasRequestId,
          (plainLine t n w args).stored.requestId, (plainLine t n w args).stored.command,
          (plainLine t n w args).stored.args⟩ := rfl
    _ = wireRequest t n w args := by
        rw [hread.target, hhas, hid, hread.command, hproc, hread.args, harguments]
        rfl

theorem Python.Regular.parse_plain {F : Type} {py : Python F} (hpy : py.Regular)
    (hlower : Mcrpc.lower w.chars = w.chars) (halias : w.chars ≠ "discover".toList) :
    py.parse (some (plainLine t n w args).text) =
      .ok (.ok, (wireRequest t n w args).toPython) := by
  have hstop : Stops py.isIdentChar (argsText (plainLine t n w args).args) := by
    rw [argsText_plain]
    cases args with
    | nil => exact stops_nil
    | cons a args => exact py.stops_isIdentChar_of_isBlank rfl _
  have hdigits : ∀ i ∈ (plainLine t n w args).id, i.digits.chars.length ≤ 4300 := by
    intro i hi
    obtain ⟨n, -, rfl⟩ := Option.map_eq_some_iff.mp hi
    exact (length_decimal_le n).trans (by decide)
  have hparse := hpy.parse_head t (plainLine t n w args).id oneBlank w hstop hdigits
  have hline : (plainLine t n w args).text = t.text ++ (idText (plainLine t n w args).id ++
      (oneBlank.chars ++ (w.chars ++ argsText (plainLine t n w args).args))) := by
    rw [RequestLine.text]
    simp [plainLine]
  have hcommand : Parser.canonicalCommand w.chars = w.chars := by
    rw [canonicalCommand_eq, hlower, if_neg halias]
  have hargs : wholeArgs (argsText (plainLine t n w args).args).length
      (argsText (plainLine t n w args).args) = args.map Run.chars := by
    rw [wholeArgs_argsText le_rfl, plainLine, List.map_map]
    rfl
  have hvalue : (((plainLine t n w args).id.map (fun i => i.digits.value)).getD 0) =
      (n.getD 0).toNat := by
    cases n with
    | none => rfl
    | some n => exact value_decimalDigits n.toNat
  have hhas : (plainLine t n w args).id.isSome = n.isSome := by
    rw [plainLine, Option.isSome_map]
  rw [hline, hparse, hcommand, hargs, hvalue, hhas]
  rfl

theorem nul_not_mem_plain (hargs : ∀ a ∈ args, nul ∉ a.chars) :
    nul ∉ (plainLine t n w args).text := by
  have hid : nul ∉ hashId n := by
    cases n with
    | none => exact List.not_mem_nil
    | some n =>
      rw [hashId, Option.map_some, Option.getD_some, List.mem_cons, not_or]
      exact ⟨by decide, fun h => absurd (isDigit_of_mem_decimal h) (by decide)⟩
  have hcommand : nul ∉ w.chars := w.not_mem rfl
  have htail : nul ∉ argsTail (givenArgs args) := by
    rw [argsTail, filterMap_givenArgs, List.mem_flatMap]
    rintro ⟨v, hv, hmem⟩
    obtain ⟨a, ha, rfl⟩ := List.mem_map.mp hv
    rcases List.mem_cons.mp hmem with h | h
    · exact absurd h (by decide)
    · exact hargs a ha h
  rw [text_plain]
  simp only [List.mem_append, List.mem_cons, not_or]
  exact ⟨nul_not_mem_target t, hid, by decide, hcommand, htail⟩

/-- A request goes over the wire unchanged, between either builder and either parser. -/
theorem wire_roundTrip {F : Type} {py : Python F} (hpy : py.Regular)
    (htarget : t.name.length < maxToken) (hcommand : w.chars.length < maxToken)
    (hlower : lower w.chars = w.chars) (halias : w.chars ≠ "discover".toList)
    (hargc : args.length ≤ maxArgs)
    (hargs : ∀ a ∈ args, a.chars.length < maxToken ∧ nul ∉ a.chars) (out : ReplyBuffer) :
    ∃ line ok sent, buildRequest t.text w.chars (n.map (fun n => (n.toNat : ℤ))) (givenArgs args) =
        .ok line ∧
      requestWithArgs out (some t.text) (some w.chars) (givenArgs args) n.isSome (n.getD 0) =
        (ok, sent) ∧
      (ok = true ↔ line.length ≤ 191) ∧
      (ok = true → sent.cstr = line ∧
        Parser.parse (some line) = (.ok, wireRequest t n w args) ∧
        py.parse (some line) = .ok (.ok, (wireRequest t n w args).toPython)) := by
  obtain ⟨ok, sent, hsent⟩ : ∃ ok sent, requestWithArgs out (some t.text) (some w.chars)
      (givenArgs args) n.isSome (n.getD 0) = (ok, sent) := ⟨_, _, rfl⟩
  obtain ⟨hiff, htext⟩ := @requestWithArgs_plain t n w args htarget out
  rw [hsent] at hiff htext
  refine ⟨_, ok, sent, buildRequest_plain t n w args, hsent, hiff.trans Nat.lt_succ_iff,
    fun h => ?_⟩
  have hnul : nul ∉ (plainLine t n w args).text := nul_not_mem_plain (fun a ha => (hargs a ha).2)
  refine ⟨?_, parse_plain htarget hcommand hlower halias hargc (fun a ha => (hargs a ha).1),
    hpy.parse_plain hlower halias⟩
  exact ReplyBuffer.cstr_of_text _ (htext h) hnul

/-- `group:gps#7 set led` -/
def setLedGps : Request where
  addressKind := .group
  target := "gps".toList
  hasRequestId := true
  requestId := 7
  command := "set".toList
  args := ["led".toList]

theorem wire_roundTrip_group : ∃ line ok sent,
    buildRequest "group:gps".toList "set".toList (some 7) [some "led".toList] = .ok line ∧
      requestWithArgs .init (some "group:gps".toList) (some "set".toList) [some "led".toList]
        true 7 = (ok, sent) ∧
      (ok = true ↔ line.length ≤ 191) ∧
      (ok = true → sent.cstr = line ∧
        Parser.parse (some line) = (.ok, setLedGps) ∧
        Python.ascii.parse (some line) = .ok (.ok, setLedGps.toPython)) :=
  @wire_roundTrip (.group false (.word "gps".toList)) (some 7) (.word "set".toList)
    [.word "led".toList] ℚ Python.ascii Python.ascii_regular (by decide) (by decide) (by decide)
    (by decide) (by decide) (by rw [List.forall_mem_singleton]; decide) .init

end RoundTrip

end Mcrpc
