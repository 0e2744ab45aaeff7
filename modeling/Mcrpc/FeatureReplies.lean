import Mcrpc.Reports

/-!
# The replies of the features

The command handlers of the features answer with a report of what their host says. A node that is
asked for one puts it behind the id of the request, and a reader of the reply finds the report.
-/

namespace Mcrpc

section Reports

variable {S R : Type} [CFloat R]

def Report.internal : Report := .failed "internal".toList

def Report.unsupported : Report := .failed "unsupported".toList

def Report.doneOrUnsupported (ok : Bool) : Report := if ok then .done none else .unsupported

namespace Node

variable (n : Node S R) (s : S)

def batteryReport : Report :=
  let (ok, volts, percent) := (n.host.readBattery CFloat.zero (-1) s).1
  if !ok then .unsupported
  else if 0 ≤ percent then .values "battery".toList [("value".toList, signedDecimal percent)]
  else .values "battery".toList [("voltage".toList, CFloat.fixed 2 volts)]

def voltageReport : Report :=
  let (ok, volts, _) := (n.host.readBattery CFloat.zero (-1) s).1
  if !ok then .unsupported
  else .values "voltage".toList [("value".toList, CFloat.fixed 2 volts)]

def chargingReport : Report :=
  .values "charging".toList [("value".toList, flag (n.host.isCharging s).1)]

def fixFields (fix : GpsFix R) : List Field :=
  [("lat".toList, CFloat.fixed 6 fix.lat), ("lon".toList, CFloat.fixed 6 fix.lon),
    ("alt".toList, CFloat.fixed 1 fix.alt), ("sat".toList, signedDecimal fix.sats)] ++
    if CFloat.isPos fix.hdop then [("hdop".toList, CFloat.fixed 1 fix.hdop)] else []

def requestReport (refused : Report) : Report :=
  let (busy, s) := n.host.gpsBusy s
  if busy then .failed "busy".toList
  else if (n.host.requestGpsFix s).1 then .done (some "pending".toList)
  else refused

def fixReport : Report :=
  let ((ok, fix), s) := n.host.readGps GpsFix.zero s
  if ok && fix.valid then .values "gps".toList (fixFields fix)
  else n.requestReport s (.failed "gps_no_fix".toList)

def gpsStatusReport : Report :=
  let ((ok, fix), s) := n.host.readGps GpsFix.zero s
  if ok && fix.valid then
    .values "gps".toList [("status".toList, "fix".toList), ("sat".toList, signedDecimal fix.sats)]
  else if (n.host.gpsBusy s).1 then .values "gps".toList [("status".toList, "busy".toList)]
  else .values "gps".toList [("status".toList, "nofix".toList)]

def trackReport : Report := n.requestReport s .unsupported

def buttonReport : Report :=
  .values "button".toList [("count".toList, decimal n.pressCount.toNat)]

def buttonStateReport : Report :=
  .values "button_state".toList [("value".toList, flag (n.host.readButtonPressed s).1)]

end Node

/-- What the handlers of the features report, the instance being `none` for a null pointer. -/
def Handler.report (req : Request) (g : Option (Node S R × S)) : Handler → Option Report
  | .cmdPing | .cmdStatus | .cmdDiscover | .cmdHelp | .cmdCaps | .cmdCall => none
  | .cmdBattery => some (g.elim .internal (fun g => g.1.batteryReport g.2))
  | .cmdVoltage => some (g.elim .internal (fun g => g.1.voltageReport g.2))
  | .cmdCharging => some (g.elim .internal (fun g => g.1.chargingReport g.2))
  | .cmdGps =>
    if req.args.head?.any (ieq · "status".toList) then
      some (g.elim (.values "gps".toList [("status".toList, "nofix".toList)])
        (fun g => g.1.gpsStatusReport g.2))
    else some (g.elim .internal (fun g => g.1.fixReport g.2))
  | .cmdLocation => some (g.elim .internal (fun g => g.1.fixReport g.2))
  | .cmdTrack => some (g.elim .internal (fun g => g.1.trackReport g.2))
  | .cmdButton => some (g.elim .internal (fun g => g.1.buttonReport))
  | .cmdButtonState => some (g.elim .internal (fun g => g.1.buttonStateReport g.2))
  | .cmdDisplay | .cmdClear =>
    some (.doneOrUnsupported (g.any (fun g => (g.1.host.displayClear g.2).1)))
  | .cmdText =>
    some (g.elim (.failed "invalid_argument".toList) (fun g =>
      req.args.head?.elim (.failed "invalid_argument".toList) (fun text =>
        .doneOrUnsupported (g.1.host.displayText text g.2).1)))
  | .relayUnsupported | .ledUnsupported => some .unsupported

/-- The floats of the host are printed as single words. -/
def PrintsWords (R : Type) [CFloat R] : Prop := ∀ d (x : R), Clean (CFloat.fixed d x)

structure Says (body : Bool × ReplyBuffer) (r : Report) : Prop where
  sound : r.Sound
  cstr : r.text.length < maxReply → (Dispatcher.fillBody body.1 body.2).cstr = r.text

theorem Report.Sound.text_ne_nil {r : Report} (h : r.Sound) : r.text ≠ [] := by
  intro hnil
  have hsplit := h.split_text
  obtain ⟨token, rest, htokens, -⟩ := h.exists_tokens
  rw [hnil, htokens] at hsplit
  cases hsplit

theorem says_of_text {b : ReplyBuffer} {r : Report} (h : r.Sound)
    (htext : r.text.length < maxReply → b.text = r.text) : Says (true, b) r where
  sound := h
  cstr hlen := by
    have hcstr := b.cstr_of_text (htext hlen) h.nul_not_mem
    rw [Dispatcher.fillBody_of_ne_nil (hcstr.trans_ne h.text_ne_nil), hcstr]

theorem says_answer (reply : ReplyBuffer) {r : Report} (h : r.Sound) :
    Says (answer reply r.text) r := by
  apply says_of_text h
  intro hlen
  rw [ReplyBuffer.text_append, ReplyBuffer.text_clear, if_pos (by simpa using hlen)]
  rfl

theorem says_answerFormatted (reply : ReplyBuffer) {r : Report} (h : r.Sound) :
    Says (answerFormatted reply r.text) r := by
  apply says_of_text h
  intro hlen
  rw [ReplyBuffer.printf, List.take_of_length_le (by omega), ReplyBuffer.text_append,
    ReplyBuffer.text_clear, if_pos (by simpa using hlen)]
  rfl

theorem says_internal : Says (false, ReplyBuffer.init.clear) .internal where
  sound := .failed (by decide)
  cstr _ := by decide

theorem sound_unsupported : Report.unsupported.Sound := .failed (by decide)

theorem sound_values_one {word key value : Text} (hword : word ∈ Report.words)
    (hkey : key ∈ Report.keys) (hvalue : Clean value) :
    (Report.values word [(key, value)]).Sound :=
  .values hword (List.cons_ne_nil _ _) (List.forall_mem_singleton.mpr ⟨hkey, hvalue⟩)
    (List.nodup_singleton _)

theorem clean_flag (b : Bool) : Clean (flag b) := by
  cases b
  · exact clean_word (by decide)
  · exact clean_word (by decide)

theorem says_value {word key value pre : Text} (reply : ReplyBuffer)
    (hpre : pre = word ++ ' ' :: (key ++ ['='])) (hword : word ∈ Report.words)
    (hkey : key ∈ Report.keys) (hvalue : Clean value) :
    Says (answerFormatted reply (pre ++ value)) (.values word [(key, value)]) := by
  rw [hpre, ← Report.text_values_one]
  exact says_answerFormatted reply (sound_values_one hword hkey hvalue)

omit [CFloat R] in
/-- Code that starts with a call of the host. -/
theorem host_bind {α β : Type} {f : HostServices S R → S → α × S} {n : Node S R} {s s' : S} {a : α}
    (h : f n.host s = (a, s')) (g : α → NodeM S R β) : (host f >>= g) n s = g a n s' := by
  have hhost : (host f : NodeM S R α) n s = (a, s') := h
  rw [NodeM.bind_run, hhost]

variable (hR : PrintsWords R) (n : Node S R) (s : S) (req : Request)

include hR in
theorem says_battery :
    Says (cmdBattery req ReplyBuffer.init.clear (some (n, s))).1 (n.batteryReport s) := by
  rcases hread : n.host.readBattery CFloat.zero (-1) s with ⟨⟨ok, volts, percent⟩, s'⟩
  rw [Node.batteryReport, hread, cmdBattery, withInstance]
  dsimp only
  rw [host_bind hread]
  dsimp only
  cases ok with
  | false => exact says_answer _ sound_unsupported
  | true =>
    by_cases hpercent : 0 ≤ percent
    · simp only [hpercent]
      exact says_value _ rfl (by decide) (by decide) (clean_signedDecimal _)
    · simp only [hpercent]
      exact says_value _ rfl (by decide) (by decide) (hR 2 _)

include hR in
theorem says_voltage :
    Says (cmdVoltage req ReplyBuffer.init.clear (some (n, s))).1 (n.voltageReport s) := by
  rcases hread : n.host.readBattery CFloat.zero (-1) s with ⟨⟨ok, volts, percent⟩, s'⟩
  rw [Node.voltageReport, hread, cmdVoltage, withInstance]
  dsimp only
  rw [host_bind hread]
  dsimp only
  cases ok with
  | false => exact says_answer _ sound_unsupported
  | true => exact says_value _ rfl (by decide) (by decide) (hR 2 _)

omit [CFloat R] in
theorem says_pending (reply : ReplyBuffer) :
    Says (answer reply "ok pending".toList) (.done (some "pending".toList)) :=
  says_answer reply (.done (fun d hd => Option.some.inj hd ▸ by decide))

omit [CFloat R] in
theorem says_track :
    Says (cmdTrack (R := R) req ReplyBuffer.init.clear (some (n, s))).1 (n.trackReport s) := by
  rcases hbusy : n.host.gpsBusy s with ⟨busy, s₁⟩
  rcases hrequest : n.host.requestGpsFix s₁ with ⟨requested, s₂⟩
  rw [Node.trackReport, Node.requestReport, hbusy, cmdTrack, withInstance]
  dsimp only
  rw [host_bind hbusy, hrequest]
  dsimp only
  cases busy with
  | true => exact says_answer _ (.failed (by decide))
  | false =>
    simp only [Bool.false_eq_true, if_false]
    rw [host_bind hrequest]
    cases requested with
    | true => exact says_pending _
    | false => exact says_answer _ sound_unsupported

theorem text_fix (fix : GpsFix R) : (Report.values "gps".toList (Node.fixFields fix)).text =
    "gps lat=".toList ++ CFloat.fixed 6 fix.lat ++ " lon=".toList ++ CFloat.fixed 6 fix.lon ++
      " alt=".toList ++ CFloat.fixed 1 fix.alt ++ " sat=".toList ++ signedDecimal fix.sats ++
      if CFloat.isPos fix.hdop then " hdop=".toList ++ CFloat.fixed 1 fix.hdop else [] := by
  rw [Report.text, Node.fixFields, fieldsText, List.flatMap_append]
  split
  · simp [Field.text]
  · simp [Field.text]

include hR in
theorem sound_fix (fix : GpsFix R) : (Report.values "gps".toList (Node.fixFields fix)).Sound := by
  have hkeys : (["lat".toList, "lon".toList, "alt".toList, "sat".toList] ++
      ["hdop".toList]).Nodup := by decide
  have hsat := clean_signedDecimal fix.sats
  rw [Node.fixFields]
  split
  · refine .values (by decide) (List.cons_ne_nil _ _) ?_ hkeys
    simp +decide [hsat, hR _ _]
  · refine .values (by decide) (List.cons_ne_nil _ _) ?_ hkeys.of_append_left
    simp +decide [hsat, hR _ _]

include hR in
/-- The reply to a request for a position when there is one: the precision comes in a second step. -/
theorem says_position (reply : ReplyBuffer) (fix : GpsFix R) :
    Says (true, if CFloat.isPos fix.hdop then
        ((answerFormatted reply ("gps lat=".toList ++ CFloat.fixed 6 fix.lat ++
          " lon=".toList ++ CFloat.fixed 6 fix.lon ++ " alt=".toList ++ CFloat.fixed 1 fix.alt ++
          " sat=".toList ++ signedDecimal fix.sats)).2.printf
            (" hdop=".toList ++ CFloat.fixed 1 fix.hdop)).2
      else (answerFormatted reply ("gps lat=".toList ++ CFloat.fixed 6 fix.lat ++
          " lon=".toList ++ CFloat.fixed 6 fix.lon ++ " alt=".toList ++ CFloat.fixed 1 fix.alt ++
          " sat=".toList ++ signedDecimal fix.sats)).2)
      (.values "gps".toList (Node.fixFields fix)) := by
  apply says_of_text (sound_fix hR fix)
  rw [text_fix]
  generalize "gps lat=".toList ++ CFloat.fixed 6 fix.lat ++ " lon=".toList ++
    CFloat.fixed 6 fix.lon ++ " alt=".toList ++ CFloat.fixed 1 fix.alt ++ " sat=".toList ++
    signedDecimal fix.sats = position
  generalize " hdop=".toList ++ CFloat.fixed 1 fix.hdop = precision
  intro hlen
  rw [List.length_append] at hlen
  have hposition : (answerFormatted reply position).2.text = position := by
    rw [answerFormatted, ReplyBuffer.printf, List.take_of_length_le (by omega),
      ReplyBuffer.text_append, ReplyBuffer.text_clear, if_pos (by simpa using by omega)]
    rfl
  split
  · next hpos =>
    rw [if_pos hpos] at hlen
    rw [ReplyBuffer.printf, List.take_of_length_le (by omega), ReplyBuffer.text_append, hposition,
      if_pos hlen]
  · exact hposition.trans (List.append_nil _).symm

include hR in
theorem says_fix :
    Says (writeFix ReplyBuffer.init.clear (some (n, s))).1 (n.fixReport s) := by
  rcases hread : n.host.readGps GpsFix.zero s with ⟨⟨ok, fix⟩, s₁⟩
  rw [Node.fixReport, hread, writeFix, withInstance]
  dsimp only
  rw [host_bind hread]
  dsimp only
  by_cases hfix : (ok && fix.valid) = true
  · have hboth := Bool.and_eq_true_iff.mp hfix
    rw [if_pos hfix, hboth.1, hboth.2]
    exact says_position hR _ fix
  · rcases hbusy : n.host.gpsBusy s₁ with ⟨busy, s₂⟩
    rcases hrequest : n.host.requestGpsFix s₂ with ⟨requested, s₃⟩
    have hmissing : (!ok || !fix.valid) = true := by
      rw [← Bool.not_and, Bool.eq_false_iff.mpr hfix]
      rfl
    rw [if_neg hfix, Node.requestReport, hbusy]
    simp only [hmissing, if_true]
    rw [host_bind hbusy, hrequest]
    dsimp only
    cases busy with
    | true => exact says_answer _ (.failed (by decide))
    | false =>
      simp only [Bool.false_eq_true, if_false]
      rw [host_bind hrequest]
      cases requested with
      | true => exact says_pending _
      | false => exact says_answer _ (.failed (by decide))

omit [CFloat R] in
theorem says_status {word : Text} (reply : ReplyBuffer) (hword : Clean word) :
    Says (answer reply ("gps status=".toList ++ word))
      (.values "gps".toList [("status".toList, word)]) := by
  have htext := (Report.text_values_one "gps".toList "status".toList word).symm
  change "gps status=".toList ++ word = _ at htext
  rw [htext]
  exact says_answer reply (sound_values_one (by decide) (by decide) hword)

theorem says_gpsStatus :
    Says (gpsStatus (R := R) ReplyBuffer.init.clear (some (n, s))).1 (n.gpsStatusReport s) := by
  rcases hread : n.host.readGps GpsFix.zero s with ⟨⟨ok, fix⟩, s₁⟩
  rcases hbusy : n.host.gpsBusy s₁ with ⟨busy, s₂⟩
  rw [Node.gpsStatusReport, hread, gpsStatus, withInstance]
  dsimp only
  rw [host_bind hread]
  dsimp only
  by_cases hfix : (ok && fix.valid) = true
  · simp only [hfix, if_true]
    have htext : "gps status=fix sat=".toList ++ signedDecimal fix.sats = (Report.values "gps".toList
        [("status".toList, "fix".toList), ("sat".toList, signedDecimal fix.sats)]).text := by
      simp [Report.text, Field.text, fieldsText]
    rw [htext]
    have hkeys : ["status".toList, "sat".toList].Nodup := by decide
    refine says_answerFormatted _ (.values (by decide) (List.cons_ne_nil _ _) ?_ hkeys)
    simp +decide [clean_signedDecimal, clean_word]
  · simp only [hfix, Bool.false_eq_true, if_false]
    rw [host_bind hbusy, hbusy]
    cases busy with
    | true => exact says_status _ (clean_word (by decide))
    | false => exact says_status _ (clean_word (by decide))

omit [CFloat R] in
theorem says_charging :
    Says (cmdCharging (R := R) req ReplyBuffer.init.clear (some (n, s))).1 (n.chargingReport s) :=
  says_value _ rfl (by decide) (by decide) (clean_flag _)

omit [CFloat R] in
theorem says_button :
    Says (cmdButton (R := R) req ReplyBuffer.init.clear (some (n, s))).1 n.buttonReport :=
  says_value _ rfl (by decide) (by decide) (clean_decimal _)

omit [CFloat R] in
theorem says_buttonState :
    Says (cmdButtonState (R := R) req ReplyBuffer.init.clear (some (n, s))).1
      (n.buttonStateReport s) :=
  says_value _ rfl (by decide) (by decide) (clean_flag _)

omit [CFloat R] in
theorem says_okOrUnsupported (reply : ReplyBuffer) (ok : Bool) :
    Says (answer reply (okOrUnsupported ok)) (.doneOrUnsupported ok) := by
  cases ok with
  | true => exact says_answer reply (.done (fun d hd => absurd hd (Option.not_mem_none d)))
  | false => exact says_answer reply sound_unsupported

omit [CFloat R] in
theorem says_invalidArgument (reply : ReplyBuffer) :
    Says (answer reply "err invalid_argument".toList) (.failed "invalid_argument".toList) :=
  says_answer reply (.failed (by decide))

omit [CFloat R] in
/-- What a handler says with a null pointer and what it says on an instance. -/
theorem says_elim {f : Option (Node S R × S) → (Bool × ReplyBuffer) × Option S} {null : Report}
    {r : Node S R → S → Report} (hnull : Says (f none).1 null)
    (hsome : ∀ n s, Says (f (some (n, s))).1 (r n s)) (g : Option (Node S R × S)) :
    Says (f g).1 (g.elim null (fun g => r g.1 g.2)) := by
  cases g with
  | none => exact hnull
  | some g => exact hsome g.1 g.2

include hR in
theorem says_writeFix (g : Option (Node S R × S)) :
    Says (writeFix ReplyBuffer.init.clear g).1 (g.elim .internal (fun g => g.1.fixReport g.2)) :=
  says_elim says_internal (says_fix hR) g

include hR in
theorem says_gps (g : Option (Node S R × S)) :
    ∀ r ∈ Handler.cmdGps.report req g, Says (cmdGps req ReplyBuffer.init.clear g).1 r := by
  have hstatus := says_elim (says_status _ (clean_word (by decide))) says_gpsStatus g
  have hfix := says_writeFix hR g
  rw [Handler.report, cmdGps]
  cases req.args with
  | nil => exact fun r hr => Option.some.inj hr ▸ hfix
  | cons arg rest =>
    by_cases harg : (arg :: rest).head?.any (ieq · "status".toList) = true
    · rw [if_pos harg]
      simp only [show ieq arg "status".toList = true from harg, if_true]
      exact fun r hr => Option.some.inj hr ▸ hstatus
    · rw [if_neg harg]
      simp only [show ¬ieq arg "status".toList = true from harg]
      exact fun r hr => Option.some.inj hr ▸ hfix

omit [CFloat R] in
theorem says_text (n : Node S R) (s : S) :
    Says (cmdText req ReplyBuffer.init.clear (some (n, s))).1
      (req.args.head?.elim (.failed "invalid_argument".toList) (fun text =>
        .doneOrUnsupported (n.host.displayText text s).1)) := by
  rw [cmdText, withInstance]
  cases req.args with
  | nil => exact says_invalidArgument _
  | cons text rest => exact says_okOrUnsupported _ _

include hR in
/-- Every handler of a feature says what its report is, with an instance and without one. -/
theorem Handler.run_says {h : Handler} {g : Option (Node S R × S)} {r : Report}
    (hreport : h.report req g = some r) : Says (h.run req ReplyBuffer.init.clear g).1 r := by
  cases h with
  | cmdPing | cmdStatus | cmdDiscover | cmdHelp | cmdCaps | cmdCall => cases hreport
  | cmdGps => exact says_gps hR req g r hreport
  | cmdText =>
    cases hreport
    exact says_elim (says_invalidArgument _) (says_text req) g
  | cmdBattery =>
    cases hreport
    exact says_elim says_internal (fun n s => says_battery hR n s req) g
  | cmdVoltage =>
    cases hreport
    exact says_elim says_internal (fun n s => says_voltage hR n s req) g
  | cmdCharging =>
    cases hreport
    exact says_elim says_internal (fun n s => says_charging n s req) g
  | cmdLocation =>
    cases hreport
    exact says_writeFix hR g
  | cmdTrack =>
    cases hreport
    exact says_elim says_internal (fun n s => says_track n s req) g
  | cmdButton =>
    cases hreport
    exact says_elim says_internal (fun n s => says_button n s req) g
  | cmdButtonState =>
    cases hreport
    exact says_elim says_internal (fun n s => says_buttonState n s req) g
  | cmdDisplay | cmdClear =>
    cases hreport
    cases g with
    | none => exact says_okOrUnsupported _ false
    | some g => exact says_okOrUnsupported _ _
  | relayUnsupported | ledUnsupported =>
    cases hreport
    exact says_answer _ sound_unsupported

end Reports

section Replies

/-- A request whose handler leaves a text is answered with it behind the id, exactly when there is
room. -/
theorem Dispatcher.cstr_dispatch_of_body {H σ : Type} (d : Dispatcher H) {call : HandlerCall H σ}
    {line : Option Text} (reply : ReplyBuffer) {w : σ} {req : Request} {entry : CommandEntry H}
    {t : Text} (hne : t ≠ []) (hnul : nul ∉ t) (hparse : Parser.parse line = (.ok, req))
    (haddr : d.isAddressedToUs req = true) (hfind : d.registry.find req.command = some entry)
    (hbody : let body := (call entry.handler req ReplyBuffer.init.clear w).1
      t.length < maxReply → (fillBody body.1 body.2).cstr = t) :
    (d.dispatch call line reply w).answered = true ∧
      ((d.dispatch call line reply w).reply.cstr = req.prefixText ++ t ↔
        (req.prefixText ++ t).length < maxReply) := by
  obtain ⟨hanswered, hreply, -⟩ := d.dispatch_of_body reply hparse haddr hfind
    (Prod.eta (call entry.handler req ReplyBuffer.init.clear w).1).symm
  refine ⟨hanswered, fun h => ?_, fun hlen => ?_⟩
  · rw [← h]
    exact ReplyBuffer.length_cstr_lt _
  · have hroom := hlen
    rw [List.length_append] at hroom
    rw [hreply, hbody (by omega)]
    exact (cstr_writePrefixed_iff _ req hnul hne).mpr hroom

variable {ι S R : Type} [DecidableEq ι] [CFloat R]

namespace Process

def instanceOf (p : Process ι S R) (h : Handler) : Option (Node S R × S) :=
  (p.read h).map (fun i => (p.nodes i, p.states i))

theorem call_fst (p : Process ι S R) (h : Handler) (req : Request) (reply : ReplyBuffer) :
    (call h req reply p).1 = (h.run req reply (p.instanceOf h)).1 := by
  rw [call, instanceOf]
  cases p.read h with
  | none => rfl
  | some i => rfl

variable (hR : PrintsWords R) (p : Process ι S R) (d : Dispatcher Handler) {line : Option Text}
  {req : Request} {entry : CommandEntry Handler} {r : Report}

include hR in
/-- A request for a report is answered with it behind the id, exactly when there is room. -/
theorem cstr_dispatch_report (hparse : Parser.parse line = (.ok, req))
    (haddr : d.isAddressedToUs req = true) (hfind : d.registry.find req.command = some entry)
    (hreport : entry.handler.report req (p.instanceOf entry.handler) = some r)
    (reply : ReplyBuffer) :
    (d.dispatch call line reply p).answered = true ∧
      ((d.dispatch call line reply p).reply.cstr = req.prefixText ++ r.text ↔
        (req.prefixText ++ r.text).length < maxReply) := by
  have hsays := Handler.run_says hR req hreport
  rw [← p.call_fst entry.handler req ReplyBuffer.init.clear] at hsays
  exact d.cstr_dispatch_of_body reply hsays.sound.text_ne_nil hsays.sound.nul_not_mem hparse haddr
    hfind hsays.cstr

include hR in
/-- The reply to a request for a report is read as the response that states it. -/
theorem parseResponse_dispatch {F : Type} (py : Python F) (hparse : Parser.parse line = (.ok, req))
    (haddr : d.isAddressedToUs req = true) (hfind : d.registry.find req.command = some entry)
    (hreport : entry.handler.report req (p.instanceOf entry.handler) = some r)
    (hfits : (req.prefixText ++ r.text).length < maxReply) (reply : ReplyBuffer) :
    py.parseResponse (some (d.dispatch call line reply p).reply.cstr) =
      .ok (r.response py (strip (req.prefixText ++ r.text)) (Report.replyId req)) := by
  obtain ⟨-, hcstr⟩ := p.cstr_dispatch_report hR d hparse haddr hfind hreport reply
  have hsound := (Handler.run_says hR req hreport).sound
  rw [hcstr.mpr hfits, hsound.parse_prefixText py req]

include hR in
/-- A client that asks for a report gets what the host of the node says: the text of the reply is the
report exactly when there is room for it, and then it is read as the response that states it, taken
with the id of the request. -/
theorem report_received {F V T : Type} [Truthy V] {py : Python F} (hpy : py.Regular)
    (hparse : Parser.parse line = (.ok, req)) (haddr : d.isAddressedToUs req = true)
    (hfind : d.registry.find req.command = some entry)
    (hreport : entry.handler.report req (p.instanceOf entry.handler) = some r)
    (reply : ReplyBuffer) :
    let out := d.dispatch call line reply p
    let resp := r.response py (strip out.reply.cstr) (Report.replyId req)
    out.answered = true ∧
      (out.reply.cstr = req.prefixText ++ r.text ↔
        (req.prefixText ++ r.text).length < maxReply) ∧
      ((req.prefixText ++ r.text).length < maxReply →
        py.parseResponse (some out.reply.cstr) = .ok resp ∧
        ∀ (c : RequestCorrelator V T) (q : PendingRequest V T) (sender : Text),
          req.hasRequestId = true → c.pending.get (req.requestId.toNat : ℤ) = some q →
          ':' ∉ sender → c.classifyInbound py (sender ++ ':' :: ' ' :: out.reply.cstr) =
            (.ok { kind := .response, response := some resp, pending := some q },
              if q.isBroadcast then c
              else { c with pending := c.pending.erase (req.requestId.toNat : ℤ) })) := by
  obtain ⟨hanswered, hcstr⟩ := p.cstr_dispatch_report hR d hparse haddr hfind hreport reply
  have hsound := (Handler.run_says hR req hreport).sound
  refine ⟨hanswered, hcstr, fun hlen => ?_⟩
  have hresponse := p.parseResponse_dispatch hR d py hparse haddr hfind hreport hlen reply
  rw [hcstr.mpr hlen] at hresponse ⊢
  refine ⟨hresponse, fun c q sender hid hget hsender => ?_⟩
  rw [Report.classifyInbound_pending py hpy c hid hget hsender, hsound.split_text,
    hsound.responseOf_tokens py]

end Process

end Replies

def charged : HostServices Unit Unit where
  readBattery _ _ s := ((true, (), 88), s)
  readGps _ s := ((true, ⟨true, (), (), (), 7, ()⟩), s)

def chargedNode : Process Unit Unit Unit where
  nodes _ := {
    rpc := {
      nodeName := "tracker".toList
      commands := ⟨[{ name := "battery".toList, handler := .cmdBattery },
        { name := "gps".toList, handler := .cmdGps }], by decide⟩ }
    host := charged }
  states _ := ()
  instances _ := some ()

def batterySeven : Request where
  target := "tracker".toList
  hasRequestId := true
  requestId := 7
  command := "battery".toList

theorem parse_batterySeven :
    Parser.parse (some "tracker#7 battery".toList) = (.ok, batterySeven) := by
  decide

theorem printsWords_unit : PrintsWords Unit := fun d _ =>
  (clean_word (by decide) : Clean "0.".toList).append ⟨fun h => absurd (List.eq_of_mem_replicate h)
    (by decide), fun c hc => by rw [List.eq_of_mem_replicate hc]; decide⟩

theorem report_received_charged :
    let d := (chargedNode.nodes ()).rpc.dispatcher
    let out := d.dispatch Process.call (some "tracker#7 battery".toList) .init chargedNode
    let r := Report.values "battery".toList [("value".toList, signedDecimal 88)]
    let resp := r.response Python.ascii (strip out.reply.cstr) (Report.replyId batterySeven)
    out.answered = true ∧
      (out.reply.cstr = batterySeven.prefixText ++ r.text ↔
        (batterySeven.prefixText ++ r.text).length < maxReply) ∧
      ((batterySeven.prefixText ++ r.text).length < maxReply →
        Python.ascii.parseResponse (some out.reply.cstr) = .ok resp ∧
        ∀ (c : RequestCorrelator Bool ℕ) (q : PendingRequest Bool ℕ) (sender : Text),
          batterySeven.hasRequestId = true →
          c.pending.get (batterySeven.requestId.toNat : ℤ) = some q →
          ':' ∉ sender → c.classifyInbound Python.ascii (sender ++ ':' :: ' ' :: out.reply.cstr) =
            (.ok { kind := .response, response := some resp, pending := some q },
              if q.isBroadcast then c
              else { c with pending := c.pending.erase (batterySeven.requestId.toNat : ℤ) })) :=
  Process.report_received printsWords_unit chargedNode (chargedNode.nodes ()).rpc.dispatcher
    Python.ascii_regular parse_batterySeven rfl rfl rfl .init
end Mcrpc
