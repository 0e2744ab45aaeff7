import Mcrpc.FeatureReplies
import Mcrpc.FieldViews
import Mcrpc.Wiring

/-!
# Views of what the features report

`parse_battery` and `parse_gps` on the replies to the commands of the battery and of the gps: the
view has the values the host gave, each in its entry, and nothing that the entries do not show.
-/

namespace Mcrpc

section Views

variable {F S R : Type} [CFloat R]

structure Charge (F : Type) where
  percentage : Option (PyValue F) := none
  voltage : Option (PyValue F) := none
  charging : Option (PyValue F) := none

structure Position (F : Type) where
  latitude : Option (PyValue F) := none
  longitude : Option (PyValue F) := none
  altitude : Option (PyValue F) := none
  satellites : Option (PyValue F) := none
  hdop : Option (PyValue F) := none
  status : Option (PyValue F) := none

def BatteryFields.charge (v : BatteryFields F) : Charge F where
  percentage := v.percentage
  voltage := v.voltage
  charging := v.charging

def GpsFields.position (v : GpsFields F) : Position F where
  latitude := v.latitude
  longitude := v.longitude
  altitude := v.altitude
  satellites := v.satellites
  hdop := v.hdop
  status := v.status

namespace Node

variable (py : Python F) (n : Node S R) (s : S)

def charge : Handler → Charge F
  | .cmdBattery =>
    let (ok, volts, percent) := (n.host.readBattery CFloat.zero (-1) s).1
    if !ok then {}
    else if 0 ≤ percent then { percentage := some (.int percent) }
    else { voltage := some (py.coerceNumber (CFloat.fixed 2 volts)) }
  | .cmdVoltage =>
    let (ok, volts, _) := (n.host.readBattery CFloat.zero (-1) s).1
    if !ok then {} else { voltage := some (py.coerceNumber (CFloat.fixed 2 volts)) }
  | .cmdCharging => { charging := some (.int (if (n.host.isCharging s).1 then 1 else 0)) }
  | _ => {}

def position : Position F :=
  let (ok, fix) := (n.host.readGps GpsFix.zero s).1
  if ok && fix.valid then
    { latitude := some (py.coerceNumber (CFloat.fixed 6 fix.lat))
      longitude := some (py.coerceNumber (CFloat.fixed 6 fix.lon))
      altitude := some (py.coerceNumber (CFloat.fixed 1 fix.alt))
      satellites := some (py.coerceNumber (signedDecimal fix.sats))
      hdop := if CFloat.isPos fix.hdop then some (py.coerceNumber (CFloat.fixed 1 fix.hdop))
        else none }
  else {}

def positionStatus : Position F :=
  let ((ok, fix), s) := n.host.readGps GpsFix.zero s
  if ok && fix.valid then
    { status := some (.str "fix".toList)
      satellites := some (py.coerceNumber (signedDecimal fix.sats)) }
  else { status := some (.str (if (n.host.gpsBusy s).1 then "busy".toList else "nofix".toList)) }

end Node

structure BatteryFields.OnlyCharge (v : BatteryFields F) : Prop where
  battery : v.battery = v.percentage
  temperature : v.temperature = none
  health : v.health = none
  cycles : v.cycles = none
  extra : v.extra = []

structure GpsFields.OnlyPosition (v : GpsFields F) : Prop where
  accuracy : v.accuracy = v.hdop
  vdop : v.vdop = none
  pdop : v.pdop = none
  speed : v.speed = none
  heading : v.heading = none
  timestamp : v.timestamp = none
  time : v.time = none
  fix : v.fix = v.status
  provider : v.provider = none
  extra : v.extra = []

variable (py : Python F) (raw : Text) (rid : Option ℤ) (n : Node S R) (s : S)

omit [CFloat R] in
theorem coerceNumber_flag (b : Bool) : py.coerceNumber (flag b) = .int (if b then 1 else 0) := by
  cases b with
  | false => exact py.coerceNumber_decimal (show (decimal 0).length ≤ 4300 by decide)
  | true => exact py.coerceNumber_decimal (show (decimal 1).length ≤ 4300 by decide)

theorem coerceNumber_signedDecimal {n : ℤ} (hn : 0 ≤ n) (hlen : (signedDecimal n).length ≤ 4300) :
    py.coerceNumber (signedDecimal n) = .int n := by
  have htext : signedDecimal n = decimal n.natAbs := if_neg (by omega)
  rw [htext] at hlen ⊢
  rw [py.coerceNumber_decimal hlen, Int.natAbs_of_nonneg hn]

/-! ### The charge -/

theorem charge_batteryReport (hlen : (n.batteryReport s).text.length < maxReply) :
    let v := Python.batteryFieldsOf ((n.batteryReport s).response py raw rid)
    v.charge = n.charge py s .cmdBattery ∧ v.OnlyCharge := by
  rcases hread : (n.host.readBattery CFloat.zero (-1) s).1 with ⟨ok, volts, percent⟩
  rw [Node.batteryReport, hread] at hlen ⊢
  rw [Node.charge, hread]
  dsimp only at hlen ⊢
  cases ok with
  | false => exact ⟨rfl, rfl, rfl, rfl, rfl, rfl⟩
  | true =>
    by_cases hpercent : 0 ≤ percent
    · simp only [hpercent] at hlen ⊢
      have hdigits : (signedDecimal percent).length < maxReply := by
        rw [if_neg (by decide), if_pos trivial, Report.text_values_one, List.length_append] at hlen
        omega
      rw [← coerceNumber_signedDecimal py hpercent (hdigits.le.trans (by decide))]
      exact ⟨rfl, rfl, rfl, rfl, rfl, rfl⟩
    · simp only [hpercent]
      exact ⟨rfl, rfl, rfl, rfl, rfl, rfl⟩

theorem charge_voltageReport :
    let v := Python.batteryFieldsOf ((n.voltageReport s).response py raw rid)
    v.charge = n.charge py s .cmdVoltage ∧ v.OnlyCharge := by
  rcases hread : (n.host.readBattery CFloat.zero (-1) s).1 with ⟨ok, volts, percent⟩
  rw [Node.voltageReport, Node.charge, hread]
  cases ok with
  | false => exact ⟨rfl, rfl, rfl, rfl, rfl, rfl⟩
  | true => exact ⟨rfl, rfl, rfl, rfl, rfl, rfl⟩

theorem charge_chargingReport :
    let v := Python.batteryFieldsOf ((n.chargingReport s).response py raw rid)
    v.charge = n.charge py s .cmdCharging ∧ v.OnlyCharge := by
  rw [Node.chargingReport, Node.charge, ← coerceNumber_flag py]
  exact ⟨rfl, rfl, rfl, rfl, rfl, rfl⟩

/-! ### The position -/

section Position

variable [Truthy F]

omit [CFloat R] in
theorem position_requestReport (code : Text) :
    let v := Python.gpsFieldsOf ((n.requestReport s (.failed code)).response py raw rid)
    v.position = {} ∧ v.OnlyPosition := by
  rcases hbusy : n.host.gpsBusy s with ⟨busy, s'⟩
  rw [Node.requestReport, hbusy]
  dsimp only
  cases busy with
  | true => exact ⟨rfl, rfl, rfl, rfl, rfl, rfl, rfl, rfl, rfl, rfl, rfl⟩
  | false =>
    simp only [Bool.false_eq_true, if_false]
    cases (n.host.requestGpsFix s').1 with
    | true => exact ⟨rfl, rfl, rfl, rfl, rfl, rfl, rfl, rfl, rfl, rfl, rfl⟩
    | false => exact ⟨rfl, rfl, rfl, rfl, rfl, rfl, rfl, rfl, rfl, rfl, rfl⟩

theorem position_fixReport :
    let v := Python.gpsFieldsOf ((n.fixReport s).response py raw rid)
    v.position = n.position py s ∧ v.OnlyPosition := by
  rcases hread : n.host.readGps GpsFix.zero s with ⟨⟨ok, fix⟩, s'⟩
  rw [Node.fixReport, Node.position, hread]
  dsimp only
  by_cases hfix : (ok && fix.valid) = true
  · rw [if_pos hfix, if_pos hfix, Node.fixFields]
    split
    · exact ⟨rfl, rfl, rfl, rfl, rfl, rfl, rfl, rfl, rfl, rfl, rfl⟩
    · exact ⟨rfl, rfl, rfl, rfl, rfl, rfl, rfl, rfl, rfl, rfl, rfl⟩
  · rw [if_neg hfix, if_neg hfix]
    exact position_requestReport py raw rid n s' _

variable {py}

omit [Truthy F] in
/-- The words of a status are no numbers. -/
theorem Python.Regular.coerceNumber_status (hpy : py.Regular) {word : Text}
    (hword : word ∈ ["fix".toList, "busy".toList, "nofix".toList]) :
    py.coerceNumber word = .str word := by
  have hwords : ["fix".toList, "busy".toList, "nofix".toList].all (fun w =>
      w.all (fun c => c.toNat < 128) && '.' ∉ w && 'e' ∉ Mcrpc.lower w && w.any Char.isAlpha) =
        true := by decide
  have hall := List.all_eq_true.mp hwords word hword
  simp only [Bool.and_eq_true, decide_eq_true_eq] at hall
  obtain ⟨⟨⟨hascii, hdot⟩, he⟩, halpha⟩ := hall
  obtain ⟨c, hc, hletter⟩ := List.any_eq_true.mp halpha
  have hlower := py.lower_ascii word
    (fun c hc => of_decide_eq_true (List.all_eq_true.mp hascii c hc))
  rw [Python.coerceNumber, hlower, if_neg (not_or.mpr ⟨hdot, he⟩), hpy.int_letter _ ⟨c, hc, hletter⟩]

theorem position_gpsStatusReport (hpy : py.Regular) :
    let v := Python.gpsFieldsOf ((n.gpsStatusReport s).response py raw rid)
    v.position = n.positionStatus py s ∧ v.OnlyPosition := by
  rcases hread : n.host.readGps GpsFix.zero s with ⟨⟨ok, fix⟩, s'⟩
  rw [Node.gpsStatusReport, Node.positionStatus, hread]
  dsimp only
  by_cases hfix : (ok && fix.valid) = true
  · rw [if_pos hfix, if_pos hfix, ← hpy.coerceNumber_status (by decide)]
    exact ⟨rfl, rfl, rfl, rfl, rfl, rfl, rfl, rfl, rfl, rfl, rfl⟩
  · rw [if_neg hfix, if_neg hfix]
    split
    · rw [← hpy.coerceNumber_status (by decide)]
      exact ⟨rfl, rfl, rfl, rfl, rfl, rfl, rfl, rfl, rfl, rfl, rfl⟩
    · rw [← hpy.coerceNumber_status (by decide)]
      exact ⟨rfl, rfl, rfl, rfl, rfl, rfl, rfl, rfl, rfl, rfl, rfl⟩

end Position

end Views

/-! ### What a reader is told -/

namespace Process

variable {ι F S R : Type} [DecidableEq ι] [CFloat R] {py : Python F} (p : Process ι S R)
  (d : Dispatcher Handler) {line : Option Text} {req : Request} {entry : CommandEntry Handler}
  {n : Node S R} {s : S} {r : Report}

/-- The battery view of a reply has the charge that the host of the node gave, and nothing else. -/
theorem parseBattery_dispatch (hR : PrintsWords R) (hparse : Parser.parse line = (.ok, req))
    (haddr : d.isAddressedToUs req = true) (hfind : d.registry.find req.command = some entry)
    (hinstance : p.instanceOf entry.handler = some (n, s))
    (hcommand : entry.handler ∈ [.cmdBattery, .cmdVoltage, .cmdCharging])
    (hreport : entry.handler.report req (some (n, s)) = some r)
    (hfits : (req.prefixText ++ r.text).length < maxReply) (reply : ReplyBuffer) :
    ∃ v, py.parseBattery (some (d.dispatch call line reply p).reply.cstr) = .ok v ∧
      v.requestId = Report.replyId req ∧ v.charge = n.charge py s entry.handler ∧
      v.OnlyCharge := by
  have hread := p.parseResponse_dispatch hR d py hparse haddr hfind (hinstance ▸ hreport) hfits reply
  have hlen : r.text.length < maxReply := by
    rw [List.length_append] at hfits
    omega
  rw [Python.parseBattery, hread]
  refine ⟨_, rfl, ?_, ?_⟩
  · exact Report.requestId_response py _ _ r
  · generalize entry.handler = h at hcommand hreport
    simp only [List.mem_cons, List.not_mem_nil, or_false] at hcommand
    rcases hcommand with rfl | rfl | rfl
    · obtain rfl := Option.some.inj hreport
      exact charge_batteryReport py _ _ n s hlen
    · obtain rfl := Option.some.inj hreport
      exact charge_voltageReport py _ _ n s
    · obtain rfl := Option.some.inj hreport
      exact charge_chargingReport py _ _ n s

theorem parseBattery_dispatch_charged :
    let d := (chargedNode.nodes ()).rpc.dispatcher
    let out := d.dispatch call (some "tracker#7 battery".toList) .init chargedNode
    ∃ v, Python.ascii.parseBattery (some out.reply.cstr) = .ok v ∧ v.requestId = some 7 ∧
      v.charge = { percentage := some (.int 88) } ∧ v.OnlyCharge :=
  parseBattery_dispatch chargedNode (chargedNode.nodes ()).rpc.dispatcher printsWords_unit
    parse_batterySeven rfl rfl rfl (by decide) rfl (by decide) .init

/-- The position that the gps commands ask for: `gps status` asks only whether there is one. -/
def positionAsked (py : Python F) (req : Request) (n : Node S R) (s : S) : Handler → Position F
  | .cmdGps =>
    if req.args.head?.any (ieq · "status".toList) then n.positionStatus py s else n.position py s
  | .cmdLocation => n.position py s
  | _ => {}

/-- A request for the position is answered with the whole report exactly when there is room, and then
the gps view of the reply has the position that the host of the node gave, and nothing else. -/
theorem parseGps_dispatch [Truthy F] (hpy : py.Regular) (hR : PrintsWords R)
    (hparse : Parser.parse line = (.ok, req))
    (haddr : d.isAddressedToUs req = true) (hfind : d.registry.find req.command = some entry)
    (hinstance : p.instanceOf entry.handler = some (n, s))
    (hcommand : entry.handler ∈ [.cmdGps, .cmdLocation])
    (hreport : entry.handler.report req (some (n, s)) = some r) (reply : ReplyBuffer) :
    let out := d.dispatch call line reply p
    let text := req.prefixText ++ r.text
    (out.reply.cstr = text ↔ text.length < maxReply) ∧
      (text.length < maxReply →
        ∃ v, py.parseGps (some out.reply.cstr) = .ok v ∧ v.requestId = Report.replyId req ∧
          v.position = positionAsked py req n s entry.handler ∧ v.OnlyPosition) := by
  intro out text
  obtain ⟨-, hcstr⟩ := p.cstr_dispatch_report hR d hparse haddr hfind (hinstance ▸ hreport) reply
  refine ⟨hcstr, fun hfits => ?_⟩
  have hread := p.parseResponse_dispatch hR d py hparse haddr hfind (hinstance ▸ hreport) hfits reply
  rw [Python.parseGps, hread]
  refine ⟨_, rfl, ?_, ?_⟩
  · exact Report.requestId_response py _ _ r
  · generalize entry.handler = h at hcommand hreport
    simp only [List.mem_cons, List.not_mem_nil, or_false] at hcommand
    rcases hcommand with rfl | rfl
    · rw [Handler.report] at hreport
      rw [positionAsked]
      split at hreport
      · next hstatus =>
        obtain rfl := Option.some.inj hreport
        rw [if_pos hstatus]
        exact position_gpsStatusReport _ _ n s hpy
      · next hstatus =>
        obtain rfl := Option.some.inj hreport
        rw [if_neg hstatus]
        exact position_fixReport py _ _ n s
    · obtain rfl := Option.some.inj hreport
      exact position_fixReport py _ _ n s

end Process

/-! ### A tracker with a position -/

section Tracker

/-- Numbers counted in millionths, rounded where they are printed. -/
local instance millionths : CFloat ℤ where
  zero := 0
  isPos x := 0 < x
  fixed d x :=
    let n := (x.natAbs + 10 ^ (6 - d) / 2) / 10 ^ (6 - d)
    let decimals := decimal (n % 10 ^ d)
    (if x < 0 then ['-'] else []) ++ (decimal (n / 10 ^ d) ++
      ('.' :: (List.replicate (d - decimals.length) '0' ++ decimals)))

theorem printsWords_millionths : PrintsWords ℤ := by
  intro d x
  have hsign : Clean (if x < 0 then ['-'] else []) := by
    split
    · exact clean_word (by decide)
    · exact ⟨List.not_mem_nil, fun _ hc => absurd hc List.not_mem_nil⟩
  have hpoint : Clean ".".toList := clean_word (by decide)
  have hzeros (k : ℕ) : Clean (List.replicate k '0') := by
    refine (clean_word (by decide) : Clean ['0']).of_subset (fun c hc => ?_)
    exact List.mem_singleton.mpr (List.eq_of_mem_replicate hc)
  exact hsign.append ((clean_decimal _).append
    (hpoint.append ((hzeros _).append (clean_decimal _))))

def positioned : HostServices Unit ℤ where
  readGps _ s := ((true, ⟨true, 50087465, -14421254, 199500000, 7, 900000⟩), s)

def positionedNode : Process Unit Unit ℤ where
  nodes _ := {
    rpc := [SetupCall.add (some .gps), .begin].foldl SetupCall.run
      { nodeName := "tracker".toList }
    host := positioned }
  states _ := ()
  instances _ := some ()

def locationSeven : Request where
  target := "tracker".toList
  hasRequestId := true
  requestId := 7
  command := "location".toList

theorem parseGps_dispatch_location :
    let out := (positionedNode.nodes ()).rpc.dispatcher.dispatch Process.call
      (some "tracker#7 location".toList) .init positionedNode
    out.reply.cstr = "#7 gps lat=50.087465 lon=-14.421254 alt=199.5 sat=7 hdop=0.9".toList ∧
    ∃ v, Python.ascii.parseGps (some out.reply.cstr) = .ok v ∧ v.requestId = some (7 : ℤ) ∧
      v.position = {
        latitude := some (.float (mkRat 50087465 1000000))
        longitude := some (.float (mkRat (-14421254) 1000000))
        altitude := some (.float (mkRat 1995 10))
        satellites := some (.int 7)
        hdop := some (.float (mkRat 9 10)) } ∧
      v.OnlyPosition := by
  intro out
  have hparse : Parser.parse (some "tracker#7 location".toList) = (.ok, locationSeven) := by decide
  obtain ⟨hcstr, hview⟩ := Process.parseGps_dispatch positionedNode
    (positionedNode.nodes ()).rpc.dispatcher Python.ascii_regular printsWords_millionths hparse rfl
    rfl rfl (by decide) rfl .init
  have hfits : (locationSeven.prefixText ++
      ((positionedNode.nodes ()).fixReport ()).text).length < maxReply := by decide
  refine ⟨hcstr.mpr hfits, ?_⟩
  obtain ⟨v, hv, hid, hposition, honly⟩ := hview hfits
  exact ⟨v, hv, hid, hposition, honly⟩

end Tracker

end Mcrpc
