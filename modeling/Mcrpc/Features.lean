import Mcrpc.CallResult
import Mcrpc.HostServices

/-!
# The features of a node

The feature classes, their command handlers and what they contribute to status and discovery. A
`Node` is an engine with the host of its features and the one instance it has of each class; the
host and the callbacks work on a state `S`. A handler is a static function that reaches an instance
through a pointer of its class; in the model the instance is the argument `g`, `none` for a null
pointer, and `NodeM` is the code that works on the instance's node.
-/

namespace Mcrpc

inductive FeatureKind
  | core | battery | gps | button | display | relay | led
  deriving DecidableEq

inductive Handler
  | cmdPing | cmdStatus | cmdDiscover | cmdHelp | cmdCaps | cmdCall
  | cmdBattery | cmdVoltage | cmdCharging
  | cmdGps | cmdLocation | cmdTrack
  | cmdButton | cmdButtonState
  | cmdDisplay | cmdText | cmdClear
  | relayUnsupported | ledUnsupported
  deriving DecidableEq

/-- `hasEngine` says that the host's `engine` points to this node. -/
structure Node (S R : Type) where
  rpc : McRpc Handler FeatureKind := {}
  callbacks : Callbacks S := {}
  host : HostServices S R := {}
  hasEngine : Bool := true
  pressCount : UInt32 := 0

abbrev NodeM (S R : Type) := ReaderT (Node S R) (StateM S)

abbrev Command (S R : Type) :=
  Request → ReplyBuffer → Option (Node S R × S) → (Bool × ReplyBuffer) × Option S

variable {S R : Type} [CFloat R]

def callback {α : Type} (f : S → α × S) : NodeM S R α := fun _ => f

def host {α : Type} (f : HostServices S R → S → α × S) : NodeM S R α := fun n => f n.host

/-! ### Status and discovery -/

namespace StatusBuilder

def addInt (s : StatusBuilder) (key : Text) (value : ℤ) : StatusBuilder :=
  (s.add key (copyToken 16 (signedDecimal value))).2

def addUnsigned (s : StatusBuilder) (key : Text) (value : ℕ) : StatusBuilder :=
  (s.add key (copyToken 24 (decimal value))).2

def addFloat (s : StatusBuilder) (key : Text) (value : R) : StatusBuilder :=
  (s.add key (copyToken 24 (CFloat.fixed 2 value))).2

end StatusBuilder

def contributeStatus (status : StatusBuilder) : FeatureKind → NodeM S R StatusBuilder
  | .core => do
    let (ok, snr) ← host (·.readSnr 0)
    let status := if ok then status.addInt "snr".toList snr else status
    let (ok, heap) ← host (·.readHeapFree 0)
    return if ok then status.addUnsigned "heap".toList heap.toNat else status
  | .battery => do
    let (ok, volts, percent) ← host (·.readBattery CFloat.zero (-1))
    if !ok then return status
    let status := status.addFloat "voltage".toList volts
    return if 0 ≤ percent then status.addInt "battery".toList percent else status
  | .gps => do
    let (ok, fix) ← host (·.readGps GpsFix.zero)
    if ok && fix.valid then
      return (status.add "gps".toList "fix".toList).2.addInt "sat".toList fix.sats
    if ← host (·.gpsBusy) then return (status.add "gps".toList "busy".toList).2
    return (status.add "gps".toList "nofix".toList).2
  | .button => do return status.addUnsigned "button_count".toList (← read).pressCount.toNat
  | .display | .relay | .led => return status

def contributeDiscover (discover : DiscoverBuilder) : FeatureKind → DiscoverBuilder
  | .core | .battery | .gps | .button => discover
  | .display => (discover.add "display".toList "yes".toList).2
  | .relay => (discover.add "relay".toList "yes".toList).2
  | .led => (discover.add "led".toList "yes".toList).2

def capsCsvSize : ℕ := 96

/-- The value of `caps=`, `none` when there is none. -/
def capsCsv (capabilities : CapabilityRegistry) : Option Text :=
  if capabilities.names = [] then none
  else
    match canonicalizeCsv (capabilities.names.map some) (List.replicate capsCsvSize nul) with
    | (true, out) => some (out.takeWhile (· ≠ nul))
    | (false, _) => none

def uptime : NodeM S R (Option Text) := do
  match (← read).callbacks.uptime with
  | none => return none
  | some uptime =>
    let seconds ← callback uptime
    return formatUptime seconds 16

def buildStatus : NodeM S R StatusBuilder := do
  let rpc := (← read).rpc
  let status := (StatusBuilder.reset.add "name".toList rpc.nodeName).2
  let status :=
    match shortId8 rpc.nodeId with
    | some id8 => ((status.add "id".toList id8).2.add "id_full".toList rpc.nodeId).2
    | none => status
  let status := (status.add "fw".toList rpc.firmware).2
  let status := (status.add "v".toList protocolVersionString).2
  let tag := if rpc.tag ≠ [] then rpc.tag else rpc.profile
  let status := if tag ≠ [] then (status.add "tag".toList tag).2 else status
  let status :=
    match ← uptime with
    | some up => (status.add "up".toList up).2
    | none => status
  let status ←
    match (← read).callbacks.rssi with
    | some rssi => pure (status.addInt "rssi".toList (← callback rssi))
    | none => pure status
  let status :=
    if rpc.transport ≠ [] then (status.add "transport".toList rpc.transport).2 else status
  let status :=
    match capsCsv rpc.capabilities with
    | some csv => (status.add "caps".toList csv).2
    | none => status
  rpc.features.features.foldlM contributeStatus status

def buildDiscover : NodeM S R DiscoverBuilder := do
  let rpc := (← read).rpc
  let discover := DiscoverBuilder.reset.setNodeName rpc.nodeName
  let discover :=
    match shortId8 rpc.nodeId with
    | some id8 => (discover.add "id".toList id8).2
    | none => discover
  let discover := (discover.add "fw".toList rpc.firmware).2
  let discover := (discover.add "v".toList protocolVersionString).2
  let tag := if rpc.tag ≠ [] then rpc.tag else rpc.profile
  let discover := if tag ≠ [] then (discover.add "tag".toList tag).2 else discover
  let discover :=
    match ← uptime with
    | some up => (discover.add "up".toList up).2
    | none => discover
  let discover :=
    match capsCsv rpc.capabilities with
    | some csv => (discover.add "caps".toList csv).2
    | none => discover
  return rpc.features.features.foldl contributeDiscover discover

/-- The names with `sep` between them, each piece only where it has room. -/
def writeNames (sep : Char) (names : List Text) (reply : ReplyBuffer) : ReplyBuffer :=
  names.foldl (fun reply name =>
    ((if 0 < reply.len then (reply.appendChar sep).2 else reply).append name).2) reply.clear

def buildHelp (rpc : McRpc Handler FeatureKind) (reply : ReplyBuffer) : ReplyBuffer :=
  writeNames ' ' (rpc.commands.entries.map (·.name)) reply

def buildCaps (rpc : McRpc Handler FeatureKind) (reply : ReplyBuffer) : ReplyBuffer :=
  if rpc.features.hasCaps then writeNames '\n' rpc.capabilities.names reply else reply.clear

/-! ### Command handlers -/

/-- A handler that returns `null` on a null pointer and runs on the instance otherwise. -/
def withInstance (null : Bool × ReplyBuffer) (run : NodeM S R (Bool × ReplyBuffer)) :
    Option (Node S R × S) → (Bool × ReplyBuffer) × Option S
  | none => (null, none)
  | some (g, s) =>
    let r := run g s
    (r.1, some r.2)

/-- `ctx.reply->clear(); ctx.reply->append(s); return true;` -/
def answer (reply : ReplyBuffer) (s : Text) : Bool × ReplyBuffer := (true, (reply.clear.append s).2)

/-- `ctx.reply->clear(); ctx.reply->printf(...); return true;` -/
def answerFormatted (reply : ReplyBuffer) (s : Text) : Bool × ReplyBuffer :=
  (true, (reply.clear.printf s).2)

def unsupported : Text := "err unsupported".toList

def cmdPing : Command S R := fun _ reply g => (answer reply "pong".toList, g.map (·.2))

def cmdStatus : Command S R := fun _ reply => withInstance (false, reply) do
  if !(← read).hasEngine then return (false, reply)
  return (true, (← buildStatus).writeTo reply)

def cmdDiscover : Command S R := fun _ reply => withInstance (false, reply) do
  if !(← read).hasEngine then return (false, reply)
  return (true, (← buildDiscover).writeTo reply)

def cmdHelp : Command S R := fun _ reply =>
  let fallback := answer reply "ping status discovery help caps call".toList
  withInstance fallback do
    if !(← read).hasEngine then return fallback
    return (true, buildHelp (← read).rpc reply)

def cmdCaps : Command S R := fun _ reply => withInstance (true, reply.clear) do
  if !(← read).hasEngine then return (true, reply.clear)
  return (true, buildCaps (← read).rpc reply)

def cmdCall : Command S R := fun req reply =>
  withInstance (true, CallResult.err reply "internal".toList) do
    match req.args with
    | [] => return (true, CallResult.err reply "invalid_argument".toList)
    | proc :: _ =>
      if !CallResult.isValidProc proc then
        let reply := CallResult.err reply "invalid_argument".toList
        return (true, (CallResult.appendKv reply "reason".toList "proc".toList).2)
      let (ok, reply) ← host (·.handleCall proc req reply)
      if ok then return (true, if reply.len = 0 then CallResult.ok reply else reply)
      return (true, CallResult.err reply "unknown_proc".toList)

def cmdBattery : Command S R := fun _ reply => withInstance (false, reply) do
  let (ok, volts, percent) ← host (·.readBattery CFloat.zero (-1))
  if !ok then return answer reply unsupported
  if 0 ≤ percent then return answerFormatted reply ("battery value=".toList ++ signedDecimal percent)
  return answerFormatted reply ("battery voltage=".toList ++ CFloat.fixed 2 volts)

def cmdVoltage : Command S R := fun _ reply => withInstance (false, reply) do
  let (ok, volts, _) ← host (·.readBattery CFloat.zero (-1))
  if !ok then return answer reply unsupported
  return answerFormatted reply ("voltage value=".toList ++ CFloat.fixed 2 volts)

/-- `b ? "1" : "0"` -/
def flag (b : Bool) : Text := if b then ['1'] else ['0']

def cmdCharging : Command S R := fun _ reply => withInstance (false, reply) do
  return answerFormatted reply ("charging value=".toList ++ flag (← host (·.isCharging)))

/-- `writeFix` with `request_if_missing`, as every caller passes it. -/
def writeFix (reply : ReplyBuffer) :
    Option (Node S R × S) → (Bool × ReplyBuffer) × Option S :=
  withInstance (false, reply) do
    let (ok, fix) ← host (·.readGps GpsFix.zero)
    if !ok || !fix.valid then
      if ← host (·.gpsBusy) then return answer reply "err busy".toList
      if ← host (·.requestGpsFix) then return answer reply "ok pending".toList
      return answer reply "err gps_no_fix".toList
    let (_, reply) := answerFormatted reply ("gps lat=".toList ++ CFloat.fixed 6 fix.lat ++
      " lon=".toList ++ CFloat.fixed 6 fix.lon ++ " alt=".toList ++ CFloat.fixed 1 fix.alt ++
      " sat=".toList ++ signedDecimal fix.sats)
    return (true, if CFloat.isPos fix.hdop
      then (reply.printf (" hdop=".toList ++ CFloat.fixed 1 fix.hdop)).2 else reply)

def gpsStatus (reply : ReplyBuffer) :
    Option (Node S R × S) → (Bool × ReplyBuffer) × Option S :=
  withInstance (answer reply "gps status=nofix".toList) do
    let (ok, fix) ← host (·.readGps GpsFix.zero)
    if ok && fix.valid then
      return answerFormatted reply ("gps status=fix sat=".toList ++ signedDecimal fix.sats)
    if ← host (·.gpsBusy) then return answer reply "gps status=busy".toList
    return answer reply "gps status=nofix".toList

def cmdGps : Command S R := fun req reply =>
  match req.args with
  | arg :: _ => if ieq arg "status".toList then gpsStatus reply else writeFix reply
  | [] => writeFix reply

def cmdLocation : Command S R := fun _ reply => writeFix reply

def cmdTrack : Command S R := fun _ reply => withInstance (false, reply) do
  if ← host (·.gpsBusy) then return answer reply "err busy".toList
  if !(← host (·.requestGpsFix)) then return answer reply unsupported
  return answer reply "ok pending".toList

def cmdButton : Command S R := fun _ reply => withInstance (false, reply) do
  return answerFormatted reply ("button count=".toList ++ decimal (← read).pressCount.toNat)

def cmdButtonState : Command S R := fun _ reply => withInstance (false, reply) do
  return answerFormatted reply ("button_state value=".toList ++ flag (← host (·.readButtonPressed)))

def okOrUnsupported (ok : Bool) : Text := if ok then "ok".toList else unsupported

def cmdDisplay : Command S R := fun _ reply => withInstance (answer reply unsupported) do
  return answer reply (okOrUnsupported (← host (·.displayClear)))

def cmdText : Command S R := fun req reply =>
  withInstance (answer reply "err invalid_argument".toList) do
    match req.args with
    | [] => return answer reply "err invalid_argument".toList
    | arg :: _ => return answer reply (okOrUnsupported (← host (·.displayText arg)))

def cmdClear : Command S R := fun _ reply => withInstance (answer reply unsupported) do
  return answer reply (okOrUnsupported (← host (·.displayClear)))

namespace Handler

def run : Handler → Command S R
  | cmdPing => Mcrpc.cmdPing
  | cmdStatus => Mcrpc.cmdStatus
  | cmdDiscover => Mcrpc.cmdDiscover
  | cmdHelp => Mcrpc.cmdHelp
  | cmdCaps => Mcrpc.cmdCaps
  | cmdCall => Mcrpc.cmdCall
  | cmdBattery => Mcrpc.cmdBattery
  | cmdVoltage => Mcrpc.cmdVoltage
  | cmdCharging => Mcrpc.cmdCharging
  | cmdGps => Mcrpc.cmdGps
  | cmdLocation => Mcrpc.cmdLocation
  | cmdTrack => Mcrpc.cmdTrack
  | cmdButton => Mcrpc.cmdButton
  | cmdButtonState => Mcrpc.cmdButtonState
  | cmdDisplay => Mcrpc.cmdDisplay
  | cmdText => Mcrpc.cmdText
  | cmdClear => Mcrpc.cmdClear
  | relayUnsupported | ledUnsupported => fun _ reply g => (answer reply unsupported, g.map (·.2))

/-- The class whose pointer the function reads: `g_core`, `g_batt`, `g_gps`, `g_btn` or `g_disp`. -/
def pointer : Handler → Option FeatureKind
  | cmdPing | relayUnsupported | ledUnsupported => none
  | cmdStatus | cmdDiscover | cmdHelp | cmdCaps | cmdCall => some .core
  | cmdBattery | cmdVoltage | cmdCharging => some .battery
  | cmdGps | cmdLocation | cmdTrack => some .gps
  | cmdButton | cmdButtonState => some .button
  | cmdDisplay | cmdText | cmdClear => some .display

end Handler

/-! ### Registration -/

namespace FeatureKind

/-- The calls of `registerCommand`: name, handler and help. -/
def commands : FeatureKind → List (Text × Handler × Text)
  | core => [
    ("ping".toList, .cmdPing, "connectivity test".toList),
    ("status".toList, .cmdStatus, "node status".toList),
    ("discovery".toList, .cmdDiscover, "discovery info".toList),
    ("discover".toList, .cmdDiscover, "alias for discovery".toList),
    ("help".toList, .cmdHelp, "list commands".toList),
    ("caps".toList, .cmdCaps, "list capabilities".toList),
    ("call".toList, .cmdCall, "namespaced RPC ns.action".toList)]
  | battery => [
    ("battery".toList, .cmdBattery, "battery percent".toList),
    ("voltage".toList, .cmdVoltage, "battery voltage".toList),
    ("charging".toList, .cmdCharging, "charging state".toList)]
  | gps => [
    ("gps".toList, .cmdGps, "get GPS fix".toList),
    ("location".toList, .cmdLocation, "alias for gps".toList),
    ("track".toList, .cmdTrack, "request/track fix".toList)]
  | button => [
    ("button".toList, .cmdButton, "button info".toList),
    ("button_state".toList, .cmdButtonState, "pressed?".toList)]
  | display => [
    ("display".toList, .cmdDisplay, "display status".toList),
    ("text".toList, .cmdText, "show text".toList),
    ("clear".toList, .cmdClear, "clear display".toList)]
  | relay => [
    ("relay".toList, .relayUnsupported, "relay control".toList),
    ("toggle".toList, .relayUnsupported, "toggle relay".toList),
    ("power".toList, .relayUnsupported, "relay power".toList)]
  | led => [("led".toList, .ledUnsupported, "led control".toList)]

def registerCommands (k : FeatureKind) (commands : CommandRegistry Handler) :
    CommandRegistry Handler :=
  k.commands.foldl (fun r c => (r.registerCommand c.1 c.2.1 (some c.2.2)).2) commands

def capability : FeatureKind → Option Text
  | core => none
  | battery => some "battery".toList
  | gps => some "gps".toList
  | button => some "button".toList
  | display => some "display".toList
  | relay => some "relay".toList
  | led => some "led".toList

def registerCapabilities (k : FeatureKind) (caps : CapabilityRegistry) : CapabilityRegistry :=
  match k.capability with
  | none => caps
  | some name => (caps.registerCapability name).2

def hasPointer : FeatureKind → Bool
  | core | battery | gps | button | display => true
  | relay | led => false

end FeatureKind
end Mcrpc
