import Mcrpc.EventBus
import Mcrpc.FeatureManager
import Mcrpc.ReplyJitter
import Mathlib.Data.Int.Notation

/-!
# The framework facade

`McRpc` with its registries, bus and identity strings, over handlers `H` and feature instances `Φ`.
`handleInbound` runs in a world `σ`, everything the application's callbacks and the handlers can
read or change; what reaches a publish handler is part of the outcome.
-/

namespace Mcrpc

def protocolVersionString : Text := "1.2".toList

/-- A handler on the bus: the engine's own `onEventThunk` or one of the application. -/
inductive Subscriber
  | engine
  | app (n : ℕ)
  deriving DecidableEq

structure McRpc (H Φ : Type*) where
  commands : CommandRegistry H := .empty
  capabilities : CapabilityRegistry := .empty
  events : EventBus Subscriber := .empty
  features : FeatureManager Φ := .empty
  nodeName : Text := []
  nodeId : Text := []
  groupName : Text := []
  profile : Text := []
  tag : Text := []
  firmware : Text := []
  transport : Text := "meshcore".toList

/-- The application's functions with their contexts; `none` is a null pointer. -/
structure Callbacks (σ : Type*) where
  publish : Option (Text → σ → Bool × σ) := none
  publishEx : Option (Text → ℕ → σ → Bool × σ) := none
  entropy : Option (σ → UInt16 × σ) := none
  uptime : Option (σ → UInt32 × σ) := none
  rssi : Option (σ → ℤ × σ) := none

/-- A call of the publish handler, with its delay when it is the extended one. -/
structure Published where
  text : Text
  delayMs : Option ℕ
  deriving DecidableEq

structure Outcome (σ : Type*) where
  result : Bool
  published : Option Published
  world : σ

namespace McRpc

variable {H Φ σ : Type*} (m : McRpc H Φ)

def dispatcher : Dispatcher H where
  registry := m.commands
  nodeName := m.nodeName
  nodeId := m.nodeId
  groupName := m.groupName

def begin (registerCommands : Φ → CommandRegistry H → CommandRegistry H)
    (registerCapabilities : Φ → CapabilityRegistry → CapabilityRegistry) : McRpc H Φ :=
  let r := m.features.start registerCommands registerCapabilities m.commands m.capabilities
  { m with
    events := (m.events.subscribe .engine).2
    features := r.1
    commands := r.2.1
    capabilities := r.2.2 }

def shutdown : McRpc H Φ := { m with features := m.features.stop, events := m.events.clear }

def publishRaw (cb : Callbacks σ) (text : Text) (delayMs : ℕ) (w : σ) : Outcome σ :=
  if text = [] then ⟨false, none, w⟩
  else
    match cb.publishEx, cb.publish with
    | some publishEx, _ =>
      let r := publishEx text delayMs w
      ⟨r.1, some ⟨text, some delayMs⟩, r.2⟩
    | none, some publish =>
      let r := publish text w
      ⟨r.1, some ⟨text, none⟩, r.2⟩
    | none, none => ⟨false, none, w⟩

def identityForJitter : Text := if m.nodeId ≠ [] then m.nodeId else m.nodeName

def entropy16 (cb : Callbacks σ) (w : σ) : UInt16 × σ :=
  match cb.entropy with
  | some entropy => entropy w
  | none => (0, w)

/-- `handleInbound` from `dispatch` on. -/
def handleLine (cb : Callbacks σ) (call : HandlerCall H σ) (line : Text) (w : σ) : Outcome σ :=
  let r := m.dispatcher.dispatch call (some line) ReplyBuffer.init w
  if r.answered then
    let (entropy, w) := entropy16 cb r.world
    let delay := ReplyJitter.delayMsFor (r.outReq.getD {}) m.identityForJitter entropy
    publishRaw cb r.reply.cstr delay w
  else ⟨false, none, r.world⟩

/-- `none` is a message without text. -/
def handleInbound (cb : Callbacks σ) (call : HandlerCall H σ) (text : Option Text) (w : σ) :
    Outcome σ :=
  match text with
  | none => ⟨false, none, w⟩
  | some text => m.handleLine cb call (Parser.stripSenderPrefix (some text)) w

/-- The buffer of `onEvent`, whose appends nobody checks. -/
def eventBuffer (name : Text) (kv : Option Text) : ReplyBuffer :=
  let buf := ((ReplyBuffer.init.clear.append "event ".toList).2.append name).2
  match kv with
  | some (c :: kv) => ((buf.appendChar ' ').2.append (c :: kv)).2
  | _ => buf

def onEvent (cb : Callbacks σ) (name : Text) (kv : Option Text) (w : σ) : Outcome σ :=
  publishRaw cb (eventBuffer name kv).cstr 0 w

/-- `apps n` is the handler of a subscriber of the application. -/
def deliver (cb : Callbacks σ) (apps : ℕ → Text → Option Text → σ → σ) :
    Subscriber → Text → Option Text → σ → σ
  | .engine, name, kv, w => (onEvent cb name kv w).world
  | .app n, name, kv, w => apps n name kv w

def publishEvent (cb : Callbacks σ) (apps : ℕ → Text → Option Text → σ → σ)
    (name kv : Option Text) (w : σ) : Bool × σ :=
  m.events.publish (deliver cb apps) name kv w

end McRpc
end Mcrpc
