import Mcrpc.Python.Builder
import Mcrpc.Python.Parser

/-!
# The request correlator of the Python package

`client.py`. A clock reading is an argument of type `T`, of which the code only adds and compares;
`V` are the values of a `meta` dictionary, of which it only asks the truth. An operation returns its
result, or the exception, and the correlator after it.
-/

namespace Mcrpc

def requestCommands : List Text :=
  ["ping".toList, "status".toList, "call".toList, "discovery".toList, "discover".toList,
    "gps".toList, "battery".toList, "voltage".toList, "charging".toList, "help".toList,
    "caps".toList, "button".toList, "button_state".toList, "reboot".toList, "set".toList,
    "get".toList]

structure PendingRequest (V T : Type) where
  requestId : ℤ
  target : Text
  command : Text
  arguments : List (Option Text)
  channelIdx : ℤ
  deadline : T
  rawRequest : Text
  metadata : Dict Text V

/-- `bool(pending.meta.get("broadcast"))` -/
def PendingRequest.isBroadcast {V T : Type} [Truthy V] (p : PendingRequest V T) : Bool :=
  (p.metadata.get "broadcast".toList).any Truthy.truthy

structure BuildCall (V T : Type) where
  target : Text
  command : Text
  arguments : List (Option Text) := []
  requestId : Option ℤ := none
  timeout : Option T := none
  channelIdx : ℤ := 0
  broadcast : Bool := false
  metadata : Dict Text V := .empty

def BuildCall.dest {V T : Type} (a : BuildCall V T) : Text :=
  if a.broadcast then "all".toList else a.target

def BuildCall.pendingRequest {V T : Type} (a : BuildCall V T) (rid : ℤ) (line : Text)
    (deadline : T) : PendingRequest V T where
  requestId := rid
  target := a.dest
  command := a.command
  arguments := a.arguments
  channelIdx := a.channelIdx
  deadline := deadline
  rawRequest := line
  metadata := a.metadata

inductive InboundKind
  | response | event | other
  deriving DecidableEq, Repr

structure Inbound (F V T : Type) where
  kind : InboundKind
  response : Option (ParsedResponse F) := none
  event : Option (ParsedEvent F) := none
  pending : Option (PendingRequest V T) := none

structure RequestCorrelator (V T : Type) where
  defaultTimeout : T
  nextId : ℤ := 1
  pending : Dict ℤ (PendingRequest V T) := .empty

namespace RequestCorrelator

variable {F V T : Type} (c : RequestCorrelator V T)

def nextRequestId : ℤ × RequestCorrelator V T := (c.nextId, { c with nextId := c.nextId + 1 })

/-- The id `build` uses, and the correlator once it has it. -/
def chooseId (requestId : Option ℤ) : ℤ × RequestCorrelator V T :=
  match requestId with
  | some n => (n, c)
  | none => c.nextRequestId

def build [Add T] (a : BuildCall V T) (now : T) :
    Except PyError (Text × PendingRequest V T) × RequestCorrelator V T :=
  let (rid, c) := c.chooseId a.requestId
  match buildRequest a.dest a.command (some rid) a.arguments with
  | .error e => (.error e, c)
  | .ok line =>
    let pending := a.pendingRequest rid line (now + a.timeout.getD c.defaultTimeout)
    (.ok (line, pending), { c with pending := c.pending.set rid pending })

def expired [LE T] [DecidableLE T] (now : T) : List (PendingRequest V T) :=
  c.pending.values.filter (fun p => p.deadline ≤ now)

def expire [LE T] [DecidableLE T] (now : T) :
    List (PendingRequest V T) × RequestCorrelator V T :=
  (c.expired now, { c with
    pending := (c.expired now).foldl (fun d p => d.erase p.requestId) c.pending })

def peek (requestId : Option ℤ) : Option (PendingRequest V T) := requestId.bind c.pending.get

def take (requestId : Option ℤ) : Option (PendingRequest V T) × RequestCorrelator V T :=
  match requestId with
  | none => (none, c)
  | some n => (c.pending.get n, { c with pending := c.pending.erase n })

def isOutboundEcho (body : Text) : Bool := c.pending.values.any (fun p => p.rawRequest = body)

variable (py : Python F)

def looksLikeRequest (body : Text) : Except PyError Bool :=
  match py.parse (some body) with
  | .error e => .error e
  | .ok (.ok, req) => .ok (py.lower req.command ∈ requestCommands)
  | .ok (_, _) => .ok false

def matchResponse [Truthy V] (resp : ParsedResponse F) (consume : Bool) :
    Inbound F V T × RequestCorrelator V T :=
  match c.peek resp.requestId with
  | none => ({ kind := .response, response := some resp }, c)
  | some pending =>
    if consume && !pending.isBroadcast then
      let r := c.take resp.requestId
      ({ kind := .response, response := some resp, pending := r.1 }, r.2)
    else ({ kind := .response, response := some resp, pending := some pending }, c)

def classifyInbound [Truthy V] (rawMessage : Text) (consume : Bool := true) :
    Except PyError (Inbound F V T) × RequestCorrelator V T :=
  let body := Python.stripSenderPrefix (some rawMessage)
  match py.parseEvent (some body) with
  | some event => (.ok { kind := .event, event := some event }, c)
  | none =>
    match looksLikeRequest py body with
    | .error e => (.error e, c)
    | .ok true => (.ok { kind := .other }, c)
    | .ok false =>
      match py.parseResponse (some body) with
      | .error e => (.error e, c)
      | .ok resp =>
        let r := c.matchResponse resp consume
        (.ok r.1, r.2)

end RequestCorrelator
end Mcrpc
