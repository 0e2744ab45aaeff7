import Mcrpc.Python.Builder
import Mcrpc.Python.Parser

/-!
# The dispatcher of the Python package

`dispatcher.py`. A handler is the function it computes; it returns a text and raises nothing.
-/

namespace Mcrpc

structure PyDispatcher where
  handlers : Dict Text (PyRequest → Text) := .empty
  nodeName : Text := []
  nodeId : Text := []
  groupName : Text := []

namespace PyDispatcher

variable {F : Type} (d : PyDispatcher) (py : Python F)

def register (command : Text) (handler : PyRequest → Text) : PyDispatcher :=
  { d with handlers := d.handlers.set (py.lower command) handler }

def addressed (req : PyRequest) : Bool :=
  match req.addressKind with
  | .all => true
  | .self => true
  | .group => d.groupName ≠ [] && py.lower req.target = py.lower d.groupName
  | .id =>
    if d.nodeId = [] then false
    else
      let full := py.lower d.nodeId
      let pre := py.lower req.target
      full = pre || pre.isPrefixOf full
  | .named => d.nodeName ≠ [] && py.lower req.target = py.lower d.nodeName

def body (req : PyRequest) : Text :=
  match d.handlers.get req.command with
  | none => "err unknown_command".toList
  | some handler => if handler req ≠ [] then handler req else "ok".toList

def dispatch (line : Text) : Except PyError (Option Text) :=
  match py.parse (some line) with
  | .error e => .error e
  | .ok (.ok, req) =>
    if d.addressed py req then do
      return some (← prefixRequestId (d.body req)
        (if req.hasRequestId then some req.requestId else none))
    else .ok none
  | .ok _ => .ok none

end PyDispatcher
end Mcrpc
