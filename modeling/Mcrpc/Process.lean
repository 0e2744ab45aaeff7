import Mcrpc.Features
import Mcrpc.Lib.Unwinding
import Mcrpc.Lifting

/-!
# Several nodes in one process

The nodes of a process share the static pointers of the feature classes, which `registerCommands`
sets and the command handlers read. A step is a `begin` of a node or a message that reaches one.
-/

namespace Mcrpc

/-- `instances k` is the node whose instance the pointer of the class designates: `g_core`,
`g_batt`, `g_gps`, `g_btn` and `g_disp`. -/
structure Process (ι S R : Type) where
  nodes : ι → Node S R
  states : ι → S
  instances : FeatureKind → Option ι := fun _ => none

inductive Input (ι : Type)
  | begin (i : ι)
  | inbound (i : ι) (text : Option Text)

def Input.node {ι : Type} : Input ι → ι
  | begin i => i
  | inbound i _ => i

def Input.isFor {ι : Type} [DecidableEq ι] (i : ι) (a : Input ι) : Bool := a.node = i

/-- What a message does to the outside: the result of `handleInbound` and what it published. -/
structure Answer where
  result : Bool
  published : Option Published
  deriving DecidableEq

namespace Process

variable {ι S R : Type}

def read (p : Process ι S R) (h : Handler) : Option ι := h.pointer.bind p.instances

variable [DecidableEq ι]

def stateLens (i : ι) : Lens (Process ι S R) S where
  get p := p.states i
  set s p := { p with states := Function.update p.states i s }
  get_set _ _ := Function.update_self ..
  set_get p := by rw [Function.update_eq_self]
  set_set _ _ _ := by rw [Function.update_idem]

def begin (p : Process ι S R) (i : ι) : Process ι S R :=
  let n := p.nodes i
  let rpc := n.rpc.begin FeatureKind.registerCommands FeatureKind.registerCapabilities
  { p with
    nodes := Function.update p.nodes i { n with rpc := rpc }
    instances := fun k =>
      if !n.rpc.features.started && k.hasPointer && decide (k ∈ n.rpc.features.features) then some i
      else p.instances k }

theorem nodes_begin_self (p : Process ι S R) (i : ι) : (p.begin i).nodes i =
    let n := p.nodes i
    { n with rpc := n.rpc.begin FeatureKind.registerCommands FeatureKind.registerCapabilities } :=
  Function.update_self ..

theorem nodes_begin_of_ne (p : Process ι S R) {i j : ι} (h : i ≠ j) :
    (p.begin j).nodes i = p.nodes i :=
  Function.update_of_ne h ..

variable [CFloat R]

def call : HandlerCall Handler (Process ι S R) := fun h req reply p =>
  match p.read h with
  | none => ((h.run req reply (none : Option (Node S R × S))).1, p)
  | some i =>
    let r := h.run req reply (some (p.nodes i, p.states i))
    (r.1, (stateLens i).set (r.2.getD (p.states i)) p)

def inbound (p : Process ι S R) (i : ι) (text : Option Text) : Outcome (Process ι S R) :=
  (p.nodes i).rpc.handleInbound ((p.nodes i).callbacks.lift (stateLens i)) call text p

def step (p : Process ι S R) : Input ι → Process ι S R × Option Answer
  | .begin i => (p.begin i, none)
  | .inbound i text =>
    let r := p.inbound i text
    (r.world, some ⟨r.result, r.published⟩)

end Process
end Mcrpc
