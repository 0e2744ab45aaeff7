import Mcrpc.Process

/-!
# Isolation of the nodes of a process

A node on its own answers from its own configuration, registries and host. In a process it does so
as long as no line runs a handler whose pointer designates the instance of another node: the
pointers are shared, so the last `begin` takes them over.
-/

namespace Mcrpc

variable {ι S R : Type}

namespace Process

/-- The line runs no handler, or one whose pointer is null or designates the node's own instance. -/
def OwnPointer (p : Process ι S R) : Input ι → Prop
  | .begin _ => True
  | .inbound i text => ∀ j ∈ ((p.nodes i).rpc.handlerFor text).bind p.read, j = i

/-- The two processes have the same node, and its pointers are its own in the second if in the
first. -/
structure SameNode (i : ι) (p q : Process ι S R) : Prop where
  node : p.nodes i = q.nodes i
  state : p.states i = q.states i
  null : ∀ k, p.instances k = none → q.instances k = none
  own : ∀ k, p.instances k = some i → q.instances k = some i

/-- A handler finds the node's own instance, or null, in both processes. -/
theorem SameNode.read {i : ι} {p q : Process ι S R} (h : SameNode i p q) {f : Handler}
    (hown : ∀ j ∈ p.read f, j = i) : q.read f = p.read f := by
  rw [Process.read, Process.read] at *
  cases hk : f.pointer with
  | none => rfl
  | some k =>
    rw [hk, Option.bind_some] at hown
    rw [Option.bind_some, Option.bind_some]
    cases hinst : p.instances k with
    | none => exact h.null k hinst
    | some j =>
      obtain rfl := hown j hinst
      exact h.own k hinst

variable [DecidableEq ι]

instance (p : Process ι S R) : DecidablePred p.OwnPointer
  | .begin _ => inferInstanceAs (Decidable True)
  | .inbound i text =>
    inferInstanceAs (Decidable (∀ j ∈ ((p.nodes i).rpc.handlerFor text).bind p.read, j = i))

theorem SameNode.begin_self {i : ι} {p q : Process ι S R} (h : SameNode i p q) :
    SameNode i (p.begin i) (q.begin i) where
  node := by rw [nodes_begin_self, nodes_begin_self, h.node]
  state := h.state
  null k := by
    simp only [begin, h.node]
    split
    · exact id
    · exact h.null k
  own k := by
    simp only [begin, h.node]
    split
    · exact id
    · exact h.own k

theorem SameNode.begin_other {i j : ι} {p q : Process ι S R} (h : SameNode i p q) (hne : i ≠ j) :
    SameNode i (p.begin j) q where
  node := (nodes_begin_of_ne p hne).trans h.node
  state := h.state
  null k := by
    simp only [begin]
    split
    · exact fun he => absurd he (Option.some_ne_none j)
    · exact h.null k
  own k := by
    simp only [begin]
    split
    · exact fun he => absurd (Option.some.inj he).symm hne
    · exact h.own k

theorem SameNode.set_self {i : ι} {p q : Process ι S R} (h : SameNode i p q) (s : S) :
    SameNode i ((stateLens i).set s p) ((stateLens i).set s q) where
  node := h.node
  state := ((stateLens i).get_set s p).trans ((stateLens i).get_set s q).symm
  null := h.null
  own := h.own

theorem SameNode.set_other {i j : ι} {p q : Process ι S R} (h : SameNode i p q) (hne : i ≠ j)
    (s : S) : SameNode i ((stateLens j).set s p) q where
  node := h.node
  state := (Function.update_of_ne hne ..).trans h.state
  null := h.null
  own := h.own

end Process

variable [DecidableEq ι] [CFloat R]

namespace Node

/-- A handler that finds the node's instance behind its pointer when it `reads` it, else null. -/
def call (n : Node S R) (reads : Handler → Bool) : HandlerCall Handler S := fun h req reply s =>
  if reads h then
    let r := h.run req reply (some (n, s))
    (r.1, r.2.getD s)
  else ((h.run req reply (none : Option (Node S R × S))).1, s)

def inbound (n : Node S R) (reads : Handler → Bool) (text : Option Text) (s : S) : Outcome S :=
  n.rpc.handleInbound n.callbacks (n.call reads) text s

end Node

namespace Process

/-- A message to a node whose pointers are its own stays within the node. -/
theorem inbound_eq_lift {p : Process ι S R} {i : ι} {text : Option Text} (reads : Handler → Bool)
    (hown : p.OwnPointer (.inbound i text))
    (hreads : ∀ h ∈ (p.nodes i).rpc.handlerFor text, reads h = (p.read h).isSome) :
    p.inbound i text = ((p.nodes i).inbound reads text (p.states i)).lift (stateLens i) p := by
  refine McRpc.handleInbound_lift (stateLens i) _ _ (fun h hmem req reply => ?_)
  have hread := hreads h hmem
  rw [call]
  cases hptr : p.read h with
  | none =>
    rw [hptr, Option.isSome_none] at hread
    simp only [Lens.lift, Node.call, hread, Bool.false_eq_true, if_false, (stateLens i).set_get]
  | some j =>
    have hj : j = i := hown j (Option.mem_bind_iff.mpr ⟨h, hmem, hptr⟩)
    rw [hptr, Option.isSome_some] at hread
    simp only [Lens.lift, Node.call, hread, if_true, hj]
    rfl

/-- What a message does when its node's pointers are its own: it changes the node's state only. -/
theorem step_inbound {p : Process ι S R} {i : ι} {text : Option Text}
    (hown : p.OwnPointer (.inbound i text)) :
    ∃ s, (p.step (.inbound i text)).1 = (stateLens i).set s p :=
  ⟨_, congrArg Outcome.world (inbound_eq_lift (fun f => (p.read f).isSome) hown (fun _ _ => rfl))⟩

theorem SameNode.inbound {i : ι} {p q : Process ι S R} (h : SameNode i p q) {text : Option Text}
    (hown : p.OwnPointer (.inbound i text)) :
    (p.step (.inbound i text)).2 = (q.step (.inbound i text)).2 ∧
      SameNode i (p.step (.inbound i text)).1 (q.step (.inbound i text)).1 := by
  let reads : Handler → Bool := fun f => (p.read f).isSome
  have hread : ∀ f ∈ (p.nodes i).rpc.handlerFor text, q.read f = p.read f := by
    intro f hf
    exact h.read (fun j hj => hown j (Option.mem_bind_iff.mpr ⟨f, hf, hj⟩))
  have hown' : q.OwnPointer (.inbound i text) := by
    intro j hj
    rw [← h.node] at hj
    obtain ⟨f, hf, hj⟩ := Option.mem_bind_iff.mp hj
    rw [hread f hf] at hj
    exact hown j (Option.mem_bind_iff.mpr ⟨f, hf, hj⟩)
  have hp := inbound_eq_lift reads hown (fun _ _ => rfl)
  have hq : q.inbound i text =
      ((q.nodes i).inbound reads text (q.states i)).lift (stateLens i) q := by
    refine inbound_eq_lift reads hown' (fun f hf => ?_)
    rw [← h.node] at hf
    rw [hread f hf]
  simp only [step, hp, hq, ← h.node, ← h.state]
  exact ⟨rfl, h.set_self _⟩

/-- Another node's message does nothing to the node. -/
theorem SameNode.inbound_other {i j : ι} {p q : Process ι S R} (h : SameNode i p q) (hne : i ≠ j)
    {text : Option Text} (hown : p.OwnPointer (.inbound j text)) :
    SameNode i (p.step (.inbound j text)).1 q := by
  obtain ⟨s, hs⟩ := step_inbound hown
  rw [hs]
  exact h.set_other hne s

theorem unwinds (i : ι) :
    Unwinds (step : Process ι S R → Input ι → _) (Input.isFor i) OwnPointer (SameNode i) where
  own := by
    intro p q a h hown hmine
    obtain rfl : a.node = i := of_decide_eq_true hmine
    cases a with
    | begin i => exact ⟨rfl, h.begin_self⟩
    | inbound i text => exact h.inbound hown
  other := by
    intro p q a h hown hmine
    have hne : i ≠ a.node := Ne.symm (of_decide_eq_false hmine)
    cases a with
    | begin j => exact h.begin_other hne
    | inbound j text => exact h.inbound_other hne hown

/-- A node of a process that starts with null pointers answers as if there were no other nodes, in
every run whose lines only run handlers that find their own node's instance, or null. -/
theorem answers_isolated (i : ι) {p q : Process ι S R} (hnode : p.nodes i = q.nodes i)
    (hstate : p.states i = q.states i) (hp : ∀ k, p.instances k = none)
    (hq : ∀ k, q.instances k = none) (inputs : List (Input ι))
    (hown : EveryStep step OwnPointer p inputs) :
    answersOf step (Input.isFor i) p inputs =
      answersOf step (Input.isFor i) q (inputs.filter (Input.isFor i)) := by
  refine ((unwinds i).isolated ⟨hnode, hstate, fun k _ => hq k, fun k hk => ?_⟩ inputs hown).1
  rw [hp k] at hk
  cases hk

/-! ### Two nodes -/

def publishingNode (name : Text) (k : FeatureKind) : Node Unit Unit where
  rpc := { nodeName := name, features := { features := [k] } }
  callbacks := { publishEx := some (fun _ _ s => (true, s)) }

/-- The nodes `a` and `b`, each with its own instance of the one class. -/
def pair (a b : FeatureKind) : Process Bool Unit Unit where
  nodes i := if i then publishingNode "b".toList b else publishingNode "a".toList a
  states _ := ()

def askStatus : List (Input Bool) :=
  [.begin false, .begin true, .inbound false (some "a status".toList)]

theorem answers_isolated_pair :
    answersOf step (Input.isFor false) (pair .core .battery) askStatus =
      answersOf step (Input.isFor false) (pair .core .gps) (askStatus.filter (Input.isFor false)) :=
  answers_isolated false rfl rfl (fun _ => rfl) (fun _ => rfl) askStatus
    ⟨trivial, trivial, by decide +kernel, trivial⟩

/-- With two core features, `a` answers with the status of `b`, which began last. -/
theorem pair_core_not_isolated :
    answersOf step (Input.isFor false) (pair .core .core) askStatus =
      [none, some ⟨true, some ⟨"status name=b fw= v=1.2 transport=meshcore".toList, some 0⟩⟩] ∧
    answersOf step (Input.isFor false) (pair .core .core) (askStatus.filter (Input.isFor false)) =
      [none, some ⟨true, some ⟨"status name=a fw= v=1.2 transport=meshcore".toList, some 0⟩⟩] := by
  decide +kernel

end Process
end Mcrpc
