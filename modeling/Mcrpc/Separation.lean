import Mcrpc.Isolation

/-!
# Nodes without a common feature class

The pointers of the classes stay with their nodes when no class is a feature of two of them. Then no
run is outside the condition of isolation.
-/

namespace Mcrpc

theorem Handler.hasPointer_of_pointer {h : Handler} {k : FeatureKind} (hk : h.pointer = some k) :
    k.hasPointer = true := by
  cases h <;> cases hk <;> rfl

/-- The handler reads no pointer, or that of one of the classes. -/
def Handler.ReadsOnly (ks : List FeatureKind) (h : Handler) : Prop :=
  ∀ k, h.pointer = some k → k ∈ ks

/-- A class only registers handlers that read its own pointer. -/
theorem FeatureKind.readsOnly_of_mem_commands {k : FeatureKind} {c : Text × Handler × Text}
    (hc : c ∈ k.commands) : c.2.1.ReadsOnly [k] := by
  have hall : ∀ c ∈ k.commands, ∀ k' ∈ c.2.1.pointer, k' ∈ [k] := by
    cases k <;> decide
  exact hall c hc

theorem FeatureKind.handlers_registerCommands {k : FeatureKind} {ks : List FeatureKind}
    (hk : k ∈ ks) {r : CommandRegistry Handler} (hr : r.HandlersSatisfy (Handler.ReadsOnly ks)) :
    (k.registerCommands r).HandlersSatisfy (Handler.ReadsOnly ks) := by
  refine List.foldlRecOn
    (motive := fun r => CommandRegistry.HandlersSatisfy r (Handler.ReadsOnly ks))
    k.commands _ hr (fun r hr c hc => hr.registerCommand c.1 (fun k' hk' => ?_) _)
  rwa [List.mem_singleton.mp (readsOnly_of_mem_commands hc k' hk')]

/-- The commands of the node only reach the classes of its own features. -/
def McRpc.OwnCommands (m : McRpc Handler FeatureKind) : Prop :=
  m.commands.HandlersSatisfy (Handler.ReadsOnly m.features.features)

theorem McRpc.OwnCommands.begin {m : McRpc Handler FeatureKind} (h : m.OwnCommands) :
    (m.begin FeatureKind.registerCommands FeatureKind.registerCapabilities).OwnCommands := by
  rw [OwnCommands, McRpc.begin, FeatureManager.start]
  split
  · exact h
  · exact List.foldlRecOn
      (motive := fun r => CommandRegistry.HandlersSatisfy r (Handler.ReadsOnly m.features.features))
      m.features.features _ h (fun r hr k hk => FeatureKind.handlers_registerCommands hk hr)

namespace Process

variable {ι S R : Type}

def features (p : Process ι S R) (i : ι) : List FeatureKind := (p.nodes i).rpc.features.features

/-- Each class with a pointer is a feature of one node at most, and the pointer is that node's. -/
structure Separate (p : Process ι S R) : Prop where
  commands : ∀ i, (p.nodes i).rpc.OwnCommands
  instances : ∀ k i, p.instances k = some i → k ∈ p.features i
  unique : ∀ k i j, k.hasPointer = true → k ∈ p.features i → k ∈ p.features j → i = j

theorem Separate.ownPointer {p : Process ι S R} (h : p.Separate) (a : Input ι) :
    p.OwnPointer a := by
  cases a with
  | begin i => trivial
  | inbound i text =>
    intro j hj
    obtain ⟨f, hf, hread⟩ := Option.mem_bind_iff.mp hj
    obtain ⟨k, hk, hinst⟩ := Option.mem_bind_iff.mp hread
    exact h.unique k j i (Handler.hasPointer_of_pointer hk) (h.instances k j hinst)
      (McRpc.handlerFor_satisfies (h.commands i) hf k hk)

variable [DecidableEq ι]

theorem features_begin (p : Process ι S R) (i j : ι) : (p.begin j).features i = p.features i := by
  rw [features]
  by_cases hij : i = j
  · subst hij
    rw [nodes_begin_self]
    simp only [McRpc.begin, FeatureManager.start]
    split <;> rfl
  · rw [nodes_begin_of_ne p hij]
    rfl

theorem Separate.begin {p : Process ι S R} (h : p.Separate) (j : ι) : (p.begin j).Separate where
  commands i := by
    by_cases hij : i = j
    · subst hij
      rw [nodes_begin_self]
      exact (h.commands i).begin
    · rw [nodes_begin_of_ne p hij]
      exact h.commands i
  instances k i := by
    rw [features_begin]
    simp only [Process.begin]
    split
    · next hset =>
      simp only [Bool.and_eq_true, decide_eq_true_eq] at hset
      intro hi
      rw [← Option.some.inj hi]
      exact hset.2
    · exact h.instances k i
  unique k i i' := by
    rw [features_begin, features_begin]
    exact h.unique k i i'

theorem Separate.step [CFloat R] {p : Process ι S R} (h : p.Separate) (a : Input ι) :
    (p.step a).1.Separate := by
  cases a with
  | begin i => exact h.begin i
  | inbound i text =>
    obtain ⟨s, hs⟩ := step_inbound (h.ownPointer (.inbound i text))
    rw [hs]
    exact ⟨h.commands, h.instances, h.unique⟩

/-- In every run of separate nodes each line finds its own node's instance, or null. -/
theorem Separate.everyStep [CFloat R] {p : Process ι S R} (h : p.Separate)
    (inputs : List (Input ι)) : EveryStep Process.step OwnPointer p inputs :=
  EveryStep.of_invariant (fun _ a hp => hp.ownPointer a) (fun _ a hp => hp.step a) h inputs

/-- A node that shares no class with another answers in every run as if there were no other nodes,
and ends in the state it would end in alone. -/
theorem isolated_of_separate [CFloat R] (i : ι) {p q : Process ι S R} (hp : p.Separate)
    (hnode : p.nodes i = q.nodes i) (hstate : p.states i = q.states i)
    (hnull : ∀ k, p.instances k = none) (hnull' : ∀ k, q.instances k = none)
    (inputs : List (Input ι)) :
    let alone := inputs.filter (Input.isFor i)
    answersOf step (Input.isFor i) p inputs = answersOf step (Input.isFor i) q alone ∧
      (finalState step p inputs).nodes i = (finalState step q alone).nodes i ∧
      (finalState step p inputs).states i = (finalState step q alone).states i := by
  have hsame : SameNode i p q := {
    node := hnode
    state := hstate
    null := fun k _ => hnull' k
    own := fun k hk => absurd ((hnull k).symm.trans hk) nofun }
  obtain ⟨hanswers, hfinal⟩ := (unwinds i).isolated hsame inputs (hp.everyStep inputs)
  exact ⟨hanswers, hfinal.node, hfinal.state⟩

theorem separate_pair : (pair .battery .gps).Separate where
  commands i := by cases i <;> exact fun _ he => absurd he List.not_mem_nil
  instances _ _ h := absurd h nofun
  unique k i j _ hi hj := by
    cases i <;> cases j
    · rfl
    · exact absurd ((List.mem_singleton.mp hi).symm.trans (List.mem_singleton.mp hj)) (by decide)
    · exact absurd ((List.mem_singleton.mp hi).symm.trans (List.mem_singleton.mp hj)) (by decide)
    · rfl

/-- The node `b` has begun between, and answers too. -/
theorem isolated_of_separate_pair :
    let inputs := [.begin false, .begin true, .inbound false (some "a battery".toList),
      .inbound true (some "all gps".toList)]
    let alone := inputs.filter (Input.isFor false)
    answersOf step (Input.isFor false) (pair .battery .gps) inputs =
        answersOf step (Input.isFor false) (pair .battery .core) alone ∧
      (finalState step (pair .battery .gps) inputs).nodes false =
        (finalState step (pair .battery .core) alone).nodes false ∧
      (finalState step (pair .battery .gps) inputs).states false =
        (finalState step (pair .battery .core) alone).states false :=
  isolated_of_separate false separate_pair rfl rfl (fun _ => rfl) (fun _ => rfl) _

end Process
end Mcrpc
