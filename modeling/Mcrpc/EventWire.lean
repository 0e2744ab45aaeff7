import Mcrpc.Transport
import Mcrpc.Lib.Unwinding

/-!
# Events on the wire

A node that is begun and shut down in any order, with subscribers of the application on its bus, and
features that publish events. `begin` puts the engine on the bus each time it is called, started or
not, as long as there is room; an event goes out once for each place the engine has there.
-/

namespace Mcrpc

/-- A node with the features that `setup` has given a context, which they keep. -/
structure Lifecycle (H Φ σ : Type) where
  rpc : McRpc H Φ := {}
  contexts : List Φ := []
  world : σ

inductive LifecycleCall (Φ : Type)
  | begin
  | shutdown
  | subscribe (n : ℕ)
  | publishEvent (feature : Φ) (name kv : Option Text)

namespace Lifecycle

variable {H Φ σ : Type}

theorem subs_subscribe (bus : EventBus Subscriber) (sub : Subscriber) :
    (bus.subscribe sub).2.subs =
      if maxEventSubs ≤ bus.subs.length then bus.subs else bus.subs ++ [sub] := by
  rw [EventBus.subscribe]
  split <;> rfl

theorem started_begin {registerCommands : Φ → CommandRegistry H → CommandRegistry H}
    {registerCapabilities : Φ → CapabilityRegistry → CapabilityRegistry} (m : McRpc H Φ) :
    (m.begin registerCommands registerCapabilities).features.started = true := by
  simp only [McRpc.begin, FeatureManager.start]
  split
  · next h => exact h
  · rfl

theorem started_shutdown (m : McRpc H Φ) : m.shutdown.features.started = false := by
  simp only [McRpc.shutdown, FeatureManager.stop]
  split
  · rfl
  · next h => exact Bool.not_eq_true _ ▸ h

variable [DecidableEq Φ]

section Step

variable (registerCommands : Φ → CommandRegistry H → CommandRegistry H)
  (registerCapabilities : Φ → CapabilityRegistry → CapabilityRegistry)
  (cb : Callbacks σ) (apps : ℕ → Text → Option Text → σ → σ)

/-- A publication answers with its result and what the transport got; without a context there is no
bus to publish on. -/
def step (s : Lifecycle H Φ σ) :
    LifecycleCall Φ → Lifecycle H Φ σ × Option (Bool × List Published)
  | .begin =>
    ({ s with
        rpc := s.rpc.begin registerCommands registerCapabilities
        contexts :=
          if s.rpc.features.started then s.contexts else s.contexts ++ s.rpc.features.features },
      none)
  | .shutdown => ({ s with rpc := s.rpc.shutdown }, none)
  | .subscribe n =>
    ({ s with rpc := { s.rpc with events := (s.rpc.events.subscribe (.app n)).2 } }, none)
  | .publishEvent feature name kv =>
    if feature ∈ s.contexts then
      let r := s.rpc.publishEvent cb.recorded (silentApps apps) name kv (s.world, [])
      ({ s with world := r.2.1 }, some (r.1, r.2.2))
    else (s, some (false, []))

/-- A successful publication of a started node is one line on the wire, and a stopped node is
silent. -/
def OneEvent (s : Lifecycle H Φ σ) : LifecycleCall Φ → Prop
  | .publishEvent feature name kv => ∀ ok sent,
      (step registerCommands registerCapabilities cb apps s (.publishEvent feature name kv)).2 =
        some (ok, sent) →
      (s.rpc.features.started = true → ok = true →
        sent.map Published.text = [(McRpc.eventBuffer (name.getD []) kv).cstr]) ∧
      (s.rpc.features.started = false → sent = [])
  | _ => True

end Step

/-- `begin` finds a free place on the bus when it starts the node and none when the node is
started. -/
def BeginsOnce (s : Lifecycle H Φ σ) : LifecycleCall Φ → Prop
  | .begin =>
    if s.rpc.features.started then maxEventSubs ≤ s.rpc.events.subs.length
    else s.rpc.events.subs.length < maxEventSubs
  | _ => True

instance decidableBeginsOnce (s : Lifecycle H Φ σ) :
    (a : LifecycleCall Φ) → Decidable (s.BeginsOnce a)
  | .begin => inferInstanceAs (Decidable
      (if s.rpc.features.started then maxEventSubs ≤ s.rpc.events.subs.length
      else s.rpc.events.subs.length < maxEventSubs))
  | .shutdown => .isTrue trivial
  | .subscribe _ => .isTrue trivial
  | .publishEvent .. => .isTrue trivial

def EngineOnce (s : Lifecycle H Φ σ) : Prop :=
  s.rpc.events.subs.count .engine = if s.rpc.features.started then 1 else 0

variable {registerCommands : Φ → CommandRegistry H → CommandRegistry H}
  {registerCapabilities : Φ → CapabilityRegistry → CapabilityRegistry}
  {cb : Callbacks σ} {apps : ℕ → Text → Option Text → σ → σ}

/-- The step lemma: what each call does to the engine's places on the bus. -/
theorem engineOnce_step {s : Lifecycle H Φ σ} (hs : s.EngineOnce) {a : LifecycleCall Φ}
    (ha : s.BeginsOnce a) :
    (step registerCommands registerCapabilities cb apps s a).1.EngineOnce := by
  cases a with
  | begin =>
    have hsubs : (s.rpc.begin registerCommands registerCapabilities).events.subs =
        if maxEventSubs ≤ s.rpc.events.subs.length then s.rpc.events.subs
        else s.rpc.events.subs ++ [.engine] := subs_subscribe _ _
    simp only [EngineOnce, step, started_begin, hsubs, if_true]
    simp only [BeginsOnce] at ha
    rw [EngineOnce] at hs
    split_ifs at ha hs with hstarted
    · rw [if_pos ha, hs]
    · rw [if_neg (by omega), List.count_append, hs]
      rfl
  | shutdown =>
    simp only [EngineOnce, step, started_shutdown, Bool.false_eq_true, if_false]
    rfl
  | subscribe n =>
    simp only [EngineOnce, step, subs_subscribe] at hs ⊢
    split
    · exact hs
    · rw [List.count_append, hs]
      rfl
  | publishEvent feature name kv =>
    simp only [step]
    split <;> exact hs

/-- A publication sends the event as often as the engine is on the bus. -/
theorem oneEvent_of_engineOnce (hcb : cb.publishEx.isSome ∨ cb.publish.isSome)
    {s : Lifecycle H Φ σ} (hs : s.EngineOnce) (a : LifecycleCall Φ) :
    OneEvent registerCommands registerCapabilities cb apps s a := by
  cases a with
  | publishEvent feature name kv =>
    intro ok sent h
    simp only [step] at h
    split at h
    · obtain ⟨hok, hsent⟩ := Prod.mk.inj (Option.some.inj h)
      by_cases hname : ∃ n, name = some n ∧ n ≠ []
      · obtain ⟨n, rfl, hn⟩ := hname
        rw [s.rpc.publishEvent_recorded hcb apps hn kv, List.nil_append, hs] at hsent
        refine ⟨fun hstarted _ => ?_, fun hstopped => ?_⟩
        · rw [hstarted] at hsent
          rw [← hsent]
          rfl
        · rw [hstopped] at hsent
          exact hsent.symm
      · -- an event without a name is refused
        have hrefused : s.rpc.publishEvent cb.recorded (silentApps apps) name kv (s.world, []) =
            (false, (s.world, [])) := by
          cases name with
          | none => rfl
          | some n =>
            obtain rfl : n = [] := by
              by_contra hn
              exact hname ⟨n, rfl, hn⟩
            rfl
        rw [hrefused] at hok hsent
        subst hok
        exact ⟨fun _ h => absurd h Bool.false_ne_true, fun _ => hsent.symm⟩
    · obtain ⟨rfl, rfl⟩ := Prod.mk.inj (Option.some.inj h)
      exact ⟨fun _ h => absurd h Bool.false_ne_true, fun _ => rfl⟩
  | _ => trivial

/-- A run of a new node in which `begin` never adds a second place for the engine, or none. -/
theorem oneEvent_of_beginsOnce (hcb : cb.publishEx.isSome ∨ cb.publish.isSome)
    {s : Lifecycle H Φ σ} (hbus : s.rpc.events.subs = []) (hnew : s.rpc.features.started = false)
    {calls : List (LifecycleCall Φ)}
    (hcalls : EveryStep (step registerCommands registerCapabilities cb apps) BeginsOnce s calls) :
    EveryStep (step registerCommands registerCapabilities cb apps)
      (OneEvent registerCommands registerCapabilities cb apps) s calls := by
  have hs : s.EngineOnce := by
    rw [EngineOnce, hbus, hnew]
    rfl
  refine EveryStep.imp_of_invariant ?_ hs hcalls
  intro s a hs ha
  exact ⟨oneEvent_of_engineOnce hcb hs a, engineOnce_step hs ha⟩

def newNode : Lifecycle Unit Unit Unit where
  rpc := { features := { features := [()] } }
  world := ()

def publishing : Callbacks Unit := { publishEx := some (fun _ _ s => (true, s)) }

def buttonDown : LifecycleCall Unit := .publishEvent () (some "button.down".toList) none

theorem oneEvent_of_beginsOnce_button :
    EveryStep (step (fun _ c => c) (fun _ c => c) publishing (fun _ _ _ s => s))
      (OneEvent (fun _ c => c) (fun _ c => c) publishing (fun _ _ _ s => s)) newNode
      [.begin, buttonDown, .shutdown, buttonDown, .begin, buttonDown] :=
  oneEvent_of_beginsOnce (.inl rfl) rfl rfl
    ⟨by decide, trivial, trivial, trivial, by decide, trivial, trivial⟩

/-- After a second `begin` the event goes out twice; with a full bus it does not go out at all. -/
theorem begin_twice_begin_full :
    ¬ EveryStep (step (fun _ c => c) (fun _ c => c) publishing (fun _ _ _ s => s))
      (OneEvent (fun _ c => c) (fun _ c => c) publishing (fun _ _ _ s => s)) newNode
      [.begin, .begin, buttonDown] ∧
    ¬ EveryStep (step (fun _ c => c) (fun _ c => c) publishing (fun _ _ _ s => s))
      (OneEvent (fun _ c => c) (fun _ c => c) publishing (fun _ _ _ s => s)) newNode
      ((List.range 8).map .subscribe ++ [.begin, buttonDown]) := by
  constructor
  · rintro ⟨-, -, hone, -⟩
    exact absurd ((hone _ _ rfl).1 rfl rfl) (by decide)
  · rintro ⟨-, -, -, -, -, -, -, -, -, hone, -⟩
    exact absurd ((hone _ _ rfl).1 rfl rfl) (by decide)

end Lifecycle
end Mcrpc
