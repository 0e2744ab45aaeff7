import Mcrpc.Registry

/-!
# The feature manager

`FeatureManager.cpp` over feature instances of any kind `Φ`; `registerCommands` and
`registerCapabilities` are the virtual methods of an instance. `startWith`, `loopWith` and
`stopWith` make the calls of the virtual methods in a world `σ` of which the manager is no part.
-/

namespace Mcrpc

/-- `hasCaps` says that `_caps` is set. -/
structure FeatureManager (Φ : Type*) where
  features : List Φ := []
  started : Bool := false
  hasCaps : Bool := false
  nodup : features.Nodup := by simp
  length_le : features.length ≤ maxFeatures := by simp [maxFeatures]

inductive Callback
  | setup | registerCommands | registerCapabilities | loop | shutdown
  deriving DecidableEq, Repr

namespace FeatureManager

variable {Φ H σ : Type*}

def empty : FeatureManager Φ := {}

/-- The registrations of `start`, in the order of the features. -/
def start (m : FeatureManager Φ) (registerCommands : Φ → CommandRegistry H → CommandRegistry H)
    (registerCapabilities : Φ → CapabilityRegistry → CapabilityRegistry)
    (commands : CommandRegistry H) (capabilities : CapabilityRegistry) :
    FeatureManager Φ × CommandRegistry H × CapabilityRegistry :=
  if m.started then (m, commands, capabilities)
  else ({ m with started := true, hasCaps := true },
    m.features.foldl (fun commands f => registerCommands f commands) commands,
    m.features.foldl (fun caps f => registerCapabilities f caps) capabilities)

/-- No feature of the library overrides `shutdown`, which does nothing. -/
def stop (m : FeatureManager Φ) : FeatureManager Φ :=
  if m.started then { m with started := false } else m

theorem nodup_concat {fs : List Φ} (h : fs.Nodup) {f : Φ} (hf : f ∉ fs) : (fs ++ [f]).Nodup :=
  List.nodup_append.mpr ⟨h, List.pairwise_singleton _ f, fun _ ha _ hb he =>
    hf (List.mem_singleton.mp hb ▸ he ▸ ha)⟩

theorem length_concat_le {fs : List Φ} (h : ¬ maxFeatures ≤ fs.length) (f : Φ) :
    (fs ++ [f]).length ≤ maxFeatures := by
  rw [List.length_append, List.length_singleton]
  omega

/-- `none` is a null pointer. -/
def add [DecidableEq Φ] (m : FeatureManager Φ) : Option Φ → Bool × FeatureManager Φ
  | none => (false, m)
  | some f =>
    if m.started then (false, m)
    else if hfull : maxFeatures ≤ m.features.length then (false, m)
    else if hheld : f ∈ m.features then (true, m)
    else (true, { m with
      features := m.features ++ [f]
      nodup := nodup_concat m.nodup hheld
      length_le := length_concat_le hfull f })

def startWith (m : FeatureManager Φ) (call : Φ → Callback → σ → σ) (w : σ) :
    FeatureManager Φ × σ :=
  if m.started then (m, w)
  else
    let w := m.features.foldl (fun w f => call f .setup w) w
    let w := m.features.foldl (fun w f => call f .registerCommands w) w
    let w := m.features.foldl (fun w f => call f .registerCapabilities w) w
    ({ m with started := true, hasCaps := true }, w)

def loopWith (m : FeatureManager Φ) (call : Φ → Callback → σ → σ) (w : σ) :
    FeatureManager Φ × σ :=
  if m.started then (m, m.features.foldl (fun w f => call f .loop w) w) else (m, w)

/-- The loop counts down from the last feature. -/
def stopWith (m : FeatureManager Φ) (call : Φ → Callback → σ → σ) (w : σ) :
    FeatureManager Φ × σ :=
  if m.started then
    ({ m with started := false }, m.features.foldr (fun f w => call f .shutdown w) w)
  else (m, w)

def registering (registerCommands : Φ → CommandRegistry H → CommandRegistry H)
    (registerCapabilities : Φ → CapabilityRegistry → CapabilityRegistry) (f : Φ) :
    Callback → CommandRegistry H × CapabilityRegistry → CommandRegistry H × CapabilityRegistry
  | .registerCommands, w => (registerCommands f w.1, w.2)
  | .registerCapabilities, w => (w.1, registerCapabilities f w.2)
  | _, w => w

/-- `start` is `startWith` on the registries. -/
theorem start_eq (m : FeatureManager Φ)
    (registerCommands : Φ → CommandRegistry H → CommandRegistry H)
    (registerCapabilities : Φ → CapabilityRegistry → CapabilityRegistry)
    (commands : CommandRegistry H) (capabilities : CapabilityRegistry) :
    m.start registerCommands registerCapabilities commands capabilities =
      m.startWith (registering registerCommands registerCapabilities) (commands, capabilities) := by
  have hsetup (fs : List Φ) (w : CommandRegistry H × CapabilityRegistry) :
      fs.foldl (fun w f => registering registerCommands registerCapabilities f .setup w) w = w := by
    induction fs with
    | nil => rfl
    | cons f fs ih => exact ih
  have hcommands (fs : List Φ) (w : CommandRegistry H × CapabilityRegistry) :
      fs.foldl (fun w f => registering registerCommands registerCapabilities f
        .registerCommands w) w = (fs.foldl (fun c f => registerCommands f c) w.1, w.2) := by
    induction fs generalizing w with
    | nil => rfl
    | cons f fs ih => exact ih _
  have hcapabilities (fs : List Φ) (w : CommandRegistry H × CapabilityRegistry) :
      fs.foldl (fun w f => registering registerCommands registerCapabilities f
        .registerCapabilities w) w = (w.1, fs.foldl (fun c f => registerCapabilities f c) w.2) := by
    induction fs generalizing w with
    | nil => rfl
    | cons f fs ih => exact ih _
  rw [start, startWith]
  split
  · rfl
  · simp only [hsetup, hcommands, hcapabilities]

end FeatureManager
end Mcrpc
