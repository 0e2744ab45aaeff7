import Mcrpc.FeatureManager
import Mcrpc.Lib.Unwinding
import Mathlib.Computability.Language

/-!
# The lifecycle of features

Any sequence of calls of a feature manager, with the callbacks each of them makes. A feature sees
rounds, each from its setup to its shutdown, of which the last one may be open.
-/

namespace Mcrpc

open Computability

inductive ManagerCall (Φ : Type*)
  | add (f : Option Φ)
  | start
  | loop
  | stop

def lifecycleRound : Language Callback := {w | ∃ n,
  w = [.setup, .registerCommands, .registerCapabilities] ++ List.replicate n .loop ++ [.shutdown]}

namespace FeatureManager

variable {Φ σ : Type*}

def record (f : Φ) (c : Callback) (trace : List (Φ × Callback)) : List (Φ × Callback) :=
  trace ++ [(f, c)]

theorem foldl_record (fs : List Φ) (c : Callback) (tr : List (Φ × Callback)) :
    fs.foldl (fun tr f => record f c tr) tr = tr ++ fs.map (·, c) := by
  induction fs generalizing tr with
  | nil => exact (List.append_nil tr).symm
  | cons f fs ih =>
    rw [List.foldl_cons, ih, record, List.append_assoc]
    rfl

theorem foldr_record (fs : List Φ) (c : Callback) (tr : List (Φ × Callback)) :
    fs.foldr (fun f tr => record f c tr) tr = tr ++ fs.reverse.map (·, c) := by
  rw [← foldl_record, List.foldl_reverse]

variable [DecidableEq Φ]

def stepWith (call : Φ → Callback → σ → σ) (m : FeatureManager Φ) (w : σ) :
    ManagerCall Φ → FeatureManager Φ × σ
  | .add f => ((m.add f).2, w)
  | .start => m.startWith call w
  | .loop => m.loopWith call w
  | .stop => m.stopWith call w

def step (m : FeatureManager Φ) (c : ManagerCall Φ) : FeatureManager Φ × List (Φ × Callback) :=
  m.stepWith record [] c

def trace (m : FeatureManager Φ) (calls : List (ManagerCall Φ)) : List (Φ × Callback) :=
  (answersOf step (fun _ => true) m calls).flatten

def callbacksOf (f : Φ) (trace : List (Φ × Callback)) : List Callback :=
  (trace.filter (fun e => e.1 = f)).map Prod.snd

/-! ### One call -/

theorem step_start {m : FeatureManager Φ} (h : m.started = false) : m.step .start =
    ({ m with started := true, hasCaps := true }, m.features.map (·, .setup) ++
      m.features.map (·, .registerCommands) ++ m.features.map (·, .registerCapabilities)) := by
  rw [step, stepWith, startWith, h]
  simp only [foldl_record, List.nil_append, Bool.false_eq_true, if_false]

theorem step_start_of_started {m : FeatureManager Φ} (h : m.started = true) :
    m.step .start = (m, []) := by
  rw [step, stepWith, startWith, if_pos h]

theorem step_loop {m : FeatureManager Φ} (h : m.started = true) :
    m.step .loop = (m, m.features.map (·, .loop)) := by
  rw [step, stepWith, loopWith, if_pos h, foldl_record, List.nil_append]

theorem step_loop_of_not_started {m : FeatureManager Φ} (h : m.started = false) :
    m.step .loop = (m, []) := by
  rw [step, stepWith, loopWith, h]
  rfl

theorem step_stop {m : FeatureManager Φ} (h : m.started = true) :
    m.step .stop = ({ m with started := false }, m.features.reverse.map (·, .shutdown)) := by
  rw [step, stepWith, stopWith, if_pos h, foldr_record, List.nil_append]

theorem step_stop_of_not_started {m : FeatureManager Φ} (h : m.started = false) :
    m.step .stop = (m, []) := by
  rw [step, stepWith, stopWith, h]
  rfl

theorem add_cases (m : FeatureManager Φ) (f : Option Φ) : (m.add f).2 = m ∨
    ∃ g, f = some g ∧ m.started = false ∧ (m.add f).2.features = m.features ++ [g] ∧
      (m.add f).2.started = false := by
  cases f with
  | none => exact .inl rfl
  | some g =>
    rw [add]
    split_ifs with hstarted hfull hheld
    · exact .inl rfl
    · exact .inl rfl
    · exact .inl rfl
    · have hnew : m.started = false := Bool.eq_false_of_not_eq_true hstarted
      exact .inr ⟨g, rfl, hnew, rfl, hnew⟩

/-- In every world a call does what its callbacks do there, in their order. -/
theorem stepWith_eq (call : Φ → Callback → σ → σ) (m : FeatureManager Φ) (w : σ)
    (c : ManagerCall Φ) : m.stepWith call w c =
      ((m.step c).1, (m.step c).2.foldl (fun w e => call e.1 e.2 w) w) := by
  cases c with
  | add f => rfl
  | start =>
    cases h : m.started with
    | true => rw [step_start_of_started h, stepWith, startWith, if_pos h, List.foldl_nil]
    | false =>
      rw [step_start h, stepWith, startWith, h]
      simp only [Bool.false_eq_true, if_false, List.foldl_append, List.foldl_map]
  | loop =>
    cases h : m.started with
    | true => rw [step_loop h, stepWith, loopWith, if_pos h, List.foldl_map]
    | false =>
      rw [step_loop_of_not_started h, stepWith, loopWith, h]
      rfl
  | stop =>
    cases h : m.started with
    | true =>
      rw [step_stop h, stepWith, stopWith, if_pos h, List.foldl_map, List.foldl_reverse]
    | false =>
      rw [step_stop_of_not_started h, stepWith, stopWith, h]
      rfl

/-! ### The callbacks of one feature -/

theorem callbacksOf_append (f : Φ) (tr tr' : List (Φ × Callback)) :
    callbacksOf f (tr ++ tr') = callbacksOf f tr ++ callbacksOf f tr' := by
  rw [callbacksOf, List.filter_append, List.map_append]
  rfl

theorem callbacksOf_map_of_not_mem {f : Φ} {fs : List Φ} (h : f ∉ fs) (c : Callback) :
    callbacksOf f (fs.map (·, c)) = [] := by
  rw [callbacksOf, List.map_eq_nil_iff, List.filter_eq_nil_iff]
  intro e he
  obtain ⟨g, hg, rfl⟩ := List.mem_map.mp he
  rw [decide_eq_true_eq]
  rintro rfl
  exact h hg

theorem callbacksOf_map {f : Φ} {fs : List Φ} (hnodup : fs.Nodup) (h : f ∈ fs) (c : Callback) :
    callbacksOf f (fs.map (·, c)) = [c] := by
  induction fs with
  | nil => cases h
  | cons g fs ih =>
    obtain ⟨hnew, hnodup⟩ := List.nodup_cons.mp hnodup
    change callbacksOf f ([(g, c)] ++ fs.map (·, c)) = [c]
    rw [callbacksOf_append]
    rcases List.mem_cons.mp h with rfl | hmem
    · rw [callbacksOf_map_of_not_mem hnew, callbacksOf, List.filter_cons_of_pos (by simp)]
      rfl
    · have hne : g ≠ f := by
        rintro rfl
        exact hnew hmem
      rw [ih hnodup hmem, callbacksOf, List.filter_cons_of_neg (by simpa using hne)]
      rfl

/-- What a feature has seen: whole rounds, and behind them an open one while the manager that holds
it is started. -/
def InRound (m : FeatureManager Φ) (tr : List (Φ × Callback)) : Prop :=
  ∀ f, ∃ w ∈ (lifecycleRound)∗, if m.started ∧ f ∈ m.features then
    ∃ n, callbacksOf f tr = w ++ ([.setup, .registerCommands, .registerCapabilities] ++
      List.replicate n .loop)
    else callbacksOf f tr = w

theorem inRound_of_not_started {m : FeatureManager Φ} (h : m.started = false)
    {tr : List (Φ × Callback)} : m.InRound tr ↔ ∀ f, callbacksOf f tr ∈ (lifecycleRound)∗ := by
  apply forall_congr'
  intro f
  rw [h]
  simp only [Bool.false_eq_true, false_and, if_false, exists_eq_right']

theorem inRound_of_started {m : FeatureManager Φ} (h : m.started = true)
    {tr : List (Φ × Callback)} : m.InRound tr ↔ ∀ f, ∃ w ∈ (lifecycleRound)∗,
      if f ∈ m.features then
        ∃ n, callbacksOf f tr = w ++ ([.setup, .registerCommands, .registerCapabilities] ++
          List.replicate n .loop)
      else callbacksOf f tr = w := by
  rw [InRound, h]
  simp only [true_and]

theorem mem_kstar_append_round {w v : List Callback} (hw : w ∈ (lifecycleRound)∗)
    (hv : v ∈ lifecycleRound) : w ++ v ∈ (lifecycleRound)∗ := by
  obtain ⟨L, rfl, hL⟩ := hw
  refine ⟨L ++ [v], ?_, List.forall_mem_append.mpr ⟨hL, List.forall_mem_singleton.mpr hv⟩⟩
  rw [List.flatten_append, List.flatten_singleton]

theorem InRound.isPrefix_callbacks {m : FeatureManager Φ} {tr : List (Φ × Callback)}
    (h : m.InRound tr) (f : Φ) : ∃ w ∈ (lifecycleRound)∗, callbacksOf f tr <+: w := by
  obtain ⟨w, hw, hcase⟩ := h f
  split at hcase
  · obtain ⟨n, hopen⟩ := hcase
    refine ⟨_, mem_kstar_append_round hw ⟨n, rfl⟩, [.shutdown], ?_⟩
    rw [hopen, List.append_assoc]
  · exact ⟨w, hw, hcase ▸ List.prefix_rfl⟩

/-- A call leaves every feature in its round. -/
theorem InRound.step {m : FeatureManager Φ} {tr : List (Φ × Callback)} (h : m.InRound tr)
    (c : ManagerCall Φ) : (m.step c).1.InRound (tr ++ (m.step c).2) := by
  cases c with
  | add f =>
    change (m.add f).2.InRound (tr ++ [])
    rw [List.append_nil]
    rcases m.add_cases f with hsame | ⟨g, -, hnew, -, hnew'⟩
    · rwa [hsame]
    · rw [inRound_of_not_started hnew']
      exact (inRound_of_not_started hnew).mp h
  | start =>
    cases hstarted : m.started with
    | true => rwa [step_start_of_started hstarted, List.append_nil]
    | false =>
      rw [inRound_of_not_started hstarted] at h
      rw [step_start hstarted, inRound_of_started rfl]
      intro f
      refine ⟨_, h f, ?_⟩
      simp only [callbacksOf_append]
      by_cases hf : f ∈ m.features
      · rw [if_pos hf, callbacksOf_map m.nodup hf, callbacksOf_map m.nodup hf,
          callbacksOf_map m.nodup hf]
        exact ⟨0, rfl⟩
      · rw [if_neg hf, callbacksOf_map_of_not_mem hf, callbacksOf_map_of_not_mem hf,
          callbacksOf_map_of_not_mem hf, List.append_nil, List.append_nil, List.append_nil]
  | loop =>
    cases hstarted : m.started with
    | false => rwa [step_loop_of_not_started hstarted, List.append_nil]
    | true =>
      rw [step_loop hstarted]
      rw [inRound_of_started hstarted] at h ⊢
      intro f
      obtain ⟨w, hw, hcase⟩ := h f
      refine ⟨w, hw, ?_⟩
      by_cases hf : f ∈ m.features
      · rw [if_pos hf] at hcase ⊢
        obtain ⟨n, hopen⟩ := hcase
        refine ⟨n + 1, ?_⟩
        rw [callbacksOf_append, hopen, callbacksOf_map m.nodup hf, List.replicate_succ',
          List.append_assoc, List.append_assoc]
      · rw [if_neg hf] at hcase ⊢
        rw [callbacksOf_append, hcase, callbacksOf_map_of_not_mem hf, List.append_nil]
  | stop =>
    cases hstarted : m.started with
    | false => rwa [step_stop_of_not_started hstarted, List.append_nil]
    | true =>
      rw [inRound_of_started hstarted] at h
      rw [step_stop hstarted, inRound_of_not_started rfl]
      intro f
      obtain ⟨w, hw, hcase⟩ := h f
      rw [callbacksOf_append]
      by_cases hf : f ∈ m.features
      · rw [if_pos hf] at hcase
        obtain ⟨n, hopen⟩ := hcase
        rw [hopen, callbacksOf_map (List.nodup_reverse.mpr m.nodup) (List.mem_reverse.mpr hf),
          List.append_assoc]
        exact mem_kstar_append_round hw ⟨n, rfl⟩
      · rw [if_neg hf] at hcase
        rw [hcase, callbacksOf_map_of_not_mem (fun hmem => hf (List.mem_reverse.mp hmem)),
          List.append_nil]
        exact hw

/-! ### A run -/

def startedAfter (m : FeatureManager Φ) : ManagerCall Φ → Bool
  | .start => true
  | .stop => false
  | _ => m.started

/-- What a call does to the features and to the order of the callbacks. -/
structure Orderly (m : FeatureManager Φ) (c : ManagerCall Φ) : Prop where
  /-- No feature is held twice. -/
  nodup : (m.step c).1.features.Nodup
  /-- From a start to the next stop the manager is started. -/
  started : (m.step c).1.started = m.startedAfter c
  /-- The features keep the order in which they were added. -/
  features : (m.step c).1.features = m.features ∨
    ∃ f, c = .add (some f) ∧ m.started = false ∧ (m.step c).1.features = m.features ++ [f]
  start : c = .start → m.started = false → (m.step c).2 =
    m.features.map (·, .setup) ++ m.features.map (·, .registerCommands) ++
      m.features.map (·, .registerCapabilities)
  stop : c = .stop → m.started = true → (m.step c).2 = m.features.reverse.map (·, .shutdown)

theorem orderly (m : FeatureManager Φ) (c : ManagerCall Φ) : m.Orderly c where
  nodup := (m.step c).1.nodup
  started := by
    cases c with
    | add f =>
      change (m.add f).2.started = m.started
      rcases m.add_cases f with hsame | ⟨g, -, hnew, -, hnew'⟩
      · rw [hsame]
      · rw [hnew, hnew']
    | start =>
      cases h : m.started with
      | true => exact (congrArg (fun r => r.1.started) (step_start_of_started h)).trans h
      | false => exact congrArg (fun r => r.1.started) (step_start h)
    | loop =>
      cases h : m.started with
      | true => exact congrArg (fun r => r.1.started) (step_loop h)
      | false => exact congrArg (fun r => r.1.started) (step_loop_of_not_started h)
    | stop =>
      cases h : m.started with
      | true => exact congrArg (fun r => r.1.started) (step_stop h)
      | false => exact (congrArg (fun r => r.1.started) (step_stop_of_not_started h)).trans h
  features := by
    cases c with
    | add f =>
      rcases m.add_cases f with hsame | ⟨g, rfl, hnew, hfeatures, -⟩
      · exact .inl (congrArg FeatureManager.features hsame)
      · exact .inr ⟨g, rfl, hnew, hfeatures⟩
    | start =>
      cases h : m.started with
      | true => exact .inl (congrArg (fun r => r.1.features) (step_start_of_started h))
      | false => exact .inl (congrArg (fun r => r.1.features) (step_start h))
    | loop =>
      cases h : m.started with
      | true => exact .inl (congrArg (fun r => r.1.features) (step_loop h))
      | false => exact .inl (congrArg (fun r => r.1.features) (step_loop_of_not_started h))
    | stop =>
      cases h : m.started with
      | true => exact .inl (congrArg (fun r => r.1.features) (step_stop h))
      | false => exact .inl (congrArg (fun r => r.1.features) (step_stop_of_not_started h))
  start hc h := by rw [hc, step_start h]
  stop hc h := by rw [hc, step_stop h]

theorem InRound.run {m : FeatureManager Φ} {tr : List (Φ × Callback)} (h : m.InRound tr)
    (calls : List (ManagerCall Φ)) :
    (finalState FeatureManager.step m calls).InRound (tr ++ m.trace calls) := by
  induction calls generalizing m tr with
  | nil => rwa [trace, answersOf, List.flatten_nil, List.append_nil]
  | cons c calls ih =>
    have hrest := ih (h.step c)
    rwa [List.append_assoc] at hrest

/-- In every run of a new manager each feature sees whole rounds and at most one open one, and every
call keeps the order. -/
theorem lifecycle (calls : List (ManagerCall Φ)) :
    (∀ f, ∃ w ∈ (lifecycleRound)∗, callbacksOf f (trace empty calls) <+: w) ∧
      EveryStep step Orderly empty calls := by
  constructor
  · intro f
    have hnew : (empty : FeatureManager Φ).InRound [] := by
      intro f
      refine ⟨[], Language.nil_mem_kstar _, ?_⟩
      rw [if_neg (fun hboth => Bool.false_ne_true hboth.1)]
      rfl
    exact (hnew.run calls).isPrefix_callbacks f
  · exact EveryStep.of_invariant (I := fun _ => True) (fun m c _ => m.orderly c)
      (fun _ _ _ => trivial) trivial calls

end FeatureManager
end Mcrpc
