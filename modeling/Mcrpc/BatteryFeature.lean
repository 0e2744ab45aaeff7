import Mcrpc.HostServices
import Mcrpc.Lib.Latch
import Mathlib.Data.Int.Order.Basic
import Mathlib.Order.Lattice

/-!
# Low battery events

`BatteryFeature::loop` and its runs over any readings. The event is published when the voltage
falls below the threshold, and again only after it has come back a tenth of a volt above it.
-/

namespace Mcrpc

/-- Floats as numbers of a linear order, with the sum `x + 0.1f`. -/
class OrderedFloat (R : Type*) extends CFloat R, LinearOrder R where
  addTenth : R → R

/-- `_low_v`, as initialized or as `setLowThresholdVolts` left it, and `_low_latched`. -/
structure BatteryFeature (R : Type*) where
  lowV : R
  lowLatched : Bool := false

namespace BatteryFeature

variable {S R : Type*} [OrderedFloat R]

/-- `publishEvent` works on the same world as the host. -/
def loop (host : HostServices S R) (publishEvent : Text → Option Text → S → Bool × S)
    (f : BatteryFeature R) (w : S) : BatteryFeature R × S :=
  let ((ok, v, _), w) := host.readBattery CFloat.zero (-1) w
  if !ok then (f, w)
  else if CFloat.zero < v ∧ v < f.lowV then
    if !f.lowLatched then
      let kv := copyToken 32 ("voltage=".toList ++ CFloat.fixed 2 v)
      let (_, w) := publishEvent "battery.low".toList (some kv) w
      ({ f with lowLatched := true }, w)
    else (f, w)
  else if OrderedFloat.addTenth f.lowV ≤ v then ({ f with lowLatched := false }, w)
  else (f, w)

/-- What `readBattery` delivers, `none` when it fails. -/
def reading (host : HostServices S R) (w : S) : Option R :=
  let r := (host.readBattery CFloat.zero (-1) w).1
  if r.1 then some r.2.1 else none

def isLow (t : R) (x : Option R) : Bool := x.any (fun v => CFloat.zero < v ∧ v < t)

def isRecovered (t : R) (x : Option R) : Bool := x.any (fun v => OrderedFloat.addTenth t ≤ v)

theorem not_isRecovered_of_isLow {t : R} (ht : t < OrderedFloat.addTenth t) {x : Option R}
    (h : isLow t x = true) : isRecovered t x = false := by
  obtain ⟨v, rfl, hv⟩ := (Option.any_eq_true _ x).mp h
  exact decide_eq_false ((of_decide_eq_true hv).2.trans ht).not_ge

/-- Failed and non-positive readings and those between the two levels do not count. -/
theorem not_isLow_not_isRecovered {t : R} (hpos : CFloat.zero < t)
    (ht : t < OrderedFloat.addTenth t) {x : Option R}
    (h : ∀ v, x = some v → v ≤ CFloat.zero ∨ t ≤ v ∧ v < OrderedFloat.addTenth t) :
    isLow t x = false ∧ isRecovered t x = false := by
  cases x with
  | none => exact ⟨rfl, rfl⟩
  | some v =>
    rcases h v rfl with hzero | ⟨hle, hlt⟩
    · exact ⟨decide_eq_false (fun hlow => hlow.1.not_ge hzero),
        decide_eq_false ((hzero.trans_lt (hpos.trans ht)).not_ge)⟩
    · exact ⟨decide_eq_false (fun hlow => hlow.2.not_ge hle), decide_eq_false hlt.not_ge⟩

section Step

variable (host : HostServices S R) (publishEvent : Text → Option Text → S → Bool × S)
  (f : BatteryFeature R) (w : S)

def afterReading : S := (host.readBattery CFloat.zero (-1) w).2

def lowKv (v : R) : Text := copyToken 32 ("voltage=".toList ++ CFloat.fixed 2 v)

/-- The four things a loop can do. -/
theorem loop_cases :
    (isLow f.lowV (reading host w) = true ∧ f.lowLatched = false ∧
      ∃ v, reading host w = some v ∧ loop host publishEvent f w =
        ({ f with lowLatched := true },
          (publishEvent "battery.low".toList (some (lowKv v)) (afterReading host w)).2)) ∨
    (isLow f.lowV (reading host w) = true ∧ f.lowLatched = true ∧
      loop host publishEvent f w = (f, afterReading host w)) ∨
    (isLow f.lowV (reading host w) = false ∧ isRecovered f.lowV (reading host w) = true ∧
      loop host publishEvent f w = ({ f with lowLatched := false }, afterReading host w)) ∨
    (isLow f.lowV (reading host w) = false ∧ isRecovered f.lowV (reading host w) = false ∧
      loop host publishEvent f w = (f, afterReading host w)) := by
  rcases hread : host.readBattery CFloat.zero (-1) w with ⟨⟨ok, v, percent⟩, w'⟩
  have hafter : afterReading host w = w' := congrArg Prod.snd hread
  cases ok with
  | false =>
    have hnone : reading host w = none := by
      rw [reading, hread]
      rfl
    refine .inr (.inr (.inr ⟨congrArg (isLow f.lowV) hnone, congrArg (isRecovered f.lowV) hnone,
      ?_⟩))
    rw [loop, hread, hafter]
    rfl
  | true =>
    have hsome : reading host w = some v := by
      rw [reading, hread]
      rfl
    rw [hsome, isLow, isRecovered, Option.any_some, Option.any_some, loop, hread, hafter]
    dsimp only
    rw [if_neg (by decide)]
    by_cases hlow : CFloat.zero < v ∧ v < f.lowV
    · rw [if_pos hlow]
      cases hlatched : f.lowLatched with
      | false => exact .inl ⟨decide_eq_true hlow, rfl, v, rfl, rfl⟩
      | true => exact .inr (.inl ⟨decide_eq_true hlow, rfl, rfl⟩)
    · rw [if_neg hlow]
      by_cases hhigh : OrderedFloat.addTenth f.lowV ≤ v
      · rw [if_pos hhigh]
        exact .inr (.inr (.inl ⟨decide_eq_false hlow, decide_eq_true hhigh, rfl⟩))
      · rw [if_neg hhigh]
        exact .inr (.inr (.inr ⟨decide_eq_false hlow, decide_eq_false hhigh, rfl⟩))

theorem loop_lowV : (loop host publishEvent f w).1.lowV = f.lowV := by
  rcases loop_cases host publishEvent f w with
    ⟨-, -, v, -, h⟩ | ⟨-, -, h⟩ | ⟨-, -, h⟩ | ⟨-, -, h⟩ <;>
    rw [h]

/-- The flag takes one step of a latch. -/
theorem loop_lowLatched :
    (loop host publishEvent f w).1.lowLatched =
      if isLow f.lowV (reading host w) then true
      else if isRecovered f.lowV (reading host w) then false else f.lowLatched := by
  rcases loop_cases host publishEvent f w with
    ⟨hlow, -, v, -, h⟩ | ⟨hlow, hlatched, h⟩ | ⟨hlow, hhigh, h⟩ | ⟨hlow, hhigh, h⟩
  · rw [h, if_pos hlow]
  · rw [h, if_pos hlow, hlatched]
  · rw [h, hlow, if_neg Bool.false_ne_true, if_pos hhigh]
  · rw [h, hlow, hhigh, if_neg Bool.false_ne_true, if_neg Bool.false_ne_true]

def recorded : Text → Option Text → S × List (Text × Option Text) →
    Bool × (S × List (Text × Option Text)) := fun name kv w =>
  let r := publishEvent name kv w.1
  (r.1, r.2, w.2 ++ [(name, kv)])

/-- The calls of `publishEvent` that a loop makes. -/
def published : List (Text × Option Text) :=
  (loop (host.lift Lens.fst) (recorded publishEvent) f (w, [])).2.2

theorem published_cases :
    (isLow f.lowV (reading host w) = true ∧ f.lowLatched = false ∧
      ∃ v, reading host w = some v ∧
        published host publishEvent f w = [("battery.low".toList, some (lowKv v))]) ∨
    ((isLow f.lowV (reading host w) = true → f.lowLatched = true) ∧
      published host publishEvent f w = []) := by
  let logged : S × List (Text × Option Text) := (w, [])
  -- the log beside the world does not change what the host reads
  have hreading : reading (host.lift Lens.fst) logged = reading host w := rfl
  have hnotLow (h : isLow f.lowV (reading (host.lift Lens.fst) logged) = false) :
      isLow f.lowV (reading host w) = true → f.lowLatched = true := by
    intro hlow
    rw [hreading, hlow] at h
    cases h
  rcases loop_cases (host.lift Lens.fst) (recorded publishEvent) f logged with
    ⟨hlow, hlatched, v, hv, h⟩ | ⟨-, hlatched, h⟩ | ⟨hlow, -, h⟩ | ⟨hlow, -, h⟩
  · exact .inl ⟨hlow, hlatched, v, hv, congrArg (·.2.2) h⟩
  · exact .inr ⟨fun _ => hlatched, congrArg (·.2.2) h⟩
  · exact .inr ⟨hnotLow hlow, congrArg (·.2.2) h⟩
  · exact .inr ⟨hnotLow hlow, congrArg (·.2.2) h⟩

theorem published_low_iff :
    (∃ kv, published host publishEvent f w = [("battery.low".toList, kv)]) ↔
      isLow f.lowV (reading host w) = true ∧ f.lowLatched = false := by
  rcases published_cases host publishEvent f w with ⟨hlow, hlatched, v, -, h⟩ | ⟨hhold, h⟩
  · exact iff_of_true ⟨_, h⟩ ⟨hlow, hlatched⟩
  · rw [h]
    refine iff_of_false nofun (fun ⟨hlow, hlatched⟩ => ?_)
    exact Bool.noConfusion (hlatched.symm.trans (hhold hlow))

end Step

/-! ### Runs

Loop number `i` takes place in `worlds i`, whatever has happened since the loop before it. -/

section Runs

variable (host : HostServices S R) (publishEvent : Text → Option Text → S → Bool × S) (t : R)
  (worlds : ℕ → S)

/-- The feature before loop number `i`. -/
def before : ℕ → BatteryFeature R
  | 0 => { lowV := t }
  | i + 1 => (loop host publishEvent (before i) (worlds i)).1

def calls (i : ℕ) : List (Text × Option Text) :=
  published host publishEvent (before host publishEvent t worlds i) (worlds i)

def Publishes (i : ℕ) : Prop :=
  ∃ kv, calls host publishEvent t worlds i = [("battery.low".toList, kv)]

theorem before_lowV (i : ℕ) : (before host publishEvent t worlds i).lowV = t := by
  induction i with
  | zero => rfl
  | succ i ih => rw [before, loop_lowV, ih]

theorem before_lowLatched (i : ℕ) :
    (before host publishEvent t worlds i).lowLatched =
      Latch.state (fun i => isLow t (reading host (worlds i)))
        (fun i => isRecovered t (reading host (worlds i))) i := by
  induction i with
  | zero => rfl
  | succ i ih => rw [before, loop_lowLatched, before_lowV, ih, Latch.state]

theorem publishes_iff (i : ℕ) :
    Publishes host publishEvent t worlds i ↔
      Latch.Fires (fun i => isLow t (reading host (worlds i)))
        (fun i => isRecovered t (reading host (worlds i))) i := by
  rw [Publishes, calls, published_low_iff, before_lowV, before_lowLatched, Latch.Fires]

variable {host publishEvent t worlds}

theorem before_succ_of_hold {i : ℕ}
    (hlow : isLow t (reading host (worlds i)) = false)
    (hhigh : isRecovered t (reading host (worlds i)) = false) :
    before host publishEvent t worlds (i + 1) = before host publishEvent t worlds i := by
  have hlowV := before_lowV host publishEvent t worlds i
  rw [before]
  rcases loop_cases host publishEvent (before host publishEvent t worlds i) (worlds i) with
    ⟨h, -⟩ | ⟨h, -⟩ | ⟨-, h, -⟩ | ⟨-, -, h⟩
  · rw [hlowV, hlow] at h
    cases h
  · rw [hlowV, hlow] at h
    cases h
  · rw [hlowV, hhigh] at h
    cases h
  · rw [h]

/-- Events have a recovery between them, and nothing but a recovery makes the next one possible;
nothing else is published. -/
theorem low_events (host : HostServices S R) (publishEvent : Text → Option Text → S → Bool × S)
    {t : R} (hpos : CFloat.zero < t) (ht : t < OrderedFloat.addTenth t) (worlds : ℕ → S) :
    let recovered i := isRecovered t (reading host (worlds i))
    let publishes := Publishes host publishEvent t worlds
    let feature := before host publishEvent t worlds
    (∀ i, publishes i ↔ isLow t (reading host (worlds i)) = true ∧
      ∀ j < i, (∀ k, j ≤ k → k < i → recovered k = false) → ¬ publishes j) ∧
    (∀ i, ¬ publishes i → calls host publishEvent t worlds i = []) ∧
    (∀ i j, i < j → publishes i → publishes j → ∃ k, i < k ∧ k < j ∧ recovered k = true) ∧
    ∀ i, (∀ v, reading host (worlds i) = some v →
        v ≤ CFloat.zero ∨ t ≤ v ∧ v < OrderedFloat.addTenth t) →
      feature (i + 1) = feature i := by
  have hdisjoint (i : ℕ) (h : isLow t (reading host (worlds i)) = true) :
      isRecovered t (reading host (worlds i)) = false := not_isRecovered_of_isLow ht h
  refine ⟨fun i => ?_, fun i hnot => ?_, fun i j hij hi hj => ?_, fun i hband => ?_⟩
  · rw [publishes_iff, Latch.fires_iff hdisjoint]
    refine and_congr_right (fun _ => forall₃_congr (fun j _ _ => ?_))
    rw [publishes_iff]
  · obtain ⟨-, -, v, -, h⟩ | ⟨-, h⟩ := published_cases host publishEvent
      (before host publishEvent t worlds i) (worlds i)
    · exact absurd ⟨_, h⟩ hnot
    · exact h
  · rw [publishes_iff] at hi hj
    exact Latch.reset_between hdisjoint hij hi hj
  · obtain ⟨hlow, hrecovered⟩ := not_isLow_not_isRecovered hpos ht hband
    exact before_succ_of_hold hlow hrecovered

end Runs

section Meter

local instance tenthsOfVolts : OrderedFloat ℤ where
  __ := (inferInstance : LinearOrder ℤ)
  zero := 0
  isPos v := 0 < v
  fixed d v := (if v < 0 then ['-'] else []) ++ decimal (v.natAbs / 10) ++
    '.' :: (decimal (v.natAbs % 10) ++ List.replicate (d - 1) '0')
  addTenth v := v + 1

def meter : HostServices (Option ℤ) ℤ where
  readBattery v percent w := ((w.isSome, w.getD v, percent), w)

theorem low_events_meter :
    let worlds (i : ℕ) : Option ℤ := some i
    let recovered i := isRecovered 36 (reading meter (worlds i))
    let publishes := Publishes meter (fun _ _ w => (true, w)) 36 worlds
    let feature := before meter (fun _ _ w => (true, w)) 36 worlds
    (∀ i, publishes i ↔ isLow 36 (reading meter (worlds i)) = true ∧
      ∀ j < i, (∀ k, j ≤ k → k < i → recovered k = false) → ¬ publishes j) ∧
    (∀ i, ¬ publishes i → calls meter (fun _ _ w => (true, w)) 36 worlds i = []) ∧
    (∀ i j, i < j → publishes i → publishes j → ∃ k, i < k ∧ k < j ∧ recovered k = true) ∧
    ∀ i, (∀ v, reading meter (worlds i) = some v →
        v ≤ CFloat.zero ∨ 36 ≤ v ∧ v < OrderedFloat.addTenth 36) →
      feature (i + 1) = feature i :=
  low_events meter (fun _ _ w => (true, w)) (by decide) (by decide) (fun i => some i)

end Meter

end BatteryFeature
end Mcrpc
