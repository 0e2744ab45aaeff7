import Mcrpc.FieldViews

/-!
# What the battery view shows

The view of `parse_battery`. The key `value` means what the word of the line says, and stands before
the keys of its own entry; on any other line it is known and has no entry.
-/

namespace Mcrpc

open Fallback

section Entries

variable {V : Type} {entries : List (NamedEntry V)} {p : Text → Option V} {key : Text}
  {a b : Option V}

theorem named_iff_of_twice {y : Option V} (h : valuesOf entries key = [y, y]) :
    Named entries p key ↔ ∀ v, p key = some v → y = some v := by
  refine forall₂_congr (fun v _ => ?_)
  rw [h, List.mem_pair, or_self]
  exact eq_comm

theorem named_of_or_first {rest : List (Option V)}
    (h : valuesOf entries key = (p key).or b :: rest) : Named entries p key := by
  intro v hv
  rw [h, hv, Option.some_or]
  exact List.mem_cons_self

theorem named_iff_of_twice_left
    (h : valuesOf entries key = [a.or ((p key).or b), a.or ((p key).or b)]) :
    Named entries p key ↔ ∀ v, p key = some v → ∀ x, a = some x → x = v := by
  refine (named_iff_of_twice h).trans (forall₂_congr (fun v hv => ?_))
  rw [hv, Option.some_or, or_eq_choose, choose_right_iff]
  simp

theorem named_iff_of_twice_right
    (h : valuesOf entries key = [a.or (b.or (p key)), a.or (b.or (p key))]) :
    Named entries p key ↔ ∀ v, p key = some v → ∀ x, a.or b = some x → x = v := by
  refine (named_iff_of_twice h).trans (forall₂_congr (fun v hv => ?_))
  rw [hv, ← Option.or_assoc, or_eq_choose (a.or b), choose_right_iff]
  simp

end Entries

variable {F : Type}

/-- The key `value`, where the word of the line gives it a meaning. -/
def valueKey (kind entry : ResponseKind) : List Text :=
  if kind = entry then ["value".toList] else []

def BatteryFields.named (kind : ResponseKind) (v : BatteryFields F) :
    List (NamedEntry (PyValue F)) :=
  [⟨valueKey kind .battery ++ ["percentage".toList, "battery".toList], v.percentage⟩,
    ⟨valueKey kind .battery ++ ["percentage".toList, "battery".toList], v.battery⟩,
    ⟨valueKey kind .voltage ++ ["voltage".toList], v.voltage⟩,
    ⟨valueKey kind .charging ++ ["charging".toList], v.charging⟩,
    ⟨["temp".toList, "temperature".toList], v.temperature⟩, ⟨["health".toList], v.health⟩,
    ⟨["cycles".toList], v.cycles⟩]

/-- Every pair of the line is in an entry or in `extra`. -/
def BatteryFields.ShowsAll (kind : ResponseKind) (v : BatteryFields F) : Prop :=
  ∀ e ∈ v.parameters, e ∈ v.extra ∨ some e.2 ∈ valuesOf (v.named kind) e.1

/-- The value that stands before the others of the entry. -/
def valueOf (p : Text → Option (PyValue F)) (kind entry : ResponseKind) : Option (PyValue F) :=
  if kind = entry then p "value".toList else none

/-- What the pairs `p` of a line of this kind have to be like: `value` has a meaning, and hides no
other value of its entry; nor does `percentage` hide `battery`, or `temp` `temperature`. -/
structure ShownByBattery (kind : ResponseKind) (p : Text → Option (PyValue F)) : Prop where
  value : p "value".toList = none ∨ kind ∈ [.battery, .voltage, .charging]
  percentage : ∀ v, p "percentage".toList = some v → ∀ x, valueOf p kind .battery = some x → x = v
  battery : ∀ v, p "battery".toList = some v →
    ∀ x, (valueOf p kind .battery).or (p "percentage".toList) = some x → x = v
  voltage : ∀ v, p "voltage".toList = some v → ∀ x, valueOf p kind .voltage = some x → x = v
  charging : ∀ v, p "charging".toList = some v → ∀ x, valueOf p kind .charging = some x → x = v
  temperature : ∀ v, p "temperature".toList = some v → ∀ x, p "temp".toList = some x → x = v

/-- The values of the keys that a word gives a meaning or that stand in a chain. -/
theorem valuesOf_battery (r : ParsedResponse F) :
    let p := getParam r.parameters
    let entries := (Python.batteryFieldsOf r).named r.kind
    let percentage := (valueOf p r.kind .battery).or
      ((p "percentage".toList).or (p "battery".toList))
    valuesOf entries "percentage".toList = [percentage, percentage] ∧
      valuesOf entries "battery".toList = [percentage, percentage] ∧
      valuesOf entries "voltage".toList =
        [(valueOf p r.kind .voltage).or (p "voltage".toList)] ∧
      valuesOf entries "charging".toList =
        [(valueOf p r.kind .charging).or (p "charging".toList)] ∧
      valuesOf entries "temp".toList = [(p "temp".toList).or (p "temperature".toList)] ∧
      valuesOf entries "temperature".toList = [(p "temp".toList).or (p "temperature".toList)] ∧
      valuesOf entries "health".toList = [p "health".toList] ∧
      valuesOf entries "cycles".toList = [p "cycles".toList] := by
  obtain ⟨kind⟩ := r
  cases kind <;> exact ⟨rfl, rfl, rfl, rfl, rfl, rfl, rfl, rfl⟩

/-- A word without a value has `value` among the known keys and in no entry. -/
theorem valuesOf_value (r : ParsedResponse F) (h : r.kind ∉ [.battery, .voltage, .charging]) :
    valuesOf ((Python.batteryFieldsOf r).named r.kind) "value".toList = [] := by
  obtain ⟨kind⟩ := r
  cases kind
  case battery => exact absurd (by simp) h
  case voltage => exact absurd (by simp) h
  case charging => exact absurd (by simp) h
  all_goals rfl

theorem named_value (r : ParsedResponse F) :
    Named ((Python.batteryFieldsOf r).named r.kind) (getParam r.parameters) "value".toList ↔
      getParam r.parameters "value".toList = none ∨
        r.kind ∈ [.battery, .voltage, .charging] := by
  by_cases hkind : r.kind ∈ [.battery, .voltage, .charging]
  · refine iff_of_true ?_ (.inr hkind)
    obtain ⟨kind⟩ := r
    simp only [List.mem_cons, List.not_mem_nil, or_false] at hkind
    rcases hkind with rfl | rfl | rfl <;> exact named_of_or_first rfl
  · rw [named_iff_of_nil (valuesOf_value r hkind), or_iff_left hkind]

theorem BatteryFields.showsAll_iff (r : ParsedResponse F) (h : (r.parameters.map Prod.fst).Nodup) :
    (Python.batteryFieldsOf r).ShowsAll r.kind ↔ ShownByBattery r.kind (getParam r.parameters) := by
  obtain ⟨hpercentage, hbattery, hvoltage, hcharging, htemp, htemperature, hhealth, hcycles⟩ :=
    valuesOf_battery r
  have hpercentage := named_iff_of_twice_left hpercentage
  have hbattery := named_iff_of_twice_right hbattery
  have hvoltage := named_iff_of_or_right hvoltage
  have hcharging := named_iff_of_or_right hcharging
  have htemp := named_of_or_left htemp
  have htemperature := named_iff_of_or_right htemperature
  have hvalue := named_value r
  refine (shows_all_iff h batteryWireKeys _).trans ⟨fun hknown => ?_, fun hp => ?_⟩
  · exact ⟨hvalue.mp (hknown _ (by decide)), hpercentage.mp (hknown _ (by decide)),
      hbattery.mp (hknown _ (by decide)), hvoltage.mp (hknown _ (by decide)),
      hcharging.mp (hknown _ (by decide)), htemperature.mp (hknown _ (by decide))⟩
  · simp only [batteryWireKeys, List.forall_mem_cons]
    exact ⟨hvalue.mpr hp.value, hvoltage.mpr hp.voltage, hpercentage.mpr hp.percentage,
      hbattery.mpr hp.battery, hcharging.mpr hp.charging, htemp, htemperature.mpr hp.temperature,
      named_of_mem (hhealth ▸ List.mem_singleton_self _),
      named_of_mem (hcycles ▸ List.mem_singleton_self _), fun _ hnil => absurd hnil List.not_mem_nil⟩

section View

variable {py : Python F}

/-- The view of a line shows every pair exactly when a pair `value` belongs to its word and no value
is hidden by another one of its entry. -/
theorem batteryView_showsAll_iff {line : Option Text} {r : ParsedResponse F}
    (hr : py.parseResponse line = .ok r) :
    ∃ view, py.parseBattery line = .ok view ∧
      (view.ShowsAll r.kind ↔ ShownByBattery r.kind (getParam r.parameters)) := by
  refine ⟨Python.batteryFieldsOf r, ?_, BatteryFields.showsAll_iff r (nodup_parseResponse hr)⟩
  rw [Python.parseBattery, hr]
  rfl

theorem batteryView_showsAll_iff_value : ∃ r : ParsedResponse ℚ,
    ∃ view, Python.ascii.parseBattery (some "battery value=88".toList) = .ok view ∧
      (view.ShowsAll r.kind ↔ ShownByBattery r.kind (getParam r.parameters)) :=
  ⟨_, batteryView_showsAll_iff rfl⟩

end View
end Mcrpc
