import Mcrpc.BatteryFeature
import Mcrpc.EventReading

/-!
# Low battery events on the wire

Runs of `BatteryFeature::loop` on a node that publishes. What the node sends is one line for each
time the voltage gets low, and the reader of the line learns the voltage.
-/

namespace Mcrpc

open OutboundBuilder

namespace BatteryFeature

section Run

variable {σ R : Type} [OrderedFloat R]

/-- The feature and the world before loop number `i`, when `elsewhere` is what becomes of the rest of
the world between the loops. -/
def run (host : HostServices (σ × List Published) R)
    (publishEvent : Text → Option Text → σ × List Published → Bool × (σ × List Published)) (t : R)
    (elsewhere : ℕ → σ → σ) (w : σ) : ℕ → BatteryFeature R × (σ × List Published)
  | 0 => ({ lowV := t }, (w, []))
  | i + 1 =>
    let (f, w) := run host publishEvent t elsewhere w i
    let (f, w) := loop host publishEvent f w
    (f, (elsewhere i w.1, w.2))

/-- The voltage gets low: it is low, and has been up again since it was low before. -/
def GetsLow (t : R) (readings : ℕ → Option R) (i : ℕ) : Prop :=
  isLow t (readings i) = true ∧
    ∀ j < i, isLow t (readings j) = true → ∃ k, j < k ∧ k < i ∧ isRecovered t (readings k) = true

def SaysLow {F : Type} (py : Python F) (v : R) (line : Text) : Prop :=
  ∃ e, py.parseEvent (some line) = some e ∧ e.name = "battery.low".toList ∧
    e.fields.entries = [("voltage".toList, CFloat.fixed 2 v)] ∧
    e.parameters = [("voltage".toList, py.coerceNumber (CFloat.fixed 2 v))]

theorem saysLow_eventBuffer {F : Type} (py : Python F) {v : R} (hclean : Clean (CFloat.fixed 2 v))
    (hlen : (CFloat.fixed 2 v).length ≤ 23) :
    SaysLow py v (McRpc.eventBuffer "battery.low".toList (some (lowKv v))).cstr := by
  have hhead : "voltage=".toList.length = 8 := rfl
  have hlength : ("voltage=".toList ++ CFloat.fixed 2 v).length ≤ 31 := by
    rw [List.length_append]
    omega
  have hwritable : ∀ f ∈ [("voltage".toList, CFloat.fixed 2 v)], Field.Writable f :=
    List.forall_mem_singleton.mpr ⟨rfl, hclean⟩
  have hkv : (some (lowKv v)).getD [] =
      join [' '] ([("voltage".toList, CFloat.fixed 2 v)].map Field.token) := by
    rw [Option.getD_some, lowKv, copyToken, List.take_of_length_le hlength, List.map_singleton,
      join_cons]
    exact (List.append_nil _).symm
  refine parseEvent_eventBuffer py (by decide) (clean_word (by decide)) hwritable
    (List.nodup_singleton _) hkv ?_
  have htake : (lowKv v).length ≤ 31 := List.length_take_le 31 _
  have hname : "battery.low".toList.length = 11 := rfl
  rw [Option.getD_some, hname]
  omega

section Publishing

variable {F H Φ : Type} (py : Python F) (m : McRpc H Φ) {cb : Callbacks σ}
  {host : HostServices (σ × List Published) R} (t : R)

/-- The step lemma: a loop sends the event of a voltage that is newly low, and nothing else. -/
theorem loop_sends (hbus : m.events.subs.count .engine = 1)
    (hcb : cb.publishEx.isSome ∨ cb.publish.isSome) (apps : ℕ → Text → Option Text → σ → σ)
    (hquiet : ∀ w, (host.readBattery CFloat.zero (-1) w).2.2 = w.2) (f : BatteryFeature R)
    (hprints : ∀ v : R, CFloat.zero < v → v < f.lowV →
      Clean (CFloat.fixed 2 v) ∧ (CFloat.fixed 2 v).length ≤ 23)
    (w : σ × List Published) :
    let sent := (loop host (m.publishEvent cb.recorded (silentApps apps) ∘ some) f w).2.2
    if isLow f.lowV (reading host w) ∧ f.lowLatched = false then
      ∃ c v, sent = w.2 ++ [c] ∧ reading host w = some v ∧ SaysLow py v c.text
    else sent = w.2 := by
  let publish := m.publishEvent cb.recorded (silentApps apps) ∘ some
  have hkeeps {f' : BatteryFeature R}
      (h : loop host publish f w = (f', afterReading host w)) :
      (loop host publish f w).2.2 = w.2 := by
    rw [h]
    exact hquiet w
  dsimp only
  rcases loop_cases host publish f w with
    ⟨hlow, hlatched, v, hreading, h⟩ | ⟨-, hlatched, h⟩ | ⟨hlow, -, h⟩ | ⟨hlow, -, h⟩
  · rw [if_pos ⟨hlow, hlatched⟩]
    have hvoltage := hlow
    rw [hreading] at hvoltage
    obtain ⟨hpos, hlt⟩ := of_decide_eq_true hvoltage
    obtain ⟨hclean, hlen⟩ := hprints v hpos hlt
    have hsent := m.publishEvent_recorded hcb apps (show "battery.low".toList ≠ [] by decide)
      (some (lowKv v)) (afterReading host w)
    rw [hbus, afterReading, hquiet] at hsent
    have hlog : (loop host publish f w).2.2 = w.2 ++ [McRpc.sentAs cb
        (McRpc.eventBuffer "battery.low".toList (some (lowKv v))).cstr 0] := by
      rw [h]
      exact hsent
    exact ⟨_, v, hlog, hreading, saysLow_eventBuffer py hclean hlen⟩
  · rw [if_neg (fun hopen => Bool.noConfusion (hlatched.symm.trans hopen.2))]
    exact hkeeps h
  · rw [if_neg (fun hopen => Bool.noConfusion (hlow.symm.trans hopen.1))]
    exact hkeeps h
  · rw [if_neg (fun hopen => Bool.noConfusion (hlow.symm.trans hopen.1))]
    exact hkeeps h

theorem run_fst (host : HostServices (σ × List Published) R)
    (publishEvent : Text → Option Text → σ × List Published → Bool × (σ × List Published)) (t : R)
    (elsewhere : ℕ → σ → σ) (w : σ) (i : ℕ) :
    (run host publishEvent t elsewhere w i).1 = before host publishEvent t
      (fun i => (run host publishEvent t elsewhere w i).2) i := by
  induction i with
  | zero => rfl
  | succ i ih =>
    rw [before, ← ih]
    rfl

/-- What the node sends in a run is one line for each time the voltage gets low, in order, and each
line says the voltage. -/
theorem run_saysLow (hbus : m.events.subs.count .engine = 1)
    (hcb : cb.publishEx.isSome ∨ cb.publish.isSome) (apps : ℕ → Text → Option Text → σ → σ)
    (hquiet : ∀ w, (host.readBattery CFloat.zero (-1) w).2.2 = w.2)
    (ht : t < OrderedFloat.addTenth t)
    (hprints : ∀ v : R, CFloat.zero < v → v < t →
      Clean (CFloat.fixed 2 v) ∧ (CFloat.fixed 2 v).length ≤ 23)
    (elsewhere : ℕ → σ → σ) (w : σ) (n : ℕ) :
    let s := run host (m.publishEvent cb.recorded (silentApps apps) ∘ some) t elsewhere w
    let readings i := reading host (s i).2
    ∃ times : List ℕ, times.Pairwise (· < ·) ∧
      (∀ i, i ∈ times ↔ i < n ∧ GetsLow t readings i) ∧
      List.Forall₂ (fun i c => ∃ v, readings i = some v ∧ SaysLow py v c.text) times (s n).2.2 := by
  intro s readings
  have hdisjoint (i : ℕ) (h : isLow t (readings i) = true) : isRecovered t (readings i) = false :=
    not_isRecovered_of_isLow ht h
  induction n with
  | zero =>
    refine ⟨[], List.Pairwise.nil, fun i => ?_, List.Forall₂.nil⟩
    exact iff_of_false List.not_mem_nil (fun h => Nat.not_lt_zero i h.1)
  | succ n ih =>
    obtain ⟨times, hsorted, hmem, hlines⟩ := ih
    have hfeature := run_fst host (m.publishEvent cb.recorded (silentApps apps) ∘ some) t elsewhere w n
    have hlowV : (s n).1.lowV = t := by rw [hfeature, before_lowV]
    have hlow : (isLow t (readings n) = true ∧ (s n).1.lowLatched = false) ↔
        GetsLow t readings n := by
      rw [hfeature, before_lowLatched]
      exact Latch.fires_iff_forall hdisjoint n
    have hstep := loop_sends py m hbus hcb apps hquiet (s n).1 (hlowV ▸ hprints) (s n).2
    dsimp only at hstep
    rw [hlowV] at hstep
    have hnext (i : ℕ) : i < n + 1 ∧ GetsLow t readings i ↔
        i ∈ times ∨ i = n ∧ GetsLow t readings n := by
      rw [hmem, Nat.lt_succ_iff_lt_or_eq, or_and_right]
      refine or_congr_right (and_congr_right (fun hi => ?_))
      rw [hi]
    by_cases hgets : GetsLow t readings n
    · rw [if_pos (hlow.mpr hgets)] at hstep
      obtain ⟨c, v, hsent, hreading, hsays⟩ := hstep
      refine ⟨times ++ [n], ?_, fun i => ?_, ?_⟩
      · refine List.pairwise_append.mpr ⟨hsorted, List.pairwise_singleton _ _, fun i hi j hj => ?_⟩
        rw [List.mem_singleton.mp hj]
        exact ((hmem i).mp hi).1
      · rw [hnext, List.mem_append, List.mem_singleton, and_iff_left hgets]
      · have hlog : (s (n + 1)).2.2 = (s n).2.2 ++ [c] := hsent
        rw [hlog]
        exact List.rel_append hlines (.cons ⟨v, hreading, hsays⟩ .nil)
    · rw [if_neg (fun h => hgets (hlow.mp h))] at hstep
      have hlog : (s (n + 1)).2.2 = (s n).2.2 := hstep
      refine ⟨times, hsorted, fun i => ?_, ?_⟩
      · rw [hnext, or_iff_left (fun h => hgets h.2)]
      · rw [hlog]
        exact hlines

end Publishing

end Run

section Meter

attribute [local instance] tenthsOfVolts

def wired : HostServices (ℤ × List Published) ℤ where
  readBattery _ percent w := ((true, w.1, percent), w)

def wiredCallbacks : Callbacks ℤ := { publish := some (fun _ w => (true, w)) }

theorem fixed_two_tenths {v : ℤ} (hpos : 0 < v) (hlt : v < 36) :
    Clean (CFloat.fixed 2 v) ∧ (CFloat.fixed 2 v).length ≤ 23 := by
  have htext : CFloat.fixed 2 v =
      decimal (v.natAbs / 10) ++ '.' :: (decimal (v.natAbs % 10) ++ ['0']) :=
    congrArg (· ++ _ ++ _) (if_neg (by omega))
  have hwhole := length_decimal_le_of_lt (show v.natAbs / 10 < 2 ^ 32 by omega)
  have htenth := length_decimal_le_of_lt (show v.natAbs % 10 < 2 ^ 32 by omega)
  have hdot : Clean ".".toList := clean_word (by decide)
  have hzero : Clean "0".toList := clean_word (by decide)
  rw [htext]
  refine ⟨(clean_decimal _).append (hdot.append ((clean_decimal _).append hzero)), ?_⟩
  simp only [List.length_append, List.length_cons, List.length_nil]
  omega

/-- The voltage gets low once in three loops, and the line says so. -/
theorem run_saysLow_wired :
    let s := run wired
      (listeningNode.publishEvent wiredCallbacks.recorded (silentApps (fun _ _ _ w => w)) ∘ some) 36
      (fun i _ => if i = 0 then 35 else 34) 40
    let readings i := reading wired (s i).2
    ∃ times : List ℕ, times.Pairwise (· < ·) ∧
      (∀ i, i ∈ times ↔ i < 3 ∧ GetsLow 36 readings i) ∧
      List.Forall₂ (fun i c => ∃ v, readings i = some v ∧ SaysLow Python.ascii v c.text) times
        (s 3).2.2 :=
  run_saysLow Python.ascii listeningNode 36 rfl (.inr rfl) (fun _ _ _ w => w) (fun _ => rfl) (by decide)
    (fun _ => fixed_two_tenths) (fun i _ => if i = 0 then 35 else 34) 40 3

end Meter

end BatteryFeature
end Mcrpc
