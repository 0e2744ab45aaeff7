import Mcrpc.FeatureManager
import Mcrpc.Lib.BoundedKeys

/-!
# Runs of registrations

The three tables of the firmware over any sequence of registrations. Each looks at its length before
it looks for the name, so a name of a full table cannot be registered again; in every run without
such a call the tables are bounded sets of names without regard to case, and the command table is a
map in which the last registration counts.
-/

namespace Mcrpc

open BoundedKeys

namespace CommandRegistry

variable {H : Type*}

structure Registration (H : Type*) where
  name : Text
  handler : H
  help : Option Text := none

def register (r : CommandRegistry H) (c : Registration H) : CommandRegistry H × Bool :=
  ((r.registerCommand c.name c.handler c.help).2, (r.registerCommand c.name c.handler c.help).1)

def names (r : CommandRegistry H) : List Text := r.entries.map (fun e => lower e.name)

theorem any_ieq_iff {es : List (CommandEntry H)} {name : Text} :
    es.any (fun e => ieq e.name name) = true ↔ lower name ∈ es.map (fun e => lower e.name) := by
  rw [List.any_eq_true, List.mem_map]
  exact exists_congr (fun e => and_congr_right (fun _ => ieq_iff e.name name))

theorem names_replaceFirst (name : Text) (handler : H) (help : Option Text)
    (es : List (CommandEntry H)) : (replaceFirst name handler help es).map (fun e => lower e.name) =
      es.map (fun e => lower e.name) := by
  induction es with
  | nil => rfl
  | cons e es ih =>
    rw [replaceFirst]
    split
    · rfl
    · rw [List.map_cons, ih, List.map_cons]

theorem tabulates : Tabulates (register (H := H)) names (fun c => lower c.name) maxCommands
    (fun _ => True) (fun _ => True) where
  commutes r c _ _ := by
    have hlen : r.names.length = r.entries.length := List.length_map _
    rw [register, registerCommand, BoundedKeys.register, hlen]
    split
    · rfl
    · split
      · next hany =>
        have hmem : lower c.name ∈ r.names := any_ieq_iff.mp hany
        rw [if_pos hmem]
        exact congrArg (·, true) (names_replaceFirst c.name c.handler c.help r.entries)
      · next hany =>
        have hmem : lower c.name ∉ r.names := fun hmem => hany (any_ieq_iff.mpr hmem)
        rw [if_neg hmem]
        exact congrArg (·, true) List.map_append
  invariant _ _ _ _ := trivial

def content (e : CommandEntry H) : H × Option Text := (e.handler, e.help)

theorem find_cons (e : CommandEntry H) (es : List (CommandEntry H)) (n : Text) :
    (e :: es).find? (fun e => ieq e.name n) =
      if lower e.name = lower n then some e else es.find? (fun e => ieq e.name n) := by
  rw [List.find?_cons]
  by_cases h : lower e.name = lower n
  · rw [(ieq_iff e.name n).mpr h, if_pos h]
  · rw [Bool.eq_false_iff.mpr (fun hieq => h ((ieq_iff e.name n).mp hieq)), if_neg h]

theorem find_replaceFirst {name : Text} (handler : H) (help : Option Text)
    {es : List (CommandEntry H)} (h : lower name ∈ es.map (fun e => lower e.name)) (n : Text) :
    ((replaceFirst name handler help es).find? (fun e => ieq e.name n)).map content =
      if lower n = lower name then some (handler, help)
      else (es.find? (fun e => ieq e.name n)).map content := by
  induction es with
  | nil => cases h
  | cons e es ih =>
    rw [replaceFirst, find_cons]
    by_cases hname : lower e.name = lower name
    · rw [if_pos ((ieq_iff _ _).mpr hname), find_cons, hname]
      by_cases hn : lower n = lower name
      · rw [if_pos hn.symm, if_pos hn]
        rfl
      · rw [if_neg (Ne.symm hn), if_neg hn, if_neg (Ne.symm hn)]
    · rw [if_neg (fun hieq => hname ((ieq_iff _ _).mp hieq)), find_cons]
      by_cases hn : lower e.name = lower n
      · rw [if_pos hn, if_neg (fun heq => hname (hn.trans heq)), if_pos hn]
      · rw [if_neg hn, if_neg hn]
        apply ih
        rw [List.map_cons, List.mem_cons] at h
        exact h.resolve_left (fun heq => hname heq.symm)

/-- A registration that has room is found under its name in any letter case, and changes nothing
else. -/
theorem find_register {r : CommandRegistry H} (hroom : r.entries.length < maxCommands)
    (c : Registration H) (n : Text) :
    ((r.register c).1.find n).map content =
      if lower n = lower c.name then some (c.handler, c.help)
      else (r.find n).map content := by
  rw [register, registerCommand, dif_neg (Nat.not_le.mpr hroom)]
  split
  · next hany => exact find_replaceFirst c.handler c.help (any_ieq_iff.mp hany) n
  · next hany =>
    have hnone {n : Text} (hn : lower n = lower c.name) : r.find n = none := by
      rw [find, List.find?_eq_none]
      intro e he hieq
      apply hany
      rw [any_ieq_iff, ← hn, ← (ieq_iff _ _).mp hieq]
      exact List.mem_map_of_mem he
    rw [find, List.find?_append, ← find, List.find?_singleton]
    by_cases hn : lower n = lower c.name
    · rw [hnone hn, if_pos hn, if_pos ((ieq_iff _ _).mpr hn.symm)]
      rfl
    · rw [if_neg hn, if_neg (fun hieq => hn ((ieq_iff _ _).mp hieq).symm), Option.or_none]

theorem register_of_full {r : CommandRegistry H} (hfull : maxCommands ≤ r.entries.length)
    (c : Registration H) : r.register c = (r, false) := by
  rw [register, registerCommand, dif_pos hfull]

theorem lower_mem_names {r : CommandRegistry H} {n : Text} {e : CommandEntry H}
    (h : r.find n = some e) : lower n ∈ r.names := by
  rw [find] at h
  have hieq := List.find?_some h
  rw [← (ieq_iff _ _).mp hieq]
  exact List.mem_map_of_mem (List.mem_of_find?_eq_some h)

theorem exists_find {r : CommandRegistry H} {n : Text} (h : lower n ∈ r.names) :
    ∃ e, r.find n = some e := by
  obtain ⟨e, he, hsame⟩ := List.mem_map.mp h
  apply Option.isSome_iff_exists.mp
  rw [find, List.find?_isSome]
  exact ⟨e, he, (ieq_iff _ _).mpr hsame⟩

def lastUnder (n : Text) (calls : List (Registration H)) : Option (Registration H) :=
  calls.reverse.find? (fun c => lower c.name = lower n)

theorem lastUnder_concat (n : Text) (calls : List (Registration H)) (c : Registration H) :
    lastUnder n (calls ++ [c]) = if lower n = lower c.name then some c else lastUnder n calls := by
  rw [lastUnder, List.reverse_append, List.reverse_singleton, List.singleton_append,
    List.find?_cons]
  by_cases h : lower n = lower c.name
  · rw [if_pos h, h, decide_eq_true rfl]
  · rw [if_neg h, decide_eq_false (Ne.symm h), lastUnder]

/-- Every entry has what the last registration under its name set. -/
def LastWins (calls : List (Registration H)) (r : CommandRegistry H) : Prop :=
  ∀ n e, r.find n = some e →
    (lastUnder n calls).map (fun c => (c.handler, c.help)) = some (e.handler, e.help)

/-- No name of a full table is registered. -/
def NoneAgain (r : CommandRegistry H) (c : Registration H) : Prop :=
  lower c.name ∈ r.names → r.names.length < maxCommands

theorem LastWins.register {calls : List (Registration H)} {r : CommandRegistry H}
    (h : LastWins calls r) {c : Registration H} (hc : NoneAgain r c) :
    LastWins (calls ++ [c]) (r.register c).1 := by
  intro n e hfind
  rw [lastUnder_concat]
  by_cases hroom : r.entries.length < maxCommands
  · have hcontent := find_register hroom c n
    rw [hfind, Option.map_some] at hcontent
    by_cases hn : lower n = lower c.name
    · rw [if_pos hn] at hcontent ⊢
      exact hcontent.symm
    · rw [if_neg hn] at hcontent ⊢
      obtain ⟨e', hfind', he⟩ := Option.map_eq_some_iff.mp hcontent.symm
      rw [h n e' hfind']
      exact congrArg some he
  · rw [register_of_full (Nat.not_lt.mp hroom)] at hfind
    have hlen : r.names.length = r.entries.length := List.length_map _
    have hn : lower n ≠ lower c.name := by
      intro hn
      have hlt := hc (hn ▸ lower_mem_names hfind)
      omega
    rw [if_neg hn]
    exact h n e hfind

/-- A command table is a bounded map: a bounded set of names in which a name, in any letter case,
has the handler of the last registration under it. -/
structure BoundedMap (calls : List (Registration H)) : Prop where
  set : BoundedSet register names (fun c => lower c.name) maxCommands empty calls
  last : ∀ done, done <+: calls → ∀ n, lower n ∈ (finalState register empty done).names →
    ∃ e c, (finalState register empty done).find n = some e ∧ lastUnder n done = some c ∧
      e.handler = c.handler ∧ e.help = c.help

theorem boundedMap {calls : List (Registration H)}
    (h : EveryStep register NoneAgain empty calls) : BoundedMap calls where
  set := by
    apply tabulates.boundedSet trivial rfl
    exact h.imp_of_invariant (I := fun _ => True) (fun _ _ _ hc => ⟨⟨trivial, hc⟩, trivial⟩) trivial
  last done hdone n hn := by
    have hnone : LastWins [] (empty : CommandRegistry H) := by
      intro n e hfind
      cases hfind
    have hlast : LastWins done (finalState register empty done) :=
      h.invariant (J := LastWins) hnone (fun _ _ _ hs hc => hs.register hc) done hdone
    obtain ⟨e, hfind⟩ := exists_find hn
    obtain ⟨c, hc, hcontent⟩ := Option.map_eq_some_iff.mp (hlast n e hfind)
    obtain ⟨hhandler, hhelp⟩ := Prod.mk.inj hcontent
    exact ⟨e, c, hfind, hc, hhandler.symm, hhelp.symm⟩

end CommandRegistry

namespace CapabilityRegistry

def register (r : CapabilityRegistry) (name : Text) : CapabilityRegistry × Bool :=
  ((r.registerCapability name).2, (r.registerCapability name).1)

def keys (r : CapabilityRegistry) : List Text := r.names.map lower

theorem tabulates :
    Tabulates register keys lower maxCaps (fun _ => True) (fun name => name ≠ []) where
  commutes r name _ hne := by
    have hlen : r.keys.length = r.names.length := List.length_map _
    have hany : r.names.any (fun n => ieq n name) = true ↔ lower name ∈ r.keys := by
      rw [List.any_eq_true, keys, List.mem_map]
      exact exists_congr (fun n => and_congr_right (fun _ => ieq_iff n name))
    rw [register, registerCapability, if_neg hne, BoundedKeys.register, hlen]
    split
    · rfl
    · split
      · next hmem => rw [if_pos (hany.mp hmem)]
      · next hmem =>
        rw [if_neg (fun h => hmem (hany.mpr h))]
        exact congrArg (·, true) List.map_append
  invariant _ _ _ _ := trivial

/-- The name is not empty, and it is no name of a full table. -/
def NoneAgain (r : CapabilityRegistry) (name : Text) : Prop :=
  name ≠ [] ∧ (lower name ∈ r.keys → r.keys.length < maxCaps)

end CapabilityRegistry

namespace FeatureManager

variable {Φ : Type*} [DecidableEq Φ]

/-- `add` of a feature, not of a null pointer. -/
def addFeature (m : FeatureManager Φ) (f : Φ) : FeatureManager Φ × Bool :=
  ((m.add (some f)).2, (m.add (some f)).1)

theorem tabulates : Tabulates addFeature (features (Φ := Φ)) id maxFeatures
    (fun m => m.started = false) (fun _ => True) where
  commutes m f hnew _ := by
    rw [addFeature, add, hnew, BoundedKeys.register, if_neg Bool.false_ne_true, id]
    split
    · rfl
    · split
      · rfl
      · rfl
  invariant m f hnew _ := by
    rw [addFeature, add, hnew, if_neg Bool.false_ne_true]
    split
    · exact hnew
    · split
      · exact hnew
      · rfl

/-- No feature of a full manager is added. -/
def NoneAgain (m : FeatureManager Φ) (f : Φ) : Prop :=
  f ∈ m.features → m.features.length < maxFeatures

end FeatureManager

/-- In runs that bring nothing a full table holds, the command table is a bounded map, and the
capabilities and the features of a manager that has not started are bounded sets. -/
theorem registries_bounded {H Φ : Type*} [DecidableEq Φ]
    {commands : List (CommandRegistry.Registration H)}
    (hcommands : EveryStep CommandRegistry.register CommandRegistry.NoneAgain .empty commands)
    {capabilities : List Text}
    (hcapabilities : EveryStep CapabilityRegistry.register CapabilityRegistry.NoneAgain .empty
      capabilities)
    {features : List Φ}
    (hfeatures : EveryStep FeatureManager.addFeature FeatureManager.NoneAgain .empty features) :
    CommandRegistry.BoundedMap commands ∧
    BoundedSet CapabilityRegistry.register CapabilityRegistry.keys lower maxCaps .empty
      capabilities ∧
    BoundedSet FeatureManager.addFeature FeatureManager.features id maxFeatures .empty
      features := by
  refine ⟨CommandRegistry.boundedMap hcommands, ?_, ?_⟩
  · exact CapabilityRegistry.tabulates.boundedSet trivial rfl hcapabilities
  · apply FeatureManager.tabulates.boundedSet rfl rfl
    exact hfeatures.imp_of_invariant (I := fun _ => True)
      (fun _ _ _ hc => ⟨⟨trivial, hc⟩, trivial⟩) trivial

def pingTwice : List (CommandRegistry.Registration ℕ) :=
  [⟨"ping".toList, 0, none⟩, ⟨"echo".toList, 1, none⟩, ⟨"PING".toList, 2, none⟩]

theorem registries_bounded_ping : CommandRegistry.BoundedMap pingTwice ∧
    BoundedSet CapabilityRegistry.register CapabilityRegistry.keys lower maxCaps .empty
      ["gps".toList, "GPS".toList] ∧
    BoundedSet FeatureManager.addFeature FeatureManager.features id maxFeatures .empty
      [0, 1, 0] := by
  have hcommands : EveryStep CommandRegistry.register CommandRegistry.NoneAgain .empty pingTwice :=
    ⟨fun _ => by decide, fun _ => by decide, fun _ => by decide, trivial⟩
  have hcapabilities : EveryStep CapabilityRegistry.register CapabilityRegistry.NoneAgain .empty
      ["gps".toList, "GPS".toList] :=
    ⟨⟨by decide, fun _ => by decide⟩, ⟨by decide, fun _ => by decide⟩, trivial⟩
  have hfeatures : EveryStep FeatureManager.addFeature FeatureManager.NoneAgain .empty [0, 1, 0] :=
    ⟨fun _ => by decide, fun _ => by decide, fun _ => by decide, trivial⟩
  exact registries_bounded hcommands hcapabilities hfeatures

def manyNames (count : ℕ) : List Text :=
  (List.range count).map (fun i => List.replicate (i + 1) 'c')

def fullCommands : CommandRegistry ℕ :=
  finalState CommandRegistry.register .empty ((manyNames 48).map (fun name => ⟨name, 0, none⟩))

def fullCapabilities : CapabilityRegistry :=
  finalState CapabilityRegistry.register .empty (manyNames 24)

def fullFeatures : FeatureManager ℕ :=
  finalState FeatureManager.addFeature .empty (List.range 16)

/-- A full table refuses the names it holds, and keeps the old handler. -/
theorem full_refuses_present :
    ((fullCommands.find "C".toList).isSome = true ∧
      (fullCommands.register ⟨"C".toList, 1, none⟩).2 = false ∧
      ((fullCommands.register ⟨"C".toList, 1, none⟩).1.find "c".toList).map CommandEntry.handler =
        some 0) ∧
    (fullCapabilities.names.head? = some "c".toList ∧
      (fullCapabilities.register "c".toList).2 = false) ∧
    (fullFeatures.features.head? = some 0 ∧ (fullFeatures.addFeature 0).2 = false) := by
  decide +kernel

end Mcrpc
