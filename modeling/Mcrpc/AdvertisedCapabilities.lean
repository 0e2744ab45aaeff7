import Mcrpc.DiscoveryRoundTrip
import Mathlib.Algebra.Order.BigOperators.Group.List
import Mathlib.Algebra.Order.Group.Nat
import Mathlib.Algebra.GroupWithZero.Nat

/-!
# The advertised capabilities

The value of `caps=` against the names the registry accepted. A name is cut to its token of 31
bytes, a list that does not fit its array of 96 bytes is left out, and a builder cuts what is left
to 71 bytes without a word. The list is the canonical one of all names exactly when no name and no
value is cut, or it is left out.
-/

namespace Mcrpc

open Scan

namespace CapabilityRegistry

/-- A registry with the names it accepted, each a C string. -/
inductive Registered : List Text → CapabilityRegistry → Prop
  | empty : Registered [] empty
  | register {names : List Text} {r r' : CapabilityRegistry} {name : Text} (h : Registered names r)
      (hnul : nul ∉ name) (hadd : r.registerCapability name = (true, r')) :
      Registered (names ++ [name]) r'
  | refuse {names : List Text} {r r' : CapabilityRegistry} {name : Text} (h : Registered names r)
      (hadd : r.registerCapability name = (false, r')) : Registered names r'

theorem registerCapability_cases {r r' : CapabilityRegistry} {name : Text} {ok : Bool}
    (h : r.registerCapability name = (ok, r')) :
    (ok = false ∧ r' = r) ∨ (ok = true ∧ r' = r ∧ ∃ n ∈ r.names, lower n = lower name) ∨
      (ok = true ∧ name ≠ [] ∧ r'.names = r.names ++ [name]) := by
  rw [registerCapability] at h
  split at h
  · exact .inl ⟨(Prod.mk.inj h).1.symm, (Prod.mk.inj h).2.symm⟩
  · next hne =>
    split at h
    · exact .inl ⟨(Prod.mk.inj h).1.symm, (Prod.mk.inj h).2.symm⟩
    · split at h
      · next hdup =>
        obtain ⟨n, hn, hsame⟩ := List.any_eq_true.mp hdup
        exact .inr (.inl ⟨(Prod.mk.inj h).1.symm, (Prod.mk.inj h).2.symm, n, hn,
          (ieq_iff n name).mp hsame⟩)
      · exact .inr (.inr ⟨(Prod.mk.inj h).1.symm, hne, by rw [← (Prod.mk.inj h).2]⟩)

namespace Registered

variable {names : List Text} {r : CapabilityRegistry}

theorem nonempty_nul (h : Registered names r) : ∀ n ∈ r.names, n ≠ [] ∧ nul ∉ n := by
  induction h with
  | empty => exact fun n hn => absurd hn List.not_mem_nil
  | register _ hnul hadd ih =>
    rcases registerCapability_cases hadd with ⟨-, rfl⟩ | ⟨-, rfl, -⟩ | ⟨-, hne, hnames⟩
    · exact ih
    · exact ih
    · rw [hnames]
      exact List.forall_mem_append.mpr ⟨ih, List.forall_mem_singleton.mpr ⟨hne, hnul⟩⟩
  | refuse _ hadd ih =>
    rcases registerCapability_cases hadd with ⟨-, rfl⟩ | ⟨hok, -⟩ | ⟨hok, -⟩
    · exact ih
    · cases hok
    · cases hok

theorem mem_lower_iff (h : Registered names r) (t : Text) :
    t ∈ r.names.map lower ↔ t ∈ names.map lower := by
  induction h with
  | empty => exact Iff.rfl
  | @register names r r' name _ _ hadd ih =>
    rw [List.map_append, List.mem_append, ← ih]
    rcases registerCapability_cases hadd with ⟨hok, -⟩ | ⟨-, rfl, n, hn, hsame⟩ | ⟨-, -, hnames⟩
    · cases hok
    · refine ⟨.inl, fun ht => ht.elim id (fun hlast => ?_)⟩
      rw [List.map_singleton, List.mem_singleton] at hlast
      rw [hlast, ← hsame]
      exact List.mem_map_of_mem hn
    · rw [hnames, List.map_append, List.mem_append]
  | refuse _ hadd ih =>
    rcases registerCapability_cases hadd with ⟨-, rfl⟩ | ⟨hok, -⟩ | ⟨hok, -⟩
    · exact ih
    · cases hok
    · cases hok

end Registered
end CapabilityRegistry

/-! ### Lists of names up to case -/

section SameNames

variable {names names' : List Text} (h : ∀ t, t ∈ names.map lower ↔ t ∈ names'.map lower)

include h

theorem canonicalNames_congr : canonicalNames names = canonicalNames names' :=
  eq_sortedSet (pairwise_sortedSet _) (nodup_sortedSet _)
    (fun t => mem_sortedSet.trans (h t))

theorem mem_lower_cut_congr (t : Text) :
    t ∈ (names.map (copyToken csvToken)).map lower ↔
      t ∈ (names'.map (copyToken csvToken)).map lower := by
  have hcut (names : List Text) : (names.map (copyToken csvToken)).map lower =
      (names.map lower).map (copyToken csvToken) := by
    rw [List.map_map, List.map_map]
    exact List.map_congr_left (fun n _ => List.map_take)
  rw [hcut, hcut, List.mem_map, List.mem_map]
  exact exists_congr (fun u => and_congr_left (fun _ => h u))

theorem eq_nil_congr : names = [] ↔ names' = [] := by
  have hnil (names : List Text) : names = [] ↔ ∀ t, t ∉ names.map lower := by
    rw [← List.eq_nil_iff_forall_not_mem, List.map_eq_nil_iff]
  rw [hnil, hnil]
  exact forall_congr' (fun t => not_congr (h t))

end SameNames

/-! ### The length of the list -/

theorem length_join {ts : List Text} (h : ts ≠ []) :
    (join [','] ts).length + 1 = (ts.map (fun t => t.length + 1)).sum := by
  cases ts with
  | nil => exact absurd rfl h
  | cons t ts =>
    rw [join_cons, List.length_append, List.length_flatMap, List.map_cons, List.sum_cons]
    change t.length + (ts.map (fun t => t.length + 1)).sum + 1 = _
    omega

theorem sum_le_of_subset {xs ys : List Text} (hnodup : xs.Nodup) (hsub : xs ⊆ ys)
    (size : Text → ℕ) : (xs.map size).sum ≤ (ys.map size).sum := by
  obtain ⟨zs, hperm, hzs⟩ := List.subperm_of_subset hnodup hsub
  calc (xs.map size).sum = (zs.map size).sum := ((hperm.map size).sum_eq).symm
    _ ≤ (ys.map size).sum := (hzs.map size).sum_le_sum (fun _ _ => Nat.zero_le _)

/-- The list of the cut names is shorter when a name is cut, also where two names become one. -/
theorem length_join_cut_lt {names : List Text} (h : ∃ n ∈ names, csvToken ≤ n.length) :
    (join [','] (canonicalNames (names.map (copyToken csvToken)))).length <
      (join [','] (canonicalNames names)).length := by
  obtain ⟨n, hn, hlong⟩ := h
  have hmem : lower n ∈ canonicalNames names := mem_canonicalNames.mpr ⟨n, hn, rfl⟩
  have hcut : lower (copyToken csvToken n) ∈ canonicalNames (names.map (copyToken csvToken)) :=
    mem_canonicalNames.mpr ⟨_, List.mem_map_of_mem hn, rfl⟩
  have hsub : canonicalNames (names.map (copyToken csvToken)) ⊆
      (canonicalNames names).map (copyToken csvToken) := by
    intro t ht
    obtain ⟨u, hu, rfl⟩ := mem_canonicalNames.mp ht
    obtain ⟨m, hm, rfl⟩ := List.mem_map.mp hu
    exact List.mem_map.mpr ⟨lower m, mem_canonicalNames.mpr ⟨m, hm, rfl⟩, List.map_take.symm⟩
  have hsum : ((canonicalNames names).map (fun t => (copyToken csvToken t).length + 1)).sum <
      ((canonicalNames names).map (fun t => t.length + 1)).sum := by
    refine List.sum_lt_sum _ _ (fun t _ => ?_) ⟨lower n, hmem, ?_⟩
    · rw [copyToken, List.length_take]
      omega
    · rw [copyToken, List.length_take, length_lower]
      have hsize : csvToken = 32 := rfl
      omega
  have hle := sum_le_of_subset (nodup_sortedSet _) hsub (fun t => t.length + 1)
  rw [List.map_map (l := canonicalNames names)] at hle
  have hlen := calc
    (join [','] (canonicalNames (names.map (copyToken csvToken)))).length + 1
      = _ := length_join (List.ne_nil_of_mem hcut)
    _ ≤ _ := hle
    _ < _ := hsum
    _ = (join [','] (canonicalNames names)).length + 1 :=
      (length_join (List.ne_nil_of_mem hmem)).symm
  exact Nat.lt_of_succ_lt_succ hlen

/-! ### The value of `caps=` -/

/-- Whatever value of `caps=` there is, it is the canonical list of the names. -/
def Advertises (names : List Text) (fields : List Field) : Prop :=
  ∀ f ∈ fields, f.1 = "caps".toList → f.2 = join [','] (canonicalNames names)

/-- The value before the builders cut it. -/
theorem CapabilityRegistry.Registered.capsCsv_eq {names : List Text} {r : CapabilityRegistry}
    (h : Registered names r) : capsCsv r =
      if names ≠ [] ∧
          (join [','] (canonicalNames (names.map (copyToken csvToken)))).length < capsCsvSize
        then some (join [','] (canonicalNames (names.map (copyToken csvToken)))) else none := by
  have hcut := canonicalNames_congr (mem_lower_cut_congr h.mem_lower_iff)
  have hnames := h.nonempty_nul
  rw [Mcrpc.capsCsv_eq (fun n hn => (hnames n hn).2),
    csvTokens_eq (fun n hn => (hnames n hn).1) r.length_le, hcut]
  simp only [ne_eq, eq_nil_congr h.mem_lower_iff]

theorem advertises_iff_capsCsv {R : Type} [CFloat R] {slots : List (Text × Option Text)}
    {fields : List Field} (happ : Appends R ((filled slots).map Field.cut) fields)
    (hkeys : (slots.map Prod.fst).Nodup) {csv : Option Text} (hcaps : ("caps".toList, csv) ∈ slots)
    (names : List Text) : Advertises names fields ↔
      ∀ v ∈ csv, copyToken maxToken v = join [','] (canonicalNames names) := by
  obtain ⟨added, rfl, hadded⟩ := happ
  constructor
  · intro h v hv
    obtain rfl := Option.mem_def.mp hv
    have hmem : ("caps".toList, v) ∈ filled slots := mem_filled.mpr hcaps
    exact h _ (List.mem_append_left _ (List.mem_map_of_mem hmem)) rfl
  · intro h f hf hkey
    rcases List.mem_append.mp hf with hf | hf
    · obtain ⟨e, he, rfl⟩ := List.mem_map.mp hf
      have hslot := List.inj_on_of_nodup_map hkeys (mem_filled.mp he) hcaps hkey
      exact h e.2 (Prod.mk.inj hslot).2.symm
    · have hfeature := (hadded f hf).1
      rw [hkey] at hfeature
      exact absurd hfeature (by decide)

theorem copyToken_cut_eq_iff {names : List Text} :
    copyToken maxToken (join [','] (canonicalNames (names.map (copyToken csvToken)))) =
        join [','] (canonicalNames names) ↔
      (∀ n ∈ names, n.length < csvToken) ∧
        (join [','] (canonicalNames names)).length < maxToken := by
  constructor
  · intro h
    have hall : ∀ n ∈ names, n.length < csvToken := by
      by_contra hlong
      push Not at hlong
      have hlt := length_join_cut_lt hlong
      rw [← h, copyToken, List.length_take] at hlt
      omega
    refine ⟨hall, ?_⟩
    rw [← h]
    exact length_copyToken_lt maxToken (by decide) _
  · rintro ⟨hall, hlen⟩
    rw [map_copyToken_of_lt hall, copyToken_of_lt hlen]

/-- The discovery and the status of a node advertise its capabilities as they are exactly when the
list is left out, or no name and no value is cut. -/
theorem advertises_iff {S R : Type} [CFloat R] {g : Node S R} {names : List Text}
    (h : g.rpc.capabilities.Registered names) (s : S) :
    (Advertises names (buildDiscover g s).1.fields ∧
      Advertises names (buildStatus g s).1.fields) ↔
    capsCsvSize ≤ (join [','] (canonicalNames (names.map (copyToken csvToken)))).length ∨
      (∀ n ∈ names, n.length < csvToken) ∧
        (join [','] (canonicalNames names)).length < maxToken := by
  have hvalue : (∀ v ∈ capsCsv g.rpc.capabilities,
      copyToken maxToken v = join [','] (canonicalNames names)) ↔
      capsCsvSize ≤ (join [','] (canonicalNames (names.map (copyToken csvToken)))).length ∨
        (∀ n ∈ names, n.length < csvToken) ∧
          (join [','] (canonicalNames names)).length < maxToken := by
    rw [h.capsCsv_eq]
    by_cases hnil : names = []
    · subst hnil
      refine iff_of_true (fun v hv => ?_) (.inr ⟨fun n hn => absurd hn List.not_mem_nil, ?_⟩)
      · rw [if_neg (fun hboth => hboth.1 rfl)] at hv
        cases hv
      · rw [canonicalNames, List.map_nil, sortedSet, List.dedup_nil, List.mergeSort_nil]
        decide
    · by_cases hroom : (join [','] (canonicalNames (names.map (copyToken csvToken)))).length <
          capsCsvSize
      · rw [if_pos ⟨hnil, hroom⟩, or_iff_right (Nat.not_le_of_lt hroom), ← copyToken_cut_eq_iff]
        simp only [Option.mem_def, Option.some.injEq, forall_eq']
      · refine iff_of_true (fun v hv => ?_) (.inl (Nat.le_of_not_lt hroom))
        rw [if_neg (fun hboth => hroom hboth.2)] at hv
        cases hv
  have hdiscover (up : Option Text) :
      ("caps".toList, capsCsv g.rpc.capabilities) ∈ discoverSlots g.rpc up := by
    simp [discoverSlots]
  have hstatus (up rssi : Option Text) :
      ("caps".toList, capsCsv g.rpc.capabilities) ∈ statusSlots g.rpc up rssi := by
    simp [statusSlots]
  rw [advertises_iff_capsCsv (appends_buildDiscover g s) (nodup_keys_discoverSlots _ _)
      (hdiscover _) names,
    advertises_iff_capsCsv (appends_buildStatus g s) (nodup_keys_statusSlots _ _ _)
      (hstatus _ _) names, and_self, hvalue]

/-! ### Two nodes -/

theorem registered_beacon :
    beaconNode.rpc.capabilities.Registered ["Relay".toList, "gps".toList] :=
  .register (.register .empty (by decide) rfl) (by decide) rfl

theorem advertises_iff_beacon :
    (Advertises ["Relay".toList, "gps".toList] (buildDiscover beaconNode ()).1.fields ∧
      Advertises ["Relay".toList, "gps".toList] (buildStatus beaconNode ()).1.fields) ↔
    capsCsvSize ≤ (join [','] (canonicalNames
        (["Relay".toList, "gps".toList].map (copyToken csvToken)))).length ∨
      (∀ n ∈ ["Relay".toList, "gps".toList], n.length < csvToken) ∧
        (join [','] (canonicalNames ["Relay".toList, "gps".toList])).length < maxToken :=
  advertises_iff registered_beacon ()

def longNames : List Text :=
  ["environment-monitoring-v2".toList, "location-tracking-service".toList,
    "message-relay-and-storage".toList]

def longNamesNode : Node Unit Unit where
  rpc := { trackerNode.rpc with capabilities := ⟨longNames, by decide⟩ }

theorem registered_longNames : longNamesNode.rpc.capabilities.Registered longNames :=
  .register (.register (.register .empty (by decide) rfl) (by decide) rfl) (by decide) rfl

theorem canonicalNames_longNames : canonicalNames longNames = longNames := by
  have hlower : longNames.map lower = longNames := by decide
  have hsorted : longNames.Pairwise NotAfter := by
    change longNames.Pairwise (fun a b => ¬ b < a)
    decide
  rw [canonicalNames, hlower]
  exact (eq_sortedSet hsorted (by decide) (fun _ => Iff.rfl)).symm

/-- The last of the three names is cut. -/
theorem longNames_cut : longNamesNode.rpc.capabilities.Registered longNames ∧
    ¬ Advertises longNames (buildDiscover longNamesNode ()).1.fields := by
  have hfield : ("caps".toList, ("environment-monitoring-v2,location-tracking-service," ++
      "message-relay-and-s").toList) ∈ (buildDiscover longNamesNode ()).1.fields := by
    decide +kernel
  refine ⟨registered_longNames, fun h => ?_⟩
  have hvalue := h _ hfield rfl
  rw [canonicalNames_longNames] at hvalue
  exact absurd hvalue (by decide)

end Mcrpc
