import Mcrpc.DiscoveryRoundTrip
import Mcrpc.NameReplies

/-!
# The discovery of a node that was set up

The reply to `discovery` of a node that was set up in any way, with the id of the request in front,
as `parse_discover` reads it. The display, relay and LED features state themselves twice, as a
capability and as a field of their own; a reader counts them once.
-/

namespace Mcrpc

open Scan

/-! ### What the features add -/

def featureFlags : List Text := ["display".toList, "relay".toList, "led".toList]

namespace FeatureKind

def flag : FeatureKind → Option Text
  | core | battery | gps | button => none
  | display => some "display".toList
  | relay => some "relay".toList
  | led => some "led".toList

theorem capability_of_flag {k : FeatureKind} {n : Text} (h : k.flag = some n) :
    k.capability = some n := by
  cases k <;> cases h <;> rfl

theorem flag_mem {k : FeatureKind} {n : Text} (h : k.flag = some n) : n ∈ featureFlags := by
  cases k <;> cases h <;> decide

theorem lower_capability {k : FeatureKind} {n : Text} (h : k.capability = some n) :
    lower n = n := by
  cases k <;> cases h <;> decide

theorem capabilityName {k : FeatureKind} {n : Text} (h : k.capability = some n) :
    CapabilityName n where
  ne_nil := (name_capability h).ne_nil
  ascii := by cases k <;> cases h <;> exact forall_of_all rfl
  clean := (name_capability h).clean
  comma := by cases k <;> cases h <;> decide
  length_lt := by cases k <;> cases h <;> decide

end FeatureKind

def flagNames (ks : List FeatureKind) : List Text := ks.filterMap FeatureKind.flag

def flagFields (ks : List FeatureKind) : List Field := (flagNames ks).map (·, "yes".toList)

def capabilityNames (ks : List FeatureKind) : List Text := ks.filterMap FeatureKind.capability

section Flags

variable {ks : List FeatureKind} {n : Text}

theorem mem_flagNames : n ∈ flagNames ks ↔ ∃ k ∈ ks, k.flag = some n := List.mem_filterMap

theorem mem_capabilityNames : n ∈ capabilityNames ks ↔ ∃ k ∈ ks, k.capability = some n :=
  List.mem_filterMap

theorem capabilityNames_of_flagNames (h : n ∈ flagNames ks) : n ∈ capabilityNames ks := by
  obtain ⟨k, hk, hflag⟩ := mem_flagNames.mp h
  exact mem_capabilityNames.mpr ⟨k, hk, FeatureKind.capability_of_flag hflag⟩

theorem lower_of_mem_flagNames (h : n ∈ flagNames ks) : lower n = n := by
  obtain ⟨k, -, hk⟩ := mem_flagNames.mp h
  exact FeatureKind.lower_capability (FeatureKind.capability_of_flag hk)

theorem capabilityName_of_mem_names (h : n ∈ capabilityNames ks) : CapabilityName n := by
  obtain ⟨k, -, hk⟩ := mem_capabilityNames.mp h
  exact FeatureKind.capabilityName hk

theorem nodup_capabilityNames (h : ks.Nodup) : ((capabilityNames ks).map lower).Nodup :=
  (FeatureKind.fit_capabilities h).nodup

theorem map_lower_capabilityNames (ks : List FeatureKind) :
    (capabilityNames ks).map lower = capabilityNames ks := by
  refine (List.map_congr_left (fun n hn => ?_)).trans (List.map_id _)
  obtain ⟨k, -, hk⟩ := mem_capabilityNames.mp hn
  exact FeatureKind.lower_capability hk

theorem flagNames_sublist (ks : List FeatureKind) :
    (flagNames ks).Sublist (capabilityNames ks) := by
  induction ks with
  | nil => exact List.Sublist.slnil
  | cons k ks ih =>
    rw [flagNames, capabilityNames, List.filterMap_cons, List.filterMap_cons]
    cases hflag : k.flag with
    | none =>
      dsimp only
      split
      · exact ih
      · exact ih.cons _
    | some n =>
      rw [FeatureKind.capability_of_flag hflag]
      exact ih.cons_cons n

theorem nodup_flagNames (h : ks.Nodup) : (flagNames ks).Nodup := by
  have hnames := nodup_capabilityNames h
  rw [map_lower_capabilityNames] at hnames
  exact hnames.sublist (flagNames_sublist ks)

theorem length_flagFields_le (h : ks.Nodup) : (flagFields ks).length ≤ 3 := by
  have hle := FeatureKind.length_flatMap_le (fun k => k.flag.toList) h
  rw [flagFields, List.length_map, flagNames, List.filterMap_eq_flatMap_toList]
  exact hle

theorem perm_canonicalNames (h : ks.Nodup) :
    (canonicalNames (capabilityNames ks)).Perm (capabilityNames ks) := by
  have hnodup := nodup_capabilityNames h
  have hperm := perm_sortedSet ((capabilityNames ks).map lower)
  rw [hnodup.dedup, map_lower_capabilityNames] at hperm
  rw [canonicalNames, map_lower_capabilityNames]
  exact hperm

theorem mem_canonicalNames_capabilityNames (ks : List FeatureKind) (c : Text) :
    c ∈ canonicalNames (capabilityNames ks) ↔ ∃ k ∈ ks, k.capability = some c := by
  rw [canonicalNames, mem_sortedSet, map_lower_capabilityNames, mem_capabilityNames]

/-- The capabilities of all features have room in one field. -/
theorem length_join_canonicalNames (h : ks.Nodup) :
    (join [','] (canonicalNames (capabilityNames ks))).length < maxToken := by
  by_cases hnil : canonicalNames (capabilityNames ks) = []
  · rw [hnil]
    decide
  · have hlt := length_join_lt ',' hnil
    have hperm : ((canonicalNames (capabilityNames ks)).flatMap (',' :: ·)).length =
        (ks.flatMap (fun k => k.capability.toList.flatMap (',' :: ·))).length := by
      rw [← List.flatMap_assoc, ← List.filterMap_eq_flatMap_toList]
      exact ((perm_canonicalNames h).flatMap_right (',' :: ·)).length_eq
    have hle := FeatureKind.length_flatMap_le (fun k => k.capability.toList.flatMap (',' :: ·)) h
    have hall : (FeatureKind.all.flatMap (fun k =>
      k.capability.toList.flatMap (',' :: ·))).length ≤ 71 := by decide
    change _ < 72
    omega

theorem fields_contributeDiscover (d : DiscoverBuilder) (k : FeatureKind)
    (h : d.fields.length < maxDiscoverFields) :
    (contributeDiscover d k).fields = d.fields ++ flagFields [k] := by
  have hadd (key : Text) : (d.add key "yes".toList).2.fields = d.fields ++ [(key, "yes".toList)] :=
    d.fields_add_of_lt key "yes".toList h
  cases k with
  | display => exact hadd _
  | relay => exact hadd _
  | led => exact hadd _
  | _ => exact (List.append_nil _).symm

theorem fields_foldl_contributeDiscover (ks : List FeatureKind) (d : DiscoverBuilder)
    (h : d.fields.length + (flagFields ks).length < maxDiscoverFields) :
    (ks.foldl contributeDiscover d).fields = d.fields ++ flagFields ks := by
  induction ks generalizing d with
  | nil => exact (List.append_nil _).symm
  | cons k ks ih =>
    have hsplit : flagFields (k :: ks) = flagFields [k] ++ flagFields ks := by
      rw [flagFields, ← List.singleton_append, flagNames, List.filterMap_append, List.map_append]
      rfl
    rw [hsplit, List.length_append] at h
    have hk := fields_contributeDiscover d k (by omega)
    rw [List.foldl_cons, ih, hk, hsplit, List.append_assoc]
    rw [hk, List.length_append]
    omega

end Flags

/-! ### The line -/

/-- The strings of a node's identity are single words that have room. -/
structure PlainIdentity (rpc : McRpc Handler FeatureKind) : Prop where
  name_ne_nil : rpc.nodeName ≠ []
  name : ∀ c ∈ rpc.nodeName, isIdentChar c = true
  name_lt : rpc.nodeName.length < maxToken
  nodeId : ∀ c ∈ rpc.nodeId, isHexChar c = true
  firmware : Clean rpc.firmware
  firmware_lt : rpc.firmware.length < maxToken
  tag : Clean rpc.tag
  tag_lt : rpc.tag.length < maxToken
  profile : Clean rpc.profile
  profile_lt : rpc.profile.length < maxToken

/-- A node with an identity whose capabilities are those of its features. -/
structure Presentable {S R : Type} (g : Node S R) : Prop where
  identity : PlainIdentity g.rpc
  capabilities : g.rpc.capabilities.names = capabilityNames g.rpc.features.features

theorem McRpc.Wired.presentable {S R : Type} {g : Node S R} (h : g.rpc.Wired)
    (hstarted : g.rpc.features.started = true) (hidentity : PlainIdentity g.rpc) : Presentable g where
  identity := hidentity
  capabilities := by
    obtain ⟨done, -, hdone, -, hcapabilities⟩ := h.tables
    rw [hcapabilities, hdone hstarted, capabilityNames]

def shownId (id : Text) : Option Text := if id = [] then none else some (lower (id.take 8))

theorem shortId8_eq_shownId {id : Text} (h : ∀ c ∈ id, isHexChar c = true) :
    shortId8 id = shownId id := by
  rw [shownId]
  split
  · next hnil => rw [hnil, shortId8, if_pos rfl]
  · next hne => exact shortId8_eq hne h

section Line

variable {S R : Type} {g : Node S R} (s : S)

def discoveryFields (g : Node S R) (s : S) : List Field :=
  filled (discoverSlots g.rpc (uptime g s).1) ++ flagFields g.rpc.features.features

def discoveryText (g : Node S R) (s : S) : Text :=
  g.rpc.nodeName ++ fieldsText (discoveryFields g s)

namespace Presentable

theorem capsCsv (h : Presentable g) : Mcrpc.capsCsv g.rpc.capabilities =
    if capabilityNames g.rpc.features.features = [] then none
    else some (join [','] (canonicalNames (capabilityNames g.rpc.features.features))) := by
  have hroom := length_join_canonicalNames g.rpc.features.nodup
  have hcsv := @capsCsv_eq_join g.rpc.capabilities
  rw [h.capabilities] at hcsv
  exact hcsv (fun n hn => capabilityName_of_mem_names hn) (Nat.lt_trans hroom (by decide))

theorem cleanNode (h : Presentable g) : CleanNode g where
  nodeId := clean_of_ascii_graph (fun c hc => by
    have := isHexChar_iff.mp (h.identity.nodeId c hc)
    omega)
  firmware := h.identity.firmware
  tag := h.identity.tag
  profile := h.identity.profile
  capabilities n hn := by
    rw [h.capabilities] at hn
    exact (capabilityName_of_mem_names hn).clean

theorem length_lt_of_mem_slots (h : Presentable g) :
    ∀ e ∈ discoverSlots g.rpc (uptime g s).1, ∀ v ∈ e.2, v.length < maxToken := by
  refine forall_discoverSlots ?_ h.identity.firmware_lt (by decide) ?_ (length_uptime_lt s g) ?_
  · intro v hv
    rw [shortId8_eq_shownId h.identity.nodeId, shownId] at hv
    split at hv
    · cases hv
    · rw [← Option.some.inj hv, length_lower, List.length_take, maxToken]
      omega
  · rw [primaryTag]
    split
    · exact h.identity.tag_lt
    · exact h.identity.profile_lt
  · intro v hv
    rw [h.capsCsv] at hv
    split at hv
    · cases hv
    · exact Option.some.inj hv ▸ length_join_canonicalNames g.rpc.features.nodup

theorem fields_buildDiscover (h : Presentable g) :
    (buildDiscover g s).1.fields = discoveryFields g s := by
  have hcore : (coreDiscover g.rpc (uptime g s).1).fields =
      filled (discoverSlots g.rpc (uptime g s).1) := by
    rw [fields_coreDiscover]
    exact map_cut_of_lt (fun f hf => h.length_lt_of_mem_slots s _ (mem_filled.mp hf) f.2 rfl)
  have hslots : (filled (discoverSlots g.rpc (uptime g s).1)).length ≤ 6 :=
    List.length_filterMap_le _ _
  have hflags := length_flagFields_le g.rpc.features.nodup
  rw [buildDiscover_eq, fields_foldl_contributeDiscover, hcore, discoveryFields]
  rw [hcore]
  change _ < 24
  omega

theorem slim_of_mem (h : Presentable g) : ∀ f ∈ discoveryFields g s, SlimField f := by
  rw [← h.fields_buildDiscover s]
  exact slim_buildDiscover s h.cleanNode

theorem plain_of_mem (h : Presentable g) : ∀ f ∈ discoveryFields g s, f.Plain :=
  fun f hf => (h.slim_of_mem s f hf).plain

theorem nul_not_mem_text (h : Presentable g) : nul ∉ discoveryText g s :=
  List.not_mem_append (fun hmem => absurd (h.identity.name nul hmem) (by decide))
    (nul_not_mem_fieldsText (fun f hf => (h.slim_of_mem s f hf).nul_not_mem))

theorem cstr_writeTo (h : Presentable g) (reply : ReplyBuffer)
    (hfits : (discoveryText g s).length < maxReply) :
    ((buildDiscover g s).1.writeTo reply).cstr = discoveryText g s := by
  have hname : (buildDiscover g s).1.name = g.rpc.nodeName := by
    rw [name_buildDiscover, copyToken_of_lt h.identity.name_lt]
  have hfields := h.fields_buildDiscover s
  have hnul : ∀ f ∈ discoveryFields g s, nul ∉ f.text :=
    fun f hf => (h.slim_of_mem s f hf).nul_not_mem
  rw [discoveryText, ← hname, ← hfields] at hfits
  rw [← hfields] at hnul
  have hname_ne : (buildDiscover g s).1.name ≠ [] := hname ▸ h.identity.name_ne_nil
  have hname_nul : nul ∉ (buildDiscover g s).1.name :=
    hname ▸ fun hmem => absurd (h.identity.name nul hmem) (by decide)
  rw [DiscoverBuilder.cstr_writeTo hname_ne hname_nul hnul (Nat.le_pred_of_lt hfits), hname, hfields,
    discoveryText]

end Presentable

end Line

/-! ### The line read back -/

structure PresentedAs {S R F : Type} (g : Node S R) (s : S) (v : ParsedDiscover F) : Prop where
  device : v.device = g.rpc.nodeName
  identityId : v.identityId = shownId g.rpc.nodeId
  firmware : v.firmware = if g.rpc.firmware ≠ [] then some g.rpc.firmware else none
  wireVersion : v.wireVersion = some protocolVersionString
  tag : v.tag = if primaryTag g.rpc ≠ [] then some (primaryTag g.rpc) else none
  uptime : v.uptime = g.callbacks.uptime.bind
    (fun uptime => (formatUptime (uptime s).1 16).map PyValue.str)
  features : v.features = flagFields g.rpc.features.features
  sorted : v.capabilities.Pairwise (· < ·)
  capabilities : ∀ c, c ∈ v.capabilities ↔ ∃ k ∈ g.rpc.features.features, k.capability = some c

namespace Python

variable {F : Type} (py : Python F)

theorem capabilitiesOf_flags {names flags : List Text} (h : ∀ n ∈ names, CapabilityName n)
    (hflags : ∀ n ∈ flags, n ∈ names ∧ Mcrpc.lower n = n) {fields : Dict Text Text}
    (hcaps : fields.get "caps".toList =
      if names = [] then none else some (join [','] (canonicalNames names))) :
    py.capabilitiesOf fields (flags.map (·, "yes".toList)) = canonicalNames names := by
  have hyes : py.lower "yes".toList = "yes".toList := py.lower_ascii _ (forall_of_all rfl)
  have hall : ((flags.map (·, "yes".toList)).filter (fun e => py.lower e.2 ∈ flagValues)).map
      Prod.fst = flags := by
    have hkept : (flags.map (·, "yes".toList)).filter (fun e => py.lower e.2 ∈ flagValues) =
        flags.map (·, "yes".toList) := by
      rw [List.filter_eq_self]
      intro e he
      obtain ⟨n, -, rfl⟩ := List.mem_map.mp he
      rw [hyes]
      decide
    rw [hkept, List.map_map]
    exact List.map_id flags
  by_cases hnil : names = []
  · have hnone : flags = [] := by
      rw [List.eq_nil_iff_forall_not_mem]
      intro n hn
      have hmem := (hflags n hn).1
      rw [hnil] at hmem
      cases hmem
    rw [capabilitiesOf, hall, hcaps, if_pos hnil, hnone, hnil, canonicalNames, List.map_nil,
      sortedSet, List.dedup_nil, List.mergeSort_nil]
  · have hparts := py.sortedSet_parts h hnil
    have hsame (c : Text) : c ∈ canonicalNames names ↔
        c ∈ ((join [','] (canonicalNames names)).splitOn ',').foldl py.addCapability [] :=
      (Iff.of_eq (congrArg (c ∈ ·) hparts.symm)).trans mem_sortedSet
    have hcsv : join [','] (canonicalNames names) ≠ [] := by
      obtain ⟨n, hn⟩ := List.exists_mem_of_ne_nil names hnil
      apply join_ne_nil ',' (List.ne_nil_of_mem (mem_canonicalNames.mpr ⟨n, hn, rfl⟩))
      exact fun c hc => (capabilityName_of_mem h hc).1.ne_nil
    rw [capabilitiesOf, hall, hcaps, if_neg hnil]
    dsimp only
    rw [if_neg hcsv]
    refine (eq_sortedSet (pairwise_sortedSet _) (nodup_sortedSet _) (fun c => ?_)).trans hparts
    have hadded := hsame c
    rw [py.mem_foldl_addCapability, or_iff_right List.not_mem_nil] at hadded
    rw [mem_sortedSet, py.mem_foldl_addCapability, py.mem_foldl_addCapability,
      or_iff_right List.not_mem_nil, or_iff_right_of_imp]
    intro hc
    obtain ⟨hn, hlower⟩ := hflags c hc
    exact hadded.mp (mem_canonicalNames.mpr ⟨c, hn, hlower.symm⟩)

end Python

/-- A value that is there reads as nothing when it is empty. -/
theorem orText_none (t : Text) : orText (some t) none = if t ≠ [] then some t else none := by
  cases t with
  | nil => rfl
  | cons c t => rfl

section Reading

variable {S R F : Type} {g : Node S R} (s : S)

theorem not_mem_of_flag {keys : List Text} (hkeys : ∀ key ∈ featureFlags, key ∉ keys)
    {f : Field} {ks : List FeatureKind} (hf : f ∈ flagFields ks) : f.1 ∉ keys := by
  obtain ⟨n, hn, rfl⟩ := List.mem_map.mp hf
  obtain ⟨k, -, hk⟩ := mem_flagNames.mp hn
  exact hkeys n (FeatureKind.flag_mem hk)

theorem nodup_keys_discoveryFields (g : Node S R) :
    ((discoveryFields g s).map Prod.fst).Nodup := by
  have hslots := keys_filled (discoverSlots g.rpc (uptime g s).1)
  have hflags : (flagFields g.rpc.features.features).map Prod.fst =
      flagNames g.rpc.features.features := by
    rw [flagFields, List.map_map]
    exact List.map_id _
  have hnodup := nodup_flagNames g.rpc.features.nodup
  rw [← hflags] at hnodup
  rw [discoveryFields, List.map_append, List.nodup_append]
  refine ⟨hslots.nodup (nodup_keys_discoverSlots _ _), hnodup, ?_⟩
  rintro key hkey flag hflag rfl
  obtain ⟨f, hf, rfl⟩ := List.mem_map.mp hflag
  have hcore := hslots.mem hkey
  rw [keys_discoverSlots] at hcore
  exact not_mem_of_flag (by decide) hf hcore

namespace Presentable

variable (h : Presentable g)

include h

theorem entries_fields : (parseKvPairs ((discoveryFields g s).map Field.token)).entries =
    discoveryFields g s :=
  entries_parseKvPairs (h.plain_of_mem s) (nodup_keys_discoveryFields s g)

theorem get_fields {key : Text} (hkey : key ∉ featureFlags) :
    (parseKvPairs ((discoveryFields g s).map Field.token)).get key =
      ((discoverSlots g.rpc (uptime g s).1).find? (fun e => e.1 = key)).bind Prod.snd := by
  have hflags : (flagFields g.rpc.features.features).find? (fun e => e.1 = key) = none := by
    rw [List.find?_eq_none]
    intro f hf heq
    have hone : ∀ k ∈ featureFlags, k ∉ [key] := fun k hk hmem =>
      hkey (List.mem_singleton.mp hmem ▸ hk)
    exact not_mem_of_flag hone hf (List.mem_singleton.mpr (of_decide_eq_true heq))
  rw [Dict.get, h.entries_fields s, discoveryFields, List.find?_append, hflags, Option.or_none]
  exact find_filled (nodup_keys_discoverSlots g.rpc _) key

/-- The flags are the fields that the reader does not know. -/
theorem features_fields : (parseKvPairs ((discoveryFields g s).map Field.token)).entries.filter
    (fun e => e.1 ∉ coreKeys) = flagFields g.rpc.features.features := by
  have hslots : (filled (discoverSlots g.rpc (uptime g s).1)).filter
      (fun e => e.1 ∉ coreKeys) = [] := by
    rw [List.filter_eq_nil_iff]
    intro f hf
    have hkey := (keys_filled _).mem (List.mem_map_of_mem hf)
    rw [keys_discoverSlots] at hkey
    have hcore : ∀ k ∈ slimKeys.take 6, k ∈ coreKeys := by decide
    rw [decide_eq_true_eq, not_not]
    exact hcore f.1 hkey
  rw [h.entries_fields s, discoveryFields, List.filter_append, hslots, List.nil_append,
    List.filter_eq_self]
  exact fun f hf => decide_eq_true (not_mem_of_flag (by decide) hf)

theorem parseDiscover_eq (py : Python F) (req : Request) :
    py.parseDiscover (some (req.prefixText ++ discoveryText g s)) =
      .ok (py.discoverOf (strip (req.prefixText ++ discoveryText g s)) (Report.replyId req)
        (g.rpc.nodeName :: (discoveryFields g s).map Field.token)) := by
  have hsplit := split_name_fieldsText h.identity.name h.identity.name_ne_nil (h.plain_of_mem s)
  have htake := Report.takeRequestId_prefixText py hsplit (fun digits he =>
    absurd (h.identity.name '#' (he ▸ List.mem_cons_self)) (by decide)) req
  rw [← discoveryText] at htake
  rw [Python.parseDiscover, Option.getD_some, splitTokens_eq_split, split_strip, htake]
  rfl

theorem presentedAs {py : Python F} (hpy : py.Regular) (raw : Text) (rid : Option ℤ) :
    PresentedAs g s
      (py.discoverOf raw rid (g.rpc.nodeName :: (discoveryFields g s).map Field.token)) := by
  have hget {key : Text} (hkey : key ∉ featureFlags) := h.get_fields s hkey
  have hcaps := (hget (show "caps".toList ∉ featureFlags by decide)).trans h.capsCsv
  have hcapabilities := py.capabilitiesOf_flags (fun n hn => capabilityName_of_mem_names hn)
    (fun n hn => ⟨capabilityNames_of_flagNames hn, lower_of_mem_flagNames hn⟩) hcaps
  rw [← flagFields, ← h.features_fields s] at hcapabilities
  constructor
  case device => rfl
  case identityId =>
    exact (hget (by decide)).trans (shortId8_eq_shownId h.identity.nodeId)
  case firmware =>
    change orText _ _ = _
    rw [hget (by decide), hget (by decide)]
    exact orText_none g.rpc.firmware
  case wireVersion =>
    exact (congrArg (orText · _) (hget (by decide))).trans (orText_some (List.cons_ne_nil _ _) _)
  case tag =>
    change orText _ _ = _
    rw [hget (by decide), hget (by decide)]
    exact orText_ite (primaryTag g.rpc)
  case uptime =>
    change ((List.find? _ _).map _).or ((List.find? _ _).map _) = _
    rw [Python.find_coerceFields, Python.find_coerceFields, hget (by decide), hget (by decide)]
    exact Option.or_none.trans (coerceNumber_uptime hpy g s)
  case features => exact h.features_fields s
  case sorted =>
    change (py.capabilitiesOf _ _).Pairwise _
    rw [hcapabilities]
    exact strict_sortedSet _
  case capabilities =>
    change ∀ c, c ∈ py.capabilitiesOf _ _ ↔ _
    rw [hcapabilities]
    exact mem_canonicalNames_capabilityNames g.rpc.features.features

end Presentable
end Reading

/-! ### The reply -/

namespace Process

variable {ι S R F V T : Type} [DecidableEq ι] [CFloat R] [Truthy V]

omit [DecidableEq ι] in
theorem run_cmdDiscover (req : Request) (reply : ReplyBuffer) {n : Node S R}
    (h : n.hasEngine = true) (s : S) : (Handler.cmdDiscover.run req reply (some (n, s))).1 =
      (true, (buildDiscover n s).1.writeTo reply) := by
  obtain ⟨rpc, callbacks, host, hasEngine, pressCount⟩ := n
  obtain rfl : hasEngine = true := h
  rfl

/-- A node that was set up in any way, and is started, answers `discovery` with its presentation,
exactly when there is room. A client whose request is pending is given the reply and reads the node
from it; other nodes can answer the same request when it is a broadcast. -/
theorem discovery_dispatch {py : Python F} (hpy : py.Regular) (p : Process ι S R)
    (d : Dispatcher Handler) {line : Option Text} {req : Request} {entry : CommandEntry Handler}
    {n : Node S R} {s : S} {m₀ : McRpc Handler FeatureKind} (hfresh : m₀.Fresh)
    {calls : List SetupCall} (hsetUp : n.rpc = calls.foldl SetupCall.run m₀)
    (hstarted : n.rpc.features.started = true) (hidentity : PlainIdentity n.rpc)
    (hengine : n.hasEngine = true) (hparse : Parser.parse line = (.ok, req))
    (haddr : d.isAddressedToUs req = true) (hfind : d.registry.find req.command = some entry)
    (hentry : entry.handler = .cmdDiscover) (hinstance : p.instanceOf entry.handler = some (n, s))
    (reply : ReplyBuffer) :
    let out := d.dispatch call line reply p
    let text := req.prefixText ++ discoveryText n s
    let resp := py.responseOf (strip text) (Report.replyId req)
      (n.rpc.nodeName :: (discoveryFields n s).map Field.token)
    out.answered = true ∧ (out.reply.cstr = text ↔ text.length < maxReply) ∧
      (text.length < maxReply →
        (∃ v, py.parseDiscover (some out.reply.cstr) = .ok v ∧ v.requestId = Report.replyId req ∧
          PresentedAs n s v) ∧
        ∀ (c : RequestCorrelator V T) (q : PendingRequest V T) (sender : Text),
          req.hasRequestId = true → c.pending.get (req.requestId.toNat : ℤ) = some q →
          ':' ∉ sender → c.classifyInbound py (sender ++ ':' :: ' ' :: out.reply.cstr) =
            (.ok { kind := .response, response := some resp, pending := some q },
              if q.isBroadcast then c
              else { c with pending := c.pending.erase (req.requestId.toNat : ℤ) })) := by
  intro out text resp
  have hnode : Presentable n :=
    McRpc.Wired.presentable (hsetUp ▸ hfresh.wired.run calls) hstarted hidentity
  have hne : discoveryText n s ≠ [] :=
    List.append_ne_nil_of_left_ne_nil hnode.identity.name_ne_nil _
  have hbody : let body := (call entry.handler req ReplyBuffer.init.clear p).1
      (discoveryText n s).length < maxReply →
        (Dispatcher.fillBody body.1 body.2).cstr = discoveryText n s := by
    intro body hlen
    have hline := hnode.cstr_writeTo s ReplyBuffer.init.clear hlen
    have hrun : body = (true, (buildDiscover n s).1.writeTo ReplyBuffer.init.clear) := by
      rw [← run_cmdDiscover req ReplyBuffer.init.clear hengine, ← hentry, ← hinstance]
      exact p.call_fst entry.handler req ReplyBuffer.init.clear
    rw [hrun, Dispatcher.fillBody_of_ne_nil (hline.trans_ne hne), hline]
  obtain ⟨hanswered, hcstr⟩ := d.cstr_dispatch_of_body reply hne (hnode.nul_not_mem_text s) hparse
    haddr hfind hbody
  refine ⟨hanswered, hcstr, fun hlen => ?_⟩
  have hreply : out.reply.cstr = text := hcstr.mpr hlen
  rw [hreply]
  refine ⟨⟨_, hnode.parseDiscover_eq s py req, rfl, hnode.presentedAs s hpy _ _⟩, ?_⟩
  intro c q sender hid hget hsender
  have hsplit := split_name_fieldsText hnode.identity.name hnode.identity.name_ne_nil
    (hnode.plain_of_mem s)
  have hclassify :=
    Report.classifyInbound_pending py hpy c hid hget hsender (discoveryText n s)
  rw [← discoveryText] at hsplit
  rw [hsplit] at hclassify
  exact hclassify

end Process

def barePanel : McRpc Handler FeatureKind where
  nodeName := "panel".toList
  nodeId := "3CBB01C6F2".toList
  firmware := "1.0".toList

def panelNode : Process Unit Unit Unit where
  nodes _ := { rpc := [SetupCall.add (some .core), .add (some .display), .add (some .gps),
    .begin].foldl SetupCall.run barePanel }
  states _ := ()
  instances _ := some ()

def discoverySeven : Request where
  addressKind := .all
  target := "all".toList
  hasRequestId := true
  requestId := 7
  command := "discovery".toList

theorem discovery_dispatch_panel :
    let d := (panelNode.nodes ()).rpc.dispatcher
    let out := d.dispatch Process.call (some "all#7 discovery".toList) .init panelNode
    out.reply.cstr =
      "#7 panel id=3cbb01c6 fw=1.0 v=1.2 caps=display,gps display=yes".toList ∧
    ∃ v, Python.ascii.parseDiscover (some out.reply.cstr) = .ok v ∧ v.requestId = some (7 : ℤ) ∧
      PresentedAs (panelNode.nodes ()) () v := by
  intro d out
  have hparse : Parser.parse (some "all#7 discovery".toList) = (.ok, discoverySeven) := by decide
  have htext : discoverySeven.prefixText ++ discoveryText (panelNode.nodes ()) () =
      "#7 panel id=3cbb01c6 fw=1.0 v=1.2 caps=display,gps display=yes".toList := by decide +kernel
  have hidentity : PlainIdentity (panelNode.nodes ()).rpc := {
    name_ne_nil := List.cons_ne_nil _ _
    name := forall_of_all rfl
    name_lt := by decide
    nodeId := forall_of_all rfl
    firmware := clean_word rfl
    firmware_lt := by decide
    tag := clean_word rfl
    tag_lt := by decide
    profile := clean_word rfl
    profile_lt := by decide }
  obtain ⟨-, hcstr, hread⟩ := Process.discovery_dispatch (V := Bool) (T := ℕ) Python.ascii_regular
    panelNode d (show barePanel.Fresh from ⟨rfl, rfl, rfl⟩) rfl rfl hidentity rfl hparse rfl rfl rfl
    rfl .init
  rw [htext] at hcstr hread
  have hlen : "#7 panel id=3cbb01c6 fw=1.0 v=1.2 caps=display,gps display=yes".toList.length <
      maxReply := by decide
  exact ⟨hcstr.mpr hlen, (hread hlen).1⟩

end Mcrpc
