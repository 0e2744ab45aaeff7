import Mcrpc.NodeFields

/-!
# The discovery line read back

The line `McRpc::buildDiscover` emits, as `parse_discover` reads it. When the features add nothing
and the line has room, every field reads back: the identity in lower case, the uptime as its text,
the capabilities as the sorted set of their lower-cased names.
-/

namespace Mcrpc

open Scan

/-! ### Reading the fields -/

/-- Fields with different keys are read as they were written. -/
theorem entries_parseKvPairs {fields : List Field} (h : ∀ f ∈ fields, f.Plain)
    (hnodup : (fields.map Prod.fst).Nodup) :
    (parseKvPairs (fields.map Field.token)).entries = fields := by
  rw [parseKvPairs_tokens h]
  exact Dict.entries_setAll (by rwa [Dict.empty, List.map_nil, List.nil_append])

namespace Python

variable {F : Type} {py : Python F}

theorem find_coerceFields (kv : Dict Text Text) (key : Text) :
    ((py.coerceFields kv).find? (fun e => e.1 = key)).map Prod.snd =
      (kv.get key).map py.coerceNumber := by
  rw [coerceFields, List.find?_map, Dict.get, Option.map_map, Option.map_map]
  rfl

/-- An uptime is no number. -/
theorem Regular.coerceNumber_uptimeText (h : py.Regular) {seconds : ℕ} (hs : seconds < 2 ^ 32) :
    py.coerceNumber (uptimeText seconds) = .str (uptimeText seconds) := by
  have hchar : ∀ c ∈ uptimeText seconds, c.toNat < 128 ∧ c ≠ '.' ∧ c.toLower ≠ 'e' := by
    intro c hc
    rcases mem_uptimeText hs hc with hdigit | hunit
    · have hcode := isDigit_iff.mp hdigit
      rw [ne_eq, Ascii.eq_iff_toNat, ne_eq, Ascii.eq_iff_toNat, Ascii.toNat_toLower,
        if_neg (by omega)]
      change c.toNat < 128 ∧ c.toNat ≠ 46 ∧ c.toNat ≠ 101
      omega
    · have hall : uptimeUnits.all (fun u => u.toNat < 128 && u ≠ '.' && u.toLower ≠ 'e') = true :=
        rfl
      simpa [and_assoc] using List.all_eq_true.mp hall c hunit
  have he : 'e' ∉ py.lower (uptimeText seconds) := by
    rw [py.lower_ascii _ (fun c hc => (hchar c hc).1)]
    intro hmem
    obtain ⟨c, hc, hce⟩ := List.mem_map.mp hmem
    exact (hchar c hc).2.2 hce
  have hint : py.int (uptimeText seconds) = none := by
    obtain ⟨c, hc, hunit⟩ := exists_unit_mem_uptimeText hs
    have hall : uptimeUnits.all Char.isAlpha = true := rfl
    exact h.int_letter _ ⟨c, hc, List.all_eq_true.mp hall c hunit⟩
  rw [coerceNumber, if_neg (not_or.mpr ⟨fun hdot => (hchar '.' hdot).2.1 rfl, he⟩), hint]

end Python

/-! ### The capabilities -/

structure CapabilityName (n : Text) : Prop where
  ne_nil : n ≠ []
  ascii : ∀ c ∈ n, c.toNat < 128
  clean : Clean n
  comma : ',' ∉ n
  length_lt : n.length < csvToken

theorem CapabilityName.lower {n : Text} (h : CapabilityName n) : CapabilityName (lower n) where
  ne_nil hnil := h.ne_nil (List.map_eq_nil_iff.mp hnil)
  ascii c hc := by
    obtain ⟨d, hd, rfl⟩ := List.mem_map.mp hc
    have := h.ascii d hd
    rw [Ascii.toNat_toLower]
    split_ifs <;> omega
  clean := h.clean.lower
  comma := (mem_lower_iff rfl).not.mpr h.comma
  length_lt := by
    rw [length_lower]
    exact h.length_lt

def canonicalNames (names : List Text) : List Text := sortedSet (names.map lower)

theorem mem_canonicalNames {names : List Text} {c : Text} :
    c ∈ canonicalNames names ↔ ∃ n ∈ names, c = lower n := by
  rw [canonicalNames, mem_sortedSet, List.mem_map]
  exact exists_congr (fun n => and_congr_right (fun _ => eq_comm))

theorem capabilityName_of_mem {names : List Text} (h : ∀ n ∈ names, CapabilityName n) {c : Text}
    (hc : c ∈ canonicalNames names) : CapabilityName c ∧ lower c = c := by
  obtain ⟨n, hn, rfl⟩ := mem_canonicalNames.mp hc
  exact ⟨(h n hn).lower, lower_lower n⟩

/-- The tokens `canonicalizeCsv` writes are the sorted set of the lower-cased names, each cut to
its place. -/
theorem csvTokens_eq {names : List Text} (h : ∀ n ∈ names, n ≠ [])
    (hlen : names.length ≤ csvMaxTokens) :
    csvTokens (names.map some) = canonicalNames (names.map (copyToken csvToken)) := by
  have hall : ((names.map some).filterMap id).filter (· ≠ []) = names := by
    rw [List.filterMap_map, Function.id_comp, List.filterMap_some, List.filter_eq_self]
    exact fun n hn => decide_eq_true (h n hn)
  rw [csvTokens_eq_sortedSet (by rwa [List.length_map]), csvNames, hall, canonicalNames,
    List.map_map]
  rfl

theorem map_copyToken_of_lt {names : List Text} (h : ∀ n ∈ names, n.length < csvToken) :
    names.map (copyToken csvToken) = names :=
  (List.map_congr_left (fun n hn => copyToken_of_lt (h n hn))).trans (List.map_id names)

theorem capsCsv_eq_join {capabilities : CapabilityRegistry}
    (h : ∀ n ∈ capabilities.names, CapabilityName n)
    (hroom : (join [','] (canonicalNames capabilities.names)).length < capsCsvSize) :
    capsCsv capabilities = if capabilities.names = [] then none
      else some (join [','] (canonicalNames capabilities.names)) := by
  rw [capsCsv_eq (fun n hn => (h n hn).clean.1),
    csvTokens_eq (fun n hn => (h n hn).ne_nil) capabilities.length_le,
    map_copyToken_of_lt (fun n hn => (h n hn).length_lt)]
  by_cases hnil : capabilities.names = []
  · rw [if_pos hnil, if_neg (fun hboth => hboth.1 hnil)]
  · rw [if_neg hnil, if_pos ⟨hnil, hroom⟩]

namespace Python

variable {F : Type} (py : Python F)

theorem foldl_addCapability {ts : List Text} (hts : ∀ t ∈ ts, t ≠ [] ∧ py.lower (strip t) = t)
    {caps : List Text} (hnodup : (caps ++ ts).Nodup) :
    ts.foldl py.addCapability caps = caps ++ ts := by
  induction ts generalizing caps with
  | nil => exact (List.append_nil _).symm
  | cons t ts ih =>
    obtain ⟨⟨hne, hlower⟩, hts⟩ := List.forall_mem_cons.mp hts
    have hnew : t ∉ caps := fun hmem =>
      (List.nodup_append.mp hnodup).2.2 t hmem t List.mem_cons_self rfl
    have hadd : py.addCapability caps t = caps ++ [t] := by
      simp only [addCapability, hlower]
      exact if_pos ⟨hne, hnew⟩
    have hrest : (py.addCapability caps t ++ ts).Nodup := by
      rwa [hadd, List.append_assoc, List.singleton_append]
    rw [List.foldl_cons, ih hts hrest, hadd, List.append_assoc, List.singleton_append]

/-- The parts of `caps=` are the names it was written from. -/
theorem sortedSet_parts {names : List Text} (h : ∀ n ∈ names, CapabilityName n) (hne : names ≠ []) :
    sortedSet (((join [','] (canonicalNames names)).splitOn ',').foldl py.addCapability []) =
      canonicalNames names := by
  have hparts : (join [','] (canonicalNames names)).splitOn ',' = canonicalNames names := by
    refine List.splitOn_intercalate ',' (fun t ht => (capabilityName_of_mem h ht).1.comma) ?_
    obtain ⟨n, hn⟩ := List.exists_mem_of_ne_nil names hne
    exact List.ne_nil_of_mem (mem_canonicalNames.mpr ⟨n, hn, rfl⟩)
  have hpart : ∀ t ∈ canonicalNames names, t ≠ [] ∧ py.lower (strip t) = t := by
    intro t ht
    obtain ⟨hname, hlower⟩ := capabilityName_of_mem h ht
    refine ⟨hname.ne_nil, ?_⟩
    rw [strip_eq_self hname.clean.2, py.lower_ascii t hname.ascii, hlower]
  rw [hparts, py.foldl_addCapability hpart (nodup_sortedSet _), List.nil_append]
  exact (eq_sortedSet (pairwise_sortedSet _) (nodup_sortedSet _) (fun _ => Iff.rfl)).symm

theorem capabilitiesOf_eq {names : List Text} (h : ∀ n ∈ names, CapabilityName n)
    {fields : Dict Text Text} (hcaps : fields.get "caps".toList =
      if names = [] then none else some (join [','] (canonicalNames names))) :
    py.capabilitiesOf fields [] = canonicalNames names := by
  rw [capabilitiesOf, hcaps]
  split
  · next hnone =>
    have hnil : names = [] := by
      by_contra hne
      rw [if_neg hne] at hnone
      cases hnone
    rw [hnil, canonicalNames, List.map_nil, sortedSet, List.dedup_nil, List.mergeSort_nil]
    rfl
  · next csv hsome =>
    have hne : names ≠ [] := by
      intro hnil
      rw [if_pos hnil] at hsome
      cases hsome
    rw [if_neg hne] at hsome
    obtain rfl := Option.some.inj hsome
    have hcsv : join [','] (canonicalNames names) ≠ [] := by
      obtain ⟨n, hn⟩ := List.exists_mem_of_ne_nil names hne
      have hmem := mem_canonicalNames.mpr ⟨n, hn, rfl⟩
      cases hcases : canonicalNames names with
      | nil =>
        rw [hcases] at hmem
        cases hmem
      | cons c cs =>
        rw [join_cons]
        intro hnil
        exact (capabilityName_of_mem h (hcases ▸ List.mem_cons_self)).1.ne_nil
          (List.append_eq_nil_iff.mp hnil).1
    rw [if_neg hcsv]
    exact py.sortedSet_parts h hne

end Python

/-! ### The line -/

/-- A node whose discovery line carries its configuration: an identifier for its name, a hexadecimal
id, strings without white space that have room, and features that add no fields. -/
structure Discoverable {S R : Type} (g : Node S R) : Prop where
  name_ne_nil : g.rpc.nodeName ≠ []
  name : ∀ c ∈ g.rpc.nodeName, isIdentChar c = true
  name_lt : g.rpc.nodeName.length < maxToken
  nodeId : ∀ c ∈ g.rpc.nodeId, isHexChar c = true
  eight_le : 8 ≤ g.rpc.nodeId.length
  firmware_ne_nil : g.rpc.firmware ≠ []
  firmware : Clean g.rpc.firmware
  firmware_lt : g.rpc.firmware.length < maxToken
  tag : Clean g.rpc.tag
  tag_lt : g.rpc.tag.length < maxToken
  profile : Clean g.rpc.profile
  profile_lt : g.rpc.profile.length < maxToken
  capability : ∀ n ∈ g.rpc.capabilities.names, CapabilityName n
  capabilities_lt : (join [','] (canonicalNames g.rpc.capabilities.names)).length < maxToken
  features : ∀ k ∈ g.rpc.features.features, ∀ d, contributeDiscover d k = d

theorem shortId8_eq {id : Text} (hne : id ≠ []) (h : ∀ c ∈ id, isHexChar c = true) :
    shortId8 id = some (lower (id.take 8)) := by
  rw [shortId8, if_neg hne, lower]
  refine congrArg some (List.map_congr_left (fun c hc => ?_))
  have hhex := isHexChar_iff.mp (h c (List.mem_of_mem_take hc))
  rw [lowerHex]
  split
  · rfl
  · next hrange =>
    rw [Bool.and_eq_true, decide_eq_true_eq, decide_eq_true_eq, Ascii.le_iff_toNat,
      Ascii.le_iff_toNat] at hrange
    change ¬ (65 ≤ c.toNat ∧ c.toNat ≤ 70) at hrange
    rw [Ascii.eq_iff_toNat, Ascii.toNat_toLower, if_neg (by omega)]

namespace Discoverable

variable {S R : Type} {g : Node S R} (h : Discoverable g)

include h

theorem shortId8 : Mcrpc.shortId8 g.rpc.nodeId = some (lower (g.rpc.nodeId.take 8)) := by
  refine shortId8_eq (fun hnil => ?_) h.nodeId
  have := h.eight_le
  rw [hnil] at this
  exact absurd this (by decide)

theorem cleanNode : CleanNode g where
  nodeId := clean_of_ascii_graph (fun c hc => by
    have := isHexChar_iff.mp (h.nodeId c hc)
    omega)
  firmware := h.firmware
  tag := h.tag
  profile := h.profile
  capabilities n hn := (h.capability n hn).clean

theorem capsCsv : Mcrpc.capsCsv g.rpc.capabilities = if g.rpc.capabilities.names = [] then none
    else some (join [','] (canonicalNames g.rpc.capabilities.names)) :=
  capsCsv_eq_join h.capability (Nat.lt_trans h.capabilities_lt (by decide))

theorem length_lt_of_mem_slots {up : Option Text} (hup : ∀ v ∈ up, v.length < maxToken) :
    ∀ e ∈ discoverSlots g.rpc up, ∀ v ∈ e.2, v.length < maxToken := by
  refine forall_discoverSlots ?_ h.firmware_lt (by decide) ?_ hup ?_
  · intro v hv
    rw [h.shortId8, Option.mem_def, Option.some.injEq] at hv
    rw [← hv, length_lower, List.length_take, maxToken]
    omega
  · rw [primaryTag]
    split
    · exact h.tag_lt
    · exact h.profile_lt
  · intro v hv
    rw [h.capsCsv] at hv
    split at hv
    · cases hv
    · exact Option.some.inj hv ▸ h.capabilities_lt

end Discoverable

section Line

variable {S R : Type} {g : Node S R} (s : S)

def wholeLine (g : Node S R) (s : S) : Text :=
  g.rpc.nodeName ++ fieldsText (filled (discoverSlots g.rpc (uptime g s).1))

theorem uptime_eq (g : Node S R) (s : S) : (uptime g s).1 =
    g.callbacks.uptime.map (fun uptime => uptimeText (uptime s).1.toNat) := by
  rw [uptime_fst]
  cases g.callbacks.uptime with
  | none => rfl
  | some f => exact formatUptime_eq (f s).1 le_rfl

theorem length_uptime_lt (g : Node S R) : ∀ v ∈ (uptime g s).1, v.length < maxToken := by
  intro v hv
  rw [uptime_eq, Option.mem_def, Option.map_eq_some_iff] at hv
  obtain ⟨f, -, rfl⟩ := hv
  exact Nat.lt_of_le_of_lt (length_uptimeText_le (f s).1.toNat_lt) (by decide)

theorem buildDiscover_fst (h : Discoverable g) :
    (buildDiscover g s).1 = coreDiscover g.rpc (uptime g s).1 := by
  rw [buildDiscover_eq]
  have hfeatures := h.features
  generalize g.rpc.features.features = features at hfeatures
  induction features with
  | nil => rfl
  | cons k features ih =>
    obtain ⟨hk, hfeatures⟩ := List.forall_mem_cons.mp hfeatures
    rw [List.foldl_cons, hk]
    exact ih hfeatures

theorem fields_buildDiscover (h : Discoverable g) :
    (buildDiscover g s).1.fields = filled (discoverSlots g.rpc (uptime g s).1) := by
  rw [buildDiscover_fst s h, fields_coreDiscover]
  refine map_cut_of_lt (fun f hf => ?_)
  exact h.length_lt_of_mem_slots (length_uptime_lt s g) _ (mem_filled.mp hf) f.2 rfl

/-- A line that has room is emitted as a whole. -/
theorem discoveryLine_eq (h : Discoverable g) (reply : ReplyBuffer)
    (hfits : (wholeLine g s).length ≤ maxReply - 1) :
    discoveryLine g s reply = wholeLine g s := by
  have hname : (buildDiscover g s).1.name = g.rpc.nodeName := by
    rw [name_buildDiscover, copyToken_of_lt h.name_lt]
  have hfields := fields_buildDiscover s h
  rw [wholeLine, ← hname, ← hfields] at hfits
  rw [discoveryLine, DiscoverBuilder.cstr_writeTo _ _ _ hfits, hname, hfields, wholeLine]
  · rw [hname]
    exact h.name_ne_nil
  · rw [hname]
    exact fun hmem => absurd (h.name nul hmem) (by decide)
  · exact fun f hf => (slim_buildDiscover s h.cleanNode f hf).writable.nul_not_mem

end Line

/-! ### The whole line read back -/

namespace Discoverable

variable {S R F : Type} {g : Node S R} (h : Discoverable g) (s : S)

include h

theorem plain_of_mem : ∀ f ∈ filled (discoverSlots g.rpc (uptime g s).1), f.Plain := by
  rw [← fields_buildDiscover s h]
  exact fun f hf => (slim_buildDiscover s h.cleanNode f hf).plain

theorem entries_fields :
    (parseKvPairs ((filled (discoverSlots g.rpc (uptime g s).1)).map Field.token)).entries =
      filled (discoverSlots g.rpc (uptime g s).1) :=
  entries_parseKvPairs (h.plain_of_mem s)
    ((keys_filled _).nodup (nodup_keys_discoverSlots g.rpc _))

theorem get_fields (key : Text) :
    (parseKvPairs ((filled (discoverSlots g.rpc (uptime g s).1)).map Field.token)).get key =
      ((discoverSlots g.rpc (uptime g s).1).find? (fun e => e.1 = key)).bind Prod.snd := by
  rw [Dict.get, h.entries_fields s]
  exact find_filled (nodup_keys_discoverSlots g.rpc _) key

theorem features_fields : (parseKvPairs ((filled (discoverSlots g.rpc (uptime g s).1)).map
    Field.token)).entries.filter (fun e => e.1 ∉ coreKeys) = [] := by
  rw [h.entries_fields s, List.filter_eq_nil_iff]
  intro f hf
  have hkey := (keys_filled _).mem (List.mem_map_of_mem hf)
  rw [keys_discoverSlots] at hkey
  have hcore : ∀ k ∈ slimKeys.take 6, k ∈ coreKeys := by decide
  rw [decide_eq_true_eq, not_not]
  exact hcore f.1 hkey

theorem parseDiscover_eq (py : Python F) (reply : ReplyBuffer)
    (hfits : (wholeLine g s).length ≤ maxReply - 1) :
    py.parseDiscover (some (discoveryLine g s reply)) = .ok (py.discoverOf
      (strip (wholeLine g s)) none (g.rpc.nodeName ::
        (filled (discoverSlots g.rpc (uptime g s).1)).map Field.token)) := by
  rw [discoveryLine_eq s h reply hfits]
  exact parseDiscover_name_fieldsText h.name h.name_ne_nil (h.plain_of_mem s) py

end Discoverable

section RoundTrip

variable {S R F : Type} {g : Node S R}

theorem orText_some {t : Text} (h : t ≠ []) (b : Option Text) : orText (some t) b = some t := by
  cases t with
  | nil => exact absurd rfl h
  | cons c t => rfl

theorem orText_ite (t : Text) :
    orText (if t ≠ [] then some t else none) none = if t ≠ [] then some t else none := by
  split
  · next hne => exact orText_some hne none
  · rfl

theorem coerceNumber_uptime {py : Python F} (hpy : py.Regular) (g : Node S R) (s : S) :
    (uptime g s).1.map py.coerceNumber = g.callbacks.uptime.bind
      (fun uptime => (formatUptime (uptime s).1 16).map PyValue.str) := by
  rw [uptime_eq]
  cases g.callbacks.uptime with
  | none => rfl
  | some f =>
    rw [Option.map_some, Option.map_some, Option.bind_some, formatUptime_eq _ le_rfl,
      Option.map_some, hpy.coerceNumber_uptimeText (f s).1.toNat_lt]

/-- The discovery line of a node reads back as the node's configuration. -/
theorem discovery_roundTrip {py : Python F} (hpy : py.Regular) (h : Discoverable g) (s : S)
    (reply : ReplyBuffer) (hfits : (wholeLine g s).length ≤ 191) :
    ∃ d, py.parseDiscover (some (discoveryLine g s reply)) = .ok d ∧
      d.device = g.rpc.nodeName ∧
      d.identityId = some (lower (g.rpc.nodeId.take 8)) ∧
      d.firmware = some g.rpc.firmware ∧
      d.wireVersion = some "1.2".toList ∧
      d.tag = (if primaryTag g.rpc ≠ [] then some (primaryTag g.rpc) else none) ∧
      d.uptime = g.callbacks.uptime.bind
        (fun uptime => (formatUptime (uptime s).1 16).map PyValue.str) ∧
      d.capabilities.Pairwise (· < ·) ∧
      ∀ c, c ∈ d.capabilities ↔ ∃ n ∈ g.rpc.capabilities.names, c = lower n := by
  have hget := h.get_fields s
  have hcaps : (parseKvPairs ((filled (discoverSlots g.rpc (uptime g s).1)).map
      Field.token)).get "caps".toList = if g.rpc.capabilities.names = [] then none
        else some (join [','] (canonicalNames g.rpc.capabilities.names)) :=
    (hget _).trans h.capsCsv
  have hcapabilities := py.capabilitiesOf_eq h.capability hcaps
  rw [← h.features_fields s] at hcapabilities
  refine ⟨_, h.parseDiscover_eq s py reply hfits, rfl, (hget _).trans h.shortId8, ?_, ?_, ?_, ?_,
    ?_⟩
  case refine_1 =>
    exact (congrArg (orText · _) (hget _)).trans (orText_some h.firmware_ne_nil _)
  case refine_2 =>
    exact (congrArg (orText · _) (hget _)).trans (orText_some (List.cons_ne_nil _ _) _)
  case refine_3 =>
    change orText _ _ = _
    rw [hget, hget]
    exact orText_ite (primaryTag g.rpc)
  case refine_4 =>
    change ((List.find? _ _).map _).or ((List.find? _ _).map _) = _
    rw [Python.find_coerceFields, Python.find_coerceFields, hget, hget]
    exact (Option.or_none).trans (coerceNumber_uptime hpy g s)
  case refine_5 =>
    change (py.capabilitiesOf _ _).Pairwise _ ∧ ∀ c, c ∈ py.capabilitiesOf _ _ ↔ _
    rw [hcapabilities]
    exact ⟨strict_sortedSet _, fun c => mem_canonicalNames⟩

def beaconNode : Node Unit Unit where
  rpc := { trackerNode.rpc with
    tag := "beacon".toList
    capabilities := ⟨["Relay".toList, "gps".toList], by decide⟩ }
  callbacks := { uptime := some (fun s => (3725, s)) }

theorem canonicalNames_beacon :
    canonicalNames beaconNode.rpc.capabilities.names = ["gps".toList, "relay".toList] :=
  (eq_sortedSet (List.pairwise_pair.mpr (by rw [NotAfter]; decide)) (by decide)
    (fun _ => (List.Perm.swap _ _ _).mem_iff)).symm

theorem discoverable_beacon : Discoverable beaconNode where
  name_ne_nil := List.cons_ne_nil _ _
  name := forall_of_all rfl
  name_lt := by decide
  nodeId := forall_of_all rfl
  eight_le := by decide
  firmware_ne_nil := List.cons_ne_nil _ _
  firmware := clean_word rfl
  firmware_lt := by decide
  tag := clean_word rfl
  tag_lt := by decide
  profile := clean_word rfl
  profile_lt := by decide
  capability := List.forall_mem_cons.mpr
    ⟨⟨List.cons_ne_nil _ _, forall_of_all rfl, clean_word rfl, by decide, by decide⟩,
      List.forall_mem_singleton.mpr
        ⟨List.cons_ne_nil _ _, forall_of_all rfl, clean_word rfl, by decide, by decide⟩⟩
  capabilities_lt := by
    rw [canonicalNames_beacon]
    decide
  features _ hk := absurd hk List.not_mem_nil

theorem discovery_roundTrip_beacon :
    ∃ d, Python.ascii.parseDiscover (some (discoveryLine beaconNode () .init)) = .ok d ∧
      d.device = "tracker".toList ∧
      d.identityId = some "3cbb01c6".toList ∧
      d.firmware = some "1.0".toList ∧
      d.wireVersion = some "1.2".toList ∧
      d.tag = some "beacon".toList ∧
      d.uptime = some (.str "1h2m".toList) ∧
      d.capabilities.Pairwise (· < ·) ∧
      ∀ c, c ∈ d.capabilities ↔ ∃ n ∈ ["Relay".toList, "gps".toList], c = lower n :=
  discovery_roundTrip Python.ascii_regular discoverable_beacon () .init (by decide +kernel)

end RoundTrip
end Mcrpc
