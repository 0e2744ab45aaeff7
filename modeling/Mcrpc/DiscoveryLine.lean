import Mcrpc.CanonicalSet
import Mcrpc.Features
import Mcrpc.StatusLine
import Mcrpc.ReplyLine
import Mcrpc.Python.Discover

/-!
# The discovery line of a node

`McRpc::buildDiscover` writes the slim form of protocol 1.2, whose keys are those of `slimKeys`. The
Python classifier asks for `profile`, `protocol` or `sdk`, none of which the slim form has, so no
discovery line is recognised as one, cut or whole, with or without a request id.
-/

namespace Mcrpc

open Scan

def slimKeys : List Text :=
  ["id".toList, "fw".toList, "v".toList, "tag".toList, "up".toList, "caps".toList,
    "display".toList, "relay".toList, "led".toList]

/-- A C string without white space. -/
def Clean (s : Text) : Prop := nul ∉ s ∧ ∀ c ∈ s, isSpace c = false

theorem Clean.of_subset {s t : Text} (h : Clean s) (hsub : ∀ c ∈ t, c ∈ s) : Clean t :=
  ⟨fun hn => h.1 (hsub nul hn), fun c hc => h.2 c (hsub c hc)⟩

theorem Clean.of_all {s : Text} (h : ∀ c ∈ s, c ≠ nul ∧ isSpace c = false) : Clean s :=
  ⟨fun hn => (h nul hn).1 rfl, fun c hc => (h c hc).2⟩

theorem clean_of_ascii_graph {s : Text} (h : ∀ c ∈ s, 33 ≤ c.toNat ∧ c.toNat < 127) : Clean s := by
  refine Clean.of_all (fun c hc => ⟨?_, ?_⟩)
  · rintro rfl
    exact absurd (h nul hc).1 (by decide)
  · have := h c hc
    rw [← Bool.not_eq_true, isSpace_iff]
    omega

theorem Clean.append {s t : Text} (hs : Clean s) (ht : Clean t) : Clean (s ++ t) :=
  ⟨fun h => (List.mem_append.mp h).elim hs.1 ht.1,
    fun c hc => (List.mem_append.mp hc).elim (hs.2 c) (ht.2 c)⟩

theorem toLower_clean {c : Char} (h : c ≠ nul ∧ isSpace c = false) :
    c.toLower ≠ nul ∧ isSpace c.toLower = false := by
  have hzero : nul.toNat = 0 := rfl
  rw [ne_eq, Ascii.eq_iff_toNat, ← Bool.not_eq_true, isSpace_iff] at h
  rw [ne_eq, Ascii.eq_iff_toNat, ← Bool.not_eq_true, isSpace_iff, Ascii.toNat_toLower]
  split_ifs <;> omega

theorem Clean.lower {s : Text} (h : Clean s) : Clean (lower s) := by
  refine Clean.of_all (fun c hc => ?_)
  obtain ⟨d, hd, rfl⟩ := List.mem_map.mp hc
  exact toLower_clean ⟨fun hn => h.1 (hn ▸ hd), h.2 d hd⟩

theorem clean_word {s : Text} (h : s.all (fun c => 33 ≤ c.toNat && c.toNat < 127) = true) :
    Clean s := by
  refine clean_of_ascii_graph (fun c hc => ?_)
  simpa using List.all_eq_true.mp h c hc

theorem clean_uptimeText {seconds : ℕ} (h : seconds < 2 ^ 32) : Clean (uptimeText seconds) := by
  refine clean_of_ascii_graph (fun c hc => ?_)
  rcases mem_uptimeText h hc with hdigit | hunit
  · have := isDigit_iff.mp hdigit
    omega
  · have hall : uptimeUnits.all (fun u => 33 ≤ u.toNat && u.toNat < 127) = true := rfl
    simpa using List.all_eq_true.mp hall c hunit

theorem clean_formatUptime {seconds : UInt32} {up : Text}
    (h : formatUptime seconds 16 = some up) : Clean up := by
  rw [formatUptime_eq _ le_rfl] at h
  exact Option.some.inj h ▸ clean_uptimeText seconds.toNat_lt

theorem clean_shortId8 {full id8 : Text} (hfull : Clean full) (h : shortId8 full = some id8) :
    Clean id8 := by
  rw [shortId8] at h
  split at h
  · cases h
  · obtain rfl := Option.some.inj h
    refine Clean.of_all (fun c hc => ?_)
    obtain ⟨d, hd, rfl⟩ := List.mem_map.mp hc
    have hd := List.mem_of_mem_take hd
    have hclean : d ≠ nul ∧ isSpace d = false := ⟨fun hn => hfull.1 (hn ▸ hd), hfull.2 d hd⟩
    rw [lowerHex]
    split
    · exact toLower_clean hclean
    · exact hclean

theorem mem_join {sep c : Char} {ts : List Text} (h : c ∈ join [sep] ts) :
    c = sep ∨ ∃ t ∈ ts, c ∈ t := by
  cases ts with
  | nil => cases h
  | cons t ts =>
    rw [join_cons] at h
    rcases List.mem_append.mp h with h | h
    · exact .inr ⟨t, List.mem_cons_self, h⟩
    · obtain ⟨u, hu, hc⟩ := List.mem_flatMap.mp h
      rcases List.mem_cons.mp hc with rfl | hc
      · exact .inl rfl
      · exact .inr ⟨u, List.mem_cons_of_mem t hu, hc⟩

theorem mem_join_csvTokens {names : List Text} {c : Char}
    (h : c ∈ join [','] (csvTokens (names.map some))) :
    c = ',' ∨ ∃ n ∈ names, ∃ d ∈ n, d.toLower = c := by
  refine (mem_join h).imp id (fun ⟨t, ht, hc⟩ => ?_)
  rw [csvTokens, (perm_insertionSort _).mem_iff] at ht
  obtain ⟨n, hn, -, rfl⟩ := (mem_of_mem_collectTokens ht).resolve_left List.not_mem_nil
  obtain ⟨m, hm, he⟩ := List.mem_map.mp hn
  obtain rfl := Option.some.inj he
  obtain ⟨d, hd, hlower⟩ := List.mem_map.mp hc
  exact ⟨m, hm, d, List.mem_of_mem_take hd, hlower⟩

theorem nul_not_mem_join_csvTokens {names : List Text} (h : ∀ n ∈ names, nul ∉ n) :
    nul ∉ join [','] (csvTokens (names.map some)) := by
  intro hmem
  rcases mem_join_csvTokens hmem with he | ⟨n, hn, d, hd, hlower⟩
  · exact absurd he (by decide)
  · have hcode := (Ascii.toNat_toLower d).symm.trans (congrArg Char.toNat hlower)
    have hzero : nul.toNat = 0 := rfl
    refine h n hn ((Ascii.eq_iff_toNat d nul).mpr ?_ ▸ hd)
    split_ifs at hcode <;> omega

theorem clean_join_csvTokens {names : List Text} (h : ∀ n ∈ names, Clean n) :
    Clean (join [','] (csvTokens (names.map some))) := by
  refine Clean.of_all (fun c hc => ?_)
  rcases mem_join_csvTokens hc with rfl | ⟨n, hn, d, hd, rfl⟩
  · decide
  · exact toLower_clean ⟨fun hnul => (h n hn).1 (hnul ▸ hd), (h n hn).2 d hd⟩

theorem capsCsv_eq {capabilities : CapabilityRegistry}
    (h : ∀ n ∈ capabilities.names, nul ∉ n) : capsCsv capabilities =
      if capabilities.names ≠ [] ∧
          (join [','] (csvTokens (capabilities.names.map some))).length < capsCsvSize
        then some (join [','] (csvTokens (capabilities.names.map some))) else none := by
  have hsize : List.replicate capsCsvSize nul ≠ [] := by
    rw [ne_eq, List.replicate_eq_nil_iff]
    decide
  have hnul := nul_not_mem_join_csvTokens h
  obtain ⟨hiff, hspec⟩ := canonicalizeCsv_spec (capabilities.names.map some) hsize
  rw [List.length_replicate] at hiff
  rw [capsCsv]
  split
  · next hnil => rw [if_neg (fun hboth => hboth.1 hnil)]
  · next hne =>
    split
    · next out hout =>
      rw [hout] at hiff hspec
      obtain ⟨rest, rfl⟩ := hspec rfl
      rw [if_pos ⟨hne, hiff.mp rfl⟩, List.takeWhile_append_of_pos (all_ne_of_not_mem hnul),
        List.takeWhile_cons_of_neg (by simp), List.append_nil]
    · next out hout =>
      rw [hout] at hiff
      rw [if_neg (fun hboth => Bool.false_ne_true (hiff.mpr hboth.2))]

theorem clean_capsCsv {capabilities : CapabilityRegistry} {csv : Text}
    (hnames : ∀ n ∈ capabilities.names, Clean n) (h : capsCsv capabilities = some csv) :
    Clean csv := by
  rw [capsCsv_eq (fun n hn => (hnames n hn).1)] at h
  split at h
  · exact Option.some.inj h ▸ clean_join_csvTokens hnames
  · cases h

/-! ### The fields -/

def isKey (k : Text) : Bool :=
  !k.isEmpty && k.all (fun c => 33 ≤ c.toNat && c.toNat < 127) && k.all (· ≠ '=')

theorem clean_of_isKey {key : Text} (h : isKey key = true) :
    key ≠ [] ∧ Clean key ∧ '=' ∉ key := by
  rw [isKey, Bool.and_eq_true, Bool.and_eq_true] at h
  refine ⟨fun hnil => ?_, clean_word h.1.2, fun hmem => ?_⟩
  · rw [hnil] at h
    exact absurd h.1.1 (by decide)
  · exact absurd (List.all_eq_true.mp h.2 '=' hmem) (by decide)

structure Field.Writable (f : Field) : Prop where
  key : isKey f.1 = true
  value : Clean f.2

theorem Field.Writable.plain {f : Field} (h : f.Writable) : f.Plain := by
  obtain ⟨hne, hclean, heq⟩ := clean_of_isKey h.key
  exact ⟨hne, fun c hc => ⟨fun he => heq (he ▸ hc), hclean.2 c hc⟩, h.value.2⟩

theorem Field.Writable.nul_not_mem {f : Field} (h : f.Writable) : nul ∉ f.text :=
  f.nul_not_mem_text (clean_of_isKey h.key).2.1.1 h.value.1

/-- A field of the slim form that is whole tokens of the line. -/
def SlimField (f : Field) : Prop := f.1 ∈ slimKeys ∧ Clean f.2

namespace DiscoverBuilder

def Slim (d : DiscoverBuilder) : Prop := ∀ f ∈ d.fields, SlimField f

theorem Slim.add {d : DiscoverBuilder} (hd : d.Slim) {key value : Text} (hkey : key ∈ slimKeys)
    (hvalue : Clean value) : (d.add key value).2.Slim := by
  rw [DiscoverBuilder.add]
  split
  · exact hd
  · intro f hf
    rcases List.mem_append.mp hf with hf | hf
    · exact hd f hf
    · rw [List.mem_singleton.mp hf]
      exact ⟨hkey, hvalue.of_subset (fun _ => List.mem_of_mem_take)⟩

end DiscoverBuilder

def addField (d : DiscoverBuilder) (key : Text) : Option Text → DiscoverBuilder
  | some value => (d.add key value).2
  | none => d

theorem slim_addField {d : DiscoverBuilder} (hd : d.Slim) {key : Text} (hkey : key ∈ slimKeys)
    {value : Option Text} (hvalue : ∀ v ∈ value, Clean v) : (addField d key value).Slim := by
  cases value with
  | none => exact hd
  | some v => exact hd.add hkey (hvalue v rfl)

theorem name_addField (d : DiscoverBuilder) (key : Text) (value : Option Text) :
    (addField d key value).name = d.name := by
  cases value with
  | none => rfl
  | some v => exact d.name_add key v

def primaryTag (rpc : McRpc Handler FeatureKind) : Text :=
  if rpc.tag ≠ [] then rpc.tag else rpc.profile

/-- The fields `buildDiscover` adds before those of the features, each when it has a value. -/
def discoverSlots (rpc : McRpc Handler FeatureKind) (up : Option Text) :
    List (Text × Option Text) :=
  [("id".toList, shortId8 rpc.nodeId), ("fw".toList, some rpc.firmware),
    ("v".toList, some protocolVersionString),
    ("tag".toList, if primaryTag rpc ≠ [] then some (primaryTag rpc) else none),
    ("up".toList, up), ("caps".toList, capsCsv rpc.capabilities)]

theorem keys_discoverSlots (rpc : McRpc Handler FeatureKind) (up : Option Text) :
    (discoverSlots rpc up).map Prod.fst = slimKeys.take 6 := rfl

theorem nodup_keys_discoverSlots (rpc : McRpc Handler FeatureKind) (up : Option Text) :
    ((discoverSlots rpc up).map Prod.fst).Nodup := by
  rw [keys_discoverSlots]
  decide

theorem forall_discoverSlots {P : Text → Prop} {rpc : McRpc Handler FeatureKind}
    {up : Option Text} (hid : ∀ v ∈ shortId8 rpc.nodeId, P v) (hfw : P rpc.firmware)
    (hversion : P protocolVersionString) (htag : P (primaryTag rpc)) (hup : ∀ v ∈ up, P v)
    (hcaps : ∀ v ∈ capsCsv rpc.capabilities, P v) :
    ∀ e ∈ discoverSlots rpc up, ∀ v ∈ e.2, P v := by
  intro e he
  simp only [discoverSlots, List.mem_cons, List.not_mem_nil, or_false] at he
  rcases he with rfl | rfl | rfl | rfl | rfl | rfl
  · exact hid
  · exact fun v hv => Option.some.inj hv ▸ hfw
  · exact fun v hv => Option.some.inj hv ▸ hversion
  · intro v hv
    dsimp only at hv
    split at hv
    · exact Option.some.inj hv ▸ htag
    · cases hv
  · exact hup
  · exact hcaps

def addSlots (d : DiscoverBuilder) (slots : List (Text × Option Text)) : DiscoverBuilder :=
  slots.foldl (fun d e => addField d e.1 e.2) d

theorem slim_addSlots {d : DiscoverBuilder} (hd : d.Slim) {slots : List (Text × Option Text)}
    (hkeys : ∀ k ∈ slots.map Prod.fst, k ∈ slimKeys) (hvalues : ∀ e ∈ slots, ∀ v ∈ e.2, Clean v) :
    (addSlots d slots).Slim := by
  induction slots generalizing d with
  | nil => exact hd
  | cons e slots ih =>
    obtain ⟨hkey, hkeys⟩ := List.forall_mem_cons.mp hkeys
    obtain ⟨hvalue, hvalues⟩ := List.forall_mem_cons.mp hvalues
    exact ih (slim_addField hd hkey hvalue) hkeys hvalues

theorem name_addSlots (d : DiscoverBuilder) (slots : List (Text × Option Text)) :
    (addSlots d slots).name = d.name := by
  induction slots generalizing d with
  | nil => rfl
  | cons e slots ih => exact (ih _).trans (name_addField d e.1 e.2)

def coreDiscover (rpc : McRpc Handler FeatureKind) (up : Option Text) : DiscoverBuilder :=
  addSlots (DiscoverBuilder.reset.setNodeName rpc.nodeName) (discoverSlots rpc up)

section Node

variable {S R : Type} (g : Node S R) (s : S)

theorem addField_ite (d : DiscoverBuilder) (key value : Text) :
    addField d key (if value ≠ [] then some value else none) =
      if value ≠ [] then (d.add key value).2 else d := by
  split <;> rfl

theorem buildDiscover_eq : buildDiscover g s =
    (g.rpc.features.features.foldl contributeDiscover (coreDiscover g.rpc (uptime g s).1),
      (uptime g s).2) := by
  simp only [coreDiscover, addSlots, discoverSlots, List.foldl_cons, List.foldl_nil, addField_ite]
  rfl

theorem uptime_fst : (uptime g s).1 =
    g.callbacks.uptime.bind (fun uptime => formatUptime (uptime s).1 16) := by
  obtain ⟨rpc, ⟨publish, publishEx, entropy, callback, rssi⟩, host, engine, count⟩ := g
  cases callback <;> rfl

theorem clean_uptime : ∀ up ∈ (uptime g s).1, Clean up := by
  intro up h
  rw [uptime_fst, Option.mem_def, Option.bind_eq_some_iff] at h
  obtain ⟨f, -, hup⟩ := h
  exact clean_formatUptime hup

structure CleanNode : Prop where
  nodeId : Clean g.rpc.nodeId
  firmware : Clean g.rpc.firmware
  tag : Clean g.rpc.tag
  profile : Clean g.rpc.profile
  capabilities : ∀ n ∈ g.rpc.capabilities.names, Clean n

variable {g}

theorem CleanNode.clean_primaryTag (h : CleanNode g) : Clean (primaryTag g.rpc) := by
  rw [primaryTag]
  split
  · exact h.tag
  · exact h.profile

theorem CleanNode.clean_discoverSlots (h : CleanNode g) :
    ∀ e ∈ discoverSlots g.rpc (uptime g s).1, ∀ v ∈ e.2, Clean v :=
  forall_discoverSlots (fun _ => clean_shortId8 h.nodeId) h.firmware (clean_word rfl)
    h.clean_primaryTag (clean_uptime g s) (fun _ => clean_capsCsv h.capabilities)

theorem slim_coreDiscover (h : CleanNode g) : (coreDiscover g.rpc (uptime g s).1).Slim :=
  slim_addSlots (fun _ hf => absurd hf List.not_mem_nil)
    (fun _ hk => List.mem_of_mem_take (keys_discoverSlots g.rpc (uptime g s).1 ▸ hk))
    (h.clean_discoverSlots s)

theorem slim_contributeDiscover {d : DiscoverBuilder} (hd : d.Slim) (k : FeatureKind) :
    (contributeDiscover d k).Slim := by
  have hyes : Clean "yes".toList := clean_word rfl
  cases k with
  | display => exact hd.add (by decide) hyes
  | relay => exact hd.add (by decide) hyes
  | led => exact hd.add (by decide) hyes
  | _ => exact hd

theorem name_contributeDiscover (d : DiscoverBuilder) (k : FeatureKind) :
    (contributeDiscover d k).name = d.name := by
  cases k <;> first | rfl | exact d.name_add _ _

/-- Every field of the discovery is one of the slim form. -/
theorem slim_buildDiscover (h : CleanNode g) : (buildDiscover g s).1.Slim := by
  rw [buildDiscover_eq]
  have hcore := slim_coreDiscover s h
  generalize coreDiscover g.rpc (uptime g s).1 = d at hcore
  induction g.rpc.features.features generalizing d with
  | nil => exact hcore
  | cons k features ih => exact ih _ (slim_contributeDiscover hcore k)

variable (g)

theorem name_buildDiscover : (buildDiscover g s).1.name = copyToken maxToken g.rpc.nodeName := by
  have hcore : (coreDiscover g.rpc (uptime g s).1).name = copyToken maxToken g.rpc.nodeName := by
    rw [coreDiscover, name_addSlots]
    rfl
  rw [buildDiscover_eq]
  generalize coreDiscover g.rpc (uptime g s).1 = d at hcore
  induction g.rpc.features.features generalizing d with
  | nil => exact hcore
  | cons k features ih => exact ih _ ((name_contributeDiscover d k).trans hcore)

end Node

/-! ### The line -/

/-- A discovery line is whole fields, then at most the key of another one. -/
theorem exists_fields_of_writeTo {d : DiscoverBuilder} (hd : d.Slim) (hne : d.name ≠ [])
    (reply : ReplyBuffer) : ∃ fields rest, (∀ f ∈ fields, SlimField f) ∧
      (d.writeTo reply).text = d.name ++ fieldsText fields ++ rest ∧
      (rest = [] ∨ ∃ key, rest = ' ' :: key ∧ (key = [] ∨ key ∈ slimKeys)) := by
  have hroom : d.name.length ≤ maxReply - 1 := by
    have hlt := d.name_lt
    have hsize : maxToken ≤ maxReply - 1 := by decide
    omega
  have htake (j : ℕ) : ∀ f ∈ d.fields.take j, SlimField f := fun f hf =>
    hd f (List.mem_of_mem_take hf)
  rw [d.text_writeTo reply hne]
  obtain ⟨j, hwhole | ⟨i, r, hi, hr, hcut⟩⟩ :=
    Bounded.pushUntil_eq_cut hroom (d.fields.map Field.item)
  · refine ⟨d.fields.take j, [], htake j, ?_, .inl rfl⟩
    rw [hwhole, ← List.map_take, flatMap_text_item, List.append_nil]
  · rw [List.getElem?_map, Option.map_eq_some_iff] at hi
    obtain ⟨f, hf, rfl⟩ := hi
    have hslim := hd f (List.mem_of_getElem? hf)
    rw [← List.map_take, flatMap_text_item] at hcut
    change r < 4 at hr
    rw [hcut]
    obtain rfl | rfl | rfl | rfl : r = 0 ∨ r = 1 ∨ r = 2 ∨ r = 3 := by omega
    · exact ⟨d.fields.take j, [], htake j, rfl, .inl rfl⟩
    · exact ⟨d.fields.take j, [' '], htake j, rfl, .inr ⟨[], rfl, .inl rfl⟩⟩
    · refine ⟨d.fields.take j, ' ' :: f.1, htake j, ?_, .inr ⟨f.1, rfl, .inr hslim.1⟩⟩
      simp [Field.item, Bounded.Item.written]
    · -- a key and `=` is a field without a value
      refine ⟨d.fields.take j ++ [(f.1, [])], [], ?_, ?_, .inl rfl⟩
      · intro f' hf'
        rcases List.mem_append.mp hf' with hf' | hf'
        · exact htake j f' hf'
        · rw [List.mem_singleton.mp hf']
          exact ⟨hslim.1, clean_word rfl⟩
      · simp [Field.item, Bounded.Item.written, fieldsText, Field.text]

def SlimTokens (tokens : List Text) : Prop :=
  ∀ t ∈ tokens, '=' ∈ t → (partition '=' t).1 ∈ slimKeys

theorem SlimTokens.of_subset {ts us : List Text} (h : SlimTokens ts) (hsub : ∀ u ∈ us, u ∈ ts) :
    SlimTokens us := fun u hu => h u (hsub u hu)

theorem SlimTokens.append {ts us : List Text} (ht : SlimTokens ts) (hu : SlimTokens us) :
    SlimTokens (ts ++ us) := fun t h => (List.mem_append.mp h).elim (ht t) (hu t)

theorem slimTokens_singleton {t : Text} (h : '=' ∉ t) : SlimTokens [t] := fun _ hu he =>
  absurd (List.mem_singleton.mp hu ▸ he) h

theorem isKey_of_mem_slimKeys {key : Text} (h : key ∈ slimKeys) : isKey key = true :=
  List.all_eq_true.mp (by decide : slimKeys.all isKey = true) key h

theorem clean_slimKey {key : Text} (h : key ∈ slimKeys) : key ≠ [] ∧ Clean key ∧ '=' ∉ key :=
  clean_of_isKey (isKey_of_mem_slimKeys h)

theorem SlimField.writable {f : Field} (h : SlimField f) : f.Writable :=
  ⟨isKey_of_mem_slimKeys h.1, h.2⟩

theorem SlimField.plain {f : Field} (h : SlimField f) : f.Plain := h.writable.plain

theorem SlimField.nul_not_mem {f : Field} (h : SlimField f) : nul ∉ f.text :=
  h.writable.nul_not_mem

section Name

variable {name : Text} (hname : ∀ c ∈ name, isIdentChar c = true) (hne : name ≠ [])
  {fields : List Field} (hfields : ∀ f ∈ fields, f.Plain)

include hname hne hfields

theorem split_name_fieldsText :
    split (name ++ fieldsText fields) = name :: fields.map Field.token := by
  have hword : split name = [name] :=
    Words.words_eq_singleton hne (fun c hc => isSpace_of_isIdentChar (hname c hc))
  rw [split_append_fieldsText name hfields, hword, List.singleton_append]

theorem parseDiscover_name_fieldsText {F : Type} (py : Python F) :
    py.parseDiscover (some (name ++ fieldsText fields)) = .ok (py.discoverOf
      (strip (name ++ fieldsText fields)) none (name :: fields.map Field.token)) := by
  refine py.parseDiscover_of_split (split_name_fieldsText hname hne hfields) (fun digits he => ?_)
  exact absurd (hname '#' (he ▸ List.mem_cons_self)) (by decide)

end Name

theorem slimTokens_line {name : Text} (hname : ∀ c ∈ name, isIdentChar c = true) (hne : name ≠ [])
    {fields : List Field} (hfields : ∀ f ∈ fields, SlimField f) {rest : Text}
    (hrest : rest = [] ∨ ∃ key, rest = ' ' :: key ∧ (key = [] ∨ key ∈ slimKeys)) :
    SlimTokens (split (name ++ fieldsText fields ++ rest)) := by
  have heq : '=' ∉ name := fun h => absurd (hname '=' h) (by decide)
  have hwhole : SlimTokens (split (name ++ fieldsText fields)) := by
    rw [split_name_fieldsText hname hne (fun f hf => (hfields f hf).plain), ← List.singleton_append]
    refine (slimTokens_singleton heq).append (fun t ht _ => ?_)
    obtain ⟨f, hf, rfl⟩ := List.mem_map.mp ht
    rw [(hfields f hf).plain.partition_token]
    exact (hfields f hf).1
  rcases hrest with rfl | ⟨key, rfl, hkey⟩
  · rwa [List.append_nil]
  · rw [split, Words.words_append_cons (by decide)]
    refine hwhole.append ?_
    rcases hkey with rfl | hkey
    · rw [Words.words_nil]
      exact fun t ht => absurd ht List.not_mem_nil
    · obtain ⟨hne, hclean, heq⟩ := clean_slimKey hkey
      rw [Words.words_eq_singleton hne hclean.2]
      exact slimTokens_singleton heq

/-! ### The classifier -/

namespace Python

variable {F : Type} (py : Python F)

theorem get_parseKvPairs_of_slim {tokens : List Text} (h : SlimTokens tokens) {key : Text}
    (hkey : key ∉ slimKeys) : (parseKvPairs tokens).get key = none := by
  rw [Option.eq_none_iff_forall_ne_some]
  intro v hv
  obtain ⟨t, ht, heq, hpair⟩ := mem_parseKvPairs (Dict.mem_entries_iff.mpr hv)
  have := h t ht heq
  rw [hpair] at this
  exact hkey this

theorem kind_responseOf_ne_discover (text : Text) (rid : Option ℤ) {tokens : List Text}
    (h : SlimTokens tokens) : (py.responseOf text rid tokens).kind ≠ .discover := by
  cases tokens with
  | nil => exact ResponseKind.noConfusion
  | cons token rest =>
    have hrest : SlimTokens rest := h.of_subset (fun _ => List.mem_cons_of_mem token)
    rw [responseOf, get_parseKvPairs_of_slim hrest (by decide),
      get_parseKvPairs_of_slim hrest (by decide),
      get_parseKvPairs_of_slim hrest (by decide)]
    simp only [Option.isSome_none, Bool.or_self, Bool.false_eq_true, if_false]
    repeat'
      refine iteInduction (motive := fun r : ParsedResponse F => r.kind ≠ .discover)
        (fun _ => ?_) (fun _ => ?_)
    all_goals exact ResponseKind.noConfusion

theorem mem_of_takeRequestId {tokens tokens' : List Text} {rid : Option ℤ}
    (h : py.takeRequestId tokens = .ok (rid, tokens')) : ∀ t ∈ tokens', t ∈ tokens := by
  rcases py.takeRequestId_ok h with ⟨digits, n, rfl, -⟩ | ⟨rfl, -⟩
  · exact fun t => List.mem_cons_of_mem _
  · exact fun _ ht => ht

def RecognisesDiscovery (name line : Text) : Prop :=
  ∃ resp, py.parseResponse (some line) = .ok resp ∧ resp.kind = .discover ∧
    resp.device = some name

theorem not_recognisesDiscovery {line : Text} (h : SlimTokens (split line)) (name : Text) :
    ¬ py.RecognisesDiscovery name line := by
  rintro ⟨resp, hparse, hkind, -⟩
  cases htake : py.takeRequestId (split line) with
  | error e =>
    rw [parseResponse, Option.getD_some, splitTokens_eq_split, split_strip, stripRequestId_eq,
      htake] at hparse
    cases hparse
  | ok r =>
    rw [py.parseResponse_of_eq htake] at hparse
    rw [← Except.ok.inj hparse] at hkind
    exact py.kind_responseOf_ne_discover _ _ (h.of_subset (py.mem_of_takeRequestId htake)) hkind

end Python

section Recognition

variable {S R F : Type}

def discoveryLine (g : Node S R) (s : S) (reply : ReplyBuffer) : Text :=
  ((buildDiscover g s).1.writeTo reply).cstr

theorem slimTokens_discoveryLine {g : Node S R} (hg : CleanNode g)
    (hname : ∀ c ∈ g.rpc.nodeName, isIdentChar c = true) (hne : g.rpc.nodeName ≠ []) (s : S)
    (reply : ReplyBuffer) : SlimTokens (split (discoveryLine g s reply)) := by
  have hsame := name_buildDiscover g s
  have hcut : ∀ c ∈ (buildDiscover g s).1.name, isIdentChar c = true := fun c hc =>
    hname c (List.mem_of_mem_take (hsame ▸ hc))
  have hnonempty : (buildDiscover g s).1.name ≠ [] := hsame ▸ copyToken_ne_nil hne
  obtain ⟨fields, rest, hfields, htext, hrest⟩ :=
    exists_fields_of_writeTo (slim_buildDiscover s hg) hnonempty reply
  have hline : nul ∉ (buildDiscover g s).1.name ++ fieldsText fields :=
    List.not_mem_append (fun h => absurd (hcut nul h) (by decide))
      (nul_not_mem_fieldsText (fun f hf => (hfields f hf).nul_not_mem))
  have hcutKey : nul ∉ rest := by
    intro h
    rcases hrest with rfl | ⟨key, rfl, hkey⟩
    · cases h
    · rcases List.mem_cons.mp h with he | h
      · exact absurd he (by decide)
      · rcases hkey with rfl | hkey
        · cases h
        · exact (clean_slimKey hkey).2.1.1 h
  rw [discoveryLine, ReplyBuffer.cstr_of_text _ htext (List.not_mem_append hline hcutKey)]
  exact slimTokens_line hcut hnonempty hfields hrest

/-- The request id in front of a line adds at most a token without `=`. -/
theorem slimTokens_prefixed {line : Text} (h : SlimTokens (split line)) (hnul : nul ∉ line)
    (reply : ReplyBuffer) (req : Request) :
    SlimTokens (split (Dispatcher.writePrefixed reply req line).cstr) := by
  have hprefix (t : Text) (ht : SlimTokens (split t)) :
      SlimTokens (split (req.prefixText ++ t)) := by
    rw [Request.prefixText]
    split
    · rw [idPrefix, split_hash_decimal]
      refine (slimTokens_singleton fun heq => ?_).append ht
      rcases List.mem_cons.mp heq with he | hdigit
      · cases he
      · exact absurd (isDigit_of_mem_decimal hdigit) (by decide)
    · exact ht
  rw [Dispatcher.cstr_writePrefixed reply req hnul, Dispatcher.text_writePrefixed]
  split
  · exact hprefix line h
  · have hnil := hprefix [] (fun t ht => absurd ht List.not_mem_nil)
    rwa [List.append_nil] at hnil

/-- No discovery line of a node is recognised as one. -/
theorem discoveryLine_not_recognised (py : Python F) {g : Node S R} (hg : CleanNode g)
    (hname : ∀ c ∈ g.rpc.nodeName, isIdentChar c = true) (hne : g.rpc.nodeName ≠ []) (s : S)
    (reply out : ReplyBuffer) (req : Request) :
    ¬ py.RecognisesDiscovery g.rpc.nodeName (discoveryLine g s reply) ∧
    ¬ py.RecognisesDiscovery g.rpc.nodeName
      (Dispatcher.writePrefixed out req (discoveryLine g s reply)).cstr := by
  have hslim := slimTokens_discoveryLine hg hname hne s reply
  exact ⟨py.not_recognisesDiscovery hslim _, py.not_recognisesDiscovery
    (slimTokens_prefixed hslim (ReplyBuffer.nul_not_mem_cstr _) out req) _⟩

def trackerNode : Node Unit Unit where
  rpc := {
    nodeName := "tracker".toList
    nodeId := "3CBB01C6F2".toList
    firmware := "1.0".toList
    profile := "outdoor".toList
    capabilities := ⟨["gps".toList], by decide⟩ }

theorem cleanNode_tracker : CleanNode trackerNode where
  nodeId := clean_word rfl
  firmware := clean_word rfl
  tag := clean_word rfl
  profile := clean_word rfl
  capabilities := List.forall_mem_singleton.mpr (clean_word rfl)

theorem discoveryLine_not_recognised_tracker :
    ¬ Python.ascii.RecognisesDiscovery "tracker".toList
      (discoveryLine trackerNode () .init) ∧
    ¬ Python.ascii.RecognisesDiscovery "tracker".toList
      (Dispatcher.writePrefixed .init Dispatcher.pingSeven
        (discoveryLine trackerNode () .init)).cstr :=
  discoveryLine_not_recognised Python.ascii cleanNode_tracker (forall_of_all rfl)
    (List.cons_ne_nil _ _) () .init .init Dispatcher.pingSeven

/-- The line of `tracker` is a generic data line for the classifier. -/
theorem tracker_not_recognised :
    discoveryLine trackerNode () .init =
      "tracker id=3cbb01c6 fw=1.0 v=1.2 tag=outdoor caps=gps".toList ∧
    ¬ Python.ascii.RecognisesDiscovery "tracker".toList (discoveryLine trackerNode () .init) := by
  have hkind : (Python.ascii.parseResponse (some (discoveryLine trackerNode () .init))).toOption.map
      ParsedResponse.kind = some .data := by decide +kernel
  refine ⟨by decide +kernel, ?_⟩
  rintro ⟨resp, hparse, hdiscover, -⟩
  rw [hparse] at hkind
  cases hdiscover.symm.trans (Option.some.inj hkind)

end Recognition

end Mcrpc
