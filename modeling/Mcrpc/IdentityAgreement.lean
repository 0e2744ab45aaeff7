import Mcrpc.DiscoveryRoundTrip
import Mcrpc.Python.Fields

/-!
# Status and discovery on the identity of a node

A status line and a discovery line of one node carry the same id, firmware and tag. Of the status
line the Python package reports the values `coerce_number` makes of them, of the discovery line the
strings, so the two reports agree exactly when no value reads as a number, and the node's name is
not taken for a request id.
-/

namespace Mcrpc

open Scan

/-! ### The values of the fields -/

def cutSlots (slots : List (Text × Option Text)) : List (Text × Option Text) :=
  slots.map (fun e => (e.1, e.2.map (copyToken maxToken)))

theorem filled_cutSlots (slots : List (Text × Option Text)) :
    filled (cutSlots slots) = (filled slots).map Field.cut := by
  induction slots with
  | nil => rfl
  | cons e slots ih =>
    obtain ⟨key, value⟩ := e
    cases value with
    | none => exact ih
    | some v => exact congrArg (Field.cut (key, v) :: ·) ih

theorem keys_cutSlots (slots : List (Text × Option Text)) :
    (cutSlots slots).map Prod.fst = slots.map Prod.fst := by
  rw [cutSlots, List.map_map]
  rfl

theorem get_of_appends {R : Type} [CFloat R] {slots : List (Text × Option Text)}
    {fields : List Field} (happ : Appends R ((filled slots).map Field.cut) fields)
    (hwritable : ∀ f ∈ fields, f.Writable) (hkeys : (slots.map Prod.fst).Nodup) {key : Text}
    (hkey : key ∉ featureKeys) : (parseKvPairs (fields.map Field.token)).get key =
      ((slots.find? (fun e => e.1 = key)).bind Prod.snd).map (copyToken maxToken) := by
  obtain ⟨added, rfl, hadded⟩ := happ
  obtain ⟨hcore, hrest⟩ := List.forall_mem_append.mp hwritable
  have hother : ∀ tok ∈ added.map Field.token, '=' ∈ tok → (partition '=' tok).1 ≠ key := by
    intro tok htok _ he
    obtain ⟨f, hf, rfl⟩ := List.mem_map.mp htok
    rw [(hrest f hf).plain.partition_token] at he
    exact hkey (he ▸ (hadded f hf).1)
  have hnodup : ((filled (cutSlots slots)).map Prod.fst).Nodup :=
    (keys_filled _).nodup (by rwa [keys_cutSlots])
  rw [← filled_cutSlots] at hcore
  rw [List.map_append, parseKvPairs, List.foldl_append, get_foldl_addPair_of_ne hother,
    ← parseKvPairs, Dict.get, ← filled_cutSlots,
    entries_parseKvPairs (fun f hf => (hcore f hf).plain) hnodup,
    find_filled (by rwa [keys_cutSlots]), cutSlots, List.find?_map, Option.bind_map,
    Option.map_bind]
  rfl

/-! ### The lines of a node -/

structure Identified {S R : Type} (g : Node S R) : Prop extends CleanNode g where
  name_ne_nil : g.rpc.nodeName ≠ []
  name : Clean g.rpc.nodeName
  firmware_ne_nil : g.rpc.firmware ≠ []
  transport : Clean g.rpc.transport

def emittedTag (rpc : McRpc Handler FeatureKind) : Option Text :=
  if primaryTag rpc ≠ [] then some (copyToken maxToken (primaryTag rpc)) else none

theorem isKey_of_mem_featureKeys {key : Text} (h : key ∈ featureKeys) : isKey key = true :=
  List.all_eq_true.mp (by decide : featureKeys.all isKey = true) key h

theorem writable_of_appends {R : Type} [CFloat R] (hfixed : ∀ x : R, Clean (CFloat.fixed 2 x))
    {slots : List (Text × Option Text)} {fields : List Field}
    (happ : Appends R ((filled slots).map Field.cut) fields)
    (hkeys : ∀ k ∈ slots.map Prod.fst, isKey k = true)
    (hvalues : ∀ e ∈ slots, ∀ v ∈ e.2, Clean v) : ∀ f ∈ fields, f.Writable := by
  obtain ⟨added, rfl, hadded⟩ := happ
  refine List.forall_mem_append.mpr ⟨fun f hf => ?_, fun f hf => ?_⟩
  · obtain ⟨e, he, rfl⟩ := List.mem_map.mp hf
    have hslot := mem_filled.mp he
    exact ⟨hkeys e.1 (List.mem_map_of_mem hslot), clean_copyToken (hvalues _ hslot e.2 rfl)⟩
  · exact ⟨isKey_of_mem_featureKeys (hadded f hf).1, (hadded f hf).2 hfixed⟩

namespace Identified

variable {S R : Type} {g : Node S R} (h : Identified g)

include h

theorem clean_statusSlots {up rssi : Option Text} (hup : ∀ v ∈ up, Clean v)
    (hrssi : ∀ v ∈ rssi, Clean v) : ∀ e ∈ statusSlots g.rpc up rssi, ∀ v ∈ e.2, Clean v := by
  intro e he
  simp only [statusSlots, List.mem_cons, List.not_mem_nil, or_false] at he
  rcases he with rfl | rfl | rfl | rfl | rfl | rfl | rfl | rfl | rfl | rfl
  · exact fun v hv => Option.some.inj hv ▸ h.name
  · exact fun _ => clean_shortId8 h.nodeId
  · intro v hv
    obtain ⟨_, -, rfl⟩ := Option.map_eq_some_iff.mp hv
    exact h.nodeId
  · exact fun v hv => Option.some.inj hv ▸ h.firmware
  · exact fun v hv => Option.some.inj hv ▸ clean_word rfl
  · intro v hv
    dsimp only at hv
    split at hv
    · exact Option.some.inj hv ▸ h.clean_primaryTag
    · cases hv
  · exact hup
  · exact hrssi
  · intro v hv
    dsimp only at hv
    split at hv
    · exact Option.some.inj hv ▸ h.transport
    · cases hv
  · exact fun _ => clean_capsCsv h.capabilities

end Identified

section Lines

theorem clean_rssiText {S R : Type} (g : Node S R) (s : S) : ∀ v ∈ (rssiText g s).1, Clean v := by
  obtain ⟨rpc, ⟨publish, publishEx, entropy, callback, rssi⟩, host, engine, count⟩ := g
  intro v hv
  cases rssi with
  | none => cases hv
  | some f => exact Option.some.inj hv ▸ clean_copyToken (clean_signedDecimal _)

variable {S R F : Type} [CFloat R] {g : Node S R} (h : Identified g)
  (hfixed : ∀ x : R, Clean (CFloat.fixed 2 x)) (s : S)

def statusLine (g : Node S R) (s : S) (reply : ReplyBuffer) : Text :=
  ((buildStatus g s).1.writeTo reply).cstr

include h hfixed

theorem Identified.writable_status : ∀ f ∈ (buildStatus g s).1.fields, f.Writable :=
  writable_of_appends hfixed (appends_buildStatus g s)
    (List.all_eq_true.mp (by decide : statusKeys.all isKey = true))
    (h.clean_statusSlots (clean_uptime g s) (clean_rssiText g _))

theorem Identified.writable_discover : ∀ f ∈ (buildDiscover g s).1.fields, f.Writable :=
  writable_of_appends hfixed (appends_buildDiscover g s)
    (List.all_eq_true.mp (by decide : (slimKeys.take 6).all isKey = true))
    (h.clean_discoverSlots s)

theorem Identified.parseStatus_eq (py : Python F)
    (hfits : ("status".toList ++ fieldsText (buildStatus g s).1.fields).length ≤ maxReply - 1)
    (reply : ReplyBuffer) : ∃ st, py.parseStatus (some (statusLine g s reply)) = .ok st ∧
      st.parameters =
        py.coerceFields (parseKvPairs ((buildStatus g s).1.fields.map Field.token)) := by
  have hwritable := h.writable_status hfixed s
  have hword : split "status".toList = ["status".toList] := by decide
  have hsplit := split_append_fieldsText "status".toList (fun f hf => (hwritable f hf).plain)
  rw [hword] at hsplit
  rw [statusLine, StatusBuilder.cstr_writeTo (fun f hf => (hwritable f hf).nul_not_mem) hfits]
  exact ⟨_, py.parseStatus_status hsplit, rfl⟩

theorem Identified.split_discoveryLine
    (hfits : (copyToken maxToken g.rpc.nodeName ++
      fieldsText (buildDiscover g s).1.fields).length ≤ maxReply - 1) (reply : ReplyBuffer) :
    split (discoveryLine g s reply) = copyToken maxToken g.rpc.nodeName ::
      (buildDiscover g s).1.fields.map Field.token := by
  have hwritable := h.writable_discover hfixed s
  have hclean : Clean (copyToken maxToken g.rpc.nodeName) := clean_copyToken h.name
  have hne : copyToken maxToken g.rpc.nodeName ≠ [] := copyToken_ne_nil h.name_ne_nil
  rw [← name_buildDiscover g s] at hfits hclean hne
  rw [discoveryLine, DiscoverBuilder.cstr_writeTo hne hclean.1
    (fun f hf => (hwritable f hf).nul_not_mem) hfits,
    split_append_fieldsText _ (fun f hf => (hwritable f hf).plain), split,
    Words.words_eq_singleton hne hclean.2, List.singleton_append, name_buildDiscover]

end Lines

/-! ### What the lines say -/

structure ReadsIdentity (kv : Dict Text Text) (id8 fw : Text) (tag : Option Text) : Prop where
  id : kv.get "id".toList = some id8
  fw : kv.get "fw".toList = some fw
  firmware : kv.get "firmware".toList = none
  tag : kv.get "tag".toList = tag
  profile : kv.get "profile".toList = none

section Reading

variable {S R F : Type} [CFloat R] {g : Node S R} (h : Identified g)
  (hfixed : ∀ x : R, Clean (CFloat.fixed 2 x)) (s : S) {id8 : Text}
  (hid : shortId8 g.rpc.nodeId = some id8)

theorem length_shortId8_le {full id8 : Text} (h : shortId8 full = some id8) : id8.length ≤ 8 := by
  rw [shortId8] at h
  split at h
  · cases h
  · rw [← Option.some.inj h, List.length_map, List.length_take]
    exact Nat.min_le_left 8 _

theorem map_cut_shortId8 {full id8 : Text} (h : shortId8 full = some id8) :
    (shortId8 full).map (copyToken maxToken) = some id8 := by
  have hlen := length_shortId8_le h
  have hsize : maxToken = 72 := rfl
  rw [h, Option.map_some, copyToken_of_lt (by omega)]

theorem map_cut_tag (rpc : McRpc Handler FeatureKind) :
    (if primaryTag rpc ≠ [] then some (primaryTag rpc) else none).map (copyToken maxToken) =
      emittedTag rpc := by
  rw [emittedTag]
  split <;> rfl

include h hfixed hid

theorem Identified.readsIdentity_status :
    ReadsIdentity (parseKvPairs ((buildStatus g s).1.fields.map Field.token)) id8
      (copyToken maxToken g.rpc.firmware) (emittedTag g.rpc) := by
  have hget {key : Text} (hkey : key ∉ featureKeys) := get_of_appends (appends_buildStatus g s)
    (h.writable_status hfixed s) (nodup_keys_statusSlots _ _ _) hkey
  constructor
  case id => exact (hget (by decide)).trans (map_cut_shortId8 hid)
  case fw => exact hget (by decide)
  case firmware => exact hget (by decide)
  case tag => exact (hget (by decide)).trans (map_cut_tag g.rpc)
  case profile => exact hget (by decide)

theorem Identified.readsIdentity_discover :
    ReadsIdentity (parseKvPairs ((buildDiscover g s).1.fields.map Field.token)) id8
      (copyToken maxToken g.rpc.firmware) (emittedTag g.rpc) := by
  have hget {key : Text} (hkey : key ∉ featureKeys) := get_of_appends (appends_buildDiscover g s)
    (h.writable_discover hfixed s) (nodup_keys_discoverSlots _ _) hkey
  constructor
  case id => exact (hget (by decide)).trans (map_cut_shortId8 hid)
  case fw => exact hget (by decide)
  case firmware => exact hget (by decide)
  case tag => exact (hget (by decide)).trans (map_cut_tag g.rpc)
  case profile => exact hget (by decide)

/-- Behind its first field a discovery line has no id. -/
theorem Identified.discover_tokens : ∃ token tokens,
    (buildDiscover g s).1.fields.map Field.token = token :: tokens ∧
      (parseKvPairs tokens).get "id".toList = none := by
  have hwritable := h.writable_discover hfixed s
  obtain ⟨added, hfields, hadded⟩ := appends_buildDiscover g s
  have hfirst : filled (discoverSlots g.rpc (uptime g s).1) =
      ("id".toList, id8) :: filled ((discoverSlots g.rpc (uptime g s).1).drop 1) := by
    rw [discoverSlots, hid]
    rfl
  rw [hfirst, List.map_cons, List.cons_append] at hfields
  rw [hfields] at hwritable ⊢
  refine ⟨_, _, List.map_cons, get_foldl_addPair_of_ne (fun tok htok _ he => ?_) _⟩
  obtain ⟨f, hf, rfl⟩ := List.mem_map.mp htok
  rw [(hwritable f (List.mem_cons_of_mem _ hf)).plain.partition_token] at he
  rcases List.mem_append.mp hf with hf | hf
  · obtain ⟨e, hslot, rfl⟩ := List.mem_map.mp hf
    have hkey : e.1 ∈ ((discoverSlots g.rpc (uptime g s).1).drop 1).map Prod.fst :=
      List.mem_map_of_mem (mem_filled.mp hslot)
    rw [List.map_drop, keys_discoverSlots] at hkey
    change e.1 = _ at he
    rw [he] at hkey
    exact absurd hkey (by decide)
  · have hkey := (hadded f hf).1
    rw [he] at hkey
    exact absurd hkey (by decide)

end Reading

/-! ### The two reports -/

section Reports

variable {F : Type} [Truthy F] (py : Python F)

/-- The two reports have the same id, firmware and tag, as strings. -/
def SameIdentity (st : StatusFields F) (d : DiscoverFields F) (id8 fw : Text)
    (tag : Option Text) : Prop :=
  st.id = some (.str id8) ∧ d.id = some id8 ∧ st.firmware = some (.str fw) ∧
    d.firmware = some fw ∧ st.tag = tag.map .str ∧ d.tag = tag

omit [Truthy F] in
/-- Of the ids without `e` those of digits only read as numbers. -/
theorem readsAsNumber_hex_iff {py : Python F} (hpy : py.Regular) {id8 : Text}
    (hne : id8 ≠ []) (hlen : id8.length ≤ 4300) (hhex : ∀ c ∈ id8, isHexChar c = true)
    (he : 'e' ∉ lower id8) : py.readsAsNumber id8 = true ↔ ∀ c ∈ id8, c.isDigit = true := by
  have hascii : ∀ c ∈ id8, c.toNat < 128 := by
    intro c hc
    have := isHexChar_iff.mp (hhex c hc)
    omega
  have hdot : '.' ∉ id8 := fun hmem => absurd (hhex '.' hmem) (by decide)
  rw [Python.readsAsNumber, py.lower_ascii _ hascii, if_neg (not_or.mpr ⟨hdot, he⟩)]
  constructor
  · intro hint c hc
    by_contra hdigit
    have hletter : c.isAlpha = true := by
      have hcode := isHexChar_iff.mp (hhex c hc)
      rw [isDigit_iff] at hdigit
      rw [isAlpha_iff]
      omega
    rw [hpy.int_letter id8 ⟨c, hc, hletter⟩] at hint
    cases hint
  · intro hdigits
    rw [py.int_digits id8 hne hdigits, if_pos hlen]
    rfl

/-- A value is reported as the string it is when it does not read as a number. -/
theorem Python.orValue_coerceNumber_iff {v : Text} (hne : v ≠ []) :
    orValue (some (py.coerceNumber v)) none = some (.str v) ↔ py.readsAsNumber v = false := by
  rw [← py.coerceNumber_eq_str_iff]
  constructor
  · intro h
    rw [orValue] at h
    split at h
    · exact Option.some.inj h
    · cases h
  · intro h
    have htruthy : (Truthy.truthy (PyValue.str (F := F) v)) = true := decide_eq_true hne
    rw [h, orValue, if_pos htruthy]

theorem Python.orValue_map_coerceNumber_iff {v : Option Text} (hne : ∀ t ∈ v, t ≠ []) :
    orValue (v.map py.coerceNumber) none = v.map .str ↔ ∀ t ∈ v, py.readsAsNumber t = false := by
  cases v with
  | none => exact iff_of_true rfl (fun t ht => by cases ht)
  | some t =>
    rw [Option.map_some, Option.map_some, py.orValue_coerceNumber_iff (hne t rfl)]
    exact ⟨fun h u hu => Option.some.inj hu ▸ h, fun h => h t rfl⟩

theorem Python.statusFieldsOf_identity {st : ParsedStatus F} {kv : Dict Text Text}
    (hparameters : st.parameters = py.coerceFields kv) {id8 fw : Text} {tag : Option Text}
    (h : ReadsIdentity kv id8 fw tag) :
    (statusFieldsOf st).id = some (py.coerceNumber id8) ∧
      (statusFieldsOf st).firmware = orValue (some (py.coerceNumber fw)) none ∧
      (statusFieldsOf st).tag = orValue (tag.map py.coerceNumber) none := by
  have hparam (key : Text) : getParam st.parameters key = (kv.get key).map py.coerceNumber := by
    rw [hparameters]
    exact py.find_coerceFields kv key
  refine ⟨?_, ?_, ?_⟩
  · exact (hparam _).trans (by rw [h.id]; rfl)
  · change orValue (getParam _ _) (getParam _ _) = _
    rw [hparam, hparam, h.fw, h.firmware]
    rfl
  · change orValue (getParam _ _) (getParam _ _) = _
    rw [hparam, hparam, h.tag, h.profile]
    rfl

omit [Truthy F] in
theorem Python.discoverFieldsOf_identity (text : Text) (rid : Option ℤ) (device : Text)
    {tokens : List Text} {id8 fw : Text} {tag : Option Text} (hfw : fw ≠ [])
    (htag : ∀ t ∈ tag, t ≠ []) (h : ReadsIdentity (parseKvPairs tokens) id8 fw tag) :
    (py.discoverFieldsOf (py.discoverOf text rid (device :: tokens))).id = some id8 ∧
      (py.discoverFieldsOf (py.discoverOf text rid (device :: tokens))).firmware = some fw ∧
      (py.discoverFieldsOf (py.discoverOf text rid (device :: tokens))).tag = tag := by
  refine ⟨h.id, ?_, ?_⟩
  · change orText _ _ = _
    rw [h.fw, orText_some hfw]
  · change orText _ _ = _
    rw [h.tag, h.profile]
    cases tag with
    | none => rfl
    | some t => exact orText_some (htag t rfl) none

end Reports

section Name

variable {F : Type} (py : Python F)

/-- The node's name looks like a request id to the parser of discovery lines. -/
def Python.TakesName (name : Text) : Prop :=
  ∃ digits, copyToken maxToken name = '#' :: digits ∧ py.isdigitStr digits = true

theorem Python.parseDiscoverFields_of_takesName {name line : Text} {tokens : List Text}
    (hsplit : split line = copyToken maxToken name :: tokens) (htakes : py.TakesName name)
    {d : DiscoverFields F} (h : py.parseDiscoverFields (some line) = .ok d) :
    ∃ text rid, d = py.discoverFieldsOf (py.discoverOf text rid tokens) := by
  obtain ⟨digits, hname, hdigits⟩ := htakes
  rw [parseDiscoverFields, parseDiscover, Option.getD_some, splitTokens_eq_split, split_strip,
    hsplit, hname] at h
  cases hint : py.int digits with
  | none =>
    rw [takeRequestId, if_pos hdigits, hint] at h
    cases h
  | some n =>
    rw [py.takeRequestId_of_isdigitStr hdigits hint] at h
    exact ⟨strip line, some n, (Except.ok.inj h).symm⟩

theorem Python.parseDiscoverFields_of_not_takesName {name line : Text} {tokens : List Text}
    (hsplit : split line = copyToken maxToken name :: tokens) (htakes : ¬ py.TakesName name) :
    ∃ text, py.parseDiscoverFields (some line) = .ok (py.discoverFieldsOf
      (py.discoverOf text none (copyToken maxToken name :: tokens))) := by
  have htake : py.takeRequestId (copyToken maxToken name :: tokens) =
      .ok (none, copyToken maxToken name :: tokens) := by
    by_cases hhash : ∃ digits, copyToken maxToken name = '#' :: digits
    · obtain ⟨digits, hname⟩ := hhash
      have hdigits : py.isdigitStr digits = false :=
        Bool.not_eq_true _ ▸ fun hdigits => htakes ⟨digits, hname, hdigits⟩
      rw [hname, py.takeRequestId_of_not_isdigitStr hdigits]
    · exact py.takeRequestId_of_ne (fun digits hname => hhash ⟨digits, hname⟩)
  refine ⟨strip line, ?_⟩
  rw [parseDiscoverFields, parseDiscover, Option.getD_some, splitTokens_eq_split, split_strip,
    hsplit, htake]
  rfl

end Name

section Agreement

variable {S R F : Type} [CFloat R] [Truthy F] (py : Python F) {g : Node S R}

/-- The reports of a status line and a discovery line of one node agree on its identity exactly
when none of its values reads as a number and its name is not taken for a request id. -/
theorem sameIdentity_iff (h : Identified g) (hfixed : ∀ x : R, Clean (CFloat.fixed 2 x))
    {id8 : Text} (hid : shortId8 g.rpc.nodeId = some id8) (s s' : S) (reply reply' : ReplyBuffer)
    (hstatus : ("status".toList ++ fieldsText (buildStatus g s).1.fields).length ≤ 191)
    (hdiscover : (copyToken maxToken g.rpc.nodeName ++
      fieldsText (buildDiscover g s').1.fields).length ≤ 191) :
    (∃ st d, py.parseStatusFields (some (statusLine g s reply)) = .ok st ∧
      py.parseDiscoverFields (some (discoveryLine g s' reply')) = .ok d ∧
      SameIdentity st d id8 (copyToken maxToken g.rpc.firmware) (emittedTag g.rpc)) ↔
    py.readsAsNumber id8 = false ∧
      py.readsAsNumber (copyToken maxToken g.rpc.firmware) = false ∧
      (∀ t ∈ emittedTag g.rpc, py.readsAsNumber t = false) ∧ ¬ py.TakesName g.rpc.nodeName := by
  have hfw : copyToken maxToken g.rpc.firmware ≠ [] := copyToken_ne_nil h.firmware_ne_nil
  have htag : ∀ t ∈ emittedTag g.rpc, t ≠ [] := by
    intro t ht
    rw [emittedTag] at ht
    split at ht
    · next hne => exact Option.some.inj ht ▸ copyToken_ne_nil hne
    · cases ht
  obtain ⟨st, hparse, hparameters⟩ := h.parseStatus_eq hfixed s py hstatus reply
  obtain ⟨hstid, hstfw, hsttag⟩ :=
    py.statusFieldsOf_identity hparameters (h.readsIdentity_status hfixed s hid)
  have hfields : py.parseStatusFields (some (statusLine g s reply)) = .ok
      (Python.statusFieldsOf st) := by
    rw [Python.parseStatusFields, hparse]
    rfl
  have hsplit := h.split_discoveryLine hfixed s' hdiscover reply'
  constructor
  · rintro ⟨st', d, hst', hd, hid', hdid, hfw', -, htag', -⟩
    obtain rfl := Except.ok.inj (hfields.symm.trans hst')
    rw [hstid, Option.some.injEq, py.coerceNumber_eq_str_iff] at hid'
    rw [hstfw, py.orValue_coerceNumber_iff hfw] at hfw'
    rw [hsttag, py.orValue_map_coerceNumber_iff htag] at htag'
    refine ⟨hid', hfw', htag', fun htakes => ?_⟩
    -- the id is taken for the device's name
    obtain ⟨token, tokens, htokens, hnone⟩ := h.discover_tokens hfixed s' hid
    obtain ⟨text, rid, rfl⟩ := py.parseDiscoverFields_of_takesName hsplit htakes hd
    rw [htokens] at hdid
    cases hnone.symm.trans hdid
  · rintro ⟨hid', hfw', htag', htakes⟩
    obtain ⟨text, hd⟩ := py.parseDiscoverFields_of_not_takesName hsplit htakes
    obtain ⟨hdid, hdfw, hdtag⟩ := py.discoverFieldsOf_identity text none
      (copyToken maxToken g.rpc.nodeName) hfw htag (h.readsIdentity_discover hfixed s' hid)
    refine ⟨Python.statusFieldsOf st, _, hfields, hd, ?_, hdid, ?_, hdfw, ?_, hdtag⟩
    · rw [hstid, (py.coerceNumber_eq_str_iff id8).mpr hid']
    · rw [hstfw, (py.orValue_coerceNumber_iff hfw).mpr hfw']
    · rw [hsttag, (py.orValue_map_coerceNumber_iff htag).mpr htag']

end Agreement

/-! ### Two nodes -/

def versionedNode : Node Unit Unit where
  rpc := { trackerNode.rpc with
    firmware := "v1.2.0".toList
    tag := "beacon".toList }

theorem identified_versioned : Identified versionedNode where
  nodeId := clean_word rfl
  firmware := clean_word rfl
  tag := clean_word rfl
  profile := clean_word rfl
  capabilities := List.forall_mem_singleton.mpr (clean_word rfl)
  name_ne_nil := List.cons_ne_nil _ _
  name := clean_word rfl
  firmware_ne_nil := List.cons_ne_nil _ _
  transport := clean_word rfl

theorem sameIdentity_versioned :
    ∃ st d, Python.ascii.parseStatusFields (some (statusLine versionedNode () .init)) = .ok st ∧
      Python.ascii.parseDiscoverFields (some (discoveryLine versionedNode () .init)) = .ok d ∧
      SameIdentity st d "3cbb01c6".toList "v1.2.0".toList (some "beacon".toList) := by
  refine (sameIdentity_iff Python.ascii identified_versioned (fun _ => clean_word rfl) rfl () ()
    .init .init (by decide +kernel) (by decide +kernel)).mpr ⟨by decide, by decide, ?_, ?_⟩
  · exact fun t ht => Option.some.inj ht ▸ (by decide)
  · rintro ⟨digits, hname, -⟩
    cases hname

def digitsNode : Node Unit Unit where
  rpc := { versionedNode.rpc with nodeId := "12345678AB".toList }

/-- Its lines fit, and its status has the id as a number. -/
theorem digits_not_same :
    ("status".toList ++ fieldsText (buildStatus digitsNode ()).1.fields).length ≤ 191 ∧
    ("tracker".toList ++ fieldsText (buildDiscover digitsNode ()).1.fields).length ≤ 191 ∧
    ¬ ∃ st d, Python.ascii.parseStatusFields (some (statusLine digitsNode () .init)) = .ok st ∧
      Python.ascii.parseDiscoverFields (some (discoveryLine digitsNode () .init)) = .ok d ∧
      SameIdentity st d "12345678".toList "v1.2.0".toList (some "beacon".toList) := by
  refine ⟨by decide +kernel, by decide +kernel, ?_⟩
  rintro ⟨st, d, hst, -, hid, -⟩
  have hnumber : ((Python.ascii.parseStatusFields
      (some (statusLine digitsNode () .init))).toOption.bind StatusFields.id).all (fun v =>
        match v with
        | .str _ => false
        | _ => true) = true := by
    decide +kernel
  rw [hst] at hnumber
  change st.id.all _ = true at hnumber
  rw [hid] at hnumber
  cases hnumber

end Mcrpc
