import Mcrpc.IdentityAgreement
import Mcrpc.Lib.Fallback

/-!
# What the field views show

A view of a line has named entries, each an alias of one or more keys, and the pairs with an unknown
key in `extra`. A pair is shown when an entry that is an alias of its key has its value, or `extra`
has the pair. Each view shows every pair exactly when the line has no key that is known without an
entry, and no value is passed over in the chain of its entry.
-/

namespace Mcrpc

open Fallback

/-- The keys an entry is an alias of, and its value. -/
structure NamedEntry (V : Type) where
  keys : List Text
  value : Option V

section Entries

variable {V : Type}

def valuesOf (entries : List (NamedEntry V)) (key : Text) : List (Option V) :=
  (entries.filter (fun e => key ∈ e.keys)).map (·.value)

/-- The value the pairs `p` have for the key, if any, is the value of an entry for the key. -/
def Named (entries : List (NamedEntry V)) (p : Text → Option V) (key : Text) : Prop :=
  ∀ v, p key = some v → some v ∈ valuesOf entries key

variable {entries : List (NamedEntry V)} {p : Text → Option V} {key : Text} {keep : V → Bool}
  {a b c : Option V}

theorem named_iff_of_nil (h : valuesOf entries key = []) : Named entries p key ↔ p key = none := by
  rw [Option.eq_none_iff_forall_ne_some, Named, h]
  exact forall_congr' (fun v => imp_congr_right (fun _ => by simp))

theorem named_of_mem (h : p key ∈ valuesOf entries key) : Named entries p key :=
  fun _ hv => hv ▸ h

theorem named_iff_of_left (h : valuesOf entries key = [choose keep (p key) b]) :
    Named entries p key ↔ ∀ v, p key = some v → keep v = true ∨ b = some v := by
  refine forall₂_congr (fun v hv => ?_)
  rw [h, List.mem_singleton, hv, eq_comm, choose_left_iff]

theorem named_iff_of_right (h : valuesOf entries key = [choose keep a (p key)]) :
    Named entries p key ↔
      ∀ v, p key = some v → ∀ x, a = some x → keep x = true → x = v := by
  refine forall₂_congr (fun v hv => ?_)
  rw [h, List.mem_singleton, hv, eq_comm, choose_right_iff]

/-- Two entries that try the key and another one in both orders. -/
theorem named_iff_of_both (h : ∀ x, x ∈ valuesOf entries key ↔
      x = choose keep (p key) b ∨ x = choose keep b (p key)) :
    Named entries p key ↔ ∀ v, p key = some v →
      keep v = true ∨ ∀ x, b = some x → keep x = true → x = v := by
  refine forall₂_congr (fun v hv => ?_)
  rw [h, hv, eq_comm, choose_left_iff, @eq_comm _ (some v), choose_right_iff, or_assoc]
  refine or_congr_right (or_iff_right_of_imp ?_)
  rintro rfl x hx -
  exact (Option.some.inj hx).symm

/-- Two entries that try the key and another one in both orders before a third. -/
theorem named_iff_of_swap_left (h : ∀ x, x ∈ valuesOf entries key ↔
      x = choose keep (p key) (choose keep b c) ∨ x = choose keep b (choose keep (p key) c)) :
    Named entries p key ↔ ∀ v, p key = some v → keep v = true ∨ Passes keep b ∧ c = some v := by
  refine forall₂_congr (fun v hv => ?_)
  rw [h, hv, eq_comm, @eq_comm _ (some v), swap_left_iff]

/-- Two entries that try two others in both orders before the key. -/
theorem named_iff_of_swap_right (h : ∀ x, x ∈ valuesOf entries key ↔
      x = choose keep a (choose keep b (p key)) ∨ x = choose keep b (choose keep a (p key))) :
    Named entries p key ↔ ∀ v, p key = some v →
      Passes keep a ∧ Passes keep b ∨ keep v = true ∧ (a = some v ∨ b = some v) := by
  refine forall₂_congr (fun v hv => ?_)
  rw [h, hv, eq_comm, @eq_comm _ (some v), swap_right_iff]

/-- An entry that tries the key before and behind another, and one that tries it behind only. -/
theorem named_iff_of_again (h : ∀ x, x ∈ valuesOf entries key ↔
      x = choose keep (p key) (choose keep b (p key)) ∨ x = choose keep b (p key)) :
    Named entries p key ↔ ∀ v, p key = some v →
      keep v = true ∨ ∀ x, b = some x → keep x = true → x = v := by
  refine forall₂_congr (fun v hv => ?_)
  rw [h, hv, eq_comm, choose_left_iff, @eq_comm _ (some v), choose_right_iff, or_assoc, or_self]

/-- An entry that tries another before and behind the key, and one that tries it behind only. -/
theorem named_iff_of_between (h : ∀ x, x ∈ valuesOf entries key ↔
      x = choose keep b (choose keep (p key) b) ∨ x = choose keep (p key) b) :
    Named entries p key ↔ ∀ v, p key = some v → keep v = true ∨ b = some v := by
  refine forall₂_congr (fun v hv => ?_)
  rw [h, hv, eq_comm, @eq_comm _ (some v), choose_left_iff]
  refine or_iff_right_of_imp (fun hchoose => ?_)
  rcases choose_eq_some_iff.mp hchoose with ⟨-, hb⟩ | ⟨-, hrest⟩
  · exact .inr hb
  · exact choose_left_iff.mp hrest

/-- The first key of an entry that falls back on another. -/
theorem named_of_or_left (h : valuesOf entries key = [(p key).or b]) : Named entries p key := by
  rw [or_eq_choose] at h
  exact (named_iff_of_left h).mpr (fun _ _ => .inl rfl)

theorem named_iff_of_or_right (h : valuesOf entries key = [a.or (p key)]) :
    Named entries p key ↔ ∀ v, p key = some v → ∀ x, a = some x → x = v := by
  rw [or_eq_choose] at h
  exact (named_iff_of_right h).trans (by simp)

end Entries

section Values

variable {F : Type}

theorem orValue_eq_choose [Truthy F] (a b : Option (PyValue F)) :
    orValue a b = choose Truthy.truthy a b := by
  cases a <;> rfl

def nonempty (s : Text) : Bool := decide (s ≠ [])

theorem orText_eq_choose (a b : Option Text) : orText a b = choose nonempty a b := by
  rcases a with _ | _ | ⟨c, s⟩ <;> rfl

theorem getParam_eq_some_iff {params : List (Text × PyValue F)}
    (h : (params.map Prod.fst).Nodup) {key : Text} {value : PyValue F} :
    getParam params key = some value ↔ (key, value) ∈ params :=
  (Dict.mem_entries_iff (d := ⟨params, h⟩)).symm

theorem nodup_coerceFields (py : Python F) (kv : Dict Text Text) :
    ((py.coerceFields kv).map Prod.fst).Nodup := by
  rw [Python.coerceFields, List.map_map]
  exact kv.nodup

/-- A view that puts the unknown pairs in `extra` shows all pairs when its entries show the known
ones. -/
theorem shows_all_iff {params : List (Text × PyValue F)} (h : (params.map Prod.fst).Nodup)
    (known : List Text) (entries : List (NamedEntry (PyValue F))) :
    (∀ e ∈ params, e ∈ extraFrom params known ∨ some e.2 ∈ valuesOf entries e.1) ↔
      ∀ key ∈ known, Named entries (getParam params) key := by
  constructor
  · intro hshow key hkey value hvalue
    have hmem := (getParam_eq_some_iff h).mp hvalue
    refine (hshow _ hmem).resolve_left (fun hextra => ?_)
    exact (of_decide_eq_true (List.mem_filter.mp hextra).2) hkey
  · intro hknown e he
    by_cases hkey : e.1 ∈ known
    · exact .inr (hknown e.1 hkey e.2 ((getParam_eq_some_iff h).mpr he))
    · exact .inl (List.mem_filter.mpr ⟨he, decide_eq_true hkey⟩)

end Values

/-! ### Status -/

def StatusFields.named {F : Type} (v : StatusFields F) : List (NamedEntry (PyValue F)) :=
  [⟨["name".toList], v.name⟩, ⟨["profile".toList, "tag".toList], v.profile⟩,
    ⟨["tag".toList, "profile".toList], v.tag⟩, ⟨["fw".toList, "firmware".toList], v.firmware⟩,
    ⟨["up".toList, "uptime".toList], v.uptime⟩, ⟨["rssi".toList], v.rssi⟩, ⟨["snr".toList], v.snr⟩,
    ⟨["battery".toList], v.battery⟩, ⟨["voltage".toList], v.voltage⟩, ⟨["id".toList], v.id⟩,
    ⟨["id_full".toList], v.idFull⟩, ⟨["v".toList], v.v⟩, ⟨["heap".toList], v.heap⟩,
    ⟨["transport".toList], v.transport⟩, ⟨["gps".toList], v.gps⟩]

/-- Every pair of the line is in an entry or in `extra`. -/
def StatusFields.ShowsAll {F : Type} (v : StatusFields F) : Prop :=
  ∀ e ∈ v.parameters, e ∈ v.extra ∨ some e.2 ∈ valuesOf v.named e.1

section Status

variable {F : Type} [Truthy F]

/-- What the pairs `p` of a status line have to be like: three keys are known and have no entry, and
of two keys of one entry neither may hide the value of the other. -/
structure ShownByStatus (p : Text → Option (PyValue F)) : Prop where
  sat : p "sat".toList = none
  caps : p "caps".toList = none
  charging : p "charging".toList = none
  fw : ∀ v, p "fw".toList = some v → Truthy.truthy v = true ∨ p "firmware".toList = some v
  firmware : ∀ v, p "firmware".toList = some v →
    ∀ x, p "fw".toList = some x → Truthy.truthy x = true → x = v
  uptime : ∀ v, p "uptime".toList = some v → ∀ x, p "up".toList = some x → x = v
  profile : ∀ v, p "profile".toList = some v →
    Truthy.truthy v = true ∨ ∀ x, p "tag".toList = some x → Truthy.truthy x = true → x = v
  tag : ∀ v, p "tag".toList = some v →
    Truthy.truthy v = true ∨ ∀ x, p "profile".toList = some x → Truthy.truthy x = true → x = v

def statusOwn : List Text :=
  ["name".toList, "rssi".toList, "snr".toList, "battery".toList, "voltage".toList, "gps".toList,
    "id".toList, "id_full".toList, "v".toList, "heap".toList, "transport".toList]

theorem StatusFields.showsAll_iff (s : ParsedStatus F)
    (h : (s.parameters.map Prod.fst).Nodup) :
    (Python.statusFieldsOf s).ShowsAll ↔ ShownByStatus (getParam s.parameters) := by
  let p := getParam s.parameters
  let named := (Python.statusFieldsOf s).named
  have hown : ∀ key ∈ statusOwn, Named named p key := by
    simp only [statusOwn, List.forall_mem_cons]
    refine ⟨?_, ?_, ?_, ?_, ?_, ?_, ?_, ?_, ?_, ?_, ?_, fun _ hnil => absurd hnil List.not_mem_nil⟩
    all_goals exact named_of_mem List.mem_cons_self
  have hsat : Named named p "sat".toList ↔ _ := named_iff_of_nil rfl
  have hcaps : Named named p "caps".toList ↔ _ := named_iff_of_nil rfl
  have hcharging : Named named p "charging".toList ↔ _ := named_iff_of_nil rfl
  have hfw : Named named p "fw".toList ↔ _ := named_iff_of_left (by rw [← orValue_eq_choose]; rfl)
  have hfirmware : Named named p "firmware".toList ↔ _ :=
    named_iff_of_right (by rw [← orValue_eq_choose]; rfl)
  have hup : Named named p "up".toList := named_of_or_left rfl
  have huptime : Named named p "uptime".toList ↔ _ := named_iff_of_or_right rfl
  have hpair (key : Text) (hkey : valuesOf named key =
        [orValue (p "profile".toList) (p "tag".toList),
          orValue (p "tag".toList) (p "profile".toList)]) (x : Option (PyValue F)) :
      x ∈ valuesOf named key ↔
        x = choose Truthy.truthy (p "profile".toList) (p "tag".toList) ∨
          x = choose Truthy.truthy (p "tag".toList) (p "profile".toList) := by
    rw [← orValue_eq_choose, ← orValue_eq_choose, hkey]
    exact List.mem_pair
  have hprofile : Named named p "profile".toList ↔ _ := named_iff_of_both (hpair _ rfl)
  have htag : Named named p "tag".toList ↔ _ :=
    named_iff_of_both (fun x => (hpair _ rfl x).trans or_comm)
  refine (shows_all_iff h statusKnown named).trans ⟨fun hknown => ?_, fun hp => ?_⟩
  · exact ⟨hsat.mp (hknown _ (by decide)), hcaps.mp (hknown _ (by decide)),
      hcharging.mp (hknown _ (by decide)), hfw.mp (hknown _ (by decide)),
      hfirmware.mp (hknown _ (by decide)), huptime.mp (hknown _ (by decide)),
      hprofile.mp (hknown _ (by decide)), htag.mp (hknown _ (by decide))⟩
  · simp only [statusKnown, List.forall_mem_cons]
    exact ⟨hown _ (by decide), hprofile.mpr hp.profile, htag.mpr hp.tag, hfw.mpr hp.fw,
      hfirmware.mpr hp.firmware, huptime.mpr hp.uptime, hup, hown _ (by decide), hown _ (by decide),
      hown _ (by decide), hown _ (by decide), hown _ (by decide), hsat.mpr hp.sat,
      hown _ (by decide), hown _ (by decide), hown _ (by decide), hown _ (by decide),
      hown _ (by decide), hcaps.mpr hp.caps, hcharging.mpr hp.charging,
      fun _ hnil => absurd hnil List.not_mem_nil⟩

end Status

/-! ### Positions -/

def GpsFields.named {F : Type} (v : GpsFields F) : List (NamedEntry (PyValue F)) :=
  [⟨["lat".toList], v.latitude⟩, ⟨["lon".toList], v.longitude⟩, ⟨["alt".toList], v.altitude⟩,
    ⟨["hdop".toList], v.hdop⟩, ⟨["acc".toList, "hdop".toList], v.accuracy⟩,
    ⟨["vdop".toList], v.vdop⟩, ⟨["pdop".toList], v.pdop⟩,
    ⟨["sat".toList, "sats".toList], v.satellites⟩, ⟨["speed".toList], v.speed⟩,
    ⟨["heading".toList, "course".toList], v.heading⟩,
    ⟨["ts".toList, "time".toList, "timestamp".toList], v.timestamp⟩,
    ⟨["time".toList, "ts".toList, "timestamp".toList], v.time⟩, ⟨["status".toList], v.status⟩,
    ⟨["fix".toList, "status".toList], v.fix⟩, ⟨["provider".toList], v.provider⟩]

def GpsFields.ShowsAll {F : Type} (v : GpsFields F) : Prop :=
  ∀ e ∈ v.parameters, e ∈ v.extra ∨ some e.2 ∈ valuesOf v.named e.1

section Gps

variable {F : Type} [Truthy F]

/-- What the pairs `p` of a gps line have to be like: `sat` and `heading` hide their second names,
and of the three names of the time the truthy ones hide the others. -/
structure ShownByGps (p : Text → Option (PyValue F)) : Prop where
  sats : ∀ v, p "sats".toList = some v → ∀ x, p "sat".toList = some x → x = v
  course : ∀ v, p "course".toList = some v → ∀ x, p "heading".toList = some x → x = v
  ts : ∀ v, p "ts".toList = some v → Truthy.truthy v = true ∨
    Passes Truthy.truthy (p "time".toList) ∧ p "timestamp".toList = some v
  time : ∀ v, p "time".toList = some v → Truthy.truthy v = true ∨
    Passes Truthy.truthy (p "ts".toList) ∧ p "timestamp".toList = some v
  timestamp : ∀ v, p "timestamp".toList = some v →
    Passes Truthy.truthy (p "ts".toList) ∧ Passes Truthy.truthy (p "time".toList) ∨
      Truthy.truthy v = true ∧ (p "ts".toList = some v ∨ p "time".toList = some v)

def gpsOwn : List Text :=
  ["lat".toList, "lon".toList, "alt".toList, "hdop".toList, "vdop".toList, "pdop".toList,
    "speed".toList, "status".toList, "provider".toList]

theorem GpsFields.showsAll_iff (r : ParsedResponse F) (h : (r.parameters.map Prod.fst).Nodup) :
    (Python.gpsFieldsOf r).ShowsAll ↔ ShownByGps (getParam r.parameters) := by
  let p := getParam r.parameters
  let named := (Python.gpsFieldsOf r).named
  have hown : ∀ key ∈ gpsOwn, Named named p key := by
    simp only [gpsOwn, List.forall_mem_cons]
    refine ⟨?_, ?_, ?_, ?_, ?_, ?_, ?_, ?_, ?_, fun _ hnil => absurd hnil List.not_mem_nil⟩
    all_goals exact named_of_mem List.mem_cons_self
  have hacc : Named named p "acc".toList := named_of_or_left rfl
  have hsat : Named named p "sat".toList := named_of_or_left rfl
  have hsats : Named named p "sats".toList ↔ _ := named_iff_of_or_right rfl
  have hheading : Named named p "heading".toList := named_of_or_left rfl
  have hcourse : Named named p "course".toList ↔ _ := named_iff_of_or_right rfl
  have hfix : Named named p "fix".toList := named_of_or_left rfl
  let chain (a b c : Text) : Option (PyValue F) :=
    choose Truthy.truthy (p a) (choose Truthy.truthy (p b) (p c))
  have hvalues (key : Text) (hkey : valuesOf named key =
        [orValue (p "ts".toList) (orValue (p "time".toList) (p "timestamp".toList)),
          orValue (p "time".toList) (orValue (p "ts".toList) (p "timestamp".toList))])
      (x : Option (PyValue F)) : x ∈ valuesOf named key ↔
        x = chain "ts".toList "time".toList "timestamp".toList ∨
          x = chain "time".toList "ts".toList "timestamp".toList := by
    simp only [chain, ← orValue_eq_choose, hkey]
    exact List.mem_pair
  have hts : Named named p "ts".toList ↔ _ := named_iff_of_swap_left (hvalues _ rfl)
  have htime : Named named p "time".toList ↔ _ :=
    named_iff_of_swap_left (fun x => (hvalues _ rfl x).trans or_comm)
  have htimestamp : Named named p "timestamp".toList ↔ _ :=
    named_iff_of_swap_right (hvalues _ rfl)
  refine (shows_all_iff h gpsWireKeys named).trans ⟨fun hknown => ?_, fun hp => ?_⟩
  · exact ⟨hsats.mp (hknown _ (by decide)), hcourse.mp (hknown _ (by decide)),
      hts.mp (hknown _ (by decide)), htime.mp (hknown _ (by decide)),
      htimestamp.mp (hknown _ (by decide))⟩
  · simp only [gpsWireKeys, List.forall_mem_cons]
    exact ⟨hown _ (by decide), hown _ (by decide), hown _ (by decide), hacc, hown _ (by decide),
      hown _ (by decide), hown _ (by decide), hsat, hsats.mpr hp.sats, hown _ (by decide), hheading,
      hcourse.mpr hp.course, hts.mpr hp.ts, htime.mpr hp.time, htimestamp.mpr hp.timestamp,
      hown _ (by decide), hfix, hown _ (by decide), fun _ hnil => absurd hnil List.not_mem_nil⟩

end Gps

/-! ### Discovery -/

def DiscoverFields.named {F : Type} (v : DiscoverFields F) : List (NamedEntry Text) :=
  [⟨["profile".toList], v.profile⟩, ⟨["tag".toList, "profile".toList], v.tag⟩,
    ⟨["id".toList], v.id⟩, ⟨["id".toList], v.identityId⟩, ⟨["board".toList], v.board⟩,
    ⟨["fw".toList, "firmware".toList], v.firmware⟩, ⟨["protocol".toList, "v".toList], v.protocol⟩,
    ⟨["protocol_min".toList], v.protocolMin⟩, ⟨["protocol_max".toList], v.protocolMax⟩,
    ⟨["sdk".toList], v.sdk⟩, ⟨["v".toList, "protocol".toList], v.v⟩]

def DiscoverFields.coerced {F : Type} (v : DiscoverFields F) : List (NamedEntry (PyValue F)) :=
  [⟨["up".toList, "uptime".toList], v.uptime⟩]

section Discover

variable {F : Type} (py : Python F)

def ListsNames (csv : Text) (names : List Text) : Prop :=
  ∀ part ∈ csv.splitOn ',', py.lower (strip part) ≠ [] → py.lower (strip part) ∈ names

/-- Every pair of the line is in an entry, in one of the lists or in `extra`. -/
def DiscoverFields.ShowsAll (v : DiscoverFields F) : Prop :=
  ∀ e ∈ v.fields.entries,
    (e.1, py.coerceNumber e.2) ∈ v.extra ∨ e ∈ v.features ∨ some e.2 ∈ valuesOf v.named e.1 ∨
      some (py.coerceNumber e.2) ∈ valuesOf v.coerced e.1 ∨
      e.1 = "caps".toList ∧ ListsNames py e.2 v.capabilities ∨
      e.1 = "features".toList ∧ ListsNames py e.2 v.featureTokens

/-- What the pairs `p` of a discovery line have to be like: four keys are known and have no entry,
and of two keys of one entry neither may hide the value of the other. -/
structure ShownByDiscover (p : Text → Option Text) : Prop where
  name : p "name".toList = none
  auth : p "auth".toList = none
  transport : p "transport".toList = none
  vendor : p "vendor".toList = none
  tag : ∀ v, p "tag".toList = some v → nonempty v = true ∨ p "profile".toList = some v
  fw : ∀ v, p "fw".toList = some v → nonempty v = true ∨ p "firmware".toList = some v
  firmware : ∀ v, p "firmware".toList = some v →
    ∀ x, p "fw".toList = some x → nonempty x = true → x = v
  protocol : ∀ v, p "protocol".toList = some v →
    nonempty v = true ∨ ∀ x, p "v".toList = some x → nonempty x = true → x = v
  v : ∀ v, p "v".toList = some v → nonempty v = true ∨ p "protocol".toList = some v
  uptime : ∀ v, p "uptime".toList = some v →
    ∀ x, p "up".toList = some x → py.coerceNumber x = py.coerceNumber v

theorem listsNames_capabilitiesOf {kv : Dict Text Text} {csv : Text}
    (h : kv.get "caps".toList = some csv) (features : List (Text × Text)) :
    ListsNames py csv (py.capabilitiesOf kv features) := by
  have hempty : py.lower [] = [] := py.lower_ascii [] (by simp)
  intro part hpart hne
  rw [Python.capabilitiesOf, h]
  dsimp only
  split
  · next hnil =>
    rw [hnil] at hpart
    obtain rfl : part = [] := List.mem_singleton.mp hpart
    exact absurd hempty hne
  · rw [mem_sortedSet, py.mem_foldl_addCapability]
    exact .inr ⟨hne, part, hpart, rfl⟩

theorem listsNames_canonicalizeCsvTokens (csv : Text) :
    ListsNames py csv (py.canonicalizeCsvTokens (some csv)) := by
  have hempty : py.lower [] = [] := py.lower_ascii [] (by simp)
  intro part hpart hne
  have hstrip : strip part ≠ [] := fun hnil => hne (hnil ▸ hempty)
  rw [Python.canonicalizeCsvTokens]
  split
  · next hnil =>
    rw [hnil] at hpart
    obtain rfl : part = [] := List.mem_singleton.mp hpart
    exact absurd rfl hstrip
  · rw [mem_sortedSet]
    exact List.mem_map.mpr ⟨part, List.mem_filter.mpr ⟨hpart, decide_eq_true hstrip⟩, rfl⟩

def NamedInDiscover (v : DiscoverFields F) (key : Text) : Prop :=
  ∀ value, v.fields.get key = some value → some value ∈ valuesOf v.named key ∨
    some (py.coerceNumber value) ∈ valuesOf v.coerced key ∨
      key = "caps".toList ∧ ListsNames py value v.capabilities ∨
      key = "features".toList ∧ ListsNames py value v.featureTokens

variable {py}

theorem discover_shows_all_iff (text : Text) (rid : Option ℤ) (device : Text)
    (tokens : List Text) :
    (py.discoverFieldsOf (py.discoverOf text rid (device :: tokens))).ShowsAll py ↔
      ∀ key ∈ discoverKnown, NamedInDiscover py
        (py.discoverFieldsOf (py.discoverOf text rid (device :: tokens))) key := by
  have hcore : ∀ key ∈ discoverKnown, key ∈ coreKeys := by decide
  constructor
  · intro hshow key hkey value hvalue
    rcases hshow _ (Dict.mem_entries_iff.mpr hvalue) with hextra | hflag | hnamed
    · obtain ⟨e, he, heq⟩ := List.mem_map.mp hextra
      have hunknown := of_decide_eq_true (List.mem_filter.mp he).2
      rw [(Prod.mk.inj heq).1] at hunknown
      exact absurd hkey hunknown
    · have hunknown := of_decide_eq_true (List.mem_filter.mp hflag).2
      exact absurd (hcore key hkey) hunknown
    · exact hnamed
  · intro hknown e he
    by_cases hkey : e.1 ∈ discoverKnown
    · exact .inr (.inr (hknown e.1 hkey e.2 (Dict.mem_entries_iff.mp he)))
    · exact .inl (List.mem_map.mpr ⟨e, List.mem_filter.mpr ⟨he, decide_eq_true hkey⟩, rfl⟩)

def discoverOwn : List Text :=
  ["profile".toList, "board".toList, "protocol_min".toList, "protocol_max".toList, "sdk".toList,
    "id".toList]

section View

variable (text : Text) (rid : Option ℤ) (device : Text) (tokens : List Text)

abbrev Python.discoverView (py : Python F) : DiscoverFields F :=
  py.discoverFieldsOf (py.discoverOf text rid (device :: tokens))

theorem namedInDiscover_iff {v : DiscoverFields F} {key : Text}
    (hcoerced : valuesOf v.coerced key = [])
    (hlists : ¬ (key = "caps".toList ∨ key = "features".toList)) :
    NamedInDiscover py v key ↔ Named v.named v.fields.get key := by
  refine forall₂_congr (fun value hvalue => ?_)
  rw [hcoerced]
  exact or_iff_left (fun h => h.elim (fun hnil => absurd hnil List.not_mem_nil) (fun h =>
    hlists (h.imp And.left And.left)))

theorem discoverView_uptime :
    (py.discoverView text rid device tokens).uptime =
      (((parseKvPairs tokens).get "up".toList).map py.coerceNumber).or
        (((parseKvPairs tokens).get "uptime".toList).map py.coerceNumber) := by
  rw [← py.find_coerceFields, ← py.find_coerceFields]
  rfl

theorem namedInDiscover_up :
    NamedInDiscover py (py.discoverView text rid device tokens) "up".toList := by
  intro s hs
  refine .inr (.inl (List.mem_singleton.mpr ?_))
  change _ = (py.discoverView text rid device tokens).uptime
  rw [discoverView_uptime, show (parseKvPairs tokens).get "up".toList = some s from hs]
  rfl

theorem namedInDiscover_uptime_iff :
    NamedInDiscover py (py.discoverView text rid device tokens) "uptime".toList ↔
      ∀ s, (parseKvPairs tokens).get "uptime".toList = some s →
        ∀ x, (parseKvPairs tokens).get "up".toList = some x →
          py.coerceNumber x = py.coerceNumber s := by
  refine forall₂_congr (fun s hs => ?_)
  have hlists (v : DiscoverFields F) : ¬ ("uptime".toList = "caps".toList ∧
      ListsNames py s v.capabilities ∨
        "uptime".toList = "features".toList ∧ ListsNames py s v.featureTokens) :=
    fun h => h.elim (fun h => absurd h.1 (by decide)) (fun h => absurd h.1 (by decide))
  rw [or_iff_right (List.not_mem_nil : some s ∉ valuesOf _ "uptime".toList), or_iff_left (hlists _)]
  change some (py.coerceNumber s) ∈ [(py.discoverView text rid device tokens).uptime] ↔ _
  rw [List.mem_singleton, discoverView_uptime,
    show (parseKvPairs tokens).get "uptime".toList = some s from hs, or_eq_choose, eq_comm]
  refine choose_right_iff.trans ?_
  cases (parseKvPairs tokens).get "up".toList <;> simp

theorem namedInDiscover_caps :
    NamedInDiscover py (py.discoverView text rid device tokens) "caps".toList :=
  fun _ hvalue => .inr (.inr (.inl ⟨rfl, listsNames_capabilitiesOf py hvalue _⟩))

theorem namedInDiscover_features :
    NamedInDiscover py (py.discoverView text rid device tokens) "features".toList := by
  intro value hvalue
  refine .inr (.inr (.inr ⟨rfl, ?_⟩))
  change ListsNames py value
    (py.canonicalizeCsvTokens ((parseKvPairs tokens).get "features".toList))
  rw [show (parseKvPairs tokens).get "features".toList = some value from hvalue]
  exact listsNames_canonicalizeCsvTokens py value

theorem mem_valuesOf_protocol {p : Text → Option Text} {named : List (NamedEntry Text)} {key : Text}
    (h : valuesOf named key =
      [orText (p "protocol".toList) (orText (p "v".toList) (p "protocol".toList)),
        orText (p "v".toList) (p "protocol".toList)]) (x : Option Text) :
    x ∈ valuesOf named key ↔
      x = choose nonempty (p "protocol".toList)
        (choose nonempty (p "v".toList) (p "protocol".toList)) ∨
      x = choose nonempty (p "v".toList) (p "protocol".toList) := by
  simp only [← orText_eq_choose, h]
  exact List.mem_pair

theorem DiscoverFields.showsAll_iff :
    (py.discoverFieldsOf (py.discoverOf text rid (device :: tokens))).ShowsAll py ↔
      ShownByDiscover py (parseKvPairs tokens).get := by
  let v := py.discoverFieldsOf (py.discoverOf text rid (device :: tokens))
  let p := (parseKvPairs tokens).get
  have hown : ∀ key ∈ discoverOwn, Named v.named p key := by
    simp only [discoverOwn, List.forall_mem_cons]
    refine ⟨?_, ?_, ?_, ?_, ?_, ?_, fun _ hnil => absurd hnil List.not_mem_nil⟩
    all_goals exact named_of_mem List.mem_cons_self
  have hname : Named v.named p "name".toList ↔ _ := named_iff_of_nil rfl
  have hauth : Named v.named p "auth".toList ↔ _ := named_iff_of_nil rfl
  have htransport : Named v.named p "transport".toList ↔ _ := named_iff_of_nil rfl
  have hvendor : Named v.named p "vendor".toList ↔ _ := named_iff_of_nil rfl
  have htag : Named v.named p "tag".toList ↔ _ :=
    named_iff_of_left (by rw [← orText_eq_choose]; rfl)
  have hfw : Named v.named p "fw".toList ↔ _ :=
    named_iff_of_left (by rw [← orText_eq_choose]; rfl)
  have hfirmware : Named v.named p "firmware".toList ↔ _ :=
    named_iff_of_right (by rw [← orText_eq_choose]; rfl)
  have hprotocol : Named v.named p "protocol".toList ↔ _ :=
    named_iff_of_again (mem_valuesOf_protocol rfl)
  have hv : Named v.named p "v".toList ↔ _ := named_iff_of_between (mem_valuesOf_protocol rfl)
  have huptime : NamedInDiscover py v "uptime".toList ↔ _ :=
    namedInDiscover_uptime_iff text rid device tokens
  refine (discover_shows_all_iff text rid device tokens).trans ⟨fun hknown => ?_, fun hp => ?_⟩
  · have hnamed (key : Text) (hkey : key ∈ discoverKnown) (hcoerced : valuesOf v.coerced key = [])
        (hlists : ¬ (key = "caps".toList ∨ key = "features".toList)) : Named v.named p key :=
      (namedInDiscover_iff hcoerced hlists).mp (hknown key hkey)
    exact ⟨hname.mp (hnamed _ (by decide) rfl (by decide)),
      hauth.mp (hnamed _ (by decide) rfl (by decide)),
      htransport.mp (hnamed _ (by decide) rfl (by decide)),
      hvendor.mp (hnamed _ (by decide) rfl (by decide)),
      htag.mp (hnamed _ (by decide) rfl (by decide)), hfw.mp (hnamed _ (by decide) rfl (by decide)),
      hfirmware.mp (hnamed _ (by decide) rfl (by decide)),
      hprotocol.mp (hnamed _ (by decide) rfl (by decide)),
      hv.mp (hnamed _ (by decide) rfl (by decide)), huptime.mp (hknown _ (by decide))⟩
  · have hnamed (key : Text) (hcoerced : valuesOf v.coerced key = [])
        (hlists : ¬ (key = "caps".toList ∨ key = "features".toList))
        (hkey : Named v.named p key) : NamedInDiscover py v key :=
      (namedInDiscover_iff hcoerced hlists).mpr hkey
    have hnamedOwn (key : Text) (hkey : key ∈ discoverOwn) (hcoerced : valuesOf v.coerced key = [])
        (hlists : ¬ (key = "caps".toList ∨ key = "features".toList)) : NamedInDiscover py v key :=
      hnamed key hcoerced hlists (hown key hkey)
    simp only [discoverKnown, List.forall_mem_cons]
    exact ⟨hnamedOwn _ (by decide) rfl (by decide), hnamed _ rfl (by decide) (htag.mpr hp.tag),
      hnamed _ rfl (by decide) (hfw.mpr hp.fw),
      hnamed _ rfl (by decide) (hfirmware.mpr hp.firmware),
      hnamedOwn _ (by decide) rfl (by decide), hnamed _ rfl (by decide) (hprotocol.mpr hp.protocol),
      hnamedOwn _ (by decide) rfl (by decide), hnamedOwn _ (by decide) rfl (by decide),
      hnamedOwn _ (by decide) rfl (by decide), hnamed _ rfl (by decide) (hv.mpr hp.v),
      hnamed _ rfl (by decide) (hname.mpr hp.name), hnamedOwn _ (by decide) rfl (by decide),
      namedInDiscover_caps text rid device tokens, namedInDiscover_features text rid device tokens,
      huptime.mpr hp.uptime, namedInDiscover_up text rid device tokens,
      hnamed _ rfl (by decide) (hauth.mpr hp.auth),
      hnamed _ rfl (by decide) (htransport.mpr hp.transport),
      hnamed _ rfl (by decide) (hvendor.mpr hp.vendor), fun _ hnil => absurd hnil List.not_mem_nil⟩

end View

end Discover

theorem shownByDiscover_empty {F : Type} (py : Python F) :
    ShownByDiscover py (Dict.empty : Dict Text Text).get := by
  have hnone {P : Prop} {key v : Text} (hv : (Dict.empty : Dict Text Text).get key = some v) :
      P := by
    cases hv
  exact ⟨rfl, rfl, rfl, rfl, fun _ hv => hnone hv, fun _ hv => hnone hv, fun _ hv => hnone hv,
    fun _ hv => hnone hv, fun _ hv => hnone hv, fun _ hv => hnone hv⟩

/-! ### The three views -/

section Views

variable {F : Type} {py : Python F}

/-- The parameters of a response are the pairs behind its first word, or none. -/
theorem parameters_responseOf (py : Python F) (text : Text) (rid : Option ℤ) (token : Text)
    (rest : List Text) :
    (py.responseOf text rid (token :: rest)).parameters = py.coerceFields (parseKvPairs rest) ∨
      (py.responseOf text rid (token :: rest)).parameters = [] := by
  rw [Python.responseOf]
  repeat'
    refine iteInduction (motive := fun r : ParsedResponse F =>
      r.parameters = py.coerceFields (parseKvPairs rest) ∨ r.parameters = [])
      (fun _ => ?_) (fun _ => ?_)
  all_goals first
    | exact .inl rfl
    | exact .inr rfl

theorem nodup_parseResponse {line : Option Text} {r : ParsedResponse F}
    (h : py.parseResponse line = .ok r) : (r.parameters.map Prod.fst).Nodup := by
  rw [Python.parseResponse] at h
  cases htake : py.stripRequestId (splitTokens (strip (line.getD []))) with
  | error e =>
    rw [htake] at h
    cases h
  | ok taken =>
    rw [htake] at h
    obtain rfl := Except.ok.inj h
    obtain ⟨rid, tokens⟩ := taken
    cases tokens with
    | nil => exact List.nodup_nil
    | cons token rest =>
      rcases parameters_responseOf py (strip (line.getD [])) rid token rest with hp | hp
      · rw [hp]
        exact nodup_coerceFields py _
      · rw [hp]
        exact List.nodup_nil

theorem nodup_parseStatus {line : Option Text} {st : ParsedStatus F}
    (h : py.parseStatus line = .ok st) : (st.parameters.map Prod.fst).Nodup := by
  rw [Python.parseStatus] at h
  cases htake : py.takeRequestId (splitTokens (strip (line.getD []))) with
  | error e =>
    rw [htake] at h
    cases h
  | ok taken =>
    rw [htake] at h
    obtain rfl := Except.ok.inj h
    exact nodup_coerceFields py _

theorem showsAll_parseDiscover_iff {line : Option Text} {d : ParsedDiscover F}
    (h : py.parseDiscover line = .ok d) :
    (py.discoverFieldsOf d).ShowsAll py ↔ ShownByDiscover py d.fields.get := by
  rw [Python.parseDiscover] at h
  cases htake : py.takeRequestId (splitTokens (strip (line.getD []))) with
  | error e =>
    rw [htake] at h
    cases h
  | ok taken =>
    rw [htake] at h
    obtain rfl := Except.ok.inj h
    obtain ⟨rid, tokens⟩ := taken
    cases tokens with
    | nil =>
      exact iff_of_true (fun e he => absurd he List.not_mem_nil) (shownByDiscover_empty py)
    | cons device tokens => exact DiscoverFields.showsAll_iff _ rid device tokens

variable [Truthy F]

/-- Each view of a line shows every pair exactly when none of its keys is known without an entry and
none of its values is hidden by another alias. -/
theorem fieldViews_showAll_iff {statusLine discoverLine gpsLine : Option Text}
    {st : ParsedStatus F} {d : ParsedDiscover F} {r : ParsedResponse F}
    (hst : py.parseStatus statusLine = .ok st) (hd : py.parseDiscover discoverLine = .ok d)
    (hr : py.parseResponse gpsLine = .ok r) :
    (∃ view, py.parseStatusFields statusLine = .ok view ∧
      (view.ShowsAll ↔ ShownByStatus (getParam st.parameters))) ∧
    (∃ view, py.parseDiscoverFields discoverLine = .ok view ∧
      (view.ShowsAll py ↔ ShownByDiscover py d.fields.get)) ∧
    ∃ view, py.parseGps gpsLine = .ok view ∧
      (view.ShowsAll ↔ ShownByGps (getParam r.parameters)) := by
  refine ⟨⟨Python.statusFieldsOf st, ?_, StatusFields.showsAll_iff st (nodup_parseStatus hst)⟩,
    ⟨py.discoverFieldsOf d, ?_, showsAll_parseDiscover_iff hd⟩,
    ⟨Python.gpsFieldsOf r, ?_, GpsFields.showsAll_iff r (nodup_parseResponse hr)⟩⟩
  · rw [Python.parseStatusFields, hst]
    rfl
  · rw [Python.parseDiscoverFields, hd]
    rfl
  · rw [Python.parseGps, hr]
    rfl

theorem fieldViews_showAll_iff_firmware : ∃ st d r,
    (∃ view, Python.ascii.parseStatusFields (some "status fw=1".toList) = .ok view ∧
      (view.ShowsAll ↔ ShownByStatus (getParam (F := ℚ) st))) ∧
    (∃ view, Python.ascii.parseDiscoverFields (some "beacon fw=1".toList) = .ok view ∧
      (view.ShowsAll Python.ascii ↔ ShownByDiscover Python.ascii (Dict.get d))) ∧
    ∃ view, Python.ascii.parseGps (some "gps lat=1".toList) = .ok view ∧
      (view.ShowsAll ↔ ShownByGps (getParam (F := ℚ) r)) :=
  ⟨_, _, _, fieldViews_showAll_iff rfl rfl rfl⟩

/-- The satellites of a status are nowhere. -/
theorem sat_not_shown : ¬ ∀ line (view : StatusFields ℚ),
    Python.ascii.parseStatusFields (some line) = .ok view → view.ShowsAll := by
  intro h
  have hparse : ∃ view, Python.ascii.parseStatusFields (some "status sat=5".toList) = .ok view ∧
      (view.ShowsAll ↔ ShownByStatus (getParam [("sat".toList, .int 5)])) :=
    ⟨_, rfl, StatusFields.showsAll_iff ⟨_, _, [("sat".toList, .int 5)], _⟩
      (List.nodup_singleton _)⟩
  obtain ⟨view, hview, hiff⟩ := hparse
  have hsat := (hiff.mp (h _ view hview)).sat
  cases hsat

end Views
end Mcrpc
