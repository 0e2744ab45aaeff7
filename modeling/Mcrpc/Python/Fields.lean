import Mcrpc.Python.Discover
import Mcrpc.Python.Response

/-!
# The field views of the Python package

`parse_gps`, `parse_battery`, `parse_status_fields` and `parse_discover_fields` of `__init__.py`. A
value of `dict.get` is `none` where it is `None`.
-/

namespace Mcrpc

section Values

variable {F : Type}

instance [Truthy F] : Truthy (PyValue F) where
  truthy
    | .str s => s ≠ []
    | .int n => n ≠ 0
    | .float x => Truthy.truthy x

def orValue [Truthy F] : Option (PyValue F) → Option (PyValue F) → Option (PyValue F)
  | some a, b => if Truthy.truthy a then some a else b
  | none, b => b

def getParam (params : List (Text × PyValue F)) (key : Text) : Option (PyValue F) :=
  (params.find? (fun e => e.1 = key)).map Prod.snd

def extraFrom (params : List (Text × PyValue F)) (known : List Text) : List (Text × PyValue F) :=
  params.filter (fun e => e.1 ∉ known)

end Values

def gpsWireKeys : List Text :=
  ["lat".toList, "lon".toList, "alt".toList, "acc".toList, "hdop".toList, "vdop".toList,
    "pdop".toList, "sat".toList, "sats".toList, "speed".toList, "heading".toList, "course".toList,
    "ts".toList, "time".toList, "timestamp".toList, "status".toList, "fix".toList,
    "provider".toList]

def batteryWireKeys : List Text :=
  ["value".toList, "voltage".toList, "percentage".toList, "battery".toList, "charging".toList,
    "temp".toList, "temperature".toList, "health".toList, "cycles".toList]

def statusKnown : List Text :=
  ["name".toList, "profile".toList, "tag".toList, "fw".toList, "firmware".toList, "uptime".toList,
    "up".toList, "rssi".toList, "snr".toList, "battery".toList, "voltage".toList, "gps".toList,
    "sat".toList, "id".toList, "id_full".toList, "v".toList, "heap".toList, "transport".toList,
    "caps".toList, "charging".toList]

def discoverKnown : List Text :=
  ["profile".toList, "tag".toList, "fw".toList, "firmware".toList, "board".toList,
    "protocol".toList, "protocol_min".toList, "protocol_max".toList, "sdk".toList, "v".toList,
    "name".toList, "id".toList, "caps".toList, "features".toList, "uptime".toList, "up".toList,
    "auth".toList, "transport".toList, "vendor".toList]

structure GpsFields (F : Type) where
  raw : Text
  requestId : Option ℤ
  latitude : Option (PyValue F)
  longitude : Option (PyValue F)
  altitude : Option (PyValue F)
  accuracy : Option (PyValue F)
  hdop : Option (PyValue F)
  vdop : Option (PyValue F)
  pdop : Option (PyValue F)
  satellites : Option (PyValue F)
  speed : Option (PyValue F)
  heading : Option (PyValue F)
  timestamp : Option (PyValue F)
  time : Option (PyValue F)
  status : Option (PyValue F)
  fix : Option (PyValue F)
  provider : Option (PyValue F)
  extra : List (Text × PyValue F)
  parameters : List (Text × PyValue F)
  fields : Dict Text Text

structure BatteryFields (F : Type) where
  raw : Text
  requestId : Option ℤ
  percentage : Option (PyValue F)
  battery : Option (PyValue F)
  voltage : Option (PyValue F)
  charging : Option (PyValue F)
  temperature : Option (PyValue F)
  health : Option (PyValue F)
  cycles : Option (PyValue F)
  extra : List (Text × PyValue F)
  parameters : List (Text × PyValue F)
  fields : Dict Text Text

structure StatusFields (F : Type) where
  raw : Text
  requestId : Option ℤ
  name : Option (PyValue F)
  profile : Option (PyValue F)
  tag : Option (PyValue F)
  firmware : Option (PyValue F)
  uptime : Option (PyValue F)
  rssi : Option (PyValue F)
  snr : Option (PyValue F)
  battery : Option (PyValue F)
  voltage : Option (PyValue F)
  id : Option (PyValue F)
  idFull : Option (PyValue F)
  v : Option (PyValue F)
  heap : Option (PyValue F)
  transport : Option (PyValue F)
  gps : Option (PyValue F)
  extra : List (Text × PyValue F)
  parameters : List (Text × PyValue F)
  fields : Dict Text Text

structure DiscoverFields (F : Type) where
  raw : Text
  requestId : Option ℤ
  device : Text
  profile : Option Text
  tag : Option Text
  id : Option Text
  identityId : Option Text
  board : Option Text
  firmware : Option Text
  protocol : Option Text
  protocolMin : Option Text
  protocolMax : Option Text
  sdk : Option Text
  v : Option Text
  uptime : Option (PyValue F)
  features : List (Text × Text)
  featureTokens : List Text
  capabilities : List Text
  extra : List (Text × PyValue F)
  parameters : List (Text × PyValue F)
  fields : Dict Text Text

namespace Python

variable {F : Type} (py : Python F)

def gpsFieldsOf [Truthy F] (r : ParsedResponse F) : GpsFields F :=
  let p := getParam r.parameters
  { raw := r.raw
    requestId := r.requestId
    latitude := p "lat".toList
    longitude := p "lon".toList
    altitude := p "alt".toList
    accuracy := (p "acc".toList).or (p "hdop".toList)
    hdop := p "hdop".toList
    vdop := p "vdop".toList
    pdop := p "pdop".toList
    satellites := (p "sat".toList).or (p "sats".toList)
    speed := p "speed".toList
    heading := (p "heading".toList).or (p "course".toList)
    timestamp := orValue (p "ts".toList) (orValue (p "time".toList) (p "timestamp".toList))
    time := orValue (p "time".toList) (orValue (p "ts".toList) (p "timestamp".toList))
    status := p "status".toList
    fix := (p "fix".toList).or (p "status".toList)
    provider := p "provider".toList
    extra := extraFrom r.parameters gpsWireKeys
    parameters := r.parameters
    fields := r.fields }

def parseGps [Truthy F] (raw : Option Text) : Except PyError (GpsFields F) := do
  return gpsFieldsOf (← py.parseResponse raw)

def batteryFieldsOf (r : ParsedResponse F) : BatteryFields F :=
  let p := getParam r.parameters
  let percentage := (p "percentage".toList).or (p "battery".toList)
  let percentage := if r.kind = .battery then (p "value".toList).or percentage else percentage
  let voltage := p "voltage".toList
  let voltage := if r.kind = .voltage then (p "value".toList).or voltage else voltage
  let charging := p "charging".toList
  let charging := if r.kind = .charging then (p "value".toList).or charging else charging
  { raw := r.raw
    requestId := r.requestId
    percentage := percentage
    battery := percentage
    voltage := voltage
    charging := charging
    temperature := (p "temp".toList).or (p "temperature".toList)
    health := p "health".toList
    cycles := p "cycles".toList
    extra := extraFrom r.parameters batteryWireKeys
    parameters := r.parameters
    fields := r.fields }

def parseBattery (raw : Option Text) : Except PyError (BatteryFields F) := do
  return batteryFieldsOf (← py.parseResponse raw)

def statusFieldsOf [Truthy F] (s : ParsedStatus F) : StatusFields F :=
  let p := getParam s.parameters
  { raw := s.raw
    requestId := s.requestId
    name := p "name".toList
    profile := orValue (p "profile".toList) (p "tag".toList)
    tag := orValue (p "tag".toList) (p "profile".toList)
    firmware := orValue (p "fw".toList) (p "firmware".toList)
    uptime := (p "up".toList).or (p "uptime".toList)
    rssi := p "rssi".toList
    snr := p "snr".toList
    battery := p "battery".toList
    voltage := p "voltage".toList
    id := p "id".toList
    idFull := p "id_full".toList
    v := p "v".toList
    heap := p "heap".toList
    transport := p "transport".toList
    gps := p "gps".toList
    extra := extraFrom s.parameters statusKnown
    parameters := s.parameters
    fields := s.fields }

def parseStatusFields [Truthy F] (raw : Option Text) : Except PyError (StatusFields F) := do
  return statusFieldsOf (← py.parseStatus raw)

def discoverFieldsOf (d : ParsedDiscover F) : DiscoverFields F where
  raw := d.raw
  requestId := d.requestId
  device := d.device
  profile := d.profile
  tag := d.tag
  id := d.identityId
  identityId := d.identityId
  board := d.board
  firmware := d.firmware
  protocol := orText d.protocol d.wireVersion
  protocolMin := d.protocolMin
  protocolMax := d.protocolMax
  sdk := d.sdk
  v := d.wireVersion
  uptime := d.uptime
  features := d.features
  featureTokens := d.featureTokens
  capabilities := d.capabilities
  extra := (d.fields.entries.filter (fun e => e.1 ∉ discoverKnown)).map
    (fun e => (e.1, py.coerceNumber e.2))
  parameters := d.parameters
  fields := d.fields

def parseDiscoverFields (raw : Option Text) : Except PyError (DiscoverFields F) := do
  return py.discoverFieldsOf (← py.parseDiscover raw)

/-- `coerce_number` makes a number of the string. -/
def readsAsNumber (value : Text) : Bool :=
  if '.' ∈ value ∨ 'e' ∈ py.lower value then (py.float value).isSome else (py.int value).isSome

theorem coerceNumber_eq_str_iff (value : Text) :
    py.coerceNumber value = .str value ↔ py.readsAsNumber value = false := by
  rw [coerceNumber, readsAsNumber]
  split
  · cases py.float value <;> simp
  · cases py.int value <;> simp

end Python
end Mcrpc
