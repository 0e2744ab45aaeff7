import Mcrpc.ReplyBuffer
import Mcrpc.Lib.CString
import Mathlib.Data.Vector.Defs

/-!
# Node preferences

`Config.cpp` with the bytes of its record. A store is the platform's code on its own state `S`, and
`_store` points to one of a family of stores.
-/

namespace Mcrpc

/-- `char x[n]` -/
abbrev CharField (n : ℕ) := List.Vector Char n

/-- `uint8_t x[16]` -/
abbrev Bytes16 := List.Vector UInt8 16

/-- `memset(x, 0, sizeof(x))` -/
def CharField.zero (n : ℕ) : CharField n := List.Vector.replicate n nul

def Bytes16.zero : Bytes16 := List.Vector.replicate 16 0

def cfgMagic : UInt32 := 0x4D435250

def cfgVersion : UInt16 := 1

def nodeNameMax : ℕ := 32

/-- The default of every field is zero. -/
structure ConfigPrefs where
  magic : UInt32 := 0
  version : UInt16 := 0
  nodeName : CharField nodeNameMax := .zero _
  profile : CharField 24 := .zero _
  channelName : CharField 32 := .zero _
  channelPsk : Bytes16 := .zero
  listenEnabled : UInt8 := 0
  debug : UInt8 := 0
  reportIntervalS : UInt16 := 0
  featGps : UInt8 := 0
  featBattery : UInt8 := 0
  featButton : UInt8 := 0
  featRelay : UInt8 := 0
  featDisplay : UInt8 := 0
  featLed : UInt8 := 0
  reserved : Bytes16 := .zero
  deriving DecidableEq

/-- `load` is `none` when it returns false, and the record it delivers otherwise. -/
structure ConfigStore (S : Type*) where
  load : S → Option ConfigPrefs × S
  save : ConfigPrefs → S → Bool × S

structure Config (ι : Type*) where
  prefs : ConfigPrefs := {}
  store : Option ι := none

/-- The loop of `copyZ` over what is left of the array, with the NUL behind it. -/
def copyLoop : List Char → Text → List Char
  | [], _ => []
  | [_], _ => [nul]
  | _ :: d :: dest, [] => nul :: d :: dest
  | _ :: d :: dest, c :: src => c :: copyLoop (d :: dest) src

theorem copyLoop_eq_put (dest : List Char) (src : Text) :
    copyLoop dest src = CString.put nul src dest := by
  induction dest, src using copyLoop.induct with
  | case1 src => rfl
  | case2 d src => rfl
  | case3 d d' dest => rfl
  | case4 d d' dest c src ih =>
    rw [copyLoop, ih, CString.put_of_ne_nil (List.cons_ne_nil _ _),
      CString.put_of_ne_nil (List.cons_ne_nil _ _)]
    rfl

/-- A null pointer writes the NUL only, as the empty text does. -/
def copyZ {n : ℕ} (dest : CharField n) (src : Option Text) : CharField n :=
  ⟨copyLoop dest.1 (src.getD []), by rw [copyLoop_eq_put, CString.length_put, dest.2]⟩

/-- `memcpy(dest, src, n)` within the array. -/
def memcpy {α : Type*} {n : ℕ} (dest : List.Vector α n) (src : List α) (h : src.length ≤ n) :
    List.Vector α n :=
  ⟨src ++ dest.1.drop src.length, by
    rw [List.length_append, List.length_drop, dest.2]
    omega⟩

/-- `none` is -1. -/
def hexNibble (c : Char) : Option ℕ :=
  if '0' ≤ c && c ≤ '9' then some (c.toNat - '0'.toNat)
  else if 'a' ≤ c && c ≤ 'f' then some (c.toNat - 'a'.toNat + 10)
  else if 'A' ≤ c && c ≤ 'F' then some (c.toNat - 'A'.toNat + 10)
  else none

def setByte (psk : Bytes16) (i : ℕ) (b : UInt8) : Bytes16 :=
  ⟨psk.1.set i b, by rw [List.length_set, psk.2]⟩

def decodeLoop : Text → ℕ → Bytes16 → Bool × Bytes16
  | hi :: lo :: digits, i, psk =>
    match hexNibble hi, hexNibble lo with
    | some hi, some lo => decodeLoop digits (i + 1) (setByte psk i (UInt8.ofNat (hi <<< 4 ||| lo)))
    | _, _ => (false, .zero)
  | _, _, psk => (true, psk)

namespace Config

variable {ι S : Type*} (c : Config ι)

/-- `nodeName()` as a C string; `none` is a read past the end of the field. -/
def nodeName : Option Text := CString.read nul c.prefs.nodeName.1

def profile : Option Text := CString.read nul c.prefs.profile.1

def channelName : Option Text := CString.read nul c.prefs.channelName.1

def listenEnabled : Bool := c.prefs.listenEnabled ≠ 0

/-- `memset(_prefs.channel_psk, 0, ..)`, then `memcpy` of at most 16 characters. -/
def pskOfAscii (psk16 : Text) : Bytes16 :=
  memcpy Bytes16.zero ((psk16.take 16).map Char.toUInt8) (by
    rw [List.length_map]
    exact List.length_take_le 16 psk16)

/-- `if (x) copyZ(field, sizeof(field), x)` -/
def copyGiven {n : ℕ} (field : CharField n) : Option Text → CharField n
  | none => field
  | some x => copyZ field (some x)

def setDefaults (nodeName profile channelName pskAscii16 : Option Text) : Config ι :=
  { c with prefs := {
      magic := cfgMagic
      version := cfgVersion
      nodeName := copyGiven (.zero _) nodeName
      profile := copyGiven (.zero _) profile
      channelName := copyGiven (.zero _) channelName
      channelPsk := (pskAscii16.map pskOfAscii).getD .zero
      listenEnabled := 1
      featBattery := 1 } }

def setNodeName (name : Option Text) : Config ι :=
  { c with prefs := { c.prefs with nodeName := copyGiven c.prefs.nodeName name } }

def setChannelName (name : Option Text) : Config ι :=
  { c with prefs := { c.prefs with channelName := copyGiven c.prefs.channelName name } }

def setChannelPskAscii (psk16 : Option Text) : Config ι :=
  { c with prefs := { c.prefs with channelPsk := (psk16.map pskOfAscii).getD .zero } }

def setChannelPskHex (pskHex32 : Option Text) : Bool × Config ι :=
  let cleared := { c with prefs := { c.prefs with channelPsk := .zero } }
  match pskHex32 with
  | none => (false, cleared)
  | some digits =>
    if digits.length ≠ 32 then (false, cleared)
    else
      let r := decodeLoop digits 0 .zero
      (r.1, { c with prefs := { c.prefs with channelPsk := r.2 } })

def setListenEnabled (on : Bool) : Config ι :=
  { c with prefs := { c.prefs with listenEnabled := if on then 1 else 0 } }

def load (stores : ι → ConfigStore S) (w : S) : (Bool × Config ι) × S :=
  match c.store with
  | none => ((false, c), w)
  | some i =>
    let r := (stores i).load w
    match r.1 with
    | none => ((false, c), r.2)
    | some tmp =>
      if tmp.magic ≠ cfgMagic then ((false, c), r.2)
      else if tmp.version ≠ cfgVersion then ((false, c), r.2)
      else ((true, { c with prefs := tmp }), r.2)

def save (stores : ι → ConfigStore S) (w : S) : (Bool × Config ι) × S :=
  match c.store with
  | none => ((false, c), w)
  | some i =>
    let prefs := { c.prefs with magic := cfgMagic, version := cfgVersion }
    let r := (stores i).save prefs w
    ((r.1, { c with prefs := prefs }), r.2)

def begin (stores : ι → ConfigStore S) (store : Option ι) (w : S) : (Bool × Config ι) × S :=
  let r := { c with store := store }.load stores w
  if !r.1.1 then r.1.2.save stores r.2 else ((true, r.1.2), r.2)

end Config
end Mcrpc
