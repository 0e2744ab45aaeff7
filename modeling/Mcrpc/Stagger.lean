import Mcrpc.ReplyJitter
import Mcrpc.Python.ReplyJitter
import Mcrpc.Python.Uptime
import Mcrpc.DiscoveryLine
import Mathlib.Order.Interval.Set.Defs

/-!
# The stagger of broadcast replies

A delay is drawn from the interval of its identity's slot, and the intervals of the slots lie one
behind the other after every delay of an addressed reply. The firmware and the Python package draw
from the same slot when they hash the same seed.
-/

namespace Mcrpc

open Scan

/-- Delays in milliseconds for identities `ι` and random values `ε`, as section 8 of RFC-0002 asks
for them. -/
structure Staggered {ι ε : Type} (delay : Bool → ι → ε → ℕ) (slot : ι → ℕ) : Prop where
  bounds : ∀ a e, 400 ≤ delay true a e ∧ delay true a e ≤ 3600
  mem_slot : ∀ a e, delay true a e ∈ Set.Ico (400 + 200 * slot a) (400 + 200 * (slot a + 1))
  separated : ∀ a b e e', slot a < slot b → delay true a e < delay true b e'
  after_addressed : ∀ a b e e', delay false b e' < delay true a e

/-- Sixteen slots of 200 ms, and addressed replies within 120 ms. -/
theorem staggered_of {ι ε : Type} {delay : Bool → ι → ε → ℕ} {slot : ι → ℕ} {within : ε → ℕ}
    (hslot : ∀ a, slot a < 16) (hwithin : ∀ e, within e < 200)
    (hbroadcast : ∀ a e, delay true a e = 400 + 200 * slot a + within e)
    (haddressed : ∀ a e, delay false a e ≤ 120) : Staggered delay slot where
  bounds a e := by
    have := hslot a
    have := hwithin e
    rw [hbroadcast]
    omega
  mem_slot a e := by
    have := hwithin e
    rw [hbroadcast, Set.mem_Ico]
    omega
  separated a b e e' hlt := by
    have := hwithin e
    rw [hbroadcast, hbroadcast]
    omega
  after_addressed a b e e' := by
    have := haddressed b e'
    rw [hbroadcast]
    omega

def withinSlot (entropy : ℕ) : ℕ := if 0 < 200 ∧ entropy ≠ 0 then entropy % 200 else 0

theorem withinSlot_lt (entropy : ℕ) : withinSlot entropy < 200 := by
  rw [withinSlot]
  split
  · exact Nat.mod_lt _ (by decide)
  · decide

namespace ReplyJitter

def slot (identity : Text) : ℕ := (identityHash (slotSeed identity)).toNat % 16

theorem delayMs_eq_slot (identity : Text) (entropy : UInt16) :
    delayMs true identity entropy = 400 + 200 * slot identity + withinSlot entropy.toNat := by
  have hslot : slot identity < 16 := Nat.mod_lt _ (by decide)
  have hlt := withinSlot_lt entropy.toNat
  have hwithin : (if 0 < (broadcastMaxMs - broadcastMinMs) / slotCount ∧ entropy ≠ 0 then
      entropy.toNat % ((broadcastMaxMs - broadcastMinMs) / slotCount) else 0) =
      withinSlot entropy.toNat :=
    if_congr (and_congr_right (fun _ => not_congr UInt16.toNat_inj.symm)) rfl rfl
  have hdelay : delayMs true identity entropy =
      min (400 + slot identity * 200 + withinSlot entropy.toNat) 3600 :=
    congrArg (fun within => min (400 + slot identity * 200 + within) 3600) hwithin
  rw [hdelay]
  omega

end ReplyJitter

namespace Python

variable {F : Type} (py : Python F)

def slot (identity : Option Text) : ℕ := identityHash (some (py.jitterSeed identity)) % 16

theorem delayMs_eq_slot (identity : Option Text) (entropy : ℤ) :
    py.delayMs true identity entropy =
      400 + 200 * py.slot identity + withinSlot (entropy % 65536).toNat := by
  have hslot : py.slot identity < 16 := Nat.mod_lt _ (by decide)
  have hlt := withinSlot_lt (entropy % 65536).toNat
  change min 3600 (400 + py.slot identity * 200 + withinSlot (entropy % 65536).toNat) = _
  omega

end Python

/-- Firmware and Python host both stagger their replies. -/
theorem staggered_delayMs {F : Type} (py : Python F) :
    Staggered ReplyJitter.delayMs ReplyJitter.slot ∧ Staggered py.delayMs py.slot := by
  constructor
  · exact staggered_of (fun a => Nat.mod_lt _ (by decide)) (fun e => withinSlot_lt e.toNat)
      ReplyJitter.delayMs_eq_slot (fun a e => Nat.le_of_lt_succ (Nat.mod_lt _ (by decide)))
  · exact staggered_of (fun a => Nat.mod_lt _ (by decide)) (fun e => withinSlot_lt _)
      py.delayMs_eq_slot (fun a e => Nat.le_of_lt_succ (Nat.mod_lt _ (by decide)))

/-! ### The seeds -/

theorem mem_hexChars_iff {c : Char} : c ∈ Python.hexChars ↔ ReplyJitter.isHex c = true := by
  have hascii (c : Char) (h : ReplyJitter.isHex c = true) : c.toNat < 128 := by
    simp only [ReplyJitter.isHex, Bool.or_eq_true, Bool.and_eq_true, decide_eq_true_eq,
      Ascii.le_iff_toNat] at h
    change (48 ≤ c.toNat ∧ c.toNat ≤ 57 ∨ 97 ≤ c.toNat ∧ c.toNat ≤ 102) ∨
      65 ≤ c.toNat ∧ c.toNat ≤ 70 at h
    omega
  exact Ascii.mem_iff_of_all rfl (by decide +kernel) hascii

theorem isHex_code {c : Char} (h : ReplyJitter.isHex c = true) :
    c.toNat < 128 ∧ isSpace c = false ∧ lowerHex c = c.toLower ∧
      ReplyJitter.isHex c.toLower = true := by
  have hall : Python.hexChars.all (fun c =>
      c.toNat < 128 && !isSpace c && lowerHex c == c.toLower &&
      ReplyJitter.isHex c.toLower) = true := by decide
  simpa [and_assoc] using List.all_eq_true.mp hall c (mem_hexChars_iff.mpr h)

/-- The first 64 characters are hexadecimal digits, eight at least. -/
def LooksHex (identity : Text) : Prop :=
  8 ≤ identity.length ∧ ∀ c ∈ identity.take 64, ReplyJitter.isHex c = true

instance (identity : Text) : Decidable (LooksHex identity) :=
  @instDecidableAnd _ _ _ (List.decidableBAll _ _)

def firmwareSeed (identity : Text) : Text :=
  if LooksHex identity then lower (identity.take 8) else identity

/-- Eight hexadecimal digits at least and nothing else. -/
def HexWord (s : Text) : Prop := 8 ≤ s.length ∧ ∀ c ∈ s, ReplyJitter.isHex c = true

instance (s : Text) : Decidable (HexWord s) := @instDecidableAnd _ _ _ (List.decidableBAll _ _)

def hostSeed (identity : Text) : Text :=
  if strip identity = [] then identity
  else if HexWord (strip identity) then lower ((strip identity).take 8)
  else strip identity

theorem map_lowerHex {s : Text} (h : ∀ c ∈ s, ReplyJitter.isHex c = true) :
    s.map lowerHex = lower s := List.map_congr_left (fun c hc => (isHex_code (h c hc)).2.2.1)

theorem LooksHex.take_eight {identity : Text} (h : LooksHex identity) :
    ∀ c ∈ identity.take 8, ReplyJitter.isHex c = true :=
  fun c hc => h.2 c ((List.take_prefix_take_left (by decide)).mem hc)

theorem slotSeed_eq (identity : Text) : ReplyJitter.slotSeed identity = firmwareSeed identity := by
  have hlooks : ((identity.take 64).all ReplyJitter.isHex && 8 ≤ (identity.take 64).length) = true ↔
      LooksHex identity := by
    rw [Bool.and_eq_true, List.all_eq_true, decide_eq_true_eq, List.length_take, LooksHex, and_comm]
    exact and_congr_left' (by omega)
  rw [ReplyJitter.slotSeed, firmwareSeed]
  by_cases h : LooksHex identity
  · rw [if_pos (hlooks.mpr h), if_pos h, map_lowerHex h.take_eight]
  · rw [if_neg (fun h' => h (hlooks.mp h')), if_neg h]

theorem jitterSeed_eq {F : Type} (py : Python F) (identity : Text) :
    py.jitterSeed (some identity) = hostSeed identity := by
  have hseed : py.slotSeed (some identity) =
      if HexWord (strip identity) then lower ((strip identity).take 8) else strip identity := by
    have hall : 8 ≤ (strip identity).length ∧ (strip identity).all (· ∈ Python.hexChars) = true ↔
        HexWord (strip identity) := by
      simp only [HexWord, List.all_eq_true, decide_eq_true_eq, mem_hexChars_iff]
    simp only [Python.slotSeed, Option.getD_some, hall]
    split
    · next h =>
      exact py.lower_ascii _ (fun c hc => (isHex_code (h.2 c (List.mem_of_mem_take hc))).1)
    · rfl
  rw [Python.jitterSeed, hseed, hostSeed]
  by_cases hnil : strip identity = []
  · rw [if_pos hnil, hnil]
    rfl
  · rw [if_neg hnil]
    by_cases h : HexWord (strip identity)
    · have hne : lower ((strip identity).take 8) ≠ [] := by
        have hle := h.1
        rw [ne_eq, ← List.length_eq_zero_iff, length_lower, List.length_take]
        omega
      rw [if_pos h, if_pos hne]
    · rw [if_neg h, if_pos hnil]

theorem rdropWhile_append {p : Char → Bool} {pre : Text} (h : ∀ c ∈ pre, p c = false) (t : Text) :
    (pre ++ t).rdropWhile p = pre ++ t.rdropWhile p := by
  induction pre with
  | nil => rfl
  | cons c pre ih =>
    obtain ⟨hc, hpre⟩ := List.forall_mem_cons.mp h
    rw [List.cons_append, rdropWhile_cons, hc, ih hpre, if_neg (fun h => Bool.false_ne_true h.1),
      List.cons_append]

/-- Trimming keeps the digits an identity starts with. -/
theorem LooksHex.strip_eq {identity : Text} (h : LooksHex identity) :
    ∃ t, strip identity = identity.take 8 ++ t := by
  have hspace : ∀ c ∈ identity.take 8, isSpace c = false := fun c hc =>
    (isHex_code (h.take_eight c hc)).2.1
  have hdrop : identity.dropWhile isSpace = identity := by
    apply dropWhile_eq_self
    intro c hc
    apply hspace c
    cases identity with
    | nil => cases hc
    | cons d s =>
      obtain rfl : d = c := Option.some.inj hc
      exact List.mem_cons_self
  refine ⟨(identity.drop 8).rdropWhile isSpace, ?_⟩
  rw [strip, hdrop, ← rdropWhile_append hspace, List.take_append_drop]

/-- What has to hold of an identity for both sides to hash the same text: no white space around it,
and no other characters behind 64 hexadecimal digits. -/
def SameSeed (identity : Text) : Prop :=
  if LooksHex identity then ∀ c ∈ strip identity, ReplyJitter.isHex c = true
  else strip identity = identity ∨ strip identity = []

theorem isHex_of_mem_lower {s : Text} (h : ∀ c ∈ s, ReplyJitter.isHex c = true) {c : Char}
    (hc : c ∈ lower s) : ReplyJitter.isHex c = true := by
  obtain ⟨d, hd, rfl⟩ := List.mem_map.mp hc
  exact (isHex_code (h d hd)).2.2.2

theorem LooksHex.hostSeed_eq_iff {identity : Text} (h : LooksHex identity) :
    hostSeed identity = lower (identity.take 8) ↔
      ∀ c ∈ strip identity, ReplyJitter.isHex c = true := by
  obtain ⟨t, ht⟩ := h.strip_eq
  have hlen : (identity.take 8).length = 8 := List.length_take_of_le h.1
  have htake : (strip identity).take 8 = identity.take 8 := by
    rw [ht, List.take_left' hlen]
  have hle : 8 ≤ (strip identity).length := by
    rw [ht, List.length_append]
    omega
  have hne : strip identity ≠ [] := by
    intro hnil
    rw [hnil] at hle
    exact absurd hle (by decide)
  rw [hostSeed, if_neg hne, htake]
  constructor
  · intro hsame
    split at hsame
    · next hword => exact hword.2
    · intro c hc
      rw [hsame] at hc
      exact isHex_of_mem_lower h.take_eight hc
  · intro hall
    rw [if_pos ⟨hle, hall⟩]

theorem HexWord.looksHex {s : Text} (h : HexWord s) : LooksHex s :=
  ⟨h.1, fun c hc => h.2 c (List.mem_of_mem_take hc)⟩

theorem hostSeed_eq_self_iff {identity : Text} (h : ¬ LooksHex identity) :
    hostSeed identity = identity ↔ strip identity = identity ∨ strip identity = [] := by
  rw [hostSeed]
  by_cases hnil : strip identity = []
  · rw [if_pos hnil]
    exact iff_of_true rfl (.inr hnil)
  · rw [if_neg hnil, or_iff_left hnil]
    split
    · next hword =>
      apply iff_of_false
      · intro hsame
        apply h
        apply HexWord.looksHex
        rw [← hsame]
        constructor
        · have hle := hword.1
          rw [length_lower, List.length_take]
          omega
        · intro c hc
          exact isHex_of_mem_lower (fun d hd => hword.2 d (List.mem_of_mem_take hd)) hc
      · intro hsame
        rw [hsame] at hword
        exact h hword.looksHex
    · exact Iff.rfl

theorem seeds_eq_iff (identity : Text) :
    hostSeed identity = firmwareSeed identity ↔ SameSeed identity := by
  rw [firmwareSeed, SameSeed]
  by_cases h : LooksHex identity
  · rw [if_pos h, if_pos h, h.hostSeed_eq_iff]
  · rw [if_neg h, if_neg h, hostSeed_eq_self_iff h]

/-! ### The two delays -/

theorem hashByte_eq (h : UInt32) {c : Char} (hc : c.toNat < 128) :
    Python.hashByte h.toNat (UInt8.ofNat c.toNat) =
      ((h ^^^ UInt32.ofNat c.toNat) * 16777619).toNat := by
  have hbyte : (UInt8.ofNat c.toNat).toNat = c.toNat := UInt8.toNat_ofNat_of_lt' (by
    change c.toNat < 256
    omega)
  have hword : (UInt32.ofNat c.toNat).toNat = c.toNat := UInt32.toNat_ofNat_of_lt' (by
    change c.toNat < 2 ^ 32
    omega)
  rw [Python.hashByte, UInt32.toNat_mul, UInt32.toNat_xor, hbyte, hword]
  rfl

theorem identityHash_eq {text : Text} (h : ∀ c ∈ text, c.toNat < 128) :
    Python.identityHash (some text) = (ReplyJitter.identityHash text).toNat := by
  have hfold (start : UInt32) :
      (text.flatMap String.utf8EncodeChar).foldl Python.hashByte start.toNat =
        (text.foldl (fun h c => (h ^^^ UInt32.ofNat c.toNat) * 16777619) start).toNat := by
    induction text generalizing start with
    | nil => rfl
    | cons c text ih =>
      obtain ⟨hc, htext⟩ := List.forall_mem_cons.mp h
      have hencode : String.utf8EncodeChar c = [UInt8.ofNat c.toNat] := by
        apply String.utf8EncodeChar_eq_singleton
        rw [Char.utf8Size_eq_one_iff, UInt32.le_iff_toNat_le]
        exact Nat.le_of_lt_succ hc
      rw [List.flatMap_cons, hencode, List.singleton_append, List.foldl_cons, List.foldl_cons,
        hashByte_eq start hc]
      exact ih htext _
  exact hfold 2166136261

theorem ascii_hostSeed {identity : Text} (h : ∀ c ∈ identity, c.toNat < 128) :
    ∀ c ∈ hostSeed identity, c.toNat < 128 := by
  have hstrip : ∀ c ∈ strip identity, c.toNat < 128 := fun c hc =>
    h c ((List.dropWhile_suffix _).mem ((List.rdropWhile_prefix _ _).mem hc))
  rw [hostSeed]
  split_ifs with hnil hhex
  · exact h
  · intro c hc
    obtain ⟨d, hd, rfl⟩ := List.mem_map.mp hc
    exact (isHex_code (isHex_code (hhex.2 d (List.mem_of_mem_take hd))).2.2.2).1
  · exact hstrip

def SameSlot (a b : Text) : Prop :=
  (ReplyJitter.identityHash a).toNat % 16 = (ReplyJitter.identityHash b).toNat % 16

/-- A Python host and the firmware hash the same text for an identity under one condition, and
without it their broadcast delays agree only where two different texts share a slot. -/
theorem delayMs_agree_iff {F : Type} (py : Python F) {identity : Text}
    (h : ∀ c ∈ identity, c.toNat < 128) (broadcast : Bool) (entropy : UInt16) :
    (py.jitterSeed (some identity) = ReplyJitter.slotSeed identity ↔ SameSeed identity) ∧
    (py.delayMs broadcast (some identity) entropy.toNat =
      ReplyJitter.delayMs broadcast identity entropy ↔
      broadcast = false ∨ SameSeed identity ∨
        SameSlot (hostSeed identity) (firmwareSeed identity)) := by
  have hseeds := seeds_eq_iff identity
  have hentropy : ((entropy.toNat : ℤ) % 65536).toNat = entropy.toNat := by
    have := entropy.toNat_lt
    omega
  refine ⟨by rw [jitterSeed_eq, slotSeed_eq, hseeds], ?_⟩
  cases broadcast with
  | false =>
    refine iff_of_true ?_ (.inl rfl)
    change ((entropy.toNat : ℤ) % 65536).toNat % 121 = entropy.toNat % 121
    rw [hentropy]
  | true =>
    have hslots : py.slot (some identity) = ReplyJitter.slot identity ↔
        SameSlot (hostSeed identity) (firmwareSeed identity) := by
      rw [Python.slot, ReplyJitter.slot, jitterSeed_eq, slotSeed_eq,
        identityHash_eq (ascii_hostSeed h), SameSlot]
    rw [py.delayMs_eq_slot, ReplyJitter.delayMs_eq_slot, hentropy, ← hslots, ← hseeds]
    constructor
    · intro hsame
      exact .inr (.inr (by omega))
    · rintro (hfalse | hseed | hslot)
      · cases hfalse
      · rw [hslots.mpr (by rw [hseed, SameSlot])]
      · rw [hslot]

theorem delayMs_agree_tracker :
    (Python.ascii.jitterSeed (some "3CBB01C6F2".toList) =
      ReplyJitter.slotSeed "3CBB01C6F2".toList ↔ SameSeed "3CBB01C6F2".toList) ∧
    (Python.ascii.delayMs true (some "3CBB01C6F2".toList) (1000 : UInt16).toNat =
      ReplyJitter.delayMs true "3CBB01C6F2".toList 1000 ↔
      true = false ∨ SameSeed "3CBB01C6F2".toList ∨
        SameSlot (hostSeed "3CBB01C6F2".toList) (firmwareSeed "3CBB01C6F2".toList)) :=
  delayMs_agree_iff Python.ascii (forall_of_all rfl) true 1000

/-- A blank behind the identity moves the firmware to another slot than the Python host. -/
theorem delayMs_disagree :
    Python.ascii.delayMs true (some "3cbb01c6 ".toList) (0 : UInt16).toNat ≠
      ReplyJitter.delayMs true "3cbb01c6 ".toList 0 := by decide +kernel

/-! ### The short id -/

theorem mem_lowerHexChars_of_lower {c : Char} (h : ReplyJitter.isHex c = true) :
    c.toLower ∈ Python.lowerHexChars := by
  have hall : Python.hexChars.all (fun c => decide (c.toLower ∈ Python.lowerHexChars)) = true := by
    decide
  exact of_decide_eq_true (List.all_eq_true.mp hall c (mem_hexChars_iff.mpr h))

theorem HexWord.ne_nil {s : Text} (h : HexWord s) : s ≠ [] := by
  have hle := h.1
  intro hnil
  rw [hnil] at hle
  exact absurd hle (by decide)

/-- The discovery id: the first eight digits in lower case, on both sides. -/
theorem HexWord.shortId8_eq {F : Type} (py : Python F) {s : Text} (h : HexWord s) :
    shortId8 s = some (lower (s.take 8)) ∧ py.shortId8 (some s) = lower (s.take 8) := by
  constructor
  · rw [shortId8, if_neg h.ne_nil, map_lowerHex h.looksHex.take_eight]
  · have hlower : py.lower s = lower s := py.lower_ascii s (fun c hc => (isHex_code (h.2 c hc)).1)
    have hkeep : (lower s).filter (· ∈ Python.lowerHexChars) = lower s := by
      rw [List.filter_eq_self]
      intro c hc
      obtain ⟨d, hd, rfl⟩ := List.mem_map.mp hc
      exact decide_eq_true (mem_lowerHexChars_of_lower (h.2 d hd))
    change (if s = [] then [] else ((py.lower s).filter (· ∈ Python.lowerHexChars)).take 8) = _
    rw [if_neg h.ne_nil, hlower, hkeep, lower, lower, List.map_take]

theorem HexWord.shortId {s : Text} (h : HexWord s) : HexWord (lower (s.take 8)) := by
  constructor
  · have hle := h.1
    rw [length_lower, List.length_take]
    omega
  · exact fun c hc => isHex_of_mem_lower h.looksHex.take_eight hc

theorem take_eight_shortId (s : Text) : lower ((lower (s.take 8)).take 8) = lower (s.take 8) := by
  rw [lower, lower, ← List.map_take, List.take_take, ← lower, ← lower, lower_lower]
  rfl

/-- The seed of an identity is its discovery id, and so is the seed of that. -/
theorem HexWord.seeds_eq {s : Text} (h : HexWord s) :
    ReplyJitter.slotSeed s = lower (s.take 8) ∧ hostSeed s = lower (s.take 8) := by
  have hstrip : strip s = s := strip_eq_self (fun c hc => (isHex_code (h.2 c hc)).2.1)
  constructor
  · rw [slotSeed_eq, firmwareSeed, if_pos h.looksHex]
  · rw [hostSeed, hstrip, if_neg h.ne_nil, if_pos h]

/-- Who knows the whole identity and who knows its discovery id only compute the same broadcast
delay, on the firmware and on a Python host. -/
theorem delayMs_shortId8 {F : Type} (py : Python F) {s : Text} (h : HexWord s) (entropy : UInt16) :
    ∃ id8, shortId8 s = some id8 ∧ py.shortId8 (some s) = id8 ∧ id8 = lower (s.take 8) ∧
      ReplyJitter.delayMs true s entropy = ReplyJitter.delayMs true id8 entropy ∧
      py.delayMs true (some s) entropy.toNat = py.delayMs true (some id8) entropy.toNat := by
  obtain ⟨hshort, hpython⟩ := h.shortId8_eq py
  obtain ⟨hseed, hhost⟩ := h.seeds_eq
  obtain ⟨hseed', hhost'⟩ := h.shortId.seeds_eq
  rw [take_eight_shortId] at hseed' hhost'
  refine ⟨lower (s.take 8), hshort, hpython, rfl, ?_, ?_⟩
  · rw [ReplyJitter.delayMs_eq_slot, ReplyJitter.delayMs_eq_slot, ReplyJitter.slot,
      ReplyJitter.slot, hseed, hseed']
  · rw [py.delayMs_eq_slot, py.delayMs_eq_slot, Python.slot, Python.slot, jitterSeed_eq,
      jitterSeed_eq, hhost, hhost']

theorem delayMs_shortId8_tracker :
    ∃ id8, shortId8 "3CBB01C6F2".toList = some id8 ∧
      Python.ascii.shortId8 (some "3CBB01C6F2".toList) = id8 ∧
      id8 = lower ("3CBB01C6F2".toList.take 8) ∧
      ReplyJitter.delayMs true "3CBB01C6F2".toList 1000 = ReplyJitter.delayMs true id8 1000 ∧
      Python.ascii.delayMs true (some "3CBB01C6F2".toList) (1000 : UInt16).toNat =
        Python.ascii.delayMs true (some id8) (1000 : UInt16).toNat :=
  delayMs_shortId8 Python.ascii ⟨by decide, forall_of_all rfl⟩ 1000

end Mcrpc
