import Mcrpc.Config
import Mcrpc.Parser
import Mcrpc.Lib.Hex

/-!
# Decoding of a channel key

`setChannelPskHex` takes exactly the strings of 32 hex digits, and stores the bytes they encode. Of
any other string nothing is stored, also when its bad digit comes late.
-/

namespace Mcrpc

/-- Exactly 32 hex digits, in either case. -/
structure KeyText (digits : Text) : Prop where
  length : digits.length = 32
  hex : ∀ d ∈ digits, isHexChar d = true

theorem hexNibble_eq (d : Char) :
    hexNibble d = if 48 ≤ d.toNat ∧ d.toNat ≤ 57 then some (d.toNat - 48)
      else if 97 ≤ d.toNat ∧ d.toNat ≤ 102 then some (d.toNat - 97 + 10)
      else if 65 ≤ d.toNat ∧ d.toNat ≤ 70 then some (d.toNat - 65 + 10) else none := by
  simp only [hexNibble, Bool.and_eq_true, decide_eq_true_eq, Ascii.le_iff_toNat]
  rfl

theorem hexNibble_eq_none_iff {d : Char} : hexNibble d = none ↔ ¬ isHexChar d = true := by
  rw [hexNibble_eq, isHexChar_iff]
  split_ifs <;> simp only [false_iff, true_iff, not_not] <;> omega

theorem isHexChar_of_hexNibble {d : Char} {n : ℕ} (h : hexNibble d = some n) :
    isHexChar d = true := by
  by_contra hbad
  rw [hexNibble_eq_none_iff.mpr hbad] at h
  cases h

theorem exists_hexNibble {d : Char} (h : isHexChar d = true) : ∃ n, hexNibble d = some n :=
  Option.ne_none_iff_exists'.mp (fun hnone => hexNibble_eq_none_iff.mp hnone h)

theorem digitChar_of_hexNibble {d : Char} {n : ℕ} (h : hexNibble d = some n) :
    n < 16 ∧ n.digitChar = d.toLower := by
  rw [hexNibble_eq] at h
  have hn : n < 16 := by split_ifs at h <;> cases h <;> omega
  refine ⟨hn, ?_⟩
  rw [Ascii.eq_iff_toNat, Hex.toNat_digitChar hn, Ascii.toNat_toLower]
  split_ifs at h <;> cases h <;> split_ifs <;> omega

theorem take_setByte (psk : Bytes16) {i : ℕ} (h : i < 16) (b : UInt8) :
    (setByte psk i b).toList.take (i + 1) = psk.toList.take i ++ [b] := by
  have hlen : i < (psk.toList.set i b).length := by rwa [List.length_set, psk.toList_length]
  change (psk.toList.set i b).take (i + 1) = _
  rw [List.take_succ_eq_append_getElem hlen, List.getElem_set_self, List.take_set_of_le le_rfl]

theorem encode_setByte (psk : Bytes16) {i : ℕ} (h : i < 16) {d e : Char} {hi lo : ℕ}
    (hd : hexNibble d = some hi) (he : hexNibble e = some lo) :
    Hex.encode ((setByte psk i (UInt8.ofNat (hi <<< 4 ||| lo))).toList.take (i + 1)) =
      Hex.encode (psk.toList.take i) ++ [d.toLower, e.toLower] := by
  obtain ⟨hhi, hdigit⟩ := digitChar_of_hexNibble hd
  obtain ⟨hlo, hdigit'⟩ := digitChar_of_hexNibble he
  rw [take_setByte psk h, Hex.encode_append, Hex.encode_singleton, Hex.pair_ofNat hhi hlo, hdigit,
    hdigit']

/-- The loop either stores all the digits that are left behind the bytes it has, or nothing. -/
theorem decodeLoop_spec (digits : Text) (i : ℕ) (psk : Bytes16)
    (h : digits.length + 2 * i = 32) :
    (∃ v, decodeLoop digits i psk = (true, v) ∧ (∀ d ∈ digits, isHexChar d = true) ∧
      Hex.encode v.toList = Hex.encode (psk.toList.take i) ++ digits.map Char.toLower) ∨
    decodeLoop digits i psk = (false, .zero) ∧ ¬ ∀ d ∈ digits, isHexChar d = true := by
  induction digits, i, psk using decodeLoop.induct with
  | case1 d e digits i psk hi lo he hd ih =>
    rw [List.length_cons, List.length_cons] at h
    rw [decodeLoop, hd, he, List.forall_mem_cons, List.forall_mem_cons,
      and_iff_right (isHexChar_of_hexNibble hd), and_iff_right (isHexChar_of_hexNibble he)]
    obtain ⟨v, hv, hhex, htext⟩ | hbad := ih (by omega)
    · refine .inl ⟨v, hv, hhex, ?_⟩
      rw [htext, encode_setByte psk (by omega) hd he, List.append_assoc]
      rfl
    · exact .inr hbad
  | case2 d e digits i psk hnone =>
    refine .inr ⟨?_, ?_⟩
    · rw [decodeLoop]
      split
      · next hd he => exact (hnone _ _ hd he).elim
      · rfl
    · intro hhex
      obtain ⟨hi, hd⟩ := exists_hexNibble (hhex d List.mem_cons_self)
      obtain ⟨lo, he⟩ := exists_hexNibble (hhex e (List.mem_cons_of_mem d List.mem_cons_self))
      exact hnone hi lo hd he
  | case3 digits i psk hshort =>
    -- An even number of digits is left, and fewer than two.
    obtain rfl : digits = [] := by
      match digits with
      | [] => rfl
      | [d] => exact absurd h (by rw [List.length_singleton]; omega)
      | d :: e :: rest => exact (hshort d e rest rfl).elim
    obtain rfl : i = 16 := by
      rw [List.length_nil] at h
      omega
    refine .inl ⟨psk, rfl, nofun, ?_⟩
    rw [List.take_of_length_le (by rw [psk.toList_length]), List.map_nil, List.append_nil]

namespace Config

variable {ι : Type*} (c : Config ι)

theorem setChannelPskHex_frame (pskHex32 : Option Text) :
    (c.setChannelPskHex pskHex32).2 =
      { c with prefs :=
        { c.prefs with channelPsk := (c.setChannelPskHex pskHex32).2.prefs.channelPsk } } := by
  cases pskHex32 with
  | none => rfl
  | some digits =>
    rw [setChannelPskHex]
    dsimp only
    split_ifs <;> rfl

variable {c} {digits : Text}

theorem setChannelPskHex_of_keyText (h : KeyText digits) :
    (c.setChannelPskHex (some digits)).1 = true ∧
      Hex.encode (c.setChannelPskHex (some digits)).2.prefs.channelPsk.toList =
        digits.map Char.toLower := by
  obtain ⟨v, hv, -, htext⟩ | ⟨-, hbad⟩ :=
    decodeLoop_spec digits 0 .zero (by rw [h.length])
  · rw [setChannelPskHex]
    dsimp only
    rw [if_neg (not_not.mpr h.length), hv]
    exact ⟨rfl, htext⟩
  · exact absurd h.hex hbad

theorem setChannelPskHex_of_not_keyText (h : ¬ KeyText digits) :
    (c.setChannelPskHex (some digits)).1 = false ∧
      (c.setChannelPskHex (some digits)).2.prefs.channelPsk = .zero := by
  rw [setChannelPskHex]
  dsimp only
  by_cases hlen : digits.length = 32
  · obtain ⟨v, -, hhex, -⟩ | ⟨hfail, -⟩ := decodeLoop_spec digits 0 .zero (by rw [hlen])
    · exact absurd ⟨hlen, hhex⟩ h
    · rw [if_neg (not_not.mpr hlen), hfail]
      exact ⟨rfl, rfl⟩
  · rw [if_pos hlen]
    exact ⟨rfl, rfl⟩

/-- The key is the one that encodes to the string, or no key at all, for every string and state. -/
theorem setChannelPskHex_exact (c : Config ι) (pskHex32 : Option Text) :
    let r := c.setChannelPskHex pskHex32
    (r.1 = true ↔ ∃ digits, pskHex32 = some digits ∧ KeyText digits) ∧
      (∀ digits, pskHex32 = some digits → KeyText digits → ∀ psk : Bytes16,
        psk = r.2.prefs.channelPsk ↔ Hex.encode psk.toList = digits.map Char.toLower) ∧
      ((¬ ∃ digits, pskHex32 = some digits ∧ KeyText digits) → r.2.prefs.channelPsk = .zero) ∧
      r.2 = { c with prefs := { c.prefs with channelPsk := r.2.prefs.channelPsk } } := by
  intro r
  refine ⟨?_, ?_, ?_, c.setChannelPskHex_frame pskHex32⟩
  · constructor
    · intro htrue
      cases pskHex32 with
      | none => cases htrue
      | some digits =>
        by_contra hbad
        have hnot : ¬ KeyText digits := fun h => hbad ⟨digits, rfl, h⟩
        exact Bool.false_ne_true ((setChannelPskHex_of_not_keyText hnot).1.symm.trans htrue)
    · rintro ⟨digits, rfl, h⟩
      exact (setChannelPskHex_of_keyText h).1
  · rintro digits rfl h psk
    have htext := (setChannelPskHex_of_keyText (c := c) h).2
    constructor
    · rintro rfl
      exact htext
    · intro hpsk
      exact Subtype.ext (Hex.encode_injective (hpsk.trans htext.symm))
  · intro hbad
    cases pskHex32 with
    | none => rfl
    | some digits => exact (setChannelPskHex_of_not_keyText fun h => hbad ⟨digits, rfl, h⟩).2

end Config
end Mcrpc
