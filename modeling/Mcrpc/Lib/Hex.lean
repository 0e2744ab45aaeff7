import Mathlib.Tactic.Common
import Mathlib.Data.List.Basic
import Mathlib.Data.Nat.Bitwise

/-!
# Lower-case hexadecimal

Bytes written as two digits each, high half first. Different bytes are written differently, and a
byte put together from two halves is written as their digits.
-/

namespace Hex

def pair (b : UInt8) : List Char := [(b.toNat / 16).digitChar, (b.toNat % 16).digitChar]

def encode (bytes : List UInt8) : List Char := bytes.flatMap pair

theorem toNat_digitChar {n : ℕ} (h : n < 16) :
    n.digitChar.toNat = if n < 10 then n + 48 else n + 87 := by
  decide +revert

theorem digitChar_inj {m n : ℕ} (hm : m < 16) (hn : n < 16) (h : m.digitChar = n.digitChar) :
    m = n := by
  have hcode := congrArg Char.toNat h
  rw [toNat_digitChar hm, toNat_digitChar hn] at hcode
  split_ifs at hcode <;> omega

theorem pair_injective : Function.Injective pair := by
  intro a b h
  have ha := a.toNat_lt
  have hb := b.toNat_lt
  obtain ⟨hhi, hrest⟩ := List.cons.inj h
  obtain ⟨hlo, -⟩ := List.cons.inj hrest
  have hdiv := digitChar_inj (by omega) (by omega) hhi
  have hmod := digitChar_inj (by omega) (by omega) hlo
  exact UInt8.toNat_inj.mp (by omega)

theorem pair_ofNat {hi lo : ℕ} (hhi : hi < 16) (hlo : lo < 16) :
    pair (UInt8.ofNat (hi <<< 4 ||| lo)) = [hi.digitChar, lo.digitChar] := by
  have hvalue : hi <<< 4 ||| lo = 16 * hi + lo := by
    rw [← Nat.shiftLeft_add_eq_or_of_lt hlo, Nat.shiftLeft_eq]
    omega
  have hbyte : (UInt8.ofNat (hi <<< 4 ||| lo)).toNat = 16 * hi + lo := by
    rw [hvalue, UInt8.toNat_ofNat']
    omega
  rw [pair, hbyte, show (16 * hi + lo) / 16 = hi by omega, show (16 * hi + lo) % 16 = lo by omega]

theorem encode_append (as bs : List UInt8) : encode (as ++ bs) = encode as ++ encode bs :=
  List.flatMap_append

theorem encode_singleton (b : UInt8) : encode [b] = pair b := List.append_nil _

theorem encode_injective : Function.Injective encode := by
  intro as
  induction as with
  | nil =>
    intro bs h
    cases bs with
    | nil => rfl
    | cons b bs => exact nomatch h
  | cons a as ih =>
    intro bs h
    cases bs with
    | nil => exact nomatch h
    | cons b bs =>
      obtain ⟨hpair, hrest⟩ : pair a = pair b ∧ encode as = encode bs :=
        List.append_inj (by simpa only [encode, List.flatMap_cons] using h) rfl
      rw [pair_injective hpair, ih hrest]

end Hex
