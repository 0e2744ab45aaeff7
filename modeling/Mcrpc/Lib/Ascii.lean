import Mathlib.Tactic.Common

/-!
# Character classes by code

Comparisons of characters and ASCII case folding as arithmetic of the codes, so that inclusions and
disjointness of character classes are linear facts about one number.
-/

namespace Ascii

theorem le_iff_toNat (c d : Char) : c ≤ d ↔ c.toNat ≤ d.toNat := by
  rw [Char.le_def, UInt32.le_iff_toNat_le]
  rfl

theorem eq_iff_toNat (c d : Char) : c = d ↔ c.toNat = d.toNat := Char.toNat_inj.symm

theorem toNat_toLower (c : Char) :
    c.toLower.toNat = if 65 ≤ c.toNat ∧ c.toNat ≤ 90 then c.toNat + 32 else c.toNat := by
  have hcode : (c.val ≥ 'A'.val ∧ c.val ≤ 'Z'.val) ↔ 65 ≤ c.toNat ∧ c.toNat ≤ 90 := by
    rw [ge_iff_le, UInt32.le_iff_toNat_le, UInt32.le_iff_toNat_le]
    rfl
  unfold Char.toLower
  by_cases h : c.val ≥ 'A'.val ∧ c.val ≤ 'Z'.val
  · have hle := (hcode.mp h).2
    rw [dif_pos h, if_pos (hcode.mp h)]
    change (c.val + 32).toNat = _
    rw [UInt32.toNat_add]
    change (c.toNat + 32) % 2 ^ 32 = _
    omega
  · rw [dif_neg h, if_neg (fun h' => h (hcode.mpr h'))]

theorem toLower_toLower (c : Char) : c.toLower.toLower = c.toLower := by
  rw [eq_iff_toNat, toNat_toLower, toNat_toLower]
  split_ifs <;> omega

theorem mem_iff_of_all {cs : List Char} {p : Char → Bool} (hcs : cs.all p = true)
    (hp : (List.range 128).all
      (fun n => !p (Char.ofNat n) || decide (Char.ofNat n ∈ cs)) = true)
    (hascii : ∀ c, p c = true → c.toNat < 128) {c : Char} : c ∈ cs ↔ p c = true := by
  constructor
  · exact List.all_eq_true.mp hcs c
  · intro h
    have hc := List.all_eq_true.mp hp c.toNat (List.mem_range.mpr (hascii c h))
    rw [Char.ofNat_toNat, h] at hc
    exact of_decide_eq_true hc

end Ascii
