import Mcrpc.UptimeFormat
import Mathlib.Data.Nat.Log

/-!
# Room for an uptime

`formatUptime` compares the size of its buffer with a fixed minimum and `snprintf` cuts the rest.
The text has one or two numbers of any length, so the answer is right exactly when the buffer is
below the minimum or has room for the digits of these numbers, their units and the NUL.
-/

namespace Mcrpc

def decimalWidth (n : ℕ) : ℕ := Nat.log 10 n + 1

/-- An amount with its unit, and the rest with its own unless it is zero. -/
def partsWidth (amount rest : ℕ) : ℕ :=
  decimalWidth amount + 1 + if rest = 0 then 0 else decimalWidth rest + 1

def uptimeWidth (s : ℕ) : ℕ :=
  if s < 60 then partsWidth s 0
  else if s < 3600 then partsWidth (s / 60) (s % 60)
  else if s < 86400 then partsWidth (s / 3600) (s % 3600 / 60)
  else partsWidth (s / 86400) (s % 86400 / 3600)

theorem length_decimal (n : ℕ) : (decimal n).length = decimalWidth n := by
  apply Nat.le_antisymm
  · rw [decimal, decimalWidth, Nat.length_toDigits_le_iff (by decide) (Nat.succ_pos _)]
    exact Nat.lt_pow_succ_log_self (by decide) n
  · by_contra hlt
    have hpos : 0 < (decimal n).length := List.length_pos_iff.mpr (decimal_ne_nil n)
    have hn : n < 10 ^ (decimal n).length :=
      (Nat.length_toDigits_le_iff (by decide) hpos).mp (le_refl (decimal n).length)
    have hlog := Nat.log_lt_of_lt_pow' (by omega) hn
    rw [decimalWidth] at hlt
    omega

theorem length_uptimeText (s : ℕ) : (uptimeText s).length = uptimeWidth s := by
  have hparts (amount rest : ℕ) (u v : Char) :
      (if rest = 0 then decimal amount ++ [u]
        else decimal amount ++ u :: (decimal rest ++ [v])).length = partsWidth amount rest := by
    rw [partsWidth]
    split
    · rw [List.length_append, List.length_singleton, length_decimal, Nat.add_zero]
    · simp only [List.length_append, List.length_cons, List.length_nil, length_decimal]
      omega
  rw [uptimeText, uptimeWidth]
  by_cases hminute : s < 60
  · rw [if_pos hminute, if_pos hminute]
    exact hparts s 0 's' 's'
  rw [if_neg hminute, if_neg hminute]
  by_cases hhour : s < 3600
  · rw [if_pos hhour, if_pos hhour, hparts]
  rw [if_neg hhour, if_neg hhour]
  by_cases hday : s < 86400
  · rw [if_pos hday, if_pos hday, hparts]
  · rw [if_neg hday, if_neg hday, hparts]

theorem nul_not_mem_uptimeText (seconds : UInt32) : nul ∉ uptimeText seconds.toNat := by
  intro hmem
  rcases mem_uptimeText seconds.toNat_lt hmem with hdigit | hunit
  · exact absurd hdigit (by decide)
  · exact absurd hunit (by decide)

/-- `snprintf` has at least one character to write. -/
theorem formatUptimeInto_eq (seconds : UInt32) {out : List Char} (h : ¬ out.length < 4) :
    formatUptimeInto seconds out = (true, CString.put nul (uptimeText seconds.toNat) out) := by
  have hpos : 0 < (uptimeText seconds.toNat).length := by
    rw [length_uptimeText, uptimeWidth]
    split_ifs <;> simp only [partsWidth] <;> omega
  rw [formatUptimeInto, if_neg h]
  exact Prod.ext (decide_eq_true hpos) rfl

theorem formatUptime_eq_read (seconds : UInt32) (out : List Char) :
    formatUptime seconds out.length =
      if (formatUptimeInto seconds out).1 then CString.read nul (formatUptimeInto seconds out).2
      else none := by
  by_cases h : out.length < 4
  · rw [formatUptime, formatUptimeInto, if_pos h, if_pos h]
    rfl
  · have hne : out ≠ [] := List.ne_nil_of_length_pos (by omega)
    rw [formatUptime, if_neg h, formatUptimeInto_eq seconds h, if_pos rfl,
      CString.read_put (nul_not_mem_uptimeText seconds) hne]
    rfl

/-- Success means the complete text and its NUL, and without room for them there is none. -/
structure NeverCuts (seconds : UInt32) (out : List Char) : Prop where
  whole : (formatUptimeInto seconds out).1 = true →
    uptimeText seconds.toNat ++ [nul] <+: (formatUptimeInto seconds out).2
  refuses : out.length < (uptimeText seconds.toNat ++ [nul]).length →
    (formatUptimeInto seconds out).1 = false

/-- From the minimum on the buffer has to have room for the characters of the value. -/
theorem neverCuts_iff (seconds : UInt32) (out : List Char) :
    NeverCuts seconds out ↔ out.length < 4 ∨ uptimeWidth seconds.toNat < out.length := by
  rw [← length_uptimeText]
  by_cases hsmall : out.length < 4
  · refine iff_of_true ?_ (.inl hsmall)
    have hfalse : (formatUptimeInto seconds out).1 = false := by
      rw [formatUptimeInto, if_pos hsmall]
    exact ⟨fun htrue => absurd (hfalse.symm.trans htrue) Bool.false_ne_true, fun _ => hfalse⟩
  · have hresult := formatUptimeInto_eq seconds hsmall
    rw [or_iff_right hsmall]
    constructor
    · intro h
      rw [← CString.prefix_put_iff (z := nul)]
      have hwhole := h.whole (by rw [hresult])
      rwa [hresult] at hwhole
    · intro hroom
      refine ⟨fun _ => ?_, fun hcut => ?_⟩
      · rw [hresult]
        exact CString.prefix_put_iff.mpr hroom
      · rw [List.length_append, List.length_singleton] at hcut
        omega

/-- Twenty-five hours in four bytes are the three characters `1d1`. -/
theorem day_cut : ¬ NeverCuts 90000 (List.replicate 4 nul) := by
  intro h
  exact absurd (h.whole (by decide)) (by decide)

end Mcrpc
