import Mcrpc.Dispatcher
import Mcrpc.Lib.CString

/-!
# Uptime and short identity

`UptimeFormat.h`.
-/

namespace Mcrpc

def uptimeText (seconds : ℕ) : Text :=
  if seconds < 60 then decimal seconds ++ ['s']
  else if seconds < 3600 then
    if seconds % 60 = 0 then decimal (seconds / 60) ++ ['m']
    else decimal (seconds / 60) ++ 'm' :: (decimal (seconds % 60) ++ ['s'])
  else if seconds < 86400 then
    if seconds % 3600 / 60 = 0 then decimal (seconds / 3600) ++ ['h']
    else decimal (seconds / 3600) ++ 'h' :: (decimal (seconds % 3600 / 60) ++ ['m'])
  else
    if seconds % 86400 / 3600 = 0 then decimal (seconds / 86400) ++ ['d']
    else decimal (seconds / 86400) ++ 'd' :: (decimal (seconds % 86400 / 3600) ++ ['h'])

def uptimeUnits : Text := "smhd".toList

/-- One or two numbers, each with its unit. -/
theorem uptimeText_eq {seconds : ℕ} (h : seconds < 2 ^ 32) : ∃ a u tail,
    uptimeText seconds = decimal a ++ u :: tail ∧ a < 100000 ∧ u ∈ uptimeUnits ∧
      (tail = [] ∨ ∃ b v, tail = decimal b ++ [v] ∧ b < 100 ∧ v ∈ uptimeUnits) := by
  unfold uptimeText
  split_ifs
  · exact ⟨_, 's', [], rfl, by omega, by decide, .inl rfl⟩
  · exact ⟨_, 'm', [], rfl, by omega, by decide, .inl rfl⟩
  · exact ⟨_, 'm', _, rfl, by omega, by decide, .inr ⟨_, 's', rfl, by omega, by decide⟩⟩
  · exact ⟨_, 'h', [], rfl, by omega, by decide, .inl rfl⟩
  · exact ⟨_, 'h', _, rfl, by omega, by decide, .inr ⟨_, 'm', rfl, by omega, by decide⟩⟩
  · exact ⟨_, 'd', [], rfl, by omega, by decide, .inl rfl⟩
  · exact ⟨_, 'd', _, rfl, by omega, by decide, .inr ⟨_, 'h', rfl, by omega, by decide⟩⟩

theorem mem_uptimeText {seconds : ℕ} (h : seconds < 2 ^ 32) {c : Char}
    (hc : c ∈ uptimeText seconds) : c.isDigit = true ∨ c ∈ uptimeUnits := by
  obtain ⟨a, u, tail, htext, -, hu, htail⟩ := uptimeText_eq h
  rw [htext, List.mem_append, List.mem_cons] at hc
  rcases hc with hc | rfl | hc
  · exact .inl (isDigit_of_mem_decimal hc)
  · exact .inr hu
  · rcases htail with rfl | ⟨b, v, rfl, -, hv⟩
    · cases hc
    · rcases List.mem_append.mp hc with hc | hc
      · exact .inl (isDigit_of_mem_decimal hc)
      · rw [List.mem_singleton.mp hc]
        exact .inr hv

theorem exists_unit_mem_uptimeText {seconds : ℕ} (h : seconds < 2 ^ 32) :
    ∃ c ∈ uptimeText seconds, c ∈ uptimeUnits := by
  obtain ⟨a, u, tail, htext, -, hu, -⟩ := uptimeText_eq h
  rw [htext]
  exact ⟨u, List.mem_append_right _ List.mem_cons_self, hu⟩

theorem length_uptimeText_le {seconds : ℕ} (h : seconds < 2 ^ 32) :
    (uptimeText seconds).length ≤ 9 := by
  have hlen {n : ℕ} (k : ℕ) (hk : 0 < k) (hn : n < 10 ^ k) : (decimal n).length ≤ k := by
    rw [decimal, Nat.length_toDigits_le_iff (by decide) hk]
    exact hn
  obtain ⟨a, u, tail, htext, ha, -, htail⟩ := uptimeText_eq h
  have hfirst := hlen 5 (by decide) ha
  rw [htext, List.length_append, List.length_cons]
  rcases htail with rfl | ⟨b, v, rfl, hb, -⟩
  · rw [List.length_nil]
    omega
  · have hsecond := hlen 2 (by decide) hb
    rw [List.length_append, List.length_singleton]
    omega

/-- `none` is the return value false; `snprintf` cuts what has no room. -/
def formatUptime (seconds : UInt32) (outSize : ℕ) : Option Text :=
  if outSize < 4 then none else some (copyToken outSize (uptimeText seconds.toNat))

/-- The result of `snprintf`, the length of the whole text, and the bytes of `out` behind it. -/
def snprintf (out : List Char) (formatted : Text) : ℕ × List Char :=
  (formatted.length, CString.put nul formatted out)

/-- `formatUptime` on the bytes of `out`, where no bytes are also the null pointer. -/
def formatUptimeInto (seconds : UInt32) (out : List Char) : Bool × List Char :=
  if out.length < 4 then (false, out)
  else
    let written := snprintf out (uptimeText seconds.toNat)
    (decide (0 < written.1), written.2)

/-- `if (c >= 'A' && c <= 'F') c = (char)(c - 'A' + 'a')` -/
def lowerHex (c : Char) : Char := if 'A' ≤ c && c ≤ 'F' then c.toLower else c

def shortId8 (fullHex : Text) : Option Text :=
  if fullHex = [] then none else some ((fullHex.take 8).map lowerHex)

theorem formatUptime_eq (seconds : UInt32) {outSize : ℕ} (h : 16 ≤ outSize) :
    formatUptime seconds outSize = some (uptimeText seconds.toNat) := by
  have hlen := length_uptimeText_le seconds.toNat_lt
  rw [formatUptime, if_neg (by omega), copyToken_of_lt (by omega)]

end Mcrpc
