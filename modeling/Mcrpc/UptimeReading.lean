import Mcrpc.UptimeFormat
import Mcrpc.Python.Uptime

/-!
# Reading an uptime

The firmware and the Python package write the same text for an uptime, and a reader of the text has
the uptime up to the last unit that is written.
-/

namespace Mcrpc

inductive TimeUnit
  | second | minute | hour | day
  deriving DecidableEq, Repr

namespace TimeUnit

def letter : TimeUnit → Char
  | second => 's'
  | minute => 'm'
  | hour => 'h'
  | day => 'd'

def seconds : TimeUnit → ℕ
  | second => 1
  | minute => 60
  | hour => 3600
  | day => 86400

def below : TimeUnit → Option TimeUnit
  | second => none
  | minute => some second
  | hour => some minute
  | day => some hour

theorem below_minute : minute.below = some second := rfl

theorem below_hour : hour.below = some minute := rfl

theorem below_day : day.below = some hour := rfl

def ofLetter (c : Char) : Option TimeUnit := [second, minute, hour, day].find? (·.letter == c)

theorem ofLetter_letter (u : TimeUnit) : ofLetter u.letter = some u := by cases u <;> rfl

theorem ofLetter_digit {c : Char} (h : c.isDigit = true) : ofLetter c = none := by
  rw [ofLetter, List.find?_eq_none]
  intro u _ heq
  rw [← beq_iff_eq.mp heq] at h
  cases u <;> exact absurd h (by decide)

end TimeUnit

/-- An amount of one unit, and behind it an amount of the unit directly below that is not zero. -/
inductive UptimeParts
  | single (amount : ℕ) (unit : TimeUnit)
  | double (amount : ℕ) (unit : TimeUnit) (rest : ℕ) (lower : TimeUnit)
      (below : unit.below = some lower) (pos : 0 < rest)

namespace UptimeParts

def text : UptimeParts → Text
  | single a u => decimal a ++ [u.letter]
  | double a u b v _ _ => decimal a ++ u.letter :: (decimal b ++ [v.letter])

def value : UptimeParts → ℕ
  | single a u => a * u.seconds
  | double a u b v _ _ => a * u.seconds + b * v.seconds

def divide (u v : TimeUnit) (h : u.below = some v) (s : ℕ) : UptimeParts :=
  if hrest : s % u.seconds / v.seconds = 0 then single (s / u.seconds) u
  else double (s / u.seconds) u (s % u.seconds / v.seconds) v h (Nat.pos_of_ne_zero hrest)

theorem value_divide (u v : TimeUnit) (h : u.below = some v) (s : ℕ) :
    (divide u v h s).value = s / u.seconds * u.seconds + s % u.seconds / v.seconds * v.seconds := by
  rw [divide]
  split
  · next hrest => rw [value, hrest, Nat.zero_mul, Nat.add_zero]
  · rfl

end UptimeParts

def uptimeParts (s : ℕ) : UptimeParts :=
  if s < 60 then .single s .second
  else if s < 3600 then .divide .minute .second TimeUnit.below_minute s
  else if s < 86400 then .divide .hour .minute TimeUnit.below_hour s
  else .divide .day .hour TimeUnit.below_day s

theorem uptimeText_eq_text (s : ℕ) : uptimeText s = (uptimeParts s).text := by
  have hdivide (u v : TimeUnit) (h : u.below = some v) : (UptimeParts.divide u v h s).text =
      if s % u.seconds / v.seconds = 0 then decimal (s / u.seconds) ++ [u.letter]
      else decimal (s / u.seconds) ++
        u.letter :: (decimal (s % u.seconds / v.seconds) ++ [v.letter]) := by
    rw [UptimeParts.divide]
    split <;> rfl
  rw [uptimeText, uptimeParts]
  by_cases hminute : s < 60
  · rw [if_pos hminute, if_pos hminute]
    rfl
  rw [if_neg hminute, if_neg hminute]
  by_cases hhour : s < 3600
  · rw [if_pos hhour, if_pos hhour, hdivide]
    simp only [TimeUnit.seconds, TimeUnit.letter, Nat.div_one]
  rw [if_neg hhour, if_neg hhour]
  by_cases hday : s < 86400
  · rw [if_pos hday, if_pos hday, hdivide]
    rfl
  · rw [if_neg hday, if_neg hday, hdivide]
    rfl

/-- The unit of the last number that is written. -/
def uptimeGrain (s : ℕ) : ℕ := if s < 3600 then 1 else if s < 86400 then 60 else 3600

theorem value_uptimeParts (s : ℕ) :
    (uptimeParts s).value = s / uptimeGrain s * uptimeGrain s := by
  unfold uptimeParts uptimeGrain
  split_ifs with hminute hhour hday
  · rw [UptimeParts.value, TimeUnit.seconds, Nat.div_one]
  · omega
  · omega
  · rw [UptimeParts.value_divide]
    change s / 60 * 60 + s % 60 / 1 * 1 = _
    omega
  · rw [UptimeParts.value_divide]
    change s / 3600 * 3600 + s % 3600 / 60 * 60 = _
    omega
  · rw [UptimeParts.value_divide]
    change s / 86400 * 86400 + s % 86400 / 3600 * 3600 = _
    omega

/-! ### Decoding -/

/-- The seconds so far, and the number in front of the next unit. -/
def readStep (state : ℕ × ℕ) (c : Char) : ℕ × ℕ :=
  match TimeUnit.ofLetter c with
  | some u => (state.1 + state.2 * u.seconds, 0)
  | none => (state.1, 10 * state.2 + (c.toNat - '0'.toNat))

/-- Every number times its unit, added up. -/
def readUptime (text : Text) : ℕ := (text.foldl readStep (0, 0)).1

theorem foldl_readStep_digits {digits : Text} (h : ∀ c ∈ digits, c.isDigit = true) (t n : ℕ) :
    digits.foldl readStep (t, n) = (t, Nat.ofDigitChars 10 digits n) := by
  induction digits generalizing n with
  | nil => rw [List.foldl_nil, Nat.ofDigitChars_nil]
  | cons c digits ih =>
    obtain ⟨hc, hdigits⟩ := List.forall_mem_cons.mp h
    have hstep : readStep (t, n) c = (t, 10 * n + (c.toNat - '0'.toNat)) := by
      rw [readStep, TimeUnit.ofLetter_digit hc]
    rw [List.foldl_cons, hstep, ih hdigits, Nat.ofDigitChars_cons]

theorem foldl_readStep_part (a : ℕ) (u : TimeUnit) (t : ℕ) (tail : Text) :
    (decimal a ++ u.letter :: tail).foldl readStep (t, 0) =
      tail.foldl readStep (t + a * u.seconds, 0) := by
  have hstep : readStep (t, a) u.letter = (t + a * u.seconds, 0) := by
    rw [readStep, TimeUnit.ofLetter_letter]
  have hnumber : Nat.ofDigitChars 10 (decimal a) 0 = a := Nat.ofDigitChars_ten_toDigits
  rw [List.foldl_append, foldl_readStep_digits (fun c hc => isDigit_of_mem_decimal hc), hnumber,
    List.foldl_cons, hstep]

theorem readUptime_text (p : UptimeParts) : readUptime p.text = p.value := by
  rw [readUptime]
  cases p with
  | single a u =>
    rw [UptimeParts.text, foldl_readStep_part, List.foldl_nil, Nat.zero_add]
    rfl
  | double a u b v below pos =>
    rw [UptimeParts.text, foldl_readStep_part, foldl_readStep_part, List.foldl_nil, Nat.zero_add]
    rfl

theorem readUptime_uptimeText (s : ℕ) :
    readUptime (uptimeText s) = s / uptimeGrain s * uptimeGrain s := by
  rw [uptimeText_eq_text, readUptime_text, value_uptimeParts]

theorem readUptime_bounds (s : ℕ) :
    readUptime (uptimeText s) ≤ s ∧ s < readUptime (uptimeText s) + uptimeGrain s := by
  have hpos : 0 < uptimeGrain s := by
    rw [uptimeGrain]
    split_ifs <;> decide
  rw [readUptime_uptimeText]
  have hdiv := Nat.div_add_mod' s (uptimeGrain s)
  have hlt := Nat.mod_lt s hpos
  omega

theorem readUptime_mono {s t : ℕ} (h : s ≤ t) :
    readUptime (uptimeText s) ≤ readUptime (uptimeText t) := by
  rw [readUptime_uptimeText, readUptime_uptimeText]
  unfold uptimeGrain
  split_ifs <;> omega

/-! ### Both languages -/

theorem python_formatUptime (s : ℕ) : Python.formatUptime s = uptimeText s := by
  have hmax : (max 0 (s : ℤ)).toNat = s := by omega
  rw [Python.formatUptime, hmax]
  rfl

/-- Firmware and Python package write one text, of one or two parts, and decoding it gives the
uptime up to the last unit; a longer uptime never reads as a shorter one. -/
theorem formatUptime_faithful (s : UInt32) {outSize : ℕ} (h : 16 ≤ outSize) :
    ∃ text, formatUptime s outSize = some text ∧ Python.formatUptime s.toNat = text ∧
      (∃ p : UptimeParts, text = p.text) ∧
      readUptime text ≤ s.toNat ∧ s.toNat < readUptime text + uptimeGrain s.toNat ∧
      ∀ t : UInt32, s.toNat ≤ t.toNat → ∀ later, formatUptime t outSize = some later →
        readUptime text ≤ readUptime later := by
  obtain ⟨hle, hlt⟩ := readUptime_bounds s.toNat
  refine ⟨uptimeText s.toNat, formatUptime_eq s h, python_formatUptime _,
    ⟨uptimeParts s.toNat, uptimeText_eq_text _⟩, hle, hlt, ?_⟩
  intro t hst later hlater
  rw [formatUptime_eq t h] at hlater
  obtain rfl := Option.some.inj hlater
  exact readUptime_mono hst

theorem formatUptime_faithful_day :
    ∃ text, formatUptime 187200 16 = some text ∧
      Python.formatUptime (187200 : UInt32).toNat = text ∧
      (∃ p : UptimeParts, text = p.text) ∧
      readUptime text ≤ (187200 : UInt32).toNat ∧
      (187200 : UInt32).toNat < readUptime text + uptimeGrain (187200 : UInt32).toNat ∧
      ∀ t : UInt32, (187200 : UInt32).toNat ≤ t.toNat →
        ∀ later, formatUptime t 16 = some later → readUptime text ≤ readUptime later :=
  formatUptime_faithful 187200 (by decide)

end Mcrpc
