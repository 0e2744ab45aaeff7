import Mcrpc.Types
import Mcrpc.Lib.Scan
import Mcrpc.Lib.Words
import Mcrpc.Lib.Ascii
import Mcrpc.Lib.Dict
import Mathlib.Algebra.Group.Nat.Defs
import Mathlib.Data.Nat.Basic
import Mathlib.Data.Rat.Init

/-!
# Python strings

The string operations the Python package uses. A `str` is its list of characters. The tables of the
Unicode character database and the number parsers are the interpreter's: `Python` takes them as they
are and states of them what holds for 7-bit text. `F` is the type of its floats.
-/

namespace Mcrpc

structure Python (F : Type) where
  isalnum : Char → Bool
  isdigit : Char → Bool
  lower : Text → Text
  /-- `none` is the `ValueError` -/
  int : Text → Option ℤ
  float : Text → Option F
  isalnum_ascii : ∀ c, c.toNat < 128 → isalnum c = c.isAlphanum
  isdigit_ascii : ∀ c, c.toNat < 128 → isdigit c = c.isDigit
  lower_ascii : ∀ s : Text, (∀ c ∈ s, c.toNat < 128) → lower s = Mcrpc.lower s
  /-- `int` refuses more than 4300 digits -/
  int_digits : ∀ s : Text, s ≠ [] → (∀ c ∈ s, c.isDigit = true) →
    int s = if s.length ≤ 4300 then some (Nat.ofDigitChars 10 s 0 : ℤ) else none

inductive PyError
  | valueError
  deriving DecidableEq, Repr

inductive PyValue (F : Type)
  | str (s : Text)
  | int (n : ℤ)
  | float (x : F)

/-- `bool(x)` -/
class Truthy (V : Type) where
  truthy : V → Bool

instance : Truthy Bool := ⟨id⟩

instance : Truthy ℚ := ⟨fun x => x ≠ 0⟩

def isSpace (c : Char) : Bool :=
  let n := c.toNat
  (9 ≤ n && n ≤ 13) || (28 ≤ n && n ≤ 32) || n == 133 || n == 160 || n == 5760 ||
    (8192 ≤ n && n ≤ 8202) || n == 8232 || n == 8233 || n == 8239 || n == 8287 || n == 12288

theorem isSpace_iff {c : Char} : isSpace c = true ↔
    9 ≤ c.toNat ∧ c.toNat ≤ 13 ∨ 28 ≤ c.toNat ∧ c.toNat ≤ 32 ∨ c.toNat = 133 ∨ c.toNat = 160 ∨
      c.toNat = 5760 ∨ 8192 ≤ c.toNat ∧ c.toNat ≤ 8202 ∨ c.toNat = 8232 ∨ c.toNat = 8233 ∨
      c.toNat = 8239 ∨ c.toNat = 8287 ∨ c.toNat = 12288 := by
  simp only [isSpace, Bool.or_eq_true, Bool.and_eq_true, decide_eq_true_eq, beq_iff_eq, or_assoc]

theorem isAlpha_iff {c : Char} : c.isAlpha = true ↔
    65 ≤ c.toNat ∧ c.toNat ≤ 90 ∨ 97 ≤ c.toNat ∧ c.toNat ≤ 122 := by
  change (decide (c.val ≥ 65 ∧ c.val ≤ 90) ||
    decide (c.val ≥ 97) && decide (c.val ≤ 122)) = true ↔ _
  simp only [Bool.or_eq_true, Bool.and_eq_true, decide_eq_true_eq, ge_iff_le,
    UInt32.le_iff_toNat_le]
  rfl

theorem isAlphanum_iff {c : Char} : c.isAlphanum = true ↔
    97 ≤ c.toNat ∧ c.toNat ≤ 122 ∨ 65 ≤ c.toNat ∧ c.toNat ≤ 90 ∨
      48 ≤ c.toNat ∧ c.toNat ≤ 57 := by
  change (c.isAlpha || c.isDigit) = true ↔ _
  rw [Bool.or_eq_true, isAlpha_iff, Char.isDigit_iff_toNat]
  change _ ∨ 48 ≤ c.toNat ∧ c.toNat ≤ 57 ↔ _
  omega

/-- Folding the case adds and removes letters only. -/
theorem mem_lower_iff {s : Text} {c : Char} (h : c.isAlpha = false) : c ∈ lower s ↔ c ∈ s := by
  have hcode := isAlpha_iff.not.mp (by rw [h]; exact Bool.false_ne_true)
  have hfold (d : Char) : d.toLower = c ↔ d = c := by
    rw [Ascii.eq_iff_toNat, Ascii.eq_iff_toNat, Ascii.toNat_toLower]
    split_ifs <;> omega
  rw [lower, List.mem_map]
  constructor
  · rintro ⟨d, hd, heq⟩
    exact (hfold d).mp heq ▸ hd
  · exact fun hc => ⟨c, hc, (hfold c).mpr rfl⟩

theorem lower_lower (s : Text) : lower (lower s) = lower s := by
  rw [lower, lower, List.map_map]
  exact List.map_congr_left (fun c _ => Ascii.toLower_toLower c)

def strip (s : Text) : Text := (s.dropWhile isSpace).rdropWhile isSpace

def split (s : Text) : List Text := Words.words isSpace s

def join (sep : Text) (parts : List Text) : Text := List.intercalate sep parts

theorem join_cons (c : Char) (a : Text) (as : List Text) :
    join [c] (a :: as) = a ++ as.flatMap (c :: ·) := by
  induction as generalizing a with
  | nil => simp [join]
  | cons b as ih =>
    have hstep : join [c] (a :: b :: as) = a ++ c :: join [c] (b :: as) := by
      simp [join, List.intercalate]
    rw [hstep, ih, List.flatMap_cons]
    simp

def isLineBreak (c : Char) : Bool :=
  let n := c.toNat
  (10 ≤ n && n ≤ 13) || (28 ≤ n && n ≤ 30) || n == 133 || n == 8232 || n == 8233

/-- The lines of a text of which `line` is read already; a text that ends in a break has no line
behind it. -/
def splitlinesFrom (line : Text) : Text → List Text
  | [] => if line = [] then [] else [line]
  | '\r' :: '\n' :: rest => line :: splitlinesFrom [] rest
  | c :: rest =>
    if isLineBreak c then line :: splitlinesFrom [] rest else splitlinesFrom (line ++ [c]) rest

def splitlines (s : Text) : List Text := splitlinesFrom [] s

/-- `s.partition(sep)` without the separator, for a separator of one character. -/
def partition (sep : Char) (s : Text) : Text × Text :=
  (s.takeWhile (· ≠ sep), (s.dropWhile (· ≠ sep)).drop 1)

theorem strip_eq_self {s : Text} (h : ∀ c ∈ s, isSpace c = false) : strip s = s := by
  have hdrop : s.dropWhile isSpace = s := by
    cases s with
    | nil => rfl
    | cons c s => exact List.dropWhile_cons_of_neg (by simp [h c List.mem_cons_self])
  rw [strip, hdrop, List.rdropWhile_eq_self_iff]
  intro hne
  simp [h _ (List.getLast_mem hne)]

theorem split_strip (s : Text) : split (strip s) = split s := by
  rw [split, strip, Words.words_rdropWhile, Words.words_dropWhile]
  rfl

theorem partition_append {sep : Char} {key value : Text} (h : sep ∉ key) :
    partition sep (key ++ sep :: value) = (key, value) := by
  have hkey := Scan.all_ne_of_not_mem h
  rw [partition, List.takeWhile_append_of_pos hkey, List.dropWhile_append_of_pos hkey,
    List.takeWhile_cons_of_neg (by simp), List.dropWhile_cons_of_neg (by simp), List.append_nil,
    List.drop_one, List.tail_cons]

namespace Python

variable {F : Type} (py : Python F)

def isdigitStr (s : Text) : Bool := s ≠ [] && s.all py.isdigit

def signed {α : Type} [Neg α] (read : Text → Option α) : Text → Option α
  | '-' :: s => (read s).map Neg.neg
  | '+' :: s => read s
  | s => read s

theorem signed_of_digit {α : Type} [Neg α] (read : Text → Option α) {s : Text}
    (h : ∀ c ∈ s, c.isDigit = true) : signed read s = read s := by
  rw [signed.eq_def]
  split
  · exact absurd (h '-' List.mem_cons_self) (by decide)
  · exact absurd (h '+' List.mem_cons_self) (by decide)
  · rfl

/-- `123` -/
def readDigits (s : Text) : Option ℤ :=
  if s ≠ [] ∧ s.all Char.isDigit ∧ s.length ≤ 4300 then some (Nat.ofDigitChars 10 s 0) else none

/-- `123.45` -/
def readDecimal (s : Text) : Option ℚ :=
  let (whole, decimals) := partition '.' s
  let digits := whole ++ decimals
  if digits ≠ [] ∧ digits.all Char.isDigit then
    some (mkRat (Nat.ofDigitChars 10 digits 0) (10 ^ decimals.length))
  else none

theorem signed_readDigits_letter {s : Text} (h : ∃ c ∈ s, c.isAlpha = true) :
    signed readDigits s = none := by
  have hread {s : Text} (h : ∃ c ∈ s, c.isAlpha = true) : readDigits s = none := by
    obtain ⟨c, hmem, hc⟩ := h
    refine if_neg (fun hs => ?_)
    have hdigit := List.all_eq_true.mp hs.2.1 c hmem
    rw [Char.isDigit_iff_toNat] at hdigit
    rw [isAlpha_iff] at hc
    change 48 ≤ c.toNat ∧ c.toNat ≤ 57 at hdigit
    omega
  have htail {sign : Char} {s : Text} (hsign : sign.isAlpha = false)
      (h : ∃ c ∈ sign :: s, c.isAlpha = true) : ∃ c ∈ s, c.isAlpha = true := by
    obtain ⟨c, hmem, hc⟩ := h
    rcases List.mem_cons.mp hmem with rfl | hmem
    · cases hsign.symm.trans hc
    · exact ⟨c, hmem, hc⟩
  rw [signed.eq_def]
  split
  · rw [hread (htail (by decide) h)]
    rfl
  · exact hread (htail (by decide) h)
  · exact hread h

/-- An interpreter that knows the 7-bit characters only, and of the floats the decimals. -/
def ascii : Python ℚ where
  isalnum := Char.isAlphanum
  isdigit := Char.isDigit
  lower := Mcrpc.lower
  int := signed readDigits
  float := signed readDecimal
  isalnum_ascii _ _ := rfl
  isdigit_ascii _ _ := rfl
  lower_ascii _ _ := rfl
  int_digits s hne hs := by
    have hall : s.all Char.isDigit = true := List.all_eq_true.mpr hs
    simp only [signed_of_digit readDigits hs, readDigits, hne, hall, true_and, ne_eq,
      not_false_eq_true]

/-- What the language documents for text that is not all 7-bit: the lower case of 7-bit characters
and of white space does not depend on what follows, white space is not alphanumeric, and `int` has
no digits but the decimal ones. -/
structure Regular : Prop where
  lower_append : ∀ a b : Text, (∀ c ∈ a, c.toNat < 128 ∨ isSpace c = true) →
    ∃ t, py.lower (a ++ b) = Mcrpc.lower a ++ t
  isalnum_space : ∀ c, isSpace c = true → py.isalnum c = false
  int_letter : ∀ s : Text, (∃ c ∈ s, c.isAlpha = true) → py.int s = none

theorem ascii_regular : ascii.Regular where
  lower_append a b _ := ⟨Mcrpc.lower b, List.map_append⟩
  isalnum_space c hc := by
    change c.isAlphanum = false
    rw [← Bool.not_eq_true, isAlphanum_iff]
    have := isSpace_iff.mp hc
    omega
  int_letter _ h := signed_readDigits_letter h

end Python
end Mcrpc
