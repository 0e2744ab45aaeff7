import Mcrpc.Dispatcher
import Mcrpc.ParserComplete

/-!
# Which request ids come back

Three limits meet on the path of a request id: the fifteen digits of `idbuf`, `strtoul`, and the
narrowing to 32 bits. A line with an id is answered under that id, with its own command and
arguments, exactly when the id passes all three; the remaining lines with the property write zero
with more than fifteen digits and repeat the surplus zeros as their command and arguments.
-/

namespace Mcrpc

theorem nul_not_mem_target (t : Target) : nul ∉ t.text := by
  have hname : nul ∉ t.name := fun h => absurd (t.isIdentChar_of_mem_name h) (by decide)
  cases t with
  | named w _ _ => exact hname
  | all w _ => exact hname
  | self w _ => exact hname
  | group upper w =>
    rw [Target.text, List.mem_append, not_or]
    exact ⟨by cases upper <;> decide, hname⟩
  | id hex =>
    rw [Target.text, List.mem_cons, not_or]
    exact ⟨by decide, hname⟩

theorem decimal_injective {m n : ℕ} (h : decimal m = decimal n) : m = n := by
  have hvalue := congrArg (fun ds => Nat.ofDigitChars 10 ds 0) h
  simpa only [decimal, Nat.ofDigitChars_ten_toDigits] using hvalue

def decimalDigits (n : ℕ) : Digits := ⟨decimal n, decimal_ne_nil n, fun _ => isDigit_of_mem_decimal⟩

theorem value_decimalDigits (n : ℕ) : (decimalDigits n).value = n := Nat.ofDigitChars_ten_toDigits

/-- A prefix `#id ` determines the id. -/
theorem decimal_blank_inj {m n : ℕ} {s t : Text}
    (h : decimal m ++ ' ' :: s = decimal n ++ ' ' :: t) : m = n := by
  have hscan := congrArg (List.takeWhile Char.isDigit) h
  rw [Scan.takeWhile_append (fun _ => isDigit_of_mem_decimal) (Scan.stops_cons.mpr rfl),
    Scan.takeWhile_append (fun _ => isDigit_of_mem_decimal) (Scan.stops_cons.mpr rfl)] at hscan
  exact decimal_injective hscan

theorem value_eq_zero_iff {d : Text} (hd : ∀ c ∈ d, c.isDigit = true) :
    Nat.ofDigitChars 10 d 0 = 0 ↔ ∀ c ∈ d, c = '0' := by
  induction d with
  | nil => simp
  | cons c d ih =>
    have hc : 48 ≤ c.toNat := (isDigit_iff.mp (hd c (by simp))).1
    have hpos : 0 < 10 ^ d.length := Nat.pow_pos (by decide)
    have hzero : 10 * 0 + (c.toNat - '0'.toNat) = 0 ↔ c = '0' := by
      rw [Ascii.eq_iff_toNat]
      change 10 * 0 + (c.toNat - 48) = 0 ↔ c.toNat = 48
      omega
    rw [Nat.ofDigitChars_cons, Nat.ofDigitChars_eq_ofDigitChars_zero, Nat.add_eq_zero_iff,
      Nat.mul_eq_zero, hzero, ih (fun c' hc' => hd c' (by simp [hc'])), List.forall_mem_cons]
    simp only [hpos.ne', false_or]

theorem value_take_le {n : ℕ} {d : Text} (hn : n < d.length) :
    10 * Nat.ofDigitChars 10 (d.take n) 0 ≤ Nat.ofDigitChars 10 d 0 := by
  have hpow : 10 ≤ 10 ^ (d.drop n).length := by
    rw [List.length_drop]
    exact Nat.le_self_pow (by omega) 10
  have hsplit : Nat.ofDigitChars 10 d 0 =
      10 ^ (d.drop n).length * Nat.ofDigitChars 10 (d.take n) 0 +
        Nat.ofDigitChars 10 (d.drop n) 0 := by
    conv_lhs => rw [← List.take_append_drop n d]
    rw [Nat.ofDigitChars_append, Nat.ofDigitChars_eq_ofDigitChars_zero]
  have hmul := Nat.mul_le_mul_right (Nat.ofDigitChars 10 (d.take n) 0) hpow
  omega

theorem IdField.storedId_toNat_le (i : IdField) :
    i.storedId.toNat ≤ Nat.ofDigitChars 10 (i.digits.chars.take (Parser.idbufSize - 1)) 0 := by
  rw [IdField.storedId, UInt32.toNat_ofNat', strtoul]
  exact (Nat.mod_le _ _).trans (Nat.min_le_left _ _)

/-- The id that is stored is the one written when it fits, and zero written at any length. -/
theorem IdField.storedId_toNat_iff (i : IdField) : i.storedId.toNat = i.digits.value ↔
    (i.excess = [] ∧ i.digits.value < 2 ^ 32) ∨ ∀ c ∈ i.digits.chars, c = '0' := by
  have hzero := value_eq_zero_iff i.digits.all
  by_cases hlen : i.digits.chars.length ≤ Parser.idbufSize - 1
  · have he : i.excess = [] := List.drop_eq_nil_of_le hlen
    have hstored : i.storedId.toNat = min i.digits.value (2 ^ 64 - 1) % 2 ^ 32 := by
      rw [IdField.storedId, List.take_of_length_le hlen, UInt32.toNat_ofNat']
      rfl
    rw [hstored, ← hzero]
    change _ ↔ _ ∨ i.digits.value = 0
    constructor
    · intro h
      exact .inl ⟨he, by omega⟩
    · rintro (⟨-, h⟩ | h) <;> omega
  · have hle := i.storedId_toNat_le
    have htake : 10 * _ ≤ i.digits.value := value_take_le (not_le.mp hlen)
    have he : i.excess ≠ [] := by
      rw [IdField.excess, ne_eq, List.drop_eq_nil_iff]
      exact hlen
    simp only [he, false_and, false_or, ← hzero]
    change _ ↔ i.digits.value = 0
    constructor <;> intro h <;> omega

namespace RequestLine

variable (L : RequestLine)

/-- The command, the arguments and the request id have room in their fields. -/
structure KeepsId (i : IdField) : Prop where
  command : L.command.chars.length < maxToken
  argc : L.arguments.length ≤ maxArgs
  args : ∀ a ∈ L.arguments, a.length < maxToken
  digits : i.digits.chars.length ≤ 15
  value : i.digits.value < 2 ^ 32

/-- The id is zero in more than fifteen digits, and the command and each of eight arguments are the
zeros past the fifteenth. -/
structure EchoesZero (i : IdField) : Prop where
  digits : 15 < i.digits.chars.length
  zero : ∀ c ∈ i.digits.chars, c = '0'
  command : L.command.chars = copyToken maxToken i.excess
  args : L.arguments = List.replicate maxArgs L.command.chars

theorem stored_args_iff_of_excess_nil (he : L.excess = []) :
    L.stored.command = L.procedure ∧ L.stored.args = L.arguments ↔
      L.command.chars.length < maxToken ∧ L.arguments.length ≤ maxArgs ∧
        ∀ a ∈ L.arguments, a.length < maxToken := by
  simp only [stored, readWords, if_pos he]
  exact and_congr (canonicalCommand_copyToken_iff L.command.chars)
    (map_copyToken_take_iff L.arguments)

theorem stored_keepsId_iff {i : IdField} (hid : L.id = some i) :
    (L.stored.command = L.procedure ∧ L.stored.args = L.arguments ∧
      L.stored.requestId.toNat = i.digits.value) ↔ L.KeepsId i ∨ L.EchoesZero i := by
  have hstored : L.stored.requestId = i.storedId := by simp only [stored, hid]; rfl
  have hexcess := L.excess_of_id_some hid
  rw [hstored, i.storedId_toNat_iff, ← and_assoc]
  by_cases he : i.excess = []
  · have hlen : i.digits.chars.length ≤ 15 := List.drop_eq_nil_iff.mp he
    rw [L.stored_args_iff_of_excess_nil (hexcess.trans he)]
    constructor
    · rintro ⟨⟨hc, hn, ha⟩, hvalue⟩
      refine .inl ⟨hc, hn, ha, hlen, ?_⟩
      rcases hvalue with ⟨-, hlt⟩ | hzero
      · exact hlt
      · rw [Digits.value, (value_eq_zero_iff i.digits.all).mpr hzero]
        decide
    · rintro (h | h)
      · exact ⟨⟨h.command, h.argc, h.args⟩, .inl ⟨he, h.value⟩⟩
      · have := h.digits
        omega
  · have hlen : 15 < i.digits.chars.length := by
      rw [IdField.excess, List.drop_eq_nil_iff, not_le] at he
      exact he
    rw [L.stored_args_iff_of_excess (by rwa [hexcess]), hexcess]
    constructor
    · rintro ⟨⟨hc, ha⟩, ⟨hnil, -⟩ | hzero⟩
      · exact absurd hnil he
      · exact .inr ⟨hlen, hzero, hc, ha⟩
    · rintro (h | h)
      · have := h.digits
        omega
      · exact ⟨⟨h.command, h.args⟩, .inr h.zero⟩

end RequestLine

namespace Dispatcher

variable {H σ : Type*} (d : Dispatcher H)

/-- An answered line with a request id reaches the handler with its own command and arguments and
is answered under its own id exactly when all of them fit, or the line echoes the zeros of its
id. -/
theorem dispatch_requestId_iff (call : HandlerCall H σ) (L : RequestLine) {i : IdField}
    (hid : L.id = some i) (reply : ReplyBuffer) (w : σ)
    (hanswered : (d.dispatch call (some L.text) reply w).answered = true) :
    ((∃ req, (d.dispatch call (some L.text) reply w).outReq = some req ∧
        req.command = L.procedure ∧ req.args = L.arguments) ∧
      ∃ rest, (d.dispatch call (some L.text) reply w).reply.cstr =
        '#' :: (decimal i.digits.value ++ ' ' :: rest)) ↔
      L.KeepsId i ∨ L.EchoesZero i := by
  obtain ⟨hreq, rest, hreply⟩ := d.dispatch_answered call reply w L.parse_text hanswered
  have hid' : L.stored.prefixText = idPrefix L.stored.requestId.toNat := by
    have hhas : L.stored.hasRequestId = true := by simp only [RequestLine.stored, hid]; rfl
    rw [Request.prefixText, if_pos hhas]
  rw [hid'] at hreply
  rw [← L.stored_keepsId_iff hid, hreq, hreply, idPrefix]
  simp only [Option.some.injEq, exists_eq_left', List.cons_append, List.cons.injEq, true_and,
    List.append_assoc, List.nil_append, and_assoc]
  refine and_congr_right fun _ => and_congr_right fun _ => ?_
  constructor
  · rintro ⟨rest', h⟩
    exact decimal_blank_inj h
  · intro h
    exact ⟨rest, by rw [h]⟩

def pingLine (digits : Digits) : RequestLine where
  target := .named (.word "tracker".toList)
  id := some { digits := digits }
  command := .word "ping".toList
  args := []

def seven : Digits := .word "7".toList

def sevenWide : Digits := .word "4294967303".toList

theorem dispatch_requestId_iff_seven :
    ((∃ req, (tracker.dispatch (writes "pong".toList) (some (pingLine seven).text) .init ()).outReq
          = some req ∧ req.command = (pingLine seven).procedure ∧
          req.args = (pingLine seven).arguments) ∧
      ∃ rest, (tracker.dispatch (writes "pong".toList) (some (pingLine seven).text)
        .init ()).reply.cstr = '#' :: (decimal 7 ++ ' ' :: rest)) ↔
      (pingLine seven).KeepsId { digits := seven } ∨
        (pingLine seven).EchoesZero { digits := seven } :=
  tracker.dispatch_requestId_iff (writes "pong".toList) (pingLine seven) rfl .init () (by decide)

/-- `tracker#4294967303 ping` is answered under the id 7. -/
theorem dispatch_requestId_narrowed :
    (tracker.dispatch (writes "pong".toList) (some (pingLine sevenWide).text) .init ()).answered =
        true ∧
      (tracker.dispatch (writes "pong".toList) (some (pingLine sevenWide).text) .init ()).reply.cstr =
        "#7 pong".toList ∧
      ¬ ∃ rest, (tracker.dispatch (writes "pong".toList) (some (pingLine sevenWide).text)
        .init ()).reply.cstr = '#' :: (decimal sevenWide.value ++ ' ' :: rest) := by
  have hreply : (tracker.dispatch (writes "pong".toList) (some (pingLine sevenWide).text)
      .init ()).reply.cstr = "#7 pong".toList := by decide
  refine ⟨by decide, hreply, ?_⟩
  rintro ⟨rest, h⟩
  rw [hreply] at h
  have hseven : decimal 7 ++ ' ' :: "pong".toList = decimal sevenWide.value ++ ' ' :: rest :=
    (List.cons.inj h).2
  exact absurd (decimal_blank_inj hseven) (by decide)

end Dispatcher
end Mcrpc
