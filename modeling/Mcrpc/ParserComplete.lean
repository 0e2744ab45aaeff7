import Mcrpc.ParserScan

/-!
# Which request lines the parser reads without loss

Within the limits of the request fields every rendering of a request is read back exactly. Outside
them the parser still answers `Ok`: it cuts tokens, drops arguments, or takes the digits of a long
request id for the command, and the lossless lines are characterised exactly.
-/

namespace Mcrpc

open Scan

theorem canonicalCommand_eq (c : Text) : Parser.canonicalCommand c =
    if lower c = "discover".toList then "discovery".toList else lower c := rfl

theorem strtoul_toNat {d : Text} (h : Nat.ofDigitChars 10 d 0 < 2 ^ 32) :
    (UInt32.ofNat (strtoul d)).toNat = Nat.ofDigitChars 10 d 0 := by
  rw [UInt32.toNat_ofNat', strtoul]
  omega

theorem map_copyToken_take_iff (args : List Text) :
    (args.take maxArgs).map (copyToken maxToken) = args ↔
      args.length ≤ maxArgs ∧ ∀ a ∈ args, a.length < maxToken := by
  have hfix : args.map (copyToken maxToken) = args ↔ ∀ a ∈ args, a.length < maxToken := by
    rw [← List.map_id args, List.map_map, Function.comp_id, List.map_inj_left, List.map_id]
    exact forall₂_congr fun a _ => copyToken_eq_self_iff maxToken (by decide) a
  constructor
  · intro h
    have hlen : args.length ≤ maxArgs := by
      have := congrArg List.length h
      rw [List.length_map, List.length_take] at this
      omega
    rw [List.take_of_length_le hlen] at h
    exact ⟨hlen, hfix.mp h⟩
  · rintro ⟨hlen, hargs⟩
    rw [List.take_of_length_le hlen]
    exact hfix.mpr hargs

theorem canonicalCommand_copyToken_iff (c : Text) :
    Parser.canonicalCommand (copyToken maxToken c) = Parser.canonicalCommand c ↔
      c.length < maxToken := by
  constructor
  · intro h
    by_contra hlong
    have hcut : (copyToken maxToken c).length = maxToken - 1 := by
      simp only [copyToken, List.length_take]
      omega
    have hne {v : Text} (hv : v.length ≠ 8) : lower v ≠ "discover".toList := by
      intro he
      apply hv
      simpa using congrArg List.length he
    rw [canonicalCommand_eq, canonicalCommand_eq, if_neg (hne (by rw [hcut]; decide)),
      if_neg (hne (by rw [maxToken] at hlong; omega))] at h
    have := congrArg List.length h
    rw [length_lower, length_lower, hcut] at this
    have : 0 < maxToken := by decide
    omega
  · intro hlt
    rw [copyToken_of_lt hlt]

/-- A list that is its own head extended and mapped by an idempotent function is constant. -/
theorem map_take_cons_eq_iff {α : Type*} {f : α → α} (hf : ∀ x, f (f x) = f x) (n : ℕ) (c : α)
    (as : List α) : ((c :: as).take n).map f = as ↔ as = List.replicate n (f c) := by
  induction n generalizing c as with
  | zero => simp [eq_comm]
  | succ n ih =>
    rw [List.take_succ_cons, List.map_cons, List.replicate_succ]
    cases as with
    | nil => simp
    | cons a as =>
      rw [List.cons.injEq, List.cons.injEq, ih a as]
      constructor
      · rintro ⟨rfl, h⟩
        exact ⟨rfl, by rw [h, hf]⟩
      · rintro ⟨rfl, h⟩
        exact ⟨rfl, by rw [h, hf]⟩

theorem copyToken_copyToken (n : ℕ) (s : Text) : copyToken n (copyToken n s) = copyToken n s := by
  simp [copyToken, List.take_take]

theorem toLower_eq_self_of_isDigit {c : Char} (h : c.toLower.isDigit = true) : c.toLower = c := by
  rw [isDigit_iff, Ascii.toNat_toLower] at h
  rw [Ascii.eq_iff_toNat, Ascii.toNat_toLower]
  split_ifs at h ⊢ <;> omega

theorem lower_eq_self_of_isDigit {s : Text} (h : ∀ c ∈ lower s, c.isDigit = true) :
    lower s = s := by
  conv_rhs => rw [← List.map_id s]
  exact List.map_congr_left (fun c hc =>
    toLower_eq_self_of_isDigit (h c.toLower (List.mem_map_of_mem hc)))

theorem lower_of_isDigit {d : Text} (hd : ∀ c ∈ d, c.isDigit = true) : lower d = d := by
  conv_rhs => rw [← List.map_id d]
  refine List.map_congr_left (fun c hc => ?_)
  have := isDigit_iff.mp (hd c hc)
  rw [id, Ascii.eq_iff_toNat, Ascii.toNat_toLower, if_neg (by omega)]

theorem canonicalCommand_of_isDigit {d : Text} (hd : ∀ c ∈ d, c.isDigit = true) :
    Parser.canonicalCommand d = d := by
  rw [canonicalCommand_eq, lower_of_isDigit hd, if_neg]
  rintro rfl
  exact absurd (hd 'd' (by decide)) (by decide)

namespace RequestLine

variable (L : RequestLine)

theorem procedure_eq : L.procedure = Parser.canonicalCommand L.command.chars := rfl

theorem excess_isDigit : ∀ c ∈ L.excess, c.isDigit = true := by
  intro c hc
  cases hid : L.id with
  | none => simp [L.excess_of_id_none hid] at hc
  | some i =>
    rw [L.excess_of_id_some hid] at hc
    exact i.digits.all c (List.mem_of_mem_drop hc)

/-- Every token of the line has room in its field. -/
structure Fits : Prop where
  target : L.target.name.length < maxToken
  command : L.command.chars.length < maxToken
  argc : L.arguments.length ≤ maxArgs
  args : ∀ a ∈ L.arguments, a.length < maxToken
  id : L.excess = []

/-- The line repeats the digits past the fifteenth of its id as the command and as each of eight
arguments, so that reading the digits as the command shifts every word onto an equal one. -/
structure EchoesId : Prop where
  target : L.target.name.length < maxToken
  id : L.excess ≠ []
  command : L.command.chars = copyToken maxToken L.excess
  args : L.arguments = List.replicate maxArgs L.command.chars

theorem stored_args_iff_of_excess (he : L.excess ≠ []) :
    L.stored.command = L.procedure ∧ L.stored.args = L.arguments ↔
      L.command.chars = copyToken maxToken L.excess ∧
        L.arguments = List.replicate maxArgs L.command.chars := by
  have hdigits : ∀ c ∈ copyToken maxToken L.excess, c.isDigit = true := fun c hc =>
    L.excess_isDigit c (List.mem_of_mem_take hc)
  have hargs := map_take_cons_eq_iff (copyToken_copyToken maxToken) maxArgs L.command.chars
    L.arguments
  simp only [stored, readWords, if_neg he, canonicalCommand_of_isDigit hdigits, hargs,
    procedure_eq, canonicalCommand_eq]
  constructor
  · rintro ⟨hcommand, ha⟩
    split_ifs at hcommand with halias
    · -- `discovery` is no digit string
      rw [hcommand] at hdigits
      exact absurd (hdigits 'd' (by decide)) (by decide)
    · rw [lower_eq_self_of_isDigit (by rwa [← hcommand])] at hcommand
      refine ⟨hcommand.symm, ?_⟩
      rwa [← hcommand, copyToken_copyToken, hcommand] at ha
  · rintro ⟨hcommand, ha⟩
    have hlower : lower L.command.chars = L.command.chars :=
      lower_of_isDigit (by rwa [hcommand])
    have halias : lower L.command.chars ≠ "discover".toList := by
      intro h
      rw [hlower, hcommand] at h
      rw [h] at hdigits
      exact absurd (hdigits 'd' (by decide)) (by decide)
    refine ⟨by rw [if_neg halias, hlower, hcommand], ?_⟩
    rw [ha, hcommand, copyToken_copyToken]

/-- Parsing a request line answers `Ok`, and keeps its target, command and arguments exactly when
every token has room in its field; the only other lossless lines echo the digits of a long id. -/
theorem parse_lossless_iff : (Parser.parse (some L.text)).1 = .ok ∧
    ((Parser.parse (some L.text)).2.target = L.target.name ∧
      (Parser.parse (some L.text)).2.command = L.procedure ∧
      (Parser.parse (some L.text)).2.args = L.arguments ↔ L.Fits ∨ L.EchoesId) := by
  rw [L.parse_text]
  refine ⟨rfl, ?_⟩
  have htarget : L.stored.target = L.target.name ↔ L.target.name.length < maxToken :=
    copyToken_eq_self_iff maxToken (by decide) L.target.name
  by_cases he : L.excess = []
  · have hcommand : L.stored.command = L.procedure ↔ L.command.chars.length < maxToken := by
      simp only [stored, readWords, if_pos he]
      exact canonicalCommand_copyToken_iff L.command.chars
    have hargs : L.stored.args = L.arguments ↔
        L.arguments.length ≤ maxArgs ∧ ∀ a ∈ L.arguments, a.length < maxToken := by
      simp only [stored, readWords, if_pos he]
      exact map_copyToken_take_iff L.arguments
    rw [htarget, hcommand, hargs]
    constructor
    · rintro ⟨ht, hc, hn, ha⟩
      exact .inl ⟨ht, hc, hn, ha, he⟩
    · rintro (h | h)
      · exact ⟨h.target, h.command, h.argc, h.args⟩
      · exact absurd he h.id
  · rw [htarget, L.stored_args_iff_of_excess he]
    constructor
    · rintro ⟨ht, hc, ha⟩
      exact .inr ⟨ht, he, hc, ha⟩
    · rintro (h | h)
      · exact absurd h.id he
      · exact ⟨h.target, h.command, h.args⟩

/-- `ha set 1 2 3 4 5 6 7 8 9` -/
def nineArguments : RequestLine where
  target := .named (.word "ha".toList)
  command := .word "set".toList
  args := ("123456789".toList.attach).map (fun c =>
    (oneBlank, ⟨[c.1], List.cons_ne_nil _ _,
      List.forall_mem_singleton.mpr (forall_of_all (P := (isTokenChar · = true)) rfl c.1 c.2)⟩))

/-- The ninth argument is dropped. -/
theorem parse_nineArguments : ¬ ∀ L : RequestLine, ∀ req,
    Parser.parse (some L.text) = (.ok, req) →
      req.target = L.target.name ∧ req.command = L.procedure ∧ req.args = L.arguments := by
  intro h
  have hargs := (h nineArguments nineArguments.stored nineArguments.parse_text).2.2
  exact absurd (congrArg List.length hargs) (by decide)

/-- Within the limits of the request fields the stored request is the one the line states. -/
theorem readAs_stored (htarget : L.target.name.length < maxToken)
    (hcommand : L.command.chars.length < maxToken) (hargc : L.arguments.length ≤ maxArgs)
    (hargs : ∀ a ∈ L.arguments, a.length < maxToken)
    (hid : ∀ i ∈ L.id, i.digits.chars.length ≤ 15 ∧ i.digits.value < 2 ^ 32) :
    L.ReadAs L.stored := by
  have he : L.excess = [] := by
    cases hi : L.id with
    | none => exact L.excess_of_id_none hi
    | some i =>
      rw [L.excess_of_id_some hi]
      exact List.drop_eq_nil_of_le (hid i hi).1
  have hread : L.readWords = (L.command.chars, L.arguments) := if_pos he
  constructor
  case kind => rfl
  case target => exact copyToken_of_lt htarget
  case hasRequestId => rfl
  case requestId =>
    intro n hn
    obtain ⟨i, hi, rfl⟩ := Option.map_eq_some_iff.mp hn
    have hlen : i.digits.chars.take (Parser.idbufSize - 1) = i.digits.chars :=
      List.take_of_length_le (hid i hi).1
    simp only [stored, hi, Option.map_some, Option.getD_some, IdField.storedId, hlen]
    exact strtoul_toNat (hid i hi).2
  case command =>
    simp only [stored, hread]
    exact (canonicalCommand_copyToken_iff _).mpr hcommand
  case args =>
    simp only [stored, hread]
    exact (map_copyToken_take_iff _).mpr ⟨hargc, hargs⟩

/-- Within the limits of the request fields every rendering of a request is read back exactly. -/
theorem parse_complete (htarget : L.target.name.length < maxToken)
    (hcommand : L.command.chars.length < maxToken) (hargc : L.arguments.length ≤ maxArgs)
    (hargs : ∀ a ∈ L.arguments, a.length < maxToken)
    (hid : ∀ i ∈ L.id, i.digits.chars.length ≤ 15 ∧ i.digits.value < 2 ^ 32) :
    ∃ req, Parser.parse (some L.text) = (.ok, req) ∧ L.ReadAs req :=
  ⟨L.stored, L.parse_text, L.readAs_stored htarget hcommand hargc hargs hid⟩

/-- `\tha #42 Set Led ON\r\n` -/
def setLed : RequestLine where
  lead := "\t".toList
  lead_blank := forall_of_all rfl
  target := .named (.word "ha".toList)
  id := some { blanks := " ".toList, blank := forall_of_all rfl, digits := .word "42".toList }
  command := .word "Set".toList
  args := [(oneBlank, .word "Led".toList),
    (oneBlank, .word "ON".toList)]
  trail := "\r\n".toList
  trail_end := forall_of_all rfl

theorem parse_complete_setLed : ∃ req,
    Parser.parse (some setLed.text) = (.ok, req) ∧ setLed.ReadAs req :=
  setLed.parse_complete (by decide) (by decide) (by decide) (by decide) (by decide)

end RequestLine
end Mcrpc
