import Mcrpc.CallResultGrammar
import Mcrpc.Grammar

/-!
# The texts the call result parser accepts

The syntax of section 4.3 of RFC-0002 as trees, with the parser's own freedom in the code and in the
keys. `parse_call_result` reads the tokens of every tree; the grammar asks for a code without `=`
and for keys that are not empty.
-/

namespace Mcrpc.CallResult

/-- The word of a result in any letter case, and the code behind `err`. -/
inductive ResultWord
  | plain (word : Text) (h : lower word ∈ ["ok".toList, "busy".toList, "retry".toList])
  | err (word : Text) (h : lower word = "err".toList) (code : Text)

namespace ResultWord

def word : ResultWord → Text
  | plain word _ => word
  | err word _ _ => word

def code : ResultWord → Option Text
  | plain _ _ => none
  | err _ _ code => some code

def tokens (w : ResultWord) : List Text := w.word :: w.code.toList

theorem lower_word_mem (w : ResultWord) : lower w.word ∈ resultKinds := by
  cases w with
  | plain w h =>
    have hsub : ∀ kind ∈ ["ok".toList, "busy".toList, "retry".toList], kind ∈ resultKinds := by
      decide
    exact hsub _ h
  | err w h code =>
    have herr : "err".toList ∈ resultKinds := by decide
    exact h ▸ herr

theorem lower_word_eq_err {w : ResultWord} : lower w.word = "err".toList ↔ w.code ≠ none := by
  cases w with
  | plain word h =>
    refine iff_of_false (fun he => ?_) (fun hne => hne rfl)
    change lower word = _ at he
    rw [he] at h
    exact absurd h (by decide)
  | err word h code => exact iff_of_true h (Option.some_ne_none code)

theorem ascii_of_lower {s : Text} (h : ∀ c ∈ lower s, c.toNat < 128) : ∀ c ∈ s, c.toNat < 128 := by
  intro c hc
  have hfold := h c.toLower (List.mem_map_of_mem hc)
  rw [Ascii.toNat_toLower] at hfold
  split_ifs at hfold <;> omega

theorem ascii_word (w : ResultWord) : ∀ c ∈ w.word, c.toNat < 128 := by
  have hkinds : ∀ kind ∈ resultKinds, ∀ c ∈ kind, c.toNat < 128 := by
    simp only [resultKinds, List.forall_mem_cons]
    refine ⟨?_, ?_, ?_, ?_, fun _ h => absurd h List.not_mem_nil⟩ <;>
      exact Scan.forall_of_all rfl
  exact ascii_of_lower (hkinds _ w.lower_word_mem)

theorem word_ne_hash (w : ResultWord) (t : Text) : w.word ≠ '#' :: t := by
  intro he
  have hkinds : ∀ kind ∈ resultKinds, kind.head? ≠ some '#' := by decide
  apply hkinds _ w.lower_word_mem
  rw [he]
  rfl

end ResultWord

/-- An optional id, a word with its code, and tokens with a `=`. -/
structure ResultLine where
  id : Option Digits
  word : ResultWord
  pairs : List Field
  keys : ∀ f ∈ pairs, '=' ∉ f.1

namespace ResultLine

def tokens (l : ResultLine) : List Text :=
  (l.id.map (fun d => '#' :: d.chars)).toList ++ (l.word.tokens ++ l.pairs.map Field.token)

/-- What section 4.3 asks for beyond the shape. -/
structure Grammatical (l : ResultLine) : Prop where
  code : ∀ code, l.word.code = some code → '=' ∉ code
  keys : ∀ f ∈ l.pairs, f.1 ≠ []

def ReadableId (l : ResultLine) : Prop := ∀ d, l.id = some d → d.chars.length ≤ 4300

def result (l : ResultLine) : ParsedCallResult where
  ok := lower l.word.word = "ok".toList
  kind := some (lower l.word.word)
  code := l.word.code
  requestId := l.id.map (fun d => (d.value : ℤ))
  fields := pairsDict l.pairs
  valid := true
  knownErr := l.word.code.map (fun c => decide (c ∈ errCodes))

end ResultLine

/-! ### Reading a line -/

section Reading

variable {F : Type} (py : Python F)

theorem callResultOf_word (l : ResultLine) :
    callResultOf (l.id.map (fun d => (d.value : ℤ))) (lower l.word.word) l.word.code
      (l.pairs.map Field.token) = l.result := by
  rw [callResultOf, readResultFields_tokens l.keys]
  dsimp only
  rw [if_neg (not_not.mpr l.word.lower_word_mem)]
  rfl

theorem parseCallResult_of_take {text : Text} {rid : Option ℤ} {w : ResultWord}
    {rest : List Text} (h : py.takeRequestId (split text) = .ok (rid, w.tokens ++ rest)) :
    py.parseCallResult (some text) = .ok (callResultOf rid (lower w.word) w.code rest) := by
  have hlower := py.lower_ascii _ w.ascii_word
  rw [Python.parseCallResult, Option.getD_some, split_strip, h]
  change (if py.lower w.word = "err".toList then _ else _) = _
  rw [hlower]
  cases w with
  | plain word hw =>
    rw [if_neg (fun he => ResultWord.lower_word_eq_err.mp he rfl)]
    rfl
  | err word hw code => exact if_pos hw

theorem isdigitStr_digits (d : Digits) : py.isdigitStr d.chars = true := by
  rw [Python.isdigitStr, Bool.and_eq_true, decide_eq_true_eq, List.all_eq_true]
  refine ⟨d.ne_nil, fun c hc => ?_⟩
  have hdigit := d.all c hc
  have hcode : 48 ≤ c.toNat ∧ c.toNat ≤ 57 := Char.isDigit_iff_toNat.mp hdigit
  rw [py.isdigit_ascii c (by omega)]
  exact hdigit

theorem parseCallResult_line {text : Text} (l : ResultLine) (h : split text = l.tokens)
    (hid : l.ReadableId) : py.parseCallResult (some text) = .ok l.result := by
  rw [← callResultOf_word]
  apply parseCallResult_of_take
  rw [h, ResultLine.tokens]
  cases hl : l.id with
  | none => exact py.takeRequestId_of_ne l.word.word_ne_hash
  | some d =>
    have hint := py.int_digits d.chars d.ne_nil d.all
    rw [if_pos (hid d hl)] at hint
    exact py.takeRequestId_of_isdigitStr (isdigitStr_digits py d) hint

/-! ### What is accepted -/

theorem pairs_of_readResultFields {rest : List Text} {d : Dict Text Text}
    (h : (readResultFields rest d).1 = true) :
    ∃ pairs : List Field, (∀ f ∈ pairs, '=' ∉ f.1) ∧ rest = pairs.map Field.token := by
  induction rest generalizing d with
  | nil => exact ⟨[], fun _ hf => absurd hf List.not_mem_nil, rfl⟩
  | cons tok rest ih =>
    rw [readResultFields] at h
    split_ifs at h with heq
    obtain ⟨key, value, rfl, hkey⟩ := List.eq_append_cons_of_mem heq
    obtain ⟨pairs, hall, rfl⟩ := ih h
    exact ⟨(key, value) :: pairs, List.forall_mem_cons.mpr ⟨hkey, hall⟩, rfl⟩

theorem valid_callResultOf {rid : Option ℤ} {kind : Text} {code : Option Text} {rest : List Text}
    (h : (callResultOf rid kind code rest).valid = true) :
    kind ∈ resultKinds ∧ ∃ pairs : List Field, (∀ f ∈ pairs, '=' ∉ f.1) ∧
      rest = pairs.map Field.token := by
  rw [callResultOf] at h
  cases hread : readResultFields rest .empty with
  | mk whole fields =>
    rw [hread] at h
    cases whole with
    | false => cases h
    | true =>
      dsimp only at h
      split_ifs at h with hkind
      exact ⟨hkind, pairs_of_readResultFields (congrArg Prod.fst hread)⟩

theorem word_of_valid {text : Text} {rid : Option ℤ} {tokens : List Text}
    {r : ParsedCallResult} (hascii : ∀ t ∈ tokens, ∀ c ∈ t, c.toNat < 128)
    (htake : py.takeRequestId (split text) = .ok (rid, tokens))
    (h : py.parseCallResult (some text) = .ok r) (hvalid : r.valid = true) :
    ∃ (w : ResultWord) (pairs : List Field), (∀ f ∈ pairs, '=' ∉ f.1) ∧
      tokens = w.tokens ++ pairs.map Field.token := by
  rw [Python.parseCallResult, Option.getD_some, split_strip, htake] at h
  cases tokens with
  | nil =>
    obtain rfl := Except.ok.inj h
    cases hvalid
  | cons word rest =>
    have hlower := py.lower_ascii word (hascii word List.mem_cons_self)
    change (if py.lower word = "err".toList then _ else _) = _ at h
    rw [hlower] at h
    split_ifs at h with herr
    · cases rest with
      | nil =>
        obtain rfl := Except.ok.inj h
        cases hvalid
      | cons code rest =>
        obtain rfl := Except.ok.inj h
        obtain ⟨-, pairs, hpairs, rfl⟩ := valid_callResultOf hvalid
        exact ⟨.err word herr code, pairs, hpairs, rfl⟩
    · obtain rfl := Except.ok.inj h
      obtain ⟨hkind, pairs, hpairs, rfl⟩ := valid_callResultOf hvalid
      refine ⟨.plain word ?_, pairs, hpairs, rfl⟩
      simp only [resultKinds, List.mem_cons, List.not_mem_nil, or_false] at hkind ⊢
      tauto

/-- A valid result comes from a line. -/
theorem line_of_valid {text : Text} {r : ParsedCallResult} (hascii : ∀ c ∈ text, c.toNat < 128)
    (h : py.parseCallResult (some text) = .ok r) (hvalid : r.valid = true) :
    ∃ l : ResultLine, split text = l.tokens ∧ l.ReadableId := by
  have htoken : ∀ t ∈ split text, ∀ c ∈ t, c.toNat < 128 := fun t ht c hc =>
    hascii c (Words.mem_of_mem_words ht hc)
  cases htake : py.takeRequestId (split text) with
  | error e =>
    rw [Python.parseCallResult, Option.getD_some, split_strip, htake] at h
    cases h
  | ok taken =>
    obtain ⟨rid, tokens⟩ := taken
    have hsub := py.mem_of_takeRequestId htake
    obtain ⟨w, pairs, hpairs, rfl⟩ :=
      word_of_valid py (fun t ht => htoken t (hsub t ht)) htake h hvalid
    rcases py.takeRequestId_ok htake with ⟨digits, n, htokens, hdigits, hint, -⟩ | ⟨htokens, -⟩
    · have hd : digits ≠ [] ∧ ∀ c ∈ digits, c.isDigit = true := by
        rw [Python.isdigitStr, Bool.and_eq_true, decide_eq_true_eq, List.all_eq_true] at hdigits
        refine ⟨hdigits.1, fun c hc => ?_⟩
        have hc7 := htoken _ (htokens ▸ List.mem_cons_self) c (List.mem_cons_of_mem '#' hc)
        rw [← py.isdigit_ascii c hc7]
        exact hdigits.2 c hc
      refine ⟨⟨some ⟨digits, hd.1, hd.2⟩, w, pairs, hpairs⟩, htokens, ?_⟩
      intro d hd'
      rw [py.int_digits digits hd.1 hd.2] at hint
      split_ifs at hint with hlen
      obtain rfl := Option.some.inj hd'
      exact hlen
    · refine ⟨⟨none, w, pairs, hpairs⟩, htokens.symm, ?_⟩
      intro d hd
      cases hd

end Reading

/-! ### One line for a text -/

theorem map_token_injective {ps qs : List Field} (hps : ∀ f ∈ ps, '=' ∉ f.1)
    (hqs : ∀ f ∈ qs, '=' ∉ f.1) (h : ps.map Field.token = qs.map Field.token) : ps = qs := by
  have hread (fs : List Field) (hfs : ∀ f ∈ fs, '=' ∉ f.1) :
      (fs.map Field.token).map (partition '=') = fs := by
    rw [List.map_map, List.map_congr_left (g := id)]
    · exact List.map_id fs
    · exact fun f hf => partition_append (hfs f hf)
  rw [← hread ps hps, ← hread qs hqs, h]

theorem ResultWord.tokens_injective {v w : ResultWord} {ps qs : List Text}
    (h : v.tokens ++ ps = w.tokens ++ qs) : v = w ∧ ps = qs := by
  obtain ⟨hword, htail⟩ := List.cons.inj h
  have hcode : v.code ≠ none ↔ w.code ≠ none := by
    rw [← lower_word_eq_err, ← lower_word_eq_err, hword]
  cases v with
  | plain word hv =>
    cases w with
    | plain word' hw =>
      obtain rfl : word = word' := hword
      exact ⟨rfl, htail⟩
    | err word' hw code' => exact absurd rfl (hcode.mpr (Option.some_ne_none code'))
  | err word hv code =>
    cases w with
    | plain word' hw => exact absurd rfl (hcode.mp (Option.some_ne_none code))
    | err word' hw code' =>
      obtain rfl : word = word' := hword
      obtain ⟨rfl, hrest⟩ := List.cons.inj htail
      exact ⟨rfl, hrest⟩

/-- The syntax is unambiguous. -/
theorem ResultLine.tokens_injective {l m : ResultLine} (h : l.tokens = m.tokens) : l = m := by
  obtain ⟨lid, lword, lpairs, lkeys⟩ := l
  obtain ⟨mid, mword, mpairs, mkeys⟩ := m
  have hrest {i j : Option Digits} (hij : i = j)
      (h : lword.tokens ++ lpairs.map Field.token = mword.tokens ++ mpairs.map Field.token) :
      (⟨i, lword, lpairs, lkeys⟩ : ResultLine) = ⟨j, mword, mpairs, mkeys⟩ := by
    obtain ⟨rfl, hmap⟩ := ResultWord.tokens_injective h
    obtain rfl := map_token_injective lkeys mkeys hmap
    rw [hij]
  cases lid with
  | none =>
    cases mid with
    | none => exact hrest rfl h
    | some d => exact absurd (List.cons.inj h).1 (lword.word_ne_hash d.chars)
  | some c =>
    cases mid with
    | none => exact absurd (List.cons.inj h).1.symm (mword.word_ne_hash c.chars)
    | some d =>
      obtain ⟨hid, htail⟩ := List.cons.inj h
      have hdigits : c = d := by
        obtain ⟨chars, hne, hall⟩ := c
        obtain ⟨chars', hne', hall'⟩ := d
        obtain rfl : chars = chars' := (List.cons.inj hid).2
        rfl
      exact hrest (congrArg some hdigits) htail

/-! ### The grammar -/

/-- The parser decides the grammar on a text, and reads the values of its tokens. -/
structure DecidesGrammar {F : Type} (py : Python F) (text : Text) : Prop where
  valid_iff : (∃ r, py.parseCallResult (some text) = .ok r ∧ r.valid = true) ↔
    ∃ l : ResultLine, l.Grammatical ∧ split text = l.tokens
  values : ∀ r, py.parseCallResult (some text) = .ok r → r.valid = true →
    ∀ l : ResultLine, split text = l.tokens →
      r.requestId = l.id.map (fun d => (d.value : ℤ)) ∧ r.kind = some (lower l.word.word) ∧
        r.code = l.word.code ∧ r.fields = pairsDict l.pairs

theorem valid_iff_line {F : Type} (py : Python F) {text : Text}
    (hascii : ∀ c ∈ text, c.toNat < 128) :
    (∃ r, py.parseCallResult (some text) = .ok r ∧ r.valid = true) ↔
      ∃ l : ResultLine, split text = l.tokens ∧ l.ReadableId := by
  constructor
  · rintro ⟨r, h, hvalid⟩
    exact line_of_valid py hascii h hvalid
  · rintro ⟨l, h, hid⟩
    exact ⟨l.result, parseCallResult_line py l h hid, rfl⟩

theorem DecidesGrammar.readableId_iff {F : Type} {py : Python F} {text : Text}
    (h : DecidesGrammar py text) (hascii : ∀ c ∈ text, c.toNat < 128) {l : ResultLine}
    (hl : split text = l.tokens) : l.ReadableId ↔ l.Grammatical := by
  have hvalid := h.valid_iff
  rw [valid_iff_line py hascii] at hvalid
  constructor
  · intro hid
    obtain ⟨m, hm, htokens⟩ := hvalid.mp ⟨l, hl, hid⟩
    rwa [ResultLine.tokens_injective (hl.symm.trans htokens)]
  · intro hgrammar
    obtain ⟨m, htokens, hm⟩ := hvalid.mpr ⟨l, hgrammar, hl⟩
    rwa [ResultLine.tokens_injective (hl.symm.trans htokens)]

/-- The parser decides the grammar on every text but these: a line with an empty key or with `=` in
its code, and a line of the grammar with an id `int` refuses. -/
theorem decidesGrammar_iff {F : Type} (py : Python F) {text : Text}
    (hascii : ∀ c ∈ text, c.toNat < 128) : DecidesGrammar py text ↔
      ∀ l : ResultLine, split text = l.tokens → (l.ReadableId ↔ l.Grammatical) := by
  constructor
  · exact fun h l => h.readableId_iff hascii
  · intro h
    constructor
    · rw [valid_iff_line py hascii]
      constructor
      · rintro ⟨l, hl, hid⟩
        exact ⟨l, (h l hl).mp hid, hl⟩
      · rintro ⟨l, hgrammar, hl⟩
        exact ⟨l, hl, (h l hl).mpr hgrammar⟩
    · intro r hr hvalid l hl
      obtain ⟨m, hm, hid⟩ := line_of_valid py hascii hr hvalid
      obtain rfl := ResultLine.tokens_injective (hl.symm.trans hm)
      rw [parseCallResult_line py l hl hid] at hr
      obtain rfl := Except.ok.inj hr
      exact ⟨rfl, rfl, rfl, rfl⟩

theorem decidesGrammar_iff_closed : DecidesGrammar Python.ascii "#7 ok state=closed".toList ↔
    ∀ l : ResultLine, split "#7 ok state=closed".toList = l.tokens →
      (l.ReadableId ↔ l.Grammatical) :=
  decidesGrammar_iff Python.ascii (Scan.forall_of_all rfl)

/-- `ok =v` -/
def emptyKeyLine : ResultLine where
  id := none
  word := .plain "ok".toList List.mem_cons_self
  pairs := [([], "v".toList)]
  keys _ hf := List.mem_singleton.mp hf ▸ List.not_mem_nil

/-- `err feature=gps` -/
def pairAsCodeLine : ResultLine where
  id := none
  word := .err "err".toList rfl "feature=gps".toList
  pairs := []
  keys _ hf := absurd hf List.not_mem_nil

/-- A pair without a key and a pair in the place of the code are taken. -/
theorem not_decidesGrammar : ¬ DecidesGrammar Python.ascii "ok =v".toList ∧
    ¬ DecidesGrammar Python.ascii "err feature=gps".toList := by
  constructor
  · intro h
    have hl : split "ok =v".toList = emptyKeyLine.tokens := by decide
    have hgrammar := (h.readableId_iff (Scan.forall_of_all rfl) hl).mp (fun _ hd => by cases hd)
    exact hgrammar.keys _ List.mem_cons_self rfl
  · intro h
    have hl : split "err feature=gps".toList = pairAsCodeLine.tokens := by decide
    have hgrammar := (h.readableId_iff (Scan.forall_of_all rfl) hl).mp (fun _ hd => by cases hd)
    exact absurd (by decide) (hgrammar.code _ rfl)

end Mcrpc.CallResult
