import Mcrpc.CallResult
import Mcrpc.DiscoveryLine
import Mcrpc.Python.CallResult

/-!
# The grammar of call results

What `appendKv` leaves in the reply and what `parse_call_result` reads from it. The builder looks
for blanks, the reader splits at every kind of white space. A pair is written in four pieces, and a
piece without room leaves those before it.
-/

namespace Mcrpc

open Scan

namespace CallResult

/-- The checks `appendKv` makes before it writes. -/
structure AcceptsKv (f : Field) : Prop where
  key_ne_nil : f.1 ≠ []
  key : ' ' ∉ f.1 ∧ '=' ∉ f.1
  value : ' ' ∉ f.2

theorem appendKv_of_not_accepts {f : Field} (h : ¬ AcceptsKv f) (out : ReplyBuffer) :
    appendKv out f.1 f.2 = (false, out) := by
  rw [appendKv]
  split_ifs with hnil hkey hvalue
  · rfl
  · rfl
  · rfl
  · exact absurd ⟨hnil, not_or.mp hkey, hvalue⟩ h

/-- An accepted pair is written as a whole, not at all, or up to a piece without room. -/
theorem appendKv_cases {f : Field} (h : AcceptsKv f) (out : ReplyBuffer) :
    (out.len + f.text.length < maxReply ∧
      ∃ r, appendKv out f.1 f.2 = (true, r) ∧ r.text = out.text ++ f.text) ∨
    (maxReply ≤ out.len + 1 ∧ appendKv out f.1 f.2 = (false, out)) ∨
    (out.len + 1 < maxReply ∧ maxReply ≤ out.len + f.text.length ∧
      ∃ r, appendKv out f.1 f.2 = (false, r) ∧ out.len < r.len) := by
  have hlen : f.text.length = f.1.length + f.2.length + 2 := by
    simp only [Field.text, List.length_cons, List.length_append]
    omega
  have hone (c : Char) : [c].length = 1 := rfl
  rw [appendKv, if_neg h.key_ne_nil, if_neg (not_or.mpr h.key), if_neg h.value]
  simp only [ReplyBuffer.appendChar_eq_append]
  obtain ⟨hblank, r₁, happ, hl₁, ht₁⟩ | ⟨hblank, happ⟩ := out.append_spec [' ']
  case inr => exact .inr (.inl ⟨hblank, by rw [happ]⟩)
  rw [hone] at hblank hl₁
  rw [happ]
  dsimp only
  obtain ⟨hkey, r₂, happ, hl₂, ht₂⟩ | ⟨hkey, happ⟩ := r₁.append_spec f.1
  case inr => exact .inr (.inr ⟨hblank, by omega, r₁, by rw [happ], by omega⟩)
  rw [happ]
  dsimp only
  obtain ⟨heq, r₃, happ, hl₃, ht₃⟩ | ⟨heq, happ⟩ := r₂.append_spec ['=']
  case inr =>
    rw [hone] at heq
    exact .inr (.inr ⟨hblank, by omega, r₂, by rw [happ], by omega⟩)
  rw [hone] at hl₃
  rw [happ]
  dsimp only
  obtain ⟨hvalue, r₄, happ, -, ht₄⟩ | ⟨hvalue, happ⟩ := r₃.append_spec f.2
  case inr => exact .inr (.inr ⟨hblank, by omega, r₃, by rw [happ], by omega⟩)
  refine .inl ⟨by omega, r₄, happ, ?_⟩
  rw [ht₄, ht₃, ht₂, ht₁, List.append_assoc, List.append_assoc, List.append_assoc]
  rfl

/-- A failed call leaves the buffer as it was exactly when a check refuses the pair, the blank has
no room either, or the pair fits. -/
theorem appendKv_atomic_iff (out : ReplyBuffer) (f : Field) :
    ((appendKv out f.1 f.2).1 = false → (appendKv out f.1 f.2).2 = out) ↔
      ¬ AcceptsKv f ∨ maxReply ≤ out.len + 1 ∨ out.len + f.text.length < maxReply := by
  by_cases h : AcceptsKv f
  · rcases appendKv_cases h out with ⟨hfits, r, happ, -⟩ | ⟨hfull, happ⟩ |
      ⟨hblank, hroom, r, happ, hlen⟩
    · rw [happ]
      exact iff_of_true (fun hfalse => Bool.noConfusion hfalse) (.inr (.inr hfits))
    · rw [happ]
      exact iff_of_true (fun _ => rfl) (.inr (.inl hfull))
    · rw [happ]
      apply iff_of_false
      · intro hsame
        obtain rfl : r = out := hsame rfl
        omega
      · rintro (hnot | hfull | hfits)
        · exact hnot h
        · omega
        · omega
  · rw [appendKv_of_not_accepts h]
    exact iff_of_true (fun _ => rfl) (.inl h)

def nearlyFull : ReplyBuffer := (ReplyBuffer.init.append (List.replicate 188 'x')).2

/-- The key stays behind without its value. -/
theorem appendKv_not_atomic :
    (appendKv nearlyFull "k".toList "v".toList).1 = false ∧
      (appendKv nearlyFull "k".toList "v".toList).2.text = nearlyFull.text ++ " k=".toList ∧
      (appendKv nearlyFull "k".toList "v".toList).2 ≠ nearlyFull := by
  have hlen : (appendKv nearlyFull "k".toList "v".toList).2.len = 191 := by decide +kernel
  refine ⟨by decide +kernel, by decide +kernel, fun hsame => ?_⟩
  rw [hsame] at hlen
  exact absurd hlen (by decide +kernel)

/-! ### Runs of appended pairs -/

structure ErrorCode where
  text : Text
  ne_nil : text ≠ []
  length_le : text.length ≤ 64
  clean : Clean text
  equals : '=' ∉ text

inductive Head
  | ok | busy | retry
  | err (code : ErrorCode)

namespace Head

def write (out : ReplyBuffer) : Head → ReplyBuffer
  | ok => CallResult.ok out
  | busy => CallResult.busy out
  | retry => CallResult.retry out
  | err code => CallResult.err out code.text

def kind : Head → Text
  | ok => "ok".toList
  | busy => "busy".toList
  | retry => "retry".toList
  | err _ => "err".toList

def code : Head → Option Text
  | err code => some code.text
  | _ => none

def text : Head → Text
  | err code => "err ".toList ++ code.text
  | h => h.kind

theorem text_write (h : Head) (out : ReplyBuffer) : (h.write out).text = h.text := by
  cases h with
  | err code =>
    have hroom : "err ".toList.length + code.text.length < maxReply := by
      have := code.length_le
      change 4 + code.text.length < 192
      omega
    have hhead : (out.clear.append "err ".toList).2.text = "err ".toList := by
      rw [ReplyBuffer.text_append, ReplyBuffer.text_clear]
      rfl
    change ((ReplyBuffer.append _ (if code.text ≠ [] then code.text else _)).2).text = _
    rw [if_pos code.ne_nil, ReplyBuffer.text_append, hhead, if_pos hroom]
    rfl
  | _ => exact (ReplyBuffer.text_append _ _).trans rfl

theorem nul_not_mem_text (h : Head) : nul ∉ h.text := by
  cases h with
  | err code =>
    rw [text, List.mem_append, not_or]
    exact ⟨by decide, code.clean.1⟩
  | _ => decide

theorem split_text (h : Head) : split h.text = h.kind :: h.code.toList := by
  cases h with
  | err code =>
    have hword := Words.words_append_word (s := []) (t := ' ' :: code.text) nil_space
      (List.cons_ne_nil _ _) (w := "err".toList) (forall_of_all rfl) (stops_cons.mpr rfl)
    rw [Words.words_cons (by decide), Words.words_eq_singleton code.ne_nil code.clean.2] at hword
    exact hword
  | _ => exact Words.words_eq_singleton (List.cons_ne_nil _ _) (forall_of_all rfl)

end Head

/-- The pairs that were written are behind the head. -/
theorem text_of_appended {out b : ReplyBuffer} {pairs : List Field}
    (h : addAll appendKv out pairs = some b) :
    b.text = out.text ++ fieldsText pairs ∧ ∀ f ∈ pairs, AcceptsKv f := by
  induction pairs generalizing out with
  | nil =>
    obtain rfl : out = b := Option.some.inj h
    exact ⟨(List.append_nil _).symm, fun _ hf => absurd hf List.not_mem_nil⟩
  | cons f pairs ih =>
    rw [addAll] at h
    split at h
    · next r happ =>
      have haccepts : AcceptsKv f := by
        by_contra hnot
        rw [appendKv_of_not_accepts hnot] at happ
        cases happ
      obtain ⟨-, r', happ', htext⟩ | ⟨-, hfail⟩ | ⟨-, -, r', hfail, -⟩ :=
        appendKv_cases haccepts out
      · obtain rfl := (Prod.mk.inj (happ.symm.trans happ')).2
        obtain ⟨hrest, hall⟩ := ih h
        refine ⟨?_, List.forall_mem_cons.mpr ⟨haccepts, hall⟩⟩
        rw [hrest, htext, List.append_assoc]
        rfl
      · cases happ.symm.trans hfail
      · cases happ.symm.trans hfail
    · cases h

/-! ### Reading a result -/

/-- A later pair of a key replaces the earlier one. -/
def pairsDict (pairs : List Field) : Dict Text Text :=
  pairs.foldl (fun d f => d.set f.1 f.2) .empty

theorem readResultFields_tokens {pairs : List Field} (h : ∀ f ∈ pairs, '=' ∉ f.1)
    (d : Dict Text Text) : readResultFields (pairs.map Field.token) d =
      (true, pairs.foldl (fun d f => d.set f.1 f.2) d) := by
  induction pairs generalizing d with
  | nil => rfl
  | cons f pairs ih =>
    obtain ⟨hf, hpairs⟩ := List.forall_mem_cons.mp h
    have heq : '=' ∈ f.token := List.mem_append_right _ List.mem_cons_self
    have hpartition : partition '=' f.token = f := partition_append hf
    rw [List.map_cons, readResultFields, if_pos heq, hpartition]
    exact ih hpairs _

theorem mem_readResultFields {tokens : List Text} {d : Dict Text Text} {e : Field}
    (h : e ∈ (readResultFields tokens d).2.entries) :
    e ∈ d.entries ∨ ∃ tok ∈ tokens, partition '=' tok = e := by
  induction tokens generalizing d with
  | nil => exact .inl h
  | cons tok tokens ih =>
    rw [readResultFields] at h
    split_ifs at h with heq
    · rcases ih h with hd | ⟨tok', hmem, hpair⟩
      · rcases Dict.mem_set hd with rfl | hd
        · exact .inr ⟨tok, List.mem_cons_self, rfl⟩
        · exact .inl hd
      · exact .inr ⟨tok', List.mem_cons_of_mem tok hmem, hpair⟩
    · exact .inl h

theorem fields_callResultOf (rid : Option ℤ) (kind : Text) (code : Option Text)
    (rest : List Text) :
    (callResultOf rid kind code rest).fields = (readResultFields rest .empty).2 := by
  rw [callResultOf]
  cases readResultFields rest .empty with
  | mk whole fields =>
    cases whole with
    | false => rfl
    | true =>
      dsimp only
      split <;> rfl

/-- Every field that is read is a token of the text. -/
theorem exists_token_of_mem_fields {F : Type} (py : Python F) {line : Text} {r : ParsedCallResult}
    (h : py.parseCallResult (some line) = .ok r) {e : Field} (he : e ∈ r.fields.entries) :
    ∃ tok ∈ split line, partition '=' tok = e := by
  have hread {rest : List Text} (hsub : ∀ t ∈ rest, t ∈ split line)
      (hmem : e ∈ (readResultFields rest .empty).2.entries) :
      ∃ tok ∈ split line, partition '=' tok = e := by
    obtain ⟨tok, htok, hpair⟩ := (mem_readResultFields hmem).resolve_left List.not_mem_nil
    exact ⟨tok, hsub tok htok, hpair⟩
  rw [Python.parseCallResult, Option.getD_some, split_strip] at h
  cases htake : py.takeRequestId (split line) with
  | error err =>
    rw [htake] at h
    cases h
  | ok taken =>
    obtain ⟨rid, tokens⟩ := taken
    have hsub := py.mem_of_takeRequestId htake
    rw [htake] at h
    cases tokens with
    | nil =>
      obtain rfl := Except.ok.inj h
      exact absurd he List.not_mem_nil
    | cons token rest =>
      have hrest : ∀ t ∈ rest, t ∈ split line := fun t ht => hsub t (List.mem_cons_of_mem token ht)
      change (if py.lower token = "err".toList then _ else _) = _ at h
      split_ifs at h with hkind
      · cases rest with
        | nil =>
          obtain rfl := Except.ok.inj h
          exact absurd he List.not_mem_nil
        | cons code rest =>
          obtain rfl := Except.ok.inj h
          rw [fields_callResultOf] at he
          exact hread (fun t ht => hrest t (List.mem_cons_of_mem code ht)) he
      · obtain rfl := Except.ok.inj h
        rw [fields_callResultOf] at he
        exact hread hrest he

/-- No white space of a text gets into the fields that are read from it. -/
theorem isSpace_of_mem_fields {F : Type} (py : Python F) {line : Text} {r : ParsedCallResult}
    (h : py.parseCallResult (some line) = .ok r) {e : Field} (he : e ∈ r.fields.entries) :
    ∀ c ∈ e.1 ++ e.2, isSpace c = false := by
  obtain ⟨tok, htok, rfl⟩ := exists_token_of_mem_fields py h he
  intro c hc
  apply Words.not_separator_of_mem_words htok c
  rcases List.mem_append.mp hc with hc | hc
  · exact (List.takeWhile_prefix _).mem hc
  · exact (List.dropWhile_suffix _).mem (List.mem_of_mem_drop hc)

/-- Behind the id a text that starts with the head's tokens is read by its other tokens. -/
theorem parseCallResult_of_takeRequestId {F : Type} (py : Python F) (h : Head) {line : Text}
    {rid : Option ℤ} {rest : List Text}
    (htake : py.takeRequestId (split line) = .ok (rid, h.kind :: (h.code.toList ++ rest))) :
    py.parseCallResult (some line) = .ok (callResultOf rid h.kind h.code rest) := by
  have hlower : py.lower h.kind = h.kind := by
    have hword : ∀ c ∈ h.kind, c.toNat < 128 := by cases h <;> exact forall_of_all rfl
    rw [py.lower_ascii _ hword]
    cases h <;> rfl
  rw [Python.parseCallResult, Option.getD_some, split_strip, htake]
  change (if py.lower h.kind = "err".toList then _ else _) = _
  rw [hlower]
  cases h <;> rfl

theorem kind_ne_hash (h : Head) (digits : Text) : h.kind ≠ '#' :: digits := by
  intro he
  cases h <;> exact absurd (List.cons.inj he).1 (by decide)

theorem parseCallResult_head {F : Type} (py : Python F) (h : Head) {line : Text}
    {rest : List Text} (hsplit : split line = h.kind :: (h.code.toList ++ rest)) :
    py.parseCallResult (some line) = .ok (callResultOf none h.kind h.code rest) := by
  apply parseCallResult_of_takeRequestId
  rw [hsplit, py.takeRequestId_of_ne (kind_ne_hash h)]

def ReadsAs {F : Type} (py : Python F) (line : Text) (h : Head) (pairs : List Field) : Prop :=
  ∃ r, py.parseCallResult (some line) = .ok r ∧ r.valid = true ∧ r.kind = some h.kind ∧
    r.code = h.code ∧ r.fields = pairsDict pairs

theorem readsAs_of_plain {F : Type} (py : Python F) (h : Head) {pairs : List Field}
    (hpairs : ∀ f ∈ pairs, f.Plain) : ReadsAs py (h.text ++ fieldsText pairs) h pairs := by
  have hsplit := split_append_fieldsText h.text hpairs
  rw [h.split_text, List.cons_append] at hsplit
  have hkind : h.kind ∈ resultKinds := by
    cases h <;> simp [Head.kind, resultKinds]
  refine ⟨_, parseCallResult_head py h hsplit, ?_⟩
  rw [callResultOf, readResultFields_tokens (fun f hf => (hpairs f hf).equals)]
  dsimp only
  rw [if_neg (not_not.mpr hkind)]
  exact ⟨rfl, rfl, rfl, rfl⟩

theorem readsAs_space {F : Type} {py : Python F} {line : Text} {h : Head} {pairs : List Field}
    {f : Field} (hread : ReadsAs py line h (pairs ++ [f])) :
    ∀ c ∈ f.1 ++ f.2, isSpace c = false := by
  obtain ⟨r, hparse, -, -, -, hfields⟩ := hread
  apply isSpace_of_mem_fields py hparse
  rw [hfields, pairsDict, List.foldl_append]
  exact Dict.mem_entries_iff.mpr (Dict.get_set_self _ _ _)

theorem addAll_take {B : Type*} {add : B → Text → Text → Bool × B} {b b' : B}
    {fields : List Field} (h : addAll add b fields = some b') (n : ℕ) :
    ∃ b'', addAll add b (fields.take n) = some b'' := by
  induction fields generalizing b n with
  | nil => exact ⟨b, by rw [List.take_nil]; rfl⟩
  | cons f fields ih =>
    cases n with
    | zero => exact ⟨b, rfl⟩
    | succ n =>
      rw [addAll] at h
      rw [List.take_succ_cons, addAll]
      split at h
      · exact ih h n
      · cases h

/-- The result reads back after each of the appended pairs exactly when no key and no value has
white space. -/
theorem appended_reads_iff {F : Type} (py : Python F) (h : Head) (out : ReplyBuffer)
    {pairs : List Field} {b : ReplyBuffer}
    (happended : addAll appendKv (h.write out) pairs = some b)
    (hnul : ∀ f ∈ pairs, nul ∉ f.1 ∧ nul ∉ f.2) :
    (∀ n b', addAll appendKv (h.write out) (pairs.take n) = some b' →
      ReadsAs py b'.cstr h (pairs.take n)) ↔
      ∀ f ∈ pairs, ∀ c ∈ f.1 ++ f.2, isSpace c = false := by
  constructor
  · intro hreads f hf
    obtain ⟨n, hn, rfl⟩ := List.getElem_of_mem hf
    obtain ⟨b', hb'⟩ := addAll_take happended (n + 1)
    have hread := hreads (n + 1) b' hb'
    rw [← List.take_concat_get' pairs n hn] at hread
    exact readsAs_space hread
  · intro hspace n b' hb'
    obtain ⟨htext, haccepts⟩ := text_of_appended hb'
    have hmem : ∀ f ∈ pairs.take n, f ∈ pairs := fun f => List.mem_of_mem_take
    have hplain : ∀ f ∈ pairs.take n, f.Plain := fun f hf => {
      key_ne_nil := (haccepts f hf).key_ne_nil
      key := fun c hc => ⟨fun he => (haccepts f hf).key.2 (he ▸ hc),
        hspace f (hmem f hf) c (List.mem_append_left _ hc)⟩
      value := fun c hc => hspace f (hmem f hf) c (List.mem_append_right _ hc) }
    have hfields : nul ∉ fieldsText (pairs.take n) := nul_not_mem_fieldsText (fun f hf =>
      f.nul_not_mem_text (hnul f (hmem f hf)).1 (hnul f (hmem f hf)).2)
    rw [h.text_write] at htext
    rw [b'.cstr_of_text htext (List.not_mem_append h.nul_not_mem_text hfields)]
    exact readsAs_of_plain py h hplain

def fixPairs : List Field := [("lat".toList, "50".toList), ("lon".toList, "19".toList)]

theorem appended_reads_fix : ∃ b, addAll appendKv (Head.ok.write .init) fixPairs = some b ∧
    ((∀ n b', addAll appendKv (Head.ok.write .init) (fixPairs.take n) = some b' →
      ReadsAs Python.ascii b'.cstr Head.ok (fixPairs.take n)) ↔
      ∀ f ∈ fixPairs, ∀ c ∈ f.1 ++ f.2, isSpace c = false) :=
  ⟨_, rfl, appended_reads_iff Python.ascii Head.ok .init rfl (by decide)⟩

/-- A tab is no blank for the builder and ends the value for the reader. -/
theorem appended_tab : ∃ b,
    addAll appendKv (Head.ok.write .init) [("name".toList, "a\tb".toList)] = some b ∧
      ¬ ReadsAs Python.ascii b.cstr Head.ok [("name".toList, "a\tb".toList)] := by
  refine ⟨_, rfl, fun hread => ?_⟩
  have hspace := @readsAs_space ℚ Python.ascii _ Head.ok [] _ hread '\t' (by decide)
  exact absurd hspace (by decide)

end CallResult
end Mcrpc
