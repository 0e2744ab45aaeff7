import Mcrpc.CallResultGrammar

/-!
# The two call result builders

`build_call_ok` and its siblings write what `CallResult.h` writes, as far as the buffer has room and
`appendKv` takes the pairs; and `parse_call_result` reads it back where no part of a pair can be
taken for another.
-/

namespace Mcrpc.CallResult

def Head.build (kwargs : Dict Text Text) : Head → Text
  | .ok => buildCallOk kwargs
  | .busy => buildCallBusy kwargs
  | .retry => buildCallRetry kwargs
  | .err code => buildCallErr code.text kwargs

def Head.words (h : Head) : List Text := h.kind :: h.code.toList

theorem Head.build_eq (h : Head) (kwargs : Dict Text Text) :
    h.build kwargs = resultLine h.words kwargs := by
  cases h with
  | err code =>
    have hcode : (if code.text ≠ [] then code.text else "internal".toList) = code.text :=
      if_pos code.ne_nil
    rw [build, buildCallErr, hcode]
    rfl
  | ok | busy | retry => rfl

theorem Head.text_eq (h : Head) : h.text = h.kind ++ h.code.toList.flatMap (' ' :: ·) := by
  cases h with
  | err code => exact congrArg ("err ".toList ++ ·) (List.append_nil code.text).symm
  | ok | busy | retry => exact (List.append_nil _).symm

theorem Head.build_text (h : Head) (kwargs : Dict Text Text) :
    h.build kwargs = h.text ++ fieldsText kwargs.entries := by
  rw [h.build_eq, resultLine, Head.words, List.cons_append, join_cons, List.flatMap_append,
    List.flatMap_map, h.text_eq, List.append_assoc]
  rfl

theorem exists_addAll_iff (out : ReplyBuffer) (pairs : List Field) :
    (∃ b, addAll appendKv out pairs = some b) ↔
      (∀ f ∈ pairs, AcceptsKv f) ∧ out.text.length + (fieldsText pairs).length < maxReply := by
  induction pairs generalizing out with
  | nil =>
    have hlen := out.len_lt
    rw [out.length_text]
    exact iff_of_true ⟨out, rfl⟩ ⟨fun _ hf => absurd hf List.not_mem_nil, hlen⟩
  | cons f pairs ih =>
    have hfields : (fieldsText (f :: pairs)).length = f.text.length + (fieldsText pairs).length :=
      List.length_append
    have hnone : ¬ ∃ b, (none : Option ReplyBuffer) = some b := by
      rintro ⟨b, hb⟩
      cases hb
    rw [addAll, List.forall_mem_cons, hfields]
    by_cases haccepts : AcceptsKv f
    · obtain ⟨-, r, happ, htext⟩ | ⟨hfull, happ⟩ | ⟨-, hfull, r, happ, -⟩ :=
        appendKv_cases haccepts out
      · rw [happ]
        dsimp only
        rw [ih r, htext, List.length_append, Nat.add_assoc, and_iff_right haccepts]
      · rw [happ]
        have hpos : 0 < f.text.length := Nat.succ_pos _
        have hlen := out.length_text
        apply iff_of_false hnone
        rintro ⟨-, hroom⟩
        omega
      · rw [happ]
        have hlen := out.length_text
        apply iff_of_false hnone
        rintro ⟨-, hroom⟩
        omega
    · rw [appendKv_of_not_accepts haccepts]
      exact iff_of_false hnone (fun h => haccepts h.1.1)

/-- The tokens of a line whose pairs are free of white space. -/
theorem Head.split_build (h : Head) {kwargs : Dict Text Text}
    (hspace : ∀ e ∈ kwargs.entries, ∀ c ∈ e.1 ++ e.2, isSpace c = false) :
    split (h.build kwargs) = h.kind :: (h.code.toList ++ kwargs.entries.map Field.token) := by
  have htokens : ∀ w ∈ kwargs.entries.map Field.token, w ≠ [] ∧ ∀ c ∈ w, isSpace c = false := by
    intro w hw
    obtain ⟨e, he, rfl⟩ := List.mem_map.mp hw
    refine ⟨fun hnil => List.cons_ne_nil _ _ (List.append_eq_nil_iff.mp hnil).2, fun c hc => ?_⟩
    rcases List.mem_append.mp hc with hkey | hvalue
    · exact hspace e he c (List.mem_append_left _ hkey)
    · rcases List.mem_cons.mp hvalue with rfl | hvalue
      · decide
      · exact hspace e he c (List.mem_append_right _ hvalue)
  have hfields : fieldsText kwargs.entries =
      (kwargs.entries.map Field.token).flatMap (' ' :: ·) := by
    rw [List.flatMap_map]
    rfl
  rw [h.build_text, hfields, split, Words.words_append_flatMap (by decide) _ htokens]
  exact congrArg (· ++ _) h.split_text

def ReadsBack {F : Type} (py : Python F) (h : Head) (kwargs : Dict Text Text) (line : Text) : Prop :=
  ∃ r, py.parseCallResult (some line) = .ok r ∧ r.valid = true ∧ r.kind = some h.kind ∧
    r.code = h.code ∧ r.requestId = none ∧ r.fields = kwargs

theorem readsBack_build_iff {F : Type} (py : Python F) (h : Head) (kwargs : Dict Text Text) :
    ReadsBack py h kwargs (h.build kwargs) ↔
      ∀ e ∈ kwargs.entries, '=' ∉ e.1 ∧ ∀ c ∈ e.1 ++ e.2, isSpace c = false := by
  constructor
  · rintro ⟨r, hparse, -, -, -, -, rfl⟩ e he
    refine ⟨?_, isSpace_of_mem_fields py hparse he⟩
    obtain ⟨tok, -, rfl⟩ := exists_token_of_mem_fields py hparse he
    intro hmem
    have hstop := Scan.mem_takeWhile hmem
    exact absurd rfl (of_decide_eq_true hstop)
  · intro hpairs
    have hsplit := h.split_build (fun e he => (hpairs e he).2)
    have hkind : h.kind ∈ resultKinds := by
      cases h <;> simp [Head.kind, resultKinds]
    refine ⟨_, parseCallResult_head py h hsplit, ?_⟩
    rw [callResultOf, readResultFields_tokens (fun e he => (hpairs e he).1)]
    dsimp only
    rw [if_neg (not_not.mpr hkind)]
    exact ⟨rfl, rfl, rfl, rfl, Dict.setAll_entries kwargs⟩

end Mcrpc.CallResult
