import Mcrpc.Builders
import Mcrpc.Python.Status

/-!
# Status lines at the buffer limit

What `StatusBuilder::writeTo` leaves in the reply and what the Python package reads from it. A
status line of complete fields reads back as fields that were added; the line has only complete
fields exactly when it fits, or the first fields fill the buffer to its last place.
-/

namespace Mcrpc

structure Field.Plain (f : Field) : Prop where
  key_ne_nil : f.1 ≠ []
  key : ∀ c ∈ f.1, c ≠ '=' ∧ isSpace c = false
  value : ∀ c ∈ f.2, isSpace c = false

def Field.token (f : Field) : Text := f.1 ++ '=' :: f.2

theorem Field.Plain.split_token {f : Field} (h : f.Plain) : split f.token = [f.token] := by
  refine Words.words_eq_singleton (fun hnil => h.key_ne_nil (List.append_eq_nil_iff.mp hnil).1) ?_
  intro c hc
  rcases List.mem_append.mp hc with hc | hc
  · exact (h.key c hc).2
  · rcases List.mem_cons.mp hc with rfl | hc
    · decide
    · exact h.value c hc

theorem Field.Plain.equals {f : Field} (h : f.Plain) : '=' ∉ f.1 := fun hmem =>
  (h.key '=' hmem).1 rfl

theorem Field.Plain.partition_token {f : Field} (h : f.Plain) : partition '=' f.token = f :=
  partition_append h.equals

/-- The tokens of some fields are read as a dictionary of these. -/
theorem parseKvPairs_tokens {fields : List Field} (h : ∀ f ∈ fields, f.Plain) :
    parseKvPairs (fields.map Field.token) = Dict.empty.setAll fields := by
  have hfold (d : Dict Text Text) : (fields.map Field.token).foldl addPair d = d.setAll fields := by
    induction fields generalizing d with
    | nil => rfl
    | cons f fields ih =>
      obtain ⟨hf, hfields⟩ := List.forall_mem_cons.mp h
      have heq : '=' ∈ f.token := List.mem_append_right _ List.mem_cons_self
      rw [List.map_cons, List.foldl_cons, addPair, if_pos heq, hf.partition_token]
      dsimp only
      rw [if_neg hf.key_ne_nil]
      exact ih hfields _
  exact hfold Dict.empty

theorem split_append_fieldsText (w : Text) {fields : List Field} (h : ∀ f ∈ fields, f.Plain) :
    split (w ++ fieldsText fields) = split w ++ fields.map Field.token := by
  induction fields generalizing w with
  | nil => rw [fieldsText, List.flatMap_nil, List.append_nil, List.map_nil, List.append_nil]
  | cons f fields ih =>
    have hrest := ih f.token (fun g hg => h g (List.mem_cons_of_mem f hg))
    rw [(h f List.mem_cons_self).split_token] at hrest
    change split (w ++ ' ' :: (f.token ++ fieldsText fields)) = _
    rw [split, Words.words_append_cons (by decide)]
    exact congrArg (split w ++ ·) hrest

namespace StatusBuilder

/-- The line is made of complete fields that were added, each field changes the line by nothing or
by the complete field, and a reader of the line gets pairs that were added. -/
structure WritesWhole {F : Type} (py : Python F) (added : List Field) (s : StatusBuilder)
    (reply : ReplyBuffer) : Prop where
  line : ∃ fields, fields.Sublist added ∧
    (s.writeTo reply).text = "status".toList ++ fieldsText fields
  field : ∀ k f, added[k]? = some f →
    (s.writeUpTo reply (k + 1)).text = (s.writeUpTo reply k).text ∨
    (s.writeUpTo reply (k + 1)).text = (s.writeUpTo reply k).text ++ f.text
  parsed : ∃ status, py.parseStatus (some (s.writeTo reply).text) = .ok status ∧
    ∀ e ∈ status.fields.entries, e ∈ added

variable {F : Type} (py : Python F)

theorem field_iff (s : StatusBuilder) (reply : ReplyBuffer) :
    (∀ k f, s.fields[k]? = some f →
      (s.writeUpTo reply (k + 1)).text = (s.writeUpTo reply k).text ∨
      (s.writeUpTo reply (k + 1)).text = (s.writeUpTo reply k).text ++ f.text) ↔
      FitsOrFills "status".toList s.fields := by
  rw [fitsOrFills_iff, ← Bounded.pushItems_whole_iff (by decide)]
  simp only [text_writeUpTo]
  constructor
  · intro h k i hk
    rw [List.getElem?_map, Option.map_eq_some_iff] at hk
    obtain ⟨f, hf, rfl⟩ := hk
    rw [f.text_item]
    exact h k f hf
  · intro h k f hf
    have := h k f.item (by rw [List.getElem?_map, hf, Option.map_some])
    rwa [f.text_item] at this

theorem text_writeTo_eq_take {s : StatusBuilder} (h : FitsOrFills "status".toList s.fields)
    (reply : ReplyBuffer) :
    ∃ k, (s.writeTo reply).text = "status".toList ++ fieldsText (s.fields.take k) := by
  obtain ⟨k, hk⟩ := Bounded.pushItems_eq_take ((fitsOrFills_iff _ _).mp h)
  rw [← List.map_take, flatMap_text_item] at hk
  exact ⟨k, (s.text_writeTo reply).trans hk⟩

theorem parseStatus_fieldsText {fields : List Field} (h : ∀ f ∈ fields, f.Plain) :
    ∃ status, py.parseStatus (some ("status".toList ++ fieldsText fields)) = .ok status ∧
      status.fields = Dict.empty.setAll fields := by
  have hword : split "status".toList = ["status".toList] := by decide
  have hsplit := split_append_fieldsText "status".toList h
  rw [hword] at hsplit
  exact ⟨_, py.parseStatus_status hsplit, parseKvPairs_tokens h⟩

/-- After any successful additions the status line has only complete fields exactly when it fits
the reply buffer or the first fields fill it to its last place. -/
theorem writesWhole_iff {added : List Field} (hplain : ∀ f ∈ added, f.Plain)
    (hvalues : ∀ f ∈ added, f.2.length < maxToken) {s : StatusBuilder}
    (hadd : addAll add reset added = some s) (reply : ReplyBuffer) :
    WritesWhole py added s reply ↔ FitsOrFills "status".toList added := by
  obtain rfl : s.fields = added :=
    fields_addAll StatusBuilder.fields (fun _ _ _ _ => fields_add) hadd hvalues
  constructor
  · intro h
    exact (s.field_iff reply).mp h.field
  · intro h
    obtain ⟨k, hk⟩ := text_writeTo_eq_take h reply
    have hsub : (s.fields.take k).Sublist s.fields := List.take_sublist k s.fields
    constructor
    case line => exact ⟨s.fields.take k, hsub, hk⟩
    case field => exact (s.field_iff reply).mpr h
    case parsed =>
      obtain ⟨status, hparse, hread⟩ :=
        parseStatus_fieldsText py (fun f hf => hplain f (hsub.mem hf))
      rw [hk]
      refine ⟨status, hparse, fun e he => ?_⟩
      rw [hread] at he
      exact hsub.mem ((Dict.mem_setAll he).resolve_left List.not_mem_nil)

theorem plain_fw : Field.Plain ("fw".toList, "12".toList) :=
  ⟨List.cons_ne_nil _ _, Scan.forall_of_all rfl, Scan.forall_of_all rfl⟩

theorem writesWhole_iff_fw : ∃ s, addAll add reset [("fw".toList, "12".toList)] = some s ∧
    (WritesWhole Python.ascii [("fw".toList, "12".toList)] s .init ↔
      FitsOrFills "status".toList [("fw".toList, "12".toList)]) :=
  ⟨_, rfl, writesWhole_iff Python.ascii (List.forall_mem_singleton.mpr plain_fw) (by decide) rfl
    .init⟩

/-- The value of the third of three wide fields is lost. -/
theorem writeTo_value_lost : ∃ s, addAll add reset (List.replicate 3 wideField) = some s ∧
    ¬ ∃ fields, fields.Sublist (List.replicate 3 wideField) ∧
      (s.writeTo .init).text = "status".toList ++ fieldsText fields := by
  obtain ⟨s, hadd⟩ : ∃ s, addAll add reset (List.replicate 3 wideField) = some s := ⟨_, rfl⟩
  have hfields : s.fields = List.replicate 3 wideField :=
    fields_addAll StatusBuilder.fields (fun _ _ _ _ => fields_add) hadd value_wideField_lt
  refine ⟨s, hadd, ?_⟩
  rintro ⟨fields, hsub, htext⟩
  obtain ⟨m, -, rfl⟩ := List.sublist_replicate_iff.mp hsub
  have hlen := congrArg List.length htext
  have hwritten : (Bounded.pushItems (maxReply - 1) "status".toList
      ((List.replicate 3 wideField).map Field.item)).length = 157 := by decide +kernel
  rw [s.text_writeTo .init, hfields, hwritten, List.length_append,
    length_fieldsText_wideField] at hlen
  change 157 = 6 + 74 * m at hlen
  omega

end StatusBuilder
end Mcrpc
