import Mcrpc.ReplyBuffer
import Mcrpc.Lib.Bounded

/-!
# The status and discovery builders

`StatusBuilder.h` and `DiscoverBuilder.h`. A builder holds at most 24 fields whose values have room
in their slots. `StatusBuilder::writeTo` writes the four pieces of each field and ignores which of
them had room; `DiscoverBuilder::writeTo` stops at the first piece without room. Either line consists
of complete fields exactly when it fits the reply buffer, or some of the fields fill the buffer to
its last place.
-/

namespace Mcrpc

def maxStatusFields : ℕ := 24

def maxDiscoverFields : ℕ := 24

abbrev Field := Text × Text

/-- `" key=value"` -/
def Field.text (f : Field) : Text := ' ' :: (f.1 ++ '=' :: f.2)

structure StatusBuilder where
  fields : List Field := []
  length_le : fields.length ≤ maxStatusFields := by decide
  value_lt : ∀ f ∈ fields, f.2.length < maxToken := by decide

namespace StatusBuilder

def reset : StatusBuilder := {}

theorem value_lt_add {fields : List Field} {capacity : ℕ} (key value : Text)
    (h : ∀ f ∈ fields, f.2.length < capacity) (hpos : 0 < capacity) :
    ∀ f ∈ fields ++ [(key, copyToken capacity value)], f.2.length < capacity := by
  intro f hf
  rcases List.mem_append.mp hf with hf | hf
  · exact h f hf
  · rw [List.mem_singleton.mp hf]
    exact length_copyToken_lt capacity hpos value

def add (s : StatusBuilder) (key value : Text) : Bool × StatusBuilder :=
  if h : maxStatusFields ≤ s.fields.length then (false, s)
  else (true, {
    fields := s.fields ++ [(key, copyToken maxToken value)]
    length_le := by
      rw [List.length_append, List.length_singleton]
      omega
    value_lt := value_lt_add key value s.value_lt (by decide) })

def writeField (reply : ReplyBuffer) (f : Field) : ReplyBuffer :=
  let reply := (reply.appendChar ' ').2
  let reply := (reply.append f.1).2
  let reply := (reply.appendChar '=').2
  (reply.append f.2).2

/-- The loop of `writeTo` after its first `k` fields. -/
def writeUpTo (s : StatusBuilder) (reply : ReplyBuffer) (k : ℕ) : ReplyBuffer :=
  (s.fields.take k).foldl writeField (reply.clear.append "status".toList).2

def writeTo (s : StatusBuilder) (reply : ReplyBuffer) : ReplyBuffer :=
  s.writeUpTo reply s.fields.length

end StatusBuilder

structure DiscoverBuilder where
  name : Text := []
  fields : List Field := []
  name_lt : name.length < maxToken := by decide
  length_le : fields.length ≤ maxDiscoverFields := by decide
  value_lt : ∀ f ∈ fields, f.2.length < maxToken := by decide

namespace DiscoverBuilder

def reset : DiscoverBuilder := {}

def setNodeName (s : DiscoverBuilder) (name : Text) : DiscoverBuilder :=
  { s with
    name := copyToken maxToken name
    name_lt := length_copyToken_lt maxToken (by decide) name }

def add (s : DiscoverBuilder) (key value : Text) : Bool × DiscoverBuilder :=
  if h : maxDiscoverFields ≤ s.fields.length then (false, s)
  else (true, { s with
    fields := s.fields ++ [(key, copyToken maxToken value)]
    length_le := by
      rw [List.length_append, List.length_singleton]
      omega
    value_lt := StatusBuilder.value_lt_add key value s.value_lt (by decide) })

def writeFields (reply : ReplyBuffer) : List Field → ReplyBuffer
  | [] => reply
  | f :: fields =>
    match reply.appendChar ' ' with
    | (false, reply) => reply
    | (true, reply) =>
      match reply.append f.1 with
      | (false, reply) => reply
      | (true, reply) =>
        match reply.appendChar '=' with
        | (false, reply) => reply
        | (true, reply) =>
          match reply.append f.2 with
          | (false, reply) => reply
          | (true, reply) => writeFields reply fields

def writeTo (s : DiscoverBuilder) (reply : ReplyBuffer) : ReplyBuffer :=
  writeFields (reply.clear.append (if s.name = [] then "node".toList else s.name)).2 s.fields

end DiscoverBuilder

/-- The calls of `add` in order, `none` when one of them returns false. -/
def addAll {B : Type*} (add : B → Text → Text → Bool × B) : B → List Field → Option B
  | b, [] => some b
  | b, f :: fields =>
    match add b f.1 f.2 with
    | (true, b) => addAll add b fields
    | (false, _) => none

theorem fields_addAll {B : Type*} {add : B → Text → Text → Bool × B} (fields : B → List Field)
    (hadd : ∀ b key value b', add b key value = (true, b') →
      fields b' = fields b ++ [(key, copyToken maxToken value)])
    {b b' : B} {added : List Field} (h : addAll add b added = some b')
    (hroom : ∀ f ∈ added, f.2.length < maxToken) : fields b' = fields b ++ added := by
  induction added generalizing b with
  | nil =>
    obtain rfl : b = b' := Option.some.inj h
    exact (List.append_nil _).symm
  | cons f added ih =>
    rw [addAll] at h
    split at h
    · next b₁ hb₁ =>
      rw [ih h (fun g hg => hroom g (List.mem_cons_of_mem f hg)), hadd b f.1 f.2 b₁ hb₁,
        copyToken_of_lt (hroom f List.mem_cons_self), List.append_assoc, List.singleton_append]
    · cases h

/-- What no single `add` changes is left by all of them. -/
theorem addAll_frame {B γ : Type*} {add : B → Text → Text → Bool × B} (g : B → γ)
    (hadd : ∀ b key value, g (add b key value).2 = g b) {b b' : B} {added : List Field}
    (h : addAll add b added = some b') : g b' = g b := by
  induction added generalizing b with
  | nil =>
    obtain rfl : b = b' := Option.some.inj h
    rfl
  | cons f added ih =>
    rw [addAll] at h
    split at h
    · next b₁ hb₁ => rw [ih h, ← hadd b f.1 f.2, hb₁]
    · cases h

/-! ### The written text -/

def Field.item (f : Field) : Bounded.Item Char := ⟨' ', [f.1, ['='], f.2]⟩

theorem Field.text_item (f : Field) : f.item.text = f.text := by
  simp [Field.item, Field.text, Bounded.Item.text_eq_cons]

def fieldsText (fields : List Field) : Text := fields.flatMap Field.text

theorem Field.nul_not_mem_text {f : Field} (hkey : nul ∉ f.1) (hvalue : nul ∉ f.2) :
    nul ∉ f.text := by
  rw [Field.text, List.mem_cons, List.mem_append, List.mem_cons]
  rintro (he | hmem | he | hmem)
  · exact absurd he (by decide)
  · exact hkey hmem
  · exact absurd he (by decide)
  · exact hvalue hmem

theorem nul_not_mem_fieldsText {fields : List Field} (h : ∀ f ∈ fields, nul ∉ f.text) :
    nul ∉ fieldsText fields := by
  intro hmem
  obtain ⟨f, hf, hmem⟩ := List.mem_flatMap.mp hmem
  exact h f hf hmem

theorem flatMap_text_item (fields : List Field) :
    (fields.map Field.item).flatMap Bounded.Item.text = fieldsText fields := by
  rw [List.flatMap_map]
  exact congrArg (fields.flatMap ·) (funext Field.text_item)

/-- The line fits the reply buffer, or the first fields fill it to its last place. -/
def FitsOrFills (head : Text) (fields : List Field) : Prop :=
  (head ++ fieldsText fields).length ≤ maxReply - 1 ∨
    ∃ k, (head ++ fieldsText (fields.take k)).length = maxReply - 1

theorem fitsOrFills_iff (head : Text) (fields : List Field) : FitsOrFills head fields ↔
    Bounded.FitsOrFills (maxReply - 1) head.length (fields.map Field.item) := by
  simp only [FitsOrFills, Bounded.FitsOrFills, ← List.map_take, flatMap_text_item,
    List.length_append]

def wideField : Field := ("a".toList, List.replicate 71 'v')

theorem value_wideField_lt : ∀ f ∈ List.replicate 3 wideField, f.2.length < maxToken := by
  intro f hf
  rw [List.eq_of_mem_replicate hf, wideField, List.length_replicate]
  decide

theorem length_fieldsText_wideField (m : ℕ) :
    (fieldsText (List.replicate m wideField)).length = 74 * m := by
  have hfield : wideField.text.length = 74 := by
    simp only [Field.text, wideField, List.length_cons, List.length_append, List.length_replicate]
    rfl
  induction m with
  | zero => rfl
  | succ m ih =>
    rw [List.replicate_succ, fieldsText, List.flatMap_cons, List.length_append, hfield]
    change 74 + (fieldsText (List.replicate m wideField)).length = _
    omega

theorem not_fitsOrFills_wideField {head : Text} (hlen : head.length < 8) :
    ¬ FitsOrFills head (List.replicate 3 wideField) := by
  have hsize : maxReply - 1 = 191 := rfl
  rintro (hfits | ⟨k, hk⟩)
  · rw [List.length_append, length_fieldsText_wideField] at hfits
    omega
  · rw [List.take_replicate, List.length_append, length_fieldsText_wideField] at hk
    omega

namespace ReplyBuffer

theorem append_cases (b : ReplyBuffer) (s : Text) :
    (b.text.length + s.length ≤ maxReply - 1 ∧
      ∃ r, b.append s = (true, r) ∧ r.text = b.text ++ s) ∨
    (¬ b.text.length + s.length ≤ maxReply - 1 ∧ b.append s = (false, b)) := by
  have hsize : maxReply = 192 := rfl
  rw [length_text, append]
  split
  · next h => exact .inl ⟨by omega, b.store s h, rfl, text_store b s h⟩
  · next h => exact .inr ⟨by omega, rfl⟩

end ReplyBuffer

namespace StatusBuilder

theorem text_writeField (reply : ReplyBuffer) (f : Field) :
    (writeField reply f).text = Bounded.pushAll (maxReply - 1) reply.text f.item.written := by
  simp only [writeField, ReplyBuffer.appendChar_eq_append, ReplyBuffer.text_append_eq_push]
  rfl

theorem text_foldl_writeField (reply : ReplyBuffer) (fields : List Field) :
    (fields.foldl writeField reply).text =
      Bounded.pushItems (maxReply - 1) reply.text (fields.map Field.item) := by
  induction fields generalizing reply with
  | nil => rfl
  | cons f fields ih =>
    rw [List.foldl_cons, ih, text_writeField, List.map_cons, Bounded.pushItems_cons]

theorem text_writeUpTo (s : StatusBuilder) (reply : ReplyBuffer) (k : ℕ) :
    (s.writeUpTo reply k).text =
      Bounded.pushItems (maxReply - 1) "status".toList ((s.fields.map Field.item).take k) := by
  have hhead : (reply.clear.append "status".toList).2.text = "status".toList := by
    rw [ReplyBuffer.text_append, ReplyBuffer.text_clear]
    rfl
  rw [writeUpTo, text_foldl_writeField, hhead, List.map_take]

theorem text_writeTo (s : StatusBuilder) (reply : ReplyBuffer) : (s.writeTo reply).text =
    Bounded.pushItems (maxReply - 1) "status".toList (s.fields.map Field.item) := by
  rw [writeTo, text_writeUpTo,
    List.take_of_length_le (Nat.le_of_eq (List.length_map Field.item))]

theorem fields_add {s s' : StatusBuilder} {key value : Text} (h : s.add key value = (true, s')) :
    s'.fields = s.fields ++ [(key, copyToken maxToken value)] := by
  rw [add] at h
  split at h
  · cases h
  · rw [← (Prod.mk.inj h).2]

end StatusBuilder

namespace DiscoverBuilder

theorem text_writeFields (reply : ReplyBuffer) (fields : List Field) :
    (writeFields reply fields).text =
      Bounded.pushUntil (maxReply - 1) reply.text (fields.map Field.item) := by
  induction fields generalizing reply with
  | nil => rfl
  | cons f fields ih =>
    rw [List.map_cons, Bounded.pushUntil, List.flatMap_cons]
    change _ = Bounded.pushWhile _ _ ([' '] :: f.1 :: ['='] :: f.2 ::
      (fields.map Field.item).flatMap Bounded.Item.written)
    simp only [writeFields, ReplyBuffer.appendChar_eq_append]
    obtain ⟨hblank, r₁, happ, ht₁⟩ | ⟨hblank, happ⟩ := reply.append_cases [' ']
    case inr => rw [happ, Bounded.pushWhile, if_neg hblank]
    rw [happ, Bounded.pushWhile, if_pos hblank, ← ht₁]
    obtain ⟨hkey, r₂, happ, ht₂⟩ | ⟨hkey, happ⟩ := r₁.append_cases f.1
    case inr => simp only [happ, Bounded.pushWhile, if_neg hkey]
    rw [Bounded.pushWhile, if_pos hkey, ← ht₂]
    simp only [happ]
    obtain ⟨heq, r₃, happ, ht₃⟩ | ⟨heq, happ⟩ := r₂.append_cases ['=']
    case inr => simp only [happ, Bounded.pushWhile, if_neg heq]
    rw [Bounded.pushWhile, if_pos heq, ← ht₃]
    simp only [happ]
    obtain ⟨hvalue, r₄, happ, ht₄⟩ | ⟨hvalue, happ⟩ := r₃.append_cases f.2
    case inr => simp only [happ, Bounded.pushWhile, if_neg hvalue]
    rw [Bounded.pushWhile, if_pos hvalue, ← ht₄]
    simp only [happ]
    exact ih r₄

theorem text_writeTo (s : DiscoverBuilder) (reply : ReplyBuffer) (hname : s.name ≠ []) :
    (s.writeTo reply).text =
      Bounded.pushUntil (maxReply - 1) s.name (s.fields.map Field.item) := by
  have hhead : (reply.clear.append s.name).2.text = s.name := by
    have hlt := s.name_lt
    have hsize : maxToken < maxReply := by decide
    rw [ReplyBuffer.text_append, ReplyBuffer.text_clear, List.length_nil, if_pos (by omega),
      List.nil_append]
  rw [writeTo, if_neg hname, text_writeFields, hhead]

theorem fields_add {s s' : DiscoverBuilder} {key value : Text}
    (h : s.add key value = (true, s')) :
    s'.fields = s.fields ++ [(key, copyToken maxToken value)] := by
  rw [add] at h
  split at h
  · cases h
  · rw [← (Prod.mk.inj h).2]

theorem name_add (s : DiscoverBuilder) (key value : Text) : (s.add key value).2.name = s.name := by
  rw [add]
  split <;> rfl

theorem text_writeTo_eq_take_iff (s : DiscoverBuilder) (reply : ReplyBuffer)
    (hne : s.name ≠ []) :
    (∃ k, (s.writeTo reply).text = s.name ++ fieldsText (s.fields.take k)) ↔
      FitsOrFills s.name s.fields := by
  have hroom : s.name.length ≤ maxReply - 1 := by
    have hlt := s.name_lt
    have hsize : maxToken ≤ maxReply - 1 := by decide
    omega
  rw [s.text_writeTo reply hne, fitsOrFills_iff, ← Bounded.pushUntil_eq_take_iff hroom]
  simp only [← List.map_take, flatMap_text_item]

theorem eq_of_addAll {name : Text} (hname : name.length < maxToken) {added : List Field}
    (hvalues : ∀ f ∈ added, f.2.length < maxToken) {s : DiscoverBuilder}
    (hadd : addAll add (reset.setNodeName name) added = some s) :
    s.name = name ∧ s.fields = added :=
  ⟨(addAll_frame DiscoverBuilder.name name_add hadd).trans (copyToken_of_lt hname),
    fields_addAll DiscoverBuilder.fields (fun _ _ _ _ => fields_add) hadd hvalues⟩

/-- The discovery line is the node name and a prefix of the added fields, each complete, exactly
when the line fits the reply buffer or the first fields fill it to its last place. -/
theorem writeTo_eq_take_iff {name : Text} (hne : name ≠ []) (hname : name.length < maxToken)
    {added : List Field} (hvalues : ∀ f ∈ added, f.2.length < maxToken) {s : DiscoverBuilder}
    (hadd : addAll add (reset.setNodeName name) added = some s) (reply : ReplyBuffer) :
    (∃ k, (s.writeTo reply).text = name ++ fieldsText (added.take k)) ↔
      FitsOrFills name added := by
  obtain ⟨rfl, rfl⟩ := eq_of_addAll hname hvalues hadd
  exact s.text_writeTo_eq_take_iff reply hne

theorem writeTo_eq_take_iff_fw : ∃ s,
    addAll add (reset.setNodeName "ha".toList) [("fw".toList, "1.2".toList)] = some s ∧
      ((∃ k, (s.writeTo .init).text =
        "ha".toList ++ fieldsText ([("fw".toList, "1.2".toList)].take k)) ↔
        FitsOrFills "ha".toList [("fw".toList, "1.2".toList)]) :=
  ⟨_, rfl, writeTo_eq_take_iff (by decide) (by decide) (by decide) rfl .init⟩

/-- The third of three wide fields is cut after its `=`. -/
theorem writeTo_cut : ∃ s,
    addAll add (reset.setNodeName "ha".toList) (List.replicate 3 wideField) = some s ∧
      ¬ ∃ k, (s.writeTo .init).text =
        "ha".toList ++ fieldsText ((List.replicate 3 wideField).take k) := by
  obtain ⟨s, hadd⟩ : ∃ s, addAll add (reset.setNodeName "ha".toList)
      (List.replicate 3 wideField) = some s := ⟨_, rfl⟩
  obtain ⟨hname, hfields⟩ := eq_of_addAll (by decide) value_wideField_lt hadd
  refine ⟨s, hadd, ?_⟩
  rw [← hname, ← hfields, s.text_writeTo_eq_take_iff .init (by rw [hname]; decide), hname, hfields]
  exact not_fitsOrFills_wideField (by decide)

end DiscoverBuilder
end Mcrpc
