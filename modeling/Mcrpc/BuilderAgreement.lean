import Mcrpc.NodeFields
import Mcrpc.Python.StatusBuilder
import Mcrpc.Python.Discover
import Mcrpc.Python.RequestScan

/-!
# The builders of both languages

The firmware writes its fields in the order of the calls, a repeated key once for each call; the
Python builders make a dictionary first. What is read back is the same dictionary, in which the last
value of a key counts.
-/

namespace Mcrpc

def lastValue (key : Text) (fields : List Field) : Option Text :=
  (fields.reverse.find? (fun f => f.1 = key)).map Prod.snd

/-- A field both builders take: no white space and no NUL, a key without `=`, a value with room in
its slot. -/
structure Field.Addable (f : Field) : Prop where
  plain : f.Plain
  nul : nul ∉ f.text
  length_le : f.2.length ≤ 71

def Python.StatusBuilder.addText (b : Python.StatusBuilder) (key value : Text) :
    Bool × Python.StatusBuilder :=
  b.add key value

def Python.DiscoverBuilder.addText (b : Python.DiscoverBuilder) (key value : Text) :
    Bool × Python.DiscoverBuilder :=
  b.add key value

/-! ### The fields of a builder -/

/-- A builder that takes a field whenever it is allowed to, and is then allowed one field less,
takes them all. -/
theorem addAll_allowed {B : Type*} (add : B → Text → Text → Bool × B) (fields : B → List Field)
    (allowed : ℕ → B → Prop)
    (hadd : ∀ (n : ℕ) (b : B) (f : Field), allowed (n + 1) b → f.Addable →
      ∃ b', add b f.1 f.2 = (true, b') ∧ allowed n b' ∧ fields b' = fields b ++ [f])
    {added : List Field} (hadded : ∀ f ∈ added, f.Addable) {b : B} (hb : allowed added.length b) :
    ∃ b', addAll add b added = some b' ∧ allowed 0 b' ∧ fields b' = fields b ++ added := by
  induction added generalizing b with
  | nil => exact ⟨b, rfl, hb, (List.append_nil _).symm⟩
  | cons f added ih =>
    obtain ⟨hf, hrest⟩ := List.forall_mem_cons.mp hadded
    obtain ⟨b', hstep, hb', hfields⟩ := hadd added.length b f hb hf
    obtain ⟨b'', hall, hb'', hfields'⟩ := ih hrest hb'
    refine ⟨b'', by rw [addAll, hstep]; exact hall, hb'', ?_⟩
    rw [hfields', hfields, List.append_assoc, List.singleton_append]

theorem Field.Addable.copyToken_eq {f : Field} (h : f.Addable) : copyToken maxToken f.2 = f.2 :=
  copyToken_of_lt (Nat.lt_succ_of_le h.length_le)

section Fields

variable {added : List Field} (hadded : ∀ f ∈ added, f.Addable)

include hadded

theorem StatusBuilder.addAll_reset (hcount : added.length ≤ 24) :
    ∃ s, addAll add reset added = some s ∧ s.fields = added := by
  have hadd (n : ℕ) (b : StatusBuilder) (f : Field) (hb : b.fields.length + (n + 1) ≤ 24)
      (hf : f.Addable) : ∃ b', b.add f.1 f.2 = (true, b') ∧ b'.fields.length + n ≤ 24 ∧
        b'.fields = b.fields ++ [f] := by
    have hroom : ¬ maxStatusFields ≤ b.fields.length := by
      change ¬ 24 ≤ _
      omega
    refine ⟨_, dif_neg hroom, ?_, ?_⟩
    · rw [List.length_append, List.length_singleton]
      omega
    · exact congrArg (fun value => b.fields ++ [(f.1, value)]) hf.copyToken_eq
  have hinit : reset.fields.length + added.length ≤ 24 := by
    change 0 + _ ≤ 24
    omega
  obtain ⟨s, hs, -, hfields⟩ := addAll_allowed StatusBuilder.add StatusBuilder.fields
    (fun n b => b.fields.length + n ≤ 24) hadd hadded hinit
  exact ⟨s, hs, hfields⟩

theorem DiscoverBuilder.addAll_reset {name : Text} (hname : name.length ≤ 71)
    (hcount : added.length ≤ 24) :
    ∃ s, addAll add (reset.setNodeName name) added = some s ∧ s.name = name ∧ s.fields = added := by
  have hadd (n : ℕ) (b : DiscoverBuilder) (f : Field)
      (hb : b.name = name ∧ b.fields.length + (n + 1) ≤ 24) (hf : f.Addable) :
      ∃ b', b.add f.1 f.2 = (true, b') ∧ (b'.name = name ∧ b'.fields.length + n ≤ 24) ∧
        b'.fields = b.fields ++ [f] := by
    have hroom : ¬ maxDiscoverFields ≤ b.fields.length := by
      change ¬ 24 ≤ _
      omega
    refine ⟨_, dif_neg hroom, ⟨hb.1, ?_⟩, ?_⟩
    · rw [List.length_append, List.length_singleton]
      omega
    · exact congrArg (fun value => b.fields ++ [(f.1, value)]) hf.copyToken_eq
  have hinit : (reset.setNodeName name).name = name ∧
      (reset.setNodeName name).fields.length + added.length ≤ 24 := by
    refine ⟨copyToken_of_lt (Nat.lt_succ_of_le hname), ?_⟩
    change 0 + _ ≤ 24
    omega
  obtain ⟨s, hs, hb, hfields⟩ := addAll_allowed DiscoverBuilder.add DiscoverBuilder.fields
    (fun n b => b.name = name ∧ b.fields.length + n ≤ 24) hadd hadded hinit
  exact ⟨s, hs, hb.1, hfields⟩

theorem python_statusBuilder_addAll :
    ∃ b, addAll Python.StatusBuilder.addText {} added = some b ∧ b.fields = added := by
  have hadd (n : ℕ) (b : Python.StatusBuilder) (f : Field) (_ : True) (hf : f.Addable) :
      ∃ b', b.addText f.1 f.2 = (true, b') ∧ True ∧ b'.fields = b.fields ++ [f] :=
    ⟨_, if_neg hf.plain.key_ne_nil, trivial, rfl⟩
  obtain ⟨b, hb, -, hfields⟩ := addAll_allowed Python.StatusBuilder.addText
    Python.StatusBuilder.fields (fun _ _ => True) hadd hadded trivial
  exact ⟨b, hb, hfields⟩

theorem python_discoverBuilder_addAll (name : Text) :
    ∃ b, addAll Python.DiscoverBuilder.addText (Python.DiscoverBuilder.setNodeName {} name) added =
      some b ∧ b.name = name ∧ b.fields = added := by
  have hadd (n : ℕ) (b : Python.DiscoverBuilder) (f : Field) (hb : b.name = name)
      (hf : f.Addable) : ∃ b', b.addText f.1 f.2 = (true, b') ∧ b'.name = name ∧
        b'.fields = b.fields ++ [f] :=
    ⟨_, if_neg hf.plain.key_ne_nil, hb, rfl⟩
  have hinit : (Python.DiscoverBuilder.setNodeName {} name).name = name := rfl
  obtain ⟨b, hb, hname, hfields⟩ := addAll_allowed Python.DiscoverBuilder.addText
    Python.DiscoverBuilder.fields (fun _ b => b.name = name) hadd hadded hinit
  exact ⟨b, hb, hname, hfields⟩

end Fields

/-! ### The lines -/

theorem append_join_tokens {fields : List Field} (h : fields ≠ []) (w : Text) :
    w ++ ' ' :: join [' '] (fields.map Field.token) = w ++ fieldsText fields := by
  cases fields with
  | nil => exact absurd rfl h
  | cons f fields =>
    rw [List.map_cons, join_cons, List.flatMap_map]
    rfl

/-- The line of a Python builder is that of the fields of its dictionary. -/
theorem Python.StatusBuilder.write_eq (b : Python.StatusBuilder) :
    b.write = "status".toList ++ fieldsText (Dict.empty.setAll b.fields).entries := by
  rw [write]
  split
  · next hnil =>
    rw [hnil]
    rfl
  · next hne => exact append_join_tokens (Dict.entries_setAll_ne_nil Dict.empty hne) "status".toList

theorem Python.DiscoverBuilder.write_eq {b : Python.DiscoverBuilder} (hname : b.name ≠ []) :
    b.write = b.name ++ fieldsText (Dict.empty.setAll b.fields).entries := by
  rw [write, if_neg hname]
  split
  · next hnil =>
    rw [hnil]
    exact (List.append_nil b.name).symm
  · next hne => exact append_join_tokens (Dict.entries_setAll_ne_nil Dict.empty hne) b.name

/-! ### What is read from the lines -/

theorem plain_setAll {added : List Field} (hadded : ∀ f ∈ added, f.Plain) :
    ∀ f ∈ (Dict.empty.setAll added).entries, Field.Plain f := fun f hf =>
  hadded f ((Dict.mem_setAll hf).resolve_left List.not_mem_nil)

theorem get_setAll_eq_lastValue (added : List Field) (key : Text) :
    (Dict.empty.setAll added).get key = lastValue key added := by
  rw [Dict.get_setAll, lastValue]
  exact Option.or_none

section Reading

variable {F : Type} (py : Python F)

theorem parseDiscover_fieldsText (name : Ident) {fields : List Field}
    (h : ∀ f ∈ fields, f.Plain) :
    ∃ c, py.parseDiscover (some (name.chars ++ fieldsText fields)) = .ok c ∧
      c.fields = Dict.empty.setAll fields ∧ c.device = name.chars :=
  ⟨_, parseDiscover_name_fieldsText name.all name.ne_nil h py, parseKvPairs_tokens h, rfl⟩

variable {added : List Field} (hadded : ∀ f ∈ added, f.Addable)

include hadded

theorem status_agrees (hcount : added.length ≤ 24)
    (hfits : ("status".toList ++ fieldsText added).length ≤ 191) (reply : ReplyBuffer) :
    ∃ s b c p, addAll StatusBuilder.add .reset added = some s ∧
      addAll Python.StatusBuilder.addText {} added = some b ∧
      py.parseStatus (some (s.writeTo reply).cstr) = .ok c ∧
      py.parseStatus (some b.write) = .ok p ∧ c.fields = p.fields ∧
      ∀ key, c.fields.get key = lastValue key added := by
  have hplain : ∀ f ∈ added, f.Plain := fun f hf => (hadded f hf).plain
  obtain ⟨s, hs, rfl⟩ := StatusBuilder.addAll_reset hadded hcount
  obtain ⟨b, hb, hfields⟩ := python_statusBuilder_addAll hadded
  obtain ⟨c, hc, hcfields⟩ := StatusBuilder.parseStatus_fieldsText py hplain
  obtain ⟨p, hp, hpfields⟩ := StatusBuilder.parseStatus_fieldsText py (plain_setAll hplain)
  rw [Dict.setAll_entries] at hpfields
  refine ⟨s, b, c, p, hs, hb, ?_, ?_, hcfields.trans hpfields.symm, fun key => ?_⟩
  · rw [StatusBuilder.cstr_writeTo (fun f hf => (hadded f hf).nul) hfits reply]
    exact hc
  · rw [b.write_eq, hfields]
    exact hp
  · rw [hcfields, get_setAll_eq_lastValue]

theorem discover_agrees (hcount : added.length ≤ 24) (name : Ident) (hname : name.chars.length ≤ 71)
    (hfits : (name.chars ++ fieldsText added).length ≤ 191) (reply : ReplyBuffer) :
    ∃ s b c p, addAll DiscoverBuilder.add (.setNodeName .reset name.chars) added = some s ∧
      addAll Python.DiscoverBuilder.addText (.setNodeName {} name.chars) added = some b ∧
      py.parseDiscover (some (s.writeTo reply).cstr) = .ok c ∧
      py.parseDiscover (some b.write) = .ok p ∧ c.fields = p.fields ∧
      (∀ key, c.fields.get key = lastValue key added) ∧ c.device = name.chars ∧
      p.device = name.chars := by
  have hplain : ∀ f ∈ added, f.Plain := fun f hf => (hadded f hf).plain
  have hnul : nul ∉ name.chars := fun hmem => absurd (name.all nul hmem) (by decide)
  obtain ⟨s, hs, hsname, rfl⟩ := DiscoverBuilder.addAll_reset hadded hname hcount
  obtain ⟨b, hb, hbname, hfields⟩ := python_discoverBuilder_addAll hadded name.chars
  obtain ⟨c, hc, hcfields, hcdevice⟩ := parseDiscover_fieldsText py name hplain
  obtain ⟨p, hp, hpfields, hpdevice⟩ := parseDiscover_fieldsText py name (plain_setAll hplain)
  rw [Dict.setAll_entries] at hpfields
  refine ⟨s, b, c, p, hs, hb, ?_, ?_, hcfields.trans hpfields.symm, fun key => ?_, hcdevice,
    hpdevice⟩
  · rw [← hsname] at hfits hnul hc
    rw [DiscoverBuilder.cstr_writeTo (hsname ▸ name.ne_nil) hnul (fun f hf => (hadded f hf).nul)
      hfits reply]
    exact hc
  · rw [Python.DiscoverBuilder.write_eq (hbname ▸ name.ne_nil), hbname, hfields]
    exact hp
  · rw [hcfields, get_setAll_eq_lastValue]

/-- The builders of both languages mean the same: what is read from their lines is one dictionary,
which has the last value of every key, and one device. -/
theorem builders_agree (hcount : added.length ≤ 24) (name : Ident) (hname : name.chars.length ≤ 71)
    (reply : ReplyBuffer) :
    (("status".toList ++ fieldsText added).length ≤ 191 →
      ∃ s b c p, addAll StatusBuilder.add .reset added = some s ∧
        addAll Python.StatusBuilder.addText {} added = some b ∧
        py.parseStatus (some (s.writeTo reply).cstr) = .ok c ∧
        py.parseStatus (some b.write) = .ok p ∧ c.fields = p.fields ∧
        ∀ key, c.fields.get key = lastValue key added) ∧
    ((name.chars ++ fieldsText added).length ≤ 191 →
      ∃ s b c p, addAll DiscoverBuilder.add (.setNodeName .reset name.chars) added = some s ∧
        addAll Python.DiscoverBuilder.addText (.setNodeName {} name.chars) added = some b ∧
        py.parseDiscover (some (s.writeTo reply).cstr) = .ok c ∧
        py.parseDiscover (some b.write) = .ok p ∧ c.fields = p.fields ∧
        (∀ key, c.fields.get key = lastValue key added) ∧ c.device = name.chars ∧
        p.device = name.chars) :=
  ⟨fun hfits => status_agrees py hadded hcount hfits reply,
    fun hfits => discover_agrees py hadded hcount name hname hfits reply⟩

end Reading

def repeatedKey : List Field :=
  [("fw".toList, "1".toList), ("v".toList, "2".toList), ("fw".toList, "3".toList)]

theorem addable_repeatedKey : ∀ f ∈ repeatedKey, f.Addable := by
  have haddable {f : Field} (h : f.Writable) (hlen : f.2.length ≤ 71) : f.Addable :=
    ⟨h.plain, h.nul_not_mem, hlen⟩
  have hfw (value : Text) (h : Clean value) : Field.Writable ("fw".toList, value) := ⟨rfl, h⟩
  have hv : Field.Writable ("v".toList, "2".toList) := ⟨rfl, clean_word rfl⟩
  exact List.forall_mem_cons.mpr ⟨haddable (hfw _ (clean_word rfl)) (by decide),
    List.forall_mem_cons.mpr ⟨haddable hv (by decide),
      List.forall_mem_singleton.mpr (haddable (hfw _ (clean_word rfl)) (by decide))⟩⟩

theorem builders_agree_repeatedKey :
    (∃ s b c p, addAll StatusBuilder.add .reset repeatedKey = some s ∧
      addAll Python.StatusBuilder.addText {} repeatedKey = some b ∧
      Python.ascii.parseStatus (some (s.writeTo .init).cstr) = .ok c ∧
      Python.ascii.parseStatus (some b.write) = .ok p ∧ c.fields = p.fields ∧
      c.fields.get "fw".toList = some "3".toList) ∧
    ∃ s b c p, addAll DiscoverBuilder.add (.setNodeName .reset "node1".toList) repeatedKey =
        some s ∧
      addAll Python.DiscoverBuilder.addText (.setNodeName {} "node1".toList) repeatedKey = some b ∧
      Python.ascii.parseDiscover (some (s.writeTo .init).cstr) = .ok c ∧
      Python.ascii.parseDiscover (some b.write) = .ok p ∧ c.fields = p.fields ∧
      c.fields.get "fw".toList = some "3".toList ∧ c.device = p.device := by
  obtain ⟨hstatus, hdiscover⟩ := builders_agree Python.ascii addable_repeatedKey (by decide)
    ⟨"node1".toList, List.cons_ne_nil _ _, Scan.forall_of_all rfl⟩ (by decide) .init
  obtain ⟨s, b, c, p, hs, hb, hc, hp, hfields, hlast⟩ := hstatus (by decide)
  obtain ⟨s', b', c', p', hs', hb', hc', hp', hfields', hlast', hdevice, hdevice'⟩ :=
    hdiscover (by decide)
  exact ⟨⟨s, b, c, p, hs, hb, hc, hp, hfields, hlast _⟩,
    ⟨s', b', c', p', hs', hb', hc', hp', hfields', hlast' _, hdevice.trans hdevice'.symm⟩⟩

end Mcrpc
