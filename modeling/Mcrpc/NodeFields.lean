import Mcrpc.DiscoveryLine

/-!
# What the builders of a node hold

`McRpc::buildStatus` and `McRpc::buildDiscover` add the node's own fields, each when it has a value,
and then those of the features, whose keys are others. A builder cuts a value to its slot, and the
node's own fields are never too many.
-/

namespace Mcrpc

open Scan

/-! ### Fields that are there when they have a value -/

def filled (slots : List (Text × Option Text)) : List Field :=
  slots.filterMap (fun e => e.2.map (e.1, ·))

theorem keys_filled (slots : List (Text × Option Text)) :
    ((filled slots).map Prod.fst).Sublist (slots.map Prod.fst) := by
  induction slots with
  | nil => exact List.Sublist.slnil
  | cons e slots ih =>
    obtain ⟨key, value⟩ := e
    cases value with
    | none => exact ih.cons key
    | some v => exact ih.cons_cons key

theorem find_filled {slots : List (Text × Option Text)} (h : (slots.map Prod.fst).Nodup)
    (key : Text) : ((filled slots).find? (fun f => f.1 = key)).map Prod.snd =
      (slots.find? (fun e => e.1 = key)).bind Prod.snd := by
  induction slots with
  | nil => rfl
  | cons e slots ih =>
    obtain ⟨k, value⟩ := e
    obtain ⟨hnew, hslots⟩ := List.nodup_cons.mp h
    have hrest := ih hslots
    by_cases hk : k = key
    · rw [List.find?_cons_of_pos (by simpa using hk), Option.bind_some]
      cases value with
      | none =>
        -- the key has no second slot
        refine (Option.map_eq_none_iff).mpr (List.find?_eq_none.mpr (fun f hf he => hnew ?_))
        change k ∈ slots.map Prod.fst
        rw [hk, ← of_decide_eq_true he]
        exact (keys_filled slots).mem (List.mem_map_of_mem hf)
      | some v =>
        change (List.find? _ ((k, v) :: filled slots)).map Prod.snd = some v
        rw [List.find?_cons_of_pos (by simpa using hk), Option.map_some]
    · rw [List.find?_cons_of_neg (by simpa using hk), ← hrest]
      cases value with
      | none => rfl
      | some v =>
        change (List.find? _ ((k, v) :: filled slots)).map Prod.snd = _
        rw [List.find?_cons_of_neg (by simpa using hk)]

theorem mem_filled {slots : List (Text × Option Text)} {f : Field} :
    f ∈ filled slots ↔ (f.1, some f.2) ∈ slots := by
  rw [filled, List.mem_filterMap]
  constructor
  · rintro ⟨⟨key, value⟩, he, hf⟩
    obtain ⟨v, rfl, rfl⟩ := Option.map_eq_some_iff.mp hf
    exact he
  · intro h
    exact ⟨(f.1, some f.2), h, rfl⟩

def Field.cut (f : Field) : Field := (f.1, copyToken maxToken f.2)

theorem map_cut_of_lt {fields : List Field} (h : ∀ f ∈ fields, f.2.length < maxToken) :
    fields.map Field.cut = fields := by
  refine (List.map_congr_left (fun f hf => ?_)).trans (List.map_id fields)
  rw [Field.cut, copyToken_of_lt (h f hf)]
  rfl

def addOne {B : Type} (add : B → Text → Text → Bool × B) (b : B) (key : Text) : Option Text → B
  | some value => (add b key value).2
  | none => b

def addFilled {B : Type} (add : B → Text → Text → Bool × B) (b : B)
    (slots : List (Text × Option Text)) : B :=
  slots.foldl (fun b e => addOne add b e.1 e.2) b

theorem fields_addFilled {B : Type} {add : B → Text → Text → Bool × B} {fields : B → List Field}
    (hadd : ∀ b key value, (fields b).length < maxStatusFields →
      fields (add b key value).2 = fields b ++ [(key, copyToken maxToken value)])
    {slots : List (Text × Option Text)} {b : B}
    (hroom : (fields b).length + slots.length ≤ maxStatusFields) :
    fields (addFilled add b slots) = fields b ++ (filled slots).map Field.cut := by
  induction slots generalizing b with
  | nil => exact (List.append_nil _).symm
  | cons e slots ih =>
    obtain ⟨key, value⟩ := e
    rw [List.length_cons] at hroom
    cases value with
    | none => exact ih (b := b) (by omega)
    | some v =>
      have hfields := hadd b key v (by omega)
      have hlen : (fields (add b key v).2).length + slots.length ≤ maxStatusFields := by
        rw [hfields, List.length_append, List.length_singleton]
        omega
      change fields (addFilled add (add b key v).2 slots) =
        fields b ++ Field.cut (key, v) :: (filled slots).map Field.cut
      rw [ih hlen, hfields, List.append_assoc, List.singleton_append]
      rfl

theorem StatusBuilder.fields_add_of_lt (b : StatusBuilder) (key value : Text)
    (h : b.fields.length < maxStatusFields) :
    (b.add key value).2.fields = b.fields ++ [(key, copyToken maxToken value)] := by
  rw [add, dif_neg (Nat.not_le_of_lt h)]

theorem DiscoverBuilder.fields_add_of_lt (b : DiscoverBuilder) (key value : Text)
    (h : b.fields.length < maxDiscoverFields) :
    (b.add key value).2.fields = b.fields ++ [(key, copyToken maxToken value)] := by
  rw [add, dif_neg (Nat.not_le_of_lt h)]

theorem addSlots_eq_addFilled (d : DiscoverBuilder) (slots : List (Text × Option Text)) :
    addSlots d slots = addFilled DiscoverBuilder.add d slots := by
  induction slots generalizing d with
  | nil => rfl
  | cons e slots ih =>
    obtain ⟨key, value⟩ := e
    cases value <;> exact ih _

theorem fields_coreDiscover (rpc : McRpc Handler FeatureKind) (up : Option Text) :
    (coreDiscover rpc up).fields = (filled (discoverSlots rpc up)).map Field.cut := by
  rw [coreDiscover, addSlots_eq_addFilled]
  exact fields_addFilled DiscoverBuilder.fields_add_of_lt (show 0 + 6 ≤ 24 by decide)

/-! ### The status -/

/-- The fields `buildStatus` adds before those of the features, each when it has a value. -/
def statusSlots (rpc : McRpc Handler FeatureKind) (up rssi : Option Text) :
    List (Text × Option Text) :=
  [("name".toList, some rpc.nodeName), ("id".toList, shortId8 rpc.nodeId),
    ("id_full".toList, (shortId8 rpc.nodeId).map (fun _ => rpc.nodeId)),
    ("fw".toList, some rpc.firmware), ("v".toList, some protocolVersionString),
    ("tag".toList, if primaryTag rpc ≠ [] then some (primaryTag rpc) else none),
    ("up".toList, up), ("rssi".toList, rssi),
    ("transport".toList, if rpc.transport ≠ [] then some rpc.transport else none),
    ("caps".toList, capsCsv rpc.capabilities)]

def statusKeys : List Text :=
  ["name".toList, "id".toList, "id_full".toList, "fw".toList, "v".toList, "tag".toList,
    "up".toList, "rssi".toList, "transport".toList, "caps".toList]

theorem keys_statusSlots (rpc : McRpc Handler FeatureKind) (up rssi : Option Text) :
    (statusSlots rpc up rssi).map Prod.fst = statusKeys := rfl

theorem nodup_keys_statusSlots (rpc : McRpc Handler FeatureKind) (up rssi : Option Text) :
    ((statusSlots rpc up rssi).map Prod.fst).Nodup := by
  rw [keys_statusSlots]
  decide

def coreStatus (rpc : McRpc Handler FeatureKind) (up rssi : Option Text) : StatusBuilder :=
  addFilled StatusBuilder.add StatusBuilder.reset (statusSlots rpc up rssi)

/-- The node's own fields of its status. -/
theorem fields_coreStatus (rpc : McRpc Handler FeatureKind) (up rssi : Option Text) :
    (coreStatus rpc up rssi).fields = (filled (statusSlots rpc up rssi)).map Field.cut :=
  fields_addFilled StatusBuilder.fields_add_of_lt (show 0 + 10 ≤ 24 by decide)

section Node

variable {S R : Type} [CFloat R] (g : Node S R) (s : S)

def rssiText : NodeM S R (Option Text) := do
  match (← read).callbacks.rssi with
  | none => return none
  | some rssi => return some (copyToken 16 (signedDecimal (← callback rssi)))

theorem addOne_ite {B : Type} (add : B → Text → Text → Bool × B) (b : B) (key value : Text) :
    addOne add b key (if value ≠ [] then some value else none) =
      if value ≠ [] then (add b key value).2 else b := by
  split <;> rfl

theorem buildStatus_eq : buildStatus g s =
    g.rpc.features.features.foldlM contributeStatus
      (coreStatus g.rpc (uptime g s).1 (rssiText g (uptime g s).2).1) g
      (rssiText g (uptime g s).2).2 := by
  have hid (b : StatusBuilder) (id8 : Option Text) (full : Text) :
      addOne StatusBuilder.add (addOne StatusBuilder.add b "id".toList id8) "id_full".toList
        (id8.map (fun _ => full)) =
      match id8 with
      | some id8 => ((b.add "id".toList id8).2.add "id_full".toList full).2
      | none => b := by
    cases id8 <;> rfl
  obtain ⟨rpc, ⟨publish, publishEx, entropy, callback, rssi⟩, host, engine, count⟩ := g
  simp only [coreStatus, addFilled, statusSlots, List.foldl_cons, List.foldl_nil, addOne_ite, hid]
  cases callback <;> cases rssi <;> rfl

end Node

/-! ### The features -/

def featureKeys : List Text :=
  ["snr".toList, "heap".toList, "voltage".toList, "battery".toList, "gps".toList, "sat".toList,
    "button_count".toList, "display".toList, "relay".toList, "led".toList]

/-- A field of a feature; its value is one token when the texts of floats are. -/
def FeatureField (R : Type) [CFloat R] (f : Field) : Prop :=
  f.1 ∈ featureKeys ∧ ((∀ x : R, Clean (CFloat.fixed 2 x)) → Clean f.2)

def Appends (R : Type) [CFloat R] (before after : List Field) : Prop :=
  ∃ added, after = before ++ added ∧ ∀ f ∈ added, FeatureField R f

section Features

variable {S R : Type} [CFloat R]

theorem Appends.refl (fields : List Field) : Appends R fields fields :=
  ⟨[], (List.append_nil fields).symm, fun _ hf => absurd hf List.not_mem_nil⟩

theorem Appends.trans {a b c : List Field} (hab : Appends R a b) (hbc : Appends R b c) :
    Appends R a c := by
  obtain ⟨xs, rfl, hxs⟩ := hab
  obtain ⟨ys, rfl, hys⟩ := hbc
  exact ⟨xs ++ ys, List.append_assoc a xs ys, List.forall_mem_append.mpr ⟨hxs, hys⟩⟩

theorem clean_copyToken {size : ℕ} {s : Text} (h : Clean s) : Clean (copyToken size s) :=
  h.of_subset (fun _ => List.mem_of_mem_take)

theorem clean_decimal (n : ℕ) : Clean (decimal n) := by
  refine clean_of_ascii_graph (fun c hc => ?_)
  have := isDigit_iff.mp (isDigit_of_mem_decimal hc)
  omega

theorem clean_signedDecimal (n : ℤ) : Clean (signedDecimal n) := by
  rw [signedDecimal]
  split
  · exact (clean_word rfl : Clean ['-']).append (clean_decimal _)
  · exact clean_decimal _

namespace StatusBuilder

theorem appends_add (b : StatusBuilder) {key value : Text} (hkey : key ∈ featureKeys)
    (hvalue : (∀ x : R, Clean (CFloat.fixed 2 x)) → Clean value) :
    Appends R b.fields (b.add key value).2.fields := by
  rw [add]
  split
  · exact .refl _
  · exact ⟨[(key, copyToken maxToken value)], rfl,
      List.forall_mem_singleton.mpr ⟨hkey, fun h => clean_copyToken (hvalue h)⟩⟩

theorem appends_addInt (b : StatusBuilder) {key : Text} (hkey : key ∈ featureKeys) (n : ℤ) :
    Appends R b.fields (b.addInt key n).fields :=
  b.appends_add hkey (fun _ => clean_copyToken (clean_signedDecimal n))

theorem appends_addUnsigned (b : StatusBuilder) {key : Text} (hkey : key ∈ featureKeys) (n : ℕ) :
    Appends R b.fields (b.addUnsigned key n).fields :=
  b.appends_add hkey (fun _ => clean_copyToken (clean_decimal n))

theorem appends_addFloat (b : StatusBuilder) {key : Text} (hkey : key ∈ featureKeys) (x : R) :
    Appends R b.fields (b.addFloat key x).fields :=
  b.appends_add hkey (fun h => clean_copyToken (h x))

end StatusBuilder

theorem appends_contributeStatus (b : StatusBuilder) (k : FeatureKind) (g : Node S R) (s : S) :
    Appends R b.fields (contributeStatus b k g s).1.fields := by
  cases k with
  | core =>
    have hsnr (ok : Bool) (snr : ℤ) :
        Appends R b.fields (if ok then b.addInt "snr".toList snr else b).fields := by
      split
      · exact b.appends_addInt (by decide) snr
      · exact .refl _
    have hheap (b : StatusBuilder) (ok : Bool) (heap : UInt32) : Appends R b.fields
        (if ok then b.addUnsigned "heap".toList heap.toNat else b).fields := by
      split
      · exact b.appends_addUnsigned (by decide) heap.toNat
      · exact .refl _
    exact (hsnr (g.host.readSnr 0 s).1.1 (g.host.readSnr 0 s).1.2).trans (hheap _ _ _)
  | battery =>
    have hpercent (b : StatusBuilder) (percent : ℤ) : Appends R b.fields
        (if 0 ≤ percent then b.addInt "battery".toList percent else b).fields := by
      split
      · exact b.appends_addInt (by decide) percent
      · exact .refl _
    unfold contributeStatus host
    dsimp only [bind, ReaderT.bind, StateT.bind]
    split
    · exact .refl _
    · exact (b.appends_addFloat (by decide) _).trans (hpercent _ _)
  | gps =>
    have hgps {value : Text} (hvalue : Clean value) :
        Appends R b.fields (b.add "gps".toList value).2.fields :=
      b.appends_add (by decide) (fun _ => hvalue)
    unfold contributeStatus host
    dsimp only [bind, ReaderT.bind, StateT.bind]
    split
    · exact (hgps (clean_word rfl)).trans (StatusBuilder.appends_addInt _ (by decide) _)
    · dsimp only [bind, ReaderT.bind, StateT.bind]
      split
      · exact hgps (clean_word rfl)
      · exact hgps (clean_word rfl)
  | button => exact b.appends_addUnsigned (by decide) g.pressCount.toNat
  | display => exact .refl _
  | relay => exact .refl _
  | led => exact .refl _

theorem appends_foldlM (features : List FeatureKind) (b : StatusBuilder) (g : Node S R) (s : S) :
    Appends R b.fields (features.foldlM contributeStatus b g s).1.fields := by
  induction features generalizing b s with
  | nil => exact .refl _
  | cons k features ih => exact (appends_contributeStatus b k g s).trans (ih _ _)

theorem appends_contributeDiscover (b : DiscoverBuilder) (k : FeatureKind) :
    Appends R b.fields (contributeDiscover b k).fields := by
  have hyes {key : Text} (hkey : key ∈ featureKeys) :
      Appends R b.fields (b.add key "yes".toList).2.fields := by
    rw [DiscoverBuilder.add]
    split
    · exact .refl _
    · exact ⟨[(key, copyToken maxToken "yes".toList)], rfl,
        List.forall_mem_singleton.mpr ⟨hkey, fun _ => clean_word rfl⟩⟩
  cases k with
  | display => exact hyes (by decide)
  | relay => exact hyes (by decide)
  | led => exact hyes (by decide)
  | _ => exact .refl _

theorem appends_buildStatus (g : Node S R) (s : S) :
    Appends R ((filled (statusSlots g.rpc (uptime g s).1 (rssiText g (uptime g s).2).1)).map
      Field.cut) (buildStatus g s).1.fields := by
  rw [buildStatus_eq, ← fields_coreStatus]
  exact appends_foldlM _ _ g _

theorem appends_buildDiscover (g : Node S R) (s : S) :
    Appends R ((filled (discoverSlots g.rpc (uptime g s).1)).map Field.cut)
      (buildDiscover g s).1.fields := by
  rw [buildDiscover_eq, ← fields_coreDiscover]
  generalize coreDiscover g.rpc (uptime g s).1 = b
  induction g.rpc.features.features generalizing b with
  | nil => exact .refl _
  | cons k features ih => exact (appends_contributeDiscover b k).trans (ih _)

end Features

/-! ### Lines that have room -/

theorem StatusBuilder.cstr_writeTo {b : StatusBuilder} (h : ∀ f ∈ b.fields, nul ∉ f.text)
    (hfits : ("status".toList ++ fieldsText b.fields).length ≤ maxReply - 1)
    (reply : ReplyBuffer) :
    (b.writeTo reply).cstr = "status".toList ++ fieldsText b.fields := by
  have htext : (b.writeTo reply).text = "status".toList ++ fieldsText b.fields := by
    rw [List.length_append, ← flatMap_text_item] at hfits
    rw [b.text_writeTo, Bounded.pushItems_of_le hfits, flatMap_text_item]
  have hnul : nul ∉ "status".toList ++ fieldsText b.fields :=
    List.not_mem_append (by decide) (nul_not_mem_fieldsText h)
  exact ReplyBuffer.cstr_of_text _ htext hnul

theorem DiscoverBuilder.cstr_writeTo {b : DiscoverBuilder} (hne : b.name ≠ [])
    (hname : nul ∉ b.name) (h : ∀ f ∈ b.fields, nul ∉ f.text)
    (hfits : (b.name ++ fieldsText b.fields).length ≤ maxReply - 1) (reply : ReplyBuffer) :
    (b.writeTo reply).cstr = b.name ++ fieldsText b.fields := by
  have htext : (b.writeTo reply).text = b.name ++ fieldsText b.fields := by
    rw [List.length_append, ← flatMap_text_item] at hfits
    rw [b.text_writeTo reply hne, Bounded.pushUntil_of_le hfits, flatMap_text_item]
  have hnul : nul ∉ b.name ++ fieldsText b.fields :=
    List.not_mem_append hname (nul_not_mem_fieldsText h)
  exact ReplyBuffer.cstr_of_text _ htext hnul

end Mcrpc
