import Mcrpc.FieldViews
import Mcrpc.NodeDiscovery

/-!
# The status of a node

What the features state of their hosts in the status of a node, behind what the node states of
itself. The reply to `status` has every one of these fields as long as there is room for the line,
and `parse_status` reads them all in their order. `parse_status_fields` has no place for some.
-/

namespace Mcrpc

open Scan

variable {S R : Type} [CFloat R]

/-! ### What the features state -/

namespace Node

variable (n : Node S R)

def signedText (value : ℤ) : Text := copyToken 16 (signedDecimal value)

def unsignedText (value : ℕ) : Text := copyToken 24 (decimal value)

def featureStatus (s : S) : FeatureKind → List Field × S
  | .core =>
    let ((ok, snr), s) := n.host.readSnr 0 s
    let ((known, heap), s) := n.host.readHeapFree 0 s
    ((if ok then [("snr".toList, signedText snr)] else []) ++
      (if known then [("heap".toList, unsignedText heap.toNat)] else []), s)
  | .battery =>
    let ((ok, volts, percent), s) := n.host.readBattery CFloat.zero (-1) s
    (if ok then
      ("voltage".toList, copyToken 24 (CFloat.fixed 2 volts)) ::
        (if 0 ≤ percent then [("battery".toList, signedText percent)] else [])
    else [], s)
  | .gps =>
    let ((ok, fix), s) := n.host.readGps GpsFix.zero s
    if ok && fix.valid then
      ([("gps".toList, "fix".toList), ("sat".toList, signedText fix.sats)], s)
    else
      let (busy, s) := n.host.gpsBusy s
      ([("gps".toList, if busy then "busy".toList else "nofix".toList)], s)
  | .button => ([("button_count".toList, unsignedText n.pressCount.toNat)], s)
  | .display | .relay | .led => ([], s)

def featuresStatus : List FeatureKind → S → List Field × S
  | [], s => ([], s)
  | k :: ks, s =>
    let (fields, s) := n.featureStatus s k
    let (rest, s) := featuresStatus ks s
    (fields ++ rest, s)

end Node

def FeatureKind.statedKeys : FeatureKind → List Text
  | core => ["snr".toList, "heap".toList]
  | battery => ["voltage".toList, "battery".toList]
  | gps => ["gps".toList, "sat".toList]
  | button => ["button_count".toList]
  | display | relay | led => []

section Features

theorem fields_addShort (b : StatusBuilder) (key : Text) {value : Text} {size : ℕ}
    (hpos : 0 < size) (hsize : size ≤ maxToken) (h : b.fields.length < maxStatusFields) :
    (b.add key (copyToken size value)).2.fields = b.fields ++ [(key, copyToken size value)] := by
  have hlen := length_copyToken_lt size hpos value
  rw [b.fields_add_of_lt key _ h, copyToken_of_lt (Nat.lt_of_lt_of_le hlen hsize)]

theorem fields_ite_addInt (b : StatusBuilder) (key : Text) (value : ℤ)
    (h : b.fields.length < maxStatusFields) (c : Prop) [Decidable c] :
    (if c then b.addInt key value else b).fields =
      b.fields ++ if c then [(key, Node.signedText value)] else [] := by
  split
  · exact fields_addShort b key (by decide) (by decide) h
  · exact (List.append_nil _).symm

theorem fields_ite_addUnsigned (b : StatusBuilder) (key : Text) (value : ℕ)
    (h : b.fields.length < maxStatusFields) (c : Prop) [Decidable c] :
    (if c then b.addUnsigned key value else b).fields =
      b.fields ++ if c then [(key, Node.unsignedText value)] else [] := by
  split
  · exact fields_addShort b key (by decide) (by decide) h
  · exact (List.append_nil _).symm

theorem length_fields_ite {b b' : StatusBuilder} {c : Prop} [Decidable c] {f : Field}
    (h : b'.fields = b.fields ++ if c then [f] else []) :
    b'.fields.length ≤ b.fields.length + 1 := by
  rw [h, List.length_append]
  split <;> simp

variable (n : Node S R) (s : S)

/-- The fields a feature adds are what its host says to it. -/
theorem contributeStatus_eq (k : FeatureKind) (b : StatusBuilder)
    (h : b.fields.length + 2 ≤ maxStatusFields) :
    (contributeStatus b k n s).1.fields = b.fields ++ (n.featureStatus s k).1 ∧
      (contributeStatus b k n s).2 = (n.featureStatus s k).2 := by
  cases k with
  | core =>
    rcases hsnr : n.host.readSnr 0 s with ⟨⟨ok, snr⟩, s₁⟩
    rcases hheap : n.host.readHeapFree 0 s₁ with ⟨⟨known, heap⟩, s₂⟩
    have hfirst := fields_ite_addInt b "snr".toList snr (by omega) (ok = true)
    have hlen := length_fields_ite hfirst
    simp only [Node.featureStatus, hsnr, hheap]
    rw [contributeStatus, host_bind hsnr]
    dsimp only
    rw [host_bind hheap, ← List.append_assoc, ← hfirst]
    exact ⟨fields_ite_addUnsigned _ _ heap.toNat (by omega) (known = true), rfl⟩
  | battery =>
    rcases hread : n.host.readBattery CFloat.zero (-1) s with ⟨⟨ok, volts, percent⟩, s₁⟩
    simp only [Node.featureStatus, hread]
    rw [contributeStatus, host_bind hread]
    dsimp only
    cases ok with
    | false => exact ⟨(List.append_nil _).symm, rfl⟩
    | true =>
      have hvolts : (b.addFloat "voltage".toList volts).fields =
          b.fields ++ [("voltage".toList, copyToken 24 (CFloat.fixed 2 volts))] :=
        fields_addShort b _ (by decide) (by decide) (by omega)
      have hlen : (b.addFloat "voltage".toList volts).fields.length < maxStatusFields := by
        rw [hvolts, List.length_append, List.length_singleton]
        omega
      have hpercent := fields_ite_addInt _ "battery".toList percent hlen (0 ≤ percent)
      rw [hvolts, List.append_assoc, List.singleton_append] at hpercent
      exact ⟨hpercent, rfl⟩
  | gps =>
    rcases hread : n.host.readGps GpsFix.zero s with ⟨⟨ok, fix⟩, s₁⟩
    rcases hbusy : n.host.gpsBusy s₁ with ⟨busy, s₂⟩
    simp only [Node.featureStatus, hread, hbusy]
    rw [contributeStatus, host_bind hread]
    dsimp only
    by_cases hfix : (ok && fix.valid) = true
    · have hgps : (b.add "gps".toList "fix".toList).2.fields = b.fields ++ [("gps".toList, "fix".toList)] :=
        b.fields_add_of_lt _ _ (by omega)
      have hlen : (b.add "gps".toList "fix".toList).2.fields.length < maxStatusFields := by
        rw [hgps, List.length_append, List.length_singleton]
        omega
      have hsat := fields_ite_addInt _ "sat".toList fix.sats hlen True
      rw [hgps, if_pos trivial, if_pos trivial, List.append_assoc] at hsat
      simp only [hfix, if_true]
      exact ⟨hsat, rfl⟩
    · simp only [hfix, Bool.false_eq_true, if_false]
      rw [host_bind hbusy]
      cases busy with
      | true => exact ⟨b.fields_add_of_lt _ _ (by omega), rfl⟩
      | false => exact ⟨b.fields_add_of_lt _ _ (by omega), rfl⟩
  | button => exact ⟨fields_addShort b _ (by decide) (by decide) (by omega), rfl⟩
  | display => exact ⟨(List.append_nil _).symm, rfl⟩
  | relay => exact ⟨(List.append_nil _).symm, rfl⟩
  | led => exact ⟨(List.append_nil _).symm, rfl⟩

structure Stated (keys : List Text) (fields : List Field) : Prop where
  keys : (fields.map Prod.fst).Sublist keys
  clean : ∀ f ∈ fields, Clean f.2

namespace Stated

variable {key value : Text} {ks ks' : List Text} {fs fs' : List Field}

omit [CFloat R] in
theorem nil : Stated ks [] := ⟨List.nil_sublist ks, fun _ hf => absurd hf List.not_mem_nil⟩

theorem cons (hvalue : Clean value) (h : Stated ks fs) : Stated (key :: ks) ((key, value) :: fs) :=
  ⟨h.keys.cons_cons key, List.forall_mem_cons.mpr ⟨hvalue, h.clean⟩⟩

theorem one (hvalue : Clean value) : Stated (key :: ks) [(key, value)] := nil.cons hvalue

theorem ite (hvalue : Clean value) (c : Prop) [Decidable c] :
    Stated [key] (if c then [(key, value)] else []) := by
  split
  · exact .one hvalue
  · exact .nil

theorem append (h : Stated ks fs) (h' : Stated ks' fs') : Stated (ks ++ ks') (fs ++ fs') where
  keys := by
    rw [List.map_append]
    exact h.keys.append h'.keys
  clean := List.forall_mem_append.mpr ⟨h.clean, h'.clean⟩

end Stated

theorem clean_signedText (value : ℤ) : Clean (Node.signedText value) :=
  clean_copyToken (clean_signedDecimal value)

theorem clean_unsignedText (value : ℕ) : Clean (Node.unsignedText value) :=
  clean_copyToken (clean_decimal value)

variable (hR : PrintsWords R)

include hR

theorem stated_featureStatus (k : FeatureKind) :
    Stated k.statedKeys (n.featureStatus s k).1 := by
  cases k with
  | core => exact (Stated.ite (clean_signedText _) _).append (.ite (clean_unsignedText _) _)
  | battery =>
    rw [Node.featureStatus]
    dsimp only
    split
    · exact (Stated.ite (clean_signedText _) _).cons (clean_copyToken (hR 2 _))
    · exact .nil
  | gps =>
    rw [Node.featureStatus]
    dsimp only
    split
    · exact (Stated.one (clean_signedText _)).cons (clean_word (by decide))
    · split
      · exact .one (clean_word (by decide))
      · exact .one (clean_word (by decide))
  | button => exact .one (clean_unsignedText _)
  | display => exact .nil
  | relay => exact .nil
  | led => exact .nil

theorem stated_featuresStatus (ks : List FeatureKind) :
    Stated (ks.flatMap FeatureKind.statedKeys) (n.featuresStatus ks s).1 := by
  induction ks generalizing s with
  | nil => exact .nil
  | cons k ks ih => exact (stated_featureStatus n s hR k).append (ih _)

theorem length_featureStatus_le (k : FeatureKind) : (n.featureStatus s k).1.length ≤ 2 := by
  have hlen := (stated_featureStatus n s hR k).keys.length_le
  rw [List.length_map] at hlen
  exact hlen.trans (by cases k <;> decide)

/-- The features add what they state, one after the other. -/
theorem fields_foldlM_contributeStatus (ks : List FeatureKind) (b : StatusBuilder)
    (h : b.fields.length + 2 * ks.length ≤ maxStatusFields) :
    (ks.foldlM contributeStatus b n s).1.fields = b.fields ++ (n.featuresStatus ks s).1 := by
  induction ks generalizing b s with
  | nil => exact (List.append_nil _).symm
  | cons k ks ih =>
    rw [List.length_cons] at h
    obtain ⟨hfields, hstate⟩ := contributeStatus_eq n s k b (by omega)
    have hlen := length_featureStatus_le n s hR k
    rw [List.foldlM_cons, NodeM.bind_run, hstate, ih, hfields, List.append_assoc]
    · rfl
    · rw [hfields, List.length_append]
      omega

end Features

/-! ### The line -/

namespace Node

def statusFields (n : Node S R) (s : S) : List Field :=
  let rssi := rssiText n (uptime n s).2
  (filled (statusSlots n.rpc (uptime n s).1 rssi.1)).map Field.cut ++
    (n.featuresStatus n.rpc.features.features rssi.2).1

def statusText (n : Node S R) (s : S) : Text := "status".toList ++ fieldsText (n.statusFields s)

end Node

namespace FeatureKind

def stating (key : Text) : Option FeatureKind := all.find? (fun k => key ∈ k.statedKeys)

theorem stating_of_mem (k : FeatureKind) : ∀ key ∈ k.statedKeys, stating key = some k := by
  have hall : k.statedKeys.all (fun key => stating key = some k) = true := by
    cases k <;> decide
  exact fun key hkey => of_decide_eq_true (List.all_eq_true.mp hall key hkey)

theorem nodup_statedKeys {ks : List FeatureKind} (h : ks.Nodup) :
    (ks.flatMap statedKeys).Nodup :=
  nodup_flatMap_of_owner stating stating_of_mem (fun k => by cases k <;> decide) h

theorem mem_featureKeys_of_stated {k : FeatureKind} {key : Text} (h : key ∈ k.statedKeys) :
    key ∈ featureKeys := by
  have hall : k.statedKeys.all (fun key => key ∈ featureKeys) = true := by
    cases k <;> decide
  exact of_decide_eq_true (List.all_eq_true.mp hall key h)

theorem length_le_seven {ks : List FeatureKind} (h : ks.Nodup) : ks.length ≤ 7 := by
  have hle := length_flatMap_le (fun k => [k]) h
  rw [List.flatMap_singleton'] at hle
  exact hle

end FeatureKind

section Line

variable {n : Node S R} (s : S) (hR : PrintsWords R)

include hR

/-- The builder holds every field: neither its table nor a place in it is too small. -/
theorem fields_buildStatus (n : Node S R) : (buildStatus n s).1.fields = n.statusFields s := by
  have hcore := fields_coreStatus n.rpc (uptime n s).1 (rssiText n (uptime n s).2).1
  have hslots : (filled (statusSlots n.rpc (uptime n s).1
      (rssiText n (uptime n s).2).1)).length ≤ 10 := List.length_filterMap_le _ _
  have hfeatures := FeatureKind.length_le_seven n.rpc.features.nodup
  rw [buildStatus_eq, fields_foldlM_contributeStatus _ _ hR, hcore, Node.statusFields]
  rw [hcore, List.length_map]
  change _ ≤ 24
  omega

theorem nodup_keys_statusFields (n : Node S R) : ((n.statusFields s).map Prod.fst).Nodup := by
  have hstated := (stated_featuresStatus n (rssiText n (uptime n s).2).2 hR
    n.rpc.features.features).keys
  have hslots := keys_filled (statusSlots n.rpc (uptime n s).1 (rssiText n (uptime n s).2).1)
  rw [Node.statusFields, List.map_append, List.map_map, List.nodup_append]
  refine ⟨hslots.nodup (nodup_keys_statusSlots _ _ _),
    hstated.nodup (FeatureKind.nodup_statedKeys n.rpc.features.nodup), ?_⟩
  rintro key hkey key' hkey' rfl
  obtain ⟨k, -, hk⟩ := List.mem_flatMap.mp (hstated.mem hkey')
  have hfeature := FeatureKind.mem_featureKeys_of_stated hk
  have hown := hslots.mem hkey
  rw [keys_statusSlots] at hown
  have hall : ∀ key ∈ statusKeys, key ∉ featureKeys := by decide
  exact hall key hown hfeature

variable (hclean : Identified n)

include hclean

theorem writable_statusFields : ∀ f ∈ n.statusFields s, f.Writable := by
  rw [← fields_buildStatus s hR n]
  exact hclean.writable_status (hR 2) s

theorem nul_not_mem_statusText : nul ∉ n.statusText s :=
  List.not_mem_append (by decide)
    (nul_not_mem_fieldsText (fun f hf => (writable_statusFields s hR hclean f hf).nul_not_mem))

theorem split_statusText :
    split (n.statusText s) = "status".toList :: (n.statusFields s).map Field.token := by
  have hplain := fun f hf => (writable_statusFields s hR hclean f hf).plain
  have hword : split "status".toList = ["status".toList] := by decide
  rw [Node.statusText, split_append_fieldsText _ hplain, hword, List.singleton_append]

theorem entries_statusFields :
    (parseKvPairs ((n.statusFields s).map Field.token)).entries = n.statusFields s :=
  entries_parseKvPairs (fun f hf => (writable_statusFields s hR hclean f hf).plain)
    (nodup_keys_statusFields s hR n)

end Line

/-! ### The line read back -/

theorem lower_status {F : Type} (py : Python F) : py.lower "status".toList = "status".toList := by
  rw [py.lower_ascii _ (forall_of_all rfl)]
  decide

section Reading

variable {F : Type} (py : Python F) {n : Node S R} (s : S)

def Node.statusParameters (n : Node S R) (s : S) : List (Text × PyValue F) :=
  (n.statusFields s).map (fun f => (f.1, py.coerceNumber f.2))

def Node.parsedStatus (n : Node S R) (s : S) (req : Request) : ParsedStatus F where
  raw := strip (req.prefixText ++ n.statusText s)
  fields := parseKvPairs ((n.statusFields s).map Field.token)
  parameters := n.statusParameters py s
  requestId := Report.replyId req

def Node.statusResponse (n : Node S R) (s : S) (req : Request) : ParsedResponse F where
  kind := .status
  raw := strip (req.prefixText ++ n.statusText s)
  requestId := Report.replyId req
  commandHint := some "status".toList
  parameters := n.statusParameters py s
  fields := parseKvPairs ((n.statusFields s).map Field.token)

variable (hR : PrintsWords R) (hclean : Identified n)

include hR hclean

theorem parseStatus_statusText (req : Request) :
    py.parseStatus (some (req.prefixText ++ n.statusText s)) = .ok (n.parsedStatus py s req) := by
  have htake := Report.takeRequestId_prefixText py (split_statusText s hR hclean)
    (fun digits he => absurd (List.cons.inj he).1 (by decide)) req
  have hlower := lower_status py
  rw [Python.parseStatus, Option.getD_some, splitTokens_eq_split, split_strip, htake]
  change Except.ok _ = _
  simp only [hlower, if_true, entries_statusFields s hR hclean]
  rfl

theorem responseOf_statusText (req : Request) :
    py.responseOf (strip (req.prefixText ++ n.statusText s)) (Report.replyId req)
      (split (n.statusText s)) = n.statusResponse py s req := by
  have hlower := lower_status py
  have hparams : py.coerceFields (parseKvPairs ((n.statusFields s).map Field.token)) =
      n.statusParameters py s := by
    rw [Python.coerceFields, entries_statusFields s hR hclean, Node.statusParameters]
  rw [split_statusText s hR hclean, Python.responseOf, hlower, hparams]
  rfl

end Reading

/-! ### What the view shows -/

section View

variable {F : Type} (py : Python F) {n : Node S R} (s : S) (hR : PrintsWords R)

omit [CFloat R] in
theorem getParam_eq_none_iff {params : List (Text × PyValue F)} {key : Text} :
    getParam params key = none ↔ key ∉ params.map Prod.fst := by
  rw [getParam, Option.map_eq_none_iff, List.find?_eq_none]
  constructor
  · intro h hkey
    obtain ⟨e, he, rfl⟩ := List.mem_map.mp hkey
    exact h e he (decide_eq_true rfl)
  · intro h e he hkey
    exact h (of_decide_eq_true hkey ▸ List.mem_map_of_mem he)

theorem keys_statusParameters (n : Node S R) :
    (n.statusParameters py s).map Prod.fst = (n.statusFields s).map Prod.fst := by
  rw [Node.statusParameters, List.map_map]
  rfl

include hR

theorem mem_keys_statusFields {key : Text} (h : key ∈ (n.statusFields s).map Prod.fst) :
    key ∈ statusKeys ++ featureKeys := by
  rw [Node.statusFields, List.map_append, List.map_map] at h
  refine List.mem_append.mpr ((List.mem_append.mp h).imp (fun hown => ?_) (fun hfeature => ?_))
  · rw [← keys_statusSlots n.rpc (uptime n s).1 (rssiText n (uptime n s).2).1]
    exact (keys_filled _).mem hown
  · obtain ⟨k, -, hk⟩ := List.mem_flatMap.mp ((stated_featuresStatus n _ hR _).keys.mem hfeature)
    exact FeatureKind.mem_featureKeys_of_stated hk

theorem getParam_unstated {key : Text} (h : key ∉ statusKeys ++ featureKeys) :
    getParam (n.statusParameters py s) key = none := by
  rw [getParam_eq_none_iff, keys_statusParameters]
  exact fun hkey => h (mem_keys_statusFields s hR hkey)

theorem getParam_firmware (n : Node S R) : getParam (n.statusParameters py s) "fw".toList =
    some (py.coerceNumber (copyToken maxToken n.rpc.firmware)) := by
  have hnodup := nodup_keys_statusFields s hR n
  rw [← keys_statusParameters py] at hnodup
  rw [getParam_eq_some_iff hnodup]
  have hslot : ("fw".toList, n.rpc.firmware) ∈
      filled (statusSlots n.rpc (uptime n s).1 (rssiText n (uptime n s).2).1) :=
    mem_filled.mpr (by simp [statusSlots])
  exact List.mem_map.mpr ⟨_, List.mem_append_left _ (List.mem_map_of_mem hslot), rfl⟩

variable [Truthy F]

/-- The view has a place for everything but the satellites and the capabilities, and it does not show
a firmware that reads as zero. -/
theorem showsAll_status_iff (req : Request) :
    (Python.statusFieldsOf (n.parsedStatus py s req)).ShowsAll ↔
      "sat".toList ∉ (n.statusFields s).map Prod.fst ∧
      "caps".toList ∉ (n.statusFields s).map Prod.fst ∧
      Truthy.truthy (py.coerceNumber (copyToken maxToken n.rpc.firmware)) = true := by
  have hnodup := nodup_keys_statusFields s hR n
  rw [← keys_statusParameters py] at hnodup
  have hnone {key : Text} (hkey : key ∉ statusKeys ++ featureKeys) :=
    getParam_unstated py s hR (n := n) hkey
  have hfirmware := hnone (show "firmware".toList ∉ statusKeys ++ featureKeys by decide)
  have hprofile := hnone (show "profile".toList ∉ statusKeys ++ featureKeys by decide)
  have hfw := getParam_firmware py s hR n
  rw [← keys_statusParameters py, ← getParam_eq_none_iff, ← getParam_eq_none_iff,
    StatusFields.showsAll_iff _ hnodup]
  constructor
  · intro h
    refine ⟨h.sat, h.caps, (h.fw _ hfw).resolve_right (fun hv => ?_)⟩
    cases hfirmware.symm.trans hv
  · rintro ⟨hsat, hcaps, htruthy⟩
    have hnever {P : Prop} {key : Text} {v : PyValue F} (hkey : key ∉ statusKeys ++ featureKeys)
        (hv : getParam (n.statusParameters py s) key = some v) : P := by
      cases (hnone hkey).symm.trans hv
    exact {
      sat := hsat
      caps := hcaps
      charging := hnone (by decide)
      fw := fun v hv => .inl (Option.some.inj (hfw.symm.trans hv) ▸ htruthy)
      firmware := fun v hv => hnever (by decide) hv
      uptime := fun v hv => hnever (by decide) hv
      profile := fun v hv => hnever (by decide) hv
      tag := fun v _ => .inr (fun x hx => hnever (by decide) hx) }

end View

/-! ### The reply -/

namespace Process

variable {ι F V T : Type} [DecidableEq ι] [Truthy F] [Truthy V]

omit [DecidableEq ι] in
theorem run_cmdStatus (req : Request) (reply : ReplyBuffer) {n : Node S R}
    (h : n.hasEngine = true) (s : S) : (Handler.cmdStatus.run req reply (some (n, s))).1 =
      (true, (buildStatus n s).1.writeTo reply) := by
  obtain ⟨rpc, callbacks, host, hasEngine, pressCount⟩ := n
  obtain rfl : hasEngine = true := h
  rfl

/-- A node answers `status` with all that it and its features have to say, exactly when there is
room. A reader finds every field in its order, and the client the reply of its pending request; the
view of the fields leaves out the satellites and the capabilities. -/
theorem status_dispatch {py : Python F} (hpy : py.Regular) (hR : PrintsWords R) (p : Process ι S R)
    (d : Dispatcher Handler) {line : Option Text} {req : Request} {entry : CommandEntry Handler}
    {n : Node S R} {s : S} (hclean : Identified n) (hengine : n.hasEngine = true)
    (hparse : Parser.parse line = (.ok, req)) (haddr : d.isAddressedToUs req = true)
    (hfind : d.registry.find req.command = some entry) (hentry : entry.handler = .cmdStatus)
    (hinstance : p.instanceOf entry.handler = some (n, s)) (reply : ReplyBuffer) :
    let out := d.dispatch call line reply p
    let text := req.prefixText ++ n.statusText s
    out.answered = true ∧ (out.reply.cstr = text ↔ text.length < maxReply) ∧
      (text.length < maxReply →
        py.parseStatus (some out.reply.cstr) = .ok (n.parsedStatus py s req) ∧
        (∃ view, py.parseStatusFields (some out.reply.cstr) = .ok view ∧
          (view.ShowsAll ↔ "sat".toList ∉ (n.statusFields s).map Prod.fst ∧
            "caps".toList ∉ (n.statusFields s).map Prod.fst ∧
            Truthy.truthy (py.coerceNumber (copyToken maxToken n.rpc.firmware)) = true)) ∧
        ∀ (c : RequestCorrelator V T) (q : PendingRequest V T) (sender : Text),
          req.hasRequestId = true → c.pending.get (req.requestId.toNat : ℤ) = some q →
          ':' ∉ sender → c.classifyInbound py (sender ++ ':' :: ' ' :: out.reply.cstr) =
            (.ok { kind := .response, response := some (n.statusResponse py s req)
                   pending := some q },
              if q.isBroadcast then c
              else { c with pending := c.pending.erase (req.requestId.toNat : ℤ) })) := by
  intro out text
  have hnul := nul_not_mem_statusText s hR hclean
  have hne : n.statusText s ≠ [] := List.append_ne_nil_of_left_ne_nil (List.cons_ne_nil _ _) _
  have hbody : let body := (call entry.handler req ReplyBuffer.init.clear p).1
      (n.statusText s).length < maxReply →
        (Dispatcher.fillBody body.1 body.2).cstr = n.statusText s := by
    intro body hlen
    have hfields := fields_buildStatus s hR n
    have hline : ((buildStatus n s).1.writeTo ReplyBuffer.init.clear).cstr = n.statusText s := by
      rw [Node.statusText, ← hfields] at hlen ⊢
      apply StatusBuilder.cstr_writeTo (fun f hf => ?_) (Nat.le_pred_of_lt hlen)
      exact (writable_statusFields s hR hclean f (hfields ▸ hf)).nul_not_mem
    have hrun : body = (true, (buildStatus n s).1.writeTo ReplyBuffer.init.clear) := by
      rw [← run_cmdStatus req ReplyBuffer.init.clear hengine, ← hentry, ← hinstance]
      exact p.call_fst entry.handler req ReplyBuffer.init.clear
    rw [hrun, Dispatcher.fillBody_of_ne_nil (hline.trans_ne hne), hline]
  obtain ⟨hanswered, hcstr⟩ := d.cstr_dispatch_of_body reply hne hnul hparse haddr hfind hbody
  refine ⟨hanswered, hcstr, fun hlen => ?_⟩
  have hreply : out.reply.cstr = text := hcstr.mpr hlen
  have hparsed := parseStatus_statusText py s hR hclean req
  rw [hreply]
  refine ⟨hparsed, ⟨_, ?_, showsAll_status_iff py s hR req⟩, fun c q sender hid hget hsender => ?_⟩
  · rw [Python.parseStatusFields, hparsed]
    rfl
  · rw [Report.classifyInbound_pending py hpy c hid hget hsender,
      responseOf_statusText py s hR hclean]

end Process

def chargedTracker : Process Unit Unit Unit where
  nodes _ := {
    rpc := [SetupCall.add (some .core), .add (some .battery), .add (some .gps), .begin].foldl
      SetupCall.run { nodeName := "tracker".toList, firmware := "1.0".toList }
    host := charged }
  states _ := ()
  instances _ := some ()

def statusSeven : Request where
  target := "tracker".toList
  hasRequestId := true
  requestId := 7
  command := "status".toList

/-- The satellites of the position are not in the view. -/
theorem status_dispatch_charged :
    let d := (chargedTracker.nodes ()).rpc.dispatcher
    let out := d.dispatch Process.call (some "tracker#7 status".toList) .init chargedTracker
    out.reply.cstr = "#7 status name=tracker fw=1.0 v=1.2 transport=meshcore ".toList ++
      "caps=battery,gps voltage=0.00 battery=88 gps=fix sat=7".toList ∧
    ∃ view, Python.ascii.parseStatusFields (some out.reply.cstr) = .ok view ∧ ¬ view.ShowsAll := by
  intro d out
  have hparse : Parser.parse (some "tracker#7 status".toList) = (.ok, statusSeven) := by decide
  have htext : statusSeven.prefixText ++ (chargedTracker.nodes ()).statusText () =
      "#7 status name=tracker fw=1.0 v=1.2 transport=meshcore ".toList ++
        "caps=battery,gps voltage=0.00 battery=88 gps=fix sat=7".toList := by decide +kernel
  have hsat : "sat".toList ∈ ((chargedTracker.nodes ()).statusFields ()).map Prod.fst := by
    decide +kernel
  have hclean : Identified (chargedTracker.nodes ()) := {
    nodeId := clean_word rfl
    firmware := clean_word rfl
    tag := clean_word rfl
    profile := clean_word rfl
    capabilities := List.forall_mem_cons.mpr
      ⟨clean_word rfl, List.forall_mem_singleton.mpr (clean_word rfl)⟩
    name_ne_nil := List.cons_ne_nil _ _
    name := clean_word rfl
    firmware_ne_nil := List.cons_ne_nil _ _
    transport := clean_word rfl }
  obtain ⟨-, hcstr, hread⟩ := Process.status_dispatch (V := Bool) (T := ℕ) Python.ascii_regular
    printsWords_unit chargedTracker d hclean rfl hparse rfl rfl rfl rfl .init
  rw [htext] at hcstr hread
  obtain ⟨-, ⟨view, hview, hshows⟩, -⟩ := hread (by decide)
  exact ⟨hcstr.mpr (by decide), view, hview, fun hall => (hshows.mp hall).1 hsat⟩

end Mcrpc
