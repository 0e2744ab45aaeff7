import Mcrpc.Features
import Mcrpc.RegistryRuns
import Mathlib.Data.List.Flatten
import Mathlib.Data.List.Infix
import Mathlib.Data.List.Perm.Subperm

/-!
# The set-up of a node

What a node answers to after any number of `features().add`, `begin` and `shutdown` calls. A start
registers the commands and capabilities of all features again, and what is registered already stays
where it is; so the tables hold those of the features of the last start in their order, and while the
node is started those of all its features.
-/

namespace Mcrpc

open BoundedKeys

/-! ### Registering a list -/

namespace CommandRegistry

variable {H : Type*}

def registerAll (r : CommandRegistry H) (es : List (CommandEntry H)) : CommandRegistry H :=
  es.foldl (fun r e => (r.registerCommand e.name e.handler e.help).2) r

structure Fit (es : List (CommandEntry H)) : Prop where
  nodup : (es.map (fun e => lower e.name)).Nodup
  length_le : es.length ≤ maxCommands

theorem Fit.eq_of_lower_eq {es : List (CommandEntry H)} (h : Fit es) {e e' : CommandEntry H}
    (he : e ∈ es) (he' : e' ∈ es) (hsame : lower e.name = lower e'.name) : e = e' :=
  List.inj_on_of_nodup_map h.nodup he he' hsame

theorem replaceFirst_self {es : List (CommandEntry H)} (h : Fit es) {e : CommandEntry H}
    (he : e ∈ es) : replaceFirst e.name e.handler e.help es = es := by
  have hone : ∀ e' ∈ es, lower e'.name = lower e.name → e' = e :=
    fun e' he' hsame => h.eq_of_lower_eq he' he hsame
  clear h
  induction es with
  | nil => rfl
  | cons e' es ih =>
    obtain ⟨hhead, htail⟩ := List.forall_mem_cons.mp hone
    rw [replaceFirst]
    split
    · next hieq =>
      rw [hhead ((ieq_iff _ _).mp hieq)]
    · next hieq =>
      have hne : e ≠ e' := by
        rintro rfl
        exact hieq ((ieq_iff _ _).mpr rfl)
      rw [ih ((List.mem_cons.mp he).resolve_left hne) htail]

theorem registerAll_of_prefix {es : List (CommandEntry H)} (h : Fit es) {r : CommandRegistry H}
    (hr : r.entries <+: es) : (r.registerAll es).entries = es := by
  refine table_foldl_of_prefix entries ?_ ?_ hr
  · intro r e hr he
    have hfit : Fit r.entries := ⟨h.nodup.sublist (hr.sublist.map _), r.length_le⟩
    rw [registerCommand]
    split
    · rfl
    · have hany : r.entries.any (fun e' => ieq e'.name e.name) = true :=
        any_ieq_iff.mpr (List.mem_map_of_mem he)
      simp only [hany, if_true, replaceFirst_self hfit he]
  · intro r e hr
    have hnodup := h.nodup.sublist (hr.sublist.map _)
    rw [List.map_append, List.map_singleton, List.nodup_append] at hnodup
    have hlen := hr.length_le.trans h.length_le
    rw [List.length_append, List.length_singleton] at hlen
    have hany : ¬ r.entries.any (fun e' => ieq e'.name e.name) = true := by
      intro hany
      exact hnodup.2.2 _ (any_ieq_iff.mp hany) _ (List.mem_singleton_self _) rfl
    rw [registerCommand, dif_neg (by omega), if_neg hany]

theorem find_eq_some_iff {r : CommandRegistry H} (h : Fit r.entries) {n : Text}
    {e : CommandEntry H} : r.find n = some e ↔ e ∈ r.entries ∧ lower e.name = lower n := by
  have hfound {e : CommandEntry H} (hfind : r.find n = some e) :
      e ∈ r.entries ∧ lower e.name = lower n := by
    rw [find] at hfind
    have hieq := List.find?_some hfind
    exact ⟨List.mem_of_find?_eq_some hfind, (ieq_iff e.name n).mp hieq⟩
  constructor
  · exact hfound
  · rintro ⟨he, hsame⟩
    have hmem : lower n ∈ r.names := hsame ▸ List.mem_map_of_mem he
    obtain ⟨e', hfind⟩ := exists_find hmem
    obtain ⟨he', hsame'⟩ := hfound hfind
    rw [hfind, h.eq_of_lower_eq he' he (hsame'.trans hsame.symm)]

end CommandRegistry

namespace CapabilityRegistry

def registerAll (r : CapabilityRegistry) (names : List Text) : CapabilityRegistry :=
  names.foldl (fun r n => (r.registerCapability n).2) r

/-- The names are not empty, differ in more than their case, and there is room for them. -/
structure Fit (names : List Text) : Prop where
  nodup : (names.map lower).Nodup
  nonempty : ∀ n ∈ names, n ≠ []
  length_le : names.length ≤ maxCaps

theorem registerAll_of_prefix {names : List Text} (h : Fit names) {r : CapabilityRegistry}
    (hr : r.names <+: names) : (r.registerAll names).names = names := by
  refine table_foldl_of_prefix CapabilityRegistry.names ?_ ?_ hr
  · intro r n hr hn
    have hany : r.names.any (fun n' => ieq n' n) = true :=
      List.any_eq_true.mpr ⟨n, hn, (ieq_iff n n).mpr rfl⟩
    rw [registerCapability, if_neg (h.nonempty n (hr.subset hn))]
    split
    · rfl
    · rfl
  · intro r n hr
    have hnodup := h.nodup.sublist (hr.sublist.map _)
    rw [List.map_append, List.map_singleton, List.nodup_append] at hnodup
    have hlen := hr.length_le.trans h.length_le
    rw [List.length_append, List.length_singleton] at hlen
    have hany : ¬ r.names.any (fun n' => ieq n' n) = true := by
      intro hany
      obtain ⟨n', hn', hieq⟩ := List.any_eq_true.mp hany
      exact hnodup.2.2 _ (List.mem_map_of_mem hn') _ (List.mem_singleton_self _)
        ((ieq_iff _ _).mp hieq)
    have hne := h.nonempty n (hr.subset (List.mem_append_right _ (List.mem_singleton_self n)))
    rw [registerCapability, if_neg hne, dif_neg (by omega), if_neg hany]

end CapabilityRegistry

/-! ### The features of the library -/

namespace FeatureKind

def all : List FeatureKind := [core, battery, gps, button, display, relay, led]

def entries (k : FeatureKind) : List (CommandEntry Handler) :=
  k.commands.map (fun c => { name := c.1, handler := c.2.1, help := some c.2.2 })

theorem mem_all (k : FeatureKind) : k ∈ all := by
  cases k <;> decide

theorem length_flatMap_le {α : Type} (f : FeatureKind → List α) {ks : List FeatureKind}
    (h : ks.Nodup) : (ks.flatMap f).length ≤ (all.flatMap f).length := by
  obtain ⟨l, hperm, hsub⟩ := List.subperm_of_subset h (fun k _ => k.mem_all)
  rw [← (hperm.flatMap_right f).length_eq]
  exact (hsub.flatMap f).length_le

def names (k : FeatureKind) : List Text := k.entries.map (fun e => lower e.name)

def owner (n : Text) : Option FeatureKind := all.find? (fun k => n ∈ k.names)

theorem owner_of_mem {k : FeatureKind} {n : Text} (h : n ∈ k.names) : owner n = some k := by
  have hall : k.names.all (fun n => owner n = some k) = true := by
    cases k <;> decide
  exact of_decide_eq_true (List.all_eq_true.mp hall n h)

theorem nodup_names (k : FeatureKind) : k.names.Nodup := by
  cases k <;> decide

theorem nodup_flatMap_of_owner {α : Type} {f : FeatureKind → List α} (owner : α → Option FeatureKind)
    (howner : ∀ k, ∀ a ∈ f k, owner a = some k) (hf : ∀ k, (f k).Nodup) {ks : List FeatureKind}
    (h : ks.Nodup) : (ks.flatMap f).Nodup := by
  refine List.nodup_flatMap.mpr ⟨fun k _ => hf k, h.imp (fun {k k'} hne a ha ha' => hne ?_)⟩
  exact Option.some.inj ((howner k a ha).symm.trans (howner k' a ha'))

theorem nodup_flatMap_names {ks : List FeatureKind} (h : ks.Nodup) : (ks.flatMap names).Nodup :=
  nodup_flatMap_of_owner owner (fun _ _ => owner_of_mem) nodup_names h

/-- All commands of all features have room in the table. -/
theorem fit_entries {ks : List FeatureKind} (h : ks.Nodup) :
    CommandRegistry.Fit (ks.flatMap entries) where
  nodup := by
    rw [List.map_flatMap]
    exact nodup_flatMap_names h
  length_le := by
    have hlen := length_flatMap_le entries h
    have hall : (all.flatMap entries).length = 22 := rfl
    change (ks.flatMap entries).length ≤ 48
    omega

theorem registerCommands_eq (ks : List FeatureKind) (r : CommandRegistry Handler) :
    ks.foldl (fun r k => k.registerCommands r) r = r.registerAll (ks.flatMap entries) := by
  rw [CommandRegistry.registerAll, List.foldl_flatMap]
  refine List.foldl_ext _ _ r (fun r k _ => ?_)
  rw [registerCommands, entries, List.foldl_map]

/-- A capability has the name of one of the feature's commands. -/
theorem mem_names_of_capability {k : FeatureKind} {n : Text}
    (h : n ∈ k.capability.map lower) : n ∈ k.names := by
  obtain ⟨name, hname, rfl⟩ := Option.map_eq_some_iff.mp h
  cases k <;> cases hname <;> decide

theorem fit_capabilities {ks : List FeatureKind} (h : ks.Nodup) :
    CapabilityRegistry.Fit (ks.filterMap capability) where
  nodup := by
    rw [List.map_filterMap]
    refine h.filterMap (fun k k' n hn hn' => ?_)
    exact Option.some.inj ((owner_of_mem (mem_names_of_capability hn)).symm.trans
      (owner_of_mem (mem_names_of_capability hn')))
  nonempty := by
    intro n hn
    obtain ⟨k, -, hk⟩ := List.mem_filterMap.mp hn
    cases k <;> cases hk <;> decide
  length_le := by
    have hlen := length_flatMap_le (fun k => k.capability.toList) h
    have hall : (all.flatMap (fun k => k.capability.toList)).length = 6 := rfl
    rw [List.filterMap_eq_flatMap_toList]
    change (ks.flatMap (fun k => k.capability.toList)).length ≤ 24
    omega

theorem registerCapabilities_eq (ks : List FeatureKind) (r : CapabilityRegistry) :
    ks.foldl (fun r k => k.registerCapabilities r) r = r.registerAll (ks.filterMap capability) := by
  rw [CapabilityRegistry.registerAll, List.foldl_filterMap]
  refine List.foldl_ext _ _ r (fun r k _ => ?_)
  rw [registerCapabilities]
  cases k.capability <;> rfl

end FeatureKind

/-! ### Runs of set-up calls -/

/-- The calls an application makes to build a node up, and down again. -/
inductive SetupCall
  | add (feature : Option FeatureKind)
  | begin
  | shutdown

namespace SetupCall

def run (m : McRpc Handler FeatureKind) : SetupCall → McRpc Handler FeatureKind
  | add feature => { m with features := (m.features.add feature).2 }
  | begin => m.begin FeatureKind.registerCommands FeatureKind.registerCapabilities
  | shutdown => m.shutdown

end SetupCall

namespace McRpc

variable {m m₀ : McRpc Handler FeatureKind}

/-- A node without features, commands and capabilities. -/
structure Fresh (m : McRpc Handler FeatureKind) : Prop where
  commands : m.commands = .empty
  capabilities : m.capabilities = .empty
  features : m.features = .empty

/-- The tables hold what the features of the last start brought, which are all while the node is
started. -/
structure Wired (m : McRpc Handler FeatureKind) : Prop where
  tables : ∃ done, done <+: m.features.features ∧
    (m.features.started = true → done = m.features.features) ∧
    m.commands.entries = done.flatMap FeatureKind.entries ∧
    m.capabilities.names = done.filterMap FeatureKind.capability
  hasCaps : m.features.started = true → m.features.hasCaps = true

theorem Fresh.wired (h : m.Fresh) : m.Wired where
  tables := by
    rw [h.commands, h.capabilities, h.features]
    exact ⟨[], List.prefix_rfl, fun _ => rfl, rfl, rfl⟩
  hasCaps hstarted := by
    rw [h.features] at hstarted
    cases hstarted

theorem Wired.add (h : m.Wired) (feature : Option FeatureKind) :
    ((SetupCall.add feature).run m).Wired := by
  cases feature with
  | none => exact h
  | some f =>
    rw [SetupCall.run, FeatureManager.add]
    split
    · exact h
    · next hstopped =>
      split
      · exact h
      · split
        · exact h
        · obtain ⟨done, hdone, -, hcommands, hcapabilities⟩ := h.tables
          exact ⟨⟨done, List.prefix_append_of_prefix hdone, fun hs => absurd hs hstopped, hcommands,
            hcapabilities⟩, h.hasCaps⟩

theorem Wired.begin (h : m.Wired) : (SetupCall.begin.run m).Wired := by
  obtain ⟨done, hdone, -, hcommands, hcapabilities⟩ := h.tables
  have hall : (m.commands.registerAll
      (m.features.features.flatMap FeatureKind.entries)).entries =
        m.features.features.flatMap FeatureKind.entries := by
    apply CommandRegistry.registerAll_of_prefix (FeatureKind.fit_entries m.features.nodup)
    rw [hcommands]
    exact hdone.flatMap _
  have hcaps : (m.capabilities.registerAll
      (m.features.features.filterMap FeatureKind.capability)).names =
        m.features.features.filterMap FeatureKind.capability := by
    apply CapabilityRegistry.registerAll_of_prefix (FeatureKind.fit_capabilities m.features.nodup)
    rw [hcapabilities]
    exact hdone.filterMap _
  rw [← FeatureKind.registerCommands_eq] at hall
  rw [← FeatureKind.registerCapabilities_eq] at hcaps
  rw [SetupCall.run, McRpc.begin, FeatureManager.start]
  split
  · exact ⟨h.tables, h.hasCaps⟩
  · exact ⟨⟨m.features.features, List.prefix_rfl, fun _ => rfl, hall, hcaps⟩, fun _ => rfl⟩

theorem Wired.shutdown (h : m.Wired) : (SetupCall.shutdown.run m).Wired := by
  rw [SetupCall.run, McRpc.shutdown, FeatureManager.stop]
  split
  · obtain ⟨done, hdone, -, hcommands, hcapabilities⟩ := h.tables
    exact ⟨⟨done, hdone, fun hs => absurd hs Bool.false_ne_true, hcommands, hcapabilities⟩,
      fun hs => absurd hs Bool.false_ne_true⟩
  · exact ⟨h.tables, h.hasCaps⟩

theorem Wired.run (h : m.Wired) (calls : List SetupCall) : (calls.foldl SetupCall.run m).Wired := by
  induction calls generalizing m with
  | nil => exact h
  | cons c calls ih =>
    apply ih
    cases c with
    | add feature => exact h.add feature
    | begin => exact h.begin
    | shutdown => exact h.shutdown

theorem Wired.fit (h : m.Wired) : CommandRegistry.Fit m.commands.entries := by
  obtain ⟨done, hdone, -, hcommands, -⟩ := h.tables
  rw [hcommands]
  exact FeatureKind.fit_entries (m.features.nodup.sublist hdone.sublist)

/-- A name is that of a command of one of the features, in any letter case. -/
def HasCommand (m : McRpc Handler FeatureKind) (n : Text) (h : Handler) : Prop :=
  ∃ k ∈ m.features.features, ∃ c ∈ k.commands, lower c.1 = lower n ∧ c.2.1 = h

theorem exists_entry_iff {ks : List FeatureKind} {n : Text} {h : Handler} :
    (∃ e, (e ∈ ks.flatMap FeatureKind.entries ∧ lower e.name = lower n) ∧ e.handler = h) ↔
      ∃ k ∈ ks, ∃ c ∈ k.commands, lower c.1 = lower n ∧ c.2.1 = h := by
  constructor
  · rintro ⟨e, ⟨he, hname⟩, hhandler⟩
    obtain ⟨k, hk, hek⟩ := List.mem_flatMap.mp he
    obtain ⟨c, hc, rfl⟩ := List.mem_map.mp hek
    exact ⟨k, hk, c, hc, hname, hhandler⟩
  · rintro ⟨k, hk, c, hc, hname, hhandler⟩
    exact ⟨_, ⟨List.mem_flatMap.mpr ⟨k, hk, List.mem_map_of_mem hc⟩, hname⟩, hhandler⟩

/-- The handler that is found is that of a feature's command, and while the node is started each of
them is found. -/
theorem Wired.find_handler (hm : m.Wired) (n : Text) (h : Handler) :
    ((m.commands.find n).map (·.handler) = some h → m.HasCommand n h) ∧
      (m.features.started = true → m.HasCommand n h →
        (m.commands.find n).map (·.handler) = some h) := by
  obtain ⟨done, hdone, hstarted, hcommands, -⟩ := hm.tables
  have hfind : (m.commands.find n).map (·.handler) = some h ↔
      ∃ k ∈ done, ∃ c ∈ k.commands, lower c.1 = lower n ∧ c.2.1 = h := by
    rw [Option.map_eq_some_iff, ← exists_entry_iff, ← hcommands]
    exact exists_congr (fun e => and_congr_left (fun _ => CommandRegistry.find_eq_some_iff hm.fit))
  constructor
  · intro h
    obtain ⟨k, hk, hc⟩ := hfind.mp h
    exact ⟨k, hdone.subset hk, hc⟩
  · intro hs hc
    rw [hfind, hstarted hs]
    exact hc

/-- What a request to a started node comes to: the handler of its command, or an error. -/
theorem Wired.dispatch_eq (hm : m.Wired) (hstarted : m.features.started = true) {σ : Type}
    (call : HandlerCall Handler σ) {line : Option Text} {req : Request}
    (hparse : Parser.parse line = (.ok, req)) (haddr : m.dispatcher.isAddressedToUs req = true)
    (reply : ReplyBuffer) (w : σ) :
    (∀ h, m.HasCommand req.command h → m.dispatcher.dispatch call line reply w =
      let r := call h req ReplyBuffer.init.clear w
      ⟨true, Dispatcher.writePrefixed reply.clear req (Dispatcher.fillBody r.1.1 r.1.2).cstr,
        some req, r.2⟩) ∧
    ((∀ h, ¬ m.HasCommand req.command h) → m.dispatcher.dispatch call line reply w =
      ⟨true, Dispatcher.writePrefixed reply.clear req "err unknown_command".toList, some req, w⟩) := by
  constructor
  · intro h hcommand
    obtain ⟨e, hfind, rfl⟩ :=
      Option.map_eq_some_iff.mp ((hm.find_handler req.command h).2 hstarted hcommand)
    change m.dispatcher.registry.find req.command = some e at hfind
    simp only [Dispatcher.dispatch, hparse, haddr, if_true, hfind]
  · intro hnone
    have hfind : m.dispatcher.registry.find req.command = none := by
      rw [Option.eq_none_iff_forall_not_mem]
      intro e he
      exact hnone e.handler ((hm.find_handler req.command e.handler).1 (congrArg (Option.map _) he))
    simp only [Dispatcher.dispatch, hparse, haddr, if_true, hfind]

/-- However a node was set up, it has no handler but those of its features, and while it is started
it lists their commands and capabilities, each once and in their order, and answers a request by the
handler of the command or says that it has none. -/
theorem setUp_answers (hfresh : m₀.Fresh) (calls : List SetupCall) :
    let m := calls.foldl SetupCall.run m₀
    (∀ n h, (m.commands.find n).map (·.handler) = some h → m.HasCommand n h) ∧
    (m.features.started = true →
      m.commands.entries = m.features.features.flatMap FeatureKind.entries ∧
      m.capabilities.names = m.features.features.filterMap FeatureKind.capability ∧
      ∀ {σ : Type} (call : HandlerCall Handler σ) {line : Option Text} {req : Request},
        Parser.parse line = (.ok, req) → m.dispatcher.isAddressedToUs req = true →
        ∀ (reply : ReplyBuffer) (w : σ),
          (∀ h, m.HasCommand req.command h → m.dispatcher.dispatch call line reply w =
            let r := call h req ReplyBuffer.init.clear w
            ⟨true, Dispatcher.writePrefixed reply.clear req (Dispatcher.fillBody r.1.1 r.1.2).cstr,
              some req, r.2⟩) ∧
          ((∀ h, ¬ m.HasCommand req.command h) → m.dispatcher.dispatch call line reply w =
            ⟨true, Dispatcher.writePrefixed reply.clear req "err unknown_command".toList,
              some req, w⟩)) := by
  intro m
  have hm : m.Wired := hfresh.wired.run calls
  refine ⟨fun n h => (hm.find_handler n h).1, fun hstarted => ?_⟩
  obtain ⟨done, -, hdone, hcommands, hcapabilities⟩ := hm.tables
  rw [hdone hstarted] at hcommands hcapabilities
  refine ⟨hcommands, hcapabilities, ?_⟩
  intro σ call line req hparse haddr reply w
  exact hm.dispatch_eq hstarted call hparse haddr reply w

def allAsked (command : Text) : Request :=
  { addressKind := .all, target := "all".toList, command := command }

/-- A feature that comes late, and a command that no feature has. -/
theorem setUp_answers_late :
    let m := [SetupCall.add (some .core), .begin, .add (some .gps), .shutdown, .add (some .gps),
      .begin].foldl SetupCall.run {}
    m.capabilities.names = ["gps".toList] ∧
      (m.dispatcher.dispatch (fun h _ reply w => ((true, reply), h :: w)) (some "all Track".toList)
        .init []).world = [.cmdTrack] ∧
      (m.dispatcher.dispatch (fun h _ reply w => ((true, reply), h :: w)) (some "all led".toList)
        .init []).world = [] := by
  intro m
  obtain ⟨-, hstarted⟩ := setUp_answers (show Fresh {} from ⟨rfl, rfl, rfl⟩)
    [SetupCall.add (some .core), .begin, .add (some .gps), .shutdown, .add (some .gps), .begin]
  obtain ⟨-, hcapabilities, hdispatch⟩ := hstarted rfl
  have htrack : Parser.parse (some "all Track".toList) = (.ok, allAsked "track".toList) := by decide
  have hled : Parser.parse (some "all led".toList) = (.ok, allAsked "led".toList) := by decide
  refine ⟨hcapabilities, ?_, ?_⟩
  · rw [(hdispatch _ htrack rfl .init []).1 .cmdTrack ⟨.gps, by decide, ("track".toList, .cmdTrack,
      "request/track fix".toList), by decide, rfl, rfl⟩]
  · have hnone (h : Handler) : ¬ m.HasCommand "led".toList h := by
      rintro ⟨k, hk, c, hc, hname, -⟩
      have hall : m.features.features.all (fun k => k.commands.all
          (fun c => lower c.1 ≠ lower "led".toList)) = true := by decide
      exact of_decide_eq_true (List.all_eq_true.mp (List.all_eq_true.mp hall k hk) c hc) hname
    rw [(hdispatch _ hled rfl .init []).2 hnone]

end McRpc

end Mcrpc
