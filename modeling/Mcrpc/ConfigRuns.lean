import Mcrpc.Config
import Mcrpc.Lib.Unwinding

/-!
# Runs of a configuration

Any sequence of operations on a `Config` over any stores. Its strings stay terminated exactly in the
runs whose accepted records are terminated; over stores that keep one record faithfully, what is
saved is what a later `begin` finds.
-/

namespace Mcrpc

/-- The operations; `none` is a null pointer. -/
inductive ConfigOp (ι : Type*)
  | setDefaults (nodeName profile channelName pskAscii16 : Option Text)
  | setNodeName (name : Option Text)
  | setChannelName (name : Option Text)
  | setChannelPskAscii (psk16 : Option Text)
  | setChannelPskHex (pskHex32 : Option Text)
  | setListenEnabled (on : Bool)
  | begin (store : Option ι)
  | load
  | save

namespace ConfigOp

variable {ι S : Type*}

/-- The operation and what it returns, `none` for void. -/
def run (stores : ι → ConfigStore S) (s : Config ι × S) : ConfigOp ι → (Config ι × S) × Option Bool
  | setDefaults nodeName profile channelName psk =>
    ((s.1.setDefaults nodeName profile channelName psk, s.2), none)
  | setNodeName name => ((s.1.setNodeName name, s.2), none)
  | setChannelName name => ((s.1.setChannelName name, s.2), none)
  | setChannelPskAscii psk => ((s.1.setChannelPskAscii psk, s.2), none)
  | setChannelPskHex psk =>
    let r := s.1.setChannelPskHex psk
    ((r.2, s.2), some r.1)
  | setListenEnabled on => ((s.1.setListenEnabled on, s.2), none)
  | begin store =>
    let r := s.1.begin stores store s.2
    ((r.1.2, r.2), some r.1.1)
  | load =>
    let r := s.1.load stores s.2
    ((r.1.2, r.2), some r.1.1)
  | save =>
    let r := s.1.save stores s.2
    ((r.1.2, r.2), some r.1.1)

def source (c : Config ι) : ConfigOp ι → Option ι
  | begin store => store
  | load => c.store
  | _ => none

end ConfigOp

variable {ι S : Type*}

/-- The record `load` takes over, with the magic and the version it asks for. -/
def ConfigStore.accepted (st : ConfigStore S) (w : S) : Option ConfigPrefs :=
  (st.load w).1.filter (fun r => r.magic = cfgMagic ∧ r.version = cfgVersion)

def ConfigPrefs.stamped (p : ConfigPrefs) : ConfigPrefs :=
  { p with magic := cfgMagic, version := cfgVersion }

namespace Config

variable (c : Config ι) (stores : ι → ConfigStore S) (w : S)

def found : Option ConfigPrefs := c.store.bind (fun i => (stores i).accepted w)

variable {c stores w}

theorem load_of_found {r : ConfigPrefs} (h : c.found stores w = some r) :
    (c.load stores w).1 = (true, { c with prefs := r }) := by
  obtain ⟨i, hi, haccepted⟩ := Option.bind_eq_some_iff.mp h
  obtain ⟨hload, hheader⟩ := Option.filter_eq_some_iff.mp haccepted
  obtain ⟨hmagic, hversion⟩ := of_decide_eq_true hheader
  rw [load, hi]
  simp only [hload]
  rw [if_neg (not_not.mpr hmagic), if_neg (not_not.mpr hversion)]

/-- Without one nothing changes. -/
theorem load_of_not_found (h : c.found stores w = none) : (c.load stores w).1 = (false, c) := by
  cases hi : c.store with
  | none => rw [load, hi]
  | some i =>
    have haccepted : (stores i).accepted w = none := by
      rw [found, hi] at h
      exact h
    rw [load, hi]
    cases hload : ((stores i).load w).1 with
    | none => simp only [hload]
    | some tmp =>
      rw [ConfigStore.accepted, hload, Option.filter_eq_none_iff] at haccepted
      have hheader := haccepted tmp rfl
      rw [decide_eq_true_eq, not_and] at hheader
      simp only [hload]
      split_ifs with hmagic hversion
      · rfl
      · rfl
      · exact absurd (not_not.mp hversion) (hheader (not_not.mp hmagic))

theorem load_world {i : ι} (hi : c.store = some i) :
    (c.load stores w).2 = ((stores i).load w).2 := by
  rw [load, hi]
  dsimp only
  cases ((stores i).load w).1 with
  | none => rfl
  | some tmp =>
    dsimp only
    split_ifs <;> rfl

theorem save_of_store {i : ι} (hi : c.store = some i) : c.save stores w =
    ((((stores i).save c.prefs.stamped w).1, { c with prefs := c.prefs.stamped }),
      ((stores i).save c.prefs.stamped w).2) := by
  rw [save, hi]
  rfl

theorem save_of_no_store (hi : c.store = none) : c.save stores w = ((false, c), w) := by
  rw [save, hi]

theorem prefs_save : (c.save stores w).1.2.prefs = c.prefs ∨
    (c.save stores w).1.2.prefs = c.prefs.stamped := by
  cases hi : c.store with
  | none => exact .inl (by rw [save_of_no_store hi])
  | some i => exact .inr (by rw [save_of_store hi])

theorem begin_of_found {store : Option ι} {r : ConfigPrefs}
    (h : { c with store := store }.found stores w = some r) :
    c.begin stores store w =
      ((true, { prefs := r, store := store }), ({ c with store := store }.load stores w).2) := by
  rw [begin, load_of_found h]
  rfl

theorem begin_of_not_found {store : Option ι}
    (h : { c with store := store }.found stores w = none) :
    c.begin stores store w =
      { c with store := store }.save stores ({ c with store := store }.load stores w).2 := by
  rw [begin, load_of_not_found h]
  rfl

end Config

/-! ### Terminated strings -/

/-- Each string of the record has a NUL within its field. -/
structure ConfigPrefs.Terminated (p : ConfigPrefs) : Prop where
  nodeName : nul ∈ p.nodeName.1
  profile : nul ∈ p.profile.1
  channelName : nul ∈ p.channelName.1

/-- No accessor reads past the end of its field. -/
structure Config.ReadsInside (c : Config ι) : Prop where
  nodeName : c.nodeName.isSome = true
  profile : c.profile.isSome = true
  channelName : c.channelName.isSome = true

/-- Every record the operation would take over is terminated. -/
def ConfigOp.TakesTerminated (stores : ι → ConfigStore S) (s : Config ι × S) (op : ConfigOp ι) :
    Prop :=
  ∀ i, op.source s.1 = some i → ∀ r, ((stores i).load s.2).1 = some r → r.magic = cfgMagic →
    r.version = cfgVersion → r.Terminated

theorem Config.readsInside_iff {c : Config ι} : c.ReadsInside ↔ c.prefs.Terminated := by
  constructor
  · rintro ⟨hnode, hprofile, hchannel⟩
    exact ⟨CString.read_isSome_iff.mp hnode, CString.read_isSome_iff.mp hprofile,
      CString.read_isSome_iff.mp hchannel⟩
  · rintro ⟨hnode, hprofile, hchannel⟩
    exact ⟨CString.read_isSome_iff.mpr hnode, CString.read_isSome_iff.mpr hprofile,
      CString.read_isSome_iff.mpr hchannel⟩

theorem nul_mem_zero {n : ℕ} (h : 0 < n) : nul ∈ (CharField.zero n).1 :=
  List.mem_replicate.mpr ⟨Nat.ne_of_gt h, rfl⟩

/-- The bounded copy leaves a field terminated that has a place for the NUL. -/
theorem nul_mem_copyGiven {n : ℕ} {field : CharField n} (h : nul ∈ field.1) (x : Option Text) :
    nul ∈ (Config.copyGiven field x).1 := by
  cases x with
  | none => exact h
  | some x =>
    change nul ∈ copyLoop field.1 x
    rw [copyLoop_eq_put]
    exact CString.mem_put x (List.ne_nil_of_mem h)

theorem terminated_default : ConfigPrefs.Terminated {} :=
  ⟨nul_mem_zero (by decide), nul_mem_zero (by decide), nul_mem_zero (by decide)⟩

namespace Config

variable {c : Config ι} {stores : ι → ConfigStore S} {w : S}

theorem found_terminated_iff : (∀ r, c.found stores w = some r → r.Terminated) ↔
    ∀ i, c.store = some i → ∀ r, ((stores i).load w).1 = some r → r.magic = cfgMagic →
      r.version = cfgVersion → r.Terminated := by
  simp only [found, ConfigStore.accepted, Option.bind_eq_some_iff, Option.filter_eq_some_iff,
    decide_eq_true_eq]
  constructor
  · intro h i hi r hr hmagic hversion
    exact h r ⟨i, hi, hr, hmagic, hversion⟩
  · rintro h r ⟨i, hi, hr, hmagic, hversion⟩
    exact h i hi r hr hmagic hversion

/-- A load keeps the strings terminated exactly when the record it finds is terminated. -/
theorem terminated_load_iff (h : c.prefs.Terminated) :
    (c.load stores w).1.2.prefs.Terminated ↔ ∀ r, c.found stores w = some r → r.Terminated := by
  cases hfound : c.found stores w with
  | none =>
    rw [load_of_not_found hfound]
    exact iff_of_true h (fun r hr => by cases hr)
  | some r =>
    rw [load_of_found hfound]
    exact ⟨fun hr r' heq => Option.some.inj heq ▸ hr, fun hr => hr r rfl⟩

theorem terminated_save (h : c.prefs.Terminated) : (c.save stores w).1.2.prefs.Terminated := by
  obtain hsave | hsave :
      (c.save stores w).1.2.prefs = c.prefs ∨ (c.save stores w).1.2.prefs = c.prefs.stamped :=
    prefs_save
  · rw [hsave]
    exact h
  · rw [hsave]
    exact ⟨h.nodeName, h.profile, h.channelName⟩

theorem terminated_begin_iff (h : c.prefs.Terminated) (store : Option ι) :
    (c.begin stores store w).1.2.prefs.Terminated ↔
      ∀ r, { c with store := store }.found stores w = some r → r.Terminated := by
  cases hfound : { c with store := store }.found stores w with
  | none =>
    rw [begin_of_not_found hfound]
    exact iff_of_true (terminated_save h) (fun r hr => by cases hr)
  | some r =>
    rw [begin_of_found hfound]
    exact ⟨fun hr r' heq => Option.some.inj heq ▸ hr, fun hr => hr r rfl⟩

end Config

/-- One operation keeps the strings terminated exactly when what it takes over is terminated. -/
theorem ConfigOp.terminated_run_iff (stores : ι → ConfigStore S) (s : Config ι × S)
    (op : ConfigOp ι) (h : s.1.prefs.Terminated) :
    (run stores s op).1.1.prefs.Terminated ↔ op.TakesTerminated stores s := by
  have hsetter (hsource : op.source s.1 = none)
      (hkeep : (run stores s op).1.1.prefs.Terminated) :
      (run stores s op).1.1.prefs.Terminated ↔ op.TakesTerminated stores s :=
    iff_of_true hkeep (fun i hi => by rw [hsource] at hi; cases hi)
  cases op with
  | setDefaults nodeName profile channelName psk =>
    exact hsetter rfl ⟨nul_mem_copyGiven (nul_mem_zero (by decide)) nodeName,
      nul_mem_copyGiven (nul_mem_zero (by decide)) profile,
      nul_mem_copyGiven (nul_mem_zero (by decide)) channelName⟩
  | setNodeName name =>
    exact hsetter rfl ⟨nul_mem_copyGiven h.nodeName name, h.profile, h.channelName⟩
  | setChannelName name =>
    exact hsetter rfl ⟨h.nodeName, h.profile, nul_mem_copyGiven h.channelName name⟩
  | setChannelPskAscii psk => exact hsetter rfl ⟨h.nodeName, h.profile, h.channelName⟩
  | setChannelPskHex psk =>
    refine hsetter rfl ?_
    cases psk with
    | none => exact ⟨h.nodeName, h.profile, h.channelName⟩
    | some digits =>
      change (s.1.setChannelPskHex (some digits)).2.prefs.Terminated
      rw [Config.setChannelPskHex]
      dsimp only
      split <;> exact ⟨h.nodeName, h.profile, h.channelName⟩
  | setListenEnabled on => exact hsetter rfl ⟨h.nodeName, h.profile, h.channelName⟩
  | begin store =>
    exact (Config.terminated_begin_iff h store).trans Config.found_terminated_iff
  | load => exact (Config.terminated_load_iff h).trans Config.found_terminated_iff
  | save => exact hsetter rfl (Config.terminated_save h)

/-- The strings of a fresh configuration stay terminated in the runs that only take over records
whose strings are terminated, and in no others. -/
theorem readsInside_run_iff (stores : ι → ConfigStore S) (w : S) (ops : List (ConfigOp ι)) :
    (∀ done, done <+: ops →
      (finalState (ConfigOp.run stores) (({} : Config ι), w) done).1.ReadsInside) ↔
    EveryStep (ConfigOp.run stores) (fun s op => op.TakesTerminated stores s) ({}, w) ops := by
  simp only [Config.readsInside_iff]
  exact forall_prefix_iff_everyStep (fun s op => ConfigOp.terminated_run_iff stores s op)
    terminated_default ops

def fullNameStore : ConfigStore Unit where
  load _ := (some {
    magic := cfgMagic
    version := cfgVersion
    nodeName := List.Vector.replicate nodeNameMax 'A' }, ())
  save _ _ := (true, ())

theorem fullName_read_past :
    ¬ (finalState (ConfigOp.run (fun _ => fullNameStore)) (({} : Config Unit), ())
      [.begin (some ())]).1.ReadsInside :=
  fun h => absurd h.nodeName (by decide)

/-! ### Persistence -/

/-- A store that holds at most one record: `load` returns it and fails without one, `save` replaces
it or fails and leaves it. -/
structure ConfigStore.Faithful (st : ConfigStore S) (record : S → Option ConfigPrefs) : Prop where
  load : ∀ w, (st.load w).1 = record w
  load_keeps : ∀ w, record (st.load w).2 = record w
  save : ∀ p w, (st.save p w).1 = true → record (st.save p w).2 = some p
  save_keeps : ∀ p w, (st.save p w).1 = false → record (st.save p w).2 = record w

def ConfigPrefs.Valid (p : ConfigPrefs) : Prop := p.magic = cfgMagic ∧ p.version = cfgVersion

namespace ConfigStore.Faithful

variable {st : ConfigStore S} {record : S → Option ConfigPrefs}

theorem accepted_eq_some_iff (h : st.Faithful record) {w : S} {r : ConfigPrefs} :
    st.accepted w = some r ↔ record w = some r ∧ r.Valid := by
  rw [accepted, h.load, Option.filter_eq_some_iff, decide_eq_true_eq]
  rfl

end ConfigStore.Faithful

namespace Config

variable {stores : ι → ConfigStore S} {record : ι → S → Option ConfigPrefs}

theorem found_eq_some_iff (h : ∀ i, (stores i).Faithful (record i)) {c : Config ι} {w : S}
    {r : ConfigPrefs} : c.found stores w = some r ↔
      ∃ i, c.store = some i ∧ record i w = some r ∧ r.Valid := by
  rw [found, Option.bind_eq_some_iff]
  exact exists_congr (fun i => and_congr_right (fun _ => (h i).accepted_eq_some_iff))

theorem record_save (h : ∀ i, (stores i).Faithful (record i)) {c : Config ι} {w : S}
    (hok : (c.save stores w).1.1 = true) : ∃ i, c.store = some i ∧
      (c.save stores w).1.2 = { c with prefs := c.prefs.stamped } ∧
      record i (c.save stores w).2 = some c.prefs.stamped := by
  cases hi : c.store with
  | none =>
    rw [save_of_no_store hi] at hok
    cases hok
  | some i =>
    rw [save_of_store hi] at hok ⊢
    refine ⟨i, rfl, ?_, (h i).save _ w hok⟩
    rw [← hi]

end Config

/-- What holds between the preferences in memory and the record in the store, in the state `s`. -/
structure Persists (stores : ι → ConfigStore S) (record : ι → S → Option ConfigPrefs)
    (s : Config ι × S) : Prop where
  load_fails_iff : (s.1.load stores s.2).1.1 = false ↔
    ∀ i, s.1.store = some i → ∀ r, record i s.2 = some r → ¬ r.Valid
  load_fails : (s.1.load stores s.2).1.1 = false → (s.1.load stores s.2).1.2.prefs = s.1.prefs
  begun : ∀ store, (s.1.begin stores store s.2).1.1 = true → ∃ i, store = some i ∧
    record i (s.1.begin stores store s.2).2 = some (s.1.begin stores store s.2).1.2.prefs ∧
    (s.1.begin stores store s.2).1.2.prefs.Valid
  saved : (s.1.save stores s.2).1.1 = true → ∃ i, s.1.store = some i ∧
    (s.1.save stores s.2).1.2.prefs = s.1.prefs.stamped ∧ ∀ fresh : Config ι,
      (fresh.begin stores (some i) (s.1.save stores s.2).2).1.1 = true ∧
      (fresh.begin stores (some i) (s.1.save stores s.2).2).1.2.prefs =
        (s.1.save stores s.2).1.2.prefs

/-- The properties need nothing of the state but that the stores are faithful. -/
theorem persists_of_faithful {stores : ι → ConfigStore S} {record : ι → S → Option ConfigPrefs}
    (h : ∀ i, (stores i).Faithful (record i)) (s : Config ι × S) : Persists stores record s where
  load_fails_iff := by
    cases hfound : s.1.found stores s.2 with
    | none =>
      rw [Config.load_of_not_found hfound]
      refine iff_of_true rfl (fun i hi r hr hvalid => ?_)
      rw [(Config.found_eq_some_iff h).mpr ⟨i, hi, hr, hvalid⟩] at hfound
      cases hfound
    | some r =>
      obtain ⟨i, hi, hr, hvalid⟩ := (Config.found_eq_some_iff h).mp hfound
      rw [Config.load_of_found hfound]
      exact iff_of_false Bool.noConfusion (fun hnone => hnone i hi r hr hvalid)
  load_fails hfails := by
    cases hfound : s.1.found stores s.2 with
    | none => rw [Config.load_of_not_found hfound]
    | some r =>
      rw [Config.load_of_found hfound] at hfails
      cases hfails
  begun store hok := by
    cases hfound : ({ s.1 with store := store } : Config ι).found stores s.2 with
    | none =>
      rw [Config.begin_of_not_found hfound] at hok ⊢
      obtain ⟨i, hi, hprefs, hrecord⟩ := Config.record_save h hok
      rw [hprefs]
      exact ⟨i, hi, hrecord, rfl, rfl⟩
    | some r =>
      obtain ⟨i, hi, hr, hvalid⟩ := (Config.found_eq_some_iff h).mp hfound
      rw [Config.begin_of_found hfound]
      refine ⟨i, hi, ?_, hvalid⟩
      rw [Config.load_world hi, (h i).load_keeps]
      exact hr
  saved hok := by
    obtain ⟨i, hi, hprefs, hrecord⟩ := Config.record_save h hok
    refine ⟨i, hi, by rw [hprefs], fun fresh => ?_⟩
    have hfound : ({ fresh with store := some i } : Config ι).found stores
        (s.1.save stores s.2).2 = some s.1.prefs.stamped :=
      (Config.found_eq_some_iff h).mpr ⟨i, rfl, hrecord, rfl, rfl⟩
    rw [Config.begin_of_found hfound, hprefs]
    exact ⟨rfl, rfl⟩

/-- In every state of every run over faithful stores, whatever they hold at first. -/
theorem config_persists {stores : ι → ConfigStore S} {record : ι → S → Option ConfigPrefs}
    (h : ∀ i, (stores i).Faithful (record i)) (w : S) (ops : List (ConfigOp ι)) :
    Persists stores record (finalState (ConfigOp.run stores) (({} : Config ι), w) ops) :=
  persists_of_faithful h _

def memoryStore : ConfigStore (Option ConfigPrefs) where
  load w := (w, w)
  save p _ := (true, some p)

theorem memoryStore_faithful : memoryStore.Faithful id where
  load _ := rfl
  load_keeps _ := rfl
  save _ _ _ := rfl
  save_keeps _ _ h := by cases h

theorem config_persists_memory : Persists (fun _ : Unit => memoryStore) (fun _ => id)
    (finalState (ConfigOp.run (fun _ : Unit => memoryStore)) (({} : Config Unit), none)
      [.setDefaults (some "node".toList) none none none, .begin (some ()),
        .setListenEnabled false]) :=
  config_persists (fun _ => memoryStore_faithful) none _

end Mcrpc
