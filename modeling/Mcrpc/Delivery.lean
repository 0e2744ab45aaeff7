import Mcrpc.Correlator

/-!
# What a correlator hands out

The calls of a correlator with a ledger beside it: the requests that were built and those that
`take`, `classify_inbound` and `expire` handed out. In a run that uses every id once and makes no
broadcast the table holds the requests that were built and not handed out, so none is handed out
twice.
-/

namespace Mcrpc

structure Ledger (V T : Type) where
  correlator : RequestCorrelator V T
  built : List (PendingRequest V T) := []
  delivered : List (PendingRequest V T) := []

inductive ClientCall (V T : Type)
  | build (a : BuildCall V T) (now : T)
  | nextRequestId
  | take (requestId : Option ℤ)
  | peek (requestId : Option ℤ)
  | classifyInbound (rawMessage : Text) (consume : Bool)
  | expire (now : T)

namespace RequestCorrelator

variable {F V T : Type}

def builtBy (r : Except PyError (Text × PendingRequest V T)) : List (PendingRequest V T) :=
  match r with
  | .ok (_, p) => [p]
  | .error _ => []

theorem Keyed.nodup_ids {c : RequestCorrelator V T} (h : c.Keyed) :
    (c.pending.values.map PendingRequest.requestId).Nodup := by
  have hkeys : c.pending.values.map PendingRequest.requestId = c.pending.entries.map Prod.fst := by
    rw [Dict.values, List.map_map]
    exact List.map_congr_left (fun e he => h e.1 e.2 (Dict.mem_entries_iff.mp he))
  rw [hkeys]
  exact c.pending.nodup

theorem pending_of_build_error [Add T] {c : RequestCorrelator V T} {a : BuildCall V T} {now : T}
    {e : PyError} (h : (c.build a now).1 = .error e) : (c.build a now).2.pending = c.pending := by
  rw [build] at h ⊢
  dsimp only at h ⊢
  split at h
  · exact c.pending_chooseId a.requestId
  · cases h

variable [Truthy V] (c : RequestCorrelator V T) (py : Python F)

theorem classifyInbound_spec (raw : Text) (consume : Bool) :
    (∃ e, c.classifyInbound py raw consume = (.error e, c)) ∨
    (∃ i, c.classifyInbound py raw consume = (.ok i, c) ∧ i.kind ≠ .response ∧
      i.pending = none) ∨
    ∃ resp, c.classifyInbound py raw consume =
      (.ok (c.matchResponse resp consume).1, (c.matchResponse resp consume).2) := by
  simp only [classifyInbound]
  split
  · exact .inr (.inl ⟨_, rfl, InboundKind.noConfusion, rfl⟩)
  · split
    · exact .inl ⟨_, rfl⟩
    · exact .inr (.inl ⟨_, rfl, InboundKind.noConfusion, rfl⟩)
    · split
      · exact .inl ⟨_, rfl⟩
      · exact .inr (.inr ⟨_, rfl⟩)

theorem matchResponse_spec (resp : ParsedResponse F) (consume : Bool) :
    c.matchResponse resp consume = ({ kind := .response, response := some resp }, c) ∨
    ∃ n p, resp.requestId = some n ∧ c.pending.get n = some p ∧
      c.matchResponse resp consume =
        ({ kind := .response, response := some resp, pending := some p },
          if consume && !p.isBroadcast then { c with pending := c.pending.erase n } else c) := by
  cases hpeek : c.peek resp.requestId with
  | none => exact .inl (c.matchResponse_of_peek hpeek consume)
  | some p =>
    obtain ⟨n, hn, hget⟩ := Option.bind_eq_some_iff.mp hpeek
    refine .inr ⟨n, p, hn, hget, ?_⟩
    simp only [matchResponse, hn, peek, Option.bind_some, hget, take]
    split <;> rfl

end RequestCorrelator

namespace Ledger

variable {F V T : Type} [Truthy V]

section Calls

variable [Add T] [LE T] [DecidableLE T] (py : Python F)

/-- The ledger after the call, and the requests the call handed out. A message that is not consumed
is not handed out. -/
def step (l : Ledger V T) : ClientCall V T → Ledger V T × List (PendingRequest V T)
  | .build a now =>
    let r := l.correlator.build a now
    ({ l with correlator := r.2, built := l.built ++ RequestCorrelator.builtBy r.1 }, [])
  | .nextRequestId => ({ l with correlator := l.correlator.nextRequestId.2 }, [])
  | .take n =>
    let r := l.correlator.take n
    ({ l with correlator := r.2, delivered := l.delivered ++ r.1.toList }, r.1.toList)
  | .peek _ => (l, [])
  | .classifyInbound raw consume =>
    let r := l.correlator.classifyInbound py raw consume
    let out := if consume then RequestCorrelator.returnedPending r.1 else []
    ({ l with correlator := r.2, delivered := l.delivered ++ out }, out)
  | .expire now =>
    let r := l.correlator.expire now
    ({ l with correlator := r.2, delivered := l.delivered ++ r.1 }, r.1)

def BuildsNew (l : Ledger V T) : ClientCall V T → Prop
  | .build a _ => a.Writable (l.correlator.chooseId a.requestId).1 →
    (l.correlator.chooseId a.requestId).1 ∉ l.built.map PendingRequest.requestId ∧
      (a.metadata.get "broadcast".toList).any Truthy.truthy = false
  | _ => True

end Calls

structure Valid (l : Ledger V T) : Prop where
  pending : ∀ n p, l.correlator.pending.get n = some p ↔
    p ∈ l.built ∧ p.requestId = n ∧ p ∉ l.delivered
  ids : (l.built.map PendingRequest.requestId).Nodup
  built : ∀ p ∈ l.delivered, p ∈ l.built
  once : (l.delivered.map PendingRequest.requestId).Nodup
  quiet : ∀ p ∈ l.built, p.isBroadcast = false

namespace Valid

variable {l : Ledger V T}

theorem keyed (h : l.Valid) : l.correlator.Keyed := fun n p hn => ((h.pending n p).mp hn).2.1

theorem mem_values_iff (h : l.Valid) {p : PendingRequest V T} :
    p ∈ l.correlator.pending.values ↔ p ∈ l.built ∧ p ∉ l.delivered := by
  rw [Dict.mem_values_iff]
  constructor
  · rintro ⟨n, hn⟩
    obtain ⟨hbuilt, -, hnew⟩ := (h.pending n p).mp hn
    exact ⟨hbuilt, hnew⟩
  · rintro ⟨hbuilt, hnew⟩
    exact ⟨p.requestId, (h.pending p.requestId p).mpr ⟨hbuilt, rfl, hnew⟩⟩

theorem eq_of_requestId_eq (h : l.Valid) {p q : PendingRequest V T} (hp : p ∈ l.built)
    (hq : q ∈ l.built) (hid : p.requestId = q.requestId) : p = q :=
  List.inj_on_of_nodup_map h.ids hp hq hid

theorem handOut (h : l.Valid) {out : List (PendingRequest V T)} {c : RequestCorrelator V T}
    (hlive : ∀ p ∈ out, p ∈ l.correlator.pending.values)
    (hids : (out.map PendingRequest.requestId).Nodup)
    (hrest : ∀ n p, c.pending.get n = some p ↔ l.correlator.pending.get n = some p ∧ p ∉ out) :
    Valid { l with correlator := c, delivered := l.delivered ++ out } where
  pending n p := by
    rw [hrest, h.pending, List.mem_append, not_or, and_assoc, and_assoc]
  ids := h.ids
  built := List.forall_mem_append.mpr ⟨h.built, fun p hp => (h.mem_values_iff.mp (hlive p hp)).1⟩
  once := by
    rw [List.map_append]
    refine List.nodup_append.mpr ⟨h.once, hids, ?_⟩
    intro a ha b hb hab
    obtain ⟨p, hp, rfl⟩ := List.mem_map.mp ha
    obtain ⟨q, hq, rfl⟩ := List.mem_map.mp hb
    obtain ⟨hqbuilt, hqnew⟩ := h.mem_values_iff.mp (hlive q hq)
    obtain rfl := h.eq_of_requestId_eq (h.built p hp) hqbuilt hab
    exact hqnew hp
  quiet := h.quiet

theorem handOut_get (h : l.Valid) {n : ℤ} {p : PendingRequest V T}
    (hget : l.correlator.pending.get n = some p) : Valid { l with
      correlator := { l.correlator with pending := l.correlator.pending.erase n }
      delivered := l.delivered ++ [p] } := by
  apply h.handOut
  · rw [List.forall_mem_singleton]
    exact Dict.mem_values_iff.mpr ⟨n, hget⟩
  · exact List.nodup_singleton _
  · intro m q
    by_cases hm : m = n
    · rw [hm, Dict.get_erase_self, hget]
      refine iff_of_false (Option.some_ne_none q).symm ?_
      rintro ⟨hq, hnew⟩
      exact hnew (List.mem_singleton.mpr (Option.some.inj hq).symm)
    · rw [Dict.get_erase_of_ne _ hm, iff_self_and]
      intro hq hmem
      rw [List.mem_singleton.mp hmem] at hq
      exact hm ((h.keyed m p hq).symm.trans (h.keyed n p hget))

theorem handOut_nil (h : l.Valid) {c : RequestCorrelator V T}
    (hsame : c.pending = l.correlator.pending) :
    Valid { l with correlator := c, delivered := l.delivered ++ [] } := by
  apply h.handOut
  · exact fun _ hp => absurd hp List.not_mem_nil
  · exact List.nodup_nil
  · intro n p
    rw [hsame, iff_self_and]
    exact fun _ => List.not_mem_nil

end Valid
/-- A message that cannot be the reply to a request: it raises, it is no response, or it carries no
id. -/
def Unmatchable (r : Except PyError (Inbound F V T)) : Prop :=
  ∀ i, r = .ok i → i.kind ≠ .response ∨ ∀ resp ∈ i.response, resp.requestId = none

def carriedId (r : Except PyError (Inbound F V T)) : Option ℤ :=
  match r with
  | .ok i => i.response.bind ParsedResponse.requestId
  | .error _ => none

section Classify

variable {l : Ledger V T} (py : Python F) (raw : Text) (consume : Bool)

theorem carriedId_of_mem_returnedPending {p : PendingRequest V T} (h : l.Valid)
    (hp : p ∈ RequestCorrelator.returnedPending
      (l.correlator.classifyInbound py raw consume).1) :
    carriedId (l.correlator.classifyInbound py raw consume).1 = some p.requestId := by
  rcases l.correlator.classifyInbound_spec py raw consume with ⟨e, he⟩ | ⟨i, hi, -, hnone⟩ |
    ⟨resp, hresp⟩
  · rw [he] at hp
    cases hp
  · rw [hi, RequestCorrelator.returnedPending, hnone] at hp
    cases hp
  · rw [hresp] at hp ⊢
    rcases l.correlator.matchResponse_spec resp consume with hmatch | ⟨n, q, hn, hget, hmatch⟩
    · rw [hmatch] at hp
      cases hp
    · rw [hmatch] at hp ⊢
      rw [List.mem_singleton.mp hp, h.keyed n q hget]
      exact hn

theorem correlator_of_unmatchable
    (h : consume = false ∨ Unmatchable (l.correlator.classifyInbound py raw consume).1) :
    (l.correlator.classifyInbound py raw consume).2 = l.correlator := by
  rcases l.correlator.classifyInbound_spec py raw consume with ⟨e, he⟩ | ⟨i, hi, -, -⟩ |
    ⟨resp, hresp⟩
  · rw [he]
  · rw [hi]
  · rw [hresp] at h ⊢
    rcases l.correlator.matchResponse_spec resp consume with hmatch | ⟨n, q, hn, hget, hmatch⟩
    · rw [hmatch]
    · rw [hmatch] at h ⊢
      rcases h with rfl | h
      · rfl
      · rcases h _ rfl with hkind | hnone
        · exact absurd rfl hkind
        · exact absurd ((hnone resp rfl).symm.trans hn) (Option.some_ne_none n).symm

/-- A consumed message hands out an entry and takes it from the table, or does neither. -/
theorem Valid.classifyInbound (h : l.Valid) : Valid { l with
    correlator := (l.correlator.classifyInbound py raw consume).2
    delivered := l.delivered ++ if consume then RequestCorrelator.returnedPending
      (l.correlator.classifyInbound py raw consume).1 else [] } := by
  cases hconsume : consume with
  | false =>
    have hsame := correlator_of_unmatchable py raw false (l := l) (.inl rfl)
    rw [hsame]
    exact h.handOut_nil rfl
  | true =>
    simp only [if_true]
    rcases l.correlator.classifyInbound_spec py raw true with ⟨e, he⟩ | ⟨i, hi, -, hnone⟩ |
      ⟨resp, hresp⟩
    · rw [he]
      exact h.handOut_nil rfl
    · rw [hi, RequestCorrelator.returnedPending, hnone]
      exact h.handOut_nil rfl
    · rw [hresp]
      rcases l.correlator.matchResponse_spec resp true with hmatch | ⟨n, q, hn, hget, hmatch⟩
      · rw [hmatch]
        exact h.handOut_nil rfl
      · have hquiet := h.quiet q ((h.pending n q).mp hget).1
        rw [hmatch, hquiet]
        exact h.handOut_get hget

end Classify
theorem Valid.take {l : Ledger V T} (h : l.Valid) (n : Option ℤ) : Valid { l with
    correlator := (l.correlator.take n).2
    delivered := l.delivered ++ (l.correlator.take n).1.toList } := by
  cases n with
  | none => exact h.handOut_nil rfl
  | some n =>
    cases hget : l.correlator.pending.get n with
    | some p =>
      simp only [RequestCorrelator.take, hget]
      exact h.handOut_get hget
    | none =>
      simp only [RequestCorrelator.take, hget]
      apply h.handOut
      · exact fun _ hp => absurd hp List.not_mem_nil
      · exact List.nodup_nil
      · intro m q
        by_cases hm : m = n
        · rw [hm, Dict.get_erase_self, hget]
          refine iff_of_false (Option.some_ne_none q).symm (fun hq => ?_)
          exact Option.some_ne_none q hq.1.symm
        · rw [Dict.get_erase_of_ne _ hm]
          exact (and_iff_left List.not_mem_nil).symm

section Expire

variable [LE T] [DecidableLE T]

theorem Valid.expire {l : Ledger V T} (h : l.Valid) (now : T) : Valid { l with
    correlator := (l.correlator.expire now).2
    delivered := l.delivered ++ (l.correlator.expire now).1 } := by
  have hsub : ∀ p ∈ l.correlator.expired now, p ∈ l.correlator.pending.values :=
    fun p hp => (List.mem_filter.mp hp).1
  apply h.handOut
  · exact hsub
  · exact h.keyed.nodup_ids.sublist (List.filter_sublist.map _)
  · intro n p
    rw [RequestCorrelator.get_expire]
    have hmem (hget : l.correlator.pending.get n = some p) :
        n ∈ (l.correlator.expired now).map PendingRequest.requestId ↔
          p ∈ (l.correlator.expire now).1 := by
      rw [← h.keyed n p hget]
      constructor
      · intro hid
        obtain ⟨q, hq, hsame⟩ := List.mem_map.mp hid
        obtain rfl := h.eq_of_requestId_eq (h.mem_values_iff.mp (hsub q hq)).1
          ((h.pending n p).mp hget).1 hsame
        exact hq
      · exact List.mem_map_of_mem
    split
    · next hid =>
      refine iff_of_false (Option.some_ne_none p).symm ?_
      rintro ⟨hget, hnew⟩
      exact hnew ((hmem hget).mp hid)
    · next hid =>
      rw [iff_self_and]
      exact fun hget hp => hid ((hmem hget).mpr hp)

/-- What expires was built, is due and was not handed out. -/
theorem Valid.mem_expire_iff {l : Ledger V T} (h : l.Valid) (now : T) (p : PendingRequest V T) :
    p ∈ (l.correlator.expire now).1 ↔ p ∈ l.built ∧ p.deadline ≤ now ∧ p ∉ l.delivered := by
  change p ∈ l.correlator.expired now ↔ _
  rw [RequestCorrelator.expired, List.mem_filter, h.mem_values_iff, decide_eq_true_eq]
  exact ⟨fun hp => ⟨hp.1.1, hp.2, hp.1.2⟩, fun hp => ⟨⟨hp.1, hp.2.2⟩, hp.2.1⟩⟩

end Expire

theorem Valid.enter {l : Ledger V T} (h : l.Valid) {p : PendingRequest V T}
    (hnew : p.requestId ∉ l.built.map PendingRequest.requestId) (hquiet : p.isBroadcast = false)
    {c : RequestCorrelator V T} (hset : c.pending = l.correlator.pending.set p.requestId p) :
    Valid { l with correlator := c, built := l.built ++ [p] } where
  pending m q := by
    rw [hset, List.mem_append, List.mem_singleton]
    by_cases hm : m = p.requestId
    · rw [hm, Dict.get_set_self, Option.some.injEq]
      constructor
      · rintro rfl
        exact ⟨.inr rfl, rfl, fun hp => hnew (List.mem_map_of_mem (h.built p hp))⟩
      · rintro ⟨hq | rfl, hid, -⟩
        · exact absurd (hid ▸ List.mem_map_of_mem hq) hnew
        · rfl
    · rw [Dict.get_set_of_ne _ _ hm, h.pending]
      constructor
      · rintro ⟨hq, hid, hout⟩
        exact ⟨.inl hq, hid, hout⟩
      · rintro ⟨hq | rfl, hid, hout⟩
        · exact ⟨hq, hid, hout⟩
        · exact absurd hid.symm hm
  ids := by
    rw [List.map_append]
    refine List.nodup_append.mpr ⟨h.ids, List.nodup_singleton _, ?_⟩
    intro a ha b hb hab
    rw [hab, List.mem_singleton.mp hb] at ha
    exact hnew ha
  built q hq := List.mem_append_left _ (h.built q hq)
  once := h.once
  quiet := List.forall_mem_append.mpr ⟨h.quiet, List.forall_mem_singleton.mpr hquiet⟩

section Build

variable [Add T]

theorem Valid.build {l : Ledger V T} (h : l.Valid) {a : BuildCall V T} {now : T}
    (hnew : a.Writable (l.correlator.chooseId a.requestId).1 →
      (l.correlator.chooseId a.requestId).1 ∉ l.built.map PendingRequest.requestId ∧
        (a.metadata.get "broadcast".toList).any Truthy.truthy = false) : Valid { l with
    correlator := (l.correlator.build a now).2
    built := l.built ++ RequestCorrelator.builtBy (l.correlator.build a now).1 } := by
  cases hbuild : (l.correlator.build a now).1 with
  | error e =>
    have hsame := RequestCorrelator.pending_of_build_error hbuild
    rw [RequestCorrelator.builtBy, List.append_nil]
    have hleft := h.handOut_nil hsame
    rwa [List.append_nil] at hleft
  | ok r =>
    obtain ⟨line, p⟩ := r
    have hok : l.correlator.build a now = (.ok (line, p), (l.correlator.build a now).2) := by
      rw [← hbuild]
    obtain ⟨hwritable, -, ⟨deadline, rfl⟩, hset⟩ := l.correlator.build_ok hok
    obtain ⟨hid, hquiet⟩ := hnew hwritable
    exact h.enter (p := a.pendingRequest _ line deadline) hid hquiet hset

end Build

section Run

variable [Add T] [LE T] [DecidableLE T] (py : Python F)

theorem Valid.step {l : Ledger V T} (h : l.Valid) {call : ClientCall V T}
    (hnew : l.BuildsNew call) : (l.step py call).1.Valid := by
  cases call with
  | build a now => exact h.build hnew
  | nextRequestId =>
    have hleft := h.handOut_nil (c := l.correlator.nextRequestId.2) rfl
    rwa [List.append_nil] at hleft
  | take n => exact h.take n
  | peek n => exact h
  | classifyInbound raw consume => exact h.classifyInbound py raw consume
  | expire now => exact h.expire now

/-- What a call hands out, and which calls leave the table as it is. -/
structure Delivers (l : Ledger V T) (call : ClientCall V T) : Prop where
  /-- Over the whole run no request was handed out twice. -/
  once : ((l.step py call).1.delivered.map PendingRequest.requestId).Nodup
  take : ∀ n, call = .take n → ∀ p ∈ (l.step py call).2, n = some p.requestId
  classify : ∀ raw consume, call = .classifyInbound raw consume →
    ∀ p ∈ RequestCorrelator.returnedPending (l.correlator.classifyInbound py raw consume).1,
      carriedId (l.correlator.classifyInbound py raw consume).1 = some p.requestId
  expire : ∀ now, call = .expire now → ∀ p, p ∈ (l.step py call).2 ↔
    p ∈ l.built ∧ p.deadline ≤ now ∧ p ∉ l.delivered
  unmatched : ∀ raw consume, call = .classifyInbound raw consume →
    consume = false ∨ Unmatchable (l.correlator.classifyInbound py raw consume).1 →
      (l.step py call).1.correlator = l.correlator
  peek : ∀ n, call = .peek n → (l.step py call).1.correlator = l.correlator

theorem Valid.delivers {l : Ledger V T} (h : l.Valid) {call : ClientCall V T}
    (hnew : l.BuildsNew call) : l.Delivers py call where
  once := (h.step py hnew).once
  take := by
    rintro (_ | n) rfl p hp
    · cases hp
    · have hget : l.correlator.pending.get n = some p := Option.mem_toList.mp hp
      rw [h.keyed n p hget]
  classify := by
    rintro raw consume - p hp
    exact carriedId_of_mem_returnedPending py raw consume h hp
  expire := by
    rintro now rfl p
    exact h.mem_expire_iff now p
  unmatched := by
    rintro raw consume rfl hsame
    exact correlator_of_unmatchable py raw consume hsame
  peek := by
    rintro n rfl
    rfl

/-- In a run that builds every request under a new id and makes no broadcast, each request is handed
out at most once, under its own id, and expires when it is due. -/
theorem delivers_of_buildsNew (timeout : T) (start : ℤ) {calls : List (ClientCall V T)}
    (h : EveryStep (step py) (BuildsNew)
      { correlator := { defaultTimeout := timeout, nextId := start } } calls) :
    EveryStep (step py) (Delivers py)
      { correlator := { defaultTimeout := timeout, nextId := start } } calls := by
  apply EveryStep.imp_of_invariant (I := Valid) _ _ h
  · intro l call hvalid hnew
    exact ⟨hvalid.delivers py hnew, hvalid.step py hnew⟩
  · exact {
      pending := fun n p => iff_of_false (Option.some_ne_none p).symm
        (fun hp => List.not_mem_nil hp.1)
      ids := List.nodup_nil
      built := fun p hp => absurd hp List.not_mem_nil
      once := List.nodup_nil
      quiet := fun p hp => absurd hp List.not_mem_nil }

end Run

def pingSeven : ClientCall Bool ℕ :=
  .build { target := "node1".toList, command := "ping".toList, requestId := some 7 } 0

theorem delivers_pingSeven : EveryStep (step Python.ascii) (Delivers Python.ascii)
    { correlator := { defaultTimeout := 15, nextId := 1 } }
    [pingSeven, .peek (some 7), .classifyInbound "node1: #7 pong".toList true, .expire 100] :=
  delivers_of_buildsNew Python.ascii 15 1
    ⟨fun _ => ⟨List.not_mem_nil, rfl⟩, trivial, trivial, trivial, trivial⟩

end Ledger
end Mcrpc
