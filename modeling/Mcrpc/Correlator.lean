import Mcrpc.Python.Client
import Mcrpc.Lib.Unwinding

/-!
# Pending requests over a run

The calls that change a correlator, one after another. A pending request stays in the table under
its own id until a call returns it, in every run whose builds avoid the ids that are pending.
-/

namespace Mcrpc

inductive CorrelatorCall (V T : Type)
  | build (a : BuildCall V T) (now : T)
  | nextRequestId
  | take (requestId : Option ℤ)
  | classifyInbound (rawMessage : Text) (consume : Bool)
  | expire (now : T)

structure BuildCall.Writable {V T : Type} (a : BuildCall V T) (n : ℤ) : Prop where
  dest : a.dest ≠ []
  command : a.command ≠ []
  digits : (decimal n.natAbs).length ≤ 4300

theorem ne_nil_of_buildRequest {target command line : Text} {n : ℤ} {args : List (Option Text)}
    (h : buildRequest target command (some n) args = .ok line) :
    target ≠ [] ∧ command ≠ [] ∧ (decimal n.natAbs).length ≤ 4300 := by
  rw [buildRequest] at h
  split at h
  · cases h
  · next hne =>
    obtain ⟨htarget, hcommand⟩ := not_or.mp hne
    refine ⟨htarget, hcommand, ?_⟩
    by_contra hlong
    have hstr : pyStr n = .error .valueError := if_neg hlong
    simp only [hstr] at h
    cases h

namespace RequestCorrelator

variable {F V T : Type} {c : RequestCorrelator V T}

def Keyed (c : RequestCorrelator V T) : Prop := ∀ n p, c.pending.get n = some p → p.requestId = n

theorem Keyed.get_of_mem_values (h : c.Keyed) {p : PendingRequest V T} (hp : p ∈ c.pending.values) :
    c.pending.get p.requestId = some p := by
  obtain ⟨n, hn⟩ := Dict.mem_values_iff.mp hp
  rwa [h n p hn]

theorem Keyed.erase (h : c.Keyed) (n : ℤ) :
    ({ c with pending := c.pending.erase n } : RequestCorrelator V T).Keyed :=
  fun m p hm => h m p (Dict.get_of_get_erase hm)

theorem Keyed.get_erase (h : c.Keyed) {n : ℤ} {p q : PendingRequest V T}
    (hq : c.pending.get n = some q) (hp : p ∈ c.pending.values) :
    (c.pending.erase n).get p.requestId = some p ∨ p = q := by
  have hget := h.get_of_mem_values hp
  by_cases hn : p.requestId = n
  · rw [hn, hq] at hget
    exact .inr (Option.some.inj hget).symm
  · rw [Dict.get_erase_of_ne c.pending hn]
    exact .inl hget

section Operations

variable (c)

theorem pending_chooseId (requestId : Option ℤ) :
    (c.chooseId requestId).2.pending = c.pending := by
  cases requestId <;> rfl

theorem build_cases [Add T] (a : BuildCall V T) (now : T) :
    (c.build a now).2.pending = c.pending ∨
    ∃ p, a.Writable p.requestId ∧ p.requestId = (c.chooseId a.requestId).1 ∧
      (c.build a now).2.pending = c.pending.set p.requestId p := by
  have hchoose := c.pending_chooseId a.requestId
  rw [build]
  dsimp only
  split
  · exact .inl hchoose
  · next line hline =>
    obtain ⟨hdest, hcommand, hdigits⟩ := ne_nil_of_buildRequest hline
    rw [hchoose]
    exact .inr ⟨a.pendingRequest _ line _, ⟨hdest, hcommand, hdigits⟩, rfl, rfl⟩

/-- What a successful build returns and adds. -/
theorem build_ok [Add T] {a : BuildCall V T} {now : T} {line : Text} {p : PendingRequest V T}
    {c' : RequestCorrelator V T} (h : c.build a now = (.ok (line, p), c')) :
    a.Writable (c.chooseId a.requestId).1 ∧
      buildRequest a.dest a.command (some (c.chooseId a.requestId).1) a.arguments = .ok line ∧
      (∃ deadline, p = a.pendingRequest (c.chooseId a.requestId).1 line deadline) ∧
      c'.pending = c.pending.set (c.chooseId a.requestId).1 p := by
  have hchoose := c.pending_chooseId a.requestId
  rw [build] at h
  dsimp only at h
  split at h
  · cases (Prod.mk.inj h).1
  · next line' hline =>
    obtain ⟨hok, rfl⟩ := Prod.mk.inj h
    obtain ⟨rfl, rfl⟩ := Prod.mk.inj (Except.ok.inj hok)
    obtain ⟨hdest, hcommand, hdigits⟩ := ne_nil_of_buildRequest hline
    exact ⟨⟨hdest, hcommand, hdigits⟩, hline, ⟨_, rfl⟩, congrArg (Dict.set · _ _) hchoose⟩

theorem get_expire [LE T] [DecidableLE T] (now : T) (n : ℤ) : (c.expire now).2.pending.get n =
    if n ∈ (c.expired now).map PendingRequest.requestId then none else c.pending.get n :=
  Dict.get_foldl_erase PendingRequest.requestId (c.expired now) c.pending n

variable [Truthy V]

theorem kind_matchResponse (resp : ParsedResponse F) (consume : Bool) :
    (c.matchResponse resp consume).1.kind = .response := by
  simp only [matchResponse]
  split
  · rfl
  · split <;> rfl

theorem matchResponse_cases (resp : ParsedResponse F) (consume : Bool) :
    (c.matchResponse resp consume).2 = c ∨
    ∃ n p, c.pending.get n = some p ∧ (c.matchResponse resp consume).1.pending = some p ∧
      (c.matchResponse resp consume).2 = { c with pending := c.pending.erase n } := by
  cases hid : resp.requestId with
  | none => exact .inl (by simp only [matchResponse, hid, peek, Option.bind_none])
  | some n =>
    cases hget : c.pending.get n with
    | none => exact .inl (by simp only [matchResponse, hid, peek, Option.bind_some, hget])
    | some p =>
      simp only [matchResponse, hid, peek, Option.bind_some, hget, take]
      split
      · exact .inr ⟨n, p, hget, rfl, rfl⟩
      · exact .inl rfl

theorem get_matchResponse_of_ne {n : ℤ} {resp : ParsedResponse F} (h : resp.requestId ≠ some n)
    (consume : Bool) : (c.matchResponse resp consume).2.pending.get n = c.pending.get n := by
  simp only [matchResponse]
  split
  · rfl
  · split
    · cases hid : resp.requestId with
      | none => rfl
      | some m =>
        have hne : n ≠ m := fun he => h (by rw [hid, he])
        exact Dict.get_erase_of_ne c.pending hne
    · rfl

theorem matchResponse_of_get {n : ℤ} {p : PendingRequest V T} {resp : ParsedResponse F}
    (h : resp.requestId = some n)
    (hget : c.pending.get n = some p) : c.matchResponse resp true =
      ({ kind := .response, response := some resp, pending := some p },
        if p.isBroadcast then c else { c with pending := c.pending.erase n }) := by
  simp only [matchResponse, h, peek, Option.bind_some, hget, take, Bool.true_and]
  cases p.isBroadcast <;> rfl

theorem matchResponse_of_peek {resp : ParsedResponse F} (h : c.peek resp.requestId = none)
    (consume : Bool) : c.matchResponse resp consume =
      ({ kind := .response, response := some resp }, c) := by
  simp only [matchResponse, h]

/-- A message changes the table only when it takes the entry it returns. -/
theorem classifyInbound_cases (py : Python F) (raw : Text) (consume : Bool) :
    (c.classifyInbound py raw consume).2 = c ∨
    ∃ i n p, (c.classifyInbound py raw consume).1 = .ok i ∧ i.pending = some p ∧
      c.pending.get n = some p ∧
      (c.classifyInbound py raw consume).2 = { c with pending := c.pending.erase n } := by
  simp only [classifyInbound]
  split
  · exact .inl rfl
  · split
    · exact .inl rfl
    · exact .inl rfl
    · split
      · exact .inl rfl
      · next resp _ =>
        rcases c.matchResponse_cases resp consume with h | ⟨n, p, hget, hp, hstate⟩
        · exact .inl h
        · exact .inr ⟨_, n, p, rfl, hp, hget, hstate⟩

end Operations

section Runs

variable [Truthy V] [Add T] [LE T] [DecidableLE T] (py : Python F)

def returnedPending : Except PyError (Inbound F V T) → List (PendingRequest V T)
  | .ok i => i.pending.toList
  | .error _ => []

/-- The correlator after the call, and the pending requests that `take`, `classify_inbound` and
`expire` return. -/
def step (c : RequestCorrelator V T) :
    CorrelatorCall V T → RequestCorrelator V T × List (PendingRequest V T)
  | .build a now => ((c.build a now).2, [])
  | .nextRequestId => (c.nextRequestId.2, [])
  | .take n => ((c.take n).2, (c.take n).1.toList)
  | .classifyInbound raw consume =>
    let r := c.classifyInbound py raw consume
    (r.2, returnedPending r.1)
  | .expire now => ((c.expire now).2, (c.expire now).1)

/-- A request that is pending is still pending under its id after the call, unless the call
returns it. -/
def KeepsPending (c : RequestCorrelator V T) (call : CorrelatorCall V T) : Prop :=
  ∀ p ∈ c.pending.values,
    (c.step py call).1.pending.get p.requestId = some p ∨ p ∈ (c.step py call).2

def BuildsFresh (c : RequestCorrelator V T) : CorrelatorCall V T → Prop
  | .build a _ =>
    a.Writable (c.chooseId a.requestId).1 → c.pending.get (c.chooseId a.requestId).1 = none
  | _ => True

theorem Keyed.step (h : c.Keyed) (call : CorrelatorCall V T) : (c.step py call).1.Keyed := by
  cases call with
  | build a now =>
    intro n p hn
    change (c.build a now).2.pending.get n = some p at hn
    rcases c.build_cases a now with hsame | ⟨q, -, -, hset⟩
    · rw [hsame] at hn
      exact h n p hn
    · rw [hset] at hn
      by_cases hq : n = q.requestId
      · rw [hq, Dict.get_set_self] at hn
        rw [← Option.some.inj hn, hq]
      · rw [Dict.get_set_of_ne c.pending q hq] at hn
        exact h n p hn
  | nextRequestId => exact h
  | take m =>
    cases m with
    | none => exact h
    | some m => exact h.erase m
  | classifyInbound raw consume =>
    change (c.classifyInbound py raw consume).2.Keyed
    rcases c.classifyInbound_cases py raw consume with hsame | ⟨-, m, -, -, -, -, hstate⟩
    · rw [hsame]
      exact h
    · rw [hstate]
      exact h.erase m
  | expire now =>
    intro n p hn
    rw [RequestCorrelator.step, get_expire] at hn
    split at hn
    · cases hn
    · exact h n p hn

theorem Keyed.keepsPending (h : c.Keyed) {call : CorrelatorCall V T} (hfresh : c.BuildsFresh call) :
    c.KeepsPending py call := by
  intro p hp
  have hget := h.get_of_mem_values hp
  cases call with
  | build a now =>
    refine .inl ?_
    change (c.build a now).2.pending.get p.requestId = some p
    rcases c.build_cases a now with hsame | ⟨q, hwritable, hid, hset⟩
    · rw [hsame, hget]
    · have hnone := hfresh (hid ▸ hwritable)
      rw [← hid] at hnone
      have hne : p.requestId ≠ q.requestId := by
        intro he
        rw [he, hnone] at hget
        cases hget
      rw [hset, Dict.get_set_of_ne c.pending q hne, hget]
  | nextRequestId => exact .inl hget
  | take m =>
    cases m with
    | none => exact .inl hget
    | some m =>
      change (c.pending.erase m).get p.requestId = some p ∨ p ∈ (c.pending.get m).toList
      by_cases hm : p.requestId = m
      · rw [← hm, hget]
        exact .inr (List.mem_singleton_self p)
      · rw [Dict.get_erase_of_ne c.pending hm]
        exact .inl hget
  | classifyInbound raw consume =>
    simp only [RequestCorrelator.step]
    rcases c.classifyInbound_cases py raw consume with hsame | ⟨i, m, q, hok, hi, hq, hstate⟩
    · rw [hsame]
      exact .inl hget
    · rw [hok, hstate, returnedPending, hi]
      exact (h.get_erase hq hp).imp_right (fun he => List.mem_singleton.mpr he)
  | expire now =>
    rw [RequestCorrelator.step, get_expire]
    by_cases hmem : p ∈ c.expired now
    · exact .inr hmem
    · rw [if_neg]
      · exact .inl hget
      · intro hid
        obtain ⟨q, hq, he⟩ := List.mem_map.mp hid
        have hqget := h.get_of_mem_values (List.mem_filter.mp hq).1
        rw [he, hget] at hqget
        exact hmem (Option.some.inj hqget ▸ hq)

/-- In a run whose builds avoid the pending ids, each call keeps every pending request under its own
id or returns it. -/
theorem keepsPending_of_buildsFresh (timeout : T) (start : ℤ) {calls : List (CorrelatorCall V T)}
    (h : EveryStep (step py) BuildsFresh { defaultTimeout := timeout, nextId := start } calls) :
    EveryStep (step py) (KeepsPending py) { defaultTimeout := timeout, nextId := start } calls := by
  apply EveryStep.imp_of_invariant (I := Keyed) _ _ h
  · intro c call hkeyed hfresh
    exact ⟨hkeyed.keepsPending py hfresh, hkeyed.step py call⟩
  · intro n p hn
    cases hn

end Runs

def pingFirst : CorrelatorCall Bool ℕ :=
  .build { target := "node1".toList, command := "ping".toList, requestId := some 1 } 0

def pingSecond : CorrelatorCall Bool ℕ :=
  .build { target := "node2".toList, command := "ping".toList } 0

theorem keepsPending_pings : EveryStep (step Python.ascii) (KeepsPending Python.ascii)
    { defaultTimeout := 15, nextId := 1 } [pingFirst, .take (some 1), pingSecond] :=
  keepsPending_of_buildsFresh Python.ascii 15 1 ⟨fun _ => rfl, trivial, fun _ => rfl, trivial⟩

/-- The counter reaches the id of the first request while it is pending. -/
theorem build_overwrites : ¬ ∀ calls : List (CorrelatorCall Bool ℕ),
    EveryStep (step Python.ascii) (KeepsPending Python.ascii)
      { defaultTimeout := 15, nextId := 1 } calls := by
  intro h
  have hkeeps := (h [pingFirst, pingSecond]).2.1
  obtain ⟨p, hp, htarget⟩ : ∃ p ∈ (step Python.ascii
      { defaultTimeout := 15, nextId := 1 } pingFirst).1.pending.values,
      p.requestId = 1 ∧ p.target = "node1".toList := ⟨_, List.mem_singleton_self _, rfl, rfl⟩
  rcases hkeeps p hp with hget | hmem
  · rw [htarget.1] at hget
    have hnode := congrArg (Option.map PendingRequest.target) hget
    rw [Option.map_some, htarget.2] at hnode
    revert hnode
    decide
  · cases hmem

end RequestCorrelator
end Mcrpc
