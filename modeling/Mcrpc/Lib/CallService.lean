import Mathlib.Data.List.Basic

/-!
# Remote calls

Callers `κ` issue calls `Q`, servers `ι` are given messages `L` and make replies `R` of them. What
has happened so far says what may happen next: a server works on messages of calls that were issued,
a caller is only given a reply that a server made of its call, and nothing after the last one.
-/

/-- `serves i l r` says that the server `i` may make the reply `r` of the message `l`. -/
structure CallService (ι Q L R : Type*) where
  message : Q → L
  serves : ι → L → R → Prop

namespace CallService

inductive Happening (κ ι Q L R : Type*)
  | issued (caller : κ) (call : Q)
  | executed (server : ι) (message : L) (reply : R)
  | returned (caller : κ) (call : Q) (reply : R) (final : Bool)
  | dropped (caller : κ) (call : Q)

variable {κ ι Q L R : Type*}

def Closed (past : List (Happening κ ι Q L R)) (c : κ) (q : Q) : Prop :=
  (∃ r, .returned c q r true ∈ past) ∨ .dropped c q ∈ past

theorem closed_append {past more : List (Happening κ ι Q L R)} {c : κ} {q : Q} :
    Closed (past ++ more) c q ↔ Closed past c q ∨ Closed more c q := by
  simp only [Closed, List.mem_append, exists_or]
  exact or_or_or_comm

theorem not_closed_nil {c : κ} {q : Q} : ¬ Closed ([] : List (Happening κ ι Q L R)) c q := by
  rintro (⟨r, h⟩ | h)
  · cases h
  · cases h

variable (S : CallService ι Q L R)

inductive Allowed (past : List (Happening κ ι Q L R)) : Happening κ ι Q L R → Prop
  | issued {c : κ} {q : Q} : (∀ c', .issued c' q ∉ past) → Allowed past (.issued c q)
  | executed {c : κ} {q : Q} {i : ι} {r : R} : .issued c q ∈ past → S.serves i (S.message q) r →
    Allowed past (.executed i (S.message q) r)
  | returned {c : κ} {q : Q} {i : ι} {r : R} {final : Bool} : .issued c q ∈ past →
    .executed i (S.message q) r ∈ past → ¬ Closed past c q → Allowed past (.returned c q r final)
  | dropped {c : κ} {q : Q} : .issued c q ∈ past → ¬ Closed past c q → Allowed past (.dropped c q)

/-- Each happening was allowed by those before it. -/
def LawfulFrom : List (Happening κ ι Q L R) → List (Happening κ ι Q L R) → Prop
  | _, [] => True
  | past, h :: rest => S.Allowed past h ∧ LawfulFrom (past ++ [h]) rest

def Lawful (history : List (Happening κ ι Q L R)) : Prop := S.LawfulFrom [] history

variable {S}

theorem lawfulFrom_append {past first second : List (Happening κ ι Q L R)} :
    S.LawfulFrom past (first ++ second) ↔
      S.LawfulFrom past first ∧ S.LawfulFrom (past ++ first) second := by
  induction first generalizing past with
  | nil => simp [LawfulFrom]
  | cons h first ih =>
    rw [List.cons_append, LawfulFrom, LawfulFrom, ih, and_assoc, List.append_assoc]
    rfl

theorem lawfulFrom_singleton {past : List (Happening κ ι Q L R)} {h : Happening κ ι Q L R} :
    S.LawfulFrom past [h] ↔ S.Allowed past h := and_iff_left trivial

theorem Lawful.append {past more : List (Happening κ ι Q L R)} (hpast : S.Lawful past)
    (hmore : S.LawfulFrom past more) : S.Lawful (past ++ more) :=
  lawfulFrom_append.mpr ⟨hpast, hmore⟩

/-- Different calls that are open can be dropped together. -/
theorem lawfulFrom_dropped {past : List (Happening κ ι Q L R)} {c : κ} {calls : List Q}
    (hnodup : calls.Nodup)
    (hopen : ∀ q ∈ calls, .issued c q ∈ past ∧ ¬ Closed past c q) :
    S.LawfulFrom past (calls.map (.dropped c)) := by
  induction calls generalizing past with
  | nil => trivial
  | cons q calls ih =>
    obtain ⟨hnew, hnodup⟩ := List.nodup_cons.mp hnodup
    obtain ⟨⟨hissued, hq⟩, hcalls⟩ := List.forall_mem_cons.mp hopen
    refine ⟨.dropped hissued hq, ih hnodup (fun q' hq' => ?_)⟩
    obtain ⟨hissued', hopen'⟩ := hcalls q' hq'
    refine ⟨List.mem_append_left _ hissued', ?_⟩
    rw [closed_append, not_or]
    refine ⟨hopen', ?_⟩
    rintro (⟨r, h⟩ | h)
    · cases List.mem_singleton.mp h
    · cases List.mem_singleton.mp h
      exact hnew hq'

theorem Lawful.allowed {past rest : List (Happening κ ι Q L R)} {h : Happening κ ι Q L R}
    (hlawful : S.Lawful (past ++ h :: rest)) : S.Allowed past h :=
  (lawfulFrom_append.mp hlawful).2.1

theorem Allowed.open_of_returned {past : List (Happening κ ι Q L R)} {c : κ} {q : Q} {r : R}
    {final : Bool} (h : S.Allowed past (.returned c q r final)) : ¬ Closed past c q := by
  cases h with
  | returned _ _ hopen => exact hopen

/-- Nothing is returned of a call that is closed. -/
theorem Lawful.not_returned_after {past rest : List (Happening κ ι Q L R)}
    {h : Happening κ ι Q L R} {c : κ} {q : Q} (hlawful : S.Lawful (past ++ h :: rest))
    (hh : Closed [h] c q) (r : R) (final : Bool) : .returned c q r final ∉ rest := by
  intro hmem
  obtain ⟨mid, post, rfl⟩ := List.append_of_mem hmem
  rw [← List.cons_append, ← List.append_assoc] at hlawful
  apply hlawful.allowed.open_of_returned
  rw [← List.singleton_append, closed_append, closed_append]
  exact .inr (.inl hh)

/-- What a server executed was issued, and the server may reply so. -/
theorem Lawful.executed {history : List (Happening κ ι Q L R)} (hlawful : S.Lawful history) {i : ι}
    {l : L} {r : R} (h : .executed i l r ∈ history) :
    S.serves i l r ∧ ∃ c q, .issued c q ∈ history ∧ S.message q = l := by
  obtain ⟨past, rest, rfl⟩ := List.append_of_mem h
  cases hlawful.allowed with
  | executed hissued hserves => exact ⟨hserves, _, _, List.mem_append_left _ hissued, rfl⟩

/-- A reply that is returned was made of the call before. -/
theorem Lawful.executed_before {past rest : List (Happening κ ι Q L R)} {c : κ} {q : Q} {r : R}
    {final : Bool} (hlawful : S.Lawful (past ++ .returned c q r final :: rest)) :
    ∃ i, .executed i (S.message q) r ∈ past ∧ S.serves i (S.message q) r := by
  cases hlawful.allowed with
  | @returned _ _ i _ _ _ hexecuted _ =>
    exact ⟨i, hexecuted, (hlawful.executed (List.mem_append_left _ hexecuted)).1⟩

end CallService
