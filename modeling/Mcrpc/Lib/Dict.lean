import Mathlib.Data.List.Nodup

/-!
# Insertion-ordered dictionaries

The entries in the order in which their keys were first set, with no key twice. Setting a key that
is present keeps its place.
-/

/-- A finite map that remembers the order of insertion. -/
structure Dict (κ β : Type*) where
  entries : List (κ × β)
  nodup : (entries.map Prod.fst).Nodup

namespace Dict

variable {κ β : Type*} [DecidableEq κ]

def empty : Dict κ β := ⟨[], List.nodup_nil⟩

/-- Replaces the value of the key, or adds the pair at the end. -/
def setEntries (k : κ) (v : β) : List (κ × β) → List (κ × β)
  | [] => [(k, v)]
  | e :: es => if e.1 = k then (k, v) :: es else e :: setEntries k v es

theorem mem_keys_setEntries {k x : κ} {v : β} {es : List (κ × β)} :
    x ∈ (setEntries k v es).map Prod.fst ↔ x = k ∨ x ∈ es.map Prod.fst := by
  induction es with
  | nil => simp [setEntries]
  | cons e es ih =>
    rw [setEntries]
    split
    · next he => simp [he]
    · rw [List.map_cons, List.mem_cons, ih, List.map_cons, List.mem_cons, or_left_comm]

theorem nodup_setEntries {k : κ} {v : β} {es : List (κ × β)} (h : (es.map Prod.fst).Nodup) :
    ((setEntries k v es).map Prod.fst).Nodup := by
  induction es with
  | nil => simp [setEntries]
  | cons e es ih =>
    rw [List.map_cons, List.nodup_cons] at h
    rw [setEntries]
    split
    · next he =>
      rw [List.map_cons, List.nodup_cons, ← he]
      exact h
    · next he =>
      rw [List.map_cons, List.nodup_cons, mem_keys_setEntries, not_or]
      exact ⟨⟨he, h.1⟩, ih h.2⟩

def set (d : Dict κ β) (k : κ) (v : β) : Dict κ β :=
  ⟨setEntries k v d.entries, nodup_setEntries d.nodup⟩

theorem mem_set {d : Dict κ β} {k : κ} {v : β} {e : κ × β} (h : e ∈ (d.set k v).entries) :
    e = (k, v) ∨ e ∈ d.entries := by
  have hset (es : List (κ × β)) (h : e ∈ setEntries k v es) : e = (k, v) ∨ e ∈ es := by
    induction es with
    | nil => exact .inl (List.mem_singleton.mp h)
    | cons f es ih =>
      rw [setEntries] at h
      split at h
      · exact (List.mem_cons.mp h).imp_right (List.mem_cons_of_mem f)
      · rcases List.mem_cons.mp h with rfl | h
        · exact .inr List.mem_cons_self
        · exact (ih h).imp_right (List.mem_cons_of_mem f)
  exact hset d.entries h

theorem entries_set_of_not_mem {d : Dict κ β} {k : κ} (v : β)
    (h : k ∉ d.entries.map Prod.fst) : (d.set k v).entries = d.entries ++ [(k, v)] := by
  have hset (es : List (κ × β)) (h : k ∉ es.map Prod.fst) :
      setEntries k v es = es ++ [(k, v)] := by
    induction es with
    | nil => rfl
    | cons e es ih =>
      rw [List.map_cons, List.mem_cons, not_or] at h
      rw [setEntries, if_neg (fun he => h.1 he.symm), ih h.2, List.cons_append]
  exact hset d.entries h

def get (d : Dict κ β) (k : κ) : Option β := (d.entries.find? (fun e => e.1 = k)).map Prod.snd

def erase (d : Dict κ β) (k : κ) : Dict κ β where
  entries := d.entries.filter (fun e => e.1 ≠ k)
  nodup := d.nodup.sublist (List.filter_sublist.map Prod.fst)

def values (d : Dict κ β) : List β := d.entries.map Prod.snd

theorem mem_entries_iff {d : Dict κ β} {k : κ} {v : β} :
    (k, v) ∈ d.entries ↔ d.get k = some v := by
  have hfind (es : List (κ × β)) (h : (es.map Prod.fst).Nodup) :
      (k, v) ∈ es ↔ (es.find? (fun e => e.1 = k)).map Prod.snd = some v := by
    induction es with
    | nil => simp
    | cons e es ih =>
      rw [List.map_cons, List.nodup_cons] at h
      by_cases he : e.1 = k
      · rw [List.find?_cons_of_pos (by simpa using he), Option.map_some, Option.some.injEq]
        constructor
        · intro hmem
          rcases List.mem_cons.mp hmem with rfl | hmem
          · rfl
          · rw [he] at h
            exact absurd (List.mem_map_of_mem hmem) h.1
        · intro hv
          rw [← he, ← hv]
          exact List.mem_cons_self
      · rw [List.find?_cons_of_neg (by simpa using he), ← ih h.2, List.mem_cons]
        refine or_iff_right (fun heq => he ?_)
        rw [← heq]
  exact hfind d.entries d.nodup

theorem get_ext {d d' : Dict κ β} {k k' : κ}
    (h : ∀ v, (k, v) ∈ d.entries ↔ (k', v) ∈ d'.entries) : d.get k = d'.get k' := by
  apply Option.ext
  intro v
  rw [← mem_entries_iff, ← mem_entries_iff, h v]

@[simp] theorem get_empty (k : κ) : (empty : Dict κ β).get k = none := rfl

theorem mem_values_iff {d : Dict κ β} {v : β} : v ∈ d.values ↔ ∃ k, d.get k = some v := by
  rw [values, List.mem_map]
  constructor
  · rintro ⟨⟨k, v⟩, hmem, rfl⟩
    exact ⟨k, mem_entries_iff.mp hmem⟩
  · rintro ⟨k, h⟩
    exact ⟨(k, v), mem_entries_iff.mpr h, rfl⟩

@[simp] theorem get_set_self (d : Dict κ β) (k : κ) (v : β) : (d.set k v).get k = some v := by
  have hset (es : List (κ × β)) : (k, v) ∈ setEntries k v es := by
    induction es with
    | nil => exact List.mem_singleton_self _
    | cons e es ih =>
      rw [setEntries]
      split
      · exact List.mem_cons_self
      · exact List.mem_cons_of_mem e ih
  exact mem_entries_iff.mp (hset d.entries)

theorem get_set_of_ne (d : Dict κ β) {k x : κ} (v : β) (h : x ≠ k) :
    (d.set k v).get x = d.get x := by
  have hset (es : List (κ × β)) (u : β) : (x, u) ∈ setEntries k v es ↔ (x, u) ∈ es := by
    have hne : (x, u) ≠ (k, v) := fun he => h (Prod.mk.inj he).1
    induction es with
    | nil =>
      rw [setEntries, List.mem_singleton]
      exact iff_of_false hne List.not_mem_nil
    | cons e es ih =>
      rw [setEntries]
      split
      · next he =>
        have hne' : (x, u) ≠ e := by
          rintro rfl
          exact h he
        rw [List.mem_cons, List.mem_cons, or_iff_right hne, or_iff_right hne']
      · rw [List.mem_cons, List.mem_cons]
        exact or_congr_right ih
  exact get_ext (hset d.entries)

theorem mem_entries_erase {d : Dict κ β} {k x : κ} {v : β} :
    (x, v) ∈ (d.erase k).entries ↔ (x, v) ∈ d.entries ∧ x ≠ k := by
  rw [erase, List.mem_filter, decide_eq_true_eq]

@[simp] theorem get_erase_self (d : Dict κ β) (k : κ) : (d.erase k).get k = none := by
  rw [Option.eq_none_iff_forall_ne_some]
  intro v h
  exact (mem_entries_erase.mp (mem_entries_iff.mpr h)).2 rfl

theorem get_erase_of_ne (d : Dict κ β) {k x : κ} (h : x ≠ k) : (d.erase k).get x = d.get x :=
  get_ext (fun _ => mem_entries_erase.trans (and_iff_left h))

theorem get_of_get_erase {d : Dict κ β} {k x : κ} {v : β} (h : (d.erase k).get x = some v) :
    d.get x = some v :=
  mem_entries_iff.mp (mem_entries_erase.mp (mem_entries_iff.mpr h)).1

theorem get_foldl_erase {α : Type*} (key : α → κ) (xs : List α) (d : Dict κ β) (k : κ) :
    (xs.foldl (fun d x => d.erase (key x)) d).get k =
      if k ∈ xs.map key then none else d.get k := by
  induction xs generalizing d with
  | nil => rfl
  | cons x xs ih =>
    rw [List.foldl_cons, ih, List.map_cons]
    by_cases hmem : k ∈ xs.map key
    · rw [if_pos hmem, if_pos (List.mem_cons_of_mem _ hmem)]
    · rw [if_neg hmem]
      by_cases hk : k = key x
      · rw [hk, get_erase_self, if_pos List.mem_cons_self]
      · rw [get_erase_of_ne d hk, if_neg (by rw [List.mem_cons, not_or]; exact ⟨hk, hmem⟩)]

/-! ### The dictionary of a list of pairs -/

/-- Sets the pairs in order, so that the last pair of a key gives its value. -/
def setAll (d : Dict κ β) (ps : List (κ × β)) : Dict κ β := ps.foldl (fun d e => d.set e.1 e.2) d

omit [DecidableEq κ] in
theorem eq_of_entries {d d' : Dict κ β} (h : d.entries = d'.entries) : d = d' := by
  cases d
  cases d'
  congr

theorem get_setAll (d : Dict κ β) (ps : List (κ × β)) (k : κ) :
    (d.setAll ps).get k = ((ps.reverse.find? (fun e => e.1 = k)).map Prod.snd).or (d.get k) := by
  induction ps generalizing d with
  | nil => rfl
  | cons e ps ih =>
    rw [setAll, List.foldl_cons, ← setAll, ih, List.reverse_cons, List.find?_append]
    cases (ps.reverse).find? (fun e => e.1 = k) with
    | some f => rfl
    | none =>
      rw [Option.none_or, Option.map_none, Option.none_or]
      by_cases hk : e.1 = k
      · rw [List.find?_cons_of_pos (by simpa using hk), ← hk, get_set_self]
        rfl
      · rw [List.find?_cons_of_neg (by simpa using hk), get_set_of_ne d e.2 (Ne.symm hk)]
        rfl

theorem mem_setAll_concat (d : Dict κ β) (ps : List (κ × β)) (e : κ × β) :
    e ∈ (d.setAll (ps ++ [e])).entries := by
  rw [setAll, List.foldl_append]
  exact mem_entries_iff.mpr (get_set_self _ e.1 e.2)

theorem entries_setAll_ne_nil (d : Dict κ β) {ps : List (κ × β)} (h : ps ≠ []) :
    (d.setAll ps).entries ≠ [] := by
  obtain ⟨ps, e, rfl⟩ := (List.eq_nil_or_concat' ps).resolve_left h
  exact List.ne_nil_of_mem (mem_setAll_concat d ps e)

theorem entries_setAll {d : Dict κ β} {ps : List (κ × β)}
    (h : (d.entries.map Prod.fst ++ ps.map Prod.fst).Nodup) :
    (d.setAll ps).entries = d.entries ++ ps := by
  induction ps generalizing d with
  | nil => exact (List.append_nil _).symm
  | cons e ps ih =>
    have hnew : e.1 ∉ d.entries.map Prod.fst := fun hmem =>
      (List.nodup_append.mp h).2.2 e.1 hmem e.1 List.mem_cons_self rfl
    have hadd : (d.set e.1 e.2).entries = d.entries ++ [e] := entries_set_of_not_mem e.2 hnew
    have hkeys : ((d.set e.1 e.2).entries.map Prod.fst ++ ps.map Prod.fst).Nodup := by
      rw [hadd, List.map_append, List.append_assoc]
      exact h
    have hrest := ih hkeys
    rw [hadd, List.append_assoc, List.singleton_append] at hrest
    exact hrest

/-- A dictionary is the dictionary of its entries. -/
theorem setAll_entries (d : Dict κ β) : (empty : Dict κ β).setAll d.entries = d := by
  apply eq_of_entries
  exact entries_setAll (by rw [empty, List.map_nil, List.nil_append]; exact d.nodup)

theorem mem_setAll {d : Dict κ β} {ps : List (κ × β)} {e : κ × β}
    (h : e ∈ (d.setAll ps).entries) : e ∈ d.entries ∨ e ∈ ps := by
  induction ps generalizing d with
  | nil => exact .inl h
  | cons f ps ih =>
    rcases ih h with hset | hps
    · rcases mem_set hset with rfl | hd
      · exact .inr List.mem_cons_self
      · exact .inl hd
    · exact .inr (List.mem_cons_of_mem f hps)

end Dict
