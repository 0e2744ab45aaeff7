import Mathlib.Tactic.Common

/-!
# All-or-nothing writes into a bounded list

`push n` appends a piece as a whole, or leaves the list as it is when the result would be longer
than `n`. An item is a sequence of pieces that starts with a single symbol, a separator. Two ways to
write a list of items are compared with the items themselves: `pushItems` pushes every piece
whatever happened to the others, `pushUntil` stops at the first piece that does not fit. Both keep
the items whole exactly when everything fits or some items fill the list to the last place: with any
other room left the separator of the first item that does not fit is written.
-/

namespace Bounded

variable {α : Type*}

def push (n : ℕ) (b s : List α) : List α := if b.length + s.length ≤ n then b ++ s else b

def pushAll (n : ℕ) (b : List α) (pieces : List (List α)) : List α := pieces.foldl (push n) b

/-- Pushes the pieces up to the first that does not fit. -/
def pushWhile (n : ℕ) (b : List α) : List (List α) → List α
  | [] => b
  | s :: pieces => if b.length + s.length ≤ n then pushWhile n (b ++ s) pieces else b

structure Item (α : Type*) where
  separator : α
  pieces : List (List α)

namespace Item

def written (i : Item α) : List (List α) := [i.separator] :: i.pieces

def text (i : Item α) : List α := i.written.flatten

theorem text_eq_cons (i : Item α) : i.text = i.separator :: i.pieces.flatten := rfl

theorem length_text_pos (i : Item α) : 0 < i.text.length := Nat.succ_pos _

end Item

def pushItems (n : ℕ) (b : List α) (items : List (Item α)) : List α :=
  items.foldl (fun b i => pushAll n b i.written) b

def pushUntil (n : ℕ) (b : List α) (items : List (Item α)) : List α :=
  pushWhile n b (items.flatMap Item.written)

/-- From the length `m` on, the items have room up to `n`, or some of them end exactly there. -/
def FitsOrFills (n m : ℕ) (items : List (Item α)) : Prop :=
  m + (items.flatMap Item.text).length ≤ n ∨
    ∃ k, m + ((items.take k).flatMap Item.text).length = n

section Push

variable {n : ℕ} {b : List α}

theorem push_of_le {s : List α} (h : b.length + s.length ≤ n) : push n b s = b ++ s := if_pos h

theorem push_nil : push n b [] = b := by
  rw [push, List.append_nil, ite_self]

theorem length_push (n : ℕ) (b s : List α) : (push n b s).length =
    if b.length + s.length ≤ n then b.length + s.length else b.length := by
  rw [push, apply_ite List.length, List.length_append]

theorem push_of_full {s : List α} (h : b.length = n) : push n b s = b := by
  rw [push]
  split
  · next hle =>
    obtain rfl : s = [] := List.length_eq_zero_iff.mp (by omega)
    exact List.append_nil b
  · rfl

theorem length_push_le {s : List α} (h : b.length ≤ n) : (push n b s).length ≤ n := by
  rw [push]
  split
  · rwa [List.length_append]
  · exact h

theorem prefix_push (n : ℕ) (b s : List α) : b <+: push n b s := by
  rw [push]
  split
  · exact List.prefix_append b s
  · exact List.prefix_rfl

@[simp] theorem pushAll_cons (s : List α) (pieces : List (List α)) :
    pushAll n b (s :: pieces) = pushAll n (push n b s) pieces := rfl

theorem pushAll_of_le {pieces : List (List α)} (h : b.length + pieces.flatten.length ≤ n) :
    pushAll n b pieces = b ++ pieces.flatten := by
  induction pieces generalizing b with
  | nil => exact (List.append_nil b).symm
  | cons s pieces ih =>
    rw [List.flatten_cons, List.length_append] at h
    rw [pushAll_cons, push_of_le (by omega), ih (by rw [List.length_append]; omega),
      List.flatten_cons, List.append_assoc]

theorem pushAll_of_full {pieces : List (List α)} (h : b.length = n) : pushAll n b pieces = b := by
  induction pieces with
  | nil => rfl
  | cons s pieces ih => rw [pushAll_cons, push_of_full h, ih]

theorem length_pushAll_le (pieces : List (List α)) (h : b.length ≤ n) :
    (pushAll n b pieces).length ≤ n := by
  induction pieces generalizing b with
  | nil => exact h
  | cons s pieces ih => exact ih (length_push_le h)

/-- The pieces are all there exactly when they fit together. -/
theorem pushAll_eq_iff (pieces : List (List α)) (h : b.length ≤ n) :
    pushAll n b pieces = b ++ pieces.flatten ↔ b.length + pieces.flatten.length ≤ n := by
  refine ⟨fun heq => ?_, pushAll_of_le⟩
  rw [← List.length_append, ← heq]
  exact length_pushAll_le pieces h

theorem prefix_pushAll (n : ℕ) (b : List α) (pieces : List (List α)) :
    b <+: pushAll n b pieces := by
  induction pieces generalizing b with
  | nil => exact List.prefix_rfl
  | cons s pieces ih => exact (prefix_push n b s).trans (ih _)

theorem pushWhile_append {pieces : List (List α)} (rest : List (List α))
    (h : b.length + pieces.flatten.length ≤ n) :
    pushWhile n b (pieces ++ rest) = pushWhile n (b ++ pieces.flatten) rest := by
  induction pieces generalizing b with
  | nil => rw [List.nil_append, List.flatten_nil, List.append_nil]
  | cons s pieces ih =>
    rw [List.flatten_cons, List.length_append] at h
    rw [List.cons_append, pushWhile, if_pos (by omega), ih (by rw [List.length_append]; omega),
      List.flatten_cons, List.append_assoc]

theorem length_pushWhile_le (pieces : List (List α)) (h : b.length ≤ n) :
    (pushWhile n b pieces).length ≤ n := by
  induction pieces generalizing b with
  | nil => exact h
  | cons s pieces ih =>
    rw [pushWhile]
    split
    · next hle => exact ih (by rwa [List.length_append])
    · exact h

theorem prefix_pushWhile (n : ℕ) (b : List α) (pieces : List (List α)) :
    b <+: pushWhile n b pieces := by
  induction pieces generalizing b with
  | nil => exact List.prefix_rfl
  | cons s pieces ih =>
    rw [pushWhile]
    split
    · exact (List.prefix_append b s).trans (ih _)
    · exact List.prefix_rfl

/-- Pieces that do not fit together are cut before one of them. -/
theorem pushWhile_cut {pieces : List (List α)} (rest : List (List α)) (hb : b.length ≤ n)
    (h : ¬ b.length + pieces.flatten.length ≤ n) :
    ∃ r < pieces.length, pushWhile n b (pieces ++ rest) = b ++ (pieces.take r).flatten := by
  induction pieces generalizing b with
  | nil => exact absurd hb h
  | cons s pieces ih =>
    rw [List.cons_append, pushWhile]
    split
    · next hle =>
      rw [List.flatten_cons, List.length_append] at h
      obtain ⟨r, hr, hcut⟩ := ih (b := b ++ s) (by rwa [List.length_append])
        (by rw [List.length_append]; omega)
      refine ⟨r + 1, Nat.succ_lt_succ hr, ?_⟩
      rw [hcut, List.take_succ_cons, List.flatten_cons, List.append_assoc]
    · refine ⟨0, Nat.succ_pos _, ?_⟩
      rw [List.take_zero, List.flatten_nil, List.append_nil]

end Push

section Items

variable {n : ℕ} {b : List α}

theorem fitsOrFills_nil {m : ℕ} (h : m ≤ n) : FitsOrFills n m ([] : List (Item α)) := .inl h

theorem fitsOrFills_of_full (items : List (Item α)) : FitsOrFills n n items := .inr ⟨0, rfl⟩

theorem fitsOrFills_cons {m : ℕ} (i : Item α) (items : List (Item α)) :
    FitsOrFills n m (i :: items) ↔
      m = n ∨ (m + i.text.length ≤ n ∧ FitsOrFills n (m + i.text.length) items) := by
  simp only [FitsOrFills, List.flatMap_cons, List.length_append, ← Nat.add_assoc]
  constructor
  · rintro (hfits | ⟨k, hk⟩)
    · exact .inr ⟨by omega, .inl hfits⟩
    · cases k with
      | zero => exact .inl hk
      | succ k =>
        rw [List.take_succ_cons, List.flatMap_cons, List.length_append, ← Nat.add_assoc] at hk
        exact .inr ⟨by omega, .inr ⟨k, hk⟩⟩
  · rintro (rfl | ⟨-, hfits | ⟨k, hk⟩⟩)
    · exact .inr ⟨0, rfl⟩
    · exact .inl hfits
    · refine .inr ⟨k + 1, ?_⟩
      rwa [List.take_succ_cons, List.flatMap_cons, List.length_append, ← Nat.add_assoc]

/-- An item is written as a whole or not at all exactly when it fits or nothing does. -/
theorem pushAll_written_iff (i : Item α) (hb : b.length ≤ n) :
    (pushAll n b i.written = b ∨ pushAll n b i.written = b ++ i.text) ↔
      b.length = n ∨ b.length + i.text.length ≤ n := by
  constructor
  · rintro (hnone | hwhole)
    · by_contra! hroom
      -- the separator has room
      have hlen : (pushAll n (push n b [i.separator]) i.pieces).length = b.length :=
        congrArg List.length hnone
      have hle := (prefix_pushAll n (push n b [i.separator]) i.pieces).length_le
      rw [hlen, push_of_le (by rw [List.length_singleton]; omega), List.length_append,
        List.length_singleton] at hle
      omega
    · have hle := length_pushAll_le i.written hb
      rw [hwhole, List.length_append] at hle
      exact .inr hle
  · rintro (hfull | hfits)
    · exact .inl (pushAll_of_full hfull)
    · exact .inr (pushAll_of_le hfits)

@[simp] theorem pushItems_cons (i : Item α) (items : List (Item α)) :
    pushItems n b (i :: items) = pushItems n (pushAll n b i.written) items := rfl

theorem pushItems_of_full {items : List (Item α)} (h : b.length = n) :
    pushItems n b items = b := by
  induction items with
  | nil => rfl
  | cons i items ih => rw [pushItems_cons, pushAll_of_full h, ih]

theorem pushItems_of_le {items : List (Item α)}
    (h : b.length + (items.flatMap Item.text).length ≤ n) :
    pushItems n b items = b ++ items.flatMap Item.text := by
  induction items generalizing b with
  | nil => exact (List.append_nil b).symm
  | cons i items ih =>
    rw [List.flatMap_cons, List.length_append] at h
    have hitem : pushAll n b i.written = b ++ i.text :=
      pushAll_of_le (show b.length + i.text.length ≤ n by omega)
    rw [pushItems_cons, hitem, ih (by rw [List.length_append]; omega), List.flatMap_cons,
      List.append_assoc]

theorem pushItems_eq_take {items : List (Item α)} (h : FitsOrFills n b.length items) :
    ∃ k, pushItems n b items = b ++ (items.take k).flatMap Item.text := by
  induction items generalizing b with
  | nil => exact ⟨0, (List.append_nil b).symm⟩
  | cons i items ih =>
    rcases (fitsOrFills_cons i items).mp h with hfull | ⟨hfits, hrest⟩
    · exact ⟨0, by rw [pushItems_of_full hfull, List.take_zero, List.flatMap_nil, List.append_nil]⟩
    · obtain ⟨k, hk⟩ := ih (b := b ++ i.text) (by rwa [List.length_append])
      refine ⟨k + 1, ?_⟩
      rw [pushItems_cons, pushAll_of_le hfits]
      exact hk.trans (List.append_assoc b i.text _)

/-- Every item is written as a whole or not at all exactly when all fit or some fill the list. -/
theorem pushItems_whole_iff {items : List (Item α)} (hb : b.length ≤ n) :
    (∀ k i, items[k]? = some i →
      pushItems n b (items.take (k + 1)) = pushItems n b (items.take k) ∨
      pushItems n b (items.take (k + 1)) = pushItems n b (items.take k) ++ i.text) ↔
      FitsOrFills n b.length items := by
  induction items generalizing b with
  | nil => exact iff_of_true (fun k i hk => by simp at hk) (fitsOrFills_nil hb)
  | cons i items ih =>
    have hstep := pushAll_written_iff i hb
    have hrest := ih (length_pushAll_le i.written hb)
    rw [fitsOrFills_cons]
    constructor
    · intro h
      have htail := hrest.mp (fun k j hk => h (k + 1) j hk)
      rcases hstep.mp (h 0 i rfl) with hfull | hfits
      · exact .inl hfull
      · refine .inr ⟨hfits, ?_⟩
        rwa [pushAll_of_le hfits, List.length_append] at htail
    · intro h k j hk
      have htail : FitsOrFills n (pushAll n b i.written).length items := by
        rcases h with hfull | ⟨hfits, hrest⟩
        · rw [pushAll_of_full hfull, hfull]
          exact fitsOrFills_of_full items
        · rwa [pushAll_of_le hfits, List.length_append]
      cases k with
      | zero =>
        obtain rfl : i = j := Option.some.inj hk
        exact hstep.mpr (h.imp_right And.left)
      | succ k => exact hrest.mpr htail k j hk

theorem pushUntil_cons_of_le (i : Item α) (items : List (Item α))
    (h : b.length + i.text.length ≤ n) :
    pushUntil n b (i :: items) = pushUntil n (b ++ i.text) items :=
  pushWhile_append (items.flatMap Item.written) h

theorem pushUntil_of_le {items : List (Item α)}
    (h : b.length + (items.flatMap Item.text).length ≤ n) :
    pushUntil n b items = b ++ items.flatMap Item.text := by
  induction items generalizing b with
  | nil => exact (List.append_nil b).symm
  | cons i items ih =>
    rw [List.flatMap_cons, List.length_append] at h
    rw [pushUntil_cons_of_le i items (by omega), ih (by rw [List.length_append]; omega),
      List.flatMap_cons, List.append_assoc]

/-- Behind an item that fits, the writer ends with an item when it does so for the others. -/
theorem pushUntil_cons_eq_take_iff_of_le (i : Item α) (items : List (Item α))
    (h : b.length + i.text.length ≤ n) :
    (∃ k, pushUntil n b (i :: items) = b ++ ((i :: items).take k).flatMap Item.text) ↔
      ∃ k, pushUntil n (b ++ i.text) items = b ++ i.text ++ (items.take k).flatMap Item.text := by
  have hsep := i.length_text_pos
  rw [pushUntil_cons_of_le i items h]
  constructor
  · rintro ⟨k, hk⟩
    cases k with
    | zero =>
      have hlen := (prefix_pushWhile n (b ++ i.text) (items.flatMap Item.written)).length_le
      rw [pushUntil] at hk
      rw [hk, List.take_zero, List.flatMap_nil, List.append_nil, List.length_append] at hlen
      omega
    | succ k => exact ⟨k, by rw [hk, List.take_succ_cons, List.flatMap_cons, List.append_assoc]⟩
  · rintro ⟨k, hk⟩
    exact ⟨k + 1, by rw [hk, List.take_succ_cons, List.flatMap_cons, List.append_assoc]⟩

/-- At an item that does not fit, the writer ends with an item when nothing fits. -/
theorem pushUntil_cons_eq_take_iff_of_not_le (i : Item α) (items : List (Item α))
    (hb : b.length ≤ n) (h : ¬ b.length + i.text.length ≤ n) :
    (∃ k, pushUntil n b (i :: items) = b ++ ((i :: items).take k).flatMap Item.text) ↔
      b.length = n := by
  constructor
  · rintro ⟨k, hk⟩
    by_contra hroom
    cases k with
    | zero =>
      -- the separator has room, so more than `b` is written
      have hlen := (prefix_pushWhile n (b ++ [i.separator])
        (i.pieces ++ items.flatMap Item.written)).length_le
      have hwrite : pushUntil n b (i :: items) = pushWhile n (b ++ [i.separator])
          (i.pieces ++ items.flatMap Item.written) := by
        change (if _ then _ else _) = _
        exact if_pos (by rw [List.length_singleton]; omega)
      rw [← hwrite, hk, List.take_zero, List.flatMap_nil, List.append_nil, List.length_append,
        List.length_singleton] at hlen
      omega
    | succ k =>
      have hle := length_pushWhile_le ((i :: items).flatMap Item.written) hb
      rw [pushUntil] at hk
      rw [hk, List.take_succ_cons, List.flatMap_cons, List.length_append, List.length_append] at hle
      omega
  · intro hfull
    refine ⟨0, ?_⟩
    change (if _ then _ else _) = _
    rw [if_neg (by rw [List.length_singleton]; omega), List.take_zero, List.flatMap_nil,
      List.append_nil]

/-- What is written up to the first piece without room ends with an item exactly when all items fit
or some fill the list. -/
theorem pushUntil_eq_take_iff {items : List (Item α)} (hb : b.length ≤ n) :
    (∃ k, pushUntil n b items = b ++ (items.take k).flatMap Item.text) ↔
      FitsOrFills n b.length items := by
  induction items generalizing b with
  | nil => exact iff_of_true ⟨0, (List.append_nil b).symm⟩ (fitsOrFills_nil hb)
  | cons i items ih =>
    rw [fitsOrFills_cons]
    by_cases hfits : b.length + i.text.length ≤ n
    · have hsep := i.length_text_pos
      rw [pushUntil_cons_eq_take_iff_of_le i items hfits, ih (by rwa [List.length_append]),
        List.length_append]
      refine ⟨fun h => .inr ⟨hfits, h⟩, ?_⟩
      rintro (hfull | ⟨-, h⟩)
      · omega
      · exact h
    · rw [pushUntil_cons_eq_take_iff_of_not_le i items hb hfits]
      exact ⟨.inl, fun h => h.resolve_right (fun hboth => hfits hboth.1)⟩

/-- What is written is a number of whole items and some pieces of the next one. -/
theorem pushUntil_eq_cut (hb : b.length ≤ n) (items : List (Item α)) :
    ∃ j, pushUntil n b items = b ++ (items.take j).flatMap Item.text ∨
      ∃ i r, items[j]? = some i ∧ r < i.written.length ∧
        pushUntil n b items =
          b ++ (items.take j).flatMap Item.text ++ (i.written.take r).flatten := by
  induction items generalizing b with
  | nil => exact ⟨0, .inl (List.append_nil b).symm⟩
  | cons i items ih =>
    by_cases hfits : b.length + i.text.length ≤ n
    · obtain ⟨j, hwhole | ⟨i', r, hi, hr, hcut⟩⟩ :=
        ih (b := b ++ i.text) (by rwa [List.length_append])
      · refine ⟨j + 1, .inl ?_⟩
        rw [pushUntil_cons_of_le i items hfits, hwhole, List.take_succ_cons, List.flatMap_cons,
          List.append_assoc]
      · refine ⟨j + 1, .inr ⟨i', r, hi, hr, ?_⟩⟩
        rw [pushUntil_cons_of_le i items hfits, hcut, List.take_succ_cons, List.flatMap_cons,
          List.append_assoc b]
    · obtain ⟨r, hr, hcut⟩ := pushWhile_cut (items.flatMap Item.written) hb hfits
      refine ⟨0, .inr ⟨i, r, rfl, hr, ?_⟩⟩
      rw [List.take_zero, List.flatMap_nil, List.append_nil]
      exact hcut

end Items
end Bounded
