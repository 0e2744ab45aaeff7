import Mcrpc.Lib.Scan

/-!
# Strings in fixed arrays

An array holds a string when it has the terminator `z`; the string is what stands before the first
one. `put` is the bounded copy: as much of a text as leaves room for a terminator, the terminator,
and behind it the array as it was. An array without places stays as it is.
-/

namespace CString

section Put

variable {α : Type*} {z : α} {s dest : List α}

/-- As much of the text as leaves room for a terminator. -/
def fit (size : ℕ) (s : List α) : List α := s.take (size - 1)

def put (z : α) (s dest : List α) : List α :=
  if dest = [] then [] else fit dest.length s ++ z :: dest.drop ((fit dest.length s).length + 1)

theorem length_fit_lt (h : dest ≠ []) : (fit dest.length s).length < dest.length := by
  have := List.length_pos_iff.mpr h
  rw [fit, List.length_take]
  omega

theorem fit_of_lt {size : ℕ} (h : s.length < size) : fit size s = s :=
  List.take_of_length_le (by omega)

theorem put_of_ne_nil (h : dest ≠ []) : put z s dest =
    fit dest.length s ++ z :: dest.drop ((fit dest.length s).length + 1) := if_neg h

theorem length_put (z : α) (s dest : List α) : (put z s dest).length = dest.length := by
  rw [put]
  split
  · next h => rw [h]
  · next h =>
    have hlt := length_fit_lt (s := s) h
    simp only [List.length_append, List.length_cons, List.length_drop]
    omega

/-- The copy always ends in a terminator inside the array. -/
theorem mem_put (s : List α) (h : dest ≠ []) : z ∈ put z s dest := by
  rw [put_of_ne_nil h]
  exact List.mem_append_right _ List.mem_cons_self

/-- The whole text and its terminator are written exactly when they have room. -/
theorem prefix_put_iff : s ++ [z] <+: put z s dest ↔ s.length < dest.length := by
  constructor
  · rintro ⟨rest, hrest⟩
    have hlen := congrArg List.length hrest
    rw [length_put] at hlen
    simp only [List.length_append, List.length_cons, List.length_nil] at hlen
    omega
  · intro hlt
    have hne : dest ≠ [] := List.ne_nil_of_length_pos (by omega)
    rw [put_of_ne_nil hne, fit_of_lt hlt]
    exact ⟨dest.drop (s.length + 1), by rw [List.append_assoc, List.singleton_append]⟩

end Put

section Read

variable {α : Type*} [DecidableEq α] {z : α} {s dest : List α}

/-- What stands before the first terminator, when there is one. -/
def read (z : α) (bytes : List α) : Option (List α) :=
  if z ∈ bytes then some (bytes.takeWhile (· ≠ z)) else none

theorem read_isSome_iff {bytes : List α} : (read z bytes).isSome = true ↔ z ∈ bytes := by
  rw [read]
  split <;> simp [*]

theorem read_append (hs : z ∉ s) (rest : List α) : read z (s ++ z :: rest) = some s := by
  rw [read, if_pos (List.mem_append_right _ List.mem_cons_self),
    List.takeWhile_append_of_pos (Scan.all_ne_of_not_mem hs),
    List.takeWhile_cons_of_neg (by simp), List.append_nil]

theorem read_put (hs : z ∉ s) (h : dest ≠ []) :
    read z (put z s dest) = some (fit dest.length s) := by
  rw [put_of_ne_nil h]
  exact read_append (fun hmem => hs (List.mem_of_mem_take hmem)) _

end Read

end CString
