import Mcrpc.Types
import Mcrpc.Lib.Scan
import Mcrpc.Lib.Bounded
import Mathlib.Tactic.Common

/-!
# The fixed reply buffer

`ReplyBuffer` of `McRpcTypes.h` with its array: `data` keeps its size, `len` stays inside it and
`data[len]` is NUL after every operation, so the three facts are fields. `text` is the written
prefix, `cstr` what a reader of the C string `data` sees; they agree on NUL-free text.
-/

namespace Mcrpc

def nul : Char := '\x00'

abbrev CText := {s : Text // nul ∉ s}

structure ReplyBuffer where
  data : List Char
  len : ℕ
  length_data : data.length = maxReply
  len_lt : len < maxReply
  terminated : data[len]? = some nul

namespace ReplyBuffer

variable (b : ReplyBuffer)

def init : ReplyBuffer where
  data := List.replicate maxReply nul
  len := 0
  length_data := List.length_replicate
  len_lt := by decide
  terminated := by decide

def text : Text := b.data.take b.len

def cstr : Text := b.data.takeWhile (· ≠ nul)

/-- `memcpy(data + len, s, n); len += n; data[len] = 0` within the array. -/
def store (s : Text) (h : b.len + s.length < maxReply) : ReplyBuffer where
  data := b.data.take b.len ++ s ++ nul :: b.data.drop (b.len + s.length + 1)
  len := b.len + s.length
  length_data := by
    have := b.length_data
    simp only [List.length_append, List.length_take, List.length_cons, List.length_drop]
    omega
  len_lt := h
  terminated := by
    have hl := b.length_data
    have hw : (b.data.take b.len ++ s).length = b.len + s.length := by
      simp only [List.length_append, List.length_take]
      omega
    rw [List.getElem?_append_right (by omega), hw, Nat.sub_self, List.getElem?_cons_zero]

def clear : ReplyBuffer where
  data := nul :: b.data.drop 1
  len := 0
  length_data := by
    have := b.length_data
    simp only [List.length_cons, List.length_drop, this]
    decide
  len_lt := by decide
  terminated := rfl

def append (s : Text) : Bool × ReplyBuffer :=
  if h : b.len + s.length < maxReply then (true, b.store s h) else (false, b)

def appendChar (c : Char) : Bool × ReplyBuffer :=
  if h : b.len + 1 < maxReply then (true, b.store [c] h) else (false, b)

/-- `formatted` is what `vsnprintf` would write with room for everything; `tmp` cuts it. -/
def printf (formatted : Text) : Bool × ReplyBuffer :=
  b.append (formatted.take (maxReply - 1))

@[simp] theorem length_text : b.text.length = b.len := by
  have := b.len_lt
  have := b.length_data
  simp only [text, List.length_take]
  omega

theorem length_text_le : b.text.length ≤ maxReply - 1 :=
  b.length_text.trans_le (Nat.le_pred_of_lt b.len_lt)

theorem data_eq : ∃ rest, b.data = b.text ++ nul :: rest := by
  refine ⟨b.data.drop (b.len + 1), ?_⟩
  have hlt : b.len < b.data.length := by rw [b.length_data]; exact b.len_lt
  have hn : b.data[b.len] = nul := by
    have ht := b.terminated
    rw [List.getElem?_eq_getElem hlt] at ht
    exact Option.some.inj ht
  rw [text, ← hn, ← List.drop_eq_getElem_cons hlt, List.take_append_drop]

theorem cstr_eq_text (h : nul ∉ b.text) : b.cstr = b.text := by
  obtain ⟨rest, hd⟩ := b.data_eq
  rw [cstr, hd, List.takeWhile_append_of_pos (Scan.all_ne_of_not_mem h),
    List.takeWhile_cons_of_neg (by simp), List.append_nil]

theorem cstr_of_text {s : Text} (h : b.text = s) (hnul : nul ∉ s) : b.cstr = s :=
  (b.cstr_eq_text (h ▸ hnul)).trans h

theorem nul_not_mem_cstr : nul ∉ b.cstr := by
  intro h
  have := Scan.mem_takeWhile h
  simp at this

theorem length_cstr_le : b.cstr.length ≤ b.len := by
  obtain ⟨rest, hd⟩ := b.data_eq
  rw [cstr, hd, List.takeWhile_append]
  split
  · rw [List.takeWhile_cons_of_neg (by simp), List.append_nil, length_text]
  · rw [← b.length_text]
    exact (List.takeWhile_prefix _).length_le

theorem length_cstr_lt : b.cstr.length < maxReply :=
  Nat.lt_of_le_of_lt b.length_cstr_le b.len_lt

@[simp] theorem text_init : init.text = [] := rfl

@[simp] theorem text_clear : b.clear.text = [] := rfl

@[simp] theorem text_store (s : Text) (h : b.len + s.length < maxReply) :
    (b.store s h).text = b.text ++ s := by
  have hw : (b.data.take b.len ++ s).length = b.len + s.length := by
    rw [List.length_append]
    exact congrArg (· + s.length) b.length_text
  exact List.take_left' hw

theorem append_fst (s : Text) :
    (b.append s).1 = decide (b.text.length + s.length < maxReply) := by
  rw [length_text, append]
  split <;> simp [*]

theorem append_fst_iff (s : Text) :
    (b.append s).1 = true ↔ b.text.length + s.length ≤ maxReply - 1 := by
  rw [append_fst, decide_eq_true_eq]
  exact Nat.lt_iff_le_pred (by decide)

theorem text_append (s : Text) : (b.append s).2.text =
    if b.text.length + s.length < maxReply then b.text ++ s else b.text := by
  rw [length_text, append]
  split <;> simp

theorem text_append_eq_push (s : Text) :
    (b.append s).2.text = Bounded.push (maxReply - 1) b.text s := by
  rw [text_append, Bounded.push]
  exact if_congr (Nat.lt_iff_le_pred (by decide)) rfl rfl

/-- Either the whole text has room and is added, or nothing is. -/
theorem append_spec (s : Text) :
    (b.len + s.length < maxReply ∧
      ∃ r, b.append s = (true, r) ∧ r.len = b.len + s.length ∧ r.text = b.text ++ s) ∨
    (maxReply ≤ b.len + s.length ∧ b.append s = (false, b)) := by
  rw [append]
  split
  · next h => exact .inl ⟨h, b.store s h, rfl, rfl, text_store b s h⟩
  · next h => exact .inr ⟨Nat.le_of_not_lt h, rfl⟩

theorem appendChar_eq_append (c : Char) : b.appendChar c = b.append [c] := rfl

end ReplyBuffer
end Mcrpc
