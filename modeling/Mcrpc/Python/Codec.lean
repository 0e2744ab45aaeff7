import Mcrpc.Python.Builtins

/-!
# The key=value codec of the Python package

`codec.py`.
-/

namespace Mcrpc

/-- One turn of the loop of `parse_kv_pairs`. -/
def addPair (out : Dict Text Text) (tok : Text) : Dict Text Text :=
  if '=' ∈ tok then
    let kv := partition '=' tok
    if kv.1 = [] then out else out.set kv.1 kv.2
  else out

def parseKvPairs (tokens : List Text) : Dict Text Text := tokens.foldl addPair Dict.empty

def splitTokens (line : Text) : List Text := (split (strip line)).filter (· ≠ [])

/-- `format_kv` of a dictionary without `None`. -/
def formatKv (kv : Dict Text Text) : Text :=
  join [' '] (kv.entries.map (fun e => e.1 ++ '=' :: e.2))

namespace Python

variable {F : Type} (py : Python F)

def coerceNumber (value : Text) : PyValue F :=
  if '.' ∈ value ∨ 'e' ∈ py.lower value then
    match py.float value with
    | some x => .float x
    | none => .str value
  else
    match py.int value with
    | some n => .int n
    | none => .str value

end Python

theorem splitTokens_eq_split (line : Text) : splitTokens line = split line := by
  have hne : ∀ t ∈ split line, decide (t ≠ []) = true := by
    intro t ht
    have := (List.mem_filter.mp ht).2
    cases t with
    | nil => cases this
    | cons c t => rfl
  rw [splitTokens, split_strip, List.filter_eq_self.mpr hne]

/-- Tokens with other keys leave the value of a key. -/
theorem get_foldl_addPair_of_ne {tokens : List Text} {key : Text}
    (h : ∀ tok ∈ tokens, '=' ∈ tok → (partition '=' tok).1 ≠ key) (out : Dict Text Text) :
    (tokens.foldl addPair out).get key = out.get key := by
  induction tokens generalizing out with
  | nil => rfl
  | cons tok tokens ih =>
    obtain ⟨htok, htokens⟩ := List.forall_mem_cons.mp h
    rw [List.foldl_cons, ih htokens, addPair]
    split
    · next heq =>
      dsimp only
      split
      · rfl
      · exact Dict.get_set_of_ne out _ (htok heq).symm
    · rfl

theorem mem_foldl_addPair {tokens : List Text} {out : Dict Text Text} {e : Text × Text}
    (h : e ∈ (tokens.foldl addPair out).entries) :
    e ∈ out.entries ∨ ∃ tok ∈ tokens, '=' ∈ tok ∧ partition '=' tok = e := by
  induction tokens generalizing out with
  | nil => exact .inl h
  | cons tok tokens ih =>
    rcases ih h with hout | ⟨tok', hmem, htok⟩
    · dsimp only [addPair] at hout
      split_ifs at hout with heq
      · exact .inl hout
      · rcases Dict.mem_set hout with rfl | hout
        · exact .inr ⟨tok, List.mem_cons_self, heq, rfl⟩
        · exact .inl hout
      · exact .inl hout
    · exact .inr ⟨tok', List.mem_cons_of_mem tok hmem, htok⟩

/-- Every pair that is read is one of the tokens. -/
theorem mem_parseKvPairs {tokens : List Text} {e : Text × Text}
    (h : e ∈ (parseKvPairs tokens).entries) : ∃ tok ∈ tokens, '=' ∈ tok ∧ partition '=' tok = e :=
  (mem_foldl_addPair h).resolve_left List.not_mem_nil

end Mcrpc
