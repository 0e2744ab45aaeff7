import Mcrpc.CanonicalCsv
import Mcrpc.Python.Discover
import Mcrpc.Python.Response
import Mathlib.Data.List.Perm.Lattice

/-!
# The canonical set of names

What `canonicalizeCsv` writes: the sorted set of the lower-cased names with commas between them, as
long as the tokens and the text have room. `sortedSet` of the Python package is the same list.
-/

namespace Mcrpc

/-! ### Sorted lists of texts -/

def NotAfter (a b : Text) : Prop := ¬ b < a

theorem NotAfter.trans {a b c : Text} (hab : NotAfter a b) (hbc : NotAfter b c) : NotAfter a c :=
  List.le_trans hab hbc

theorem NotAfter.antisymm {a b : Text} (hab : NotAfter a b) (hba : NotAfter b a) : a = b :=
  List.le_antisymm hab hba

theorem notAfter_total (a b : Text) : NotAfter a b ∨ NotAfter b a := List.le_total a b

theorem lt_of_notAfter {a b : Text} (h : NotAfter a b) (hne : a ≠ b) : a < b := by
  by_contra hlt
  exact hne (h.antisymm hlt)

/-- A sorted list is determined by its elements. -/
theorem eq_of_perm_of_notAfter {xs ys : List Text} (hperm : xs.Perm ys)
    (hxs : xs.Pairwise NotAfter) (hys : ys.Pairwise NotAfter) : xs = ys :=
  hperm.eq_of_pairwise (fun _ _ _ _ => NotAfter.antisymm) hxs hys

theorem perm_sortedSet (xs : List Text) : (sortedSet xs).Perm xs.dedup := List.mergeSort_perm _ _

theorem mem_sortedSet {xs : List Text} {x : Text} : x ∈ sortedSet xs ↔ x ∈ xs :=
  (perm_sortedSet xs).mem_iff.trans List.mem_dedup

theorem nodup_sortedSet (xs : List Text) : (sortedSet xs).Nodup :=
  (perm_sortedSet xs).nodup_iff.mpr (List.nodup_dedup xs)

theorem pairwise_sortedSet (xs : List Text) : (sortedSet xs).Pairwise NotAfter := by
  have h : (sortedSet xs).Pairwise (fun a b => (!decide (b < a)) = true) := by
    refine List.pairwise_mergeSort ?_ ?_ xs.dedup
    · intro a b c hab hbc
      simp only [Bool.not_eq_true', decide_eq_false_iff_not] at *
      exact NotAfter.trans hab hbc
    · intro a b
      simp only [Bool.or_eq_true, Bool.not_eq_true', decide_eq_false_iff_not]
      exact notAfter_total a b
  refine h.imp (fun hab => ?_)
  rwa [Bool.not_eq_true', decide_eq_false_iff_not] at hab

theorem strict_sortedSet (xs : List Text) : (sortedSet xs).Pairwise (· < ·) :=
  List.Pairwise.imp₂ (fun _ _ h hne => lt_of_notAfter h hne) (pairwise_sortedSet xs)
    (nodup_sortedSet xs)

/-- A list without repetitions and with the same elements sorts to the same set. -/
theorem eq_sortedSet {xs ys : List Text} (hsorted : ys.Pairwise NotAfter) (hnodup : ys.Nodup)
    (hmem : ∀ x, x ∈ ys ↔ x ∈ xs) : ys = sortedSet xs := by
  refine eq_of_perm_of_notAfter ?_ hsorted (pairwise_sortedSet xs)
  refine (List.perm_ext_iff_of_nodup hnodup (nodup_sortedSet xs)).mpr (fun x => ?_)
  rw [hmem, mem_sortedSet]

/-! ### The tokens and their order -/

def addToken (buf : List Text) : Option Text → List Text
  | none => buf
  | some t =>
    if t = [] ∨ lower (copyToken csvToken t) ∈ buf then buf
    else buf ++ [lower (copyToken csvToken t)]

theorem collectTokens_cons (token : Option Text) (tokens : List (Option Text)) (buf : List Text) :
    collectTokens (token :: tokens) buf =
      if csvMaxTokens ≤ buf.length then buf else collectTokens tokens (addToken buf token) := by
  rw [collectTokens.eq_def]
  refine if_congr Iff.rfl rfl ?_
  cases token with
  | none => rfl
  | some t =>
    dsimp only [addToken]
    by_cases hnil : t = []
    · rw [if_pos hnil, if_pos (.inl hnil)]
    · rw [if_neg hnil]
      by_cases hdup : lower (copyToken csvToken t) ∈ buf
      · rw [if_pos hdup, if_pos (.inr hdup)]
      · rw [if_neg hdup, if_neg (not_or.mpr ⟨hnil, hdup⟩)]

theorem mem_addToken {buf : List Text} {token : Option Text} {x : Text} :
    x ∈ addToken buf token ↔
      x ∈ buf ∨ ∃ t, some t = token ∧ t ≠ [] ∧ x = lower (copyToken csvToken t) := by
  cases token with
  | none => simp [addToken]
  | some t =>
    simp only [addToken, Option.some.injEq, exists_eq_left]
    split_ifs with h
    · rcases h with hnil | hdup
      · simp [hnil]
      · exact ⟨.inl, fun hx => hx.elim id (fun hx => hx.2 ▸ hdup)⟩
    · rw [List.mem_append, List.mem_singleton, and_iff_right (not_or.mp h).1]

theorem nodup_addToken {buf : List Text} (h : buf.Nodup) (token : Option Text) :
    (addToken buf token).Nodup := by
  cases token with
  | none => exact h
  | some t =>
    rw [addToken]
    split_ifs with hkeep
    · exact h
    · rw [← List.concat_eq_append]
      exact h.concat (not_or.mp hkeep).2

theorem length_addToken_le (buf : List Text) (token : Option Text) :
    (addToken buf token).length ≤ buf.length + 1 := by
  cases token with
  | none => exact Nat.le_succ _
  | some t =>
    rw [addToken]
    split_ifs
    · exact Nat.le_succ _
    · rw [List.length_append, List.length_singleton]

theorem mem_of_mem_collectTokens {tokens : List (Option Text)} {buf : List Text} {x : Text}
    (h : x ∈ collectTokens tokens buf) :
    x ∈ buf ∨ ∃ t, some t ∈ tokens ∧ t ≠ [] ∧ x = lower (copyToken csvToken t) := by
  induction tokens generalizing buf with
  | nil => exact .inl h
  | cons token tokens ih =>
    rw [collectTokens_cons] at h
    split at h
    · exact .inl h
    · rcases ih h with hbuf | ⟨t, ht, hx⟩
      · refine (mem_addToken.mp hbuf).imp_right (fun ⟨t, ht, hx⟩ => ⟨t, ?_, hx⟩)
        rw [ht]
        exact List.mem_cons_self
      · exact .inr ⟨t, List.mem_cons_of_mem token ht, hx⟩

theorem nodup_collectTokens {tokens : List (Option Text)} {buf : List Text} (h : buf.Nodup) :
    (collectTokens tokens buf).Nodup := by
  induction tokens generalizing buf with
  | nil => exact h
  | cons token tokens ih =>
    rw [collectTokens_cons]
    split
    · exact h
    · exact ih (nodup_addToken h token)

/-- With room for all tokens none is left out. -/
theorem mem_collectTokens {tokens : List (Option Text)} {buf : List Text}
    (hroom : buf.length + tokens.length ≤ csvMaxTokens) {x : Text} :
    x ∈ collectTokens tokens buf ↔
      x ∈ buf ∨ ∃ t, some t ∈ tokens ∧ t ≠ [] ∧ x = lower (copyToken csvToken t) := by
  induction tokens generalizing buf with
  | nil => simp [collectTokens]
  | cons token tokens ih =>
    rw [List.length_cons] at hroom
    have hrest : (addToken buf token).length + tokens.length ≤ csvMaxTokens := by
      have := length_addToken_le buf token
      omega
    rw [collectTokens_cons, if_neg (by omega), ih hrest, mem_addToken, or_assoc]
    simp only [List.mem_cons, or_and_right, exists_or]

theorem perm_insertKey (key : Text) (xs : List Text) : (insertKey key xs).Perm (key :: xs) := by
  induction xs with
  | nil => exact .refl _
  | cons x xs ih =>
    rw [insertKey]
    split
    · exact (ih.cons x).trans (.swap key x xs)
    · exact .refl _

theorem pairwise_insertKey {key : Text} {xs : List Text}
    (h : xs.Pairwise (fun a b => NotAfter b a)) :
    (insertKey key xs).Pairwise (fun a b => NotAfter b a) := by
  induction xs with
  | nil => exact List.pairwise_singleton _ key
  | cons x xs ih =>
    obtain ⟨hx, hrest⟩ := List.pairwise_cons.mp h
    rw [insertKey]
    split
    · next hlt =>
      refine List.pairwise_cons.mpr ⟨fun y hy => ?_, ih hrest⟩
      rcases List.mem_cons.mp ((perm_insertKey key xs).mem_iff.mp hy) with rfl | hy
      · exact List.lt_asymm hlt
      · exact hx y hy
    · next hlt =>
      refine List.pairwise_cons.mpr ⟨fun y hy => ?_, h⟩
      rcases List.mem_cons.mp hy with rfl | hy
      · exact hlt
      · exact (hx y hy).trans hlt

theorem perm_insertionSort (buf : List Text) : (insertionSort buf).Perm buf := by
  have hfold (sorted : List Text) : (buf.foldl (fun sorted key => insertKey key sorted)
      sorted).Perm (buf ++ sorted) := by
    induction buf generalizing sorted with
    | nil => exact .refl _
    | cons key buf ih =>
      rw [List.foldl_cons, List.cons_append]
      exact (ih _).trans (((perm_insertKey key sorted).append_left buf).trans
        List.perm_middle)
  rw [insertionSort]
  have h := hfold []
  rw [List.append_nil] at h
  exact (List.reverse_perm _).trans h

theorem pairwise_insertionSort (buf : List Text) : (insertionSort buf).Pairwise NotAfter := by
  have hfold (sorted : List Text) (h : sorted.Pairwise (fun a b => NotAfter b a)) :
      (buf.foldl (fun sorted key => insertKey key sorted) sorted).Pairwise
        (fun a b => NotAfter b a) := by
    induction buf generalizing sorted with
    | nil => exact h
    | cons key buf ih =>
      rw [List.foldl_cons]
      exact ih _ (pairwise_insertKey h)
  rw [insertionSort, List.pairwise_reverse]
  exact hfold [] List.Pairwise.nil

/-! ### The output -/

def csvText : List Text → Bool → Text
  | [], _ => []
  | t :: tokens, first => (if first then t else ',' :: t) ++ csvText tokens false

theorem csvText_eq_join (tokens : List Text) : csvText tokens true = join [','] tokens := by
  have hrest (tokens : List Text) : csvText tokens false = tokens.flatMap (',' :: ·) := by
    induction tokens with
    | nil => rfl
    | cons t tokens ih => rw [csvText, ih]; rfl
  cases tokens with
  | nil => rfl
  | cons t tokens => rw [join_cons, csvText, hrest]; rfl

theorem length_writeAt {out : List Char} {pos : ℕ} {s : Text} (h : pos + s.length ≤ out.length) :
    (writeAt out pos s).length = out.length := by
  simp only [writeAt, List.length_append, List.length_take, List.length_drop]
  omega

theorem take_writeAt {out : List Char} {pos : ℕ} {s : Text} (h : pos + s.length ≤ out.length) :
    (writeAt out pos s).take (pos + s.length) = out.take pos ++ s := by
  refine List.take_left' ?_
  rw [List.length_append, List.length_take]
  omega

/-- The output loop from place `len` on. -/
theorem writeTokens_spec (tokens : List Text) (first : Bool) {len : ℕ} {out : List Char}
    (hlen : len < out.length) :
    ((writeTokens tokens first len out).1 = true ↔
      len + (csvText tokens first).length < out.length) ∧
    ((writeTokens tokens first len out).1 = true → ∃ rest,
      (writeTokens tokens first len out).2 =
        out.take len ++ csvText tokens first ++ nul :: rest) := by
  induction tokens generalizing first len out with
  | nil =>
    refine ⟨iff_of_true rfl hlen, fun _ => ⟨out.drop (len + 1), ?_⟩⟩
    rw [writeTokens, writeAt, csvText, List.append_nil]
    simp
  | cons t tokens ih =>
    rw [writeTokens, csvText]
    generalize (if first then t else ',' :: t) = piece
    rw [List.length_append]
    split
    · next hfull =>
      exact ⟨iff_of_false Bool.false_ne_true (by omega), fun h => absurd h Bool.false_ne_true⟩
    · next hroom =>
      have hsize : (writeAt out len piece).length = out.length := length_writeAt (by omega)
      obtain ⟨hiff, htext⟩ :=
        ih false (show len + piece.length < (writeAt out len piece).length by omega)
      rw [hsize] at hiff
      refine ⟨hiff.trans (by omega), fun h => ?_⟩
      obtain ⟨rest, hrest⟩ := htext h
      rw [take_writeAt (by omega)] at hrest
      exact ⟨rest, by rw [hrest]; simp⟩

def csvTokens (tokens : List (Option Text)) : List Text := insertionSort (collectTokens tokens [])

/-- `canonicalizeCsv` succeeds exactly when the text and its NUL have room, and then writes it. -/
theorem canonicalizeCsv_spec (tokens : List (Option Text)) {out : List Char} (hout : out ≠ []) :
    ((canonicalizeCsv tokens out).1 = true ↔
      (join [','] (csvTokens tokens)).length < out.length) ∧
    ((canonicalizeCsv tokens out).1 = true → ∃ rest,
      (canonicalizeCsv tokens out).2 = join [','] (csvTokens tokens) ++ nul :: rest) := by
  have hpos := List.length_pos_iff.mpr hout
  have hsize : (writeAt out 0 [nul]).length = out.length := length_writeAt (by
    rw [List.length_singleton]
    omega)
  rw [canonicalizeCsv, if_neg hout]
  dsimp only
  split
  · next hnil =>
    subst hnil
    refine ⟨iff_of_true rfl hpos, fun _ => ⟨out.drop 1, ?_⟩⟩
    rfl
  · have h := writeTokens_spec (csvTokens tokens) true
      (show 0 < (writeAt out 0 [nul]).length by omega)
    rwa [hsize, csvText_eq_join, Nat.zero_add, List.take_zero, List.nil_append] at h

/-! ### The set of the names -/

/-- The names `canonicalizeCsv` finds in its tokens, each cut to its place. -/
def csvNames (tokens : List (Option Text)) : List Text :=
  ((tokens.filterMap id).filter (· ≠ [])).map (fun t => lower (copyToken csvToken t))

theorem mem_csvNames {tokens : List (Option Text)} {x : Text} :
    x ∈ csvNames tokens ↔
      ∃ t, some t ∈ tokens ∧ t ≠ [] ∧ x = lower (copyToken csvToken t) := by
  simp only [csvNames, List.mem_map, List.mem_filter, List.mem_filterMap, id_eq,
    exists_eq_right, decide_eq_true_eq, and_assoc, @eq_comm _ x]

theorem length_csvNames_le (tokens : List (Option Text)) :
    (csvNames tokens).length ≤ tokens.length := by
  rw [csvNames, List.length_map]
  exact (List.length_filter_le _ _).trans (List.length_filterMap_le _ _)

/-- The insertion sort over the loop that drops repetitions is the sorted set. -/
theorem csvTokens_eq_sortedSet {tokens : List (Option Text)}
    (h : tokens.length ≤ csvMaxTokens) : csvTokens tokens = sortedSet (csvNames tokens) := by
  refine eq_sortedSet (pairwise_insertionSort _)
    ((perm_insertionSort _).nodup_iff.mpr (nodup_collectTokens List.nodup_nil)) (fun x => ?_)
  have hroom : ([] : List Text).length + tokens.length ≤ csvMaxTokens := by
    rwa [List.length_nil, Nat.zero_add]
  rw [csvTokens, (perm_insertionSort _).mem_iff, mem_collectTokens hroom, mem_csvNames]
  exact or_iff_right List.not_mem_nil

theorem length_csvTokens_le {tokens : List (Option Text)} (h : tokens.length ≤ csvMaxTokens) :
    (csvTokens tokens).length ≤ csvMaxTokens := by
  rw [csvTokens_eq_sortedSet h]
  calc (sortedSet (csvNames tokens)).length = (csvNames tokens).dedup.length :=
        (perm_sortedSet _).length_eq
    _ ≤ (csvNames tokens).length := (List.dedup_sublist _).length_le
    _ ≤ csvMaxTokens := (length_csvNames_le tokens).trans h

/-- The set a list of tokens stands for: its names in lower case. -/
def nameSet (tokens : List (Option Text)) : Set Text :=
  {x | ∃ t, some t ∈ tokens ∧ t ≠ [] ∧ x = lower t}

theorem nameSet_of_perm {tokens tokens' : List (Option Text)} (h : tokens.Perm tokens') :
    nameSet tokens = nameSet tokens' := by
  ext x
  exact exists_congr (fun t => and_congr_left' h.mem_iff)

theorem nameSet_cons_of_mem {tokens : List (Option Text)} {token : Option Text}
    (h : token ∈ tokens) : nameSet (token :: tokens) = nameSet tokens := by
  ext x
  refine exists_congr (fun t => and_congr_left' ?_)
  rw [List.mem_cons, or_iff_right_iff_imp]
  exact fun heq => heq ▸ h

theorem nameSet_of_lower {tokens tokens' : List (Option Text)}
    (h : tokens.map (Option.map lower) = tokens'.map (Option.map lower)) :
    nameSet tokens = nameSet tokens' := by
  have hset (tokens : List (Option Text)) :
      nameSet tokens = {x | x ≠ [] ∧ some x ∈ tokens.map (Option.map lower)} := by
    ext x
    constructor
    · rintro ⟨t, ht, hne, rfl⟩
      refine ⟨?_, List.mem_map.mpr ⟨some t, ht, rfl⟩⟩
      rwa [ne_eq, lower, List.map_eq_nil_iff]
    · rintro ⟨hne, hx⟩
      obtain ⟨token, htoken, hmap⟩ := List.mem_map.mp hx
      obtain ⟨t, rfl, rfl⟩ := Option.map_eq_some_iff.mp hmap
      rw [ne_eq, lower, List.map_eq_nil_iff] at hne
      exact ⟨t, htoken, hne, rfl⟩
  rw [hset, hset, h]

/-- The changes of a list of tokens that keep its names. -/
inductive Rearranged : List (Option Text) → List (Option Text) → Prop
  | order {xs ys} : xs.Perm ys → Rearranged xs ys
  | repetition {x xs} : x ∈ xs → Rearranged xs (x :: xs)
  | letterCase {xs ys} : xs.map (Option.map lower) = ys.map (Option.map lower) → Rearranged xs ys
  | symm {xs ys} : Rearranged xs ys → Rearranged ys xs
  | trans {xs ys zs} : Rearranged xs ys → Rearranged ys zs → Rearranged xs zs

theorem Rearranged.nameSet_eq {tokens tokens' : List (Option Text)}
    (h : Rearranged tokens tokens') : nameSet tokens = nameSet tokens' := by
  induction h with
  | order hperm => exact nameSet_of_perm hperm
  | repetition hmem => exact (nameSet_cons_of_mem hmem).symm
  | letterCase hlower => exact nameSet_of_lower hlower
  | symm _ ih => exact ih.symm
  | trans _ _ ih ih' => exact ih.trans ih'

/-- Tokens of which nothing is lost: as many as the buffer has rows, none longer than a row. -/
structure Collectable (tokens : List (Option Text)) : Prop where
  count : tokens.length ≤ 24
  token : ∀ t, some t ∈ tokens → t.length ≤ 31

theorem collectable_of_all {tokens : List (Option Text)} (hcount : tokens.length ≤ 24)
    (h : tokens.all (fun token => token.all (fun t => decide (t.length ≤ 31))) = true) :
    Collectable tokens where
  count := hcount
  token _ ht := of_decide_eq_true (List.all_eq_true.mp h _ ht)

theorem Collectable.mem_csvTokens {tokens : List (Option Text)} (h : Collectable tokens)
    {x : Text} : x ∈ csvTokens tokens ↔ x ∈ nameSet tokens := by
  rw [csvTokens_eq_sortedSet h.count, mem_sortedSet, mem_csvNames]
  refine exists_congr (fun t => and_congr_right (fun ht => ?_))
  have hlen : t.length < csvToken := Nat.lt_succ_of_le (h.token t ht)
  rw [copyToken_of_lt hlen]

theorem strict_csvTokens {tokens : List (Option Text)} (h : tokens.length ≤ csvMaxTokens) :
    (csvTokens tokens).Pairwise (· < ·) := by
  rw [csvTokens_eq_sortedSet h]
  exact strict_sortedSet _

/-- The sorted names depend on the set only. -/
theorem Collectable.csvTokens_congr {tokens tokens' : List (Option Text)}
    (h : Collectable tokens) (h' : Collectable tokens') (hset : nameSet tokens = nameSet tokens') :
    csvTokens tokens = csvTokens tokens' := by
  rw [csvTokens_eq_sortedSet h.count]
  refine (eq_sortedSet (pairwise_insertionSort _) ?_ (fun x => ?_)).symm
  · exact (perm_insertionSort _).nodup_iff.mpr (nodup_collectTokens List.nodup_nil)
  · change x ∈ csvTokens tokens' ↔ _
    rw [h'.mem_csvTokens, ← hset, ← h.mem_csvTokens, csvTokens_eq_sortedSet h.count, mem_sortedSet]

/-- Splitting the text of the names at its commas gives them back, or one empty token for none. -/
theorem Collectable.splitOn_join {tokens : List (Option Text)} (h : Collectable tokens)
    (hcomma : ∀ t, some t ∈ tokens → ',' ∉ t) :
    Collectable (((join [','] (csvTokens tokens)).splitOn ',').map some) ∧
      nameSet (((join [','] (csvTokens tokens)).splitOn ',').map some) = nameSet tokens := by
  by_cases hnil : csvTokens tokens = []
  · have hsplit : (join [','] (csvTokens tokens)).splitOn ',' = [[]] := by
      rw [hnil]
      rfl
    rw [hsplit]
    refine ⟨⟨by decide, ?_⟩, ?_⟩
    · intro t ht
      obtain rfl := Option.some.inj (List.mem_singleton.mp ht)
      exact Nat.zero_le 31
    · ext x
      rw [← h.mem_csvTokens, hnil]
      refine iff_of_false ?_ List.not_mem_nil
      rintro ⟨t, ht, hne, -⟩
      exact hne (Option.some.inj (List.mem_singleton.mp ht))
  · have hname : ∀ n ∈ csvTokens tokens,
        n ≠ [] ∧ n.length ≤ 31 ∧ ',' ∉ n ∧ lower n = n := by
      intro n hn
      obtain ⟨t, ht, hne, rfl⟩ := h.mem_csvTokens.mp hn
      refine ⟨?_, ?_, (mem_lower_iff rfl).not.mpr (hcomma t ht), lower_lower t⟩
      · rwa [ne_eq, lower, List.map_eq_nil_iff]
      · rw [length_lower]
        exact h.token t ht
    have hsplit : (join [','] (csvTokens tokens)).splitOn ',' = csvTokens tokens :=
      List.splitOn_intercalate ',' (fun n hn => (hname n hn).2.2.1) hnil
    rw [hsplit]
    refine ⟨⟨?_, ?_⟩, ?_⟩
    · rw [List.length_map]
      exact length_csvTokens_le h.count
    · intro t ht
      obtain ⟨n, hn, heq⟩ := List.mem_map.mp ht
      rw [← Option.some.inj heq]
      exact (hname n hn).2.1
    · ext x
      rw [← h.mem_csvTokens]
      constructor
      · rintro ⟨t, ht, -, rfl⟩
        obtain ⟨n, hn, heq⟩ := List.mem_map.mp ht
        rw [← Option.some.inj heq, (hname n hn).2.2.2]
        exact hn
      · intro hx
        exact ⟨x, List.mem_map_of_mem hx, (hname x hx).1, (hname x hx).2.2.2.symm⟩

theorem Collectable.canonicalizeCsv_congr {tokens tokens' : List (Option Text)}
    (h : Collectable tokens) (h' : Collectable tokens') (hset : nameSet tokens = nameSet tokens')
    {out : List Char} (hout : out ≠ []) :
    (canonicalizeCsv tokens' out).1 = (canonicalizeCsv tokens out).1 ∧
    ((canonicalizeCsv tokens out).1 = true → ∃ rest,
      (canonicalizeCsv tokens' out).2 = join [','] (csvTokens tokens) ++ nul :: rest) := by
  obtain ⟨hiff, -⟩ := canonicalizeCsv_spec tokens hout
  obtain ⟨hiff', htext'⟩ := canonicalizeCsv_spec tokens' hout
  rw [← h.csvTokens_congr h' hset] at hiff' htext'
  have hflag := Bool.eq_iff_iff.mpr (hiff'.trans hiff.symm)
  exact ⟨hflag, fun hok => htext' (hflag.trans hok)⟩

/-- What `canonicalizeCsv` does with an array: it writes `names`, the set of its tokens in
increasing order, exactly when their text and its NUL have room. -/
structure WritesSet (tokens : List (Option Text)) (out : List Char) (names : List Text) :
    Prop where
  increasing : names.Pairwise (· < ·)
  mem : ∀ x, x ∈ names ↔ x ∈ nameSet tokens
  ok : (canonicalizeCsv tokens out).1 = true ↔ (join [','] names).length + 1 ≤ out.length
  text : (canonicalizeCsv tokens out).1 = true →
    ∃ rest, (canonicalizeCsv tokens out).2 = join [','] names ++ nul :: rest
  rearranged : ∀ tokens', Collectable tokens' → Rearranged tokens tokens' →
    (canonicalizeCsv tokens' out).1 = (canonicalizeCsv tokens out).1 ∧
    ((canonicalizeCsv tokens out).1 = true →
      ∃ rest, (canonicalizeCsv tokens' out).2 = join [','] names ++ nul :: rest)
  again : (∀ t, some t ∈ tokens → ',' ∉ t) → (canonicalizeCsv tokens out).1 = true →
    ∃ rest, canonicalizeCsv (((join [','] names).splitOn ',').map some) out =
      (true, join [','] names ++ nul :: rest)

/-- The order, the repetitions and the letter case of the tokens do not matter, nor does reading
the text back. -/
theorem canonicalizeCsv_canonical {tokens : List (Option Text)} (h : Collectable tokens)
    {out : List Char} (hout : out ≠ []) : ∃ names, WritesSet tokens out names := by
  obtain ⟨hiff, htext⟩ := canonicalizeCsv_spec tokens hout
  refine ⟨csvTokens tokens, strict_csvTokens h.count, fun x => h.mem_csvTokens, hiff, htext,
    fun tokens' h' hsame => h.canonicalizeCsv_congr h' hsame.nameSet_eq hout, ?_⟩
  intro hcomma hok
  obtain ⟨hsplit, hset⟩ := h.splitOn_join hcomma
  obtain ⟨hflag, hagain⟩ := h.canonicalizeCsv_congr hsplit hset.symm hout
  obtain ⟨rest, hrest⟩ := hagain hok
  exact ⟨rest, Prod.ext (hflag.trans hok) hrest⟩

theorem canonicalizeCsv_canonical_mixed :
    ∃ names, WritesSet [some "Ota".toList, none, some "fs".toList] (List.replicate 16 nul) names :=
  canonicalizeCsv_canonical (collectable_of_all (by decide) rfl) (by decide)

end Mcrpc
