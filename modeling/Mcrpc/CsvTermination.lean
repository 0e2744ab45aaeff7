import Mcrpc.DiscoveryLine

/-!
# Termination of the CSV

`canonicalizeCsv` writes its NUL before the first name and behind the last one. When the names stop
fitting in between, the first NUL is overwritten, and the array is terminated only by what it held
behind the names that fit. No byte outside the array is written in any case.
-/

namespace Mcrpc

/-! ### The names -/

theorem csvNames_cons_some (t : Text) (tokens : List (Option Text)) :
    csvNames (some t :: tokens) =
      if t = [] then csvNames tokens else lower (copyToken csvToken t) :: csvNames tokens := by
  change ((t :: tokens.filterMap id).filter (· ≠ [])).map _ = _
  split_ifs with h
  · rw [List.filter_cons_of_neg (by simpa using h)]
    rfl
  · rw [List.filter_cons_of_pos (by simpa using h)]
    rfl

theorem collectTokens_eq (tokens : List (Option Text)) {buf : List Text}
    (h : buf.length ≤ csvMaxTokens) :
    collectTokens tokens buf = buf ++
      (((csvNames tokens).filter (· ∉ buf)).eraseDups).take (csvMaxTokens - buf.length) := by
  induction tokens generalizing buf with
  | nil => simp [collectTokens, csvNames]
  | cons token tokens ih =>
    rw [collectTokens_cons]
    by_cases hfull : csvMaxTokens ≤ buf.length
    · rw [if_pos hfull, Nat.sub_eq_zero_of_le hfull, List.take_zero, List.append_nil]
    · rw [if_neg hfull]
      have hroom := length_addToken_le buf token
      cases token with
      | none => exact ih h
      | some t =>
        rw [ih (by omega), addToken, csvNames_cons_some]
        by_cases hnil : t = []
        · rw [if_pos (.inl hnil), if_pos hnil]
        · rw [if_neg hnil]
          by_cases hdup : lower (copyToken csvToken t) ∈ buf
          · rw [if_pos (.inr hdup), List.filter_cons_of_neg (by simpa using hdup)]
          · rw [if_neg (not_or.mpr ⟨hnil, hdup⟩), List.filter_cons_of_pos (by simpa using hdup),
              List.eraseDups_cons, List.filter_filter, List.length_append, List.length_singleton,
              show csvMaxTokens - buf.length = csvMaxTokens - (buf.length + 1) + 1 by omega,
              List.take_succ_cons, List.append_assoc, List.singleton_append]
            congr 5
            funext x
            rw [Bool.eq_iff_iff]
            simp [and_comm]

/-- The names in canonical order: the first different ones, as many as `buf` has places. -/
def sortedNames (tokens : List (Option Text)) : List Text :=
  sortedSet ((csvNames tokens).eraseDups.take csvMaxTokens)

theorem csvTokens_eq_sortedNames (tokens : List (Option Text)) :
    csvTokens tokens = sortedNames tokens := by
  have hcollect : collectTokens tokens [] = (csvNames tokens).eraseDups.take csvMaxTokens := by
    have hall : (csvNames tokens).filter (· ∉ ([] : List Text)) = csvNames tokens :=
      List.filter_eq_self.mpr (fun _ _ => rfl)
    rw [collectTokens_eq tokens (Nat.zero_le _), hall]
    rfl
  refine eq_sortedSet (pairwise_insertionSort _)
    ((perm_insertionSort _).nodup_iff.mpr (nodup_collectTokens List.nodup_nil)) (fun x => ?_)
  rw [csvTokens, (perm_insertionSort _).mem_iff, hcollect]

def texts (tokens : List (Option CText)) : List (Option Text) := tokens.map (Option.map Subtype.val)

theorem mem_sortedNames {tokens : List (Option CText)} {x : Text}
    (h : x ∈ sortedNames (texts tokens)) : x ≠ [] ∧ nul ∉ x := by
  rw [sortedNames, mem_sortedSet] at h
  obtain ⟨t, ht, hne, rfl⟩ := mem_csvNames.mp (List.mem_eraseDups.mp (List.mem_of_mem_take h))
  obtain ⟨token, -, htoken⟩ := List.mem_map.mp ht
  obtain ⟨s, rfl, rfl⟩ := Option.map_eq_some_iff.mp htoken
  refine ⟨?_, (mem_lower_iff rfl).not.mpr (fun hmem => s.2 (List.mem_of_mem_take hmem))⟩
  rw [lower, ne_eq, List.map_eq_nil_iff, copyToken, List.take_eq_nil_iff, not_or]
  exact ⟨by decide, hne⟩

/-! ### The output -/

theorem drop_writeAt {out : List Char} {pos : ℕ} {s : Text} (h : pos ≤ out.length) (m : ℕ) :
    (writeAt out pos s).drop (pos + s.length + m) = out.drop (pos + s.length + m) := by
  have hlen : (out.take pos ++ s).length = pos + s.length := by
    rw [List.length_append, List.length_take_of_le h]
  rw [writeAt, ← hlen, List.drop_length_add_append, List.drop_drop]

/-- An overflow leaves the names that fit, and behind them the array as it was. -/
theorem writeTokens_stop (tokens : List Text) (first : Bool) {len : ℕ} {out : List Char}
    (hlen : len < out.length) (hstop : (writeTokens tokens first len out).1 = false) :
    ∃ k < tokens.length, len + (csvText (tokens.take k) first).length < out.length ∧
      out.length ≤ len + (csvText (tokens.take (k + 1)) first).length ∧
      (writeTokens tokens first len out).2 = out.take len ++ csvText (tokens.take k) first ++
        out.drop (len + (csvText (tokens.take k) first).length) := by
  induction tokens generalizing first len out with
  | nil => cases hstop
  | cons t tokens ih =>
    rw [writeTokens] at hstop ⊢
    have htake (k : ℕ) : csvText ((t :: tokens).take (k + 1)) first =
        (if first then t else ',' :: t) ++ csvText (tokens.take k) false := rfl
    generalize (if first then t else ',' :: t) = piece at hstop htake ⊢
    split at hstop
    · next hfull =>
      refine ⟨0, Nat.succ_pos _, hlen, ?_, ?_⟩
      · rw [htake, List.take_zero, csvText, List.append_nil]
        omega
      · rw [if_pos hfull, List.take_zero, csvText, List.append_nil]
        exact (List.take_append_drop len out).symm
    · next hroom =>
      have hsize : (writeAt out len piece).length = out.length := length_writeAt (by omega)
      obtain ⟨k, hk, hfits, hover, hout⟩ := ih false (by omega) hstop
      refine ⟨k + 1, Nat.succ_lt_succ hk, ?_, ?_, ?_⟩
      · rw [htake, List.length_append]
        omega
      · rw [htake, List.length_append]
        omega
      · rw [if_neg hroom, hout, htake, take_writeAt (by omega), drop_writeAt (by omega),
          List.length_append, ← Nat.add_assoc, ← List.append_assoc]

theorem length_writeTokens (tokens : List Text) (first : Bool) {len : ℕ} {out : List Char}
    (hlen : len < out.length) : (writeTokens tokens first len out).2.length = out.length := by
  induction tokens generalizing first len out with
  | nil => exact length_writeAt hlen
  | cons t tokens ih =>
    rw [writeTokens]
    generalize (if first then t else ',' :: t) = piece
    split
    · rfl
    · have hsize : (writeAt out len piece).length = out.length := length_writeAt (by omega)
      rw [ih false (by omega), hsize]

theorem length_csvText_take_le (tokens : List Text) (first : Bool) {j k : ℕ} (h : j ≤ k) :
    (csvText (tokens.take j) first).length ≤ (csvText (tokens.take k) first).length := by
  induction tokens generalizing first j k with
  | nil => rw [List.take_nil, List.take_nil]
  | cons t tokens ih =>
    cases j with
    | zero => exact Nat.zero_le _
    | succ j =>
      obtain ⟨k, rfl⟩ : ∃ k', k = k' + 1 := ⟨k - 1, by omega⟩
      rw [List.take_succ_cons, List.take_succ_cons, csvText, csvText, List.length_append,
        List.length_append]
      exact Nat.add_le_add_left (ih false (Nat.le_of_succ_le_succ h)) _

theorem csvText_ne_nil {names : List Text} (h : ∀ x ∈ names, x ≠ []) (hne : names ≠ []) :
    csvText names true ≠ [] := by
  cases names with
  | nil => exact absurd rfl hne
  | cons x names => exact List.append_ne_nil_of_left_ne_nil (h x List.mem_cons_self) _

theorem nul_not_mem_join {names : List Text} (h : ∀ x ∈ names, nul ∉ x) :
    nul ∉ join [','] names := by
  intro hmem
  rcases mem_join hmem with hcomma | ⟨x, hx, hnul⟩
  · exact absurd hcomma (by decide)
  · exact h x hx hnul

/-- When the names stop fitting behind some of them, the array has a NUL behind those. -/
def NulBehind (names : List Text) (out : List Char) : Prop :=
  ∀ k, 0 < k → k < names.length → (join [','] (names.take k)).length < out.length →
    out.length ≤ (join [','] (names.take (k + 1))).length →
    nul ∈ out.drop (join [','] (names.take k)).length

theorem nulBehind_of_fits {names : List Text} {out : List Char}
    (h : (join [','] names).length < out.length) : NulBehind names out := by
  intro k _ hk _ hover
  rw [← csvText_eq_join] at h hover
  have hle := length_csvText_take_le names true (show k + 1 ≤ names.length from hk)
  rw [List.take_length] at hle
  omega

/-- There is only one place where the names can stop fitting. -/
theorem nulBehind_iff {names : List Text} {out : List Char} {k : ℕ} (hk : k < names.length)
    (hfits : (join [','] (names.take k)).length < out.length)
    (hover : out.length ≤ (join [','] (names.take (k + 1))).length) :
    NulBehind names out ↔ 0 < k → nul ∈ out.drop (join [','] (names.take k)).length := by
  refine ⟨fun h hpos => h k hpos hk hfits hover, fun h j hpos hj hfits' hover' => ?_⟩
  rw [← csvText_eq_join] at hfits hover hfits' hover'
  obtain rfl : j = k := by
    rcases Nat.lt_trichotomy j k with hlt | heq | hgt
    · have hle := length_csvText_take_le names true (show j + 1 ≤ k from hlt)
      omega
    · exact heq
    · have hle := length_csvText_take_le names true (show k + 1 ≤ j from hgt)
      omega
  exact h hpos

theorem length_canonicalizeCsv (tokens : List (Option Text)) (out : List Char) :
    (canonicalizeCsv tokens out).2.length = out.length := by
  rw [canonicalizeCsv]
  split
  · rfl
  · next hout =>
    have hpos := List.length_pos_iff.mpr hout
    have hsize : (writeAt out 0 [nul]).length = out.length := length_writeAt hpos
    dsimp only
    split
    · exact hsize
    · rw [length_writeTokens _ true (by omega), hsize]

theorem canonicalizeCsv_stop (tokens : List (Option Text)) {out : List Char} (hout : out ≠ [])
    (h : (canonicalizeCsv tokens out).1 = false) :
    ∃ k < (csvTokens tokens).length,
      (join [','] ((csvTokens tokens).take k)).length < out.length ∧
      out.length ≤ (join [','] ((csvTokens tokens).take (k + 1))).length ∧
      (canonicalizeCsv tokens out).2 = join [','] ((csvTokens tokens).take k) ++
        (nul :: out.drop 1).drop (join [','] ((csvTokens tokens).take k)).length := by
  have hpos := List.length_pos_iff.mpr hout
  have hsize : (writeAt out 0 [nul]).length = out.length := length_writeAt hpos
  rw [canonicalizeCsv, if_neg hout] at h ⊢
  dsimp only at h ⊢
  split at h
  · cases h
  · next hnil =>
    obtain ⟨k, hk, hfits, hover, hwritten⟩ := writeTokens_stop (csvTokens tokens) true
      (show 0 < (writeAt out 0 [nul]).length by omega) h
    rw [Nat.zero_add, hsize, csvText_eq_join] at hfits hover
    refine ⟨k, hk, hfits, hover, ?_⟩
    rw [if_neg hnil]
    refine hwritten.trans ?_
    rw [Nat.zero_add, csvText_eq_join]
    rfl

theorem drop_cons_drop {c : Char} {s : Text} (hs : s ≠ []) (out : List Char) :
    (c :: out.drop 1).drop s.length = out.drop s.length := by
  obtain ⟨d, s, rfl⟩ := List.exists_cons_of_ne_nil hs
  rw [List.length_cons, List.drop_succ_cons, List.drop_drop, Nat.add_comm]

/-- The result is terminated exactly when the names do not stop fitting, stop before the first, or
leave a NUL of the array's own; a write behind the last byte would make the array longer. -/
theorem canonicalizeCsv_terminated_iff (tokens : List (Option CText)) {out : List Char}
    (hout : out ≠ []) :
    let r := canonicalizeCsv (texts tokens) out
    (nul ∈ r.2 ∧ r.2.length = out.length) ↔
      NulBehind (sortedNames (texts tokens)) out := by
  intro r
  rw [and_iff_left (length_canonicalizeCsv _ _), ← csvTokens_eq_sortedNames]
  have hnames : ∀ x ∈ csvTokens (texts tokens), x ≠ [] ∧ nul ∉ x := by
    rw [csvTokens_eq_sortedNames]
    exact fun x => mem_sortedNames
  obtain ⟨hroom, hwhole⟩ := canonicalizeCsv_spec (texts tokens) hout
  cases hok : r.1 with
  | true =>
    refine iff_of_true ?_ (nulBehind_of_fits (hroom.mp hok))
    obtain ⟨rest, hrest⟩ := hwhole hok
    rw [hrest]
    exact List.mem_append_right _ List.mem_cons_self
  | false =>
    obtain ⟨k, hk, hfits, hover, hrest⟩ := canonicalizeCsv_stop _ hout hok
    rw [nulBehind_iff hk hfits hover, hrest]
    have htaken : ∀ x ∈ (csvTokens (texts tokens)).take k, x ≠ [] ∧ nul ∉ x :=
      fun x hx => hnames x (List.mem_of_mem_take hx)
    cases k with
    | zero => exact iff_of_true List.mem_cons_self (fun h => absurd h (Nat.lt_irrefl 0))
    | succ k =>
      rw [forall_prop_of_true (Nat.succ_pos k), List.mem_append,
        or_iff_right (nul_not_mem_join (fun x hx => (htaken x hx).2))]
      have hne : join [','] ((csvTokens (texts tokens)).take (k + 1)) ≠ [] := by
        rw [← csvText_eq_join]
        refine csvText_ne_nil (fun x hx => (htaken x hx).1) ?_
        rw [ne_eq, List.take_eq_nil_iff, not_or]
        exact ⟨Nat.succ_ne_zero k, List.ne_nil_of_length_pos (by omega)⟩
      rw [drop_cons_drop hne]

def defAbc : List (Option CText) :=
  [some ⟨"def".toList, by decide⟩, some ⟨"ABC".toList, by decide⟩]

theorem canonicalizeCsv_terminated_iff_zeroed :
    let r := canonicalizeCsv (texts defAbc) (List.replicate 5 nul)
    (nul ∈ r.2 ∧ r.2.length = 5) ↔
      NulBehind (sortedNames (texts defAbc)) (List.replicate 5 nul) :=
  canonicalizeCsv_terminated_iff defAbc (by decide)

/-- The first name has overwritten the NUL, and the second has no room. -/
theorem defAbc_unterminated :
    let r := canonicalizeCsv (texts defAbc) (List.replicate 5 'x')
    r = (false, "abcxx".toList) ∧ ¬ (nul ∈ r.2 ∧ r.2.length = 5) := by
  decide

end Mcrpc
