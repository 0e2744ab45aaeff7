import Mcrpc.EndToEnd

/-!
# What the parser stores

Whatever bytes come in, a request that `Parser::parse` accepts has a target, a command and arguments
of the characters their readers allow, each with room for its terminator. A stored target never has
a `#`, so that the block that splits one off does nothing.
-/

namespace Mcrpc

def isCommandChar (c : Char) : Bool :=
  ('a' ≤ c && c ≤ 'z') || ('0' ≤ c && c ≤ '9') || c == '_' || c == '-'

theorem isCommandChar_iff {c : Char} : isCommandChar c = true ↔
    97 ≤ c.toNat ∧ c.toNat ≤ 122 ∨ 48 ≤ c.toNat ∧ c.toNat ≤ 57 ∨ c.toNat = 95 ∨ c.toNat = 45 := by
  simp only [isCommandChar, Bool.or_eq_true, Bool.and_eq_true, decide_eq_true_eq, beq_iff_eq,
    Ascii.le_iff_toNat, Ascii.eq_iff_toNat, or_assoc]
  rfl

/-- A nonempty string of one class in a `char [MCRPC_MAX_TOKEN]`, its terminator included. -/
structure StoredToken (cls : Char → Bool) (s : Text) : Prop where
  ne_nil : s ≠ []
  all : ∀ c ∈ s, cls c = true
  nul_not_mem : nul ∉ s
  length_lt : s.length < maxToken

structure Request.WellFormed (req : Request) : Prop where
  target : StoredToken isIdentChar req.target
  hex : req.addressKind = .id → ∀ c ∈ req.target, isHexChar c = true
  command : StoredToken isCommandChar req.command
  command_ne : req.command ≠ "discover".toList
  argc_le : req.argc ≤ maxArgs
  args : ∀ a ∈ req.args, StoredToken isTokenChar a

theorem StoredToken.copy {cls : Char → Bool} {w : Text} (hne : w ≠ [])
    (hall : ∀ c ∈ w, cls c = true) (hnul : nul ∉ w) : StoredToken cls (copyToken maxToken w) where
  ne_nil := copyToken_ne_nil hne
  all c hc := hall c (List.mem_of_mem_take hc)
  nul_not_mem h := hnul (List.mem_of_mem_take h)
  length_lt := length_copyToken_lt maxToken (by decide) w

theorem StoredToken.scan {cls : Char → Bool} (hcls : cls nul = false) {p : Text}
    (hne : p.takeWhile cls ≠ []) : StoredToken cls (copyToken maxToken (p.takeWhile cls)) := by
  refine .copy hne (fun c => Scan.mem_takeWhile) (fun hmem => ?_)
  rw [Scan.mem_takeWhile hmem] at hcls
  cases hcls

/-- What `readToken` scans and where it leaves the pointer. -/
theorem readToken_scan {p rest tok : Text} {identOnly : Bool}
    (h : readToken p maxToken identOnly = (some tok, rest)) :
    (skipSpaces p).takeWhile (tokenClass identOnly) ≠ [] ∧
      tok = copyToken maxToken ((skipSpaces p).takeWhile (tokenClass identOnly)) ∧ rest <:+ p := by
  simp only [readToken] at h
  split_ifs at h with hnil hrun
  · cases h
  · cases h
  · obtain ⟨htok, rfl⟩ := Prod.mk.inj h
    exact ⟨hrun, (Option.some.inj htok).symm,
      (List.dropWhile_suffix _).trans (List.dropWhile_suffix _)⟩

theorem readToken_ident_stored {p rest tok : Text}
    (h : readToken p maxToken true = (some tok, rest)) :
    StoredToken isIdentChar tok ∧ rest <:+ p := by
  obtain ⟨hne, rfl, hrest⟩ := readToken_scan h
  exact ⟨.scan rfl hne, hrest⟩

theorem readToken_word_stored {p rest tok : Text} (hp : nul ∉ p)
    (h : readToken p maxToken false = (some tok, rest)) :
    StoredToken isTokenChar tok ∧ rest <:+ p := by
  obtain ⟨hne, rfl, hrest⟩ := readToken_scan h
  refine ⟨.copy hne (fun c => Scan.mem_takeWhile) (fun hmem => ?_), hrest⟩
  exact hp ((List.dropWhile_suffix _).subset ((List.takeWhile_prefix _).subset hmem))

namespace Parser

theorem parseTarget_stored {p q : Text} {out : Request} (h : parseTarget p {} = (some q, out)) :
    (StoredToken isIdentChar out.target ∧
      (out.addressKind = .id → ∀ c ∈ out.target, isHexChar c = true)) ∧ q <:+ p := by
  unfold parseTarget at h
  split at h
  · next start =>
    split_ifs at h with hrun
    · cases h
    · obtain ⟨hq, rfl⟩ := Prod.mk.inj h
      obtain rfl := Option.some.inj hq
      have hhex : StoredToken isHexChar _ := .scan rfl hrun
      exact ⟨⟨{ hhex with all := fun c hc => isIdentChar_of_isHexChar (hhex.all c hc) },
        fun _ => hhex.all⟩, (List.dropWhile_suffix _).trans (List.suffix_cons _ _)⟩
  · next hat =>
    split at h
    · split at h
      · cases h
      · next target rest hread =>
        obtain ⟨hq, rfl⟩ := Prod.mk.inj h
        obtain rfl := Option.some.inj hq
        obtain ⟨htarget, hrest⟩ := readToken_ident_stored hread
        exact ⟨⟨htarget, nofun⟩, hrest.trans (List.drop_suffix 6 p)⟩
    · split at h
      · cases h
      · next target rest hread =>
        obtain ⟨hq, rfl⟩ := Prod.mk.inj h
        obtain rfl := Option.some.inj hq
        obtain ⟨htarget, hrest⟩ := readToken_ident_stored hread
        refine ⟨⟨htarget, fun hid => ?_⟩, hrest⟩
        dsimp only at hid
        split_ifs at hid

theorem readDigits_suffix (room : ℕ) (p : Text) : (readDigits room p).2 <:+ p := by
  induction room generalizing p with
  | zero => rw [readDigits, List.suffix_iff_eq_drop] <;> simp
  | succ room ih =>
    cases p with
    | nil => exact List.suffix_rfl
    | cons c p =>
      rw [readDigits]
      split_ifs
      · exact (ih p).trans (List.suffix_cons c p)
      · exact List.suffix_rfl

theorem parseRequestId_stored {p q : Text} {out out' : Request}
    (h : parseRequestId p out = (some q, out')) :
    out'.target = out.target ∧ out'.addressKind = out.addressKind ∧ q <:+ p := by
  have hskip : skipSpaces p <:+ p := List.dropWhile_suffix _
  unfold parseRequestId at h
  split at h
  · next digits heq =>
    rw [heq] at hskip
    dsimp only at h
    split_ifs at h
    · cases h
    · obtain ⟨hq, rfl⟩ := Prod.mk.inj h
      obtain rfl := Option.some.inj hq
      exact ⟨rfl, rfl, (readDigits_suffix _ _).trans ((List.suffix_cons '#' digits).trans hskip)⟩
  · obtain ⟨hq, rfl⟩ := Prod.mk.inj h
    obtain rfl := Option.some.inj hq
    exact ⟨rfl, rfl, hskip⟩

theorem isCommandChar_toLower {c : Char} (h : isIdentChar c = true) :
    isCommandChar c.toLower = true := by
  have hcode := isIdentChar_iff.mp h
  rw [isCommandChar_iff, Ascii.toNat_toLower]
  split_ifs <;> omega

theorem canonicalCommand_stored {w : Text} (h : StoredToken isIdentChar w) :
    StoredToken isCommandChar (canonicalCommand w) ∧ canonicalCommand w ≠ "discover".toList := by
  rw [canonicalCommand]
  split_ifs with hdiscover
  · exact ⟨.copy (by decide) (Scan.forall_of_all (by decide)) (by decide), by decide⟩
  · have hlower : ∀ c ∈ lower w, isCommandChar c = true := by
      intro c hc
      obtain ⟨d, hd, rfl⟩ := List.mem_map.mp hc
      exact isCommandChar_toLower (h.all d hd)
    refine ⟨⟨?_, hlower, fun hnul => ?_, ?_⟩, hdiscover⟩
    · rw [lower, ne_eq, List.map_eq_nil_iff]
      exact h.ne_nil
    · exact absurd (hlower nul hnul) (by decide)
    · rw [length_lower]
      exact h.length_lt

theorem readArgs_stored (room : ℕ) {p : Text} (hp : nul ∉ p) :
    (readArgs room p).length ≤ room ∧ ∀ a ∈ readArgs room p, StoredToken isTokenChar a := by
  induction room generalizing p with
  | zero => exact ⟨Nat.zero_le _, List.forall_mem_nil _⟩
  | succ room ih =>
    rw [readArgs]
    split
    · exact ⟨Nat.zero_le _, List.forall_mem_nil _⟩
    · next arg rest hread =>
      obtain ⟨harg, hrest⟩ := readToken_word_stored hp hread
      obtain ⟨hlen, hargs⟩ := ih (fun hmem => hp (hrest.subset hmem))
      exact ⟨Nat.succ_le_succ hlen, List.forall_mem_cons.mpr ⟨harg, hargs⟩⟩

theorem hash_not_mem_target {p q : Text} {out : Request}
    (h : parseTarget p {} = (some q, out)) : '#' ∉ out.target :=
  fun hmem => absurd ((parseTarget_stored h).1.1.all '#' hmem) (by decide)

theorem parseRequest_stored {p : Text} {req : Request} (hp : nul ∉ p)
    (h : parseRequest p = (.ok, req)) : req.WellFormed := by
  unfold parseRequest at h
  split at h
  · cases h
  · next q out htarget =>
    rw [splitTargetId_eq_self (hash_not_mem_target htarget)] at h
    obtain ⟨⟨hstored, hhex⟩, hq⟩ := parseTarget_stored htarget
    split at h
    · cases h
    · next r out' hid =>
      obtain ⟨htarget', hkind, hr⟩ := parseRequestId_stored hid
      have hnul : nul ∉ r := fun hmem => hp (hq.subset (hr.subset hmem))
      unfold parseCommand at h
      split at h
      · cases h
      · next command rest hread =>
        obtain ⟨-, rfl⟩ := Prod.mk.inj h
        obtain ⟨hcommand, hrest⟩ := readToken_ident_stored hread
        obtain ⟨hcanonical, hne⟩ := canonicalCommand_stored hcommand
        obtain ⟨hlen, hargs⟩ := readArgs_stored maxArgs (fun hmem => hnul (hrest.subset hmem))
        exact {
          target := by rw [htarget']; exact hstored
          hex := by rw [hkind, htarget']; exact hhex
          command := hcanonical
          command_ne := hne
          argc_le := hlen
          args := hargs }

/-- Every accepted string gives a well-formed request, and wherever a target is read, the block that
looks for a `#` in it changes nothing. -/
theorem parse_wellFormed (bytes : Text) :
    (∀ req, parse (some (cText bytes)) = (.ok, req) → req.WellFormed) ∧
      ∀ p q out, parseTarget p {} = (some q, out) →
        '#' ∉ out.target ∧ splitTargetId out = out := by
  refine ⟨fun req h => ?_, fun p q out htarget => ?_⟩
  · have hnul : nul ∉ cText bytes := fun hmem => by simpa using Scan.mem_takeWhile hmem
    unfold parse at h
    dsimp only at h
    split_ifs at h
    · cases h
    · cases h
    · refine parseRequest_stored (fun hmem => hnul ?_) h
      exact (((List.dropWhile_suffix _).trans (List.dropWhile_suffix _)).trans
        (List.dropWhile_suffix _)).subset hmem
  · exact ⟨hash_not_mem_target htarget, splitTargetId_eq_self (hash_not_mem_target htarget)⟩

end Parser
end Mcrpc
