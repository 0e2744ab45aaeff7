import Mcrpc.Builders
import Mcrpc.Features
import Mcrpc.Python.Response
import Mcrpc.DiscoveryLine

/-!
# Lists of names

The replies to `help` and `caps`: names with a separator between them, where the separator and the
name are appended one after the other and each is left out when it has no room. A name that has room
has had room for the separator before it, so the words of the reply are whole names in their order.
-/

namespace Mcrpc

open Bounded Words

def writeHelp {H : Type*} (commands : CommandRegistry H) (reply : ReplyBuffer) : ReplyBuffer :=
  writeNames ' ' (commands.entries.map (·.name)) reply

def CapabilityRegistry.writeTo (r : CapabilityRegistry) (reply : ReplyBuffer) : ReplyBuffer :=
  writeNames '\n' r.names reply

theorem buildHelp_eq (rpc : McRpc Handler FeatureKind) (reply : ReplyBuffer) :
    buildHelp rpc reply = writeHelp rpc.commands reply := rfl

theorem buildCaps_eq (rpc : McRpc Handler FeatureKind) (reply : ReplyBuffer) :
    buildCaps rpc reply =
      if rpc.features.hasCaps then rpc.capabilities.writeTo reply else reply.clear := rfl

/-! ### The words of a list -/

def pushName (sep : Char) (b name : Text) : Text :=
  push (maxReply - 1) (if b = [] then b else push (maxReply - 1) b [sep]) name

theorem text_writeName (sep : Char) (reply : ReplyBuffer) (name : Text) :
    ((if 0 < reply.len then (reply.appendChar sep).2 else reply).append name).2.text =
      pushName sep reply.text name := by
  rw [ReplyBuffer.text_append_eq_push, pushName]
  by_cases hnil : reply.text = []
  · have hlen : reply.len = 0 := by rw [← reply.length_text, hnil, List.length_nil]
    rw [if_neg (by omega), if_pos hnil]
  · have hlen := List.length_pos_iff.mpr hnil
    rw [reply.length_text] at hlen
    rw [if_pos hlen, ReplyBuffer.appendChar_eq_append, ReplyBuffer.text_append_eq_push, if_neg hnil]

theorem text_writeNames (sep : Char) (names : List Text) (reply : ReplyBuffer) :
    (writeNames sep names reply).text = names.foldl (pushName sep) [] := by
  rw [writeNames, ← reply.text_clear]
  generalize reply.clear = r
  induction names generalizing r with
  | nil => rfl
  | cons name names ih =>
    rw [List.foldl_cons, ih, List.foldl_cons, text_writeName]

section Words

variable {sep : Char} {blank : Char → Bool}

/-- The separators that are left behind a full list are no words. -/
theorem words_pushName (hsep : blank sep = true) {name : Text} (hne : name ≠ [])
    (hname : ∀ c ∈ name, blank c = false) (b : Text) :
    words blank (pushName sep b name) = words blank b ∨
      words blank (pushName sep b name) = words blank b ++ [name] := by
  have hword := words_eq_singleton hne hname
  have hpush (b : Text) : push (maxReply - 1) b name = b ∨
      push (maxReply - 1) b name = b ++ name := by
    rw [push]
    split
    · exact .inr rfl
    · exact .inl rfl
  by_cases hnil : b = []
  · rw [pushName, if_pos hnil, hnil]
    rcases hpush [] with h | h
    · exact .inl (by rw [h])
    · exact .inr (by rw [h, List.nil_append, hword, words_nil, List.nil_append])
  · rw [pushName, if_neg hnil]
    by_cases hroom : b.length + 1 ≤ maxReply - 1
    · have hstep : push (maxReply - 1) b [sep] = b ++ [sep] := push_of_le hroom
      rw [hstep]
      rcases hpush (b ++ [sep]) with h | h
      · rw [h]
        exact .inl (words_append_separators (by simpa using hsep))
      · rw [h, List.append_assoc, List.singleton_append, words_append_cons hsep, hword]
        exact .inr rfl
    · have hlen := List.length_pos_iff.mpr hne
      have hstep : push (maxReply - 1) b [sep] = b := if_neg hroom
      have hfull : push (maxReply - 1) b name = b := if_neg (by omega)
      rw [hstep, hfull]
      exact .inl rfl

/-- The words of a list are some of the names, in their order. -/
theorem words_foldl_pushName (hsep : blank sep = true) {names : List Text}
    (h : ∀ n ∈ names, n ≠ [] ∧ ∀ c ∈ n, blank c = false) (b : Text) :
    ∃ written, written.Sublist names ∧
      words blank (names.foldl (pushName sep) b) = words blank b ++ written := by
  induction names generalizing b with
  | nil => exact ⟨[], List.Sublist.refl [], (List.append_nil _).symm⟩
  | cons name names ih =>
    obtain ⟨⟨hne, hname⟩, hnames⟩ := List.forall_mem_cons.mp h
    obtain ⟨written, hsub, hwords⟩ := ih hnames (pushName sep b name)
    rw [List.foldl_cons, hwords]
    rcases words_pushName hsep hne hname b with heq | heq
    · exact ⟨written, hsub.cons name, by rw [heq]⟩
    · exact ⟨name :: written, hsub.cons_cons name, by rw [heq, List.append_assoc]; rfl⟩

/-- Names that fit are all written. -/
theorem foldl_pushName_of_le {names : List Text} {b : Text} (hb : b ≠ [])
    (h : b.length + (names.flatMap (sep :: ·)).length ≤ maxReply - 1) :
    names.foldl (pushName sep) b = b ++ names.flatMap (sep :: ·) := by
  induction names generalizing b with
  | nil => exact (List.append_nil b).symm
  | cons name names ih =>
    rw [List.flatMap_cons, List.length_append, List.length_cons] at h
    have hsep : push (maxReply - 1) b [sep] = b ++ [sep] := push_of_le (by
      rw [List.length_singleton]
      omega)
    have hname : pushName sep b name = b ++ sep :: name := by
      rw [pushName, if_neg hb, hsep, push_of_le, List.append_assoc, List.singleton_append]
      rw [List.length_append, List.length_singleton]
      omega
    rw [List.foldl_cons, hname, ih, List.flatMap_cons, List.append_assoc]
    · exact List.append_ne_nil_of_left_ne_nil hb _
    · rw [List.length_append, List.length_cons]
      omega

theorem foldl_pushName_join {names : List Text} (hne : ∀ n ∈ names, n ≠ [])
    (h : (join [sep] names).length ≤ maxReply - 1) :
    names.foldl (pushName sep) [] = join [sep] names := by
  cases names with
  | nil => rfl
  | cons name names =>
    rw [join_cons, List.length_append] at h
    have hname : pushName sep [] name = name := push_of_le (by
      rw [if_pos rfl, List.length_nil]
      omega)
    rw [List.foldl_cons, hname, join_cons]
    exact foldl_pushName_of_le (hne name List.mem_cons_self) h

theorem words_join (hsep : blank sep = true) {names : List Text}
    (h : ∀ n ∈ names, n ≠ [] ∧ ∀ c ∈ n, blank c = false) :
    words blank (join [sep] names) = names := by
  have hrest (names : List Text) (h : ∀ n ∈ names, n ≠ [] ∧ ∀ c ∈ n, blank c = false) (b : Text) :
      words blank (b ++ names.flatMap (sep :: ·)) = words blank b ++ names := by
    induction names generalizing b with
    | nil => rw [List.flatMap_nil, List.append_nil, List.append_nil]
    | cons name names ih =>
      obtain ⟨⟨hne, hname⟩, hnames⟩ := List.forall_mem_cons.mp h
      rw [List.flatMap_cons, List.cons_append, words_append_cons hsep, ih hnames,
        words_eq_singleton hne hname]
      rfl
  cases names with
  | nil => exact words_nil
  | cons name names =>
    obtain ⟨⟨hne, hname⟩, hnames⟩ := List.forall_mem_cons.mp h
    rw [join_cons, hrest names hnames, words_eq_singleton hne hname]
    rfl

/-- The words of a list: whole names in their order, and all of them when they fit. -/
theorem words_writeNames (hsep : blank sep = true) {names : List Text}
    (h : ∀ n ∈ names, n ≠ [] ∧ ∀ c ∈ n, blank c = false) (reply : ReplyBuffer) :
    (words blank (writeNames sep names reply).text).Sublist names ∧
      ((join [sep] names).length ≤ 191 →
        words blank (writeNames sep names reply).text = names) := by
  rw [text_writeNames]
  constructor
  · obtain ⟨written, hsub, hwords⟩ := words_foldl_pushName hsep h []
    rwa [hwords, words_nil, List.nil_append]
  · intro hfits
    rw [foldl_pushName_join (fun n hn => (h n hn).1) hfits, words_join hsep h]

end Words

/-- A list has characters of its names and separators only. -/
theorem mem_text_writeNames {sep : Char} {names : List Text} {reply : ReplyBuffer} {c : Char}
    (h : c ∈ (writeNames sep names reply).text) : c = sep ∨ ∃ n ∈ names, c ∈ n := by
  have hpush {b s : Text} (h : c ∈ push (maxReply - 1) b s) : c ∈ b ∨ c ∈ s := by
    rw [push] at h
    split at h
    · exact List.mem_append.mp h
    · exact .inl h
  have hfold (names : List Text) (b : Text) (h : c ∈ names.foldl (pushName sep) b) :
      c ∈ b ∨ c = sep ∨ ∃ n ∈ names, c ∈ n := by
    induction names generalizing b with
    | nil => exact .inl h
    | cons name names ih =>
      rcases ih _ h with hb | hsep | ⟨n, hn, hc⟩
      · rcases hpush hb with hb | hc
        · split at hb
          · exact .inl hb
          · exact (hpush hb).imp_right (fun hc => .inl (List.mem_singleton.mp hc))
        · exact .inr (.inr ⟨name, List.mem_cons_self, hc⟩)
      · exact .inr (.inl hsep)
      · exact .inr (.inr ⟨n, List.mem_cons_of_mem name hn, hc⟩)
  rw [text_writeNames] at h
  exact (hfold names [] h).resolve_left List.not_mem_nil

/-! ### Reading the lines of a list -/

theorem isSpace_of_isLineBreak {c : Char} (h : isLineBreak c = true) : isSpace c = true := by
  simp only [isLineBreak, Bool.or_eq_true, Bool.and_eq_true, decide_eq_true_eq, beq_iff_eq] at h
  rw [isSpace_iff]
  omega

theorem split_line {line : Text} (h : ∀ c ∈ line, isSpace c = false) :
    [line].filter (· ≠ []) = split line := by
  by_cases hnil : line = []
  · rw [hnil]
    rfl
  · rw [split, words_eq_singleton hnil h, List.filter_eq_self]
    exact fun l hl => decide_eq_true (List.mem_singleton.mp hl ▸ hnil)

/-- Where the only white space are newlines, the lines are the words. -/
theorem splitlinesFrom_words {line text : Text} (hline : ∀ c ∈ line, isSpace c = false)
    (htext : ∀ c ∈ text, isSpace c = true → c = '\n') :
    (splitlinesFrom line text).filter (· ≠ []) = split (line ++ text) ∧
      ∀ l ∈ splitlinesFrom line text, ∀ c ∈ l, isSpace c = false := by
  have hnil : ∀ c ∈ ([] : Text), isSpace c = false := fun _ hc => absurd hc List.not_mem_nil
  fun_induction splitlinesFrom line text with
  | case1 => exact ⟨rfl, fun _ hl => absurd hl List.not_mem_nil⟩
  | case2 line hne =>
    rw [List.append_nil]
    exact ⟨split_line hline, fun l hl => List.mem_singleton.mp hl ▸ hline⟩
  | case3 line rest ih => exact absurd (htext '\r' List.mem_cons_self rfl) (by decide)
  | case4 line c rest hcr hbreak ih =>
    obtain ⟨hwords, hlines⟩ := ih hnil (fun d hd => htext d (List.mem_cons_of_mem c hd))
    constructor
    · rw [split, words_append_cons (isSpace_of_isLineBreak hbreak), ← List.singleton_append,
        List.filter_append, split_line hline, hwords]
      rfl
    · exact List.forall_mem_cons.mpr ⟨hline, hlines⟩
  | case5 line c rest hcr hbreak ih =>
    have hc : isSpace c = false := by
      by_contra hspace
      apply hbreak
      rw [htext c List.mem_cons_self (by simpa using hspace)]
      rfl
    have hnext := ih (List.forall_mem_append.mpr ⟨hline, List.forall_mem_singleton.mpr hc⟩)
      (fun d hd => htext d (List.mem_cons_of_mem c hd))
    rwa [List.append_assoc, List.singleton_append] at hnext

/-- Without a `=` and with newlines for the only white space, the names of a text are its words. -/
theorem parseCapsBlob_eq {F : Type} (py : Python F) {text : Text}
    (hspace : ∀ c ∈ text, isSpace c = true → c = '\n') (heq : '=' ∉ text) :
    py.parseCapsBlob (some text) = split text := by
  have hnil : ∀ c ∈ ([] : Text), isSpace c = false := fun _ hc => absurd hc List.not_mem_nil
  obtain ⟨hwords, hlines⟩ := splitlinesFrom_words hnil hspace
  have hstrip : (splitlines text).map strip = splitlines text :=
    (List.map_congr_left (fun l hl => strip_eq_self (hlines l hl))).trans (List.map_id _)
  have hcaps : (splitlines text).filter (fun name => name ≠ [] ∧ ' ' ∉ name ∧ '=' ∉ name) =
      split text := by
    have hword : ∀ w ∈ split text, ' ' ∉ w ∧ '=' ∉ w := by
      intro w hw
      refine ⟨fun hmem => ?_, fun hmem => heq (mem_of_mem_words hw hmem)⟩
      exact absurd (not_separator_of_mem_words hw ' ' hmem) (by decide)
    calc (splitlines text).filter (fun name => name ≠ [] ∧ ' ' ∉ name ∧ '=' ∉ name)
        = ((splitlines text).filter (· ≠ [])).filter (fun w => ' ' ∉ w ∧ '=' ∉ w) := by
          rw [List.filter_filter]
          refine List.filter_congr (fun l _ => ?_)
          rw [Bool.eq_iff_iff, Bool.and_eq_true, decide_eq_true_eq, decide_eq_true_eq,
            decide_eq_true_eq, and_comm]
      _ = (split text).filter (fun w => ' ' ∉ w ∧ '=' ∉ w) := congrArg _ hwords
      _ = split text := List.filter_eq_self.mpr (fun w hw => decide_eq_true (hword w hw))
  rw [Python.parseCapsBlob, Option.getD_some, hstrip, hcaps, splitTokens_eq_split]
  dsimp only
  split
  · next hnone =>
    rw [hnone]
    rfl
  · rfl

theorem nul_not_mem_writeNames {sep : Char} (hsep : sep ≠ nul) {names : List Text}
    (h : ∀ n ∈ names, nul ∉ n) (reply : ReplyBuffer) : nul ∉ (writeNames sep names reply).text := by
  intro hmem
  rcases mem_text_writeNames hmem with heq | ⟨n, hn, hc⟩
  · exact hsep heq.symm
  · exact h n hn hc

/-- The lists a node answers `help` and `caps` with are cut between two names only: the words of the
one, for any class of blanks, and what the Python package reads from the other are names of the
registry in their order, and all of them when they fit. -/
theorem nameLists_whole {F : Type} {H : Type*} (py : Python F) {blank : Char → Bool}
    (hblank : blank ' ' = true) {commands : CommandRegistry H}
    (hcommands : ∀ e ∈ commands.entries,
      e.name ≠ [] ∧ nul ∉ e.name ∧ ∀ c ∈ e.name, blank c = false)
    {capabilities : CapabilityRegistry}
    (hcapabilities : ∀ n ∈ capabilities.names, n ≠ [] ∧ Clean n ∧ '=' ∉ n) (reply : ReplyBuffer) :
    ((words blank (writeHelp commands reply).cstr).Sublist (commands.entries.map (·.name)) ∧
      ((join [' '] (commands.entries.map (·.name))).length ≤ 191 →
        words blank (writeHelp commands reply).cstr = commands.entries.map (·.name))) ∧
    ((py.parseCapsBlob (some (capabilities.writeTo reply).cstr)).Sublist capabilities.names ∧
      ((join ['\n'] capabilities.names).length ≤ 191 →
        py.parseCapsBlob (some (capabilities.writeTo reply).cstr) = capabilities.names)) := by
  constructor
  · have hnames : ∀ n ∈ commands.entries.map (·.name),
        n ≠ [] ∧ nul ∉ n ∧ ∀ c ∈ n, blank c = false := by
      intro n hn
      obtain ⟨e, he, rfl⟩ := List.mem_map.mp hn
      exact hcommands e he
    have hnul : nul ∉ (writeHelp commands reply).text :=
      nul_not_mem_writeNames (by decide) (fun n hn => (hnames n hn).2.1) reply
    rw [ReplyBuffer.cstr_eq_text _ hnul]
    exact words_writeNames hblank (fun n hn => ⟨(hnames n hn).1, (hnames n hn).2.2⟩) reply
  · have hnul : nul ∉ (capabilities.writeTo reply).text :=
      nul_not_mem_writeNames (by decide) (fun n hn => (hcapabilities n hn).2.1.1) reply
    have hread : py.parseCapsBlob (some (capabilities.writeTo reply).text) =
        split (capabilities.writeTo reply).text := by
      apply parseCapsBlob_eq
      · intro c hc hspace
        rcases mem_text_writeNames hc with rfl | ⟨n, hn, hcn⟩
        · rfl
        · rw [(hcapabilities n hn).2.1.2 c hcn] at hspace
          cases hspace
      · intro hmem
        rcases mem_text_writeNames hmem with heq | ⟨n, hn, hcn⟩
        · exact absurd heq (by decide)
        · exact (hcapabilities n hn).2.2 hcn
    rw [ReplyBuffer.cstr_eq_text _ hnul, hread]
    exact words_writeNames rfl
      (fun n hn => ⟨(hcapabilities n hn).1, (hcapabilities n hn).2.1.2⟩) reply

def pingStatus : CommandRegistry Unit :=
  ⟨[⟨"ping".toList, (), none⟩, ⟨"status".toList, (), none⟩], by decide⟩

def gpsBattery : CapabilityRegistry := ⟨["gps".toList, "battery".toList], by decide⟩

theorem nameLists_whole_tracker :
    ((words isSpace (writeHelp pingStatus .init).cstr).Sublist
        (pingStatus.entries.map (·.name)) ∧
      ((join [' '] (pingStatus.entries.map (·.name))).length ≤ 191 →
        words isSpace (writeHelp pingStatus .init).cstr = pingStatus.entries.map (·.name))) ∧
    ((Python.ascii.parseCapsBlob (some (gpsBattery.writeTo .init).cstr)).Sublist gpsBattery.names ∧
      ((join ['\n'] gpsBattery.names).length ≤ 191 →
        Python.ascii.parseCapsBlob (some (gpsBattery.writeTo .init).cstr) = gpsBattery.names)) := by
  have hcommands : ∀ e ∈ pingStatus.entries,
      e.name ≠ [] ∧ nul ∉ e.name ∧ ∀ c ∈ e.name, isSpace c = false := by
    simp only [pingStatus, List.forall_mem_cons]
    exact ⟨⟨by decide, by decide, Scan.forall_of_all rfl⟩,
      ⟨by decide, by decide, Scan.forall_of_all rfl⟩, fun _ h => absurd h List.not_mem_nil⟩
  have hcapabilities : ∀ n ∈ gpsBattery.names, n ≠ [] ∧ Clean n ∧ '=' ∉ n := by
    simp only [gpsBattery, List.forall_mem_cons]
    exact ⟨⟨by decide, Clean.of_all (Scan.forall_of_all rfl), by decide⟩,
      ⟨by decide, Clean.of_all (Scan.forall_of_all rfl), by decide⟩,
      fun _ h => absurd h List.not_mem_nil⟩
  exact nameLists_whole Python.ascii rfl hcommands hcapabilities .init

end Mcrpc
