import Mcrpc.FeatureReplies
import Mcrpc.NameLists
import Mcrpc.Wiring

/-!
# The replies with names

The replies to `help` and `caps` of a node that was set up in any way, with the id of the request in
front. The names of all features have room together. `parse_caps_blob` knows nothing of the id: the
first line of a reply that carries one is no name to it.
-/

namespace Mcrpc

open Scan

/-! ### Lines -/

theorem splitlinesFrom_line {line : Text} (h : ∀ c ∈ line, isLineBreak c = false) (read rest : Text) :
    splitlinesFrom read (line ++ '\n' :: rest) = (read ++ line) :: splitlinesFrom [] rest := by
  induction line generalizing read with
  | nil =>
    rw [List.append_nil, List.nil_append, splitlinesFrom]
    · exact if_pos rfl
    · intro rest' hcr _
      cases hcr
  | cons c line ih =>
    obtain ⟨hc, hline⟩ := List.forall_mem_cons.mp h
    rw [List.cons_append, splitlinesFrom, hc, if_neg Bool.false_ne_true, ih hline,
      List.append_assoc, List.singleton_append]
    rintro rest' rfl
    cases hc

theorem splitlinesFrom_end {line : Text} (h : ∀ c ∈ line, isLineBreak c = false) (read : Text)
    (hne : read ++ line ≠ []) : splitlinesFrom read line = [read ++ line] := by
  induction line generalizing read with
  | nil =>
    rw [List.append_nil] at hne ⊢
    rw [splitlinesFrom, if_neg hne]
  | cons c line ih =>
    obtain ⟨hc, hline⟩ := List.forall_mem_cons.mp h
    rw [List.append_cons] at hne
    rw [splitlinesFrom, hc, if_neg Bool.false_ne_true, ih hline _ hne, List.append_assoc,
      List.singleton_append]
    rintro rest' rfl
    cases hc

theorem splitlines_join {lines : List Text}
    (h : ∀ l ∈ lines, l ≠ [] ∧ ∀ c ∈ l, isLineBreak c = false) :
    splitlines (join ['\n'] lines) = lines := by
  induction lines with
  | nil => rfl
  | cons l lines ih =>
    obtain ⟨⟨hne, hl⟩, hlines⟩ := List.forall_mem_cons.mp h
    rw [join_cons]
    cases lines with
    | nil =>
      rw [List.flatMap_nil, List.append_nil]
      exact splitlinesFrom_end hl [] hne
    | cons l' lines =>
      rw [List.flatMap_cons, List.cons_append, splitlines, splitlinesFrom_line hl, ← splitlines,
        ← join_cons, ih hlines]
      rfl

/-! ### The names that are read -/

/-- A name that is read back: it has no white space, no NUL and no `=`. -/
structure Name (n : Text) : Prop where
  ne_nil : n ≠ []
  clean : Clean n
  eq_not_mem : '=' ∉ n

namespace Name

variable {n : Text}

theorem not_isLineBreak (h : Name n) : ∀ c ∈ n, isLineBreak c = false := by
  intro c hc
  by_contra hbreak
  have hspace := isSpace_of_isLineBreak (Bool.not_eq_false _ ▸ hbreak)
  rw [h.clean.2 c hc] at hspace
  cases hspace

theorem space_not_mem (h : Name n) : ' ' ∉ n := fun hmem => absurd (h.clean.2 ' ' hmem) (by decide)

end Name

def isCapsLine (name : Text) : Bool := name ≠ [] ∧ ' ' ∉ name ∧ '=' ∉ name

theorem filter_isCapsLine {names : List Text} (h : ∀ n ∈ names, Name n) :
    (names.map strip).filter isCapsLine = names := by
  have hstrip : names.map strip = names :=
    (List.map_congr_left (fun n hn => strip_eq_self (h n hn).clean.2)).trans (List.map_id _)
  rw [hstrip, List.filter_eq_self]
  intro n hn
  exact decide_eq_true ⟨(h n hn).ne_nil, (h n hn).space_not_mem, (h n hn).eq_not_mem⟩

theorem split_name {n : Text} (h : Name n) : split n = [n] :=
  Words.words_eq_singleton h.ne_nil h.clean.2

variable {F : Type} (py : Python F)

/-- Without an id all names are read. -/
theorem parseCapsBlob_join {names : List Text} (hne : names ≠ []) (h : ∀ n ∈ names, Name n) :
    py.parseCapsBlob (some (join ['\n'] names)) = names := by
  have hlines := splitlines_join (fun n hn => ⟨(h n hn).ne_nil, (h n hn).not_isLineBreak⟩)
  have hcaps := filter_isCapsLine h
  unfold isCapsLine at hcaps
  rw [Python.parseCapsBlob, Option.getD_some, hlines, hcaps, if_neg hne]

theorem code_of_mem_idPrefix {n : ℕ} {c : Char} (h : c ∈ idPrefix n) :
    32 ≤ c.toNat ∧ c.toNat ≤ 57 := by
  rcases List.mem_cons.mp h with rfl | h
  · decide
  · rcases List.mem_append.mp h with hdigit | hblank
    · have hcode := isDigit_iff.mp (isDigit_of_mem_decimal hdigit)
      omega
    · rw [List.mem_singleton.mp hblank]
      decide

/-- An id before a name makes one line with it, which is no name. -/
theorem isCapsLine_idPrefix_append (n : ℕ) {name : Text} (h : Name name) :
    isCapsLine (strip (idPrefix n ++ name)) = false := by
  have hdrop : (idPrefix n ++ name).dropWhile isSpace = idPrefix n ++ name :=
    List.dropWhile_cons_of_neg (by decide)
  have hstrip : strip (idPrefix n ++ name) = idPrefix n ++ name := by
    rw [strip, hdrop, List.rdropWhile_eq_self_iff]
    intro hne
    rw [List.getLast_append_of_ne_nil hne h.ne_nil, h.clean.2 _ (List.getLast_mem h.ne_nil)]
    exact Bool.false_ne_true
  have hspace : ' ' ∈ idPrefix n ++ name :=
    List.mem_append_left _ (List.mem_cons_of_mem _
      (List.mem_append_right _ (List.mem_singleton_self ' ')))
  rw [hstrip]
  exact decide_eq_false (fun hline => hline.2.1 hspace)

theorem lower_hash_ne_caps (n : ℕ) : py.lower ('#' :: decimal n) ≠ "caps".toList := by
  have hascii : ∀ c ∈ '#' :: decimal n, c.toNat < 128 := by
    intro c hc
    have hmem : c ∈ idPrefix n := by
      rw [idPrefix, ← List.cons_append]
      exact List.mem_append_left _ hc
    have hcode := code_of_mem_idPrefix hmem
    omega
  rw [py.lower_ascii _ hascii, lower, List.map_cons]
  intro h
  exact absurd (List.cons.inj h).1 (by decide)

/-- With an id the first name is lost, and the id stands for a name where there is no other. -/
theorem parseCapsBlob_idPrefix (n : ℕ) {name : Text} {names : List Text} (hname : Name name)
    (h : ∀ n ∈ names, Name n) :
    py.parseCapsBlob (some (idPrefix n ++ join ['\n'] (name :: names))) =
      if names = [] then ['#' :: decimal n, name] else names := by
  have hid : ∀ c ∈ idPrefix n, isLineBreak c = false := by
    intro c hc
    have hcode := code_of_mem_idPrefix hc
    rw [← Bool.not_eq_true]
    simp only [isLineBreak, Bool.or_eq_true, Bool.and_eq_true, decide_eq_true_eq, beq_iff_eq]
    omega
  have hjoin : idPrefix n ++ join ['\n'] (name :: names) =
      join ['\n'] ((idPrefix n ++ name) :: names) := by
    rw [join_cons, join_cons, List.append_assoc]
  have hlines : splitlines (idPrefix n ++ join ['\n'] (name :: names)) =
      (idPrefix n ++ name) :: names := by
    rw [hjoin]
    apply splitlines_join
    rw [List.forall_mem_cons]
    exact ⟨⟨List.append_ne_nil_of_right_ne_nil _ hname.ne_nil,
      List.forall_mem_append.mpr ⟨hid, hname.not_isLineBreak⟩⟩,
      fun l hl => ⟨(h l hl).ne_nil, (h l hl).not_isLineBreak⟩⟩
  have hcaps : ((splitlines (idPrefix n ++ join ['\n'] (name :: names))).map strip).filter
      isCapsLine = names := by
    have hfirst := isCapsLine_idPrefix_append n hname
    rw [hlines, List.map_cons, List.filter_cons_of_neg (Bool.not_eq_true _ ▸ hfirst),
      filter_isCapsLine h]
  unfold isCapsLine at hcaps
  rw [Python.parseCapsBlob, Option.getD_some, hcaps]
  by_cases hnil : names = []
  · have htext : idPrefix n ++ join ['\n'] [name] = '#' :: (decimal n ++ [' ']) ++ name := by
      rw [join_cons, List.flatMap_nil, List.append_nil, idPrefix]
    have hhash : '=' ∉ '#' :: decimal n := by
      intro hmem
      rcases List.mem_cons.mp hmem with heq | hdigit
      · cases heq
      · exact absurd (isDigit_of_mem_decimal hdigit) (by decide)
    rw [if_pos hnil, if_pos hnil, hnil, htext, splitTokens_eq_split, split_hash_decimal,
      split_name hname]
    dsimp only
    rw [if_neg (lower_hash_ne_caps py n), List.filter_eq_self]
    simp only [List.forall_mem_cons, decide_eq_true_eq]
    exact ⟨hhash, hname.eq_not_mem, fun _ h => absurd h List.not_mem_nil⟩
  · rw [if_neg hnil, if_neg hnil]

/-! ### The names of the features -/

namespace FeatureKind

def commandNames (k : FeatureKind) : List Text := k.entries.map (·.name)

theorem name_commandNames {k : FeatureKind} {n : Text} (h : n ∈ k.commandNames) : Name n := by
  have hkeys : k.commandNames.all isKey = true := by
    cases k <;> decide
  obtain ⟨hne, hclean, heq⟩ := clean_of_isKey (List.all_eq_true.mp hkeys n h)
  exact ⟨hne, hclean, heq⟩

theorem name_capability {k : FeatureKind} {n : Text} (h : k.capability = some n) : Name n := by
  apply name_commandNames (k := k)
  cases k <;> cases h <;> decide

end FeatureKind

/-- A list is as long as its names with a separator before each, but for the first one. -/
theorem length_join_lt (sep : Char) {names : List Text} (h : names ≠ []) :
    (join [sep] names).length < (names.flatMap (sep :: ·)).length := by
  obtain ⟨n, names, rfl⟩ := List.exists_cons_of_ne_nil h
  rw [join_cons, List.flatMap_cons, List.length_append, List.length_append, List.length_cons]
  omega

/-- All command names of all features have room behind the longest id. -/
theorem length_join_commandNames {ks : List FeatureKind} (h : ks.Nodup) :
    (join [' '] (ks.flatMap FeatureKind.commandNames)).length ≤ 151 := by
  by_cases hnil : ks.flatMap FeatureKind.commandNames = []
  · rw [hnil]
    exact Nat.zero_le _
  · have hlt := length_join_lt ' ' hnil
    have hle := FeatureKind.length_flatMap_le (fun k => k.commandNames.flatMap (' ' :: ·)) h
    have hall : (FeatureKind.all.flatMap (fun k =>
      k.commandNames.flatMap (' ' :: ·))).length = 152 := rfl
    rw [List.flatMap_assoc] at hlt
    omega

theorem length_join_capabilities {ks : List FeatureKind} (h : ks.Nodup) :
    (join ['\n'] (ks.filterMap FeatureKind.capability)).length ≤ 151 := by
  rw [List.filterMap_eq_flatMap_toList]
  by_cases hnil : ks.flatMap (fun k => k.capability.toList) = []
  · rw [hnil]
    exact Nat.zero_le _
  · have hlt := length_join_lt '\n' hnil
    have hle := FeatureKind.length_flatMap_le (fun k => k.capability.toList.flatMap ('\n' :: ·)) h
    have hall : (FeatureKind.all.flatMap (fun k =>
      k.capability.toList.flatMap ('\n' :: ·))).length ≤ 152 := by decide
    rw [List.flatMap_assoc] at hlt
    omega

/-! ### The replies -/

/-- The names that are sent: the dispatcher says `ok` for an empty body. -/
def sentNames (names : List Text) : List Text := if names = [] then ["ok".toList] else names

theorem name_sentNames {names : List Text} (h : ∀ n ∈ names, Name n) :
    ∀ n ∈ sentNames names, Name n := by
  rw [sentNames]
  split
  · exact List.forall_mem_singleton.mpr ⟨by decide, clean_word (by decide), by decide⟩
  · exact h

theorem sentNames_ne_nil (names : List Text) : sentNames names ≠ [] := by
  rw [sentNames]
  split
  · exact List.cons_ne_nil _ _
  · next hne => exact hne

theorem join_ne_nil (sep : Char) {names : List Text} (hne : names ≠ [])
    (h : ∀ n ∈ names, n ≠ []) : join [sep] names ≠ [] := by
  obtain ⟨n, names, rfl⟩ := List.exists_cons_of_ne_nil hne
  rw [join_cons]
  exact List.append_ne_nil_of_left_ne_nil (h n List.mem_cons_self) _

theorem nul_not_mem_names {sep : Char} (hsep : sep ≠ nul) {names : List Text}
    (h : ∀ n ∈ names, Name n) : nul ∉ join [sep] names := by
  intro hmem
  rcases mem_join hmem with heq | ⟨n, hn, hnul⟩
  · exact hsep heq.symm
  · exact (h n hn).clean.1 hnul

/-- The reply to a request whose handler writes a list of names. -/
theorem cstr_dispatch_names {H σ : Type} (d : Dispatcher H) {call : HandlerCall H σ}
    {line : Option Text} (reply : ReplyBuffer) {w : σ} {req : Request} {entry : CommandEntry H}
    {sep : Char} {names : List Text} (hsep : sep ≠ nul) (hnames : ∀ n ∈ names, Name n)
    (hlen : (join [sep] names).length ≤ 151) (hparse : Parser.parse line = (.ok, req))
    (haddr : d.isAddressedToUs req = true) (hfind : d.registry.find req.command = some entry)
    (hbody : (call entry.handler req ReplyBuffer.init.clear w).1 =
      (true, writeNames sep names ReplyBuffer.init.clear)) :
    (d.dispatch call line reply w).answered = true ∧
      (d.dispatch call line reply w).reply.cstr =
        req.prefixText ++ join [sep] (sentNames names) := by
  have hlist : (writeNames sep names ReplyBuffer.init.clear).text = join [sep] names := by
    rw [text_writeNames]
    exact foldl_pushName_join (fun n hn => (hnames n hn).ne_nil) (hlen.trans (by decide))
  have htext : (Dispatcher.fillBody true (writeNames sep names ReplyBuffer.init.clear)).text =
      join [sep] (sentNames names) := by
    rw [Dispatcher.text_fillBody, hlist, sentNames]
    by_cases hnil : names = []
    · rw [hnil]
      rfl
    · rw [if_neg hnil, if_neg (join_ne_nil sep hnil (fun n hn => (hnames n hn).ne_nil))]
  have hsent := name_sentNames hnames
  have hbound : (join [sep] (sentNames names)).length ≤ 151 := by
    rw [sentNames]
    split
    · rw [join_cons, List.flatMap_nil]
      decide
    · exact hlen
  have hne := join_ne_nil sep (sentNames_ne_nil names) (fun n hn => (hsent n hn).ne_nil)
  have hnul := nul_not_mem_names hsep hsent
  have hcstr := ReplyBuffer.cstr_of_text _ htext hnul
  obtain ⟨hanswered, hreply⟩ := d.cstr_dispatch_of_body reply hne hnul hparse haddr hfind
    (show let body := (call entry.handler req ReplyBuffer.init.clear w).1
      _ → (Dispatcher.fillBody body.1 body.2).cstr = _ from hbody ▸ fun _ => hcstr)
  refine ⟨hanswered, hreply.mpr ?_⟩
  have hid := length_prefixText_le req
  rw [List.length_append]
  change _ < 192
  omega

/-- The capabilities are read from the reply exactly when there are some and no id is in the way. -/
theorem capsBlob_sentNames (req : Request) {names : List Text} (h : ∀ n ∈ names, Name n) :
    (py.parseCapsBlob (some (req.prefixText ++ join ['\n'] (sentNames names))) = names ↔
      req.hasRequestId = false ∧ names ≠ []) ∧
    (req.hasRequestId = true → 1 < names.length →
      py.parseCapsBlob (some (req.prefixText ++ join ['\n'] (sentNames names))) = names.tail) := by
  have hsent := name_sentNames h
  cases hid : req.hasRequestId with
  | false =>
    rw [Request.prefixText, hid, if_neg Bool.false_ne_true, List.nil_append,
      parseCapsBlob_join py (sentNames_ne_nil names) hsent]
    refine ⟨?_, fun h => absurd h Bool.false_ne_true⟩
    by_cases hnil : names = []
    · rw [hnil]
      exact iff_of_false (List.cons_ne_nil _ _) (fun h => h.2 rfl)
    · rw [sentNames, if_neg hnil]
      exact iff_of_true rfl ⟨rfl, hnil⟩
  | true =>
    obtain ⟨name, rest, hcons⟩ := List.exists_cons_of_ne_nil (sentNames_ne_nil names)
    rw [hcons] at hsent
    obtain ⟨hname, hrest⟩ := List.forall_mem_cons.mp hsent
    rw [Request.prefixText, hid, if_pos rfl, hcons, parseCapsBlob_idPrefix py _ hname hrest]
    constructor
    · apply iff_of_false _ (fun h => absurd h.1.symm Bool.false_ne_true)
      intro hread
      have hlen := congrArg List.length hread
      rw [sentNames] at hcons
      split at hcons
      · next hnil =>
        obtain ⟨-, rfl⟩ := List.cons.inj hcons
        rw [hnil] at hread
        cases hread
      · rw [hcons] at hlen
        split at hlen
        · next hnil =>
          rw [hnil] at hlen
          cases hlen
        · rw [List.length_cons] at hlen
          omega
    · intro _ hlong
      have hnil : names ≠ [] := List.ne_nil_of_length_pos (by omega)
      rw [sentNames, if_neg hnil] at hcons
      rw [hcons, List.length_cons] at hlong
      rw [if_neg (List.ne_nil_of_length_pos (by omega)), hcons, List.tail_cons]

namespace Process

variable {ι S R : Type} [DecidableEq ι] [CFloat R]

theorem run_cmdHelp (req : Request) (reply : ReplyBuffer) {n : Node S R} (h : n.hasEngine = true)
    (s : S) : (Handler.cmdHelp.run req reply (some (n, s))).1 = (true, buildHelp n.rpc reply) := by
  obtain ⟨rpc, callbacks, host, hasEngine, pressCount⟩ := n
  obtain rfl : hasEngine = true := h
  rfl

theorem run_cmdCaps (req : Request) (reply : ReplyBuffer) {n : Node S R} (h : n.hasEngine = true)
    (s : S) : (Handler.cmdCaps.run req reply (some (n, s))).1 = (true, buildCaps n.rpc reply) := by
  obtain ⟨rpc, callbacks, host, hasEngine, pressCount⟩ := n
  obtain rfl : hasEngine = true := h
  rfl

/-- A node that was set up in any way, and is started, answers `help` with the commands it has and
`caps` with its capabilities, without a cut and in order. `parse_caps_blob` reads them all from a
reply exactly when there are some and the request has no id. -/
theorem names_dispatch (p : Process ι S R) (d : Dispatcher Handler) {line : Option Text}
    {req : Request} {entry : CommandEntry Handler} {n : Node S R} {s : S}
    {m₀ : McRpc Handler FeatureKind} (hfresh : m₀.Fresh) {calls : List SetupCall}
    (hsetUp : n.rpc = calls.foldl SetupCall.run m₀) (hstarted : n.rpc.features.started = true)
    (hengine : n.hasEngine = true) (hparse : Parser.parse line = (.ok, req))
    (haddr : d.isAddressedToUs req = true) (hfind : d.registry.find req.command = some entry)
    (hinstance : p.instanceOf entry.handler = some (n, s)) (reply : ReplyBuffer) :
    let out := d.dispatch call line reply p
    let commands := n.rpc.features.features.flatMap FeatureKind.commandNames
    let capabilities := n.rpc.features.features.filterMap FeatureKind.capability
    (entry.handler = .cmdHelp →
      out.reply.cstr = req.prefixText ++ join [' '] (sentNames commands)) ∧
    (entry.handler = .cmdCaps →
      out.reply.cstr = req.prefixText ++ join ['\n'] (sentNames capabilities) ∧
      (py.parseCapsBlob (some out.reply.cstr) = capabilities ↔
        req.hasRequestId = false ∧ capabilities ≠ []) ∧
      (req.hasRequestId = true → 1 < capabilities.length →
        py.parseCapsBlob (some out.reply.cstr) = capabilities.tail)) := by
  intro out commands capabilities
  have hwired : n.rpc.Wired := hsetUp ▸ hfresh.wired.run calls
  obtain ⟨done, -, hdone, hcommands, hcapabilities⟩ := hwired.tables
  rw [hdone hstarted] at hcommands hcapabilities
  have hbody := p.call_fst entry.handler req ReplyBuffer.init.clear
  rw [hinstance] at hbody
  constructor
  · intro hhelp
    have hnames : n.rpc.commands.entries.map (·.name) = commands := by
      rw [hcommands, List.map_flatMap]
      rfl
    rw [hhelp, run_cmdHelp req _ hengine, buildHelp, hnames] at hbody
    rw [← hhelp] at hbody
    have hname : ∀ c ∈ commands, Name c := by
      intro c hc
      obtain ⟨k, -, hk⟩ := List.mem_flatMap.mp hc
      exact FeatureKind.name_commandNames hk
    exact (cstr_dispatch_names d reply (by decide) hname
      (length_join_commandNames n.rpc.features.nodup) hparse haddr hfind hbody).2
  · intro hcaps
    rw [hcaps, run_cmdCaps req _ hengine, buildCaps, hwired.hasCaps hstarted, if_pos rfl,
      hcapabilities] at hbody
    rw [← hcaps] at hbody
    have hname : ∀ c ∈ capabilities, Name c := by
      intro c hc
      obtain ⟨k, -, hk⟩ := List.mem_filterMap.mp hc
      exact FeatureKind.name_capability hk
    have hcstr := (cstr_dispatch_names d reply (by decide) hname
      (length_join_capabilities n.rpc.features.nodup) hparse haddr hfind hbody).2
    refine ⟨hcstr, ?_⟩
    change (py.parseCapsBlob (some (d.dispatch call line reply p).reply.cstr) = capabilities ↔ _) ∧
      (_ → _ → py.parseCapsBlob (some (d.dispatch call line reply p).reply.cstr) = _)
    rw [hcstr]
    exact capsBlob_sentNames py req hname

end Process

def menuNode : Process Unit Unit Unit where
  nodes _ := { rpc := [SetupCall.add (some .core), .add (some .battery), .add (some .gps),
    .begin].foldl SetupCall.run { nodeName := "tracker".toList } }
  states _ := ()
  instances _ := some ()

def capsSeven : Request where
  target := "tracker".toList
  hasRequestId := true
  requestId := 7
  command := "caps".toList

/-- The first capability is lost behind the id. -/
theorem names_dispatch_menu :
    let d := (menuNode.nodes ()).rpc.dispatcher
    let out := d.dispatch Process.call (some "tracker#7 caps".toList) .init menuNode
    out.reply.cstr = "#7 battery\ngps".toList ∧
      Python.ascii.parseCapsBlob (some out.reply.cstr) = ["gps".toList] := by
  intro d out
  have hparse : Parser.parse (some "tracker#7 caps".toList) = (.ok, capsSeven) := by decide
  obtain ⟨-, hcaps⟩ := Process.names_dispatch Python.ascii menuNode d
    (show McRpc.Fresh { nodeName := "tracker".toList } from ⟨rfl, rfl, rfl⟩) rfl rfl rfl hparse rfl
    rfl rfl .init
  obtain ⟨hcstr, -, htail⟩ := hcaps rfl
  exact ⟨hcstr.trans (by decide), htail rfl (by decide)⟩

end Mcrpc
