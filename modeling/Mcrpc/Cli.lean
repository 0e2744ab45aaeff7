import Mcrpc.EventReading
import Mcrpc.WireRoundTrip

/-!
# The command line tool

`main.cpp` of `mcrpc_cli`. The words of the command line are C strings, and `argv` are those behind
the name of the program. What the tool builds it can parse, and the Python package reads it too.
-/

namespace Mcrpc

open Scan Bounded OutboundBuilder

/-- `isspace` of the C locale. -/
def isCSpace (c : Char) : Bool := c == ' ' || ('\t' ≤ c && c ≤ '\r')

/-- `strtoul(s, nullptr, 10)` on any string. -/
def strtoulText (s : Text) : ℕ :=
  let digits (s : Text) := s.takeWhile Char.isDigit
  match s.dropWhile isCSpace with
  | '-' :: s =>
    if Nat.ofDigitChars 10 (digits s) 0 < 2 ^ 64 then (2 ^ 64 - strtoul (digits s)) % 2 ^ 64
    else 2 ^ 64 - 1
  | '+' :: s => strtoul (digits s)
  | s => strtoul (digits s)

namespace Cli

def sdkVersionString : Text := "1.2.4".toList

def libraryVersionString : Text := "1.2.4".toList

/-- What is printed on `stdout` and `stderr`, and the exit status. -/
structure Exit where
  out : Text := []
  err : Text := []
  status : ℕ := 0
  deriving DecidableEq

def usage : Text :=
  "mcrpc ".toList ++ sdkVersionString ++ " (protocol ".toList ++ protocolVersionString ++
    ")\nCommands:\n  parse|decode \"<line>\"\n  validate \"<line>\"\n".toList ++
    "  build request <target> [#id] <command> [args...]\n".toList ++
    "  build event <name> [key=value...]\n  encode <target> [#id] <command> [args...]\n".toList ++
    "  discover [node_name]\n  ping [target]\n  version\n".toList

/-- `usage(); return 2;` -/
def misused : Exit := { err := usage, status := 2 }

/-- `printf("%s\n", out.data)` -/
def printed (out : ReplyBuffer) : Exit := { out := out.cstr ++ ['\n'] }

def resultCode : ParseResult → ℕ
  | .ok => 0
  | .empty => 1
  | .missingTarget => 2
  | .missingCommand => 3
  | .malformed => 4

/-- A target by its id is one of the others. -/
def kindName : AddressKind → Text
  | .all => "all".toList
  | .self => "self".toList
  | .group => "group".toList
  | .named | .id => "named".toList

def argLine (a : Text × ℕ) : Text := "arg".toList ++ decimal a.2 ++ '=' :: (a.1 ++ ['\n'])

def describe (r : Request) : Text :=
  "ok\naddress_kind=".toList ++ kindName r.addressKind ++ "\ntarget=".toList ++ r.target ++ ['\n'] ++
    (if r.hasRequestId then "request_id=".toList ++ decimal r.requestId.toNat ++ ['\n'] else []) ++
    "command=".toList ++ r.command ++ ['\n'] ++ r.args.zipIdx.flatMap argLine

def cmdParse (line : Text) : Exit :=
  match Parser.parse (some line) with
  | (.ok, r) => { out := describe r }
  | (pr, _) => { out := "parse_error=".toList ++ decimal (resultCode pr) ++ ['\n'], status := 1 }

def cmdValidate (line : Text) : Exit :=
  if (Parser.parse (some line)).1 = .ok then { out := "valid\n".toList }
  else { out := "invalid\n".toList, status := 1 }

def gluedSize : ℕ := 96

def appendWords (out : ReplyBuffer) (args : List Text) : ReplyBuffer :=
  args.foldl (fun out a => ((out.appendChar ' ').2.append a).2) out

/-- The part of `cmdBuildRequest` behind the id. -/
def buildCommand (target : Text) (hasId : Bool) (rid : UInt32) : List Text → Exit
  | [] => misused
  | command :: args =>
    printed (appendWords (request .init (some target) (some command) hasId rid).2 args)

def cmdBuildRequest : List Text → Exit
  | target :: a :: args =>
    let glued := copyToken gluedSize target
    match glued.dropWhile (· ≠ '#') with
    | _ :: id =>
      buildCommand (glued.takeWhile (· ≠ '#')) true (UInt32.ofNat (strtoulText id)) (a :: args)
    | [] =>
      match a with
      | '#' :: id => buildCommand glued true (UInt32.ofNat (strtoulText id)) args
      | _ => buildCommand glued false 0 (a :: args)
  | _ => misused

def joinKv (args : List Text) : Text :=
  args.foldl (fun kv a => (if kv ≠ [] then kv ++ [' '] else kv) ++ a) []

def cmdBuildEvent : List Text → Exit
  | [] => misused
  | name :: args =>
    let kv := joinKv args
    printed (event .init (some name) (if kv = [] then none else some kv)).2

def cmdDiscover (name : Text) : Exit :=
  let d := DiscoverBuilder.reset.setNodeName (if name ≠ [] then name else "node".toList)
  let d := (d.add "profile".toList "desktop".toList).2
  let d := (d.add "fw".toList "cli".toList).2
  let d := (d.add "protocol".toList protocolVersionString).2
  let d := (d.add "sdk".toList sdkVersionString).2
  printed (d.writeTo .init)

def cmdPing (target : Text) : Exit :=
  printed (request .init (some (if target ≠ [] then target else "all".toList))
    (some "ping".toList)).2

def main : List Text → Exit
  | [] => misused
  | cmd :: rest =>
    if cmd = "version".toList then
      { out := "library=".toList ++ libraryVersionString ++ "\nsdk=".toList ++ sdkVersionString ++
          "\nprotocol=".toList ++ protocolVersionString ++ ['\n'] }
    else if cmd = "parse".toList ∨ cmd = "decode".toList then rest.head?.elim misused cmdParse
    else if cmd = "validate".toList then rest.head?.elim misused cmdValidate
    else if cmd = "discover".toList then cmdDiscover (rest.head?.getD "node".toList)
    else if cmd = "ping".toList then cmdPing (rest.head?.getD "all".toList)
    else if cmd = "build".toList then
      match rest with
      | [] => misused
      | what :: rest =>
        if what = "request".toList then cmdBuildRequest rest
        else if what = "event".toList then cmdBuildEvent rest
        else misused
    else if cmd = "encode".toList then cmdBuildRequest rest
    else misused

/-! ### What is written -/

theorem printed_of_text {out : ReplyBuffer} {line : Text} (h : out.text = line) (hnul : nul ∉ line) :
    printed out = { out := line ++ ['\n'] } := by
  rw [printed, out.cstr_of_text h hnul]

theorem text_appendWords (out : ReplyBuffer) (args : List Text) :
    (appendWords out args).text =
      pushAll (maxReply - 1) out.text (args.flatMap (fun a => [[' '], a])) := by
  induction args generalizing out with
  | nil => rfl
  | cons a args ih =>
    rw [appendWords, List.foldl_cons]
    change (appendWords _ args).text = _
    rw [ih, ReplyBuffer.text_append_eq_push, ReplyBuffer.appendChar_eq_append,
      ReplyBuffer.text_append_eq_push]
    rfl

theorem text_request (target command : Text) (hasId : Bool) (rid : UInt32) :
    (request .init (some target) (some command) hasId rid).2.text = pushAll (maxReply - 1) []
      [target, hashId (if hasId then some rid else none), [' '], command] := by
  rw [request, ReplyBuffer.text_append_eq_push, ReplyBuffer.appendChar_eq_append,
    ReplyBuffer.text_append_eq_push, text_head]
  rfl

theorem pieces_eq (target command : Text) (args : List Text) (n : Option UInt32) :
    [target, hashId n, [' '], command] ++ args.flatMap (fun a => [[' '], a]) =
      target :: hashId n :: argPieces (some command :: args.map some) := by
  have hargs : (some command :: args.map some).filterMap id = command :: args := by simp
  rw [argPieces, hargs, List.flatMap_cons]
  rfl

/-- A request is printed as a whole when it has room. -/
theorem buildCommand_of_le {target command : Text} {hasId : Bool} {rid : UInt32} {args : List Text}
    {line : Text} (hline : line = requestLine target command (args.map some)
      (if hasId then some rid else none)) (hfits : line.length < maxReply) (hnul : nul ∉ line) :
    buildCommand target hasId rid (command :: args) = { out := line ++ ['\n'] } := by
  refine printed_of_text ?_ hnul
  have hpieces := pieces_eq target command args (if hasId then some rid else none)
  have hflat := flatten_requestLine target command (args.map some) (if hasId then some rid else none)
  rw [← hpieces, ← hline] at hflat
  rw [text_appendWords, text_request]
  refine (List.foldl_append).symm.trans ?_
  have hroom : ([] : Text).length + ([target, hashId (if hasId then some rid else none), [' '],
      command] ++ args.flatMap (fun a => [[' '], a])).flatten.length ≤ maxReply - 1 := by
    rw [hflat, List.length_nil, Nat.zero_add]
    exact Nat.le_pred_of_lt hfits
  exact (pushAll_of_le hroom).trans hflat

/-! ### Requests -/

variable {t : Target} {n : Option UInt32} {w : Ident} {args : List Token}

/-- The words a request is built from: the id is glued to the target, or a word of its own. -/
def requestWords (t : Target) (n : Option UInt32) (w : Ident) (args : List Token) :
    List (List Text) :=
  [(t.text ++ hashId n) :: w.chars :: args.map Run.chars,
    t.text :: ((n.map (fun n => hashId (some n))).toList ++ w.chars :: args.map Run.chars)]

theorem hash_not_mem_target (t : Target) : '#' ∉ t.text := by
  have hname : '#' ∉ t.name := fun h => absurd (t.isIdentChar_of_mem_name h) (by decide)
  cases t with
  | named w _ _ | all w _ | self w _ => exact hname
  | group upper w => exact List.not_mem_append (by cases upper <;> decide) hname
  | id hex => exact List.not_mem_cons_of_ne_of_not_mem (by decide) hname

theorem takeWhile_isDigit_decimal (n : ℕ) : (decimal n).takeWhile Char.isDigit = decimal n :=
  List.takeWhile_eq_self_iff.mpr (fun _ hc => isDigit_of_mem_decimal hc)

theorem strtoulText_decimal (n : UInt32) : UInt32.ofNat (strtoulText (decimal n.toNat)) = n := by
  have hvalue : strtoul (decimal n.toNat) = n.toNat := by
    have hlt := n.toNat_lt
    rw [strtoul, decimal, Nat.ofDigitChars_ten_toDigits]
    omega
  have htext : strtoulText (decimal n.toNat) = strtoul (decimal n.toNat) := by
    obtain ⟨c, s, hdigits⟩ := List.exists_cons_of_ne_nil (decimal_ne_nil n.toNat)
    have hc : c.isDigit = true := isDigit_of_mem_decimal (hdigits ▸ List.mem_cons_self)
    have hcode := isDigit_iff.mp hc
    have hspace : isCSpace c = false := by
      rw [isCSpace, Bool.or_eq_false_iff, beq_eq_false_iff_ne, Bool.and_eq_false_iff]
      refine ⟨?_, .inr (decide_eq_false (fun hle => ?_))⟩
      · rintro rfl
        cases hc
      · have hret : c.toNat ≤ 13 := hle
        omega
    have hwhole := takeWhile_isDigit_decimal n.toNat
    rw [hdigits] at hwhole ⊢
    rw [strtoulText, List.dropWhile_cons_of_neg (by rw [hspace]; exact Bool.false_ne_true)]
    split
    · next heq =>
      obtain rfl := (List.cons.inj heq).1
      cases hc
    · next heq =>
      obtain rfl := (List.cons.inj heq).1
      cases hc
    · exact congrArg strtoul hwhole
  rw [htext, hvalue, UInt32.ofNat_toNat]

theorem cmdBuildRequest_plain {target : Text} (hlen : target.length < gluedSize)
    (hhash : '#' ∉ target) (w : Ident) (args : List Text) :
    cmdBuildRequest (target :: w.chars :: args) = buildCommand target false 0 (w.chars :: args) := by
  have hdrop : target.dropWhile (· ≠ '#') = [] :=
    List.dropWhile_eq_nil_iff.mpr (all_ne_of_not_mem hhash)
  have hw : '#' ∉ w.chars := w.not_mem rfl
  unfold cmdBuildRequest
  dsimp only
  rw [copyToken_of_lt hlen, hdrop]
  dsimp only
  split
  · next heq => exact absurd (heq ▸ List.mem_cons_self) hw
  · rfl

/-- The two ways to give an id come to the same line. -/
theorem cmdBuildRequest_of_mem (htarget : t.name.length < maxToken)
    (hargs : ∀ a ∈ args, nul ∉ a.chars) (hfits : (plainLine t n w args).text.length < maxReply)
    {words : List Text} (hwords : words ∈ requestWords t n w args) :
    cmdBuildRequest words = { out := (plainLine t n w args).text ++ ['\n'] } := by
  have hhash := hash_not_mem_target t
  have hname := length_target_le t
  have hid := length_hashId_le n
  have hroom : t.text.length + (hashId n).length < gluedSize := by
    change t.text.length + (hashId n).length < 96
    change t.name.length < 72 at htarget
    omega
  have hnul := nul_not_mem_plain (t := t) (n := n) (w := w) hargs
  have hline : (plainLine t n w args).text =
      requestLine t.text w.chars ((args.map Run.chars).map some) n := by
    rw [text_plain, requestLine, argsTail_some, givenArgs, List.map_map]
    rfl
  rcases List.mem_pair.mp hwords with rfl | rfl
  · cases n with
    | none =>
      have hglued : t.text ++ hashId none = t.text := List.append_nil t.text
      rw [hglued, cmdBuildRequest_plain (by omega) hhash]
      exact buildCommand_of_le hline hfits hnul
    | some n =>
      have hstop : Stops (fun c => decide (c ≠ '#')) (hashId (some n)) := stops_cons.mpr rfl
      have htake := takeWhile_append (all_ne_of_not_mem hhash) hstop
      have hdrop := dropWhile_append (all_ne_of_not_mem hhash) hstop
      unfold cmdBuildRequest
      dsimp only
      rw [copyToken_of_lt (by rw [List.length_append]; exact hroom), htake, hdrop]
      dsimp only [hashId, Option.map_some, Option.getD_some]
      rw [strtoulText_decimal]
      exact buildCommand_of_le hline hfits hnul
  · cases n with
    | none =>
      change cmdBuildRequest (t.text :: w.chars :: args.map Run.chars) = _
      rw [cmdBuildRequest_plain (by omega) hhash]
      exact buildCommand_of_le hline hfits hnul
    | some n =>
      have hdrop : t.text.dropWhile (· ≠ '#') = [] :=
        List.dropWhile_eq_nil_iff.mpr (all_ne_of_not_mem hhash)
      change cmdBuildRequest (t.text :: ('#' :: decimal n.toNat) :: w.chars :: args.map Run.chars) = _
      unfold cmdBuildRequest
      dsimp only
      rw [copyToken_of_lt (by omega), hdrop]
      change buildCommand t.text true (UInt32.ofNat (strtoulText (decimal n.toNat)))
        (w.chars :: args.map Run.chars) = _
      rw [strtoulText_decimal]
      exact buildCommand_of_le hline hfits hnul

theorem joinKv_eq {words : List Text} (hne : ∀ a ∈ words, a ≠ []) :
    joinKv words = join [' '] words := by
  have hrest (words : List Text) {kv : Text} (hkv : kv ≠ []) :
      words.foldl (fun kv a => (if kv ≠ [] then kv ++ [' '] else kv) ++ a) kv =
        kv ++ words.flatMap (' ' :: ·) := by
    induction words generalizing kv with
    | nil => exact (List.append_nil kv).symm
    | cons a words ih =>
      rw [List.foldl_cons, if_pos hkv, ih, List.flatMap_cons]
      · simp
      · exact List.append_ne_nil_of_left_ne_nil (List.append_ne_nil_of_left_ne_nil hkv _) _
  cases words with
  | nil => rfl
  | cons a words => exact (hrest words (hne a List.mem_cons_self)).trans (join_cons ' ' a words).symm

/-- The event of the words of a command line is read as the event of the pairs. -/
theorem buildEvent_parse {F : Type} (py : Python F) {name : Text} (hne : name ≠ [])
    (hname : Clean name) {fields : List Field} (hfields : ∀ f ∈ fields, f.Writable)
    (hkeys : (fields.map Prod.fst).Nodup)
    (hfits : 7 + name.length + (join [' '] (fields.map Field.token)).length ≤ 191) :
    ∃ line e, main ("build".toList :: "event".toList :: name :: fields.map Field.token) =
        { out := line ++ ['\n'] } ∧
      py.parseEvent (some line) = some e ∧ e.name = name ∧ e.fields.entries = fields := by
  have htokens : ∀ a ∈ fields.map Field.token, a ≠ [] := by
    intro a ha
    obtain ⟨f, -, rfl⟩ := List.mem_map.mp ha
    exact fun hnil => List.cons_ne_nil _ _ (List.append_eq_nil_iff.mp hnil).2
  let kv := joinKv (fields.map Field.token)
  have hkv : (if kv = [] then none else some kv).getD [] = join [' '] (fields.map Field.token) := by
    rw [← joinKv_eq htokens]
    split
    · next hnil => exact hnil.symm
    · rfl
  obtain ⟨e, hparse, hevent, hentries, -⟩ :=
    parseEvent_eventBuffer py hne hname hfields hkeys hkv (hkv ▸ hfits)
  refine ⟨_, e, ?_, hparse, hevent, hentries⟩
  rw [eventBuffer_eq]
  rfl

def ownFields : List Field :=
  [("profile".toList, "desktop".toList), ("fw".toList, "cli".toList),
    ("protocol".toList, protocolVersionString), ("sdk".toList, sdkVersionString)]

theorem writable_ownFields : ∀ f ∈ ownFields, f.Writable := by
  have hall : ownFields.all (fun f =>
      isKey f.1 && f.2.all (fun c => 33 ≤ c.toNat && c.toNat < 127)) = true := by decide
  intro f hf
  have hf := List.all_eq_true.mp hall f hf
  rw [Bool.and_eq_true] at hf
  exact ⟨hf.1, clean_word hf.2⟩

theorem cmdDiscover_eq (name : Ident) (hlen : name.chars.length < maxToken) :
    cmdDiscover name.chars = { out := name.chars ++ fieldsText ownFields ++ ['\n'] } := by
  have hname : name.chars ≠ [] := name.ne_nil
  let d : DiscoverBuilder := ((((DiscoverBuilder.reset.setNodeName name.chars).add "profile".toList
    "desktop".toList).2.add "fw".toList "cli".toList).2.add "protocol".toList
      protocolVersionString).2.add "sdk".toList sdkVersionString |>.2
  have hd : d.name = name.chars := copyToken_of_lt hlen
  have hfields : d.fields = ownFields := rfl
  have hnul : nul ∉ name.chars := name.not_mem rfl
  have hlength : (fieldsText ownFields).length = 46 := by decide
  have hcstr := DiscoverBuilder.cstr_writeTo (b := d) (hd ▸ hname) (hd ▸ hnul)
    (fun f hf => (writable_ownFields f (hfields ▸ hf)).nul_not_mem)
    (by
      rw [hd, hfields, List.length_append, hlength]
      change name.chars.length < 72 at hlen
      change _ ≤ 191
      omega) .init
  rw [hd, hfields] at hcstr
  rw [cmdDiscover, if_pos hname]
  exact congrArg (fun s => ({ out := s ++ ['\n'] } : Exit)) hcstr

/-- The discovery line of the tool is read as one. -/
theorem discover_parse {F : Type} (py : Python F) (name : Ident)
    (hlen : name.chars.length < maxToken) :
    ∃ line d, main ["discover".toList, name.chars] = { out := line ++ ['\n'] } ∧
      py.parseDiscover (some line) = .ok d ∧ d.device = name.chars ∧
      d.profile = some "desktop".toList ∧ d.firmware = some "cli".toList ∧
      d.protocol = some protocolVersionString ∧ d.sdk = some sdkVersionString := by
  have hplain : ∀ f ∈ ownFields, f.Plain := fun f hf => (writable_ownFields f hf).plain
  have hfields : parseKvPairs (ownFields.map Field.token) = Dict.empty.setAll ownFields :=
    parseKvPairs_tokens hplain
  refine ⟨_, _, cmdDiscover_eq name hlen,
    parseDiscover_name_fieldsText name.all name.ne_nil hplain py, rfl, ?_, ?_, ?_, ?_⟩
  · exact (congrArg (Dict.get · "profile".toList) hfields).trans (by decide)
  · have hown : orText ((Dict.empty.setAll ownFields).get "fw".toList)
        ((Dict.empty.setAll ownFields).get "firmware".toList) = some "cli".toList := by decide
    exact (congrArg (fun d => orText (d.get "fw".toList) (d.get "firmware".toList)) hfields).trans
      hown
  · exact (congrArg (Dict.get · "protocol".toList) hfields).trans (by decide)
  · exact (congrArg (Dict.get · "sdk".toList) hfields).trans (by decide)

end Cli
end Mcrpc
