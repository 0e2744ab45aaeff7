import Mcrpc.BuilderAgreement
import Mcrpc.CompleteLines
import Mcrpc.EventLines
import Mcrpc.Python.Client

/-!
# Events that are read

What `parse_event` makes of the line that a node sends for an event. The engine appends the name and
the pairs to a buffer of 192 bytes and looks at no result: the pairs are on the line as a whole or
not at all, so a reader never sees a part of them.
-/

namespace Mcrpc

open Bounded OutboundBuilder

section Reading

variable {F : Type} (py : Python F)

theorem split_eventLine {name : Text} (hne : name ≠ []) (hname : ∀ c ∈ name, isSpace c = false)
    {t : Text} (ht : Scan.Stops (fun c => !isSpace c) t) :
    split ("event ".toList ++ (name ++ t)) = "event".toList :: name :: split t := by
  have hevent : Clean "event".toList := clean_word (by decide)
  have hword := Words.words_append_word (s := []) (t := ' ' :: (name ++ t)) nil_space
    (show "event".toList ≠ [] by decide) hevent.2 (Scan.stops_cons.mpr (by decide))
  have hblank : ∀ c ∈ [' '], isSpace c = true := List.forall_mem_singleton.mpr rfl
  have hrest := Words.words_append_word hblank hne hname ht
  exact hword.trans (congrArg _ hrest)

/-- A line that starts with the word and a name. -/
theorem Python.parseEvent_of_split {line name : Text} {tokens : List Text}
    (h : split line = "event".toList :: name :: tokens) : py.parseEvent (some line) =
      some { name, raw := strip line, parameters := py.coerceFields (parseKvPairs tokens),
             fields := parseKvPairs tokens } := by
  have hword : py.isEventWord "event".toList = true := by
    rw [isEventWord, py.lower_ascii _ (Scan.forall_of_all rfl)]
    rfl
  rw [parseEvent, Option.getD_some]
  dsimp only
  rw [splitTokens_eq_split, split_strip, h]
  dsimp only
  rw [hword]
  rfl

theorem split_join_tokens {fields : List Field} (h : ∀ f ∈ fields, f.Plain) :
    split (join [' '] (fields.map Field.token)) = fields.map Field.token := by
  by_cases hnil : fields = []
  · subst hnil
    rfl
  · have hline := split_append_fieldsText [] h
    rw [← append_join_tokens hnil, List.nil_append, split, Words.words_cons (by decide)] at hline
    exact hline

/-- `parse_kv_pairs` undoes `format_kv`. -/
theorem parseKvPairs_formatKv {kv : Dict Text Text} (h : ∀ f ∈ kv.entries, Field.Plain f) :
    parseKvPairs (split (formatKv kv)) = kv := by
  have hjoin : formatKv kv = join [' '] (kv.entries.map Field.token) := rfl
  rw [hjoin, split_join_tokens h, parseKvPairs_tokens h, Dict.setAll_entries]

theorem flatten_optionalPart (c : Char) (s : Text) :
    (optionalPart (some (c :: s))).flatten = ' ' :: c :: s := by
  simp [optionalPart]

theorem length_eventHead (name : Text) : ("event ".toList ++ name).length = 6 + name.length :=
  List.length_append

theorem eventLine_eq (name : Text) (kv : Option Text) :
    eventLine name kv = "event ".toList ++ (name ++ (optionalPart kv).flatten) := rfl

theorem length_eventLine_le (name : Text) (kv : Option Text) :
    (eventLine name kv).length ≤ 7 + name.length + (kv.getD []).length := by
  have hhead : "event ".toList.length = 6 := rfl
  rw [eventLine_eq, List.length_append, List.length_append, hhead]
  rcases kv with _ | _ | ⟨c, kv⟩
  · change 6 + (name.length + 0) ≤ 7 + name.length + 0
    omega
  · change 6 + (name.length + 0) ≤ 7 + name.length + 0
    omega
  · rw [flatten_optionalPart, List.length_cons, Option.getD_some]
    omega

/-- The pairs are on the line as a whole, or at most the blank before them is. -/
theorem text_eventBuffer {name : Text} (hroom : name.length ≤ 185) (kv : Option Text) :
    (McRpc.eventBuffer name kv).text =
      if (eventLine name kv).length ≤ 191 then eventLine name kv
      else push 191 ("event ".toList ++ name) [' '] := by
  have hlen := length_eventHead name
  have hhead : pushAll 191 [] ["event ".toList, name] = "event ".toList ++ name := by
    refine (pushAll_of_le ?_).trans (by simp)
    rw [List.length_nil, List.flatten_cons, List.flatten_singleton, hlen]
    omega
  have htext := (event_spec .init name kv).2
  rw [← eventBuffer_eq] at htext
  rw [htext]
  change pushAll 191 (pushAll 191 [] ["event ".toList, name]) (optionalPart kv) = _
  rw [hhead]
  have hline : eventLine name kv = "event ".toList ++ name ++ (optionalPart kv).flatten :=
    (List.append_assoc _ _ _).symm
  split
  · next hfits =>
    rw [hline] at hfits ⊢
    exact pushAll_of_le (List.length_append.symm.trans_le hfits)
  · next hlong =>
    rw [hline, List.length_append, hlen] at hlong
    rcases kv with _ | _ | ⟨c, kv⟩
    · exact absurd (show 6 + name.length ≤ 191 by omega) hlong
    · exact absurd (show 6 + name.length ≤ 191 by omega) hlong
    · -- the pairs have no room behind the blank, nor where there is none for the blank
      rw [flatten_optionalPart, List.length_cons, List.length_cons] at hlong
      change push 191 (push 191 ("event ".toList ++ name) [' ']) (c :: kv) = _
      rw [push, if_neg]
      rw [length_push, hlen, List.length_singleton, List.length_cons]
      split <;> omega

theorem split_optionalPart (kv : Option Text) :
    split (optionalPart kv).flatten = split (kv.getD []) := by
  rcases kv with _ | _ | ⟨c, kv⟩
  · rfl
  · rfl
  · rw [flatten_optionalPart, split, Words.words_cons (by decide)]
    rfl

/-- What a reader of the line finds behind the name. -/
theorem split_eventBuffer {name : Text} (hne : name ≠ []) (hname : Clean name)
    (hroom : name.length ≤ 185) {kv : Option Text} (hkv : nul ∉ kv.getD []) :
    split (McRpc.eventBuffer name kv).cstr = "event".toList :: name ::
      if (eventLine name kv).length ≤ 191 then split (kv.getD []) else [] := by
  have hread {tail : Text} (htail : nul ∉ tail) (hstops : Scan.Stops (fun c => !isSpace c) tail)
      (htext : (McRpc.eventBuffer name kv).text = "event ".toList ++ (name ++ tail)) :
      split (McRpc.eventBuffer name kv).cstr = "event".toList :: name :: split tail := by
    have hnul : nul ∉ "event ".toList ++ (name ++ tail) := by
      rw [List.mem_append, List.mem_append, not_or, not_or]
      exact ⟨by decide, hname.1, htail⟩
    rw [ReplyBuffer.cstr_of_text _ htext hnul, split_eventLine hne hname.2 hstops]
  have htext := text_eventBuffer hroom kv
  split
  · next hfits =>
    rw [if_pos hfits] at htext
    rw [← split_optionalPart]
    rcases kv with _ | _ | ⟨c, kv⟩
    · exact hread List.not_mem_nil Scan.stops_nil htext
    · exact hread List.not_mem_nil Scan.stops_nil htext
    · refine hread (fun hmem => hkv ?_) (Scan.stops_cons.mpr (by decide)) htext
      rw [flatten_optionalPart, List.mem_cons] at hmem
      exact hmem.resolve_left (by decide)
  · next hlong =>
    rw [if_neg hlong, push, length_eventHead] at htext
    split at htext
    · rw [List.append_assoc] at htext
      exact hread (by decide) (Scan.stops_cons.mpr (by decide)) htext
    · exact hread List.not_mem_nil Scan.stops_nil (by rw [htext, List.append_nil])

theorem buildEvent_eq {name : Text} (hne : name ≠ []) (kv : Option Text) :
    buildEvent name kv = .ok (eventLine name kv) := by
  rcases kv with _ | _ | ⟨c, kv⟩
  · exact (if_neg hne).trans (by simp [eventLine_eq, optionalPart])
  · exact (if_neg hne).trans (by simp [eventLine_eq, optionalPart])
  · exact (if_neg hne).trans (by simp [eventLine_eq, flatten_optionalPart])

theorem nul_not_mem_join_tokens {fields : List Field} (h : ∀ f ∈ fields, f.Writable) :
    nul ∉ join [' '] (fields.map Field.token) := by
  by_cases hnil : fields = []
  · rw [hnil]
    exact List.not_mem_nil
  · have hline := append_join_tokens hnil []
    rw [List.nil_append, List.nil_append] at hline
    have hnul := nul_not_mem_fieldsText (fun f hf => (h f hf).nul_not_mem)
    rw [← hline] at hnul
    exact fun hmem => hnul (List.mem_cons_of_mem _ hmem)

/-- Pairs that have room are read back as they are. -/
theorem parseEvent_eventBuffer {name : Text} (hne : name ≠ []) (hname : Clean name)
    {fields : List Field} (hfields : ∀ f ∈ fields, f.Writable)
    (hkeys : (fields.map Prod.fst).Nodup) {kv : Option Text}
    (hkv : kv.getD [] = join [' '] (fields.map Field.token))
    (hfits : 7 + name.length + (kv.getD []).length ≤ 191) :
    ∃ e, py.parseEvent (some (McRpc.eventBuffer name kv).cstr) = some e ∧ e.name = name ∧
      e.fields.entries = fields ∧
      e.parameters = fields.map (fun f => (f.1, py.coerceNumber f.2)) := by
  have hplain := fun f hf => (hfields f hf).plain
  have hline := length_eventLine_le name kv
  have hnul : nul ∉ kv.getD [] := hkv ▸ nul_not_mem_join_tokens hfields
  have hsplit := split_eventBuffer hne hname (by omega) hnul
  rw [if_pos (by omega), hkv, split_join_tokens hplain] at hsplit
  have hentries : (parseKvPairs (fields.map Field.token)).entries = fields := by
    rw [parseKvPairs_tokens hplain]
    refine Dict.entries_setAll ?_
    rw [Dict.empty, List.map_nil, List.nil_append]
    exact hkeys
  refine ⟨_, py.parseEvent_of_split hsplit, rfl, hentries, ?_⟩
  rw [Python.coerceFields, hentries]

/-- The line of a node is that of `build_event` exactly when the latter has room. -/
theorem cstr_eventBuffer_iff {name : Text} (hname : nul ∉ name) {kv : Option Text}
    (hkv : nul ∉ kv.getD []) : (McRpc.eventBuffer name kv).cstr = eventLine name kv ↔
      (eventLine name kv).length ≤ 191 := by
  constructor
  · intro h
    rw [← h]
    exact Nat.le_of_lt_succ (ReplyBuffer.length_cstr_lt _)
  · intro hfits
    have hnul : nul ∉ eventLine name kv := by
      rw [eventLine_eq, List.mem_append, List.mem_append, not_or, not_or]
      refine ⟨by decide, hname, ?_⟩
      rcases kv with _ | _ | ⟨c, kv⟩
      · exact List.not_mem_nil
      · exact List.not_mem_nil
      · rw [flatten_optionalPart, List.mem_cons, not_or]
        exact ⟨by decide, hkv⟩
    refine ReplyBuffer.cstr_of_text _ ?_ hnul
    rw [eventBuffer_eq]
    exact (complete_event_iff .init name kv).mpr hfits (event_spec .init name kv).1

section Client

variable {V T : Type} [Truthy V]

/-- An event changes nothing at the client, whoever it says it is from. -/
theorem RequestCorrelator.classifyInbound_event {raw text : Text} {e : ParsedEvent F}
    (hraw : Scan.Stops isBlank raw) (htext : Carries raw text)
    (h : py.parseEvent (some raw) = some e) (c : RequestCorrelator V T) (consume : Bool) :
    c.classifyInbound py text consume = (.ok { kind := .event, event := some e }, c) := by
  rw [classifyInbound, Python.stripSenderPrefix_eq, htext.strip hraw]
  dsimp only
  rw [h]

end Client
end Reading

def listeningNode : McRpc Unit Unit where
  events := (EventBus.empty.subscribe .engine).2

end Mcrpc
