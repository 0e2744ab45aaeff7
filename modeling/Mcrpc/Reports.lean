import Mcrpc.AnsweredCalls

/-!
# Reports

What a feature has to say to a request, apart from the text it says it in: that it failed, that it is
done, or some values under a word. `parse_response` reads the text of a report back as the response
of its kind, with the id of the request it stands behind.
-/

namespace Mcrpc

inductive Report
  | failed (code : Text)
  | done (detail : Option Text)
  | values (word : Text) (fields : List Field)

namespace Report

def text : Report → Text
  | failed code => "err ".toList ++ code
  | done none => "ok".toList
  | done (some detail) => "ok ".toList ++ detail
  | values word fields => word ++ fieldsText fields

theorem text_values_one (word key value : Text) :
    (values word [(key, value)]).text = word ++ ' ' :: (key ++ ['=']) ++ value := by
  rw [text, fieldsText, List.flatMap_singleton, Field.text]
  simp

def valueKinds : List (Text × ResponseKind) :=
  [("gps".toList, .gps), ("battery".toList, .battery), ("voltage".toList, .voltage),
    ("charging".toList, .charging)]

def kind : Report → ResponseKind
  | failed _ => .error
  | done _ => .ok
  | values word _ => ((valueKinds.find? (fun e => e.1 = word)).map Prod.snd).getD .data

def words : List Text :=
  ["gps".toList, "battery".toList, "voltage".toList, "charging".toList, "button".toList,
    "button_state".toList]

def keys : List Text :=
  ["value".toList, "voltage".toList, "count".toList, "status".toList, "lat".toList, "lon".toList,
    "alt".toList, "sat".toList, "hdop".toList]

/-- A report whose parts are single words, with a value for each of some keys of the features. -/
inductive Sound : Report → Prop
  | failed {code : Text} : isKey code = true → Sound (failed code)
  | done {detail : Option Text} : (∀ d ∈ detail, isKey d = true) → Sound (done detail)
  | values {word : Text} {fields : List Field} : word ∈ words → fields ≠ [] →
      (∀ f ∈ fields, f.1 ∈ keys ∧ Clean f.2) → (fields.map Prod.fst).Nodup →
      Sound (values word fields)

variable {F : Type} (py : Python F)

def response (raw : Text) (rid : Option ℤ) : Report → ParsedResponse F
  | failed code => { kind := .error, raw := raw, requestId := rid, errorCode := some code }
  | done detail => { kind := .ok, raw := raw, requestId := rid, okDetail := detail }
  | values word fields =>
    { kind := (values word fields).kind, raw := raw, requestId := rid, commandHint := some word
      parameters := fields.map (fun f => (f.1, py.coerceNumber f.2))
      fields := Dict.empty.setAll fields }

theorem requestId_response (raw : Text) (rid : Option ℤ) (r : Report) :
    (r.response py raw rid).requestId = rid := by
  cases r <;> rfl

def replyId (req : Request) : Option ℤ :=
  if req.hasRequestId then some (req.requestId.toNat : ℤ) else none

def tokens : Report → List Text
  | failed code => ["err".toList, code]
  | done detail => "ok".toList :: detail.toList
  | values word fields => word :: fields.map Field.token

theorem writable_of_keys {fields : List Field} (h : ∀ f ∈ fields, f.1 ∈ keys ∧ Clean f.2) :
    ∀ f ∈ fields, f.Writable := by
  have hkeys : keys.all isKey = true := by decide
  exact fun f hf => ⟨List.all_eq_true.mp hkeys _ (h f hf).1, (h f hf).2⟩

theorem isKey_of_mem_words {word : Text} (h : word ∈ words) : isKey word = true := by
  have hwords : words.all isKey = true := by decide
  exact List.all_eq_true.mp hwords word h

theorem split_of_isKey {w : Text} (h : isKey w = true) : split w = [w] :=
  Words.words_eq_singleton (clean_of_isKey h).1 (clean_of_isKey h).2.1.2

theorem Sound.split_text {r : Report} (h : r.Sound) : split r.text = r.tokens := by
  have hhead {w code : Text} (hw : isKey w = true) (hcode : isKey code = true) :
      split (w ++ ' ' :: code) = [w, code] := by
    rw [split, Words.words_append_cons (by decide)]
    exact congrArg₂ (· ++ ·) (split_of_isKey hw) (split_of_isKey hcode)
  cases h with
  | failed hcode => exact hhead (w := "err".toList) (by decide) hcode
  | @done detail hdetail =>
    cases detail with
    | none => exact split_of_isKey (w := "ok".toList) (by decide)
    | some d => exact hhead (w := "ok".toList) (by decide) (hdetail d rfl)
  | values hword _ hfields _ =>
    have hplain := fun f hf => (writable_of_keys hfields f hf).plain
    exact (split_append_fieldsText _ hplain).trans
      (congrArg (· ++ _) (split_of_isKey (isKey_of_mem_words hword)))

/-- No report starts like an id. -/
theorem Sound.exists_tokens {r : Report} (h : r.Sound) :
    ∃ token rest, r.tokens = token :: rest ∧ ∀ digits, token ≠ '#' :: digits := by
  cases h with
  | failed _ => exact ⟨_, _, rfl, fun _ he => by cases he⟩
  | done _ => exact ⟨_, _, rfl, fun _ he => by cases he⟩
  | @values word fields hword _ _ _ =>
    refine ⟨word, _, rfl, fun digits he => ?_⟩
    have hhash : words.all (fun w => '#' ∉ w) = true := by decide
    have hword := List.all_eq_true.mp hhash word hword
    rw [he, decide_eq_true_eq] at hword
    exact hword List.mem_cons_self

theorem Sound.nul_not_mem {r : Report} (h : r.Sound) : nul ∉ r.text := by
  have hkey {w : Text} (hw : isKey w = true) : nul ∉ w := (clean_of_isKey hw).2.1.1
  cases h with
  | failed hcode => exact List.not_mem_append (by decide) (hkey hcode)
  | @done detail hdetail =>
    cases detail with
    | none => exact hkey (w := "ok".toList) (by decide)
    | some d => exact List.not_mem_append (by decide) (hkey (hdetail d rfl))
  | values hword _ hfields _ =>
    exact List.not_mem_append (hkey (isKey_of_mem_words hword)) (nul_not_mem_fieldsText
      (fun f hf => (writable_of_keys hfields f hf).nul_not_mem))

theorem lower_of_mem_words {word : Text} (h : word ∈ "err".toList :: "ok".toList :: words) :
    py.lower word = word := by
  have hwords : ("err".toList :: "ok".toList :: words).all
      (fun w => w.all (fun c => c.toNat < 128) && lower w = w) = true := by decide
  have hword := List.all_eq_true.mp hwords word h
  rw [Bool.and_eq_true, decide_eq_true_eq] at hword
  rw [py.lower_ascii word (fun c hc => of_decide_eq_true (List.all_eq_true.mp hword.1 c hc)), hword.2]

/-- No field of a feature is one of those that discovery is recognised by. -/
theorem get_setAll_eq_none {fields : List Field} (hfields : ∀ f ∈ fields, f.1 ∈ keys ∧ Clean f.2)
    {key : Text} (hkey : key ∉ keys) : (Dict.empty.setAll fields).get key = none := by
  rw [Option.eq_none_iff_forall_not_mem]
  intro v hv
  rcases Dict.mem_setAll (Dict.mem_entries_iff.mpr hv) with hmem | hmem
  · cases hmem
  · exact hkey (hfields _ hmem).1

theorem Sound.responseOf_tokens {r : Report} (h : r.Sound) (raw : Text) (rid : Option ℤ) :
    py.responseOf raw rid r.tokens = r.response py raw rid := by
  cases h with
  | @failed code hcode =>
    have hkv : parseKvPairs [code] = .empty := if_neg (clean_of_isKey hcode).2.2
    have herr := lower_of_mem_words py (List.mem_cons_self (a := "err".toList))
    rw [tokens, Python.responseOf, herr, hkv]
    rfl
  | @done detail hdetail =>
    have hok := lower_of_mem_words py
      (List.mem_cons_of_mem _ (List.mem_cons_self (a := "ok".toList)))
    rw [tokens, Python.responseOf, hok]
    cases detail with
    | none => rfl
    | some d =>
      have hkv : parseKvPairs [d] = .empty := if_neg (clean_of_isKey (hdetail d rfl)).2.2
      have hjoin : join [' '] [d] = d := (join_cons ' ' d []).trans (List.append_nil d)
      rw [Option.toList_some, hkv, hjoin]
      rfl
  | @values word fields hword hne hfields hnodup =>
    have hplain := fun f hf => (writable_of_keys hfields f hf).plain
    have hentries : (Dict.empty.setAll fields).entries = fields := by
      refine Dict.entries_setAll ?_
      rw [Dict.empty, List.map_nil, List.nil_append]
      exact hnodup
    have hparams : py.coerceFields (Dict.empty.setAll fields) =
        fields.map (fun f => (f.1, py.coerceNumber f.2)) := by rw [Python.coerceFields, hentries]
    have hlower := lower_of_mem_words py
      (List.mem_cons_of_mem _ (List.mem_cons_of_mem _ hword))
    have hprofile := get_setAll_eq_none hfields (show "profile".toList ∉ keys by decide)
    have hprotocol := get_setAll_eq_none hfields (show "protocol".toList ∉ keys by decide)
    have hsdk := get_setAll_eq_none hfields (show "sdk".toList ∉ keys by decide)
    rw [← hentries] at hne
    rw [tokens, Python.responseOf, parseKvPairs_tokens hplain, hparams, hlower, hprofile, hprotocol,
      hsdk]
    simp only [words, List.mem_cons, List.not_mem_nil, or_false] at hword
    rcases hword with rfl | rfl | rfl | rfl | rfl | rfl
    · rfl
    · rfl
    · rfl
    · rfl
    · exact if_pos hne
    · exact if_pos hne

/-- What stands behind the id of a reply is read with that id. -/
theorem takeRequestId_prefixText {t token : Text} {rest : List Text} (h : split t = token :: rest)
    (hhash : ∀ digits, token ≠ '#' :: digits) (req : Request) :
    py.takeRequestId (split (req.prefixText ++ t)) = .ok (replyId req, token :: rest) := by
  rw [Request.prefixText, replyId]
  split
  · rw [idPrefix, ← List.cons_append, List.cons_append, split_hash_decimal, h]
    exact py.takeRequestId_decimal ((length_decimal_le req.requestId).trans (by decide)) _
  · rw [List.nil_append, h]
    exact py.takeRequestId_of_ne hhash

/-- A client takes what comes with an id as the response of that id. -/
theorem classifyInbound_prefixText {V T : Type} [Truthy V] (hpy : py.Regular)
    (c : RequestCorrelator V T) {req : Request} (hid : req.hasRequestId = true) {sender : Text}
    (hsender : ':' ∉ sender) (t : Text) (consume : Bool) :
    c.classifyInbound py (sender ++ ':' :: ' ' :: (req.prefixText ++ t)) consume =
      let resp := py.responseOf (strip (req.prefixText ++ t)) (replyId req) (split t)
      (.ok (c.matchResponse resp consume).1, (c.matchResponse resp consume).2) := by
  have hreplied : req.prefixText = '#' :: (decimal req.requestId.toNat ++ [' ']) := if_pos hid
  have hbody : Python.stripSenderPrefix
      (some (sender ++ ':' :: ' ' :: (req.prefixText ++ t))) = req.prefixText ++ t := by
    rw [hreplied]
    exact Python.stripSenderPrefix_append hsender (Scan.stops_cons.mpr rfl)
  have hwords : split (req.prefixText ++ t) =
      ('#' :: decimal req.requestId.toNat) :: split t := by
    rw [hreplied, split_hash_decimal]
  have hdigits := (length_decimal_le req.requestId).trans (show 10 ≤ 4300 by decide)
  rw [hpy.classifyInbound_hash c (hbody.symm ▸ hwords), py.takeRequestId_decimal hdigits, hbody,
    replyId, if_pos hid]

/-- A client whose request is pending is given what comes with its id. -/
theorem classifyInbound_pending {V T : Type} [Truthy V] (hpy : py.Regular)
    (c : RequestCorrelator V T) {q : PendingRequest V T} {req : Request}
    (hid : req.hasRequestId = true) (hget : c.pending.get (req.requestId.toNat : ℤ) = some q)
    {sender : Text} (hsender : ':' ∉ sender) (t : Text) :
    c.classifyInbound py (sender ++ ':' :: ' ' :: (req.prefixText ++ t)) =
      (.ok { kind := .response
             response := some
               (py.responseOf (strip (req.prefixText ++ t)) (replyId req) (split t))
             pending := some q },
        if q.isBroadcast then c
        else { c with pending := c.pending.erase (req.requestId.toNat : ℤ) }) := by
  have hrid : (py.responseOf (strip (req.prefixText ++ t)) (replyId req) (split t)).requestId =
      some (req.requestId.toNat : ℤ) := by
    rw [py.requestId_responseOf, replyId, if_pos hid]
  rw [classifyInbound_prefixText py hpy c hid hsender]
  dsimp only
  rw [c.matchResponse_of_get hrid hget]

/-- A report is read behind the id of its request, and with that id. -/
theorem Sound.parse_prefixText {r : Report} (h : r.Sound) (req : Request) :
    py.parseResponse (some (req.prefixText ++ r.text)) =
      .ok (r.response py (strip (req.prefixText ++ r.text)) (replyId req)) := by
  obtain ⟨token, rest, htokens, hhash⟩ := h.exists_tokens
  rw [← h.responseOf_tokens py, htokens]
  exact py.parseResponse_of_eq
    (takeRequestId_prefixText py (h.split_text.trans htokens) hhash req)

end Report
end Mcrpc
