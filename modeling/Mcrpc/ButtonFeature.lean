import Mcrpc.EventReading
import Mcrpc.NodeFields
import Mcrpc.ReplyLine

/-!
# Button events

`ButtonFeature` and its runs over any notifications. A press is counted when it is reported as a
whole or when the button goes up; every event that counts carries the number of presses so far, so
that a reader of the lines knows whether it has missed one.
-/

namespace Mcrpc

open OutboundBuilder

structure ButtonFeature where
  pressed : Bool := false
  pressCount : UInt32 := 0

namespace ButtonFeature

variable {S : Type*}

/-- `kv[48]` of the events that count. -/
def countKv (btnId : UInt8) (pressCount : UInt32) : Text :=
  if btnId ≤ 1 then copyToken 48 ("count=".toList ++ decimal pressCount.toNat)
  else copyToken 48
    ("id=".toList ++ decimal btnId.toNat ++ " count=".toList ++ decimal pressCount.toNat)

section Notify

variable (publishEvent : Text → Option Text → S → Bool × S) (f : ButtonFeature) (btnId : UInt8)
  (w : S)

def notifyPressed : ButtonFeature × S :=
  let f := { f with pressed := true, pressCount := f.pressCount + 1 }
  let (_, w) := publishEvent "button.pressed".toList (some (countKv btnId f.pressCount)) w
  ({ f with pressed := false }, w)

def notifyDown : ButtonFeature × S :=
  let f := { f with pressed := true }
  if btnId ≤ 1 then
    let (_, w) := publishEvent "button.down".toList none w
    (f, w)
  else
    let kv := copyToken 24 ("id=".toList ++ decimal btnId.toNat)
    let (_, w) := publishEvent "button.down".toList (some kv) w
    (f, w)

def notifyUp : ButtonFeature × S :=
  let f := { f with pressed := false, pressCount := f.pressCount + 1 }
  let (_, w) := publishEvent "button.up".toList (some (countKv btnId f.pressCount)) w
  (f, w)

def lastState : Bool := f.pressed

end Notify

inductive Notification
  | pressed (btnId : UInt8)
  | down (btnId : UInt8)
  | up (btnId : UInt8)

def notify (publishEvent : Text → Option Text → S → Bool × S) (s : ButtonFeature × S) :
    Notification → ButtonFeature × S
  | .pressed btnId => notifyPressed publishEvent s.1 btnId s.2
  | .down btnId => notifyDown publishEvent s.1 btnId s.2
  | .up btnId => notifyUp publishEvent s.1 btnId s.2

def notifyAll (publishEvent : Text → Option Text → S → Bool × S) (s : ButtonFeature × S)
    (calls : List Notification) : ButtonFeature × S := calls.foldl (notify publishEvent) s

/-! ### What a notification says -/

namespace Notification

def eventName : Notification → Text
  | .pressed _ => "button.pressed".toList
  | .down _ => "button.down".toList
  | .up _ => "button.up".toList

def btnId : Notification → UInt8
  | .pressed b | .down b | .up b => b

def isDown : Notification → Bool
  | .down _ => true
  | _ => false

def presses (a : Notification) : ℕ := if a.isDown then 0 else 1

def numbers (count : ℕ) (a : Notification) : List (Text × ℕ) :=
  (if a.btnId ≤ 1 then [] else [("id".toList, a.btnId.toNat)]) ++
    if a.isDown then [] else [("count".toList, count % 2 ^ 32)]

end Notification

def presses (calls : List Notification) : ℕ := calls.countP (fun a => !a.isDown)

def numberField (e : Text × ℕ) : Field := (e.1, decimal e.2)

def numbersText (numbers : List (Text × ℕ)) : Text :=
  join [' '] ((numbers.map numberField).map Field.token)

theorem numbersText_cons (e : Text × ℕ) (es : List (Text × ℕ)) :
    numbersText (e :: es) = e.1 ++ '=' :: decimal e.2 ++
      es.flatMap (fun e => ' ' :: (e.1 ++ '=' :: decimal e.2)) := by
  rw [numbersText, List.map_cons, List.map_cons, join_cons, List.map_map, List.flatMap_map]
  rfl

theorem copyToken_eq_self {n : ℕ} {s : Text} (h : s.length < n) : copyToken n s = s :=
  List.take_of_length_le (by omega)

theorem length_decimal_btnId (btnId : UInt8) : (decimal btnId.toNat).length ≤ 3 := by
  have := btnId.toNat_lt
  rw [decimal, Nat.length_toDigits_le_iff (by decide) (by decide)]
  omega

/-- Nothing is cut off `kv[48]`. -/
theorem countKv_eq (btnId : UInt8) {pressCount : UInt32} {count : ℕ}
    (hcount : pressCount.toNat = count % 2 ^ 32) : countKv btnId pressCount =
      numbersText ((if btnId ≤ 1 then [] else [("id".toList, btnId.toNat)]) ++
        [("count".toList, count % 2 ^ 32)]) := by
  have hid := length_decimal_btnId btnId
  have hlen := length_decimal_le pressCount
  rw [countKv, ← hcount]
  split
  · rw [copyToken_eq_self, List.nil_append, numbersText_cons, List.flatMap_nil, List.append_nil]
    · rfl
    · rw [List.length_append]
      exact Nat.lt_of_le_of_lt (Nat.add_le_add_left hlen _) (by decide)
  · rw [copyToken_eq_self, List.singleton_append, numbersText_cons, List.flatMap_singleton]
    · simp
    · simp only [List.length_append]
      exact Nat.lt_of_le_of_lt
        (Nat.add_le_add (Nat.add_le_add_right (Nat.add_le_add_left hid _) _) hlen) (by decide)

/-- The step lemma: the event of a notification, and the feature behind it. -/
theorem notify_eq (publishEvent : Text → Option Text → S → Bool × S) {f : ButtonFeature} {count : ℕ}
    (hcount : f.pressCount.toNat = count % 2 ^ 32) (w : S) (a : Notification) :
    ∃ kv f', kv.getD [] = numbersText (a.numbers (count + a.presses)) ∧
      f'.pressed = a.isDown ∧ f'.pressCount.toNat = (count + a.presses) % 2 ^ 32 ∧
      notify publishEvent (f, w) a = (f', (publishEvent a.eventName kv w).2) := by
  have hnext : (f.pressCount + 1).toNat = (count + 1) % 2 ^ 32 := by
    have hone : (1 : UInt32).toNat = 1 := rfl
    rw [UInt32.toNat_add, hcount, hone]
    omega
  cases a with
  | pressed btnId =>
    exact ⟨some (countKv btnId (f.pressCount + 1)), _, countKv_eq btnId hnext, rfl, hnext, rfl⟩
  | down btnId =>
    by_cases hfirst : btnId ≤ 1
    · refine ⟨none, { f with pressed := true }, ?_, rfl, hcount, ?_⟩
      · rw [Notification.numbers, show (Notification.down btnId).btnId = btnId from rfl,
          if_pos hfirst]
        rfl
      · simp only [notify, notifyDown, hfirst, if_true]
        rfl
    · have hkv : copyToken 24 ("id=".toList ++ decimal btnId.toNat) =
          numbersText [("id".toList, btnId.toNat)] := by
        have hid := length_decimal_btnId btnId
        rw [copyToken_eq_self, numbersText_cons, List.flatMap_nil, List.append_nil]
        · rfl
        · rw [List.length_append]
          exact Nat.lt_of_le_of_lt (Nat.add_le_add_left hid _) (by decide)
      refine ⟨some (copyToken 24 ("id=".toList ++ decimal btnId.toNat)), { f with pressed := true },
        ?_, rfl, hcount, ?_⟩
      · rw [Notification.numbers, show (Notification.down btnId).btnId = btnId from rfl,
          if_neg hfirst, Option.getD_some, hkv]
        rfl
      · simp only [notify, notifyDown, hfirst, if_false]
        rfl
  | up btnId =>
    exact ⟨some (countKv btnId (f.pressCount + 1)), _, countKv_eq btnId hnext, rfl, hnext, rfl⟩

/-! ### What is read of the events -/

section Reading

variable {F : Type} (py : Python F)

def Notification.Says (a : Notification) (count : ℕ) (line : Text) : Prop :=
  ∃ e, py.parseEvent (some line) = some e ∧ e.name = a.eventName ∧
    e.fields.entries = (a.numbers count).map numberField ∧
    e.parameters = (a.numbers count).map (fun e => (e.1, .int e.2))

namespace Notification

variable (a : Notification) (count : ℕ)

theorem mem_numbers {e : Text × ℕ} (h : e ∈ a.numbers count) :
    (e.1 = "id".toList ∨ e.1 = "count".toList) ∧ e.2 < 2 ^ 32 := by
  rcases List.mem_append.mp h with hid | hcount
  · split at hid
    · cases hid
    · obtain rfl := List.mem_singleton.mp hid
      exact ⟨.inl rfl, a.btnId.toNat_lt.trans (by decide)⟩
  · split at hcount
    · cases hcount
    · obtain rfl := List.mem_singleton.mp hcount
      exact ⟨.inr rfl, Nat.mod_lt _ (by decide)⟩

theorem numbers_sublist : (a.numbers count).Sublist
    [("id".toList, a.btnId.toNat), ("count".toList, count % 2 ^ 32)] := by
  have hid : (if a.btnId ≤ 1 then [] else [("id".toList, a.btnId.toNat)]).Sublist
      [("id".toList, a.btnId.toNat)] := by
    split
    · exact List.nil_sublist _
    · exact List.Sublist.refl _
  have hcount : (if a.isDown then [] else [("count".toList, count % 2 ^ 32)]).Sublist
      [("count".toList, count % 2 ^ 32)] := by
    split
    · exact List.nil_sublist _
    · exact List.Sublist.refl _
  exact hid.append hcount

theorem writable_numbers : ∀ f ∈ (a.numbers count).map numberField, Field.Writable f := by
  intro f hf
  obtain ⟨e, he, rfl⟩ := List.mem_map.mp hf
  refine ⟨?_, clean_decimal _⟩
  rcases (a.mem_numbers count he).1 with hkey | hkey
  · exact (congrArg isKey hkey).trans (by decide)
  · exact (congrArg isKey hkey).trans (by decide)

theorem eventName_short :
    a.eventName ≠ [] ∧ Clean a.eventName ∧ a.eventName.length ≤ 14 := by
  cases a with
  | pressed _ =>
    change "button.pressed".toList ≠ [] ∧ Clean "button.pressed".toList ∧ _
    exact ⟨by decide, clean_word (by decide), le_refl 14⟩
  | down _ =>
    change "button.down".toList ≠ [] ∧ Clean "button.down".toList ∧ _
    exact ⟨by decide, clean_word (by decide), show 11 ≤ 14 by decide⟩
  | up _ =>
    change "button.up".toList ≠ [] ∧ Clean "button.up".toList ∧ _
    exact ⟨by decide, clean_word (by decide), show 9 ≤ 14 by decide⟩

end Notification

theorem length_numbersText_le {es : List (Text × ℕ)}
    (h : ∀ e ∈ es, e.1.length ≤ 5 ∧ e.2 < 2 ^ 32) : (numbersText es).length ≤ 17 * es.length := by
  have htail {es : List (Text × ℕ)} (h : ∀ e ∈ es, e.1.length ≤ 5 ∧ e.2 < 2 ^ 32) :
      (es.flatMap (fun e => ' ' :: (e.1 ++ '=' :: decimal e.2))).length ≤ 17 * es.length := by
    induction es with
    | nil => exact Nat.zero_le _
    | cons e es ih =>
      obtain ⟨⟨hkey, hvalue⟩, hes⟩ := List.forall_mem_cons.mp h
      have := ih hes
      have := length_decimal_le_of_lt hvalue
      simp only [List.flatMap_cons, List.length_append, List.length_cons] at *
      omega
  cases es with
  | nil => exact Nat.zero_le _
  | cons e es =>
    have hall := htail h
    rw [numbersText_cons]
    simp only [List.flatMap_cons, List.length_append, List.length_cons] at hall ⊢
    omega

/-- The line has room for the event, and is read as the notification. -/
theorem Notification.says_eventBuffer (a : Notification) (count : ℕ) {kv : Option Text}
    (hkv : kv.getD [] = numbersText (a.numbers count)) :
    a.Says py count (McRpc.eventBuffer a.eventName kv).cstr := by
  obtain ⟨hne, hclean, hname⟩ := a.eventName_short
  have hsub := a.numbers_sublist count
  have hkeys : (((a.numbers count).map numberField).map Prod.fst).Nodup := by
    rw [List.map_map]
    exact (hsub.map Prod.fst).nodup (by simp)
  have htext : (numbersText (a.numbers count)).length ≤ 17 * (a.numbers count).length := by
    apply length_numbersText_le
    intro e he
    obtain ⟨hkey, hvalue⟩ := a.mem_numbers count he
    refine ⟨?_, hvalue⟩
    rcases hkey with hkey | hkey
    · rw [hkey]
      decide
    · rw [hkey]
      decide
  have hcount : (a.numbers count).length ≤ 2 := hsub.length_le
  rw [← hkv] at htext
  obtain ⟨e, hparse, hevent, hentries, hparameters⟩ := parseEvent_eventBuffer py hne hclean
    (a.writable_numbers count) hkeys hkv (by omega)
  refine ⟨e, hparse, hevent, hentries, hparameters.trans ?_⟩
  rw [List.map_map]
  refine List.map_congr_left (fun e he => ?_)
  have hdigits := length_decimal_le_of_lt (a.mem_numbers count he).2
  exact congrArg (Prod.mk e.1) (py.coerceNumber_decimal (hdigits.trans (by decide)))

variable {H Φ σ : Type*} (m : McRpc H Φ) {cb : Callbacks σ}

/-- A notification sends one line, which says it. -/
theorem notify_says (hbus : m.events.subs.count .engine = 1)
    (hcb : cb.publishEx.isSome ∨ cb.publish.isSome) (apps : ℕ → Text → Option Text → σ → σ)
    {f : ButtonFeature} {count : ℕ} (hcount : f.pressCount.toNat = count % 2 ^ 32)
    (w : σ × List Published) (a : Notification) :
    let r := notify (m.publishEvent cb.recorded (silentApps apps) ∘ some) (f, w) a
    r.1.pressed = a.isDown ∧ r.1.pressCount.toNat = (count + a.presses) % 2 ^ 32 ∧
      ∃ c, r.2.2 = w.2 ++ [c] ∧ a.Says py (count + a.presses) c.text := by
  obtain ⟨kv, f', hkv, hpressed, hcount', heq⟩ :=
    notify_eq (m.publishEvent cb.recorded (silentApps apps) ∘ some) hcount w a
  dsimp only
  rw [heq]
  refine ⟨hpressed, hcount', ?_⟩
  have hsent := m.publishEvent_recorded hcb apps a.eventName_short.1 kv w
  rw [hbus] at hsent
  exact ⟨_, hsent, a.says_eventBuffer py _ hkv⟩

end Reading

/-! ### Runs -/

theorem presses_concat (done : List Notification) (a : Notification) :
    presses (done ++ [a]) = presses done + a.presses := by
  rw [presses, List.countP_append, List.countP_singleton, Notification.presses]
  cases a.isDown <;> rfl

theorem notifyAll_concat (publishEvent : Text → Option Text → S → Bool × S) (s : ButtonFeature × S)
    (done : List Notification) (a : Notification) :
    notifyAll publishEvent s (done ++ [a]) =
      notify publishEvent (notifyAll publishEvent s done) a := by
  rw [notifyAll, List.foldl_append]
  rfl

/-- The last edge of some notifications, `pressed` when there is none. -/
def lastEdge (pressed : Bool) (calls : List Notification) : Bool :=
  (calls.getLast?.map Notification.isDown).getD pressed

/-- Every notification sends one line, in order, and the lines count the presses from what the
feature had counted before. -/
theorem notifyAll_says {F : Type} (py : Python F) {H Φ σ : Type*} (m : McRpc H Φ) {cb : Callbacks σ}
    (hbus : m.events.subs.count .engine = 1) (hcb : cb.publishEx.isSome ∨ cb.publish.isSome)
    (apps : ℕ → Text → Option Text → σ → σ) (f : ButtonFeature) (w : σ)
    (calls : List Notification) :
    let r := notifyAll (m.publishEvent cb.recorded (silentApps apps) ∘ some) (f, (w, [])) calls
    r.2.2.length = calls.length ∧
      (∀ (i : ℕ) (a : Notification), calls[i]? = some a → ∃ c, r.2.2[i]? = some c ∧
        a.Says py (f.pressCount.toNat + presses (calls.take (i + 1))) c.text) ∧
      r.1.lastState = lastEdge f.pressed calls ∧
      r.1.pressCount.toNat = (f.pressCount.toNat + presses calls) % 2 ^ 32 := by
  induction calls using List.reverseRecOn with
  | nil =>
    refine ⟨rfl, fun i a h => absurd h (by simp), rfl, ?_⟩
    exact (Nat.mod_eq_of_lt f.pressCount.toNat_lt).symm
  | append_singleton done a ih =>
    obtain ⟨hlen, hlines, -, hcount⟩ := ih
    dsimp only
    rw [notifyAll_concat]
    generalize notifyAll _ (f, (w, ([] : List Published))) done = r at hlen hlines hcount
    obtain ⟨g, w', log⟩ := r
    obtain ⟨hpressed, hcount', c, hlog, hsays⟩ := notify_says py m hbus hcb apps hcount (w', log) a
    have hall : presses (done ++ [a]) = presses done + a.presses := presses_concat done a
    rw [Nat.add_assoc, ← hall] at hcount' hsays
    refine ⟨?_, fun i b hi => ?_, ?_, hcount'⟩
    · rw [hlog, List.length_append, List.length_append, hlen]
      rfl
    · rw [hlog]
      rcases Nat.lt_or_ge i done.length with hlt | hge
      · rw [List.getElem?_append_left hlt] at hi
        rw [List.getElem?_append_left (hlen ▸ hlt), List.take_append_of_le_length hlt]
        exact hlines i b hi
      · have hlast : i = done.length := by
          have := (List.getElem?_eq_some_iff.mp hi).1
          rw [List.length_append, List.length_singleton] at this
          omega
        subst hlast
        rw [List.getElem?_concat_length] at hi
        obtain rfl := Option.some.inj hi
        refine ⟨c, ?_, ?_⟩
        · rw [← hlen, List.getElem?_concat_length]
        · rw [List.take_of_length_le (by rw [List.length_append]; rfl)]
          exact hsays
    · rw [lastEdge, List.getLast?_concat]
      exact hpressed

theorem notifyAll_says_held :
    let r := notifyAll
      (listeningNode.publishEvent publishing.recorded (silentApps (fun _ _ _ w => w)) ∘ some)
      ({}, ((), [])) [.down 1, .up 1, .pressed 2]
    r.2.2.length = 3 ∧
      (∀ (i : ℕ) (a : Notification), [.down 1, .up 1, .pressed 2][i]? = some a →
        ∃ c, r.2.2[i]? = some c ∧
          a.Says Python.ascii
            (0 + presses ([.down 1, .up 1, .pressed 2].take (i + 1))) c.text) ∧
      r.1.lastState = false ∧ r.1.pressCount.toNat = 2 :=
  notifyAll_says Python.ascii listeningNode rfl (.inr rfl) (fun _ _ _ w => w) {} ()
    [.down 1, .up 1, .pressed 2]

end ButtonFeature
end Mcrpc
