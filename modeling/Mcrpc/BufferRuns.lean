import Mcrpc.ReplyBuffer
import Mcrpc.Lib.Unwinding

/-!
# Runs of calls on a reply buffer

Every call but one takes its text as a whole or not at all. The exception is a `printf` on an empty
buffer of a text `tmp` has no room for: `vsnprintf` cuts it, and what is left just fits.
-/

namespace Mcrpc

/-- The calls; `none` is a null pointer, and for `printf` an error of `vsnprintf`. -/
inductive BufferCall
  | clear
  | append (s : Option CText)
  | appendChar (c : {c : Char // c ≠ nul})
  | printf (formatted : Option CText)

namespace BufferCall

/-- What the call returns and the buffer behind it; `clear` is taken to return true. -/
def run (b : ReplyBuffer) : BufferCall → Bool × ReplyBuffer
  | clear => (true, b.clear)
  | append none => (false, b)
  | append (some s) => b.append s
  | appendChar c => b.appendChar c
  | printf none => (false, b)
  | printf (some formatted) => b.printf formatted

def text : BufferCall → Text
  | clear => []
  | append s => (s.map Subtype.val).getD []
  | appendChar c => [c.1]
  | printf formatted => (formatted.map Subtype.val).getD []

def isClear : BufferCall → Bool
  | clear => true
  | _ => false

def appended (content : Text) (call : BufferCall) : Text :=
  if call.isClear then [] else content ++ call.text

/-- False leaves the buffer as it is, true has taken the entire text. -/
def AllOrNothing (b : ReplyBuffer) (call : BufferCall) : Prop :=
  ((call.run b).1 = false → (call.run b).2 = b) ∧
    ((call.run b).1 = true → (call.run b).2.cstr = call.appended b.cstr)

/-- The call is no `printf` on an empty buffer with more than `tmp` can hold. -/
def Fits (b : ReplyBuffer) : BufferCall → Prop
  | printf (some formatted) => b.len = 0 → formatted.1.length < maxReply
  | _ => True

/-- A buffer and the calls it has got, with their results. -/
def step (s : ReplyBuffer × List (BufferCall × Bool)) (call : BufferCall) :
    (ReplyBuffer × List (BufferCall × Bool)) × Bool :=
  let r := call.run s.1
  ((r.2, s.2 ++ [(call, r.1)]), r.1)

def start : ReplyBuffer × List (BufferCall × Bool) := (.init, [])

/-- The texts of the successful calls since the last `clear`. -/
def sinceClear (calls : List (BufferCall × Bool)) : Text :=
  ((calls.rtakeWhile (fun r => !r.1.isClear)).filter (fun r => r.2)).flatMap (fun r => r.1.text)

/-- Every call is all or nothing, and the content at any time is what the successful calls since
the last `clear` have appended. -/
structure WholeRun (calls : List BufferCall) : Prop where
  everyCall : EveryStep step (fun s call => call.AllOrNothing s.1) start calls
  everyState : ∀ done, done <+: calls →
    let s := finalState step start done
    s.1.data[s.1.len]? = some nul ∧ s.1.len = s.1.cstr.length ∧ s.1.len ≤ 191 ∧
      s.1.cstr = sinceClear s.2

section OneCall

variable {b : ReplyBuffer}

theorem nul_not_mem_append (hb : nul ∉ b.text) {s : Text} (hs : nul ∉ s) :
    nul ∉ (b.append s).2.text := by
  rw [ReplyBuffer.text_append]
  split
  · exact List.not_mem_append hb hs
  · exact hb

theorem nul_not_mem_run (hb : nul ∉ b.text) (call : BufferCall) :
    nul ∉ (call.run b).2.text := by
  cases call with
  | clear => exact List.not_mem_nil
  | append s =>
    cases s with
    | none => exact hb
    | some s => exact nul_not_mem_append hb s.2
  | appendChar c => exact nul_not_mem_append hb (fun h => c.2 (List.mem_singleton.mp h).symm)
  | printf formatted =>
    cases formatted with
    | none => exact hb
    | some f => exact nul_not_mem_append hb (fun h => f.2 (List.mem_of_mem_take h))

theorem append_allOrNothing (hb : nul ∉ b.text) {s : Text} (hs : nul ∉ s) :
    ((b.append s).1 = false → (b.append s).2 = b) ∧
      ((b.append s).1 = true → (b.append s).2.cstr = b.cstr ++ s) := by
  obtain ⟨-, r, hr, -, htext⟩ | ⟨-, hr⟩ := b.append_spec s
  · rw [hr]
    refine ⟨nofun, fun _ => ?_⟩
    rw [b.cstr_eq_text hb]
    exact r.cstr_of_text htext (List.not_mem_append hb hs)
  · rw [hr]
    exact ⟨fun _ => rfl, nofun⟩

theorem printf_of_lt {f : Text} (h : f.length < maxReply) : b.printf f = b.append f := by
  have hcut : f.take (maxReply - 1) = f := List.take_of_length_le (Nat.le_pred_of_lt h)
  rw [ReplyBuffer.printf, hcut]

theorem printf_allOrNothing_iff (hb : nul ∉ b.text) (f : CText) :
    (printf (some f)).AllOrNothing b ↔ (printf (some f)).Fits b := by
  by_cases hf : f.1.length < maxReply
  · refine iff_of_true ?_ (fun _ => hf)
    rw [AllOrNothing, run, printf_of_lt hf]
    exact append_allOrNothing hb f.2
  · have hcut : (f.1.take (maxReply - 1)).length = maxReply - 1 :=
      List.length_take_of_le ((Nat.pred_le _).trans (Nat.le_of_not_lt hf))
    by_cases hlen : b.len = 0
    · -- What `tmp` holds fills the empty buffer to its last place.
      refine iff_of_false (fun ⟨_, htrue⟩ => ?_) (fun hfits => hf (hfits hlen))
      obtain ⟨-, r, hr, hrlen, -⟩ | ⟨hfull, -⟩ := b.append_spec (f.1.take (maxReply - 1))
      · have hrun : (printf (some f)).run b = (true, r) := hr
        rw [hrun] at htrue
        have hwhole : r.cstr = b.cstr ++ f.1 := htrue rfl
        have hlong := congrArg List.length hwhole
        have hshort := r.length_cstr_lt
        rw [List.length_append] at hlong
        omega
      · rw [hlen, hcut] at hfull
        exact absurd hfull (by decide)
    · refine iff_of_true ?_ (fun h => absurd h hlen)
      obtain ⟨hroom, -⟩ | ⟨-, hfull⟩ := b.append_spec (f.1.take (maxReply - 1))
      · rw [hcut] at hroom
        omega
      · rw [AllOrNothing, show (printf (some f)).run b = (false, b) from hfull]
        exact ⟨fun _ => rfl, nofun⟩

theorem allOrNothing_iff (hb : nul ∉ b.text) (call : BufferCall) :
    call.AllOrNothing b ↔ call.Fits b := by
  cases call with
  | clear => exact iff_of_true ⟨nofun, fun _ => b.clear.cstr_of_text rfl List.not_mem_nil⟩ trivial
  | append s =>
    refine iff_of_true ?_ trivial
    cases s with
    | none => exact ⟨fun _ => rfl, nofun⟩
    | some s => exact append_allOrNothing hb s.2
  | appendChar c =>
    exact iff_of_true (append_allOrNothing hb (fun h => c.2 (List.mem_singleton.mp h).symm)) trivial
  | printf formatted =>
    cases formatted with
    | none => exact iff_of_true ⟨fun _ => rfl, nofun⟩ trivial
    | some f => exact printf_allOrNothing_iff hb f

end OneCall

theorem sinceClear_concat (calls : List (BufferCall × Bool)) (call : BufferCall) (ok : Bool) :
    sinceClear (calls ++ [(call, ok)]) =
      if call.isClear then [] else sinceClear calls ++ if ok then call.text else [] := by
  rw [sinceClear, List.rtakeWhile_concat]
  cases hclear : call.isClear with
  | true => rfl
  | false =>
    rw [if_pos (by rfl), List.filter_append, List.flatMap_append]
    cases ok with
    | false => rfl
    | true => exact congrArg (sinceClear calls ++ ·) (List.append_nil call.text)

structure Invariant (s : ReplyBuffer × List (BufferCall × Bool)) : Prop where
  nul_not_mem : nul ∉ s.1.text
  content : s.1.cstr = sinceClear s.2

theorem Invariant.step {s : ReplyBuffer × List (BufferCall × Bool)} (h : Invariant s)
    {call : BufferCall} (hfits : call.Fits s.1) : Invariant (call.step s).1 := by
  refine ⟨nul_not_mem_run h.nul_not_mem call, ?_⟩
  obtain ⟨hfalse, htrue⟩ := (allOrNothing_iff h.nul_not_mem call).mpr hfits
  change (call.run s.1).2.cstr = sinceClear (s.2 ++ [(call, (call.run s.1).1)])
  rw [sinceClear_concat]
  cases hok : (call.run s.1).1 with
  | true => rw [htrue hok, appended, h.content, if_pos rfl]
  | false =>
    have hclear : call.isClear = false := by
      cases call with
      | clear => cases hok
      | _ => rfl
    rw [hfalse hok, h.content, hclear, if_neg Bool.false_ne_true, if_neg Bool.false_ne_true,
      List.append_nil]

/-- Runs on a fresh buffer are whole exactly when each call fits in the state it is made in. -/
theorem wholeRun_iff (calls : List BufferCall) :
    WholeRun calls ↔ EveryStep step (fun s call => call.Fits s.1) start calls := by
  have hstart : nul ∉ start.1.text := List.not_mem_nil
  constructor
  · intro h
    refine EveryStep.imp_of_invariant (I := fun s => nul ∉ s.1.text) ?_ hstart h.everyCall
    exact fun s call hs hwhole => ⟨(allOrNothing_iff hs call).mp hwhole, nul_not_mem_run hs call⟩
  · intro h
    refine ⟨?_, fun done hdone => ?_⟩
    · refine EveryStep.imp_of_invariant (I := fun s => nul ∉ s.1.text) ?_ hstart h
      exact fun s call hs hfits => ⟨(allOrNothing_iff hs call).mpr hfits, nul_not_mem_run hs call⟩
    · have hinv : Invariant (finalState step start done) :=
        h.invariant (J := fun _ => Invariant) ⟨hstart, rfl⟩
          (fun _ _ _ hs hfits => hs.step hfits) done hdone
      refine ⟨ReplyBuffer.terminated _, ?_, Nat.le_of_lt_succ (ReplyBuffer.len_lt _),
        hinv.content⟩
      rw [ReplyBuffer.cstr_eq_text _ hinv.nul_not_mem, ReplyBuffer.length_text]

def crosses : CText :=
  ⟨List.replicate maxReply 'x', fun h => absurd (List.eq_of_mem_replicate h) (by decide)⟩

theorem crosses_cut : ¬ WholeRun [printf (some crosses)] := by
  intro h
  have hfirst : (printf (some crosses)).AllOrNothing .init := h.everyCall.1
  have hfits := (allOrNothing_iff List.not_mem_nil _).mp hfirst rfl
  rw [crosses, List.length_replicate] at hfits
  exact Nat.lt_irrefl _ hfits

end BufferCall
end Mcrpc
