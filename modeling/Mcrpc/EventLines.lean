import Mcrpc.ParserScan
import Mcrpc.Transport

/-!
# Event lines

What a node puts on the wire for an event starts with the word `event`, whatever the name and the
pairs are and however much of them has room. A node that hears it takes it for a request to a node
of that name.
-/

namespace Mcrpc

namespace McRpc

def eventWord : Text := "event ".toList

theorem exists_cstr_eventBuffer (name : Text) (kv : Option Text) :
    ∃ rest, (eventBuffer name kv).cstr = eventWord ++ rest := by
  have hword : (ReplyBuffer.init.clear.append "event ".toList).2.text = eventWord := by decide
  have hname := isPrefix_append (ReplyBuffer.init.clear.append "event ".toList).2 name
  have hprefix : eventWord <+: (eventBuffer name kv).text := by
    rw [hword] at hname
    unfold eventBuffer
    split
    · exact hname.trans ((isPrefix_append _ [' ']).trans (isPrefix_append _ _))
    · exact hname
  obtain ⟨rest, hdata⟩ := (eventBuffer name kv).data_eq
  obtain ⟨t, ht⟩ := hprefix
  refine ⟨(t ++ nul :: rest).takeWhile (· ≠ nul), ?_⟩
  rw [ReplyBuffer.cstr, hdata, ← ht, List.append_assoc]
  exact List.takeWhile_append_of_pos (Scan.all_ne_of_not_mem (by decide))

section Published

theorem publishRaw_recorded_cases {σ : Type*} (cb : Callbacks σ) (text : Text) (delayMs : ℕ)
    (w : σ × List Published) :
    (publishRaw cb.recorded text delayMs w).world.2 = w.2 ∨
      (publishRaw cb.recorded text delayMs w).world.2 = w.2 ++ [sentAs cb text delayMs] := by
  by_cases htext : text = []
  · rw [publishRaw, if_pos htext]
    exact .inl rfl
  · by_cases hcb : cb.publishEx.isSome ∨ cb.publish.isSome
    · exact .inr (publishRaw_recorded hcb htext delayMs w)
    · rw [not_or, Option.not_isSome_iff_eq_none, Option.not_isSome_iff_eq_none] at hcb
      refine .inl ?_
      simp only [publishRaw, htext, if_false, Callbacks.recorded, Callbacks.lift, hcb.1, hcb.2,
        Option.map_none]

variable {H Φ σ : Type*} (m : McRpc H Φ)

theorem mem_publishEvent {cb : Callbacks σ} (apps : ℕ → Text → Option Text → σ → σ)
    (name kv : Option Text) (w : σ × List Published) :
    ∀ c ∈ (m.publishEvent cb.recorded (silentApps apps) name kv w).2.2,
      c ∈ w.2 ∨ ∃ rest, c.text = eventWord ++ rest := by
  intro c hc
  cases name with
  | none => exact .inl hc
  | some name =>
    by_cases hname : name = []
    · rw [hname] at hc
      exact .inl hc
    · rw [publishEvent, m.events.publish_some _ hname] at hc
      generalize m.events.subs = subs at hc
      induction subs generalizing w with
      | nil => exact .inl hc
      | cons sub subs ih =>
        rw [List.foldl_cons] at hc
        rcases ih _ hc with hdeliver | hline
        · cases sub with
          | app n => exact .inl hdeliver
          | engine =>
            change c ∈ (publishRaw cb.recorded (eventBuffer name kv).cstr 0 w).world.2 at hdeliver
            rcases publishRaw_recorded_cases cb (eventBuffer name kv).cstr 0 w with hsent | hsent
            · rw [hsent] at hdeliver
              exact .inl hdeliver
            · rw [hsent, List.mem_append, List.mem_singleton] at hdeliver
              refine hdeliver.imp_right (fun he => ?_)
              rw [he]
              exact exists_cstr_eventBuffer name kv
        · exact .inr hline

end Published

end McRpc

namespace Parser

theorem parseRequestId_target {p q : Text} {out out' : Request}
    (h : parseRequestId p out = (some q, out')) :
    out'.addressKind = out.addressKind ∧ out'.target = out.target := by
  unfold parseRequestId at h
  split at h
  · dsimp only at h
    split at h
    · cases h
    · obtain ⟨-, rfl⟩ := Prod.mk.inj h
      exact ⟨rfl, rfl⟩
  · obtain ⟨-, rfl⟩ := Prod.mk.inj h
    exact ⟨rfl, rfl⟩

theorem parse_event {s : Text} {req : Request}
    (h : parse (some (McRpc.eventWord ++ s)) = (.ok, req)) :
    req.addressKind = .named ∧ req.target = "event".toList := by
  have hrequest : parse (some (McRpc.eventWord ++ s)) = parseRequest (McRpc.eventWord ++ s) := rfl
  have htarget : parseTarget (McRpc.eventWord ++ s) {} =
      (some (' ' :: s), { target := "event".toList, addressKind := .named }) := rfl
  rw [hrequest, parseRequest, htarget] at h
  dsimp only at h
  split at h
  · cases (Prod.mk.inj h).1
  · next p out hid =>
    obtain ⟨hkind, hname⟩ := parseRequestId_target hid
    unfold parseCommand at h
    split at h
    · cases (Prod.mk.inj h).1
    · obtain ⟨-, rfl⟩ := Prod.mk.inj h
      exact ⟨hkind, hname⟩

end Parser
end Mcrpc
