import Mcrpc.Lib.Lens
import Mcrpc.McRpc

/-!
# A node in a larger world

The code of a node may work on a part of a larger world. Handling a message then changes that part
as it would on its own, provided that the handler of the message, the only one that runs, stays
within the part.
-/

namespace Mcrpc

variable {H Φ σ τ : Type*} (l : Lens τ σ)

def Callbacks.lift (cb : Callbacks σ) : Callbacks τ where
  publish := cb.publish.map (fun f text => l.lift (f text))
  publishEx := cb.publishEx.map (fun f text delayMs => l.lift (f text delayMs))
  entropy := cb.entropy.map l.lift
  uptime := cb.uptime.map l.lift
  rssi := cb.rssi.map l.lift

def Outcome.lift (o : Outcome σ) (w : τ) : Outcome τ where
  result := o.result
  published := o.published
  world := l.set o.world w

def Dispatcher.handlerFor (d : Dispatcher H) (line : Option Text) : Option H :=
  match Parser.parse line with
  | (.ok, req) =>
    if d.isAddressedToUs req then (d.registry.find req.command).map (·.handler) else none
  | _ => none

def McRpc.handlerFor (m : McRpc H Φ) (text : Option Text) : Option H :=
  text.bind (fun text => m.dispatcher.handlerFor (some (Parser.stripSenderPrefix (some text))))

theorem Dispatcher.handlerFor_satisfies {d : Dispatcher H} {P : H → Prop}
    (hd : d.registry.HandlersSatisfy P) {line : Option Text} {h : H} (hh : h ∈ d.handlerFor line) :
    P h := by
  rw [handlerFor] at hh
  split at hh
  · next req hparse =>
    split at hh
    · obtain ⟨entry, hfind, rfl⟩ := Option.map_eq_some_iff.mp hh
      exact hd.find hfind
    · cases hh
  · cases hh

theorem McRpc.handlerFor_satisfies {m : McRpc H Φ} {P : H → Prop}
    (hm : m.commands.HandlersSatisfy P) {text : Option Text} {h : H} (hh : h ∈ m.handlerFor text) :
    P h := by
  obtain ⟨text, -, hh⟩ := Option.mem_bind_iff.mp hh
  exact m.dispatcher.handlerFor_satisfies hm hh

theorem Dispatcher.dispatch_lift (d : Dispatcher H) {call : HandlerCall H σ}
    {call' : HandlerCall H τ} {line : Option Text} (reply : ReplyBuffer) {w : τ}
    (hcall : ∀ h ∈ d.handlerFor line, ∀ req reply,
      call' h req reply w = l.lift (call h req reply) w) :
    d.dispatch call' line reply w =
      let r := d.dispatch call line reply (l.get w)
      ⟨r.answered, r.reply, r.outReq, l.set r.world w⟩ := by
  rw [handlerFor] at hcall
  simp only [dispatch]
  split
  · next req hparse =>
    rw [hparse] at hcall
    split
    · next haddr =>
      cases hfind : d.registry.find req.command with
      | none => rw [l.set_get]
      | some entry =>
        simp only [haddr, if_true, hfind, Option.map_some] at hcall
        dsimp only
        rw [hcall entry.handler rfl]
        rfl
    · rw [l.set_get]
  · rw [l.set_get]

namespace McRpc

variable (m : McRpc H Φ)

theorem publishRaw_lift (cb : Callbacks σ) (text : Text) (delayMs : ℕ) (s : σ) (w : τ) :
    publishRaw (cb.lift l) text delayMs (l.set s w) =
      (publishRaw cb text delayMs s).lift l w := by
  simp only [publishRaw]
  split
  · rfl
  · cases hex : cb.publishEx with
    | some publishEx =>
      simp only [Callbacks.lift, hex, Option.map_some, l.lift_set]
      rfl
    | none =>
      cases hpub : cb.publish with
      | some publish =>
        simp only [Callbacks.lift, hex, hpub, Option.map_some, Option.map_none, l.lift_set]
        rfl
      | none =>
        simp only [Callbacks.lift, hex, hpub, Option.map_none]
        rfl

theorem entropy16_lift (cb : Callbacks σ) (s : σ) (w : τ) :
    entropy16 (cb.lift l) (l.set s w) = ((entropy16 cb s).1, l.set (entropy16 cb s).2 w) := by
  cases hentropy : cb.entropy with
  | none => simp only [entropy16, Callbacks.lift, hentropy, Option.map_none]
  | some entropy => simp only [entropy16, Callbacks.lift, hentropy, Option.map_some, l.lift_set]

/-- A message to a node whose code lives in a part of the world. -/
theorem handleInbound_lift (cb : Callbacks σ) {call : HandlerCall H σ} {call' : HandlerCall H τ}
    {text : Option Text} {w : τ}
    (hcall : ∀ h ∈ m.handlerFor text, ∀ req reply,
      call' h req reply w = l.lift (call h req reply) w) :
    m.handleInbound (cb.lift l) call' text w =
      (m.handleInbound cb call text (l.get w)).lift l w := by
  cases text with
  | none => rw [handleInbound, handleInbound, Outcome.lift, l.set_get]
  | some text =>
    simp only [handleInbound, handleLine]
    rw [m.dispatcher.dispatch_lift l _ hcall]
    dsimp only
    split
    · rw [entropy16_lift]
      exact publishRaw_lift l cb _ _ _ w
    · rfl

end McRpc
end Mcrpc
