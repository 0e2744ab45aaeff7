import Mcrpc.Reports
import Mcrpc.WireRoundTrip
import Mcrpc.Python.Dispatcher

/-!
# A host as the node

`dispatcher.py` on the other side of a `RequestCorrelator`. The host sees the request that was built,
and the client reads all that the handler returned: between two peers of the Python package nothing
has a length that it must not exceed.
-/

namespace Mcrpc

open Scan

variable {F V T : Type} [Truthy V] [Add T] {py : Python F} {t : Target} {n : UInt32} {w : Ident}
  {args : List Token}

/-- The host reads the plain line of a request, and its handler is given that request. -/
theorem PyDispatcher.dispatch_plain (hpy : py.Regular) (hlower : lower w.chars = w.chars)
    (halias : w.chars ≠ "discover".toList) (d : PyDispatcher)
    (haddr : d.addressed py (wireRequest t (some n) w args).toPython = true) :
    d.dispatch py (plainLine t (some n) w args).text =
      .ok (some (idPrefix n.toNat ++ d.body (wireRequest t (some n) w args).toPython)) := by
  have hdigits : (decimal n.toNat).length ≤ 4300 := (length_decimal_le n).trans (by decide)
  have hreply : prefixRequestId (d.body (wireRequest t (some n) w args).toPython)
      (some (n.toNat : ℤ)) =
        .ok (idPrefix n.toNat ++ d.body (wireRequest t (some n) w args).toPython) := by
    rw [prefixRequestId, pyStr_natCast hdigits, idPrefix, List.cons_append, List.append_assoc]
    rfl
  unfold dispatch
  rw [hpy.parse_plain hlower halias]
  dsimp only
  rw [if_pos haddr]
  change (do return some (← prefixRequestId _ (some (n.toNat : ℤ)))) = _
  rw [hreply]
  rfl

/-- A request that a client builds and a host answers comes back as the response to that request,
with all the words the handler returned, and only its entry is gone. -/
theorem RequestCorrelator.classifyInbound_hostReply (hpy : py.Regular)
    {c c' later : RequestCorrelator V T} {now : T} {a : BuildCall V T} {line : Text}
    {p : PendingRequest V T} (hbuild : c.build a now = (.ok (line, p), c'))
    (htarget : a.target = t.text) (hcommand : a.command = w.chars)
    (harguments : a.arguments = givenArgs args) (hid : (c.chooseId a.requestId).1 = (n.toNat : ℤ))
    (hlower : lower w.chars = w.chars) (halias : w.chars ≠ "discover".toList)
    (hbroadcast : a.broadcast = false)
    (hmeta : (a.metadata.get "broadcast".toList).any Truthy.truthy = false)
    (hpending : later.pending.get (n.toNat : ℤ) = some p) (d : PyDispatcher)
    (haddr : d.addressed py (wireRequest t (some n) w args).toPython = true)
    {sender : Text} (hsender : ':' ∉ sender) :
    ∃ reply, d.dispatch py line = .ok (some reply) ∧
      later.classifyInbound py (sender ++ ':' :: ' ' :: reply) =
        (.ok { kind := .response
               response := some (py.responseOf (strip reply) (some (n.toNat : ℤ))
                 (split (d.body (wireRequest t (some n) w args).toPython)))
               pending := some p },
          { later with pending := later.pending.erase (n.toNat : ℤ) }) := by
  obtain ⟨-, hline, ⟨deadline, hp⟩, -⟩ := c.build_ok hbuild
  have hnot : p.isBroadcast = false := by
    rw [hp]
    exact hmeta
  have hto : a.dest = t.text := by rw [BuildCall.dest, hbroadcast, htarget]; rfl
  have hplain : buildRequest t.text w.chars (some (n.toNat : ℤ)) (givenArgs args) =
      .ok (plainLine t (some n) w args).text := buildRequest_plain t (some n) w args
  rw [hid, hto, hcommand, harguments, hplain] at hline
  obtain rfl := Except.ok.inj hline
  refine ⟨_, PyDispatcher.dispatch_plain hpy hlower halias d haddr, ?_⟩
  have hclassify := Report.classifyInbound_pending py hpy later
    (show (wireRequest t (some n) w args).hasRequestId = true from rfl) hpending hsender
    (d.body (wireRequest t (some n) w args).toPython)
  rw [hnot, if_neg Bool.false_ne_true] at hclassify
  exact hclassify

def echoHost : PyDispatcher where
  handlers := ⟨[("echo".toList, fun req => join [' '] req.args)], by decide⟩
  nodeName := "desk".toList

def echoHello : BuildCall Bool ℕ :=
  { target := "desk".toList, command := "echo".toList, arguments := [some "hello".toList] }

theorem classifyInbound_hostReply_echo : ∃ line p c' reply,
    ({ defaultTimeout := 15 } : RequestCorrelator Bool ℕ).build echoHello 0 =
        (.ok (line, p), c') ∧
      echoHost.dispatch Python.ascii line = .ok (some reply) ∧
      c'.classifyInbound Python.ascii ("desk".toList ++ ':' :: ' ' :: reply) =
        (.ok { kind := .response
               response := some (Python.ascii.responseOf (strip reply) (some (1 : ℤ))
                 ["hello".toList])
               pending := some p },
          { c' with pending := c'.pending.erase (1 : ℤ) }) := by
  have hbuild : ∃ line p c', ({ defaultTimeout := 15 } : RequestCorrelator Bool ℕ).build
      echoHello 0 = (.ok (line, p), c') ∧ c'.pending.get (1 : ℤ) = some p :=
    ⟨_, _, _, rfl, rfl⟩
  obtain ⟨line, p, c', hbuild, hpending⟩ := hbuild
  obtain ⟨reply, hreply, hclassify⟩ := RequestCorrelator.classifyInbound_hostReply (n := 1)
    (t := .named (.word "desk".toList) rfl rfl) (w := .word "echo".toList)
    Python.ascii_regular hbuild rfl rfl (show _ = givenArgs [.word "hello".toList] from rfl) rfl
    (by decide) (by decide) rfl rfl hpending echoHost (by decide)
    (show ':' ∉ "desk".toList by decide)
  exact ⟨line, p, c', reply, hbuild, hreply, hclassify⟩

end Mcrpc
