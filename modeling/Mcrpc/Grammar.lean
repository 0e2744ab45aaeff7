import Mcrpc.Parser
import Mcrpc.Lib.Scan

/-!
# Request lines

The request grammar as data: a `RequestLine` is a well-formed request together with its layout, the
blanks between its tokens, the letter case of its keywords and what trails the line. `text` is the
line on the wire. The accessors `requestId`, `procedure` and `arguments` say what the line asks for,
with no limit on the length of a token or the number of arguments.
-/

namespace Mcrpc

abbrev Ident := Scan.Run isIdentChar
abbrev Hex := Scan.Run isHexChar
abbrev Digits := Scan.Run Char.isDigit
abbrev Token := Scan.Run isTokenChar
abbrev Blanks := Scan.Run isBlank

def Digits.value (d : Digits) : ℕ := Nat.ofDigitChars 10 d.chars 0

def groupKeyword (upper : Bool) : Text := if upper then "GROUP:".toList else "group:".toList

/-- A target as written: `all` and `self` keep their letter case. -/
inductive Target
  | named (name : Ident) (notAll : ieq name.chars "all".toList = false := by exact Eq.refl false)
      (notSelf : ieq name.chars "self".toList = false := by exact Eq.refl false)
  | all (word : Ident) (isAll : ieq word.chars "all".toList = true := by exact Eq.refl true)
  | self (word : Ident) (isSelf : ieq word.chars "self".toList = true := by exact Eq.refl true)
  | group (upper : Bool) (name : Ident)
  | id (hex : Hex)

namespace Target

def kind : Target → AddressKind
  | named .. => .named
  | all .. => .all
  | self .. => .self
  | group .. => .group
  | id .. => .id

def name : Target → Text
  | named n _ _ | all n _ | self n _ | group _ n => n.chars
  | id h => h.chars

def text : Target → Text
  | named n _ _ | all n _ | self n _ => n.chars
  | group upper n => groupKeyword upper ++ n.chars
  | id h => '@' :: h.chars

theorem isIdentChar_of_mem_name (t : Target) {c : Char} (hc : c ∈ t.name) :
    isIdentChar c = true := by
  cases t with
  | named n _ _ => exact n.all c hc
  | all n _ => exact n.all c hc
  | self n _ => exact n.all c hc
  | group _ n => exact n.all c hc
  | id h => exact isIdentChar_of_isHexChar (h.all c hc)

theorem exists_text_cons (t : Target) : ∃ c w, t.text = c :: w ∧ isTokenChar c = true := by
  have hident (n : Ident) : ∃ c w, n.chars = c :: w ∧ isTokenChar c = true := by
    obtain ⟨c, w, hw⟩ := List.exists_cons_of_ne_nil n.ne_nil
    exact ⟨c, w, hw, isTokenChar_of_isIdentChar (n.all c (by simp [hw]))⟩
  cases t with
  | named n _ _ => exact hident n
  | all n _ => exact hident n
  | self n _ => exact hident n
  | group upper n => cases upper <;> exact ⟨_, _, rfl, rfl⟩
  | id h => exact ⟨'@', h.chars, rfl, rfl⟩

end Target

theorem nil_blank : ∀ c ∈ ([] : Text), isBlank c = true := fun _ h => absurd h List.not_mem_nil

theorem nil_delimiters : ∀ c ∈ ([] : Text), isTokenChar c = false :=
  fun _ h => absurd h List.not_mem_nil

def oneBlank : Blanks := .word [' ']

/-- `'#' digits`, glued to the target or after blanks. -/
structure IdField where
  blanks : Text := []
  blank : ∀ c ∈ blanks, isBlank c = true := by exact nil_blank
  digits : Digits

def IdField.text (i : IdField) : Text := i.blanks ++ '#' :: i.digits.chars

def idText (id : Option IdField) : Text := (id.map IdField.text).getD []

def argsText (args : List (Blanks × Token)) : Text :=
  args.flatMap (fun a => a.1.chars ++ a.2.chars)

structure RequestLine where
  lead : Text := []
  lead_blank : ∀ c ∈ lead, isBlank c = true := by exact nil_blank
  target : Target
  id : Option IdField := none
  gap : Blanks := oneBlank
  command : Ident
  args : List (Blanks × Token) := []
  trail : Text := []
  trail_end : ∀ c ∈ trail, isTokenChar c = false := by exact nil_delimiters

namespace RequestLine

def text (L : RequestLine) : Text :=
  L.lead ++ (L.target.text ++ (idText L.id ++
    (L.gap.chars ++ (L.command.chars ++ (argsText L.args ++ L.trail)))))

def requestId (L : RequestLine) : Option ℕ := L.id.map (fun i => i.digits.value)

/-- Commands are case insensitive and `discover` is an alias of `discovery`. -/
def procedure (L : RequestLine) : Text :=
  if lower L.command.chars = "discover".toList then "discovery".toList else lower L.command.chars

def arguments (L : RequestLine) : List Text := L.args.map (fun a => a.2.chars)

structure ReadAs (L : RequestLine) (req : Request) : Prop where
  kind : req.addressKind = L.target.kind
  target : req.target = L.target.name
  hasRequestId : req.hasRequestId = L.id.isSome
  requestId : ∀ n ∈ L.requestId, req.requestId.toNat = n
  command : req.command = L.procedure
  args : req.args = L.arguments

end RequestLine
end Mcrpc
