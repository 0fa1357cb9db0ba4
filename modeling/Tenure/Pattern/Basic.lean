import Tenure.Text.Category

/- Text patterns. -/
namespace Tenure.Pattern

structure ClassItem where
  ranges : List (Nat × Nat)
  negated : Bool := false
  deriving DecidableEq, Repr, Inhabited

/-- Characters of any of the items, or of none. A folded set does not tell letters apart by case. -/
structure CharSet where
  items : List ClassItem
  negated : Bool := false
  folded : Bool := false
  deriving DecidableEq, Repr, Inhabited

/-- Letters that are the same letter without being its upper or lower form. -/
def strayForms : List Nat := [
  0xB5, 0x17F, 0x345, 0x1C5, 0x1C8, 0x1CB, 0x1F2, 0x3C2, 0x3D0, 0x3D1, 0x3D5, 0x3D6, 0x3F0, 0x3F1,
  0x3F4, 0x3F5, 0x1C80, 0x1C81, 0x1C82, 0x1C83, 0x1C84, 0x1C85, 0x1C86, 0x1C87, 0x1C88, 0x1E9B,
  0x1E9E, 0x1FBE, 0x2126, 0x212A, 0x212B]

/-- One form for all forms of a letter. -/
def foldForm (c : Char) : Char :=
  if c.toNat = 0x130 ∨ c.toNat = 0x131 then c else Text.lowerChar (Text.upperChar c)

def forms (c : Char) : List Char :=
  let candidates := [Text.lowerChar c, Text.upperChar c, foldForm c, Text.upperChar (foldForm c)] ++
    strayForms.map Char.ofNat
  c :: candidates.filter fun d => d != c && foldForm d == foldForm c

def inAny (ranges : List (Nat × Nat)) (c : Char) : Bool :=
  ranges.any fun r => r.1 ≤ c.toNat && c.toNat ≤ r.2

def ClassItem.has (i : ClassItem) (folded : Bool) (c : Char) : Bool :=
  (if folded then (forms c).any (inAny i.ranges) else inAny i.ranges c) != i.negated

def CharSet.has (s : CharSet) (c : Char) : Bool := (s.items.any fun i => i.has s.folded c) != s.negated

inductive Assertion where
  | beginText
  | endText
  | beginLine
  | endLine
  | wordEdge
  | noWordEdge
  deriving DecidableEq, Repr

def isWordChar (c : Char) : Bool := c.isAlphanum || c == '_'

def Assertion.holds (a : Assertion) (prev next : Option Char) : Bool :=
  let word (c : Option Char) : Bool := (c.map isWordChar).getD false
  match a with
  | .beginText => prev.isNone
  | .endText => next.isNone
  | .beginLine => prev.isNone || prev == some '\n'
  | .endLine => next.isNone || next == some '\n'
  | .wordEdge => word prev != word next
  | .noWordEdge => word prev == word next

inductive Node where
  | empty
  | char (s : CharSet)
  | assertion (a : Assertion)
  | group (index : Nat) (n : Node)
  | cat (a b : Node)
  | alt (a b : Node)
  /-- No upper bound when `most` is missing. Greedy repetitions prefer more rounds. -/
  | repetition (least : Nat) (most : Option Nat) (greedy : Bool) (n : Node)
  deriving Repr, Inhabited

namespace Node

def nullable : Node → Bool
  | .empty | .assertion _ => true
  | .char _ => false
  | .group _ n => n.nullable
  | .cat a b => a.nullable && b.nullable
  | .alt a b => a.nullable || b.nullable
  | .repetition least _ _ n => least == 0 || n.nullable

/-- Nested counted repetitions amount to at most `limit` copies. -/
def copiesWithin (limit : Nat) : Node → Bool
  | .empty | .assertion _ | .char _ => true
  | .group _ n => n.copiesWithin limit
  | .cat a b | .alt a b => a.copiesWithin limit && b.copiesWithin limit
  | .repetition least most _ n =>
    if least == 0 && most.isNone || least == 1 && most.isNone || least == 0 && most == some 1 then
      n.copiesWithin limit
    else match most with
      | some 0 => true
      | _ =>
        let count := most.getD least
        count ≤ limit && n.copiesWithin (if count = 0 then limit else limit / count)

end Node

end Tenure.Pattern

namespace Tenure

structure Pattern where
  node : Pattern.Node
  groups : List String
  deriving Repr, Inhabited

end Tenure
