import Tenure.Text.Blank

/- Texts with slots: names in braces that are filled in later. -/
namespace Tenure

inductive Template.Piece where
  | char (c : Char)
  | slot (name : String)
  deriving DecidableEq, Repr

namespace Template

def isNameChar (c : Char) : Bool := ('a' ≤ c && c ≤ 'z') || c == '_'

def slot? (s : List Char) : Option (List Char) :=
  let name := s.takeWhile isNameChar
  if !name.isEmpty && (s.drop name.length).head? == some '}' then some name else none

def piecesFrom : Nat → List Char → List Piece
  | 0, _ => []
  | _, [] => []
  | fuel + 1, c :: s =>
    match if c = '{' then slot? s else none with
    | some name => .slot (String.ofList name) :: piecesFrom fuel (s.drop (name.length + 1))
    | none => .char c :: piecesFrom fuel s

def pieces (s : String) : List Piece := piecesFrom s.length s.toList

def slots (s : String) : List String :=
  (pieces s).filterMap fun p => match p with
    | .slot name => some name
    | .char _ => none

def written (name : String) : List Char := '{' :: name.toList ++ ['}']

def Piece.shown (value? : String → Option String) : Piece → List Char
  | .char c => [c]
  | .slot name => match value? name with
    | some v => v.toList
    | none => written name

def fill (value? : String → Option String) (s : String) : String :=
  String.ofList ((pieces s).flatMap (Piece.shown value?))

end Template

end Tenure
