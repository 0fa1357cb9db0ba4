import Tenure.Ty.Basic
import Tenure.Text.Blank
import Tenure.Text.Quoted

/- The written form of types. With blanks allowed before every token:
     T ::= P '?'*
     P ::= '[' T ']' | 'fn(' (T (',' T)*)? ')' ('->' T)? | name
   A '?' after the result of a function type belongs to the result. -/
namespace Tenure.Ty

inductive SyntaxError where
  | missingBracket
  | expectedComma
  | expectedName
  | unexpected (rest : String)
  /-- The fuel was not enough. -/
  | unended
  deriving DecidableEq, Repr

def isNameChar (c : Char) : Bool :=
  c == '_' || ('a' ≤ c && c ≤ 'z') || ('A' ≤ c && c ≤ 'Z') || ('0' ≤ c && c ≤ '9')

def ofName (name : String) : Ty :=
  match name with
  | "int" => .int
  | "float" => .float
  | "bool" => .bool
  | "string" => .string
  | "void" | "unit" => .unit
  | _ => .named name false false

def skipBlanks (s : List Char) : List Char := s.dropWhile (· == ' ')

def accept (token s : List Char) : Option (List Char) :=
  let s := skipBlanks s
  if token.isPrefixOf s then some (s.drop token.length) else none

/-- The `?` marks after a type, with blanks between them; they wrap it one by one. -/
def marks (base : Ty) : List Char → Ty × List Char
  | ' ' :: s => marks base s
  | '?' :: s => marks (.optional base) s
  | s => (base, s)

mutual
/-- Reads one type from the front. Fuel beyond the length of the text changes nothing. -/
def read : Nat → List Char → Except SyntaxError (Ty × List Char)
  | 0, _ => .error .unended
  | fuel + 1, s =>
    match accept ['['] s with
    | some s => do
      let (elem, s) ← read fuel s
      match accept [']'] s with
      | some s => return marks (.array elem) s
      | none => throw .missingBracket
    | none => match accept ['f', 'n', '('] s with
      | some s => do
        let (params, s) ← readParams fuel true s
        match accept ['-', '>'] s with
        | some s => do
          let (result, s) ← read fuel s
          return marks (.func params result) s
        | none => return marks (.func params .unit) s
      | none =>
        let s := skipBlanks s
        let name := s.takeWhile isNameChar
        if name.isEmpty then throw .expectedName
        else return marks (ofName (String.ofList name)) (s.dropWhile isNameChar)
def readParams : Nat → Bool → List Char → Except SyntaxError (List Ty × List Char)
  | 0, _, _ => .error .unended
  | fuel + 1, first, s =>
    match accept [')'] s with
    | some s => return ([], s)
    | none => do
      let s ← if first then pure s else match accept [','] s with
        | some s => pure s
        | none => throw .expectedComma
      let (param, s) ← read fuel s
      let (params, s) ← readParams fuel false s
      return (param :: params, s)
end

/-- Reads a whole text as a type. Blank characters around it are dropped. -/
def parse (s : String) : Except SyntaxError Ty := do
  let source := Text.trimChars s.toList
  let (t, rest) ← read (source.length + 1) source
  let rest := Text.trimChars rest
  if rest.isEmpty then return t else throw (.unexpected (String.ofList rest))

def SyntaxError.message (s : String) : SyntaxError → String
  | .missingBracket => s!"type {Text.quoted (Text.trim s)}: missing ]"
  | .expectedComma => s!"type {Text.quoted (Text.trim s)}: expected , in parameter list"
  | .expectedName => s!"type {Text.quoted (Text.trim s)}: expected type name"
  | .unended => s!"type {Text.quoted (Text.trim s)}: unended"
  | .unexpected rest => s!"type {Text.quoted s}: unexpected {Text.quoted rest}"

end Tenure.Ty
