import Tenure.Json.Basic
import Tenure.Text.Bytes

/- Writing documents, on one line or indented. -/
namespace Tenure.Json

/-- How texts are escaped: with `guarded`, the characters that mean something inside a web page are
escaped as well. The two line separators beyond ASCII always are. -/
def escapedChar (guarded : Bool) (c : Char) : List Char :=
  let hex4 (n : Nat) : List Char :=
    ['\\', 'u', Bytes.hexDigit (n / 4096 % 16), Bytes.hexDigit (n / 256 % 16),
      Bytes.hexDigit (n / 16 % 16), Bytes.hexDigit (n % 16)]
  match c with
  | '"' => ['\\', '"']
  | '\\' => ['\\', '\\']
  | '\n' => ['\\', 'n']
  | '\r' => ['\\', 'r']
  | '\t' => ['\\', 't']
  | c =>
    if c.toNat = 8 then ['\\', 'b']
    else if c.toNat = 12 then ['\\', 'f']
    else if c.toNat < 0x20 then hex4 c.toNat
    else if c.toNat = 0x2028 ∨ c.toNat = 0x2029 then hex4 c.toNat
    else if guarded ∧ (c = '<' ∨ c = '>' ∨ c = '&') then hex4 c.toNat
    else [c]

def escaped (guarded : Bool) (s : String) : String :=
  String.ofList ('"' :: s.toList.flatMap (escapedChar guarded) ++ ['"'])

def escapedBytes (guarded : Bool) (bs : Bytes) : String :=
  let char (c : Option Char × Nat) : List Char :=
    match c.1 with
    | some c => escapedChar guarded c
    | none => ['\\', 'u', 'f', 'f', 'f', 'd']
  String.ofList ('"' :: (Bytes.chars bs).flatMap char ++ ['"'])

mutual
def compactWith (guarded : Bool) : Json → String
  | .null => "null"
  | .bool b => if b then "true" else "false"
  | .num n => n
  | .str s => escaped guarded s
  | .blob bs => escapedBytes guarded bs
  | .arr xs => "[" ++ ",".intercalate (compactAll guarded xs) ++ "]"
  | .obj ms => "\x7b" ++ ",".intercalate (compactMembers guarded ms) ++ "\x7d"
def compactAll (guarded : Bool) : List Json → List String
  | [] => []
  | x :: xs => compactWith guarded x :: compactAll guarded xs
def compactMembers (guarded : Bool) : List (String × Json) → List String
  | [] => []
  | (k, v) :: ms => (escaped guarded k ++ ":" ++ compactWith guarded v) :: compactMembers guarded ms
end

def compact (j : Json) : String := compactWith true j

def newLine (depth : Nat) : String := "\n" ++ String.ofList (List.replicate (2 * depth) ' ')

mutual
def indentedAt (depth : Nat) : Json → String
  | .null => "null"
  | .bool b => if b then "true" else "false"
  | .num n => n
  | .str s => escaped true s
  | .blob bs => escapedBytes true bs
  | .arr [] => "[]"
  | .arr (x :: xs) =>
    "[" ++ newLine (depth + 1) ++
      ("," ++ newLine (depth + 1)).intercalate (indentedAll (depth + 1) (x :: xs)) ++
      newLine depth ++ "]"
  | .obj [] => "\x7b\x7d"
  | .obj (m :: ms) =>
    "\x7b" ++ newLine (depth + 1) ++
      ("," ++ newLine (depth + 1)).intercalate (indentedMembers (depth + 1) (m :: ms)) ++
      newLine depth ++ "\x7d"
def indentedAll (depth : Nat) : List Json → List String
  | [] => []
  | x :: xs => indentedAt depth x :: indentedAll depth xs
def indentedMembers (depth : Nat) : List (String × Json) → List String
  | [] => []
  | (k, v) :: ms => (escaped true k ++ ": " ++ indentedAt depth v) :: indentedMembers depth ms
end

def indented (j : Json) : String := indentedAt 0 j

end Tenure.Json
