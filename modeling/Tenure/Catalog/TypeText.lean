import Tenure.Text.Blank

/- Type names of the backend in the words of the source language: numbers lose their size, references
   and boxes disappear, lists and optional values get their brackets and marks. -/
namespace Tenure.TypeText

def scalars : List (String × String) := [
  ("i8", "int"), ("i16", "int"), ("i32", "int"), ("i64", "int"), ("i128", "int"), ("isize", "int"),
  ("u8", "uint"), ("u16", "uint"), ("u32", "uint"), ("u64", "uint"), ("u128", "uint"),
  ("usize", "uint"),
  ("f32", "float"), ("f64", "float"),
  ("\x7binteger\x7d", "int"), ("\x7bfloat\x7d", "float"),
  ("bool", "bool"), ("char", "char"),
  ("String", "string"), ("str", "string"),
  ("()", "void")]

def scalar? (t : List Char) : Option (List Char) :=
  (scalars.find? fun s => s.1.toList == t).map (·.2.toList)

def cutLead (lead : String) (t : List Char) : Option (List Char) :=
  if lead.toList.isPrefixOf t then some (t.drop lead.length) else none

def dropLifetime (t : List Char) : List Char :=
  match t with
  | '\'' :: _ =>
    let rest := t.dropWhile (· != ' ')
    if rest.isEmpty then t else Text.trimChars rest
  | _ => t

def stripRefs : Nat → List Char → List Char
  | 0, t => t
  | fuel + 1, t =>
    match t with
    | '&' :: t =>
      let t := dropLifetime (Text.trimChars t)
      stripRefs fuel (Text.trimChars ((cutLead "mut " t).getD t))
    | t => t

def isOpening (c : Char) : Bool := c == '<' || c == '(' || c == '['

def isClosing (c : Char) : Bool := c == '>' || c == ')' || c == ']'

/-- The parts between commas outside brackets. The depth may go below zero; the head of an arrow
closes nothing. -/
def partsFrom (depth : Int) (prev : Char) : List Char → List (List Char)
  | [] => [[]]
  | c :: s =>
    if c = ',' ∧ depth = 0 then [] :: partsFrom depth c s
    else
      let depth :=
        if isOpening c then depth + 1
        else if isClosing c && !(c == '>' && prev == '-') then depth - 1
        else depth
      match partsFrom depth c s with
      | [] => [[c]]
      | part :: parts => (c :: part) :: parts

def dropBlankLast : List (List Char) → List (List Char)
  | [] => []
  | [p] => if p.isEmpty then [] else [p]
  | p :: ps => p :: dropBlankLast ps

def parts (s : List Char) : List (List Char) :=
  if (Text.trimChars s).isEmpty then []
  else dropBlankLast ((partsFrom 0 ' ' s).map Text.trimChars)

def balanced (depth : Nat) : List Char → Option (List Char × List Char)
  | [] => none
  | c :: s =>
    if c = ')' ∧ depth = 1 then some ([], s)
    else
      let depth := if c = '(' then depth + 1 else if c = ')' then depth - 1 else depth
      (balanced depth s).map fun (inner, rest) => (c :: inner, rest)

def functionNames : List String := ["FnMut", "FnOnce", "Fn", "fn"]

def functionParts? (t : List Char) : Option (List Char × List Char) :=
  (functionNames.findSome? fun n => cutLead (n ++ "(") t).bind (balanced 1)

def upToColons : List Char → List Char
  | ':' :: ':' :: _ => []
  | c :: s => c :: upToColons s
  | [] => []

def lastSegment (t : List Char) : List Char :=
  let last := (upToColons t.reverse).reverse
  (scalar? last).getD last

def enclosed? (front back : Char) (t : List Char) : Option (List Char) :=
  match t with
  | c :: s => if c = front ∧ s.getLast? = some back then some s.dropLast else none
  | [] => none

def beforeSize (t : List Char) : List Char :=
  match t.reverse.dropWhile (· != ';') with
  | [] => t
  | _ :: front => front.reverse

def application (name : List Char) (args : List (List Char)) : List Char :=
  let plain := name ++ '<' :: [',', ' '].intercalate args ++ ['>']
  match args with
  | [a] =>
    let n := String.ofList name
    if n = "Vec" ∨ n = "VecDeque" then '[' :: a ++ [']']
    else if n = "Option" then a ++ ['?']
    else if ["Box", "Rc", "Arc", "RefCell", "Cell"].contains n then a
    else plain
  | _ => plain

def arrow : List Char := " -> ".toList

def domainFrom : Nat → List Char → List Char
  | 0, t => t
  | fuel + 1, t =>
    let t := Text.trimChars t
    let t := stripRefs (t.length + 1) t
    match scalar? t with
    | some s => s
    | none =>
      match (cutLead "impl " t).or (cutLead "dyn " t) with
      | some rest => domainFrom fuel rest
      | none =>
        match enclosed? '(' ')' t with
        | some inner =>
          '(' :: [',', ' '].intercalate ((parts inner).map (domainFrom fuel)) ++ [')']
        | none =>
          match enclosed? '[' ']' t with
          | some inner => '[' :: domainFrom fuel (beforeSize inner) ++ [']']
          | none =>
            match functionParts? t with
            | some (params, rest) =>
              let params := [',', ' '].intercalate ((parts params).map (domainFrom fuel))
              let result := match cutLead "->" (Text.trimChars rest) with
                | some r => domainFrom fuel r
                | none => "void".toList
              "fn(".toList ++ params ++ [')'] ++
                (if result = "void".toList then [] else arrow ++ result)
            | none =>
              let name := t.takeWhile (· != '<')
              match t.drop name.length with
              | [] => lastSegment t
              | _ :: rest =>
                if rest.getLast? = some '>' then
                  application (lastSegment name) ((parts rest.dropLast).map (domainFrom fuel))
                else lastSegment t

end Tenure.TypeText

namespace Tenure

def domainType (s : String) : String :=
  String.ofList (TypeText.domainFrom (s.length + 1) s.toList)

end Tenure
