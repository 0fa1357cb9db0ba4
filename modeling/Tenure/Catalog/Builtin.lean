import Tenure.Catalog.Basic

/- The entries that every build knows. -/
namespace Tenure

namespace Catalog

def identifierNotFound : Draft :=
  { id := "BCK4001"
    category := "identifier-not-found"
    title := "Identifier not found"
    backendCodes := ["E0425"]
    patterns := [
      "cannot find value `(?P<name>[^`]+)` in this scope",
      "cannot find value `(?P<name>[^`]+)`"]
    message := "`\x7bname\x7d` is not declared in this scope"
    suggestions := [
      "check the spelling of `\x7bname\x7d`",
      "declare `\x7bname\x7d` with `let` before using it"]
    defaults := [("name", "this name")]
    explanation := 
      "A name is used that no declaration in scope introduces. Declarations are\n" ++
      "visible from the point they appear until the end of the enclosing block.\n"
    examples := [⟨"let count = 10\nprint(cont)\n", "let count = 10\nprint(count)\n"⟩] }

def functionNotFound : Draft :=
  { id := "BCK4002"
    category := "function-not-found"
    title := "Function not found"
    backendCodes := ["E0425", "E0423"]
    patterns := [
      "cannot find function `(?P<name>[^`]+)`",
      "expected function, found .*`(?P<name>[^`]+)`"]
    message := "function `\x7bname\x7d` is not declared"
    suggestions := ["check the spelling of `\x7bname\x7d` and that it is declared in this module"]
    defaults := [("name", "this function")]
    explanation := 
      "A call names a function that is neither declared in the module nor\n" ++
      "provided as an extern declaration.\n"
    examples := [
      ⟨"fn main() \x7b greet() \x7d\n", "fn greet() \x7b print(\"hi\") \x7d\nfn main() \x7b greet() \x7d\n"⟩] }

def typeMismatch : Draft :=
  { id := "BCK4003"
    category := "type-mismatch"
    title := "Type mismatch"
    backendCodes := ["E0308"]
    patterns := ["mismatched types"]
    labelPatterns := [
      "expected `(?P<expected>[^`]+)`, found `(?P<found>[^`]+)`",
      "expected (?P<expected>[^,]+), found (?P<found>.+)"]
    message := "expected a value of type \x7bexpected\x7d, found \x7bfound\x7d"
    suggestions := ["convert the value to \x7bexpected\x7d, or change the declared type"]
    defaults := [("expected", "another type"), ("found", "a different type")]
    explanation := 
      "A value of one type is used where another type is required: as an\n" ++
      "argument, as the value of a declaration with a type, or as a result.\n"
    examples := [⟨"let x: int = \"42\"\n", "let x: int = 42\n"⟩] }

def cannotModify : Draft :=
  { id := "BCK4004"
    category := "cannot-modify"
    title := "Cannot modify value"
    backendCodes := ["E0384", "E0596", "E0594"]
    patterns := [
      "immutable variable `(?P<name>[^`]+)`",
      "cannot borrow `\\*?(?P<name>[^`]+)` as mutable",
      "cannot assign to `\\*?(?P<name>[^`]+)`",
      "cannot assign to (?P<name>[^,]+),"]
    message := "cannot modify `\x7bname\x7d`: it is not declared mutable"
    suggestions := ["declare it as `let mut \x7bname\x7d`"]
    defaults := [("name", "this value")]
    explanation := 
      "A binding is modified, or passed somewhere that modifies it, without\n" ++
      "being declared `mut`. Parameters that a function modifies must be\n" ++
      "declared `mut` in the parameter list.\n"
    examples := [⟨"let total = 0\ntotal += 1\n", "let mut total = 0\ntotal += 1\n"⟩] }

def typeNotFound : Draft :=
  { id := "BCK4005"
    category := "type-not-found"
    title := "Type not found"
    backendCodes := ["E0412", "E0422"]
    patterns := [
      "cannot find type `(?P<name>[^`]+)`",
      "cannot find struct, variant or union type `(?P<name>[^`]+)`"]
    message := "type `\x7bname\x7d` is not declared"
    suggestions := ["check the spelling of `\x7bname\x7d` or declare it with `struct \x7bname\x7d`"]
    defaults := [("name", "this type")]
    explanation := "A type name is used that no struct declaration introduces.\n"
    examples := [
      ⟨"let p: Pont = Point \x7b x: 1, y: 2 \x7d\n", "let p: Point = Point \x7b x: 1, y: 2 \x7d\n"⟩] }

def moduleNotFound : Draft :=
  { id := "BCK4006"
    category := "module-not-found"
    title := "Module not found"
    backendCodes := ["E0432", "E0433"]
    patterns := [
      "unresolved import `(?P<name>[^`]+)`",
      "use of undeclared [a-z ]+ `(?P<name>[^`]+)`"]
    message := "module `\x7bname\x7d` could not be found"
    suggestions := ["check the module name and that it is part of the project sources"]
    defaults := [("name", "this module")]
    explanation := "A path refers to a module that is not part of the compilation.\n"
    examples := [⟨"use colections\n", "use collections\n"⟩] }

def useAfterMove : Draft :=
  { id := "BCK4007"
    category := "use-after-move"
    title := "Value used after it was given away"
    backendCodes := ["E0382"]
    patterns := ["(?:use|borrow) of moved value: `(?P<name>[^`]+)`", "use of moved value"]
    message := "`\x7bname\x7d` is used after it was given away"
    suggestions := [
      "pass a copy with `\x7bname\x7d.clone()` where it is given away",
      "declare the receiving parameter `ref` if it only reads the value"]
    defaults := [("name", "this value")]
    explanation := 
      "Giving a value to a function parameter that keeps it, storing it in a\n" ++
      "collection or returning it transfers the value. Later uses then refer to\n" ++
      "a value this function no longer has. The compiler inserts copies where\n" ++
      "it can prove one is needed; this report means it could not.\n"
    examples := [⟨"list.push(item)\nprint(item)\n", "list.push(item.clone())\nprint(item)\n"⟩] }

def accessConflict : Draft :=
  { id := "BCK4008"
    category := "access-conflict"
    title := "Conflicting access to a value"
    backendCodes := ["E0499", "E0502", "E0503", "E0505", "E0506", "E0507"]
    patterns := [
      "cannot borrow `\\*?(?P<name>[^`]+)` as (?:im)?mutable",
      "cannot move out of `\\*?(?P<name>[^`]+)`",
      "cannot (?:use|assign to|move out of) `\\*?(?P<name>[^`]+)`",
      "cannot move out of"]
    message := "`\x7bname\x7d` is accessed here while another use of it is still active"
    suggestions := [
      "finish using `\x7bname\x7d` before modifying it, or work on a copy",
      "annotate the parameter `owned` if this function should keep `\x7bname\x7d`"]
    defaults := [("name", "this value")]
    explanation := 
      "A value is modified or given away while a reference to it is still in\n" ++
      "use, or a value only reachable through a reference is given away.\n"
    examples := [
      ⟨"let first = list.first()\nlist.push(4)\nprint(first)\n", "list.push(4)\nlet first = list.first()\nprint(first)\n"⟩] }

def missingField : Draft :=
  { id := "BCK4009"
    category := "missing-field"
    title := "Missing field in struct literal"
    backendCodes := ["E0063"]
    patterns := ["missing fields? `(?P<field>[^`]+)`.* in initializer of `(?P<type>[^`]+)`"]
    message := "struct literal of `\x7btype\x7d` does not set field `\x7bfield\x7d`"
    suggestions := ["add `\x7bfield\x7d: ...` to the literal"]
    defaults := [("field", "a field"), ("type", "this struct")]
    explanation := "Every field of a struct must be given a value in a struct literal.\n"
    examples := [⟨"let p = Point \x7b x: 1 \x7d\n", "let p = Point \x7b x: 1, y: 2 \x7d\n"⟩] }

def nonExhaustive : Draft :=
  { id := "BCK4010"
    category := "non-exhaustive"
    title := "Match does not cover every case"
    backendCodes := ["E0004"]
    patterns := ["non-exhaustive patterns"]
    message := "not every possible value is handled"
    suggestions := ["add the missing cases or a catch-all case"]
    explanation := "A match must handle every value its subject can take.\n"
    examples := [
      ⟨"match n \x7b 0 => print(\"zero\") \x7d\n", "match n \x7b 0 => print(\"zero\"), _ => print(\"other\") \x7d\n"⟩] }

def missingCapability : Draft :=
  { id := "BCK4011"
    category := "missing-capability"
    title := "Type lacks a required capability"
    backendCodes := ["E0277", "E0369", "E0599"]
    patterns := [
      "binary operation `(?P<op>[^`]+)` cannot be applied to type `(?P<type>[^`]+)`",
      "the trait bound `(?P<type>[^`:]+): [^`]+` is not satisfied",
      "`(?P<type>[^`]+)` doesn't implement",
      "cannot be (?:compared|added|formatted)"]
    message := "values of type \x7btype\x7d do not support this operation"
    suggestions := ["check that \x7btype\x7d is the type you meant to use here"]
    defaults := [("type", "this type"), ("op", "this operator")]
    explanation := 
      "An operator, comparison or print is applied to a type that does not\n" ++
      "provide it.\n"
    examples := [⟨"print(a + b)   // a and b are structs\n", "print(a.total + b.total)\n"⟩] }

def shortLivedValue : Draft :=
  { id := "BCK4012"
    category := "short-lived-value"
    title := "Value does not live long enough"
    backendCodes := ["E0597", "E0716", "E0106", "E0515", "E0373"]
    patterns := [
      "`(?P<name>[^`]+)` does not live long enough",
      "returns a value referencing data owned by the current function",
      "may outlive"]
    message := "`\x7bname\x7d` stops existing while it is still in use"
    suggestions := ["return or store an independent copy instead of a reference to `\x7bname\x7d`"]
    defaults := [("name", "this value")]
    explanation := 
      "A reference to a value is kept after the value itself is gone, for\n" ++
      "example when returning a reference to a local, or when a closure that\n" ++
      "outlives the function uses a local.\n"
    examples := [
      ⟨"fn first(list: [string]) -> string \x7b let s = list[0]; return s \x7d\n", "fn first(list: [string]) -> string \x7b return list[0].clone() \x7d\n"⟩] }

def argumentCount : Draft :=
  { id := "BCK4013"
    category := "argument-count"
    title := "Wrong number of arguments"
    backendCodes := ["E0061", "E0060"]
    patterns := [
      "takes (?P<expected>\\d+) arguments? but (?P<found>\\d+) arguments? (?:was|were) supplied"]
    message := "expected \x7bexpected\x7d arguments, found \x7bfound\x7d"
    suggestions := ["check the declaration of the function being called"]
    defaults := [("expected", "a different number of"), ("found", "another number")]
    explanation := "A call passes a different number of arguments than the function declares.\n"
    examples := [⟨"fn add(a: int, b: int) -> int \x7b return a + b \x7d\nadd(1)\n", "add(1, 2)\n"⟩] }

def unknownField : Draft :=
  { id := "BCK4014"
    category := "unknown-field"
    title := "Unknown field"
    backendCodes := ["E0609", "E0560", "E0026"]
    patterns := [
      "no field `(?P<field>[^`]+)` on type `&?(?:mut )?(?P<type>[^`]+)`",
      "struct `(?P<type>[^`]+)` has no field named `(?P<field>[^`]+)`"]
    message := "`\x7btype\x7d` has no field `\x7bfield\x7d`"
    suggestions := ["check the field names declared by `\x7btype\x7d`"]
    defaults := [("field", "this field"), ("type", "this value")]
    explanation := "A field is read or initialised that the struct does not declare.\n"
    examples := [⟨"print(p.z)\n", "print(p.x)\n"⟩] }

def unknownMethod : Draft :=
  { id := "BCK4015"
    category := "unknown-method"
    title := "Unknown method"
    backendCodes := ["E0599"]
    patterns := [
      "no method named `(?P<name>[^`]+)` found for [a-z ]*`&?(?:mut )?(?P<type>[^`]+)`",
      "no method named `(?P<name>[^`]+)`"]
    message := "`\x7btype\x7d` has no method `\x7bname\x7d`"
    suggestions := [
      "check the spelling of `\x7bname\x7d` and the methods declared for `\x7btype\x7d`"]
    defaults := [("name", "this method"), ("type", "this value")]
    explanation := 
      "A method is called that neither the type nor the built-in collection and\n" ++
      "string methods provide.\n"
    examples := [⟨"list.append(1)\n", "list.push(1)\n"⟩] }

def builtinDrafts : List Draft := [
  identifierNotFound, functionNotFound, typeMismatch, cannotModify, typeNotFound,
  moduleNotFound, useAfterMove, accessConflict, missingField, nonExhaustive,
  missingCapability, shortLivedValue, argumentCount, unknownField, unknownMethod]

def builtin : Catalog := (empty.addAll builtinDrafts).toOption.getD empty

end Catalog

end Tenure
