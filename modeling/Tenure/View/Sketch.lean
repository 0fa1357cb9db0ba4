import Tenure.Program.Sketch
import Tenure.Ty.Syntax
import Tenure.View.Access

/- Sketches made step by step, the steps given as data. -/
namespace Tenure.View

inductive SketchTrouble where
  | ty (message : String)
  /-- It names a binding that there is not, or needs an open function. -/
  | outOfPlace

def pairOf (j : Json) : Json × Json :=
  let xs := asList j
  (xs.getD 0 .null, xs.getD 1 .null)

def sketchTy (s : Sketch) (j : Json) : Except SketchTrouble Ty :=
  match asStr j with
  | "" => .ok .unknown
  | text => match Ty.parse text with
    | .ok t => .ok (s.ty t)
    | .error e => .error (.ty (e.message text))

def sketchFields (s : Sketch) : List Json → Except SketchTrouble (List Field)
  | [] => .ok []
  | j :: js => do
    let ty ← sketchTy s (pairOf j).2
    let rest ← sketchFields s js
    return { name := asStr (pairOf j).1, ty, span := Range.zero } :: rest

def showId (r : Sketch × Nat) : Sketch × Json := (r.1, .nat r.2)

def sketchStep (s : Sketch) (j : Json) : Except SketchTrouble (Sketch × Json) := do
  let ty ← sketchTy s (field j "type")
  let name := str j "name"
  let op := str j "bop"
  let args := nats j "args"
  let body := nats j "body"
  let x := nat j "x"
  let y := nat j "y"
  let size := name.utf8ByteSize
  let marker := Marker.ofName (str j "annot")
  let act := str j "do"
  if ["extern", "param", "closure_param", "let", "loop_var", "body"].contains act && !s.isOpen then
    throw .outOfPlace
  match act with
  | "struct" =>
    let fields ← sketchFields s (list j "fields")
    return (s.addStruct name fields (bool j "copy") (bool j "noclone"), .null)
  | "func" => return (s.beginFunc name ty, .null)
  | "method" => return showId (s.beginMethod (str j "owner") name ty (bool j "mut"))
  | "extern" => return (s.updateFunc ({ · with isExtern := true }), .null)
  | "param" => return showId (s.param name ty (bool j "mut") marker)
  | "ident" => match s.ident? (nat j "bind") with
    | some r => return showId r
    | none => throw .outOfPlace
  | "unresolved" => return showId (s.expr { Sketch.blank .ident .unknown with name } size)
  | "int" => return showId (s.literal .int .int (str j "text") (str j "text").utf8ByteSize)
  | "str" => return showId (s.literal .string .string (str j "text") ((str j "text").utf8ByteSize + 2))
  | "bool" =>
    let text := if bool j "bool" then "true" else "false"
    return showId (s.literal .bool .bool text text.length)
  | "call" =>
    return showId (s.expr
      { Sketch.blank .call ty with name, target := name, binding := nat j "bind" } size { args })
  | "method_call" =>
    return showId (s.expr
      { Sketch.blank .methodCall ty with name, target := str j "target" } size { x, args })
  | "field" => return showId (s.expr { Sketch.blank .field ty with name } size { x })
  | "index" => return showId (s.expr (Sketch.blank .index ty) 1 { x, y })
  | "binary" => return showId (s.expr { Sketch.blank .binary ty with op } op.utf8ByteSize { x, y })
  | "unary" => return showId (s.expr { Sketch.blank .unary ty with op } op.utf8ByteSize { x })
  | "struct_lit" =>
    return showId (s.structLit name ((list j "inits").map fun i => (str i "name", nat i "value")))
  | "array_lit" =>
    let elem ← sketchTy s (field j "elem")
    return showId (s.expr (Sketch.blank .arrayLit (.array elem)) 2 { args })
  | "range" => return showId (s.expr (Sketch.blank .range (.array .int)) 2 { x, y })
  | "closure_param" => return showId (s.binding name .closureParam ty false .none)
  | "closure" =>
    return showId (s.expr { Sketch.blank .closure ty with params := args } 2 { result := x })
  | "closure_block" => return showId (s.closureBlock args ty body)
  | "let" =>
    let (s, b, id) := s.letVar name ty (bool j "mut") marker x
    return (s, .arr ([.nat b, .nat id] ++
      if (str j "annot").isEmpty then [] else [.str marker.text]))
  | "assign" => return showId (s.stmt .assign y [] x (if op.isEmpty then "=" else op))
  | "expr" => return showId (s.stmt .eval x)
  | "return" => return showId (s.stmt .give x)
  | "break" => return showId (s.stmt .leave)
  | "continue" => return showId (s.stmt .again)
  | "if" => return showId (s.stmt .branch x body 0 "" 0 (nat j "else"))
  | "block" => return showId (s.stmt .block 0 body)
  | "while" => return showId (s.stmt .whileLoop x body)
  | "loop_var" => return showId (s.binding name .loop ty false .none)
  | "for" => return showId (s.stmt .forLoop x body 0 "" (nat j "bind"))
  | "body" => return showId (s.finish body)
  | _ => return (s, .null)

def sketchSteps (s : Sketch) (out : List Json) : List Json → Except SketchTrouble (Sketch × List Json)
  | [] => .ok (s, out)
  | j :: js => do
    let (s, r) ← sketchStep s j
    sketchSteps s (out ++ [r]) js

end Tenure.View
