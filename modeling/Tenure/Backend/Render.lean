import Tenure.Backend.Doc
import Tenure.Backend.Spelling
import Tenure.Ownership.Analysis
import Tenure.Text.Blank

/- Functions and structs as backend text. Borrows, dereferences and duplicates that the analysis asks
   for are written as synthetic text. -/
namespace Tenure

inductive Place where
  /-- Written as it is: receivers, bases of projections, formatted arguments. -/
  | plain
  /-- Operators and conditions: a reference is followed. -/
  | operand
  /-- The value is given away: a copied value behind a reference is read out. -/
  | value
  | shared
  | exclusive
  deriving DecidableEq, Repr

def Place.ofMode : Mode → Place
  | .shared => .shared
  | .exclusive => .exclusive
  | _ => .value

inductive RefKind where
  | none
  | shared
  | exclusive
  deriving DecidableEq, Repr

/-- What the text of a function depends on. Modes of receiver and parameters come from the signature
table, so that a declaration agrees with every call. -/
structure Rendering where
  module : Module
  table : Signatures
  verdict : Verdict
  escaping : List (Nat × Bool)
  header : List (Nat × Mode)
  /-- The adaptor of every loop variable, the last loop of a variable first. -/
  loops : List (Nat × Adaptor)

namespace Rendering

/-- Receiver and parameters with the modes of their signature, the last one first. -/
def headerOf (f : FuncDecl) : Option Signature → List (Nat × Mode)
  | none => []
  | some sig =>
    (f.params.mapIdx fun i p => (p, sig.param i)).reverse ++
      if f.receiver = 0 then [] else [(f.receiver, sig.receiver)]

def loopsOf (f : FuncDecl) (v : Verdict) : List (Nat × Adaptor) :=
  ((Stmt.nodesAll f.body).filterMap fun n => match n with
    | .stmt (.node info ..) =>
      if info.kind = .forLoop then some (info.binding, v.adaptor info.id) else none
    | _ => none).reverse

def of (a : Analysis) (f : FuncDecl) : Rendering :=
  let fa := a.funcs.find? (·.func.id == f.id)
  let verdict := (fa.map (·.verdict)).getD {}
  { module := a.module, table := a.table, verdict
    escaping := (fa.map (·.uses.escaping)).getD []
    header := headerOf f (a.table.get? f.qualified)
    loops := loopsOf f verdict }

def escapes (g : Rendering) (closure : Nat) : Bool := (g.escaping.lookup closure).getD false

def mode (g : Rendering) (b : Nat) : Mode := (g.header.lookup b).getD (g.verdict.mode b)

def ref (g : Rendering) (b : Nat) : RefKind :=
  match g.module.binding? b with
  | none => .none
  | some binding => match binding.kind with
    | .param | .receiver => match g.mode b with
      | .shared => .shared
      | .exclusive => .exclusive
      | _ => .none
    | .loop => match g.loops.lookup b with
      | some .iter => .shared
      | some .iterMut => .exclusive
      | _ => .none
    | _ => .none

/-- Modified, and a value rather than a reference: the name itself has to be mutable. -/
def needsMut (g : Rendering) (b : Nat) : Bool := g.verdict.isMutated b && g.ref b == .none

def mutMark (g : Rendering) (b : Nat) : Doc := Doc.when_ (g.needsMut b) "mut "

def bindingName (g : Rendering) (b : Nat) : String :=
  match g.module.binding? b with
  | none => "_"
  | some binding => if binding.kind = .receiver then "self" else Backend.identifier binding.name

def lead (g : Rendering) (stmt : Range) (info : ExprInfo) (place : Place) : Doc :=
  let ref := if info.kind = .ident then g.ref info.binding else .none
  let mark (b : Bool) (s : String) : Doc := if b then Doc.synthetic s info.span stmt else .empty
  match place with
  | .plain => .empty
  | .shared => mark (ref = .none) "&"
  | .exclusive => mark (ref ≠ .exclusive) "&mut "
  | .operand => mark (ref ≠ .none) "*"
  | .value => mark (ref ≠ .none && info.ty.isCopy) "*"

def cloneMark (g : Rendering) (stmt : Range) (expr : Nat) : Doc :=
  match g.verdict.duplicate? expr with
  | some p => Doc.synthetic ".clone()" p.span stmt
  | none => .empty

end Rendering

def ExprInfo.literal (info : ExprInfo) : String :=
  match info.litKind with
  | .string => "String::from(" ++ Backend.quoted info.lit ++ ")"
  | .float => if info.lit.toList.any (fun c => c == '.' || c == 'e' || c == 'E') then info.lit else info.lit ++ ".0"
  | .none => "None"
  | _ => info.lit

def Expr.needsParens (e : Expr) : Bool := e.isKind .unary || e.isKind .closure

def Expr.isSimple (e : Expr) : Bool := e.isKind .ident || e.isKind .lit

def asIndex (stmt : Range) (e : Expr) (d : Doc) : Doc :=
  .cat [.inParens (!e.isSimple) d,
    match e.info? with
    | some info => Doc.synthetic " as usize" info.span stmt
    | none => .empty]

def printFormat (args : List Expr) : String :=
  " ".intercalate (args.map fun e => if e.ty.printsDetailed then "\x7b:?\x7d" else "\x7b\x7d")

def indentText (depth : Nat) : String := Text.indent (4 * depth)

/-- Statements in braces. `lines` is already written one level deeper. -/
def blockDoc (depth : Nat) (lines : List Doc) : Doc :=
  .cat (.text "\x7b\n" :: lines ++ [.text (indentText depth), .text "\x7d"])

def letName (g : Rendering) (b : Nat) (stmt : Range) : Doc :=
  match g.module.binding? b with
  | none => .text "_"
  | some binding =>
    let ty := match binding.ty with
      | .unknown | .func .. => ""
      | t => ": " ++ t.backend
    Doc.mapped binding.span stmt [.text (g.bindingName b ++ ty)]

def loopName (g : Rendering) (b : Nat) (stmt : Range) : Doc :=
  match g.module.binding? b with
  | none => .empty
  | some binding => Doc.mapped binding.span stmt [.text (g.bindingName b)]

def closureParam (g : Rendering) (stmt : Range) (b : Nat) : Doc :=
  match g.module.binding? b with
  | none => .text "_"
  | some binding => Doc.mapped binding.span stmt [.text (g.bindingName b)]

def adaptorDoc (g : Rendering) (info : StmtInfo) (iter : Expr) : Doc :=
  let suffixText := (g.verdict.adaptor info.id).suffixText
  if suffixText.isEmpty then .empty
  else match iter.info? with
    | some i => Doc.synthetic suffixText i.span info.span
    | none => .fault

def ExprInfo.joinsText (info : ExprInfo) (x : Expr) : Bool :=
  info.op == "+" && (info.ty.isString || x.ty.isString)

def ExprInfo.xPlace (info : ExprInfo) (x : Expr) : Place :=
  match info.kind with
  | .unary | .range => .operand
  | .binary => if info.joinsText x then .plain else .operand
  | _ => .plain

def ExprInfo.yPlace (info : ExprInfo) (x : Expr) : Place :=
  if info.kind = .binary && info.joinsText x then .plain else .operand

namespace Rendering

def outerPlace (name : String) : Place :=
  if ["assert", "min", "max"].contains name then .operand else .plain

def argPlace (g : Rendering) (info : ExprInfo) (i : Nat) : Place :=
  match info.kind with
  | .call =>
    if info.binding ≠ 0 then .value
    else match g.table.get? info.callee with
      | some sig => Place.ofMode (sig.param i)
      | none => outerPlace info.name
  | .methodCall => match g.table.get? info.target with
    | some sig => Place.ofMode (sig.param i)
    | none =>
      if i = 0 && Backend.takesIndex info.name then .operand
      else if (BuiltinMethod.named info.name).refArgs then .shared
      else .value
  | _ => .value

def callDoc (name : String) (args : List Doc) : List Doc :=
  .text (name ++ "(") :: Doc.joined ", " args ++ [.text ")"]

def callContent (g : Rendering) (info : ExprInfo) (args : List Expr) (docs : List Doc) : List Doc :=
  if info.binding ≠ 0 then callDoc (g.bindingName info.binding) docs
  else if (g.table.get? info.callee).isSome then
    callDoc (Text.replaceAll "." "::" info.callee) docs
  else match info.name with
    | "print" | "println" =>
      callDoc "println!" (.text (Backend.quoted (printFormat args)) :: docs)
    | "assert" => callDoc "assert!" docs
    | "min" | "max" => callDoc ("std::cmp::" ++ info.name) docs
    | "abs" => match args, docs with
      | [arg], [doc] => [Doc.inParens arg.needsParens doc, .text ".abs()"]
      | _, _ => callDoc info.name docs
    | _ => callDoc info.name docs

def indexedArgs (stmt : Range) (name : String) (args : List Expr) (docs : List Doc) : List Doc :=
  match args, docs with
  | a :: _, d :: ds => (if Backend.takesIndex name then asIndex stmt a d else d) :: ds
  | _, _ => docs

def methodContent (g : Rendering) (stmt : Range) (info : ExprInfo) (base : Doc) (args : List Expr)
    (docs : List Doc) : List Doc :=
  if (g.table.get? info.target).isSome then
    base :: callDoc ("." ++ Backend.identifier info.name) docs
  else
    let call := base :: callDoc ("." ++ Backend.methodName info.name)
      (indexedArgs stmt info.name args docs)
    match info.name with
    | "len" =>
      Doc.synthetic "(" info.span stmt :: call ++ [Doc.synthetic " as i64)" info.span stmt]
    | "trim" => call ++ [Doc.synthetic ".to_string()" info.span stmt]
    | _ => call

/-- A closure with its body rendered. Captured values that are needed later are duplicated first. -/
def closureContent (g : Rendering) (stmt : Range) (info : ExprInfo) (body : Doc) : List Doc :=
  let clones := g.verdict.captureClones info.id
  let copies := clones.map fun b =>
    let name := g.bindingName b
    Doc.synthetic ("let " ++ name ++ " = " ++ name ++ ".clone(); ") info.span stmt
  Doc.when_ (!clones.isEmpty) "\x7b " :: copies ++
    [if g.escapes info.id then Doc.synthetic "move " info.span stmt else .empty, .text "|"] ++
    Doc.joined ", " (info.params.map (closureParam g stmt)) ++
    [.text "| ", body, Doc.when_ (!clones.isEmpty) " \x7d"]

def exprContent (g : Rendering) (stmt : Range) (info : ExprInfo) (x y : Expr) (args : List Expr)
    (xDoc yDoc : Doc) (argDocs initDocs : List Doc) (bodyDoc : Doc) : List Doc :=
  let base := Doc.inParens x.needsParens xDoc
  match info.kind with
  | .ident => [.text (if info.binding = 0 then info.name else g.bindingName info.binding)]
  | .lit => [.text info.literal]
  | .call => g.callContent info args argDocs
  | .methodCall => g.methodContent stmt info base args argDocs
  | .field => [base, .text ("." ++ Backend.identifier info.name)]
  | .index => [base, .text "[", asIndex stmt y yDoc, .text "]"]
  | .binary =>
    if info.joinsText x then
      [.text "format!(\"\x7b\x7d\x7b\x7d\", ", xDoc, .text ", ", yDoc, .text ")"]
    else [.text "(", xDoc, .text (" " ++ Backend.binaryOp info.op ++ " "), yDoc, .text ")"]
  | .unary => [.text (Backend.unaryOp info.op), xDoc]
  | .structLit => .text (info.name ++ " \x7b ") :: Doc.joined ", " initDocs ++ [.text " \x7d"]
  | .arrayLit =>
    if args.isEmpty then [.text "Vec::new()"]
    else .text "vec![" :: Doc.joined ", " argDocs ++ [.text "]"]
  | .range => [.text "(", xDoc, .text "..", yDoc, .text ")"]
  | .closure => g.closureContent stmt info bodyDoc

def starMark (g : Rendering) (target : Expr) (stmt : Range) : Doc :=
  match target.info? with
  | some t =>
    if t.kind = .ident && g.ref t.binding != .none then Doc.synthetic "*" t.span stmt else .empty
  | none => .empty

end Rendering

def StmtInfo.assignOp (info : StmtInfo) : String := if info.op.isEmpty then "=" else info.op

def StmtInfo.valuePlace (info : StmtInfo) (target : Expr) : Place :=
  match info.kind with
  | .letVar | .give => .value
  | .assign =>
    if info.assignOp = "=" then .value else if target.ty.isString then .shared else .operand
  | .branch | .whileLoop => .operand
  | _ => .plain

def Rendering.stmtContent (g : Rendering) (info : StmtInfo) (target value : Expr)
    (targetDoc valueDoc block : Doc) (orElse : Option Doc) : List Doc :=
  match info.kind with
  | .letVar =>
    [.text "let ", g.mutMark info.binding, letName g info.binding info.span] ++
      (if value.id = 0 then [] else [.text " = ", valueDoc]) ++ [.text ";"]
  | .assign =>
    [g.starMark target info.span, targetDoc, .text (" " ++ info.assignOp ++ " "), valueDoc,
      .text ";"]
  | .eval => [valueDoc, .text ";"]
  | .give => if value.id = 0 then [.text "return;"] else [.text "return ", valueDoc, .text ";"]
  | .branch =>
    [.text "if ", valueDoc, .text " ", block] ++ match orElse with
      | some d => [.text " else ", d]
      | none => []
  | .whileLoop => [.text "while ", valueDoc, .text " ", block]
  | .forLoop =>
    [.text "for ", g.mutMark info.binding, loopName g info.binding info.span, .text " in ",
      valueDoc, adaptorDoc g info value, .text " ", block]
  | .leave => [.text "break;"]
  | .again => [.text "continue;"]
  | .block => [block]

mutual
def Expr.render (g : Rendering) (depth : Nat) (stmt : Range) : Expr → Place → Doc
  | .absent _, _ => .text "()"
  | .node info x y args inits body result, place =>
    let xDoc := x.render g depth stmt (info.xPlace x)
    let yDoc := y.render g depth stmt (info.yPlace x)
    let argDocs := Expr.renderAll g depth stmt args (g.argPlace info) 0
    let initDocs := FieldInit.renderAll g depth stmt inits
    let block := body.render g depth
    let outcome := result.render g depth stmt .value
    let bodyDoc := if body.info?.isSome then block else outcome
    Doc.mapped info.span stmt
      (g.lead stmt info place ::
        g.exprContent stmt info x y args xDoc yDoc argDocs initDocs bodyDoc ++
        [g.cloneMark stmt info.id])
def Expr.renderAll (g : Rendering) (depth : Nat) (stmt : Range) :
    List Expr → (Nat → Place) → Nat → List Doc
  | [], _, _ => []
  | e :: es, place, i =>
    e.render g depth stmt (place i) :: Expr.renderAll g depth stmt es place (i + 1)
def FieldInit.renderAll (g : Rendering) (depth : Nat) (stmt : Range) : List FieldInit → List Doc
  | [] => []
  | .mk name span value :: is =>
    Doc.mapped span stmt
      [.text (Backend.identifier name ++ ": "), value.render g depth stmt .value] ::
      FieldInit.renderAll g depth stmt is
def Stmt.render (g : Rendering) (depth : Nat) : Stmt → Doc
  | .absent _ => .empty
  | .node info target value body orElse =>
    let targetDoc := target.render g depth info.span .plain
    let valueDoc := value.render g depth info.span (info.valuePlace target)
    let block := blockDoc depth (Stmt.renderLines g (depth + 1) body)
    let elseDoc := orElse.render g depth
    Doc.mapped info.span info.span
      (g.stmtContent info target value targetDoc valueDoc block
        (if orElse.info?.isSome then some elseDoc else none))
def Stmt.renderLines (g : Rendering) (depth : Nat) : List Stmt → List Doc
  | [] => []
  | s :: ss =>
    let line := s.render g depth
    let rest := Stmt.renderLines g depth ss
    if s.info?.isSome then .text (indentText depth) :: line :: .text "\n" :: rest else rest
end

namespace FuncDecl

def receiverDoc (f : FuncDecl) (g : Rendering) : Doc :=
  match g.module.binding? f.receiver with
  | none => .fault
  | some b => Doc.mapped b.span f.span (match g.ref f.receiver with
    | .shared => [.text "&self"]
    | .exclusive => [.text "&mut self"]
    | .none => [g.mutMark f.receiver, .text "self"])

def refMark : RefKind → String
  | .none => ""
  | .shared => "&"
  | .exclusive => "&mut "

def paramDoc (f : FuncDecl) (g : Rendering) (p : Nat) : Doc :=
  match g.module.binding? p with
  | none => .fault
  | some b => Doc.mapped b.span f.span
    [g.mutMark p, .text (Backend.identifier b.name ++ ": "), .text (refMark (g.ref p)),
      .text b.ty.backend]

def declaration (f : FuncDecl) (g : Rendering) (depth : Nat) : Doc :=
  let inputs := (if f.receiver = 0 then [] else [f.receiverDoc g]) ++ f.params.map (f.paramDoc g)
  Doc.mapped f.span f.span (
    .text ("fn " ++ Backend.identifier f.name ++ "(") :: Doc.joined ", " inputs ++
    [.text ")", .text (if f.result.isUnit then "" else " -> " ++ f.result.backend), .text " ",
      blockDoc depth (Stmt.renderLines g (depth + 1) f.body)])

def render (f : FuncDecl) (g : Rendering) (depth : Nat) : Doc :=
  .cat [.text (indentText depth), f.declaration g depth, .text "\n"]

end FuncDecl

namespace StructDecl

def derives (s : StructDecl) : String :=
  if s.noClone then "#[derive(Debug)]\n"
  else if s.copy then "#[derive(Debug, Clone, Copy, PartialEq)]\n"
  else "#[derive(Debug, Clone, PartialEq)]\n"

def fieldDoc (s : StructDecl) (f : Field) : Doc :=
  .cat [.text (indentText 1),
    Doc.mapped f.span s.span
      [.text ("pub " ++ Backend.identifier f.name ++ ": " ++ f.ty.backendField ++ ",")],
    .text "\n"]

def declaration (s : StructDecl) : Doc :=
  Doc.mapped s.span s.span (
    .text (s.derives ++ "pub struct " ++ s.name ++ " \x7b\n") :: s.fields.map s.fieldDoc ++
    [.text "\x7d"])

def render (s : StructDecl) : Doc := .cat [s.declaration, .text "\n\n"]

end StructDecl

end Tenure
