import Tenure.Json.Field
import Tenure.Json.Read
import Tenure.Path
import Tenure.Toolchain.Basic

/- The records that a toolchain prints, one JSON object a line: bare diagnostics, or envelopes that
   hold a diagnostic or name an artifact. Every other line is passed over. -/
namespace Tenure.Toolchain

structure Place where
  file : String := ""
  line : Nat := 0
  stopLine : Nat := 0
  col : Nat := 0
  stopCol : Nat := 0
  isPrimary : Bool := false
  label : Option String := none
  deriving Inhabited

structure Message where
  text : String := ""
  level : String := ""
  code : Option String := none
  places : List Place := []
  children : List Message := []
  rendered : Option String := none
  deriving Inhabited

structure Envelope where
  reason : String := ""
  message : Option Message := none
  executable : Option String := none
  filenames : List String := []
  deriving Inhabited

def readText : Json.Reader (Option String) := Json.readOpt "" Json.readStr

def readPlace : Json.Reader Place :=
  Json.readObj ["file_name", "line_start", "line_end", "column_start", "column_end", "is_primary",
      "label"] fun field j p => match field with
    | "file_name" => (Json.readStr j p.file).map ({ p with file := · })
    | "line_start" => (Json.read32 j p.line).map ({ p with line := · })
    | "line_end" => (Json.read32 j p.stopLine).map ({ p with stopLine := · })
    | "column_start" => (Json.read32 j p.col).map ({ p with col := · })
    | "column_end" => (Json.read32 j p.stopCol).map ({ p with stopCol := · })
    | "is_primary" => (Json.readBool j p.isPrimary).map ({ p with isPrimary := · })
    | _ => (readText j p.label).map ({ p with label := · })

def readCode : Json.Reader String := Json.readObj ["code"] fun _ j c => Json.readStr j c

/-- Messages nest; `fuel` bounds how deep. -/
def readMessage : Nat → Json.Reader Message
  | 0 => fun _ _ => .error {}
  | fuel + 1 =>
    Json.readObj ["message", "level", "code", "spans", "children", "rendered"]
      fun field j m => match field with
        | "message" => (Json.readStr j m.text).map ({ m with text := · })
        | "level" => (Json.readStr j m.level).map ({ m with level := · })
        | "code" => (Json.readOpt "" readCode j m.code).map ({ m with code := · })
        | "spans" => (Json.readList {} readPlace j m.places).map ({ m with places := · })
        | "children" =>
          (Json.readList {} (readMessage fuel) j m.children).map ({ m with children := · })
        | _ => (readText j m.rendered).map ({ m with rendered := · })

def readEnvelope (fuel : Nat) : Json.Reader Envelope :=
  Json.readObj ["reason", "message", "executable", "filenames"] fun field j e => match field with
    | "reason" => (Json.readStr j e.reason).map ({ e with reason := · })
    | "message" =>
      (Json.readOpt {} (readMessage fuel) j e.message).map ({ e with message := · })
    | "executable" => (readText j e.executable).map ({ e with executable := · })
    | _ => (Json.readList "" Json.readStr j e.filenames).map ({ e with filenames := · })

def readReason : Json.Reader String := Json.readObj ["reason"] fun _ j r => Json.readStr j r

def isSummary (text : String) : Bool :=
  Text.startsWith "aborting due to" text || Text.startsWith "could not compile" text ||
  Text.endsWith "warnings emitted" text || Text.endsWith "warning emitted" text

def shortFile (root name : String) : String :=
  if root.isEmpty || !Path.isAbs name then name
  else match Path.relative root name with
    | some rel => if Path.escapes rel then name else rel
    | none => name

def mainPlace (places : List Place) : Option Place :=
  (places.find? (·.isPrimary)).or places.head?

/-- What is kept of a message: errors, and warnings if they are asked for. -/
def Message.record? (m : Message) (warnings : Bool) (root : String) : Option RawDiagnostic :=
  let severity := Severity.ofLevel m.level
  if severity = .info ∨ (severity = .warning ∧ !warnings) ∨ isSummary m.text then none
  else
    let d : RawDiagnostic :=
      { code := m.code.getD "", message := m.text, severity, rendered := m.rendered.getD ""
        children := m.children.map fun c => s!"{Text.lower c.level}: {c.text}" }
    some (match mainPlace m.places with
      | some p => { d with
          file := shortFile root p.file
          span := ⟨p.line, p.col, p.stopLine, p.stopCol⟩
          label := p.label.getD "" }
      | none => d)

structure Output where
  records : List RawDiagnostic := []
  artifacts : List String := []
  deriving Inhabited

def Output.addRecord (o : Output) (d : Option RawDiagnostic) : Output :=
  { o with records := o.records ++ d.toList }

def addLine (warnings : Bool) (root : String) (o : Output) (line : String) : Output :=
  let line := Text.trim line
  if !Text.startsWith "\x7b" line then o
  else match Json.parse? line with
    | none => o
    | some j => match readReason j "" with
      | .error _ => o
      | .ok "" => match readMessage (line.length + 1) j {} with
        | .error _ => o
        | .ok m => if m.level.isEmpty then o else o.addRecord (m.record? warnings root)
      | .ok reason => match readEnvelope (line.length + 1) j {} with
        | .error _ => o
        | .ok e =>
          if reason = "compiler-message" then
            o.addRecord (e.message.bind fun m => m.record? warnings root)
          else if reason = "compiler-artifact" then
            match e.executable with
            | some p => if p.isEmpty then o else { o with artifacts := o.artifacts ++ [p] }
            | none => o
          else o

def readOutput (warnings : Bool) (root text : String) : Output :=
  (Text.lines text).foldl (addLine warnings root) {}

end Tenure.Toolchain
