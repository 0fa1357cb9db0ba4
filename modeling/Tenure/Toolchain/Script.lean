import Tenure.Disk
import Tenure.Toolchain.Invoke

/- Tools that are small shell scripts: they print lines to either stream and exit. -/
namespace Tenure.Script

structure Word where
  text : String
  quoted : Bool := false
  deriving DecidableEq, Repr

abbrev Command := List Word

inductive Quote where
  | none
  | single
  | double
  deriving DecidableEq

structure Lexer where
  done : List Command := []
  words : List Word := []
  word : Option (List Char) := Option.none
  quoted : Bool := false
  quote : Quote := .none
  literal : Bool := false
  comment : Bool := false

namespace Lexer

def push (l : Lexer) (c : Char) : Lexer := { l with word := some (c :: l.word.getD []), literal := false }

def endWord (l : Lexer) : Lexer :=
  match l.word with
  | none => l
  | some cs =>
    { l with words := l.words ++ [{ text := String.ofList cs.reverse, quoted := l.quoted }]
             word := none, quoted := false }

def endCommand (l : Lexer) : Lexer :=
  let l := l.endWord
  if l.words.isEmpty then l else { l with done := l.done ++ [l.words], words := [] }

def openQuote (l : Lexer) (q : Quote) : Lexer :=
  { l with quote := q, quoted := true, word := some (l.word.getD []) }

def step (l : Lexer) (c : Char) : Lexer :=
  if l.comment then if c = '\n' then { l with comment := false } else l
  else if l.literal then
    -- Between double quotes a backslash is itself except before what it could be needed for.
    if l.quote = .double ∧ !("\"\\$`".toList.contains c) then (l.push '\\').push c else l.push c
  else match l.quote with
    | .single => if c = '\'' then { l with quote := .none } else l.push c
    | .double =>
      if c = '"' then { l with quote := .none }
      else if c = '\\' then { l with literal := true } else l.push c
    | .none =>
      if c = '\'' then l.openQuote .single
      else if c = '"' then l.openQuote .double
      else if c = '\\' then { l with literal := true }
      else if c = '\n' ∨ c = ';' then l.endCommand
      else if c = ' ' ∨ c = '\t' then l.endWord
      else if c = '#' ∧ l.word.isNone then { l.endCommand with comment := true }
      else l.push c

end Lexer

def commands (s : String) : List Command :=
  let start : Lexer := {}
  ((s.toList.foldl Lexer.step start).endCommand).done

/-- A format with escapes and `%s`, filled once; what is left of the arguments. -/
def fill : List Char → List String → List Char × List String
  | '\\' :: 'n' :: f, args => let (cs, rest) := fill f args; ('\n' :: cs, rest)
  | '\\' :: 't' :: f, args => let (cs, rest) := fill f args; ('\t' :: cs, rest)
  | '\\' :: '\\' :: f, args => let (cs, rest) := fill f args; ('\\' :: cs, rest)
  | '%' :: '%' :: f, args => let (cs, rest) := fill f args; ('%' :: cs, rest)
  | '%' :: 's' :: f, args =>
    let (cs, rest) := fill f args.tail
    ((args.head?.getD "").toList ++ cs, rest)
  | c :: f, args => let (cs, rest) := fill f args; (c :: cs, rest)
  | [], args => ([], args)

/-- A format is used again as long as it takes arguments. -/
def fillAll (format : List Char) : Nat → List String → List Char
  | 0, _ => []
  | fuel + 1, args =>
    let (cs, rest) := fill format args
    if rest.isEmpty ∨ rest.length = args.length then cs else cs ++ fillAll format fuel rest

def printed (args : List String) : String :=
  match args with
  | [] => ""
  | f :: args => String.ofList (fillAll f.toList (args.length + 1) args)

def isErrorStream (w : Word) : Bool := !w.quoted && (w.text == ">&2" || w.text == "1>&2")

structure State where
  run : ProgramRun := {}
  finished : Bool := false

def say (s : State) (toErr : Bool) (text : String) : State :=
  let run := { s.run with exit := 0 }
  if toErr then { s with run := { run with stderr := run.stderr ++ text } }
  else { s with run := { run with stdout := run.stdout ++ text } }

def step (name : String) (s : State) (c : Command) : State :=
  if s.finished then s
  else
    let toErr := c.any isErrorStream
    match (c.filter fun w => !isErrorStream w).map (·.text) with
    | [] => s
    | "printf" :: args => say s toErr (printed args)
    | "echo" :: args => say s toErr (" ".intercalate args ++ "\n")
    | "exit" :: args =>
      { s with finished := true
               run := { s.run with exit := ((args.head?.bind (·.toNat?)).getD s.run.exit) % 256 } }
    | "true" :: _ | ":" :: _ => { s with run := { s.run with exit := 0 } }
    | "false" :: _ => { s with run := { s.run with exit := 1 } }
    | other :: _ =>
      let s := say s true s!"{name}: {other}: not found\n"
      { s with run := { s.run with exit := 127 } }

def run (name text : String) : ProgramRun := ((commands text).foldl (step name) {}).run

def find (d : Disk) (searchPath : String) (name : String) : Except String String :=
  let places := ((Text.splitOn ":" searchPath).filter (!·.isEmpty)).map (Path.join · name)
  match places.find? d.isFile with
  | some p => .ok p
  | none => .error s!"exec: {Text.quoted name}: executable file not found in $PATH"

def runCommand (d : Disk) (command : List String) : ProgramRun :=
  let name := command.head?.getD ""
  match d.readFile name with
  | .ok bs => run name (Bytes.toText bs)
  | .error _ => { exit := 127 }

end Tenure.Script
