import Tenure.Command.Tree

/- What the program tells about itself and its commands. -/
namespace Tenure.Command

def FlagKind.word : FlagKind → String
  | .text => "string"
  | .bool => ""
  | .int => "int"
  | .duration => "duration"

namespace Flag

def left (f : Flag) : String :=
  (if f.short.isSome then "  " else "      ") ++ f.label ++
    (if f.kind.word.isEmpty then "" else " " ++ f.kind.word)

def right (f : Flag) : String :=
  f.usage ++
    if f.default.isEmpty then ""
    else if f.kind = .text then s!" (default {Text.quoted f.default})"
    else s!" (default {f.default})"

end Flag

def flagLines (fs : List Flag) : List String :=
  let fs := fs.mergeSort fun f g => f.name ≤ g.name
  let width := (fs.map fun f => f.left.utf8ByteSize).foldl max 0
  fs.map fun f => f.left ++ Text.indent (width - f.left.utf8ByteSize + 3) ++ f.right

def flagSection (title : String) (fs : List Flag) : List String :=
  if fs.isEmpty then [] else ["", title] ++ flagLines fs

def commandSection (cs : List (String × String)) : List String :=
  if cs.isEmpty then []
  else ["", "Available Commands:"] ++ (cs.mergeSort fun a b => a.1 ≤ b.1).map fun (name, short) =>
    s!"  {Text.padRight 11 name} {short}"

def completionShells : List (String × String) :=
  ["bash", "fish", "powershell", "zsh"].map fun shell =>
    (shell, s!"Generate the autocompletion script for {shell}")

def Spec.useLine (c : Spec) : String :=
  let line := s!"{program} {c.use}"
  if Text.contains "[flags]" line then line else line ++ " [flags]"

def subcommandEnd (path : String) : List String :=
  ["", s!"Use \"{path} [command] --help\" for more information about a command."]

def programUsage (own : List Flag) : List String :=
  ["Usage:", s!"  {program} [command]"] ++ commandSection (specs.map fun c => (c.name, c.short)) ++
    flagSection "Flags:" own ++ subcommandEnd program

def Spec.usageLines (c : Spec) : List String :=
  let path := s!"{program} {c.name}"
  let flags := flagSection "Flags:" (c.flags ++ [helpFlag c.name]) ++
    flagSection "Global Flags:" sharedFlags
  if c.runnable then ["Usage:", "  " ++ c.useLine] ++ flags
  else ["Usage:", s!"  {path} [command]"] ++ commandSection completionShells ++ flags ++
    subcommandEnd path

def unlines (ls : List String) : String := String.join (ls.map (· ++ "\n"))

def helpText : Option Spec → String
  | none => unlines ([programAbout, ""] ++ programUsage (flagsOf none))
  | some c => unlines ([if c.long.isEmpty then c.short else c.long, ""] ++ c.usageLines)

def unknownTopic (args : List String) : String :=
  let topics := " ".intercalate (args.map fun a => "`" ++ a ++ "`")
  s!"Unknown help topic [{topics}]\n" ++ unlines (programUsage sharedFlags)

end Tenure.Command
