import Tenure.Build.Bar
import Tenure.Build.Progress
import Tenure.Text.Width

/- The progress of a build on a screen: a line for every unit, and a bar. -/
namespace Tenure.Build

structure Panel.Item where
  path : String
  label : String := ""
  stage : Stage := .other ""
  finished : Bool := false
  deriving Inhabited

structure Panel where
  title : String
  final : Stage
  items : List Panel.Item := []
  heading : String := ""
  ticks : Nat := 0
  width : Int := 80
  bar : Bar := { width := 76 }
  finished : Bool := false
  deriving Inhabited

namespace Panel

def stageLabel : Stage → String
  | .load => "loading"
  | .analyze => "analyzing"
  | .generate => "generating"
  | .emit => "writing"
  | .native => "building"
  | .relay => "translating"
  | .other _ => ""

def eventLabel (p : Progress) : String :=
  match p.status with
  | .queued => "queued"
  | .done => "done"
  | .error => "error"
  | .skipped => "skipped"
  | .working => stageLabel p.stage
  | .other _ => ""

def shareOf : Stage → Float
  | .load => 0.1
  | .analyze => 0.3
  | .generate => 0.5
  | .emit => 0.7
  | .native => 0.8
  | .relay => 0.95
  | .other _ => 0

def Item.share (i : Item) : Float := if i.finished then 1 else shareOf i.stage

def share (items : List Item) : Float :=
  if items.isEmpty then 0 else (items.foldl (fun t i => t + i.share) 0) / items.length.toFloat

def Item.take (final : Stage) (p : Progress) (i : Item) : Item :=
  if i.finished then i
  else
    let l := if p.status = .done ∧ p.stage ≠ final then stageLabel p.stage else eventLabel p
    let i := if l.isEmpty then i else { i with label := l, stage := p.stage }
    match p.status with
    | .error | .skipped => { i with finished := true }
    | .done => { i with finished := p.stage = final }
    | _ => i

/-- The units after an event, if it concerns one that is not finished. Only queued units join. -/
def takeItems (final : Stage) (p : Progress) : List Item → Option (List Item)
  | [] => if p.status = .queued then some [Item.take final p { path := p.file }] else none
  | i :: rest =>
    if i.path = p.file then if i.finished then none else some (i.take final p :: rest)
    else (takeItems final p rest).map (i :: ·)

/-- Takes an event in; `moved` is how many frames the bar then has to move. -/
def take (panel : Panel) (p : Progress) (moved : Nat := 0) : Panel :=
  if p.file.isEmpty then
    if (eventLabel p).isEmpty then panel else { panel with heading := eventLabel p }
  else match takeItems panel.final p panel.items with
    | none => panel
    | some items =>
      { panel with items, bar := Bar.frames moved (panel.bar.aim (share items)) }

def tick (panel : Panel) : Panel := { panel with ticks := panel.ticks + 1 }

def resize (panel : Panel) (width : Int) : Panel :=
  if 0 < width then { panel with width, bar := { panel.bar with width := width - 4 } } else panel

def finish (panel : Panel) : Panel := { panel with finished := true }

def spinnerFrames : List String := ["⣾ ", "⣽ ", "⣻ ", "⢿ ", "⡿ ", "⣟ ", "⣯ ", "⣷ "]

def spinner (panel : Panel) : String :=
  spinnerFrames.getD (panel.ticks % spinnerFrames.length) ""

def shortened (name : String) (room : Nat) : String :=
  if Text.width name ≤ room then name else Text.truncated name (room - 3) "..."

def nameRoom (panel : Panel) : Nat := max 20 (panel.width - 16).toNat

/-- Text as a block: tabs are four blanks, and all lines are equally wide. -/
def block (s : String) : String :=
  let ls := Text.lines (Text.replaceAll "\r\n" "\n" (Text.replaceAll "\t" "    " s))
  let room := (ls.map Text.width).foldl max 0
  if ls.length ≤ 1 then "\n".intercalate ls
  else "\n".intercalate (ls.map fun l => l ++ Text.indent (room - Text.width l))

def header (panel : Panel) : String :=
  let title := if panel.heading.isEmpty then panel.title else s!"{panel.title} ({panel.heading})"
  if panel.finished then s!"done: {title}" else s!"{panel.spinner} {title}"

def itemLine (panel : Panel) (i : Item) : String :=
  s!"  {Text.padLeft 12 i.label} {shortened i.path panel.nameRoom}\n"

def view (panel : Panel) : String :=
  if panel.items.isEmpty then ""
  else block panel.header ++ "\n\n" ++ String.join (panel.items.map panel.itemLine) ++ "\n" ++
    (if panel.finished then Bar.draw panel.bar.width 1 else panel.bar.view) ++ "\n"

end Panel

end Tenure.Build
