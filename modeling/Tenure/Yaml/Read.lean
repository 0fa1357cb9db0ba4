import Tenure.Yaml.Flow

/- Reading documents by their indentation. Anchors, tags and complex keys are refused. -/
namespace Tenure.Yaml

structure Line where
  indent : Nat
  text : List Char
  deriving Inhabited

def lineOf (raw : List Char) : Line :=
  let blanks := raw.takeWhile (· == ' ')
  { indent := blanks.length, text := raw.drop blanks.length }

def linesOf (s : List Char) : List Line :=
  (Text.splitAt ['\n'] (s.length + 1) s).map fun l => lineOf (l.filter (· != '\r'))

def Line.raw (l : Line) : List Char := List.replicate l.indent ' ' ++ l.text

def Line.isBlank (l : Line) : Bool :=
  match l.text.dropWhile isSpaceChar with
  | [] => true
  | c :: _ => c == '#'

def rawText (ls : List Line) : List Char :=
  ['\n'].intercalate (ls.map Line.raw)

def skipBlank : List Line → List Line
  | [] => []
  | l :: ls => if l.isBlank then skipBlank ls else l :: ls

def isLineEnd (s : List Char) : Bool :=
  match s.dropWhile isSpaceChar with
  | [] => true
  | c :: _ => c == '\n' || (c == '#' && (s.head?.map isSpaceChar).getD true)

def afterValue (s : List Char) : Option (List Line) :=
  if isLineEnd s then
    match s.dropWhile fun c => c != '\n' with
    | [] => some []
    | _ :: rest => some (linesOf rest)
  else none

def plainPart : Char → List Char → List Char
  | _, [] => []
  | prev, c :: s =>
    if c = '#' && isSpaceChar prev then []
    else if c = ':' && (s.head?.map isSpaceChar).getD true then []
    else c :: plainPart c s

def key? (s : List Char) : Option (Yaml × List Char) :=
  match s with
  | [] => none
  | c :: _ =>
    if c = '"' ∨ c = '\'' then
      match quoted? s with
      | some (t, rest) => match rest.dropWhile isSpaceChar with
        | ':' :: rest =>
          if (rest.head?.map isSpaceChar).getD true then some (.scalar false t, rest) else none
        | _ => none
      | none => none
    else if isIndicator c then none
    else
      let part := plainPart ' ' s
      match s.drop part.length with
      | ':' :: rest => some (.scalar true (Text.trim (String.ofList part)), rest)
      | _ => none

def isDash (s : List Char) : Bool :=
  match s with
  | '-' :: rest => (rest.head?.map isSpaceChar).getD true
  | _ => false

def plainRun (indent : Nat) : List Line → List Line × List Line
  | [] => ([], [])
  | l :: ls =>
    if l.text.all isSpaceChar then
      let (run, rest) := plainRun indent ls
      if run.isEmpty then ([], l :: ls) else (l :: run, rest)
    else if indent < l.indent ∧ ¬ l.isBlank then
      let (run, rest) := plainRun indent ls
      (l :: run, rest)
    else ([], l :: ls)

def joinPlain (acc : String) (gaps : Nat) : List Line → String
  | [] => acc
  | l :: ls =>
    let t := Text.trim (String.ofList (plainPart ' ' l.text))
    if t.isEmpty then joinPlain acc (gaps + 1) ls
    else
      let sep := if gaps = 0 then " " else String.ofList (List.replicate gaps '\n')
      joinPlain (acc ++ sep ++ t) 0 ls

inductive Chomp where
  | clip
  | strip
  | keep
  deriving DecidableEq

/-- The marks behind the sign of a block: how it ends and how far it is indented. -/
def blockMarks : List Char → Option (Chomp × Option Nat)
  | [] => some (.clip, none)
  | c :: s =>
    if isSpaceChar c ∨ c = '#' then (if isLineEnd (c :: s) then some (.clip, none) else none)
    else match blockMarks s with
      | none => none
      | some (chomp, size) =>
        if c = '-' then some (.strip, size)
        else if c = '+' then some (.keep, size)
        else if Json.isDigit c ∧ c ≠ '0' then some (chomp, some (c.toNat - 48))
        else none

def blockRun (indent : Nat) : List Line → List Line × List Line
  | [] => ([], [])
  | l :: ls =>
    if l.text.all isSpaceChar ∨ indent < l.indent then
      let (run, rest) := blockRun indent ls
      (l :: run, rest)
    else ([], l :: ls)

/-- Joins the lines of a folded block: single breaks between lines of equal standing are blanks. -/
def foldLines : List (List Char) → List Char
  | [] => []
  | [l] => l
  | l :: m :: ls =>
    let rest := foldLines (m :: ls)
    let spaced (l : List Char) : Bool := (l.head?.map isSpaceChar).getD false
    if l.isEmpty then '\n' :: rest
    else if m.isEmpty then
      (if (ls.dropWhile List.isEmpty).head?.map spaced == some true || spaced l then l ++ '\n' :: rest
        else l ++ rest)
    else if spaced l || spaced m then l ++ '\n' :: rest
    else l ++ ' ' :: rest

def blockText (folded : Bool) (chomp : Chomp) (size : Option Nat) (indent : Nat) (run : List Line) :
    String :=
  let first := (run.find? fun l => !l.text.isEmpty).map (·.indent)
  let width := match size with
    | some n => indent + n
    | none => first.getD 0
  let rows := run.map fun l => l.raw.drop width
  let body := (rows.reverse.dropWhile List.isEmpty).reverse
  let tail := rows.length - body.length
  let text := if folded then foldLines body else ['\n'].intercalate body
  let ending := match chomp with
    | .strip => []
    | .clip => if body.isEmpty then [] else ['\n']
    | .keep => List.replicate (if body.isEmpty then tail else tail + 1) '\n'
  String.ofList (text ++ ending)

/-- A value that starts on a line whose parent is indented by `indent`; `none` there means that
nothing is above it. -/
def inlineValue (indent : Option Nat) (s : List Char) (ls : List Line) :
    Option (Yaml × List Line) :=
  match s with
  | [] => none
  | c :: rest =>
    if c = '"' ∨ c = '\'' then do
      let (t, rest) ← quoted? (['\n'].intercalate [s, rawText ls])
      let after ← afterValue rest
      return (.scalar false t, after)
    else if c = '[' ∨ c = '{' then do
      let (v, rest) ← flow? (['\n'].intercalate [s, rawText ls])
      let after ← afterValue rest
      return (v, after)
    else if c = '|' ∨ c = '>' then do
      let (chomp, size) ← blockMarks rest
      let outer := indent.getD 0
      let (run, after) := match indent with
        | some n => blockRun n ls
        | none => (ls, [])
      return (.scalar false (blockText (c = '>') chomp size outer run), after)
    else if isIndicator c then none
    else
      let part := plainPart ' ' s
      match s.drop part.length with
      | ':' :: _ => none
      | _ =>
        let first := Text.trim (String.ofList part)
        let (run, after) :=
          if part.length < s.length then ([], ls)
          else match indent with
            | some n => plainRun n ls
            | none => (ls, [])
        if run.any fun l => (key? l.text).isSome then none
        else some (.scalar true (joinPlain first 0 run), after)

mutual
/-- A node whose lines are indented by `least` at least; nothing there is null. `parent` is the
indentation of what holds it. -/
def block : Nat → Option Nat → Nat → List Line → Option (Yaml × List Line)
  | 0, _, _, _ => none
  | fuel + 1, parent, least, ls =>
    match skipBlank ls with
    | [] => some (.null, [])
    | l :: ls =>
      if l.indent < least then some (.null, l :: ls)
      else if isDash l.text then (blockItems fuel l.indent (l :: ls)).map fun (is, ls) => (.seq is, ls)
      else if (key? l.text).isSome then
        (blockMembers fuel l.indent (l :: ls)).map fun (ms, ls) => (.map ms, ls)
      else inlineValue parent l.text ls
def blockItems : Nat → Nat → List Line → Option (List Yaml × List Line)
  | 0, _, _ => none
  | fuel + 1, indent, ls =>
    match skipBlank ls with
    | [] => some ([], [])
    | l :: ls =>
      if l.indent = indent ∧ isDash l.text then do
        let after := l.text.drop 1
        let blanks := after.takeWhile (· == ' ')
        let inner : Line := { indent := indent + 1 + blanks.length, text := after.drop blanks.length }
        let (item, ls) ←
          if inner.isBlank then block fuel (some indent) (indent + 1) ls
          else block fuel (some indent) (indent + 1) (inner :: ls)
        let (items, ls) ← blockItems fuel indent ls
        return (item :: items, ls)
      else if indent < l.indent then none
      else some ([], l :: ls)
def blockMembers : Nat → Nat → List Line → Option (List (Yaml × Yaml) × List Line)
  | 0, _, _ => none
  | fuel + 1, indent, ls =>
    match skipBlank ls with
    | [] => some ([], [])
    | l :: ls =>
      if l.indent = indent then do
        let (key, rest) ← key? l.text
        let value := rest.dropWhile isSpaceChar
        let (value, ls) ←
          if isLineEnd rest then
            match skipBlank ls with
            | m :: ms =>
              if m.indent = indent ∧ isDash m.text then
                (blockItems fuel indent (m :: ms)).map fun (is, ls) => (Yaml.seq is, ls)
              else block fuel (some indent) (indent + 1) (m :: ms)
            | [] => some (.null, [])
          else inlineValue (some indent) value ls
        let (members, ls) ← blockMembers fuel indent ls
        return ((key, value) :: members, ls)
      else if indent < l.indent then none
      else some ([], l :: ls)
end

def isMarker (mark : List Char) (l : Line) : Bool :=
  l.indent == 0 && mark.isPrefixOf l.text && ((l.text.drop 3).head?.map isSpaceChar).getD true

def dropStart (ls : List Line) : List Line :=
  match skipBlank ls with
  | [] => []
  | l :: rest =>
    if isMarker ['-', '-', '-'] l then
      let text := l.text.drop 3
      let blanks := text.takeWhile (· == ' ')
      { indent := 3 + blanks.length, text := text.drop blanks.length } :: rest
    else l :: rest

def firstDocument (ls : List Line) : List Line :=
  (dropStart ls).takeWhile fun l => !isMarker ['-', '-', '-'] l && !isMarker ['.', '.', '.'] l

def isAllowed (c : Char) : Bool :=
  let n := c.toNat
  n == 9 || n == 10 || n == 13 || n == 0x85 || (0x20 ≤ n && n != 0x7F && !(0x80 ≤ n && n ≤ 0x9F) &&
    n != 0xFFFE && n != 0xFFFF)

def parse? (s : String) : Option Yaml :=
  let cs := s.toList
  let cs := if cs.head? = some (Char.ofNat 0xFEFF) then cs.tail else cs
  if !cs.all isAllowed then none
  else
    let ls := firstDocument (linesOf cs)
    match block (2 * cs.length + 2) none 0 ls with
    | some (v, rest) => if (skipBlank rest).isEmpty then some v else none
    | none => none

end Tenure.Yaml
