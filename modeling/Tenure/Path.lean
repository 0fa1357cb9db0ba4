import Tenure.Text.Blank

/- Slash-separated paths, handled as text: nothing here looks at a disk. -/
namespace Tenure.Path

def isAbs (p : String) : Bool := Text.startsWith "/" p

def elements (p : String) : List String := (Text.splitOn "/" p).filter fun e => !e.isEmpty

def pushElement (rooted : Bool) (acc : List String) (e : String) : List String :=
  if e = "." then acc
  else if e = ".." then
    match acc with
    | [] => if rooted then [] else [".."]
    | top :: rest => if top = ".." then ".." :: acc else rest
  else e :: acc

def cleanElements (p : String) : List String :=
  ((elements p).foldl (pushElement (isAbs p)) []).reverse

def clean (p : String) : String :=
  let es := cleanElements p
  if isAbs p then "/" ++ "/".intercalate es
  else if es.isEmpty then "." else "/".intercalate es

def join (a b : String) : String :=
  if a.isEmpty ∧ b.isEmpty then "" else if a.isEmpty then clean b
  else if b.isEmpty then clean a else clean (a ++ "/" ++ b)

def joinAll (parts : List String) : String :=
  let parts := parts.filter fun p => !p.isEmpty
  if parts.isEmpty then "" else clean ("/".intercalate parts)

def absolute (cwd p : String) : String := if isAbs p then clean p else join cwd p

def base (p : String) : String :=
  if p.isEmpty then "."
  else match (elements p).getLast? with
    | some e => e
    | none => "/"

def dir (p : String) : String :=
  let lead := (p.toList.reverse.dropWhile (· != '/')).reverse
  clean (String.ofList lead)

def dropCommon : List String → List String → List String × List String
  | a :: as, b :: bs => if a = b then dropCommon as bs else (a :: as, b :: bs)
  | as, bs => (as, bs)

/-- The path to `target` from the directory `from_`; `none` when there is no telling. -/
def relative (from_ target : String) : Option String :=
  let a := clean from_
  let b := clean target
  if a = b then some "."
  else if isAbs a != isAbs b then none
  else
    let as := if a = "." then [] else elements a
    match dropCommon as (elements b) with
    | (".." :: _, _) => none
    | (up, down) => some ("/".intercalate (up.map (fun _ => "..") ++ down))

def escapes (rel : String) : Bool := Text.startsWith ".." rel

end Tenure.Path
