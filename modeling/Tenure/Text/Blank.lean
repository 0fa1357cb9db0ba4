import Tenure.Text.Ranges

/- Blank characters and the texts between them. -/
namespace Tenure.Text

def blankRanges : Array (Nat × Nat) := ranges
  ["9-4 J 2T R 4BK 1VK-A U-1 6 1C 335"]

def isBlank (c : Char) : Bool :=
  if c.toNat < 0x80 then c == ' ' || ('\t' ≤ c && c ≤ '\r') else inRanges blankRanges c.toNat

def trimLeftChars (cs : List Char) : List Char := cs.dropWhile isBlank

def trimRightChars (cs : List Char) : List Char := (cs.reverse.dropWhile isBlank).reverse

def trimChars (cs : List Char) : List Char := trimRightChars (trimLeftChars cs)

def trim (s : String) : String := String.ofList (trimChars s.toList)

def splitAt (mark : List Char) : Nat → List Char → List (List Char)
  | 0, cs => [cs]
  | _, [] => [[]]
  | fuel + 1, c :: cs =>
    if mark.isPrefixOf (c :: cs) then [] :: splitAt mark fuel ((c :: cs).drop mark.length)
    else match splitAt mark fuel cs with
      | [] => [[c]]
      | piece :: pieces => (c :: piece) :: pieces

def splitOn (mark s : String) : List String :=
  (splitAt mark.toList (s.length + 1) s.toList).map String.ofList

def replaceAll (mark with_ s : String) : String := with_.intercalate (splitOn mark s)

def lines (s : String) : List String := splitOn "\n" s

def startsWith (lead s : String) : Bool := lead.toList.isPrefixOf s.toList

def endsWith (tail s : String) : Bool := tail.toList.isSuffixOf s.toList

def dropLead (lead s : String) : Option String :=
  if startsWith lead s then some (String.ofList (s.toList.drop lead.length)) else none

def withoutLead (lead s : String) : String := (dropLead lead s).getD s

def dropTail (tail s : String) : Option String :=
  if endsWith tail s then some (String.ofList (s.toList.take (s.length - tail.length))) else none

def trimTailChars (drop : Char → Bool) (s : String) : String :=
  String.ofList (s.toList.reverse.dropWhile drop).reverse

def contains (part s : String) : Bool := (splitOn part s).length > 1

def cutFirst (mark s : String) : Option (String × String) :=
  match splitOn mark s with
  | first :: second :: rest => some (first, mark.intercalate (second :: rest))
  | _ => none

def indent (n : Nat) : String := String.ofList (List.replicate n ' ')

def padLeft (n : Nat) (s : String) : String := indent (n - s.length) ++ s

def padRight (n : Nat) (s : String) : String := s ++ indent (n - s.length)

end Tenure.Text
