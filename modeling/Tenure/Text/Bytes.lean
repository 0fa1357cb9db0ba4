/- Byte texts. File contents and offsets into them are bytes; names and messages are strings.
   Reading bytes as characters never fails: a byte that belongs to no character stands for the
   replacement character. -/
namespace Tenure

abbrev Bytes := List UInt8

namespace Bytes

def ofString (s : String) : Bytes := s.toList.flatMap String.utf8EncodeChar

def newline : UInt8 := 10

def isContinuation (b : UInt8) : Bool := 0x80 ≤ b && b ≤ 0xBF

def leadInfo (b : UInt8) : Option (Nat × UInt8 × UInt8) :=
  if 0xC2 ≤ b && b ≤ 0xDF then some (1, 0x80, 0xBF)
  else if b == 0xE0 then some (2, 0xA0, 0xBF)
  else if b == 0xED then some (2, 0x80, 0x9F)
  else if 0xE1 ≤ b && b ≤ 0xEF then some (2, 0x80, 0xBF)
  else if b == 0xF0 then some (3, 0x90, 0xBF)
  else if 0xF1 ≤ b && b ≤ 0xF3 then some (3, 0x80, 0xBF)
  else if b == 0xF4 then some (3, 0x80, 0x8F)
  else none

def tailBits (b : UInt8) : Nat := b.toNat % 64

/-- The character at the front and its length in bytes; `none` when the front byte starts none. -/
def frontChar : Bytes → Option (Char × Nat)
  | [] => none
  | b :: bs =>
    if b < 0x80 then some (Char.ofNat b.toNat, 1)
    else match leadInfo b, bs with
      | some (1, lo, hi), c :: _ =>
        if lo ≤ c && c ≤ hi then some (Char.ofNat (b.toNat % 32 * 64 + tailBits c), 2) else none
      | some (2, lo, hi), c :: d :: _ =>
        if lo ≤ c && c ≤ hi && isContinuation d then
          some (Char.ofNat ((b.toNat % 16 * 64 + tailBits c) * 64 + tailBits d), 3)
        else none
      | some (3, lo, hi), c :: d :: e :: _ =>
        if lo ≤ c && c ≤ hi && isContinuation d && isContinuation e then
          some (Char.ofNat (((b.toNat % 8 * 64 + tailBits c) * 64 + tailBits d) * 64 + tailBits e), 4)
        else none
      | _, _ => none

/-- Characters with their lengths in bytes. A stray byte is a character of length one. -/
def charsFrom : Nat → Bytes → List (Option Char × Nat)
  | 0, _ => []
  | _, [] => []
  | fuel + 1, b :: bs => match frontChar (b :: bs) with
    | some (c, n) => (some c, n) :: charsFrom fuel (bs.drop (n - 1))
    | none => (none, 1) :: charsFrom fuel bs

def chars (bs : Bytes) : List (Option Char × Nat) := charsFrom bs.length bs

def replacement : Char := Char.ofNat 0xFFFD

def toChars (bs : Bytes) : List Char := (chars bs).map fun c => c.1.getD replacement

def toText (bs : Bytes) : String := String.ofList (toChars bs)

def isText (bs : Bytes) : Bool := (chars bs).all fun c => c.1.isSome

def hexDigit (n : Nat) : Char := if n < 10 then Char.ofNat (48 + n) else Char.ofNat (87 + n)

def hex (bs : Bytes) : String :=
  String.ofList (bs.flatMap fun b => [hexDigit (b.toNat / 16), hexDigit (b.toNat % 16)])

/-- How many bytes at the end are the beginning of a character that is cut off. -/
def cutOff (bs : Bytes) : Nat :=
  let needs (n : Nat) (b : UInt8) : Bool :=
    match leadInfo b with
    | some (k, _) => n ≤ k
    | none => false
  match bs.reverse with
  | b :: rest =>
    if needs 1 b then 1
    else if !isContinuation b then 0
    else match rest with
      | c :: rest =>
        if needs 2 c then 2
        else if !isContinuation c then 0
        else match rest with
          | d :: _ => if needs 3 d then 3 else 0
          | [] => 0
      | [] => 0
  | [] => 0

def startsWith (lead bs : Bytes) : Bool := lead.isPrefixOf bs

def lines : Bytes → List Bytes
  | [] => [[]]
  | b :: bs =>
    if b = newline then [] :: lines bs
    else match lines bs with
      | [] => [[b]]
      | l :: ls => (b :: l) :: ls

def trimNewlines (bs : Bytes) : Bytes := (bs.reverse.dropWhile (· == newline)).reverse

end Bytes

end Tenure
