import Tenure.Text.Category
import Tenure.Text.Bytes

/- Quoted texts, as messages show them: between double quotes, on one line, with everything that is
   not printable escaped. -/
namespace Tenure.Text

def hexPadded (digits n : Nat) : List Char :=
  let ds := (Nat.toDigits 16 n)
  List.replicate (digits - ds.length) '0' ++ ds

def quotedChar (c : Char) : List Char :=
  if c = '"' then ['\\', '"']
  else if c = '\\' then ['\\', '\\']
  else if isPrintable c then [c]
  else match c.toNat with
    | 7 => ['\\', 'a']
    | 8 => ['\\', 'b']
    | 9 => ['\\', 't']
    | 10 => ['\\', 'n']
    | 11 => ['\\', 'v']
    | 12 => ['\\', 'f']
    | 13 => ['\\', 'r']
    | n =>
      if n < 0x20 ∨ n = 0x7F then '\\' :: 'x' :: hexPadded 2 n
      else if n < 0x10000 then '\\' :: 'u' :: hexPadded 4 n
      else '\\' :: 'U' :: hexPadded 8 n

def quoted (s : String) : String :=
  String.ofList ('"' :: s.toList.flatMap quotedChar ++ ['"'])

end Tenure.Text
