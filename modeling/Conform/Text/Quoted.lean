import Conform.Text.Printable

/-!
# Quoted text

A text between quotes, so that it shows on one line: the single quote unless the text holds it and no
double quote, a backslash before the quote and before itself, and codes for what cannot be printed.
-/

namespace Conform.Text

/-- The last `width` hexadecimal digits of a number. -/
def hex (width n : Nat) : String :=
  let ds := Nat.toDigits 16 n
  String.ofList (List.replicate (width - ds.length) '0' ++ ds)

/-- The escape of a character by its code, as short as the code allows. -/
def codeEscape (n : Nat) : String :=
  if n < 0x100 then "\\x" ++ hex 2 n else if n < 0x10000 then "\\u" ++ hex 4 n else "\\U" ++ hex 8 n

def escapeChar (quote c : Char) : String :=
  if c == quote || c == '\\' then "\\" ++ c.toString
  else if c == '\n' then "\\n"
  else if c == '\r' then "\\r"
  else if c == '\t' then "\\t"
  else if isPrintable c then c.toString
  else codeEscape c.toNat

def quoteFor (cs : List Char) : Char :=
  if cs.contains '\'' && !cs.contains '"' then '"' else '\''

def quoted (s : String) : String :=
  let q := quoteFor s.toList
  q.toString ++ String.join (s.toList.map (escapeChar q)) ++ q.toString

/-- Bytes between quotes; only the printable characters of ASCII stand for themselves. -/
def quotedBytes (bytes : List UInt8) : String :=
  let cs := bytes.map fun b => Char.ofNat b.toNat
  let q := quoteFor cs
  let escape := fun (c : Char) => if c.toNat < 0x7f then escapeChar q c else codeEscape c.toNat
  "b" ++ q.toString ++ String.join (cs.map escape) ++ q.toString

end Conform.Text
