import FormulaGraph.Text.Printable

/-! Texts between quotes as listings show them: what cannot be seen is shown by its code. -/

namespace FormulaGraph

def codeEscape (c : Char) : List Char :=
  "\\u".toList ++ '\x7b' :: Nat.toDigits 16 c.toNat ++ ['\x7d']

def escapedChar (c : Char) : List Char :=
  if c == '\x00' then ['\\', '0']
  else if c == '\t' then ['\\', 't']
  else if c == '\r' then ['\\', 'r']
  else if c == '\n' then ['\\', 'n']
  else if c == '\\' then ['\\', '\\']
  else if c == '"' then ['\\', '"']
  else if isAttaching c || !isPrintable c then codeEscape c
  else [c]

def listed (text : String) : String :=
  String.ofList ('"' :: text.toList.flatMap escapedChar ++ ['"'])

end FormulaGraph
