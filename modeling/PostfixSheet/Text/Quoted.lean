import PostfixSheet.Text.Unprintable

/-! Text in quotes, as messages show it: the quote itself, the backslash and control characters are
escaped, and what cannot be seen is written by its number. -/

namespace PostfixSheet

def numberEscape (character : Char) : List Char :=
  ['\\', 'u', '\x7b'] ++ Nat.toDigits 16 character.toNat ++ ['\x7d']

def quotedChar (quote character : Char) : List Char :=
  if character = '\x00' then ['\\', '0']
  else if character = '\t' then ['\\', 't']
  else if character = '\r' then ['\\', 'r']
  else if character = '\n' then ['\\', 'n']
  else if character = '\\' then ['\\', '\\']
  else if character = quote then ['\\', quote]
  else if isUnprintable character then numberEscape character
  else [character]

def quoted (quote : Char) (text : String) : String :=
  String.ofList (quote :: (text.toList.flatMap (quotedChar quote) ++ [quote]))

end PostfixSheet
