import GameTimeline.Text.Hex
import GameTimeline.Text.Unseen

namespace GameTimeline.Text

def quoteChar (c : Char) : List Char :=
  if c = '"' then ['\\', '"']
  else if c = '\\' then ['\\', '\\']
  else if c = '\n' then ['\\', 'n']
  else if c = '\r' then ['\\', 'r']
  else if c = '\t' then ['\\', 't']
  else if c.toNat = 0 then ['\\', '0']
  else if isUnseen c then '\\' :: 'u' :: '{' :: Nat.toDigits 16 c.toNat ++ ['}']
  else [c]

def quote (s : String) : List Char := '"' :: s.toList.flatMap quoteChar ++ ['"']

def quotedList (ss : List String) : String :=
  String.ofList ('[' :: List.intercalate [',', ' '] (ss.map quote) ++ [']'])

end GameTimeline.Text
