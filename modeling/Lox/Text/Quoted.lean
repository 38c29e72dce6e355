import Lox.Text.Hex
import Lox.Text.Hidden

namespace Lox.Text

def escaped (quote c : Char) : List Char :=
  if c = quote || c = '\\' then ['\\', c]
  else if c = '\n' then ['\\', 'n']
  else if c = '\r' then ['\\', 'r']
  else if c = '\t' then ['\\', 't']
  else if hidden c then
    if c.toNat < 0x100 then '\\' :: 'x' :: hex c.toNat 2
    else if c.toNat < 0x10000 then '\\' :: 'u' :: hex c.toNat 4
    else '\\' :: 'U' :: hex c.toNat 8
  else [c]

def quoted (text : List Char) : List Char :=
  let quote := if text.contains '\x27' && !text.contains '\x22' then '\x22' else '\x27'
  quote :: (text.flatMap (escaped quote) ++ [quote])

end Lox.Text
