import Switchboard.Text.Space

namespace Switchboard

inductive NameFault where
  | empty
  | surroundingSpace
  | controlCharacter
deriving DecidableEq

def NameFault.reason : NameFault → String
  | empty => "name must not be empty"
  | surroundingSpace => "name must not have leading or trailing whitespace"
  | controlCharacter => "name must not contain control characters"

def nameFault? (name : String) : Option NameFault :=
  let cs := name.toList
  if cs.isEmpty then some .empty
  else if Text.trimChars cs != cs then some .surroundingSpace
  else if cs.any Text.isControl then some .controlCharacter
  else none

end Switchboard
