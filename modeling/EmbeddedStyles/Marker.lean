import EmbeddedStyles.Text.Class

namespace EmbeddedStyles.Marker

def backtick : Char := '\x60'

def isTagChar (c : Char) : Bool :=
  'a' ≤ c && c ≤ 'z' || c.isDigit

-- What may follow the word `styled` in a marker, the backtick included.
def startsAccess : List Char → Bool
  | '.' :: cs =>
    !(cs.takeWhile isTagChar).isEmpty && (cs.dropWhile isTagChar).head? = some backtick
  | '(' :: cs =>
    !(cs.takeWhile (· ≠ ')')).isEmpty &&
      [')', backtick].isPrefixOf (cs.dropWhile (· ≠ ')'))
  | _ => false

-- Whether a marker starts with the first character.
def startsMarker : List Char → Bool
  | 'c' :: 's' :: 's' :: cs => cs.head? = some backtick
  | 's' :: 't' :: 'y' :: 'l' :: 'e' :: 'd' :: cs => startsAccess cs
  | _ => false

-- Whether a marker starts anywhere. `inWord` tells that the character before is part of a word.
def search (inWord : Bool) : List Char → Bool
  | [] => false
  | c :: cs => !inWord && startsMarker (c :: cs) || search (Text.isWord c) cs

-- A marker is `css`, `styled.` and a name, or `styled(` and an argument and `)`, right before a
-- backtick and not in the middle of a word.
def hasMarker (source : String) : Bool :=
  search false source.toList

end EmbeddedStyles.Marker
