/-! A reader takes characters from the front of a text. It has a result and a rest, or it fails; of
two readers the second is tried where the first fails. -/
namespace Outlining.Text

/-- Takes characters from the front of a text. -/
abbrev Reader (α : Type) := StateT (List Char) Option α

namespace Reader

def satisfy (accepts : Char → Bool) : Reader Char
  | [] => none
  | character :: rest => if accepts character then some (character, rest) else none

def char (expected : Char) : Reader Char := satisfy (· == expected)

def span (accepts : Char → Bool) : Reader (List Char) :=
  fun text => some (text.takeWhile accepts, text.dropWhile accepts)

def literal (expected : List Char) : Reader Unit :=
  fun text =>
    if expected.isPrefixOf text then some ((), text.drop expected.length) else none

def atEnd : Reader Unit
  | [] => some ((), [])
  | _ => none

/-- Succeeds before the end of the text, and takes nothing. -/
def notAtEnd : Reader Unit
  | [] => none
  | text => some ((), text)

/-- The results of a reader for as long as it succeeds, at most once for each item of `bound`. -/
def repeatWithin {α : Type} (reader : Reader α) :
    List Char → List Char → List α × List Char
  | [], text => ([], text)
  | _ :: bound, text =>
    match reader text with
    | none => ([], text)
    | some (result, rest) =>
      let (results, final) := repeatWithin reader bound rest
      (result :: results, final)

/-- The results of a reader for as long as it succeeds. A reader that takes at least one character
each time succeeds no more often than there are characters. -/
def many {α : Type} (reader : Reader α) : Reader (List α) :=
  fun text => some (repeatWithin reader text text)

def optionally {α : Type} (reader : Reader α) : Reader (Option α) :=
  (do return some (← reader)) <|> pure none

def times {α : Type} (reader : Reader α) : Nat → Reader (List α)
  | 0 => pure []
  | count + 1 => do return (← reader) :: (← times reader count)

/-- One or more results of a reader, with separators between them. -/
def separated {α β : Type} (reader : Reader α) (separator : Reader β) : Reader (List α) := do
  let first ← reader
  return first :: (← many (do let _ ← separator; reader))

end Reader

end Outlining.Text
