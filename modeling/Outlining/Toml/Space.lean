import Outlining.Text.Reader

namespace Outlining.Toml

open Outlining.Text

def isBlank (character : Char) : Bool := character == ' ' || character == '\t'

/-- A character that may stand in a comment or in a text: a tab, or no control character. -/
def isPlain (character : Char) : Bool :=
  character == '\t' || (0x20 ≤ character.toNat && character.toNat ≠ 0x7F)

def blanks : Reader Unit := do let _ ← Reader.span isBlank

def lineBreak : Reader Unit := Reader.literal ['\n'] <|> Reader.literal ['\r', '\n']

def comment : Reader Unit := do
  let _ ← Reader.char '#'
  let _ ← Reader.span isPlain

def space : Reader Unit := do
  let _ ← Reader.many ((do let _ ← Reader.satisfy isBlank) <|> lineBreak <|> comment)

/-- What may stand after the content of a line, and the end of the line. -/
def lineEnd : Reader Unit := do
  blanks
  let _ ← Reader.optionally comment
  lineBreak <|> Reader.atEnd

end Outlining.Toml
