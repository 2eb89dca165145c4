namespace Outlining.Text

/-- Fills a column of `width` characters with blanks to the right of the text. -/
def column (width : Nat) (text : String) : String :=
  text ++ String.ofList (List.replicate (width - text.length) ' ')

/-- Puts a comma and a blank between the texts. -/
def commas (texts : List String) : String := String.intercalate ", " texts

def unlines (lines : List String) : String := String.join (lines.map (· ++ "\n"))

theorem length_column (width : Nat) (text : String) :
    (column width text).length = max width text.length := by
  simp [column]
  omega

end Outlining.Text
