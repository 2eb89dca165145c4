namespace Outlining.Document

inductive Node where
  | null
  | bool (value : Bool)
  | int (value : Int)
  /-- A number that is not written as an integer. Nothing here depends on its value. -/
  | real
  | text (value : String)
  /-- A date, a time, or both. Nothing here depends on its value. -/
  | moment
  | list (items : List Node)
  | table (entries : List (String × Node))
deriving Inhabited

/-- The first entry with a name. -/
def member? (name : String) : List (String × Node) → Option Node
  | [] => none
  | (known, node) :: rest => if known = name then some node else member? name rest

theorem sizeOf_member? {name : String} {entries : List (String × Node)} {node : Node}
    (found : member? name entries = some node) : sizeOf node < sizeOf entries := by
  induction entries with
  | nil => simp [member?] at found
  | cons first rest inductionHypothesis =>
    obtain ⟨known, value⟩ := first
    rw [member?] at found
    split at found
    · cases found
      simp
      omega
    · have smaller := inductionHypothesis found
      simp
      omega

end Outlining.Document
