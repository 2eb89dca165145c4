namespace Outlining

/-- The last step that a pipeline has begun. -/
inductive Phase where
  | created
  | surveyed
  | selected
  | recorded
  | built
  | rewritten
deriving DecidableEq, Inhabited

namespace Phase

def name : Phase → String
  | .created => "Created"
  | .surveyed => "CandidatesIdentified"
  | .selected => "MethodsSelected"
  | .recorded => "SitesRecorded"
  | .built => "HolderBuilt"
  | .rewritten => "Rewritten"

def rank : Phase → Nat
  | .created => 0
  | .surveyed => 1
  | .selected => 2
  | .recorded => 3
  | .built => 4
  | .rewritten => 5

theorem rank_injective {left right : Phase} (same : left.rank = right.rank) : left = right := by
  cases left <;> cases right <;> first | rfl | cases same

end Phase

end Outlining
