/-!
# Pieces between separators
-/

namespace TimingAudit.Text

/-- The pieces of a list between the occurrences of a separator: one more than there are
separators. -/
def pieces {α : Type} [DecidableEq α] (separator : α) : List α → List (List α)
  | [] => [[]]
  | c :: cs =>
    if c = separator then [] :: pieces separator cs
    else
      match pieces separator cs with
      | [] => [[c]]
      | piece :: rest => (c :: piece) :: rest

/-- The parts of a path between its slashes. -/
def pathParts (path : String) : List String := (pieces '/' path.toList).map String.ofList

end TimingAudit.Text
