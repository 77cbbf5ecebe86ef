import HornQuery.Term

/-!
# Which goals take part

The goals of a rule body or a query are joined, all of them or only the first.
-/

namespace HornQuery

/-- Which goals of a list take part. -/
inductive BodyPolicy where
  /-- All of them. -/
  | joinAll
  /-- The first one, if any. -/
  | firstClause
deriving DecidableEq, Repr

/-- The goals that take part. -/
def BodyPolicy.select (policy : BodyPolicy) (goals : List Goal) : List Goal :=
  match policy with
  | .joinAll => goals
  | .firstClause => goals.take 1

/-- Only the first goal takes part exactly if the list is cut to one goal and all take part. -/
theorem BodyPolicy.select_firstClause (goals : List Goal) :
    BodyPolicy.firstClause.select goals = BodyPolicy.joinAll.select (goals.take 1) := rfl

/-- Goals are selected by their places, so it does not matter what they are. -/
theorem BodyPolicy.select_map (policy : BodyPolicy) (f : Goal → Goal) (goals : List Goal) :
    policy.select (goals.map f) = (policy.select goals).map f := by
  cases policy with
  | joinAll => rfl
  | firstClause => exact List.map_take.symm

end HornQuery
