import PlaybookEngine.Json.Basic
import PlaybookEngine.Playbook.Basic

namespace PlaybookEngine.Reducer

/-- The sum of no numbers is minus zero, the neutral element of addition. -/
def sumOf (xs : List Binary64) : Binary64 := xs.foldl Binary64.add (.finite (.zero true))

def meanOf (xs : List Binary64) : Binary64 := (sumOf xs).div (.ofNat xs.length)

/-- None for no numbers. -/
def reduce? (r : Reducer) (xs : List Binary64) : Option Binary64 :=
  if xs = [] then none
  else match r with
    | .mean => some (meanOf xs)
    | .sum => some (sumOf xs)
    | .min => some (xs.foldl Binary64.min (.inf false))
    | .max => some (xs.foldl Binary64.max (.inf true))

end PlaybookEngine.Reducer
