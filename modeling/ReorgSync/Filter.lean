import ReorgSync.Log
import ReorgSync.Text.Fold

namespace ReorgSync

/-! Filters select logs by the contract that wrote them and by the values at
their topic positions. -/

/-- Logs of any of the `addresses`, where none listed admits every contract.
`topics` lists for each position the values accepted there; an empty list
admits any value, and also a log that has no topic at that position. -/
structure Filter where
  addresses : List String := []
  topics : List (List String) := []
deriving DecidableEq, Repr

namespace Filter

/-! ## Building filters -/

def forAddress (address : String) : Filter where
  addresses := [address]

def withAddress (filter : Filter) (address : String) : Filter :=
  { filter with addresses := filter.addresses ++ [address] }

/-- Accept one more value at a topic position; positions before it that were
not mentioned yet admit any value. -/
def withTopic (filter : Filter) (position : Nat) (value : String) : Filter :=
  let missing := position + 1 - filter.topics.length
  let padded := filter.topics ++ List.replicate missing []
  { filter with topics := padded.modify position (· ++ [value]) }

def hasAddresses (filter : Filter) : Bool :=
  !filter.addresses.isEmpty

/-! ## Selecting logs -/

/-- Whether one of the accepted values is the given one. -/
def accepts (accepted : List String) (value : String) : Bool :=
  accepted.any (Text.sameFolded · value)

/-- Compare topics position by position. A position that names values needs a
topic of the log to compare with. -/
def topicsMatch : (accepted : List (List String)) → (topics : List String) → Bool
  | [], _ => true
  | values :: rest, topics =>
      (values.isEmpty || (topics.head?.map (accepts values)).getD false) &&
        topicsMatch rest topics.tail

/-- Whether a filter selects a log. The case of hexadecimal letters does not
count. -/
def matchesLog (filter : Filter) (log : Log) : Bool :=
  (filter.addresses.isEmpty || accepts filter.addresses log.address) &&
    topicsMatch filter.topics log.topics

/-! ## Normal form -/

/-- Put a value into its place among values in ascending order; one that is
already there is not put in again. -/
def insertValue (value : String) : List String → List String
  | [] => [value]
  | other :: rest =>
      if value < other then value :: other :: rest
      else if value = other then other :: rest
      else other :: insertValue value rest

/-- Values in lower case and ascending order, without repeats. -/
def normalValues (values : List String) : List String :=
  (values.map Text.foldCase).foldr insertValue []

/-- Leave out the topic positions at the end that admit any value. -/
def dropTrailingEmpty (topics : List (List String)) : List (List String) :=
  (topics.reverse.dropWhile List.isEmpty).reverse

/-- The normal form of a filter: values in normal form, no trailing positions
that admit any value. -/
def normalized (filter : Filter) : Filter where
  addresses := normalValues filter.addresses
  topics := dropTrailingEmpty (filter.topics.map normalValues)

/-- Case, order, repeats and trailing empty positions do not survive. -/
example :
    normalized ⟨["0xB", "0xa", "0xb"], [[], ["0xC"], []]⟩ =
      ⟨["0xa", "0xb"], [[], ["0xc"]]⟩ := by
  decide

end Filter

end ReorgSync
