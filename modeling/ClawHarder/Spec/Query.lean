import ClawHarder.Spec.Injection
import ClawHarder.Spec.Manager

/-!
# Querying facts

`queryFacts` of `manifest-manager.ts`: the candidates come from an index when the
filter names a type or an identity key, and the other fields are checked one by one.
-/

namespace ClawHarder

open Injection (compareConfidence sortBy)

variable {N : Type}

/-- `filter.state`, one state or several. -/
inductive StateFilter where
  | one (state : FactState)
  | several (states : List FactState)

structure QueryFactsFilter (N : Type) where
  type : Option String := none
  state : Option StateFilter := none
  identityKey : Option String := none
  source : Option String := none
  minConfidence : Option N := none
  limit : Option Limit := none

/-- A text that counts as true: a given one that is not empty. -/
def given (text : Option String) : Option String := text.filter (· ≠ "")

/-- `if (limit)` -/
def Limit.truthy : Limit → Bool
  | .finite q => q ≠ 0
  | .nan => false
  | .infinity | .negInfinity => true

namespace QueryFactsFilter

/-- The states of the filter; by default, those of live facts. -/
def states (filter : QueryFactsFilter N) : List FactState :=
  match filter.state with
  | some (.one state) => [state]
  | some (.several states) => states
  | none => [.active, .conflicted]

variable [JsNumber N]

/-- The checks of the loop over the candidates. -/
def admits (filter : QueryFactsFilter N) (fact : Fact N) : Bool :=
  filter.states.contains fact.state &&
    (given filter.source).all (fun source => fact.source = source) &&
    filter.minConfidence.all (fun least => ¬ fact.confidence < least) &&
    (given filter.identityKey).all (fun key => fact.identityKey = key)

end QueryFactsFilter

/-- The comparator of `queryFacts`. -/
def compareQueried [JsNumber N] (a b : Fact N) : Ordering :=
  if b.confidence ≠ a.confidence then compareConfidence b.confidence a.confidence
  else compare a.discoveryIndex b.discoveryIndex

/-- `limit ? results.slice(0, limit) : results` -/
def limited {α : Type} (limit : Option Limit) (results : List α) : List α :=
  match limit with
  | some stop => if stop.truthy then sliceTo stop results else results
  | none => results

namespace Engine

/-- The ids that the loop of `queryFacts` goes over. -/
def candidates (filter : QueryFactsFilter N) (s : Engine N) : List FactId :=
  match given filter.type, given filter.identityKey with
  | some type, _ => s.indexes.factsByType.bucket type
  | none, some key => s.indexes.factsByIdentityKey.bucket key
  | none, none => s.working.facts.keys

def queryFacts [JsNumber N] (filter : QueryFactsFilter N) (s : Engine N) : List (Fact N) :=
  let results := (s.candidates filter).filterMap fun fid =>
    (s.working.facts.get? fid).filter filter.admits
  limited filter.limit (sortBy compareQueried results)

end Engine

end ClawHarder
