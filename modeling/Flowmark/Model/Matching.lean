import Flowmark.Model.Records

namespace Flowmark

/-! # Matching producers with consumers

Within a scope, producers are matched with consumers of the same binding.  The matching goes in
rounds: in each round every producer in turn takes the first free consumer that it can feed.
Rounds are repeated until one makes no pair, so that a producer can feed several consumers.
-/

/-- The member of a scope to which an endpoint belongs. -/
inductive Side where
  /-- The scope itself. -/
  | own
  /-- The child at a position among the children. -/
  | child (position : Nat)
  deriving Repr, DecidableEq

/-- A port as a producer or a consumer within a scope. -/
structure Endpoint where
  port : Port
  side : Side
  synthesized : Bool
  deriving Repr, DecidableEq

namespace Endpoint

/-- Whether the endpoint belongs to a child of the scope. -/
def isInner
    (endpoint : Endpoint) :
    Bool :=
  endpoint.side ≠ .own

/--
A producer can feed a consumer with the same binding that belongs to another member of the scope,
unless both belong to synthesized children.
-/
def canFeed
    (producer consumer : Endpoint) :
    Bool :=
  producer.side ≠ consumer.side &&
    !(producer.synthesized && consumer.synthesized) &&
    producer.port.binding = consumer.port.binding

/-- Take the first consumer that a producer can feed out of the free ones. -/
def takeFirst?
    (producer : Endpoint) :
    List Endpoint → Option (Endpoint × List Endpoint)
  | [] => none
  | consumer :: free =>
      if producer.canFeed consumer then
        some (consumer, free)
      else
        (producer.takeFirst? free).map fun (found, left) => (found, consumer :: left)

/-- Taking a consumer leaves one consumer less. -/
theorem length_of_takeFirst?
    {producer found : Endpoint}
    {free left : List Endpoint}
    (taken : producer.takeFirst? free = some (found, left)) :
    left.length + 1 = free.length := by
  induction free generalizing left with
  | nil => simp [takeFirst?] at taken
  | cons consumer free inductionHypothesis =>
      unfold takeFirst? at taken
      split at taken
      · simp only [Option.some.injEq, Prod.mk.injEq] at taken
        obtain ⟨_, rfl⟩ := taken
        rfl
      · simp only [Option.map_eq_some_iff, Prod.exists, Prod.mk.injEq] at taken
        obtain ⟨_, rest, inner, rfl, rfl⟩ := taken
        simp [inductionHypothesis inner]

end Endpoint

/-- The pairs of producers and consumers found so far, and the consumers that are still free. -/
structure Matching where
  pairs : List (Endpoint × Endpoint)
  free : List Endpoint
  deriving Repr, DecidableEq

namespace Matching

/-- Put a pair in front. -/
def consPair
    (pair : Endpoint × Endpoint)
    (matching : Matching) :
    Matching :=
  { matching with pairs := pair :: matching.pairs }

/-- One round: every producer in turn takes at most one consumer. -/
def round : List Endpoint → List Endpoint → Matching
  | [], free =>
      { pairs := []
        free := free }
  | producer :: producers, free =>
      match producer.takeFirst? free with
      | none => round producers free
      | some (consumer, left) => (round producers left).consPair (producer, consumer)

/-- Every pair of a round uses up one consumer. -/
theorem length_round
    (producers free : List Endpoint) :
    (round producers free).pairs.length + (round producers free).free.length = free.length := by
  induction producers generalizing free with
  | nil => simp [round]
  | cons producer producers inductionHypothesis =>
      unfold round
      split
      · exact inductionHypothesis free
      · rename_i consumer left taken
        have oneLess := Endpoint.length_of_takeFirst? taken
        have others := inductionHypothesis left
        simp only [consPair, List.length_cons]
        omega

/-- All rounds, up to the first that makes no pair. -/
def rounds
    (producers free : List Endpoint) :
    Matching :=
  let first := round producers free
  if _progress : 0 < first.pairs.length then
    let others := rounds producers first.free
    { others with pairs := first.pairs ++ others.pairs }
  else
    first
  termination_by free.length
  decreasing_by
    have progress : 0 < (round producers free).pairs.length := _progress
    have consumed := length_round producers free
    change (round producers free).free.length < free.length
    omega

/-- Whether a producer feeds some consumer. -/
def feeds
    (matching : Matching)
    (producer : Endpoint) :
    Bool :=
  matching.pairs.any fun pair => pair.1 = producer

end Matching

end Flowmark
