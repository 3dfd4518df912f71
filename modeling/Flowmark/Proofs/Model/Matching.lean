import Flowmark.Model.Matching

namespace Flowmark

/-!
# Matchings

Every pair of a matching can be made, every consumer is taken at most once, and no further pair can
be made when the rounds end.
-/

namespace Endpoint

/-- The first consumer that a producer can feed is taken out of the free ones. -/
theorem takeFirst?_eq_some
    {producer found : Endpoint}
    {free left : List Endpoint}
    (taken : producer.takeFirst? free = some (found, left)) :
    found ∈ free ∧ producer.canFeed found = true ∧ left = free.erase found := by
  induction free generalizing left with
  | nil => simp [takeFirst?] at taken
  | cons consumer free inductionHypothesis =>
      unfold takeFirst? at taken
      split at taken
      · rename_i feeds
        cases taken
        exact ⟨by simp, feeds, by simp⟩
      · rename_i feedsNot
        simp only [Option.map_eq_some_iff, Prod.exists, Prod.mk.injEq] at taken
        obtain ⟨later, rest, inner, rfl, rfl⟩ := taken
        obtain ⟨member, feeds, restShape⟩ := inductionHypothesis inner
        have different : consumer ≠ later := by
          rintro rfl
          exact feedsNot feeds
        refine ⟨List.mem_cons_of_mem _ member, feeds, ?_⟩
        rw [List.erase_cons_tail (by simpa using different), restShape]

/-- Where a producer takes nothing, it can feed none of the free consumers. -/
theorem takeFirst?_eq_none
    {producer : Endpoint}
    {free : List Endpoint}
    (taken : producer.takeFirst? free = none) :
    ∀ consumer ∈ free, producer.canFeed consumer = false := by
  induction free with
  | nil => simp
  | cons consumer free inductionHypothesis =>
      unfold takeFirst? at taken
      split at taken
      · cases taken
      · rename_i feedsNot
        rw [Option.map_eq_none_iff] at taken
        exact List.forall_mem_cons.mpr ⟨by simpa using feedsNot, inductionHypothesis taken⟩

/-- When a producer can feed a consumer. -/
theorem canFeed_iff
    (producer consumer : Endpoint) :
    producer.canFeed consumer = true ↔
      producer.side ≠ consumer.side ∧
        ¬ (producer.synthesized = true ∧ consumer.synthesized = true) ∧
        producer.port.binding = consumer.port.binding := by
  unfold canFeed
  cases producer.synthesized <;> cases consumer.synthesized <;> simp

end Endpoint

namespace Matching

/-- The consumers that are taken, in the order of the pairs. -/
def sinks
    (matching : Matching) :
    List Endpoint :=
  matching.pairs.map Prod.snd

/-- The pairs of a matching can be made, and what they leave of the consumers is free. -/
structure Sound
    (producers consumers : List Endpoint)
    (matching : Matching) :
    Prop where
  pairs : ∀ producer consumer, (producer, consumer) ∈ matching.pairs →
    producer ∈ producers ∧ consumer ∈ consumers ∧ producer.canFeed consumer = true
  once : matching.sinks.Nodup
  free : matching.free = consumers.filter fun consumer => consumer ∉ matching.sinks

/-- Only consumers are taken. -/
theorem Sound.sink_mem
    {producers consumers : List Endpoint}
    {matching : Matching}
    (sound : Sound producers consumers matching)
    {consumer : Endpoint}
    (isSink : consumer ∈ matching.sinks) :
    consumer ∈ consumers := by
  obtain ⟨⟨producer, _⟩, inPairs, rfl⟩ := List.mem_map.mp isSink
  exact (sound.pairs producer _ inPairs).2.1

/-- More producers leave the pairs of a matching possible. -/
theorem Sound.consProducer
    {producers consumers : List Endpoint}
    {matching : Matching}
    (sound : Sound producers consumers matching)
    (producer : Endpoint) :
    Sound (producer :: producers) consumers matching where
  pairs := by
    intro other consumer inPairs
    obtain ⟨isProducer, isConsumer, feeds⟩ := sound.pairs other consumer inPairs
    exact ⟨List.mem_cons_of_mem _ isProducer, isConsumer, feeds⟩
  once := sound.once
  free := sound.free

/-- A pair is put in front of a matching of the other consumers. -/
theorem Sound.consPair
    {producers consumers : List Endpoint}
    {matching : Matching}
    {producer taken : Endpoint}
    (distinct : consumers.Nodup)
    (sound : Sound producers (consumers.erase taken) matching)
    (isProducer : producer ∈ producers)
    (isConsumer : taken ∈ consumers)
    (feeds : producer.canFeed taken = true) :
    Sound producers consumers (matching.consPair (producer, taken)) where
  pairs := by
    intro other consumer inPairs
    rcases List.mem_cons.mp inPairs with isHead | inRest
    · cases isHead
      exact ⟨isProducer, isConsumer, feeds⟩
    · obtain ⟨otherProducer, otherConsumer, canFeed⟩ := sound.pairs other consumer inRest
      exact ⟨otherProducer, List.mem_of_mem_erase otherConsumer, canFeed⟩
  once := by
    refine List.nodup_cons.mpr ⟨?_, sound.once⟩
    intro takenAgain
    exact (distinct.mem_erase_iff.mp (sound.sink_mem takenAgain)).1 rfl
  free := by
    have sinksShape : sinks (matching.consPair (producer, taken)) = taken :: matching.sinks := rfl
    refine sound.free.trans ?_
    rw [sinksShape]
    generalize matching.sinks = others
    rw [distinct.erase_eq_filter, List.filter_filter]
    apply List.filter_congr
    intro consumer _
    by_cases isTaken : consumer = taken <;> simp [isTaken]

/-- A matching is followed by one of the consumers that it leaves free. -/
theorem Sound.append
    {producers consumers : List Endpoint}
    {first others : Matching}
    (firstSound : Sound producers consumers first)
    (othersSound : Sound producers first.free others) :
    Sound producers consumers { others with pairs := first.pairs ++ others.pairs } := by
  have sinksShape :
      sinks { others with pairs := first.pairs ++ others.pairs } = first.sinks ++ others.sinks :=
    List.map_append
  have isFree : ∀ consumer,
      consumer ∈ first.free ↔ consumer ∈ consumers ∧ consumer ∉ first.sinks := by
    intro consumer
    rw [firstSound.free, List.mem_filter, decide_eq_true_eq]
  refine ⟨?_, ?_, ?_⟩
  · intro producer consumer inPairs
    rcases List.mem_append.mp inPairs with inFirst | inOthers
    · exact firstSound.pairs producer consumer inFirst
    · obtain ⟨isProducer, isConsumer, feeds⟩ := othersSound.pairs producer consumer inOthers
      exact ⟨isProducer, ((isFree consumer).mp isConsumer).1, feeds⟩
  · rw [sinksShape, List.nodup_append]
    refine ⟨firstSound.once, othersSound.once, ?_⟩
    rintro consumer inFirst _ inOthers rfl
    exact ((isFree consumer).mp (othersSound.sink_mem inOthers)).2 inFirst
  · rw [sinksShape]
    refine othersSound.free.trans ?_
    generalize others.sinks = later
    rw [firstSound.free, List.filter_filter]
    apply List.filter_congr
    intro consumer _
    simp [Bool.and_comm]

/-- The pairs of one round can be made. -/
theorem round_sound
    (producers : List Endpoint)
    {free : List Endpoint}
    (distinct : free.Nodup) :
    Sound producers free (round producers free) := by
  induction producers generalizing free with
  | nil =>
      refine ⟨by simp [round], by simp [round, sinks], ?_⟩
      exact (List.filter_eq_self.mpr (by simp [round, sinks])).symm
  | cons producer producers inductionHypothesis =>
      unfold round
      split
      · exact (inductionHypothesis distinct).consProducer producer
      · rename_i taken left isTaken
        obtain ⟨member, feeds, rfl⟩ := Endpoint.takeFirst?_eq_some isTaken
        have sound := (inductionHypothesis (distinct.erase taken)).consProducer producer
        exact sound.consPair distinct List.mem_cons_self member feeds

/-- A round without pairs leaves nothing to match. -/
theorem not_canFeed_of_round
    {producers free : List Endpoint}
    (noPair : (round producers free).pairs = []) :
    ∀ producer ∈ producers, ∀ consumer ∈ free, producer.canFeed consumer = false := by
  induction producers with
  | nil => simp
  | cons producer producers inductionHypothesis =>
      unfold round at noPair
      split at noPair
      · rename_i notTaken
        exact List.forall_mem_cons.mpr
          ⟨Endpoint.takeFirst?_eq_none notTaken, inductionHypothesis noPair⟩
      · simp [consPair] at noPair

/-- Where no producer can feed any consumer, every consumer stays free. -/
theorem rounds_of_not_canFeed
    {producers free : List Endpoint}
    (apart : ∀ producer ∈ producers, ∀ consumer ∈ free, producer.canFeed consumer = false) :
    rounds producers free = { pairs := [], free := free } := by
  have noRound : round producers free = { pairs := [], free := free } := by
    induction producers with
    | nil => rfl
    | cons producer producers inductionHypothesis =>
        obtain ⟨feedsNone, restFeedNone⟩ := List.forall_mem_cons.mp apart
        have notTaken : producer.takeFirst? free = none := by
          cases isTaken : producer.takeFirst? free with
          | none => rfl
          | some result =>
              obtain ⟨member, feeds, _⟩ := Endpoint.takeFirst?_eq_some isTaken
              rw [feedsNone _ member] at feeds
              cases feeds
        rw [round, notTaken]
        exact inductionHypothesis restFeedNone
  rw [rounds, noRound]
  rfl

/-- The rounds make pairs that can be made, and they end only where none is left to be made. -/
theorem rounds_sound
    (producers : List Endpoint)
    {consumers : List Endpoint}
    (distinct : consumers.Nodup) :
    Sound producers consumers (rounds producers consumers) ∧
      ∀ producer ∈ producers, ∀ consumer ∈ (rounds producers consumers).free,
        producer.canFeed consumer = false := by
  fun_induction rounds producers consumers with
  | case1 free first progress others inductionHypothesis =>
      have firstSound : Sound producers free first := round_sound producers distinct
      have freeDistinct : first.free.Nodup := by
        rw [firstSound.free]
        exact distinct.filter _
      obtain ⟨othersSound, maximal⟩ := inductionHypothesis freeDistinct
      exact ⟨firstSound.append othersSound, maximal⟩
  | case2 free first noProgress =>
      have noPair : first.pairs = [] :=
        List.eq_nil_of_length_eq_zero (Nat.eq_zero_of_not_pos noProgress)
      have sound : Sound producers free first := round_sound producers distinct
      refine ⟨sound, ?_⟩
      intro producer isProducer consumer isFree
      rw [sound.free] at isFree
      exact not_canFeed_of_round noPair producer isProducer consumer (List.mem_filter.mp isFree).1

end Matching

end Flowmark
