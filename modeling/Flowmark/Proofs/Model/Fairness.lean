import Flowmark.Proofs.Model.Matching

namespace Flowmark

/-!
# Fairness of matchings

The rounds match the ports of one binding as if there were no others.  Where every producer can feed
every consumer they take turns, and the consumers that one producer feeds come in their order.
-/

namespace Endpoint

variable {test : Endpoint → Bool} {producer : Endpoint}

/-- Whether the port of an endpoint has a binding. -/
def hasBinding
    (binding : String)
    (endpoint : Endpoint) :
    Bool :=
  endpoint.port.binding = binding

/-- A producer and a consumer that it can feed pass a test both or neither. -/
def Respects
    (test : Endpoint → Bool) :
    Prop :=
  ∀ producer consumer : Endpoint, producer.canFeed consumer = true → test producer = test consumer

/-- A producer only feeds consumers with its binding. -/
theorem respects_hasBinding
    (binding : String) :
    Respects (hasBinding binding) := by
  intro producer consumer feeds
  rw [hasBinding, hasBinding, ((canFeed_iff producer consumer).mp feeds).2.2]

/-- A producer that passes takes the same consumer if only those that pass are free. -/
theorem takeFirst?_filter
    (respects : Respects test)
    (passes : test producer = true)
    (free : List Endpoint) :
    producer.takeFirst? (free.filter test) =
      (producer.takeFirst? free).map (Prod.map id (List.filter test)) := by
  induction free with
  | nil => rfl
  | cons consumer free inductionHypothesis =>
      cases feeds : producer.canFeed consumer with
      | true =>
          have consumerPasses : test consumer = true :=
            (respects producer consumer feeds).symm.trans passes
          rw [List.filter_cons_of_pos consumerPasses, takeFirst?, takeFirst?, if_pos feeds,
            if_pos feeds, Option.map_some, Prod.map_apply, id]
      | false =>
          have feedsNot : ¬ producer.canFeed consumer = true := by simp [feeds]
          rw [takeFirst?, if_neg feedsNot, Option.map_map]
          cases consumerPasses : test consumer with
          | true =>
              rw [List.filter_cons_of_pos consumerPasses, takeFirst?, if_neg feedsNot,
                inductionHypothesis, Option.map_map]
              congr 1
              funext result
              simp [consumerPasses]
          | false =>
              rw [List.filter_cons_of_neg (by simp [consumerPasses]), inductionHypothesis]
              congr 1
              funext result
              obtain ⟨found, left⟩ := result
              simp [consumerPasses]

/-- The consumer that is taken stands behind those that the producer cannot feed. -/
theorem exists_of_takeFirst?
    {found : Endpoint}
    {free left : List Endpoint}
    (taken : producer.takeFirst? free = some (found, left)) :
    ∃ before after,
      free = before ++ found :: after ∧
        left = before ++ after ∧
        producer.canFeed found = true ∧
        ∀ consumer ∈ before, producer.canFeed consumer = false := by
  induction free generalizing left with
  | nil => cases taken
  | cons consumer free inductionHypothesis =>
      rw [takeFirst?] at taken
      split at taken
      · rename_i feeds
        cases taken
        exact ⟨[], free, rfl, rfl, feeds, by simp⟩
      · rename_i feedsNot
        obtain ⟨⟨_, rest⟩, inner, same⟩ := Option.map_eq_some_iff.mp taken
        cases same
        obtain ⟨before, after, rfl, rfl, feeds, feedsNone⟩ := inductionHypothesis inner
        exact ⟨consumer :: before, after, rfl, rfl, feeds,
          List.forall_mem_cons.mpr ⟨by simpa using feedsNot, feedsNone⟩⟩

/-- A producer that does not pass takes none of the consumers that pass. -/
theorem filter_of_takeFirst?
    (respects : Respects test)
    (failsTest : test producer = false)
    {found : Endpoint}
    {free left : List Endpoint}
    (taken : producer.takeFirst? free = some (found, left)) :
    left.filter test = free.filter test := by
  obtain ⟨before, after, rfl, rfl, feeds, _⟩ := exists_of_takeFirst? taken
  have foundFails : test found = false := (respects producer found feeds).symm.trans failsTest
  rw [List.filter_append, List.filter_append, List.filter_cons_of_neg (by simp [foundFails])]

end Endpoint

namespace Matching

/-! ## Independence -/

/-- The pairs of producers that pass a test, and the free consumers that pass it. -/
def restrict
    (test : Endpoint → Bool)
    (matching : Matching) :
    Matching where
  pairs := matching.pairs.filter fun pair => test pair.1
  free := matching.free.filter test

variable {test : Endpoint → Bool}

/-- A round on the endpoints that pass a test is the round on all endpoints, restricted. -/
theorem round_filter
    (respects : Endpoint.Respects test)
    (producers free : List Endpoint) :
    round (producers.filter test) (free.filter test) = (round producers free).restrict test := by
  induction producers generalizing free with
  | nil => rfl
  | cons producer producers inductionHypothesis =>
      rw [round]
      cases passes : test producer with
      | true =>
          rw [List.filter_cons_of_pos passes, round, Endpoint.takeFirst?_filter respects passes]
          cases producer.takeFirst? free with
          | none => exact inductionHypothesis free
          | some result =>
              obtain ⟨consumer, left⟩ := result
              simp [inductionHypothesis, consPair, restrict, passes]
      | false =>
          rw [List.filter_cons_of_neg (by simp [passes])]
          cases taken : producer.takeFirst? free with
          | none => exact inductionHypothesis free
          | some result =>
              obtain ⟨consumer, left⟩ := result
              rw [← Endpoint.filter_of_takeFirst? respects passes taken]
              simp [inductionHypothesis, consPair, restrict, passes]

/-- A round without pairs leaves all consumers free. -/
theorem eq_of_round
    {producers free : List Endpoint}
    (noPair : (round producers free).pairs = []) :
    round producers free = { pairs := [], free := free } := by
  induction producers with
  | nil => rfl
  | cons producer producers inductionHypothesis =>
      unfold round at noPair ⊢
      cases taken : producer.takeFirst? free with
      | none =>
          rw [taken] at noPair
          exact inductionHypothesis noPair
      | some rest =>
          rw [taken] at noPair
          cases noPair

/-- The rounds end with the first that makes no pair. -/
theorem rounds_of_round
    {producers free : List Endpoint}
    (noPair : (round producers free).pairs = []) :
    rounds producers free = { pairs := [], free := free } := by
  rw [rounds, dif_neg (by simp [noPair]), eq_of_round noPair]

/-- The rounds on the endpoints that pass a test are those on all endpoints, restricted. -/
theorem rounds_filter
    (respects : Endpoint.Respects test)
    (producers free : List Endpoint) :
    rounds (producers.filter test) (free.filter test) = (rounds producers free).restrict test := by
  fun_induction rounds producers free with
  | case1 free first progress others inductionHypothesis =>
      have restricted : round (producers.filter test) (free.filter test) = first.restrict test :=
        round_filter respects producers free
      have shape :
          restrict test { others with pairs := first.pairs ++ others.pairs } =
            { others.restrict test with
              pairs := (first.restrict test).pairs ++ (others.restrict test).pairs } := by
        simp [restrict]
      rw [shape, ← inductionHypothesis]
      rw [← restricted]
      -- A round may match nothing that passes the test, and then the restricted rounds skip it.
      by_cases noPair : (round (producers.filter test) (free.filter test)).pairs = []
      · have sameFree : first.free.filter test = free.filter test :=
          congrArg Matching.free (restricted.symm.trans (eq_of_round noPair))
        rw [sameFree, noPair, List.nil_append]
      · have sameFree : first.free.filter test =
            (round (producers.filter test) (free.filter test)).free :=
          congrArg Matching.free restricted.symm
        rw [sameFree, rounds, dif_pos (List.length_pos_iff.mpr noPair)]
  | case2 free first noProgress =>
      have noPair : (round producers free).pairs = [] :=
        List.eq_nil_of_length_eq_zero (Nat.eq_zero_of_not_pos noProgress)
      have noneRestricted : (round (producers.filter test) (free.filter test)).pairs = [] := by
        rw [round_filter respects, restrict, noPair, List.filter_nil]
      rw [rounds_of_round noneRestricted, ← eq_of_round noneRestricted]
      exact round_filter respects producers free

/-! ## Turns -/

/-- In a round in which every producer can feed every consumer, each takes the next. -/
theorem round_of_canFeed
    {producers free : List Endpoint}
    (feeds : ∀ producer ∈ producers, ∀ consumer ∈ free, producer.canFeed consumer = true) :
    round producers free =
      { pairs := producers.zip free
        free := free.drop producers.length } := by
  induction producers generalizing free with
  | nil => rfl
  | cons producer producers inductionHypothesis =>
      obtain ⟨feedsAll, restFeed⟩ := List.forall_mem_cons.mp feeds
      cases free with
      | nil =>
          have noneLeft := @inductionHypothesis [] (by simp)
          rw [List.zip_nil_right, List.drop_nil] at noneLeft ⊢
          exact noneLeft
      | cons consumer free =>
          obtain ⟨feedsFirst, _⟩ := List.forall_mem_cons.mp feedsAll
          have restFeedRest :
              ∀ other ∈ producers, ∀ later ∈ free, other.canFeed later = true :=
            fun other isOther later isLater => restFeed other isOther later
              (List.mem_cons_of_mem _ isLater)
          have taken : producer.takeFirst? (consumer :: free) = some (consumer, free) :=
            if_pos feedsFirst
          rw [round, taken]
          exact congrArg (consPair (producer, consumer)) (inductionHypothesis restFeedRest)

/-- Where every producer can feed every consumer, the producers take turns. -/
theorem rounds_of_canFeed
    {producers free : List Endpoint}
    (feeds : ∀ producer ∈ producers, ∀ consumer ∈ free, producer.canFeed consumer = true)
    (position : Nat) :
    (rounds producers free).pairs[position]? =
      free[position]?.bind fun consumer =>
        producers[position % producers.length]?.map fun producer => (producer, consumer) := by
  fun_induction rounds producers free generalizing position with
  | case1 free first progress others inductionHypothesis =>
      have shape : first = ⟨producers.zip free, free.drop producers.length⟩ :=
        round_of_canFeed feeds
      -- A full round gives each producer one consumer, so the next round starts with the same one.
      have later : ∀ position, others.pairs[position]? =
          free[producers.length + position]?.bind fun consumer =>
            producers[position % producers.length]?.map fun producer => (producer, consumer) := by
        intro position
        rw [← List.getElem?_drop, inductionHypothesis, shape]
        intro producer isProducer consumer isFree
        rw [shape] at isFree
        exact feeds producer isProducer consumer (List.mem_of_mem_drop isFree)
      change (first.pairs ++ others.pairs)[position]? = _
      rw [shape, List.getElem?_append, List.length_zip]
      split
      · rename_i inRound
        have isProducer : position < producers.length := by omega
        have isConsumer : position < free.length := by omega
        have pair : (producers.zip free)[position]? =
            some (producers[position], free[position]) :=
          List.getElem?_zip_eq_some.mpr
            ⟨List.getElem?_eq_getElem isProducer, List.getElem?_eq_getElem isConsumer⟩
        rw [pair, List.getElem?_eq_getElem isConsumer, Nat.mod_eq_of_lt isProducer,
          List.getElem?_eq_getElem isProducer]
        rfl
      · rename_i behindRound
        rw [later]
        by_cases isConsumer : position < free.length
        · have behind : producers.length ≤ position := by omega
          rw [Nat.min_eq_left (by omega), Nat.add_sub_cancel' behind, ← Nat.mod_eq_sub_mod behind]
        · have noConsumer : free[position]? = none := List.getElem?_eq_none (by omega)
          have noneLater :
              free[producers.length + (position - min producers.length free.length)]? = none :=
            List.getElem?_eq_none (by omega)
          rw [noConsumer, noneLater]
          rfl
  | case2 free first noProgress =>
      have noPair : producers.zip free = [] := by
        have noneInRound := List.eq_nil_of_length_eq_zero (Nat.eq_zero_of_not_pos noProgress)
        rwa [show first = _ from round_of_canFeed feeds] at noneInRound
      rw [show first = _ from round_of_canFeed feeds]
      rcases List.zip_eq_nil_iff.mp noPair with rfl | rfl
      · simp
      · simp

/-! ## Order of consumers -/

/-- The consumers that a producer feeds, in the order of the pairs. -/
def sinksOf
    (matching : Matching)
    (producer : Endpoint) :
    List Endpoint :=
  (matching.pairs.filter fun pair => pair.1 = producer).map Prod.snd

/-- What a producer takes in a round, and what it can still take after it, is in order. -/
theorem sublist_round
    (producer : Endpoint)
    (producers free : List Endpoint) :
    ((round producers free).sinksOf producer ++
        (round producers free).free.filter producer.canFeed).Sublist
      (free.filter producer.canFeed) := by
  induction producers generalizing free with
  | nil => exact .refl _
  | cons first producers inductionHypothesis =>
      rw [round]
      cases taken : first.takeFirst? free with
      | none => exact inductionHypothesis free
      | some result =>
          obtain ⟨consumer, left⟩ := result
          obtain ⟨before, after, rfl, rfl, feeds, feedsNone⟩ := Endpoint.exists_of_takeFirst? taken
          have restSublist := inductionHypothesis (before ++ after)
          by_cases isFirst : first = producer
          · -- What the producer takes later stands behind what it takes here.
            subst isFirst
            have noneBefore : before.filter first.canFeed = [] :=
              List.filter_eq_nil_iff.mpr fun other isOther => by simp [feedsNone other isOther]
            rw [List.filter_append, noneBefore, List.nil_append] at restSublist
            rw [List.filter_append, noneBefore, List.nil_append, List.filter_cons_of_pos feeds]
            simpa [consPair, sinksOf] using restSublist.cons_cons consumer
          · have kept : (before ++ after).Sublist (before ++ consumer :: after) :=
              (List.Sublist.refl before).append (List.sublist_cons_self consumer after)
            simpa [consPair, sinksOf, isFirst] using restSublist.trans (kept.filter _)

/-- The consumers that a producer feeds come in the order of all consumers. -/
theorem sublist_rounds
    (producer : Endpoint)
    (producers free : List Endpoint) :
    ((rounds producers free).sinksOf producer).Sublist (free.filter producer.canFeed) := by
  fun_induction rounds producers free with
  | case1 free first progress others inductionHypothesis =>
      have firstSublist : (first.sinksOf producer ++ first.free.filter producer.canFeed).Sublist
          (free.filter producer.canFeed) := sublist_round producer producers free
      have shape : sinksOf { others with pairs := first.pairs ++ others.pairs } producer =
          first.sinksOf producer ++ others.sinksOf producer := by
        simp [sinksOf]
      rw [shape]
      exact ((List.Sublist.refl _).append inductionHypothesis).trans firstSublist
  | case2 free first noProgress =>
      exact (List.sublist_append_left _ _).trans (sublist_round producer producers free)

end Matching

end Flowmark
