import Flowmark.Proofs.Model.Position
import Flowmark.Proofs.Model.Relocation
import Flowmark.Proofs.Outline.Pending

namespace Flowmark

/-!
# Ports handed over to calls

A call takes over the pending ports of the innermost open scope.  These are the ports that the
assembly of the model hands to the call, in the same order, and the program of the call owns and
shows them.
-/

/-- A port is that of a pending declaration, with a program as its owner. -/
structure Port.IsHanded
    (owner : ProgramId)
    (pending : Statement × Direction)
    (port : Port) :
    Prop where
  notResult : pending.1.tag ≠ .result
  content : port = .ofStatement port.id owner pending.1 pending.2

namespace Port

variable {owner : ProgramId} {pending : List (Statement × Direction)} {handed : List Port}

/-- Ports that are handed over are the inputs of the declarations, where they are inputs. -/
theorem map_mark_inputs
    (areHanded : List.Forall₂ (IsHanded owner) pending handed) :
    (handed.filter isInput).map mark =
      (Outline.portsOfPart (some .input) pending).map Statement.id := by
  induction areHanded with
  | nil => rfl
  | @cons declared port pending handed first others inductionHypothesis =>
      obtain ⟨declaration, direction⟩ := declared
      obtain ⟨notResult, content⟩ := first
      rw [content, Outline.portsOfPart_cons]
      cases direction <;> simp [isInput, ofStatement, notResult, inductionHypothesis]

/-- Ports that are handed over are the outputs of the declarations, where they are outputs. -/
theorem map_mark_plainOutputs
    (areHanded : List.Forall₂ (IsHanded owner) pending handed) :
    (handed.filter isPlainOutput).map mark =
      (Outline.portsOfPart (some .output) pending).map Statement.id := by
  induction areHanded with
  | nil => rfl
  | @cons declared port pending handed first others inductionHypothesis =>
      obtain ⟨declaration, direction⟩ := declared
      obtain ⟨notResult, content⟩ := first
      rw [content, Outline.portsOfPart_cons]
      cases direction <;>
        simp [isPlainOutput, isInput, isResult, ofStatement, notResult, inductionHypothesis]

/-- A program owns the ports that are handed over to it. -/
theorem owner_of_mem_handed
    (areHanded : List.Forall₂ (IsHanded owner) pending handed)
    {port : Port}
    (isHanded : port ∈ handed) :
    port.owner = owner := by
  induction areHanded with
  | nil => cases isHanded
  | cons first _ inductionHypothesis =>
      rcases List.mem_cons.mp isHanded with rfl | later
      · rw [first.content]
        rfl
      · exact inductionHypothesis later

end Port

namespace Level

/-- What one part of a body contributes, and behind it what another part does. -/
def append
    (first second : Level) :
    Level where
  records := first.records ++ second.records
  members := first.members ++ second.members
  ports := first.ports ++ second.ports

/-- A port in front of two parts is in front of the first. -/
theorem consPort_append
    (port : Port)
    (isHeld : Bool)
    (first second : Level) :
    (first.append second).consPort port isHeld = (first.consPort port isHeld).append second := by
  cases isHeld <;> rfl

/-- A member in front of two parts is in front of the first. -/
theorem consMember_append
    (records : Records)
    (member : Member)
    (first second : Level) :
    (first.append second).consMember records member =
      (first.consMember records member).append second := by
  simp [consMember, append, Records.append_assoc]

end Level

namespace Outline

/-- Only a call behind it takes over the ports of an outline of ports. -/
theorem takes_append_call
    (front : Outline)
    (site : Statement)
    (rest : Outline)
    (declaration : Statement) :
    (front ++ .call site rest).takes declaration =
      (declaration.tag != .result && (front.callAhead || front.onlyPorts)) := by
  simp [takes, callAhead_append, callAhead]

/-- A port that the next call takes belongs to the program of that call. -/
theorem assemble_port_of_takes
    {rest : Outline}
    {declaration : Statement}
    (isTaken : rest.takes declaration = true)
    (direction : Direction)
    (scope : ProgramId)
    (before : Sizes)
    (taken : List Port) :
    (port declaration direction rest).assemble scope before taken =
      (rest.assemble scope before.addPort
        (taken ++ [.ofStatement before.ports before.programs declaration direction])).consPort
          (.ofStatement before.ports before.programs declaration direction) false := by
  rw [assemble, if_pos isTaken]

/-- A port that no call takes belongs to the scope. -/
theorem assemble_port_of_not_takes
    {rest : Outline}
    {declaration : Statement}
    (isHeld : ¬ rest.takes declaration = true)
    (direction : Direction)
    (scope : ProgramId)
    (before : Sizes)
    (taken : List Port) :
    (port declaration direction rest).assemble scope before taken =
      (rest.assemble scope before.addPort taken).consPort
        (.ofStatement before.ports scope declaration direction) true := by
  rw [assemble, if_neg isHeld]

/--
In a body a call is handed the ports that are pending behind the part of the body before it, and the
ports taken before that part if only ports stand in it.
-/
structure Hands
    (front : Outline)
    (site : Statement)
    (rest : Outline)
    (scope : ProgramId)
    (before : Sizes)
    (taken : List Port)
    (level : Level)
    (handed : List Port) :
    Prop where
  shape : (front ++ .call site rest).assemble scope before taken =
    level.append ((Outline.call site rest).assemble scope (before + level.records.sizes)
      ((if front.onlyPorts then taken else []) ++ handed))
  handed : List.Forall₂ (Port.IsHanded (before + level.records.sizes).programs) front.pending handed
  noProgram : front.onlyPorts = true → level.records.programs = []

section Induction

variable
  {front : Outline}
  {site : Statement}
  {rest : Outline}
  {scope : ProgramId}
  {before : Sizes}
  {taken : List Port}
  {level : Level}
  {handed : List Port}

/-- A port in front is pending where only ports follow it, and is handed over. -/
theorem Hands.port_pending
    {declaration : Statement}
    (direction : Direction)
    (notResult : declaration.tag ≠ .result)
    (onlyPorts : front.onlyPorts = true)
    (hands : front.Hands site rest scope before.addPort
      (taken ++ [.ofStatement before.ports before.programs declaration direction]) level handed) :
    (port declaration direction front).Hands site rest scope before taken
      (level.consPort (.ofStatement before.ports before.programs declaration direction) false)
      (.ofStatement before.ports before.programs declaration direction :: handed) where
  shape := by
    have isTaken : (front ++ .call site rest).takes declaration = true := by
      simp [takes_append_call, notResult, onlyPorts]
    have frontOnlyPorts : (port declaration direction front).onlyPorts = true := onlyPorts
    rw [port_append, assemble_port_of_takes isTaken, hands.shape, Level.consPort_append,
      Level.add_sizes_consPort, onlyPorts, frontOnlyPorts]
    simp
  handed := by
    have isPending : (port declaration direction front).pending =
        (declaration, direction) :: front.pending := by
      simp [pending, notResult, onlyPorts]
    rw [isPending, Level.add_sizes_consPort]
    refine .cons ⟨notResult, ?_⟩ hands.handed
    -- Only ports stand before the call, so its program has the number that is next here.
    simp [Records.sizes, hands.noProgram onlyPorts, Sizes.addPort, Port.ofStatement]
  noProgram := hands.noProgram

/-- A port in front that is not pending is left as it is. -/
theorem Hands.port
    {declaration : Statement}
    {direction : Direction}
    {port : Port}
    {isHeld : Bool}
    {ahead : List Port}
    (hands : front.Hands site rest scope before.addPort ahead level handed)
    (notPending : (Outline.port declaration direction front).pending = front.pending)
    (sameAhead : (if front.onlyPorts then ahead else []) = if front.onlyPorts then taken else [])
    (assembles :
      (Outline.port declaration direction front ++ .call site rest).assemble scope before taken =
        ((front ++ .call site rest).assemble scope before.addPort ahead).consPort port isHeld) :
    (Outline.port declaration direction front).Hands site rest scope before taken
      (level.consPort port isHeld) handed where
  shape := by
    rw [assembles, hands.shape, Level.consPort_append, Level.add_sizes_consPort, sameAhead]
    rfl
  handed := by
    rw [notPending, Level.add_sizes_consPort]
    exact hands.handed
  noProgram := hands.noProgram

/-- Behind a call or a scope in front, no port that was taken before it is handed over. -/
theorem Hands.member
    {first : Outline}
    {records : Records}
    {member : Member}
    (hands : front.Hands site rest scope (before + records.sizes) [] level handed)
    (notOnlyPorts : first.onlyPorts = false)
    (samePending : first.pending = front.pending)
    (assembles :
      (first ++ .call site rest).assemble scope before taken =
        ((front ++ .call site rest).assemble scope (before + records.sizes) []).consMember
          records member) :
    first.Hands site rest scope before taken (level.consMember records member) handed where
  shape := by
    rw [assembles, hands.shape, Level.consMember_append, Level.add_sizes_consMember, notOnlyPorts]
    simp
  handed := by
    rw [samePending, Level.add_sizes_consMember]
    exact hands.handed
  noProgram := by simp [notOnlyPorts]

/-- A body in which nothing was taken before is assembled with the call that is handed its ports. -/
theorem Hands.assemble_eq
    (hands : front.Hands site rest scope before [] level handed) :
    let leaf := Assembled.ofCall scope (before + level.records.sizes) site handed
    (front ++ .call site rest).assemble scope before [] =
      level.append
        ((rest.assemble scope (before + level.records.sizes + leaf.records.sizes) []).consMember
          leaf.records leaf.member) := by
  have noneTaken : (if front.onlyPorts then [] else []) ++ handed = handed := by simp
  rw [hands.shape, noneTaken]
  rfl

end Induction

/-- Whatever is assembled before it, a call is handed the ports that are pending in front of it. -/
theorem exists_hands
    (front : Outline)
    (site : Statement)
    (rest : Outline)
    (scope : ProgramId)
    (before : Sizes)
    (taken : List Port) :
    ∃ level handed, front.Hands site rest scope before taken level handed := by
  induction front generalizing before taken with
  | nil =>
      refine ⟨.empty, [], ?_, .nil, fun _ => rfl⟩
      simp [onlyPorts, Level.empty, Level.append, Sizes.add_zero]
      rfl
  | port declaration direction front inductionHypothesis =>
      -- A port that a call in `front` takes is handed to that call, not to the one behind `front`.
      by_cases isTaken : (front ++ .call site rest).takes declaration = true
      · obtain ⟨level, handed, hands⟩ := inductionHypothesis before.addPort
          (taken ++ [.ofStatement before.ports before.programs declaration direction])
        have assembles := assemble_port_of_takes isTaken direction scope before taken
        rw [takes_append_call, Bool.and_eq_true_iff] at isTaken
        cases isLast : front.onlyPorts with
        | true => exact ⟨_, _, hands.port_pending direction (bne_iff_ne.mp isTaken.1) isLast⟩
        | false => exact ⟨_, _, hands.port (by simp [pending, isLast]) (by simp [isLast]) assembles⟩
      · obtain ⟨level, handed, hands⟩ := inductionHypothesis before.addPort taken
        have assembles := assemble_port_of_not_takes isTaken direction scope before taken
        have notPending : ¬ (declaration.tag != .result && front.onlyPorts) = true := by
          rw [takes_append_call, Bool.and_eq_true_iff, Bool.or_eq_true_iff] at isTaken
          rw [Bool.and_eq_true_iff]
          exact fun isPending => isTaken ⟨isPending.1, Or.inr isPending.2⟩
        exact ⟨_, _, hands.port (if_neg notPending) rfl assembles⟩
  | call other front inductionHypothesis =>
      obtain ⟨level, handed, hands⟩ := inductionHypothesis _ []
      exact ⟨_, _, hands.member rfl rfl rfl⟩
  | scope opener body closer front _ inductionHypothesis =>
      obtain ⟨level, handed, hands⟩ := inductionHypothesis _ []
      exact ⟨_, _, hands.member rfl rfl rfl⟩

end Outline

/-- The ports that a ledger has behind its offsets are those that the program of a call shows. -/
structure Ledger.DrainsInto
    (ledger : Ledger)
    (leaf : Member) :
    Prop where
  inputs : leaf.inputs.map Port.mark =
    ((ledger.ports (some .input)).drop (ledger.pending .input)).map Statement.id
  outputs : leaf.outputs.map Port.mark =
    ((ledger.ports (some .output)).drop (ledger.pending .output)).map Statement.id

/-- Where the ports of a call are those pending in a body, the ledger of the body drains into it. -/
theorem Ledger.Splits.drainsInto
    {ledger : Ledger}
    {body : Outline}
    (splits : ledger.Splits body.held body.settled)
    {before : Sizes}
    {handed : List Port}
    (areHanded : List.Forall₂ (Port.IsHanded before.programs) body.pending handed)
    (scope : ProgramId)
    (site : Statement) :
    ledger.DrainsInto (Assembled.ofCall scope before site handed).member where
  inputs := by
    rw [splits.drop_pending]
    exact Port.map_mark_inputs areHanded
  outputs := by
    rw [splits.drop_pending]
    exact Port.map_mark_plainOutputs areHanded

/--
In every state of a reader, the ledger of the innermost open scope drains into the call that is read
next.  Wherever the scope is assembled and whatever follows the call in it, the assembly hands the
call the ports behind the offsets and no others, and the program of the call owns them.
-/
theorem OutlineReader.drains_of_run
    {statements : List Statement}
    {reader : OutlineReader}
    (ran : start.run statements = .ok reader)
    {frame : Frame}
    {outer : List Frame}
    (frames : reader.frames = frame :: outer) :
    ∃ ledger outerLedgers,
      Ledger.after statements = ledger :: outerLedgers ∧
        ∀ site rest scope before,
          ∃ (level : Level) (handed : List Port),
            let here := before + level.records.sizes
            let leaf := Assembled.ofCall scope here site handed
            (frame.body ++ .call site rest).assemble scope before [] =
                level.append ((rest.assemble scope (here + leaf.records.sizes) []).consMember
                  leaf.records leaf.member) ∧
              ledger.DrainsInto leaf.member ∧
              ∀ port ∈ handed, port.owner = leaf.member.program := by
  have keeps := keeps_of_run ran
  rw [frames] at keeps
  rcases shape : Ledger.after statements with _ | ⟨ledger, outerLedgers⟩
  · rw [shape] at keeps
    cases keeps
  · rw [shape] at keeps
    cases keeps with
    | inside innermost _ =>
        refine ⟨ledger, outerLedgers, rfl, fun site rest scope before => ?_⟩
        obtain ⟨level, handed, hands⟩ := frame.body.exists_hands site rest scope before []
        refine ⟨level, handed, hands.assemble_eq, innermost.drainsInto hands.handed scope site, ?_⟩
        intro port isHanded
        exact Port.owner_of_mem_handed hands.handed isHanded

end Flowmark
