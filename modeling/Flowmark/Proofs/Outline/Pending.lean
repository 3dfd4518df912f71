import Mathlib.Data.List.Forall2
import Flowmark.Proofs.Outline.Acceptance

namespace Flowmark

/-!
# Pending ports

While an outline is read, the ports of each open scope can be kept in three lists with two offsets,
behind which lie the ports that the next call takes over.  In every state of the reader the offsets
lie in the lists, the lists are the ports that the body read so far holds, and behind the offsets
stand the ports that are pending at its end.
-/

/-- The ports of an open scope, and the offsets at which its pending inputs and outputs start. -/
structure Ledger where
  inputs : List Statement
  outputs : List Statement
  results : List Statement
  pendingInputs : Nat
  pendingOutputs : Nat
  deriving Repr, DecidableEq

namespace Ledger

/-- The ledger of a scope that opens. -/
def empty : Ledger where
  inputs := []
  outputs := []
  results := []
  pendingInputs := 0
  pendingOutputs := 0

/-- Start a new run of pending ports. -/
def reset
    (ledger : Ledger) :
    Ledger :=
  { ledger with
    pendingInputs := ledger.inputs.length
    pendingOutputs := ledger.outputs.length }

/-- Enter a port. -/
def declare
    (ledger : Ledger)
    (declaration : Statement)
    (direction : Direction) :
    Ledger :=
  if declaration.tag = .result then
    { ledger with results := ledger.results ++ [declaration] }
  else
    match direction with
    | .input => { ledger with inputs := ledger.inputs ++ [declaration] }
    | .output => { ledger with outputs := ledger.outputs ++ [declaration] }

/-- Hand the pending ports over to a call, and start a new run. -/
def call
    (ledger : Ledger) :
    Ledger :=
  reset { ledger with
    inputs := ledger.inputs.take ledger.pendingInputs
    outputs := ledger.outputs.take ledger.pendingOutputs }

/-- Start a new run in the innermost open scope. -/
def resetInnermost : List Ledger → List Ledger
  | [] => []
  | ledger :: outer => ledger.reset :: outer

/-- The ledgers of the open scopes, innermost first, after one more statement. -/
def step
    (ledgers : List Ledger)
    (statement : Statement) :
    List Ledger :=
  match statement.tag.role with
  | .opens => empty :: resetInnermost ledgers
  | .closes => resetInnermost ledgers.tail
  | .calls =>
      match ledgers with
      | [] => []
      | ledger :: outer => ledger.call :: outer
  | .declares direction =>
      match ledgers with
      | [] => []
      | ledger :: outer => ledger.declare statement direction :: outer
  | .qualifies => ledgers

/-- The ledgers of the scopes that statements leave open, innermost first. -/
def after
    (statements : List Statement) :
    List Ledger :=
  statements.foldl step []

end Ledger

/-! ## Ports that stay with their scope -/

namespace Outline

/-- Whether an outline consists of ports. -/
def onlyPorts : Outline → Bool
  | nil => true
  | port _ _ rest => rest.onlyPorts
  | call _ _ => false
  | scope _ _ _ _ => false

/-- The ports that an outline still holds if a call follows. -/
def settled : Outline → List (Statement × Direction)
  | nil => []
  | port declaration direction rest =>
      if declaration.tag != .result && (rest.onlyPorts || rest.callAhead) then
        rest.settled
      else
        (declaration, direction) :: rest.settled
  | call _ rest => rest.settled
  | scope _ _ _ rest => rest.settled

/-- The ports that a call behind an outline takes over: those at its end, results excepted. -/
def pending : Outline → List (Statement × Direction)
  | nil => []
  | port declaration direction rest =>
      if declaration.tag != .result && rest.onlyPorts then
        (declaration, direction) :: rest.pending
      else
        rest.pending
  | call _ rest => rest.pending
  | scope _ _ _ rest => rest.pending

/-- A call comes first behind an outline where it does, or behind ports where the next one does. -/
theorem callAhead_append
    (before after : Outline) :
    (before ++ after).callAhead = (before.callAhead || (before.onlyPorts && after.callAhead)) := by
  induction before with
  | nil => simp [callAhead, onlyPorts]
  | port declaration direction rest inductionHypothesis => exact inductionHypothesis
  | call site rest _ => rfl
  | scope opener body closer rest _ _ => simp [callAhead, onlyPorts]

/-- No call at the front of what follows takes a port over. -/
theorem held_append
    {after : Outline}
    (noCall : after.callAhead = false)
    (before : Outline) :
    (before ++ after).held = before.held ++ after.held := by
  induction before with
  | nil => rfl
  | port declaration direction rest inductionHypothesis =>
      have sameTaken : (rest ++ after).takes declaration = rest.takes declaration := by
        simp [takes, callAhead_append, noCall]
      rw [port_append, held, held, sameTaken, inductionHypothesis]
      split <;> rfl
  | call site rest inductionHypothesis => exact inductionHypothesis
  | scope opener body closer rest _ inductionHypothesis => exact inductionHypothesis

/-- A call at the front of what follows takes over the ports that are not settled. -/
theorem held_append_of_callAhead
    {after : Outline}
    (callAhead : after.callAhead = true)
    (before : Outline) :
    (before ++ after).held = before.settled ++ after.held := by
  induction before with
  | nil => rfl
  | port declaration direction rest inductionHypothesis =>
      have sameTaken :
          (rest ++ after).takes declaration =
            (declaration.tag != .result && (rest.onlyPorts || rest.callAhead)) := by
        simp [takes, callAhead_append, callAhead, Bool.or_comm]
      rw [port_append, held, settled, sameTaken, inductionHypothesis]
      split <;> rfl
  | call site rest inductionHypothesis => exact inductionHypothesis
  | scope opener body closer rest _ inductionHypothesis => exact inductionHypothesis

/-- A call behind an outline leaves it the settled ports. -/
theorem held_append_call
    (before : Outline)
    (site : Statement) :
    (before ++ .call site .nil).held = before.settled := by
  rw [held_append_of_callAhead rfl, held, held, List.append_nil]

/-- Of one more port only a result is settled. -/
theorem settled_append_port
    (before : Outline)
    (declaration : Statement)
    (direction : Direction) :
    (before ++ .port declaration direction .nil).settled =
      before.settled ++
        if declaration.tag = .result then [(declaration, direction)] else [] := by
  have shape := held_append_call (before ++ .port declaration direction .nil) declaration
  rw [append_assoc, port_append, nil_append, held_append_of_callAhead rfl] at shape
  rw [← shape]
  by_cases isResult : declaration.tag = .result <;>
    simp [held, takes, callAhead, isResult]

/-- A call at the end settles no further port. -/
theorem settled_append_call
    (before : Outline)
    (site : Statement) :
    (before ++ .call site .nil).settled = before.settled := by
  rw [← held_append_call _ site, append_assoc, call_append, nil_append,
    held_append_of_callAhead rfl, held, held, held, List.append_nil]

/-- Behind a scope everything that is held is settled. -/
theorem settled_append_scope
    (before : Outline)
    (opener closer : Statement)
    (body : Outline) :
    (before ++ .scope opener body closer .nil).settled = before.held := by
  rw [← held_append_call _ opener, append_assoc, scope_append, nil_append, held_append rfl, held,
    held, held, List.append_nil]

end Outline

/-! ## Ledgers of a reader -/

/-- The ports of one part: inputs, outputs, or, where no direction is given, results. -/
def Outline.portsOfPart
    (part : Option Direction)
    (ports : List (Statement × Direction)) :
    List Statement :=
  (ports.filter fun (declaration, direction) =>
    (if declaration.tag = .result then none else some direction) = part).map Prod.fst

@[simp] theorem Outline.portsOfPart_append
    (part : Option Direction)
    (first second : List (Statement × Direction)) :
    portsOfPart part (first ++ second) = portsOfPart part first ++ portsOfPart part second := by
  simp [portsOfPart]

/-- A port counts where its part is the given one. -/
theorem Outline.portsOfPart_cons
    (part : Option Direction)
    (declaration : Statement)
    (direction : Direction)
    (ports : List (Statement × Direction)) :
    portsOfPart part ((declaration, direction) :: ports) =
      if (if declaration.tag = .result then none else some direction) = part then
        declaration :: portsOfPart part ports
      else
        portsOfPart part ports := by
  rw [portsOfPart, List.filter_cons]
  by_cases isPart : (if declaration.tag = .result then none else some direction) = part
  · simp [isPart, portsOfPart]
  · simp [isPart, portsOfPart]

namespace Outline

/-- Where only ports stand, the next call leaves results and no others. -/
theorem portsOfPart_settled_of_onlyPorts
    {outline : Outline}
    (onlyPorts : outline.onlyPorts = true)
    (direction : Direction) :
    portsOfPart (some direction) outline.settled = [] := by
  induction outline with
  | nil => rfl
  | port declaration declared rest inductionHypothesis =>
      have restOnlyPorts : rest.onlyPorts = true := onlyPorts
      have noneInRest := inductionHypothesis restOnlyPorts
      by_cases isResult : declaration.tag = .result <;>
        simp [settled, restOnlyPorts, portsOfPart_cons, isResult, noneInRest]
  | call site rest _ => cases onlyPorts
  | scope opener body closer rest _ _ => cases onlyPorts

/-- Among ports there is no call ahead. -/
theorem callAhead_of_onlyPorts
    {outline : Outline}
    (onlyPorts : outline.onlyPorts = true) :
    outline.callAhead = false := by
  induction outline with
  | nil => rfl
  | port declaration direction rest inductionHypothesis => exact inductionHypothesis onlyPorts
  | call site rest _ => cases onlyPorts
  | scope opener body closer rest _ _ => cases onlyPorts

/-- Of the inputs or outputs that an outline holds, the next call leaves the first ones. -/
theorem portsOfPart_held
    (outline : Outline)
    (direction : Direction) :
    portsOfPart (some direction) outline.held =
      portsOfPart (some direction) outline.settled ++
        portsOfPart (some direction) outline.pending := by
  induction outline with
  | nil => rfl
  | port declaration declared rest inductionHypothesis =>
      by_cases isResult : declaration.tag = .result
      · simp [held, settled, pending, takes, portsOfPart_cons, isResult, inductionHypothesis]
      · cases onlyPorts : rest.onlyPorts with
        | true =>
            have noneSettled := portsOfPart_settled_of_onlyPorts onlyPorts direction
            have noCall := callAhead_of_onlyPorts onlyPorts
            simp [held, settled, pending, takes, portsOfPart_cons, isResult, onlyPorts, noCall,
              inductionHypothesis, noneSettled]
        | false =>
            cases callAhead : rest.callAhead <;> by_cases isDeclared : declared = direction <;>
              simp [held, settled, pending, takes, portsOfPart_cons, isResult, onlyPorts,
                callAhead, isDeclared, inductionHypothesis]
  | call site rest inductionHypothesis => exact inductionHypothesis
  | scope opener body closer rest _ inductionHypothesis => exact inductionHypothesis

end Outline

namespace Ledger

/-- The list of one part. -/
def ports
    (ledger : Ledger) :
    Option Direction → List Statement
  | some .input => ledger.inputs
  | some .output => ledger.outputs
  | none => ledger.results

/-- The offset at which the pending ports of a direction start. -/
def pending
    (ledger : Ledger) :
    Direction → Nat
  | .input => ledger.pendingInputs
  | .output => ledger.pendingOutputs

/-- The lists of a ledger are given ports by their parts, and its offsets lie in the lists. -/
structure Lists
    (ledger : Ledger)
    (held : List (Statement × Direction)) :
    Prop where
  ports : ∀ part, ledger.ports part = Outline.portsOfPart part held
  pending : ∀ direction, ledger.pending direction ≤ (ledger.ports (some direction)).length

/-- In front of the offsets and among the results stand the ports that the next call leaves. -/
structure Splits
    (ledger : Ledger)
    (held settled : List (Statement × Direction)) : Prop
    extends ledger.Lists held where
  front : ∀ direction,
    (ledger.ports (some direction)).take (ledger.pending direction) =
      Outline.portsOfPart (some direction) settled
  results : Outline.portsOfPart none settled = Outline.portsOfPart none held

/-- The ledger of a scope that opens splits no ports. -/
theorem splits_empty :
    empty.Splits [] [] where
  ports := by
    intro part
    rcases part with _ | (_ | _) <;> rfl
  pending := by
    intro direction
    cases direction <;> exact Nat.le_refl _
  front := by
    intro direction
    cases direction <;> rfl
  results := rfl

variable {ledger : Ledger} {held settled : List (Statement × Direction)}

@[simp] theorem ports_reset
    (ledger : Ledger)
    (part : Option Direction) :
    ledger.reset.ports part = ledger.ports part := by
  rcases part with _ | (_ | _) <;> rfl

/-- A new run of pending ports starts behind all ports of its direction. -/
theorem pending_reset
    (ledger : Ledger)
    (direction : Direction) :
    ledger.reset.pending direction = (ledger.ports (some direction)).length := by
  cases direction <;> rfl

/-- Where a new run starts, all ports that are held are settled. -/
theorem Lists.reset
    (lists : ledger.Lists held) :
    ledger.reset.Splits held held where
  ports := by simpa using lists.ports
  pending := by simp [pending_reset]
  front := by simp [pending_reset, lists.ports]
  results := rfl

/-- Behind a call the ledger lists the settled ports and nothing is pending. -/
theorem Splits.call
    (splits : ledger.Splits held settled) :
    ledger.call.Splits settled settled := by
  refine Lists.reset ⟨?_, ?_⟩
  · intro part
    rcases part with _ | (_ | _)
    · exact (splits.ports none).trans splits.results.symm
    · exact splits.front .input
    · exact splits.front .output
  · intro direction
    have inList := splits.pending direction
    cases direction <;> exact Nat.le_of_eq (List.length_take_of_le inList).symm

/-- A port is entered at the end of the list of its part. -/
theorem ports_declare
    (ledger : Ledger)
    (declaration : Statement)
    (direction : Direction)
    (part : Option Direction) :
    (ledger.declare declaration direction).ports part =
      ledger.ports part ++ Outline.portsOfPart part [(declaration, direction)] := by
  by_cases isResult : declaration.tag = .result <;> cases direction <;>
    rcases part with _ | (_ | _) <;> simp [declare, ports, Outline.portsOfPart, isResult]

@[simp] theorem pending_declare
    (ledger : Ledger)
    (declaration : Statement)
    (direction other : Direction) :
    (ledger.declare declaration direction).pending other = ledger.pending other := by
  unfold declare
  split
  · cases other <;> rfl
  · cases direction <;> cases other <;> rfl

/-- A port that is entered is held, and settled where it is a result. -/
theorem Splits.declare
    (splits : ledger.Splits held settled)
    (declaration : Statement)
    (direction : Direction) :
    (ledger.declare declaration direction).Splits (held ++ [(declaration, direction)])
      (settled ++ if declaration.tag = .result then [(declaration, direction)] else []) where
  ports := by
    intro part
    rw [ports_declare, splits.ports, Outline.portsOfPart_append]
  pending := by
    intro other
    rw [pending_declare, ports_declare, List.length_append]
    exact Nat.le_add_right_of_le (splits.pending other)
  front := by
    intro other
    rw [pending_declare, ports_declare, List.take_append_of_le_length (splits.pending other),
      splits.front, Outline.portsOfPart_append]
    split <;> simp [Outline.portsOfPart, *]
  results := by
    rw [Outline.portsOfPart_append, Outline.portsOfPart_append, splits.results]
    split <;> simp [Outline.portsOfPart, *]

/--
The ledgers of open scopes, innermost first, list the ports of these, and their offsets lie in the
lists.  Only in the innermost one a call can follow, which takes over what is behind the offsets.
-/
inductive Keeps : List Frame → List Ledger → Prop where
  | outside : Keeps [] []
  | inside
      {frame : Frame}
      {outer : List Frame}
      {ledger : Ledger}
      {outerLedgers : List Ledger}
      (innermost : ledger.Splits frame.body.held frame.body.settled)
      (around :
        List.Forall₂ (fun frame ledger => ledger.Lists frame.body.held) outer outerLedgers) :
      Keeps (frame :: outer) (ledger :: outerLedgers)

/-- Ledgers still list the ports of their frames where the innermost one starts a new run. -/
theorem Keeps.resetInnermost
    {frames : List Frame}
    {ledgers : List Ledger}
    (keeps : Keeps frames ledgers) :
    List.Forall₂ (fun frame ledger => ledger.Lists frame.body.held) frames
      (resetInnermost ledgers) := by
  cases keeps with
  | outside => exact .nil
  | inside innermost around => exact .cons innermost.toLists.reset.toLists around

/-- Behind a part that leaves nothing pending, what the scope holds is settled. -/
theorem Splits.settle
    {frame : Frame}
    {part : Outline}
    (splits : ledger.Splits held held)
    (holds : (frame.extend part).body.held = held)
    (settles : (frame.extend part).body.settled = held) :
    ledger.Splits (frame.extend part).body.held (frame.extend part).body.settled := by
  rwa [holds, settles]

/-- Behind the offsets stand the ports that the next call takes over. -/
theorem Splits.drop_pending
    {outline : Outline}
    (splits : ledger.Splits outline.held outline.settled)
    (direction : Direction) :
    (ledger.ports (some direction)).drop (ledger.pending direction) =
      Outline.portsOfPart (some direction) outline.pending := by
  have whole := List.take_append_drop (ledger.pending direction) (ledger.ports (some direction))
  rw [splits.front, splits.ports, Outline.portsOfPart_held] at whole
  rw [splits.ports, Outline.portsOfPart_held]
  exact List.append_cancel_left whole

/-- A step that succeeds keeps the ledgers. -/
theorem Keeps.step
    {reader next : OutlineReader}
    {ledgers : List Ledger}
    (keeps : Keeps reader.frames ledgers)
    {statement : Statement}
    (stepped : reader.step statement = .ok next) :
    Keeps next.frames (Ledger.step ledgers statement) := by
  cases OutlineReader.steps_of_step stepped with
  | opens opens =>
      simp only [Ledger.step, opens]
      exact .inside splits_empty keeps.resetInnermost
  | calls calls frames =>
      rw [frames] at keeps
      rcases keeps with _ | ⟨splits, around⟩
      simp only [Ledger.step, calls]
      refine .inside (splits.call.settle ?_ ?_) around
      · exact Outline.held_append_call _ _
      · exact Outline.settled_append_call _ _
  | @declares direction frame _ declares frames _ =>
      rw [frames] at keeps
      rcases keeps with _ | ⟨splits, around⟩
      simp only [Ledger.step, declares]
      refine .inside ?_ around
      have declared := splits.declare statement direction
      have holds :
          (frame.body ++ .port statement direction .nil).held =
            frame.body.held ++ [(statement, direction)] := by
        rw [Outline.held_append rfl]
        simp [Outline.held, Outline.takes, Outline.callAhead]
      rwa [← Outline.settled_append_port, ← holds] at declared
  | closesBlock closes frames _ =>
      rw [frames] at keeps
      rcases keeps with _ | ⟨_, around⟩
      cases around
      simp only [Ledger.step, closes]
      exact .outside
  | closesScope closes frames _ =>
      rw [frames] at keeps
      rcases keeps with _ | ⟨_, around⟩
      cases around with
      | cons lists around =>
          simp only [Ledger.step, closes]
          -- A new run starts in the scope around, so all that it holds is settled.
          refine .inside (lists.reset.settle ?_ ?_) around
          · exact (Outline.held_append rfl _).trans (List.append_nil _)
          · exact Outline.settled_append_scope _ _ _ _
  | qualifies qualifies =>
      simp only [Ledger.step, qualifies]
      exact keeps

/-- A run that succeeds keeps the ledgers. -/
theorem Keeps.run
    {reader final : OutlineReader}
    {ledgers : List Ledger}
    (keeps : Keeps reader.frames ledgers)
    {statements : List Statement}
    (ran : reader.run statements = .ok final) :
    Keeps final.frames (statements.foldl Ledger.step ledgers) := by
  induction statements generalizing reader ledgers with
  | nil =>
      cases ran
      exact keeps
  | cons statement statements inductionHypothesis =>
      rw [OutlineReader.run] at ran
      split at ran
      · cases ran
      · rename_i next stepped
        exact inductionHypothesis (keeps.step stepped) ran

end Ledger

/-- In every state of a reader the ledgers of the statements that are read keep its frames. -/
theorem OutlineReader.keeps_of_run
    {statements : List Statement}
    {reader : OutlineReader}
    (ran : start.run statements = .ok reader) :
    Ledger.Keeps reader.frames (Ledger.after statements) :=
  Ledger.Keeps.outside.run ran

end Flowmark
