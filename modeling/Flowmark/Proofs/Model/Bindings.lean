import Flowmark.Proofs.Model.Ownership

namespace Flowmark

open Statement

/-!
# Bindings in an interface

A program shows its own ports and those that programs within it leave open.  Its own ports of one
direction differ in their bindings, since each is declared while the scope still holds the others or
else is taken over by a call together with them.
-/

namespace Statement

/-- Statements that declare ports are balanced. -/
theorem balanced_of_declaresPort
    {statements : List Statement}
    (arePorts : ∀ statement ∈ statements, statement.declaresPort = true) :
    Balanced statements := by
  induction statements with
  | nil => exact .nil
  | cons statement rest inductionHypothesis =>
      obtain ⟨isPort, restArePorts⟩ := List.forall_mem_cons.mp arePorts
      obtain ⟨direction, declares⟩ := (declaresPort_iff statement).mp isPort
      exact .item (by simp [declares]) (by simp [declares]) (inductionHypothesis restArePorts)

/-- Where numbers are not repeated, a number stands at one place only. -/
theorem eq_of_id_eq
    {before before' after after' : List Statement}
    {statement statement' : Statement}
    (nodup : ((before ++ statement :: after).map id).Nodup)
    (shape : before ++ statement :: after = before' ++ statement' :: after')
    (sameId : statement.id = statement'.id) :
    before = before' ∧ statement = statement' ∧ after = after' := by
  have notTwice : ∀ {front middle behind : List Statement} {first second : Statement},
      ((front ++ first :: (middle ++ second :: behind)).map id).Nodup → first.id ≠ second.id := by
    intro front middle behind first second nodup sameId
    rw [List.map_append, List.map_cons, List.map_append, List.map_cons] at nodup
    have behindFirst := (List.nodup_append.mp nodup).2.1
    exact (List.nodup_cons.mp behindFirst).1 (by simp [sameId])
  rcases List.append_eq_append_iff.mp shape with
    ⟨between, rfl, tailShape⟩ | ⟨between, rfl, tailShape⟩
  · rcases List.cons_eq_append_iff.mp tailShape with ⟨rfl, headShape⟩ | ⟨middle, rfl, rfl⟩
    · obtain ⟨rfl, rfl⟩ := List.cons.inj headShape
      exact ⟨(List.append_nil _).symm, rfl, rfl⟩
    · exact absurd sameId (notTwice nodup)
  · rcases List.cons_eq_append_iff.mp tailShape with ⟨rfl, headShape⟩ | ⟨middle, rfl, rfl⟩
    · obtain ⟨rfl, rfl⟩ := List.cons.inj headShape
      exact ⟨List.append_nil _, rfl, rfl⟩
    · rw [shape] at nodup
      exact absurd sameId.symm (notTwice nodup)

end Statement

namespace Model

section Owners

variable
  {model : Model}
  {before between later : List Statement}
  {first second : Statement}
  {owner : ProgramId}

/-- Between two ports that one call takes over stand ports only. -/
theorem arePorts_of_call
    (nodup : ((before ++ first :: (between ++ second :: later)).map Statement.id).Nodup)
    {firstSite secondSite : Statement}
    (firstTaken : TakenOverBy first (between ++ second :: later) firstSite)
    (secondTaken : TakenOverBy second later secondSite)
    (sameSite : firstSite.id = secondSite.id) :
    ∀ statement ∈ between, statement.declaresPort = true := by
  by_contra notPorts
  have found : (between.find? (!·.declaresPort)).isSome := by
    rw [List.find?_isSome]
    push Not at notPorts
    obtain ⟨statement, isBetween, isNone⟩ := notPorts
    exact ⟨statement, isBetween, by simpa using isNone⟩
  have firstNext := firstTaken.next
  rw [List.find?_append, Option.or_of_isSome found] at firstNext
  have firstBetween := List.mem_of_find?_eq_some firstNext
  have secondLater := List.mem_of_find?_eq_some secondTaken.next
  rw [List.map_append, List.map_cons, List.map_append, List.map_cons] at nodup
  have behind := (List.nodup_cons.mp (List.nodup_append.mp nodup).2.1).2
  refine (List.nodup_append.mp behind).2.2 _ (List.mem_map_of_mem firstBetween) _ ?_ sameSite
  exact List.mem_cons_of_mem _ (List.mem_map_of_mem secondLater)

/-- A program is made by one call at most. -/
theorem IsCallOf.id_eq
    {site site' : Statement}
    (isCall : model.IsCallOf owner site)
    (isCall' : model.IsCallOf owner site') :
    site.id = site'.id := by
  obtain ⟨leaf, found, _, opened⟩ := isCall
  obtain ⟨leaf', found', _, opened'⟩ := isCall'
  rw [← opened, ← opened', Option.some.inj (found.symm.trans found')]

/-- A program is opened by one statement at most. -/
theorem IsScopeOf.id_eq
    {opener opener' : Statement}
    (isScope : model.IsScopeOf owner opener)
    (isScope' : model.IsScopeOf owner opener') :
    opener.id = opener'.id := by
  obtain ⟨scope, found, _, opened⟩ := isScope
  obtain ⟨scope', found', _, opened'⟩ := isScope'
  rw [← opened, ← opened', Option.some.inj (found.symm.trans found')]

/-- No program is both opened and called. -/
theorem IsScopeOf.not_isCallOf
    {opener site : Statement}
    (isScope : model.IsScopeOf owner opener) :
    ¬ model.IsCallOf owner site := by
  rintro ⟨leaf, found', isCall, _⟩
  obtain ⟨scope, found, notCall, _⟩ := isScope
  exact notCall (Option.some.inj (found.symm.trans found') ▸ isCall)

/-- A port is still held where another one is declared that comes to belong to the same program. -/
theorem stillHeld_of_owns
    (nodup : ((before ++ first :: (between ++ second :: later)).map Statement.id).Nodup)
    {direction : Direction}
    (declares : first.tag.role = .declares direction)
    (firstOwns : model.Owns before first (between ++ second :: later) owner)
    (secondOwns : model.Owns (before ++ first :: between) second later owner) :
    StillHeld (before ++ first :: between) direction first := by
  suffices Balanced between ∧ ¬ TakenOver first between from
    ⟨before, between, rfl, declares, this.1, this.2⟩
  cases firstOwns with
  | call firstTaken firstCall =>
      cases secondOwns with
      | call secondTaken secondCall =>
          have arePorts := arePorts_of_call nodup firstTaken secondTaken
            (firstCall.id_eq secondCall)
          refine ⟨balanced_of_declaresPort arePorts, ?_⟩
          rintro ⟨_, ports, site, rest, rfl, _, calls⟩
          have isPort := arePorts site (by simp)
          simp [declaresPort_iff, calls] at isPort
      | scope _ _ secondScope => exact absurd firstCall secondScope.not_isCallOf
  | @scope opener firstNotTaken firstInnermost firstScope =>
      cases secondOwns with
      | call _ secondCall => exact absurd secondCall firstScope.not_isCallOf
      | scope _ secondInnermost secondScope =>
          obtain ⟨outside, inside, rfl, _, insideBalanced⟩ := firstInnermost
          obtain ⟨_, _, shape, _, insideBalanced'⟩ := secondInnermost
          refine ⟨?_, ?_⟩
          · -- The same scope is open at both ports, so that it is balanced up to each of them.
            rw [List.append_assoc, List.cons_append] at shape
            have earlierNodup :
                ((outside ++ opener :: (inside ++ first :: between)).map Statement.id).Nodup := by
              refine nodup.sublist (List.Sublist.map _ ?_)
              simp
            obtain ⟨_, _, rfl⟩ := eq_of_id_eq earlierNodup shape (firstScope.id_eq secondScope)
            exact (insideBalanced.of_append insideBalanced').of_item (by simp [declares])
          · intro takenOver
            obtain ⟨site, takenOver⟩ := (takenOver_iff _ _).mp takenOver
            refine firstNotTaken site ⟨takenOver.notResult, takenOver.calls, ?_⟩
            rw [List.find?_append, takenOver.next, Option.some_or]

section Accepted

variable
  {workflow : Option String}
  {transcript : Transcript}
  (accepted : ofTranscript workflow transcript = .ok model)

include accepted

/-- A port has another binding than those declared before it for the same program. -/
theorem binding_ne_of_owns
    (shape : transcript.statements = before ++ first :: (between ++ second :: later))
    {direction : Direction}
    (firstDeclares : first.tag.role = .declares direction)
    (secondDeclares : second.tag.role = .declares direction)
    (firstOwns : model.Owns before first (between ++ second :: later) owner)
    (secondOwns : model.Owns (before ++ first :: between) second later owner) :
    first.binding ≠ second.binding := by
  have nodup := transcript.nodup_id_statements
  rw [shape] at nodup
  have held := stillHeld_of_owns nodup firstDeclares firstOwns secondOwns
  exact (fit_of_ofTranscript accepted).binding_ne (by simpa using shape) secondDeclares held

/-- Ports are told by the marks that declare them. -/
theorem port_ext_of_mark
    {port port' : Port}
    (isPort : port ∈ model.ports)
    (isPort' : port' ∈ model.ports)
    (sameMark : port.mark = port'.mark) :
    port = port' := by
  have nodup : (model.ports.map Port.mark).Nodup := by
    rw [map_mark_of_ofTranscript accepted]
    exact transcript.nodup_id_statements.sublist (List.filter_sublist.map _)
  exact List.inj_on_of_nodup_map nodup isPort isPort' sameMark

/-- The ports of one direction that a program owns are told apart by their bindings. -/
theorem port_ext_of_binding
    {port port' : Port}
    (isPort : port ∈ model.ports)
    (isPort' : port' ∈ model.ports)
    (sameOwner : port.owner = port'.owner)
    (sameDirection : port.direction = port'.direction)
    (sameBinding : port.binding = port'.binding) :
    port = port' := by
  obtain ⟨shape, declares, content, owns⟩ := declares_of_ofTranscript accepted port isPort
  obtain ⟨shape', declares', content', owns'⟩ := declares_of_ofTranscript accepted port' isPort'
  rename_i declaration _ _ declaration'
  have bindings : declaration.binding = declaration'.binding := by
    rw [content, content'] at sameBinding
    exact sameBinding
  have samePort : declaration = declaration' → port = port' := by
    rintro rfl
    apply port_ext_of_mark accepted isPort isPort'
    rw [content, content']
    rfl
  rw [← sameOwner] at owns'
  rw [← sameDirection] at declares'
  rcases List.append_eq_append_iff.mp (shape.symm.trans shape') with
    ⟨between, rfl, tailShape⟩ | ⟨between, rfl, tailShape⟩
  · rcases List.cons_eq_append_iff.mp tailShape with ⟨rfl, headShape⟩ | ⟨between, rfl, rfl⟩
    · exact samePort (List.cons.inj headShape).1.symm
    · exact absurd bindings (binding_ne_of_owns accepted shape declares declares' owns owns')
  · rcases List.cons_eq_append_iff.mp tailShape with ⟨rfl, headShape⟩ | ⟨between, rfl, rfl⟩
    · exact samePort (List.cons.inj headShape).1
    · exact absurd bindings.symm
        (binding_ne_of_owns accepted shape' declares' declares owns' owns)

end Accepted

end Owners

/-- A program stands within another one. -/
def IsWithin
    (model : Model)
    (id outer : ProgramId) :
    Prop :=
  id ≠ outer ∧ outer ∈ model.lineage id

/--
A program shows given ports of its own first, and behind them ports of one direction that belong to
programs within it.
-/
def ShowsInner
    (model : Model)
    (program : Program)
    (direction : Direction)
    (own shown : List PortId) :
    Prop :=
  ∃ passed,
    shown = own ++ passed ∧
      ∀ id ∈ passed, ∃ port,
        model.port? id = some port ∧
          port.direction = direction ∧
          model.IsWithin port.owner program.id

/-- The ports that a program shows come from it and from within it, and bindings tell them apart. -/
structure TellsApart
    (model : Model)
    (program : Program) :
    Prop where
  inputs : model.ShowsInner program .input (model.ownedBy program Port.isInput) program.inputs
  outputs :
    model.ShowsInner program .output (model.ownedBy program Port.isPlainOutput) program.outputs
  /-- Results count as outputs. -/
  distinct : ∀ direction,
    ((model.ports.filter fun port =>
      port.owner = program.id && port.direction = direction).map Port.binding).Nodup
  /-- An own input feeds every input of a child that has its binding. -/
  passed : ∀ own ∈ model.ports, ∀ port ∈ model.ports,
    own.owner = program.id → own.direction = .input →
      port.owner ≠ program.id → port.id ∈ program.inputs → port.binding ≠ own.binding

namespace FormedBy

variable {model : Model} {nodes : List Node} {node : Node}

/-- What a program shows behind its own ports belongs to programs within it. -/
theorem showsInner_of_showsFirst
    (formed : model.FormedBy nodes)
    (isNode : node ∈ nodes)
    {direction : Direction}
    {own shown : List PortId}
    (showsFirst : model.ShowsFirst node.program own shown)
    (areShown : shown ⊆ node.program.ports direction) :
    model.ShowsInner node.program direction own shown := by
  obtain ⟨passed, rfl, notOwned⟩ := showsFirst
  refine ⟨passed, rfl, ?_⟩
  intro id isPassed
  have isShown := areShown (List.mem_append_right own isPassed)
  rw [formed.ports_eq isNode] at isShown
  obtain ⟨port, ofInterface, rfl⟩ := List.mem_map.mp isShown
  obtain ⟨isPort, sameDirection, inLineage⟩ :=
    (formed.apart isNode).shown direction port ofInterface
  exact ⟨port, formed.port?_of_mem isPort, sameDirection, notOwned port isPort isPassed, inLineage⟩

/-- No input that a node passes on has the binding of an own input. -/
theorem binding_ne_of_passed
    (formed : model.FormedBy nodes)
    (isNode : node ∈ nodes)
    {own port : Port}
    (isOwn : own ∈ model.ports)
    (ownsOwn : own.owner = node.program.id)
    (isInput : own.direction = .input)
    (isPort : port ∈ model.ports)
    (notOwned : port.owner ≠ node.program.id)
    (isShown : port.id ∈ node.program.inputs) :
    port.binding ≠ own.binding := by
  have distinct := (formed.apart isNode).distinct
  rw [(formed.sound isNode).inputs] at isShown
  obtain ⟨other, inInterface, sameId⟩ := List.mem_map.mp isShown
  have isOther := ((formed.apart isNode).shown .input other inInterface).1
  obtain rfl := formed.port_ext isOther isPort sameId
  rw [Node.wiring, distinct.interface_inputs] at inInterface
  rcases List.mem_append.mp inInterface with ofNode | passed
  · exact absurd ((formed.sound isNode).owners other (List.mem_filter.mp ofNode).1) notOwned
  · obtain ⟨isInner, unfed⟩ := List.mem_filter.mp passed
    apply distinct.binding_ne_of_unfed isInner (of_decide_eq_true unfed)
    refine List.mem_filter.mpr ⟨?_, decide_eq_true isInput⟩
    rw [formed.node_ports_eq isNode]
    exact List.mem_filter.mpr ⟨isOwn, decide_eq_true ownsOwn⟩

end FormedBy

/--
A program of a model shows its own inputs before those that programs within it leave open, and so
its outputs.  Its own ports of one direction differ in their bindings, and no input that it passes
on has the binding of an own one.
-/
theorem tellsApart_of_ofTranscript
    {workflow : Option String}
    {transcript : Transcript}
    {model : Model}
    (accepted : ofTranscript workflow transcript = .ok model) :
    ∀ program ∈ model.programs, model.TellsApart program := by
  intro program isProgram
  obtain ⟨nodes, formed⟩ := formedBy_of_ofTranscript accepted
  obtain ⟨node, isNode, rfl⟩ := formed.node_of_mem isProgram
  have shows := showsOwn_of_ofTranscript accepted isProgram
  exact
    { inputs := formed.showsInner_of_showsFirst isNode shows.inputs (List.Subset.refl _)
      outputs :=
        formed.showsInner_of_showsFirst isNode shows.outputs (List.subset_append_left _ _)
      distinct := by
        intro direction
        apply (formed.numbered.ports.nodup.of_map.filter _).map_on
        intro first isFirst second isSecond
        simp only [List.mem_filter, Bool.and_eq_true, decide_eq_true_eq] at isFirst isSecond
        obtain ⟨isPort, isOwner, ofDirection⟩ := isFirst
        obtain ⟨isPort', isOwner', ofDirection'⟩ := isSecond
        exact port_ext_of_binding accepted isPort isPort' (isOwner.trans isOwner'.symm)
          (ofDirection.trans ofDirection'.symm)
      passed := by
        intro own isOwn port isPort ownsOwn isInput notOwned isShown
        exact formed.binding_ne_of_passed isNode isOwn ownsOwn isInput isPort notOwned isShown }

/--
A binding is declared again once a call has taken its port, one output of a child feeds a result,
and the other child's output and an input that nothing feeds are passed on.
-/
theorem exists_accepted_rebound :
    ∃ transcript model,
      ofTranscript none transcript = .ok model ∧
        (model.programs.map fun program =>
          (model.portsOf (program.inputs ++ program.allOutputs)).map fun port =>
            (port.owner, port.binding)) =
          [[(0, "x"), (2, "y"), (3, "r"), (0, "r")], [(1, "x")],
            [(2, "x"), (2, "y"), (2, "r")], [(3, "r")]] := by
  let entry : Tag × String → Entry := fun (tag, name) =>
    ⟨default, tag, tag.keyword, name, .identifier, none, none⟩
  refine ⟨Transcript.ofEntries ([(.begin, "s"), (.input, "x"), (.call, "g"), (.input, "x"),
    (.result, "r"), (.begin, "c"), (.input, "x"), (.input, "y"), (.output, "r"), (.finish, "c"),
    (.begin, "d"), (.output, "r"), (.finish, "d"), (.finish, "s")].map entry),
    exists_of_toOption_map ?_⟩
  decide +kernel

/-- The bindings that the four programs of such a model show. -/
theorem tellsApart_of_ofTranscript_rebound :
    ∃ transcript model,
      ofTranscript none transcript = .ok model ∧
        (model.programs.map fun program =>
          (model.portsOf (program.inputs ++ program.allOutputs)).map fun port =>
            (port.owner, port.binding)) =
          [[(0, "x"), (2, "y"), (3, "r"), (0, "r")], [(1, "x")],
            [(2, "x"), (2, "y"), (2, "r")], [(3, "r")]] ∧
        ∀ program ∈ model.programs, model.TellsApart program := by
  obtain ⟨transcript, model, accepted, shown⟩ := exists_accepted_rebound
  exact ⟨transcript, model, accepted, shown, tellsApart_of_ofTranscript accepted⟩

end Model

end Flowmark
