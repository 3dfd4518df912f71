import Flowmark.Proofs.Model.Assembly

namespace Flowmark

/-!
# Lineages

The nodes of a model are found by number, and each leads up to the top level over its parents.  A
port that a program shows comes from a program of its subtree, so what two children show is
disjoint.
-/

namespace Model

/-- The numbers of a program and of the programs around it, up to the top level. -/
def lineage
    (model : Model)
    (id : ProgramId) :
    List ProgramId :=
  match (model.program? id).bind Program.parent with
  | none => [id]
  | some parent => if parent < id then id :: model.lineage parent else [id]
  termination_by id

/-- No program around a program has a higher number than it. -/
theorem le_of_mem_lineage
    {model : Model}
    {id other : ProgramId}
    (member : other ∈ model.lineage id) :
    other ≤ id := by
  fun_induction lineage model id with
  | case1 id =>
      exact Nat.le_of_eq (List.mem_singleton.mp member)
  | case2 id parent _ before inductionHypothesis =>
      rcases List.mem_cons.mp member with rfl | inParent
      · exact Nat.le_refl _
      · exact Nat.le_trans (inductionHypothesis inParent) (Nat.le_of_lt before)
  | case3 id =>
      exact Nat.le_of_eq (List.mem_singleton.mp member)

/-- A program is in its own lineage. -/
theorem mem_lineage_self
    (model : Model)
    (id : ProgramId) :
    id ∈ model.lineage id := by
  unfold lineage
  split
  · exact List.mem_singleton_self _
  · split <;> exact List.mem_cons_self

/-- The lineage of a program in another lineage is the end of that lineage. -/
theorem lineage_eq_append
    {model : Model}
    {id other : ProgramId}
    (member : other ∈ model.lineage id) :
    ∃ inner, model.lineage id = inner ++ model.lineage other := by
  fun_induction lineage model id with
  | case1 id noParent =>
      rw [List.mem_singleton.mp member, lineage, noParent]
      exact ⟨[], rfl⟩
  | case2 id parent isParent before inductionHypothesis =>
      rcases List.mem_cons.mp member with rfl | inParent
      · refine ⟨[], ?_⟩
        rw [List.nil_append, lineage.eq_1 model other, isParent]
        exact (if_pos before).symm
      · obtain ⟨inner, shape⟩ := inductionHypothesis inParent
        exact ⟨id :: inner, by rw [shape, List.cons_append]⟩
  | case3 id parent isParent notBefore =>
      rw [List.mem_singleton.mp member, lineage, isParent]
      exact ⟨[], (if_neg notBefore).symm⟩

namespace FormedBy

variable {model : Model} {nodes : List Node}

/-- The programs of a formed model are those of its nodes, in order. -/
theorem programs
    (formed : model.FormedBy nodes) :
    model.programs = nodes.map Node.program := by
  obtain ⟨_, forest, _⟩ := formed
  exact forest.programs

/-- The program of a node is one of the model. -/
theorem mem_programs_of_node
    (formed : model.FormedBy nodes)
    {node : Node}
    (isNode : node ∈ nodes) :
    node.program ∈ model.programs := by
  rw [formed.programs]
  exact List.mem_map_of_mem isNode

/-- Every program of the model has a node. -/
theorem node_of_mem
    (formed : model.FormedBy nodes)
    {program : Program}
    (isProgram : program ∈ model.programs) :
    ∃ node ∈ nodes, node.program = program := by
  rw [formed.programs] at isProgram
  exact List.mem_map.mp isProgram

/-- Every node of a formed model is sound. -/
theorem sound
    (formed : model.FormedBy nodes)
    {node : Node}
    (isNode : node ∈ nodes) :
    node.Sound := by
  obtain ⟨_, forest, _⟩ := formed
  exact forest.sound node isNode

/-- The records of a formed model are numbered by their places. -/
theorem numbered
    (formed : model.FormedBy nodes) :
    model.toRecords.Numbered .zero := by
  obtain ⟨_, forest, _⟩ := formed
  exact forest.numbered

end FormedBy

end Model

/-- A record that has the number of its place is found by its number. -/
theorem Consecutive.getElem?_of_mem
    {α : Type}
    {items : List α}
    {id : α → Nat}
    (consecutive : Consecutive 0 (items.map id))
    {item : α}
    (member : item ∈ items) :
    items[id item]? = some item := by
  obtain ⟨position, inBounds, rfl⟩ := List.getElem_of_mem member
  have number : (items.map id)[position]? = some (id items[position]) := by
    simp [inBounds]
  rw [consecutive, List.length_map, List.getElem?_range' inBounds, Nat.zero_add, Nat.one_mul]
    at number
  rw [← Option.some.inj number]
  exact List.getElem?_eq_getElem inBounds

/-- Records numbered by their places are told by their numbers. -/
theorem Consecutive.eq_of_id_eq
    {α : Type}
    {items : List α}
    {id : α → Nat}
    (consecutive : Consecutive 0 (items.map id))
    {first second : α}
    (isFirst : first ∈ items)
    (isSecond : second ∈ items)
    (sameId : id first = id second) :
    first = second := by
  have found := consecutive.getElem?_of_mem isFirst
  rw [sameId, consecutive.getElem?_of_mem isSecond] at found
  exact (Option.some.inj found).symm

namespace Model.FormedBy

variable {model : Model} {nodes : List Node}

/-- The program of a node is found by its number. -/
theorem program?_of_node
    (formed : model.FormedBy nodes)
    {node : Node}
    (isNode : node ∈ nodes) :
    model.program? node.program.id = some node.program :=
  formed.numbered.programs.getElem?_of_mem (formed.mem_programs_of_node isNode)

/-- Nodes are told by the numbers of their programs. -/
theorem node_ext
    (formed : model.FormedBy nodes)
    {first second : Node}
    (isFirst : first ∈ nodes)
    (isSecond : second ∈ nodes)
    (sameId : first.program.id = second.program.id) :
    first = second := by
  have nodup := formed.numbered.programs.nodup
  rw [formed.programs, List.map_map] at nodup
  exact List.inj_on_of_nodup_map nodup isFirst isSecond sameId

/-- A port of the model is found by its number. -/
theorem port?_of_mem
    (formed : model.FormedBy nodes)
    {port : Port}
    (isPort : port ∈ model.ports) :
    model.port? port.id = some port :=
  Consecutive.getElem?_of_mem formed.numbered.ports isPort

/-- Ports of the model are told by their numbers. -/
theorem port_ext
    (formed : model.FormedBy nodes)
    {first second : Port}
    (isFirst : first ∈ model.ports)
    (isSecond : second ∈ model.ports)
    (sameId : first.id = second.id) :
    first = second :=
  formed.numbered.ports.eq_of_id_eq isFirst isSecond sameId

/-- A member of a node is what the node sees of one of its children. -/
theorem child_of_member
    (formed : model.FormedBy nodes)
    {node : Node}
    (isNode : node ∈ nodes)
    {member : Member}
    (isMember : member ∈ node.members) :
    ∃ child ∈ nodes, child.program.parent = some node.program.id ∧ child.member = member := by
  obtain ⟨_, forest, _⟩ := formed
  exact forest.children node isNode member isMember

/-- A node without a node around it is at the top; the node around any other has it as a member. -/
theorem parent_of_node
    (formed : model.FormedBy nodes)
    {node : Node}
    (isNode : node ∈ nodes) :
    node.program.parent = none ∨
      ∃ outer ∈ nodes,
        node.program.parent = some outer.program.id ∧
          node.member ∈ outer.members ∧
          outer.program.id < node.program.id := by
  obtain ⟨_, forest, _⟩ := formed
  rcases forest.parents node isNode with ⟨noParent, _⟩ | ⟨outer, isOuter, isParent, isMember⟩
  · exact Or.inl noParent
  · exact Or.inr ⟨outer, isOuter, isParent, isMember,
      (forest.sound outer isOuter).below _ isMember⟩

/-- The children of a node are its members. -/
theorem member_of_parent
    (formed : model.FormedBy nodes)
    {node child : Node}
    (isNode : node ∈ nodes)
    (isChild : child ∈ nodes)
    (isParent : child.program.parent = some node.program.id) :
    child.member ∈ node.members := by
  rcases formed.parent_of_node isChild with noParent | ⟨outer, isOuter, hasParent, isMember, _⟩
  · rw [isParent] at noParent
    cases noParent
  · rw [isParent] at hasParent
    rwa [formed.node_ext isNode isOuter (Option.some.inj hasParent)]

/-- A program at the top has nothing else in its lineage. -/
theorem lineage_of_top
    (formed : model.FormedBy nodes)
    {node : Node}
    (isNode : node ∈ nodes)
    (noParent : node.program.parent = none) :
    model.lineage node.program.id = [node.program.id] := by
  rw [lineage, formed.program?_of_node isNode]
  simp [noParent]

/-- The lineage of a child is the child and then the lineage of its parent. -/
theorem lineage_of_child
    (formed : model.FormedBy nodes)
    {node child : Node}
    (isNode : node ∈ nodes)
    (isChild : child ∈ nodes)
    (isParent : child.program.parent = some node.program.id) :
    model.lineage child.program.id = child.program.id :: model.lineage node.program.id := by
  have before : node.program.id < child.program.id :=
    (formed.sound isNode).below _ (formed.member_of_parent isNode isChild isParent)
  rw [lineage, formed.program?_of_node isChild]
  simp [isParent, before]

/-- Two children of a program are never both in one lineage. -/
theorem sibling_ext
    (formed : model.FormedBy nodes)
    {node first second : Node}
    (isNode : node ∈ nodes)
    (isFirst : first ∈ nodes)
    (isSecond : second ∈ nodes)
    (firstParent : first.program.parent = some node.program.id)
    (secondParent : second.program.parent = some node.program.id)
    {id : ProgramId}
    (firstInLineage : first.program.id ∈ model.lineage id)
    (secondInLineage : second.program.id ∈ model.lineage id) :
    first = second := by
  obtain ⟨firstInner, firstShape⟩ := lineage_eq_append firstInLineage
  obtain ⟨secondInner, secondShape⟩ := lineage_eq_append secondInLineage
  rw [formed.lineage_of_child isNode isFirst firstParent] at firstShape
  rw [formed.lineage_of_child isNode isSecond secondParent, firstShape] at secondShape
  have sameEnds :
      firstInner ++ [first.program.id] ++ model.lineage node.program.id =
        secondInner ++ [second.program.id] ++ model.lineage node.program.id := by
    simpa using secondShape
  obtain ⟨_, sameId⟩ := List.append_inj' (List.append_cancel_right sameEnds) rfl
  exact formed.node_ext isFirst isSecond (List.cons.inj sameId).1

/-- What holds of a node where it holds of its children holds of every node. -/
theorem node_induction
    (formed : model.FormedBy nodes)
    {motive : Node → Prop}
    (step : ∀ node ∈ nodes,
      (∀ child ∈ nodes, child.program.parent = some node.program.id → motive child) →
        motive node)
    {node : Node}
    (isNode : node ∈ nodes) :
    motive node := by
  -- Children have larger numbers than their parent, so the distance to the last number falls.
  induction distance : model.programs.length - node.program.id using Nat.strongRecOn
    generalizing node with
  | ind distance inductionHypothesis =>
      apply step node isNode
      intro child isChild isParent
      have before : node.program.id < child.program.id :=
        (formed.sound isNode).below _ (formed.member_of_parent isNode isChild isParent)
      have inIds : child.program.id ∈ model.programs.map Program.id :=
        List.mem_map_of_mem (formed.mem_programs_of_node isChild)
      have inRange : child.program.id < model.programs.length := by
        have bound := ((formed.numbered.programs.mem_iff _).mp inIds).2
        rwa [List.length_map, Sizes.zero, Nat.zero_add] at bound
      have closer := Nat.sub_lt_sub_left (Nat.lt_trans before inRange) before
      exact inductionHypothesis _ (distance ▸ closer) isChild rfl

end Model.FormedBy

end Flowmark
