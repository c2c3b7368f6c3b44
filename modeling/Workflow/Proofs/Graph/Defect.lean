import Mathlib.Data.List.Duplicate
import Workflow.Proofs.Graph.Route

/-!
# Where the check finds a defect

An error of the check is wrapped in the nodes whose subflows lead to the level with the defect. Their
ids are a path to it: before the check looks into the nodes of a level it has seen that their ids are
distinct, so each id finds the very node that was looked into.
-/

namespace Workflow

namespace GraphError

/-- The nodes whose subflows an error is wrapped in, the outermost first. -/
def parents : GraphError → Path
  | subflow parent inner => parent :: inner.parents
  | _ => []

/-- What is wrong on the level itself. -/
def cause : GraphError → GraphError
  | subflow _ inner => inner.cause
  | e => e

theorem eq_wrapped (e : GraphError) : e = e.parents.foldr .subflow e.cause := by
  induction e with
  | subflow parent inner ih =>
    rw [parents, cause, List.foldr_cons]
    exact congrArg (subflow parent) ih
  | nodeNotFound | duplicateNodeId | danglingEdge | missingTaskData => rfl

end GraphError

namespace Level

variable {l : Level} {ns : List Node} {es : List Edge} {ids seen : List String} {e : GraphError}

/-- What an error says of the level that it is about. -/
inductive Defect (l : Level) : GraphError → Prop
  | duplicate {id : String} (h : List.Duplicate id l.nodeIds) : Defect l (.duplicateNodeId id)
  | bare {n : Node} (hn : n ∈ l.nodes) (hk : n.kind = .task) (hd : n.data = none) :
      Defect l (.missingTaskData n.id)
  | dangling {e : Edge} {missing : String} (he : e ∈ l.edges)
      (hend : missing = e.source ∨ missing = e.target) (h : missing ∉ l.nodeIds) :
      Defect l (.danglingEdge e.id missing)

theorem Defect.unwrapped (h : l.Defect e) : e.parents = [] ∧ e.cause = e := by
  cases h <;> exact ⟨rfl, rfl⟩

/-- Nodes behind others with the ids `seen` are refused for an id that comes again, or for a task node
without a task. -/
theorem checkNodes_error (h : checkNodes seen ns = .error e) :
    (∃ id, e = .duplicateNodeId id ∧
        (id ∈ seen ∧ id ∈ ns.map (·.id) ∨ List.Duplicate id (ns.map (·.id)))) ∨
      ∃ n ∈ ns, n.kind = .task ∧ n.data = none ∧ e = .missingTaskData n.id := by
  induction ns generalizing seen with
  | nil => cases h
  | cons n ns ih =>
    simp only [checkNodes] at h
    split at h
    · rename_i hseen
      cases h
      exact .inl ⟨n.id, rfl, .inl ⟨hseen, List.mem_cons_self⟩⟩
    split at h
    · rename_i hbare
      cases h
      exact .inr ⟨n, List.mem_cons_self, hbare.1, by simpa [Node.carriesTask] using hbare.2, rfl⟩
    rcases ih h with ⟨id, rfl, hid⟩ | ⟨m, hm, hbare⟩
    · refine .inl ⟨id, rfl, ?_⟩
      rcases hid with ⟨hseen, hmem⟩ | hdup
      · rcases List.mem_cons.mp hseen with rfl | hseen
        · exact .inr (List.Mem.duplicate_cons_self hmem)
        · exact .inl ⟨hseen, List.mem_cons_of_mem _ hmem⟩
      · exact .inr (hdup.duplicate_cons _)
    · exact .inr ⟨m, List.mem_cons_of_mem _ hm, hbare⟩

theorem checkEdges_error (h : checkEdges ids es = .error e) :
    ∃ edge ∈ es, ∃ missing, (missing = edge.source ∨ missing = edge.target) ∧ missing ∉ ids ∧
      e = .danglingEdge edge.id missing := by
  induction es with
  | nil => cases h
  | cons edge es ih =>
    simp only [checkEdges] at h
    split at h
    · rename_i hs
      cases h
      exact ⟨edge, List.mem_cons_self, edge.source, .inl rfl, hs, rfl⟩
    split at h
    · rename_i ht
      cases h
      exact ⟨edge, List.mem_cons_self, edge.target, .inr rfl, ht, rfl⟩
    obtain ⟨edge, hmem, hdangling⟩ := ih h
    exact ⟨edge, List.mem_cons_of_mem _ hmem, hdangling⟩

theorem validateSubflows_error (h : validateSubflows ns = .error e) :
    ∃ n ∈ ns, ∃ sub inner, n.subflow = some sub ∧ sub.validate = .error inner ∧
      e = .subflow n.id inner := by
  induction ns with
  | nil => cases h
  | cons n ns ih =>
    rw [validateSubflows_cons] at h
    split at h
    · obtain ⟨m, hm, hrest⟩ := ih h
      exact ⟨m, List.mem_cons_of_mem _ hm, hrest⟩
    · rename_i sub hs
      split at h
      · rename_i inner hinner
        cases h
        exact ⟨n, List.mem_cons_self, sub, inner, hs, hinner, rfl⟩
      · obtain ⟨m, hm, hrest⟩ := ih h
        exact ⟨m, List.mem_cons_of_mem _ hm, hrest⟩

/-- A level that is refused has a defect of its own, or distinct ids and a refused subflow. -/
theorem validate_refused (h : l.validate = .error e) :
    l.Defect e ∨ l.nodeIds.Nodup ∧ ∃ n ∈ l.nodes, ∃ sub inner, n.subflow = some sub ∧
      sub.validate = .error inner ∧ e = .subflow n.id inner := by
  obtain ⟨nodes, edges⟩ := l
  simp only [validate] at h
  cases hn : checkNodes [] nodes with
  | error e' =>
    rw [hn] at h
    cases h
    rcases checkNodes_error hn with ⟨id, rfl, hid⟩ | ⟨n, hmem, hk, hd, rfl⟩
    · exact .inl (.duplicate (hid.resolve_left (by simp)))
    · exact .inl (.bare hmem hk hd)
  | ok u =>
    rw [hn] at h
    cases he : checkEdges (nodes.map (·.id)) edges with
    | error e' =>
      simp only [bind, Except.bind, he] at h
      cases h
      obtain ⟨edge, hmem, missing, hend, hmissing, rfl⟩ := checkEdges_error he
      exact .inl (.dangling hmem hend hmissing)
    | ok u' =>
      simp only [bind, Except.bind, he] at h
      exact .inr ⟨(checkNodes_ok.mp hn).1, validateSubflows_error h⟩

/-- The parents of an error lead to a level that has the defect. -/
theorem validate_error (h : l.validate = .error e) :
    ∃ m, l.Reaches e.parents m ∧ m.Defect e.cause := by
  induction l using Level.induction generalizing e with
  | h l ih =>
    rcases validate_refused h with hd | ⟨hids, n, hn, sub, inner, hs, hinner, rfl⟩
    · obtain ⟨hparents, hcause⟩ := hd.unwrapped
      exact ⟨l, hparents ▸ .here, hcause.symm ▸ hd⟩
    · obtain ⟨m, hm, hd⟩ := ih n hn sub hs hinner
      exact ⟨m, .down (node?_of_mem hids hn) hs hm, hd⟩

end Level

namespace Graph

/-- The check accepts a graph exactly if on its root and on every subflow at every depth ids are
distinct, task nodes carry a task and edges join nodes of their level. An error that is wrapped in
parents names what is wrong on the very level to which the path of these parents leads. -/
theorem validate_exact (g : Graph) :
    (g.validate = .ok () ↔ g.Everywhere Level.Valid) ∧
    ∀ e, g.validate = .error e → e = e.parents.foldr .subflow e.cause ∧
      ∃ l, g.levelAt e.parents = .ok l ∧ l.Defect e.cause := by
  refine ⟨Level.validate_ok, fun e h => ⟨e.eq_wrapped, ?_⟩⟩
  obtain ⟨l, hl, hd⟩ := Level.validate_error h
  exact ⟨l, levelAt_ok.mpr hl, hd⟩

/-- The ids of the path come again on the level to which it leads, which has an edge to a node of the
root. -/
def astray : Graph where
  nodes := [
    { id := "b", kind := .decision },
    { id := "a", kind := .task, data := some {
      task := { id := "t1", name := "Alpha" }
      subflow := some {
        nodes := [{ id := "b", kind := .decision, data := some {
          task := { id := "t2", name := "Beta" }
          subflow := some {
            nodes := [{ id := "a", kind := .decision }, { id := "c", kind := .decision }]
            edges := [⟨"a->c", "a", "c", none, false⟩, ⟨"c->b", "c", "b", none, false⟩] } } }] } } }]

theorem validate_exact_astray :
    ∃ e l, astray.validate = .error e ∧ e.parents = ["a", "b"] ∧ e.cause = .danglingEdge "c->b" "b" ∧
      astray.levelAt ["a", "b"] = .ok l ∧ l.nodeIds = ["a", "c"] ∧
      l.Defect (.danglingEdge "c->b" "b") := by
  obtain ⟨-, l, hl, hd⟩ := (validate_exact astray).2 _ rfl
  refine ⟨_, l, rfl, rfl, rfl, hl, ?_, hd⟩
  cases hl
  rfl

end Graph

end Workflow
