import Workflow.Proofs.Sound.Build
import Workflow.Proofs.Sound.Subflow

/-!
# Sessions keep graphs sound

A session edits a graph at any path, with merges pending anywhere, and opens the subflows of nodes in
views that are edited like levels and kept in nodes again. Whatever is done and in whatever order, a
graph that was built from a spec stays sound.
-/

namespace Workflow

/-- A graph with what is open on it. -/
structure Session (σ : Type) where
  graph : Graph
  desk : Desk σ
  views : List Level := []

/-- Where a path starts. -/
inductive Place
  | graph
  /-- The view number `k`. -/
  | view (k : Nat)

/-- What is done to a level. -/
inductive Action (σ : Type)
  | command (c : Command σ)
  | removeInterior (id : String)
  | layout (c : Layout)
  /-- Keeps the view number `k` in a node. -/
  | attach (id : String) (k : Nat)

inductive Move (σ : Type)
  | edit (place : Place) (path : Path) (a : Action σ)
  /-- Opens the subflow of a node in a new view. -/
  | openView (place : Place) (path : Path) (id : String)

variable {σ : Type}

/-- The edit of a level. A layout without free slots and a view that is not there change nothing. -/
def Action.edit (s : Session σ) (l : Level) : Action σ → Edited (Desk σ)
  | command c => (c.edit s.desk l).map (·.2)
  | removeInterior id => (l.removeInterior id).map fun _ => s.desk
  | layout c =>
    match c.apply l with
    | some (l, _) => { level := l, result := s.desk }
    | none => { level := l, result := s.desk }
  | attach id k =>
    match s.views[k]? with
    | some view => (Level.attach id view l).map fun _ => s.desk
    | none => { level := l, result := s.desk }

namespace Session

def start (g : Graph) (tokens : TokenSupply) (store : σ) : Session σ :=
  { graph := g, desk := { tokens, store } }

def edit (f : Level → Edited (Desk σ)) (place : Place) (path : Path) (s : Session σ) : Session σ :=
  match place with
  | .graph =>
    match s.graph.editAt f path with
    | .ok (desk, graph) => { s with graph, desk }
    | .error _ => s
  | .view k =>
    match s.views[k]? with
    | some view =>
      match view.editAt f 0 path with
      | .ok (desk, view) => { s with desk, views := s.views.set k view }
      | .error _ => s
    | none => s

def levelAt (s : Session σ) (place : Place) (path : Path) : Option Level :=
  match place with
  | .graph => (s.graph.levelAt path).toOption
  | .view k => s.views[k]?.bind fun view => (view.resolve 0 path).toOption

def viewOf (s : Session σ) (place : Place) (path : Path) (id : String) : Option Level :=
  (s.levelAt place path).bind fun l => (l.node? id).bind fun n => n.openSubflow.toOption

def step (s : Session σ) : Move σ → Session σ
  | .edit place path a => s.edit (a.edit s) place path
  | .openView place path id => { s with views := s.views ++ (s.viewOf place path id).toList }

def run (s : Session σ) (moves : List (Move σ)) : Session σ := moves.foldl step s

structure Sound (s : Session σ) : Prop where
  graph : s.graph.Sound
  desk : s.desk.Sound
  views : ∀ view ∈ s.views, view.Everywhere Level.Sound

end Session

variable {s : Session σ} {a : Action σ} {f : Level → Edited (Desk σ)} {place : Place} {path : Path}
variable {l : Level} {id : String}

-- ---------------------------------------------------------------------------
-- One move
-- ---------------------------------------------------------------------------

theorem Action.edit_sound (hs : s.Sound) (a : Action σ) : SoundEdit (a.edit s) := by
  intro l hl
  cases a with
  | command c => exact c.edit_sound hs.desk l hl
  | removeInterior id => exact Level.removeInterior_sound id l hl
  | layout c =>
    simp only [edit]
    split
    · rename_i placed k h
      obtain ⟨hplaced, hids⟩ := Layout.apply_sound hl h
      exact ⟨hplaced, .of_subset fun _ hid => hids ▸ hid⟩
    · exact ⟨hl, .of_subset fun _ h => h⟩
  | attach id k =>
    simp only [edit]
    split
    · rename_i view hk
      exact Level.attach_sound (hs.views view (List.mem_of_getElem? hk)) id l hl
    · exact ⟨hl, .of_subset fun _ h => h⟩

theorem Action.desk_sound (hs : s.Sound) (hl : l.Everywhere Level.Sound) :
    (a.edit s l).result.Sound := by
  cases a with
  | command c => exact c.desk_sound hs.desk hl
  | removeInterior id => exact hs.desk
  | layout c =>
    simp only [edit]
    split <;> exact hs.desk
  | attach id k =>
    simp only [edit]
    split <;> exact hs.desk

namespace Session

theorem Sound.edit (hs : s.Sound) (hf : SoundEdit f)
    (hd : ∀ l, l.Everywhere Level.Sound → (f l).result.Sound) (place : Place) (path : Path) :
    (s.edit f place path).Sound := by
  cases place with
  | graph =>
    simp only [Session.edit]
    split
    · rename_i desk g h
      obtain ⟨hg, l, hl, rfl⟩ := Graph.editAt_sound hf hs.graph h
      exact ⟨hg, hd l hl, hs.views⟩
    · exact hs
  | view k =>
    simp only [Session.edit]
    split
    · rename_i view hk
      split
      · rename_i desk view' h
        have hview := hs.views view (List.mem_of_getElem? hk)
        obtain ⟨hview', -, l, hl, rfl⟩ := Level.editAt_sound hf hview h
        refine ⟨hs.graph, hd l hl, fun v hv => ?_⟩
        rcases List.mem_or_eq_of_mem_set hv with hv | rfl
        · exact hs.views v hv
        · exact hview'
      · exact hs
    · exact hs

theorem levelAt_sound (hs : s.Sound) (h : s.levelAt place path = some l) :
    l.Everywhere Level.Sound := by
  cases place with
  | graph => exact Level.resolve_sound hs.graph.levels (toOption_eq_some.mp h)
  | view k =>
    obtain ⟨view, hk, h⟩ := Option.bind_eq_some_iff.mp h
    exact Level.resolve_sound (hs.views view (List.mem_of_getElem? hk)) (toOption_eq_some.mp h)

theorem viewOf_sound {view : Level} (hs : s.Sound) (h : s.viewOf place path id = some view) :
    view.Everywhere Level.Sound := by
  obtain ⟨l, hl, h⟩ := Option.bind_eq_some_iff.mp h
  obtain ⟨n, hn, h⟩ := Option.bind_eq_some_iff.mp h
  obtain ⟨-, hnodes, -⟩ := Level.sound_iff.mp (levelAt_sound hs hl)
  exact Node.openSubflow_sound (hnodes n (Level.node?_mem hn).1) (toOption_eq_some.mp h)

theorem Sound.step (hs : s.Sound) (m : Move σ) : (s.step m).Sound := by
  cases m with
  | edit place path a =>
    exact hs.edit (a.edit_sound hs) (fun l hl => a.desk_sound hs hl) place path
  | openView place path id =>
    refine ⟨hs.graph, hs.desk, fun view hv => ?_⟩
    rcases List.mem_append.mp hv with hv | hv
    · exact hs.views view hv
    · exact viewOf_sound hs (Option.mem_toList.mp hv)

theorem Sound.run (hs : s.Sound) (moves : List (Move σ)) : (s.run moves).Sound := by
  induction moves generalizing s with
  | nil => exact hs
  | cons m moves ih => exact ih (hs.step m)

/-- A graph that was built from a spec is sound and valid after any moves. -/
theorem session_sound {lookup : Lookup} {layout : Option Layout} {w : WorkflowSpec} {g : Graph}
    {tokens : TokenSupply} (hb : w.buildWith lookup layout = .ok (some g))
    (ht : Function.Injective tokens.token) (store : σ) (moves : List (Move σ)) :
    ((start g tokens store).run moves).graph.Sound ∧
      ((start g tokens store).run moves).graph.validate = .ok () := by
  have hstart : (start g tokens store).Sound :=
    ⟨WorkflowSpec.buildWith_sound hb, ⟨ht, nofun, nofun⟩, nofun⟩
  have hsound := (hstart.run moves).graph
  exact ⟨hsound, hsound.validate⟩

/-- A task node with a subflow, an edge that leads to it, and a phase that lists it. -/
def builtSpec : WorkflowSpec where
  nodes := [{ id := "in", kind := .input },
    { id := "a", kind := .task, taskId := some "t1"
      subflow := some { nodes := [{ id := "x", kind := .decision }] } }]
  edges := [{ source := "in", target := "a" }]
  phases := [{ id := "p", name := "All", nodeIds := ["a", "gone"] }]

def oneTask : Lookup := fun id =>
  if id = "t1" then some { id := "t1", name := "Alpha", config := { tools := ["x", "x"] } } else none

def numerals : TokenSupply := { token := toString }

/-- The subflow is edited in a view and kept, and a new node is merged away. -/
def sampleMoves (setting : Merge.Setting MemoryStore) : List (Move MemoryStore) :=
  let beta : Task := { id := "t2", name := "Beta", config := { rags := ["r", "r"] } }
  [.openView .graph [] "a", .edit (.view 0) [] (.command (.addTask beta none)),
    .edit .graph [] (.attach "a" 0), .edit .graph [] (.command (.addTask beta none)),
    .edit .graph [] (.command (.start "a" "task-1")),
    .edit .graph ["a"] (.command (.remove "x")),
    .edit .graph [] (.command (.resolve setting 0)), .edit .graph [] (.command (.commit setting 0))]

theorem session_sound_sample :
    ∃ (g : Graph) (setting : Merge.Setting MemoryStore),
      builtSpec.buildWith oneTask none = .ok (some g) ∧ Function.Injective numerals.token ∧
      ((start g numerals {}).run (sampleMoves setting)).graph.Sound ∧
      ((start g numerals {}).run (sampleMoves setting)).graph.nodeIds = ["in", "a"] := by
  have ht : Function.Injective numerals.token := fun _ _ h => Nat.repr_injective h
  refine ⟨_, { append := MemoryStore.put }, rfl, ht, ?_, rfl⟩
  exact (session_sound (rfl : builtSpec.buildWith oneTask none = .ok (some _)) ht
    ({} : MemoryStore) _).1

end Session

end Workflow
