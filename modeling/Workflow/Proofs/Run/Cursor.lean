import Workflow.CommandLine.Run
import Workflow.Proofs.Graph.Focus
import Workflow.Proofs.Run.Command

/-!
# The cursor of a navigator

A navigator knows no more than the ids of its path, while the levels on it are edited. Its path
leads to a level all the same: an edit at the cursor replaces the level there and leaves the way to
it, a path gets longer only where there is a subflow, and a shorter one leads to a level on the way.
So a run of the command line that has merged has a level and a trail to show.
-/

namespace Workflow

variable {α σ : Type} {g : Graph} {l m m' : Level} {n : Node} {nav nav' : Navigator} {id : String}
variable {path rest taken : Path}

-- ---------------------------------------------------------------------------
-- Paths under edits
-- ---------------------------------------------------------------------------

theorem Level.Reaches.append (h : l.Reaches path m) (h' : m.Reaches rest m') :
    l.Reaches (path ++ rest) m' := by
  have hresolve : l.resolve 0 (path ++ rest) = .ok m' := h.resolve_append.trans h'.resolve
  exact resolve_ok.mp hresolve

theorem Level.Reaches.of_isPrefix (h : l.Reaches path m) (hp : taken <+: path) :
    ∃ m', l.Reaches taken m' := by
  obtain ⟨rest, rfl⟩ := hp
  obtain ⟨m', hm', -⟩ := h.of_append
  exact ⟨m', hm'⟩

/-- An edit at the end of a path leaves the way to it. -/
theorem Graph.editAt_reaches (h : g.toLevel.Reaches path m) (f : Level → Edited α) :
    ∃ g', g.editAt f path = .ok ((f m).result, g') ∧ g'.toLevel.Reaches path (f m).level := by
  cases path with
  | nil =>
    cases h
    exact ⟨_, editAt_root f, .here⟩
  | cons id path => exact ⟨_, editAt_inside h f, h.replaced _⟩

namespace Navigator

/-- The navigator is at the level `l`, which can be shown and edited; the trail names the root and
each step. -/
structure Stands (nav : Navigator) (g : Graph) (l : Level) : Prop where
  level : nav.level g = .ok l
  edit : ∀ {α : Type} (f : Level → Edited α), ∃ g',
    g.editAt f nav.path = .ok ((f l).result, g') ∧ nav.level g' = .ok (f l).level
  trail : ∃ trail, nav.trail g = .ok trail ∧ trail.length = nav.path.length + 1 ∧
    trail.map (·.id) = rootCrumbId :: nav.path

theorem stands_of_reaches (h : g.toLevel.Reaches nav.path l) : nav.Stands g l where
  level := Graph.levelAt_ok.mpr h
  edit f := by
    obtain ⟨g', hg', hl⟩ := Graph.editAt_reaches h f
    exact ⟨g', hg', Graph.levelAt_ok.mpr hl⟩
  trail := by
    obtain ⟨trail, htrail, ht⟩ := h.crumbs 0
    refine ⟨⟨rootCrumbId, nav.rootLabel⟩ :: trail, ?_, ?_, ?_⟩
    · simp only [Navigator.trail, Graph.trail, htrail]
      rfl
    · rw [List.length_cons, ← ht.ids, List.length_map]
    · rw [List.map_cons, ht.ids]

/-- Why a node cannot be entered from the level `l`. -/
inductive Refuses (l : Level) (depth : Nat) (id : String) : PathError → Prop
  | missing (hn : l.node? id = none) : Refuses l depth id (.nodeNotFound depth id)
  | closed {n : Node} (hn : l.node? id = some n) (hd : ¬ n.isDrillable) :
      Refuses l depth id (.noSubflow depth id)

theorem push_cases (h : nav.level g = .ok l) (id : String) :
    (∃ n, l.node? id = some n ∧ n.isDrillable ∧
      nav.push g id = .ok { nav with path := nav.path ++ [id] }) ∨
    ∃ e, Refuses l nav.path.length id e ∧ nav.push g id = .error e := by
  unfold push
  simp only [h, bind, Except.bind]
  cases hn : l.node? id with
  | none => exact .inr ⟨_, .missing hn, rfl⟩
  | some n =>
    by_cases hd : n.isDrillable
    · exact .inl ⟨n, rfl, hd, by simp [hd, Path.push]⟩
    · exact .inr ⟨_, .closed hn hd, by simp [hd]⟩

theorem push_reaches (h : g.toLevel.Reaches nav.path l) (hp : nav.push g id = .ok nav') :
    ∃ m, g.toLevel.Reaches nav'.path m := by
  rcases push_cases (Graph.levelAt_ok.mpr h) id with ⟨n, hn, hd, hpush⟩ | ⟨e, -, hpush⟩
  · rw [hpush] at hp
    cases hp
    cases hs : n.subflow with
    | none => simp [Node.isDrillable, hs] at hd
    | some sub => exact ⟨sub, h.append (.down hn hs .here)⟩
  · rw [hpush] at hp
    cases hp

end Navigator

-- ---------------------------------------------------------------------------
-- Moves and edits in any order
-- ---------------------------------------------------------------------------

/-- A graph with a navigator on it, and what is on the desk of who edits at the cursor. -/
structure Tour (σ : Type) where
  graph : Graph
  nav : Navigator := {}
  desk : Desk σ

inductive Tour.Move (σ : Type)
  | push (id : String)
  | pop
  | jump (depth : Nat)
  | reset
  /-- Edits the level at the cursor. -/
  | edit (c : Command σ)

namespace Tour

/-- A push that fails and an edit of no level change nothing. -/
def step (t : Tour σ) : Move σ → Tour σ
  | .push id =>
    match t.nav.push t.graph id with
    | .ok nav => { t with nav }
    | .error _ => t
  | .pop => { t with nav := t.nav.pop.2 }
  | .jump depth => { t with nav := t.nav.jump depth }
  | .reset => { t with nav := t.nav.reset }
  | .edit c =>
    match t.graph.editAt (c.edit t.desk) t.nav.path with
    | .ok ((_, desk), graph) => { t with graph, desk }
    | .error _ => t

def run (t : Tour σ) (moves : List (Move σ)) : Tour σ := moves.foldl step t

/-- The path of the navigator leads to a level. -/
def Leads (t : Tour σ) : Prop := ∃ m, t.graph.toLevel.Reaches t.nav.path m

variable {t : Tour σ}

theorem Leads.step (h : t.Leads) (move : Move σ) : (t.step move).Leads := by
  obtain ⟨m, hm⟩ := h
  cases move with
  | push id =>
    simp only [Tour.step]
    split
    · exact Navigator.push_reaches hm (by assumption)
    · exact ⟨m, hm⟩
  | pop => exact hm.of_isPrefix (List.dropLast_prefix t.nav.path)
  | jump depth => exact hm.of_isPrefix (List.take_prefix depth t.nav.path)
  | reset => exact hm.of_isPrefix List.nil_prefix
  | edit c =>
    obtain ⟨g', hg', hm'⟩ := Graph.editAt_reaches hm (c.edit t.desk)
    simp only [Tour.step, hg']
    exact ⟨_, hm'⟩

theorem Leads.run (h : t.Leads) (moves : List (Move σ)) : (t.run moves).Leads := by
  induction moves generalizing t with
  | nil => exact h
  | cons move moves ih => exact ih (h.step move)

end Tour

-- ---------------------------------------------------------------------------
-- The command line
-- ---------------------------------------------------------------------------

namespace CommandLine

variable {tokens : TokenSupply} {fs : Files} {directory ids : List String} {o : Options}
variable {store : Store} {target dropped : String}

/-- A run up to the level that it works at. -/
def entering (fs : Files) (directory : List String) (o : Options) :
    Except String (Store × Graph × Navigator) := do
  let (registry, catalog, store) ← load fs directory o
  let g ← build fs registry catalog store o
  let nav ← enter g {} o.steps
  return (store, g, nav)

theorem enter_reaches (h : g.toLevel.Reaches nav.path l) (he : enter g nav ids = .ok nav') :
    ∃ m, g.toLevel.Reaches nav'.path m := by
  induction ids generalizing nav l with
  | nil =>
    cases he
    exact ⟨l, h⟩
  | cons id ids ih =>
    simp only [enter] at he
    split at he
    · cases he
    · obtain ⟨m, hm⟩ := Navigator.push_reaches h (by assumption)
      exact ih hm he

theorem entering_reaches (h : entering fs directory o = .ok (store, g, nav)) :
    ∃ m, g.toLevel.Reaches nav.path m := by
  simp only [entering, bind_ok] at h
  obtain ⟨⟨registry, catalog, s⟩, -, g', -, nav', hnav, h⟩ := h
  cases h
  exact enter_reaches .here hnav

/-- How a run ends: with what kept it from its level, with what kept it from merging there, or with
the level and the trail to it. -/
inductive Ends (tokens : TokenSupply) (fs : Files) (directory : List String) (o : Options) :
    Report × Files → Prop
  | stopped {message : String} (h : entering fs directory o = .error message) :
      Ends tokens fs directory o (.failure message, fs)
  | refused {store : Store} {g g' : Graph} {nav : Navigator} {target dropped : String}
      {e : MergeError} {fs' : Files} (h : entering fs directory o = .ok (store, g, nav))
      (hm : o.merge = some (target, dropped))
      (hr : merge tokens store fs nav g target dropped =
        (.error ("Merge failed: " ++ e.message), g', fs')) :
      Ends tokens fs directory o (.failure ("Merge failed: " ++ e.message), fs')
  | merged {store : Store} {g g' : Graph} {nav : Navigator} {target dropped note : String}
      {fs' : Files} {l : Level} {trail : List Crumb}
      (h : entering fs directory o = .ok (store, g, nav)) (hm : o.merge = some (target, dropped))
      (hr : merge tokens store fs nav g target dropped = (.ok note, g', fs'))
      (hl : nav.level g' = .ok l) (ht : nav.trail g' = .ok trail) :
      Ends tokens fs directory o ({ stdout := view o.format trail l, stderr := note }, fs')
  | shown {store : Store} {g : Graph} {nav : Navigator} {l : Level} {trail : List Crumb}
      (h : entering fs directory o = .ok (store, g, nav)) (hm : o.merge = none)
      (hl : nav.level g = .ok l) (ht : nav.trail g = .ok trail) :
      Ends tokens fs directory o ({ stdout := view o.format trail l }, fs)

theorem finish_of_stands (h : nav.Stands g l) (stderr : String) : ∃ trail,
    nav.trail g = .ok trail ∧
      finish o nav g stderr = { stdout := view o.format trail l, stderr } := by
  obtain ⟨trail, htrail, -⟩ := h.trail
  refine ⟨trail, htrail, ?_⟩
  simp only [finish, htrail, h.level]

/-- A merge at the cursor is refused, or leaves a graph on which the cursor is at a level. -/
theorem merge_cases (tokens : TokenSupply) (store : Store) (fs : Files) (target dropped : String)
    (h : g.toLevel.Reaches nav.path l) : ∃ g' m fs', g'.toLevel.Reaches nav.path m ∧
      ((∃ e : MergeError, merge tokens store fs nav g target dropped =
        (.error ("Merge failed: " ++ e.message), g', fs')) ∨
      ∃ note, merge tokens store fs nav g target dropped = (.ok note, g', fs')) := by
  obtain ⟨g', hg', hm⟩ := Graph.editAt_reaches h
    fun l => Merge.combine { append := Store.append } target dropped tokens (store, fs) l
  rcases hresult :
      (Merge.combine { append := Store.append } target dropped tokens (store, fs) l).result
    with ⟨e | _ | outcome, tokens', store', fs'⟩ <;> rw [hresult] at hg'
  case error => exact ⟨g', _, fs', hm, .inl ⟨e, by simp only [merge, hg']⟩⟩
  all_goals exact ⟨g', _, fs', hm, .inr ⟨_, by simp only [merge, hg']; rfl⟩⟩

theorem runWith_ends (tokens : TokenSupply) (fs : Files) (directory : List String) (o : Options) :
    Ends tokens fs directory o (runWith tokens fs directory o) := by
  unfold runWith
  extract_lets entered
  have hentered : entered = entering fs directory o := rfl
  rw [hentered]
  cases hentering : entering fs directory o with
  | error message => exact .stopped hentering
  | ok entered =>
    obtain ⟨store, g, nav⟩ := entered
    obtain ⟨l, hl⟩ := entering_reaches hentering
    cases hmerge : o.merge with
    | none =>
      have hstands := Navigator.stands_of_reaches hl
      obtain ⟨trail, htrail, hfinish⟩ := finish_of_stands (o := o) hstands ""
      simp only [hfinish]
      exact .shown hentering hmerge hstands.level htrail
    | some pair =>
      obtain ⟨target, dropped⟩ := pair
      obtain ⟨g', m, fs', hm, ⟨e, hr⟩ | ⟨note, hr⟩⟩ :=
        merge_cases tokens store fs target dropped hl
      · simp only [hr]
        exact .refused hentering hmerge hr
      · have hstands := Navigator.stands_of_reaches hm
        obtain ⟨trail, htrail, hfinish⟩ := finish_of_stands (o := o) hstands note
        simp only [hr, hfinish]
        exact .merged hentering hmerge hr hstands.level htrail

end CommandLine

-- ---------------------------------------------------------------------------
-- The path never dangles
-- ---------------------------------------------------------------------------

/-- Whatever the moves and the edits at the cursor of a new navigator, the cursor is at a level: it
can be shown and edited, and the trail has an entry more than the path has steps. A push goes into a
node that can be entered, or fails and changes nothing. So the command line, once it has a level to
work at, shows one in the end unless the merge there is refused. -/
theorem Tour.always_stands (g : Graph) (rootLabel : String) (desk : Desk σ)
    (moves : List (Move σ)) : let t := run ⟨g, { rootLabel }, desk⟩ moves
    (∃ l, t.nav.Stands t.graph l ∧ ∀ id,
      (∃ n, l.node? id = some n ∧ n.isDrillable ∧
        t.step (.push id) = { t with nav.path := t.nav.path ++ [id] }) ∨
      ∃ e, Navigator.Refuses l t.nav.path.length id e ∧ t.nav.push t.graph id = .error e ∧
        t.step (.push id) = t) ∧
    ∀ tokens fs directory o,
      CommandLine.Ends tokens fs directory o (CommandLine.runWith tokens fs directory o) := by
  intro t
  have hstart : Tour.Leads ⟨g, { rootLabel }, desk⟩ := ⟨g.toLevel, .here⟩
  obtain ⟨l, hl⟩ : t.Leads := hstart.run moves
  have hstands := Navigator.stands_of_reaches hl
  refine ⟨⟨l, hstands, fun id => ?_⟩, CommandLine.runWith_ends⟩
  rcases Navigator.push_cases hstands.level id with ⟨n, hn, hd, hpush⟩ | ⟨e, he, hpush⟩
  · exact .inl ⟨n, hn, hd, by simp only [step, hpush]⟩
  · exact .inr ⟨e, he, hpush, by simp only [step, hpush]⟩

/-- The subflow of `a` loses all its nodes while the navigator is in it. -/
example :
    let inner : Level := { nodes := [{ id := "x", kind := .decision }] }
    let data : TaskData := { task := { id := "t", name := "Alpha" }, subflow := some inner }
    let g : Graph := { nodes := [{ id := "a", kind := .task, data := some data }] }
    let t := Tour.run (σ := Unit) ⟨g, {}, ⟨⟨toString, 0⟩, (), [], []⟩⟩
      [.push "a", .edit (.remove "x"), .edit (.connect "x" "x"), .push "x"]
    t.nav.path = ["a"] ∧ (t.run [.pop, .push "a"]).nav.path = [] := by
  decide +kernel

end Workflow
