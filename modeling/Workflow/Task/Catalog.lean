import Workflow.Task.Definition
import Std.Data.HashMap

/-!
# Task catalogs

An ordered list of tasks with distinct ids, and the same list with the tasks of a store behind it.
-/

namespace Workflow

/-- Tasks in the order of their insertion, with an index of their places. -/
structure Catalog where
  tasks : Array Task := #[]
  index : Std.HashMap String Nat := {}
  /-- The index knows the first place of every id. -/
  index_eq : ∀ id : String, index[id]? = tasks.findIdx? (·.id == id) := by simp

namespace Catalog

/-- Adds a task, unless its id is taken; the first task of an id stays. Tells whether it was added. -/
def insert (c : Catalog) (t : Task) : Catalog × Bool :=
  if h : c.index[t.id]? = none then
    ({ tasks := c.tasks.push t
       index := c.index.insert t.id c.tasks.size
       index_eq := fun id => by
        have hid := c.index_eq id
        have ht := c.index_eq t.id
        rw [Std.HashMap.getElem?_insert, Array.findIdx?_push]
        by_cases e : t.id = id
        · subst e
          rw [h] at ht
          simp [← ht]
        · simp [e, hid] }, true)
  else (c, false)

def ofList (ts : List Task) : Catalog :=
  ts.foldl (fun c t => (c.insert t).1) {}

def lookup (c : Catalog) (id : String) : Option Task :=
  c.index[id]?.bind fun i => c.tasks[i]?

def contains (c : Catalog) (id : String) : Bool :=
  (c.lookup id).isSome

def ids (c : Catalog) : List String :=
  c.tasks.toList.map (·.id)

def ofText (text : String) : Except ReadError Catalog :=
  ((Codec.list Task.codec).readText text).map ofList

end Catalog

end Workflow
