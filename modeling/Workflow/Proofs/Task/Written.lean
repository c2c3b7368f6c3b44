import Workflow.Proofs.Json.Reread
import Workflow.Proofs.Json.Text
import Workflow.Task.FileStore

/-!
# Tasks that are written and read back

`Task.rereads`: a task with a finite temperature is what is read of its JSON. A file of tasks is
read back too, `FileStore.parse_render`, if the text of every temperature is read as the number;
otherwise the tasks come back with the numbers that the texts are read as (`Task.ReadsAs`).
-/

namespace Workflow

def Task.Finite (t : Task) : Prop :=
  ∀ x, t.config.temperature = some x → x.isFinite

open Record (Unambiguous)
open Workflow.Field (required_fills defaulted_fills omitted_fills ite_omitted)
open Codec (string_rereads strings_reread float_rereads list_rereads string_refusesNull
  float_refusesNull)

theorem Task.Config.unambiguous : record.Unambiguous := by
  simp [record, Unambiguous, Field.answersTo, Field.omitted, Field.defaulted]

theorem Task.unambiguous : record.Unambiguous := by
  simp [record, Unambiguous, Field.answersTo, Field.required, Field.defaulted]

theorem Task.Config.rereads {c : Config} (hc : ∀ x, c.temperature = some x → x.isFinite) :
    record.codec.Rereads c c := by
  refine Record.rereads (fun seen => {
    model := if "model" ∈ seen then c.model else none
    temperature := if "temperature" ∈ seen then c.temperature else none
    tools := if "tools" ∈ seen then c.tools else []
    systemPrompt := if "systemPrompt" ∈ seen then c.systemPrompt else none
    agents := if "agents" ∈ seen then c.agents else []
    rags := if "rags" ∈ seen then c.rags else [] }) unambiguous rfl ?_ fun seen h => ?_
  · simp only [record, List.forall_mem_cons, List.not_mem_nil, false_imp_iff, implies_true, and_true]
    exact ⟨omitted_fills string_refusesNull (fun s _ => string_rereads s) (by simp +contextual),
      omitted_fills float_refusesNull (fun x hx => float_rereads (hc x hx)) (by simp +contextual),
      defaulted_fills (strings_reread _) (by simp),
      omitted_fills string_refusesNull (fun s _ => string_rereads s) (by simp +contextual),
      defaulted_fills (strings_reread _) (by simp),
      defaulted_fills (strings_reread _) (by simp)⟩
  · simp [record, Field.omitted, Field.defaulted] at h
    obtain ⟨hmodel, htemperature, htools, hprompt, hagents, hrags⟩ := h
    simp only [ite_omitted hmodel, ite_omitted htemperature, ite_omitted hprompt, if_pos htools,
      if_pos hagents, if_pos hrags]

theorem Task.rereads {t : Task} (ht : t.Finite) : codec.Rereads t t := by
  refine Record.rereads (fun seen => {
    id := if "id" ∈ seen then t.id else ""
    name := if "name" ∈ seen then t.name else ""
    description := if "description" ∈ seen then t.description else ""
    icon := if "icon" ∈ seen then t.icon else ""
    category := if "category" ∈ seen then t.category else ""
    config := if "config" ∈ seen then t.config else {} }) unambiguous rfl ?_ fun seen h => ?_
  · simp only [record, List.forall_mem_cons, List.not_mem_nil, false_imp_iff, implies_true, and_true]
    exact ⟨required_fills (string_rereads _) (by simp), required_fills (string_rereads _) (by simp),
      defaulted_fills (string_rereads _) (by simp), defaulted_fills (string_rereads _) (by simp),
      defaulted_fills (string_rereads _) (by simp), defaulted_fills (Config.rereads ht) (by simp)⟩
  · simp [record, Field.required, Field.defaulted] at h
    simp [h]

-- ---------------------------------------------------------------------------
-- Files of tasks
-- ---------------------------------------------------------------------------

/-- The temperature of the task is finite, and its text is read as the same number. -/
def Task.Exact (t : Task) : Prop :=
  ∀ x, t.config.temperature = some x → x.isFinite ∧ (Json.float x).ReadsBack

/-- Both numbers are finite, and the text of the first one is read as the second one. -/
structure FloatReadsAs (x y : Float) : Prop where
  written : x.isFinite
  read : y.isFinite
  text : Json.Document.ofText ((Json.float x).pretty 0) = ⟨.float y, true⟩

/-- The second task is the first one with the temperature that the text of its own is read as. -/
inductive Task.ReadsAs (t : Task) : Task → Prop
  | intro {temperature : Option Float} :
    Option.Rel FloatReadsAs t.config.temperature temperature →
    t.ReadsAs { t with config := { t.config with temperature } }

variable {t u : Task} {ts us : List Task} {k : Nat}

theorem Task.Exact.readsAs (h : t.Exact) : t.ReadsAs t := by
  refine @Task.ReadsAs.intro t t.config.temperature ?_
  cases ht : t.config.temperature with
  | none => exact .none
  | some x =>
    obtain ⟨hfinite, hback⟩ := h x ht
    exact .some ⟨hfinite, hfinite, hback⟩

theorem Task.ReadsAs.finite (h : t.ReadsAs u) : u.Finite := by
  obtain ⟨htemperature⟩ := h
  generalize t.config.temperature = x at htemperature
  rintro y rfl
  cases htemperature with
  | some h => exact h.read

theorem Record.readsAs {α : Type} {r : Record α} {a b : α}
    (h : ∀ f ∈ r.fields, Option.Rel (Json.ReadsAs · · k) (f.write a) (f.write b)) :
    (r.write a).ReadsAs (r.write b) (k + 1) := by
  refine Json.obj_readsAs ?_
  generalize r.fields = fields at h
  induction fields with
  | nil => exact .nil
  | cons f fields ih =>
    obtain ⟨hf, hfields⟩ := List.forall_mem_cons.mp h
    rw [List.filterMap_cons, List.filterMap_cons]
    generalize f.write a = w, f.write b = w' at hf
    cases hf with
    | none => exact ih hfields
    | some hw => exact .cons ⟨rfl, hw⟩ (ih hfields)

theorem string_readsAs (s : String) : (Codec.string.write s).ReadsAs (Codec.string.write s) k :=
  Json.str_readsAs

theorem strings_readsAs (ss : List String) :
    (Codec.string.list.write ss).ReadsAs (Codec.string.list.write ss) (k + 1) :=
  Json.arr_readsAs (List.forall₂_same.mpr (List.forall_mem_map.mpr fun s _ => string_readsAs s))

theorem optional_readsAs {α : Type} {R : α → α → Prop} {c : Codec α} {a b : Option α}
    (hc : ∀ a b, R a b → (c.write a).ReadsAs (c.write b) k) (h : Option.Rel R a b) :
    Option.Rel (Json.ReadsAs · · k) (a.map c.write) (b.map c.write) := by
  cases h with
  | none => exact .none
  | some h => exact .some (hc _ _ h)

theorem float_readsAs {x y : Float} (h : FloatReadsAs x y) :
    (Codec.float.write x).ReadsAs (Codec.float.write y) k := by
  simp only [Codec.float, Json.ofFloat, h.written, h.read, if_true]
  exact Json.float_readsAs h.text rfl

theorem Task.Config.readsAs {c : Config} {temperature : Option Float}
    (h : Option.Rel FloatReadsAs c.temperature temperature) :
    (record.write c).ReadsAs (record.write { c with temperature }) (k + 2) := by
  have hstring (s : Option String) : Option.Rel (Json.ReadsAs · · (k + 1))
      (s.map Codec.string.write) (s.map Codec.string.write) := by
    refine optional_readsAs (R := Eq) ?_ ?_
    · rintro s _ rfl
      exact string_readsAs s
    · cases s with
      | none => exact .none
      | some s => exact .some rfl
  refine Record.readsAs ?_
  simp only [record, List.forall_mem_cons, List.not_mem_nil, false_imp_iff, implies_true, and_true]
  exact ⟨hstring _, optional_readsAs (fun _ _ => float_readsAs) h, .some (strings_readsAs _),
    hstring _, .some (strings_readsAs _), .some (strings_readsAs _)⟩

theorem Task.ReadsAs.write (h : t.ReadsAs u) : (codec.write t).ReadsAs (codec.write u) (k + 3) := by
  obtain ⟨htemperature⟩ := h
  refine Record.readsAs ?_
  simp only [record, List.forall_mem_cons, List.not_mem_nil, false_imp_iff, implies_true, and_true]
  exact ⟨.some (string_readsAs _), .some (string_readsAs _), .some (string_readsAs _),
    .some (string_readsAs _), .some (string_readsAs _), .some (Config.readsAs htemperature)⟩

namespace FileStore

theorem render_head (ts : List Task) : ∃ cs, (render ts).toList = '[' :: cs := by
  simp only [render, Codec.list, Json.pretty, Json.block]
  split <;> simp

/-- What a store writes to its file is read as the same tasks, but for their temperatures. -/
theorem parse_readsAs (h : List.Forall₂ Task.ReadsAs ts us) : parse (render ts) = .ok us := by
  have hfinite : ∀ u ∈ us, u.Finite := by
    induction h with
    | nil => simp
    | cons hu _ ih => exact List.forall_mem_cons.mpr ⟨hu.finite, ih⟩
  obtain ⟨cs, hhead⟩ := render_head ts
  have hblank : Text.allBlank (render ts) = false := by
    simp only [Text.allBlank, hhead, List.all_cons]
    rfl
  have htasks : List.Forall₂ (Json.ReadsAs · · 126) (ts.map Task.codec.write)
      (us.map Task.codec.write) :=
    List.forall₂_map_left_iff.mpr (List.forall₂_map_right_iff.mpr (h.imp fun _ _ => (·.write)))
  have hdoc : Json.Document.ofText (render ts) = ⟨Task.codec.list.write us, true⟩ :=
    Json.ofText_pretty (Json.arr_readsAs htasks)
  have hread : Task.codec.list.read (Task.codec.list.write us) = .ok (us.map fun u => u) :=
    (list_rereads fun u hu => Task.rereads (hfinite u hu)).direct
  simp [parse, hblank, Codec.readText, hdoc, hread]

theorem parse_render (h : ∀ t ∈ ts, t.Exact) : parse (render ts) = .ok ts :=
  parse_readsAs (List.forall₂_same.mpr fun t ht => (h t ht).readsAs)

end FileStore

end Workflow
