import Workflow.Merge.Run
import Workflow.Proofs.Text.Trim

/-!
# What an accepted name is like

A suggested name is trimmed once: white space, then quotes, then white space. `accepted_names`: what
is accepted is a part of the suggestion, on one line and within the limit, and has no white space at
its ends. It has no quotes there either, and is accepted as it is a second time, unless the
suggestion has quotes inside its outer quotes that white space keeps apart from them.
-/

namespace Workflow.Merge

variable {raw name : String} {limit : Nat} {cs : List Char}

-- ---------------------------------------------------------------------------
-- Quotes inside quotes
-- ---------------------------------------------------------------------------

/-- The text begins with quotes, behind white space at most, and has quotes again behind the white
space that follows them. -/
inductive Nested : List Char → Prop
  | intro {outer quotes inner rest : List Char} {c : Char} :
    (∀ c ∈ outer, Text.isBlank c = true) → (∀ c ∈ quotes, isQuote c = true) → quotes ≠ [] →
    (∀ c ∈ inner, Text.isBlank c = true) → inner ≠ [] → isQuote c = true →
    Nested (outer ++ (quotes ++ (inner ++ c :: rest)))

theorem not_blank_of_quote {c : Char} (h : isQuote c = true) : Text.isBlank c = false := by
  simp only [isQuote, Bool.or_eq_true, beq_iff_eq] at h
  rcases h with rfl | rfl <;> rfl

theorem not_quote_of_blank {c : Char} (h : Text.isBlank c = true) : isQuote c = false :=
  Bool.eq_false_iff.mpr fun hquote => by simp [not_blank_of_quote hquote] at h

/-- The text without white space, quotes and white space at its beginning. -/
def stripFront (cs : List Char) : List Char :=
  ((cs.dropWhile Text.isBlank).dropWhile isQuote).dropWhile Text.isBlank

theorem stripFront_nested {outer quotes inner rest : List Char} {c : Char}
    (houter : ∀ c ∈ outer, Text.isBlank c = true) (hquotes : ∀ c ∈ quotes, isQuote c = true)
    (hne : quotes ≠ []) (hinner : ∀ c ∈ inner, Text.isBlank c = true) (hne' : inner ≠ [])
    (hc : isQuote c = true) :
    stripFront (outer ++ (quotes ++ (inner ++ c :: rest))) = c :: rest := by
  have hfirst : ∀ d ∈ (quotes ++ (inner ++ c :: rest)).head?, Text.isBlank d = false := by
    rw [List.head?_append_of_ne_nil _ hne]
    exact fun d hd => not_blank_of_quote (hquotes d (List.mem_of_mem_head? hd))
  have hsecond : ∀ d ∈ (inner ++ c :: rest).head?, isQuote d = false := by
    rw [List.head?_append_of_ne_nil _ hne']
    exact fun d hd => not_quote_of_blank (hinner d (List.mem_of_mem_head? hd))
  have hthird : ∀ d ∈ (c :: rest).head?, Text.isBlank d = false := by
    simpa using not_blank_of_quote hc
  rw [stripFront, Text.dropWhile_run houter hfirst, Text.dropWhile_run hquotes hsecond,
    Text.dropWhile_run hinner hthird]

/-- Quotes inside quotes are what shows once the white space and the quotes before them are gone. -/
theorem nested_iff : Nested cs ↔ ∃ c ∈ (stripFront cs).head?, isQuote c = true := by
  constructor
  · rintro ⟨houter, hquotes, hne, hinner, hne', hc⟩
    rw [stripFront_nested houter hquotes hne hinner hne' hc]
    exact ⟨_, rfl, hc⟩
  · rintro ⟨c, hc, hquote⟩
    obtain ⟨rest, hthird⟩ := List.head?_eq_some_iff.mp hc
    obtain ⟨outer, hcs, houter⟩ := Text.dropWhile_split Text.isBlank cs
    obtain ⟨quotes, hfirst, hquotes⟩ := Text.dropWhile_split isQuote (cs.dropWhile Text.isBlank)
    obtain ⟨inner, hsecond, hinner⟩ := Text.dropWhile_split Text.isBlank
      ((cs.dropWhile Text.isBlank).dropWhile isQuote)
    rw [← stripFront, hthird] at hsecond
    -- Each run ends where the next one begins, so none of the two inner ones is empty.
    have hne' : inner ≠ [] := by
      rintro rfl
      have hstop := Text.head_dropWhile isQuote (cs.dropWhile Text.isBlank) c (by rw [hsecond]; rfl)
      simp [hquote] at hstop
    have hne : quotes ≠ [] := by
      rintro rfl
      have hstop := Text.head_dropWhile Text.isBlank cs (inner.head hne') (by
        rw [hfirst, List.nil_append, hsecond, List.head?_append_of_ne_nil _ hne']
        exact List.head?_eq_some_head hne')
      simp [hinner _ (List.head_mem hne')] at hstop
    rw [hcs, hfirst, hsecond]
    exact .intro houter hquotes hne hinner hne' hquote

-- ---------------------------------------------------------------------------
-- The ends of a name
-- ---------------------------------------------------------------------------

/-- The characters of a clean name. -/
def strip (cs : List Char) : List Char :=
  Text.trimBy Text.isBlank (Text.trimBy isQuote (Text.trimBy Text.isBlank cs))

theorem toList_cleanName : (cleanName raw).toList = strip raw.toList := String.toList_ofList

theorem strip_isInfix (cs : List Char) : strip cs <:+: cs :=
  (Text.trimBy_isInfix _ _).trans ((Text.trimBy_isInfix _ _).trans (Text.trimBy_isInfix _ _))

theorem strip_reverse (cs : List Char) : strip cs.reverse = (strip cs).reverse := by
  simp only [strip, Text.trimBy_reverse]

/-- What is trimmed off at the back does not show at the front. -/
theorem strip_isPrefix (cs : List Char) : strip cs <+: stripFront cs := by
  have hfirst := Text.trimBy_isPrefix Text.isBlank cs
  have hsecond := (Text.trimBy_isPrefix isQuote _).trans (Text.dropWhile_isPrefix hfirst)
  exact (Text.trimBy_isPrefix Text.isBlank _).trans (Text.dropWhile_isPrefix hsecond)

/-- What is left of a text begins with a quote if the text has quotes inside quotes in front. -/
theorem head_strip (hne : strip cs ≠ []) :
    (∃ c ∈ (strip cs).head?, isQuote c = true) ↔ Nested cs := by
  obtain ⟨rest, hrest⟩ := strip_isPrefix cs
  rw [nested_iff, ← hrest, List.head?_append_of_ne_nil _ hne]

theorem bare_strip (hne : strip cs ≠ []) :
    Text.Bare isQuote (strip cs) ↔ ¬ Nested cs ∧ ¬ Nested cs.reverse := by
  have hne' : strip cs.reverse ≠ [] := by
    rw [strip_reverse]
    exact mt List.reverse_eq_nil_iff.mp hne
  rw [← head_strip hne, ← head_strip hne', strip_reverse, List.head?_reverse]
  simp only [not_exists, not_and, Bool.not_eq_true]
  exact ⟨fun h => ⟨h.head, h.last⟩, fun h => ⟨h.1, h.2⟩⟩

-- ---------------------------------------------------------------------------
-- Accepted names
-- ---------------------------------------------------------------------------

theorem acceptName_ok : acceptName raw limit = .ok name ↔
    cleanName raw = name ∧ name ≠ "" ∧ (∀ c ∈ name.toList, c ≠ '\n' ∧ c ≠ '\r') ∧
      name.length ≤ limit := by
  simp only [acceptName]
  split
  · rename_i hempty
    have hempty : cleanName raw = "" := by simpa using hempty
    simp only [reduceCtorEq, false_iff]
    rintro ⟨rfl, hne, -⟩
    exact hne hempty
  split
  · rename_i hlines
    simp only [reduceCtorEq, false_iff]
    rintro ⟨rfl, -, hline, -⟩
    obtain ⟨c, hc, hbreak⟩ := List.any_eq_true.mp hlines
    simp [hline c hc] at hbreak
  split
  · rename_i hlong
    simp only [reduceCtorEq, false_iff]
    rintro ⟨rfl, -, -, hshort⟩
    exact Nat.not_lt.mpr hshort hlong
  · rename_i hempty hlines hlong
    simp only [Except.ok.injEq]
    refine ⟨?_, And.left⟩
    rintro rfl
    refine ⟨rfl, by simpa using hempty, fun c hc => ?_, Nat.not_lt.mp hlong⟩
    simpa [not_or] using mt (fun h => List.any_eq_true.mpr ⟨c, hc, h⟩) hlines

/-- What a name is like that was accepted from a suggestion, whatever the suggestion. -/
structure Accepted (raw : String) (limit : Nat) (name : String) : Prop where
  nonempty : name ≠ ""
  trimmed : Text.Bare Text.isBlank name.toList
  oneLine : ∀ c ∈ name.toList, c ≠ '\n' ∧ c ≠ '\r'
  short : name.length ≤ limit
  part : name.toList <:+: raw.toList

theorem accepted_of_ok (h : acceptName raw limit = .ok name) : Accepted raw limit name := by
  obtain ⟨rfl, hne, hline, hshort⟩ := acceptName_ok.mp h
  have htrimmed : Text.Bare Text.isBlank (cleanName raw).toList := by
    rw [toList_cleanName]
    exact Text.bare_trimBy _ _
  have hpart : (cleanName raw).toList <:+: raw.toList := by
    rw [toList_cleanName]
    exact strip_isInfix _
  exact ⟨hne, htrimmed, hline, hshort, hpart⟩

theorem unquoted_of_ok (h : acceptName raw limit = .ok name) :
    Text.Bare isQuote name.toList ↔ ¬ Nested raw.toList ∧ ¬ Nested raw.toList.reverse := by
  obtain ⟨rfl, hne, -, -⟩ := acceptName_ok.mp h
  have hne := mt String.toList_eq_nil_iff.mp hne
  rw [toList_cleanName] at hne ⊢
  exact bare_strip hne

/-- An accepted name is accepted as it is a second time exactly if it has no quote at its ends. -/
theorem Accepted.again (h : Accepted raw limit name) :
    acceptName name limit = .ok name ↔ Text.Bare isQuote name.toList := by
  have hclean : cleanName name = name ↔
      Text.trimBy Text.isBlank (Text.trimBy isQuote name.toList) = name.toList := by
    rw [← String.toList_inj, toList_cleanName, strip, Text.trimBy_eq_self.mpr h.trimmed]
  rw [acceptName_ok, hclean, ← Text.trimBy_eq_self]
  constructor
  · rintro ⟨hsame, -⟩
    refine (Text.trimBy_isInfix _ _).sublist.eq_of_length_le ?_
    exact (congrArg List.length hsame).ge.trans (Text.trimBy_isInfix _ _).length_le
  · intro hsame
    exact ⟨by rw [hsame, Text.trimBy_eq_self.mpr h.trimmed], h.nonempty, h.oneLine, h.short⟩

/-- A merged task has the names of its sources, or what is accepted from a reply in time. -/
theorem name_resolve (c : Config) (namer : Namer) (clock : Bool) (tokens : TokenSupply)
    (p : Pending) :
    (resolve c namer clock tokens p).1.task.name = fallbackName p.sources c.separator ∨
      ∃ raw, (namer p.sources).within (if clock then c.namingTimeout else none) = .ok raw ∧
        acceptName raw c.maxNameLength = .ok (resolve c namer clock tokens p).1.task.name := by
  simp only [resolve, task, nameFor]
  cases hreply : (namer p.sources).within (if clock then c.namingTimeout else none) with
  | error e => exact .inl rfl
  | ok raw =>
    cases hname : acceptName raw c.maxNameLength with
    | error e => exact .inl (by simp [Except.bind, hname])
    | ok name => exact .inr ⟨raw, rfl, by simp [Except.bind, hname]⟩

/-- An accepted name is a trimmed part of the suggestion, not empty, on one line and within the
limit. It has no quote at its ends, and is accepted as it is a second time, exactly if neither end of
the suggestion has quotes inside quotes with white space between. A merge gives its task such a name
or those of its sources. -/
theorem accepted_names (raw name : String) (limit : Nat) (c : Config) (namer : Namer)
    (clock : Bool) (tokens : TokenSupply) (p : Pending) :
    (acceptName raw limit = .ok name → Accepted raw limit name ∧
      (Text.Bare isQuote name.toList ↔ ¬ Nested raw.toList ∧ ¬ Nested raw.toList.reverse) ∧
      (acceptName name limit = .ok name ↔ ¬ Nested raw.toList ∧ ¬ Nested raw.toList.reverse)) ∧
    ((resolve c namer clock tokens p).1.task.name = fallbackName p.sources c.separator ∨
      ∃ raw, (namer p.sources).within (if clock then c.namingTimeout else none) = .ok raw ∧
        acceptName raw c.maxNameLength = .ok (resolve c namer clock tokens p).1.task.name) := by
  refine ⟨fun h => ?_, name_resolve c namer clock tokens p⟩
  have haccepted := accepted_of_ok h
  have hunquoted := unquoted_of_ok h
  exact ⟨haccepted, hunquoted, haccepted.again.trans hunquoted⟩

/-- Quotes right inside quotes are trimmed off with them. -/
theorem accepted_names_nested :
    acceptName " \"'Evidence Digest'\" " 15 = .ok "Evidence Digest" ∧
      "Evidence Digest".toList <:+: " \"'Evidence Digest'\" ".toList ∧
      ¬ Nested " \"'Evidence Digest'\" ".toList := by
  have hname : acceptName " \"'Evidence Digest'\" " 15 = .ok "Evidence Digest" := by decide
  obtain ⟨haccepted, -, hagain⟩ := (accepted_names " \"'Evidence Digest'\" " "Evidence Digest" 15
    {} noNamer true ⟨toString, 0⟩ ⟨"a", "b", default, default, [], {}⟩).1 hname
  exact ⟨hname, haccepted.part, (hagain.mp (by decide)).1⟩

/-- Quotes inside quotes are not, if white space stands between them. The name that is accepted then
begins with a quote, and may even be one that is refused itself. -/
theorem quoted_name_accepted :
    acceptName "\" 'Evidence Digest' \"" 60 = .ok "'Evidence Digest'" ∧
      ¬ Text.Bare isQuote "'Evidence Digest'".toList ∧
      acceptName "'Evidence Digest'" 60 = .ok "Evidence Digest" ∧
      acceptName "\" \"\" \"" 60 = .ok "\"\"" ∧
      acceptName "\"\"" 60 = .error (.malformed "empty name") := by
  refine ⟨by decide, fun h => ?_, by decide, by decide, by decide⟩
  exact absurd (h.head '\'' rfl) (by decide)

end Workflow.Merge
