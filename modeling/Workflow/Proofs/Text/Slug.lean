import Workflow.Proofs.Text.Trim
import Workflow.Text.Slug

/-!
# Slugs are canonical

A category is made of runs of letters and digits and of gaps between them (`HasRuns`). While it is
read, each gap adds a dash to what is written and each run adds itself in lower case
(`pushed_behind`); then the dashes of the gaps at the ends are trimmed off. What is left are the
runs, joined by dashes, and these are the runs of the slug itself (`hasRuns_joined`).
-/

namespace Workflow.Text

variable {cs gap run rest front : List Char} {rs gs : List (List Char)} {written : Array Char}
variable {text : String} {c : Char}

-- ---------------------------------------------------------------------------
-- Runs
-- ---------------------------------------------------------------------------

/-- The text is made of the given runs of letters and digits, which are not empty, and of gaps
without any. What stands behind a run does not go on with a letter or digit, so the runs are as long
as they can be. -/
inductive HasRuns : List Char → List (List Char) → Prop
  | none {gap : List Char} : (∀ c ∈ gap, c.isAlphanum = false) → HasRuns gap []
  | run {gap run rest : List Char} {rs : List (List Char)} :
    (∀ c ∈ gap, c.isAlphanum = false) → run ≠ [] → (∀ c ∈ run, c.isAlphanum = true) →
    (∀ c ∈ rest.head?, c.isAlphanum = false) → HasRuns rest rs →
    HasRuns (gap ++ (run ++ rest)) (run :: rs)

/-- The maximal runs of letters and digits of a text, in their order. -/
def runs (cs : List Char) : List (List Char) :=
  (cs.splitOnP fun c => !c.isAlphanum).filter (· ≠ [])

theorem HasRuns.ne_nil (h : HasRuns cs rs) : ∀ run ∈ rs, run ≠ [] := by
  induction h with
  | none => exact nofun
  | run _ hne _ _ _ ih => exact List.forall_mem_cons.mpr ⟨hne, ih⟩

theorem HasRuns.isAlphanum (h : HasRuns cs rs) : ∀ run ∈ rs, ∀ c ∈ run, c.isAlphanum = true := by
  induction h with
  | none => exact nofun
  | run _ _ hrun _ _ ih => exact List.forall_mem_cons.mpr ⟨hrun, ih⟩

theorem HasRuns.cons (hc : c.isAlphanum = false) (h : HasRuns cs rs) : HasRuns (c :: cs) rs := by
  cases h with
  | none hgap => exact .none (List.forall_mem_cons.mpr ⟨hc, hgap⟩)
  | @run gap run rest rs hgap hne hrun hrest h =>
    have hlonger : HasRuns ((c :: gap) ++ (run ++ rest)) (run :: rs) :=
      .run (List.forall_mem_cons.mpr ⟨hc, hgap⟩) hne hrun hrest h
    exact hlonger

theorem HasRuns.lead (hne : run ≠ []) (hrun : ∀ c ∈ run, c.isAlphanum = true)
    (hrest : ∀ c ∈ rest.head?, c.isAlphanum = false) (h : HasRuns rest rs) :
    HasRuns (run ++ rest) (run :: rs) := by
  have hnone : HasRuns ([] ++ (run ++ rest)) (run :: rs) := .run nofun hne hrun hrest h
  exact hnone

theorem exists_hasRuns (cs : List Char) : ∃ rs, HasRuns cs rs := by
  induction cs with
  | nil => exact ⟨[], .none nofun⟩
  | cons c cs ih =>
    obtain ⟨rs, h⟩ := ih
    by_cases hc : c.isAlphanum = true
    · have hone : ∀ d ∈ [c], d.isAlphanum = true := by simpa using hc
      by_cases hcs : ∀ d ∈ cs.head?, d.isAlphanum = false
      · have hfirst : HasRuns ([c] ++ cs) ([c] :: rs) := .lead (List.cons_ne_nil c []) hone hcs h
        exact ⟨_, hfirst⟩
      · -- The character stands right before the first run and belongs to it.
        cases h with
        | none hgap => exact absurd (fun d hd => hgap d (List.mem_of_mem_head? hd)) hcs
        | @run gap run rest rs hgap hne hrun hrest h =>
          have hnil : gap = [] := by
            by_contra hgap_ne
            rw [List.head?_append_of_ne_nil _ hgap_ne] at hcs
            exact hcs fun d hd => hgap d (List.mem_of_mem_head? hd)
          subst hnil
          have hrun : ∀ d ∈ c :: run, d.isAlphanum = true := List.forall_mem_cons.mpr ⟨hc, hrun⟩
          have hlonger : HasRuns ((c :: run) ++ rest) ((c :: run) :: rs) :=
            .lead (List.cons_ne_nil c run) hrun hrest h
          exact ⟨_, hlonger⟩
    · exact ⟨rs, h.cons (Bool.eq_false_iff.mpr hc)⟩

theorem runs_cons (hc : c.isAlphanum = false) : runs (c :: cs) = runs cs := by
  simp [runs, List.splitOnP_cons_eq_if_modifyHead, hc]

theorem runs_gap (hgap : ∀ c ∈ gap, c.isAlphanum = false) : runs (gap ++ cs) = runs cs := by
  induction gap with
  | nil => rfl
  | cons c gap ih =>
    obtain ⟨hc, hgap⟩ := List.forall_mem_cons.mp hgap
    rw [List.cons_append, runs_cons hc, ih hgap]

theorem runs_run (hne : run ≠ []) (hrun : ∀ c ∈ run, c.isAlphanum = true)
    (hrest : ∀ c ∈ rest.head?, c.isAlphanum = false) : runs (run ++ rest) = run :: runs rest := by
  have hsep : ∀ c ∈ run, (!c.isAlphanum) = false := fun c hc => by simp [hrun c hc]
  cases rest with
  | nil => simp [runs, List.splitOnP_eq_singleton hsep, hne]
  | cons c rest =>
    have hc : c.isAlphanum = false := hrest c rfl
    rw [runs_cons hc, runs, List.splitOnP_append_cons_of_forall_mem hsep c (by simp [hc])]
    simp [hne, runs]

/-- A text has no other runs than its maximal ones. -/
theorem hasRuns_iff : HasRuns cs rs ↔ rs = runs cs := by
  have hunique {rs : List (List Char)} (h : HasRuns cs rs) : rs = runs cs := by
    induction h with
    | @none gap hgap =>
      have hnone : runs (gap ++ []) = runs [] := runs_gap hgap
      rw [List.append_nil] at hnone
      exact hnone.symm
    | run hgap hne hrun hrest _ ih => rw [runs_gap hgap, runs_run hne hrun hrest, ← ih]
  refine ⟨hunique, ?_⟩
  rintro rfl
  obtain ⟨rs, h⟩ := exists_hasRuns cs
  exact hunique h ▸ h

-- ---------------------------------------------------------------------------
-- Lower case
-- ---------------------------------------------------------------------------

theorem isUpper_iff : c.isUpper = true ↔ 65 ≤ c.toNat ∧ c.toNat ≤ 90 :=
  decide_eq_true_iff

theorem isLower_iff : c.isLower = true ↔ 97 ≤ c.toNat ∧ c.toNat ≤ 122 := by
  change (decide (97 ≤ c.toNat) && decide (c.toNat ≤ 122)) = true ↔ _
  rw [Bool.and_eq_true, decide_eq_true_eq, decide_eq_true_eq]

theorem isAlphanum_iff : c.isAlphanum = true ↔
    (c.isUpper = true ∨ c.isLower = true) ∨ c.isDigit = true := by
  change ((c.isUpper || c.isLower) || c.isDigit) = true ↔ _
  rw [Bool.or_eq_true, Bool.or_eq_true]

theorem toNat_toLower (c : Char) :
    c.toLower.toNat = if c.isUpper then c.toNat + 32 else c.toNat := by
  split
  · rename_i h
    have hbounds := isUpper_iff.mp h
    have hlower : c.toLower = ⟨c.val + 32, _⟩ := dif_pos hbounds
    rw [hlower]
    change (c.toNat + 32) % 2 ^ 32 = c.toNat + 32
    omega
  · rename_i h
    have hlower : c.toLower = c := dif_neg (mt isUpper_iff.mpr h)
    rw [hlower]

theorem toLower_toLower (c : Char) : c.toLower.toLower = c.toLower := by
  have hupper : ¬c.toLower.isUpper = true := by
    rw [isUpper_iff, toNat_toLower]
    split <;> rename_i h <;> rw [isUpper_iff] at h <;> omega
  rw [← Char.toNat_inj, toNat_toLower, if_neg hupper]

theorem isLower_or_isDigit (h : c.isAlphanum = true) :
    c.toLower.isLower = true ∨ c.toLower.isDigit = true := by
  simp only [isAlphanum_iff, isUpper_iff, isLower_iff, Char.isDigit_iff_toNat, toNat_toLower] at h ⊢
  split <;> omega

-- ---------------------------------------------------------------------------
-- Groups
-- ---------------------------------------------------------------------------

def lowered (rs : List (List Char)) : List (List Char) :=
  rs.map (·.map Char.toLower)

/-- The groups that the slug of a text with the given runs is made of. -/
def groups (rs : List (List Char)) : List (List Char) :=
  if rs = [] then ["task".toList] else lowered rs

def joined (gs : List (List Char)) : List Char :=
  ['-'].intercalate gs

/-- One or more of the letters from a to z and the digits. -/
structure IsGroup (group : List Char) : Prop where
  nonempty : group ≠ []
  chars : ∀ c ∈ group, c.isLower = true ∨ c.isDigit = true

theorem IsGroup.isAlphanum (h : IsGroup run) : ∀ c ∈ run, c.isAlphanum = true := by
  intro c hc
  exact isAlphanum_iff.mpr ((h.chars c hc).imp .inr id)

theorem isGroup_lower (hne : run ≠ []) (hrun : ∀ c ∈ run, c.isAlphanum = true) :
    IsGroup (run.map Char.toLower) where
  nonempty := mt List.map_eq_nil_iff.mp hne
  chars := List.forall_mem_map.mpr fun c hc => isLower_or_isDigit (hrun c hc)

theorem HasRuns.lowered_isGroup (h : HasRuns cs rs) : ∀ group ∈ lowered rs, IsGroup group :=
  List.forall_mem_map.mpr fun run hrun => isGroup_lower (h.ne_nil run hrun) (h.isAlphanum run hrun)

theorem HasRuns.isGroup (h : HasRuns cs rs) : ∀ group ∈ groups rs, IsGroup group := by
  unfold groups
  split
  · exact List.forall_mem_singleton.mpr ⟨by decide, by simp⟩
  · exact h.lowered_isGroup

theorem groups_ne_nil (rs : List (List Char)) : groups rs ≠ [] := by
  unfold groups
  split
  · simp
  · rename_i hne
    exact mt List.map_eq_nil_iff.mp hne

theorem groups_groups (rs : List (List Char)) : groups (groups rs) = groups rs := by
  rw [groups, if_neg (groups_ne_nil rs), groups]
  split
  · decide
  · simp only [lowered, List.map_map, Function.comp_def, toLower_toLower]

theorem IsGroup.not_dash (h : IsGroup run) : ∀ c ∈ run, (c == '-') = false := by
  intro c hc
  have hletter := h.isAlphanum c hc
  by_contra hdash
  obtain rfl : c = '-' := by simpa using hdash
  exact absurd hletter (by decide)

theorem joined_cons_cons (group next : List Char) (gs : List (List Char)) :
    joined (group :: next :: gs) = group ++ '-' :: joined (next :: gs) := by
  simp [joined]

theorem head?_joined (hne : run ≠ []) : (joined (run :: gs)).head? = run.head? := by
  cases gs with
  | nil => rw [joined, List.intercalate_singleton]
  | cons next gs => rw [joined_cons_cons, List.head?_append_of_ne_nil _ hne]

theorem joined_ne_nil (hne : run ≠ []) : joined (run :: gs) ≠ [] := by
  intro hnil
  have hhead : (joined (run :: gs)).head? = run.head? := head?_joined hne
  rw [hnil, List.head?_nil, eq_comm, List.head?_eq_none_iff] at hhead
  exact hne hhead

/-- A text that is joined from groups begins and ends with one. -/
theorem bare_joined (h : ∀ group ∈ gs, IsGroup group) : Bare (· == '-') (joined gs) := by
  induction gs with
  | nil => exact ⟨nofun, nofun⟩
  | cons group gs ih =>
    obtain ⟨hgroup, hgs⟩ := List.forall_mem_cons.mp h
    have hhead : ∀ c ∈ (joined (group :: gs)).head?, (c == '-') = false := by
      rw [head?_joined hgroup.nonempty]
      exact fun c hc => hgroup.not_dash c (List.mem_of_mem_head? hc)
    refine ⟨hhead, ?_⟩
    cases gs with
    | nil =>
      rw [joined, List.intercalate_singleton]
      exact fun c hc => hgroup.not_dash c (List.mem_of_mem_getLast? hc)
    | cons next gs =>
      have hne : joined (next :: gs) ≠ [] := joined_ne_nil (hgs next List.mem_cons_self).nonempty
      rw [joined_cons_cons, List.append_cons, List.getLast?_append_of_ne_nil _ hne]
      exact (ih hgs).last

/-- The groups of a joined text are its runs. -/
theorem hasRuns_joined (h : ∀ group ∈ gs, IsGroup group) : HasRuns (joined gs) gs := by
  induction gs with
  | nil => exact .none nofun
  | cons group gs ih =>
    obtain ⟨hgroup, hgs⟩ := List.forall_mem_cons.mp h
    cases gs with
    | nil =>
      have hone : HasRuns (group ++ []) [group] :=
        .lead hgroup.nonempty hgroup.isAlphanum nofun (.none nofun)
      simpa [joined] using hone
    | cons next gs =>
      have hrest : HasRuns ('-' :: joined (next :: gs)) (next :: gs) := (ih hgs).cons (by decide)
      rw [joined_cons_cons]
      exact .lead hgroup.nonempty hgroup.isAlphanum (fun c hc => by cases hc; decide) hrest

-- ---------------------------------------------------------------------------
-- What is written
-- ---------------------------------------------------------------------------

theorem foldl_dashed (hgap : ∀ c ∈ gap, c.isAlphanum = false) (hlast : written.back? = some '-') :
    gap.foldl slugPush written = written := by
  induction gap with
  | nil => rfl
  | cons c gap ih =>
    obtain ⟨hc, hgap⟩ := List.forall_mem_cons.mp hgap
    have hpush : slugPush written c = written := by simp [slugPush, hc, hlast]
    rw [List.foldl_cons, hpush, ih hgap]

/-- However long a gap is, it adds one dash. -/
theorem foldl_gap (hgap : ∀ c ∈ gap, c.isAlphanum = false) (hlast : written.back? ≠ some '-') :
    gap.foldl slugPush written = if gap = [] then written else written.push '-' := by
  cases gap with
  | nil => rfl
  | cons c gap =>
    obtain ⟨hc, hgap⟩ := List.forall_mem_cons.mp hgap
    have hpush : slugPush written c = written.push '-' := by simp [slugPush, hc, hlast]
    rw [List.foldl_cons, hpush, foldl_dashed hgap Array.back?_push, if_neg (List.cons_ne_nil c gap)]

theorem foldl_run (hrun : ∀ c ∈ run, c.isAlphanum = true) :
    (run.foldl slugPush written).toList = written.toList ++ run.map Char.toLower := by
  induction run generalizing written with
  | nil => simp
  | cons c run ih =>
    obtain ⟨hc, hrun⟩ := List.forall_mem_cons.mp hrun
    rw [List.foldl_cons, ih hrun, slugPush, if_pos hc]
    simp

theorem back?_run (hne : run ≠ []) (hrun : ∀ c ∈ run, c.isAlphanum = true) :
    (run.foldl slugPush written).back? ≠ some '-' := by
  have hgroup := isGroup_lower hne hrun
  rw [← Array.getLast?_toList, foldl_run hrun, List.getLast?_append_of_ne_nil _ hgroup.nonempty]
  intro hdash
  exact absurd (hgroup.not_dash '-' (List.mem_of_mem_getLast? hdash)) (by decide)

/-- Behind a group, each gap is written as a dash and each run in lower case. A gap at the end of
the text leaves a dash there. -/
theorem pushed_behind {group : List Char} (h : HasRuns rest rs)
    (hrest : ∀ c ∈ rest.head?, c.isAlphanum = false) (hlast : written.back? ≠ some '-')
    (hw : written.toList = front ++ group) :
    ∃ trail, (∀ c ∈ trail, (c == '-') = true) ∧
      (rest.foldl slugPush written).toList = front ++ (joined (group :: lowered rs) ++ trail) := by
  induction h generalizing front group written with
  | @none gap hgap =>
    rw [foldl_gap hgap hlast]
    split
    · exact ⟨[], nofun, by simp [hw, joined, lowered]⟩
    · exact ⟨['-'], by simp, by simp [hw, joined, lowered]⟩
  | @run gap run rest rs hgap hne hrun hrest' h ih =>
    -- The gap is what keeps this run from the group before it.
    have hgap_ne : gap ≠ [] := by
      rintro rfl
      rw [List.nil_append, List.head?_append_of_ne_nil _ hne] at hrest
      have hhead := List.head?_eq_some_head hne
      have hletter := hrun (run.head hne) (List.head_mem hne)
      simp [hrest _ hhead] at hletter
    rw [List.foldl_append, foldl_gap hgap hlast, if_neg hgap_ne, List.foldl_append]
    have hnext : (run.foldl slugPush (written.push '-')).toList =
        (front ++ group ++ ['-']) ++ run.map Char.toLower := by
      rw [foldl_run hrun, Array.toList_push, hw]
    obtain ⟨trail, htrail, heq⟩ := ih hrest' (back?_run hne hrun) hnext
    refine ⟨trail, htrail, heq.trans ?_⟩
    simp [lowered, joined_cons_cons]

/-- What is written of a text are its runs in lower case, joined by dashes, between dashes. -/
theorem pushed (h : HasRuns cs rs) : ∃ lead trail,
    (∀ c ∈ lead, (c == '-') = true) ∧ (∀ c ∈ trail, (c == '-') = true) ∧
      (cs.foldl slugPush #[]).toList = lead ++ (joined (lowered rs) ++ trail) := by
  have hstart : (#[] : Array Char).back? ≠ some '-' := by simp
  cases h with
  | none hgap =>
    rw [foldl_gap hgap hstart]
    split
    · exact ⟨[], [], nofun, nofun, rfl⟩
    · exact ⟨[], ['-'], nofun, by simp, rfl⟩
  | @run gap run rest rs hgap hne hrun hrest h =>
    rw [List.foldl_append, foldl_gap hgap hstart, List.foldl_append]
    obtain ⟨trail, htrail, heq⟩ := pushed_behind h hrest (back?_run hne hrun) (foldl_run hrun)
    refine ⟨_, trail, ?_, htrail, heq⟩
    split <;> simp

theorem toList_slug (h : HasRuns text.toList rs) : (slug text).toList = joined (groups rs) := by
  obtain ⟨lead, trail, hlead, htrail, heq⟩ := pushed h
  have htrim : trimBy (· == '-') (text.toList.foldl slugPush #[]).toList = joined (lowered rs) := by
    rw [heq, trimBy_front hlead, trimBy_back htrail]
    exact trimBy_eq_self.mpr (bare_joined h.lowered_isGroup)
  rw [slug, htrim, groups]
  cases rs with
  | nil => rfl
  | cons run rs =>
    have hne : joined (lowered (run :: rs)) ≠ [] :=
      joined_ne_nil (h.lowered_isGroup _ List.mem_cons_self).nonempty
    obtain ⟨c, cs, hcs⟩ := List.exists_cons_of_ne_nil hne
    rw [if_neg (List.cons_ne_nil run rs), hcs, String.toList_ofList]

theorem slug_ne_empty (text : String) : slug text ≠ "" := by
  obtain ⟨rs, h⟩ := exists_hasRuns text.toList
  obtain ⟨group, gs, hgs⟩ := List.exists_cons_of_ne_nil (groups_ne_nil rs)
  have hgroup : IsGroup group := h.isGroup group (hgs ▸ List.mem_cons_self)
  have hne : (slug text).toList ≠ [] := by
    rw [toList_slug h, hgs]
    exact joined_ne_nil hgroup.nonempty
  exact mt String.toList_eq_nil_iff.mpr hne

/-- A slug has the runs of the text as its own, in lower case. -/
theorem slug_slug (text : String) : slug (slug text) = slug text := by
  obtain ⟨rs, h⟩ := exists_hasRuns text.toList
  have hslug : HasRuns (slug text).toList (groups rs) := by
    rw [toList_slug h]
    exact hasRuns_joined h.isGroup
  rw [← String.toList_inj, toList_slug hslug, groups_groups, toList_slug h]

theorem groups_congr (h : lowered rs = lowered gs) : groups rs = groups gs := by
  have hnil : rs = [] ↔ gs = [] := by
    simpa [lowered] using (congrArg (· = []) h).to_iff
  simp only [groups, hnil, h]

/-- A slug is one or more groups of lower-case letters and digits with single dashes between them:
the maximal runs of letters and digits of the text in lower case, or `task` if it has none. A slug
is its own slug, and texts whose runs differ in the case of letters only have the same one. -/
theorem slug_canonical (text other : String) :
    (∀ rs, HasRuns text.toList rs ↔ rs = runs text.toList) ∧
    (slug text).toList = joined (groups (runs text.toList)) ∧
    groups (runs text.toList) ≠ [] ∧ (∀ group ∈ groups (runs text.toList), IsGroup group) ∧
    slug text ≠ "" ∧ Bare (· == '-') (slug text).toList ∧
    slug (slug text) = slug text ∧
    (lowered (runs text.toList) = lowered (runs other.toList) → slug text = slug other) := by
  have h : HasRuns text.toList (runs text.toList) := hasRuns_iff.mpr rfl
  have hother : HasRuns other.toList (runs other.toList) := hasRuns_iff.mpr rfl
  have hbare : Bare (· == '-') (slug text).toList := by
    rw [toList_slug h]
    exact bare_joined h.isGroup
  refine ⟨fun _ => hasRuns_iff, toList_slug h, groups_ne_nil _, h.isGroup, slug_ne_empty text,
    hbare, slug_slug text, fun hsame => ?_⟩
  rw [← String.toList_inj, toList_slug h, toList_slug hother, groups_congr hsame]

/-- Gaps of any other characters, at the ends too, make no difference. -/
theorem slug_canonical_cased :
    lowered (runs "Data  Prep / QA".toList) = lowered (runs "—data-PREP.qa?".toList) ∧
      slug "Data  Prep / QA" = slug "—data-PREP.qa?" ∧ slug "Data  Prep / QA" = "data-prep-qa" := by
  have hruns : lowered (runs "Data  Prep / QA".toList) =
      lowered (runs "—data-PREP.qa?".toList) := by decide
  obtain ⟨-, hjoined, -, -, -, -, -, hsame⟩ := slug_canonical "Data  Prep / QA" "—data-PREP.qa?"
  exact ⟨hruns, hsame hruns, String.toList_inj.mp (hjoined.trans (by decide))⟩

end Workflow.Text
