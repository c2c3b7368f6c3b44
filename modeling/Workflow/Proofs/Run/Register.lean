import Workflow.Proofs.Run.Ledger

/-!
# Merges that have begun and are not finished

A register is a level that is being edited, and which merges on its desk are finished. `turn` says
once what a command does to the flags of the nodes and to the merges that are open; from it follows
that an open merge holds its target as long as that is on the level, and is the only one to hold it.
-/

namespace Workflow

variable {σ : Type} {l l' : Level} {n : Node} {es : List Edge}
variable {a b id j : String} {x : TaskData} {t : Task} {ts : List Task} {flag : Bool}

-- ---------------------------------------------------------------------------
-- Marks
-- ---------------------------------------------------------------------------

namespace Level

/-- Whether the node of an id is flagged, if there is one. -/
def mark? (l : Level) (id : String) : Option Bool := (l.node? id).map (·.isCombining)

theorem mark?_of_data (h : l.data? id = some x) : l.mark? id = some x.combining := by
  obtain ⟨n, hn, hx⟩ := data?_eq_some.mp h
  simp [mark?, hn, Node.isCombining, hx]

theorem mark?_eq_none : l.mark? id = none ↔ id ∉ l.nodeIds := by
  rw [mark?, Option.map_eq_none_iff, node?_eq_none]

theorem mark?_of_mem (hd : l.nodeIds.Nodup) (hn : n ∈ l.nodes) :
    l.mark? n.id = some n.isCombining := by
  rw [mark?, node?_of_mem hd hn]
  rfl

theorem mark?_append : (⟨l.nodes ++ [n], es⟩ : Level).mark? j =
    (l.mark? j).or (if n.id = j then some n.isCombining else none) := by
  simp only [mark?, node?, List.find?_append, Option.map_or]
  split <;> simp_all

theorem mark?_eraseFirst (hd : l.nodeIds.Nodup) :
    (⟨eraseFirst id l.nodes, es⟩ : Level).mark? j = if j = id then none else l.mark? j := by
  rw [mark?, node?_eraseFirst hd]
  split <;> rfl

end Level

namespace Merge

theorem mark?_setFlag (h : j ≠ id) : (setFlag flag id l).mark? j = l.mark? j := by
  rw [Level.mark?, node?_setFlag, if_neg h]
  rfl

theorem mark?_clear : (setFlag false id l).mark? id ≠ some true := by
  rw [Level.mark?, node?_setFlag, if_pos rfl]
  rcases l.node? id with _ | ⟨_, _, _, _, _ | d⟩ <;> exact nofun

theorem mark?_quotient (h : j ≠ a) :
    (quotient a b t ts l).mark? j = if j = b then none else l.mark? j := by
  rw [Level.mark?, node?_quotient, if_neg h]
  split <;> rfl

theorem mark?_merged (hab : a ≠ b) (ha : l.data? a = some x) :
    (quotient a b t ts l).mark? a = some false :=
  Level.mark?_of_data (x := { x with task := t, combined := some ts, combining := false }) <| by
    rw [data?_quotient, if_neg hab, if_pos rfl, ha]
    rfl

end Merge

-- ---------------------------------------------------------------------------
-- Registers
-- ---------------------------------------------------------------------------

structure Register (σ : Type) extends Bench σ where
  /-- The numbers of the merges that the resolved ones come from. -/
  origins : List Nat := []
  /-- The numbers of the merges that are finished. -/
  finished : List Nat := []

/-- A step of a merge that is taken on its own. -/
def Command.IsMergeStep : Command σ → Prop
  | .start .. | .resolve .. | .commit .. | .abort .. => True
  | _ => False

namespace Register

def start (l : Level) (tokens : TokenSupply) (store : σ) : Register σ :=
  { Bench.start l tokens store with }

def resolves (r : Register σ) : Command σ → List Nat
  | .resolve _ k => if k < r.desk.pending.length then [k] else []
  | _ => []

/-- The merge that a command finishes, whether or not it succeeds. -/
def finishes (r : Register σ) : Command σ → List Nat
  | .commit _ k => r.origins[k]?.toList
  | .abort k => if k < r.desk.pending.length then [k] else []
  | _ => []

def after (r : Register σ) (c : Command σ) : Register σ :=
  { r.toBench.after c with
    origins := r.origins ++ r.resolves c
    finished := r.finished ++ r.finishes c }

/-- Ids of nodes are not used again, and a merge is not finished again. -/
structure Allows (r : Register σ) (c : Command σ) : Prop where
  fresh : r.Fresh c
  once : ∀ k ∈ r.finishes c, k ∉ r.finished

/-- The merge of the number has begun and is not finished. -/
structure Open (r : Register σ) (k : Nat) (p : Merge.Pending) : Prop where
  begun : r.desk.pending[k]? = some p
  unfinished : k ∉ r.finished

/-- Commands of some kind, one after the other. -/
inductive Run (kind : Command σ → Prop) (r : Register σ) : Register σ → Prop
  | refl : Run kind r r
  | step {r' : Register σ} {c : Command σ} :
    Run kind r r' → kind c → r'.Allows c → Run kind r (r'.after c)

-- ---------------------------------------------------------------------------
-- One command
-- ---------------------------------------------------------------------------

/-- From `l` to `l'` a node keeps its mark, goes, or comes under an id that was never used. -/
def Steady (used : List String) (l l' : Level) (j : String) : Prop :=
  l'.mark? j = l.mark? j ∨ l'.mark? j = none ∨ j ∉ used ∧ l'.mark? j = some false

/-- The target of a merge is not flagged any more, and of the others at most the dropped node is
gone. -/
structure Released (p : Merge.Pending) (l l' : Level) : Prop where
  target : l'.mark? p.target ≠ some true
  others : ∀ j ≠ p.target, l'.mark? j = l.mark? j ∨ j = p.dropped ∧ l'.mark? j = none

/-- What a command does to the flags and to the merges that are open. -/
inductive Turn (c : Command σ) (r r' : Register σ) : Prop
  | idle : r'.desk.pending = r.desk.pending → r'.finished = r.finished →
    (∀ j, Steady r.used r.level r'.level j) → (c.IsMergeStep → r'.level = r.level) → Turn c r r'
  | began {p : Merge.Pending} : r'.desk.pending = r.desk.pending ++ [p] → r'.finished = r.finished →
    Merge.Begun p.target p.dropped r.level p → r'.level = Merge.setFlag true p.target r.level →
      Turn c r r'
  | ended {m : Nat} {p : Merge.Pending} : r'.desk.pending = r.desk.pending →
    r'.finished = r.finished ++ [m] → r.Open m p → Released p r.level r'.level → Turn c r r'

structure Consistent (r : Register σ) : Prop where
  tracked : r.Tracked
  origins : r.origins.map (r.desk.pending[·]?) = r.desk.resolved.map fun m => some m.toPending
  finished : ∀ k ∈ r.finished, k < r.desk.pending.length

variable {r r' : Register σ} {c : Command σ} {p : Merge.Pending} {k : Nat}

theorem Steady.refl (used : List String) (l : Level) (j : String) : Steady used l l j := .inl rfl

theorem Allows.of_mergeStep (hkind : c.IsMergeStep) (honce : ∀ k ∈ r.finishes c, k ∉ r.finished) :
    r.Allows c where
  fresh id task hb := by
    obtain ⟨-, t, position, rfl⟩ := Command.posting_brought hb
    exact hkind.elim
  once := honce

theorem Consistent.origin {m : Merge.Resolved} (h : r.Consistent)
    (hk : r.desk.resolved[k]? = some m) :
    ∃ i, r.origins[k]? = some i ∧ r.desk.pending[i]? = some m.toPending := by
  have hget : (r.origins.map (r.desk.pending[·]?))[k]? = some (some m.toPending) := by
    rw [h.origins, List.getElem?_map, hk]
    rfl
  rw [List.getElem?_map] at hget
  exact Option.map_eq_some_iff.mp hget

theorem Consistent.origin_none (h : r.Consistent) (hk : r.desk.resolved[k]? = none) :
    r.origins[k]? = none := by
  have hlen := congrArg List.length h.origins
  rw [List.length_map, List.length_map] at hlen
  rw [List.getElem?_eq_none_iff] at hk ⊢
  exact hlen ▸ hk

theorem steady_add {used : List String} {task : Task} {position : Option Position}
    (hused : ∀ id ∈ l.nodeIds, id ∈ used) (hfree : id ∉ used) :
    Steady used l ⟨l.nodes ++ [.ofTask id task position], es⟩ j := by
  rw [Steady, Level.mark?_append]
  by_cases hj : id = j
  · subst hj
    rw [Level.mark?_eq_none.mpr fun hid => hfree (hused id hid)]
    exact .inr (.inr ⟨hfree, if_pos rfl⟩)
  · have hid : (Node.ofTask id task position).id ≠ j := hj
    rw [if_neg hid, Option.or_none]
    exact .inl rfl

theorem steady_connect {used : List String} {source target : String} :
    Steady used l (l.connect source target).level j := by
  unfold Level.connect
  split
  · exact .refl used l j
  split
  · exact .refl used l j
  split <;> exact .inl rfl

theorem steady_remove {used : List String} (hd : l.nodeIds.Nodup) :
    Steady used l (l.remove id).level j := by
  unfold Level.remove
  split
  · exact .refl used l j
  · rw [Steady, Level.mark?_eraseFirst hd]
    split
    · exact .inr (.inl rfl)
    · exact .inl rfl

theorem steady_combine {s : Merge.Setting σ} {tokens : TokenSupply} {store : σ} {used : List String} :
    Steady used l (Merge.combine s a b tokens store l).level j := by
  rcases Merge.combine_cases s a b tokens store l with ⟨m, -, -, hbegun, -, hstage, -⟩ | ⟨-, hlevel, -⟩
  · obtain ⟨-, -, hlevel, -⟩ := Merge.stage_ok.mp hstage
    obtain rfl := hbegun.target
    obtain rfl := hbegun.dropped
    rw [hlevel]
    by_cases hj : j = m.target
    · -- The target was free before, and is so again.
      rw [hj, Steady, Merge.mark?_merged hbegun.ne hbegun.targetData,
        Level.mark?_of_data hbegun.targetData, hbegun.targetFree]
      exact .inl rfl
    · rw [Steady, Merge.mark?_quotient hj]
      split
      · exact .inr (.inl rfl)
      · exact .inl rfl
  · rw [hlevel]
    exact .refl used l j

theorem released_commit {append : Task → σ → Except StoreError Bool × σ} {m : Merge.Resolved}
    {store : σ} (hne : m.target ≠ m.dropped) :
    Released m.toPending l (Merge.commit append m store l).level := by
  rcases hr : (Merge.commit append m store l).result with ⟨e | o, store'⟩
  · obtain ⟨hlevel, -⟩ := Merge.commit_error hr
    rw [hlevel]
    exact ⟨Merge.mark?_clear, fun j hj => .inl (Merge.mark?_setFlag hj)⟩
  · obtain ⟨hstage, -⟩ := Merge.commit_ok hr
    obtain ⟨ht, -, hlevel, -⟩ := Merge.stage_ok.mp hstage
    obtain ⟨x, hx, -⟩ := Merge.unchanged_iff.mp ht
    rw [hlevel]
    refine ⟨?_, fun j hj => ?_⟩
    · rw [Merge.mark?_merged hne hx]
      exact nofun
    · rw [Merge.mark?_quotient hj]
      split
      · rename_i hd
        exact .inr ⟨hd, rfl⟩
      · exact .inl rfl

theorem turn (h : r.Consistent) (hc : r.Allows c) : Turn c r (r.after c) := by
  cases c with
  | addTask task position =>
    have hfree := hc.fresh _ _ rfl
    exact .idle rfl (List.append_nil _) (fun j => steady_add h.tracked.used hfree) False.elim
  | connect source target =>
    exact .idle rfl (List.append_nil _) (fun j => steady_connect) False.elim
  | remove id =>
    exact .idle rfl (List.append_nil _) (fun j => steady_remove h.tracked.ids) False.elim
  | start target dropped =>
    cases hr : (Merge.start target dropped r.level).result with
    | error e =>
      have hlevel : (r.after (.start target dropped)).level = r.level := Merge.level_start_refused hr
      refine .idle ?_ (List.append_nil _) (fun j => hlevel ▸ .refl _ _ j) fun _ => hlevel
      simp [after, Bench.after, Command.edit, hr, Except.toOption]
    | ok p =>
      have hbegun := Merge.start_ok.mp hr
      obtain rfl := hbegun.target
      obtain rfl := hbegun.dropped
      refine .began ?_ (List.append_nil _) hbegun (Merge.level_start hbegun)
      simp [after, Bench.after, Command.edit, hr, Except.toOption]
  | resolve s k =>
    have hsame : (r.after (.resolve s k)).level = r.level ∧
        (r.after (.resolve s k)).desk.pending = r.desk.pending := by
      simp only [after, Bench.after, Command.edit]
      split <;> exact ⟨rfl, rfl⟩
    exact .idle hsame.2 (List.append_nil _) (fun j => hsame.1 ▸ .refl _ _ j) fun _ => hsame.1
  | commit s k =>
    cases hk : r.desk.resolved[k]? with
    | none =>
      have hlevel : (r.after (.commit s k)).level = r.level := by
        simp [after, Bench.after, Command.edit, hk]
      refine .idle ?_ ?_ (fun j => hlevel ▸ .refl _ _ j) fun _ => hlevel
      · simp [after, Bench.after, Command.edit, hk]
      · simp [after, finishes, h.origin_none hk]
    | some m =>
      obtain ⟨i, hi, hp⟩ := h.origin hk
      have hopen : r.Open i m.toPending := ⟨hp, hc.once i (by simp [finishes, hi])⟩
      have hne := (h.tracked.live _ (List.mem_of_getElem? hp)).ne
      refine .ended ?_ ?_ hopen ?_
      · simp [after, Bench.after, Command.edit, hk]
      · simp [after, finishes, hi]
      · simp only [after, Bench.after, Command.edit, hk]
        exact released_commit hne
  | abort k =>
    cases hk : r.desk.pending[k]? with
    | none =>
      have hlevel : (r.after (.abort k)).level = r.level := by
        simp [after, Bench.after, Command.edit, hk]
      have hlen : ¬ k < r.desk.pending.length := by simpa using hk
      refine .idle ?_ ?_ (fun j => hlevel ▸ .refl _ _ j) fun _ => hlevel
      · simp [after, Bench.after, Command.edit, hk]
      · simp [after, finishes, hlen]
    | some p =>
      have hlen : k < r.desk.pending.length := (List.getElem?_eq_some_iff.mp hk).1
      have hopen : r.Open k p := ⟨hk, hc.once k (by simp [finishes, hlen])⟩
      refine .ended ?_ ?_ hopen ?_
      · simp [after, Bench.after, Command.edit, hk]
      · simp [after, finishes, hlen]
      · simp only [after, Bench.after, Command.edit, hk]
        exact ⟨Merge.mark?_clear, fun j hj => .inl (Merge.mark?_setFlag hj)⟩
  | combine s target dropped =>
    exact .idle rfl (List.append_nil _) (fun j => steady_combine) False.elim

-- ---------------------------------------------------------------------------
-- Runs
-- ---------------------------------------------------------------------------

theorem Turn.pending_kept (ht : Turn c r r') (hk : r.desk.pending[k]? = some p) :
    r'.desk.pending[k]? = some p := by
  cases ht with
  | idle hp | ended hp => rw [hp, hk]
  | began hp =>
    rw [hp, List.getElem?_append_left (List.getElem?_eq_some_iff.mp hk).1, hk]

theorem resolved_after (ht : Turn c r (r.after c)) : ∃ new,
    (r.after c).desk.resolved = r.desk.resolved ++ new ∧
    (r.resolves c).map ((r.after c).desk.pending[·]?) = new.map fun m => some m.toPending := by
  cases c with
  | resolve s k =>
    cases hk : r.desk.pending[k]? with
    | none =>
      refine ⟨[], ?_, ?_⟩
      · simp [after, Bench.after, Command.edit, hk]
      · have hlen : ¬ k < r.desk.pending.length := by simpa using hk
        simp [resolves, hlen]
    | some p =>
      refine ⟨[(Merge.resolve s.config s.namer s.hasClock r.desk.tokens p).1], ?_, ?_⟩
      · simp [after, Bench.after, Command.edit, hk]
      · have hlen : k < r.desk.pending.length := (List.getElem?_eq_some_iff.mp hk).1
        rw [resolves, if_pos hlen, List.map_singleton, ht.pending_kept hk]
        rfl
  | commit s k =>
    refine ⟨[], ?_, rfl⟩
    simp only [after, Bench.after, Command.edit]
    split <;> simp
  | abort k =>
    refine ⟨[], ?_, rfl⟩
    simp only [after, Bench.after, Command.edit]
    split <;> simp
  | addTask | connect | remove | start | combine => exact ⟨[], (List.append_nil _).symm, rfl⟩

theorem Consistent.step (h : r.Consistent) (hc : r.Allows c) : (r.after c).Consistent where
  tracked := h.tracked.step hc.fresh
  origins := by
    have ht := turn h hc
    obtain ⟨new, hresolved, hnew⟩ := resolved_after ht
    have hold : r.origins.map ((r.after c).desk.pending[·]?) = r.origins.map (r.desk.pending[·]?) := by
      refine List.map_congr_left fun k hk => ?_
      have hmem : r.desk.pending[k]? ∈ r.origins.map (r.desk.pending[·]?) := List.mem_map_of_mem hk
      rw [h.origins] at hmem
      obtain ⟨m, -, hm⟩ := List.mem_map.mp hmem
      rw [ht.pending_kept hm.symm, hm]
    rw [hresolved, List.map_append, ← h.origins, ← hnew, ← hold]
    exact List.map_append
  finished := by
    intro k hk
    cases turn h hc with
    | idle hp ho =>
      rw [hp]
      exact h.finished k (ho ▸ hk)
    | began hp ho =>
      rw [hp, List.length_append]
      exact Nat.lt_add_right _ (h.finished k (ho ▸ hk))
    | ended hp ho hopen =>
      rw [hp]
      rw [ho] at hk
      rcases List.mem_append.mp hk with hk | hk
      · exact h.finished k hk
      · rw [List.mem_singleton.mp hk]
        exact (List.getElem?_eq_some_iff.mp hopen.begun).1

theorem start_consistent {tokens : TokenSupply} {store : σ} (hd : l.nodeIds.Nodup) :
    (start l tokens store).Consistent where
  tracked := Bench.start_tracked hd
  origins := rfl
  finished _ hk := nomatch hk

end Register

end Workflow
