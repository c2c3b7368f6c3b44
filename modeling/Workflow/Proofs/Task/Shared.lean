import Workflow.Proofs.Files.Tree
import Workflow.Proofs.Task.Written

/-!
# Stores on one path

Any number of stores may be opened on one path, at any time. `shared_list`: they answer as one list
of tasks would, whichever of them is asked, for every operation reads the file anew. What `Holds`
of the file is kept by every operation for which the files are there to be read and written.
-/

namespace Workflow

variable {fs fs' : Files} {p : FilePath} {s s' : FileStore} {t : Task} {ts : List Task}
variable {text : String}

/-- The answer is not that an operation on files has failed. -/
def Served {α : Type} (answer : Except StoreError α) : Prop :=
  ∀ path reason, answer ≠ .error (.io path reason)

namespace FileStore

-- ---------------------------------------------------------------------------
-- How an append ends
-- ---------------------------------------------------------------------------

/-- The tree once the lock is taken: with the directories of the path, and maybe a new blank file. -/
def Locked (p : FilePath) (fs fs' : Files) : Prop :=
  fs' = (fs.makeDirectories p.parent).2 ∨
    ∃ place, (fs.makeDirectories p.parent).2.content? place = none ∧
      fs' = (fs.makeDirectories p.parent).2.put place (.file "")

theorem Locked.extends (h : Locked p fs fs') : fs.Extends fs' := by
  rcases h with rfl | ⟨place, hmissing, rfl⟩
  · exact Files.makeDirectories_extends
  · exact Files.makeDirectories_extends.trans (Files.extends_put hmissing)

theorem lock_cases (fs : Files) (p : FilePath) :
    (∃ path reason fs', lock fs p = (.error (.io path reason), fs')) ∨
      ∃ fs', lock fs p = (.ok (), fs') ∧ Locked p fs fs' := by
  unfold lock Locked
  cases hdirs : fs.makeDirectories p.parent with
  | mk made fs₁ =>
    cases made with
    | error e => exact .inl ⟨_, _, _, rfl⟩
    | ok =>
      simp only
      cases htouch : fs₁.touch (p.sibling ".lock") with
      | error e => exact .inl ⟨_, _, _, rfl⟩
      | ok fs₂ => exact .inr ⟨fs₂, rfl, Files.touch_ok htouch⟩

theorem lock_missing {place : List String} (hdirs : fs.makeDirectories p.parent = (.ok (), fs'))
    (hl : fs'.locate (p.sibling ".lock") = .ok place) (h : fs'.content? place = none) :
    lock fs p = (.ok (), fs'.put place (.file "")) := by
  simp [lock, hdirs, Files.touch_missing hl h, guard, Files.after]

theorem writeTasks_cases (fs : Files) (p : FilePath) (ts : List Task) :
    (∃ path reason fs', writeTasks fs p ts = (.error (.io path reason), fs')) ∨
      ∃ fs', writeTasks fs p ts = (.ok (), fs') ∧ fs'.find p = .ok (.file (render ts)) := by
  simp only [writeTasks]
  cases hwrite : fs.write (p.sibling ".tmp") (.file (render ts)) with
  | error e => exact .inl ⟨_, _, _, rfl⟩
  | ok fs₁ =>
    simp only [guard]
    cases hrename : fs₁.rename (p.sibling ".tmp") p with
    | error e => exact .inl ⟨_, _, _, rfl⟩
    | ok fs₂ => exact .inr ⟨fs₂, rfl, Files.find_rename hrename (Files.find_write hwrite)⟩

/-- An append under the lock takes a new task in if no directory is in its way. -/
theorem append_new {place place' : List String} (hlock : lock fs s.path = (.ok (), fs'))
    (hread : readTasks fs' s.path = .ok ts) (hnew : ts.any (·.hasId t.id) = false)
    (htemporary : fs'.locate (s.path.sibling ".tmp") = .ok place)
    (hpath : fs'.locate s.path = .ok place') (hslash : s.path.pieces.getLast? ≠ some "")
    (hd : fs'.content? place ≠ some .directory) (hd' : fs'.content? place' ≠ some .directory) :
    ∃ fs₁, s.append t fs = (.ok true, { s with announced := s.announced ++ [t.id] }, fs₁) ∧
      fs₁.find s.path = .ok (.file (render (ts ++ [t]))) := by
  let written := fs'.put place (.file (render (ts ++ [t])))
  have hwrite : fs'.write (s.path.sibling ".tmp") (.file (render (ts ++ [t]))) = .ok written :=
    Files.write_of_locate htemporary hd
  have hkeeps : fs'.KeepsDirectories written := Files.put_keeps hd
  have hcontent (q : List String) : written.content? q =
      if q = place then some (.file (render (ts ++ [t]))) else fs'.content? q :=
    Files.content?_put (Files.ne_nil_of_content? hd)
  have hrename := Files.rename_of_locate (Files.locate_keeps hkeeps htemporary)
    (by rw [hcontent, if_pos rfl]) (Files.locate_keeps hkeeps hpath) hslash
    (by rw [hcontent]; split <;> simp [hd'])
  refine ⟨_, ?_, Files.find_rename hrename (Files.find_write hwrite)⟩
  simp only [append, hlock, hread, Task.appendNew, hnew, Bool.false_eq_true, if_false, writeTasks,
    hwrite, guard, hrename, Files.after]

/-- The answer of an append, and what it leaves of the store and of the tree. -/
inductive AppendEnds (t : Task) (s : FileStore) (fs : Files) :
    Except StoreError Bool × FileStore × Files → Prop
  | failed (path reason : String) (fs' : Files) :
      AppendEnds t s fs (.error (.io path reason), s, fs')
  | refused {e : StoreError} {fs' : Files} : Locked s.path fs fs' →
      readTasks fs' s.path = .error e → AppendEnds t s fs (.error e, s, fs')
  | known {ts : List Task} {fs' : Files} : Locked s.path fs fs' → readTasks fs' s.path = .ok ts →
      ts.any (·.hasId t.id) → AppendEnds t s fs (.ok false, s, fs')
  | added {ts : List Task} {fs₁ fs' : Files} : Locked s.path fs fs₁ →
      readTasks fs₁ s.path = .ok ts → ts.any (·.hasId t.id) = false →
      fs'.find s.path = .ok (.file (render (ts ++ [t]))) →
      AppendEnds t s fs (.ok true, { s with announced := s.announced ++ [t.id] }, fs')

theorem append_ends (t : Task) (s : FileStore) (fs : Files) : AppendEnds t s fs (s.append t fs) := by
  unfold append
  rcases lock_cases fs s.path with ⟨path, reason, fs₁, hlock⟩ | ⟨fs₁, hlock, hlocked⟩
  · rw [hlock]
    exact .failed path reason fs₁
  · rw [hlock]
    simp only
    cases hread : readTasks fs₁ s.path with
    | error e => exact .refused hlocked hread
    | ok ts =>
      simp only [Task.appendNew]
      cases hany : ts.any (·.hasId t.id) with
      | true => exact .known hlocked hread hany
      | false =>
        simp only [Bool.false_eq_true, if_false]
        rcases writeTasks_cases fs₁ s.path (ts ++ [t]) with ⟨path, reason, fs₂, hw⟩ | ⟨fs₂, hw, hfind⟩
        · rw [hw]
          exact .failed path reason fs₂
        · rw [hw]
          exact .added hlocked hread hany hfind

-- ---------------------------------------------------------------------------
-- What the file holds
-- ---------------------------------------------------------------------------

theorem readTasks_found (h : fs.find p = .ok (.file text)) : readTasks fs p =
    match parse text with
    | .ok ts => .ok ts
    | .error e => .error (.corrupt e.message) := by
  have hhas : fs.has p = true := Files.has_iff.mpr ⟨_, h⟩
  simp only [readTasks, hhas, Files.read, h, bind, Except.bind, Bool.not_true]
  rfl

theorem readTasks_render (h : fs.find p = .ok (.file (render ts))) (hexact : ∀ t ∈ ts, t.Exact) :
    readTasks fs p = .ok ts := by
  rw [readTasks_found h, parse_render hexact]

theorem readTasks_missing (h : fs.has p = false) : readTasks fs p = .ok [] := by
  simp [readTasks, h]

/-- A list of tasks that cannot be read cannot be read in a larger tree either. -/
theorem readTasks_extends {e : StoreError} (h : fs.Extends fs') (hread : readTasks fs p = .error e) :
    readTasks fs' p = .error e := by
  cases hhas : fs.has p with
  | false =>
    rw [readTasks_missing hhas] at hread
    cases hread
  | true =>
    obtain ⟨entry, hfind⟩ := Files.has_iff.mp hhas
    have hfind' := Files.find_extends h hfind
    have hhas' : fs'.has p := Files.has_iff.mpr ⟨entry, hfind'⟩
    rw [← hread]
    simp only [readTasks, hhas, hhas', Files.read, hfind, hfind']

/-- The file at the path holds the tasks. Where there is no file, there are no tasks, and none come
up when the directories of the path are made. -/
inductive Holds (fs : Files) (p : FilePath) : List Task → Prop
  | file {text : String} {ts : List Task} : fs.find p = .ok (.file text) → parse text = .ok ts →
      Holds fs p ts
  | missing : fs.has p = false → (fs.makeDirectories p.parent).2.has p = false → Holds fs p []

theorem Holds.read (h : Holds fs p ts) : readTasks fs p = .ok ts := by
  cases h with
  | file hfind hparse => rw [readTasks_found hfind, hparse]
  | missing hhas _ => exact readTasks_missing hhas

theorem holds_of_read (h : readTasks fs p = .ok ts)
    (hway : fs.has p = false → (fs.makeDirectories p.parent).2.has p = false) : Holds fs p ts := by
  cases hhas : fs.has p with
  | false =>
    rw [readTasks_missing hhas] at h
    obtain rfl := Except.ok.inj h
    exact .missing hhas (hway hhas)
  | true =>
    obtain ⟨e, hfind⟩ := Files.has_iff.mp hhas
    cases e with
    | file text =>
      refine .file hfind ?_
      rw [readTasks_found hfind] at h
      cases hparse : parse text with
      | error e => simp [hparse] at h
      | ok ts' => simpa [hparse] using h
    | _ => simp [readTasks, hhas, Files.read, hfind, bind, Except.bind, ioError] at h

/-- Under the lock the same tasks are read, and the file is the same if there is one. -/
theorem Holds.locked (h : Holds fs p ts) (hl : Locked p fs fs') :
    readTasks fs' p = .ok ts ∧ (ts ≠ [] → Holds fs' p ts) := by
  cases h with
  | file hfind hparse =>
    have hholds : Holds fs' p ts := .file (Files.find_extends hl.extends hfind) hparse
    exact ⟨hholds.read, fun _ => hholds⟩
  | missing _ hway =>
    refine ⟨?_, fun hne => absurd rfl hne⟩
    rcases hl with rfl | ⟨place, hplace, rfl⟩
    · exact readTasks_missing hway
    · -- the lock file may be the file of the store; it is blank
      cases hhas : ((fs.makeDirectories p.parent).2.put place (.file "")).has p with
      | false => exact readTasks_missing hhas
      | true =>
        obtain ⟨e, hfind⟩ := Files.has_iff.mp hhas
        obtain rfl := Files.find_put_missing hplace hway hfind
        rw [readTasks_found hfind]
        rfl

-- ---------------------------------------------------------------------------
-- Calls
-- ---------------------------------------------------------------------------

theorem append_path (t : Task) (s : FileStore) (fs : Files) : (s.append t fs).2.1.path = s.path := by
  have hends := append_ends t s fs
  generalize s.append t fs = ended at hends
  cases hends <;> rfl

/-- What a store is asked for. -/
inductive Call
  | append (t : Task)
  | list
  | get (id : String)

/-- What a call is answered with. -/
inductive Response
  | added (new : Bool)
  | listed (ts : List Task)
  | got (t : Option Task)

namespace Call

def run (c : Call) (s : FileStore) (fs : Files) : Except StoreError Response × FileStore × Files :=
  match c with
  | append t =>
    let (added, s, fs) := s.append t fs
    (added.map .added, s, fs)
  | list => ((s.list fs).map .listed, s, fs)
  | get id => ((s.get fs id).map .got, s, fs)

theorem run_path (c : Call) (s : FileStore) (fs : Files) : (c.run s fs).2.1.path = s.path := by
  cases c with
  | append t =>
    have hpath := append_path t s fs
    simp only [run]
    generalize s.append t fs = ended at hpath ⊢
    exact hpath
  | list | get id => rfl

/-- The answer of a list that holds the given tasks. -/
def answer (held : List Task) : Call → Response
  | append t => .added !(held.any (·.hasId t.id))
  | list => .listed held
  | get id => .got (held.find? (·.hasId id))

end Call

abbrev History := List (Call × Except StoreError Response)

/-- The tasks of the appends that were answered with true. -/
def addedBy (h : History) : List Task :=
  h.filterMap fun
    | (.append t, .ok (.added true)) => some t
    | _ => none

theorem addedBy_append (h h' : History) : addedBy (h ++ h') = addedBy h ++ addedBy h' :=
  List.filterMap_append

theorem append_of_mem_addedBy {c : Call} {a : Except StoreError Response} (h : t ∈ addedBy [(c, a)]) :
    c = .append t := by
  simp only [addedBy, List.mem_filterMap, List.mem_singleton] at h
  obtain ⟨_, rfl, h⟩ := h
  split at h
  · rename_i heq
    cases heq
    rw [Option.some.inj h]
  · cases h

/-- A call that is served is answered from the tasks the file holds, and the file holds the task
that was added from then on. -/
theorem Holds.call {c : Call} {a : Except StoreError Response} (h : Holds fs s.path ts)
    (hexact : ∀ t ∈ ts, t.Exact) (hnew : ∀ t, c = .append t → t.Exact)
    (hrun : c.run s fs = (a, s', fs')) (hserved : Served a) :
    a = .ok (c.answer ts) ∧ Holds fs' s.path (ts ++ addedBy [(c, a)]) := by
  cases c with
  | append t =>
    have hends := append_ends t s fs
    simp only [Call.run] at hrun
    generalize s.append t fs = ended at hends hrun
    cases hends with
    | failed path reason fs₁ =>
      cases hrun
      exact absurd rfl (hserved path reason)
    | refused hlocked hread =>
      rw [(h.locked hlocked).1] at hread
      cases hread
    | known hlocked hread hany =>
      rw [(h.locked hlocked).1] at hread
      obtain rfl := Except.ok.inj hread
      cases hrun
      have hne : ts ≠ [] := by
        rintro rfl
        cases hany
      exact ⟨by simp [Call.answer, hany, Except.map],
        by simpa [addedBy, Except.map] using (h.locked hlocked).2 hne⟩
    | added hlocked hread hany hfind =>
      rw [(h.locked hlocked).1] at hread
      obtain rfl := Except.ok.inj hread
      cases hrun
      have hall : ∀ t' ∈ ts ++ [t], t'.Exact := by
        simpa [or_imp, forall_and] using ⟨hexact, hnew t rfl⟩
      exact ⟨by simp [Call.answer, hany, Except.map],
        by simpa [addedBy, Except.map] using .file hfind (parse_render hall)⟩
  | list =>
    cases hrun
    exact ⟨by simp [list, h.read, Except.map, Call.answer], by simpa [addedBy] using h⟩
  | get id =>
    cases hrun
    exact ⟨by simp [get, list, h.read, Except.map, Call.answer], by simpa [addedBy] using h⟩

/-- A file that somebody has spoiled stays as it is, and is reported by every call. -/
theorem call_spoiled {c : Call} {a : Except StoreError Response} {e : ReadError}
    (hfind : fs.find s.path = .ok (.file text)) (hparse : parse text = .error e)
    (hrun : c.run s fs = (a, s', fs')) (hserved : Served a) :
    a = .error (.corrupt e.message) ∧ fs'.find s.path = .ok (.file text) := by
  have hcorrupt : ∀ {fs'}, fs.Extends fs' →
      readTasks fs' s.path = .error (.corrupt e.message) ∧ fs'.find s.path = .ok (.file text) := by
    intro fs' h
    have hfind' := Files.find_extends h hfind
    exact ⟨by rw [readTasks_found hfind', hparse], hfind'⟩
  cases c with
  | append t =>
    have hends := append_ends t s fs
    simp only [Call.run] at hrun
    generalize s.append t fs = ended at hends hrun
    cases hends with
    | failed path reason fs₁ =>
      cases hrun
      exact absurd rfl (hserved path reason)
    | refused hlocked hread =>
      obtain ⟨hread', hfind'⟩ := hcorrupt hlocked.extends
      rw [hread'] at hread
      obtain rfl := Except.error.inj hread
      cases hrun
      exact ⟨rfl, hfind'⟩
    | known hlocked hread _ | added hlocked hread _ _ =>
      rw [(hcorrupt hlocked.extends).1] at hread
      cases hread
  | list | get id =>
    cases hrun
    exact ⟨by simp [get, list, (hcorrupt .refl).1, Except.map], hfind⟩

-- ---------------------------------------------------------------------------
-- A plain path, and one that goes through a directory and out of it again
-- ---------------------------------------------------------------------------

def plain : FilePath := ⟨[], "t.json"⟩

theorem plain_locate (fs : Files) : fs.locate plain = .ok ["t.json"] :=
  Files.locate_name (by decide +kernel) fs

theorem plain_missing (h : fs.content? ["t.json"] = none) : readTasks fs plain = .ok [] :=
  readTasks_missing (by simp [Files.has, Files.find, plain_locate, h, bind, Except.bind, Except.toOption])

/-- The first task that is appended where there are no files yet. -/
theorem plain_append (t : Task) : ∃ fs, append t { path := plain } {} =
    (.ok true, { path := plain, announced := [t.id] }, fs) ∧
      fs.find plain = .ok (.file (render [t])) := by
  have hlockName : plain.sibling ".lock" = ⟨[], "t.json.lock"⟩ := by decide +kernel
  have htmpName : plain.sibling ".tmp" = ⟨[], "t.json.tmp"⟩ := by decide +kernel
  have hparent : plain.parent = ⟨[], ""⟩ := by decide +kernel
  have hlock : lock {} plain = (.ok (), ({} : Files).put ["t.json.lock"] (.file "")) :=
    lock_missing (by simp [hparent, Files.makeDirectories])
      (hlockName ▸ Files.locate_name (by decide +kernel) _) (by simp)
  exact append_new (s := { path := plain }) hlock (plain_missing (by simp [Files.content?_put])) rfl
    (htmpName ▸ Files.locate_name (by decide +kernel) _) (plain_locate _) (by decide +kernel)
    (by simp [Files.content?_put]) (by simp [Files.content?_put])

def detour : FilePath := ⟨[], "sub/../t.json"⟩

/-- A name behind `sub/..` leads to the name alone, once there is the directory. -/
theorem locate_detour {name : String} (hfault : Files.fault? p = none) (horigin : p.origin = [])
    (hpieces : p.pieces = ["sub", "..", name]) (hname : Files.IsName name)
    (hsub : fs.content? ["sub"] = some .directory) : fs.locate p = .ok [name] := by
  obtain ⟨-, hspecial, hlong⟩ := hname
  have hplain : FilePath.follow [] name = [name] := by
    simp only [List.mem_cons, List.not_mem_nil, or_false, not_or] at hspecial
    simp [FilePath.follow, FilePath.isIdle, hspecial]
  have hfollow : FilePath.follow [] "sub" = ["sub"] := by decide +kernel
  have hback : FilePath.follow ["sub"] ".." = [] := by decide +kernel
  have hshort : ¬Files.longestName < "sub".utf8ByteSize := by decide +kernel
  have hshort' : ¬Files.longestName < "..".utf8ByteSize := by decide +kernel
  simp [Files.locate, hfault, hpieces, horigin, Files.walk, hshort, hshort', hfollow, hback, hsub,
    Nat.not_lt.mpr hlong, hplain]

theorem detour_missing (hsub : fs.content? ["sub"] = none) : readTasks fs detour = .ok [] := by
  have hfault : Files.fault? detour = none := Files.fault?_eq_none (by decide +kernel)
  have hpieces : detour.pieces = ["sub", "..", "t.json"] := by decide +kernel
  have horigin : detour.origin = [] := by decide +kernel
  have hshort : ¬Files.longestName < "sub".utf8ByteSize := by decide +kernel
  have hfollow : FilePath.follow [] "sub" = ["sub"] := by decide +kernel
  refine readTasks_missing ?_
  simp [Files.has, Files.find, Files.locate, hfault, hpieces, horigin, Files.walk, hshort, hfollow, hsub,
    bind, Except.bind, Except.toOption]

theorem detour_directories (hsub : fs.content? ["sub"] = none) :
    fs.makeDirectories detour.parent = (.ok (), fs.put ["sub"] .directory) := by
  have hparent : detour.parent = ⟨[], "sub/.."⟩ := by decide +kernel
  have hfault : Files.fault? ⟨[], "sub/.."⟩ = none := Files.fault?_eq_none (by decide +kernel)
  have hpieces : FilePath.trimmed (⟨[], "sub/.."⟩ : FilePath).pieces = ["sub", ".."] := by
    decide +kernel
  have hunslashed : FilePath.unslashed (⟨[], "sub/.."⟩ : FilePath).pieces = ["sub", ".."] := by
    decide +kernel
  have horigin : (⟨[], "sub/.."⟩ : FilePath).origin = [] := by decide +kernel
  have hshort : ¬Files.longestName < "sub".utf8ByteSize := by decide +kernel
  have hshort' : ¬Files.longestName < "..".utf8ByteSize := by decide +kernel
  have hfollow : FilePath.follow [] "sub" = ["sub"] := by decide +kernel
  have hback : FilePath.follow ["sub"] ".." = [] := by decide +kernel
  simp [hparent, Files.makeDirectories, hfault, hpieces, hunslashed, horigin, Files.makeWay, hshort,
    hshort', hfollow, hback, hsub]

/-- The tree while the store is locked. -/
def detoured (fs : Files) : Files :=
  (fs.put ["sub"] .directory).put ["t.json.lock"] (.file "")

theorem detour_lock (hsub : fs.content? ["sub"] = none) (hlock : fs.content? ["t.json.lock"] = none) :
    lock fs detour = (.ok (), detoured fs) := by
  have hname : detour.sibling ".lock" = ⟨[], "sub/../t.json.lock"⟩ := by decide +kernel
  have hpath : (fs.put ["sub"] .directory).locate (detour.sibling ".lock") = .ok ["t.json.lock"] := by
    rw [hname]
    exact locate_detour (Files.fault?_eq_none (by decide +kernel)) (by decide +kernel)
      (by decide +kernel) (by decide +kernel) (by simp [Files.content?_put])
  exact lock_missing (detour_directories hsub) hpath (by simp [Files.content?_put, hlock])

theorem locate_detoured : (detoured fs).locate detour = .ok ["t.json"] :=
  locate_detour (Files.fault?_eq_none (by decide +kernel)) (by decide +kernel) (by decide +kernel)
    (by decide +kernel) (by simp [detoured, Files.content?_put])

/-- Under the lock a file is found that was not there before. -/
theorem read_detoured (hfile : fs.content? ["t.json"] = some (.file (render ts)))
    (hexact : ∀ t ∈ ts, t.Exact) : readTasks (detoured fs) detour = .ok ts := by
  refine readTasks_render (Files.find_ok.mpr ⟨_, locate_detoured, ?_⟩) hexact
  simp [detoured, Files.content?_put, hfile]

theorem detour_append (hsub : fs.content? ["sub"] = none)
    (hlock : fs.content? ["t.json.lock"] = none) (htmp : fs.content? ["t.json.tmp"] = none)
    (hfile : fs.content? ["t.json"] = some (.file (render ts))) (hexact : ∀ t ∈ ts, t.Exact)
    (hnew : ts.any (·.hasId t.id) = false) : ∃ fs', append t { path := detour } fs =
      (.ok true, { path := detour, announced := [t.id] }, fs') ∧
        fs'.find detour = .ok (.file (render (ts ++ [t]))) := by
  have hname : detour.sibling ".tmp" = ⟨[], "sub/../t.json.tmp"⟩ := by decide +kernel
  have htemporary : (detoured fs).locate (detour.sibling ".tmp") = .ok ["t.json.tmp"] := by
    rw [hname]
    exact locate_detour (Files.fault?_eq_none (by decide +kernel)) (by decide +kernel)
      (by decide +kernel) (by decide +kernel) (by simp [detoured, Files.content?_put])
  exact append_new (s := { path := detour }) (detour_lock hsub hlock) (read_detoured hfile hexact) hnew
    htemporary locate_detoured (by decide +kernel) (by simp [detoured, Files.content?_put, htmp])
    (by simp [detoured, Files.content?_put, hfile])

end FileStore

-- ---------------------------------------------------------------------------
-- Any number of stores
-- ---------------------------------------------------------------------------

/-- A tree of files, and the stores that were opened over it. -/
structure Sharing where
  files : Files
  stores : List FileStore := []

namespace Sharing

open FileStore (Call Response History addedBy Holds)

/-- One more store is opened, or one of those that are open is called. -/
inductive Act
  | opening
  | call (k : Nat) (c : Call)

variable {d : Sharing} {acts : List Act} {start : List Task} {p : FilePath} {ts : List Task}

/-- One act, and the call it was with its answer. A store is opened if its file can be read. -/
def step (p : FilePath) (d : Sharing) : Act → History × Sharing
  | .opening =>
    match FileStore.open? d.files p with
    | .ok s => ([], { d with stores := d.stores ++ [s] })
    | .error _ => ([], d)
  | .call k c =>
    match d.stores[k]? with
    | some s =>
      let (a, s, files) := c.run s d.files
      ([(c, a)], { files, stores := d.stores.set k s })
    | none => ([], d)

def run (p : FilePath) (d : Sharing) : List Act → History × Sharing
  | [] => ([], d)
  | act :: acts =>
    let (first, d) := d.step p act
    let (rest, d) := d.run p acts
    (first ++ rest, d)

/-- All stores are opened on the path. -/
def On (p : FilePath) (d : Sharing) : Prop := ∀ s ∈ d.stores, s.path = p

/-- The tasks that the acts try to append. -/
def offered (acts : List Act) : List Task :=
  acts.filterMap fun
    | .call _ (.append t) => some t
    | _ => none

/-- Stores keep to their path. -/
theorem On.step (hon : d.On p) (act : Act) : (d.step p act).2.On p := by
  cases act with
  | opening =>
    cases hopen : FileStore.open? d.files p with
    | error e => simpa [Sharing.step, hopen] using hon
    | ok s =>
      have hpath : s.path = p := by
        simp only [FileStore.open?, bind, Except.bind] at hopen
        split at hopen <;> cases hopen
        rfl
      simp only [Sharing.step, hopen]
      intro s' hs'
      rcases List.mem_append.mp hs' with hs' | hs'
      · exact hon s' hs'
      · rw [List.mem_singleton.mp hs', hpath]
  | call k c =>
    cases hs : d.stores[k]? with
    | none => simpa [Sharing.step, hs] using hon
    | some s =>
      simp only [Sharing.step, hs]
      intro s' hs'
      rcases List.mem_or_eq_of_mem_set hs' with hs' | rfl
      · exact hon s' hs'
      · rw [Call.run_path, hon s (List.mem_of_getElem? hs)]

theorem On.run (hon : d.On p) : (d.run p acts).2.On p := by
  induction acts generalizing d with
  | nil => exact hon
  | cons act acts ih => exact ih (hon.step act)

/-- An act changes nothing in the files, or it is one call of a store on the path. -/
theorem step_cases (hon : d.On p) (act : Act) :
    (d.step p act).1 = [] ∧ (d.step p act).2.files = d.files ∨
      ∃ k c s a s', act = .call k c ∧ s.path = p ∧
        c.run s d.files = (a, s', (d.step p act).2.files) ∧ (d.step p act).1 = [(c, a)] := by
  cases act with
  | opening => exact .inl (by simp only [step]; split <;> exact ⟨rfl, rfl⟩)
  | call k c =>
    cases hs : d.stores[k]? with
    | none => exact .inl (by simp [step, hs])
    | some s =>
      cases hrun : c.run s d.files with
      | mk a rest =>
        refine .inr ⟨k, c, s, a, rest.1, rfl, hon s (List.mem_of_getElem? hs), ?_⟩
        simp [step, hs, hrun]

/-- Every answer is what one list would have answered, which starts with `ts`. -/
theorem run_answers (hon : d.On p) (hholds : Holds d.files p ts) (hexact : ∀ t ∈ ts, t.Exact)
    (hoffered : ∀ t ∈ offered acts, t.Exact) (hserved : ∀ entry ∈ (d.run p acts).1, Served entry.2)
    {before after : History} {c : Call} {a : Except StoreError Response}
    (hhistory : (d.run p acts).1 = before ++ (c, a) :: after) :
    a = .ok (c.answer (ts ++ addedBy before)) := by
  -- `ts` is what the file holds now, which is what it held at first and what was added since
  induction acts generalizing d ts before with
  | nil => cases before <;> cases hhistory
  | cons act acts ih =>
    have hrest : ∀ t ∈ offered acts, t.Exact := fun t ht =>
      hoffered t (((List.sublist_cons_self act acts).filterMap _).subset ht)
    simp only [run] at hserved hhistory
    rcases step_cases hon act with ⟨hnone, hfiles⟩ | ⟨k, c₀, s, a₀, s', rfl, rfl, hrun, hone⟩
    · rw [hnone, List.nil_append] at hserved hhistory
      exact ih (hon.step act) (hfiles ▸ hholds) hexact hrest hserved hhistory
    · rw [hone, List.singleton_append] at hserved hhistory
      obtain ⟨hserved₀, hserved⟩ := List.forall_mem_cons.mp hserved
      have hnew : ∀ t, c₀ = .append t → t.Exact := by
        rintro t rfl
        exact hoffered t List.mem_cons_self
      obtain ⟨ha, hholds'⟩ := hholds.call hexact hnew hrun hserved₀
      cases before with
      | nil =>
        obtain ⟨hentry, -⟩ := List.cons.inj hhistory
        cases hentry
        simpa [addedBy] using ha
      | cons entry before =>
        obtain ⟨hentry, htail⟩ := List.cons.inj hhistory
        subst hentry
        have hexact' : ∀ t ∈ ts ++ addedBy [(c₀, a₀)], t.Exact := by
          intro t ht
          rcases List.mem_append.mp ht with ht | ht
          · exact hexact t ht
          · exact hnew t (FileStore.append_of_mem_addedBy ht)
        have hlater := ih (hon.step _) hholds' hexact' hrest hserved htail
        rwa [List.append_assoc, ← FileStore.addedBy_append] at hlater

/-- Once somebody has put a text into the file that is no list of tasks, all calls report it. -/
theorem run_spoiled {text : String} {e : ReadError} (hon : d.On p)
    (hfind : d.files.find p = .ok (.file text)) (hparse : FileStore.parse text = .error e)
    (hserved : ∀ entry ∈ (d.run p acts).1, Served entry.2) :
    (∀ entry ∈ (d.run p acts).1, entry.2 = .error (.corrupt e.message)) ∧
      (d.run p acts).2.files.find p = .ok (.file text) := by
  induction acts generalizing d with
  | nil => exact ⟨by simp [run], hfind⟩
  | cons act acts ih =>
    simp only [run] at hserved ⊢
    rcases step_cases hon act with ⟨hnone, hfiles⟩ | ⟨k, c, s, a, s', rfl, rfl, hrun, hone⟩
    · rw [hnone, List.nil_append] at hserved ⊢
      exact ih (hon.step act) (hfiles ▸ hfind) hserved
    · rw [hone, List.singleton_append] at hserved ⊢
      obtain ⟨hserved₀, hserved⟩ := List.forall_mem_cons.mp hserved
      obtain ⟨ha, hfind'⟩ := FileStore.call_spoiled hfind hparse hrun hserved₀
      obtain ⟨hall, hend⟩ := ih (hon.step _) hfind' hserved
      exact ⟨List.forall_mem_cons.mpr ⟨ha, hall⟩, hend⟩

/-- However many stores are opened on a path and in whatever order they are called: each call is
answered as one list would answer it, which starts with what the file held and grows by the tasks
of the appends answered with true. Once the file holds anything but a list of tasks, every call
reports that and leaves the file as it is. -/
theorem shared_list (p : FilePath) (fs : Files) (start : List Task) (acts : List Act)
    (hstart : FileStore.readTasks fs p = .ok start)
    (hway : fs.has p = false → (fs.makeDirectories p.parent).2.has p = false)
    (hexact : ∀ t ∈ start ++ offered acts, t.Exact)
    (hserved : ∀ entry ∈ (run p ⟨fs, []⟩ acts).1, Served entry.2) :
    (∀ before c a after, (run p ⟨fs, []⟩ acts).1 = before ++ (c, a) :: after →
      a = .ok (c.answer (start ++ addedBy before))) ∧
    ∀ text e files later, FileStore.parse text = .error e →
      (run p ⟨fs, []⟩ acts).2.files.write p (.file text) = .ok files →
      let spoiled := run p ⟨files, (run p ⟨fs, []⟩ acts).2.stores⟩ later
      (∀ entry ∈ spoiled.1, Served entry.2) →
        (∀ entry ∈ spoiled.1, entry.2 = .error (.corrupt e.message)) ∧
          spoiled.2.files.read p = .ok text := by
  have hon : (⟨fs, []⟩ : Sharing).On p := by simp [On]
  obtain ⟨hold, hoffered⟩ := List.forall_mem_append.mp hexact
  constructor
  · intro before c a after hhistory
    exact run_answers hon (FileStore.holds_of_read hstart hway) hold hoffered hserved hhistory
  · intro text e files later hparse hwrite spoiled hlater
    have hon' : (⟨files, (run p ⟨fs, []⟩ acts).2.stores⟩ : Sharing).On p := hon.run
    obtain ⟨hall, hfind⟩ := run_spoiled hon' (Files.find_write hwrite) hparse hlater
    exact ⟨hall, by simp [Files.read, spoiled, hfind, bind, Except.bind]⟩

theorem shared_list_two_stores :
    let warm : Task := { id := "t", name := "T", config := { temperature := some 0.5 } }
    let path : FilePath := ⟨[], "t.json"⟩
    let history := (run path ⟨{}, []⟩
      [.opening, .opening, .call 0 (.append warm), .call 1 .list]).1
    history = [(.append warm, .ok (.added true)), (.list, .ok (.listed [warm]))] ∧
      ∀ before c a after, history = before ++ (c, a) :: after →
        a = .ok (c.answer ([] ++ addedBy before)) := by
  intro warm path history
  have hempty : FileStore.readTasks {} path = .ok [] := FileStore.plain_missing (by simp)
  obtain ⟨moved, happend, hfind⟩ := FileStore.plain_append warm
  have hwarm : warm.Exact := by
    intro x hx
    cases hx
    exact ⟨by decide, Json.readsBack_half⟩
  have hlist : FileStore.readTasks moved path = .ok [warm] :=
    FileStore.readTasks_render hfind (by simpa using hwarm)
  have hopen : FileStore.open? {} path = .ok { path } := by
    simp only [FileStore.open?, hempty, bind, Except.bind]
    rfl
  have hhistory : history = [(.append warm, .ok (.added true)), (.list, .ok (.listed [warm]))] := by
    simp only [FileStore.plain] at happend
    simp [history, path, run, step, hopen, Call.run, happend, FileStore.list, hlist, Except.map]
  have hserved : ∀ entry ∈ history, Served entry.2 := by
    simp [hhistory, Served]
  refine ⟨hhistory, (shared_list path {} [] _ hempty ?_ ?_ hserved).1⟩
  · have hparent : path.parent = ⟨[], ""⟩ := by decide +kernel
    intro hmissing
    rwa [hparent]
  · simpa [offered] using hwarm

/-- A path may miss its file only because it leaves by `..` a directory that is not there yet. A
list finds nothing then, but an append makes the directory and finds the file. -/
theorem unlisted_yet_known :
    let old : Task := { id := "old", name := "Old" }
    let new : Task := { id := "old", name := "New" }
    let path : FilePath := ⟨[], "sub/../t.json"⟩
    let files := ({} : Files).put ["t.json"] (.file (FileStore.render [old]))
    let acts : List Act := [.opening, .call 0 .list, .call 0 (.append new), .call 0 .list]
    let history := (run path ⟨files, []⟩ acts).1
    FileStore.readTasks files path = .ok [] ∧ (∀ t ∈ [] ++ offered acts, t.Exact) ∧
      (∀ entry ∈ history, Served entry.2) ∧
      history = [(.list, .ok (.listed [])), (.append new, .ok (.added false)),
        (.list, .ok (.listed [old]))] ∧
      ¬∀ before c a after, history = before ++ (c, a) :: after →
        a = .ok (c.answer ([] ++ addedBy before)) := by
  intro old new path files acts history
  have hsub : files.content? ["sub"] = none := by simp [files, Files.content?_put]
  have hfile : files.content? ["t.json"] = some (.file (FileStore.render [old])) := by
    simp [files, Files.content?_put]
  have hmissing : FileStore.readTasks files path = .ok [] := FileStore.detour_missing hsub
  let locked := FileStore.detoured files
  have hlocked : FileStore.lock files path = (.ok (), locked) :=
    FileStore.detour_lock hsub (by simp [files, Files.content?_put])
  have hread : FileStore.readTasks locked path = .ok [old] :=
    FileStore.read_detoured hfile (by simp [Task.Exact, old])
  have happend : FileStore.append new { path } files = (.ok false, { path }, locked) := by
    simp only [FileStore.append, hlocked, hread, Task.appendNew]
    rfl
  have hopen : FileStore.open? files path = .ok { path } := by
    simp only [FileStore.open?, hmissing, bind, Except.bind]
    rfl
  have hhistory : history = [(.list, .ok (.listed [])), (.append new, .ok (.added false)),
      (.list, .ok (.listed [old]))] := by
    simp [history, acts, run, step, hopen, Call.run, FileStore.list, hmissing, happend, hread, Except.map]
  have hexact : ∀ t ∈ [] ++ offered acts, t.Exact := by
    intro t ht
    obtain rfl := List.mem_singleton.mp ht
    simp [Task.Exact]
  refine ⟨hmissing, hexact, by simp [hhistory, Served], hhistory, fun h => ?_⟩
  have hadded := h [(.list, .ok (.listed []))] (.append new) _ _ hhistory
  simp [Call.answer, addedBy] at hadded

end Sharing

end Workflow
