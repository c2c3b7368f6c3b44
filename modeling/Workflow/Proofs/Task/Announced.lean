import Workflow.Proofs.Merge.Effects
import Workflow.Proofs.Task.Shared
import Workflow.Task.Shelf

/-!
# What the stores of a shelf announce

Stores are appended to, read and subscribed to in any order, by callers and by merges.
`announced_inserted`: whoever keeps up with a store gets the ids of just those tasks that the store
has taken in since, in their order and once each, and what a store in memory holds are the first
tasks of each id among all that it was ever given.

A watch keeps what has happened next to the shelf. `effect_step` says once what an act can do to
both; what holds along a run is derived from it.
-/

namespace Workflow

-- ---------------------------------------------------------------------------
-- Lists
-- ---------------------------------------------------------------------------

theorem lookup_renewed {α : Type} {name other : String} {l : List (String × α)} {x : α} :
    ((name, x) :: l.filter (·.1 != name)).lookup other =
      if other = name then some x else l.lookup other := by
  by_cases hne : other = name
  · simp [hne]
  rw [if_neg hne, List.lookup_cons, beq_false_of_ne hne]
  induction l with
  | nil => rfl
  | cons y ys ih =>
    obtain ⟨key, y⟩ := y
    by_cases hkey : key = name
    · subst hkey
      simpa [List.lookup_cons, beq_false_of_ne hne] using ih
    · simp only [List.filter_cons, bne_iff_ne, ne_eq, hkey, not_false_eq_true, if_true,
        List.lookup_cons, ih]

-- ---------------------------------------------------------------------------
-- Receivers that stop
-- ---------------------------------------------------------------------------

/-- What a receiver gets that stops after `n` announcements; the ones behind them wait on. -/
def Receiver.read (n : Nat) (r : Receiver) (announced : List String) : Delivery × Receiver :=
  let ⟨lost, ids⟩ := (r.take announced).1
  (⟨lost, ids.take n⟩, ⟨announced.length - (ids.drop n).length⟩)

section
variable {announced : List String} {seen n : Nat}

/-- Who is not too far behind loses nothing. -/
theorem Receiver.read_near (hseen : seen ≤ announced.length)
    (hnear : announced.length ≤ seen + announcementCapacity) :
    (⟨seen⟩ : Receiver).read n announced =
      (⟨0, (announced.drop seen).take n⟩, ⟨min (seen + n) announced.length⟩) := by
  have hlost : announced.length - seen - announcementCapacity = 0 := by omega
  simp only [read, take, List.length_drop, hlost, List.drop_zero, Prod.mk.injEq, mk.injEq, true_and]
  omega

theorem Receiver.read_capacity {r : Receiver} :
    r.read announcementCapacity announced = r.take announced := by
  simp only [read, take, List.length_drop, Prod.mk.injEq, Delivery.mk.injEq, true_and, mk.injEq]
  constructor
  · rw [List.take_of_length_le]
    simp only [List.length_drop]
    omega
  · omega

end

namespace Shelf

/-- Takes `n` of the announcements that wait for a receiver, or all if there are fewer. -/
def read (name : String) (n : Nat) (shelf : Shelf) : Option (Delivery × Shelf) :=
  (shelf.receivers.lookup name).map fun (place, receiver) =>
    let (delivery, receiver) := receiver.read n (shelf.announced place)
    (delivery, { shelf with
      receivers := (name, place, receiver) :: shelf.receivers.filter (·.1 != name) })

-- ---------------------------------------------------------------------------
-- Acts and events
-- ---------------------------------------------------------------------------

inductive Event
  | appended (place : Nat) (t : Task) (answer : Except StoreError Bool)
  | listed (place : Nat) (answer : Except StoreError (List Task))
  | found (place : Nat) (id : String) (answer : Except StoreError (Option Task))
  | delivered (name : String) (delivery : Delivery)

/-- A shelf with what has happened at its stores since some time. -/
structure Watch where
  shelf : Shelf
  events : List Event := []

/-- Appends a task and takes down the answer. -/
def Watch.append (place : Nat) (t : Task) (w : Watch) : Except StoreError Bool × Watch :=
  let (answer, shelf) := w.shelf.append place t
  (answer, ⟨shelf, w.events ++ [.appended place t answer]⟩)

/-- What is done to a shelf. Stores go by their places; a merge comes with the place of its store
and with the level that it works on. -/
inductive Act
  | put (name : String) (s : Store)
  | forget (name : String)
  /-- The files are changed by others. -/
  | replace (files : Files)
  | append (place : Nat) (t : Task)
  | list (place : Nat)
  | get (place : Nat) (id : String)
  | commit (place : Nat) (r : Merge.Resolved) (l : Level)
  | combine (place : Nat) (c : Merge.Setting Shelf) (target dropped : String) (tokens : TokenSupply)
    (l : Level)
  | subscribe (name : String) (place : Nat)
  | receive (name : String) (used : List Nat)
  | read (name : String) (n : Nat)

/-- The first task of an id that a store lists. -/
def find (place : Nat) (id : String) (shelf : Shelf) : Except StoreError (Option Task) :=
  (shelf.list place).map fun ts => ts.find? (·.hasId id)

/-- What an act does to a shelf that nobody watches. -/
def Act.apply (s : Shelf) : Act → Shelf
  | put name store => s.put name store
  | forget name => (s.forget name).2
  | replace files => { s with files }
  | append place t => (s.append place t).2
  | list _ | get _ _ => s
  | commit place r l => (Merge.commit (Shelf.append place) r s l).result.2
  | combine place c target dropped tokens l =>
    (Merge.combine { c with append := Shelf.append place } target dropped tokens s l).result.2.2
  | subscribe name place => s.subscribe name place
  | receive name used => (s.receive name used).elim s Prod.snd
  | read name n => (s.read name n).elim s Prod.snd

/-- Does an act to a shelf and takes down what the stores answer. -/
def Act.step (w : Watch) : Act → Watch
  | put name s => { w with shelf := w.shelf.put name s }
  | forget name => { w with shelf := (w.shelf.forget name).2 }
  | replace files => { w with shelf := { w.shelf with files } }
  | append place t => (w.append place t).2
  | list place => { w with events := w.events ++ [.listed place (w.shelf.list place)] }
  | get place id => { w with events := w.events ++ [.found place id (w.shelf.find place id)] }
  | commit place r l => (Merge.commit (Watch.append place) r w l).result.2
  | combine place c target dropped tokens l =>
    (Merge.combine { c with append := Watch.append place } target dropped tokens w l).result.2.2
  | subscribe name place => { w with shelf := w.shelf.subscribe name place }
  | receive name used =>
    match w.shelf.receive name used with
    | some ((delivery, _), shelf) => ⟨shelf, w.events ++ [.delivered name delivery]⟩
    | none => w
  | read name n =>
    match w.shelf.read name n with
    | some (delivery, shelf) => ⟨shelf, w.events ++ [.delivered name delivery]⟩
    | none => w

/-- The watch after a run of acts. -/
def Watch.run (w : Watch) (acts : List Act) : Watch :=
  acts.foldl Act.step w

-- ---------------------------------------------------------------------------
-- What is read off the events
-- ---------------------------------------------------------------------------

/-- The id of a task that was appended, if the answer tells that it was not there yet. -/
def takenIn (t : Task) : Except StoreError Bool → List String
  | .ok true => [t.id]
  | .ok false | .error _ => []

/-- The ids of the tasks that the store at a place has taken in. -/
def inserted (place : Nat) (events : List Event) : List String :=
  events.flatMap fun
    | .appended q t answer => if q = place then takenIn t answer else []
    | _ => []

/-- All tasks that the store at a place was given. -/
def offered (place : Nat) (events : List Event) : List Task :=
  events.flatMap fun
    | .appended q t _ => if q = place then [t] else []
    | _ => []

/-- The ids that a receiver has got. -/
def received (name : String) (events : List Event) : List String :=
  events.flatMap fun
    | .delivered other d => if other = name then d.ids else []
    | _ => []

/-- A receiver never falls behind by more than what can wait for it. -/
def KeepsUp (name : String) (place : Nat) (events : List Event) : Prop :=
  ∀ before, before <+: events →
    (inserted place before).length ≤ (received name before).length + announcementCapacity

/-- The first task of each id among those that a store was given. -/
def firsts (place : Nat) (events : List Event) : List Task :=
  (offered place events).eraseDupsBy fun t u => t.id == u.id

/-- If the event is an answer of the store at a place, then the store has shown just these tasks. -/
def Event.Shows (place : Nat) (ts : List Task) : Event → Prop
  | listed q answer => q = place → answer = .ok ts
  | found q id answer => q = place → answer = .ok (ts.find? (·.hasId id))
  | appended _ _ _ | delivered _ _ => True

/-- The receiver of a name gets what the store at a place announces from now on. -/
def Subscribed (name : String) (place : Nat) (shelf : Shelf) : Prop :=
  shelf.receivers.lookup name = some (place, .subscribe (shelf.announced place))

section
variable {p : Nat} {name : String} {before events new : List Event} {e : Event}

@[simp] theorem inserted_append :
    inserted p (events ++ new) = inserted p events ++ inserted p new :=
  List.flatMap_append

@[simp] theorem inserted_appended {q : Nat} {t : Task} {answer : Except StoreError Bool} :
    inserted p [.appended q t answer] = if q = p then takenIn t answer else [] := by
  simp [inserted]

@[simp] theorem inserted_delivered {d : Delivery} : inserted p [.delivered name d] = [] := rfl

@[simp] theorem received_delivered {other : String} {d : Delivery} :
    received name [.delivered other d] = if other = name then d.ids else [] := by
  simp [received]

@[simp] theorem offered_appended {q : Nat} {t : Task} {answer : Except StoreError Bool} :
    offered p [.appended q t answer] = if q = p then [t] else [] := by
  simp [offered]

@[simp] theorem offered_append : offered p (events ++ new) = offered p events ++ offered p new :=
  List.flatMap_append

theorem firsts_append (h : offered p new = []) : firsts p (events ++ new) = firsts p events := by
  rw [firsts, offered_append, h, List.append_nil, firsts]

@[simp] theorem received_append :
    received name (events ++ new) = received name events ++ received name new :=
  List.flatMap_append

theorem KeepsUp.earlier (h : KeepsUp name p (events ++ new)) : KeepsUp name p events :=
  fun before hb => h before (hb.trans (List.prefix_append events new))

theorem KeepsUp.now (h : KeepsUp name p events) :
    (inserted p events).length ≤ (received name events).length + announcementCapacity :=
  h events (List.prefix_refl events)

theorem keepsUp_of_few (h : (inserted p events).length ≤ announcementCapacity) :
    KeepsUp name p events := by
  rintro before ⟨after, rfl⟩
  rw [inserted_append, List.length_append] at h
  omega

end

-- ---------------------------------------------------------------------------
-- What an act can do
-- ---------------------------------------------------------------------------

section
variable {s s' : Shelf} {p q n : Nat} {name other : String} {store : Store} {t : Task}
variable {d : Delivery} {a : Act} {w : Watch} {l : Level}

/-- Watching a shelf does not change what a merge does. -/
theorem commit_watched {r : Merge.Resolved} :
    Merge.commit (Shelf.append p) r w.shelf l =
      { Merge.commit (Watch.append p) r w l with
        result := (Merge.commit (Watch.append p) r w l).result.map id Watch.shelf } :=
  Merge.commit_map fun _ _ => rfl

theorem combine_watched {c : Merge.Setting Shelf} {target dropped : String}
    {tokens : TokenSupply} :
    Merge.combine { c with append := Shelf.append p } target dropped tokens w.shelf l =
      let watched := Merge.combine { c with append := Watch.append p } target dropped tokens w l
      { watched with result := watched.result.map id (·.map id Watch.shelf) } :=
  Merge.combine_map (c := { c with append := Watch.append p }) fun _ _ => rfl

theorem step_shelf (a : Act) (w : Watch) : (a.step w).shelf = a.apply w.shelf := by
  cases a with
  | commit place r l => rw [Act.apply, commit_watched]; rfl
  | combine place c target dropped tokens l => rw [Act.apply, combine_watched]; rfl
  | receive name used =>
    simp only [Act.step, Act.apply]
    cases w.shelf.receive name used <;> rfl
  | read name n =>
    simp only [Act.step, Act.apply]
    cases w.shelf.read name n <;> rfl
  | _ => rfl

theorem receive_eq (s : Shelf) (name : String) (used : List Nat) : ∃ gone, s.receive name used =
    (s.read name announcementCapacity).map fun (d, s') => ((d, gone), s') := by
  simp only [receive, read, Receiver.read_capacity]
  cases s.receivers.lookup name with
  | none => exact ⟨true, rfl⟩
  | some found => exact ⟨_, rfl⟩

/-- What an act can do to a shelf, with the events that it makes. -/
inductive Effect (a : Act) (s : Shelf) : List Event → Shelf → Prop
  | kept {s' : Shelf} :
    (∀ (q : Nat) (store : Store), s.stores[q]? = some store → s'.stores[q]? = some store) →
    s'.receivers = s.receivers → Effect a s [] s'
  | listed (q : Nat) : Effect a s [.listed q (s.list q)] s
  | found (q : Nat) (id : String) : Effect a s [.found q id (s.find q id)] s
  | appended (q : Nat) (t : Task) : Effect a s [.appended q t (s.append q t).1] (s.append q t).2
  | subscribed {name : String} {q : Nat} : a = .subscribe name q →
    Effect a s [] (s.subscribe name q)
  | delivered {name : String} {n : Nat} {d : Delivery} {s' : Shelf} :
    s.read name n = some (d, s') → Effect a s [.delivered name d] s'

theorem effect_step (a : Act) (w : Watch) :
    ∃ new s', Effect a w.shelf new s' ∧ a.step w = ⟨s', w.events ++ new⟩ := by
  have quiet {s' : Shelf} (h : Effect a w.shelf [] s') : ∃ new s'', Effect a w.shelf new s'' ∧
      (⟨s', w.events⟩ : Watch) = ⟨s'', w.events ++ new⟩ :=
    ⟨[], s', h, by rw [List.append_nil]⟩
  have nothing : ∃ new s', Effect a w.shelf new s' ∧ w = ⟨s', w.events ++ new⟩ :=
    quiet (.kept (fun _ _ h => h) rfl)
  have append (q : Nat) (t : Task) : ∃ new s', Effect a w.shelf new s' ∧
      (w.append q t).2 = ⟨s', w.events ++ new⟩ :=
    ⟨_, _, .appended q t, rfl⟩
  cases a with
  | put name store =>
    refine quiet (.kept (fun q old h => ?_) rfl)
    obtain ⟨hq, hold⟩ := Array.getElem?_eq_some_iff.mp h
    rw [put, Array.getElem?_push_lt hq, hold]
  | forget name => exact quiet (.kept (fun _ _ h => h) rfl)
  | replace files => exact quiet (.kept (fun _ _ h => h) rfl)
  | append place t => exact append place t
  | list place => exact ⟨_, _, .listed place, rfl⟩
  | get place id => exact ⟨_, _, .found place id, rfl⟩
  | commit place r l =>
    simp only [Act.step]
    rcases Merge.store_commit (Watch.append place) r w l with h | h
    · rw [h]
      exact nothing
    · rw [h]
      exact append place r.task
  | combine place c target dropped tokens l =>
    simp only [Act.step]
    rcases Merge.store_combine { c with append := Watch.append place } target dropped tokens w l
      with h | ⟨t, h⟩
    · rw [h]
      exact nothing
    · rw [h]
      exact append place t
  | subscribe name place => exact quiet (.subscribed rfl)
  | receive name used =>
    obtain ⟨gone, h⟩ := receive_eq w.shelf name used
    simp only [Act.step, h]
    cases hread : w.shelf.read name announcementCapacity with
    | none => exact nothing
    | some found => exact ⟨_, _, .delivered hread, rfl⟩
  | read name n =>
    simp only [Act.step]
    cases hread : w.shelf.read name n with
    | none => exact nothing
    | some found => exact ⟨_, _, .delivered hread, rfl⟩

theorem announced_eq (h : s.stores[p]? = some store) : s.announced p = store.announced := by
  simp [announced, Array.getD_eq_getD_getElem?, h]

theorem list_eq (h : s.stores[p]? = some store) : s.list p = store.list s.files := by
  simp [list, Array.getD_eq_getD_getElem?, h]

theorem stores_append (h : s.stores[p]? = some store) : (s.append q t).2.stores[p]? =
    some (if q = p then (Store.append t (store, s.files)).2.1 else store) := by
  obtain ⟨hp, -⟩ := Array.getElem?_eq_some_iff.mp h
  simp only [append, Array.getElem?_setIfInBounds]
  split
  · rename_i hq
    subst hq
    simp only [if_pos hp, Array.getD_eq_getD_getElem?, h, Option.getD_some]
  · exact h

theorem answer_append (h : s.stores[q]? = some store) :
    (s.append q t).1 = (Store.append t (store, s.files)).1 := by
  simp [append, Array.getD_eq_getD_getElem?, h]

/-- A store announces a task if it takes it in, and nothing else. -/
theorem announced_store_append (t : Task) (store : Store) (fs : Files) :
    (Store.append t (store, fs)).2.1.announced =
      store.announced ++ takenIn t (Store.append t (store, fs)).1 := by
  cases store with
  | memory m =>
    simp only [Store.append, Store.announced, MemoryStore.append, Task.appendNew]
    split <;> simp [takenIn]
  | file f =>
    have hends := FileStore.append_ends t f fs
    simp only [Store.append, Store.announced]
    generalize f.append t fs = x at hends
    cases hends <;> simp [takenIn]
  | unreachable reason => simp [Store.append, Store.announced, takenIn]

/-- The store at a place has announced the tasks that it has taken in since the watch began. -/
structure Announces (old : List String) (p : Nat) (w : Watch) : Prop where
  stands : ∃ store, w.shelf.stores[p]? = some store
  announced : w.shelf.announced p = old ++ inserted p w.events

theorem Announces.effect {old : List String} {events new : List Event}
    (h : Announces old p ⟨s, events⟩) (he : Effect a s new s') :
    Announces old p ⟨s', events ++ new⟩ := by
  obtain ⟨⟨store, hstore⟩, ha⟩ := h
  rw [announced_eq hstore] at ha
  have unmoved (h : s'.stores[p]? = some store) (hnew : inserted p new = []) :
      Announces old p ⟨s', events ++ new⟩ :=
    ⟨⟨store, h⟩, by rw [announced_eq h, ha, inserted_append, hnew, List.append_nil]⟩
  cases he with
  | kept hstores hreceivers => exact unmoved (hstores p store hstore) rfl
  | listed q => exact unmoved hstore rfl
  | found q id => exact unmoved hstore rfl
  | subscribed _ => exact unmoved hstore rfl
  | delivered hread =>
    obtain ⟨x, hx, hd⟩ := Option.map_eq_some_iff.mp hread
    cases hd
    exact unmoved hstore rfl
  | appended q t =>
    have hnow := stores_append (q := q) (t := t) hstore
    by_cases hq : q = p
    · subst hq
      rw [if_pos rfl] at hnow
      refine ⟨⟨_, hnow⟩, ?_⟩
      rw [announced_eq hnow, announced_store_append, ha, inserted_append, inserted_appended,
        if_pos rfl, answer_append hstore, List.append_assoc]
    · rw [if_neg hq] at hnow
      exact unmoved hnow (by rw [inserted_appended, if_neg hq])

-- ---------------------------------------------------------------------------
-- Who follows a store
-- ---------------------------------------------------------------------------

/-- The receiver has got the first `k` of the announcements made since the watch began. -/
structure Reached (old : List String) (name : String) (p k : Nat) (w : Watch) : Prop where
  within : k ≤ (inserted p w.events).length
  receiver : w.shelf.receivers.lookup name = some (p, ⟨old.length + k⟩)
  received : received name w.events = (inserted p w.events).take k
  unbroken : ∀ d, .delivered name d ∈ w.events → d.lost = 0

/-- A read of a receiver that keeps up gives what comes next. -/
theorem Reached.read {old : List String} {k : Nat} (h : Reached old name p k w)
    (ha : Announces old p w) (hup : KeepsUp name p w.events) :
    w.shelf.read name n = some (⟨0, ((inserted p w.events).drop k).take n⟩,
      { w.shelf with receivers :=
        (name, p, ⟨old.length + min (k + n) (inserted p w.events).length⟩) ::
          w.shelf.receivers.filter (·.1 != name) }) := by
  have hnow := hup.now
  rw [h.received, List.length_take_of_le h.within] at hnow
  have hwithin := h.within
  have hlength : (w.shelf.announced p).length = old.length + (inserted p w.events).length := by
    rw [ha.announced, List.length_append]
  have hwaiting : (w.shelf.announced p).drop (old.length + k) = (inserted p w.events).drop k := by
    rw [ha.announced, List.drop_length_add_append]
  simp only [Shelf.read, h.receiver, Option.map_some]
  rw [Receiver.read_near (by omega) (by omega), hwaiting, hlength, Nat.add_assoc,
    Nat.add_min_add_left]

/-- As long as it keeps up, a receiver has got a first part of all that was announced. -/
structure Follows (old : List String) (name : String) (p : Nat) (w : Watch) : Prop
    extends Announces old p w where
  reached : KeepsUp name p w.events → ∃ k, Reached old name p k w

theorem Follows.effect {old : List String} {events new : List Event}
    (h : Follows old name p ⟨s, events⟩) (he : Effect a s new s')
    (hname : ∀ q, a ≠ .subscribe name q) : Follows old name p ⟨s', events ++ new⟩ := by
  refine ⟨h.toAnnounces.effect he, fun hup => ?_⟩
  obtain ⟨k, hk⟩ := h.reached hup.earlier
  -- The events of others neither give to the receiver nor move it.
  have unmoved (hreceiver : s'.receivers.lookup name = s.receivers.lookup name)
      (hnew : received name new = []) (hd : ∀ d, Event.delivered name d ∉ new) :
      Reached old name p k ⟨s', events ++ new⟩ := by
    refine ⟨?_, hreceiver.trans hk.receiver, ?_, fun d h => ?_⟩
    · rw [inserted_append, List.length_append]
      exact Nat.le_add_right_of_le hk.within
    · rw [received_append, inserted_append, hnew, List.append_nil,
        List.take_append_of_le_length hk.within, hk.received]
    · exact (List.mem_append.mp h).elim (hk.unbroken d) fun h => absurd h (hd d)
  cases he with
  | kept hstores hreceivers => exact ⟨k, unmoved (by rw [hreceivers]) rfl (by simp)⟩
  | listed q => exact ⟨k, unmoved rfl rfl (by simp)⟩
  | found q id => exact ⟨k, unmoved rfl rfl (by simp)⟩
  | appended q t => exact ⟨k, unmoved rfl rfl (by simp)⟩
  | subscribed ha =>
    rename_i other q
    have hne : name ≠ other := fun h => hname q (h ▸ ha)
    exact ⟨k, unmoved (by rw [subscribe, lookup_renewed, if_neg hne]) rfl (by simp)⟩
  | delivered hread =>
    rename_i other n d
    by_cases hne : other = name
    · subst hne
      rw [hk.read h.toAnnounces hup.earlier] at hread
      obtain ⟨rfl, rfl⟩ := Prod.mk.inj (Option.some.inj hread)
      refine ⟨min (k + n) (inserted p events).length, ?_, ?_, ?_, fun d h => ?_⟩
      · rw [inserted_append, inserted_delivered, List.append_nil]
        exact Nat.min_le_right _ _
      · rw [lookup_renewed, if_pos rfl]
      · rw [received_append, received_delivered, if_pos rfl, inserted_append, inserted_delivered,
          List.append_nil, hk.received, ← List.take_add, ← List.take_eq_take_min]
      · rcases List.mem_append.mp h with h | h
        · exact hk.unbroken d h
        · cases List.mem_singleton.mp h
          rfl
    · obtain ⟨x, hx, hd⟩ := Option.map_eq_some_iff.mp hread
      cases hd
      refine ⟨k, unmoved ?_ (by rw [received_delivered, if_neg hne]) (by simp [Ne.symm hne])⟩
      rw [lookup_renewed, if_neg (Ne.symm hne)]

-- ---------------------------------------------------------------------------
-- Stores in memory
-- ---------------------------------------------------------------------------

/-- What a store in memory does on an append, in terms of the tasks that it was given so far. -/
theorem appendNew_firsts {events : List Event} {answer : Except StoreError Bool} :
    (Task.appendNew (firsts p events) t).1 = firsts p (events ++ [.appended p t answer]) := by
  have hsame : (t.id == ·.id) = Task.hasId t.id := funext fun _ => Bool.beq_comm
  have hnext : firsts p (events ++ [.appended p t answer]) =
      if (firsts p events).any (·.hasId t.id) then firsts p events else firsts p events ++ [t] := by
    rw [firsts, offered_append, offered_appended, if_pos rfl, eraseDupsBy_concat, hsame, firsts]
  rw [hnext, Task.appendNew]
  split <;> rfl

/-- The store at a place is in memory, and was empty when the watch began. -/
structure Keeps (p : Nat) (w : Watch) : Prop where
  memory : ∃ m, w.shelf.stores[p]? = some (.memory m) ∧ m.tasks = firsts p w.events
  ids : (firsts p w.events).map (·.id) = inserted p w.events
  shown : ∀ before e, before ++ [e] <+: w.events → e.Shows p (firsts p before)

theorem Keeps.list (h : Keeps p w) : w.shelf.list p = .ok (firsts p w.events) := by
  obtain ⟨m, hm, htasks⟩ := h.memory
  rw [list_eq hm, Store.list, htasks]

theorem Keeps.effect {events new : List Event} (h : Keeps p ⟨s, events⟩) (he : Effect a s new s') :
    Keeps p ⟨s', events ++ new⟩ := by
  have hlist := h.list
  obtain ⟨⟨m, hm, htasks⟩, hids, hshown⟩ := h
  have shown {e : Event} (he : e.Shows p (firsts p events)) (before : List Event) (e' : Event)
      (hbefore : before ++ [e'] <+: events ++ [e]) : e'.Shows p (firsts p before) := by
    rcases List.prefix_concat_iff.mp hbefore with h | h
    · obtain ⟨rfl, hlast⟩ := List.append_inj' h rfl
      cases List.singleton_inj.mp hlast
      exact he
    · exact hshown before e' h
  have unmoved (h : s'.stores[p]? = some (.memory m)) (hins : inserted p new = [])
      (hoff : offered p new = [])
      (hshown : ∀ before e, before ++ [e] <+: events ++ new → e.Shows p (firsts p before)) :
      Keeps p ⟨s', events ++ new⟩ := by
    refine ⟨⟨m, h, ?_⟩, ?_, hshown⟩
    · rw [firsts_append hoff, htasks]
    · rw [firsts_append hoff, inserted_append, hins, List.append_nil, hids]
  cases he with
  | kept hstores => exact unmoved (hstores p _ hm) rfl rfl (by simpa using hshown)
  | subscribed => exact unmoved hm rfl rfl (by simpa using hshown)
  | listed q =>
    refine unmoved hm rfl rfl (shown ?_)
    rintro rfl
    exact hlist
  | found q id =>
    refine unmoved hm rfl rfl (shown ?_)
    rintro rfl
    rw [find, hlist, Except.map]
  | delivered hread =>
    obtain ⟨x, hx, hd⟩ := Option.map_eq_some_iff.mp hread
    cases hd
    exact unmoved hm rfl rfl (shown trivial)
  | appended q t =>
    have hnow := stores_append (q := q) (t := t) hm
    by_cases hq : q = p
    · subst hq
      rw [if_pos rfl] at hnow
      refine ⟨⟨_, hnow, ?_⟩, ?_, shown trivial⟩
      · rw [← appendNew_firsts, ← htasks]
        rfl
      · rw [← appendNew_firsts, inserted_append, ← hids, inserted_appended, if_pos rfl,
          answer_append hm]
        simp only [Store.append, MemoryStore.append, htasks, Task.appendNew]
        split <;> simp [takenIn]
    · rw [if_neg hq] at hnow
      exact unmoved hnow (by rw [inserted_appended, if_neg hq])
        (by rw [offered_appended, if_neg hq]) (shown trivial)

-- ---------------------------------------------------------------------------
-- Whole runs
-- ---------------------------------------------------------------------------

theorem run_shelf (acts : List Act) : (w.run acts).shelf = acts.foldl Act.apply w.shelf := by
  induction acts generalizing w with
  | nil => rfl
  | cons a acts ih => exact (ih (w := a.step w)).trans (by rw [step_shelf, List.foldl_cons])

theorem Follows.run {old : List String} {acts : List Act} (h : Follows old name p w)
    (hname : ∀ q, .subscribe name q ∉ acts) : Follows old name p (w.run acts) := by
  induction acts generalizing w with
  | nil => exact h
  | cons a acts ih =>
    obtain ⟨new, s', he, hstep⟩ := effect_step a w
    refine ih (w := a.step w) ?_ fun q hq => hname q (List.mem_cons_of_mem a hq)
    rw [hstep]
    exact h.effect he fun q ha => hname q (ha ▸ List.mem_cons_self)

theorem Keeps.run {acts : List Act} (h : Keeps p w) : Keeps p (w.run acts) := by
  induction acts generalizing w with
  | nil => exact h
  | cons a acts ih =>
    obtain ⟨new, s', he, hstep⟩ := effect_step a w
    refine ih (w := a.step w) ?_
    rw [hstep]
    exact h.effect he

theorem Subscribed.follows (hname : s.Subscribed name p) (h : s.stores[p]? = some store) :
    Follows (s.announced p) name p { shelf := s } where
  stands := ⟨store, h⟩
  announced := by simp [inserted]
  reached _ := ⟨0, Nat.zero_le _, hname, rfl, by simp⟩

theorem keeps_new (h : s.stores[p]? = some (.memory {})) : Keeps p { shelf := s } where
  memory := ⟨{}, h, rfl⟩
  ids := rfl
  shown before e h := by simpa using h.length_le

theorem Reached.receive {old : List String} {k : Nat} (h : Reached old name p k w)
    (ha : Announces old p w) (hup : KeepsUp name p w.events) (used : List Nat) :
    ∃ gone next, w.shelf.receive name used =
      some ((⟨0, (inserted p w.events).drop k⟩, gone), next) := by
  obtain ⟨gone, hreceive⟩ := receive_eq w.shelf name used
  have hnow := hup.now
  rw [h.received, List.length_take_of_le h.within] at hnow
  rw [hreceive, h.read ha hup, List.take_of_length_le (by rw [List.length_drop]; omega)]
  exact ⟨gone, _, rfl⟩

theorem subscribed_subscribe : (s.subscribe name p).Subscribed name p := by
  rw [Subscribed, subscribe, lookup_renewed, if_pos rfl]
  rfl

/-- A receiver that keeps up with its store has lost nothing: what it has got and what still waits
for it are the ids of the tasks that the store has taken in since, in their order. A store that was
empty in memory lists the first task of each id it was given, at every time, and these are the tasks
it has taken in. The watch leaves the shelf as the acts alone would. -/
theorem announced_inserted (shelf : Shelf) (p : Nat) (store : Store)
    (hstore : shelf.stores[p]? = some store) (acts : List Act) :
    let w := Watch.run { shelf } acts
    w.shelf = acts.foldl Act.apply shelf ∧
    (∀ name, shelf.Subscribed name p → (∀ q, .subscribe name q ∉ acts) →
      KeepsUp name p w.events →
      (∀ d, .delivered name d ∈ w.events → d.lost = 0) ∧
      ∃ waiting, received name w.events ++ waiting = inserted p w.events ∧
        ∀ used, ∃ gone next,
          w.shelf.receive name used = some ((⟨0, waiting⟩, gone), next)) ∧
    (store = .memory {} →
      w.shelf.list p = .ok (firsts p w.events) ∧
      (firsts p w.events).map (·.id) = inserted p w.events ∧
      ∀ before e, before ++ [e] <+: w.events → e.Shows p (firsts p before)) := by
  intro w
  refine ⟨run_shelf acts, ?_, ?_⟩
  · intro name hname hacts hup
    have hfollows : Follows (shelf.announced p) name p w := (hname.follows hstore).run hacts
    obtain ⟨k, hk⟩ := hfollows.reached hup
    refine ⟨hk.unbroken, (inserted p w.events).drop k, ?_, hk.receive hfollows.toAnnounces hup⟩
    rw [hk.received, List.take_append_drop]
  · rintro rfl
    have hkeeps : Keeps p w := (keeps_new hstore).run
    exact ⟨hkeeps.list, hkeeps.ids, hkeeps.shown⟩

/-- A store in memory and one that cannot be reached. -/
def pair : Shelf where
  stores := #[.memory {}, .unreachable (.corrupt "gone")]

/-- Appends that are new, known and refused, and a merge that is stored once and refused once. -/
def visit : List Act := [
  .append 0 { id := "t1", name := "Alpha" },
  .append 1 { id := "t2", name := "Beta" },
  .append 0 { id := "t1", name := "Gamma" },
  .commit 1 Merge.sampleMerge Merge.sample.toLevel,
  .read "first" 1,
  .commit 0 Merge.sampleMerge Merge.sample.toLevel,
  .list 0]

theorem announced_inserted_visit :
    let w := Watch.run { shelf := pair.subscribe "first" 0 } visit
    received "first" w.events = ["t1"] ∧
      (∃ gone next, w.shelf.receive "first" [] = some ((⟨0, ["t3"]⟩, gone), next)) ∧
      (w.shelf.list 0).map (·.map (·.id)) = .ok ["t1", "t3"] := by
  intro w
  obtain ⟨-, hreceiver, hmemory⟩ :=
    announced_inserted (pair.subscribe "first" 0) 0 (.memory {}) rfl visit
  have hinserted : inserted 0 w.events = ["t1", "t3"] := rfl
  have hreceived : received "first" w.events = ["t1"] := rfl
  obtain ⟨-, waiting, hall, hwaiting⟩ := hreceiver "first" subscribed_subscribe (by simp [visit])
    (keepsUp_of_few (by rw [hinserted]; decide))
  obtain ⟨hlist, hids, -⟩ := hmemory rfl
  rw [hreceived, hinserted] at hall
  obtain rfl : waiting = ["t3"] := (List.cons.inj hall).2
  exact ⟨hreceived, hwaiting [], by rw [hlist, Except.map, hids, hinserted]⟩

end

end Shelf

end Workflow
