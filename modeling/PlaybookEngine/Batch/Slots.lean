import PlaybookEngine.Activity.Timed
import PlaybookEngine.Batch.Basic
import PlaybookEngine.Text.Quoted

namespace PlaybookEngine

namespace ItemResult

def timedOut (index : Nat) (limit : Span) : ItemResult :=
  .failed index none ((EngineError.timeout limit).toFailure none)

/-- What is made of a task that panicked; the runtime gives each task a number. -/
def taskFailed (index task : Nat) (why : Panic) : ItemResult :=
  .failed index none
    ⟨.stepFailure, "Item task failed: task " ++ toString task ++ " panicked with message " ++
      Text.quotedText why.message, none, none, none, []⟩

/-- The result of an item from the end of its task. -/
def ofEnd (index task : Nat) : Except Panic ItemResult → ItemResult
  | .ok r => r
  | .error why => .taskFailed index task why

end ItemResult

namespace Batch

variable {I : Interface} {W : Type}

/-- An item that blocked: when it is due, and its place among those due at one time. -/
structure Due where
  time : Instant
  turn : Nat
  deriving DecidableEq

/-- Where an item stands. -/
inductive Progress (I : Interface)
  /-- Waits for a slot, at most until the end of the batch. -/
  | waiting (limit : Due) (p : Activity I ItemResult)
  /-- Was given a slot. -/
  | admitted (p : Activity I ItemResult)
  /-- Is blocked, at most until its limit; `span` is the limit that applies. -/
  | asleep (wake limit : Due) (span : Span) (p : Activity I ItemResult)
  /-- Its task ended with a result or in a panic. -/
  | ended (r : Except Panic ItemResult)

def Progress.rest? : Progress I → Option (Activity I ItemResult)
  | .waiting _ p => some p
  | .admitted p => some p
  | .asleep _ _ _ p => some p
  | .ended _ => none

/-- The earliest point in time at which an item is due. -/
def Progress.due? : Progress I → Option Due
  | .waiting limit _ => some limit
  | .asleep wake limit _ _ =>
    some (if wake.time < limit.time then wake
      else if limit.time < wake.time then limit
      else if wake.turn < limit.turn then wake else limit)
  | .admitted _ => none
  | .ended _ => none

structure State (I : Interface) (W : Type) where
  items : List (Progress I)
  /-- The items that go on now, in order. -/
  ready : List Nat
  /-- The items that wait for a slot, in order. -/
  queue : List Nat
  free : Nat
  /-- How often an item blocked. -/
  turns : Nat
  now : Instant
  world : W

namespace State

variable (settings : BatchSettings) (deadline : Instant) (s : Surroundings I W)

def releaseSlot (st : State I W) : State I W :=
  match st.queue with
  | [] => { st with free := st.free + 1 }
  | j :: queue =>
    match st.items[j]? with
    | some (.waiting _ p) =>
      { st with
        items := st.items.set j (.admitted p)
        queue := queue
        ready := if st.ready.contains j then st.ready else st.ready ++ [j] }
    | _ => { st with queue := queue, free := st.free + 1 }

def finish (st : State I W) (i : Nat) (r : Except Panic ItemResult) : State I W :=
  releaseSlot { st with items := st.items.set i (.ended r) }

def proceed (st : State I W) (i : Nat) (limit : Due) (span : Span)
    (p : Activity I ItemResult) : State I W :=
  match p.advance s st.now st.world with
  | (.ended r, w) => finish { st with world := w } i (.ok r)
  | (.blocked t q, w) =>
    if limit.time ≤ st.now then finish { st with world := w } i (.ok (.timedOut i span))
    else
      { st with
        items := st.items.set i (.asleep ⟨t, st.turns⟩ limit span q)
        turns := st.turns + 2
        world := w }

/-- Starts an item that holds a slot. Its task panics when its limit is beyond the clock. -/
def start (st : State I W) (i : Nat) (p : Activity I ItemResult) : State I W :=
  if st.now + settings.itemTimeout < Instant.clockEnd then
    let limit := min (st.now + settings.itemTimeout) deadline
    proceed s st i ⟨limit, st.turns + 1⟩
      (if limit = deadline then settings.batchTimeout else settings.itemTimeout) p
  else finish st i (.error .clock)

/-- The next item comes in: it takes a slot or waits for one. -/
def enter (st : State I W) (p : Activity I ItemResult) : State I W :=
  let i := st.items.length
  if 0 < st.free then
    let st := { st with items := st.items ++ [.admitted p], free := st.free - 1 }
    start settings deadline s st i p
  else if deadline ≤ st.now then
    { st with items := st.items ++ [.ended (.ok (.timedOut i settings.batchTimeout))] }
  else
    { st with
      items := st.items ++ [.waiting ⟨deadline, st.turns⟩ p]
      queue := st.queue ++ [i]
      turns := st.turns + 1 }

/-- An item goes on; none when it has ended. -/
def resume? (st : State I W) (i : Nat) : Option (State I W) :=
  match st.items[i]? with
  | some (.admitted p) => some (start settings deadline s st i p)
  | some (.waiting _ _) =>
    some { st with
      items := st.items.set i (.ended (.ok (.timedOut i settings.batchTimeout)))
      queue := st.queue.filter (· ≠ i) }
  | some (.asleep wake limit span p) =>
    if wake.time ≤ st.now then some (proceed s st i limit span p)
    else some (finish st i (.ok (.timedOut i span)))
  | _ => none

/-- The items that are due next, in the order of their turns, and when. -/
def nextDue? (items : List (Progress I)) : Option (Instant × List Nat) :=
  let dues := items.zipIdx.filterMap fun x => x.1.due?.map fun d => (d, x.2)
  match (dues.map (·.1.time)).min? with
  | none => none
  | some t =>
    some (t, ((dues.filter (·.1.time = t)).mergeSort fun a b => a.1.turn ≤ b.1.turn).map (·.2))

/-- Lets time pass until an item is due, when none is ready. -/
def await (st : State I W) : State I W :=
  match st.ready with
  | _ :: _ => st
  | [] =>
    match nextDue? st.items with
    | none => st
    | some (t, due) => { st with now := max st.now t, ready := due }

/-- The next item goes on; none when all have ended. -/
def next? (st : State I W) : Option (State I W) :=
  let st := st.await
  match st.ready with
  | [] => none
  | i :: ready => resume? settings deadline s { st with ready := ready } i

end State

/-- What is left of an item is less than before, or it has ended. -/
inductive Less : Option (Activity I ItemResult) → Option (Activity I ItemResult) → Prop
  | ended (p : Activity I ItemResult) : Less none (some p)
  | below {p q : Activity I ItemResult} (h : Activity.Below q p) : Less (some q) (some p)

theorem less_wf : WellFounded (Less (I := I)) := by
  have hnone : Acc (Less (I := I)) none := ⟨_, fun _ h => nomatch h⟩
  refine ⟨fun a => ?_⟩
  match a with
  | none => exact hnone
  | some p =>
    induction p using Activity.below_wf.induction with
    | _ p ih =>
      refine ⟨_, fun b h => ?_⟩
      cases h with
      | ended => exact hnone
      | below h => exact ih _ h

/-- One element of a list became less. -/
inductive Shrinks {α : Type} (r : α → α → Prop) : List α → List α → Prop
  | head {a b : α} (l : List α) (h : r a b) : Shrinks r (a :: l) (b :: l)
  | tail (c : α) {l m : List α} (h : Shrinks r l m) : Shrinks r (c :: l) (c :: m)

theorem shrinks_wf {α : Type} {r : α → α → Prop} (wf : WellFounded r) :
    WellFounded (Shrinks r) := by
  refine ⟨fun l => ?_⟩
  induction l with
  | nil => exact ⟨_, fun _ h => nomatch h⟩
  | cons a l ih =>
    induction a using wf.induction generalizing l with
    | _ a iha =>
      induction ih with
      | intro l hl ihl =>
        refine ⟨_, fun m h => ?_⟩
        cases h with
        | head _ h => exact iha _ h _ ⟨l, hl⟩
        | tail _ h => exact ihl _ h

theorem shrinks_set {α : Type} {r : α → α → Prop} {l : List α} {i : Nat} {a b : α}
    (h : l[i]? = some b) (hr : r a b) : Shrinks r (l.set i a) l := by
  induction l generalizing i with
  | nil => simp at h
  | cons c l ih =>
    cases i with
    | zero =>
      simp only [List.getElem?_cons_zero, Option.some.injEq] at h
      subst h
      exact .head l hr
    | succ i => exact .tail c (ih (by simpa using h))

namespace State

variable (settings : BatchSettings) (deadline : Instant) (s : Surroundings I W)

def rests (st : State I W) : List (Option (Activity I ItemResult)) := st.items.map Progress.rest?

theorem rests_releaseSlot (st : State I W) : (releaseSlot st).rests = st.rests := by
  unfold releaseSlot
  split
  · rfl
  · split
    · rename_i p h
      apply List.ext_getElem?
      intro k
      simp only [rests, List.map_set, List.getElem?_set, List.length_map, List.getElem?_map]
      split
      · rename_i hk
        subst hk
        split
        · simp [h, Progress.rest?]
        · simp_all
      · rfl
    · rfl

theorem rests_finish (st : State I W) (i : Nat) (r : Except Panic ItemResult) :
    (finish st i r).rests = st.rests.set i none := by
  rw [finish, rests_releaseSlot]
  simp [rests, List.map_set, Progress.rest?]

theorem rests_proceed_shrinks (st : State I W) {i : Nat} (limit : Due) (span : Span)
    {p : Activity I ItemResult} (h : st.rests[i]? = some (some p)) :
    Shrinks Less (proceed s st i limit span p).rests st.rests := by
  unfold proceed
  split
  · rw [rests_finish]
    exact shrinks_set h (.ended p)
  · rename_i t q w hq
    split
    · rw [rests_finish]
      exact shrinks_set h (.ended p)
    · have : Shrinks Less (st.rests.set i (some q)) st.rests :=
        shrinks_set h (.below (Activity.advance_below hq))
      simpa [rests, List.map_set, Progress.rest?] using this

theorem resume?_shrinks {st st' : State I W} {i : Nat}
    (h : resume? settings deadline s st i = some st') : Shrinks Less st'.rests st.rests := by
  unfold resume? at h
  split at h
  · rename_i p hp
    simp only [Option.some.injEq] at h
    subst h
    have here : st.rests[i]? = some (some p) := by simp [rests, hp, Progress.rest?]
    unfold start
    split
    · exact rests_proceed_shrinks s st _ _ here
    · rw [rests_finish]
      exact shrinks_set here (.ended p)
  · rename_i d p hp
    simp only [Option.some.injEq] at h
    subst h
    have : Shrinks Less (st.rests.set i none) st.rests :=
      shrinks_set (by simp [rests, hp, Progress.rest?]) (.ended p)
    simpa [rests, List.map_set, Progress.rest?] using this
  · rename_i wake limit span p hp
    split at h
    · simp only [Option.some.injEq] at h
      subst h
      exact rests_proceed_shrinks s st _ _ (by simp [rests, hp, Progress.rest?])
    · simp only [Option.some.injEq] at h
      subst h
      rw [rests_finish]
      exact shrinks_set (by simp [rests, hp, Progress.rest?]) (.ended p)
  · simp at h

theorem rests_await (st : State I W) : st.await.rests = st.rests := by
  unfold await
  split
  · rfl
  · split <;> rfl

theorem next?_shrinks {st st' : State I W} (h : next? settings deadline s st = some st') :
    Shrinks Less st'.rests st.rests := by
  simp only [next?] at h
  split at h
  · simp at h
  · rename_i i ready _
    have := resume?_shrinks settings deadline s h
    rw [← rests_await st]
    exact this

def complete (st : State I W) : State I W :=
  match _h : next? settings deadline s st with
  | none => st
  | some st' => complete st'
termination_by WellFounded.wrap (shrinks_wf less_wf) st.rests
decreasing_by exact next?_shrinks settings deadline s ‹_›

end State

/-- How the tasks of the items end, when the last one does, and the world then. -/
def join (settings : BatchSettings) (deadline : Instant) (s : Surroundings I W)
    (items : List (Activity I ItemResult)) (now : Instant) (w : W) :
    List (Except Panic ItemResult) × Instant × W :=
  let init : State I W := ⟨[], [], [], max settings.concurrency 1, 0, now, w⟩
  let entered := items.foldl (State.enter settings deadline s) init
  let st := entered.complete settings deadline s
  (st.items.mapIdx fun i x =>
    match x with
    | .ended r => r
    | _ => .ok (.timedOut i settings.batchTimeout), st.now, st.world)

/-- The results of the items, when the last one ended, and the world then. The items' tasks have the
numbers `task`. -/
def process (settings : BatchSettings) (task : Nat → Nat) (s : Surroundings I W)
    (items : List (Activity I ItemResult)) (now : Instant) (w : W) :
    Except Panic (List ItemResult × Instant × W) :=
  if items.isEmpty then .ok ([], now, w)
  else if Instant.clockEnd ≤ now + settings.batchTimeout then .error .clock
  else if maxSlots < max settings.concurrency 1 then .error .slots
  else
    let (ends, now, w) := join settings (now + settings.batchTimeout) s items now w
    .ok (ends.mapIdx fun i r => .ofEnd i (task i) r, now, w)

end Batch

end PlaybookEngine
