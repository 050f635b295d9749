import GitIM.TextScan
import GitIM.Runs
import Mathlib.Data.List.Perm.Basic
import Mathlib.Data.List.Sort
import Mathlib.Data.List.Nodup

/-!
# Oneshot timers

The pending timers of a clone are one list in one file. Every call takes the lock, reads
the whole list and writes it back, and may fail wherever it touches the disk; a write
replaces the file or leaves it alone. The history of a run lists what the calls have
returned.
-/

namespace Timers

open TextLines TextScan Runs

section Model

def maxPendingPerAgent : Nat := 3

inductive TimerError where
  | io
  | emptyAnchor
  | capReached
  | noMatch (needle : Text)
  | ambiguousPrefix (needle : Text) (count : Nat) (ids : Text)
  | notInClone
  | random
  deriving DecidableEq

/-- Times are counted in nanoseconds. -/
structure Timer where
  id : Text
  fireAt : Int
  createdAt : Int
  anchor : Text
  note : Option Text
  deriving DecidableEq

structure TimersFile where
  version : Nat
  timers : List Timer
  deriving DecidableEq

/-- The file, which may hold no valid text. -/
inductive Disk where
  | missing
  | corrupted
  | file (f : TimersFile)
  deriving DecidableEq

/-- How a call finds the disk. -/
structure Env where
  inClone : Bool
  locked : Bool
  readable : Bool
  written : Bool

def TimersFile.empty : TimersFile := ⟨1, []⟩

def readTimers (disk : Disk) (env : Env) : Except TimerError TimersFile :=
  if env.readable = false then .error .io
  else match disk with
    | .missing | .corrupted => .ok .empty
    | .file f => if f.version = 1 then .ok f else .ok .empty

def writeTimers (disk : Disk) (env : Env) (f : TimersFile) : Disk × Except TimerError Unit :=
  if env.written then (.file f, .ok ()) else (disk, .error .io)

def withTimersLock {α : Type} (disk : Disk) (env : Env) (f : Disk → Disk × Except TimerError α) :
    Disk × Except TimerError α :=
  if env.inClone = false then (disk, .error .notInClone)
  else if env.locked = false then (disk, .error .io)
  else f disk

def joinIds (ids : List Text) : Text := ", ".toList.intercalate ids

/-- The timers that are left and the id of the one that is cancelled. -/
def cancelByIdOrPrefix (timers : List Timer) (needle : Text) :
    Except TimerError (List Timer × Text) :=
  match timers.zipIdx.filter fun p => needle <:+: p.1.id with
  | [] => .error (.noMatch needle)
  | [(t, i)] => .ok (timers.eraseIdx i, t.id)
  | found => .error (.ambiguousPrefix needle found.length (joinIds (found.map fun p => p.1.id)))

/-- The timers that are due, and those that are not, both in the order in which they fire. -/
def partitionFired (timers : List Timer) (now : Int) : List Timer × List Timer :=
  let sorted := timers.insertionSort fun a b => a.fireAt ≤ b.fireAt
  (sorted.filter fun t => t.fireAt ≤ now, sorted.filter fun t => !decide (t.fireAt ≤ now))

def popFiredTimers (disk : Disk) (env : Env) (now : Int) : Disk × Except TimerError (List Timer) :=
  withTimersLock disk env fun disk =>
    match readTimers disk env with
    | .error e => (disk, .error e)
    | .ok current =>
      let (fired, pending) := partitionFired current.timers now
      if fired = [] then (disk, .ok [])
      else match writeTimers disk env ⟨1, pending⟩ with
        | (disk, .error e) => (disk, .error e)
        | (disk, .ok ()) => (disk, .ok fired)

/-- A new timer; there is no id if the random source fails. -/
def Timer.new (now duration : Int) (anchor : Text) (note : Option Text) (newId : Option Text) :
    Except TimerError Timer :=
  if trim anchor = [] then .error .emptyAnchor
  else match newId with
    | none => .error .random
    | some id => .ok ⟨id, now + duration, now, trim anchor, note⟩

def registerTimer (disk : Disk) (env : Env) (now duration : Int) (anchor : Text)
    (note : Option Text) (newId : Option Text) : Disk × Except TimerError Timer :=
  withTimersLock disk env fun disk =>
    match readTimers disk env with
    | .error e => (disk, .error e)
    | .ok current =>
      if maxPendingPerAgent ≤ current.timers.length then (disk, .error .capReached)
      else match Timer.new now duration anchor note newId with
        | .error e => (disk, .error e)
        | .ok timer =>
          match writeTimers disk env { current with timers := current.timers ++ [timer] } with
          | (disk, .error e) => (disk, .error e)
          | (disk, .ok ()) => (disk, .ok timer)

def cancelTimer (disk : Disk) (env : Env) (needle : Text) : Disk × Except TimerError Text :=
  withTimersLock disk env fun disk =>
    match readTimers disk env with
    | .error e => (disk, .error e)
    | .ok current =>
      match cancelByIdOrPrefix current.timers needle with
      | .error e => (disk, .error e)
      | .ok (timers, id) =>
        match writeTimers disk env { current with timers := timers } with
        | (disk, .error e) => (disk, .error e)
        | (disk, .ok ()) => (disk, .ok id)

/-- What the calls of a run have returned. -/
structure History where
  registered : List Timer
  cancelled : List Text
  popped : List (Int × List Timer)

structure World where
  disk : Disk
  history : History

inductive Call where
  | register (env : Env) (now duration : Int) (anchor : Text) (note newId : Option Text)
  | cancel (env : Env) (needle : Text)
  | pop (env : Env) (now : Int)

/-- The disk after a call, and what the call returns as an addition to the history. -/
def perform (disk : Disk) : Call → Disk × Except TimerError History
  | .register env now duration anchor note newId =>
    (registerTimer disk env now duration anchor note newId).map id
      fun r => r.map fun t => ⟨[t], [], []⟩
  | .cancel env needle =>
    (cancelTimer disk env needle).map id fun r => r.map fun i => ⟨[], [i], []⟩
  | .pop env now =>
    (popFiredTimers disk env now).map id fun r => r.map fun fired => ⟨[], [], [(now, fired)]⟩

def History.add (h more : History) : History :=
  ⟨h.registered ++ more.registered, h.cancelled ++ more.cancelled, h.popped ++ more.popped⟩

def step (w : World) (c : Call) : Option World :=
  match perform w.disk c with
  | (disk, .error _) => some ⟨disk, w.history⟩
  | (disk, .ok more) => some ⟨disk, w.history.add more⟩

end Model

section Property

/-- The timers of the file. -/
def stored : Disk → List Timer
  | .missing | .corrupted => []
  | .file f => if f.version = 1 then f.timers else []

def History.delivered (h : History) : List Timer := h.popped.flatMap Prod.snd

/-- Every timer that was registered is stored or has been cancelled or delivered, once; none was
delivered early, and there are not too many. -/
structure ExactlyOnce (w : World) : Prop where
  once : ∀ t ∈ w.history.registered, (stored w.disk).count t + w.history.cancelled.count t.id +
    w.history.delivered.count t = 1
  due : ∀ pop ∈ w.history.popped, ∀ t ∈ pop.2, t.fireAt ≤ pop.1
  bounded : (stored w.disk).length ≤ maxPendingPerAgent

/-- A call keeps the count, and the list as it is if it fails. -/
def CallCorrect (w : World) (c : Call) : Prop :=
  (∀ w', step w c = some w' → ExactlyOnce w') ∧
    ∀ e, (perform w.disk c).2 = .error e → stored (perform w.disk c).1 = stored w.disk

/-- A timer that is registered gets an id that no timer had before. -/
def FreshId (w : World) : Call → Prop
  | .register _ _ _ _ _ (some id) => id ∉ w.history.registered.map Timer.id
  | .register _ _ _ _ _ none | .cancel _ _ | .pop _ _ => True

instance decidableFreshId (w : World) : ∀ c, Decidable (FreshId w c)
  | .register _ _ _ _ _ (some id) => inferInstanceAs (Decidable (id ∉ _))
  | .register _ _ _ _ _ none | .cancel _ _ | .pop _ _ => isTrue trivial

/-- Nothing is stored, and nothing has been returned. -/
structure Initial (w : World) : Prop where
  disk : stored w.disk = []
  history : w.history = ⟨[], [], []⟩

end Property

section Calls
variable {disk : Disk} {env : Env} {f : TimersFile}

theorem readTimers_ok (h : readTimers disk env = .ok f) : f.version = 1 ∧ f.timers = stored disk := by
  unfold readTimers at h
  split at h
  · cases h
  · cases disk with
    | missing | corrupted =>
      cases h
      exact ⟨rfl, rfl⟩
    | file g =>
      dsimp only at h
      split at h
      · rename_i hversion
        cases h
        exact ⟨hversion, by rw [stored, if_pos hversion]⟩
      · rename_i hversion
        cases h
        exact ⟨rfl, by rw [stored, if_neg hversion]; rfl⟩

/-- A call either leaves the disk alone and fails, or does what `P` says. -/
def Either {α : Type} (disk : Disk) (r : Disk × Except TimerError α) (P : Disk → α → Prop) : Prop :=
  (r.1 = disk ∧ ∃ e, r.2 = .error e) ∨ ∃ a, r.2 = .ok a ∧ P r.1 a

theorem withTimersLock_either {α : Type} {body : Disk → Disk × Except TimerError α}
    {P : Disk → α → Prop} (h : Either disk (body disk) P) :
    Either disk (withTimersLock disk env body) P := by
  rw [withTimersLock]
  split
  · exact .inl ⟨rfl, _, rfl⟩
  · split
    · exact .inl ⟨rfl, _, rfl⟩
    · exact h

theorem stored_file {f : TimersFile} (h : f.version = 1) : stored (.file f) = f.timers := by
  rw [stored, if_pos h]

theorem registerTimer_either (disk : Disk) (env : Env) (now duration : Int) (anchor : Text)
    (note newId : Option Text) :
    Either disk (registerTimer disk env now duration anchor note newId) fun after t =>
      stored after = stored disk ++ [t] ∧ (stored disk).length < maxPendingPerAgent ∧
        newId = some t.id := by
  refine withTimersLock_either ?_
  split
  · exact .inl ⟨rfl, _, rfl⟩
  rename_i current hread
  obtain ⟨hversion, htimers⟩ := readTimers_ok hread
  split
  · exact .inl ⟨rfl, _, rfl⟩
  rename_i hroom
  split
  · exact .inl ⟨rfl, _, rfl⟩
  rename_i timer hnew
  have hid : newId = some timer.id := by
    unfold Timer.new at hnew
    split at hnew
    · cases hnew
    · split at hnew
      · cases hnew
      · cases hnew
        rfl
  rw [writeTimers]
  cases env.written with
  | false => exact .inl ⟨rfl, _, rfl⟩
  | true =>
    refine .inr ⟨timer, rfl, ?_, ?_, hid⟩
    · have hafter : stored (.file ⟨current.version, current.timers ++ [timer]⟩) =
          current.timers ++ [timer] := stored_file hversion
      exact hafter.trans (by rw [htimers])
    · rw [htimers] at hroom
      exact Nat.lt_of_not_le hroom

theorem cancelByIdOrPrefix_ok {timers left : List Timer} {needle id : Text}
    (h : cancelByIdOrPrefix timers needle = .ok (left, id)) :
    ∃ t, t.id = id ∧ timers.Perm (t :: left) := by
  rw [cancelByIdOrPrefix] at h
  split at h
  · cases h
  · rename_i t i hfound
    cases h
    have hmem : (t, i) ∈ timers.zipIdx :=
      List.mem_of_mem_filter (hfound ▸ List.mem_singleton_self (t, i))
    have hget : timers[i]? = some t := List.mem_zipIdx_iff_getElem?.mp hmem
    obtain ⟨hlt, heq⟩ := List.getElem?_eq_some_iff.mp hget
    exact ⟨t, rfl, heq ▸ (List.getElem_cons_eraseIdx_perm hlt).symm⟩
  · cases h

theorem cancelTimer_either (disk : Disk) (env : Env) (needle : Text) :
    Either disk (cancelTimer disk env needle) fun after id =>
      ∃ t, t.id = id ∧ (stored disk).Perm (t :: stored after) := by
  refine withTimersLock_either ?_
  split
  · exact .inl ⟨rfl, _, rfl⟩
  rename_i current hread
  obtain ⟨hversion, htimers⟩ := readTimers_ok hread
  split
  · exact .inl ⟨rfl, _, rfl⟩
  rename_i left id hcancel
  obtain ⟨t, hid, hperm⟩ := cancelByIdOrPrefix_ok hcancel
  rw [writeTimers]
  cases env.written with
  | false => exact .inl ⟨rfl, _, rfl⟩
  | true =>
    refine .inr ⟨id, rfl, t, hid, ?_⟩
    have hafter : stored (.file ⟨current.version, left⟩) = left := stored_file hversion
    rw [htimers] at hperm
    exact hperm.trans (List.Perm.of_eq (congrArg (t :: ·) hafter.symm))

theorem partitionFired_perm (timers : List Timer) (now : Int) :
    timers.Perm ((partitionFired timers now).1 ++ (partitionFired timers now).2) := by
  have hsorted := List.perm_insertionSort (fun a b : Timer => a.fireAt ≤ b.fireAt) timers
  have hsplit := List.filter_append_perm (fun t : Timer => decide (t.fireAt ≤ now))
    (timers.insertionSort fun a b => a.fireAt ≤ b.fireAt)
  exact hsorted.symm.trans hsplit.symm

/-- A sort keeps the order of what is already in order. -/
theorem filter_insertionSort {α : Type} {r : α → α → Prop} [DecidableRel r] [Std.Total r] [IsTrans α r]
    {p : α → Bool} {l : List α} (h : (l.filter p).Pairwise r) :
    (l.insertionSort r).filter p = l.filter p := by
  have hsub : ((l.filter p).filter p).Sublist ((l.insertionSort r).filter p) :=
    (List.sublist_insertionSort h List.filter_sublist).filter p
  rw [List.filter_filter] at hsub
  simp only [Bool.and_self] at hsub
  exact (hsub.eq_of_length ((List.perm_insertionSort r l).filter p).length_eq.symm).symm

/-- The documented answer: what is due in the order of the input, the rest sorted, and nothing lost. -/
structure KeepsOrder (timers : List Timer) (now : Int) : Prop where
  fired : (partitionFired timers now).1 = timers.filter fun t => t.fireAt ≤ now
  sorted : (partitionFired timers now).2.Pairwise fun a b => a.fireAt ≤ b.fireAt
  stable : ∀ instant, (partitionFired timers now).2.filter (fun t => t.fireAt = instant) =
    timers.filter fun t => decide (t.fireAt = instant) && !decide (t.fireAt ≤ now)
  together : timers.Perm ((partitionFired timers now).1 ++ (partitionFired timers now).2)

theorem partition_sorted (timers : List Timer) (p : Timer → Bool) :
    ((timers.insertionSort fun a b => a.fireAt ≤ b.fireAt).filter p).Pairwise
      fun a b => a.fireAt ≤ b.fireAt :=
  (List.pairwise_insertionSort _ _).filter p

theorem pending_stable (timers : List Timer) (now instant : Int) :
    (partitionFired timers now).2.filter (fun t => t.fireAt = instant) =
      timers.filter fun t => decide (t.fireAt = instant) && !decide (t.fireAt ≤ now) := by
  rw [partitionFired, List.filter_filter]
  apply filter_insertionSort
  apply List.pairwise_of_forall_mem_list
  intro a ha b hb
  have hat := (List.mem_filter.mp ha).2
  have hbt := (List.mem_filter.mp hb).2
  simp only [Bool.and_eq_true, decide_eq_true_eq] at hat hbt
  omega

/-- The documented order is kept exactly when the due timers were registered in the order of their
times. -/
theorem keepsOrder_iff (timers : List Timer) (now : Int) :
    KeepsOrder timers now ↔
      (timers.filter fun t => t.fireAt ≤ now).Pairwise fun a b => a.fireAt ≤ b.fireAt := by
  constructor
  · intro h
    rw [← h.fired]
    exact partition_sorted timers _
  · intro h
    exact {
      fired := filter_insertionSort h
      sorted := partition_sorted timers _
      stable := pending_stable timers now
      together := partitionFired_perm timers now }

/-- A timer that was registered first and is due second is handed out second. -/
theorem not_keepsOrder : ¬∀ timers now, KeepsOrder timers now := by
  intro h
  have hfired := (h [⟨['a'], 2, 0, [], none⟩, ⟨['b'], 1, 0, [], none⟩] 3).fired
  exact absurd hfired (by decide)

theorem popFiredTimers_either (disk : Disk) (env : Env) (now : Int) :
    Either disk (popFiredTimers disk env now) fun after fired =>
      (stored disk).Perm (fired ++ stored after) ∧ ∀ t ∈ fired, t.fireAt ≤ now := by
  refine withTimersLock_either ?_
  split
  · exact .inl ⟨rfl, _, rfl⟩
  rename_i current hread
  obtain ⟨hversion, htimers⟩ := readTimers_ok hread
  have hperm := partitionFired_perm current.timers now
  rw [htimers] at hperm
  dsimp only
  split
  · rename_i hnone
    exact .inr ⟨[], rfl, List.Perm.refl _, fun _ hmem => (by cases hmem)⟩
  · rw [writeTimers]
    cases env.written with
    | false => exact .inl ⟨rfl, _, rfl⟩
    | true =>
      refine .inr ⟨_, rfl, ?_, fun t ht => ?_⟩
      · have hafter : stored (.file ⟨1, (partitionFired (stored disk) now).2⟩) =
            (partitionFired (stored disk) now).2 := stored_file rfl
        rw [htimers]
        exact hperm.trans (List.Perm.of_eq (congrArg (_ ++ ·) hafter.symm))
      · exact of_decide_eq_true (List.mem_filter.mp ht).2

end Calls

section Runs
variable {w w' : World} {c : Call}

theorem delivered_add (h more : History) :
    (h.add more).delivered = h.delivered ++ more.delivered := by
  rw [History.delivered, History.add, List.flatMap_append]
  rfl

/-- What holds between two calls. -/
structure Inv (w : World) : Prop where
  balance : (w.history.registered.map Timer.id).Perm
    ((stored w.disk).map Timer.id ++ (w.history.cancelled ++ w.history.delivered.map Timer.id))
  known : ∀ t, t ∈ stored w.disk ∨ t ∈ w.history.delivered → t ∈ w.history.registered
  distinct : (w.history.registered.map Timer.id).Nodup
  due : ∀ pop ∈ w.history.popped, ∀ t ∈ pop.2, t.fireAt ≤ pop.1
  bounded : (stored w.disk).length ≤ maxPendingPerAgent

/-- Among timers with distinct ids, an id stands for its timer. -/
theorem count_eq_count_id {registered timers : List Timer} (hdistinct : (registered.map Timer.id).Nodup)
    (hknown : ∀ t ∈ timers, t ∈ registered) {t : Timer} (ht : t ∈ registered) :
    timers.count t = (timers.map Timer.id).count t.id := by
  induction timers with
  | nil => rfl
  | cons u rest ih =>
    have hrest := ih fun v hv => hknown v (List.mem_cons_of_mem u hv)
    rw [List.map_cons, List.count_cons, List.count_cons, hrest]
    by_cases hid : u.id = t.id
    · have heq : u = t :=
        List.inj_on_of_nodup_map hdistinct (hknown u List.mem_cons_self) ht hid
      rw [heq, beq_self_eq_true, beq_self_eq_true]
    · have hne : u ≠ t := fun heq => hid (congrArg Timer.id heq)
      rw [beq_eq_false_iff_ne.mpr hid, beq_eq_false_iff_ne.mpr hne]

theorem Inv.exactlyOnce (h : Inv w) : ExactlyOnce w := by
  refine ⟨fun t ht => ?_, h.due, h.bounded⟩
  have hstored := count_eq_count_id h.distinct (fun u hu => h.known u (.inl hu)) ht
  have hdelivered := count_eq_count_id h.distinct (fun u hu => h.known u (.inr hu)) ht
  have hone : (w.history.registered.map Timer.id).count t.id = 1 :=
    List.count_eq_one_of_mem h.distinct (List.mem_map_of_mem ht)
  rw [h.balance.count_eq, List.count_append, List.count_append] at hone
  rw [hstored, hdelivered, Nat.add_assoc]
  exact hone

theorem inv_register {after : Disk} {t : Timer} (h : Inv w)
    (hstored : stored after = stored w.disk ++ [t])
    (hroom : (stored w.disk).length < maxPendingPerAgent)
    (hfresh : t.id ∉ w.history.registered.map Timer.id) :
    Inv ⟨after, w.history.add ⟨[t], [], []⟩⟩ := by
  have hdelivered : (w.history.add ⟨[t], [], []⟩).delivered = w.history.delivered :=
    (delivered_add _ _).trans (List.append_nil _)
  refine ⟨?_, fun u hu => ?_, ?_, ?_, ?_⟩
  · dsimp only
    rw [hdelivered, hstored]
    simp only [History.add, List.append_nil, List.map_append]
    refine (h.balance.append_right _).trans ?_
    rw [List.append_assoc ((stored w.disk).map Timer.id),
      List.append_assoc ((stored w.disk).map Timer.id)]
    exact List.perm_append_comm.append_left ((stored w.disk).map Timer.id)
  · rw [hdelivered, hstored] at hu
    rcases hu with hu | hu
    · rcases List.mem_append.mp hu with hold | hnew
      · exact List.mem_append_left _ (h.known u (.inl hold))
      · exact List.mem_append_right _ hnew
    · exact List.mem_append_left _ (h.known u (.inr hu))
  · rw [History.add, List.map_append]
    exact List.Nodup.append h.distinct (List.nodup_singleton _)
      (List.disjoint_singleton.mpr hfresh)
  · simp only [History.add, List.append_nil]
    exact h.due
  · rw [hstored, List.length_append]
    exact hroom

theorem inv_cancel {after : Disk} {t : Timer} (h : Inv w)
    (hperm : (stored w.disk).Perm (t :: stored after)) :
    Inv ⟨after, w.history.add ⟨[], [t.id], []⟩⟩ := by
  have hdelivered : (w.history.add ⟨[], [t.id], []⟩).delivered = w.history.delivered :=
    (delivered_add _ _).trans (List.append_nil _)
  refine ⟨?_, fun u hu => ?_, ?_, ?_, ?_⟩
  · dsimp only
    rw [hdelivered, History.add, List.append_nil]
    refine h.balance.trans (((hperm.map Timer.id).append_right _).trans ?_)
    rw [List.map_cons, List.cons_append]
    refine List.perm_middle.symm.trans (List.Perm.append_left _ ?_)
    rw [List.append_assoc, List.singleton_append]
    exact List.perm_middle.symm
  · rw [hdelivered] at hu
    rw [History.add, List.append_nil]
    rcases hu with hu | hu
    · exact h.known u (.inl (hperm.symm.subset (List.mem_cons_of_mem t hu)))
    · exact h.known u (.inr hu)
  · rw [History.add, List.append_nil]
    exact h.distinct
  · simp only [History.add, List.append_nil]
    exact h.due
  · have hlength := hperm.length_eq
    rw [List.length_cons] at hlength
    have hbounded := h.bounded
    dsimp only
    omega

theorem inv_pop {after : Disk} {now : Int} {fired : List Timer} (h : Inv w)
    (hperm : (stored w.disk).Perm (fired ++ stored after)) (hdue : ∀ t ∈ fired, t.fireAt ≤ now) :
    Inv ⟨after, w.history.add ⟨[], [], [(now, fired)]⟩⟩ := by
  have hdelivered : (w.history.add ⟨[], [], [(now, fired)]⟩).delivered =
      w.history.delivered ++ fired := by
    rw [delivered_add]
    exact congrArg (_ ++ ·) (List.append_nil fired)
  refine ⟨?_, fun u hu => ?_, ?_, fun pop hpop t ht => ?_, ?_⟩
  · dsimp only
    rw [hdelivered, History.add, List.append_nil, List.append_nil, List.map_append]
    refine h.balance.trans (((hperm.map Timer.id).append_right _).trans ?_)
    rw [List.map_append, List.append_assoc]
    refine List.perm_append_comm.trans ?_
    rw [List.append_assoc, List.append_assoc]
  · rw [hdelivered] at hu
    rw [History.add, List.append_nil]
    rcases hu with hu | hu
    · exact h.known u (.inl (hperm.symm.subset (List.mem_append_right _ hu)))
    · rcases List.mem_append.mp hu with hold | hnew
      · exact h.known u (.inr hold)
      · exact h.known u (.inl (hperm.symm.subset (List.mem_append_left _ hnew)))
  · rw [History.add, List.append_nil]
    exact h.distinct
  · rcases List.mem_append.mp hpop with hold | hnew
    · exact h.due pop hold t ht
    · rw [List.mem_singleton.mp hnew] at ht ⊢
      exact hdue t ht
  · have hlength := hperm.length_eq
    rw [List.length_append] at hlength
    have hbounded := h.bounded
    dsimp only
    omega

/-- A call fails and leaves the disk alone, or keeps the invariant. -/
theorem perform_inv (h : Inv w) (hfresh : FreshId w c) :
    Either w.disk (perform w.disk c) fun after more => Inv ⟨after, w.history.add more⟩ := by
  cases c with
  | register env now duration anchor note newId =>
    rcases registerTimer_either w.disk env now duration anchor note newId with
      ⟨hdisk, e, herror⟩ | ⟨t, hok, hstored, hroom, hid⟩
    · refine .inl ⟨hdisk, e, ?_⟩
      change (registerTimer w.disk env now duration anchor note newId).2.map _ = _
      rw [herror]
      rfl
    · subst hid
      refine .inr ⟨⟨[t], [], []⟩, ?_, inv_register h hstored hroom hfresh⟩
      change (registerTimer w.disk env now duration anchor note (some t.id)).2.map _ = _
      rw [hok]
      rfl
  | cancel env needle =>
    rcases cancelTimer_either w.disk env needle with ⟨hdisk, e, herror⟩ | ⟨id, hok, t, hid, hperm⟩
    · refine .inl ⟨hdisk, e, ?_⟩
      change (cancelTimer w.disk env needle).2.map _ = _
      rw [herror]
      rfl
    · subst hid
      refine .inr ⟨⟨[], [t.id], []⟩, ?_, inv_cancel h hperm⟩
      change (cancelTimer w.disk env needle).2.map _ = _
      rw [hok]
      rfl
  | pop env now =>
    rcases popFiredTimers_either w.disk env now with ⟨hdisk, e, herror⟩ | ⟨fired, hok, hperm, hdue⟩
    · refine .inl ⟨hdisk, e, ?_⟩
      change (popFiredTimers w.disk env now).2.map _ = _
      rw [herror]
      rfl
    · refine .inr ⟨⟨[], [], [(now, fired)]⟩, ?_, inv_pop h hperm hdue⟩
      change (popFiredTimers w.disk env now).2.map _ = _
      rw [hok]
      rfl

theorem inv_step (h : Inv w) (hfresh : FreshId w c) (hstep : step w c = some w') : Inv w' := by
  rw [step] at hstep
  rcases perform_inv h hfresh with ⟨hdisk, e, herror⟩ | ⟨more, hok, hinv⟩
  · split at hstep
    · rename_i disk _ hperform
      cases hstep
      rw [hperform] at hdisk
      subst hdisk
      exact h
    · rename_i hperform
      rw [hperform] at herror
      cases herror
  · split at hstep
    · rename_i hperform
      rw [hperform] at hok
      cases hok
    · rename_i hperform
      cases hstep
      rw [hperform] at hok hinv
      cases hok
      exact hinv

theorem stored_of_error (h : Inv w) (hfresh : FreshId w c) {e : TimerError}
    (herror : (perform w.disk c).2 = .error e) :
    stored (perform w.disk c).1 = stored w.disk := by
  rcases perform_inv h hfresh with ⟨hdisk, -⟩ | ⟨more, hok, -⟩
  · rw [hdisk]
  · exact (by cases hok.symm.trans herror)

/-- Over every sequence of calls with distinct ids every timer that was registered is delivered,
cancelled or kept exactly once, and calls that fail change nothing. -/
theorem timers_exactlyOnce (w : World) (hinitial : Initial w) (calls : List Call)
    (hfresh : Along step FreshId w calls) : Along step CallCorrect w calls := by
  have hinv : Inv w := by
    have hdelivered : w.history.delivered = [] := by rw [hinitial.history]; rfl
    refine ⟨?_, fun t ht => ?_, ?_, ?_, ?_⟩
    · rw [hdelivered, hinitial.disk, hinitial.history]
      exact List.Perm.refl _
    · rw [hdelivered, hinitial.disk] at ht
      rcases ht with ht | ht <;> cases ht
    · rw [hinitial.history]
      exact List.nodup_nil
    · rw [hinitial.history]
      exact fun _ hpop => (by cases hpop)
    · rw [hinitial.disk]
      exact Nat.zero_le _
  refine along_mono (fun w c w' h hc hstep => inv_step h hc hstep) (fun w c h hc => ?_) hinv hfresh
  exact ⟨fun w' hstep => (inv_step h hc hstep).exactlyOnce, fun e => stored_of_error h hc⟩

def goodEnv : Env := ⟨true, true, true, true⟩

def sampleCalls : List Call :=
  [.register goodEnv 0 10 "#general".toList none (some "a1".toList),
    .register goodEnv 0 20 "#general".toList none (some "b2".toList),
    .pop ⟨true, true, true, false⟩ 15, .pop goodEnv 15, .cancel goodEnv "2".toList]

theorem timers_exactlyOnce_sample :
    Along step FreshId ⟨.missing, ⟨[], [], []⟩⟩ sampleCalls ∧
      (run step ⟨.missing, ⟨[], [], []⟩⟩ sampleCalls).map (fun w => w.history.cancelled) =
        some ["b2".toList] ∧
      Along step CallCorrect ⟨.missing, ⟨[], [], []⟩⟩ sampleCalls := by
  have hfresh : Along step FreshId ⟨.missing, ⟨[], [], []⟩⟩ sampleCalls := by decide +kernel
  refine ⟨hfresh, by decide +kernel, ?_⟩
  exact timers_exactlyOnce ⟨.missing, ⟨[], [], []⟩⟩ ⟨rfl, rfl⟩ sampleCalls hfresh

end Runs

end Timers
