import GitIM.Runs
import Mathlib.Data.List.Nodup
import Mathlib.Data.List.Perm.Basic

/-!
# Calls that look first and act later

A call prepares on the state it finds, and finishes on the state it finds later; other
calls may finish in between. If every call would prepare the same way again at the moment
at which it finishes, the calls have acted one after the other.
-/

namespace TwoSteps

open Runs

variable {S C K E : Type}

/-- `prepare` refuses, is content with the state, or leaves a plan; `finish` refuses or acts. -/
structure Protocol (S C K E : Type) where
  prepare : S → C → E → Option (Option K)
  finish : S → K → E → Option S

/-- A call in the order in which the calls act, with what the environment told it. -/
structure Turn (C E : Type) where
  id : Nat
  call : C
  first : E
  second : E
  deriving DecidableEq

/-- A call that waits for its second step. -/
structure Waiting (C K E : Type) where
  id : Nat
  call : C
  first : E
  plan : K

structure World (S C K E : Type) where
  state : S
  started : List C
  waiting : List (Waiting C K E)
  order : List (Turn C E)

inductive Action (C E : Type) where
  | start (call : C) (env : E)
  | proceed (id : Nat) (env : E)

variable (p : Protocol S C K E)

/-- Both steps of a call at once. -/
def applyCall (s : S) (c : C) (first second : E) : Option S :=
  (p.prepare s c first).bind fun
    | none => some s
    | some plan => p.finish s plan second

def applyAll : S → List (Turn C E) → Option S
  | s, [] => some s
  | s, t :: rest => (applyCall p s t.call t.first t.second).bind fun s' => applyAll s' rest

/-- A step of a call that is not refused. -/
def step (w : World S C K E) : Action C E → Option (World S C K E)
  | .start c env =>
    match p.prepare w.state c env with
    | none => none
    | some none => some { w with
        started := w.started ++ [c]
        order := w.order ++ [⟨w.started.length, c, env, env⟩] }
    | some (some plan) => some { w with
        started := w.started ++ [c]
        waiting := w.waiting ++ [⟨w.started.length, c, env, plan⟩] }
  | .proceed id env =>
    match w.waiting.find? (fun x => x.id = id) with
    | none => none
    | some x =>
      (p.finish w.state x.plan env).map fun s => { w with
        state := s
        waiting := w.waiting.filter fun y => y.id ≠ id
        order := w.order ++ [⟨x.id, x.call, x.first, env⟩] }

def initial (s : S) : World S C K E := ⟨s, [], [], []⟩

/-- A call that finishes would prepare the same way again. -/
def Fresh (w : World S C K E) : Action C E → Prop
  | .start _ _ => True
  | .proceed id env => ∀ x ∈ w.waiting, x.id = id → ∀ s, p.finish w.state x.plan env = some s →
      applyCall p w.state x.call x.first env = some s

/-- The calls that have acted give the state, and with the waiting ones they are all the calls. -/
structure Inv (s : S) (w : World S C K E) : Prop where
  acted : applyAll p s w.order = some w.state
  once : (w.order.map Turn.id ++ w.waiting.map Waiting.id).Nodup
  all : ∀ i, i < w.started.length ↔ i ∈ w.order.map Turn.id ∨ i ∈ w.waiting.map Waiting.id
  turns : ∀ t ∈ w.order, w.started[t.id]? = some t.call
  waits : ∀ x ∈ w.waiting, w.started[x.id]? = some x.call

variable {p}

theorem applyAll_append {s : S} {a b : List (Turn C E)} :
    applyAll p s (a ++ b) = (applyAll p s a).bind fun s' => applyAll p s' b := by
  induction a generalizing s with
  | nil => rfl
  | cons t a ih =>
    rw [List.cons_append, applyAll, applyAll, Option.bind_assoc]
    congr 1
    funext s'
    exact ih

theorem inv_initial (s : S) : Inv p s (initial s) :=
  ⟨rfl, List.nodup_nil, by simp [initial], fun _ ht => (by cases ht), fun _ hx => (by cases hx)⟩

/-- One more call, with a new number. -/
theorem Inv.start {s : S} {w : World S C K E} (h : Inv p s w) (c : C) :
    (w.started ++ [c])[w.started.length]? = some c ∧
      (∀ t ∈ w.order, (w.started ++ [c])[t.id]? = some t.call) ∧
      (∀ x ∈ w.waiting, (w.started ++ [c])[x.id]? = some x.call) ∧
      w.started.length ∉ w.order.map Turn.id ∧ w.started.length ∉ w.waiting.map Waiting.id := by
  have hkeep : ∀ (i : Nat) (d : C), w.started[i]? = some d → (w.started ++ [c])[i]? = some d := by
    intro i d hi
    rw [List.getElem?_append_left (List.getElem?_eq_some_iff.mp hi).1, hi]
  have hnew := (h.all w.started.length).not.mp (Nat.lt_irrefl _)
  refine ⟨List.getElem?_concat_length, fun t ht => hkeep _ _ (h.turns t ht),
    fun x hx => hkeep _ _ (h.waits x hx), ?_, ?_⟩
  · exact fun hmem => hnew (.inl hmem)
  · exact fun hmem => hnew (.inr hmem)

theorem inv_start {s : S} {w w' : World S C K E} {c : C} {env : E} (h : Inv p s w)
    (hstep : step p w (.start c env) = some w') : Inv p s w' := by
  obtain ⟨hlast, hturns, hwaits, horder, hwaiting⟩ := h.start c
  simp only [step] at hstep
  split at hstep
  · cases hstep
  · rename_i hprepare
    cases hstep
    refine ⟨?_, ?_, ?_, ?_, hwaits⟩
    · rw [applyAll_append, h.acted, Option.bind_some, applyAll, applyCall, hprepare]
      rfl
    · rw [List.map_append, List.append_assoc]
      refine (List.nodup_middle.mpr ?_)
      exact List.nodup_cons.mpr ⟨fun hmem => (List.mem_append.mp hmem).elim horder hwaiting, h.once⟩
    · intro i
      simp only [List.length_append, List.length_singleton, List.map_append, List.map_cons,
        List.map_nil, List.mem_append, List.mem_singleton]
      rw [Nat.lt_succ_iff_lt_or_eq, h.all i]
      tauto
    · intro t ht
      rcases List.mem_append.mp ht with ht | ht
      · exact hturns t ht
      · rw [List.mem_singleton.mp ht]
        exact hlast
  · cases hstep
    refine ⟨h.acted, ?_, ?_, hturns, ?_⟩
    · rw [List.map_append, ← List.append_assoc]
      refine List.nodup_append.mpr ⟨h.once, List.nodup_singleton _, fun a ha b hb heq => ?_⟩
      rw [List.mem_singleton.mp hb] at heq
      rw [heq] at ha
      exact (List.mem_append.mp ha).elim horder hwaiting
    · intro i
      simp only [List.length_append, List.length_singleton, List.map_append, List.map_cons,
        List.map_nil, List.mem_append, List.mem_singleton]
      rw [Nat.lt_succ_iff_lt_or_eq, h.all i]
      tauto
    · intro x hx
      rcases List.mem_append.mp hx with hx | hx
      · exact hwaits x hx
      · rw [List.mem_singleton.mp hx]
        exact hlast

/-- The calls that finish freshly stay in order. -/
theorem inv_proceed {s : S} {w w' : World S C K E} {id : Nat} {env : E} (h : Inv p s w)
    (hfresh : Fresh p w (.proceed id env)) (hstep : step p w (.proceed id env) = some w') :
    Inv p s w' := by
  simp only [step] at hstep
  split at hstep
  · cases hstep
  rename_i x hfind
  obtain ⟨s', hfinish, rfl⟩ := Option.map_eq_some_iff.mp hstep
  have hx : x ∈ w.waiting := List.mem_of_find?_eq_some hfind
  have hid : x.id = id := by simpa using List.find?_some hfind
  subst hid
  have hmem : ∀ i, i ∈ (w.waiting.filter fun y => y.id ≠ x.id).map Waiting.id ↔
      i ∈ w.waiting.map Waiting.id ∧ i ≠ x.id := by
    intro i
    simp only [List.mem_map, List.mem_filter, decide_eq_true_eq]
    constructor
    · rintro ⟨y, ⟨hy, hne⟩, rfl⟩
      exact ⟨⟨y, hy, rfl⟩, hne⟩
    · rintro ⟨⟨y, hy, rfl⟩, hne⟩
      exact ⟨y, ⟨hy, hne⟩, rfl⟩
  have hxid : x.id ∈ w.waiting.map Waiting.id := List.mem_map_of_mem hx
  obtain ⟨hordered, hwaited, hdisjoint⟩ := List.nodup_append.mp h.once
  refine ⟨?_, ?_, ?_, ?_, ?_⟩
  · rw [applyAll_append, h.acted, Option.bind_some, applyAll, hfresh x hx rfl s' hfinish]
    rfl
  · rw [List.map_append, List.append_assoc]
    refine List.nodup_middle.mpr (List.nodup_cons.mpr ⟨fun hin => ?_, ?_⟩)
    · rcases List.mem_append.mp hin with hin | hin
      · exact hdisjoint x.id hin x.id hxid rfl
      · exact ((hmem _).mp hin).2 rfl
    · refine List.nodup_append.mpr ⟨hordered, ?_, fun a ha b hb => ?_⟩
      · exact hwaited.sublist (List.filter_sublist.map _)
      · exact hdisjoint a ha b ((hmem b).mp hb).1
  · intro i
    rw [h.all i, List.map_append, List.mem_append, hmem]
    simp only [List.map_cons, List.map_nil, List.mem_singleton]
    by_cases hi : i = x.id
    · subst hi
      simp [hxid]
    · simp [hi]
  · intro t ht
    rcases List.mem_append.mp ht with ht | ht
    · exact h.turns t ht
    · rw [List.mem_singleton.mp ht]
      exact h.waits x hx
  · intro y hy
    exact h.waits y (List.mem_of_mem_filter hy)

theorem inv_step {s : S} {w w' : World S C K E} {a : Action C E} (h : Inv p s w)
    (hfresh : Fresh p w a) (hstep : step p w a = some w') : Inv p s w' := by
  cases a with
  | start c env => exact inv_start h hstep
  | proceed id env => exact inv_proceed h hfresh hstep

/-- When no call is waiting, the calls that have acted are the calls of the run. -/
theorem Inv.perm_started {s : S} {w : World S C K E} (h : Inv p s w) (hdone : w.waiting = []) :
    (w.order.map Turn.call).Perm w.started := by
  have hnodup : (w.order.map Turn.id).Nodup := (List.nodup_append.mp h.once).1
  have hids : (w.order.map Turn.id).Perm (List.range w.started.length) := by
    refine (List.perm_ext_iff_of_nodup hnodup List.nodup_range).mpr fun i => ?_
    rw [List.mem_range, h.all i, hdone]
    simp
  have hcalls := hids.map fun i => w.started[i]?
  have hrange : (List.range w.started.length).map (fun i => w.started[i]?) =
      w.started.map some := by
    apply List.ext_getElem
    · simp
    · intro i hi hi'
      simp at hi ⊢
  have horder : (w.order.map Turn.id).map (fun i => w.started[i]?) =
      (w.order.map Turn.call).map some := by
    rw [List.map_map, List.map_map]
    exact List.map_congr_left fun t ht => h.turns t ht
  rw [hrange, horder] at hcalls
  exact (List.map_perm_map_iff fun _ _ heq => Option.some.inj heq).mp hcalls

end TwoSteps
