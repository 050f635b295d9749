import GitIM.QuickSessionMerge
import GitIM.Runs

/-!
# Histories of a quick session

A history carries the metadata of a session together with the attempts it has
completed or failed and the lines its messages were written at. Two histories that
continue a common one are merged; the question is whether the claim that survives
is still open on both sides.
-/

namespace QuickSessionHistory

open TextLines FileTree ThreadFormat ThreadMerge QuickSession QuickSessionMerge Runs

structure SessionHistory where
  qmeta : QuickSessionMeta
  finished : List Text
  lines : List Nat
  deriving DecidableEq

/-- The attempt that a transition completes or fails. -/
def finishedAttempt : QuickSessionTransition → Option Text
  | .agentReply _ _ attemptId _ _ _ => some attemptId
  | .markError _ attemptId _ _ => some attemptId
  | _ => none

/-- The line of the message that is written with a transition. -/
def appendedLine : QuickSessionTransition → Option Nat
  | .humanMessage _ line _ _ _ => some line
  | .agentReply _ _ _ output _ _ => some output
  | _ => none

/-- An applied transition; its message goes behind every earlier one. -/
def advance (h : SessionHistory) (t : QuickSessionTransition) : Option SessionHistory :=
  match applyQuickSessionTransition h.qmeta t with
  | .ok (.applied, next) =>
    if ∀ l ∈ (appendedLine t).toList, ∀ k ∈ h.lines, k < l then
      some ⟨next, h.finished ++ (finishedAttempt t).toList, h.lines ++ (appendedLine t).toList⟩
    else none
  | _ => none

def startHistory (id agentId createdBy createdAt : Text) : SessionHistory :=
  ⟨.new id agentId createdBy createdAt, [], []⟩

def claimedAttempt : QuickSessionTransition → Option Text
  | .claim _ _ attemptId _ => some attemptId
  | _ => none

/-- A claim takes an attempt id that its side has not completed or failed before. -/
def FreshClaim (h : SessionHistory) (t : QuickSessionTransition) : Prop :=
  ∀ a ∈ (claimedAttempt t).toList, a ∉ h.finished

instance (h : SessionHistory) (t : QuickSessionTransition) : Decidable (FreshClaim h t) :=
  inferInstanceAs (Decidable (∀ a ∈ (claimedAttempt t).toList, a ∉ h.finished))

theorem advance_eq_some {h h' : SessionHistory} {t : QuickSessionTransition}
    (hstep : advance h t = some h') :
    ∃ next, applyQuickSessionTransition h.qmeta t = .ok (.applied, next) ∧
      (∀ l, appendedLine t = some l → ∀ k ∈ h.lines, k < l) ∧
      h' = ⟨next, h.finished ++ (finishedAttempt t).toList,
        h.lines ++ (appendedLine t).toList⟩ := by
  rw [advance] at hstep
  split at hstep
  · rename_i next happly
    split at hstep
    · rename_i hlines
      exact ⟨next, happly, fun l hl => hlines l (by simp [hl]), (Option.some.inj hstep).symm⟩
    · cases hstep
  · cases hstep

/-- Every line the metadata speaks of is a line of the thread. -/
structure LinesKnown (m : QuickSessionMeta) (lines : List Nat) : Prop where
  human : ∀ l, m.lastHumanLine = some l → l ∈ lines
  processing : ∀ l, m.processingInputLine = some l → l ∈ lines
  completed : ∀ l, m.lastCompletedInputLine = some l → l ∈ lines

/-- A running claim is newer than the last completion and not yet finished. -/
structure ClaimOpen (m : QuickSessionMeta) (finished : List Text) : Prop where
  newer : m.status = .running → ∀ p c, m.processingInputLine = some p →
    m.lastCompletedInputLine = some c → c < p
  unfinished : m.status = .running → ∀ a, m.attemptId = some a → a ∉ finished

structure SessionInv (h : SessionHistory) : Prop where
  known : LinesKnown h.qmeta h.lines
  open_ : ClaimOpen h.qmeta h.finished
  sorted : h.lines.Pairwise (· < ·)

theorem sessionInv_start (id agentId createdBy createdAt : Text) :
    SessionInv (startHistory id agentId createdBy createdAt) := by
  refine ⟨⟨?_, ?_, ?_⟩, ⟨?_, ?_⟩, List.Pairwise.nil⟩ <;>
    simp [startHistory, QuickSessionMeta.new]

theorem linesKnown_append {m next : QuickSessionMeta} {lines : List Nat} (h : LinesKnown m lines)
    (more : List Nat)
    (human : ∀ l, next.lastHumanLine = some l → m.lastHumanLine = some l ∨ l ∈ more)
    (processing : ∀ l, next.processingInputLine = some l →
      m.processingInputLine = some l ∨ m.lastHumanLine = some l)
    (completed : ∀ l, next.lastCompletedInputLine = some l →
      m.lastCompletedInputLine = some l ∨ m.processingInputLine = some l) :
    LinesKnown next (lines ++ more) where
  human := by
    intro l hl
    rcases human l hl with hl | hl
    · exact List.mem_append_left _ (h.human l hl)
    · exact List.mem_append_right _ hl
  processing := by
    intro l hl
    rcases processing l hl with hl | hl
    · exact List.mem_append_left _ (h.processing l hl)
    · exact List.mem_append_left _ (h.human l hl)
  completed := by
    intro l hl
    rcases completed l hl with hl | hl
    · exact List.mem_append_left _ (h.completed l hl)
    · exact List.mem_append_left _ (h.processing l hl)

theorem claimOpen_idle {m : QuickSessionMeta} (h : m.status ≠ .running) (finished : List Text) :
    ClaimOpen m finished :=
  ⟨fun hr => absurd hr h, fun hr => absurd hr h⟩

/-- A transition that leaves the claim and the completion alone and does not start a turn. -/
theorem claimOpen_unchanged {m next : QuickSessionMeta} {finished : List Text}
    (h : ClaimOpen m finished) (status : next.status = .running → m.status = .running)
    (processing : next.processingInputLine = m.processingInputLine)
    (attempt : next.attemptId = m.attemptId)
    (completed : next.lastCompletedInputLine = m.lastCompletedInputLine) :
    ClaimOpen next finished where
  newer := by
    intro hr p c hp hc
    exact h.newer (status hr) p c (processing ▸ hp) (completed ▸ hc)
  unfinished := by
    intro hr a ha
    exact h.unfinished (status hr) a (attempt ▸ ha)

theorem sorted_append_line {lines : List Nat} (h : lines.Pairwise (· < ·)) {line : Option Nat}
    (hline : ∀ l, line = some l → ∀ k ∈ lines, k < l) :
    (lines ++ line.toList).Pairwise (· < ·) := by
  cases line with
  | none => simpa using h
  | some l =>
    rw [List.pairwise_append]
    refine ⟨h, List.pairwise_singleton _ _, ?_⟩
    intro k hk j hj
    rw [Option.mem_toList, Option.some.injEq] at hj
    exact hj ▸ hline l rfl k hk

/-- What one applied transition does to the lines and the claim. -/
theorem applyTransition_open {m next : QuickSessionMeta} {t : QuickSessionTransition}
    {finished : List Text} {lines : List Nat}
    (happly : applyTransition m t = .ok (.applied, next)) (hvalid : ValidMeta next)
    (hfresh : ∀ a ∈ (claimedAttempt t).toList, a ∉ finished)
    (hknown : LinesKnown m lines) (hopen : ClaimOpen m finished) :
    LinesKnown next (lines ++ (appendedLine t).toList) ∧
      ClaimOpen next (finished ++ (finishedAttempt t).toList) := by
  cases t with
  | humanMessage actor line requestId preview now =>
    obtain ⟨-, -, -, -, -, rfl⟩ := applyHumanMessage_applied happly
    constructor
    · apply linesKnown_append hknown
      · intro l hl
        cases hl
        exact Or.inr List.mem_cons_self
      · intro l hl
        exact Or.inl (by simpa using hl)
      · intro l hl
        exact Or.inl (by simpa using hl)
    · simp only [finishedAttempt, Option.toList_none, List.append_nil]
      exact claimOpen_unchanged hopen leaveError_running (leaveError_processingInputLine m)
        (leaveError_attemptId m) (leaveError_lastCompletedInputLine m)
  | claim actor line attemptId now =>
    obtain ⟨-, -, -, hhuman, -, hnewer, -, rfl⟩ := applyClaim_applied happly
    constructor
    · apply linesKnown_append hknown
      · exact fun l hl => Or.inl hl
      · rintro l hl
        cases hl
        exact Or.inr hhuman
      · exact fun l hl => Or.inl hl
    · simp only [finishedAttempt, Option.toList_none, List.append_nil]
      constructor
      · rintro - p c hp hc
        cases hp
        exact hnewer c hc
      · rintro - a ha
        cases ha
        exact hfresh _ List.mem_cons_self
  | setTitle actor attemptId title now =>
    obtain ⟨-, -, -, -, -, rfl⟩ := applySetTitle_applied happly
    simp only [appendedLine, finishedAttempt, Option.toList_none, List.append_nil]
    exact ⟨⟨hknown.human, hknown.processing, hknown.completed⟩,
      claimOpen_unchanged hopen id rfl rfl rfl⟩
  | setSummary actor attemptId summary now =>
    obtain ⟨-, -, -, -, -, rfl⟩ := applySetSummary_applied happly
    simp only [appendedLine, finishedAttempt, Option.toList_none, List.append_nil]
    exact ⟨⟨hknown.human, hknown.processing, hknown.completed⟩,
      claimOpen_unchanged hopen id rfl rfl rfl⟩
  | agentReply actor input attemptId output preview now =>
    obtain ⟨-, -, -, -, hinput, -, -, -, rfl⟩ := applyAgentReply_applied happly
    refine ⟨?_, claimOpen_idle (by simp) _⟩
    apply linesKnown_append hknown
    · exact fun l hl => Or.inl hl
    · intro l hl
      simp [clearClaim] at hl
    · intro l hl
      cases hl
      exact Or.inr hinput
  | markError actor attemptId error now =>
    obtain ⟨-, -, -, -, -, -, claimed, -, rfl⟩ := applyMarkError_applied happly
    refine ⟨?_, claimOpen_idle ?_ _⟩
    · apply linesKnown_append hknown
      · exact fun l hl => Or.inl hl
      · intro l hl
        simp [clearClaim] at hl
      · exact fun l hl => Or.inl hl
    · simp only
      split
      · exact titleDerivedStatus_ne_running m
      · simp
  | archive actor now =>
    obtain ⟨-, -, -, rfl⟩ := applyArchive_applied happly
    refine ⟨?_, claimOpen_idle (by simp) _⟩
    apply linesKnown_append hknown
    · exact fun l hl => Or.inl hl
    · intro l hl
      simp [clearClaim] at hl
    · exact fun l hl => Or.inl hl
  | unarchive actor now =>
    obtain ⟨-, -, -, rfl⟩ := applyUnarchive_applied happly
    constructor
    · apply linesKnown_append hknown
      · exact fun l hl => Or.inl hl
      · intro l hl
        simp [clearClaim] at hl
      · exact fun l hl => Or.inl hl
    · apply claimOpen_idle
      -- the cleared claim excludes a running status by validation
      intro hr
      obtain ⟨p, -, -, hp, -⟩ := hvalid.running hr
      simp [clearClaim] at hp

theorem sessionInv_advance {h h' : SessionHistory} {t : QuickSessionTransition}
    (hi : SessionInv h) (hfresh : FreshClaim h t) (hstep : advance h t = some h') :
    SessionInv h' := by
  obtain ⟨next, happly, hlines, rfl⟩ := advance_eq_some hstep
  obtain ⟨-, happly, hvalid⟩ := applyQuickSessionTransition_applied happly
  obtain ⟨hknown, hopen⟩ := applyTransition_open happly hvalid hfresh hi.known hi.open_
  exact ⟨hknown, hopen, sorted_append_line hi.sorted hlines⟩

/-- Every history with fresh claims keeps its claim open and its lines in order. -/
theorem sessionInv_run {h h' : SessionHistory} {ts : List QuickSessionTransition}
    (hrun : run advance h ts = some h') (hfresh : Along advance FreshClaim h ts)
    (hi : SessionInv h) : SessionInv h' :=
  run_invariant (fun _ _ _ hs hg hstep => sessionInv_advance hs hg hstep) hrun hfresh hi

theorem lines_prefix_run {h h' : SessionHistory} {ts : List QuickSessionTransition}
    (hrun : run advance h ts = some h') : h.lines <+: h'.lines := by
  refine run_related (R := fun a b : SessionHistory => a.lines <+: b.lines)
    (fun _ => List.prefix_refl _) (fun _ _ _ hab hbc => hab.trans hbc) ?_ hrun
  intro s t s' hstep
  obtain ⟨next, -, -, rfl⟩ := advance_eq_some hstep
  exact List.prefix_append _ _

section Translation
variable {Json : Type}

theorem le_maxLine {entries : List (ThreadEntry Json)} {l : Nat}
    (h : l ∈ entries.map ThreadEntry.lineNumber) : l ≤ maxLine entries := by
  rw [maxLine]
  cases hmax : (entries.map ThreadEntry.lineNumber).max? with
  | none =>
    rw [List.max?_eq_none_iff] at hmax
    simp [hmax] at h
  | some n => exact (List.max?_eq_some_iff.mp hmax).2 l h

theorem find_relocation (path : Path) (batch : List (ThreadEntry Json)) (top line : Nat) :
    (relocation path batch top).find? (fun m => m.file = path ∧ m.oldLine = line) =
      if line ∈ batch.map ThreadEntry.lineNumber then
        some ⟨path, line, top + 1 + (batch.map ThreadEntry.lineNumber).idxOf line⟩
      else none := by
  induction batch using List.reverseRecOn with
  | nil => rfl
  | append_singleton es e ih =>
    have hsplit : relocation path (es ++ [e]) top =
        relocation path es top ++ [⟨path, e.lineNumber, top + 1 + es.length⟩] := by
      simp [relocation, List.mapIdx_append]
    rw [hsplit, List.find?_append, ih, List.map_append, List.idxOf_append]
    by_cases hes : line ∈ es.map ThreadEntry.lineNumber
    · rw [if_pos hes, if_pos (List.mem_append_left _ hes), if_pos hes]
      rfl
    · rw [if_neg hes]
      by_cases he : e.lineNumber = line
      · rw [if_pos (List.mem_append_right _ (by simp [he])), if_neg hes]
        simp [he]
      · rw [if_neg]
        · simp [he]
        · intro hm
          rcases List.mem_append.mp hm with hm | hm
          · exact hes hm
          · exact he (by simpa [eq_comm] using hm)

/-- The mappings of a thread merge translate a line to its new place. -/
theorem translateLocal_relocation (path : Path) (batch : List (ThreadEntry Json))
    (top line : Nat) :
    translateLocal (relocation path batch top) path line = newTarget batch top line := by
  rw [translateLocal, find_relocation, newTarget]
  by_cases h : line ∈ batch.map ThreadEntry.lineNumber
  · rw [if_pos h, if_pos h]
  · rw [if_neg h, if_neg h]

theorem idxOf_lt_idxOf {lines : List Nat} (sorted : lines.Pairwise (· < ·)) {i j : Nat}
    (hi : i ∈ lines) (hj : j ∈ lines) (hij : i < j) : lines.idxOf i < lines.idxOf j := by
  induction lines with
  | nil => simp at hi
  | cons k lines ih =>
    rw [List.pairwise_cons] at sorted
    have hjk : j ≠ k := by
      rintro rfl
      rcases List.mem_cons.mp hi with rfl | hi
      · omega
      · have := sorted.1 i hi
        omega
    rw [List.idxOf_cons_ne lines hjk.symm]
    by_cases hik : i = k
    · rw [hik, List.idxOf_cons_self]
      omega
    · rw [List.idxOf_cons_ne lines (Ne.symm hik)]
      have := ih sorted.2 ((List.mem_cons.mp hi).resolve_left hik)
        ((List.mem_cons.mp hj).resolve_left hjk)
      omega

/-- The lines of a thread keep their order when the new ones move behind the remote thread. -/
theorem newTarget_strictMono {old : List Nat} {batch : List (ThreadEntry Json)} {top : Nat}
    (sorted : (old ++ batch.map ThreadEntry.lineNumber).Pairwise (· < ·))
    (hold : ∀ l ∈ old, l ≤ top) {i j : Nat} (hi : i ∈ old ++ batch.map ThreadEntry.lineNumber)
    (hj : j ∈ old ++ batch.map ThreadEntry.lineNumber) (hij : i < j) :
    newTarget batch top i < newTarget batch top j := by
  obtain ⟨-, hnew, hcross⟩ := List.pairwise_append.mp sorted
  rw [newTarget, newTarget]
  by_cases hib : i ∈ batch.map ThreadEntry.lineNumber
  · have hjb : j ∈ batch.map ThreadEntry.lineNumber := by
      rcases List.mem_append.mp hj with hj | hj
      · have := hcross j hj i hib
        omega
      · exact hj
    have hidx := idxOf_lt_idxOf hnew hib hjb hij
    rw [if_pos hib, if_pos hjb]
    omega
  · have hio : i ∈ old := (List.mem_append.mp hi).resolve_right hib
    rw [if_neg hib]
    split
    · have := hold i hio
      omega
    · exact hij

end Translation

section Merge
variable {Json : Type} (codec : JsonCodec Json)

/-- The update time that a failure has to reach to survive the merge. -/
def newestHumanUpdate (entries : List (ThreadEntry Json)) (localMeta remoteMeta : QuickSessionMeta)
    (translate : Nat → Nat) : Option Text :=
  (lastHuman localMeta remoteMeta (localMeta.lastHumanLine.map translate) remoteMeta.lastHumanLine
    (newestHumanLine localMeta.createdBy entries)).2

/-- A side has not overtaken a claim that runs on the other: its completion is of an older input
or of this claim, and if it has finished the attempt, it still shows so. -/
structure NotOvertaken (other : SessionHistory) (translate : Nat → Nat) (update : Option Text)
    (attempt : Text) (input : Nat) : Prop where
  completed : ∀ c, completionOf other.qmeta translate = some c →
    c.input < input ∨ (c.attempt = attempt ∧ c.input = input)
  shown : attempt ∈ other.finished →
    (∃ c, completionOf other.qmeta translate = some c ∧ c.attempt = attempt ∧ c.input = input) ∨
    (other.qmeta.lastFailedAttemptId = some attempt ∧
      ∀ t, update = some t → t ≤ other.qmeta.updatedAt)

/-- Neither side has overtaken a claim of the other, unless the session is archived. -/
def ClaimsCurrent (ours theirs : SessionHistory) (translate : Nat → Nat) (update : Option Text) :
    Prop :=
  archiveWins ours.qmeta theirs.qmeta = false →
    (∀ a p, ours.qmeta.status = .running → ours.qmeta.attemptId = some a →
      ours.qmeta.processingInputLine = some p →
      NotOvertaken theirs id update a (translate p)) ∧
    (∀ a p, theirs.qmeta.status = .running → theirs.qmeta.attemptId = some a →
      theirs.qmeta.processingInputLine = some p → NotOvertaken ours translate update a p)

/-- A running claim is for a newer input than the last completion and of an attempt that neither
side has completed or failed. -/
def RunningClaimOpen (merged : QuickSessionMeta) (ours theirs : SessionHistory) : Prop :=
  merged.status = .running →
    ∃ p a, merged.processingInputLine = some p ∧ merged.attemptId = some a ∧
      (∀ c, merged.lastCompletedInputLine = some c → c < p) ∧
      a ∉ ours.finished ∧ a ∉ theirs.finished

/-- The claim that survives is newer than the surviving completion and open on both sides. -/
theorem claim_current {side other : SessionHistory} {here there : Nat → Nat} {update : Option Text}
    {completion : Option Completion} {failure : Option Failure} {c : Claim}
    (hinv : SessionInv side) (hclaim : ClaimOf false side.qmeta here c)
    (hmono : ∀ i ∈ side.lines, ∀ j ∈ side.lines, i < j → here i < here j)
    (hnot : NotOvertaken other there update c.attempt c.input)
    (hopen : claimCompleted completion failure c = false)
    (hfrom : ∀ d, completion = some d →
      completionOf side.qmeta here = some d ∨ completionOf other.qmeta there = some d)
    (hmost : ∀ d, completionOf other.qmeta there = some d → ∃ e, completion = some e ∧ d.Le e)
    (hfailed : other.qmeta.lastFailedAttemptId = some c.attempt →
      (∀ t, update = some t → t ≤ other.qmeta.updatedAt) →
      ∃ f, failure = some f ∧ f.attempt = c.attempt) :
    (∀ d, completion = some d → d.input < c.input) ∧ c.attempt ∉ side.finished ∧
      c.attempt ∉ other.finished := by
  obtain ⟨p, hp, hinput⟩ := hclaim.input
  have hdone : ∀ d, completion = some d → ¬ (d.attempt = c.attempt ∧ d.input = c.input) := by
    intro d hd hsame
    simp [claimCompleted, hd, hsame] at hopen
  have hnofail : ∀ f, failure = some f → f.attempt ≠ c.attempt := by
    intro f hf hsame
    simp [claimCompleted, hf, hsame] at hopen
  have hown : ∀ d, completionOf side.qmeta here = some d → d.input < c.input := by
    intro d hd
    obtain ⟨i, o, -, hi, -, hin, -⟩ := completionOf_eq_some_iff.mp hd
    rw [hin, hinput]
    exact hmono i (hinv.known.completed i hi) p (hinv.known.processing p hp)
      (hinv.open_.newer hclaim.running p i hp hi)
  have hnewer : ∀ d, completion = some d → d.input < c.input := by
    intro d hd
    rcases hfrom d hd with hside | hside
    · exact hown d hside
    · exact (hnot.completed d hside).resolve_right (hdone d hd)
  refine ⟨hnewer, hinv.open_.unfinished hclaim.running _ hclaim.attempt, ?_⟩
  intro hfinished
  rcases hnot.shown hfinished with ⟨d, hd, hattempt, hline⟩ | ⟨hlast, hupdate⟩
  · obtain ⟨e, he, hle⟩ := hmost d hd
    have hlt := hnewer e he
    simp only [Completion.Le] at hle
    omega
  · obtain ⟨f, hf, hsame⟩ := hfailed hlast hupdate
    exact hnofail f hf hsame

/-- With no failure on the running side, the failure of the other side survives if it is recent
enough. -/
theorem failure_survives {other : QuickSessionMeta} (hvalid : ValidMeta other)
    {attempt : Text} (hlast : other.lastFailedAttemptId = some attempt) (line : Option Nat)
    {update : Option Text} (hupdate : ∀ t, update = some t → t ≤ other.updatedAt) :
    ∃ f, f.attempt = attempt ∧ mergeFailure none (failureOf other line) update = some f ∧
      mergeFailure (failureOf other line) none update = some f := by
  obtain ⟨error, herror⟩ := Option.ne_none_iff_exists'.mp (hvalid.failed attempt hlast).2.1
  have hof : failureOf other line = some ⟨attempt, error, other.updatedAt, line⟩ :=
    failureOf_eq_some_iff.mpr ⟨hlast, herror, rfl, rfl⟩
  have hkept : failureKept update ⟨attempt, error, other.updatedAt, line⟩ = true := by
    cases update with
    | none => rfl
    | some t => simpa [failureKept] using hupdate t rfl
  refine ⟨⟨attempt, error, other.updatedAt, line⟩, rfl, ?_, ?_⟩
  · rw [mergeFailure, hof]
    exact Option.filter_eq_some_iff.mpr ⟨rfl, hkept⟩
  · rw [mergeFailure, hof]
    exact Option.filter_eq_some_iff.mpr ⟨rfl, hkept⟩

theorem failureOf_running {m : QuickSessionMeta} (hvalid : ValidMeta m)
    (hrun : m.status = .running) (line : Option Nat) : failureOf m line = none := by
  cases hf : failureOf m line with
  | none => rfl
  | some f =>
    have herror := (failureOf_eq_some_iff.mp hf).2.1
    rw [hvalid.errorIdle hrun] at herror
    cases herror

/-- A successful merge assembles merged parts of two valid sides. -/
theorem mergeQuickSessionMeta_ok {localMeta remoteMeta merged : QuickSessionMeta}
    {mergedThread : Text} {mappings : List RenumberMapping} {path : Path}
    (h : mergeQuickSessionMeta codec localMeta remoteMeta mergedThread mappings path =
      .ok merged) :
    ValidMeta localMeta ∧ ValidMeta remoteMeta ∧ ∃ parsed parts revision,
      parseThread codec mergedThread = .ok parsed ∧
      MergedFrom localMeta remoteMeta parsed.entries (translateLocal mappings path) parts ∧
      merged = assemble localMeta remoteMeta parts revision := by
  simp only [mergeQuickSessionMeta, Checked.bind_eq_ok_iff, checkedValid_eq_ok_iff] at h
  obtain ⟨_, hl, _, hr, _, -, parts, hparts, _, -, _, -, heq⟩ := h
  obtain ⟨parsed, hparsed, hmerged⟩ := mergeParts_ok codec hparts
  exact ⟨hl, hr, parsed, parts, _, hparsed, hmerged, (Except.ok.inj heq).symm⟩

theorem assemble_running {localMeta remoteMeta : QuickSessionMeta} {parts : MergeParts}
    {revision : Nat} (h : (assemble localMeta remoteMeta parts revision).status = .running) :
    archiveWins localMeta remoteMeta = false ∧ ∃ c, parts.claim = some c := by
  simp only [assemble] at h
  split at h
  · cases h
  · rename_i harch
    refine ⟨by simpa using harch, ?_⟩
    rcases stableStatus_cases parts.claim parts.failure parts.newest parts.title with
      ⟨-, hc⟩ | ⟨hst, -⟩ | ⟨hst, -⟩ | ⟨hst, -⟩
    · exact Option.ne_none_iff_exists'.mp hc
    · cases h.symm.trans hst
    · cases h.symm.trans hst
    · cases h.symm.trans hst

/-- Two continuations of one session with fresh claims: a claim that survives their merge is for
a newer input than the merged completion, and neither side has finished its attempt, provided
neither side had overtaken a claim of the other. -/
theorem merge_running_current {id agentId createdBy createdAt : Text}
    {shared ourSteps theirSteps : List QuickSessionTransition}
    {base ours theirs : SessionHistory}
    (hbase : run advance (startHistory id agentId createdBy createdAt) shared = some base)
    (hours : run advance base ourSteps = some ours)
    (htheirs : run advance base theirSteps = some theirs)
    (fbase : Along advance FreshClaim (startHistory id agentId createdBy createdAt) shared)
    (fours : Along advance FreshClaim base ourSteps)
    (ftheirs : Along advance FreshClaim base theirSteps)
    {mergedThread : Text} {entries batch remoteEntries : List (ThreadEntry Json)} {path : Path}
    (hparsed : parseThread codec mergedThread = .ok ⟨entries⟩)
    (hbatch : ours.lines = base.lines ++ batch.map ThreadEntry.lineNumber)
    (hremote : theirs.lines = remoteEntries.map ThreadEntry.lineNumber)
    (hcurrent : ClaimsCurrent ours theirs (newTarget batch (maxLine remoteEntries))
      (newestHumanUpdate entries ours.qmeta theirs.qmeta (newTarget batch (maxLine remoteEntries))))
    {merged : QuickSessionMeta}
    (hmerge : mergeQuickSessionMeta codec ours.qmeta theirs.qmeta mergedThread
      (relocation path batch (maxLine remoteEntries)) path = .ok merged) :
    RunningClaimOpen merged ours theirs := by
  intro hrun
  have hinv := sessionInv_run hbase fbase (sessionInv_start id agentId createdBy createdAt)
  have hinvOurs := sessionInv_run hours fours hinv
  have hinvTheirs := sessionInv_run htheirs ftheirs hinv
  have htranslate : translateLocal (relocation path batch (maxLine remoteEntries)) path =
      newTarget batch (maxLine remoteEntries) :=
    funext fun line => translateLocal_relocation path batch _ line
  have hmono : ∀ i ∈ ours.lines, ∀ j ∈ ours.lines, i < j →
      newTarget batch (maxLine remoteEntries) i < newTarget batch (maxLine remoteEntries) j := by
    intro i hi j hj hij
    rw [hbatch] at hi hj
    refine newTarget_strictMono (hbatch ▸ hinvOurs.sorted) ?_ hi hj hij
    intro l hl
    exact le_maxLine (hremote ▸ (lines_prefix_run htheirs).subset hl)
  obtain ⟨hl, hr, parsed, parts, revision, hparsed', hm, rfl⟩ :=
    mergeQuickSessionMeta_ok codec hmerge
  cases hparsed.symm.trans hparsed'
  rw [htranslate] at hm
  obtain ⟨hlive, c, hc⟩ := assemble_running hrun
  obtain ⟨hcurOurs, hcurTheirs⟩ := hcurrent hlive
  obtain ⟨hfrom, hmost⟩ := mergeCompletion_ok hm.completion
  have hfailure : parts.failure = mergeFailure
      (failureOf ours.qmeta (ours.qmeta.lastHumanLine.map (newTarget batch (maxLine remoteEntries))))
      (failureOf theirs.qmeta theirs.qmeta.lastHumanLine)
      (newestHumanUpdate entries ours.qmeta theirs.qmeta
        (newTarget batch (maxLine remoteEntries))) := by
    rw [hm.failure, hm.newest]
    rfl
  have hcases : (∀ d, parts.completion = some d → d.input < c.input) ∧
      c.attempt ∉ ours.finished ∧ c.attempt ∉ theirs.finished := by
    obtain ⟨lc, rc, hlc, hrc, hclaim⟩ := hm.claim
    rw [hc] at hclaim
    rcases mergeClaim_ok hclaim with hside | hside
    · obtain ⟨hsome, hopen⟩ := Option.filter_eq_some_iff.mp hside
      rw [hsome, hlive] at hlc
      have hof := claimOf_eq_some hlc
      obtain ⟨p, hp, hinput⟩ := hof.input
      have hnot := hcurOurs c.attempt p hof.running hof.attempt hp
      rw [← hinput] at hnot
      refine claim_current hinvOurs hof hmono hnot (by simpa using hopen) hfrom
        (fun d hd => hmost d (Or.inr hd)) ?_
      intro hlast hupdate
      obtain ⟨f, hsame, hsurvives, -⟩ := failure_survives hr hlast theirs.qmeta.lastHumanLine hupdate
      rw [hfailure, failureOf_running hl hof.running]
      exact ⟨f, hsurvives, hsame⟩
    · obtain ⟨hsome, hopen⟩ := Option.filter_eq_some_iff.mp hside
      rw [hsome, hlive] at hrc
      have hof := claimOf_eq_some hrc
      obtain ⟨p, hp, hinput⟩ := hof.input
      have hnot := hcurTheirs c.attempt p hof.running hof.attempt hp
      rw [show p = c.input from hinput.symm] at hnot
      have hclosed := claim_current hinvTheirs hof (fun i _ j _ hij => hij) hnot
        (by simpa using hopen) (fun d hd => (hfrom d hd).symm) (fun d hd => hmost d (Or.inl hd))
        (by
          intro hlast hupdate
          obtain ⟨f, hsame, -, hsurvives⟩ := failure_survives hl hlast
            (ours.qmeta.lastHumanLine.map (newTarget batch (maxLine remoteEntries))) hupdate
          rw [hfailure, failureOf_running hr hof.running]
          exact ⟨f, hsurvives, hsame⟩)
      exact ⟨hclosed.1, hclosed.2.2, hclosed.2.1⟩
  obtain ⟨hnewer, hours', htheirs'⟩ := hcases
  refine ⟨c.input, c.attempt, by simp [assemble, hc], by simp [assemble, hc], ?_, hours', htheirs'⟩
  intro line hline
  obtain ⟨d, hd, rfl⟩ := Option.map_eq_some_iff.mp hline
  exact hnewer d hd

end Merge

section Samples

def attemptTwo : Text := "qa-00000000000000000000000002".toList

def startSample : SessionHistory :=
  startHistory freshSession.id freshSession.agentId freshSession.createdBy freshSession.createdAt

def ask (line : Nat) : QuickSessionTransition :=
  .humanMessage alice.name line none "hello".toList newYear

def answer (input : Nat) (attempt : Text) (output : Nat) : QuickSessionTransition :=
  .agentReply bot.name input attempt output "answer".toList newYear

def take (input : Nat) (attempt : Text) : QuickSessionTransition :=
  .claim bot.name input attempt newYear

def nameIt : QuickSessionTransition := .setTitle bot.name attemptOne "lunch".toList newYear

def aliceLine (line : Nat) : ThreadEntry SmallJson := sampleMessage line 0 "hello".toList

def botLine (line : Nat) : ThreadEntry SmallJson :=
  .message ⟨line, 0, bot, newYear, "answer".toList⟩

/-- The first turn is open. -/
def openTurn : SessionHistory :=
  ⟨{ freshSession with
      title := some "lunch".toList
      status := .running
      lastMessagePreview := "hello".toList
      processingInputLine := some 1
      processingStartedAt := some newYear
      attemptId := some attemptOne
      lastHumanLine := some 1
      revision := 4 }, [], [1]⟩

/-- Two turns are answered. -/
def twoAnswers : SessionHistory :=
  ⟨{ freshSession with
      title := some "lunch".toList
      status := .active
      lastMessagePreview := "answer".toList
      lastCompletedAttemptId := some attemptTwo
      lastCompletedInputLine := some 3
      lastCompletedLine := some 4
      lastHumanLine := some 3
      revision := 8 }, [attemptOne, attemptTwo], [1, 2, 3, 4]⟩

/-- The first turn is answered and a second question waits. -/
def secondQuestion : SessionHistory :=
  ⟨{ freshSession with
      title := some "lunch".toList
      status := .active
      lastMessagePreview := "hello".toList
      lastCompletedAttemptId := some attemptOne
      lastCompletedInputLine := some 1
      lastCompletedLine := some 2
      lastHumanLine := some 3
      revision := 6 }, [attemptOne], [1, 2, 3]⟩

def secondTurn : SessionHistory :=
  { secondQuestion with qmeta := { secondQuestion.qmeta with
      status := .running
      processingInputLine := some 3
      processingStartedAt := some newYear
      attemptId := some attemptTwo
      revision := 7 } }

def thirdQuestion : SessionHistory :=
  { secondQuestion with
    qmeta := { secondQuestion.qmeta with lastHumanLine := some 4, revision := 7 }
    lines := [1, 2, 3, 4] }

def questionsThread : Text :=
  "[L000001][P000000][@alice][20260101T000000Z] hello\n".toList ++
    ("[L000002][P000000][@bot][20260101T000000Z] answer\n".toList ++
      ("[L000003][P000000][@alice][20260101T000000Z] hello\n".toList ++
        "[L000004][P000000][@alice][20260101T000000Z] hello\n".toList))

/-- One side takes the second question while the other side asks a third one. -/
theorem merge_running_current_second :
    RunningClaimOpen { secondTurn.qmeta with lastHumanLine := some 4, revision := 8 }
      secondTurn thirdQuestion := by
  have hbase : run advance startSample
      [ask 1, take 1 attemptOne, nameIt, answer 1 attemptOne 2, ask 3] = some secondQuestion := by
    decide +kernel
  have hours : run advance secondQuestion [take 3 attemptTwo] = some secondTurn := by
    decide +kernel
  have htheirs : run advance secondQuestion [ask 4] = some thirdQuestion := by decide +kernel
  have hparsed : parseThread smallCodec questionsThread =
      .ok ⟨[aliceLine 1, botLine 2, aliceLine 3, aliceLine 4]⟩ := by
    unfold questionsThread
    repeat rw [String.toList_ofList]
    decide +kernel
  have hmerge : mergeQuickSessionMeta smallCodec secondTurn.qmeta thirdQuestion.qmeta
      questionsThread (relocation discussion ([] : List (ThreadEntry SmallJson))
        (maxLine [aliceLine 1, botLine 2, aliceLine 3, aliceLine 4])) discussion =
      .ok { secondTurn.qmeta with lastHumanLine := some 4, revision := 8 } := by
    unfold secondTurn thirdQuestion secondQuestion freshSession attemptOne attemptTwo
      questionsThread
    repeat rw [String.toList_ofList]
    decide +kernel
  refine merge_running_current smallCodec hbase hours htheirs (by decide +kernel)
    (by decide +kernel) (by decide +kernel) hparsed rfl rfl ?_ hmerge
  intro _
  constructor
  · intro a p _ ha hp
    cases ha
    cases hp
    refine ⟨?_, by decide⟩
    intro c hc
    cases hc
    decide
  · intro a p hr
    cases hr

def overtakenThread : Text :=
  "[L000001][P000000][@alice][20260101T000000Z] hello\n".toList ++
    ("[L000002][P000000][@bot][20260101T000000Z] answer\n".toList ++
      ("[L000003][P000000][@alice][20260101T000000Z] hello\n".toList ++
        "[L000004][P000000][@bot][20260101T000000Z] answer\n".toList))

/-- One side answers two questions while the other still runs the first turn: the merge revives
the finished attempt, behind the completed input. -/
theorem merge_revives_finished :
    run advance startSample [ask 1, take 1 attemptOne, nameIt] = some openTurn ∧
    run advance openTurn
      [answer 1 attemptOne 2, ask 3, take 3 attemptTwo, answer 3 attemptTwo 4] =
      some twoAnswers ∧
    run advance openTurn [] = some openTurn ∧
    twoAnswers.lines = openTurn.lines ++
      [botLine 2, aliceLine 3, botLine 4].map ThreadEntry.lineNumber ∧
    openTurn.lines = [aliceLine 1].map ThreadEntry.lineNumber ∧
    ∃ merged, mergeQuickSessionMeta smallCodec twoAnswers.qmeta openTurn.qmeta overtakenThread
        (relocation discussion [botLine 2, aliceLine 3, botLine 4] (maxLine [aliceLine 1]))
        discussion = .ok merged ∧
      merged.attemptId = some attemptOne ∧ ¬ RunningClaimOpen merged twoAnswers openTurn := by
  refine ⟨by decide +kernel, by decide +kernel, rfl, rfl, rfl,
    { twoAnswers.qmeta with
      status := .running
      processingInputLine := some 1
      processingStartedAt := some newYear
      attemptId := some attemptOne
      revision := 9 }, ?_, rfl, ?_⟩
  · unfold twoAnswers openTurn freshSession attemptOne attemptTwo overtakenThread
    repeat rw [String.toList_ofList]
    decide +kernel
  · intro hopen
    obtain ⟨p, a, -, ha, -, hours, -⟩ := hopen rfl
    cases ha
    exact hours (by decide)

end Samples

end QuickSessionHistory
