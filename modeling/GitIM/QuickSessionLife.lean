import GitIM.QuickSession
import GitIM.Runs

/-!
# The life of a quick session

What one transition does to valid metadata, and what holds in every state that
transitions reach from a new session: a claim that runs can be answered, and the
newest question can be claimed, unless an attempt id is used again.
-/

namespace QuickSessionLife

open TextLines TextScan Checked ThreadFormat QuickSession Runs

section Steps

/-- `apply_quick_session_transition` on the metadata behind its reference. -/
def inPlace (m : QuickSessionMeta) (t : QuickSessionTransition) :
    Except QuickSessionError TransitionOutcome × QuickSessionMeta :=
  match applyQuickSessionTransition m t with
  | .ok (outcome, next) => (.ok outcome, next)
  | .error e => (.error e, m)

/-- A line number that is kept or raised. -/
def NotBelow (old new : Option Nat) : Prop := ∀ x, old = some x → ∃ y, new = some y ∧ x ≤ y

theorem NotBelow.refl (x : Option Nat) : NotBelow x x := fun y h => ⟨y, h, Nat.le_refl y⟩

variable {m next : QuickSessionMeta} {actor now : Text} {revision : Nat}

theorem knownLine_raise {line last : Nat} (h : KnownLine m line)
    (hlast : ∀ old, m.lastHumanLine = some old → old < last)
    (hnext : next.lastHumanLine = some last) : KnownLine next line := by
  obtain ⟨old, hold, hle⟩ := h
  exact ⟨last, hnext, Nat.le_trans hle (Nat.le_of_lt (hlast old hold))⟩

theorem titleDerivedStatus_cases (m : QuickSessionMeta) :
    (titleDerivedStatus m = .active ∧ m.title ≠ none) ∨
      (titleDerivedStatus m = .needsTitle ∧ m.title = none) := by
  rw [titleDerivedStatus]
  cases m.title with
  | none => exact Or.inr ⟨rfl, rfl⟩
  | some t => exact Or.inl ⟨rfl, by simp⟩

theorem titleDerivedStatus_ne (m : QuickSessionMeta) :
    titleDerivedStatus m ≠ .running ∧ titleDerivedStatus m ≠ .error ∧
      titleDerivedStatus m ≠ .archived := by
  rcases titleDerivedStatus_cases m with ⟨hs, -⟩ | ⟨hs, -⟩ <;> simp [hs]

@[simp] theorem leaveError_lastHumanLine (m : QuickSessionMeta) :
    (leaveError m).lastHumanLine = m.lastHumanLine := by
  rw [leaveError]
  split <;> rfl

theorem validMeta_leaveError (h : ValidMeta m) : ValidMeta (leaveError m) := by
  rw [leaveError]
  split
  · rename_i herror
    obtain ⟨hrun, herr, harch⟩ := titleDerivedStatus_ne m
    exact { h with
      running := fun hs => absurd hs hrun
      idle := fun _ => h.idle (by simp [herror])
      archived := fun hs => absurd hs harch
      unarchived := fun _ => h.unarchived (by simp [herror])
      untitled := by
        intro hs
        rcases titleDerivedStatus_cases m with ⟨hd, -⟩ | ⟨-, htitle⟩
        · simp [hd] at hs
        · exact htitle
      titled := by
        intro hs
        rcases titleDerivedStatus_cases m with ⟨-, htitle⟩ | ⟨hd, -⟩
        · exact htitle
        · simp [hd] at hs
      errorText := fun e he => by cases he
      errorKept := by simp [requiresError, herr, harch]
      errorIdle := fun _ => rfl
      errorCause := fun he => absurd rfl he
      failed := fun a ha => by cases ha }
  · exact h

theorem validMeta_humanLine {line : Nat} {requestId : Option Text} {preview : Text}
    (h : ValidMeta m) (hline : line ≠ 0) (hnewer : ∀ last, m.lastHumanLine = some last → last < line)
    (hpreview : preview.length ≤ 160) (hrevision : revision ≠ 0) :
    ValidMeta { m with
      lastHumanRequestId := requestId
      lastHumanLine := some line
      lastMessagePreview := preview
      updatedAt := now
      revision := revision } :=
  { h with
    revision := hrevision
    preview := hpreview
    completion := by
      rcases h.completion with hnone | ⟨a, i, o, ha, hi, ho, hvalid, hpos, hlt, hknown⟩
      · exact Or.inl hnone
      · exact Or.inr ⟨a, i, o, ha, hi, ho, hvalid, hpos, hlt, knownLine_raise hknown hnewer rfl⟩
    humanLine := by simpa using hline
    request := by simp
    processing := fun p hp => knownLine_raise (h.processing p hp) hnewer rfl }

theorem truncate_length_le (preview : Text) :
    (truncateQuickSessionPreview preview).length ≤ 160 := by
  rw [truncateQuickSessionPreview, List.length_take]
  exact Nat.min_le_left _ _

theorem validMeta_humanMessage {line : Nat} {requestId : Option Text} {preview : Text}
    (h : ValidMeta m)
    (happly : applyHumanMessage m actor line requestId preview now = .ok (.applied, next)) :
    ValidMeta next := by
  obtain ⟨-, -, hline, hnewer, -, rfl⟩ := applyHumanMessage_applied happly
  have hlast : ∀ last, (leaveError m).lastHumanLine = some last → last < line := by
    rw [leaveError_lastHumanLine]
    exact hnewer
  exact validMeta_humanLine (validMeta_leaveError h) hline hlast (truncate_length_le preview)
    (Nat.succ_ne_zero _)

theorem validMeta_claim {line : Nat} {attemptId : Text} (h : ValidMeta m)
    (happly : applyClaim m actor line attemptId now = .ok (.applied, next)) : ValidMeta next := by
  obtain ⟨-, hvalid, hstatus, hhuman, hline, -, -, rfl⟩ := applyClaim_applied happly
  have hlive : m.status ≠ .archived := by
    rcases hstatus with hs | hs <;> simp [hs]
  exact { h with
    revision := Nat.succ_ne_zero _
    running := fun _ => ⟨line, now, attemptId, rfl, hline, rfl, rfl, hvalid⟩
    idle := fun hs => absurd rfl hs
    archived := fun hs => by cases hs
    unarchived := fun _ => h.unarchived hlive
    untitled := fun hs => by cases hs
    titled := fun hs => by cases hs
    errorText := fun e he => by cases he
    errorKept := by simp [requiresError]
    errorIdle := fun _ => rfl
    errorCause := fun he => absurd rfl he
    processing := by
      intro p hp
      cases hp
      exact ⟨line, hhuman, Nat.le_refl line⟩
    failed := fun a ha => by cases ha }

theorem validMeta_setTitle {attemptId title : Text} (h : ValidMeta m)
    (happly : applySetTitle m actor attemptId title now = .ok (.applied, next)) :
    ValidMeta next := by
  obtain ⟨-, hrunning, -, htitle, -, rfl⟩ := applySetTitle_applied happly
  exact { h with
    revision := Nat.succ_ne_zero _
    title := by
      intro t ht
      cases ht
      exact htitle
    archived := fun hs => by simp [hrunning] at hs
    untitled := fun hs => by simp [hrunning] at hs
    titled := fun hs => by simp [hrunning] at hs }

theorem validMeta_setSummary {attemptId summary : Text} (h : ValidMeta m)
    (happly : applySetSummary m actor attemptId summary now = .ok (.applied, next)) :
    ValidMeta next := by
  obtain ⟨-, -, -, hsummary, -, rfl⟩ := applySetSummary_applied happly
  exact { h with
    revision := Nat.succ_ne_zero _
    summary := Or.inr ⟨trim summary, now, rfl, rfl, hsummary⟩ }

theorem validMeta_agentReply {input output : Nat} {attemptId preview : Text} (h : ValidMeta m)
    (happly : applyAgentReply m actor input attemptId output preview now = .ok (.applied, next)) :
    ValidMeta next := by
  obtain ⟨-, hvalid, hrunning, -, hinput, htitle, hlt, -, rfl⟩ := applyAgentReply_applied happly
  obtain ⟨p, t, a, hp, hpos, -, -, -⟩ := h.running hrunning
  have hpi : p = input := by simpa [hp] using hinput
  subst hpi
  exact { h with
    revision := Nat.succ_ne_zero _
    preview := truncate_length_le preview
    running := fun hs => by cases hs
    idle := fun _ => ⟨rfl, rfl, rfl⟩
    archived := fun hs => by cases hs
    unarchived := fun _ => h.unarchived (by simp [hrunning])
    untitled := fun hs => by cases hs
    titled := fun _ => htitle
    errorText := fun e he => by cases he
    errorKept := by simp [requiresError]
    errorIdle := fun hs => by cases hs
    errorCause := fun he => absurd rfl he
    completion := Or.inr ⟨attemptId, p, output, rfl, rfl, rfl, hvalid, hpos, hlt,
      h.processing p hp⟩
    processing := fun q hq => by cases hq
    failed := fun b hb => by cases hb }

theorem validMeta_markError {attemptId error : Text} (h : ValidMeta m)
    (happly : applyMarkError m actor attemptId error now = .ok (.applied, next)) :
    ValidMeta next := by
  obtain ⟨-, hvalid, hrunning, -, herror, -, claimed, -, rfl⟩ := applyMarkError_applied happly
  -- the turn ends in an error or, with a queued line, in the state the title gives
  have hstatus : ∀ s, (if hasQueuedInput m claimed then titleDerivedStatus m else .error) = s →
      s ≠ .running ∧ s ≠ .archived ∧ (s = .needsTitle → m.title = none) ∧
        (s = .active → m.title ≠ none) := by
    rintro s rfl
    split
    · rcases titleDerivedStatus_cases m with ⟨hs, ht⟩ | ⟨hs, ht⟩ <;> simp [hs, ht]
    · simp
  obtain ⟨hrun, harch, huntitled, htitled⟩ := hstatus _ rfl
  exact { h with
    revision := Nat.succ_ne_zero _
    running := fun hs => absurd hs hrun
    idle := fun _ => ⟨rfl, rfl, rfl⟩
    archived := fun hs => absurd hs harch
    unarchived := fun _ => h.unarchived (by simp [hrunning])
    untitled := huntitled
    titled := htitled
    errorText := by
      intro e he
      cases he
      exact trim_trim_ne_nil herror
    errorKept := fun _ => by simp
    errorIdle := fun hs => absurd hs hrun
    errorCause := fun _ _ => by simp
    processing := fun q hq => by cases hq
    failed := by
      intro a ha
      cases ha
      exact ⟨hvalid, by simp, hrun⟩ }

/-- The status an archived session returns to. -/
theorem archivedFrom_cases (h : ValidMeta m) (harch : m.status ≠ .archived) {s : QuickSessionStatus}
    (hs : s = if m.status = .running then titleDerivedStatus m else m.status) :
    (s = .active ∧ m.title ≠ none ∧ m.status ≠ .error) ∨
      (s = .needsTitle ∧ m.title = none ∧ m.status ≠ .error) ∨
        (s = .error ∧ m.status = .error) := by
  subst hs
  split
  · rename_i hrunning
    rcases titleDerivedStatus_cases m with ⟨hs, ht⟩ | ⟨hs, ht⟩ <;> simp [hs, ht, hrunning]
  · rename_i hrunning
    cases hs : m.status with
    | needsTitle => exact Or.inr (Or.inl ⟨rfl, h.untitled hs, by simp⟩)
    | running => exact absurd hs hrunning
    | active => exact Or.inl ⟨rfl, h.titled hs, by simp⟩
    | error => exact Or.inr (Or.inr ⟨rfl, rfl⟩)
    | archived => exact absurd hs harch

theorem validMeta_archive (h : ValidMeta m)
    (happly : applyArchive m actor now = .ok (.applied, next)) : ValidMeta next := by
  obtain ⟨-, harch, -, rfl⟩ := applyArchive_applied happly
  have hfrom := archivedFrom_cases h harch rfl
  exact { h with
    revision := Nat.succ_ne_zero _
    running := fun hs => by cases hs
    idle := fun _ => ⟨rfl, rfl, rfl⟩
    archived := by
      intro _
      refine ⟨by simp, ?_⟩
      rcases hfrom with ⟨hs, ht, -⟩ | ⟨hs, ht, -⟩ | ⟨hs, -⟩
      · exact Or.inl ⟨congrArg some hs, ht⟩
      · exact Or.inr (Or.inl ⟨congrArg some hs, ht⟩)
      · exact Or.inr (Or.inr (congrArg some hs))
    unarchived := fun hs => absurd rfl hs
    untitled := fun hs => by cases hs
    titled := fun hs => by cases hs
    errorKept := by
      intro hreq
      rcases hfrom with ⟨hs, -⟩ | ⟨hs, -⟩ | ⟨-, hs⟩
      · simp [requiresError, hs] at hreq
      · simp [requiresError, hs] at hreq
      · exact h.errorKept (by simp [requiresError, hs])
    errorIdle := fun hs => by cases hs
    errorCause := by
      intro he hreq
      rcases hfrom with ⟨-, -, hs⟩ | ⟨-, -, hs⟩ | ⟨hs, -⟩
      · exact h.errorCause he (by simp [requiresError, hs, harch])
      · exact h.errorCause he (by simp [requiresError, hs, harch])
      · simp [requiresError, hs] at hreq
    processing := fun q hq => by cases hq
    failed := by
      intro a ha
      obtain ⟨hv, he, -⟩ := h.failed a ha
      exact ⟨hv, he, by simp⟩ }

theorem restored_cases (h : ValidMeta m) (harch : m.status = .archived) :
    (∃ s, m.archivedFrom = some s ∧ s ≠ .running ∧ s ≠ .archived ∧ s ≠ .error ∧
      (s = .needsTitle → m.title = none) ∧ (s = .active → m.title ≠ none)) ∨
        m.archivedFrom = some .error := by
  rcases (h.archived harch).2 with ⟨hfrom, ht⟩ | ⟨hfrom, ht⟩ | hfrom
  · exact Or.inl ⟨.active, hfrom, by simp [ht]⟩
  · exact Or.inl ⟨.needsTitle, hfrom, by simp [ht]⟩
  · exact Or.inr hfrom

theorem validMeta_unarchive (h : ValidMeta m)
    (happly : applyUnarchive m actor now = .ok (.applied, next)) : ValidMeta next := by
  obtain ⟨-, harch, -, rfl⟩ := applyUnarchive_applied happly
  rcases restored_cases h harch with ⟨s, hfrom, hrun, hlive, herr, huntitled, htitled⟩ | hfrom
  · exact { h with
      revision := Nat.succ_ne_zero _
      running := by simp [hfrom, hrun]
      idle := fun _ => ⟨rfl, rfl, rfl⟩
      archived := by simp [hfrom, hlive]
      unarchived := fun _ => ⟨rfl, rfl⟩
      untitled := by simpa [hfrom, clearClaim] using huntitled
      titled := by simpa [hfrom, clearClaim] using htitled
      errorText := by simp [hfrom, herr]
      errorKept := by simp [requiresError, hfrom, herr]
      errorIdle := by simp [hfrom, hrun]
      errorCause := by simp [hfrom, herr]
      processing := fun q hq => by cases hq
      failed := by simp [hfrom, herr] }
  · have hreq : requiresError m = true := by simp [requiresError, harch, hfrom]
    exact { h with
      revision := Nat.succ_ne_zero _
      running := by simp [hfrom]
      idle := fun _ => ⟨rfl, rfl, rfl⟩
      archived := by simp [hfrom]
      unarchived := fun _ => ⟨rfl, rfl⟩
      untitled := by simp [hfrom]
      titled := by simp [hfrom]
      errorText := by simpa [hfrom] using h.errorText
      errorKept := fun _ => by simpa [hfrom] using h.errorKept hreq
      errorIdle := by simp [hfrom]
      errorCause := by simp [requiresError, hfrom]
      processing := fun q hq => by cases hq
      failed := by
        intro a ha
        obtain ⟨hv, he, -⟩ := h.failed a (by simpa [hfrom] using ha)
        exact ⟨hv, by simpa [hfrom] using he, by simp [hfrom]⟩ }

theorem validMeta_applied {t : QuickSessionTransition} (h : ValidMeta m)
    (happly : applyTransition m t = .ok (.applied, next)) : ValidMeta next := by
  cases t with
  | humanMessage => exact validMeta_humanMessage h happly
  | claim => exact validMeta_claim h happly
  | setTitle => exact validMeta_setTitle h happly
  | setSummary => exact validMeta_setSummary h happly
  | agentReply => exact validMeta_agentReply h happly
  | markError => exact validMeta_markError h happly
  | archive => exact validMeta_archive h happly
  | unarchive => exact validMeta_unarchive h happly

end Steps

section Preservation

variable {m next : QuickSessionMeta} {t : QuickSessionTransition}

/-- Fields that no transition writes, and the ones every transition moves forward. -/
structure Continues (m next : QuickSessionMeta) : Prop where
  id : next.id = m.id
  agentId : next.agentId = m.agentId
  createdBy : next.createdBy = m.createdBy
  createdAt : next.createdAt = m.createdAt
  revision : next.revision = m.revision + 1
  human : NotBelow m.lastHumanLine next.lastHumanLine

theorem leaveError_fixed (m : QuickSessionMeta) : (leaveError m).id = m.id ∧
    (leaveError m).agentId = m.agentId ∧ (leaveError m).createdBy = m.createdBy ∧
      (leaveError m).createdAt = m.createdAt := by
  rw [leaveError]
  split <;> exact ⟨rfl, rfl, rfl, rfl⟩

theorem continues_applied (happly : applyTransition m t = .ok (.applied, next)) :
    Continues m next := by
  cases t with
  | humanMessage =>
    obtain ⟨-, -, -, hnewer, -, rfl⟩ := applyHumanMessage_applied happly
    obtain ⟨hid, hagent, hcreator, hat⟩ := leaveError_fixed m
    exact ⟨hid, hagent, hcreator, hat, rfl, fun old hold => ⟨_, rfl, Nat.le_of_lt (hnewer old hold)⟩⟩
  | claim =>
    obtain ⟨-, -, -, -, -, -, -, rfl⟩ := applyClaim_applied happly
    exact ⟨rfl, rfl, rfl, rfl, rfl, NotBelow.refl _⟩
  | setTitle =>
    obtain ⟨-, -, -, -, -, rfl⟩ := applySetTitle_applied happly
    exact ⟨rfl, rfl, rfl, rfl, rfl, NotBelow.refl _⟩
  | setSummary =>
    obtain ⟨-, -, -, -, -, rfl⟩ := applySetSummary_applied happly
    exact ⟨rfl, rfl, rfl, rfl, rfl, NotBelow.refl _⟩
  | agentReply =>
    obtain ⟨-, -, -, -, -, -, -, -, rfl⟩ := applyAgentReply_applied happly
    exact ⟨rfl, rfl, rfl, rfl, rfl, NotBelow.refl _⟩
  | markError =>
    obtain ⟨-, -, -, -, -, -, claimed, -, rfl⟩ := applyMarkError_applied happly
    exact ⟨rfl, rfl, rfl, rfl, rfl, NotBelow.refl _⟩
  | archive =>
    obtain ⟨-, -, -, rfl⟩ := applyArchive_applied happly
    exact ⟨rfl, rfl, rfl, rfl, rfl, NotBelow.refl _⟩
  | unarchive =>
    obtain ⟨-, -, -, rfl⟩ := applyUnarchive_applied happly
    exact ⟨rfl, rfl, rfl, rfl, rfl, NotBelow.refl _⟩

/-- Only an agent's reply writes the completion. -/
theorem completion_applied (happly : applyTransition m t = .ok (.applied, next)) :
    (next.lastCompletedAttemptId = m.lastCompletedAttemptId ∧
      next.lastCompletedInputLine = m.lastCompletedInputLine) ∨
    ∃ actor input attemptId output preview now,
      t = .agentReply actor input attemptId output preview now := by
  cases t with
  | humanMessage =>
    obtain ⟨-, -, -, -, -, rfl⟩ := applyHumanMessage_applied happly
    rw [leaveError]
    split <;> exact Or.inl ⟨rfl, rfl⟩
  | claim =>
    obtain ⟨-, -, -, -, -, -, -, rfl⟩ := applyClaim_applied happly
    exact Or.inl ⟨rfl, rfl⟩
  | setTitle =>
    obtain ⟨-, -, -, -, -, rfl⟩ := applySetTitle_applied happly
    exact Or.inl ⟨rfl, rfl⟩
  | setSummary =>
    obtain ⟨-, -, -, -, -, rfl⟩ := applySetSummary_applied happly
    exact Or.inl ⟨rfl, rfl⟩
  | agentReply actor input attemptId output preview now =>
    exact Or.inr ⟨actor, input, attemptId, output, preview, now, rfl⟩
  | markError =>
    obtain ⟨-, -, -, -, -, -, claimed, -, rfl⟩ := applyMarkError_applied happly
    exact Or.inl ⟨rfl, rfl⟩
  | archive =>
    obtain ⟨-, -, -, rfl⟩ := applyArchive_applied happly
    exact Or.inl ⟨rfl, rfl⟩
  | unarchive =>
    obtain ⟨-, -, -, rfl⟩ := applyUnarchive_applied happly
    exact Or.inl ⟨rfl, rfl⟩

theorem agentReply_fresh {actor attemptId preview now : Text} {input output : Nat}
    (happly : applyAgentReply m actor input attemptId output preview now = .ok (.applied, next)) :
    m.lastCompletedAttemptId ≠ some attemptId := by
  intro hdone
  rw [applyAgentReply, if_pos hdone, then_eq_ok_iff, then_eq_ok_iff] at happly
  simp at happly

/-- The reply to the claim that runs, with everything the code asks of it. -/
theorem agentReply_applies {attemptId : Text} {input output : Nat} (preview now : Text)
    (h : ValidMeta m) (hrunning : m.status = .running) (hattempt : m.attemptId = some attemptId)
    (hinput : m.processingInputLine = some input) (htitle : m.title ≠ none) (hlt : input < output)
    (hrev : m.revision + 1 < u64Bound) (hfresh : m.lastCompletedAttemptId ≠ some attemptId) :
    ∃ next, applyTransition m (.agentReply m.agentId input attemptId output preview now) =
      .ok (.applied, next) := by
  obtain ⟨p, s, a, -, -, -, ha, hvalid⟩ := h.running hrunning
  have heq : a = attemptId := by simpa [ha] using hattempt
  subst heq
  simp only [applyTransition, applyAgentReply, then_eq_ok_iff, if_neg hfresh, requireAgent,
    refuse_eq_ok_iff, validateAttempt_ok_iff, requireAttempt_eq_ok_iff, finish_eq_ok_iff]
  exact ⟨_, by simp, hvalid, ⟨hvalid, hrunning, ha⟩, by simp [hinput], htitle,
    Nat.not_le_of_lt hlt, hrev, trivial, rfl⟩

/-- The checked transition applies what the bare one applies to valid metadata. -/
theorem inPlace_applied (h : ValidMeta m) (happly : applyTransition m t = .ok (.applied, next)) :
    inPlace m t = (.ok .applied, next) := by
  have hchecked : applyQuickSessionTransition m t = .ok (.applied, next) := by
    rw [applyQuickSessionTransition, then_eq_ok_iff, validate_ok_iff, bind_eq_ok_iff]
    refine ⟨h, (.applied, next), happly, ?_⟩
    simp only
    rw [if_pos trivial, then_eq_ok_iff, validate_ok_iff]
    exact ⟨validMeta_applied h happly, rfl⟩
  rw [inPlace, hchecked]

/-- Whatever does not apply leaves the metadata alone. -/
theorem inPlace_unchanged (hnot : (inPlace m t).1 ≠ .ok .applied) : (inPlace m t).2 = m := by
  rw [inPlace] at hnot ⊢
  cases hresult : applyQuickSessionTransition m t with
  | error e => rfl
  | ok result =>
    obtain ⟨outcome, next⟩ := result
    rw [hresult] at hnot
    rw [applyQuickSessionTransition, then_eq_ok_iff, bind_eq_ok_iff] at hresult
    obtain ⟨-, ⟨o, n⟩, -, hrest⟩ := hresult
    simp only at hrest
    by_cases ho : o = .applied
    · rw [if_pos ho, then_eq_ok_iff] at hrest
      obtain ⟨-, heq⟩ := hrest
      cases heq
      exact absurd (congrArg Except.ok ho) hnot
    · rw [if_neg ho] at hrest
      cases hrest
      rfl

/-- What a transition owes to valid metadata: the result is valid and continues it, the two line
numbers do not go back, and nothing is written unless the transition applies. -/
def Preserves (m : QuickSessionMeta) (t : QuickSessionTransition) : Prop :=
  (∀ next, applyTransition m t = .ok (.applied, next) →
    validateQuickSessionMeta next = .ok () ∧ Continues m next ∧
      NotBelow m.lastCompletedInputLine next.lastCompletedInputLine) ∧
  ((inPlace m t).1 ≠ .ok .applied → (inPlace m t).2 = m)

/-- A session that runs on a line below the one it has completed last, and can still be
answered. -/
def Overtaken (m : QuickSessionMeta) : Prop :=
  m.status = .running ∧ m.title ≠ none ∧ m.attemptId ≠ m.lastCompletedAttemptId ∧
    m.revision + 1 < u64Bound ∧ ∃ input done, m.processingInputLine = some input ∧
      m.lastCompletedInputLine = some done ∧ input < done

theorem completed_notBelow (hlive : ¬ Overtaken m)
    (happly : applyTransition m t = .ok (.applied, next)) :
    NotBelow m.lastCompletedInputLine next.lastCompletedInputLine := by
  rcases completion_applied happly with ⟨-, hsame⟩ | ⟨actor, input, a, o, preview, now, rfl⟩
  · rw [hsame]
    exact NotBelow.refl _
  · obtain ⟨-, -, hrunning, hattempt, hinput, htitle, -, hrev, rfl⟩ :=
      applyAgentReply_applied happly
    have hfresh := agentReply_fresh happly
    intro done hdone
    refine ⟨input, rfl, Nat.le_of_not_lt fun hlt => hlive ?_⟩
    exact ⟨hrunning, htitle, by rwa [hattempt, ne_comm], hrev, input, done, hinput, hdone, hlt⟩

/-- Transitions preserve validity, and the completed line never goes back exactly if no overtaken
claim can be answered. -/
theorem transitions_preserve_iff (m : QuickSessionMeta) (hm : validateQuickSessionMeta m = .ok ()) :
    (∀ t, Preserves m t) ↔ ¬ Overtaken m := by
  have h := validate_ok_iff.mp hm
  constructor
  · rintro hall ⟨hrunning, htitle, hattempt, hrev, input, done, hinput, hdone, hlt⟩
    obtain ⟨-, -, a, -, -, -, ha, -⟩ := h.running hrunning
    have hfresh : m.lastCompletedAttemptId ≠ some a := by rwa [← ha, ne_comm]
    obtain ⟨next, happly⟩ := agentReply_applies [] [] h hrunning ha hinput htitle
      (Nat.lt_succ_self input) hrev hfresh
    obtain ⟨-, -, hnot⟩ := (hall _).1 next happly
    obtain ⟨-, -, -, -, -, -, -, -, rfl⟩ := applyAgentReply_applied happly
    obtain ⟨y, hy, hle⟩ := hnot done hdone
    have heq : input = y := by simpa using hy
    omega
  · intro hlive t
    refine ⟨fun next happly => ⟨?_, continues_applied happly, completed_notBelow hlive happly⟩,
      inPlace_unchanged⟩
    exact validate_ok_iff.mpr (validMeta_applied h happly)

/-- A session that is claimed on line 2 although line 4 is already answered, as a merge of two
clones' metadata leaves it. -/
def overtakenSample : QuickSessionMeta :=
  { QuickSessionMeta.new "qs-00000000000000000000000000".toList "agent".toList "alice".toList [] with
    title := some "t".toList
    status := .running
    processingInputLine := some 2
    processingStartedAt := some []
    attemptId := some "qa-00000000000000000000000001".toList
    lastCompletedAttemptId := some "qa-00000000000000000000000000".toList
    lastCompletedInputLine := some 4
    lastCompletedLine := some 5
    lastHumanLine := some 4 }

theorem transitions_preserve_new :
    validateQuickSessionMeta (QuickSessionMeta.new "qs-00000000000000000000000000".toList
      "agent".toList "alice".toList []) = .ok () ∧
    ∀ t, Preserves (QuickSessionMeta.new "qs-00000000000000000000000000".toList
      "agent".toList "alice".toList []) t := by
  have hvalid : validateQuickSessionMeta (QuickSessionMeta.new
      "qs-00000000000000000000000000".toList "agent".toList "alice".toList []) = .ok () := by
    decide +kernel
  refine ⟨hvalid, (transitions_preserve_iff _ hvalid).mpr ?_⟩
  rintro ⟨hrunning, -⟩
  cases hrunning

theorem reply_lowers_completed_line :
    validateQuickSessionMeta overtakenSample = .ok () ∧ ¬ ∀ t, Preserves overtakenSample t := by
  have hvalid : validateQuickSessionMeta overtakenSample = .ok () := by decide +kernel
  refine ⟨hvalid, fun hall => ?_⟩
  let reply : QuickSessionTransition :=
    .agentReply "agent".toList 2 "qa-00000000000000000000000001".toList 6 [] []
  have happly : ∃ next, applyTransition overtakenSample reply = .ok (.applied, next) ∧
      next.lastCompletedInputLine = some 2 := by
    refine ⟨_, rfl, rfl⟩
  obtain ⟨next, happly, hline⟩ := happly
  obtain ⟨-, -, hnot⟩ := (hall reply).1 next happly
  obtain ⟨y, hy, hle⟩ := hnot 4 rfl
  rw [hline] at hy
  cases hy
  omega

end Preservation

section Delivery

variable {m next : QuickSessionMeta} {t : QuickSessionTransition}

/-- One call on the stored metadata. -/
def perform (m : QuickSessionMeta) (t : QuickSessionTransition) : Option QuickSessionMeta :=
  some (inPlace m t).2

theorem applied_cases (h : (inPlace m t).1 = .ok .applied) :
    ValidMeta m ∧ applyTransition m t = .ok (.applied, (inPlace m t).2) ∧
      ValidMeta (inPlace m t).2 := by
  rw [inPlace] at h ⊢
  cases hresult : applyQuickSessionTransition m t with
  | error e => simp [hresult] at h
  | ok result =>
    obtain ⟨outcome, after⟩ := result
    rw [hresult] at h
    have hout : outcome = .applied := Except.ok.inj h
    subst hout
    exact applyQuickSessionTransition_applied hresult

/-- What a call can do: apply a transition to valid metadata, or nothing. -/
theorem perform_cases (h : perform m t = some next) :
    (ValidMeta m ∧ applyTransition m t = .ok (.applied, next) ∧ ValidMeta next) ∨ next = m := by
  have hnext : (inPlace m t).2 = next := Option.some.inj h
  subst hnext
  by_cases happlied : (inPlace m t).1 = .ok .applied
  · exact Or.inl (applied_cases happlied)
  · exact Or.inr (inPlace_unchanged happlied)

/-- A session runs after a transition if it ran before it with the same claim, or is claimed. -/
theorem running_applied (hm : ValidMeta m) (happly : applyTransition m t = .ok (.applied, next))
    (hrunning : next.status = .running) :
    (m.status = .running ∧ next.attemptId = m.attemptId) ∨
      ∃ actor line attemptId now, t = .claim actor line attemptId now ∧
        next.attemptId = some attemptId := by
  cases t with
  | humanMessage =>
    obtain ⟨-, -, -, -, -, rfl⟩ := applyHumanMessage_applied happly
    exact Or.inl ⟨leaveError_running hrunning, leaveError_attemptId m⟩
  | claim actor line attemptId now =>
    obtain ⟨-, -, -, -, -, -, -, rfl⟩ := applyClaim_applied happly
    exact Or.inr ⟨actor, line, attemptId, now, rfl, rfl⟩
  | setTitle =>
    obtain ⟨-, hs, -, -, -, rfl⟩ := applySetTitle_applied happly
    exact Or.inl ⟨hs, rfl⟩
  | setSummary =>
    obtain ⟨-, hs, -, -, -, rfl⟩ := applySetSummary_applied happly
    exact Or.inl ⟨hs, rfl⟩
  | agentReply =>
    obtain ⟨-, -, -, -, -, -, -, -, rfl⟩ := applyAgentReply_applied happly
    cases hrunning
  | markError =>
    obtain ⟨-, -, -, -, -, -, claimed, -, rfl⟩ := applyMarkError_applied happly
    simp only at hrunning
    split at hrunning
    · exact absurd hrunning (titleDerivedStatus_ne m).1
    · cases hrunning
  | archive =>
    obtain ⟨-, -, -, rfl⟩ := applyArchive_applied happly
    cases hrunning
  | unarchive =>
    obtain ⟨-, harch, -, rfl⟩ := applyUnarchive_applied happly
    rcases restored_cases hm harch with ⟨s, hfrom, hs, -⟩ | hfrom
    · simp [hfrom, hs] at hrunning
    · simp [hfrom] at hrunning

/-- A claim takes an attempt id other than that of the last completed attempt. -/
def FreshClaim (m : QuickSessionMeta) : QuickSessionTransition → Prop
  | .claim _ _ attemptId _ => m.lastCompletedAttemptId ≠ some attemptId
  | _ => True

instance decidableFreshClaim (m : QuickSessionMeta) :
    ∀ t, Decidable (FreshClaim m t)
  | .claim _ _ attemptId _ => inferInstanceAs (Decidable (m.lastCompletedAttemptId ≠ some attemptId))
  | .humanMessage .. => isTrue trivial
  | .setTitle .. => isTrue trivial
  | .setSummary .. => isTrue trivial
  | .agentReply .. => isTrue trivial
  | .markError .. => isTrue trivial
  | .archive .. => isTrue trivial
  | .unarchive .. => isTrue trivial

/-- No claim is applied. -/
def NoNewClaim (m : QuickSessionMeta) : QuickSessionTransition → Prop
  | .claim actor line attemptId now =>
    (inPlace m (.claim actor line attemptId now)).1 ≠ .ok .applied
  | _ => True

/-- The claim that runs is not that of the last completed attempt. -/
def OpenClaim (m : QuickSessionMeta) : Prop :=
  m.status = .running → ValidMeta m ∧ m.attemptId ≠ m.lastCompletedAttemptId

theorem openClaim_step (hm : OpenClaim m) (hfresh : FreshClaim m t)
    (hstep : perform m t = some next) : OpenClaim next := by
  rcases perform_cases hstep with ⟨hvalid, happly, hnext⟩ | rfl
  · intro hrunning
    refine ⟨hnext, ?_⟩
    rcases completion_applied happly with ⟨hdone, -⟩ | ⟨actor, i, a, o, preview, now, rfl⟩
    · rw [hdone]
      rcases running_applied hvalid happly hrunning with
        ⟨hbefore, hsame⟩ | ⟨actor, line, attemptId, now, rfl, hattempt⟩
      · rw [hsame]
        exact (hm hbefore).2
      · rw [hattempt]
        exact hfresh.symm
    · obtain ⟨-, -, -, -, -, -, -, -, rfl⟩ := applyAgentReply_applied happly
      cases hrunning
  · exact hm

theorem not_running_step (hm : m.status ≠ .running) (hnone : NoNewClaim m t)
    (hstep : perform m t = some next) : next.status ≠ .running := by
  rcases perform_cases hstep with ⟨hvalid, happly, -⟩ | rfl
  · intro hrunning
    rcases running_applied hvalid happly hrunning with
      ⟨hbefore, -⟩ | ⟨actor, line, attemptId, now, rfl, -⟩
    · exact hm hbefore
    · exact hnone (congrArg Prod.fst (inPlace_applied hvalid happly))
  · exact hm

theorem reply_not_applied (hm : m.status ≠ .running) (actor attemptId preview now : Text)
    (input output : Nat) :
    (inPlace m (.agentReply actor input attemptId output preview now)).1 ≠ .ok .applied := by
  intro happlied
  obtain ⟨-, happly, -⟩ := applied_cases happlied
  exact hm (applyAgentReply_applied happly).2.2.1

/-- The reply to the claim that runs applies, and no reply applies after it before the next
claim. -/
def AnsweredOnce (m : QuickSessionMeta) : Prop :=
  ∀ input output attemptId preview now, m.status = .running → m.attemptId = some attemptId →
    m.processingInputLine = some input → m.title ≠ none → input < output →
    ∃ next, inPlace m (.agentReply m.agentId input attemptId output preview now) =
        (.ok .applied, next) ∧
      ∀ later after, run perform next later = some after → Along perform NoNewClaim next later →
        ∀ actor i a o p n, (inPlace after (.agentReply actor i a o p n)).1 ≠ .ok .applied

theorem claim_answered_once (id agentId createdBy createdAt : Text)
    (ts : List QuickSessionTransition) (m : QuickSessionMeta)
    (hrun : run perform (QuickSessionMeta.new id agentId createdBy createdAt) ts = some m)
    (hfresh : Along perform FreshClaim (QuickSessionMeta.new id agentId createdBy createdAt) ts)
    (hrev : m.revision + 1 < u64Bound) : AnsweredOnce m := by
  have hinv : OpenClaim m := by
    refine run_invariant (fun _ _ _ => openClaim_step) hrun hfresh ?_
    intro hrunning
    cases hrunning
  intro input output attemptId preview now hrunning hattempt hinput htitle hlt
  obtain ⟨hvalid, hopen⟩ := hinv hrunning
  rw [hattempt] at hopen
  obtain ⟨next, happly⟩ := agentReply_applies preview now hvalid hrunning hattempt hinput htitle
    hlt hrev hopen.symm
  refine ⟨next, inPlace_applied hvalid happly, fun later after hlater hnone => ?_⟩
  have hidle : next.status ≠ .running := by
    obtain ⟨-, -, -, -, -, -, -, -, rfl⟩ := applyAgentReply_applied happly
    simp
  -- without a new claim the session stays idle, and only a running session is answered
  have hafter : after.status ≠ .running :=
    run_invariant (fun _ _ _ => not_running_step) hlater hnone hidle
  exact fun actor i a o p n => reply_not_applied hafter actor a p n i o

def sampleSession : QuickSessionMeta :=
  QuickSessionMeta.new "qs-00000000000000000000000000".toList "agent".toList "alice".toList []

def sampleAttempt (c : Char) : Text := "qa-0000000000000000000000000".toList ++ [c]

/-- The first question is answered and the second one claimed, under the given attempt id. -/
def sampleTurns (second : Text) : List QuickSessionTransition :=
  [.humanMessage "alice".toList 1 none "q".toList [],
    .claim "agent".toList 1 (sampleAttempt 'A') [],
    .setTitle "agent".toList (sampleAttempt 'A') "t".toList [],
    .agentReply "agent".toList 1 (sampleAttempt 'A') 2 "r".toList [],
    .humanMessage "alice".toList 3 none "q".toList [],
    .claim "agent".toList 3 second []]

def sampleClaimed (second : Text) : QuickSessionMeta :=
  (run perform sampleSession (sampleTurns second)).getD sampleSession

theorem claim_answered_once_second :
    run perform sampleSession (sampleTurns (sampleAttempt 'B')) =
        some (sampleClaimed (sampleAttempt 'B')) ∧
      (sampleClaimed (sampleAttempt 'B')).status = .running ∧
      AnsweredOnce (sampleClaimed (sampleAttempt 'B')) := by
  have hevaluated : run perform sampleSession (sampleTurns (sampleAttempt 'B')) =
        some (sampleClaimed (sampleAttempt 'B')) ∧
      (sampleClaimed (sampleAttempt 'B')).status = .running ∧
      Along perform FreshClaim sampleSession (sampleTurns (sampleAttempt 'B')) ∧
      (sampleClaimed (sampleAttempt 'B')).revision + 1 < u64Bound := by
    decide +kernel
  obtain ⟨hrun, hrunning, hfresh, hrev⟩ := hevaluated
  exact ⟨hrun, hrunning, claim_answered_once _ _ _ _ _ _ hrun hfresh hrev⟩

/-- The second claim reuses the attempt id of the first one: its reply is answered as a duplicate
of the first reply. -/
theorem reply_swallowed :
    run perform sampleSession (sampleTurns (sampleAttempt 'A')) =
        some (sampleClaimed (sampleAttempt 'A')) ∧
      (sampleClaimed (sampleAttempt 'A')).revision + 1 < u64Bound ∧
      ¬ AnsweredOnce (sampleClaimed (sampleAttempt 'A')) := by
  have hevaluated : (run perform sampleSession (sampleTurns (sampleAttempt 'A')) =
        some (sampleClaimed (sampleAttempt 'A')) ∧
      (sampleClaimed (sampleAttempt 'A')).revision + 1 < u64Bound) ∧
      ((sampleClaimed (sampleAttempt 'A')).status = .running ∧
        (sampleClaimed (sampleAttempt 'A')).attemptId = some (sampleAttempt 'A') ∧
        (sampleClaimed (sampleAttempt 'A')).processingInputLine = some 3 ∧
        (sampleClaimed (sampleAttempt 'A')).title ≠ none) ∧
      (inPlace (sampleClaimed (sampleAttempt 'A')) (.agentReply
        (sampleClaimed (sampleAttempt 'A')).agentId 3 (sampleAttempt 'A') 4 [] [])).1 =
          .ok (.duplicate (some 2)) := by
    decide +kernel
  obtain ⟨⟨hrun, hrev⟩, ⟨hrunning, hattempt, hinput, htitle⟩, hduplicate⟩ := hevaluated
  refine ⟨hrun, hrev, fun honce => ?_⟩
  obtain ⟨next, happly, -⟩ := honce 3 4 (sampleAttempt 'A') [] [] hrunning hattempt hinput htitle
    (by decide)
  rw [happly] at hduplicate
  cases hduplicate

end Delivery

section Waiting

variable {m next : QuickSessionMeta} {t : QuickSessionTransition}

/-- Metadata that has seen a question is valid. -/
def Sound (m : QuickSessionMeta) : Prop := m.lastHumanLine ≠ none → ValidMeta m

theorem sound_step (hm : Sound m) (hstep : perform m t = some next) : Sound next := by
  rcases perform_cases hstep with ⟨-, -, hnext⟩ | rfl
  · exact fun _ => hnext
  · exact hm

/-- Whether a call ends in an error. -/
def refused (m : QuickSessionMeta) (t : QuickSessionTransition) : Prop :=
  ∃ e, (inPlace m t).1 = .error e

/-- The ways a question that has no answer can stand. -/
inductive Fate where
  | archived
  | running
  | failed
  | claimable
  deriving DecidableEq

/-- The calls of attempts other than `attemptId` change nothing; the reply of the last completed
attempt is answered as a duplicate, all others fail. -/
def OthersRefused (m : QuickSessionMeta) (attemptId : Text) : Prop :=
  ∀ actor other text now input output, other ≠ attemptId →
    refused m (.setTitle actor other text now) ∧ refused m (.setSummary actor other text now) ∧
    refused m (.markError actor other text now) ∧
    (refused m (.agentReply actor input other output text now) ∨
      (m.lastCompletedAttemptId = some other ∧
        inPlace m (.agentReply actor input other output text now) =
          (.ok (.duplicate m.lastCompletedLine), m)))

/-- The question on the line can be claimed by the agent under any well-formed attempt id. -/
def ClaimApplies (m : QuickSessionMeta) (line : Nat) : Prop :=
  ∀ attemptId now, validateQuickSessionAttemptId attemptId = .ok () →
    (inPlace m (.claim m.agentId line attemptId now)).1 = .ok .applied

def Fate.Holds (m : QuickSessionMeta) (line : Nat) : Fate → Prop
  | .archived => m.status = .archived
  | .running => m.status = .running ∧ ∃ input attemptId, m.processingInputLine = some input ∧
      input ≤ line ∧ m.attemptId = some attemptId ∧ OthersRefused m attemptId
  | .failed => m.status = .error
  | .claimable => (m.status = .needsTitle ∨ m.status = .active) ∧ ClaimApplies m line

theorem claim_applies {line : Nat} (hm : ValidMeta m) (hhuman : m.lastHumanLine = some line)
    (hdone : ∀ done, m.lastCompletedInputLine = some done → done < line)
    (hstatus : m.status = .needsTitle ∨ m.status = .active) (hrev : m.revision + 1 < u64Bound) :
    ClaimApplies m line := by
  intro attemptId now hattempt
  have hidle : ¬ (m.status = .running ∧ m.processingInputLine = some line ∧
      m.attemptId = some attemptId) := by
    rintro ⟨hs, -⟩
    rcases hstatus with h | h <;> simp [h] at hs
  have hpos : line ≠ 0 := by
    rintro rfl
    exact hm.humanLine hhuman
  have happly : ∃ next, applyTransition m (.claim m.agentId line attemptId now) =
      .ok (.applied, next) := by
    simp only [applyTransition, applyClaim, then_eq_ok_iff, if_neg hidle, requireAgent,
      refuse_eq_ok_iff, checkSome_eq_ok_iff, finish_eq_ok_iff]
    refine ⟨_, by simp, hattempt, ?_, by simp [hhuman], hpos, ?_, hrev, trivial, rfl⟩
    · rcases hstatus with h | h <;> simp [h]
    · exact fun done hd => Nat.not_le_of_lt (hdone done hd)
  obtain ⟨next, happly⟩ := happly
  rw [inPlace_applied hm happly]

theorem refused_of_ne_ok (h : ∀ r, applyTransition m t ≠ .ok r) : refused m t := by
  have herror : ∃ e, applyQuickSessionTransition m t = .error e := by
    refine exists_error_of_ne_ok fun r hr => ?_
    rw [applyQuickSessionTransition, then_eq_ok_iff, bind_eq_ok_iff] at hr
    obtain ⟨-, result, hresult, -⟩ := hr
    exact h result hresult
  obtain ⟨e, he⟩ := herror
  exact ⟨e, by rw [inPlace, he]⟩

theorem inPlace_duplicate {line : Option Nat} (hm : ValidMeta m)
    (happly : applyTransition m t = .ok (.duplicate line, next)) :
    inPlace m t = (.ok (.duplicate line), m) := by
  have hchecked : applyQuickSessionTransition m t = .ok (.duplicate line, m) := by
    rw [applyQuickSessionTransition, then_eq_ok_iff, validate_ok_iff, bind_eq_ok_iff]
    exact ⟨hm, (.duplicate line, next), happly, rfl⟩
  rw [inPlace, hchecked]

theorem reply_of_completed {actor attemptId : Text} (hm : ValidMeta m)
    (hdone : m.lastCompletedAttemptId = some attemptId) (input output : Nat) (preview now : Text) :
    refused m (.agentReply actor input attemptId output preview now) ∨
      inPlace m (.agentReply actor input attemptId output preview now) =
        (.ok (.duplicate m.lastCompletedLine), m) := by
  by_cases hallowed : actor = m.agentId ∧ ValidAttempt attemptId
  · have happly : applyTransition m (.agentReply actor input attemptId output preview now) =
        .ok (.duplicate m.lastCompletedLine, m) := by
      simp only [applyTransition, applyAgentReply, if_pos hdone, then_eq_ok_iff, requireAgent,
        refuse_eq_ok_iff, validateAttempt_ok_iff]
      exact ⟨by simp [hallowed.1], hallowed.2, trivial⟩
    exact Or.inr (inPlace_duplicate hm happly)
  · refine Or.inl (refused_of_ne_ok fun r hr => hallowed ?_)
    simp only [applyTransition, applyAgentReply, then_eq_ok_iff, requireAgent, refuse_eq_ok_iff,
      validateAttempt_ok_iff] at hr
    exact ⟨by simpa using hr.1, hr.2.1⟩

theorem othersRefused {attemptId : Text} (hm : ValidMeta m) (hrunning : m.status = .running)
    (hattempt : m.attemptId = some attemptId) : OthersRefused m attemptId := by
  intro actor other text now input output hother
  have hstale : requireAttempt m other ≠ .ok () := by
    rw [Ne, requireAttempt_eq_ok_iff, hattempt]
    rintro ⟨-, -, heq⟩
    exact hother (Option.some.inj heq).symm
  refine ⟨refused_of_ne_ok fun r hr => ?_, refused_of_ne_ok fun r hr => ?_,
    refused_of_ne_ok fun r hr => ?_, ?_⟩
  · rw [applyTransition, applySetTitle, then_eq_ok_iff, then_eq_ok_iff] at hr
    exact hstale hr.2.1
  · rw [applyTransition, applySetSummary, then_eq_ok_iff, then_eq_ok_iff] at hr
    exact hstale hr.2.1
  · have hfailed : m.lastFailedAttemptId ≠ some other :=
      fun hf => (hm.failed other hf).2.2 hrunning
    rw [applyTransition, applyMarkError, if_neg hfailed, then_eq_ok_iff, then_eq_ok_iff,
      then_eq_ok_iff] at hr
    exact hstale hr.2.2.1
  · by_cases hdone : m.lastCompletedAttemptId = some other
    · rcases reply_of_completed hm hdone input output text now with hrefused | hduplicate
      · exact Or.inl hrefused
      · exact Or.inr ⟨hdone, hduplicate⟩
    · refine Or.inl (refused_of_ne_ok fun r hr => ?_)
      rw [applyTransition, applyAgentReply, if_neg hdone, then_eq_ok_iff, then_eq_ok_iff,
        then_eq_ok_iff] at hr
      exact hstale hr.2.2.1

theorem fate_holds {line : Nat} (hm : ValidMeta m) (hhuman : m.lastHumanLine = some line)
    (hdone : ∀ done, m.lastCompletedInputLine = some done → done < line)
    (hrev : m.revision + 1 < u64Bound) : ∃ fate, Fate.Holds m line fate := by
  cases hs : m.status with
  | needsTitle =>
    exact ⟨.claimable, Or.inl hs, claim_applies hm hhuman hdone (Or.inl hs) hrev⟩
  | active => exact ⟨.claimable, Or.inr hs, claim_applies hm hhuman hdone (Or.inr hs) hrev⟩
  | error => exact ⟨.failed, hs⟩
  | archived => exact ⟨.archived, hs⟩
  | running =>
    obtain ⟨input, -, attemptId, hinput, -, -, hattempt, -⟩ := hm.running hs
    obtain ⟨last, hlast, hle⟩ := hm.processing input hinput
    have heq : last = line := by simpa [hhuman] using hlast.symm
    subst heq
    exact ⟨.running, hs, input, attemptId, hinput, hle, hattempt, othersRefused hm hs hattempt⟩

theorem fate_unique {line : Nat} {f g : Fate} (hf : Fate.Holds m line f)
    (hg : Fate.Holds m line g) : f = g := by
  cases f <;> cases g <;> simp only [Fate.Holds] at hf hg ⊢ <;> grind

/-- A new question under a new request id brings a failed session back. -/
theorem question_reopens {line : Nat} {requestId : Option Text} (hm : ValidMeta m)
    (hfailed : m.status = .error) (hnewer : ∀ last, m.lastHumanLine = some last → last < line)
    (hline : line ≠ 0) (hrequest : requestId = none ∨ m.lastHumanRequestId ≠ requestId)
    (hrev : m.revision + 2 < u64Bound) (preview now : Text) :
    ∃ next, inPlace m (.humanMessage m.createdBy line requestId preview now) =
      (.ok .applied, next) ∧ Fate.Holds next line .claimable := by
  have hnew : ¬ (requestId.isSome ∧ m.lastHumanRequestId = requestId) := by
    rintro ⟨hsome, hsame⟩
    rcases hrequest with rfl | hne
    · cases hsome
    · exact hne hsame
  have happly : ∃ next, applyTransition m
      (.humanMessage m.createdBy line requestId preview now) = .ok (.applied, next) := by
    simp only [applyTransition, applyHumanMessage, then_eq_ok_iff, if_neg hnew, requireCreator,
      refuse_eq_ok_iff, checkSome_eq_ok_iff, finish_eq_ok_iff, leaveError_revision]
    exact ⟨_, by simp, by simp [hfailed], hline, fun last hl => Nat.not_le_of_lt (hnewer last hl),
      by omega, trivial, rfl⟩
  obtain ⟨next, happly⟩ := happly
  have hvalid := validMeta_applied hm happly
  have hcompleted := completion_applied happly
  obtain ⟨-, -, -, -, -, hnext⟩ := applyHumanMessage_applied happly
  have hstatus : next.status = .needsTitle ∨ next.status = .active := by
    have hderived : next.status = titleDerivedStatus m := by rw [hnext, leaveError, if_pos hfailed]
    rcases titleDerivedStatus_cases m with ⟨hs, -⟩ | ⟨hs, -⟩
    · exact Or.inr (hderived.trans hs)
    · exact Or.inl (hderived.trans hs)
  have hdone : ∀ done, next.lastCompletedInputLine = some done → done < line := by
    intro done hd
    have hsame : m.lastCompletedInputLine = some done := by
      rwa [hnext, leaveError_lastCompletedInputLine] at hd
    rcases hm.completion with ⟨-, hnone, -⟩ | ⟨a, i, o, -, hi, -, -, -, -, last, hlast, hle⟩
    · simp [hsame] at hnone
    · have hid : i = done := by simpa [hsame] using hi.symm
      exact Nat.lt_of_le_of_lt (hid ▸ hle) (hnewer last hlast)
  refine ⟨next, inPlace_applied hm happly, hstatus,
    claim_applies hvalid (by rw [hnext]) hdone hstatus ?_⟩
  rw [hnext]
  exact hrev

/-- In every reachable state the newest question without an answer has exactly one fate, and a
failed session is brought back by the next question. -/
theorem newest_question_not_stranded (id agentId createdBy createdAt : Text)
    (ts : List QuickSessionTransition) (m : QuickSessionMeta) (line : Nat)
    (hrun : run perform (QuickSessionMeta.new id agentId createdBy createdAt) ts = some m)
    (hhuman : m.lastHumanLine = some line)
    (hwaiting : ∀ done, m.lastCompletedInputLine = some done → done < line) :
    (m.revision + 1 < u64Bound → ∃! fate, Fate.Holds m line fate) ∧
    (m.status = .error → m.revision + 2 < u64Bound → ∀ later requestId preview now, line < later →
      (requestId = none ∨ m.lastHumanRequestId ≠ requestId) →
      ∃ next, inPlace m (.humanMessage m.createdBy later requestId preview now) =
        (.ok .applied, next) ∧ Fate.Holds next later .claimable) := by
  have hsound : Sound (QuickSessionMeta.new id agentId createdBy createdAt) → Sound m :=
    run_related (R := fun a b => Sound a → Sound b) (fun _ h => h)
      (fun _ _ _ hab hbc h => hbc (hab h)) (fun _ _ _ hstep h => sound_step h hstep) hrun
  have hvalid : ValidMeta m := hsound (fun hseen => absurd rfl hseen) (by simp [hhuman])
  constructor
  · intro hrev
    obtain ⟨fate, hholds⟩ := fate_holds hvalid hhuman hwaiting hrev
    exact ⟨fate, hholds, fun other hother => fate_unique hother hholds⟩
  · intro hfailed hrev later requestId preview now hlater hrequest
    refine question_reopens hvalid hfailed (fun last hlast => ?_) (by omega) hrequest hrev
      preview now
    have heq : last = line := by simpa [hhuman] using hlast.symm
    omega

/-- One question, claimed and failed. -/
def failedTurn : List QuickSessionTransition :=
  [.humanMessage "alice".toList 1 (some "r".toList) "q".toList [],
    .claim "agent".toList 1 (sampleAttempt 'A') [],
    .markError "agent".toList (sampleAttempt 'A') "timeout".toList []]

def sampleFailed : QuickSessionMeta := (run perform sampleSession failedTurn).getD sampleSession

theorem newest_question_not_stranded_failed :
    run perform sampleSession failedTurn = some sampleFailed ∧
      (∃! fate, Fate.Holds sampleFailed 1 fate) ∧
      ∃ next, inPlace sampleFailed (.humanMessage sampleFailed.createdBy 3 none [] []) =
        (.ok .applied, next) ∧ Fate.Holds next 3 .claimable := by
  have hevaluated : run perform sampleSession failedTurn = some sampleFailed ∧
      (sampleFailed.lastHumanLine = some 1 ∧ sampleFailed.lastCompletedInputLine = none) ∧
      sampleFailed.status = .error ∧ sampleFailed.revision + 2 < u64Bound := by
    decide +kernel
  obtain ⟨hrun, ⟨hhuman, hcompleted⟩, hfailed, hrev⟩ := hevaluated
  obtain ⟨hfate, hreopens⟩ := newest_question_not_stranded _ _ _ _ _ _ 1 hrun hhuman
    (fun done hdone => by rw [hcompleted] at hdone; cases hdone)
  exact ⟨hrun, hfate (by omega), hreopens hfailed hrev 3 none [] [] (by decide) (Or.inl rfl)⟩

/-- A question on a new line under the request id of the last one is a duplicate, and the session
stays in its error. -/
theorem repeated_request_stranded :
    run perform sampleSession failedTurn = some sampleFailed ∧
      sampleFailed.lastHumanLine = some 1 ∧ sampleFailed.lastCompletedInputLine = none ∧
      sampleFailed.status = .error ∧
      inPlace sampleFailed (.humanMessage "alice".toList 3 (some "r".toList) [] []) =
        (.ok (.duplicate (some 1)), sampleFailed) ∧
      ¬ Fate.Holds sampleFailed 3 .claimable := by
  have hevaluated : run perform sampleSession failedTurn = some sampleFailed ∧
      sampleFailed.lastHumanLine = some 1 ∧ sampleFailed.lastCompletedInputLine = none ∧
      sampleFailed.status = .error ∧
      inPlace sampleFailed (.humanMessage "alice".toList 3 (some "r".toList) [] []) =
        (.ok (.duplicate (some 1)), sampleFailed) := by
    decide +kernel
  obtain ⟨hrun, hhuman, hcompleted, herror, hduplicate⟩ := hevaluated
  refine ⟨hrun, hhuman, hcompleted, herror, hduplicate, fun hclaimable => ?_⟩
  rcases hclaimable.1 with hs | hs <;> simp [herror] at hs

end Waiting

end QuickSessionLife
