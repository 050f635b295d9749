import GitIM.QuickSession
import Mathlib.Data.List.Sort

/-!
# The prompt of a quick session

The executor renders the newest entries of a session first, within a limit of characters
for the whole prompt. A part of the limit is held back until the entry that the agent has
claimed is rendered.
-/

namespace QuickSessionPrompt

open TextLines ThreadFormat QuickSession

section Model
variable {Json : Type}

structure QuickSessionDetail (Json : Type) where
  sessionMeta : QuickSessionMeta
  entries : List (ThreadEntry Json)
  archived : Bool

def transcriptEntryLimit : Nat := 24
def promptCharLimit : Nat := 12000
def claimedEntryReserve : Nat := 2048

def truncated : Text := " … [truncated]\n".toList

def number (n : Nat) : Text := Nat.toDigits 10 n

def resetNote (resetRequired : Bool) : Text :=
  if resetRequired then
    ("\nContext handoff required: update the durable summary with `gitim session summarize`, " ++
      "then emit [[RESET]].\n").toList
  else []

/-- The part of the prompt before the transcript. -/
def header (m : QuickSessionMeta) (attemptId : Text) (inputLine : Nat) (resetRequired : Bool) : Text :=
  let title := m.title.getD "(unset)".toList
  let summary := m.summary.getD "(none)".toList
  "Quick Session execution claim\nSession id: ".toList ++ m.id ++
    "\nRef: session:".toList ++ m.id ++
    "\nAttempt: ".toList ++ attemptId ++
    "\nInput line: L".toList ++ number inputLine ++
    "\nTitle: ".toList ++ title ++
    "\nSummary: ".toList ++ summary ++
    "\n".toList ++ resetNote resetRequired ++
    "\nCommands:\ngitim session title ".toList ++ m.id ++ " <title> --attempt-id ".toList ++
    attemptId ++
    "\ngitim session send ".toList ++ m.id ++ " --stdin --reply-to ".toList ++ number inputLine ++
    " --attempt-id ".toList ++ attemptId ++
    "\ngitim session summarize ".toList ++ m.id ++ " --stdin --attempt-id ".toList ++ attemptId ++
    "\n\nBounded transcript (newest first):\n".toList

def entryPrefix (m : Message) : Text :=
  'L' :: number m.lineNumber ++ " @".toList ++ m.author.name ++ ": ".toList

/-- What is not the body of a truncated entry. -/
def fixedLength (m : Message) : Nat := (entryPrefix m).length + truncated.length

def renderBoundedEntry (entry : ThreadEntry Json) (allowance : Nat) : Option Text :=
  match entry with
  | .event _ => none
  | .message m =>
    if (entryPrefix m).length + m.body.length + 1 ≤ allowance then
      some (entryPrefix m ++ m.body ++ ['\n'])
    else if allowance ≤ fixedLength m then none
    else some (entryPrefix m ++ m.body.take (allowance - fixedLength m) ++ truncated)

/-- The entries of the transcript, one after the other, with what is left of the limit. -/
def renderEntries (inputLine : Nat) (claimedIsPresent : Bool) :
    Bool → Nat → List (ThreadEntry Json) → Text
  | _, _, [] => []
  | claimedRendered, remaining, .event _ :: rest =>
    renderEntries inputLine claimedIsPresent claimedRendered remaining rest
  | claimedRendered, remaining, .message m :: rest =>
    let isClaimed := decide (m.lineNumber = inputLine)
    let reserve := if claimedIsPresent && !claimedRendered && !isClaimed then
      min claimedEntryReserve remaining else 0
    match renderBoundedEntry (.message m : ThreadEntry Json) (remaining - reserve) with
    | none => renderEntries inputLine claimedIsPresent claimedRendered remaining rest
    | some rendered =>
      let left := remaining - rendered.length
      rendered ++ if left = 0 then []
        else renderEntries inputLine claimedIsPresent (claimedRendered || isClaimed) left rest

def newestFirst (entries : List (ThreadEntry Json)) : List (ThreadEntry Json) :=
  entries.insertionSort fun a b => b.lineNumber ≤ a.lineNumber

def claimedEntry (entries : List (ThreadEntry Json)) (inputLine : Nat) :
    Option (ThreadEntry Json) :=
  (newestFirst entries).find? fun e => e.lineNumber = inputLine

/-- The newest entries, and the claimed one if it is not among them. -/
def selectEntries (entries : List (ThreadEntry Json)) (inputLine : Nat) : List (ThreadEntry Json) :=
  let selected := (newestFirst entries).take transcriptEntryLimit
  match claimedEntry entries inputLine with
  | none => selected
  | some claimed =>
    if selected.any fun e => e.lineNumber = inputLine then selected
    else newestFirst (selected ++ [claimed])

def buildQuickSessionPrompt (detail : QuickSessionDetail Json) (attemptId : Text) (inputLine : Nat)
    (resetRequired : Bool) : Text :=
  let prompt := header detail.sessionMeta attemptId inputLine resetRequired
  prompt ++ renderEntries inputLine (claimedEntry detail.entries inputLine).isSome false
    (promptCharLimit - prompt.length) (selectEntries detail.entries inputLine)

end Model

section Property
variable {Json : Type}

/-- The entry is rendered in full, or so much of its body as the reserve has room for. -/
def RenderedIn (m : Message) (prompt : Text) : Prop :=
  entryPrefix m ++ m.body ++ ['\n'] <:+: prompt ∨
    ∃ k, claimedEntryReserve - fixedLength m ≤ k ∧ k ≤ m.body.length ∧
      entryPrefix m ++ m.body.take k ++ truncated <:+: prompt

end Property

section Rendering
variable {Json : Type} {m : Message} {allowance : Nat} {rendered : Text}

theorem length_renderBoundedEntry {entry : ThreadEntry Json}
    (h : renderBoundedEntry entry allowance = some rendered) : rendered.length ≤ allowance := by
  cases entry with
  | event e => cases h
  | message m =>
    rw [renderBoundedEntry] at h
    split at h
    · rename_i hfits
      cases h
      rw [List.length_append, List.length_append, List.length_singleton]
      exact hfits
    · split at h
      · cases h
      · rename_i hroom
        cases h
        rw [fixedLength] at hroom
        rw [List.length_append, List.length_append, List.length_take, fixedLength]
        omega

theorem length_handler (a : Handler) : a.name.length ≤ 39 := by
  rcases a.valid with hvalid | hsystem
  · have hbytes : ∀ t : Text, t.length ≤ utf8Len t := by
      intro t
      induction t with
      | nil => exact Nat.le_refl _
      | cons c t ih =>
        have hpos : 0 < c.utf8Size := Char.utf8Size_pos c
        rw [utf8Len, List.map_cons, List.sum_cons, List.length_cons]
        rw [utf8Len] at ih
        omega
    rw [handlerError] at hvalid
    split at hvalid
    · cases hvalid
    · split at hvalid
      · cases hvalid
      · rename_i hshort
        exact Nat.le_trans (hbytes _) (Nat.le_of_not_lt hshort)
  · rw [hsystem]
    decide

/-- A line number of 64 bits has at most 20 digits, and a handler at most 39 characters. -/
theorem fixedLength_lt (h : m.lineNumber < 2 ^ 64) : fixedLength m < claimedEntryReserve := by
  have hdigits : (number m.lineNumber).length ≤ 20 := by
    rw [number]
    refine (Nat.length_toDigits_le_iff (by decide) (by decide)).mpr ?_
    exact Nat.lt_trans h (by decide)
  have hname := length_handler m.author
  have hmark : truncated.length = 15 := by decide
  rw [fixedLength, entryPrefix, hmark]
  simp only [List.cons_append, List.length_cons, List.length_append]
  have hat : " @".toList.length = 2 := by decide
  have hcolon : ": ".toList.length = 2 := by decide
  rw [hat, hcolon, claimedEntryReserve]
  omega

/-- With the reserve the claimed entry is rendered. -/
theorem renderBoundedEntry_reserve (hline : m.lineNumber < 2 ^ 64)
    (hallowance : claimedEntryReserve ≤ allowance) :
    ∃ rendered, renderBoundedEntry (.message m : ThreadEntry Json) allowance = some rendered ∧
      RenderedIn m rendered := by
  have hfixed := fixedLength_lt hline
  by_cases hfits : (entryPrefix m).length + m.body.length + 1 ≤ allowance
  · refine ⟨_, if_pos hfits, .inl (List.infix_refl _)⟩
  · have hroom : ¬ allowance ≤ fixedLength m := Nat.not_le_of_lt (Nat.lt_of_lt_of_le hfixed hallowance)
    refine ⟨_, (if_neg hfits).trans (if_neg hroom), .inr ⟨allowance - fixedLength m, ?_, ?_, ?_⟩⟩
    · omega
    · rw [fixedLength] at hroom ⊢
      omega
    · exact List.infix_refl _

theorem length_renderEntries (inputLine : Nat) (present claimed : Bool) (remaining : Nat)
    (entries : List (ThreadEntry Json)) :
    (renderEntries inputLine present claimed remaining entries).length ≤ remaining := by
  induction entries generalizing claimed remaining with
  | nil => exact Nat.zero_le _
  | cons entry rest ih =>
    cases entry with
    | event e => exact ih claimed remaining
    | message m =>
      rw [renderEntries]
      split
      · exact ih claimed remaining
      · rename_i rendered hrendered
        have hlength := length_renderBoundedEntry hrendered
        dsimp only
        rw [List.length_append]
        split
        · rw [List.length_nil]
          omega
        · have hrest := ih (claimed || decide (m.lineNumber = inputLine))
            (remaining - rendered.length)
          omega

theorem RenderedIn.of_part {part whole : Text} (h : RenderedIn m part) (hpart : part <:+: whole) :
    RenderedIn m whole := by
  rcases h with hfull | ⟨k, hk, hbody, hshort⟩
  · exact .inl (hfull.trans hpart)
  · exact .inr ⟨k, hk, hbody, hshort.trans hpart⟩

/-- As long as the claimed entry is not rendered the reserve is there for it. -/
theorem renderEntries_claimed {inputLine remaining : Nat} {entries : List (ThreadEntry Json)}
    (hline : m.lineNumber = inputLine) (hbits : inputLine < 2 ^ 64)
    (hmem : .message m ∈ entries)
    (honly : ∀ e ∈ entries, e.lineNumber = inputLine → e = .message m)
    (hreserve : claimedEntryReserve ≤ remaining) :
    RenderedIn m (renderEntries inputLine true false remaining entries) := by
  induction entries generalizing remaining with
  | nil => cases hmem
  | cons entry rest ih =>
    have hrest : ∀ e ∈ rest, e.lineNumber = inputLine → e = .message m :=
      fun e he => honly e (List.mem_cons_of_mem _ he)
    cases entry with
    | event e =>
      rcases List.mem_cons.mp hmem with hfalse | hmem
      · cases hfalse
      · exact ih hmem hrest hreserve
    | message m' =>
      rw [renderEntries]
      by_cases hclaimed : m'.lineNumber = inputLine
      · have heq := honly _ List.mem_cons_self hclaimed
        cases heq
        obtain ⟨rendered, hrendered, hin⟩ :=
          @renderBoundedEntry_reserve Json m remaining (hline ▸ hbits) hreserve
        simp only [hline, decide_true, Bool.not_true, Bool.and_false, Bool.false_eq_true, if_false,
          Nat.sub_zero, hrendered]
        exact hin.of_part (List.prefix_append _ _).isInfix
      · have hmem' : .message m ∈ rest := by
          rcases List.mem_cons.mp hmem with heq | hmem
          · cases heq
            exact absurd hline hclaimed
          · exact hmem
        simp only [hclaimed, decide_false, Bool.not_false, Bool.and_true, if_true,
          Nat.min_eq_left hreserve]
        split
        · exact ih hmem' hrest hreserve
        · rename_i rendered hrendered
          have hlength := length_renderBoundedEntry hrendered
          have hleft : claimedEntryReserve ≤ remaining - rendered.length := by omega
          have hpositive : ¬ remaining - rendered.length = 0 := by
            rw [claimedEntryReserve] at hleft
            omega
          rw [if_neg hpositive]
          exact (ih hmem' hrest hleft).of_part (List.suffix_append _ _).isInfix

theorem perm_newestFirst (entries : List (ThreadEntry Json)) : (newestFirst entries).Perm entries :=
  List.perm_insertionSort _ entries

/-- The only entry with a line is among the selected ones, and stays the only one. -/
theorem selectEntries_claimed {entries : List (ThreadEntry Json)} {inputLine : Nat}
    (hline : m.lineNumber = inputLine) (hmem : .message m ∈ entries)
    (honly : ∀ e ∈ entries, e.lineNumber = inputLine → e = .message m) :
    (claimedEntry entries inputLine).isSome = true ∧
      .message m ∈ selectEntries entries inputLine ∧
      ∀ e ∈ selectEntries entries inputLine, e.lineNumber = inputLine → e = .message m := by
  have hnewest : ∀ e ∈ newestFirst entries, e ∈ entries :=
    fun e he => (perm_newestFirst entries).subset he
  have htake : ∀ e ∈ (newestFirst entries).take transcriptEntryLimit, e ∈ entries :=
    fun e he => hnewest e (List.mem_of_mem_take he)
  cases hclaimed : claimedEntry entries inputLine with
  | none =>
    have hnot := List.find?_eq_none.mp hclaimed _ ((perm_newestFirst entries).symm.subset hmem)
    exact absurd (decide_eq_true hline) hnot
  | some claimed =>
    have hfound := List.find?_some hclaimed
    have heq : claimed = .message m :=
      honly claimed (hnewest claimed (List.mem_of_find?_eq_some hclaimed)) (of_decide_eq_true hfound)
    refine ⟨rfl, ?_⟩
    rw [selectEntries, hclaimed]
    dsimp only
    split
    · rename_i hany
      obtain ⟨e, he, hsame⟩ := List.any_eq_true.mp hany
      have hthis := honly e (htake e he) (of_decide_eq_true hsame)
      exact ⟨hthis ▸ he, fun e he => honly e (htake e he)⟩
    · have hperm := perm_newestFirst
        ((newestFirst entries).take transcriptEntryLimit ++ [claimed])
      constructor
      · exact hperm.symm.subset (List.mem_append_right _ (heq ▸ List.mem_cons_self))
      · intro e he
        rcases List.mem_append.mp (hperm.subset he) with hold | hnew
        · exact honly e (htake e hold)
        · intro _
          rw [List.mem_singleton.mp hnew, heq]

/-- The prompt keeps its limit and carries the claimed entry. -/
theorem buildQuickSessionPrompt_carries_claimed (detail : QuickSessionDetail Json) (attemptId : Text)
    (inputLine : Nat) (resetRequired : Bool) (m : Message) (hbits : inputLine < 2 ^ 64)
    (honly : detail.entries.filter (fun e => e.lineNumber = inputLine) = [.message m])
    (hheader : (header detail.sessionMeta attemptId inputLine resetRequired).length ≤
      promptCharLimit - claimedEntryReserve) :
    (buildQuickSessionPrompt detail attemptId inputLine resetRequired).length ≤ promptCharLimit ∧
      RenderedIn m (buildQuickSessionPrompt detail attemptId inputLine resetRequired) := by
  have hmem : .message m ∈ detail.entries.filter (fun e => e.lineNumber = inputLine) :=
    honly ▸ List.mem_cons_self
  obtain ⟨hentry, hline⟩ := List.mem_filter.mp hmem
  have hunique : ∀ e ∈ detail.entries, e.lineNumber = inputLine → e = .message m := by
    intro e he hsame
    have hin : e ∈ detail.entries.filter (fun e => e.lineNumber = inputLine) :=
      List.mem_filter.mpr ⟨he, decide_eq_true hsame⟩
    rw [honly] at hin
    exact List.mem_singleton.mp hin
  obtain ⟨hpresent, hselected, hrest⟩ :=
    selectEntries_claimed (of_decide_eq_true hline) hentry hunique
  rw [buildQuickSessionPrompt, hpresent]
  have hbound : claimedEntryReserve ≤ promptCharLimit := by decide
  constructor
  · rw [List.length_append]
    have hlength := length_renderEntries inputLine true false
      (promptCharLimit - (header detail.sessionMeta attemptId inputLine resetRequired).length)
      (selectEntries detail.entries inputLine)
    omega
  · have hreserve : claimedEntryReserve ≤ promptCharLimit -
        (header detail.sessionMeta attemptId inputLine resetRequired).length := by omega
    have hclaimed := renderEntries_claimed (of_decide_eq_true hline) hbits hselected hrest hreserve
    exact hclaimed.of_part (List.suffix_append _ _).isInfix

def sampleMeta : QuickSessionMeta :=
  QuickSessionMeta.new "qs-0".toList "bot".toList "alice".toList "now".toList

def sampleMessage (line : Nat) (body : Text) : Message := ⟨line, 0, Handler.system, [], body⟩

def sampleDetail : QuickSessionDetail Unit where
  sessionMeta := sampleMeta
  entries := [.message (sampleMessage 1 "hello".toList), .message (sampleMessage 2 "newer".toList)]
  archived := false

theorem buildQuickSessionPrompt_sampleDetail :
    (header sampleDetail.sessionMeta "qa-0".toList 1 false).length ≤
        promptCharLimit - claimedEntryReserve ∧
      RenderedIn (sampleMessage 1 "hello".toList)
        (buildQuickSessionPrompt sampleDetail "qa-0".toList 1 false) := by
  have hheader : (header sampleDetail.sessionMeta "qa-0".toList 1 false).length ≤
      promptCharLimit - claimedEntryReserve := by decide +kernel
  have honly : sampleDetail.entries.filter (fun e => e.lineNumber = 1) =
      [.message (sampleMessage 1 "hello".toList)] := by decide +kernel
  refine ⟨hheader, ?_⟩
  exact (buildQuickSessionPrompt_carries_claimed sampleDetail "qa-0".toList 1 false
    (sampleMessage 1 "hello".toList) (by decide) honly hheader).2

end Rendering

end QuickSessionPrompt
