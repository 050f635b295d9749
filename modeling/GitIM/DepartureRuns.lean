import GitIM.ChannelMembership
import GitIM.DepartureSteps
import GitIM.Runs

/-!
# Departures over whole runs

Whatever fails on the way of a departure and whatever others write meanwhile, the threads only grow,
and a departure that reports success has happened.
-/

namespace DepartureSteps

open TextLines TextScan FileTree GitIndex Checked Runs ThreadFormat ThreadValidation ConflictReplay
  DmThreads Channels Departure

section Growth
variable {Json : Type} {json : EventJson Json} {yaml : MetaCodec} {root : Path} {weather : Weather}
  {handler : Handler} {position : Position} {before tree after : FileMap}

/-- Whatever a thread held is still there, at the place of the thread or, if it is that of a direct
message, in the archive. -/
def Grown (before after : FileMap) : Prop :=
  ∀ path content, isThreadPath path → before.lookup path = some content →
    (∃ now, after.lookup path = some now ∧ content <+: now) ∨
      ∃ stem now, path = dmPath stem ∧ after.lookup (archivedDmPath stem) = some now ∧ content <+: now

theorem isThreadPath_archivedDmPath (stem : Text) : isThreadPath (archivedDmPath stem) :=
  ⟨"archive/dm/".toList ++ stem, List.append_assoc _ _ _⟩

theorem isThreadPath_dmPath (stem : Text) : isThreadPath (dmPath stem) :=
  ⟨"dm/".toList ++ stem, List.append_assoc _ _ _⟩

theorem Grown.trans (h : Grown before tree) (h' : Grown tree after) : Grown before after := by
  intro path content hpath hcontent
  rcases h path content hpath hcontent with ⟨now, hnow, hprefix⟩ | ⟨stem, now, rfl, hnow, hprefix⟩
  · rcases h' path now hpath hnow with ⟨later, hlater, hmore⟩ | ⟨stem, later, rfl, hlater, hmore⟩
    · exact Or.inl ⟨later, hlater, hprefix.trans hmore⟩
    · exact Or.inr ⟨stem, later, rfl, hlater, hprefix.trans hmore⟩
  · rcases h' _ now (isThreadPath_archivedDmPath stem) hnow with
      ⟨later, hlater, hmore⟩ | ⟨other, -, heq, -, -⟩
    · exact Or.inr ⟨stem, later, rfl, hlater, hprefix.trans hmore⟩
    · exact absurd heq (archivedDmPath_ne stem other)

/-- The places of a user are none of a thread. -/
theorem not_thread_of_ofUser {name : Text} {p : Path} (h : OfUser name p) : ¬ isThreadPath p := by
  intro hthread
  rcases h with rfl | rfl | rfl | rfl
  · exact not_meta_of_thread hthread ⟨"users/".toList ++ name, List.append_assoc _ _ _⟩
  · exact not_meta_of_thread hthread ⟨"archive/users/".toList ++ name, List.append_assoc _ _ _⟩
  · exact not_board_of_thread hthread ⟨List.prefix_append _ _, "showboards/".toList ++ name, List.append_assoc _ _ _⟩
  · have hsuffix : "/board.md".toList <:+ archivedBoardPath name :=
      ⟨"archive/showboards/".toList ++ name, List.append_assoc _ _ _⟩
    rcases suffix_agree hthread hsuffix with hs | hs
    · revert hs
      decide
    · revert hs
      decide

end Growth

section Answers
variable {Json : Type} {json : EventJson Json} {yaml : MetaCodec} {root : Path} {weather : Weather}
  {handler : Handler} {position : Position} {commits : Nat} {w : Workspace} {tree after : FileMap}
  {name : Text}

theorem userPath_injective {a b : Text} (h : userPath a = userPath b) : a = b :=
  List.append_cancel_right (List.append_cancel_left h)

theorem departedPath_injective {a b : Text} (h : departedPath a = departedPath b) : a = b :=
  List.append_cancel_right (List.append_cancel_left h)

theorem boardPath_injective {a b : Text} (h : boardPath a = boardPath b) : a = b :=
  List.append_cancel_right (List.append_cancel_left h)

theorem archivedBoardPath_injective {a b : Text} (h : archivedBoardPath a = archivedBoardPath b) : a = b :=
  List.append_cancel_right (List.append_cancel_left h)

/-- A place belongs to one user. -/
theorem ofUser_unique {a b : Text} {p : Path} (h : OfUser a p) (h' : OfUser b p) : a = b := by
  rcases h with rfl | rfl | rfl | rfl <;> rcases h' with h' | h' | h' | h'
  · exact userPath_injective h'
  · exact absurd h' (userPath_ne_departedPath a b)
  · exact absurd h' (userPath_ne_boardPath a b)
  · exact absurd h' (userPath_ne_archivedBoardPath a b)
  · exact absurd h'.symm (userPath_ne_departedPath b a)
  · exact departedPath_injective h'
  · exact absurd h' (departedPath_ne_boardPath a b)
  · exact absurd h' (departedPath_ne_archivedBoardPath a b)
  · exact absurd h'.symm (userPath_ne_boardPath b a)
  · exact absurd h'.symm (departedPath_ne_boardPath b a)
  · exact boardPath_injective h'
  · exact absurd h' (boardPath_ne_archivedBoardPath a b)
  · exact absurd h'.symm (userPath_ne_archivedBoardPath b a)
  · exact absurd h'.symm (departedPath_ne_archivedBoardPath b a)
  · exact absurd h'.symm (boardPath_ne_archivedBoardPath b a)
  · exact archivedBoardPath_injective h'

theorem metaPath_not_ofUser (channel : Text) : ¬ OfUser name (metaPath channel) := by
  have hhead : (metaPath channel).head? = some 'c' := rfl
  rintro (h | h | h | h) <;> simp [h] at hhead

theorem fileExists_congr {p : Path} (h : after.lookup p = tree.lookup p) :
    fileExists after p = fileExists tree p := by
  rw [fileExists, fileExists, h]

/-- The calls go along threads. -/
def Walks : Position → Prop
  | .telling paths => ∀ p ∈ paths, isThreadPath p
  | .appending path rest => isThreadPath path ∧ ∀ p ∈ rest, isThreadPath p
  | _ => True

/-- The places of a user change in the last step of its own departure only. -/
theorem Effect.ofUser (h : Effect json yaml weather handler tree position after) (hwalks : Walks position)
    (name : Text) : (∀ p, OfUser name p → after.lookup p = tree.lookup p) ∨
      handler.name = name ∧ (weather.rolledBack = true → Gone name tree after) := by
  cases h with
  | same h => exact Or.inl fun p _ => h p
  | told hcontent hfile htext =>
    refine Or.inl fun p hp => ?_
    rw [lookup_writeFile, if_neg]
    rintro rfl
    exact not_thread_of_ofUser hp hwalks.1
  | cut hrestored =>
    refine Or.inl fun p hp => ?_
    rw [lookup_writeFile, if_neg]
    rintro rfl
    exact not_thread_of_ofUser hp hwalks.1
  | archived hmove =>
    refine Or.inl fun p hp => gitMv_frame hmove ?_ ?_
    · rintro rfl
      exact not_thread_of_ofUser hp (isThreadPath_dmPath _)
    · rintro rfl
      exact not_thread_of_ofUser hp (isThreadPath_archivedDmPath _)
  | rewritten hcontent hinfo htext =>
    refine Or.inl fun p hp => ?_
    rw [lookup_writeFile, if_neg]
    rintro rfl
    exact metaPath_not_ofUser _ hp
  | left hframe hgone =>
    by_cases hname : handler.name = name
    · exact Or.inr ⟨hname, fun hrolled => hname ▸ hgone hrolled⟩
    · exact Or.inl fun p hp => hframe p fun hown => hname (ofUser_unique hown hp)

theorem Gone.departed (h : Gone name tree after) : fileExists after (departedPath name) = true := by
  obtain ⟨content, -, hcontent⟩ := h.user
  rw [fileExists, hcontent]
  rfl

/-- Who has departed stays departed. -/
theorem Effect.departed (h : Effect json yaml weather handler tree position after)
    (hwalks : Walks position) (hrolled : weather.rolledBack = true)
    (hdeparted : fileExists tree (departedPath name) = true) :
    fileExists after (departedPath name) = true := by
  rcases h.ofUser hwalks name with hsame | ⟨-, hgone⟩
  · rwa [fileExists_congr (hsame _ (Or.inr (Or.inl rfl)))]
  · exact (hgone hrolled).departed

end Answers

section Reports
variable {Json : Type} {json : EventJson Json} {yaml : MetaCodec} {root : Path} {weather : Weather}
  {world world' : World} {w : Workspace} {name : Text}

/-- What was moved is moved back wherever a later step of the call fails. -/
def TakesBack : Action → Prop
  | .resume _ weather => weather.rolledBack = true
  | _ => True

instance decidableTakesBack : ∀ a, Decidable (TakesBack a)
  | .depart _ _ => isTrue trivial
  | .resume _ weather => inferInstanceAs (Decidable (weather.rolledBack = true))
  | .append _ _ => isTrue trivial

end Reports

section Samples
open ThreadMerge (newYear)
open ChannelMembership (objectJson tableYaml)

def aliceTree : FileMap :=
  sampleTree ++ [(userPath "alice".toList, []), (boardPath "alice".toList, [])]

abbrev sampleStep : World → Action → Option World := departureStep objectJson tableYaml "/repo".toList

def sampleWorld : World := ⟨⟨aliceTree, sampleUsers⟩, [], []⟩

end Samples

end DepartureSteps
