import GitIM.ChannelMembership
import GitIM.Departure
import GitIM.Poll

/-!
# Private channels

Whether a channel stays private through joins, leaves and departures. A channel without
members is open to everyone, so the question is whether the list of members can run
empty. Members who leave by themselves are never the last ones; those who remove others
and those who depart can be.
-/

namespace ChannelPrivacy

open TextLines TextScan FileTree Checked Runs ThreadFormat ThreadMerge ConflictReplay DmThreads
  Channels TableCodec ChannelMembership Departure Poll

section System
variable {Json : Type} (json : EventJson Json) (yaml : MetaCodec)

inductive Action where
  | event (kind : EventKind) (channel : Text) (targets : List Text) (author : Text) (env : CallEnv)
  | depart (name : Text) (clock : Path → Text)

/-- A call that is accepted; what is refused does not take place. -/
def accept (w : Workspace) : Action → Option Workspace
  | .event kind channel targets author env =>
    match writeChannelEvent json yaml w.users w.tree kind channel targets author env with
    | (.ok (), tree) => some { w with tree := tree }
    | (.error _, _) => none
  | .depart name clock =>
    match departUser json yaml clock w name with
    | .ok after => some after
    | .error _ => none

/-- The users an action lets into a channel. -/
def joined (name : Text) : Action → List Text
  | .event .join channel targets author _ => if channel = name then affected author targets else []
  | _ => []

/-- The members of a channel, as far as its metadata can be read. -/
def membersOf (tree : FileMap) (name : Text) : List Text :=
  match readMeta yaml tree name with
  | .ok info => info.members
  | .error _ => []

/-- Members who remove others from the channel, and users who depart, leave a member behind. -/
def LeavesMember (name : Text) (w : Workspace) : Action → Prop
  | .event .leave channel targets _ _ =>
    channel = name → targets ≠ [] → ∃ m ∈ membersOf yaml w.tree name, m ∉ targets
  | .event .join _ _ _ _ => True
  | .depart handler _ => fileExists w.tree (departedPath handler) = false →
    ∃ m ∈ membersOf yaml w.tree name, m ≠ handler

instance decidableLeavesMember (name : Text) (w : Workspace) :
    ∀ a, Decidable (LeavesMember yaml name w a)
  | .event .leave channel targets _ _ => inferInstanceAs (Decidable (channel = name →
      targets ≠ [] → ∃ m ∈ membersOf yaml w.tree name, m ∉ targets))
  | .event .join _ _ _ _ => isTrue trivial
  | .depart handler _ => inferInstanceAs (Decidable (fileExists w.tree (departedPath handler) =
      false → ∃ m ∈ membersOf yaml w.tree name, m ≠ handler))

/-- The channel has members, and all of them are insiders. -/
def Guarded (name : Text) (insiders : List Text) (w : Workspace) : Prop :=
  ∃ info, readMeta yaml w.tree name = .ok info ∧ info.members ≠ [] ∧
    ∀ m ∈ info.members, m ∈ insiders

end System

section Preservation
variable {Json : Type} {json : EventJson Json} {yaml : MetaCodec} {name : Text}
  {insiders : List Text} {w w' : Workspace}

theorem membersOf_eq {tree : FileMap} {info : ChannelMeta} (h : readMeta yaml tree name = .ok info) :
    membersOf yaml tree name = info.members := by
  rw [membersOf, h]

/-- Removing members keeps the channel guarded if one of them stays. -/
theorem guarded_filter {info info' : ChannelMeta} {gone : Text → Prop} [DecidablePred gone]
    (h : ∀ m ∈ info.members, m ∈ insiders) (hstays : ∃ m ∈ info.members, ¬ gone m)
    (hinfo' : readMeta yaml w'.tree name = .ok info')
    (hmembers : info'.members = info.members.filter fun m => ¬ gone m) :
    Guarded yaml name insiders w' := by
  obtain ⟨m, hm, hstay⟩ := hstays
  refine ⟨info', hinfo', ?_, ?_⟩
  · exact List.ne_nil_of_mem (hmembers ▸ List.mem_filter.mpr ⟨hm, by simpa using hstay⟩)
  · intro m hm
    rw [hmembers] at hm
    exact h m (List.mem_filter.mp hm).1

theorem accept_event_guarded (hyaml : ∀ m, yaml.fromStr (yaml.toStr m) = some m)
    {kind : EventKind} {targets : List Text} {author : Text} {env : CallEnv}
    (h : Guarded yaml name insiders w)
    (hleaves : LeavesMember yaml name w (.event kind name targets author env))
    (hjoined : ∀ u ∈ joined name (.event kind name targets author env), u ∈ insiders)
    (hok : (writeChannelEvent json yaml w.users w.tree kind name targets author env).1 = .ok ())
    (htree : w'.tree = (writeChannelEvent json yaml w.users w.tree kind name targets author env).2) :
    Guarded yaml name insiders w' := by
  obtain ⟨info, hinfo, hne, hinside⟩ := h
  obtain ⟨info', hread, hrules, hafter⟩ := writeChannelEvent_meta hyaml hok
  rw [hinfo] at hread
  cases hread
  rw [← htree] at hafter
  cases kind with
  | join =>
    obtain ⟨first, hfirst⟩ := List.exists_mem_of_ne_nil _ hne
    have hkept : first ∈ updateMembers .join (affected author targets) info.members :=
      mem_updateMembers.mpr (Or.inl hfirst)
    refine ⟨_, hafter, List.ne_nil_of_mem hkept, ?_⟩
    intro m (hm : m ∈ updateMembers .join (affected author targets) info.members)
    rcases mem_updateMembers.mp hm with hm | hm
    · exact hinside m hm
    · exact hjoined m (by rw [joined, if_pos rfl]; exact hm)
  | leave =>
    have hstays : ∃ m ∈ info.members, m ∉ affected author targets := by
      by_cases htargets : targets = []
      · subst htargets
        obtain ⟨m, hm, hother⟩ := exists_other_of_leave hrules
        exact ⟨m, hm, by simpa [affected] using hother⟩
      · rw [affected, if_neg htargets, ← membersOf_eq hinfo]
        exact hleaves rfl htargets
    exact guarded_filter hinside hstays hafter rfl

theorem accept_guarded (hyaml : ∀ m, yaml.fromStr (yaml.toStr m) = some m) {a : Action}
    (h : Guarded yaml name insiders w) (hleaves : LeavesMember yaml name w a)
    (hjoined : ∀ u ∈ joined name a, u ∈ insiders) (haccept : accept json yaml w a = some w') :
    Guarded yaml name insiders w' := by
  cases a with
  | event kind channel targets author env =>
    rw [accept] at haccept
    split at haccept
    · rename_i after hwrite
      cases haccept
      by_cases hname : channel = name
      · subst hname
        exact accept_event_guarded hyaml h hleaves hjoined (by rw [hwrite]) (by rw [hwrite])
      · obtain ⟨info, hinfo, hmembers⟩ := h
        have hframe : (writeChannelEvent json yaml w.users w.tree kind channel targets author
            env).2.lookup (metaPath name) = w.tree.lookup (metaPath name) :=
          writeChannelEvent_frame (metaPath_ne_threadPath name channel)
            fun heq => hname (metaPath_injective heq).symm
        rw [hwrite] at hframe
        exact ⟨info, readMeta_ok_iff.mpr (hframe ▸ readMeta_ok_iff.mp hinfo), hmembers⟩
    · cases haccept
  | depart handler clock =>
    rw [accept] at haccept
    split at haccept
    · rename_i after hdepart
      cases haccept
      obtain ⟨info, hinfo, hne, hinside⟩ := h
      rcases departUser_meta hyaml hdepart hinfo with hsame | ⟨hactive, hwithout⟩
      · exact ⟨info, hsame, hne, hinside⟩
      · have hstays : ∃ m ∈ info.members, ¬ m = handler := membersOf_eq hinfo ▸ hleaves hactive
        exact guarded_filter hinside hstays hwithout rfl
    · cases haccept

end Preservation

section Privacy
variable {Json : Type} {json : EventJson Json} {yaml : MetaCodec} {name : Text}
  {insiders : List Text} {w : Workspace}

theorem guarded_created (hyaml : ∀ m, yaml.fromStr (yaml.toStr m) = some m) {users : List Text}
    {tree created : FileMap} {displayName introduction : Option Text} {author : Text}
    {invitees : List Text} {env : CallEnv}
    (hcreate : createChannel json yaml users tree name displayName introduction author invitees
      env = .ok created) (hinside : ∀ u ∈ author :: invitees, u ∈ insiders) :
    Guarded yaml name insiders ⟨created, users⟩ := by
  obtain ⟨handler, info, extra, -, hmembers, hadded, rfl⟩ := createChannel_ok hcreate
  refine ⟨info, readMeta_ok_iff.mpr ⟨_, by rw [lookup_writeFile,
    if_neg (metaPath_ne_threadPath name name), lookup_writeFile, if_pos rfl], hyaml info⟩, ?_, ?_⟩
  · rw [hmembers]
    exact List.cons_ne_nil author extra
  · intro m hm
    rw [hadded, mem_addMissing, List.mem_singleton] at hm
    exact hinside m (List.mem_cons.mpr hm)

/-- A guarded channel is hidden from everyone who is no insider. -/
theorem hidden_of_guarded {readers : Readers Json} {viewer : Viewer} {u : Text}
    (h : Guarded readers.channel name insiders w) (hu : u ∉ insiders)
    (huser : viewer.user = some u) : isMember readers w.tree viewer name = false := by
  obtain ⟨info, hinfo, hne, hinside⟩ := h
  obtain ⟨content, hcontent, hparse⟩ := readMeta_ok_iff.mp hinfo
  rw [isMember, hcontent, Option.bind_some, hparse]
  simp only [if_neg hne, huser, Option.any_some, decide_eq_false_iff_not]
  exact fun hmember => hu (hinside u hmember)

/-- A channel keeps its members, and no outsider is shown an entry of its thread, in every run of
accepted joins, leaves and departures in which those who remove others and those who depart leave
a member behind. -/
theorem channel_stays_private (json : EventJson Json) (readers : Readers Json) (users : List Text)
    (tree created : FileMap) (name : Text) (displayName introduction : Option Text) (author : Text)
    (invitees : List Text) (env : CallEnv) (actions : List Action) (w : Workspace)
    (hyaml : ∀ m, readers.channel.fromStr (readers.channel.toStr m) = some m)
    (hcreate : createChannel json readers.channel users tree name displayName introduction author
      invitees env = .ok created)
    (hrun : run (accept json readers.channel) ⟨created, users⟩ actions = some w)
    (hleaves : Along (accept json readers.channel) (LeavesMember readers.channel name)
      ⟨created, users⟩ actions) :
    membersOf readers.channel w.tree name ≠ [] ∧
      ∀ u, u ≠ author → u ∉ invitees → (∀ a ∈ actions, u ∉ joined name a) →
        ∀ (viewer : Viewer) (diff : FileMap) (changedFiles : List Path)
          (changes : List (PollChange Json)), viewer.user = some u → viewer.skipFilter = false →
          handlePoll readers w.tree viewer diff changedFiles = .ok changes →
          ∀ c ∈ changes, ¬ (c.kind = .channel ∧ c.channel = name) := by
  have hguarded : Guarded readers.channel name
      (author :: invitees ++ actions.flatMap (joined name)) w := by
    have hinside : Along (accept json readers.channel) (fun _ a => ∀ u ∈ joined name a,
        u ∈ author :: invitees ++ actions.flatMap (joined name)) ⟨created, users⟩ actions :=
      along_of_forall (fun a ha s u hu => List.mem_append_right _
        (List.mem_flatMap.mpr ⟨a, ha, hu⟩)) _
    refine run_invariant (fun s a t hs ha ht => accept_guarded hyaml hs ha.1 ha.2 ht) hrun
      (along_and hleaves hinside) (guarded_created hyaml hcreate fun u hu =>
        List.mem_append_left _ hu)
  refine ⟨?_, ?_⟩
  · obtain ⟨info, hinfo, hne, -⟩ := hguarded
    rw [membersOf_eq hinfo]
    exact hne
  · intro u hauthor hinvitees hjoined viewer diff changedFiles changes huser hfilter hpoll
    refine hidden_of_not_member hfilter (hidden_of_guarded hguarded ?_ huser) hpoll
    rw [List.mem_append, List.mem_cons, List.mem_flatMap]
    rintro ((hu | hu) | ⟨a, ha, hu⟩)
    · exact hauthor hu
    · exact hinvitees hu
    · exact hjoined a ha hu

end Privacy

section Samples

/-- An empty list is written in flow style. -/
def channelText (m : ChannelMeta) : Text :=
  if m.members = [] then (blockYaml m).dropLast ++ " []\n".toList else blockYaml m

def privacyTable : List (ChannelMeta × Text) :=
  [["alice".toList], ["alice".toList, "bob".toList], ["bob".toList], []].map fun members =>
    (channelOf members, channelText (channelOf members))

def sampleReaders : Readers EventObject where
  json := objectJson.toJsonCodec
  channel := ⟨tableValue privacyTable, tableText privacyTable⟩
  card _ := none
  quickSession _ := none
  cronTarget _ := none

theorem sampleReaders_back (m : ChannelMeta) :
    sampleReaders.channel.fromStr (sampleReaders.channel.toStr m) = some m :=
  tableValue_tableText (by decide +kernel) m

def threeUsers : List Text := ["alice".toList, "bob".toList, "carol".toList]

def withAlice : FileMap :=
  [(userPath "alice".toList, "display_name: Alice\n".toList)]

def createGeneral (invitees : List Text) : Except Text FileMap :=
  createChannel objectJson sampleReaders.channel threeUsers withAlice "general".toList
    (some "General".toList) (some "all".toList) "alice".toList invitees calmEnv

def generalTree (invitees : List Text) : FileMap := (createGeneral invitees).toOption.getD []

def finalWorkspace (invitees : List Text) (actions : List Action) : Option Workspace :=
  run (accept objectJson sampleReaders.channel) ⟨generalTree invitees, threeUsers⟩ actions

def aliceDeparts : Action := .depart "alice".toList fun _ => newYear

def bobRemovesHimself : Action :=
  .event .leave "general".toList ["bob".toList] "bob".toList calmEnv

def carol : Viewer := ⟨some "carol".toList, false, false⟩

def creationDiff : FileMap :=
  [(threadPath "general".toList,
    "[L000001][P000000][@alice][20260101T000000Z][E:join] \x7b\x7d\n".toList)]

def bobStays : Workspace := (finalWorkspace ["bob".toList] [aliceDeparts]).getD ⟨[], []⟩

theorem channel_stays_private_bob :
    finalWorkspace ["bob".toList] [aliceDeparts] = some bobStays ∧
      membersOf sampleReaders.channel bobStays.tree "general".toList ≠ [] ∧
      handlePoll sampleReaders bobStays.tree carol creationDiff [] = .ok [] ∧
      ∀ (diff : FileMap) (changedFiles : List Path) (changes : List (PollChange EventObject)),
        handlePoll sampleReaders bobStays.tree carol diff changedFiles = .ok changes →
          ∀ c ∈ changes, ¬ (c.kind = .channel ∧ c.channel = "general".toList) := by
  have hevaluated : createGeneral ["bob".toList] = .ok (generalTree ["bob".toList]) ∧
      finalWorkspace ["bob".toList] [aliceDeparts] = some bobStays ∧
      Along (accept objectJson sampleReaders.channel)
        (LeavesMember sampleReaders.channel "general".toList)
        ⟨generalTree ["bob".toList], threeUsers⟩ [aliceDeparts] ∧
      handlePoll sampleReaders bobStays.tree carol creationDiff [] = .ok [] := by
    decide +kernel
  obtain ⟨hcreate, hrun, hleaves, hpoll⟩ := hevaluated
  obtain ⟨hmembers, hhidden⟩ := channel_stays_private objectJson sampleReaders threeUsers withAlice
    (generalTree ["bob".toList]) "general".toList _ _ "alice".toList ["bob".toList] calmEnv
    [aliceDeparts] bobStays sampleReaders_back hcreate hrun hleaves
  have hjoined : ∀ a ∈ [aliceDeparts], "carol".toList ∉ joined "general".toList a := by
    intro a ha
    rw [List.mem_singleton.mp ha]
    exact List.not_mem_nil
  exact ⟨hrun, hmembers, hpoll, fun diff changedFiles changes =>
    hhidden "carol".toList (by decide) (by decide) hjoined carol diff changedFiles changes rfl rfl⟩

def nobodyStays : Workspace := (finalWorkspace [] [aliceDeparts]).getD ⟨[], []⟩

def bobGone : Workspace :=
  (finalWorkspace ["bob".toList] [aliceDeparts, bobRemovesHimself]).getD ⟨[], []⟩

/-- The only member departs, or the last member removes itself like another one: the list of
members is empty, and carol, who never joined, is shown the thread. -/
theorem channel_runs_empty :
    createGeneral [] = .ok (generalTree []) ∧
      finalWorkspace [] [aliceDeparts] = some nobodyStays ∧
      membersOf sampleReaders.channel nobodyStays.tree "general".toList = [] ∧
      handlePoll sampleReaders nobodyStays.tree carol creationDiff [] = .ok [⟨"general".toList,
        .channel, [.entry (.event ⟨1, 0, alice, newYear, "join".toList, .object none⟩) none]⟩] ∧
    createGeneral ["bob".toList] = .ok (generalTree ["bob".toList]) ∧
      finalWorkspace ["bob".toList] [aliceDeparts, bobRemovesHimself] = some bobGone ∧
      membersOf sampleReaders.channel bobGone.tree "general".toList = [] := by
  unfold creationDiff newYear
  repeat rw [String.toList_ofList]
  decide +kernel

end Samples

end ChannelPrivacy
