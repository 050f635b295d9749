import GitIM.ChannelPrivacy
import GitIM.TreeDiff

/-!
# What a poll gives away

The changes of a poll come from the diff of two upstream commits, while the metadata of
the working tree decide who may see them. The secrets of a commit are the direct messages
of others and the threads and cards of channels whose metadata at that commit list
members without the user. Two repositories that differ in secrets only should give the
same answer; they do exactly if the working tree hides what the commit hides.
-/

namespace PollSecrecy

open TextLines TextScan FileTree Checked ThreadFormat DmThreads Channels Poll DiffCapture TreeDiff

section Secrets

/-- The conversation that a file is a part of. -/
inductive Owner where
  | channel (archived : Bool) (name : Text)
  | dm (pair : Text × Text)
  deriving DecidableEq

/-- The channel whose thread, or one of whose cards, is stored under a name. -/
def contentChannel (rest : Text) : Option Text :=
  match splitOnce '/' rest with
  | none => stripSuffix ".thread".toList rest
  | some (channel, tail) => if "cards/".toList <+: tail then some channel else none

def dmPair (rest : Text) : Option (Text × Text) :=
  (stripSuffix ".thread".toList rest).bind parseDmFilename

def ownerOf (path : Path) : Option Owner :=
  match stripPrefix "channels/".toList path with
  | some rest => (contentChannel rest).map (.channel false)
  | none => match stripPrefix "archive/channels/".toList path with
  | some rest => (contentChannel rest).map (.channel true)
  | none => match stripPrefix "dm/".toList path with
  | some rest => (dmPair rest).map .dm
  | none => ((stripPrefix "archive/dm/".toList path).bind dmPair).map .dm

/-- The commits between which a poll looks, and the working tree. -/
structure Snapshot where
  since : FileMap
  polled : FileMap
  work : FileMap

variable {Json : Type} (readers : Readers Json) (u : Text)

/-- Whether a commit keeps a conversation from the user. -/
def excludes (polled : FileMap) : Owner → Bool
  | .channel archived name =>
    ((polled.lookup (if archived then archivedMetaPath name else metaPath name)).bind
      readers.channel.fromStr).any fun info => info.members ≠ [] ∧ u ∉ info.members
  | .dm pair => u ≠ pair.1 ∧ u ≠ pair.2

def secret (polled : FileMap) (path : Path) : Bool := (ownerOf path).any (excludes readers u polled)

/-- Two repositories agree but for the secrets of the first. -/
def AgreeOff (r r' : Snapshot) : Prop :=
  ∀ p, secret readers u r.polled p = false →
    r'.since.lookup p = r.since.lookup p ∧ r'.polled.lookup p = r.polled.lookup p ∧
      r'.work.lookup p = r.work.lookup p

def viewer : Viewer := ⟨some u, false, false⟩

/-- A hash map in the order in which it is iterated over. -/
structure Enumerates (listed m : FileMap) : Prop where
  nodup : (listed.map Prod.fst).Nodup
  lookup : ∀ p, listed.lookup p = m.lookup p

/-- An answer of the poll. -/
def Polls (git : LineDiff) (r : Snapshot) (answer : Except PollFault (List (PollChange Json))) :
    Prop :=
  ∃ diff, Enumerates diff (parseDiffOutput (diffText git r.since r.polled)) ∧
    answer = handlePoll readers r.work (viewer u) diff (changedPaths r.since r.polled)

/-- The kinds of changes that tell of conversations. -/
def conversational (c : PollChange Json) : Bool :=
  c.kind ∈ [.channel, .cardThread, .cardMeta, .dm, .dmArchived]

def PollFault.answer : PollFault → Option (Text × Text)
  | .response message code => some (message, code)
  | .panicParseU64 _ => none

/-- Two answers that tell the same of conversations. -/
def SameAnswer (a b : Except PollFault (List (PollChange Json))) : Prop :=
  match a, b with
  | .ok cs, .ok cs' => (cs.filter conversational).Perm (cs'.filter conversational)
  | .error e, .error e' => PollFault.answer e = PollFault.answer e'
  | _, _ => False

/-- Repositories that agree but for the secrets of `r` are answered alike. -/
def Confidential (git : LineDiff) (r : Snapshot) : Prop :=
  ∀ r₁ r₂, AgreeOff readers u r r₁ → AgreeOff readers u r r₂ →
    Contained git r₁.since r₁.polled → Contained git r₂.since r₂.polled →
      ∀ a₁ a₂, Polls readers u git r₁ a₁ → Polls readers u git r₂ a₂ → SameAnswer a₁ a₂

/-- The working tree keeps from the user the channels that the polled commit keeps from it. -/
def LocallyHidden (r : Snapshot) : Prop :=
  ∀ channel, '/' ∉ channel → plainPath channel = true →
    excludes readers u r.polled (.channel false channel) = true →
      isMember readers r.work (viewer u) channel = false

end Secrets

section Owners

theorem ownerOf_channels (rest : Text) :
    ownerOf ("channels/".toList ++ rest) = (contentChannel rest).map (.channel false) := by
  rw [ownerOf, stripPrefix_append]

theorem ownerOf_archivedChannels (rest : Text) :
    ownerOf ("archive/channels/".toList ++ rest) = (contentChannel rest).map (.channel true) := by
  have hno : stripPrefix "channels/".toList ("archive/channels/".toList ++ rest) = none := rfl
  rw [ownerOf, hno, stripPrefix_append]

theorem ownerOf_dm (rest : Text) :
    ownerOf ("dm/".toList ++ rest) = (dmPair rest).map .dm := by
  have hno : stripPrefix "channels/".toList ("dm/".toList ++ rest) = none := rfl
  have hno' : stripPrefix "archive/channels/".toList ("dm/".toList ++ rest) = none := rfl
  rw [ownerOf, hno, hno', stripPrefix_append]

theorem ownerOf_archivedDm (rest : Text) :
    ownerOf ("archive/dm/".toList ++ rest) = (dmPair rest).map .dm := by
  have hno : stripPrefix "channels/".toList ("archive/dm/".toList ++ rest) = none := rfl
  have hno' : stripPrefix "archive/channels/".toList ("archive/dm/".toList ++ rest) = none := rfl
  have hno'' : stripPrefix "dm/".toList ("archive/dm/".toList ++ rest) = none := rfl
  rw [ownerOf, hno, hno', hno'', stripPrefix_append, Option.bind_some]

theorem splitOnce_eq_none {t : Text} (h : '/' ∉ t) : splitOnce '/' t = none := if_neg h

theorem contentChannel_thread {channel : Text} (h : '/' ∉ channel) :
    contentChannel (channel ++ ".thread".toList) = some channel := by
  have hslash : '/' ∉ channel ++ ".thread".toList := by
    rw [List.mem_append]
    exact fun hmem => hmem.elim h (by decide)
  simp only [contentChannel, splitOnce_eq_none hslash]
  exact stripSuffix_eq_some_iff.mpr rfl

theorem stripSuffix_thread_meta (channel : Text) :
    stripSuffix ".thread".toList (channel ++ ".meta.yaml".toList) = none := by
  apply Option.eq_none_iff_forall_not_mem.mpr
  intro stem hstem
  have hlast : some 'l' = some 'd' :=
    calc some 'l' = (channel ++ ".meta.yaml".toList).getLast? := by
          rw [List.getLast?_append]
          rfl
      _ = (stem ++ ".thread".toList).getLast? := congrArg _ (stripSuffix_eq_some_iff.mp hstem)
      _ = some 'd' := by
          rw [List.getLast?_append]
          rfl
  cases hlast

theorem contentChannel_meta {channel : Text} (h : '/' ∉ channel) :
    contentChannel (channel ++ ".meta.yaml".toList) = none := by
  have hslash : '/' ∉ channel ++ ".meta.yaml".toList := by
    rw [List.mem_append]
    exact fun hmem => hmem.elim h (by decide)
  simp only [contentChannel, splitOnce_eq_none hslash]
  exact stripSuffix_thread_meta channel

theorem contentChannel_card {channel tail : Text} (h : '/' ∉ channel) :
    contentChannel (channel ++ '/' :: ("cards/".toList ++ tail)) = some channel := by
  have hsplit : splitOnce '/' (channel ++ '/' :: ("cards/".toList ++ tail)) =
      some (channel, "cards/".toList ++ tail) := splitOnce_eq_some_iff.mpr ⟨rfl, h⟩
  simp only [contentChannel, hsplit]
  exact if_pos (List.prefix_append _ _)

/-- A file below `channels/` that belongs to a channel is its thread, or below its cards. -/
theorem contentChannel_eq_some {rest channel : Text} (h : contentChannel rest = some channel) :
    '/' ∉ channel ∧ (rest = channel ++ ".thread".toList ∨
      ∃ tail, rest = channel ++ '/' :: ("cards/".toList ++ tail)) := by
  rw [contentChannel] at h
  split at h
  · rename_i hsplit
    have hrest := stripSuffix_eq_some_iff.mp h
    have hslash : '/' ∉ rest := by
      intro hmem
      rw [splitOnce, if_pos hmem] at hsplit
      cases hsplit
    refine ⟨fun hmem => hslash ?_, .inl hrest⟩
    rw [hrest]
    exact List.mem_append_left _ hmem
  · rename_i name tail hsplit
    obtain ⟨hrest, hslash⟩ := splitOnce_eq_some_iff.mp hsplit
    split at h
    · rename_i hcards
      obtain ⟨tail', rfl⟩ := hcards
      cases h
      exact ⟨hslash, .inr ⟨tail', hrest⟩⟩
    · cases h

variable {Json : Type} {readers : Readers Json} {u : Text} {polled : FileMap}

theorem ownerOf_metaPath {channel : Text} (h : '/' ∉ channel) :
    ownerOf (metaPath channel) = none := by
  refine (ownerOf_channels _).trans ?_
  rw [contentChannel_meta h, Option.map_none]

theorem ownerOf_threadPath {channel : Text} (h : '/' ∉ channel) :
    ownerOf (threadPath channel) = some (.channel false channel) := by
  refine (ownerOf_channels _).trans ?_
  rw [contentChannel_thread h, Option.map_some]

theorem ownerOf_cardFile {channel : Text} (tail : Text) (h : '/' ∉ channel) :
    ownerOf ("channels/".toList ++ (channel ++ '/' :: ("cards/".toList ++ tail))) =
      some (.channel false channel) := by
  refine (ownerOf_channels _).trans ?_
  rw [contentChannel_card h, Option.map_some]

theorem secret_of_owner {path : Path} {o : Owner} (h : ownerOf path = some o) :
    secret readers u polled path = excludes readers u polled o := by
  rw [secret, h, Option.any_some]

theorem not_secret_of_owner {path : Path} (h : ownerOf path = none) :
    secret readers u polled path = false := by
  rw [secret, h, Option.any_none]

end Owners

section Paths
variable {Json : Type} {readers : Readers Json} {u : Text} {tree : FileMap}

theorem extractChannel_card {channel tail : Text} (h : '/' ∉ channel) :
    extractChannel ("channels/".toList ++ (channel ++ '/' :: ("cards/".toList ++ tail))) =
      some channel := by
  have hsplit : splitOnce '/' (channel ++ '/' :: ("cards/".toList ++ tail)) =
      some (channel, "cards/".toList ++ tail) := splitOnce_eq_some_iff.mpr ⟨rfl, h⟩
  have hcard : extractChannel.cardChannel (channel ++ '/' :: ("cards/".toList ++ tail)) =
      some channel := by
    simp only [extractChannel.cardChannel, hsplit, Option.bind_eq_bind, Option.bind_some]
    exact if_pos (List.prefix_append _ _)
  simp only [extractChannel, stripPrefix_append, Option.bind_eq_bind, Option.bind_some, hcard]
  split
  · rename_i stem hstem
    have hslash : '/' ∈ stem := by
      have hmem : '/' ∈ channel ++ '/' :: ("cards/".toList ++ tail) :=
        List.mem_append_right channel List.mem_cons_self
      rcases Option.or_eq_some_iff.mp hstem with hthread | ⟨-, hmeta⟩
      · rw [stripSuffix_eq_some_iff.mp hthread] at hmem
        exact (List.mem_append.mp hmem).resolve_right (by decide)
      · rw [stripSuffix_eq_some_iff.mp hmeta] at hmem
        exact (List.mem_append.mp hmem).resolve_right (by decide)
    exact if_pos hslash
  · rfl

theorem extractChannel_metaPath {channel : Text} (h : '/' ∉ channel) :
    extractChannel (metaPath channel) = some channel := by
  have hyes : stripSuffix ".meta.yaml".toList (channel ++ ".meta.yaml".toList) = some channel :=
    stripSuffix_eq_some_iff.mpr rfl
  have hrest : stripPrefix "channels/".toList (metaPath channel) =
      some (channel ++ ".meta.yaml".toList) := stripPrefix_append _ _
  simp only [extractChannel, hrest, stripSuffix_thread_meta, hyes, Option.bind_eq_bind,
    Option.bind_some, Option.none_or, if_neg h]

/-- A channel of the diff is shown to its members. -/
theorem shown_eq_isMember {diff : FileMap} {p : Path} {channel : Text}
    (hp : p ∈ diff.map Prod.fst) (hchannel : extractChannel p = some channel) :
    shown readers tree (viewer u) diff channel = isMember readers tree (viewer u) channel := by
  have hfilter : (viewer u).skipFilter = false := rfl
  have hcached : channel ∈ (diff.map Prod.fst).filterMap extractChannel :=
    List.mem_filterMap.mpr ⟨p, hp, hchannel⟩
  rw [shown, channelMembership, hfilter, if_neg Bool.false_ne_true, lookup_restrict, if_pos hcached,
    Option.getD_some, Bool.false_or]

theorem pathChange_channels (visible : Text → Bool) (rest added : Text) :
    pathChange readers tree (viewer u) visible ("channels/".toList ++ rest) added =
      match cardPath ("channels/".toList ++ rest) with
      | some (channel, cardId, file) =>
        cardChange readers tree visible ("channels/".toList ++ rest) channel cardId file added
      | none => channelChange readers tree visible rest added := by
  have hboard : (boardHandlerFromPath ("channels/".toList ++ rest)).isSome = false := rfl
  have hquick : quickSessionPath ("channels/".toList ++ rest) = none := rfl
  cases hcard : cardPath ("channels/".toList ++ rest) with
  | none =>
    simp only [pathChange, hboard, Bool.false_eq_true, if_false, hquick, stripPrefix_append, hcard]
  | some parts =>
    simp only [pathChange, hboard, Bool.false_eq_true, if_false, hquick, hcard]

theorem pathChange_archivedChannels (visible : Text → Bool) (rest added : Text) :
    pathChange readers tree (viewer u) visible ("archive/channels/".toList ++ rest) added =
      .ok (archivedChannelChange rest) := by
  have hboard : (boardHandlerFromPath ("archive/channels/".toList ++ rest)).isSome = false := rfl
  have hquick : quickSessionPath ("archive/channels/".toList ++ rest) = none := rfl
  have hcard : cardPath ("archive/channels/".toList ++ rest) = none := rfl
  have hchannel : stripPrefix "channels/".toList ("archive/channels/".toList ++ rest) = none := rfl
  have hdm : stripPrefix "dm/".toList ("archive/channels/".toList ++ rest) = none := rfl
  simp only [pathChange, hboard, Bool.false_eq_true, if_false, hquick, hcard, hchannel, hdm,
    stripPrefix_append]

theorem pathChange_dm (visible : Text → Bool) (rest added : Text) :
    pathChange readers tree (viewer u) visible ("dm/".toList ++ rest) added =
      dmChange readers (viewer u) ("dm/".toList ++ rest) rest added := by
  have hboard : (boardHandlerFromPath ("dm/".toList ++ rest)).isSome = false := rfl
  have hquick : quickSessionPath ("dm/".toList ++ rest) = none := rfl
  have hcard : cardPath ("dm/".toList ++ rest) = none := rfl
  have hchannel : stripPrefix "channels/".toList ("dm/".toList ++ rest) = none := rfl
  simp only [pathChange, hboard, Bool.false_eq_true, if_false, hquick, hcard, hchannel,
    stripPrefix_append]

theorem pathChange_archivedDm (visible : Text → Bool) (rest added : Text) :
    pathChange readers tree (viewer u) visible ("archive/dm/".toList ++ rest) added =
      .ok (archivedDmChange (viewer u) rest) := by
  have hboard : (boardHandlerFromPath ("archive/dm/".toList ++ rest)).isSome = false := rfl
  have hquick : quickSessionPath ("archive/dm/".toList ++ rest) = none := rfl
  have hcard : cardPath ("archive/dm/".toList ++ rest) = none := rfl
  have hchannel : stripPrefix "channels/".toList ("archive/dm/".toList ++ rest) = none := rfl
  have hdm : stripPrefix "dm/".toList ("archive/dm/".toList ++ rest) = none := rfl
  have harchive : stripPrefix "archive/channels/".toList ("archive/dm/".toList ++ rest) = none := rfl
  simp only [pathChange, hboard, Bool.false_eq_true, if_false, hquick, hcard, hchannel, hdm,
    harchive, stripPrefix_append]

/-- Where the files of conversations are. -/
theorem ownerOf_eq_some {p : Path} {o : Owner} (h : ownerOf p = some o) :
    (∃ rest channel, p = "channels/".toList ++ rest ∧ contentChannel rest = some channel ∧
        o = .channel false channel) ∨
      (∃ rest, p = "archive/channels/".toList ++ rest) ∨
      (∃ rest pair, p = "dm/".toList ++ rest ∧ dmPair rest = some pair ∧ o = .dm pair) ∨
      (∃ rest pair, p = "archive/dm/".toList ++ rest ∧ dmPair rest = some pair ∧ o = .dm pair) := by
  rw [ownerOf] at h
  split at h
  · rename_i rest hrest
    obtain ⟨channel, hchannel, rfl⟩ := Option.map_eq_some_iff.mp h
    exact .inl ⟨rest, channel, stripPrefix_eq_some_iff.mp hrest, hchannel, rfl⟩
  split at h
  · rename_i rest hrest
    exact .inr (.inl ⟨rest, stripPrefix_eq_some_iff.mp hrest⟩)
  split at h
  · rename_i rest hrest
    obtain ⟨pair, hpair, rfl⟩ := Option.map_eq_some_iff.mp h
    exact .inr (.inr (.inl ⟨rest, pair, stripPrefix_eq_some_iff.mp hrest, hpair, rfl⟩))
  · obtain ⟨pair, hbind, rfl⟩ := Option.map_eq_some_iff.mp h
    obtain ⟨rest, hrest, hpair⟩ := Option.bind_eq_some_iff.mp hbind
    exact .inr (.inr (.inr ⟨rest, pair, stripPrefix_eq_some_iff.mp hrest, hpair, rfl⟩))

theorem cardPath_channels (rest : Text) :
    cardPath ("channels/".toList ++ rest) = (splitOnce '/' rest).bind fun parts =>
      (stripPrefix "cards/".toList parts.2).bind fun cardRest =>
        (splitOnce '/' cardRest).map fun file => (parts.1, file.1, file.2) := by
  simp only [cardPath, stripPrefix_append, Option.bind_eq_bind, Option.bind_some]
  cases splitOnce '/' rest with
  | none => rfl
  | some parts =>
    simp only [Option.bind_some]
    cases stripPrefix "cards/".toList parts.2 with
    | none => rfl
    | some cardRest =>
      simp only [Option.bind_some]
      cases splitOnce '/' cardRest with
      | none => rfl
      | some file => rfl

/-- A card below `channels/`. -/
theorem cardPath_eq_some {rest channel cardId file : Text}
    (h : cardPath ("channels/".toList ++ rest) = some (channel, cardId, file)) :
    '/' ∉ channel ∧ rest = channel ++ '/' :: ("cards/".toList ++ (cardId ++ '/' :: file)) := by
  rw [cardPath_channels] at h
  obtain ⟨⟨name, tail⟩, hsplit, h⟩ := Option.bind_eq_some_iff.mp h
  obtain ⟨cardRest, hcards, h⟩ := Option.bind_eq_some_iff.mp h
  obtain ⟨⟨id, f⟩, hid, h⟩ := Option.map_eq_some_iff.mp h
  obtain ⟨rfl, rfl, rfl⟩ : name = channel ∧ id = cardId ∧ f = file := by simpa using h
  obtain ⟨hrest, hslash⟩ := splitOnce_eq_some_iff.mp hsplit
  have htail : tail = "cards/".toList ++ cardRest := stripPrefix_eq_some_iff.mp hcards
  rw [hrest, htail, (splitOnce_eq_some_iff.mp hid).1]
  exact ⟨hslash, rfl⟩

/-- Nothing of a channel that is not shown is changed. -/
theorem pathChange_hidden {visible : Text → Bool} {rest channel : Text}
    (hcontent : contentChannel rest = some channel) (hvisible : visible channel = false)
    (added : Text) :
    pathChange readers tree (viewer u) visible ("channels/".toList ++ rest) added = .ok none := by
  obtain ⟨hslash, rfl | ⟨tail, rfl⟩⟩ := contentChannel_eq_some hcontent
  · have hname : '/' ∉ channel ++ ".thread".toList := by
      rw [List.mem_append]
      exact fun hmem => hmem.elim hslash (by decide)
    have hstem : stripSuffix ".thread".toList (channel ++ ".thread".toList) = some channel :=
      stripSuffix_eq_some_iff.mpr rfl
    rw [pathChange_channels, cardPath_channels, splitOnce_eq_none hname]
    simp only [Option.bind_none, channelChange, if_neg hname, hstem, hvisible, if_true]
  · rw [pathChange_channels]
    cases hcard : cardPath ("channels/".toList ++ (channel ++ '/' :: ("cards/".toList ++ tail))) with
    | none =>
      have hname : '/' ∈ channel ++ '/' :: ("cards/".toList ++ tail) :=
        List.mem_append_right channel List.mem_cons_self
      simp only [channelChange, if_pos hname]
    | some parts =>
      obtain ⟨name, cardId, file⟩ := parts
      have hsame : name = channel := by
        obtain ⟨hno, heq⟩ := cardPath_eq_some hcard
        have hone := splitOnce_eq_some_iff.mpr ⟨heq, hno⟩
        have htwo : splitOnce '/' (channel ++ '/' :: ("cards/".toList ++ tail)) =
            some (channel, "cards/".toList ++ tail) := splitOnce_eq_some_iff.mpr ⟨rfl, hslash⟩
        rw [htwo] at hone
        exact (Prod.mk.inj (Option.some.inj hone)).1.symm
      simp only [cardChange, hsame, hvisible, if_true]

end Paths

section Silence
variable {Json : Type} {readers : Readers Json} {u : Text} {r r₁ r₂ : Snapshot}

theorem archivedChannelChange_silent {name : Text} {c : PollChange Json}
    (h : archivedChannelChange name = some c) : conversational c = false := by
  rw [archivedChannelChange] at h
  split at h
  · cases h
  · obtain ⟨channel, -, rfl⟩ := Option.map_eq_some_iff.mp h
    rfl

/-- The direct messages of others are not shown. -/
theorem dmChange_others {rest : Text} {pair : Text × Text} (hpair : dmPair rest = some pair)
    (hout : excludes readers u r.polled (.dm pair) = true) (added : Text) :
    dmChange readers (viewer u) ("dm/".toList ++ rest) rest added = .ok none := by
  have hmembers : dmMembers ("dm/".toList ++ rest) = some pair := by
    rw [dmMembers, stripPrefix_append]
    exact hpair
  have hno : isParticipant (viewer u) pair = false := by
    simpa [isParticipant, viewer, excludes] using hout
  have hskip : (viewer u).skipFilter = false := rfl
  simp only [dmChange, hskip, hmembers, hno, Option.any_some, Bool.not_false, Bool.and_self, if_true]

theorem archivedDmChange_others {rest : Text} {pair : Text × Text} (hpair : dmPair rest = some pair)
    (hout : excludes readers u r.polled (.dm pair) = true) :
    (archivedDmChange (viewer u) rest : Option (PollChange Json)) = none := by
  have hno : isParticipant (viewer u) pair = false := by
    simpa [isParticipant, viewer, excludes] using hout
  obtain ⟨stem, hstem, hparse⟩ := Option.bind_eq_some_iff.mp hpair
  rw [archivedDmChange]
  split
  · rfl
  · have hskip : (viewer u).skipFilter = false := rfl
    simp only [hstem, hparse, Option.bind_eq_bind, Option.bind_some, hskip, hno, Bool.or_self,
      Bool.false_eq_true, if_false]

theorem plainPath_append {a b : Text} :
    plainPath (a ++ b) = true ↔ plainPath a = true ∧ plainPath b = true := by
  simp only [plainPath, List.all_append, Bool.and_eq_true]

/-- Membership depends on the metadata of the channel alone. -/
theorem isMember_congr {w₁ w₂ : FileMap} {channel : Text}
    (h : w₁.lookup (metaPath channel) = w₂.lookup (metaPath channel)) :
    isMember readers w₁ (viewer u) channel = isMember readers w₂ (viewer u) channel := by
  rw [isMember, isMember, h]

/-- A secret file tells nothing of a conversation. -/
theorem secret_silent (hhidden : LocallyHidden readers u r) (hagree : AgreeOff readers u r r₁)
    {diff : FileMap} {p : Path} (hp : p ∈ diff.map Prod.fst) (hplain : plainPath p = true)
    (hsecret : secret readers u r.polled p = true) (added : Text) :
    ∃ c, pathChange readers r₁.work (viewer u) (shown readers r₁.work (viewer u) diff) p added =
      .ok c ∧ ∀ change ∈ c, conversational change = false := by
  obtain ⟨o, howner, hout⟩ := (Option.any_eq_true _ _).mp hsecret
  rcases ownerOf_eq_some howner with ⟨rest, channel, rfl, hcontent, rfl⟩ | ⟨rest, rfl⟩ |
    ⟨rest, pair, rfl, hpair, rfl⟩ | ⟨rest, pair, rfl, hpair, rfl⟩
  · obtain ⟨hslash, hform⟩ := contentChannel_eq_some hcontent
    have hextract : extractChannel ("channels/".toList ++ rest) = some channel := by
      rcases hform with rfl | ⟨tail, rfl⟩
      · exact extractChannel_threadPath hslash
      · exact extractChannel_card hslash
    have hname : plainPath channel = true := by
      rcases hform with rfl | ⟨tail, rfl⟩
      · exact (plainPath_append.mp (plainPath_append.mp hplain).2).1
      · exact (plainPath_append.mp (plainPath_append.mp hplain).2).1
    have hmember : isMember readers r₁.work (viewer u) channel = false := by
      have hmeta := (hagree _ (not_secret_of_owner (ownerOf_metaPath hslash))).2.2
      rw [isMember_congr hmeta]
      exact hhidden channel hslash hname hout
    have hshown : shown readers r₁.work (viewer u) diff channel =
        isMember readers r₁.work (viewer u) channel := shown_eq_isMember hp hextract
    refine ⟨none, pathChange_hidden hcontent (hshown.trans hmember) added, ?_⟩
    intro change hmem
    cases hmem
  · refine ⟨_, pathChange_archivedChannels _ rest added, ?_⟩
    exact fun change hmem => archivedChannelChange_silent hmem
  · refine ⟨none, (pathChange_dm _ rest added).trans (dmChange_others hpair hout added), ?_⟩
    intro change hmem
    cases hmem
  · refine ⟨none, (pathChange_archivedDm _ rest added).trans ?_, ?_⟩
    · rw [archivedDmChange_others hpair hout]
    · intro change hmem
      cases hmem

end Silence

section Agreement
variable {Json : Type} {readers : Readers Json} {u : Text} {w₁ w₂ diff₁ diff₂ : FileMap}

theorem quickSessionChange_congr (hsame : ∀ q, ownerOf q = none → w₁.lookup q = w₂.lookup q)
    (archived : Bool) (sessionId file added : Text) :
    quickSessionChange readers w₁ archived sessionId file added =
      quickSessionChange readers w₂ archived sessionId file added := by
  have hmeta : sessionMeta readers w₁ archived sessionId =
      sessionMeta readers w₂ archived sessionId := by
    cases archived with
    | true =>
      have hlookup := hsame ("archive/quick-sessions/".toList ++
        (sessionId ++ "/session.meta.yaml".toList)) rfl
      simp only [sessionMeta, if_true, hlookup]
    | false =>
      have hlookup := hsame ("quick-sessions/".toList ++
        (sessionId ++ "/session.meta.yaml".toList)) rfl
      simp only [sessionMeta, Bool.false_eq_true, if_false, hlookup]
  simp only [quickSessionChange, hmeta]

theorem cronChange_congr (hsame : ∀ q, ownerOf q = none → w₁.lookup q = w₂.lookup q)
    (path : Path) (added : Text) :
    cronChange readers w₁ (viewer u) path added = cronChange readers w₂ (viewer u) path added := by
  rw [cronChange, cronChange]
  cases (stripPrefix "crons/".toList path).bind (splitOnce '/') with
  | none => rfl
  | some parts =>
    have hlookup := hsame ("crons/".toList ++ (parts.1 ++ "/spec.yaml".toList)) rfl
    simp only [hlookup]

/-- Outside of `channels/` only the files of sessions and crons are read. -/
theorem pathChange_congr_other (hsame : ∀ q, ownerOf q = none → w₁.lookup q = w₂.lookup q)
    {visible₁ visible₂ : Text → Bool} {p : Path}
    (hp : stripPrefix "channels/".toList p = none) (added : Text) :
    pathChange readers w₁ (viewer u) visible₁ p added =
      pathChange readers w₂ (viewer u) visible₂ p added := by
  have hcard : cardPath p = none := by
    simp only [cardPath, hp, Option.bind_eq_bind, Option.bind_none]
  simp only [pathChange, hcard, hp, quickSessionChange_congr hsame, cronChange_congr hsame]

theorem cardChange_congr {path : Path} {channel cardId : Text} {visible₁ visible₂ : Text → Bool}
    (hvisible : visible₁ channel = visible₂ channel) (hpath : w₁.lookup path = w₂.lookup path)
    (hmeta : w₁.lookup (cardMetaPath channel cardId) = w₂.lookup (cardMetaPath channel cardId))
    (file added : Text) :
    cardChange readers w₁ visible₁ path channel cardId file added =
      cardChange readers w₂ visible₂ path channel cardId file added := by
  have hcard : cardMeta readers w₁ path = cardMeta readers w₂ path := by
    rw [cardMeta, cardMeta, hpath]
  have hcard' : cardMeta readers w₁ (cardMetaPath channel cardId) =
      cardMeta readers w₂ (cardMetaPath channel cardId) := by
    rw [cardMeta, cardMeta, hmeta]
  simp only [cardChange, hvisible, cardMetaEntriesForPoll, hcard, hcard']

theorem channelRecipients_congr {channel : Text}
    (hthread : w₁.lookup (threadPath channel) = w₂.lookup (threadPath channel))
    (hmeta : w₁.lookup (metaPath channel) = w₂.lookup (metaPath channel)) :
    channelRecipients readers w₁ channel = channelRecipients readers w₂ channel := by
  simp only [channelRecipients, hthread, hmeta]

variable {r : Snapshot}

/-- A file that is no secret gives the same change in both repositories. -/
theorem visible_same
    (hsame : ∀ q, secret readers u r.polled q = false → w₁.lookup q = w₂.lookup q) {p : Path}
    (hp₁ : p ∈ diff₁.map Prod.fst) (hp₂ : p ∈ diff₂.map Prod.fst)
    (hopen : secret readers u r.polled p = false) (added : Text) :
    pathChange readers w₁ (viewer u) (shown readers w₁ (viewer u) diff₁) p added =
      pathChange readers w₂ (viewer u) (shown readers w₂ (viewer u) diff₂) p added := by
  have hfree : ∀ q, ownerOf q = none → w₁.lookup q = w₂.lookup q :=
    fun q hq => hsame q (not_secret_of_owner hq)
  have hshown : ∀ channel, '/' ∉ channel → extractChannel p = some channel →
      shown readers w₁ (viewer u) diff₁ channel = shown readers w₂ (viewer u) diff₂ channel := by
    intro channel hslash hextract
    rw [shown_eq_isMember hp₁ hextract, shown_eq_isMember hp₂ hextract]
    exact isMember_congr (hfree _ (ownerOf_metaPath hslash))
  cases hchannels : stripPrefix "channels/".toList p with
  | none => exact pathChange_congr_other hfree hchannels added
  | some rest =>
    obtain rfl := stripPrefix_eq_some_iff.mp hchannels
    rw [pathChange_channels, pathChange_channels]
    cases hcard : cardPath ("channels/".toList ++ rest) with
    | some parts =>
      obtain ⟨channel, cardId, file⟩ := parts
      obtain ⟨hslash, rfl⟩ := cardPath_eq_some hcard
      have howner : ownerOf (cardMetaPath channel cardId) = some (.channel false channel) :=
        ownerOf_cardFile (cardId ++ "/card.meta.yaml".toList) hslash
      have hmeta : secret readers u r.polled (cardMetaPath channel cardId) = false := by
        rw [secret_of_owner howner, ← secret_of_owner (ownerOf_cardFile _ hslash)]
        exact hopen
      exact cardChange_congr (hshown channel hslash (extractChannel_card hslash))
        (hsame _ hopen) (hsame _ hmeta) file added
    | none =>
      simp only [channelChange]
      by_cases hslash : '/' ∈ rest
      · rw [if_pos hslash, if_pos hslash]
      rw [if_neg hslash, if_neg hslash]
      cases hthread : stripSuffix ".thread".toList rest with
      | some channel =>
        obtain rfl := stripSuffix_eq_some_iff.mp hthread
        have hname : '/' ∉ channel := fun h => hslash (List.mem_append_left _ h)
        have hrecipients : channelRecipients readers w₁ channel =
            channelRecipients readers w₂ channel :=
          channelRecipients_congr (hsame _ hopen) (hfree _ (ownerOf_metaPath hname))
        simp only [hshown channel hname (extractChannel_threadPath hname), hrecipients]
      | none =>
        cases hmeta : stripSuffix ".meta.yaml".toList rest with
        | none => rfl
        | some channel =>
          obtain rfl := stripSuffix_eq_some_iff.mp hmeta
          have hname : '/' ∉ channel := fun h => hslash (List.mem_append_left _ h)
          simp only [Option.bind_some, hshown channel hname (extractChannel_metaPath hname)]

end Agreement

section Answers
variable {Json : Type} {readers : Readers Json} {u : Text} {git : LineDiff} {r r₁ r₂ : Snapshot}
  {diff diff₁ diff₂ : FileMap}

/-- The change of a file in a poll. -/
def changeOf (readers : Readers Json) (u : Text) (r : Snapshot) (diff : FileMap)
    (file : Path × Text) : Except Text (Option (PollChange Json)) :=
  pathChange readers r.work (viewer u) (shown readers r.work (viewer u) diff) file.1 file.2

/-- What a change tells of conversations. -/
def told : Except Text (Option (PollChange Json)) → Option (PollChange Json)
  | .ok c => c.filter conversational
  | .error _ => none

theorem handlePoll_ok {changed : List Path} {cs : List (PollChange Json)} :
    handlePoll readers r.work (viewer u) diff changed = .ok cs ↔
      fileExists r.work (departedPath u) = false ∧ ∃ ys,
        List.Forall₂ (fun file y => changeOf readers u r diff file = .ok y) diff ys ∧
          cs = boardChanges changed ++ ys.filterMap id := by
  have hmap : ∀ {ys : List (Option (PollChange Json))},
      (diff.mapM fun file => (changeOf readers u r diff file).mapError PollFault.panicParseU64) =
        .ok ys ↔ List.Forall₂ (fun file y => changeOf readers u r diff file = .ok y) diff ys := by
    intro ys
    rw [mapM_eq_ok_iff]
    simp only [mapError_eq_ok_iff]
  rw [handlePoll, bind_eq_ok_iff]
  constructor
  · rintro ⟨_, hrefuse, h⟩
    obtain ⟨ys, hys, h⟩ := bind_eq_ok_iff.mp h
    refine ⟨?_, ys, hmap.mp hys, (Except.ok.inj h).symm⟩
    exact eq_false_of_ne_true (refuse_eq_ok_iff.mp hrefuse)
  · rintro ⟨hdeparted, ys, hys, rfl⟩
    refine ⟨(), ?_, bind_eq_ok_iff.mpr ⟨ys, hmap.mpr hys, rfl⟩⟩
    exact refuse_eq_ok_iff.mpr (ne_true_of_eq_false hdeparted)

/-- A poll fails for a user who has departed, or panics. -/
theorem handlePoll_error {changed : List Path} {e : PollFault}
    (h : handlePoll readers r.work (viewer u) diff changed = .error e) :
    (fileExists r.work (departedPath u) = true ∧
        e = .response "agent self-departed via burn-self".toList "self_departed".toList) ∨
      (fileExists r.work (departedPath u) = false ∧ PollFault.answer e = none) := by
  rw [handlePoll, bind_eq_error_iff] at h
  rcases h with h | ⟨_, hrefuse, h⟩
  · obtain ⟨hdeparted, rfl⟩ := refuse_eq_error_iff.mp h
    exact .inl ⟨hdeparted, rfl⟩
  · right
    refine ⟨eq_false_of_ne_true (refuse_eq_ok_iff.mp hrefuse), ?_⟩
    rcases bind_eq_error_iff.mp h with h | ⟨_, _, h⟩
    · obtain ⟨file, -, hfile⟩ := exists_of_mapM_error h
      revert hfile
      cases pathChange readers r.work (viewer u) (shown readers r.work (viewer u) diff) file.1
          file.2 with
      | ok c => exact fun hfile => by cases hfile
      | error digits =>
        rintro ⟨⟩
        rfl
    · cases h

theorem filter_changes {ys : List (Option (PollChange Json))}
    (h : List.Forall₂ (fun file y => changeOf readers u r diff file = .ok y) diff₁ ys) :
    (ys.filterMap id).filter conversational =
      diff₁.filterMap fun file => told (changeOf readers u r diff file) := by
  induction h with
  | nil => rfl
  | cons hfile hrest ih =>
    rename_i file y files ys
    cases y with
    | none =>
      simp only [List.filterMap_cons, hfile, told, id_eq, Option.filter_none]
      exact ih
    | some c =>
      simp only [List.filterMap_cons, hfile, told, id_eq, List.filter_cons, Option.filter_some]
      cases conversational c with
      | true => exact congrArg (c :: ·) ih
      | false => exact ih

theorem boardChanges_silent (changed : List Path) :
    (boardChanges changed : List (PollChange Json)).filter conversational = [] := by
  rw [List.filter_eq_nil_iff]
  intro c hc
  obtain ⟨handler, -, rfl⟩ := List.mem_map.mp hc
  exact Bool.false_ne_true

theorem handlePoll_told {changed : List Path} {cs : List (PollChange Json)}
    (h : handlePoll readers r.work (viewer u) diff changed = .ok cs) :
    cs.filter conversational = diff.filterMap fun file => told (changeOf readers u r diff file) := by
  obtain ⟨-, ys, hys, rfl⟩ := handlePoll_ok.mp h
  rw [List.filter_append, boardChanges_silent, List.nil_append, filter_changes hys]

/-- The files of the diff: their lines depend on the two commits at that path only. -/
theorem mem_diff (hcontained : Contained git r.since r.polled)
    (hdiff : Enumerates diff (parseDiffOutput (diffText git r.since r.polled))) {p : Path}
    {added : Text} :
    (p, added) ∈ diff ↔
      captured (addedLines git (r.since.lookup p) (r.polled.lookup p)) = some added := by
  rw [mem_iff_lookup hdiff.nodup, hdiff.lookup, lookup_diff hcontained]

theorem plain_of_mem (hcontained : Contained git r.since r.polled)
    (hdiff : Enumerates diff (parseDiffOutput (diffText git r.since r.polled))) {p : Path}
    {added : Text} (h : (p, added) ∈ diff) : plainPath p = true := by
  have hcaptured := (mem_diff hcontained hdiff).mp h
  have hne : r.since.lookup p ≠ r.polled.lookup p := by
    intro hsame
    rw [addedLines, if_pos hsame, captured_nil] at hcaptured
    cases hcaptured
  exact (hcontained p (mem_changedPaths.mpr hne)).1

/-- A repository with its diff that agrees with `r` but for the secrets of `r`. -/
structure Observed (readers : Readers Json) (u : Text) (git : LineDiff) (r r₁ : Snapshot)
    (diff₁ : FileMap) : Prop where
  agree : AgreeOff readers u r r₁
  contained : Contained git r₁.since r₁.polled
  diff : Enumerates diff₁ (parseDiffOutput (diffText git r₁.since r₁.polled))

theorem Observed.visible_mem (h₁ : Observed readers u git r r₁ diff₁)
    (h₂ : Observed readers u git r r₂ diff₂) {p : Path} {added : Text}
    (hopen : secret readers u r.polled p = false) (hmem : (p, added) ∈ diff₁) :
    (p, added) ∈ diff₂ := by
  obtain ⟨hsince₁, hpolled₁, -⟩ := h₁.agree p hopen
  obtain ⟨hsince₂, hpolled₂, -⟩ := h₂.agree p hopen
  have hcaptured := (mem_diff h₁.contained h₁.diff).mp hmem
  rw [hsince₁, hpolled₁, ← hsince₂, ← hpolled₂] at hcaptured
  exact (mem_diff h₂.contained h₂.diff).mpr hcaptured

theorem Observed.visible_change (h₁ : Observed readers u git r r₁ diff₁)
    (h₂ : Observed readers u git r r₂ diff₂) {file : Path × Text}
    (hopen : secret readers u r.polled file.1 = false) (hmem : file ∈ diff₁) :
    changeOf readers u r₁ diff₁ file = changeOf readers u r₂ diff₂ file := by
  have hmem' : file ∈ diff₂ := h₁.visible_mem h₂ hopen hmem
  have hsame : ∀ q, secret readers u r.polled q = false → r₁.work.lookup q = r₂.work.lookup q :=
    fun q hq => (h₁.agree q hq).2.2.trans (h₂.agree q hq).2.2.symm
  exact visible_same hsame (List.mem_map_of_mem hmem) (List.mem_map_of_mem hmem') hopen file.2

theorem Observed.departed_same (h₁ : Observed readers u git r r₁ diff₁)
    (h₂ : Observed readers u git r r₂ diff₂) :
    fileExists r₁.work (departedPath u) = fileExists r₂.work (departedPath u) := by
  have hopen : secret readers u r.polled (departedPath u) = false := not_secret_of_owner rfl
  rw [fileExists, fileExists, (h₁.agree _ hopen).2.2, (h₂.agree _ hopen).2.2]

theorem Observed.secret_change (hhidden : LocallyHidden readers u r)
    (h₁ : Observed readers u git r r₁ diff₁) {file : Path × Text}
    (hsecret : secret readers u r.polled file.1 = true) (hmem : file ∈ diff₁) :
    ∃ c, changeOf readers u r₁ diff₁ file = .ok c ∧ ∀ change ∈ c, conversational change = false :=
  secret_silent hhidden h₁.agree (List.mem_map_of_mem hmem)
    (plain_of_mem h₁.contained h₁.diff hmem) hsecret file.2

/-- The visible files of two observed repositories are the same. -/
theorem Observed.visible_perm (h₁ : Observed readers u git r r₁ diff₁)
    (h₂ : Observed readers u git r r₂ diff₂) :
    (diff₁.filter fun file => !secret readers u r.polled file.1).Perm
      (diff₂.filter fun file => !secret readers u r.polled file.1) := by
  have hnodup₁ : diff₁.Nodup := List.Nodup.of_map Prod.fst h₁.diff.nodup
  have hnodup₂ : diff₂.Nodup := List.Nodup.of_map Prod.fst h₂.diff.nodup
  rw [List.perm_ext_iff_of_nodup (hnodup₁.filter _) (hnodup₂.filter _)]
  intro file
  rw [List.mem_filter, List.mem_filter]
  constructor
  · rintro ⟨hmem, hopen⟩
    exact ⟨h₁.visible_mem h₂ (by simpa using hopen) hmem, hopen⟩
  · rintro ⟨hmem, hopen⟩
    exact ⟨h₂.visible_mem h₁ (by simpa using hopen) hmem, hopen⟩

theorem Observed.told_visible (hhidden : LocallyHidden readers u r)
    (h₁ : Observed readers u git r r₁ diff₁) :
    (diff₁.filterMap fun file => told (changeOf readers u r₁ diff₁ file)) =
      (diff₁.filter fun file => !secret readers u r.polled file.1).filterMap
        fun file => told (changeOf readers u r₁ diff₁ file) := by
  rw [List.filterMap_filter]
  apply List.filterMap_congr
  intro file hmem
  cases hsecret : secret readers u r.polled file.1 with
  | false => rfl
  | true =>
    obtain ⟨c, hc, hsilent⟩ := h₁.secret_change hhidden hsecret hmem
    rw [hc, told]
    simp only [Bool.not_true, Bool.false_eq_true, if_false]
    rw [Option.filter_eq_none_iff]
    exact fun change hchange => by rw [hsilent change hchange]; exact Bool.false_ne_true

/-- If the working tree hides the secrets, an answer to one repository is one to the other. -/
theorem Observed.answered (hhidden : LocallyHidden readers u r)
    (h₁ : Observed readers u git r r₁ diff₁) (h₂ : Observed readers u git r r₂ diff₂)
    {changed₁ changed₂ : List Path} {cs : List (PollChange Json)}
    (h : handlePoll readers r₁.work (viewer u) diff₁ changed₁ = .ok cs) :
    ∃ cs', handlePoll readers r₂.work (viewer u) diff₂ changed₂ = .ok cs' := by
  obtain ⟨hdeparted, ys, hys, -⟩ := handlePoll_ok.mp h
  have hall : ∀ file ∈ diff₂, ∃ y, changeOf readers u r₂ diff₂ file = .ok y := by
    intro file hmem
    cases hsecret : secret readers u r.polled file.1 with
    | true =>
      obtain ⟨c, hc, -⟩ := h₂.secret_change hhidden hsecret hmem
      exact ⟨c, hc⟩
    | false =>
      have hmem' : file ∈ diff₁ := h₂.visible_mem h₁ hsecret hmem
      obtain ⟨y, hy⟩ : ∃ y, changeOf readers u r₁ diff₁ file = .ok y := by
        obtain ⟨i, hi, rfl⟩ := List.getElem_of_mem hmem'
        have hlen : i < ys.length := hys.length_eq ▸ hi
        exact ⟨ys[i], hys.get hi hlen⟩
      exact ⟨y, (h₂.visible_change h₁ hsecret hmem).trans hy⟩
  obtain ⟨zs, hzs⟩ := mapM_succeeds hall
  exact ⟨_, handlePoll_ok.mpr ⟨(h₂.departed_same h₁).trans hdeparted, zs, mapM_eq_ok_iff.mp hzs, rfl⟩⟩

/-- If the working tree hides what the polled commit hides, the poll gives no secret away. -/
theorem confidential_of_hidden (hhidden : LocallyHidden readers u r) :
    Confidential readers u git r := by
  rintro r₁ r₂ hagree₁ hagree₂ hcontained₁ hcontained₂ a₁ a₂ ⟨diff₁, hdiff₁, rfl⟩ ⟨diff₂, hdiff₂, rfl⟩
  have h₁ : Observed readers u git r r₁ diff₁ := ⟨hagree₁, hcontained₁, hdiff₁⟩
  have h₂ : Observed readers u git r r₂ diff₂ := ⟨hagree₂, hcontained₂, hdiff₂⟩
  cases ha₁ : handlePoll readers r₁.work (viewer u) diff₁ (changedPaths r₁.since r₁.polled) with
  | ok cs₁ =>
    obtain ⟨cs₂, ha₂⟩ := h₁.answered hhidden h₂ ha₁
    rw [ha₂]
    change (cs₁.filter conversational).Perm (cs₂.filter conversational)
    rw [handlePoll_told ha₁, handlePoll_told ha₂, h₁.told_visible hhidden, h₂.told_visible hhidden]
    have hcongr : ((diff₁.filter fun file => !secret readers u r.polled file.1).filterMap
        fun file => told (changeOf readers u r₁ diff₁ file)) =
        (diff₁.filter fun file => !secret readers u r.polled file.1).filterMap
          fun file => told (changeOf readers u r₂ diff₂ file) := by
      apply List.filterMap_congr
      intro file hfile
      obtain ⟨hmem, hopen⟩ := List.mem_filter.mp hfile
      rw [h₁.visible_change h₂ (by simpa using hopen) hmem]
    rw [hcongr]
    exact (h₁.visible_perm h₂).filterMap _
  | error e₁ =>
    cases ha₂ : handlePoll readers r₂.work (viewer u) diff₂ (changedPaths r₂.since r₂.polled) with
    | ok cs₂ =>
      obtain ⟨cs₁, hok⟩ : ∃ cs, handlePoll readers r₁.work (viewer u) diff₁
          (changedPaths r₁.since r₁.polled) = .ok cs := h₂.answered hhidden h₁ ha₂
      rw [ha₁] at hok
      cases hok
    | error e₂ =>
      have hdeparted := h₁.departed_same h₂
      change PollFault.answer e₁ = PollFault.answer e₂
      rcases handlePoll_error ha₁ with ⟨hgone₁, rfl⟩ | ⟨hhere₁, hnone₁⟩
      · rcases handlePoll_error ha₂ with ⟨-, rfl⟩ | ⟨hhere₂, -⟩
        · rfl
        · rw [hgone₁, hhere₂] at hdeparted
          cases hdeparted
      · rcases handlePoll_error ha₂ with ⟨hgone₂, -⟩ | ⟨-, hnone₂⟩
        · rw [hhere₁, hgone₂] at hdeparted
          cases hdeparted
        · rw [hnone₁, hnone₂]

end Answers

section Leak
variable {Json : Type} {readers : Readers Json} {u : Text} {git : LineDiff} {r : Snapshot}
  {channel : Text}

def openFiles (readers : Readers Json) (u : Text) (polled tree : FileMap) : FileMap :=
  tree.filter fun e => secret readers u polled e.1 = false

/-- A repository without its secrets. -/
def withoutSecrets (readers : Readers Json) (u : Text) (r : Snapshot) : Snapshot :=
  { since := openFiles readers u r.polled r.since
    polled := openFiles readers u r.polled r.polled
    work := openFiles readers u r.polled r.work }

def secretLine : ContentLine :=
  ⟨"[L000001][P000000][@alice][20260101T000000Z] hi".toList, by decide⟩

/-- The repository with one message in a channel, which has just been polled. -/
def withMessage (readers : Readers Json) (u : Text) (r : Snapshot) (channel : Text) : Snapshot :=
  { withoutSecrets readers u r with
    polled := (threadPath channel, secretLine.text ++ ['\n']) ::
      (withoutSecrets readers u r).polled }

theorem lookup_openFiles (polled tree : FileMap) (p : Path) :
    (openFiles readers u polled tree).lookup p =
      if secret readers u polled p = false then tree.lookup p else none :=
  lookup_filter_key (fun p => secret readers u polled p = false) tree p

theorem lookup_openFiles_open {polled : FileMap} {p : Path}
    (h : secret readers u polled p = false) (tree : FileMap) :
    (openFiles readers u polled tree).lookup p = tree.lookup p := by
  rw [lookup_openFiles, if_pos h]

theorem lookup_openFiles_secret {polled : FileMap} {p : Path}
    (h : secret readers u polled p = true) (tree : FileMap) :
    (openFiles readers u polled tree).lookup p = none := by
  rw [lookup_openFiles, if_neg (by simp [h])]

theorem readAdded_secretLine (readers : Readers Json) : ∃ e, readAdded readers secretLine.text = .ok [e] := by
  refine ⟨.message ⟨1, 0, ⟨"alice".toList, .inl (by decide)⟩, "20260101T000000Z".toList, "hi".toList⟩, ?_⟩
  rfl

theorem agreeOff_refl (r : Snapshot) : AgreeOff readers u r r := fun _ _ => ⟨rfl, rfl, rfl⟩

theorem agreeOff_withoutSecrets (r : Snapshot) :
    AgreeOff readers u r (withoutSecrets readers u r) :=
  fun _ hp => ⟨lookup_openFiles_open hp _, lookup_openFiles_open hp _, lookup_openFiles_open hp _⟩

theorem agreeOff_withMessage (hsecret : secret readers u r.polled (threadPath channel) = true) :
    AgreeOff readers u r (withMessage readers u r channel) := by
  intro p hp
  obtain ⟨hsince, hpolled, hwork⟩ := agreeOff_withoutSecrets r p hp
  refine ⟨hsince, ?_, hwork⟩
  have hne : p ≠ threadPath channel := by
    rintro rfl
    rw [hsecret] at hp
    cases hp
  exact (lookup_cons_ite _ _ _ _).trans ((if_neg hne).trans hpolled)

theorem contained_withoutSecrets (h : Contained git r.since r.polled) :
    Contained git (withoutSecrets readers u r).since (withoutSecrets readers u r).polled := by
  intro p hp
  have hne := mem_changedPaths.mp hp
  cases hsecret : secret readers u r.polled p with
  | true =>
    exact absurd ((lookup_openFiles_secret hsecret r.since).trans
      (lookup_openFiles_secret hsecret r.polled).symm) hne
  | false =>
    have hsince : (withoutSecrets readers u r).since.lookup p = r.since.lookup p :=
      lookup_openFiles_open hsecret r.since
    have hpolled : (withoutSecrets readers u r).polled.lookup p = r.polled.lookup p :=
      lookup_openFiles_open hsecret r.polled
    rw [hsince, hpolled] at hne ⊢
    exact h p (mem_changedPaths.mpr hne)

theorem headerFree_of_added {ls : List ChangeLine} (h : ∀ l, ChangeLine.removed l ∉ ls) :
    HeaderFree false (ls.map fun l => stripCr l.render) := by
  induction ls with
  | nil => trivial
  | cons l ls ih =>
    have hrest : ∀ l', ChangeLine.removed l' ∉ ls := fun l' hmem => h l' (List.mem_cons_of_mem l hmem)
    have hno : isMinusHeader (stripCr l.render) = false :=
      isMinusHeader_change fun r heq => h r (heq ▸ List.mem_cons_self)
    refine ⟨(fun hflag => Bool.false_ne_true hflag.1), ?_⟩
    rw [hno]
    exact ih hrest

/-- The lines of the new message. -/
theorem hunks_message (git : LineDiff) : ∃ ls, git.hunks none (some (secretLine.text ++ ['\n'])) = some ls ∧
    ls.filterMap ChangeLine.addedText? = [secretLine.text] ∧
    HeaderFree false (ls.map fun l => stripCr l.render) := by
  obtain ⟨ls, hls, hadded, hremoved⟩ := git.fresh secretLine (by decide) (by decide)
  exact ⟨ls, hls, hadded, headerFree_of_added hremoved⟩

theorem since_withMessage (hsecret : secret readers u r.polled (threadPath channel) = true) :
    (withMessage readers u r channel).since.lookup (threadPath channel) = none :=
  lookup_openFiles_secret hsecret r.since

theorem polled_withMessage :
    (withMessage readers u r channel).polled.lookup (threadPath channel) =
      some (secretLine.text ++ ['\n']) :=
  (lookup_cons_ite _ _ _ _).trans (if_pos rfl)

theorem polled_withMessage_ne {p : Path} (h : p ≠ threadPath channel) :
    (withMessage readers u r channel).polled.lookup p =
      (withoutSecrets readers u r).polled.lookup p :=
  (lookup_cons_ite _ _ _ _).trans (if_neg h)

theorem contained_withMessage (h : Contained git r.since r.polled)
    (hplain : plainPath channel = true)
    (hsecret : secret readers u r.polled (threadPath channel) = true) :
    Contained git (withMessage readers u r channel).since
      (withMessage readers u r channel).polled := by
  intro p hp
  by_cases hthread : p = threadPath channel
  · subst hthread
    refine ⟨plainPath_append.mpr ⟨by decide, plainPath_append.mpr ⟨hplain, by decide⟩⟩, ?_⟩
    rw [since_withMessage hsecret, polled_withMessage]
    obtain ⟨ls, hls, -, hfree⟩ := hunks_message git
    rw [hls]
    exact hfree
  · have hne := mem_changedPaths.mp hp
    rw [polled_withMessage_ne hthread] at hne ⊢
    exact contained_withoutSecrets h p (mem_changedPaths.mpr hne)

theorem enumerates_diff (since polled : FileMap) :
    Enumerates (parseDiffOutput (diffText git since polled))
      (parseDiffOutput (diffText git since polled)) :=
  ⟨nodup_parseDiffOutput _, fun _ => rfl⟩

/-- Where the working tree shows the channel, its new message is a change. -/
theorem changeOf_message {diff : FileMap} (hslash : '/' ∉ channel)
    (hsecret : secret readers u r.polled (threadPath channel) = true)
    (hshown : shown readers (withMessage readers u r channel).work (viewer u) diff channel = true) :
    ∃ c, changeOf readers u (withMessage readers u r channel) diff
      (threadPath channel, secretLine.text) = .ok (some c) ∧ c.kind = .channel ∧
        c.channel = channel := by
  have hname : '/' ∉ channel ++ ".thread".toList := by
    rw [List.mem_append]
    exact fun hmem => hmem.elim hslash (by decide)
  have hstem : stripSuffix ".thread".toList (channel ++ ".thread".toList) = some channel :=
    stripSuffix_eq_some_iff.mpr rfl
  have hthread : (withMessage readers u r channel).work.lookup (threadPath channel) = none :=
    lookup_openFiles_secret hsecret r.work
  obtain ⟨recipients, hrecipients⟩ :
      ∃ f, channelRecipients readers (withMessage readers u r channel).work channel = .ok f := by
    simp only [channelRecipients, hthread, Option.getD_none]
    exact ⟨_, rfl⟩
  obtain ⟨e, he⟩ := readAdded_secretLine readers
  refine ⟨⟨channel, .channel, [withRecipients recipients e]⟩, ?_, rfl, rfl⟩
  have hpath : changeOf readers u (withMessage readers u r channel) diff
      (threadPath channel, secretLine.text) =
        channelChange readers (withMessage readers u r channel).work
          (shown readers (withMessage readers u r channel).work (viewer u) diff)
            (channel ++ ".thread".toList) secretLine.text := by
    refine (pathChange_channels _ _ _).trans ?_
    rw [cardPath_channels, splitOnce_eq_none hname]
    rfl
  rw [hpath]
  simp only [channelChange, if_neg hname, hstem, hshown, Bool.true_eq_false, if_false, hrecipients]
  simp only [threadChange, he]
  rfl

theorem exists_of_forall₂ {α β : Type} {R : α → β → Prop} {xs : List α} {ys : List β}
    (h : List.Forall₂ R xs ys) {x : α} (hx : x ∈ xs) : ∃ y, R x y := by
  induction h with
  | nil => cases hx
  | cons hxy _ ih =>
    rcases List.mem_cons.mp hx with rfl | hx
    · exact ⟨_, hxy⟩
    · exact ih hx

theorem lookup_of_mem_secret {r₁ : Snapshot} {diff₁ : FileMap}
    (h₁ : Observed readers u git r r₁ diff₁) {file : Path × Text} (hmem : file ∈ diff₁)
    (hnone : r₁.since.lookup file.1 = none) : r₁.polled.lookup file.1 ≠ none := by
  intro hpolled
  have hcaptured := (mem_diff h₁.contained h₁.diff).mp hmem
  rw [addedLines, if_pos (hnone.trans hpolled.symm), captured_nil] at hcaptured
  cases hcaptured

/-- A repository without secrets is answered where `r` is. -/
theorem answered_withoutSecrets {diff : FileMap} {cs : List (PollChange Json)}
    {changed : List Path} (hcontained : Contained git r.since r.polled)
    (hdiff : Enumerates diff (parseDiffOutput (diffText git r.since r.polled)))
    (hanswer : handlePoll readers r.work (viewer u) diff changed = .ok cs) {r₁ : Snapshot}
    {diff₁ : FileMap} (h₁ : Observed readers u git r r₁ diff₁)
    (hsecret : ∀ file ∈ diff₁, secret readers u r.polled file.1 = true →
      ∃ y, changeOf readers u r₁ diff₁ file = .ok y) (changed₁ : List Path) :
    ∃ cs₁, handlePoll readers r₁.work (viewer u) diff₁ changed₁ = .ok cs₁ := by
  have h₀ : Observed readers u git r r diff := ⟨agreeOff_refl r, hcontained, hdiff⟩
  obtain ⟨hdeparted, ys, hys, -⟩ := handlePoll_ok.mp hanswer
  have hall : ∀ file ∈ diff₁, ∃ y, changeOf readers u r₁ diff₁ file = .ok y := by
    intro file hmem
    cases hfile : secret readers u r.polled file.1 with
    | true => exact hsecret file hmem hfile
    | false =>
      obtain ⟨y, hy⟩ := exists_of_forall₂ hys (h₁.visible_mem h₀ hfile hmem)
      exact ⟨y, (h₁.visible_change h₀ hfile hmem).trans hy⟩
  obtain ⟨zs, hzs⟩ := mapM_succeeds hall
  exact ⟨_, handlePoll_ok.mpr ⟨(h₁.departed_same h₀).trans hdeparted, zs, mapM_eq_ok_iff.mp hzs,
    rfl⟩⟩

/-- The new message is in the diff, and it is the only secret there. -/
theorem message_mem {diff₂ : FileMap}
    (hsecret : secret readers u r.polled (threadPath channel) = true)
    (h₂ : Observed readers u git r (withMessage readers u r channel) diff₂) :
    (threadPath channel, secretLine.text) ∈ diff₂ := by
  obtain ⟨ls, hls, hadded, -⟩ := hunks_message git
  rw [mem_diff h₂.contained h₂.diff, since_withMessage hsecret, polled_withMessage, addedLines,
    if_neg (by simp), hls, Option.getD_some, hadded]
  decide

theorem eq_message_of_secret {diff₂ : FileMap}
    (hsecret : secret readers u r.polled (threadPath channel) = true)
    (h₂ : Observed readers u git r (withMessage readers u r channel) diff₂) {file : Path × Text}
    (hmem : file ∈ diff₂) (hfile : secret readers u r.polled file.1 = true) :
    file = (threadPath channel, secretLine.text) := by
  obtain ⟨p, added⟩ := file
  have hpath : p = threadPath channel := by
    by_contra hne
    exact lookup_of_mem_secret h₂ hmem (lookup_openFiles_secret hfile r.since)
      ((polled_withMessage_ne hne).trans (lookup_openFiles_secret hfile r.polled))
  subst hpath
  have hadded := (mem_iff_lookup h₂.diff.nodup).mp hmem
  rw [(mem_iff_lookup h₂.diff.nodup).mp (message_mem hsecret h₂)] at hadded
  rw [Option.some.inj hadded]

/-- A change of a thread that is told comes from the file of that thread. -/
theorem threadPath_of_told {diff : FileMap} {cs : List (PollChange Json)} {changed : List Path}
    (hanswer : handlePoll readers r.work (viewer u) diff changed = .ok cs) {c : PollChange Json}
    (hc : c ∈ cs.filter conversational) (hkind : c.kind = .channel) :
    ∃ file ∈ diff, file.1 = threadPath c.channel := by
  rw [handlePoll_told hanswer] at hc
  obtain ⟨file, hmem, hfile⟩ := List.mem_filterMap.mp hc
  cases hchange : changeOf readers u r diff file with
  | error e =>
    rw [hchange] at hfile
    cases hfile
  | ok y =>
    rw [hchange, told] at hfile
    obtain ⟨rfl, -⟩ := Option.filter_eq_some_iff.mp hfile
    exact ⟨file, hmem, (pathChange_channel hchange hkind).1⟩

theorem hidden_of_confidential {cs : List (PollChange Json)}
    (hcontained : Contained git r.since r.polled) (hanswer : Polls readers u git r (.ok cs))
    (h : Confidential readers u git r) : LocallyHidden readers u r := by
  intro channel hslash hplain hexcluded
  by_contra hmember
  obtain ⟨diff, hdiff, hpoll⟩ := hanswer
  have hsecret : secret readers u r.polled (threadPath channel) = true :=
    (secret_of_owner (ownerOf_threadPath hslash)).trans hexcluded
  -- one repository without any secret, and one with a message in the channel
  have h₁ : Observed readers u git r (withoutSecrets readers u r) _ :=
    ⟨agreeOff_withoutSecrets r, contained_withoutSecrets hcontained, enumerates_diff _ _⟩
  have h₂ : Observed readers u git r (withMessage readers u r channel) _ :=
    ⟨agreeOff_withMessage hsecret, contained_withMessage hcontained hplain hsecret,
      enumerates_diff _ _⟩
  have hmessage := message_mem hsecret h₂
  have hshown : shown readers (withMessage readers u r channel).work (viewer u)
      (parseDiffOutput (diffText git (withMessage readers u r channel).since
        (withMessage readers u r channel).polled)) channel = true := by
    rw [shown_eq_isMember (List.mem_map_of_mem hmessage) (extractChannel_threadPath hslash),
      isMember_congr (h₂.agree _ (not_secret_of_owner (ownerOf_metaPath hslash))).2.2]
    exact eq_true_of_ne_false hmember
  obtain ⟨c, hc, hkind, hname⟩ := changeOf_message hslash hsecret hshown
  have hnone : ∀ file, secret readers u r.polled file.1 = true → file ∉ parseDiffOutput
      (diffText git (withoutSecrets readers u r).since (withoutSecrets readers u r).polled) :=
    fun file hfile hmem => lookup_of_mem_secret h₁ hmem (lookup_openFiles_secret hfile r.since)
      (lookup_openFiles_secret hfile r.polled)
  obtain ⟨cs₁, hok₁⟩ := answered_withoutSecrets hcontained hdiff hpoll.symm h₁
    (fun file hmem hfile => absurd hmem (hnone file hfile)) (changedPaths _ _)
  obtain ⟨cs₂, hok₂⟩ := answered_withoutSecrets hcontained hdiff hpoll.symm h₂
    (fun file hmem hfile => ⟨some c, (eq_message_of_secret hsecret h₂ hmem hfile) ▸ hc⟩)
    (changedPaths _ _)
  have hsame := h _ _ h₁.agree h₂.agree h₁.contained h₂.contained _ _
    ⟨_, h₁.diff, hok₁.symm⟩ ⟨_, h₂.diff, hok₂.symm⟩
  have htold : c ∈ cs₂.filter conversational := by
    rw [handlePoll_told hok₂]
    refine List.mem_filterMap.mpr ⟨_, hmessage, ?_⟩
    rw [hc, told, Option.filter_some, conversational, hkind]
    rfl
  have hleak : c ∈ cs₁.filter conversational := (List.Perm.mem_iff hsame).mpr htold
  obtain ⟨file, hmem, hpath⟩ := threadPath_of_told hok₁ hleak hkind
  rw [hname] at hpath
  exact hnone file (hpath ▸ hsecret) hmem

/-- A poll that is answered keeps the secrets of the polled commit exactly if the working tree
hides every channel that the commit hides. -/
theorem poll_confidential_iff {cs : List (PollChange Json)}
    (hcontained : Contained git r.since r.polled) (hanswer : Polls readers u git r (.ok cs)) :
    Confidential readers u git r ↔ LocallyHidden readers u r :=
  ⟨hidden_of_confidential hcontained hanswer, confidential_of_hidden⟩

/-- A working tree with the metadata of the polled commit hides what the commit hides. -/
theorem locallyHidden_of_synced
    (h : ∀ channel, r.work.lookup (metaPath channel) = r.polled.lookup (metaPath channel)) :
    LocallyHidden readers u r := by
  intro channel _ _ hexcluded
  obtain ⟨info, hinfo, hout⟩ := (Option.any_eq_true _ _).mp hexcluded
  have hread : (r.work.lookup (metaPath channel)).bind readers.channel.fromStr = some info := by
    rw [h]
    exact hinfo
  obtain ⟨hne, hnot⟩ : info.members ≠ [] ∧ u ∉ info.members := by simpa using hout
  simp only [isMember, hread, if_neg hne]
  simpa [viewer] using hnot

end Leak

section Samples

open ConflictReplay ChannelMembership ChannelPrivacy

/-- The lines of a text, with their carriage returns. -/
def rawLines : Text → List Text
  | [] => []
  | c :: t =>
    if c = '\n' then [] :: rawLines t
    else match rawLines t with
      | [] => [[c]]
      | l :: ls => (c :: l) :: ls

def contentLines (content : Option Text) : List ContentLine :=
  (content.elim [] rawLines).filterMap fun l => if h : '\n' ∉ l then some ⟨l, h⟩ else none

theorem rawLines_line {l : Text} (h : '\n' ∉ l) : rawLines (l ++ ['\n']) = [l] := by
  induction l with
  | nil => rfl
  | cons c l ih =>
    rw [List.mem_cons, not_or] at h
    simp only [List.cons_append, rawLines, if_neg (Ne.symm h.1), ih h.2]

/-- A diff that takes out all old lines and puts in all new ones. -/
def wholeDiff : LineDiff where
  preamble _ _ _ := []
  hunks old new :=
    some ((contentLines old).map ChangeLine.removed ++ (contentLines new).map ChangeLine.added)
  deleted old ls h := by
    obtain rfl := (Option.some.inj h).symm
    have hnew : contentLines none = [] := rfl
    rw [hnew, List.map_nil, List.append_nil, List.filterMap_eq_nil_iff]
    intro l hl
    obtain ⟨r, -, rfl⟩ := List.mem_map.mp hl
    rfl
  fresh l _ _ := by
    have hnew : contentLines (some (l.text ++ ['\n'])) = [l] := by
      simp [contentLines, rawLines_line l.oneLine, l.oneLine]
    refine ⟨[.added l], by rw [hnew]; rfl, rfl, ?_⟩
    intro r hr
    cases List.mem_singleton.mp hr

def plansMeta : Path × Text :=
  (metaPath "plans".toList,
    channelText (channelOf ["alice".toList, "bob".toList]))

def generalThread : Path × Text :=
  (threadPath "general".toList, "[L000001][P000000][@bob][20260101T000000Z] welcome\n".toList)

/-- Alice and Bob have opened a channel and written a message; the working tree knows of the
channel, or is behind. -/
def plansRepo (synced : Bool) (body : Text) : Snapshot where
  since := []
  polled := (threadPath "plans".toList,
    "[L000001][P000000][@alice][20260101T000000Z] ".toList ++ (body ++ ['\n'])) ::
      [generalThread, plansMeta]
  work := if synced then [generalThread, plansMeta] else [generalThread]

instance {Json : Type} [DecidableEq Json] (a b : Except PollFault (List (PollChange Json))) :
    Decidable (SameAnswer a b) :=
  match a, b with
  | .ok cs, .ok cs' =>
    inferInstanceAs (Decidable ((cs.filter conversational).Perm (cs'.filter conversational)))
  | .error e, .error e' => inferInstanceAs (Decidable (PollFault.answer e = PollFault.answer e'))
  | .ok _, .error _ => isFalse id
  | .error _, .ok _ => isFalse id

theorem plansRepo_agree (synced : Bool) (body body' : Text) :
    AgreeOff sampleReaders "carol".toList (plansRepo synced body)
      (plansRepo synced body') := by
  intro p hp
  have hne : p ≠ threadPath "plans".toList := by
    rintro rfl
    have hsecret : secret sampleReaders "carol".toList
        (plansRepo synced body).polled (threadPath "plans".toList) = true := by
      refine (secret_of_owner (ownerOf_threadPath (by decide))).trans ?_
      have hmeta : (plansRepo synced body).polled.lookup (metaPath "plans".toList) =
          some plansMeta.2 := by
        refine (lookup_cons_ite _ _ _ _).trans ?_
        rw [if_neg (by decide)]
        decide +kernel
      simp only [excludes, Bool.false_eq_true, if_false, hmeta]
      decide +kernel
    rw [hsecret] at hp
    cases hp
  refine ⟨rfl, ?_, rfl⟩
  exact ((lookup_cons_ite _ _ _ _).trans (if_neg hne)).trans
    ((lookup_cons_ite _ _ _ _).trans (if_neg hne)).symm

def plansAnswer (synced : Bool) (body : Text) : Except PollFault (List (PollChange EventObject)) :=
  handlePoll sampleReaders (plansRepo synced body).work (viewer "carol".toList)
    (parseDiffOutput (diffText wholeDiff (plansRepo synced body).since
      (plansRepo synced body).polled))
    (changedPaths (plansRepo synced body).since (plansRepo synced body).polled)

def generalChange : PollChange EventObject :=
  ⟨"general".toList, .channel, [.entry (.message ⟨1, 0, ⟨"bob".toList, .inl (by decide)⟩,
    "20260101T000000Z".toList, "welcome".toList⟩) none]⟩

theorem poll_confidential_synced :
    plansAnswer true "launch".toList = .ok [generalChange] ∧
      Confidential sampleReaders "carol".toList wholeDiff (plansRepo true "launch".toList) := by
  have hevaluated : plansAnswer true "launch".toList = .ok [generalChange] ∧
      Contained wholeDiff (plansRepo true "launch".toList).since
        (plansRepo true "launch".toList).polled := by
    unfold plansAnswer plansRepo generalChange generalThread
    repeat rw [String.toList_ofList]
    decide +kernel
  obtain ⟨hanswer, hcontained⟩ := hevaluated
  refine ⟨hanswer, (poll_confidential_iff hcontained
    ⟨_, enumerates_diff _ _, hanswer.symm⟩).mpr (locallyHidden_of_synced fun channel => ?_)⟩
  exact ((lookup_cons_ite _ _ _ _).trans (if_neg (metaPath_ne_threadPath channel _))).symm

/-- While the working tree is behind, Carol reads what Alice wrote to Bob. -/
theorem poll_leaks_behind :
    ¬Confidential sampleReaders "carol".toList wholeDiff
      (plansRepo false "launch".toList) := by
  have hevaluated : (Contained wholeDiff (plansRepo false "launch".toList).since
        (plansRepo false "launch".toList).polled ∧
      Contained wholeDiff (plansRepo false "cancel".toList).since
        (plansRepo false "cancel".toList).polled) ∧
      ¬ SameAnswer (plansAnswer false "launch".toList) (plansAnswer false "cancel".toList) := by
    unfold plansAnswer plansRepo generalThread
    repeat rw [String.toList_ofList]
    decide +kernel
  obtain ⟨⟨hlaunch, hcancel⟩, hother⟩ := hevaluated
  intro h
  exact hother (h _ _ (plansRepo_agree false "launch".toList "launch".toList)
    (plansRepo_agree false "launch".toList "cancel".toList) hlaunch hcancel
    _ _ ⟨_, enumerates_diff _ _, rfl⟩ ⟨_, enumerates_diff _ _, rfl⟩)

end Samples

end PollSecrecy
