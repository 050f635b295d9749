import GitIM.Channels
import GitIM.TableCodec

/-!
# Members and membership events

The member list of a channel and the join and leave events of its thread tell the same
story, in every sequence of calls in which no call is interrupted between its two
writes.
-/

namespace ChannelMembership

open TextLines TextScan FileTree Checked Runs ThreadFormat ThreadGrammar ThreadRoundTrip
  ThreadValidation ThreadMerge ConflictReplay DmThreads Channels TableCodec

section Fold
variable {Json : Type} (json : EventJson Json)

/-- The users a membership event is about: its targets, or its author. -/
def eventUsers (ev : ChannelEvent Json) : List Text :=
  (json.readTargets ev.info).getD [ev.author.name]

def applyEntry (members : List Text) : ThreadEntry Json → List Text
  | .message _ => members
  | .event ev =>
    if ev.eventType = EventKind.join.name then members ++ eventUsers json ev
    else if ev.eventType = EventKind.leave.name then members.filter (· ∉ eventUsers json ev)
    else members

/-- The creation event stands for its author and its targets. -/
def creationMembers : ThreadEntry Json → List Text
  | .message _ => []
  | .event ev => ev.author.name :: (json.readTargets ev.info).getD []

/-- The members a thread tells of. -/
def foldMembers : List (ThreadEntry Json) → List Text
  | [] => []
  | first :: rest => rest.foldl (applyEntry json) (creationMembers json first)

theorem foldMembers_concat {es : List (ThreadEntry Json)} (hne : es ≠ [])
    (entry : ThreadEntry Json) :
    foldMembers json (es ++ [entry]) = applyEntry json (foldMembers json es) entry := by
  obtain ⟨first, rest, rfl⟩ := List.exists_cons_of_ne_nil hne
  rw [List.cons_append, foldMembers, foldMembers, List.foldl_append]
  rfl

/-- The JSON library reads back the objects of membership events. -/
structure Lawful : Prop where
  oneLine : json.toJsonCodec.OneLine
  emptyBack : json.fromStr (json.toStr json.empty) = some json.empty
  targetsBack : ∀ ts, json.fromStr (json.toStr (json.targets ts)) = some (json.targets ts)
  readEmpty : json.readTargets json.empty = none
  readTargets : ∀ ts, json.readTargets (json.targets ts) = some ts

variable {json}

theorem eventMeta_back (h : Lawful json) (targets : List Text) :
    json.fromStr (json.toStr (eventMeta json targets)) = some (eventMeta json targets) := by
  rw [eventMeta]
  split
  · exact h.emptyBack
  · exact h.targetsBack targets

theorem readTargets_eventMeta (h : Lawful json) (targets : List Text) :
    json.readTargets (eventMeta json targets) = if targets = [] then none else some targets := by
  rw [eventMeta]
  split
  · exact h.readEmpty
  · exact h.readTargets targets

/-- The event of a call, read back, is about the users the call is about. -/
theorem mem_applyEntry (h : Lawful json) (kind : EventKind) (ln : Nat) (author : Handler)
    (ts : Text) (targets : List Text) {members told : List Text}
    (hsame : ∀ u, u ∈ members ↔ u ∈ told) (u : Text) :
    u ∈ updateMembers kind (affected author.name targets) members ↔
      u ∈ applyEntry json told
        (.event ⟨ln, 0, author, ts, kind.name, eventMeta json targets⟩) := by
  have husers : eventUsers json ⟨ln, 0, author, ts, kind.name, eventMeta json targets⟩ =
      affected author.name targets := by
    rw [eventUsers, readTargets_eventMeta h, affected]
    split <;> rfl
  rw [mem_updateMembers, applyEntry, husers]
  cases kind with
  | join => simp [hsame]
  | leave =>
    have hne : EventKind.leave.name ≠ EventKind.join.name := by decide
    simp [hne, hsame]

end Fold

section Agreement
variable {Json : Type} (json : EventJson Json) (yaml : MetaCodec)

/-- The two files of a channel agree: the members are listed once, and they are those the events of
the thread tell of. -/
def MembersAgree (tree : FileMap) (channel : Text) : Prop :=
  ∃ info file, readMeta yaml tree channel = .ok info ∧
    parseThread json.toJsonCodec ((tree.lookup (threadPath channel)).getD []) = .ok file ∧
    info.members.Nodup ∧ ∀ u, u ∈ info.members ↔ u ∈ foldMembers json file.entries

/-- Agreement, with what the next call needs: the thread has its creation event and its last line
is complete. -/
structure Consistent (tree : FileMap) (channel : Text) (info : ChannelMeta) (thread : Text)
    (file : ThreadFile Json) : Prop where
  stored : readMeta yaml tree channel = .ok info
  written : tree.lookup (threadPath channel) = some thread
  ended : EndsInLf thread
  parsed : parseThread json.toJsonCodec thread = .ok file
  created : file.entries ≠ []
  nodup : info.members.Nodup
  told : ∀ u, u ∈ info.members ↔ u ∈ foldMembers json file.entries

def AgreesAt (tree : FileMap) (channel : Text) : Prop :=
  ∃ info thread file, Consistent json yaml tree channel info thread file

variable {json yaml}

theorem Consistent.agree {tree : FileMap} {channel thread : Text} {info : ChannelMeta}
    {file : ThreadFile Json} (h : Consistent json yaml tree channel info thread file) :
    MembersAgree json yaml tree channel :=
  ⟨info, file, h.stored, by rw [h.written]; exact h.parsed, h.nodup, h.told⟩

theorem formatEvent_endsInLf (codec : JsonCodec Json) (ln : Nat) (author : Handler)
    (ts kind : Text) (info : Json) : EndsInLf (formatEvent codec ln author ts kind info) := by
  have hconcat : formatEvent codec ln author ts kind info =
      (formatPrefix ln 0 author ts ++ ("[E:".toList ++ (kind ++ ("] ".toList ++
        codec.toStr info)))) ++ ['\n'] := by
    simp [formatEvent]
  rw [hconcat, EndsInLf, List.getLast?_concat]

theorem eventKind_shape (kind : EventKind) : EventShape kind.name := by
  cases kind with
  | join => exact ⟨'j', "oin".toList, rfl, by decide, by decide⟩
  | leave => exact ⟨'l', "eave".toList, rfl, by decide, by decide⟩

/-- The line of a membership event is one entry of the thread. -/
theorem parseThread_event (h : Lawful json) {ln : Nat} (hln : ln < u64Bound) (author : Handler)
    {ts : Text} (hts : TimestampShape ts) (kind : EventKind) (targets : List Text) :
    parseThread json.toJsonCodec
      (formatEvent json.toJsonCodec ln author ts kind.name (eventMeta json targets)) =
        .ok ⟨[.event ⟨ln, 0, author, ts, kind.name, eventMeta json targets⟩]⟩ :=
  (parseThread_eq_ok_iff _).mpr (derives_formatEvent _ h.oneLine author hln hts
    (eventKind_shape kind) (eventMeta_back h targets))

theorem nextLine_lt (n : Nat) : nextLine n < u64Bound := Nat.mod_lt _ (by decide)

/-- One call of `handle_join_channel` or `handle_leave_channel`, with the users registered at that
time. -/
structure ChannelCall where
  kind : EventKind
  channel : Text
  targets : List Text
  author : Text
  users : List Text
  env : CallEnv

variable (json yaml) in
/-- The response to a call and the files behind it. -/
def answer (tree : FileMap) (c : ChannelCall) : Except Text Unit × FileMap :=
  writeChannelEvent json yaml c.users tree c.kind c.channel c.targets c.author c.env

variable (json yaml) in
/-- The event of a call, if it passes the checks. -/
def prepared (tree : FileMap) (c : ChannelCall) : Except Text Prepared :=
  prepareEvent json yaml c.users tree c.kind c.channel c.targets c.author c.env.now

variable {tree : FileMap} {c : ChannelCall} {name : Text}

theorem Consistent.keeps {thread : Text} {info : ChannelMeta} {file : ThreadFile Json}
    {after : FileMap} (h : Consistent json yaml tree name info thread file)
    (hmeta : after.lookup (metaPath name) = tree.lookup (metaPath name))
    (hthread : after.lookup (threadPath name) = tree.lookup (threadPath name)) :
    Consistent json yaml after name info thread file := by
  refine { h with stored := ?_, written := by rw [hthread, h.written] }
  rw [readMeta_ok_iff, hmeta]
  exact readMeta_ok_iff.mp h.stored

/-- An event of the channel takes agreement over to the files after both writes. -/
theorem agreesAt_recorded (hjson : Lawful json)
    (hyaml : ∀ m, yaml.fromStr (yaml.toStr m) = some m) {p : Prepared}
    (h : AgreesAt json yaml tree c.channel) (hprepared : prepared json yaml tree c = .ok p) :
    AgreesAt json yaml (recorded yaml tree c.channel p) c.channel := by
  obtain ⟨info, thread, file, h⟩ := h
  obtain ⟨handler, info', file', hname, hread, -, hparse, rfl⟩ := prepareEvent_ok hprepared
  rw [h.stored] at hread
  cases hread
  rw [h.written, Option.getD_some, h.parsed] at hparse
  cases hparse
  have hline := parseThread_event hjson (nextLine_lt (lastLineNumber file.entries)) handler
    c.env.stamp c.kind c.targets
  refine ⟨{ info with members := updateMembers c.kind (affected c.author c.targets) info.members },
    _, _, ?_, ?_, ?_, parseThread_append _ h.parsed hline (Or.inr h.ended), ?_, ?_, ?_⟩
  · rw [readMeta_ok_iff]
    exact ⟨_, by rw [recorded, lookup_writeFile, if_pos rfl], hyaml _⟩
  · rw [recorded, lookup_writeFile, if_neg (metaPath_ne_threadPath c.channel c.channel).symm,
      lookup_writeFile, if_pos rfl, h.written, Option.getD_some]
  · have hend := formatEvent_endsInLf json.toJsonCodec (nextLine (lastLineNumber file.entries))
      handler c.env.now c.kind.name (eventMeta json c.targets)
    rw [EndsInLf] at hend ⊢
    rw [List.getLast?_append, hend]
    rfl
  · simp
  · exact nodup_updateMembers h.nodup
  · intro u
    rw [foldMembers_concat json h.created, ← hname]
    exact mem_applyEntry hjson c.kind _ handler _ c.targets h.told u

end Agreement

section Interruption
variable {Json : Type} (json : EventJson Json) (yaml : MetaCodec)

/-- No write stops halfway: the line of an event arrives as a whole or not at all, and once it is
in the thread the metadata is written too. -/
def WritesComplete (env : CallEnv) : Prop :=
  (∀ n, env.append ≠ .stopped (n + 1)) ∧
    (env.append = .complete → env.serialized = true ∧ env.metaWrite = .complete)

/-- A call on the channel that passes its checks is not interrupted in its writes. -/
def Uninterrupted (name : Text) (tree : FileMap) (c : ChannelCall) : Prop :=
  c.channel = name → (∃ p, prepared json yaml tree c = .ok p) → WritesComplete c.env

/-- Both files of the channel are as they were. -/
def SameFiles (name : Text) (before after : FileMap) : Prop :=
  after.lookup (metaPath name) = before.lookup (metaPath name) ∧
    after.lookup (threadPath name) = before.lookup (threadPath name)

/-- What a call owes to a channel: its two files agree afterwards, and an error changes none. -/
def KeepsPromise (name : Text) (tree : FileMap) (c : ChannelCall) : Prop :=
  MembersAgree json yaml (answer json yaml tree c).2 name ∧
    ∀ e, (answer json yaml tree c).1 = .error e → SameFiles name tree (answer json yaml tree c).2

/-- The calls come one after the other, and each is answered. -/
def step (tree : FileMap) (c : ChannelCall) : Option FileMap := some (answer json yaml tree c).2

variable {json yaml} {tree : FileMap} {c : ChannelCall} {name : Text}

theorem AgreesAt.sameFiles {after : FileMap} (h : AgreesAt json yaml tree name)
    (hsame : SameFiles name tree after) : AgreesAt json yaml after name := by
  obtain ⟨info, thread, file, h⟩ := h
  exact ⟨info, thread, file, h.keeps hsame.1 hsame.2⟩

theorem AgreesAt.agree (h : AgreesAt json yaml tree name) : MembersAgree json yaml tree name := by
  obtain ⟨info, thread, file, h⟩ := h
  exact h.agree

theorem sameFiles_elsewhere (hne : c.channel ≠ name) :
    SameFiles name tree (answer json yaml tree c).2 :=
  ⟨writeChannelEvent_frame (metaPath_ne_threadPath name c.channel)
      fun heq => hne (metaPath_injective heq).symm,
    writeChannelEvent_frame (fun heq => hne (threadPath_injective heq).symm)
      (metaPath_ne_threadPath c.channel name).symm⟩

/-- A call that fails without an interruption has changed nothing. -/
theorem sameFiles_of_error (hagree : AgreesAt json yaml tree c.channel)
    (hwrites : Uninterrupted json yaml c.channel tree c) {e : Text}
    (herror : (answer json yaml tree c).1 = .error e) :
    SameFiles c.channel tree (answer json yaml tree c).2 := by
  obtain ⟨info, thread, file, hagree⟩ := hagree
  rw [answer, writeChannelEvent] at herror ⊢
  cases hprepared : prepareEvent json yaml c.users tree c.kind c.channel c.targets c.author
      c.env.now with
  | error e => exact ⟨rfl, rfl⟩
  | ok p =>
    obtain ⟨hstopped, hcomplete⟩ := hwrites rfl ⟨p, hprepared⟩
    rw [hprepared] at herror
    cases happend : c.env.append with
    | notOpened => exact ⟨rfl, rfl⟩
    | stopped n =>
      cases n with
      | succ n => exact absurd happend (hstopped n)
      | zero =>
        -- opened for appending and closed again: the thread of a channel is there already
        have hne := metaPath_ne_threadPath c.channel c.channel
        simp [SameFiles, appendFile, hne, hagree.written]
    | complete =>
      obtain ⟨hserialized, hwrite⟩ := hcomplete happend
      simp [happend, appendFile, hserialized, hwrite, replaceFile] at herror

theorem formatEvent_ne_nil (codec : JsonCodec Json) (ln : Nat) (author : Handler)
    (ts kind : Text) (info : Json) : formatEvent codec ln author ts kind info ≠ [] := by
  simp [formatEvent]

/-- An interrupted call fails with a changed thread. -/
theorem interrupted_changes (hagree : AgreesAt json yaml tree c.channel) {p : Prepared}
    (hprepared : prepared json yaml tree c = .ok p) (hwrites : ¬ WritesComplete c.env) :
    ∃ e, (answer json yaml tree c).1 = .error e ∧
      ¬ SameFiles c.channel tree (answer json yaml tree c).2 := by
  obtain ⟨info, thread, file, hagree⟩ := hagree
  have hline : p.line ≠ [] := by
    obtain ⟨handler, -, file', -, -, -, -, rfl⟩ := prepareEvent_ok hprepared
    exact formatEvent_ne_nil _ _ _ _ _ _
  have hne := metaPath_ne_threadPath c.channel c.channel
  rw [prepared] at hprepared
  rw [answer, writeChannelEvent, hprepared]
  cases happend : c.env.append with
  | notOpened => exact absurd ⟨by simp [happend], by simp [happend]⟩ hwrites
  | stopped n =>
    cases n with
    | zero => exact absurd ⟨by simp [happend], by simp [happend]⟩ hwrites
    | succ n => exact ⟨_, rfl, by simp [SameFiles, appendFile, hagree.written, hline]⟩
  | complete =>
    cases hserialized : c.env.serialized with
    | false =>
      exact ⟨_, rfl, by simp [SameFiles, appendFile, hagree.written, hline]⟩
    | true =>
      cases hwrite : c.env.metaWrite with
      | notOpened =>
        exact ⟨_, rfl, by simp [SameFiles, appendFile, replaceFile, hagree.written, hline]⟩
      | stopped n =>
        exact ⟨_, rfl, by simp [SameFiles, appendFile, replaceFile, hagree.written, hline, hne.symm]⟩
      | complete =>
        exact absurd ⟨by simp [happend], fun _ => ⟨hserialized, hwrite⟩⟩ hwrites

theorem step_agreesAt (hjson : Lawful json) (hyaml : ∀ m, yaml.fromStr (yaml.toStr m) = some m)
    (hagree : AgreesAt json yaml tree name) (hwrites : Uninterrupted json yaml name tree c) :
    AgreesAt json yaml (answer json yaml tree c).2 name := by
  by_cases hname : c.channel = name
  · subst hname
    cases hresponse : (answer json yaml tree c).1 with
    | error e => exact hagree.sameFiles (sameFiles_of_error hagree hwrites hresponse)
    | ok u =>
      obtain ⟨p, hprepared, hfiles⟩ := writeChannelEvent_ok hresponse
      rw [answer, hfiles]
      exact agreesAt_recorded hjson hyaml hagree hprepared
  · exact hagree.sameFiles (sameFiles_elsewhere hname)

/-- Where the files agree, a call keeps its promise exactly if it is not interrupted. -/
theorem keepsPromise_iff (hjson : Lawful json) (hyaml : ∀ m, yaml.fromStr (yaml.toStr m) = some m)
    (hagree : AgreesAt json yaml tree name) :
    KeepsPromise json yaml name tree c ↔ Uninterrupted json yaml name tree c := by
  constructor
  · rintro ⟨-, hkept⟩ hname ⟨p, hprepared⟩
    subst hname
    by_contra hwrites
    obtain ⟨e, herror, hchanged⟩ := interrupted_changes hagree hprepared hwrites
    exact hchanged (hkept e herror)
  · intro hwrites
    refine ⟨(step_agreesAt hjson hyaml hagree hwrites).agree, fun e herror => ?_⟩
    by_cases hname : c.channel = name
    · subst hname
      exact sameFiles_of_error hagree hwrites herror
    · exact sameFiles_elsewhere hname

theorem agreesAt_created (hjson : Lawful json)
    (hyaml : ∀ m, yaml.fromStr (yaml.toStr m) = some m) {users : List Text} {created : FileMap}
    {displayName introduction : Option Text} {author : Text} {invitees : List Text} {env : CallEnv}
    (hcreate : createChannel json yaml users tree name displayName introduction author invitees
      env = .ok created) : AgreesAt json yaml created name := by
  obtain ⟨handler, info, extra, hname, hmembers, hadded, rfl⟩ := createChannel_ok hcreate
  refine ⟨info, _, _, ?_, by rw [lookup_writeFile, if_pos rfl], formatEvent_endsInLf _ _ _ _ _ _,
    parseThread_event hjson (by decide) handler env.stamp .join extra, by simp, ?_, ?_⟩
  · rw [readMeta_ok_iff]
    exact ⟨_, by rw [lookup_writeFile, if_neg (metaPath_ne_threadPath name name),
      lookup_writeFile, if_pos rfl], hyaml info⟩
  · rw [hadded]
    exact nodup_addMissing invitees (List.nodup_singleton author)
  · have htold : foldMembers json
        [.event ⟨1, 0, handler, env.now, EventKind.join.name, eventMeta json extra⟩] =
          author :: extra := by
      rw [foldMembers, List.foldl_nil, creationMembers, readTargets_eventMeta hjson, hname]
      split
      · rename_i hextra
        rw [hextra]
        rfl
      · rfl
    intro u
    rw [htold, hmembers]

/-- After the creation of a channel its members and the events of its thread agree in every state
of a run, and every failing call leaves both files alone, exactly if no call of the run is
interrupted between its writes. -/
theorem members_agree_iff (json : EventJson Json) (yaml : MetaCodec) (users : List Text)
    (tree created : FileMap) (name : Text) (displayName introduction : Option Text) (author : Text)
    (invitees : List Text) (env : CallEnv) (calls : List ChannelCall) (hjson : Lawful json)
    (hyaml : ∀ m, yaml.fromStr (yaml.toStr m) = some m)
    (hcreate : createChannel json yaml users tree name displayName introduction author invitees
      env = .ok created) :
    (MembersAgree json yaml created name ∧
      Along (step json yaml) (KeepsPromise json yaml name) created calls) ↔
    Along (step json yaml) (Uninterrupted json yaml name) created calls := by
  have hcreated : AgreesAt json yaml created name := agreesAt_created hjson hyaml hcreate
  have hpreserve : ∀ s c t, AgreesAt json yaml s name → Uninterrupted json yaml name s c →
      step json yaml s c = some t → AgreesAt json yaml t name := by
    intro s c t hs hc ht
    cases ht
    exact step_agreesAt hjson hyaml hs hc
  rw [along_congr hpreserve (fun s c hs => (keepsPromise_iff hjson hyaml hs).symm) hcreated]
  exact ⟨fun h => h.2, fun h => ⟨hcreated.agree, h⟩⟩

end Interruption

section Samples

instance encodableMeta : Encodable ChannelMeta :=
  Encodable.ofLeftInverse
    (fun m => (m.displayName, m.createdBy, m.createdAt, m.introduction, m.members, m.project))
    (fun m => ⟨m.1, m.2.1, m.2.2.1, m.2.2.2.1, m.2.2.2.2.1, m.2.2.2.2.2⟩) fun _ => rfl

/-- The values of the samples: null, and objects with or without targets. -/
inductive EventObject where
  | null
  | object (targets : Option (List Text))
  deriving DecidableEq

def EventObject.toOption : EventObject → Option (Option (List Text))
  | null => none
  | object targets => some targets

def EventObject.ofOption : Option (Option (List Text)) → EventObject
  | none => null
  | some targets => object targets

instance encodableObject : Encodable EventObject :=
  Encodable.ofLeftInverse EventObject.toOption EventObject.ofOption fun v => by cases v <;> rfl

def objectTable : List (EventObject × Text) :=
  [(.null, "null".toList), (.object none, "\x7b\x7d".toList),
    (.object (some ["bob".toList]), "\x7b\"targets\":[\"bob\"]\x7d".toList)]

def objectJson : EventJson EventObject where
  null := .null
  fromStr := tableValue objectTable
  toStr := tableText objectTable
  isObject
    | .null => false
    | .object _ => true
  empty := .object none
  targets ts := .object (some ts)
  readTargets
    | .null => none
    | .object ts => ts

theorem objectTable_distinct : Distinct objectTable := by decide +kernel

theorem objectJson_lawful : Lawful objectJson where
  oneLine :=
    { nonempty := tableText_ne_nil (by decide)
      noLf := not_mem_tableText (by decide) (by decide) (by decide)
      noCr := not_mem_tableText (by decide) (by decide) (by decide) }
  emptyBack := tableValue_tableText objectTable_distinct (.object none)
  targetsBack ts := tableValue_tableText objectTable_distinct (.object (some ts))
  readEmpty := rfl
  readTargets _ := rfl

def metaTable : List (ChannelMeta × Text) :=
  [["alice".toList], ["alice".toList, "bob".toList]].map fun members =>
    (channelOf members, blockYaml (channelOf members))

def tableYaml : MetaCodec := ⟨tableValue metaTable, tableText metaTable⟩

theorem tableYaml_back (m : ChannelMeta) : tableYaml.fromStr (tableYaml.toStr m) = some m :=
  tableValue_tableText (by decide +kernel) m

def calmEnv : CallEnv := ⟨newYear, newYear_shape, .complete, true, .complete⟩

/-- The metadata cannot be opened for writing. -/
def metaLocked : CallEnv := { calmEnv with metaWrite := .notOpened }

def sampleCall (kind : EventKind) (targets : List Text) (author : Text) (env : CallEnv) :
    ChannelCall :=
  ⟨kind, "general".toList, targets, author, sampleUsers, env⟩

def generalChannel : FileMap :=
  [(metaPath "general".toList, tableYaml.toStr (channelOf ["alice".toList])),
    (threadPath "general".toList,
      "[L000001][P000000][@alice][20260101T000000Z][E:join] \x7b\x7d\n".toList)]

theorem generalChannel_created :
    createChannel objectJson tableYaml sampleUsers [] "general".toList (some "General".toList)
      (some "all".toList) "alice".toList [] calmEnv = .ok generalChannel := by
  unfold generalChannel
  repeat rw [String.toList_ofList]
  decide +kernel

/-- Alice pulls bob in and removes him again, and he joins by himself. -/
def pulledAndRemoved : List ChannelCall :=
  [sampleCall .join ["bob".toList] "alice".toList calmEnv,
    sampleCall .leave ["bob".toList] "alice".toList calmEnv,
    sampleCall .join [] "bob".toList calmEnv]

theorem members_agree_pulled :
    (run (step objectJson tableYaml) generalChannel pulledAndRemoved).bind
        (fun t => t.lookup (metaPath "general".toList)) =
      some (tableYaml.toStr (channelOf ["alice".toList, "bob".toList])) ∧
    MembersAgree objectJson tableYaml generalChannel "general".toList ∧
    Along (step objectJson tableYaml) (KeepsPromise objectJson tableYaml "general".toList)
      generalChannel pulledAndRemoved := by
  refine ⟨?_, (members_agree_iff objectJson tableYaml sampleUsers [] generalChannel
    "general".toList _ _ "alice".toList [] calmEnv pulledAndRemoved objectJson_lawful
    tableYaml_back generalChannel_created).mpr (along_of_forall ?_ generalChannel)⟩
  · unfold pulledAndRemoved generalChannel
    repeat rw [String.toList_ofList]
    decide +kernel
  intro c hc s hname hprepared
  have henv : c.env = calmEnv := by
    simp only [pulledAndRemoved, sampleCall, List.mem_cons, List.not_mem_nil, or_false] at hc
    rcases hc with rfl | rfl | rfl <;> rfl
  rw [henv]
  exact ⟨by simp [calmEnv], fun _ => ⟨rfl, rfl⟩⟩

def failedPull : ChannelCall := sampleCall .join ["bob".toList] "alice".toList metaLocked

/-- The line of the event is in the thread when the metadata cannot be written: the call fails and
nothing is taken back. -/
theorem members_disagree_after_error :
    createChannel objectJson tableYaml sampleUsers [] "general".toList (some "General".toList)
        (some "all".toList) "alice".toList [] calmEnv = .ok generalChannel ∧
      (answer objectJson tableYaml generalChannel failedPull).1 =
        .error "failed to write channel meta".toList ∧
      ¬ SameFiles "general".toList generalChannel
        (answer objectJson tableYaml generalChannel failedPull).2 ∧
      ¬ MembersAgree objectJson tableYaml (answer objectJson tableYaml generalChannel failedPull).2
        "general".toList := by
  have hevaluated : (answer objectJson tableYaml generalChannel failedPull).1 =
        .error "failed to write channel meta".toList ∧
      (answer objectJson tableYaml generalChannel failedPull).2.lookup
          (threadPath "general".toList) ≠ generalChannel.lookup (threadPath "general".toList) ∧
      readMeta tableYaml (answer objectJson tableYaml generalChannel failedPull).2
        "general".toList = .ok (channelOf ["alice".toList]) ∧
      (parseThread objectJson.toJsonCodec (((answer objectJson tableYaml generalChannel
        failedPull).2.lookup (threadPath "general".toList)).getD [])).map
          (fun file => decide ("bob".toList ∈ foldMembers objectJson file.entries)) =
        .ok true := by
    unfold generalChannel
    repeat rw [String.toList_ofList]
    decide +kernel
  obtain ⟨hanswer, hchanged, hinfo, hbob⟩ := hevaluated
  refine ⟨generalChannel_created, hanswer, ?_, ?_⟩
  · rintro ⟨-, hthread⟩
    exact hchanged hthread
  · rintro ⟨info, file, hread, hparse, -, htold⟩
    rw [hinfo] at hread
    cases hread
    rw [hparse] at hbob
    have hmember := (htold "bob".toList).mpr (of_decide_eq_true (Except.ok.inj hbob))
    revert hmember
    decide

end Samples

end ChannelMembership
