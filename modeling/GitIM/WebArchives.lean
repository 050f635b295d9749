import GitIM.WebCardTitles
import GitIM.WebSends

/-!
# Archiving a channel from the web client

An archive moves the files of a channel to the archive and stamps the cards it takes along; an
unarchive takes back the cards with the stamp, in the client or in the daemon. A card comes back as
it was exactly if its title does and it has an assignee.
-/

namespace WebArchives

open TextLines TextScan FileTree Checked ThreadFormat DmThreads Channels Cards WebStrings WebSends
  WebCardYaml WebCardTitles
open PlainYaml (DenotesItself)
open GitIndex (inDir)

section Places

inductive Side where
  | active
  | archived
  deriving DecidableEq

/-- The files of one channel. -/
inductive Place where
  | info (side : Side)
  | thread (side : Side)
  | cardMeta (side : Side) (cardId : Text)
  | discussion (side : Side) (cardId : Text)
  deriving DecidableEq

def Side.cardDir (channel cardId : Text) : Side → Path
  | .active => Cards.cardDir channel cardId
  | .archived => archivedCardDir channel cardId

def Place.path (channel : Text) : Place → Path
  | .info .active => Channels.metaPath channel
  | .info .archived => archivedMetaPath channel
  | .thread .active => Channels.threadPath channel
  | .thread .archived => "archive/channels/".toList ++ (channel ++ ".thread".toList)
  | .cardMeta side cardId => metaIn (side.cardDir channel cardId)
  | .discussion side cardId => threadIn (side.cardDir channel cardId)

def Place.side : Place → Side
  | .info side | .thread side | .cardMeta side _ | .discussion side _ => side

def Side.front : Side → Path
  | .active => "channels/".toList
  | .archived => "archive/channels/".toList

def Place.tail : Place → Path
  | .info _ => ".meta.yaml".toList
  | .thread _ => ".thread".toList
  | .cardMeta _ cardId => "/cards/".toList ++ (cardId ++ "/card.meta.yaml".toList)
  | .discussion _ cardId => "/cards/".toList ++ (cardId ++ "/discussion.thread".toList)

abbrev Files := List (Place × Text)

def write (files : Files) (p : Place) (text : Text) : Files := upsert (fun _ => text) p files

def remove (files : Files) (p : Place) : Files := files.filter fun e => e.1 ≠ p

theorem lookup_write (files : Files) (p q : Place) (text : Text) :
    (write files p text).lookup q = if q = p then some text else files.lookup q :=
  lookup_upsert (fun _ => text) p q files

theorem lookup_remove (files : Files) (p q : Place) :
    (remove files p).lookup q = if q = p then none else files.lookup q := by
  rw [remove, lookup_filter_key (fun k => k ≠ p)]
  by_cases h : q = p
  · rw [if_neg (by simpa using h), if_pos h]
  · rw [if_pos h, if_neg h]

/-- The directories of cards, each once. -/
def cardIds (files : Files) (side : Side) : List Text :=
  (files.filterMap fun e =>
    match e.1 with
    | .cardMeta s cardId => if s = side then some cardId else none
    | .discussion s cardId => if s = side then some cardId else none
    | _ => none).dedup

theorem mem_cardIds {files : Files} {side : Side} {cardId : Text} :
    cardId ∈ cardIds files side ↔ (files.lookup (.cardMeta side cardId)).isSome = true ∨
      (files.lookup (.discussion side cardId)).isSome = true := by
  have isSome_iff : ∀ p : Place, (files.lookup p).isSome = true ↔ p ∈ files.map Prod.fst := by
    intro p
    rw [Option.isSome_iff_exists, lookup_isSome_iff]
  rw [isSome_iff, isSome_iff, cardIds, List.mem_dedup, List.mem_filterMap]
  constructor
  · rintro ⟨⟨p, text⟩, he, found⟩
    have key : p ∈ files.map Prod.fst := List.mem_map.mpr ⟨(p, text), he, rfl⟩
    cases p with
    | info s => cases found
    | thread s => cases found
    | cardMeta s id =>
      left
      by_cases same : s = side
      · simp only [if_pos same, Option.some.injEq] at found
        rwa [← same, ← found]
      · simp only [if_neg same] at found
        cases found
    | discussion s id =>
      right
      by_cases same : s = side
      · simp only [if_pos same, Option.some.injEq] at found
        rwa [← same, ← found]
      · simp only [if_neg same] at found
        cases found
  · rintro (key | key)
    · obtain ⟨⟨p, text⟩, he, rfl⟩ := List.mem_map.mp key
      exact ⟨_, he, if_pos rfl⟩
    · obtain ⟨⟨p, text⟩, he, rfl⟩ := List.mem_map.mp key
      exact ⟨_, he, if_pos rfl⟩

end Places

section Moves

/-- What the functions call outside the repository: the serializers, the texts of their refusals and
of a failed reading, and what git may throw. -/
structure Outside where
  cards : CardCodec
  channels : ConflictReplay.MetaCodec
  refusal : Text
  missing : Place → Text
  thrown : Option Text

variable (out : Outside)

def readFile (files : Files) (p : Place) : Except Text Text :=
  match files.lookup p with
  | some text => .ok text
  | none => .error (out.missing p)

/-- Every card of a directory that has metadata, rewritten in place as far as `rewrite` asks for it.
The answer names the cards that were rewritten. -/
def rewriteCards (rewrite : Text → Except Text (Option Text)) (side : Side) :
    List Text → Files → Except Text (Files × List Text)
  | [], files => .ok (files, [])
  | cardId :: rest, files =>
    match files.lookup (.cardMeta side cardId) with
    | none => rewriteCards rewrite side rest files
    | some text => do
      match ← rewrite text with
      | none => rewriteCards rewrite side rest files
      | some newText => do
        let (files, moves) ← rewriteCards rewrite side rest (write files (.cardMeta side cardId) newText)
        .ok (files, cardId :: moves)

/-- `mvCardDirectory` for each card. -/
def copyCards (source target : Side) : List Text → Files → Except Text Files
  | [], files => .ok files
  | cardId :: rest, files => do
    let text ← readFile out files (.cardMeta source cardId)
    let files := write files (.cardMeta target cardId) text
    let discussion ← readFile out files (.discussion source cardId)
    copyCards source target rest (write files (.discussion target cardId) discussion)

def removes (source : Side) (moves : List Text) : List Place :=
  .info source :: .thread source ::
    moves.flatMap fun cardId => [.cardMeta source cardId, .discussion source cardId]

/-- The part that `archiveChannel` and `unarchiveChannel` share, in opposite directions. -/
def moveChannel (rewrite : Text → Except Text (Option Text)) (source target : Side) (channel : Text)
    (files : Files) : Except Text Files := do
  let (files, moves) ← rewriteCards rewrite source (cardIds files source) files
  let files ← copyCards out source target moves files
  let info ← readFile out files (.info source)
  refuse (files.lookup (.thread source) = none)
    ("thread file for channel '".toList ++ (channel ++ "' does not exist".toList))
  let thread ← readFile out files (.thread source)
  let files := write (write files (.info target) info) (.thread target) thread
  checkSome out.thrown fun text => .error text
  .ok ((removes source moves).foldl remove files)

def stampCard (text : Text) : Except Text (Option Text) :=
  (stringifyCardMeta out.cards out.refusal (stamped (parseYaml text))).map some

/-- A card that was archived in another way stays where it is. -/
def clearCard (text : Text) : Except Text (Option Text) :=
  let card := parseYaml text
  if card.lookup "archived_via".toList ≠ some (.text "channel".toList) then .ok none
  else (stringifyCardMeta out.cards out.refusal (cleaned card)).map some

def checkTab (tab : Tab) (channel : Text) : Except Text Unit := do
  refuse (tab.epochRedirected = true)
    "This workspace has rotated to a new epoch branch. Reload the page to reconnect.".toList
  refuse (tab.hasToken = false) "Reconnect token to send from this browser workspace.".toList
  WebSends.validateChannelName channel

def checkCreator (refusal : Text) (content me denied : Text) : Except Text Unit :=
  match out.channels.fromStr content with
  | none => .error refusal
  | some info => refuse (info.createdBy ≠ me) denied

def archiveChannel (tab : Tab) (channel : Text) (files : Files) : Except Text Files := do
  checkTab tab channel
  match files.lookup (.info .active) with
  | none => .error ("channel '".toList ++ (channel ++ "' does not exist".toList))
  | some content => do
    checkCreator out out.refusal content tab.me "only channel creator can archive".toList
    refuse (files.lookup (.info .archived) ≠ none)
      ("channel '".toList ++ (channel ++ "' is already archived".toList))
    moveChannel out (stampCard out) .active .archived channel files

def unarchiveChannel (tab : Tab) (channel : Text) (files : Files) : Except Text Files := do
  checkTab tab channel
  match files.lookup (.info .archived) with
  | none => .error ("archive source does not exist for channel '".toList ++ (channel ++ ['\'']))
  | some content => do
    checkCreator out out.refusal content tab.me "only channel creator can unarchive".toList
    refuse (files.lookup (.info .active) ≠ none)
      ("channel '".toList ++ (channel ++
        "' already exists in active location; unarchive aborted".toList))
    moveChannel out (clearCard out) .archived .active channel files

/-- The daemon reads the stamp with the deserializer. -/
def clearNative (text : Text) : Except Text (Option Text) :=
  match out.cards.fromStr text with
  | none => .error ("failed to parse card meta: ".toList ++ out.refusal)
  | some info =>
    if info.archivedVia ≠ some .channel then .ok none
    else .ok (some (out.cards.toStr { info with archivedVia := none }))

def moveFile (files : Files) (source target : Place) : Files :=
  match files.lookup source with
  | none => files
  | some text => write (remove files source) target text

/-- `git mv` of the directory of a card. Where the target is there already, the directory lands
inside it, at no place of the channel. -/
def mvCard (files : Files) (cardId : Text) : Files :=
  if cardId ∈ cardIds files .active then
    remove (remove files (.cardMeta .archived cardId)) (.discussion .archived cardId)
  else
    moveFile (moveFile files (.cardMeta .archived cardId) (.cardMeta .active cardId))
      (.discussion .archived cardId) (.discussion .active cardId)

/-- `git mv` of a file; it refuses a target that is there. -/
def mvFile (failure : String) (source target : Place) (files : Files) : Except Text Files := do
  refuse (files.lookup source = none ∨ files.lookup target ≠ none) failure.toList
  .ok (moveFile files source target)

def handleUnarchiveChannel (users : List Text) (author channel : Text) (files : Files) :
    Except Text Files := do
  checkChannelName channel
  refuse (author ∉ users) ("unknown user: ".toList ++ author)
  match files.lookup (.info .archived) with
  | none => .error ("archive source does not exist for channel '".toList ++ (channel ++ ['\'']))
  | some content => do
    checkCreator out ("failed to parse archive channel meta: ".toList ++ out.refusal) content author
      "only channel creator can unarchive".toList
    refuse (files.lookup (.info .active) ≠ none)
      ("channel '".toList ++ (channel ++
        "' already exists in active location; unarchive aborted".toList))
    let (files, moves) ← rewriteCards (clearNative out) .archived (cardIds files .archived) files
    let files ← mvFile "git mv thread failed" (.thread .archived) (.thread .active)
      (moves.foldl mvCard files)
    let files ← mvFile "git mv meta failed" (.info .archived) (.info .active) files
    checkSome out.thrown fun text => .error text
    .ok files

end Moves

section Lookups

/-- What a pass over the cards leaves. -/
structure Rewritten (rewrite : Text → Except Text (Option Text)) (side : Side) (ids : List Text)
    (files after : Files) (moves : List Text) : Prop where
  others : ∀ p, (∀ cardId ∈ moves, p ≠ .cardMeta side cardId) → after.lookup p = files.lookup p
  chosen : ∀ cardId, cardId ∈ moves ↔ cardId ∈ ids ∧ ∃ text newText,
    files.lookup (.cardMeta side cardId) = some text ∧ rewrite text = .ok (some newText)
  written : ∀ cardId ∈ moves, ∀ text newText, files.lookup (.cardMeta side cardId) = some text →
    rewrite text = .ok (some newText) → after.lookup (.cardMeta side cardId) = some newText
  total : ∀ cardId ∈ ids, ∀ text, files.lookup (.cardMeta side cardId) = some text →
    ∃ result, rewrite text = .ok result
  once : moves.Nodup

variable {rewrite : Text → Except Text (Option Text)} {side : Side}

/-- A card that is passed over. -/
theorem Rewritten.skip {cardId : Text} {ids moves : List Text} {files after : Files}
    (rest : Rewritten rewrite side ids files after moves)
    (kept : ∀ text, files.lookup (.cardMeta side cardId) = some text → rewrite text = .ok none) :
    Rewritten rewrite side (cardId :: ids) files after moves where
  others := rest.others
  chosen := by
    intro other
    rw [rest.chosen other, List.mem_cons]
    constructor
    · rintro ⟨listed, found⟩
      exact ⟨.inr listed, found⟩
    · rintro ⟨rfl | listed, text, newText, found, rewritten⟩
      · rw [kept text found] at rewritten
        cases rewritten
      · exact ⟨listed, text, newText, found, rewritten⟩
  written := rest.written
  total := by
    intro other listed text found
    rcases List.mem_cons.mp listed with rfl | listed
    · exact ⟨none, kept text found⟩
    · exact rest.total other listed text found
  once := rest.once

/-- A card that is rewritten. -/
theorem Rewritten.cons {cardId text newText : Text} {ids moves : List Text} {files after : Files}
    (fresh : cardId ∉ ids) (found : files.lookup (.cardMeta side cardId) = some text)
    (rewritten : rewrite text = .ok (some newText))
    (rest : Rewritten rewrite side ids (write files (.cardMeta side cardId) newText) after moves) :
    Rewritten rewrite side (cardId :: ids) files after (cardId :: moves) := by
  have same : ∀ other ∈ ids, (write files (.cardMeta side cardId) newText).lookup (.cardMeta side other) =
      files.lookup (.cardMeta side other) := by
    intro other listed
    rw [lookup_write, if_neg]
    rintro heq
    cases heq
    exact fresh listed
  have notAgain : cardId ∉ moves := fun h => fresh ((rest.chosen cardId).mp h).1
  refine ⟨fun p apart => ?_, fun other => ?_, fun other listed t t' ht ht' => ?_,
    fun other listed t ht => ?_, List.nodup_cons.mpr ⟨notAgain, rest.once⟩⟩
  · rw [rest.others p fun other h => apart other (List.mem_cons_of_mem _ h), lookup_write,
      if_neg (apart cardId List.mem_cons_self)]
  · rw [List.mem_cons, List.mem_cons, rest.chosen other]
    constructor
    · rintro (rfl | ⟨listed, t, t', ht, ht'⟩)
      · exact ⟨.inl rfl, text, newText, found, rewritten⟩
      · exact ⟨.inr listed, t, t', same other listed ▸ ht, ht'⟩
    · rintro ⟨rfl | listed, t, t', ht, ht'⟩
      · exact .inl rfl
      · exact .inr ⟨listed, t, t', (same other listed).trans ht, ht'⟩
  · rcases List.mem_cons.mp listed with rfl | listed
    · have itself : after.lookup (.cardMeta side other) = some newText := by
        rw [rest.others _ fun id h heq => by cases heq; exact notAgain h, lookup_write, if_pos rfl]
      rw [found] at ht
      obtain rfl := Option.some.inj ht
      rw [rewritten] at ht'
      rw [itself, Option.some.inj (Except.ok.inj ht')]
    · have inIds := ((rest.chosen other).mp listed).1
      exact rest.written other listed t t' ((same other inIds).trans ht) ht'
  · rcases List.mem_cons.mp listed with rfl | listed
    · rw [found] at ht
      exact ⟨some newText, Option.some.inj ht ▸ rewritten⟩
    · exact rest.total other listed t ((same other listed).trans ht)

theorem rewriteCards_ok {ids moves : List Text} {files after : Files} (once : ids.Nodup)
    (h : rewriteCards rewrite side ids files = .ok (after, moves)) :
    Rewritten rewrite side ids files after moves := by
  induction ids generalizing files moves with
  | nil =>
    obtain ⟨rfl, rfl⟩ := Prod.mk.inj (Except.ok.inj h)
    exact ⟨fun _ _ => rfl, fun _ => by simp, fun _ h => by (cases h), fun _ h => by (cases h),
      List.nodup_nil⟩
  | cons cardId ids ih =>
    obtain ⟨fresh, once⟩ := List.nodup_cons.mp once
    rw [rewriteCards] at h
    cases found : files.lookup (.cardMeta side cardId) with
    | none =>
      rw [found] at h
      refine (ih once h).skip fun text h => ?_
      rw [found] at h
      cases h
    | some text =>
      rw [found] at h
      obtain ⟨result, rewritten, h⟩ := bind_eq_ok_iff.mp h
      cases result with
      | none =>
        refine (ih once h).skip fun text' h => ?_
        rw [found] at h
        rw [← Option.some.inj h, rewritten]
      | some newText =>
        obtain ⟨⟨after', moves'⟩, rest, h⟩ := bind_eq_ok_iff.mp h
        obtain ⟨rfl, rfl⟩ := Prod.mk.inj (Except.ok.inj h)
        exact .cons fresh found rewritten (ih once rest)

/-- The files of the moved cards stand at the target as they do at the source. -/
theorem copyCards_ok {out : Outside} {source target : Side} (apart : source ≠ target)
    {moves : List Text} {files after : Files} (h : copyCards out source target moves files = .ok after) :
    (∀ cardId ∈ moves, after.lookup (.cardMeta target cardId) = files.lookup (.cardMeta source cardId)) ∧
      (∀ p, (∀ cardId ∈ moves, p ≠ .cardMeta target cardId ∧ p ≠ .discussion target cardId) →
        after.lookup p = files.lookup p) := by
  induction moves generalizing files with
  | nil =>
    cases h
    exact ⟨fun _ h => by (cases h), fun _ _ => rfl⟩
  | cons cardId moves ih =>
    rw [copyCards] at h
    obtain ⟨text, read, h⟩ := bind_eq_ok_iff.mp h
    obtain ⟨discussion, -, h⟩ := bind_eq_ok_iff.mp h
    obtain ⟨moved, others⟩ := ih h
    have found : files.lookup (.cardMeta source cardId) = some text := by
      rw [readFile] at read
      split at read
      · rename_i t ht
        rw [ht, Except.ok.inj read]
      · cases read
    have fromSource : ∀ other, (write (write files (.cardMeta target cardId) text)
        (.discussion target cardId) discussion).lookup (.cardMeta source other) =
          files.lookup (.cardMeta source other) := by
      intro other
      rw [lookup_write, if_neg (by simp), lookup_write, if_neg fun heq => apart (by cases heq; rfl)]
    constructor
    · intro other listed
      by_cases again : other ∈ moves
      · rw [moved other again, fromSource]
      · have here : other = cardId := (List.mem_cons.mp listed).resolve_right again
        rw [others _ fun id h => ⟨fun heq => by cases heq; exact again h, by simp⟩, here,
          lookup_write, if_neg (by simp), lookup_write, if_pos rfl, found]
    · intro p far
      obtain ⟨notMeta, notDiscussion⟩ := far cardId List.mem_cons_self
      rw [others p fun id h => far id (List.mem_cons_of_mem _ h), lookup_write, if_neg notDiscussion,
        lookup_write, if_neg notMeta]

theorem lookup_removes (places : List Place) (files : Files) (p : Place) :
    (places.foldl remove files).lookup p = if p ∈ places then none else files.lookup p := by
  induction places generalizing files with
  | nil => simp
  | cons q places ih =>
    rw [List.foldl_cons, ih, lookup_remove]
    by_cases later : p ∈ places
    · rw [if_pos later, if_pos (List.mem_cons_of_mem q later)]
    · by_cases here : p = q
      · rw [if_neg later, if_pos here, if_pos (here ▸ List.mem_cons_self)]
      · rw [if_neg later, if_neg here, if_neg (by simp [here, later])]

end Lookups

section Specs

/-- The cards that `rewrite` asks for are at the target, with what it made of them; the others are
where they were. -/
structure Moves (rewrite : Text → Except Text (Option Text)) (source target : Side)
    (files after : Files) : Prop where
  moved : ∀ cardId text newText, files.lookup (.cardMeta source cardId) = some text →
    rewrite text = .ok (some newText) → after.lookup (.cardMeta target cardId) = some newText ∧
      after.lookup (.cardMeta source cardId) = none
  stays : ∀ cardId, (∀ text newText, files.lookup (.cardMeta source cardId) = some text →
    rewrite text ≠ .ok (some newText)) →
      ∀ side, after.lookup (.cardMeta side cardId) = files.lookup (.cardMeta side cardId)
  total : ∀ cardId text, files.lookup (.cardMeta source cardId) = some text →
    ∃ result, rewrite text = .ok result

theorem mem_cardIds_of_lookup {files : Files} {side : Side} {cardId text : Text}
    (h : files.lookup (.cardMeta side cardId) = some text) : cardId ∈ cardIds files side :=
  mem_cardIds.mpr (.inl (by rw [h]; rfl))

theorem Rewritten.mem {rewrite : Text → Except Text (Option Text)} {side : Side} {files after : Files}
    {moves : List Text} (pass : Rewritten rewrite side (cardIds files side) files after moves)
    {cardId text newText : Text} (found : files.lookup (.cardMeta side cardId) = some text)
    (rewritten : rewrite text = .ok (some newText)) : cardId ∈ moves :=
  (pass.chosen cardId).mpr ⟨mem_cardIds_of_lookup found, text, newText, found, rewritten⟩

theorem mem_removes {source side : Side} {moves : List Text} {cardId : Text} :
    (.cardMeta side cardId ∈ removes source moves ↔ side = source ∧ cardId ∈ moves) ∧
      (.discussion side cardId ∈ removes source moves ↔ side = source ∧ cardId ∈ moves) := by
  constructor
  · simp only [removes, List.mem_cons, reduceCtorEq, List.mem_flatMap, Place.cardMeta.injEq,
      List.not_mem_nil, or_false, false_or]
    constructor
    · rintro ⟨id, listed, rfl, rfl⟩
      exact ⟨rfl, listed⟩
    · rintro ⟨rfl, listed⟩
      exact ⟨cardId, listed, rfl, rfl⟩
  · simp only [removes, List.mem_cons, reduceCtorEq, List.mem_flatMap, Place.discussion.injEq,
      List.not_mem_nil, or_false, false_or]
    constructor
    · rintro ⟨id, listed, rfl, rfl⟩
      exact ⟨rfl, listed⟩
    · rintro ⟨rfl, listed⟩
      exact ⟨cardId, listed, rfl, rfl⟩

variable {out : Outside} {rewrite : Text → Except Text (Option Text)} {source target : Side}

/-- The pass over the cards, the copies at the target and the sources that are gone. -/
theorem moveChannel_ok (apart : source ≠ target) {channel : Text} {files after : Files}
    (h : moveChannel out rewrite source target channel files = .ok after) :
    ∃ mid moves, Rewritten rewrite source (cardIds files source) files mid moves ∧
      (∀ cardId ∈ moves, after.lookup (.cardMeta target cardId) =
        mid.lookup (.cardMeta source cardId)) ∧
      (∀ side cardId, cardId ∉ moves →
        after.lookup (.cardMeta side cardId) = mid.lookup (.cardMeta side cardId) ∧
          after.lookup (.discussion side cardId) = mid.lookup (.discussion side cardId)) ∧
      ∀ cardId ∈ moves, after.lookup (.cardMeta source cardId) = none ∧
        after.lookup (.discussion source cardId) = none := by
  obtain ⟨⟨mid, moves⟩, pass, h⟩ := bind_eq_ok_iff.mp h
  obtain ⟨copied, copy, h⟩ := bind_eq_ok_iff.mp h
  obtain ⟨info, -, h⟩ := bind_eq_ok_iff.mp h
  obtain ⟨-, h⟩ := then_eq_ok_iff.mp h
  obtain ⟨thread, -, h⟩ := bind_eq_ok_iff.mp h
  obtain ⟨-, h⟩ := then_eq_ok_iff.mp h
  obtain rfl := Except.ok.inj h
  obtain ⟨moved, others⟩ := copyCards_ok apart copy
  have behind : ∀ p, p ∉ removes source moves → p ≠ .info target → p ≠ .thread target →
      ((removes source moves).foldl remove
        (write (write copied (.info target) info) (.thread target) thread)).lookup p =
          copied.lookup p := by
    intro p kept notInfo notThread
    rw [lookup_removes, if_neg kept, lookup_write, if_neg notThread, lookup_write, if_neg notInfo]
  refine ⟨mid, moves, rewriteCards_ok (List.nodup_dedup _) pass, fun cardId listed => ?_,
    fun side cardId unlisted => ⟨?_, ?_⟩, fun cardId listed => ⟨?_, ?_⟩⟩
  · rw [behind _ (fun h => apart (mem_removes.1.mp h).1.symm) (by simp) (by simp), moved cardId listed]
  · rw [behind _ (fun h => unlisted (mem_removes.1.mp h).2) (by simp) (by simp)]
    exact others _ fun id listed => ⟨fun heq => by cases heq; exact unlisted listed, by simp⟩
  · rw [behind _ (fun h => unlisted (mem_removes.2.mp h).2) (by simp) (by simp)]
    exact others _ fun id listed => ⟨by simp, fun heq => by cases heq; exact unlisted listed⟩
  · rw [lookup_removes, if_pos (mem_removes.1.mpr ⟨rfl, listed⟩)]
  · rw [lookup_removes, if_pos (mem_removes.2.mpr ⟨rfl, listed⟩)]

theorem moveChannel_moves (apart : source ≠ target) {channel : Text} {files after : Files}
    (h : moveChannel out rewrite source target channel files = .ok after) :
    Moves rewrite source target files after := by
  obtain ⟨mid, moves, pass, moved, others, gone⟩ := moveChannel_ok apart h
  refine ⟨fun cardId text newText found rewritten => ?_, fun cardId none side => ?_,
    fun cardId text found => pass.total cardId (mem_cardIds_of_lookup found) text found⟩
  · have listed := pass.mem found rewritten
    exact ⟨(moved cardId listed).trans (pass.written cardId listed text newText found rewritten),
      (gone cardId listed).1⟩
  · have unlisted : cardId ∉ moves := by
      intro listed
      obtain ⟨-, text, newText, found, rewritten⟩ := (pass.chosen cardId).mp listed
      exact none text newText found rewritten
    rw [(others side cardId unlisted).1]
    exact pass.others _ fun id listed heq => by cases heq; exact unlisted listed

/-- When every directory of the source has metadata and none is passed over, none is left. -/
theorem moveChannel_empties (apart : source ≠ target) {channel : Text} {files after : Files}
    (h : moveChannel out rewrite source target channel files = .ok after)
    (stored : ∀ cardId ∈ cardIds files source, ∃ text, files.lookup (.cardMeta source cardId) = some text)
    (always : ∀ text, rewrite text ≠ .ok none) (cardId : Text) : cardId ∉ cardIds after source := by
  obtain ⟨mid, moves, pass, -, others, gone⟩ := moveChannel_ok apart h
  rw [mem_cardIds, not_or]
  by_cases listed : cardId ∈ moves
  · rw [(gone cardId listed).1, (gone cardId listed).2]
    exact ⟨by simp, by simp⟩
  · have absent : cardId ∉ cardIds files source := by
      intro here
      obtain ⟨text, found⟩ := stored cardId here
      obtain ⟨result, rewritten⟩ := pass.total cardId here text found
      cases result with
      | none => exact always text rewritten
      | some newText => exact listed (pass.mem found rewritten)
    have far : ∀ p : Place, p = .cardMeta source cardId ∨ p = .discussion source cardId →
        ∀ id ∈ moves, p ≠ .cardMeta source id := by
      rintro p (rfl | rfl) id listed' heq
      · cases heq
        exact listed listed'
      · cases heq
    rw [mem_cardIds, not_or] at absent
    rw [(others source cardId listed).1, (others source cardId listed).2,
      pass.others _ (far _ (.inl rfl)), pass.others _ (far _ (.inr rfl))]
    exact absent

theorem lookup_moveFile (files : Files) (a b p : Place) (ha : p ≠ a) (hb : p ≠ b) :
    (moveFile files a b).lookup p = files.lookup p := by
  rw [moveFile]
  split
  · rfl
  · rw [lookup_write, if_neg hb, lookup_remove, if_neg ha]

theorem lookup_moveFile_target {files : Files} {a b : Place} {text : Text}
    (found : files.lookup a = some text) (apart : a ≠ b) :
    (moveFile files a b).lookup b = some text ∧ (moveFile files a b).lookup a = none := by
  rw [moveFile, found]
  constructor
  · rw [lookup_write, if_pos rfl]
  · rw [lookup_write, if_neg apart, lookup_remove, if_pos rfl]

/-- A directory whose name is free at the target is moved, and no other card is. -/
theorem mvCard_ok {files : Files} {cardId text : Text} (free : cardId ∉ cardIds files .active)
    (found : files.lookup (.cardMeta .archived cardId) = some text) :
    (mvCard files cardId).lookup (.cardMeta .active cardId) = some text ∧
      (mvCard files cardId).lookup (.cardMeta .archived cardId) = none ∧
      ∀ side other, other ≠ cardId →
        (mvCard files cardId).lookup (.cardMeta side other) = files.lookup (.cardMeta side other) ∧
          (mvCard files cardId).lookup (.discussion side other) =
            files.lookup (.discussion side other) := by
  obtain ⟨target, gone⟩ := lookup_moveFile_target (b := .cardMeta .active cardId) found (by simp)
  rw [mvCard, if_neg free]
  refine ⟨?_, ?_, fun side other apart => ⟨?_, ?_⟩⟩
  · rw [lookup_moveFile _ _ _ _ (by simp) (by simp), target]
  · rw [lookup_moveFile _ _ _ _ (by simp) (by simp), gone]
  · rw [lookup_moveFile _ _ _ _ (by simp) (by simp), lookup_moveFile _ _ _ _ (by simp [apart])
      (by simp [apart])]
  · rw [lookup_moveFile _ _ _ _ (by simp [apart]) (by simp [apart]),
      lookup_moveFile _ _ _ _ (by simp) (by simp)]

theorem mvCards_ok {moves : List Text} {files : Files} (once : moves.Nodup)
    (free : ∀ cardId ∈ moves, cardId ∉ cardIds files .active)
    (found : ∀ cardId ∈ moves, ∃ text, files.lookup (.cardMeta .archived cardId) = some text) :
    (∀ cardId ∈ moves,
      (moves.foldl mvCard files).lookup (.cardMeta .active cardId) =
        files.lookup (.cardMeta .archived cardId) ∧
      (moves.foldl mvCard files).lookup (.cardMeta .archived cardId) = none) ∧
    ∀ side cardId, cardId ∉ moves →
      (moves.foldl mvCard files).lookup (.cardMeta side cardId) = files.lookup (.cardMeta side cardId) := by
  induction moves generalizing files with
  | nil => exact ⟨fun _ h => by (cases h), fun _ _ _ => rfl⟩
  | cons cardId moves ih =>
    obtain ⟨fresh, once⟩ := List.nodup_cons.mp once
    obtain ⟨text, here⟩ := found cardId List.mem_cons_self
    obtain ⟨moved, gone, others⟩ := mvCard_ok (free cardId List.mem_cons_self) here
    have ne : ∀ other ∈ moves, other ≠ cardId := fun other listed heq => fresh (heq ▸ listed)
    have free' : ∀ other ∈ moves, other ∉ cardIds (mvCard files cardId) .active := by
      intro other listed
      obtain ⟨sameMeta, sameDiscussion⟩ := others .active other (ne other listed)
      have absent := free other (List.mem_cons_of_mem _ listed)
      rw [mem_cardIds] at absent ⊢
      rwa [sameMeta, sameDiscussion]
    have found' : ∀ other ∈ moves, ∃ text,
        (mvCard files cardId).lookup (.cardMeta .archived other) = some text := by
      intro other listed
      obtain ⟨text, there⟩ := found other (List.mem_cons_of_mem _ listed)
      exact ⟨text, ((others .archived other (ne other listed)).1).trans there⟩
    obtain ⟨rest, kept⟩ := ih once free' found'
    rw [List.foldl_cons]
    constructor
    · intro other listed
      rcases List.mem_cons.mp listed with rfl | listed
      · rw [kept _ other fresh, kept _ other fresh, moved, gone, here]
        exact ⟨rfl, rfl⟩
      · rw [(rest other listed).1, (rest other listed).2,
          (others .archived other (ne other listed)).1]
        exact ⟨rfl, rfl⟩
    · intro side other unlisted
      obtain ⟨notHere, notLater⟩ := not_or.mp (mt List.mem_cons.mpr unlisted)
      rw [kept side other notLater, (others side other notHere).1]

end Specs

section Keeping

theorem archiveChannel_moves {out : Outside} {tab : Tab} {channel : Text} {files after : Files}
    (h : archiveChannel out tab channel files = .ok after) :
    moveChannel out (stampCard out) .active .archived channel files = .ok after := by
  obtain ⟨-, h⟩ := then_eq_ok_iff.mp h
  split at h
  · cases h
  · obtain ⟨-, h⟩ := then_eq_ok_iff.mp h
    exact (then_eq_ok_iff.mp h).2

theorem unarchiveChannel_moves {out : Outside} {tab : Tab} {channel : Text} {files after : Files}
    (h : unarchiveChannel out tab channel files = .ok after) :
    Moves (clearCard out) .archived .active files after := by
  obtain ⟨-, h⟩ := then_eq_ok_iff.mp h
  split at h
  · cases h
  · obtain ⟨-, h⟩ := then_eq_ok_iff.mp h
    exact moveChannel_moves (by decide) (then_eq_ok_iff.mp h).2

theorem mvFile_ok {failure : String} {a b : Place} {files after : Files}
    (h : mvFile failure a b files = .ok after) : after = moveFile files a b :=
  (Except.ok.inj (then_eq_ok_iff.mp h).2).symm

theorem handleUnarchiveChannel_moves {out : Outside} {users : List Text} {author channel : Text}
    {files after : Files} (free : ∀ cardId, cardId ∉ cardIds files .active)
    (h : handleUnarchiveChannel out users author channel files = .ok after) :
    Moves (clearNative out) .archived .active files after := by
  obtain ⟨-, h⟩ := then_eq_ok_iff.mp h
  obtain ⟨-, h⟩ := then_eq_ok_iff.mp h
  split at h
  · cases h
  · obtain ⟨-, h⟩ := then_eq_ok_iff.mp h
    obtain ⟨-, h⟩ := then_eq_ok_iff.mp h
    obtain ⟨⟨mid, moves⟩, pass, h⟩ := bind_eq_ok_iff.mp h
    obtain ⟨threads, mvThread, h⟩ := bind_eq_ok_iff.mp h
    obtain ⟨infos, mvInfo, h⟩ := bind_eq_ok_iff.mp h
    obtain ⟨-, h⟩ := then_eq_ok_iff.mp h
    obtain rfl := Except.ok.inj h
    have pass := rewriteCards_ok (List.nodup_dedup _) pass
    have cards : ∀ side cardId, infos.lookup (.cardMeta side cardId) =
        (moves.foldl mvCard mid).lookup (.cardMeta side cardId) := by
      intro side cardId
      rw [mvFile_ok mvInfo, lookup_moveFile _ _ _ _ (by simp) (by simp), mvFile_ok mvThread,
        lookup_moveFile _ _ _ _ (by simp) (by simp)]
    have activeKept : ∀ p : Place, (∀ cardId, p ≠ .cardMeta .archived cardId) →
        mid.lookup p = files.lookup p := fun p far => pass.others p fun cardId _ => far cardId
    have free' : ∀ cardId ∈ moves, cardId ∉ cardIds mid .active := by
      intro cardId _ here
      rw [mem_cardIds, activeKept _ (by simp), activeKept _ (by simp), ← mem_cardIds] at here
      exact free cardId here
    have found : ∀ cardId ∈ moves, ∃ text, mid.lookup (.cardMeta .archived cardId) = some text := by
      intro cardId listed
      obtain ⟨-, text, newText, found, rewritten⟩ := (pass.chosen cardId).mp listed
      exact ⟨newText, pass.written cardId listed text newText found rewritten⟩
    obtain ⟨moved, kept⟩ := mvCards_ok pass.once free' found
    refine ⟨fun cardId text newText found rewritten => ?_, fun cardId none side => ?_,
      fun cardId text found => pass.total cardId (mem_cardIds_of_lookup found) text found⟩
    · have listed := pass.mem found rewritten
      rw [cards, cards, (moved cardId listed).1, (moved cardId listed).2]
      exact ⟨pass.written cardId listed text newText found rewritten, rfl⟩
    · have unlisted : cardId ∉ moves := by
        intro listed
        obtain ⟨-, text, newText, found, rewritten⟩ := (pass.chosen cardId).mp listed
        exact none text newText found rewritten
      rw [cards, kept side cardId unlisted]
      exact pass.others _ fun id listed heq => by cases heq; exact unlisted listed

variable (out : Outside)

/-- The active cards are those that the serializer wrote, from metadata that passes the checks. -/
def Stored (files : Files) : Prop :=
  ∀ cardId ∈ cardIds files .active, ∃ info, validateCardMeta info = .ok () ∧
    files.lookup (.cardMeta .active cardId) = some (out.cards.toStr info)

def activeCard (files : Files) (cardId : Text) : Option CardMeta :=
  (files.lookup (.cardMeta .active cardId)).bind out.cards.fromStr

/-- The same cards are active, each with the metadata it had and without a stamp. -/
def Keeps (files after : Files) : Prop :=
  (∀ cardId, (after.lookup (.cardMeta .active cardId)).isSome =
    (files.lookup (.cardMeta .active cardId)).isSome) ∧
  ∀ cardId info, activeCard out files cardId = some info →
    activeCard out after cardId = some { info with archivedVia := none }

def CardsKept (scalar : Text → Text) (files : Files) : Prop :=
  ∀ cardId info, activeCard out files cardId = some info →
    KeptTitle scalar info.title ∧ info.assignee ≠ none

/-- No card was in the archive with a stamp before. -/
def Unstamped (Stamped : Text → Prop) (files : Files) : Prop :=
  ∀ cardId text, files.lookup (.cardMeta .active cardId) = none →
    files.lookup (.cardMeta .archived cardId) = some text → ¬ Stamped text

def WebStamped (text : Text) : Prop :=
  (parseYaml text).lookup "archived_via".toList = some (.text "channel".toList)

def NativeStamped (text : Text) : Prop :=
  ∃ info, out.cards.fromStr text = some info ∧ info.archivedVia = some .channel

end Keeping

section RoundTrip
variable {out : Outside} {scalar : Text → Text} (writes : WritesCards out.cards scalar)

/-- A way back from the archive: which cards it takes, and what it may make of their titles. -/
structure WayBack (out : Outside) (scalar : Text → Text) (clear : Text → Except Text (Option Text))
    (Stamped : Text → Prop) (Back : Text → Text → Prop) : Prop where
  asks : ∀ text, Stamped text → clear text ≠ .ok none
  only : ∀ text newText, clear text = .ok (some newText) → Stamped text
  own : ∀ info, validateCardMeta info = .ok () → info.archivedVia = some .channel →
    Stamped (out.cards.toStr info)
  back : ∀ info newText, validateCardMeta info = .ok () → info.archivedVia = some .channel →
    info.assignee ≠ none → clear (out.cards.toStr info) = .ok (some newText) →
      ∃ title, Back info.title title ∧
        newText = out.cards.toStr (asRead info title info.labels none)
  exact : ∀ t u v, Reads scalar t u → Back u v → (v = t ↔ KeptTitle scalar t)

theorem stampCard_ne_none (out : Outside) (text : Text) : stampCard out text ≠ .ok none := by
  rw [stampCard]
  cases stringifyCardMeta out.cards out.refusal (stamped (parseYaml text)) with
  | error e => exact fun h => by cases h
  | ok newText => exact fun h => by cases h

theorem map_some_eq {x : Except Text Text} {newText : Text} (h : x.map some = .ok (some newText)) :
    x = .ok newText := by
  cases x with
  | error e => cases h
  | ok text =>
    cases h
    rfl

theorem asRead_eq_iff (info : CardMeta) (title : Text) :
    asRead info title info.labels none = { info with archivedVia := none } ↔
      title = info.title ∧ info.assignee ≠ none := by
  obtain ⟨title', channel, status, labels, assignee, createdBy, createdAt, updatedAt, via⟩ := info
  cases assignee with
  | none => simp [asRead]
  | some a => simp [asRead]

variable {clear : Text → Except Text (Option Text)} {Stamped : Text → Prop}
  {Back : Text → Text → Prop} {files archived after : Files}

include writes in
/-- What becomes of a card that was active. -/
theorem active_after (way : WayBack out scalar clear Stamped Back)
    (there : Moves (stampCard out) .active .archived files archived)
    (andBack : Moves clear .archived .active archived after) {cardId : Text} {info : CardMeta}
    (valid : validateCardMeta info = .ok ())
    (found : files.lookup (.cardMeta .active cardId) = some (out.cards.toStr info)) :
    ∃ u v, Reads scalar info.title u ∧ Back u v ∧
      after.lookup (.cardMeta .active cardId) = some (out.cards.toStr (asRead info v info.labels none)) := by
  obtain ⟨result, stamp⟩ := there.total cardId _ found
  cases result with
  | none => exact absurd stamp (stampCard_ne_none out _)
  | some stampedText =>
    obtain ⟨u, reads, rfl, accepted⟩ := stringify_reads writes stamped (some .channel) valid
      (fun base => fromValue_stamped info base) (map_some_eq stamp)
    have inArchive := (there.moved cardId _ _ found stamp).1
    obtain ⟨result, cleared⟩ := andBack.total cardId _ inArchive
    cases result with
    | none => exact absurd cleared (way.asks _ (way.own _ accepted rfl))
    | some newText =>
      obtain ⟨v, back, rfl⟩ := way.back _ newText accepted rfl (by simp [asRead]) cleared
      exact ⟨u, v, reads, back, (andBack.moved cardId _ _ inArchive cleared).1⟩

include writes in
theorem keeps_iff (way : WayBack out scalar clear Stamped Back) (stored : Stored out files)
    (there : Moves (stampCard out) .active .archived files archived)
    (andBack : Moves clear .archived .active archived after) :
    Keeps out files after ↔ CardsKept out scalar files ∧ Unstamped Stamped files := by
  have written : ∀ cardId text, files.lookup (.cardMeta .active cardId) = some text →
      ∃ info, validateCardMeta info = .ok () ∧ text = out.cards.toStr info := by
    intro cardId text found
    obtain ⟨info, valid, found'⟩ := stored cardId (mem_cardIds_of_lookup found)
    exact ⟨info, valid, Option.some.inj (found.symm.trans found')⟩
  have active : ∀ cardId info, activeCard out files cardId = some info →
      ∃ u v, Reads scalar info.title u ∧ Back u v ∧
        activeCard out after cardId = some (asRead info v info.labels none) := by
    intro cardId info card
    obtain ⟨text, found, read⟩ := Option.bind_eq_some_iff.mp card
    obtain ⟨info', valid, rfl⟩ := written cardId text found
    obtain rfl := Option.some.inj (read.symm.trans (writes.reads info'))
    obtain ⟨u, v, reads, back, found'⟩ := active_after writes way there andBack valid found
    refine ⟨u, v, reads, back, ?_⟩
    rw [activeCard, found', Option.bind_some, writes.reads]
  have inactive : ∀ cardId, files.lookup (.cardMeta .active cardId) = none → ∀ side,
      archived.lookup (.cardMeta side cardId) = files.lookup (.cardMeta side cardId) := by
    intro cardId none side
    refine there.stays cardId (fun text newText found => ?_) side
    rw [none] at found
    cases found
  constructor
  · rintro ⟨same, cards⟩
    constructor
    · intro cardId info card
      obtain ⟨u, v, reads, back, card'⟩ := active cardId info card
      have equal := Option.some.inj (card'.symm.trans (cards cardId info card))
      obtain ⟨title, assignee⟩ := (asRead_eq_iff info v).mp equal
      exact ⟨(way.exact _ u v reads back).mp title, assignee⟩
    · intro cardId text none found stampedText
      rw [← inactive cardId none] at found
      obtain ⟨result, cleared⟩ := andBack.total cardId text found
      cases result with
      | none => exact way.asks text stampedText cleared
      | some newText =>
        have taken := same cardId
        rw [(andBack.moved cardId text newText found cleared).1, none] at taken
        cases taken
  · rintro ⟨kept, unstamped⟩
    constructor
    · intro cardId
      cases found : files.lookup (.cardMeta .active cardId) with
      | some text =>
        obtain ⟨info, valid, rfl⟩ := written cardId text found
        obtain ⟨u, v, -, -, found'⟩ := active_after writes way there andBack valid found
        rw [found']
        rfl
      | none =>
        have still := andBack.stays cardId (fun text newText inArchive cleared => ?_) .active
        · rw [still, inactive cardId found, found]
        · rw [inactive cardId found] at inArchive
          exact unstamped cardId text found inArchive (way.only text newText cleared)
    · intro cardId info card
      obtain ⟨u, v, reads, back, card'⟩ := active cardId info card
      obtain ⟨title, assignee⟩ := kept cardId info card
      rw [card', (asRead_eq_iff info v).mpr ⟨(way.exact _ u v reads back).mpr title, assignee⟩]

include writes in
theorem webWay : WayBack out scalar (clearCard out) WebStamped (Reads scalar) where
  asks := by
    intro text stampedText
    rw [clearCard, if_neg (by rw [not_not]; exact stampedText)]
    cases stringifyCardMeta out.cards out.refusal (cleaned (parseYaml text)) with
    | error e => exact fun h => by cases h
    | ok newText => exact fun h => by cases h
  only := by
    intro text newText cleared
    rw [clearCard] at cleared
    split at cleared
    · cases cleared
    · rename_i isStamped
      exact not_not.mp isStamped
  own := by
    intro info valid via
    rw [WebStamped, parseYaml_toStr writes (checked_of_valid valid), fieldsBehind, via]
    rfl
  back := by
    intro info newText valid _ _ cleared
    rw [clearCard] at cleared
    split at cleared
    · cases cleared
    · obtain ⟨title, reads, same, -⟩ := stringify_reads writes cleaned none valid
        (fun base => fromValue_cleaned info base) (map_some_eq cleared)
      exact ⟨title, reads, same⟩
  exact := by
    intro t u v first second
    constructor
    · rintro rfl
      exact keptTitle_of_reads writes first second
    · intro kept
      rw [kept.reads writes first] at second
      exact kept.reads writes second

include writes in
theorem nativeWay : WayBack out scalar (clearNative out) (NativeStamped out) Eq where
  asks := by
    rintro text ⟨info, read, via⟩
    rw [clearNative, read]
    simp only [via, ne_eq, not_true, if_false]
    exact fun h => by cases h
  only := by
    intro text newText cleared
    rw [clearNative] at cleared
    split at cleared
    · cases cleared
    · rename_i info read
      split at cleared
      · cases cleared
      · rename_i via
        exact ⟨info, read, not_not.mp via⟩
  own := fun info _ via => ⟨info, writes.reads info, via⟩
  back := by
    intro info newText _ via assigned cleared
    rw [clearNative, writes.reads] at cleared
    simp only [via, ne_eq, not_true, if_false] at cleared
    refine ⟨info.title, rfl, ?_⟩
    rw [(asRead_eq_iff info info.title).mpr ⟨rfl, assigned⟩]
    exact (Option.some.inj (Except.ok.inj cleared)).symm
  exact := by
    rintro t u v first rfl
    constructor
    · rintro rfl
      exact keptTitle_of_reads writes first first
    · exact fun kept => kept.reads writes first

/-- After an archive from the client, either way back keeps the cards exactly if every card has an
assignee and a title that comes back, and no card was in the archive with a stamp before. -/
theorem archive_keeps_iff {out : Outside} {scalar : Text → Text}
    (writes : WritesCards out.cards scalar) {tab : Tab} {channel : Text} {files archived : Files}
    (stored : Stored out files) (done : archiveChannel out tab channel files = .ok archived) :
    (∀ tab' after, unarchiveChannel out tab' channel archived = .ok after →
      (Keeps out files after ↔ CardsKept out scalar files ∧ Unstamped WebStamped files)) ∧
    ∀ users author after, handleUnarchiveChannel out users author channel archived = .ok after →
      (Keeps out files after ↔ CardsKept out scalar files ∧ Unstamped (NativeStamped out) files) := by
  have moves := archiveChannel_moves done
  have there := moveChannel_moves (by decide) moves
  constructor
  · intro tab' after unarchived
    exact keeps_iff writes (webWay writes) stored there (unarchiveChannel_moves unarchived)
  · intro users author after unarchived
    have empty := moveChannel_empties (by decide) moves (fun cardId listed => by
      obtain ⟨info, -, found⟩ := stored cardId listed
      exact ⟨_, found⟩) (stampCard_ne_none out)
    exact keeps_iff writes (nativeWay writes) stored there
      (handleUnarchiveChannel_moves empty unarchived)

end RoundTrip

section Samples

def codes (t : Text) : Text := t.flatMap fun c => Nat.toDigits 10 c.toNat ++ [';']

/-- A serializer that quotes as little as it may; special characters are told by their numbers. -/
def sampleScalar (t : Text) : Text :=
  if IsClean t then
    if DenotesItself t ∧ ¬ StartsDocument t ∧ t ≠ [] ∧ t ≠ "null".toList then t else quoted t
  else '"' :: (codes t ++ ['"'])

def unescape : Text → Text
  | '\'' :: '\'' :: rest => '\'' :: unescape rest
  | c :: rest => c :: unescape rest
  | [] => []

def unscalar : Text → Text
  | '\'' :: rest => unescape rest.dropLast
  | '"' :: rest => (rest.dropLast.splitOn ';').dropLast.map fun d => Char.ofNat (Nat.ofDigitChars 10 d 0)
  | t => t

theorem codes_chars {t : Text} {c : Char} (h : c ∈ codes t) : c.isDigit = true ∨ c = ';' := by
  obtain ⟨d, -, hc⟩ := List.mem_flatMap.mp h
  rcases List.mem_append.mp hc with hc | hc
  · exact .inl (Nat.isDigit_of_mem_toDigits (by decide) (by decide) hc)
  · exact .inr (List.mem_singleton.mp hc)

theorem splitOn_codes (t : Text) : (codes t).splitOn ';' = t.map (fun c => Nat.toDigits 10 c.toNat) ++ [[]] := by
  induction t with
  | nil => rfl
  | cons c t ih =>
    have split : codes (c :: t) = Nat.toDigits 10 c.toNat ++ ';' :: codes t := by simp [codes]
    have digits : ';' ∉ Nat.toDigits 10 c.toNat := by
      intro h
      have digit := Nat.isDigit_of_mem_toDigits (by decide) (by decide) h
      revert digit
      decide
    rw [split, List.splitOn_append_cons_self, List.splitOn_eq_singleton digits, ih]
    rfl

theorem unescape_escape (t : Text) : unescape (escape t) = t := by
  induction t with
  | nil => rfl
  | cons c t ih =>
    have step : escape (c :: t) = (if c = '\'' then ['\'', '\''] else [c]) ++ escape t := rfl
    rw [step]
    by_cases quote : c = '\''
    · rw [if_pos quote, quote]
      exact congrArg ('\'' :: ·) ih
    · rw [if_neg quote, List.singleton_append, unescape, ih]
      exact fun rest h => absurd h quote

theorem sampleScalar_cases (t : Text) :
    (sampleScalar t = t ∧ IsClean t ∧ DenotesItself t ∧ ¬ StartsDocument t ∧ t ≠ [] ∧ t ≠ "null".toList) ∨
      (sampleScalar t = quoted t ∧ IsClean t) ∨
      (sampleScalar t = '"' :: (codes t ++ ['"']) ∧ ¬ IsClean t) := by
  rw [sampleScalar]
  by_cases clean : IsClean t
  · rw [if_pos clean]
    split
    · rename_i plain
      exact .inl ⟨rfl, clean, plain⟩
    · exact .inr (.inl ⟨rfl, clean⟩)
  · rw [if_neg clean]
    exact .inr (.inr ⟨rfl, clean⟩)

theorem unscalar_sampleScalar (t : Text) : unscalar (sampleScalar t) = t := by
  rcases sampleScalar_cases t with ⟨same, -, self, -, nonempty, -⟩ | ⟨same, -⟩ | ⟨same, -⟩
  · obtain ⟨c, rest, rfl⟩ := List.exists_cons_of_ne_nil nonempty
    have free := noQuote_of_denotes self
    rw [same, unscalar]
    · rintro rest' heq
      rw [(List.cons.inj heq).1] at free
      exact absurd free (by decide)
    · rintro rest' heq
      rw [(List.cons.inj heq).1] at free
      exact absurd free (by decide)
  · rw [same, quoted, unscalar, List.dropLast_concat, unescape_escape]
  · rw [same, unscalar, List.dropLast_concat, splitOn_codes, List.dropLast_concat, List.map_map]
    conv_rhs => rw [← List.map_id t]
    apply List.map_congr_left
    intro c _
    rw [Function.comp, Nat.ofDigitChars_ten_toDigits, Char.ofNat_toNat]
    rfl

theorem sampleScalar_isClean (t : Text) : IsClean (sampleScalar t) := by
  rcases sampleScalar_cases t with ⟨same, clean, -⟩ | ⟨same, clean⟩ | ⟨same, -⟩
  · rwa [same]
  · rw [same]
    exact clean.quoted
  · rw [same]
    intro c hc
    rcases List.mem_cons.mp hc with rfl | hc
    · decide
    · rcases List.mem_append.mp hc with hc | hc
      · rcases codes_chars hc with digit | rfl
        · exact (wordChar_ordinary (wordChar_of_handlerChar (by simp [isHandlerChar, digit]))).2.1
        · decide
      · rw [List.mem_singleton.mp hc]
        decide

theorem sampleScalar_written (t : Text) : Written t (sampleScalar t) := by
  rcases sampleScalar_cases t with ⟨same, clean, self, inside, -⟩ | ⟨same, clean⟩ | ⟨same, unclean⟩
  · exact .plain clean self inside same
  · exact .single clean same
  · refine .escaped ?_ (sampleScalar_isClean t)
    by_contra none
    exact unclean fun c hc => eq_false_of_ne_true fun bad => none ⟨c, hc, bad⟩

theorem sampleScalar_ne_null (t : Text) : sampleScalar t ≠ "null".toList := by
  rcases sampleScalar_cases t with ⟨same, -, -, -, -, notNull⟩ | ⟨same, -⟩ | ⟨same, -⟩
  · rwa [same]
  · rw [same]
    exact fun h => absurd (List.cons.inj h).1 (by decide)
  · rw [same]
    exact fun h => absurd (List.cons.inj h).1 (by decide)

def isItem (line : Text) : Bool := line.head? = some '-'

/-- The stamp, and the empty line at the end. -/
def decodeVia : List Text → Option ArchivedVia
  | [via, _] => some (if via = "archived_via: channel".toList then .channel else .manual)
  | _ => none

def decodeLines : List Text → Option CardMeta
  | title :: channel :: status :: _ :: rest =>
    match rest.dropWhile isItem with
    | assignee :: createdBy :: createdAt :: updatedAt :: more => do
      let status ← (CardStatus.parse (status.drop 8)).toOption
      some ⟨unscalar (title.drop 7), unscalar (channel.drop 9), status,
        (rest.takeWhile isItem).map fun l => unscalar (l.drop 2),
        if assignee.drop 10 = "null".toList then none else some (unscalar (assignee.drop 10)),
        unscalar (createdBy.drop 12), unscalar (createdAt.drop 12), unscalar (updatedAt.drop 12),
        decodeVia more⟩
    | _ => none
  | _ => none

/-- A reader for what `sampleScalar` writes. -/
def sampleCards : CardCodec where
  fromStr text := decodeLines (text.splitOn '\n')
  toStr := document sampleScalar

theorem splitOn_line {line : Text} (oneLine : '\n' ∉ line) (rest : Text) :
    (line ++ '\n' :: rest).splitOn '\n' = line :: rest.splitOn '\n' := by
  rw [List.splitOn_append_cons_self, List.splitOn_eq_singleton oneLine]
  rfl

theorem splitOn_field {key : String} (word : '\n' ∉ key.toList) {value : Text} (oneLine : '\n' ∉ value)
    (rest : Text) : (field key value ++ rest).splitOn '\n' =
      (key.toList ++ (": ".toList ++ value)) :: rest.splitOn '\n' := by
  have split : field key value ++ rest = (key.toList ++ (": ".toList ++ value)) ++ '\n' :: rest := by
    simp [field]
  rw [split, splitOn_line]
  rw [List.mem_append, List.mem_append]
  rintro (h | h | h)
  · exact word h
  · revert h
    decide
  · exact oneLine h

theorem splitOn_labels (labels : List Text) (rest : Text) :
    ∃ head, (labelLines sampleScalar labels ++ rest).splitOn '\n' =
      head :: (labels.map (fun l => "- ".toList ++ sampleScalar l) ++ rest.splitOn '\n') := by
  by_cases none : labels = []
  · subst none
    exact ⟨_, splitOn_line (by decide : '\n' ∉ "labels: []".toList) rest⟩
  · have items : ∀ labels : List Text,
        ((labels.flatMap fun l => "- ".toList ++ (sampleScalar l ++ ['\n'])) ++ rest).splitOn '\n' =
          labels.map (fun l => "- ".toList ++ sampleScalar l) ++ rest.splitOn '\n' := by
      intro labels
      induction labels with
      | nil => rfl
      | cons l labels ih =>
        have split : ((l :: labels).flatMap fun l => "- ".toList ++ (sampleScalar l ++ ['\n'])) ++ rest =
            ("- ".toList ++ sampleScalar l) ++ '\n' ::
              ((labels.flatMap fun l => "- ".toList ++ (sampleScalar l ++ ['\n'])) ++ rest) := by
          simp
        have oneLine : '\n' ∉ "- ".toList ++ sampleScalar l := by
          rw [List.mem_append]
          exact fun h => h.elim (by decide) (sampleScalar_isClean l).oneLine
        rw [split, splitOn_line oneLine, ih]
        rfl
    have head : labelLines sampleScalar labels ++ rest = "labels:".toList ++ '\n' ::
        ((labels.flatMap fun l => "- ".toList ++ (sampleScalar l ++ ['\n'])) ++ rest) := by
      simp [labelLines, none]
    refine ⟨"labels:".toList, ?_⟩
    rw [head, splitOn_line (by decide), items]

theorem items_span {items more : List Text} {next : Text} (all : ∀ l ∈ items, isItem l = true)
    (stop : isItem next = false) :
    (items ++ next :: more).takeWhile isItem = items ∧
      (items ++ next :: more).dropWhile isItem = next :: more := by
  constructor
  · rw [List.takeWhile_append_of_pos all, List.takeWhile_cons, stop]
    simp
  · rw [List.dropWhile_append_of_pos all, List.dropWhile_cons, stop]
    simp

def viaLines : Option ArchivedVia → List Text
  | none => [[]]
  | some via => ["archived_via".toList ++ (": ".toList ++ via.asStr), []]

def linesBehind (info : CardMeta) : List Text :=
  ("assignee".toList ++ (": ".toList ++ (info.assignee.map sampleScalar).getD "null".toList)) ::
    ("created_by".toList ++ (": ".toList ++ sampleScalar info.createdBy)) ::
    ("created_at".toList ++ (": ".toList ++ sampleScalar info.createdAt)) ::
    ("updated_at".toList ++ (": ".toList ++ sampleScalar info.updatedAt)) :: viaLines info.archivedVia

theorem splitOn_document (info : CardMeta) : ∃ head, (document sampleScalar info).splitOn '\n' =
    ("title".toList ++ (": ".toList ++ sampleScalar info.title)) ::
      ("channel".toList ++ (": ".toList ++ sampleScalar info.channel)) ::
      ("status".toList ++ (": ".toList ++ info.status.asStr)) :: head ::
      (info.labels.map (fun l => "- ".toList ++ sampleScalar l) ++ linesBehind info) := by
  have single : ∀ t, '\n' ∉ sampleScalar t := fun t => (sampleScalar_isClean t).oneLine
  have status : '\n' ∉ info.status.asStr := (status_bare info.status).1.isClean.oneLine
  have assignee : '\n' ∉ (info.assignee.map sampleScalar).getD "null".toList := by
    cases info.assignee with
    | none => decide
    | some a => exact single a
  rw [document, splitOn_field (by decide) (single _), splitOn_field (by decide) (single _),
    splitOn_field (by decide) status]
  obtain ⟨head, labels⟩ := splitOn_labels info.labels _
  refine ⟨head, ?_⟩
  rw [labels, splitOn_field (by decide) assignee, splitOn_field (by decide) (single _),
    splitOn_field (by decide) (single _), splitOn_field (by decide) (single _), linesBehind]
  cases info.archivedVia with
  | none => rfl
  | some via => cases via <;> rfl

theorem sampleCards_reads (info : CardMeta) : sampleCards.fromStr (sampleCards.toStr info) = some info := by
  have key : (if (info.assignee.map sampleScalar).getD "null".toList = "null".toList then none
      else some (unscalar ((info.assignee.map sampleScalar).getD "null".toList))) = info.assignee := by
    cases info.assignee with
    | none => rfl
    | some a =>
      refine (if_neg (sampleScalar_ne_null a)).trans ?_
      rw [Option.map_some, Option.getD_some, unscalar_sampleScalar]
  have items : ∀ l ∈ info.labels.map (fun l => "- ".toList ++ sampleScalar l), isItem l = true := by
    intro l hl
    obtain ⟨l', -, rfl⟩ := List.mem_map.mp hl
    rfl
  have labels : (info.labels.map (fun l => "- ".toList ++ sampleScalar l)).map
      (fun l => unscalar (l.drop 2)) = info.labels := by
    rw [List.map_map]
    conv_rhs => rw [← List.map_id info.labels]
    apply List.map_congr_left
    intro l _
    exact unscalar_sampleScalar l
  have via : decodeVia (viaLines info.archivedVia) = info.archivedVia := by
    cases info.archivedVia with
    | none => rfl
    | some via => cases via <;> decide
  have status : (CardStatus.parse info.status.asStr).toOption = some info.status := by
    rw [CardStatus.parse_asStr]
    rfl
  obtain ⟨head, lines⟩ := splitOn_document info
  obtain ⟨taken, dropped⟩ := items_span items (rfl : isItem ("assignee".toList ++
    (": ".toList ++ (info.assignee.map sampleScalar).getD "null".toList)) = false)
  have read : sampleCards.fromStr (sampleCards.toStr info) =
      decodeLines ((document sampleScalar info).splitOn '\n') := rfl
  rw [read, lines, decodeLines, linesBehind, taken, dropped]
  change ((CardStatus.parse info.status.asStr).toOption.bind fun status =>
    some (⟨unscalar (sampleScalar info.title), unscalar (sampleScalar info.channel), status,
      (info.labels.map (fun l => "- ".toList ++ sampleScalar l)).map fun l => unscalar (l.drop 2),
      if (info.assignee.map sampleScalar).getD "null".toList = "null".toList then none
        else some (unscalar ((info.assignee.map sampleScalar).getD "null".toList)),
      unscalar (sampleScalar info.createdBy), unscalar (sampleScalar info.createdAt),
      unscalar (sampleScalar info.updatedAt), decodeVia (viaLines info.archivedVia)⟩ : CardMeta)) =
        some info
  rw [status, Option.bind_some, labels, key, via]
  simp only [unscalar_sampleScalar]

theorem sampleCards_writes : WritesCards sampleCards sampleScalar where
  layout _ := rfl
  scalars := sampleScalar_written
  apostrophes := by
    intro t quote clean self inside
    have nonempty : t ≠ [] := List.ne_nil_of_mem quote
    have notNull : t ≠ "null".toList := by
      rintro rfl
      revert quote
      decide
    rw [sampleScalar, if_pos clean, if_pos ⟨self, inside, nonempty, notNull⟩]
  reads := sampleCards_reads

def outside : Outside :=
  ⟨sampleCards, WebJoins.plainYaml, "refused".toList, fun _ => "missing".toList, none⟩

def login (assignee : Option Text) : CardMeta :=
  ⟨"Fix login".toList, "general".toList, .todo, ["bug".toList], assignee, "alice".toList,
    "20260101T000000Z".toList, "20260101T000000Z".toList, none⟩

def loginId : Text := "20260101-abc".toList

/-- A channel with one card. -/
def channelFiles (assignee : Option Text) : Files :=
  [(.info .active, WebJoins.generalText "Talk".toList), (.thread .active, []),
    (.cardMeta .active loginId, sampleCards.toStr (login assignee)), (.discussion .active loginId, [])]

def aliceTab : Tab := ⟨false, true, "alice".toList⟩

def archivedFiles (assignee : Option Text) : Except Text Files :=
  archiveChannel outside aliceTab "general".toList (channelFiles assignee)

/-- The card that is active after an archive and the way back in the client. -/
def loginAfter (assignee : Option Text) : Except Text (Option CardMeta) := do
  let archived ← archivedFiles assignee
  let after ← unarchiveChannel outside aliceTab "general".toList archived
  .ok (activeCard outside after loginId)

theorem stored_channelFiles {assignee : Option Text}
    (valid : validateCardMeta (login assignee) = .ok ()) : Stored outside (channelFiles assignee) := by
  intro cardId listed
  have only : cardIds (channelFiles assignee) .active = [loginId] := rfl
  rw [only, List.mem_singleton] at listed
  exact ⟨login assignee, valid, by rw [listed]; rfl⟩

/-- Ann's card is back, by either way. -/
theorem archive_keeps_iff_login :
    ∃ archived after native,
      archiveChannel outside aliceTab "general".toList (channelFiles (some "ann".toList)) = .ok archived ∧
      unarchiveChannel outside aliceTab "general".toList archived = .ok after ∧
      handleUnarchiveChannel outside ["alice".toList] "alice".toList "general".toList archived =
        .ok native ∧
      Keeps outside (channelFiles (some "ann".toList)) after ∧
      Keeps outside (channelFiles (some "ann".toList)) native := by
  have runs : (do
      let archived ← archivedFiles (some "ann".toList)
      let _ ← unarchiveChannel outside aliceTab "general".toList archived
      let _ ← handleUnarchiveChannel outside ["alice".toList] "alice".toList "general".toList archived
      (.ok true : Except Text Bool)) = .ok true := by decide +kernel
  obtain ⟨archived, done, runs⟩ := bind_eq_ok_iff.mp runs
  obtain ⟨after, web, runs⟩ := bind_eq_ok_iff.mp runs
  obtain ⟨native, daemon, -⟩ := bind_eq_ok_iff.mp runs
  obtain ⟨webIff, nativeIff⟩ :=
    archive_keeps_iff sampleCards_writes (stored_channelFiles (by decide +kernel)) done
  have kept : CardsKept outside sampleScalar (channelFiles (some "ann".toList)) := by
    intro cardId info card
    obtain ⟨text, found, read⟩ := Option.bind_eq_some_iff.mp card
    have listed := mem_cardIds_of_lookup found
    have only : cardIds (channelFiles (some "ann".toList)) .active = [loginId] := rfl
    rw [only, List.mem_singleton] at listed
    rw [listed] at found
    obtain rfl : sampleCards.toStr (login (some "ann".toList)) = text := Option.some.inj found
    obtain rfl := Option.some.inj ((sampleCards_reads _).symm.trans read)
    have unquoted : ∀ c ∈ (login (some "ann".toList)).title.getLast?, isQuote c = false := by
      intro c last
      obtain rfl := Option.some.inj last
      rfl
    refine ⟨⟨by decide +kernel, .inl ⟨by decide +kernel, by decide +kernel, unquoted⟩⟩, ?_⟩
    exact fun h => by cases h
  have noneArchived : ∀ cardId, (channelFiles (some "ann".toList)).lookup (.cardMeta .archived cardId) =
      none := fun cardId => rfl
  refine ⟨archived, after, native, done, web, daemon, (webIff _ _ web).mpr ⟨kept, ?_⟩,
    (nativeIff _ _ _ daemon).mpr ⟨kept, ?_⟩⟩
  · intro cardId text _ found
    rw [noneArchived] at found
    cases found
  · intro cardId text _ found
    rw [noneArchived] at found
    cases found

/-- A card of nobody comes back as a card of `null`. -/
theorem not_keeps_unassigned :
    WritesCards outside.cards sampleScalar ∧ Stored outside (channelFiles none) ∧ ∃ archived after,
      archiveChannel outside aliceTab "general".toList (channelFiles none) = .ok archived ∧
      unarchiveChannel outside aliceTab "general".toList archived = .ok after ∧
      activeCard outside (channelFiles none) loginId = some (login none) ∧
      activeCard outside after loginId = some (login (some "null".toList)) ∧
      ¬ Keeps outside (channelFiles none) after := by
  have card : loginAfter none = .ok (some (login (some "null".toList))) := by decide +kernel
  obtain ⟨archived, done, card⟩ := bind_eq_ok_iff.mp card
  obtain ⟨after, web, card⟩ := bind_eq_ok_iff.mp card
  have before : activeCard outside (channelFiles none) loginId = some (login none) :=
    sampleCards_reads (login none)
  refine ⟨sampleCards_writes, stored_channelFiles (by decide +kernel), archived, after, done, web,
    before, Except.ok.inj card, fun keeps => ?_⟩
  have same := keeps.2 loginId (login none) before
  rw [Except.ok.inj card] at same
  revert same
  decide +kernel

end Samples

end WebArchives
