import GitIM.Reading

/-!
# What readers are shown

The hidden files of a user are the threads and cards of active channels whose metadata do
not list the user, and the direct messages of others. Repositories that differ in hidden
files only should answer alike. A read of a channel asks for membership; a read of a direct
message, a thread view and a search do not, so that they answer alike only as far as nothing
hidden is asked for.
-/

namespace ReadSecrecy

open TextLines TextScan FileTree Checked ThreadFormat DmThreads Channels Poll PollSecrecy Ranking
  Reading ChannelPrivacy

section Hidden
variable {Json : Type} (readers : Readers Json) (u : Text)

/-- Whether a conversation is kept from the user. -/
def keepsOut (tree : FileMap) : Owner → Bool
  | .channel false name =>
    ((tree.lookup (metaPath name)).bind readers.channel.fromStr).any fun info => u ∉ info.members
  | .channel true _ => false
  | .dm pair => u ≠ pair.1 ∧ u ≠ pair.2

def hidden (tree : FileMap) (path : Path) : Bool := (ownerOf path).any (keepsOut readers u tree)

/-- The files of a repository, each once, in the order in which the directories list them. -/
def Listing (files : FileMap) : Prop := (files.map Prod.fst).Nodup

/-- Two repositories differ in hidden files only. -/
def DifferHidden (files files' : FileMap) : Prop :=
  ∀ p, hidden readers u files p = false → files'.lookup p = files.lookup p

def SameMetas (files files' : FileMap) : Prop :=
  ∀ name, '/' ∉ name → files'.lookup (metaPath name) = files.lookup (metaPath name)

/-- Repositories with the channels of `files` that differ in hidden files only answer alike. -/
def AnswersAlike (toLowercase : Text → Text) (files : FileMap) (request : ReadRequest) : Prop :=
  ∀ files₁ files₂, Listing files₁ → Listing files₂ → SameMetas files files₁ →
    DifferHidden readers u files₁ files₂ →
      respond readers toLowercase files₁ (viewer u) request =
        respond readers toLowercase files₂ (viewer u) request

/-- The condition. What is read directly is a channel or a direct message of the user, what is
viewed is a channel that does not keep the user out, and a search is void or no channel does. -/
def AsksOpen (files : FileMap) : ReadRequest → Prop
  | .read channel _ _ => ∀ a b, resolveThreadPath channel = .ok (.dm a b) → u = a ∨ u = b
  | .getThread channel _ => checkChannelName channel = .ok () →
      keepsOut readers u files (.channel false channel) = false
  | .search query => trim query = [] ∨
      ∀ name, name ≠ [] → '/' ∉ name → keepsOut readers u files (.channel false name) = false

end Hidden

section Names

/-- The pair of a file name is the pair it was made of. -/
theorem parseDmFilename_dmFilename {a b : Text} (ha : handlerError a = none)
    (hb : handlerError b = none) :
    parseDmFilename (dmFilename a b) = some (if a ≤ b then (a, b) else (b, a)) :=
  parseDmFilename_of_handlers ⟨a, .inl ha⟩ ⟨b, .inl hb⟩

theorem handlerError_of_checkHandler {name label : Text} {h : Handler}
    (hcheck : checkHandler name label = .ok h) : handlerError h.name = none := by
  rw [checkHandler, mapError_eq_ok_iff, Handler.new] at hcheck
  split at hcheck
  · cases hcheck
  · rename_i hnone
    cases hcheck
    exact hnone

theorem resolveThreadPath_dm {channel a b : Text} (h : resolveThreadPath channel = .ok (.dm a b)) :
    handlerError a = none ∧ handlerError b = none := by
  rw [resolveThreadPath] at h
  split at h
  · split at h
    · obtain ⟨h₁, hfirst, h⟩ := bind_eq_ok_iff.mp h
      obtain ⟨h₂, hsecond, h⟩ := bind_eq_ok_iff.mp h
      cases h
      exact ⟨handlerError_of_checkHandler hfirst, handlerError_of_checkHandler hsecond⟩
    · cases h
  · cases hcheck : checkChannelName channel with
    | error e =>
      rw [hcheck] at h
      cases h
    | ok _ =>
      rw [hcheck] at h
      cases h

theorem channelName_chars {name : Text} (h : checkChannelName name = .ok ()) :
    name ≠ [] ∧ '/' ∉ name := by
  have hnone : channelNameError name = none := by
    cases herror : channelNameError name with
    | none => rfl
    | some e =>
      rw [checkChannelName, herror] at h
      cases h
  rw [channelNameError] at hnone
  split at hnone
  · cases hnone
  rename_i hne
  split at hnone
  · cases hnone
  split at hnone
  · cases hnone
  rename_i hfind
  refine ⟨hne, fun hmem => ?_⟩
  have hchar := List.find?_eq_none.mp hfind '/' hmem
  exact hchar (by decide)

theorem resolveThreadPath_channel {channel name : Text}
    (h : resolveThreadPath channel = .ok (.channel name)) : checkChannelName name = .ok () := by
  rw [resolveThreadPath] at h
  split at h
  · split at h
    · obtain ⟨h₁, -, h⟩ := bind_eq_ok_iff.mp h
      obtain ⟨h₂, -, h⟩ := bind_eq_ok_iff.mp h
      cases h
    · cases h
  · cases hcheck : checkChannelName channel with
    | error e =>
      rw [hcheck] at h
      cases h
    | ok _ =>
      rw [hcheck] at h
      cases h
      exact hcheck

end Names

section Owners

theorem dmPair_stem (stem : Text) : dmPair (stem ++ ".thread".toList) = parseDmFilename stem := by
  rw [dmPair, stripSuffix_eq_some_iff.mpr rfl, Option.bind_some]

theorem ownerOf_dmPath (stem : Text) : ownerOf (dmPath stem) = (parseDmFilename stem).map .dm := by
  refine (ownerOf_dm _).trans ?_
  rw [dmPair_stem]

theorem ownerOf_archivedDmPath (stem : Text) :
    ownerOf (archivedDmPath stem) = (parseDmFilename stem).map .dm := by
  refine (ownerOf_archivedDm _).trans ?_
  rw [dmPair_stem]

theorem ownerOf_archivedThreadPath {name : Text} (h : '/' ∉ name) :
    ownerOf (archivedThreadPath name) = some (.channel true name) := by
  refine (ownerOf_archivedChannels _).trans ?_
  rw [contentChannel_thread h, Option.map_some]

variable {Json : Type} {readers : Readers Json} {u : Text} {files files₁ files₂ : FileMap}

theorem hidden_of_owner {p : Path} {o : Owner} (h : ownerOf p = some o) :
    hidden readers u files p = keepsOut readers u files o := by
  rw [hidden, h]
  rfl

theorem not_hidden_of_none {p : Path} (h : ownerOf p = none) : hidden readers u files p = false := by
  rw [hidden, h]
  rfl

theorem keepsOut_congr {name : Text}
    (h : files₁.lookup (metaPath name) = files.lookup (metaPath name)) :
    keepsOut readers u files₁ (.channel false name) = keepsOut readers u files (.channel false name) := by
  simp only [keepsOut, h]

/-- A direct message is hidden from all but its pair. -/
theorem keepsOut_pair {a b : Text} :
    keepsOut readers u files (.dm (if a ≤ b then (a, b) else (b, a))) = false ↔ u = a ∨ u = b := by
  split
  · simp only [keepsOut, decide_eq_false_iff_not, not_and_or, not_not, ne_eq]
  · simp only [keepsOut, decide_eq_false_iff_not, not_and_or, not_not, ne_eq]
    exact or_comm

theorem DifferHidden.meta (h : DifferHidden readers u files₁ files₂) {name : Text}
    (hslash : '/' ∉ name) : files₂.lookup (metaPath name) = files₁.lookup (metaPath name) :=
  h _ (not_hidden_of_none (ownerOf_metaPath hslash))

end Owners

section Threads
variable {Json : Type} {readers : Readers Json} {u : Text} {files₁ files₂ : FileMap}

/-- An answer from a place is made of its file, the archived copy and the recipients. -/
theorem answerFrom_congr {place : Place}
    (hpath : files₂.lookup place.path = files₁.lookup place.path)
    (harchived : files₂.lookup place.archivedPath = files₁.lookup place.archivedPath)
    (henrich : place.enrich readers files₂ = place.enrich readers files₁)
    (answer : Bool → (ThreadEntry Json → PollEntry Json) → List (ThreadEntry Json) → Answer Json) :
    answerFrom readers files₁ place answer = answerFrom readers files₂ place answer := by
  have hwith : withArchive files₂ place.path place.archivedPath =
      withArchive files₁ place.path place.archivedPath := by
    rw [withArchive, withArchive, fileExists, fileExists, fileExists, fileExists, hpath, harchived]
  have hcontent : files₂.lookup (withArchive files₁ place.path place.archivedPath).1 =
      files₁.lookup (withArchive files₁ place.path place.archivedPath).1 := by
    rw [withArchive]
    split
    · exact harchived
    · exact hpath
  simp only [answerFrom, hwith, hcontent, henrich]

theorem notMember_viewer (name : Text) :
    notMember readers files₁ (viewer u) name = keepsOut readers u files₁ (.channel false name) := by
  rw [notMember, keepsOut, viewer]
  rfl

variable (h : DifferHidden readers u files₁ files₂)
include h

theorem enrich_channel {name : Text} (hslash : '/' ∉ name)
    (hopen : keepsOut readers u files₁ (.channel false name) = false) :
    (Place.channel name).enrich readers files₂ = (Place.channel name).enrich readers files₁ := by
  have hthread := h _ ((hidden_of_owner (ownerOf_threadPath hslash)).trans hopen)
  simp only [Place.enrich]
  rw [channelRecipients_congr hthread (h.meta hslash)]

theorem answerFrom_channel {name : Text} (hslash : '/' ∉ name)
    (hopen : keepsOut readers u files₁ (.channel false name) = false)
    (answer : Bool → (ThreadEntry Json → PollEntry Json) → List (ThreadEntry Json) → Answer Json) :
    answerFrom readers files₁ (.channel name) answer =
      answerFrom readers files₂ (.channel name) answer := by
  apply answerFrom_congr
  · exact h _ ((hidden_of_owner (ownerOf_threadPath hslash)).trans hopen)
  · exact h _ (hidden_of_owner (ownerOf_archivedThreadPath hslash))
  · exact enrich_channel h hslash hopen

theorem answerFrom_dm {a b : Text} (ha : handlerError a = none) (hb : handlerError b = none)
    (hmine : u = a ∨ u = b)
    (answer : Bool → (ThreadEntry Json → PollEntry Json) → List (ThreadEntry Json) → Answer Json) :
    answerFrom readers files₁ (.dm a b) answer = answerFrom readers files₂ (.dm a b) answer := by
  have hstem := parseDmFilename_dmFilename ha hb
  have hopen : keepsOut readers u files₁ (.dm (if a ≤ b then (a, b) else (b, a))) = false :=
    keepsOut_pair.mpr hmine
  apply answerFrom_congr
  · refine h _ ((hidden_of_owner ?_).trans hopen)
    rw [Place.path, ownerOf_dmPath, hstem, Option.map_some]
  · refine h _ ((hidden_of_owner ?_).trans hopen)
    rw [Place.archivedPath, ownerOf_archivedDmPath, hstem, Option.map_some]
  · rfl

/-- A read of a channel, or of a direct message of the user, sees nothing hidden. -/
theorem handleRead_alike {channel : Text} (limit since : Option Nat)
    (hopen : ∀ a b, resolveThreadPath channel = .ok (.dm a b) → u = a ∨ u = b) :
    handleRead readers files₁ (viewer u) channel limit since =
      handleRead readers files₂ (viewer u) channel limit since := by
  rw [handleRead, handleRead]
  cases hplace : resolveThreadPath channel with
  | error e => rfl
  | ok place =>
    cases place with
    | dm a b =>
      obtain ⟨ha, hb⟩ := resolveThreadPath_dm hplace
      simp only [Bool.false_eq_true, if_false]
      exact answerFrom_dm h ha hb (hopen a b hplace) _
    | channel name =>
      obtain ⟨-, hslash⟩ := channelName_chars (resolveThreadPath_channel hplace)
      have hsame : keepsOut readers u files₂ (.channel false name) =
          keepsOut readers u files₁ (.channel false name) := keepsOut_congr (h.meta hslash)
      simp only [notMember_viewer, hsame]
      split
      · rfl
      · rename_i hmember
        exact answerFrom_channel h hslash (Bool.eq_false_iff.mpr hmember) _

theorem handleGetThread_alike {channel : Text} (lineNumber : Nat)
    (hopen : checkChannelName channel = .ok () →
      keepsOut readers u files₁ (.channel false channel) = false) :
    handleGetThread readers files₁ channel lineNumber =
      handleGetThread readers files₂ channel lineNumber := by
  rw [handleGetThread, handleGetThread]
  cases hname : checkChannelName channel with
  | error e => rfl
  | ok _ =>
    obtain ⟨-, hslash⟩ := channelName_chars hname
    exact answerFrom_channel h hslash (hopen hname) _

end Threads

section Search
variable {Json : Type} {readers : Readers Json} {toLowercase : Text → Text}

instance transCmp_newestFirst : Std.TransCmp newestFirst := by
  have htime : Std.TransCmp fun a b : SearchMessage => compare b.timestamp a.timestamp :=
    @Std.TransCmp.opposite _ (compareOn SearchMessage.timestamp) inferInstance
  have hchannel : Std.TransCmp fun a b : SearchMessage => compare a.channel b.channel :=
    inferInstanceAs (Std.TransCmp (compareOn SearchMessage.channel))
  have hline : Std.TransCmp fun a b : SearchMessage => compare b.lineNumber a.lineNumber :=
    @Std.TransCmp.opposite _ (compareOn SearchMessage.lineNumber) inferInstance
  exact inferInstanceAs (Std.TransCmp (compareLex
    (fun a b : SearchMessage => compare b.timestamp a.timestamp)
    (compareLex (fun a b : SearchMessage => compare a.channel b.channel)
      fun a b : SearchMessage => compare b.lineNumber a.lineNumber)))

/-- Messages of different channels do not tie. -/
theorem newestFirst_ne_eq {a b : SearchMessage} (h : a.channel ≠ b.channel) :
    newestFirst a b ≠ .eq := by
  intro heq
  rw [newestFirst, Ordering.then_eq_eq, Ordering.then_eq_eq] at heq
  exact h (Std.LawfulEqOrd.eq_of_compare heq.2.1)

variable (readers toLowercase) in
/-- The matches of a thread; none if it cannot be read. -/
def matched (channelType query : Text) (thread : Text × Text) : List SearchMessage :=
  (threadMatches readers toLowercase thread.2 thread.1 channelType query).toOption.getD []

variable (readers toLowercase) in
/-- The threads in which the parser does not panic. -/
def Readable (channelType query : Text) (thread : Text × Text) : Prop :=
  threadMatches readers toLowercase thread.2 thread.1 channelType query =
    .ok (matched readers toLowercase channelType query thread)

variable (readers toLowercase) in
/-- All the matches of threads among others, in order. -/
def ranked (channelType query : Text) (threads : List (Text × Text)) (found : List SearchMessage) :
    List SearchMessage :=
  threads.foldl (fun found thread =>
    (matched readers toLowercase channelType query thread).foldl
      (fun found m => place newestFirst m found) found) found

variable {channelType query : Text} {thread : Text × Text} {threads threads' : List (Text × Text)}
  {found : List SearchMessage}

theorem readable_or_panics (thread : Text × Text) :
    Readable readers toLowercase channelType query thread ∨
      threadMatches readers toLowercase thread.2 thread.1 channelType query = .error () := by
  rw [Readable, matched]
  cases threadMatches readers toLowercase thread.2 thread.1 channelType query with
  | error e => exact .inr rfl
  | ok messages => exact .inl rfl

theorem channel_of_matched {m : SearchMessage}
    (h : m ∈ matched readers toLowercase channelType query thread) : m.channel = thread.1 := by
  rw [matched, threadMatches] at h
  split at h
  · cases h
  · cases h
  · obtain ⟨e, -, he⟩ := List.mem_filterMap.mp h
    cases e with
    | event e => cases he
    | message e =>
      simp only [Option.ite_none_right_eq_some] at he
      rw [← Option.some.inj he.2]

theorem pairwise_foldl_place {messages : List SearchMessage}
    (h : found.Pairwise (Ahead newestFirst)) :
    (messages.foldl (fun found m => place newestFirst m found) found).Pairwise
      (Ahead newestFirst) := by
  induction messages generalizing found with
  | nil => exact h
  | cons m messages ih => exact ih (pairwise_place h)

theorem pairwise_ranked (h : found.Pairwise (Ahead newestFirst)) :
    (ranked readers toLowercase channelType query threads found).Pairwise (Ahead newestFirst) := by
  induction threads generalizing found with
  | nil => exact h
  | cons thread threads ih => exact ih (pairwise_foldl_place h)

/-- A scan of readable threads keeps the first of all the matches. -/
theorem scanThreads_readable (hfound : found.Pairwise (Ahead newestFirst))
    (h : ∀ thread ∈ threads, Readable readers toLowercase channelType query thread) :
    scanThreads readers toLowercase channelType query threads (found.take searchResultLimit) =
      .ok ((ranked readers toLowercase channelType query threads found).take searchResultLimit) := by
  induction threads generalizing found with
  | nil => rfl
  | cons thread threads ih =>
    obtain ⟨hthread, hrest⟩ := List.forall_mem_cons.mp h
    have hscan : scanThread readers toLowercase channelType query
        (found.take searchResultLimit) thread =
        .ok (((matched readers toLowercase channelType query thread).foldl
          (fun found m => place newestFirst m found) found).take searchResultLimit) := by
      rw [scanThread, hthread]
      exact congrArg Except.ok (foldl_keepFirst searchResultLimit _ hfound)
    rw [scanThreads, List.foldlM_cons, hscan]
    exact ih (pairwise_foldl_place hfound) hrest

theorem scanThreads_panics (hthread : thread ∈ threads)
    (h : threadMatches readers toLowercase thread.2 thread.1 channelType query = .error ()) :
    scanThreads readers toLowercase channelType query threads found = .error () := by
  induction threads generalizing found with
  | nil => cases hthread
  | cons first threads ih =>
    rw [scanThreads, List.foldlM_cons]
    cases hscan : scanThread readers toLowercase channelType query found first with
    | error e => rfl
    | ok found' =>
      rcases List.mem_cons.mp hthread with rfl | hrest
      · rw [scanThread, h] at hscan
        cases hscan
      · exact ih hrest

/-- The order in which a directory is listed does not matter. -/
theorem ranked_perm (hperm : threads.Perm threads') (hids : (threads.map Prod.fst).Nodup)
    (found : List SearchMessage) : ranked readers toLowercase channelType query threads found =
      ranked readers toLowercase channelType query threads' found := by
  apply hperm.foldl_eq'
  intro a ha b hb found
  by_cases hab : a = b
  · rw [hab]
  · apply foldl_place_swap
    intro x hx y hy
    apply newestFirst_ne_eq
    rw [channel_of_matched hx, channel_of_matched hy]
    exact fun heq => hab (List.inj_on_of_nodup_map hids ha hb heq)

theorem scanThreads_perm (hperm : threads.Perm threads') (hids : (threads.map Prod.fst).Nodup)
    (hfound : found.Pairwise (Ahead newestFirst)) :
    scanThreads readers toLowercase channelType query threads (found.take searchResultLimit) =
      scanThreads readers toLowercase channelType query threads' (found.take searchResultLimit) := by
  by_cases hall : ∀ thread ∈ threads, Readable readers toLowercase channelType query thread
  · rw [scanThreads_readable hfound hall,
      scanThreads_readable hfound fun thread hthread => hall thread (hperm.mem_iff.mpr hthread),
      ranked_perm hperm hids]
  · simp only [not_forall] at hall
    obtain ⟨thread, hthread, hpanics⟩ := hall
    have herror := (readable_or_panics thread).resolve_left hpanics
    rw [scanThreads_panics hthread herror, scanThreads_panics (hperm.mem_iff.mp hthread) herror]

/-- A scan that ends has kept the first of a sorted list. -/
theorem scanThreads_ok {kept : List SearchMessage} (hfound : found.Pairwise (Ahead newestFirst))
    (h : scanThreads readers toLowercase channelType query threads (found.take searchResultLimit) =
      .ok kept) : ∃ all : List SearchMessage, all.Pairwise (Ahead newestFirst) ∧
        kept = all.take searchResultLimit := by
  by_cases hall : ∀ thread ∈ threads, Readable readers toLowercase channelType query thread
  · rw [scanThreads_readable hfound hall] at h
    exact ⟨_, pairwise_ranked hfound, (Except.ok.inj h).symm⟩
  · simp only [not_forall] at hall
    obtain ⟨thread, hthread, hpanics⟩ := hall
    rw [scanThreads_panics hthread ((readable_or_panics thread).resolve_left hpanics)] at h
    cases h

end Search

section Files

theorem threadStem_eq_some {directory path : Path} {stem : Text}
    (h : threadStem directory path = some stem) :
    path = directory ++ (stem ++ ".thread".toList) ∧ '/' ∉ stem ∧ stem ≠ [] := by
  rw [threadStem] at h
  obtain ⟨rest, hrest, h⟩ := Option.bind_eq_some_iff.mp h
  split at h
  · cases h
  rename_i hslash
  obtain ⟨stem', hstem, h⟩ := Option.bind_eq_some_iff.mp h
  split at h
  · cases h
  rename_i hne
  cases h
  rw [stripPrefix_eq_some_iff.mp hrest, stripSuffix_eq_some_iff.mp hstem]
  refine ⟨rfl, fun hmem => hslash ?_, hne⟩
  rw [stripSuffix_eq_some_iff.mp hstem]
  exact List.mem_append_left _ hmem

theorem channelForPath_threadPath {name : Text} (hne : name ≠ []) (hslash : '/' ∉ name) :
    channelForPath (threadPath name) = some name := by
  have hstrip : stripPrefix "channels/".toList (threadPath name) =
      some (name ++ ".thread".toList) := stripPrefix_append _ _
  have hstem : stripSuffix ".thread".toList (name ++ ".thread".toList) = some name :=
    stripSuffix_eq_some_iff.mpr rfl
  have hrest : '/' ∉ name ++ ".thread".toList := by
    rw [List.mem_append]
    exact fun hmem => hmem.elim hslash (by decide)
  rw [channelForPath, threadStem, hstrip]
  refine (if_neg hrest).trans ?_
  rw [hstem]
  exact if_neg hne

theorem dmForPath_eq_some {me : Text} {path : Path} {stem : Text}
    (h : dmForPath me path = some stem) :
    path = dmPath stem ∧ ∃ pair, parseDmFilename stem = some pair ∧ (pair.1 = me ∨ pair.2 = me) := by
  rw [dmForPath] at h
  obtain ⟨stem', hstem, h⟩ := Option.bind_eq_some_iff.mp h
  obtain ⟨⟨first, second⟩, hpair, h⟩ := Option.bind_eq_some_iff.mp h
  dsimp only at h
  split at h
  · rename_i hmine
    cases h
    exact ⟨(threadStem_eq_some hstem).1, _, hpair, hmine⟩
  · cases h

theorem cardIdentifier_eq_some {path : Path} {id : Text} (h : cardIdentifier path = some id) :
    path = id ++ "/discussion.thread".toList ∧ ∃ channel tail, channel ≠ [] ∧ '/' ∉ channel ∧
      path = "channels/".toList ++ (channel ++ '/' :: ("cards/".toList ++ tail)) := by
  rw [cardIdentifier] at h
  obtain ⟨⟨channel, cardId, file⟩, hcard, hid⟩ := Option.bind_eq_some_iff.mp h
  dsimp only at hid
  split at hid
  · cases hid
  rename_i hparts
  simp only [not_or, not_not] at hparts
  obtain ⟨hchannel, -, rfl⟩ := hparts
  have hprefix : ∃ rest, path = "channels/".toList ++ rest := by
    rw [cardPath] at hcard
    obtain ⟨rest, hrest, -⟩ := Option.bind_eq_some_iff.mp hcard
    exact ⟨rest, stripPrefix_eq_some_iff.mp hrest⟩
  obtain ⟨rest, rfl⟩ := hprefix
  obtain ⟨hslash, rfl⟩ := cardPath_eq_some hcard
  cases hid
  refine ⟨?_, channel, _, hchannel, hslash, rfl⟩
  simp

variable {identify : Path → Option Text} {files files₁ files₂ : FileMap}

theorem ids_nodup (hfiles : Listing files)
    (hinj : ∀ p q id, identify p = some id → identify q = some id → p = q) :
    ((threadsOf identify files).map Prod.fst).Nodup := by
  have hmap : (threadsOf identify files).map Prod.fst =
      (files.map Prod.fst).filterMap identify := by
    rw [threadsOf, List.map_filterMap, List.filterMap_map]
    apply List.filterMap_congr
    intro e _
    simp only [Option.map_map, Function.comp_def, Option.map_id']
  rw [hmap]
  exact hfiles.filterMap fun p q id hp hq => hinj p q id hp hq

theorem mem_threadsOf (hfiles : Listing files) {id content : Text} :
    (id, content) ∈ threadsOf identify files ↔
      ∃ p, identify p = some id ∧ files.lookup p = some content := by
  rw [threadsOf, List.mem_filterMap]
  constructor
  · rintro ⟨⟨p, c⟩, hmem, heq⟩
    obtain ⟨id', hid, heq⟩ := Option.map_eq_some_iff.mp heq
    cases heq
    exact ⟨p, hid, (mem_iff_lookup hfiles).mp hmem⟩
  · rintro ⟨p, hid, hlookup⟩
    refine ⟨(p, content), (mem_iff_lookup hfiles).mpr hlookup, ?_⟩
    simp only [hid, Option.map_some]

/-- Listings with the same threads list them in some order. -/
theorem threadsOf_perm (h₁ : Listing files₁) (h₂ : Listing files₂)
    (hinj : ∀ p q id, identify p = some id → identify q = some id → p = q)
    (hsame : ∀ p id, identify p = some id → files₂.lookup p = files₁.lookup p) :
    (threadsOf identify files₁).Perm (threadsOf identify files₂) := by
  refine (List.perm_ext_iff_of_nodup (ids_nodup h₁ hinj).of_map (ids_nodup h₂ hinj).of_map).mpr ?_
  rintro ⟨id, content⟩
  rw [mem_threadsOf h₁, mem_threadsOf h₂]
  constructor
  · rintro ⟨p, hid, hlookup⟩
    exact ⟨p, hid, (hsame p id hid).trans hlookup⟩
  · rintro ⟨p, hid, hlookup⟩
    exact ⟨p, hid, (hsame p id hid).symm.trans hlookup⟩

theorem channelForPath_injective (p q : Path) (id : Text) (hp : channelForPath p = some id)
    (hq : channelForPath q = some id) : p = q :=
  (threadStem_eq_some hp).1.trans (threadStem_eq_some hq).1.symm

theorem cardIdentifier_injective (p q : Path) (id : Text) (hp : cardIdentifier p = some id)
    (hq : cardIdentifier q = some id) : p = q :=
  (cardIdentifier_eq_some hp).1.trans (cardIdentifier_eq_some hq).1.symm

theorem dmForPath_injective (me : Text) (p q : Path) (id : Text) (hp : dmForPath me p = some id)
    (hq : dmForPath me q = some id) : p = q :=
  (dmForPath_eq_some hp).1.trans (dmForPath_eq_some hq).1.symm

variable {Json : Type} {readers : Readers Json} {toLowercase : Text → Text} {u : Text}

/-- A search of a user whom no channel keeps out sees nothing hidden. -/
theorem searchMessages_alike (h₁ : Listing files₁) (h₂ : Listing files₂)
    (h : DifferHidden readers u files₁ files₂)
    (hopen : ∀ name, name ≠ [] → '/' ∉ name →
      keepsOut readers u files₁ (.channel false name) = false) (query : Text) :
    searchMessages readers toLowercase files₁ (some u) query =
      searchMessages readers toLowercase files₂ (some u) query := by
  have hchannels : (threadsOf channelForPath files₁).Perm (threadsOf channelForPath files₂) := by
    apply threadsOf_perm h₁ h₂ channelForPath_injective
    intro p id hp
    obtain ⟨rfl, hslash, hne⟩ := threadStem_eq_some hp
    exact h _ ((hidden_of_owner (ownerOf_threadPath hslash)).trans (hopen id hne hslash))
  have hcards : (threadsOf cardIdentifier files₁).Perm (threadsOf cardIdentifier files₂) := by
    apply threadsOf_perm h₁ h₂ cardIdentifier_injective
    intro p id hp
    obtain ⟨-, channel, tail, hne, hslash, rfl⟩ := cardIdentifier_eq_some hp
    exact h _ ((hidden_of_owner (ownerOf_cardFile tail hslash)).trans (hopen channel hne hslash))
  have hdms : (threadsOf (dmForPath u) files₁).Perm (threadsOf (dmForPath u) files₂) := by
    apply threadsOf_perm h₁ h₂ (dmForPath_injective u)
    intro p id hp
    obtain ⟨rfl, pair, hpair, hmine⟩ := dmForPath_eq_some hp
    have howner : ownerOf (dmPath id) = some (.dm pair) := by
      rw [ownerOf_dmPath, hpair, Option.map_some]
    refine h _ ((hidden_of_owner howner).trans ?_)
    rw [keepsOut, decide_eq_false_iff_not]
    exact fun hne => hmine.elim (fun heq => hne.1 heq.symm) fun heq => hne.2 heq.symm
  simp only [searchMessages]
  have hnil : ([] : List SearchMessage) = List.take searchResultLimit [] := rfl
  rw [hnil, scanThreads_perm hchannels (ids_nodup h₁ channelForPath_injective) List.Pairwise.nil]
  cases hfirst : scanThreads readers toLowercase "channel".toList (toLowercase query)
      (threadsOf channelForPath files₂) (List.take searchResultLimit []) with
  | error e => rfl
  | ok found =>
    obtain ⟨all, hall, rfl⟩ := scanThreads_ok List.Pairwise.nil hfirst
    simp only [bind, Except.bind]
    rw [scanThreads_perm hcards (ids_nodup h₁ cardIdentifier_injective) hall]
    cases hsecond : scanThreads readers toLowercase "card".toList (toLowercase query)
        (threadsOf cardIdentifier files₂) (all.take searchResultLimit) with
    | error e => rfl
    | ok found' =>
      obtain ⟨all', hall', rfl⟩ := scanThreads_ok hall hsecond
      exact scanThreads_perm hdms (ids_nodup h₁ (dmForPath_injective u)) hall'

end Files

section Probes
variable {Json : Type} {readers : Readers Json} {toLowercase : Text → Text} {u : Text}

/-- A repository without its threads. -/
def bare (files : FileMap) : FileMap :=
  restrict ((files.map Prod.fst).dedup.filter fun p => ¬".thread".toList <:+ p)
    fun q => files.lookup q

/-- A repository with a single thread. -/
def probe (files : FileMap) (path : Path) (content : Text) : FileMap :=
  (path, content) :: bare files

variable {files : FileMap} {path : Path} {content content' : Text}

theorem mem_bareKeys {q : Path} :
    (q ∈ (files.map Prod.fst).dedup.filter fun p => ¬".thread".toList <:+ p) ↔
      q ∈ files.map Prod.fst ∧ ¬".thread".toList <:+ q := by
  rw [List.mem_filter, List.mem_dedup, decide_eq_true_eq]

theorem lookup_bare (q : Path) :
    (bare files).lookup q = if ".thread".toList <:+ q then none else files.lookup q := by
  rw [bare, lookup_restrict]
  by_cases hthread : ".thread".toList <:+ q
  · rw [if_pos hthread, if_neg fun hmem => (mem_bareKeys.mp hmem).2 hthread]
  · rw [if_neg hthread]
    split
    · rfl
    · rename_i hq
      cases hlookup : files.lookup q with
      | none => rfl
      | some c =>
        have hmem : q ∈ files.map Prod.fst := lookup_isSome_iff.mp ⟨c, hlookup⟩
        exact absurd (mem_bareKeys.mpr ⟨hmem, hthread⟩) hq

theorem lookup_probe (q : Path) : (probe files path content).lookup q =
    if q = path then some content else (bare files).lookup q := by
  rw [probe, lookup_cons_ite]

theorem listing_probe (hpath : ".thread".toList <:+ path) : Listing (probe files path content) := by
  have hkeys : ((bare files).map Prod.fst).Sublist
      ((files.map Prod.fst).dedup.filter fun p => ¬".thread".toList <:+ p) := by
    rw [bare, restrict, List.map_filterMap]
    generalize (files.map Prod.fst).dedup.filter _ = keys
    induction keys with
    | nil => exact List.Sublist.slnil
    | cons k keys ih =>
      cases hk : files.lookup k with
      | none =>
        rw [List.filterMap_cons_none (by rw [hk]; rfl)]
        exact ih.cons k
      | some c =>
        rw [List.filterMap_cons_some (b := k) (by rw [hk]; rfl)]
        exact ih.cons_cons k
  refine List.nodup_cons.mpr ⟨fun hmem => ?_, hkeys.nodup ((List.nodup_dedup _).filter _)⟩
  exact (mem_bareKeys.mp (hkeys.subset hmem)).2 hpath

theorem not_thread_metaPath (name : Text) : ¬".thread".toList <:+ metaPath name := by
  intro h
  have hmeta : ".meta.yaml".toList <:+ metaPath name :=
    (List.suffix_append name _).trans (List.suffix_append "channels/".toList _)
  have hsuffix := List.suffix_of_suffix_length_le h hmeta (by decide)
  exact absurd hsuffix (by decide)

theorem meta_probe (hpath : ".thread".toList <:+ path) (name : Text) :
    (probe files path content).lookup (metaPath name) = files.lookup (metaPath name) := by
  rw [lookup_probe, if_neg, lookup_bare, if_neg (not_thread_metaPath name)]
  rintro rfl
  exact not_thread_metaPath name hpath

theorem differHidden_probe
    (hhidden : hidden readers u (probe files path content) path = true) :
    DifferHidden readers u (probe files path content) (probe files path content') := by
  intro q hq
  have hne : q ≠ path := by
    rintro rfl
    rw [hhidden] at hq
    cases hq
  rw [lookup_probe, lookup_probe, if_neg hne, if_neg hne]

/-- A request that reads a hidden file tells two contents of it apart. -/
theorem not_answersAlike (content content' : Text) {request : ReadRequest} (hpath : ".thread".toList <:+ path)
    (hhidden : hidden readers u (probe files path content) path = true)
    (hdiffer : respond readers toLowercase (probe files path content) (viewer u) request ≠
      respond readers toLowercase (probe files path content') (viewer u) request) :
    ¬AnswersAlike readers u toLowercase files request :=
  fun h => hdiffer (h _ _ (listing_probe hpath) (listing_probe hpath)
    (fun name _ => meta_probe hpath name) (differHidden_probe hhidden))

theorem thread_suffix_dmPath (stem : Text) : ".thread".toList <:+ dmPath stem :=
  (List.suffix_append stem _).trans (List.suffix_append "dm/".toList _)

theorem thread_suffix_threadPath (name : Text) : ".thread".toList <:+ threadPath name :=
  (List.suffix_append name _).trans (List.suffix_append "channels/".toList _)

theorem hidden_probe_channel {name : Text} (hslash : '/' ∉ name)
    (hout : keepsOut readers u files (.channel false name) = true) :
    hidden readers u (probe files (threadPath name) content) (threadPath name) = true := by
  rw [hidden_of_owner (ownerOf_threadPath hslash),
    keepsOut_congr (meta_probe (thread_suffix_threadPath name) name), hout]

/-- A line that opens no message. -/
def junk : Text := "x".toList

theorem answerFrom_junk (place : Place)
    (answer : Bool → (ThreadEntry Json → PollEntry Json) → List (ThreadEntry Json) → Answer Json) :
    answerFrom readers (probe files place.path junk) place answer =
      parseErrorAnswer (.firstLineNotMessage 1) := by
  have hlookup : (probe files place.path junk).lookup place.path = some junk := by
    rw [lookup_probe, if_pos rfl]
  have hparse : parseThread readers.json junk = .error (.error (.firstLineNotMessage 1)) := rfl
  have hwith : withArchive (probe files place.path junk) place.path place.archivedPath =
      (place.path, false) := by
    rw [withArchive, fileExists, hlookup]
    simp
  simp only [answerFrom, hwith, hlookup, Option.getD_some, hparse]

theorem answerFrom_empty (readers : Readers Json) (files : FileMap) (place : Place)
    (answer : Bool → (ThreadEntry Json → PollEntry Json) → List (ThreadEntry Json) → Answer Json) :
    ∃ enrich, answerFrom readers (probe files place.path []) place answer =
      answer false enrich [] := by
  have hlookup : (probe files place.path []).lookup place.path = some [] := by
    rw [lookup_probe, if_pos rfl]
  have hparse : parseThread readers.json [] = .ok ⟨[]⟩ := rfl
  have hwith : withArchive (probe files place.path []) place.path place.archivedPath =
      (place.path, false) := by
    rw [withArchive, fileExists, hlookup]
    simp
  have henrich : ∃ enrich, place.enrich readers (probe files place.path []) = .ok enrich := by
    cases place with
    | dm a b => exact ⟨_, rfl⟩
    | channel name =>
      have hthread : (probe files (threadPath name) []).lookup (threadPath name) = some [] := hlookup
      have hread : readAdded readers [] = .ok [] := rfl
      simp only [Place.enrich, Place.path, channelRecipients, hthread, Option.getD_some, hread]
      exact ⟨_, rfl⟩
  obtain ⟨enrich, henrich⟩ := henrich
  refine ⟨enrich, ?_⟩
  simp only [answerFrom, hwith, hlookup, Option.getD_some, hparse, henrich]

/-- A read goes to a direct message whoever asks. -/
theorem read_tells {channel a b : Text} {limit since : Option Nat}
    (hplace : resolveThreadPath channel = .ok (.dm a b)) :
    handleRead readers (probe files (dmPath (dmFilename a b)) []) (viewer u) channel limit since ≠
      handleRead readers (probe files (dmPath (dmFilename a b)) junk) (viewer u) channel limit
        since := by
  have hread : ∀ tree, handleRead readers tree (viewer u) channel limit since =
      answerFrom readers tree (.dm a b) fun archived enrich entries =>
        .read channel ((selectEntries limit since entries).map enrich) archived := by
    intro tree
    simp only [handleRead, hplace, Bool.false_eq_true, if_false]
  obtain ⟨enrich, hempty⟩ := answerFrom_empty readers files (.dm a b)
    fun archived enrich entries =>
      .read channel ((selectEntries limit since entries).map enrich) archived
  rw [hread, hread, show dmPath (dmFilename a b) = (Place.dm a b).path from rfl, hempty,
    answerFrom_junk]
  exact nofun

/-- A thread view goes to a channel whoever asks. -/
theorem getThread_tells {channel : Text} {lineNumber : Nat}
    (hname : checkChannelName channel = .ok ()) :
    handleGetThread readers (probe files (threadPath channel) []) channel lineNumber ≠
      handleGetThread readers (probe files (threadPath channel) junk) channel lineNumber := by
  have hview : ∀ tree, handleGetThread readers tree channel lineNumber =
      answerFrom readers tree (.channel channel) fun _ enrich entries =>
        .thread channel (rootLine entries entries lineNumber)
          ((threadOf entries (rootLine entries entries lineNumber)).map enrich) := by
    intro tree
    simp only [handleGetThread, hname]
  obtain ⟨enrich, hempty⟩ := answerFrom_empty readers files
    (.channel channel) fun _ enrich entries =>
      .thread channel (rootLine entries entries lineNumber)
        ((threadOf entries (rootLine entries entries lineNumber)).map enrich)
  rw [hview, hview, show threadPath channel = (Place.channel channel).path from rfl, hempty,
    answerFrom_junk]
  exact nofun

theorem searchMessages_readable {listed : FileMap} {me query : Text}
    (hchannels : ∀ thread ∈ threadsOf channelForPath listed, thread.2 = [])
    (hcards : ∀ thread ∈ threadsOf cardIdentifier listed, thread.2 = [])
    (hdms : ∀ thread ∈ threadsOf (dmForPath me) listed, thread.2 = []) :
    ∃ messages, searchMessages readers toLowercase listed (some me) query = .ok messages := by
  have hreadable : ∀ channelType thread, thread.2 = [] →
      Readable readers toLowercase channelType (toLowercase query) thread := by
    rintro channelType ⟨id, content⟩ rfl
    rfl
  simp only [searchMessages]
  have hnil : ([] : List SearchMessage) = List.take searchResultLimit [] := rfl
  rw [hnil, scanThreads_readable List.Pairwise.nil fun t ht => hreadable _ t (hchannels t ht)]
  simp only [bind, Except.bind]
  rw [scanThreads_readable (pairwise_ranked List.Pairwise.nil)
    fun t ht => hreadable _ t (hcards t ht)]
  exact ⟨_, scanThreads_readable (pairwise_ranked (pairwise_ranked List.Pairwise.nil))
    fun t ht => hreadable _ t (hdms t ht)⟩

/-- The only thread of a probe is the probed one. -/
theorem content_of_probe {identify : Path → Option Text} (hpath : ".thread".toList <:+ path)
    (hthread : ∀ q id, identify q = some id → ".thread".toList <:+ q) {thread : Text × Text}
    (h : thread ∈ threadsOf identify (probe files path content)) : thread.2 = content := by
  obtain ⟨q, hid, hlookup⟩ := (mem_threadsOf (listing_probe hpath)).mp h
  rw [lookup_probe] at hlookup
  split at hlookup
  · exact (Option.some.inj hlookup).symm
  · rw [lookup_bare, if_pos (hthread q _ hid)] at hlookup
    cases hlookup

/-- A line number of twenty digits, which the parser does not survive. -/
def oversized : Text :=
  "[L18446744073709551616][P000000][@alice][20260101T000000Z] hello".toList

theorem parseThread_oversized (codec : JsonCodec Json) :
    parseThread codec oversized = .error (.panicParseU64 "18446744073709551616".toList) := by
  rfl

/-- A search goes through the hidden threads. -/
theorem search_tells {name query bad digits : Text} (hne : name ≠ []) (hslash : '/' ∉ name)
    (hquery : trim query ≠ []) (hbad : parseThread readers.json bad = .error (.panicParseU64 digits)) :
    handleSearch readers toLowercase (probe files (threadPath name) []) (some u) query ≠
      handleSearch readers toLowercase (probe files (threadPath name) bad) (some u) query := by
  have hpath := thread_suffix_threadPath name
  obtain ⟨messages, hfound⟩ : ∃ messages, searchMessages readers toLowercase
      (probe files (threadPath name) []) (some u) query = .ok messages := by
    apply searchMessages_readable
    · intro thread hthread
      refine content_of_probe hpath (fun q id hq => ?_) hthread
      rw [(threadStem_eq_some hq).1]
      exact (List.suffix_append id _).trans (List.suffix_append _ _)
    · intro thread hthread
      refine content_of_probe hpath (fun q id hq => ?_) hthread
      rw [(cardIdentifier_eq_some hq).1]
      have hdiscussion : ".thread".toList <:+ "/discussion.thread".toList := by decide
      exact hdiscussion.trans (List.suffix_append id _)
    · intro thread hthread
      refine content_of_probe hpath (fun q id hq => ?_) hthread
      rw [(dmForPath_eq_some hq).1]
      exact thread_suffix_dmPath id
  have hpanics : searchMessages readers toLowercase (probe files (threadPath name) bad)
      (some u) query = .error () := by
    have hmem : (name, bad) ∈
        threadsOf channelForPath (probe files (threadPath name) bad) := by
      refine (mem_threadsOf (listing_probe hpath)).mpr ⟨threadPath name, ?_, ?_⟩
      · exact channelForPath_threadPath hne hslash
      · rw [lookup_probe, if_pos rfl]
    have hthread : threadMatches readers toLowercase bad name "channel".toList
        (toLowercase query) = .error () := by
      rw [threadMatches, hbad]
    simp only [searchMessages]
    rw [scanThreads_panics hmem hthread]
    rfl
  rw [handleSearch, handleSearch, if_neg hquery, if_neg hquery, hfound, hpanics]
  exact nofun

end Probes

section Result
variable {Json : Type}

/-- Whether repositories that differ in hidden files only answer a request alike. -/
theorem answersAlike_iff (readers : Readers Json) (toLowercase : Text → Text) (u : Text)
    (files : FileMap) (request : ReadRequest) :
    AnswersAlike readers u toLowercase files request ↔ AsksOpen readers u files request := by
  constructor
  · intro halike
    by_contra hclosed
    revert halike
    cases request with
    | read channel limit since =>
      simp only [AsksOpen, not_forall, not_or] at hclosed
      obtain ⟨a, b, hplace, hothers⟩ := hclosed
      obtain ⟨ha, hb⟩ := resolveThreadPath_dm hplace
      refine not_answersAlike [] junk (thread_suffix_dmPath (dmFilename a b)) ?_ ?_
      · have howner : ownerOf (dmPath (dmFilename a b)) =
            some (.dm (if a ≤ b then (a, b) else (b, a))) := by
          rw [ownerOf_dmPath, parseDmFilename_dmFilename ha hb, Option.map_some]
        rw [hidden_of_owner howner, ← Bool.not_eq_false, keepsOut_pair]
        exact not_or.mpr hothers
      · exact read_tells hplace
    | getThread channel lineNumber =>
      simp only [AsksOpen, not_forall, Bool.not_eq_false] at hclosed
      obtain ⟨hname, hout⟩ := hclosed
      obtain ⟨-, hslash⟩ := channelName_chars hname
      exact not_answersAlike [] junk (thread_suffix_threadPath channel)
        (hidden_probe_channel hslash hout) (getThread_tells hname)
    | search query =>
      simp only [AsksOpen, not_or, not_forall, Bool.not_eq_false] at hclosed
      obtain ⟨hquery, name, hne, hslash, hout⟩ := hclosed
      exact not_answersAlike [] oversized (thread_suffix_threadPath name)
        (hidden_probe_channel hslash hout) (search_tells hne hslash hquery (parseThread_oversized _))
  · intro hopen files₁ files₂ h₁ h₂ hmetas h
    cases request with
    | read channel limit since => exact handleRead_alike h limit since hopen
    | getThread channel lineNumber =>
      refine handleGetThread_alike h lineNumber fun hname => ?_
      rw [keepsOut_congr (hmetas channel (channelName_chars hname).2)]
      exact hopen hname
    | search query =>
      simp only [respond, handleSearch]
      split
      · rfl
      · rename_i hquery
        have hsame : searchMessages readers toLowercase files₁ (some u) query =
            searchMessages readers toLowercase files₂ (some u) query := by
          apply searchMessages_alike h₁ h₂ h
          intro name hne hslash
          rw [keepsOut_congr (hmetas name hslash)]
          exact hopen.resolve_left hquery name hne hslash
        simp only [viewer, hsame]

/-- A message of Alice in a channel with Bob, and one to Bob alone. -/
def secretRepo (body : Text) : FileMap :=
  [plansMeta,
    (threadPath "plans".toList, "[L000001][P000000][@alice][20260101T000000Z] ".toList ++ body),
    (dmPath "alice--bob".toList, "[L000001][P000000][@alice][20260101T000000Z] ".toList ++ body)]

def asciiLower (t : Text) : Text := t.map Char.toLower

theorem threadOf_singleton {e : ThreadEntry Json} (hroot : e.pointTo = 0) (hline : 0 < e.lineNumber) :
    rootLine [e] [e] e.lineNumber = e.lineNumber ∧ threadOf [e] e.lineNumber = [e] := by
  have hne : e.lineNumber ≠ 0 := Nat.pos_iff_ne_zero.mp hline
  constructor
  · rw [rootLine]
    split
    · rfl
    · rename_i found hfind
      have hfound : found = e := List.mem_singleton.mp (List.mem_of_find?_eq_some hfind)
      rw [if_pos (.inl (hfound ▸ hroot))]
  · rw [threadOf, collect, dif_pos (List.mem_dedup.mpr List.mem_cons_self)]
    simp [collect, dedupFrom, hroot, hne.symm]

/-- The view of a thread of one message shows it, whoever asks. -/
theorem getThread_singleton {readers : Readers Json} {tree : FileMap} {channel content : Text}
    {m : Message} (hname : checkChannelName channel = .ok ())
    (hlookup : tree.lookup (threadPath channel) = some content)
    (hparse : parseThread readers.json content = .ok ⟨[.message m]⟩) (hroot : m.pointTo = 0)
    (hline : 0 < m.lineNumber) :
    ∃ recipients, handleGetThread readers tree channel m.lineNumber =
      .thread channel m.lineNumber [.entry (.message m) recipients] := by
  have hwith : withArchive tree (threadPath channel) (archivedThreadPath channel) =
      (threadPath channel, false) := by
    rw [withArchive, fileExists, hlookup]
    simp
  have hread : readAdded readers content = .ok [.message m] := by
    rw [readAdded, hparse]
  obtain ⟨hup, hview⟩ := @threadOf_singleton Json (.message m) hroot hline
  have henrich : ∃ recipients, (Place.channel channel).enrich readers tree =
      .ok (withRecipients recipients) := by
    simp only [Place.enrich, channelRecipients, hlookup, Option.getD_some, hread]
    exact ⟨_, rfl⟩
  obtain ⟨recipients, henrich⟩ := henrich
  refine ⟨recipients m, ?_⟩
  simp only [handleGetThread, hname, answerFrom, Place.path, Place.archivedPath, hwith, hlookup,
    Option.getD_some, hparse, henrich]
  have hline : (ThreadEntry.message m : ThreadEntry Json).lineNumber = m.lineNumber := rfl
  rw [← hline, hup, hview]
  rfl

theorem alice_valid : handlerError "alice".toList = none ∨ "alice".toList = systemName :=
  .inl (by decide)

def secretMessage (body : Text) : Message :=
  ⟨1, 0, ⟨"alice".toList, alice_valid⟩, "20260101T000000Z".toList, body⟩

/-- Carol, who is refused when she reads the channel, reads on in three other ways. -/
theorem not_answersAlike_carol :
    DifferHidden sampleReaders "carol".toList (secretRepo "launch".toList)
        (secretRepo "cancel".toList) ∧
      (∀ body ∈ ["launch".toList, "cancel".toList], respond sampleReaders asciiLower
        (secretRepo body) (viewer "carol".toList) (.read "plans".toList none none) =
          .error "not_member".toList) ∧
      ∀ request ∈ [ReadRequest.getThread "plans".toList 1, .search "launch".toList,
          .read "dm:alice,bob".toList none none],
        respond sampleReaders asciiLower (secretRepo "launch".toList) (viewer "carol".toList)
          request ≠
        respond sampleReaders asciiLower (secretRepo "cancel".toList) (viewer "carol".toList)
          request := by
  refine ⟨?_, by decide +kernel, ?_⟩
  · intro p hp
    have hthread : p ≠ threadPath "plans".toList := by
      rintro rfl
      exact absurd hp (by decide +kernel)
    have hdm : p ≠ dmPath "alice--bob".toList := by
      rintro rfl
      exact absurd hp (by decide +kernel)
    simp only [secretRepo, plansMeta, lookup_cons_ite, if_neg hthread, if_neg hdm]
  · intro request hrequest
    simp only [List.mem_cons, List.not_mem_nil, or_false] at hrequest
    rcases hrequest with rfl | rfl | rfl
    · have hview : ∀ body : Text, parseThread sampleReaders.json
          ("[L000001][P000000][@alice][20260101T000000Z] ".toList ++ body) =
            .ok ⟨[.message (secretMessage body)]⟩ → ∃ recipients,
          respond sampleReaders asciiLower (secretRepo body) (viewer "carol".toList)
            (.getThread "plans".toList 1) =
            .thread "plans".toList 1 [.entry (.message (secretMessage body)) recipients] := by
        intro body hparse
        have hlookup : (secretRepo body).lookup (threadPath "plans".toList) =
            some ("[L000001][P000000][@alice][20260101T000000Z] ".toList ++ body) := by
          have hne : threadPath "plans".toList ≠ metaPath "plans".toList := by decide
          simp only [secretRepo, plansMeta, lookup_cons_ite, if_neg hne, if_true]
        exact getThread_singleton (by decide) hlookup hparse rfl Nat.zero_lt_one
      obtain ⟨recipients, hlaunch⟩ := hview "launch".toList (by decide +kernel)
      obtain ⟨recipients', hcancel⟩ := hview "cancel".toList (by decide +kernel)
      rw [hlaunch, hcancel]
      intro heq
      injection heq with _ _ hentries
      injection hentries with hentry _
      injection hentry with hmessage _
      exact absurd hmessage (by decide)
    · decide +kernel
    · decide +kernel

end Result

end ReadSecrecy
