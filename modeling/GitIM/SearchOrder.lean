import GitIM.ReadSecrecy
import GitIM.ThreadReading

/-!
# The newest matches of a search

A search keeps the ten newest matches while it goes through the threads. Whatever the order of the
directories, that is the beginning of all the matches, sorted once. Threads that cannot be parsed
have no matches; only a parser that panics ends the search without an answer.
-/

namespace SearchOrder

open Std TextLines TextScan FileTree ThreadFormat ThreadReading DmThreads Channels Poll Ranking Reading
  ChannelPrivacy ReadSecrecy

section Scans
variable {Json : Type} (readers : Readers Json) (toLowercase : Text → Text)

/-- The threads a search opens. -/
def scannedThreads (files : FileMap) (user : Option Text) : List (Text × Text) :=
  threadsOf channelForPath files ++ (threadsOf cardIdentifier files ++
    user.elim [] fun me => threadsOf (dmForPath me) files)

def matchesOf (channelType query : Text) (threads : List (Text × Text)) : List SearchMessage :=
  threads.flatMap (matched readers toLowercase channelType query)

/-- All the matches a user may see, thread by thread. -/
def visibleMatches (files : FileMap) (user : Option Text) (query : Text) : List SearchMessage :=
  matchesOf readers toLowercase "channel".toList (toLowercase query) (threadsOf channelForPath files) ++
    (matchesOf readers toLowercase "card".toList (toLowercase query) (threadsOf cardIdentifier files) ++
      user.elim [] fun me =>
        matchesOf readers toLowercase "dm".toList (toLowercase query) (threadsOf (dmForPath me) files))

/-- The newest matches, in whatever order the files are listed, and a file that cannot be parsed
might as well be absent. -/
def SearchExact (files : FileMap) (user : Option Text) (query : Text) : Prop :=
  (∀ listed : FileMap, listed.Perm files →
    searchMessages readers toLowercase listed user query =
      .ok (((visibleMatches readers toLowercase files user query).insertionSort
        (Ahead newestFirst)).take searchResultLimit)) ∧
  ∀ listed : FileMap, listed.Perm files → ∀ path content, files.lookup path = some content →
    (∀ thread, parseThread readers.json content ≠ .ok thread) →
      searchMessages readers toLowercase listed user query =
        searchMessages readers toLowercase (removeFile listed path) user query

variable {readers toLowercase}
variable {channelType query : Text} {thread : Text × Text} {threads : List (Text × Text)}
  {files listed : FileMap} {user : Option Text}

theorem ranked_eq (found : List SearchMessage) :
    ranked readers toLowercase channelType query threads found =
      (matchesOf readers toLowercase channelType query threads).foldl
        (fun found m => place newestFirst m found) found := by
  rw [ranked, matchesOf, List.foldl_flatMap]

theorem readable_iff :
    Readable readers toLowercase channelType query thread ↔
      ¬ Unreadable true (normalizedLines thread.2) := by
  rw [← panics_parseThread_iff readers.json, Readable, matched, threadMatches, Panics]
  cases hparse : parseThread readers.json thread.2 with
  | ok file => simp [Except.toOption]
  | error fault =>
    cases fault with
    | error e => simp [Except.toOption]
    | panicParseU64 digits => simp

/-- A thread that cannot be parsed has no matches. -/
theorem matched_of_unparsed (h : ∀ file, parseThread readers.json thread.2 ≠ .ok file) :
    matched readers toLowercase channelType query thread = [] := by
  rw [matched, threadMatches]
  cases hparse : parseThread readers.json thread.2 with
  | ok file => exact absurd hparse (h file)
  | error fault => cases fault <;> rfl

/-- A search whose threads can all be read keeps the first of the matches it has met. -/
theorem searchMessages_ok
    (h : ∀ thread ∈ scannedThreads files user, ¬ Unreadable true (normalizedLines thread.2)) :
    searchMessages readers toLowercase files user query =
      .ok (((visibleMatches readers toLowercase files user query).insertionSort
        (Ahead newestFirst)).take searchResultLimit) := by
  have hread : ∀ channelType, ∀ thread ∈ scannedThreads files user,
      Readable readers toLowercase channelType (toLowercase query) thread :=
    fun channelType thread hthread => readable_iff.mpr (h thread hthread)
  have hcut : ([] : List SearchMessage) = List.take searchResultLimit [] := rfl
  rw [← foldl_place_eq, searchMessages, hcut, scanThreads_readable List.Pairwise.nil fun t ht =>
    hread "channel".toList t (List.mem_append_left _ ht)]
  simp only [bind, Except.bind]
  rw [scanThreads_readable (pairwise_ranked List.Pairwise.nil) fun t ht =>
    hread "card".toList t (List.mem_append_right _ (List.mem_append_left _ ht))]
  cases user with
  | none =>
    simp only [visibleMatches, Option.elim_none, List.append_nil, List.foldl_append, ranked_eq]
    rfl
  | some me =>
    simp only [visibleMatches, Option.elim_some, List.foldl_append, ← ranked_eq]
    exact scanThreads_readable (pairwise_ranked (pairwise_ranked List.Pairwise.nil)) fun t ht =>
      hread "dm".toList t (List.mem_append_right _ (List.mem_append_right _ ht))

/-- The order of the files does not show in the order of the matches. -/
theorem visibleMatches_perm (hfiles : Listing files) (hperm : listed.Perm files) (query : Text) :
    (visibleMatches readers toLowercase listed user query).insertionSort (Ahead newestFirst) =
      (visibleMatches readers toLowercase files user query).insertionSort (Ahead newestFirst) := by
  have hlisted : Listing listed := (hperm.map Prod.fst).nodup_iff.mpr hfiles
  have hrank : ∀ (channelType : Text) (identify : Path → Option Text) (found : List SearchMessage),
      (∀ p q id, identify p = some id → identify q = some id → p = q) →
      ranked readers toLowercase channelType (toLowercase query) (threadsOf identify listed) found =
        ranked readers toLowercase channelType (toLowercase query) (threadsOf identify files) found :=
    fun channelType identify found hinj =>
      ranked_perm (hperm.filterMap _) (ids_nodup hlisted hinj) found
  rw [← foldl_place_eq, ← foldl_place_eq]
  cases user with
  | none =>
    simp only [visibleMatches, Option.elim_none, List.append_nil, List.foldl_append, ← ranked_eq]
    rw [hrank _ _ _ channelForPath_injective, hrank _ _ _ cardIdentifier_injective]
  | some me =>
    simp only [visibleMatches, Option.elim_some, List.foldl_append, ← ranked_eq]
    rw [hrank _ _ _ channelForPath_injective, hrank _ _ _ cardIdentifier_injective,
      hrank _ _ _ (dmForPath_injective me)]

theorem scannedThreads_perm (hperm : listed.Perm files) :
    (scannedThreads listed user).Perm (scannedThreads files user) := by
  rw [scannedThreads, scannedThreads]
  refine (hperm.filterMap _).append ((hperm.filterMap _).append ?_)
  cases user with
  | none => exact List.Perm.refl _
  | some me => exact hperm.filterMap _

theorem scannedThreads_sublist (h : listed.Sublist files) :
    (scannedThreads listed user).Sublist (scannedThreads files user) := by
  rw [scannedThreads, scannedThreads]
  refine (h.filterMap _).append ((h.filterMap _).append ?_)
  cases user with
  | none => exact List.Sublist.refl _
  | some me => exact h.filterMap _

/-- A search that ends has survived every thread it opens. -/
theorem survived_of_ok {found : List SearchMessage}
    (h : searchMessages readers toLowercase files user query = .ok found) :
    ∀ thread ∈ scannedThreads files user, ¬ Unreadable true (normalizedLines thread.2) := by
  intro thread hthread hunreadable
  have hpanics : ∀ channelType, threadMatches readers toLowercase thread.2 thread.1 channelType
      (toLowercase query) = .error () := fun channelType =>
    (readable_or_panics thread).resolve_left fun hread => readable_iff.mp hread hunreadable
  rw [scannedThreads, List.mem_append, List.mem_append] at hthread
  rw [searchMessages] at h
  cases hfirst : scanThreads readers toLowercase "channel".toList (toLowercase query)
      (threadsOf channelForPath files) [] with
  | error e =>
    rw [hfirst] at h
    cases h
  | ok first =>
    simp only [hfirst, bind, Except.bind] at h
    cases hsecond : scanThreads readers toLowercase "card".toList (toLowercase query)
        (threadsOf cardIdentifier files) first with
    | error e =>
      rw [hsecond] at h
      cases h
    | ok second =>
      rw [hsecond] at h
      rcases hthread with hchannel | hcard | hdm
      · rw [scanThreads_panics hchannel (hpanics _)] at hfirst
        cases hfirst
      · rw [scanThreads_panics hcard (hpanics _)] at hsecond
        cases hsecond
      · cases user with
        | none => cases hdm
        | some me =>
          have hdm : thread ∈ threadsOf (dmForPath me) files := hdm
          have hthird : scanThreads readers toLowercase "dm".toList (toLowercase query)
              (threadsOf (dmForPath me) files) second = .error () :=
            scanThreads_panics hdm (hpanics _)
          have hcross := hthird.symm.trans h
          cases hcross

/-- Leaving out a file that cannot be parsed leaves out no match. -/
theorem visibleMatches_removeFile (hfiles : Listing files) {path content : Text}
    (hcontent : files.lookup path = some content)
    (hparse : ∀ file, parseThread readers.json content ≠ .ok file) :
    visibleMatches readers toLowercase (removeFile files path) user query =
      visibleMatches readers toLowercase files user query := by
  have hmatches : ∀ channelType (identify : Path → Option Text),
      matchesOf readers toLowercase channelType (toLowercase query)
          (threadsOf identify (removeFile files path)) =
        matchesOf readers toLowercase channelType (toLowercase query) (threadsOf identify files) := by
    intro channelType identify
    have hown : ∀ e ∈ files, e.1 = path → e.2 = content := by
      rintro ⟨p, c⟩ he rfl
      exact Option.some.inj (((mem_iff_lookup hfiles).mp he).symm.trans hcontent)
    clear hfiles hcontent
    induction files with
    | nil => rfl
    | cons e files ih =>
      obtain ⟨he, hrest⟩ := List.forall_mem_cons.mp hown
      have hcons : ∀ files : FileMap, matchesOf readers toLowercase channelType (toLowercase query)
          (threadsOf identify (e :: files)) =
            ((identify e.1).elim [] fun id =>
              matched readers toLowercase channelType (toLowercase query) (id, e.2)) ++
            matchesOf readers toLowercase channelType (toLowercase query) (threadsOf identify files) := by
        intro files
        cases hid : identify e.1 <;> simp [matchesOf, threadsOf, hid]
      rw [hcons files, ← ih hrest, removeFile]
      by_cases hpath : e.1 = path
      · have hnone : ∀ id, matched readers toLowercase channelType (toLowercase query) (id, e.2) = [] :=
          fun id => matched_of_unparsed (he hpath ▸ hparse)
        rw [List.filter_cons_of_neg (by simpa using hpath)]
        cases identify e.1 <;> simp [hnone, removeFile]
      · rw [List.filter_cons_of_pos (by simpa using hpath), hcons]
        rfl
  simp only [visibleMatches, hmatches]

/-- When a search returns the newest matches. -/
theorem search_exact_iff (readers : Readers Json) (toLowercase : Text → Text) (files : FileMap)
    (hfiles : Listing files) (user : Option Text) (query : Text) :
    SearchExact readers toLowercase files user query ↔
      ∀ thread ∈ scannedThreads files user, ¬ Unreadable true (normalizedLines thread.2) := by
  constructor
  · intro hexact
    exact survived_of_ok (hexact.1 files (List.Perm.refl _))
  · intro hall
    have hsorted : ∀ listed : FileMap, listed.Perm files →
        searchMessages readers toLowercase listed user query =
          .ok (((visibleMatches readers toLowercase files user query).insertionSort
            (Ahead newestFirst)).take searchResultLimit) := by
      intro listed hperm
      rw [searchMessages_ok fun thread hthread =>
        hall thread ((scannedThreads_perm hperm).mem_iff.mp hthread),
        visibleMatches_perm hfiles hperm query]
    refine ⟨hsorted, fun listed hperm path content hcontent hparse => ?_⟩
    have hlisted : Listing listed := (hperm.map Prod.fst).nodup_iff.mpr hfiles
    have hlookup : listed.lookup path = some content :=
      (mem_iff_lookup hlisted).mp (hperm.mem_iff.mpr ((mem_iff_lookup hfiles).mpr hcontent))
    have hrest : (removeFile listed path).Sublist listed := List.filter_sublist
    rw [searchMessages_ok fun thread hthread =>
        hall thread ((scannedThreads_perm hperm).mem_iff.mp hthread),
      searchMessages_ok fun thread hthread => hall thread ((scannedThreads_perm hperm).mem_iff.mp
        ((scannedThreads_sublist hrest).subset hthread)),
      visibleMatches_removeFile hlisted hlookup hparse]

/-- Two channels with a match each and one that is no thread. -/
def greetings : FileMap :=
  [(threadPath "general".toList, "[L000001][P000000][@alice][20260101T000000Z] hello".toList),
    (threadPath "draft".toList, "hello".toList),
    (threadPath "plans".toList, "[L000001][P000000][@bob][20260102T000000Z] Hello again".toList)]

theorem search_exact_greetings :
    Listing greetings ∧
      (visibleMatches sampleReaders asciiLower greetings (some "bob".toList) "hello".toList).length = 2 ∧
      SearchExact sampleReaders asciiLower greetings (some "bob".toList) "hello".toList := by
  have hfiles : Listing greetings := by
    rw [Listing]
    decide +kernel
  refine ⟨hfiles, by decide +kernel, (search_exact_iff _ _ _ hfiles _ _).mpr fun thread hthread => ?_⟩
  have hread : ∀ thread ∈ scannedThreads greetings (some "bob".toList),
      threadMatches sampleReaders asciiLower thread.2 thread.1 "channel".toList "hello".toList ≠
        .error () := by
    decide +kernel
  exact readable_iff.mp ((readable_or_panics thread).resolve_right (hread thread hthread))

/-- A thread whose line number is too large hides every match. -/
theorem not_search_exact_oversized :
    ¬ SearchExact sampleReaders asciiLower
      [(threadPath "broken".toList, oversized),
        (threadPath "general".toList, "[L000001][P000000][@alice][20260101T000000Z] hello".toList)]
      (some "bob".toList) "hello".toList := by
  intro hexact
  have hpanics : searchMessages sampleReaders asciiLower
      [(threadPath "broken".toList, oversized),
        (threadPath "general".toList, "[L000001][P000000][@alice][20260101T000000Z] hello".toList)]
      (some "bob".toList) "hello".toList = .error () := by
    decide +kernel
  have hcross := hpanics.symm.trans (hexact.1 _ (List.Perm.refl _))
  cases hcross

end Scans
end SearchOrder
