import GitIM.PlainYaml
import GitIM.WebSends

/-!
# Joins of the web client

A join from the web client reads the metadata of a channel with the daemon's parser and writes it
with a stringifier of its own, which quotes nothing. The metadata survives exactly if every text in
it is a plain scalar that denotes itself.
-/

namespace WebJoins

open TextLines FileTree Checked ThreadFormat ThreadMerge ThreadValidation ConflictReplay
  DmThreads WebStrings WebSends PlainYaml

section Client

/-- What an object of the client holds under a key. -/
inductive JsValue where
  | text (t : Text)
  | list (ts : List Text)
  deriving DecidableEq

/-- The metadata as the parser hands it over; a project that is missing has no key. -/
def toObject (info : ChannelMeta) : List (Text × JsValue) :=
  [("display_name".toList, .text info.displayName), ("created_by".toList, .text info.createdBy),
    ("created_at".toList, .text info.createdAt), ("introduction".toList, .text info.introduction),
    ("members".toList, .list info.members)] ++
      (info.project.map fun p => ("project".toList, JsValue.text p)).toList

def stringifyYaml (obj : List (Text × JsValue)) : Text :=
  obj.flatMap fun
    | (key, .list items) =>
      key ++ (":\n".toList ++ items.flatMap fun item => "  - ".toList ++ (item ++ ['\n']))
    | (key, .text value) => key ++ (": ".toList ++ (value ++ ['\n']))

/-- A handler is pushed, and the members are sorted. -/
def withMember (info : ChannelMeta) (handler : Text) : ChannelMeta :=
  { info with members := jsSort (info.members ++ [handler]) }

variable {Json : Type} (wasm : Wasm Json) (yaml : MetaCodec) (joinInfo : Text → Json)

inductive JoinAnswer where
  | alreadyMember
  | joined
  deriving DecidableEq

/-- The checks of a join, and the metadata that it writes. -/
def joinMeta (tab : Tab) (repo : FileMap) (channel : Text) : Except Text (Option Text) := do
  refuse (tab.epochRedirected = true)
    "This workspace has rotated to a new epoch branch. Reload the page to reconnect.".toList
  refuse (tab.hasToken = false) "Reconnect token to send from this browser workspace.".toList
  WebSends.validateChannelName channel
  match repo.lookup (Channels.metaPath channel) with
  | none => .error ("channel '".toList ++ (channel ++ "' not found".toList))
  | some content =>
    match yaml.fromStr content with
    | none => .error wasm.refusal
    | some info =>
      if tab.me ∈ info.members then .ok none
      else .ok (some (stringifyYaml (toObject (withMember info tab.me))))

/-- The thread with the join event behind it. -/
def joinThread (tab : Tab) (existing : Text) (now : UtcTime) : Except Text Text := do
  let entries ← parseEntries wasm existing
  let author ← (Handler.new tab.me).mapError handlerErrorText
  .ok (finalContent existing (formatEvent wasm.codec (toU64 (maxLine entries + 1 : Nat)) author
    (timestamp now) "join".toList (joinInfo tab.me)))

/-- The files afterwards and the answer. The metadata is written before the thread is read. -/
def joinChannel (tab : Tab) (repo : FileMap) (now : UtcTime) (thrown : Option Text) (channel : Text) :
    FileMap × Except Text JoinAnswer :=
  match joinMeta wasm yaml tab repo channel with
  | .error text => (repo, .error text)
  | .ok none => (repo, .ok .alreadyMember)
  | .ok (some newYaml) =>
    let written := writeFile repo (Channels.metaPath channel) newYaml
    match joinThread wasm joinInfo tab ((repo.lookup (Channels.threadPath channel)).getD []) now with
    | .error text => (written, .error text)
    | .ok thread =>
      (writeFile written (Channels.threadPath channel) thread,
        match thrown with
        | some text => .error text
        | none => .ok .joined)

end Client

section Deserialize

def textField (entries : Entries Node) (key : String) : Option Text :=
  match entries.lookup key.toList with
  | some (.scalar t) => some t
  | _ => none

/-- The list may be missing, and nothing stands for the empty list. -/
def membersField (entries : Entries Node) : Option (List Text) :=
  match entries.lookup "members".toList with
  | none => some []
  | some (.scalar t) => if t = [] then some [] else none
  | some (.sequence ts) => some ts

/-- The spellings of null that an optional text cannot have without quotes. -/
def isNull (t : Text) : Bool :=
  t ∈ [[], "~".toList, "null".toList, "Null".toList, "NULL".toList]

def projectField (entries : Entries Node) : Option (Option Text) :=
  match entries.lookup "project".toList with
  | none => some none
  | some (.scalar t) => some (if isNull t then none else some t)
  | some (.sequence _) => none

/-- The derived deserializer of the metadata. -/
def decodeMeta (entries : Entries Node) : Option ChannelMeta := do
  let displayName ← textField entries "display_name"
  let createdBy ← textField entries "created_by"
  let createdAt ← textField entries "created_at"
  let introduction ← textField entries "introduction"
  let members ← membersField entries
  let project ← projectField entries
  some ⟨displayName, createdBy, createdAt, introduction, members, project⟩

def metaKeys : List Text :=
  ["display_name".toList, "created_by".toList, "created_at".toList, "introduction".toList,
    "members".toList, "project".toList]

/-- The library reads block mappings from the keys of the metadata to one-line values as YAML defines
them. -/
def ReadsPlainYaml (yaml : MetaCodec) : Prop :=
  ∀ entries : Entries Source, (∀ e ∈ entries, IsLineEntry e) → (entries.map Prod.fst).Nodup →
    entries.map Prod.fst ⊆ metaKeys →
    yaml.fromStr (render entries) = (readDocument (render entries)).bind decodeMeta

end Deserialize

section ReadingBack

def toSource : JsValue → Source
  | .text t => .value t
  | .list ts => .items ts

/-- Without quotes, the stringifier renders a block mapping. -/
theorem stringifyYaml_eq_render (obj : List (Text × JsValue)) :
    stringifyYaml obj = render (obj.map fun e => (e.1, toSource e.2)) := by
  induction obj with
  | nil => rfl
  | cons e obj ih =>
    rw [List.map_cons, render, List.flatMap_cons, ← render, ← ih]
    obtain ⟨key, value⟩ := e
    cases value <;> rfl

/-- The texts of the metadata, in the order of the file. -/
def texts (info : ChannelMeta) : List Text :=
  [info.displayName, info.createdBy, info.createdAt, info.introduction] ++
    (info.members ++ info.project.toList)

/-- Every text is empty or one line that starts as a plain scalar does. -/
def LineMeta (info : ChannelMeta) : Prop := ∀ t ∈ texts info, isLineValue t = true

/-- Every text denotes itself, and the project is not spelled like null. -/
structure PlainMeta (info : ChannelMeta) : Prop where
  plain : ∀ t ∈ texts info, DenotesItself t
  project : ∀ p, info.project = some p → isNull p = false

theorem PlainMeta.line {info : ChannelMeta} (h : PlainMeta info) : LineMeta info :=
  fun t ht => (h.plain t ht).1

def readProject : Option Text → Option (Option Text)
  | none => some none
  | some p => (plainScalar p).map fun t => if isNull t then none else some t

/-- What the reader makes of each text. -/
def readTexts (info : ChannelMeta) : Option ChannelMeta := do
  let displayName ← plainScalar info.displayName
  let createdBy ← plainScalar info.createdBy
  let createdAt ← plainScalar info.createdAt
  let introduction ← plainScalar info.introduction
  let members ← info.members.mapM plainScalar
  let project ← readProject info.project
  some ⟨displayName, createdBy, createdAt, introduction, members, project⟩

theorem toObject_source (info : ChannelMeta) : (toObject info).map (fun e => (e.1, toSource e.2)) =
    [("display_name".toList, .value info.displayName), ("created_by".toList, .value info.createdBy),
      ("created_at".toList, .value info.createdAt),
      ("introduction".toList, .value info.introduction), ("members".toList, .items info.members)] ++
        (info.project.map fun p => ("project".toList, Source.value p)).toList := by
  rw [toObject]
  cases info.project <;> rfl

theorem isLineEntry_value {key v : Text} (word : key ≠ [] ∧ key.all isKeyChar = true)
    (line : isLineValue v = true) : IsLineEntry (key, .value v) := by
  refine ⟨word, ?_, ?_⟩
  · intro w hw
    cases hw
    exact line
  · intro vs hvs
    cases hvs

theorem isLineEntry_items {key : Text} {vs : List Text} (word : key ≠ [] ∧ key.all isKeyChar = true)
    (line : ∀ v ∈ vs, isLineValue v = true) : IsLineEntry (key, .items vs) := by
  refine ⟨word, ?_, ?_⟩
  · intro v hv
    cases hv
  · intro ws hws
    cases hws
    exact line

theorem toObject_lines {info : ChannelMeta} (line : LineMeta info) :
    ∀ e ∈ (toObject info).map fun e => (e.1, toSource e.2), IsLineEntry e := by
  simp only [LineMeta, texts, List.forall_mem_append, List.forall_mem_cons] at line
  obtain ⟨⟨displayName, createdBy, createdAt, introduction, -⟩, members, project⟩ := line
  rw [toObject_source]
  simp only [List.forall_mem_append, List.forall_mem_cons]
  refine ⟨⟨isLineEntry_value (by decide) displayName, isLineEntry_value (by decide) createdBy,
    isLineEntry_value (by decide) createdAt, isLineEntry_value (by decide) introduction,
    isLineEntry_items (by decide) members, by simp⟩, ?_⟩
  intro e he
  obtain ⟨p, hp, rfl⟩ := Option.map_eq_some_iff.mp (Option.mem_toList.mp he)
  exact isLineEntry_value (by decide) (project p (Option.mem_toList.mpr hp))

theorem toObject_keys (info : ChannelMeta) :
    (((toObject info).map fun e => (e.1, toSource e.2)).map Prod.fst).Nodup ∧
      ((toObject info).map fun e => (e.1, toSource e.2)).map Prod.fst ⊆ metaKeys := by
  have keys : ((toObject info).map fun e => (e.1, toSource e.2)).map Prod.fst =
      ["display_name".toList, "created_by".toList, "created_at".toList, "introduction".toList,
        "members".toList] ++ if info.project.isSome then ["project".toList] else [] := by
    rw [toObject_source]
    cases info.project <;> rfl
  rw [keys]
  cases info.project.isSome <;> exact ⟨by decide, by decide⟩

theorem fromStr_stringify {yaml : MetaCodec} (reads : ReadsPlainYaml yaml) {info : ChannelMeta}
    (line : LineMeta info) : yaml.fromStr (stringifyYaml (toObject info)) = readTexts info := by
  rw [stringifyYaml_eq_render, reads _ (toObject_lines line) (toObject_keys info).1
    (toObject_keys info).2,
    readDocument_render (toObject_lines line), toObject_source, List.mapM_append]
  simp only [List.mapM_cons, List.mapM_nil, readEntry, readSource, readTexts]
  cases plainScalar info.displayName with
  | none => rfl
  | some t₁ =>
  cases plainScalar info.createdBy with
  | none => rfl
  | some t₂ =>
  cases plainScalar info.createdAt with
  | none => rfl
  | some t₃ =>
  cases plainScalar info.introduction with
  | none => rfl
  | some t₄ =>
  cases info.members.mapM plainScalar with
  | none => rfl
  | some ts =>
  cases info.project with
  | none => cases ts <;> rfl
  | some p =>
    have own : ((some p).map fun p => ("project".toList, Source.value p)).toList.mapM readEntry =
        (plainScalar p).map fun t => [("project".toList, Node.scalar t)] := by
      rw [Option.map_some, Option.toList_some, List.mapM_cons, readEntry, readSource]
      cases plainScalar p <;> rfl
    rw [own, readProject]
    cases ts <;> cases plainScalar p <;> rfl

/-- On metadata of one-line texts, reading back what was written decides whether all is plain. -/
theorem readTexts_eq_some_iff {info : ChannelMeta} (line : LineMeta info) :
    readTexts info = some info ↔ PlainMeta info := by
  obtain ⟨displayName, createdBy, createdAt, introduction, members, project⟩ := info
  simp only [LineMeta, texts, List.forall_mem_append, List.forall_mem_cons] at line
  obtain ⟨⟨line₁, line₂, line₃, line₄, -⟩, line₅, line₆⟩ := line
  constructor
  · intro h
    rw [readTexts] at h
    obtain ⟨t₁, h₁, h⟩ := Option.bind_eq_some_iff.mp h
    obtain ⟨t₂, h₂, h⟩ := Option.bind_eq_some_iff.mp h
    obtain ⟨t₃, h₃, h⟩ := Option.bind_eq_some_iff.mp h
    obtain ⟨t₄, h₄, h⟩ := Option.bind_eq_some_iff.mp h
    obtain ⟨ts, h₅, h⟩ := Option.bind_eq_some_iff.mp h
    obtain ⟨p, h₆, h⟩ := Option.bind_eq_some_iff.mp h
    obtain ⟨rfl, rfl, rfl, rfl, rfl, rfl⟩ := ChannelMeta.mk.inj (Option.some.inj h)
    have plainProject : ∀ q, p = some q → plainScalar q = some q ∧ isNull q = false := by
      rintro q rfl
      obtain ⟨t, ht, spelled⟩ := Option.map_eq_some_iff.mp h₆
      by_cases null : isNull t = true
      · rw [if_pos null] at spelled
        cases spelled
      · rw [if_neg null] at spelled
        obtain rfl := Option.some.inj spelled
        exact ⟨ht, Bool.eq_false_of_not_eq_true null⟩
    constructor
    · simp only [texts, List.forall_mem_append, List.forall_mem_cons]
      refine ⟨⟨⟨line₁, h₁⟩, ⟨line₂, h₂⟩, ⟨line₃, h₃⟩, ⟨line₄, h₄⟩, by simp⟩, ?_, ?_⟩
      · intro t ht
        exact ⟨line₅ t ht, mapM_plainScalar_iff.mp h₅ t ht⟩
      · intro t ht
        exact ⟨line₆ t ht, (plainProject t (Option.mem_toList.mp ht)).1⟩
    · exact fun q hq => (plainProject q hq).2
  · rintro ⟨plain, notNull⟩
    simp only [texts, List.forall_mem_append, List.forall_mem_cons] at plain
    obtain ⟨⟨⟨-, h₁⟩, ⟨-, h₂⟩, ⟨-, h₃⟩, ⟨-, h₄⟩, -⟩, h₅, h₆⟩ := plain
    have h₅ := mapM_plainScalar_iff.mpr fun t ht => (h₅ t ht).2
    simp only [readTexts, h₁, h₂, h₃, h₄, h₅, Option.bind_eq_bind, Option.bind_some]
    cases project with
    | none => rfl
    | some p =>
      have own := (h₆ p (by simp)).2
      have spelled := notNull p rfl
      simp [readProject, own, spelled]

end ReadingBack

section Handlers

theorem handlerChar_plain {c : Char} (h : isHandlerChar c = true) :
    isPrintable c = true ∧ isBreak c = false ∧ isBlank c = false ∧ c ≠ ':' ∧
      (c ≠ '-' → isIndicator c = false) := by
  have range := ThreadRoundTrip.handlerChar_range h
  refine ⟨?_, ?_, ?_, ?_, ?_⟩
  · rw [isPrintable, decide_eq_true_eq]
    omega
  · rw [isBreak, decide_eq_false_iff_not]
    simp only [List.mem_cons, List.not_mem_nil, or_false]
    omega
  · rw [isBlank, decide_eq_false_iff_not]
    rintro (rfl | rfl) <;> revert h <;> decide
  · rintro rfl
    revert h
    decide
  · intro ne
    have ne' : c.toNat ≠ 45 := fun h => ne (Char.toNat_inj.mp h)
    rw [isIndicator, decide_eq_false_iff_not]
    simp only [List.mem_cons, List.not_mem_nil, or_false]
    omega

/-- A handler needs no quotes. -/
theorem denotesItself_handler {name : Text} (valid : handlerError name = none) :
    DenotesItself name := by
  have chars := (ThreadRoundTrip.handler_chars ⟨name, Or.inl valid⟩).1
  have chars : ∀ c ∈ name, isHandlerChar c = true := List.all_eq_true.mp chars
  have starts : startsPlain name = true := by
    cases name with
    | nil => cases valid
    | cons c rest =>
      have noHyphen : c ≠ '-' := by
        rintro rfl
        rw [handlerError] at valid
        split at valid
        · cases valid
        · split at valid
          · cases valid
          · split at valid
            · cases valid
            · split at valid
              · cases valid
              · have front : ('-' :: rest).head? = some '-' := rfl
                rw [if_pos (Or.inl front)] at valid
                cases valid
      have plain := handlerChar_plain (chars c List.mem_cons_self)
      rw [startsPlain, plain.2.2.1, plain.2.2.2.2 noHyphen]
      rfl
  apply denotesItself_of_word starts
  · intro colon
    exact (handlerChar_plain (chars _ colon)).2.2.2.1 rfl
  · exact fun c hc => (handlerChar_plain (chars c hc)).2.2.1
  · exact fun c hc => ⟨(handlerChar_plain (chars c hc)).1, (handlerChar_plain (chars c hc)).2.1⟩

end Handlers

section Joining
variable {Json : Type} {wasm : Wasm Json} {yaml : MetaCodec} {joinInfo : Text → Json}

theorem mem_texts_withMember {info : ChannelMeta} {handler t : Text} :
    t ∈ texts (withMember info handler) ↔ t ∈ texts info ∨ t = handler := by
  simp only [texts, withMember, jsSort, List.mem_append, List.mem_insertionSort, List.mem_singleton]
  tauto

theorem plainMeta_withMember {info : ChannelMeta} {handler : Text}
    (valid : handlerError handler = none) : PlainMeta (withMember info handler) ↔ PlainMeta info := by
  constructor
  · intro h
    exact ⟨fun t ht => h.plain t (mem_texts_withMember.mpr (Or.inl ht)), h.project⟩
  · intro h
    refine ⟨?_, h.project⟩
    intro t ht
    rcases mem_texts_withMember.mp ht with inside | rfl
    · exact h.plain t inside
    · exact denotesItself_handler valid

theorem lineMeta_withMember {info : ChannelMeta} {handler : Text}
    (valid : handlerError handler = none) (line : LineMeta info) :
    LineMeta (withMember info handler) := by
  intro t ht
  rcases mem_texts_withMember.mp ht with inside | rfl
  · exact line t inside
  · exact (denotesItself_handler valid).1

/-- On metadata of one-line texts the written file is read back exactly if all of it is plain. -/
theorem reads_back_iff (reads : ReadsPlainYaml yaml) {info : ChannelMeta} {handler : Text}
    (valid : handlerError handler = none) (line : LineMeta info) :
    yaml.fromStr (stringifyYaml (toObject (withMember info handler))) =
        some (withMember info handler) ↔ PlainMeta info := by
  have line' := lineMeta_withMember valid line
  rw [fromStr_stringify reads line', readTexts_eq_some_iff line', plainMeta_withMember valid]

theorem joinMeta_eq {tab : Tab} {repo : FileMap} {channel content : Text} {info : ChannelMeta}
    {newYaml : Option Text} (stored : repo.lookup (Channels.metaPath channel) = some content)
    (parsed : yaml.fromStr content = some info)
    (h : joinMeta wasm yaml tab repo channel = .ok newYaml) :
    newYaml = if tab.me ∈ info.members then none
      else some (stringifyYaml (toObject (withMember info tab.me))) := by
  rw [joinMeta] at h
  obtain ⟨-, h⟩ := then_eq_ok_iff.mp h
  obtain ⟨-, h⟩ := then_eq_ok_iff.mp h
  obtain ⟨-, h⟩ := then_eq_ok_iff.mp h
  simp only [stored, parsed] at h
  split at h
  · rename_i member
    rw [if_pos member]
    exact (Except.ok.inj h).symm
  · rename_i outside
    rw [if_neg outside]
    exact (Except.ok.inj h).symm

theorem valid_of_joinThread {tab : Tab} {existing thread : Text} {now : UtcTime}
    (h : joinThread wasm joinInfo tab existing now = .ok thread) : handlerError tab.me = none := by
  rw [joinThread] at h
  obtain ⟨entries, -, h⟩ := bind_eq_ok_iff.mp h
  obtain ⟨author, named, -⟩ := bind_eq_ok_iff.mp h
  have made := mapError_eq_ok_iff.mp named
  rw [Handler.new] at made
  split at made
  · cases made
  · assumption

/-- What a join that is answered leaves behind. -/
theorem joinChannel_writes {tab : Tab} {repo : FileMap} {now : UtcTime} {thrown : Option Text}
    {channel content : Text} {info : ChannelMeta}
    (stored : repo.lookup (Channels.metaPath channel) = some content)
    (parsed : yaml.fromStr content = some info) (new : tab.me ∉ info.members)
    (joined : (joinChannel wasm yaml joinInfo tab repo now thrown channel).2 = .ok .joined) :
    handlerError tab.me = none ∧
      (joinChannel wasm yaml joinInfo tab repo now thrown channel).1.lookup (Channels.metaPath channel) =
        some (stringifyYaml (toObject (withMember info tab.me))) := by
  unfold joinChannel at joined ⊢
  cases checked : joinMeta wasm yaml tab repo channel with
  | error text =>
    rw [checked] at joined
    cases joined
  | ok newYaml =>
    have written := joinMeta_eq stored parsed checked
    rw [if_neg new] at written
    subst written
    rw [checked] at joined
    simp only at joined ⊢
    cases appended : joinThread wasm joinInfo tab
        ((repo.lookup (Channels.threadPath channel)).getD []) now with
    | error text =>
      rw [appended] at joined
      cases joined
    | ok thread =>
      refine ⟨valid_of_joinThread appended, ?_⟩
      simp only [lookup_writeFile, if_neg (Channels.metaPath_ne_threadPath channel channel), if_true]

/-- A join changes only the members when every text of the metadata denotes itself. Where all of
them are single lines that start as plain scalars do, it does so in no other case. -/
theorem join_reads_back (reads : ReadsPlainYaml yaml) (tab : Tab) (repo : FileMap) (now : UtcTime)
    (thrown : Option Text) (channel content : Text) (info : ChannelMeta)
    (stored : repo.lookup (Channels.metaPath channel) = some content)
    (parsed : yaml.fromStr content = some info) (new : tab.me ∉ info.members)
    (joined : (joinChannel wasm yaml joinInfo tab repo now thrown channel).2 = .ok .joined) :
    (PlainMeta info →
      ((joinChannel wasm yaml joinInfo tab repo now thrown channel).1.lookup
        (Channels.metaPath channel)).bind yaml.fromStr = some (withMember info tab.me)) ∧
    (LineMeta info →
      ((joinChannel wasm yaml joinInfo tab repo now thrown channel).1.lookup
        (Channels.metaPath channel)).bind yaml.fromStr = some (withMember info tab.me) →
          PlainMeta info) := by
  obtain ⟨valid, written⟩ := joinChannel_writes stored parsed new joined
  rw [written, Option.bind_some]
  constructor
  · intro plain
    exact (reads_back_iff reads valid plain.line).mpr plain
  · intro line
    exact (reads_back_iff reads valid line).mp

end Joining

section Samples

/-- A reader of plain YAML, which is what is needed to read what the client writes. -/
def plainYaml : MetaCodec where
  fromStr text := (readDocument text).bind decodeMeta
  toStr info := stringifyYaml (toObject info)

theorem plainYaml_reads : ReadsPlainYaml plainYaml := fun _ _ _ _ => rfl

def generalMeta (introduction : Text) : ChannelMeta :=
  ⟨"General".toList, "alice".toList, "20260101T000000Z".toList, introduction, ["alice".toList], none⟩

def generalText (introduction : Text) : Text :=
  "display_name: General\ncreated_by: alice\ncreated_at: 20260101T000000Z\nintroduction: ".toList ++
    (introduction ++ "\nmembers:\n- alice\n".toList)

def joinRepo (introduction : Text) : FileMap :=
  [(Channels.metaPath "general".toList, generalText introduction),
    (Channels.threadPath "general".toList, baseText)]

def bobTab : Tab := ⟨false, true, "bob".toList⟩

theorem join_reads_back_plain :
    ((joinChannel sampleWasm plainYaml (fun _ => SmallJson.object) bobTab
      (joinRepo "What's on".toList) newYearsDay none "general".toList).1.lookup
        (Channels.metaPath "general".toList)).bind plainYaml.fromStr =
          some (withMember (generalMeta "What's on".toList) "bob".toList) := by
  refine (join_reads_back plainYaml_reads bobTab (joinRepo "What's on".toList) newYearsDay none
    "general".toList (generalText "What's on".toList) (generalMeta "What's on".toList)
    ?_ ?_ (by decide) ?_).1 ⟨?_, ?_⟩
  · unfold joinRepo generalText
    repeat rw [String.toList_ofList]
    decide +kernel
  · unfold generalText generalMeta
    repeat rw [String.toList_ofList]
    decide +kernel
  · unfold bobTab joinRepo generalText baseText
    repeat rw [String.toList_ofList]
    decide +kernel
  · decide
  · intro p hp
    cases hp

/-- A reader that also knows the quoted text in which the metadata was stored. -/
def quotedYaml : MetaCodec where
  fromStr text :=
    if text = generalText "'Ops: deploys'".toList then some (generalMeta "Ops: deploys".toList)
    else plainYaml.fromStr text
  toStr := plainYaml.toStr

/-- An introduction with a colon: the join is answered, and the metadata can no longer be read. -/
theorem not_reads_back_colon :
    quotedYaml.fromStr (generalText "'Ops: deploys'".toList) = some (generalMeta "Ops: deploys".toList) ∧
      (joinChannel sampleWasm quotedYaml (fun _ => SmallJson.object) bobTab
        (joinRepo "'Ops: deploys'".toList) newYearsDay none "general".toList).2 = .ok .joined ∧
      ((joinChannel sampleWasm quotedYaml (fun _ => SmallJson.object) bobTab
        (joinRepo "'Ops: deploys'".toList) newYearsDay none "general".toList).1.lookup
          (Channels.metaPath "general".toList)).bind quotedYaml.fromStr = none := by
  unfold quotedYaml bobTab joinRepo generalText generalMeta baseText
  repeat rw [String.toList_ofList]
  decide +kernel

end Samples

end WebJoins
