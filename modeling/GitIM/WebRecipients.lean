import GitIM.FunctionalGraphs
import GitIM.Poll
import GitIM.WebStrings

/-!
# Recipients in the web client

The web client computes the recipients of a message a second time, with a parent walk, a reading
of mentions and a lookup of lines of its own. The two lists differ whenever the walk of the daemon
or the check of a handler counts.
-/

namespace WebRecipients

open Relation FunctionalGraphs TextLines TextScan ThreadFormat ThreadValidation ConflictReplay Poll
  WebStrings

section Client

/-- The names that a message holds in the syntax of mentions; the pattern is the daemon's. -/
def extractProtocolMentions (body : Text) : List Text := mentionMatches body

/-- A set of recipients that is trimmed and without the empty name. -/
def addRecipient (recipients : List Text) (handler : Text) : List Text :=
  let trimmed := jsTrim handler
  if trimmed = [] ∨ trimmed ∈ recipients then recipients else recipients ++ [trimmed]

/-- The map from lines to messages; the last message of a line counts, so it comes first. -/
def byLine (allMessages : List Message) : List Message :=
  (allMessages.filter fun m => 0 < m.lineNumber).reverse

/-- The authors up the parent chain. A message that was visited is dropped from the map. -/
def ancestorAuthors (map : List Message) (cursor : Nat) : List Text :=
  if cursor = 0 then []
  else match _h : map.find? (·.lineNumber = cursor) with
    | none => []
    | some ancestor => ancestor.author.name :: ancestorAuthors (dropLine map cursor) ancestor.pointTo
termination_by map.length
decreasing_by exact length_dropLine_lt _h

def computeChannelRecipients (message : Message) (channelMeta : ChannelMeta)
    (allMessages : List Message) : List Text :=
  let recipients := addRecipient [] channelMeta.createdBy
  let recipients := (ancestorAuthors (byLine allMessages) message.pointTo).foldl addRecipient recipients
  let recipients := (extractProtocolMentions message.body).foldl addRecipient recipients
  jsSort recipients

end Client

section Chains

/-- The message of a line leads to its parent line. -/
def Parent (messages : List Message) (c d : Nat) : Prop :=
  c ≠ 0 ∧ ∃ m, messages.find? (·.lineNumber = c) = some m ∧ m.pointTo = d

/-- A message up the chain from a line, where the first message of a line counts. -/
def Ancestor (messages : List Message) (cursor : Nat) (a : Message) : Prop :=
  ∃ c, ReflTransGen (Parent messages) cursor c ∧ c ≠ 0 ∧
    messages.find? (·.lineNumber = c) = some a

/-- The messages up the chain from a line, each line once. -/
def chain (messages : List Message) (cursor : Nat) : List Message :=
  if cursor = 0 then []
  else match _h : messages.find? (·.lineNumber = cursor) with
    | none => []
    | some ancestor => ancestor :: chain (dropLine messages cursor) ancestor.pointTo
termination_by messages.length
decreasing_by exact length_dropLine_lt _h

variable {all messages : List Message}

theorem chain_zero : chain messages 0 = [] := by
  rw [chain, if_pos rfl]

theorem chain_none {cursor : Nat} (missing : messages.find? (·.lineNumber = cursor) = none) :
    chain messages cursor = [] := by
  unfold chain
  split
  · rfl
  · split
    · rfl
    · rename_i found
      rw [missing] at found
      cases found

theorem chain_some {cursor : Nat} {m : Message} (nonzero : cursor ≠ 0)
    (found : messages.find? (·.lineNumber = cursor) = some m) :
    chain messages cursor = m :: chain (dropLine messages cursor) m.pointTo := by
  conv_lhs => unfold chain
  rw [if_neg nonzero]
  split
  · rename_i missing
    rw [found] at missing
    cases missing
  · rename_i m' found'
    obtain rfl : m = m' := Option.some.inj (found.symm.trans found')
    rfl

theorem find?_dropLine {line c : Nat} (ne : c ≠ line) :
    (dropLine messages line).find? (·.lineNumber = c) = messages.find? (·.lineNumber = c) := by
  rw [dropLine, List.find?_filter]
  congr 1
  funext m
  by_cases here : m.lineNumber = c
  · simp [here, ne]
  · simp [here]

theorem find?_dropLine_self (line : Nat) :
    (dropLine messages line).find? (·.lineNumber = line) = none := by
  rw [List.find?_eq_none]
  intro m hm
  simpa using (List.mem_filter.mp hm).2

/-- What the walk has passed: lines that are no longer in its map. -/
structure Passed (all messages : List Message) (cursor : Nat) : Prop where
  kept : ∀ c m, messages.find? (·.lineNumber = c) = some m → all.find? (·.lineNumber = c) = some m
  /-- From a line that was passed, the chain goes on to another one or to the cursor. -/
  closed : ∀ c d, messages.find? (·.lineNumber = c) = none → Parent all c d →
    d = cursor ∨ messages.find? (·.lineNumber = d) = none

theorem Passed.step {cursor : Nat} {m : Message} (passed : Passed all messages cursor)
    (found : messages.find? (·.lineNumber = cursor) = some m) :
    Passed all (dropLine messages cursor) m.pointTo := by
  constructor
  · intro c a hc
    by_cases same : c = cursor
    · rw [same, find?_dropLine_self] at hc
      cases hc
    · rw [find?_dropLine same] at hc
      exact passed.kept c a hc
  · intro c d gone parent
    by_cases same : c = cursor
    · obtain ⟨-, a, hfind, rfl⟩ := parent
      rw [same, passed.kept cursor m found] at hfind
      exact .inl (congrArg Message.pointTo (Option.some.inj hfind).symm)
    · rw [find?_dropLine same] at gone
      have next := passed.closed c d gone parent
      by_cases atCursor : d = cursor
      · exact .inr (atCursor ▸ find?_dropLine_self d)
      · rw [find?_dropLine atCursor]
        exact .inr (next.resolve_left atCursor)

theorem Passed.none_of_reaches {cursor c : Nat} (passed : Passed all messages cursor)
    (gone : messages.find? (·.lineNumber = cursor) = none)
    (path : ReflTransGen (Parent all) cursor c) : messages.find? (·.lineNumber = c) = none := by
  induction path with
  | refl => exact gone
  | tail _ parent ih =>
    rcases passed.closed _ _ ih parent with rfl | next
    · exact gone
    · exact next

/-- Every message up the chain is found, or was passed before. -/
theorem chain_complete (count : Nat) (messages : List Message) (cursor : Nat)
    (small : messages.length ≤ count) (passed : Passed all messages cursor) {c : Nat} {a : Message}
    (path : ReflTransGen (Parent all) cursor c) (nonzero : c ≠ 0)
    (found : all.find? (·.lineNumber = c) = some a) :
    a ∈ chain messages cursor ∨ messages.find? (·.lineNumber = c) = none := by
  induction count generalizing messages cursor with
  | zero =>
    have empty : messages = [] := List.length_eq_zero_iff.mp (Nat.le_zero.mp small)
    subst empty
    exact .inr rfl
  | succ count ih =>
    cases here : messages.find? (·.lineNumber = cursor) with
    | none => exact .inr (passed.none_of_reaches here path)
    | some m =>
      rcases ReflTransGen.cases_head path with rfl | ⟨d, parent, rest⟩
      · rw [chain_some nonzero here]
        obtain rfl : m = a := Option.some.inj ((passed.kept cursor m here).symm.trans found)
        exact .inl List.mem_cons_self
      · obtain ⟨cursorNonzero, m', found', rfl⟩ := parent
        obtain rfl : m = m' := Option.some.inj ((passed.kept cursor m here).symm.trans found')
        rw [chain_some cursorNonzero here]
        have fewer : (dropLine messages cursor).length ≤ count := by
          have dropped := length_dropLine_lt here
          omega
        rcases ih (dropLine messages cursor) m.pointTo fewer (passed.step here) rest with
          deeper | gone
        · exact .inl (List.mem_cons_of_mem m deeper)
        · by_cases same : c = cursor
          · rw [same, found'] at found
            exact .inl (List.mem_cons.mpr (.inl (Option.some.inj found).symm))
          · rw [find?_dropLine same] at gone
            exact .inr gone

theorem chain_sound (count : Nat) (messages : List Message) (cursor : Nat)
    (small : messages.length ≤ count)
    (kept : ∀ c m, messages.find? (·.lineNumber = c) = some m →
      all.find? (·.lineNumber = c) = some m)
    {a : Message} (h : a ∈ chain messages cursor) : Ancestor all cursor a := by
  induction count generalizing messages cursor with
  | zero =>
    have empty : messages = [] := List.length_eq_zero_iff.mp (Nat.le_zero.mp small)
    rw [empty, chain_none rfl] at h
    cases h
  | succ count ih =>
    by_cases zero : cursor = 0
    · rw [zero, chain_zero] at h
      cases h
    cases here : messages.find? (·.lineNumber = cursor) with
    | none =>
      rw [chain_none here] at h
      cases h
    | some m =>
      rw [chain_some zero here] at h
      rcases List.mem_cons.mp h with rfl | deeper
      · exact ⟨cursor, .refl, zero, kept cursor a here⟩
      · have fewer : (dropLine messages cursor).length ≤ count := by
          have dropped := length_dropLine_lt here
          omega
        have keptOn : ∀ c x, (dropLine messages cursor).find? (·.lineNumber = c) = some x →
            all.find? (·.lineNumber = c) = some x := by
          intro c x hc
          by_cases same : c = cursor
          · rw [same, find?_dropLine_self] at hc
            cases hc
          · rw [find?_dropLine same] at hc
            exact kept c x hc
        obtain ⟨c, path, nonzero, found⟩ := ih _ m.pointTo fewer keptOn deeper
        exact ⟨c, path.head ⟨zero, m, kept cursor m here, rfl⟩, nonzero, found⟩

theorem mem_chain_iff (messages : List Message) (cursor : Nat) (a : Message) :
    a ∈ chain messages cursor ↔ Ancestor messages cursor a := by
  constructor
  · exact chain_sound messages.length messages cursor (Nat.le_refl _) fun _ _ h => h
  · rintro ⟨c, path, nonzero, found⟩
    have passed : Passed messages messages cursor := by
      refine ⟨fun _ _ h => h, ?_⟩
      rintro c d gone ⟨-, m, there, -⟩
      rw [gone] at there
      cases there
    rcases chain_complete messages.length messages cursor (Nat.le_refl _) passed path nonzero found
      with member | gone
    · exact member
    · rw [gone] at found
      cases found

end Chains

section Walks

theorem ancestorAuthors_eq (map : List Message) (cursor : Nat) :
    ancestorAuthors map cursor = (chain map cursor).map fun a => a.author.name := by
  induction map, cursor using chain.induct with
  | case1 map =>
    rw [ancestorAuthors, if_pos rfl, chain_zero]
    rfl
  | case2 map cursor nonzero missing =>
    rw [chain_none missing]
    unfold ancestorAuthors
    rw [if_neg nonzero]
    split
    · rfl
    · rename_i found
      rw [missing] at found
      cases found
  | case3 map cursor nonzero m found ih =>
    rw [chain_some nonzero found]
    unfold ancestorAuthors
    rw [if_neg nonzero]
    split
    · rename_i missing
      rw [found] at missing
      cases missing
    · rename_i m' found'
      obtain rfl : m = m' := Option.some.inj (found.symm.trans found')
      rw [ih]
      rfl

def namesOf (a : Message) : List Text := a.author.name :: extractMentions a.body

theorem chainParticipants_eq (messages : List Message) (cursor : Nat) :
    chainParticipants messages cursor = (chain messages cursor).flatMap namesOf := by
  induction messages, cursor using chain.induct with
  | case1 messages =>
    rw [chainParticipants, if_pos rfl, chain_zero]
    rfl
  | case2 messages cursor nonzero missing =>
    rw [chain_none missing]
    unfold chainParticipants
    rw [if_neg nonzero]
    split
    · rfl
    · rename_i found
      rw [missing] at found
      cases found
  | case3 messages cursor nonzero m found ih =>
    rw [chain_some nonzero found]
    unfold chainParticipants
    rw [if_neg nonzero]
    split
    · rename_i missing
      rw [found] at missing
      cases missing
    · rename_i m' found'
      obtain rfl : m = m' := Option.some.inj (found.symm.trans found')
      rw [ih]
      rfl

end Walks

section Names

/-- A name that is not empty, of the characters of handlers. -/
def IsPlain (name : Text) : Prop := name ≠ [] ∧ ∀ c ∈ name, isHandlerChar c = true

theorem handlerChar_ascii {c : Char} (h : isHandlerChar c = true) :
    c.toNat < 0x80 ∧ isJsSpace c = false := by
  have range := ThreadRoundTrip.handlerChar_range h
  constructor
  · omega
  · rw [isJsSpace, decide_eq_false_iff_not]
    simp only [List.mem_cons, List.not_mem_nil, or_false]
    omega

theorem IsPlain.trimmed {name : Text} (plain : IsPlain name) : jsTrim name = name :=
  jsTrim_of_free fun c hc => (handlerChar_ascii (plain.2 c hc)).2

theorem IsPlain.ascii {name : Text} (plain : IsPlain name) : IsAscii name :=
  fun c hc => (handlerChar_ascii (plain.2 c hc)).1

theorem author_plain (h : Handler) : IsPlain h.name := by
  obtain ⟨chars, long⟩ := ThreadRoundTrip.handler_chars h
  constructor
  · exact List.length_pos_iff.mp long
  · exact List.all_eq_true.mp chars

theorem mention_plain {body name : Text} (h : name ∈ mentionMatches body) : IsPlain name := by
  induction body with
  | nil => cases h
  | cons c rest ih =>
    rcases List.mem_append.mp h with here | later
    · have here := Option.mem_toList.mp here
      obtain ⟨afterSign, -, here⟩ := Option.bind_eq_some_iff.mp here
      obtain ⟨⟨found, afterName⟩, hscan, here⟩ := Option.bind_eq_some_iff.mp here
      obtain ⟨-, -, here⟩ := Option.bind_eq_some_iff.mp here
      split at here
      · cases here
        obtain ⟨-, chars, long, -⟩ := scan_eq_some_iff.mp hscan
        exact ⟨List.length_pos_iff.mp long, List.all_eq_true.mp chars⟩
      · cases here
    · exact ih later

theorem mem_extractMentions {body name : Text} :
    name ∈ extractMentions body ↔ name ∈ mentionMatches body ∧ handlerError name = none := by
  rw [extractMentions, List.mem_eraseDups, List.mem_filter, decide_eq_true_iff]

theorem nodup_eraseDups (count : Nat) (texts : List Text) (small : texts.length ≤ count) :
    texts.eraseDups.Nodup := by
  induction count generalizing texts with
  | zero =>
    rw [List.length_eq_zero_iff.mp (Nat.le_zero.mp small)]
    exact List.nodup_nil
  | succ count ih =>
    cases texts with
    | nil => exact List.nodup_nil
    | cons t rest =>
      rw [List.eraseDups_cons]
      have fewer : (rest.filter fun b => !b == t).length ≤ count :=
        Nat.le_trans (List.length_filter_le _ _) (Nat.le_of_succ_le_succ small)
      refine List.nodup_cons.mpr ⟨?_, ih _ fewer⟩
      intro again
      have other := (List.mem_filter.mp (List.mem_eraseDups.mp again)).2
      simp at other

theorem mem_addRecipients (names recipients : List Text) (x : Text) :
    x ∈ names.foldl addRecipient recipients ↔
      x ∈ recipients ∨ x ≠ [] ∧ ∃ name ∈ names, x = jsTrim name := by
  induction names generalizing recipients with
  | nil => simp
  | cons name rest ih =>
    rw [List.foldl_cons, ih]
    have added : x ∈ addRecipient recipients name ↔ x ∈ recipients ∨ x ≠ [] ∧ x = jsTrim name := by
      rw [addRecipient]
      split
      · rename_i skipped
        constructor
        · exact .inl
        · rintro (old | ⟨nonempty, rfl⟩)
          · exact old
          · exact skipped.resolve_left nonempty
      · rename_i fresh
        rw [List.mem_append, List.mem_singleton]
        constructor
        · rintro (old | rfl)
          · exact .inl old
          · exact .inr ⟨fun empty => fresh (.inl empty), rfl⟩
        · rintro (old | ⟨-, rfl⟩)
          · exact .inl old
          · exact .inr rfl
    rw [added]
    simp only [List.mem_cons, exists_eq_or_imp, and_or_left, or_assoc]

theorem nodup_addRecipients (names recipients : List Text) (once : recipients.Nodup) :
    (names.foldl addRecipient recipients).Nodup := by
  induction names generalizing recipients with
  | nil => exact once
  | cons name rest ih =>
    apply ih
    rw [addRecipient]
    split
    · exact once
    · rename_i fresh
      apply List.nodup_append.mpr
      refine ⟨once, List.nodup_singleton _, ?_⟩
      rintro a ha b hb rfl
      rw [List.mem_singleton] at hb
      exact fresh (.inr (hb ▸ ha))

end Names

section Agreement
variable (message : Message) (channelMeta : ChannelMeta) (messages : List Message)

theorem mem_computeRecipients (x : Text) :
    x ∈ computeRecipients message channelMeta messages ↔
      (x ≠ [] ∧ x = channelMeta.createdBy) ∨
        (∃ a, Ancestor messages message.pointTo a ∧ x ∈ namesOf a) ∨
        x ∈ extractMentions message.body := by
  rw [computeRecipients, sortedSet, List.mem_insertionSort, List.mem_eraseDups, List.mem_append,
    List.mem_append, chainParticipants_eq, List.mem_flatMap, or_assoc]
  have owner : x ∈ (if channelMeta.createdBy = [] then [] else [channelMeta.createdBy]) ↔
      x ≠ [] ∧ x = channelMeta.createdBy := by
    split
    · rename_i empty
      rw [empty]
      simp
    · rename_i nonempty
      rw [List.mem_singleton]
      constructor
      · rintro rfl
        exact ⟨nonempty, rfl⟩
      · exact And.right
  rw [owner]
  simp only [mem_chain_iff]

theorem mem_computeChannelRecipients (x : Text) :
    x ∈ computeChannelRecipients message channelMeta messages ↔
      (x ≠ [] ∧ x = jsTrim channelMeta.createdBy) ∨
        (∃ b, Ancestor (byLine messages) message.pointTo b ∧ x = b.author.name) ∨
        x ∈ extractProtocolMentions message.body := by
  have owner : x ∈ addRecipient [] channelMeta.createdBy ↔
      x ≠ [] ∧ x = jsTrim channelMeta.createdBy := by
    simpa using mem_addRecipients [channelMeta.createdBy] [] x
  have plainNames : ∀ names : List Text, (∀ name ∈ names, IsPlain name) →
      ((x ≠ [] ∧ ∃ name ∈ names, x = jsTrim name) ↔ x ∈ names) := by
    intro names plain
    constructor
    · rintro ⟨-, name, member, rfl⟩
      rw [(plain name member).trimmed]
      exact member
    · intro member
      exact ⟨(plain x member).1, x, member, (plain x member).trimmed.symm⟩
  have authors : ∀ name ∈ ancestorAuthors (byLine messages) message.pointTo, IsPlain name := by
    intro name h
    rw [ancestorAuthors_eq] at h
    obtain ⟨b, -, rfl⟩ := List.mem_map.mp h
    exact author_plain b.author
  rw [computeChannelRecipients, jsSort, List.mem_insertionSort, mem_addRecipients,
    mem_addRecipients, owner, plainNames _ authors,
    plainNames (extractProtocolMentions message.body) fun _ h => mention_plain h, or_assoc,
    ancestorAuthors_eq, List.mem_map]
  simp only [mem_chain_iff, eq_comm]

/-- All names of the client but the owner's are plain. -/
theorem ascii_of_mem {x : Text} (h : x ∈ computeChannelRecipients message channelMeta messages) :
    x = jsTrim channelMeta.createdBy ∨ IsAscii x := by
  rcases (mem_computeChannelRecipients message channelMeta messages x).mp h with
    ⟨-, owner⟩ | ⟨b, -, rfl⟩ | mention
  · exact .inl owner
  · exact .inr (author_plain b.author).ascii
  · exact .inr (mention_plain mention).ascii

theorem computeChannelRecipients_sorted :
    (computeChannelRecipients message channelMeta messages).Pairwise (· ≤ ·) ∧
      (computeChannelRecipients message channelMeta messages).Nodup := by
  constructor
  · apply jsSort_sorted
    intro a ha b hb
    have inList : ∀ x ∈ (extractProtocolMentions message.body).foldl addRecipient
        ((ancestorAuthors (byLine messages) message.pointTo).foldl addRecipient
          (addRecipient [] channelMeta.createdBy)),
        x = jsTrim channelMeta.createdBy ∨ IsAscii x :=
      fun x hx => ascii_of_mem message channelMeta messages ((List.mem_insertionSort _).mpr hx)
    rcases inList a ha with ownerA | asciiA
    · rcases inList b hb with ownerB | asciiB
      · exact .inr (.inr (ownerA.trans ownerB.symm))
      · exact .inr (.inl asciiB)
    · exact .inl asciiA
  · apply (List.perm_insertionSort _ _).nodup_iff.mpr
    apply nodup_addRecipients
    apply nodup_addRecipients
    exact nodup_addRecipients [channelMeta.createdBy] [] List.nodup_nil

theorem computeRecipients_sorted :
    (computeRecipients message channelMeta messages).Pairwise (· ≤ ·) ∧
      (computeRecipients message channelMeta messages).Nodup := by
  constructor
  · exact List.pairwise_insertionSort _ _
  · exact (List.perm_insertionSort _ _).nodup_iff.mpr (nodup_eraseDups _ _ (Nat.le_refl _))

/-- What the two implementations read differently makes no difference to a message. -/
structure SameNames : Prop where
  /-- The owner is stored without white space around the name. -/
  ownerTrimmed : jsTrim channelMeta.createdBy = channelMeta.createdBy
  /-- The author of a message up the chain, and all whom that message mentions, own the channel, or
  have written a message up the chain of the client, or are mentioned. -/
  chainNames : ∀ a, Ancestor messages message.pointTo a → ∀ name ∈ namesOf a,
    name = channelMeta.createdBy ∨
      (∃ b, Ancestor (byLine messages) message.pointTo b ∧ name = b.author.name) ∨
      name ∈ extractProtocolMentions message.body
  /-- The author of a message up the chain of the client is one whom the daemon knows as well. -/
  clientAuthors : ∀ b, Ancestor (byLine messages) message.pointTo b →
    b.author.name = channelMeta.createdBy ∨
      (∃ a, Ancestor messages message.pointTo a ∧ b.author.name ∈ namesOf a) ∨
      b.author.name ∈ extractMentions message.body
  /-- A name in the syntax of mentions that no handler can have is known otherwise. -/
  refusedMentions : ∀ name ∈ extractProtocolMentions message.body, handlerError name ≠ none →
    name = channelMeta.createdBy ∨ ∃ a, Ancestor messages message.pointTo a ∧ name ∈ namesOf a

theorem sameNames_of_eq (same : computeChannelRecipients message channelMeta messages =
    computeRecipients message channelMeta messages) : SameNames message channelMeta messages := by
  have client := mem_computeChannelRecipients message channelMeta messages
  have daemon := mem_computeRecipients message channelMeta messages
  rw [same] at client
  have trimmed : jsTrim channelMeta.createdBy = channelMeta.createdBy := by
    by_cases empty : channelMeta.createdBy = []
    · rw [empty]
      rfl
    · rcases (client _).mp ((daemon channelMeta.createdBy).mpr (.inl ⟨empty, rfl⟩)) with
        ⟨-, owner⟩ | ⟨b, -, author⟩ | mention
      · exact owner.symm
      · rw [author]
        exact (author_plain b.author).trimmed
      · exact (mention_plain mention).trimmed
  constructor
  · exact trimmed
  · intro a up name named
    rcases (client name).mp ((daemon name).mpr (.inr (.inl ⟨a, up, named⟩))) with
      ⟨-, owner⟩ | author | mention
    · exact .inl (owner.trans trimmed)
    · exact .inr (.inl author)
    · exact .inr (.inr mention)
  · intro b up
    rcases (daemon b.author.name).mp ((client b.author.name).mpr (.inr (.inl ⟨b, up, rfl⟩))) with
      ⟨-, owner⟩ | named | mention
    · exact .inl owner
    · exact .inr (.inl named)
    · exact .inr (.inr mention)
  · intro name mention refused
    rcases (daemon name).mp ((client name).mpr (.inr (.inr mention))) with
      ⟨-, owner⟩ | named | valid
    · exact .inl owner
    · exact .inr named
    · exact absurd (mem_extractMentions.mp valid).2 refused

theorem eq_of_sameNames (names : SameNames message channelMeta messages) :
    computeChannelRecipients message channelMeta messages =
      computeRecipients message channelMeta messages := by
  obtain ⟨sortedClient, onceClient⟩ := computeChannelRecipients_sorted message channelMeta messages
  obtain ⟨sortedDaemon, onceDaemon⟩ := computeRecipients_sorted message channelMeta messages
  have plainAuthor : ∀ a : Message, a.author.name ≠ [] := fun a => (author_plain a.author).1
  refine List.Perm.eq_of_pairwise' (r := (· ≤ ·)) sortedClient sortedDaemon ?_
  rw [List.perm_ext_iff_of_nodup onceClient onceDaemon]
  intro x
  rw [mem_computeChannelRecipients, mem_computeRecipients, names.ownerTrimmed]
  constructor
  · rintro (owner | ⟨b, up, rfl⟩ | mention)
    · exact .inl owner
    · rcases names.clientAuthors b up with owner | named | mention
      · exact .inl ⟨plainAuthor b, owner⟩
      · exact .inr (.inl named)
      · exact .inr (.inr mention)
    · by_cases valid : handlerError x = none
      · exact .inr (.inr (mem_extractMentions.mpr ⟨mention, valid⟩))
      · rcases names.refusedMentions x mention valid with owner | named
        · exact .inl ⟨(mention_plain mention).1, owner⟩
        · exact .inr (.inl named)
  · rintro (owner | ⟨a, up, named⟩ | mention)
    · exact .inl owner
    · have nonempty : x ≠ [] := by
        rcases List.mem_cons.mp named with rfl | mentioned
        · exact plainAuthor a
        · exact (mention_plain (mem_extractMentions.mp mentioned).1).1
      rcases names.chainNames a up x named with owner | author | mention
      · exact .inl ⟨nonempty, owner⟩
      · exact .inr (.inl author)
      · exact .inr (.inr mention)
    · exact .inr (.inr (mem_extractMentions.mp mention).1)

/-- The two lists of recipients are the same exactly when the differences between the two
implementations make no difference to the names. -/
theorem recipients_agree_iff :
    computeChannelRecipients message channelMeta messages =
        computeRecipients message channelMeta messages ↔
      SameNames message channelMeta messages :=
  ⟨sameNames_of_eq message channelMeta messages, eq_of_sameNames message channelMeta messages⟩

theorem mem_of_ancestor {messages : List Message} {cursor : Nat} {a : Message}
    (up : Ancestor messages cursor a) : a ∈ messages := by
  obtain ⟨c, -, -, found⟩ := up
  exact List.mem_of_find?_eq_some found

def plansOwner : ChannelMeta := ⟨[], "dan".toList, [], [], [], none⟩

theorem ann_valid : handlerError "ann".toList = none ∨ "ann".toList = systemName :=
  .inl (by decide)

theorem cid_valid : handlerError "cid".toList = none ∨ "cid".toList = systemName :=
  .inl (by decide)

/-- Ann mentions Bob, and Cid replies. -/
def opening : Message := ⟨1, 0, ⟨"ann".toList, ann_valid⟩, [], "<@bob>".toList⟩
def answer : Message := ⟨2, 1, ⟨"cid".toList, cid_valid⟩, [], "ok".toList⟩

/-- The daemon wakes Bob for the reply, and the client does not name him. -/
theorem not_recipients_agree_mention :
    "bob".toList ∈ computeRecipients answer plansOwner [opening, answer] ∧
      computeChannelRecipients answer plansOwner [opening, answer] ≠
        computeRecipients answer plansOwner [opening, answer] := by
  have known : "bob".toList ∈ computeRecipients answer plansOwner [opening, answer] := by
    apply (mem_computeRecipients _ _ _ _).mpr
    exact .inr (.inl ⟨opening, ⟨1, .refl, by decide, by decide⟩, by decide +kernel⟩)
  refine ⟨known, ?_⟩
  · intro same
    have named := same ▸ known
    rcases (mem_computeChannelRecipients _ _ _ _).mp named with ⟨-, owner⟩ | ⟨b, up, author⟩ | mention
    · revert owner
      decide +kernel
    · have authors : ∀ b ∈ byLine [opening, answer], b.author.name ≠ "bob".toList := by
        decide +kernel
      exact authors b (mem_of_ancestor up) author.symm
    · revert mention
      decide +kernel

end Agreement

section DistinctLines
variable {messages : List Message}

theorem find?_line_iff (distinct : (messages.map Message.lineNumber).Nodup) {c : Nat} {m : Message} :
    messages.find? (·.lineNumber = c) = some m ↔ m ∈ messages ∧ m.lineNumber = c := by
  constructor
  · intro found
    exact ⟨List.mem_of_find?_eq_some found, by simpa using List.find?_some found⟩
  · rintro ⟨member, rfl⟩
    cases found : messages.find? (·.lineNumber = m.lineNumber) with
    | none => exact absurd (decide_eq_true rfl) (List.find?_eq_none.mp found m member)
    | some m' =>
      have same : m'.lineNumber = m.lineNumber := by simpa using List.find?_some found
      rw [List.inj_on_of_nodup_map distinct (List.mem_of_find?_eq_some found) member same]

theorem find?_byLine (distinct : (messages.map Message.lineNumber).Nodup) {c : Nat} (nonzero : c ≠ 0) :
    (byLine messages).find? (·.lineNumber = c) = messages.find? (·.lineNumber = c) := by
  have distinctMap : ((byLine messages).map Message.lineNumber).Nodup := by
    rw [byLine, List.map_reverse]
    exact List.nodup_reverse.mpr (distinct.sublist (List.filter_sublist.map _))
  apply Option.ext
  intro m
  rw [find?_line_iff distinctMap, find?_line_iff distinct, byLine, List.mem_reverse, List.mem_filter]
  constructor
  · rintro ⟨⟨member, -⟩, hline⟩
    exact ⟨member, hline⟩
  · rintro ⟨member, rfl⟩
    exact ⟨⟨member, decide_eq_true (Nat.pos_of_ne_zero nonzero)⟩, rfl⟩

/-- When no line is repeated, both walks go up the same chain. -/
theorem ancestor_byLine_iff (distinct : (messages.map Message.lineNumber).Nodup) {cursor : Nat}
    {a : Message} : Ancestor (byLine messages) cursor a ↔ Ancestor messages cursor a := by
  have sameParent : Parent (byLine messages) = Parent messages := by
    funext c d
    apply propext
    constructor
    · rintro ⟨nonzero, m, found, points⟩
      exact ⟨nonzero, m, find?_byLine distinct nonzero ▸ found, points⟩
    · rintro ⟨nonzero, m, found, points⟩
      exact ⟨nonzero, m, (find?_byLine distinct nonzero).symm ▸ found, points⟩
  constructor
  · rintro ⟨c, path, nonzero, found⟩
    exact ⟨c, sameParent ▸ path, nonzero, find?_byLine distinct nonzero ▸ found⟩
  · rintro ⟨c, path, nonzero, found⟩
    exact ⟨c, sameParent.symm ▸ path, nonzero, (find?_byLine distinct nonzero).symm ▸ found⟩

/-- Without repeated lines, what remains are the mentions up the chain, the names that no handler
can have and the white space around the owner. -/
theorem sameNames_iff_of_distinct (distinct : (messages.map Message.lineNumber).Nodup)
    (message : Message) (channelMeta : ChannelMeta) :
    SameNames message channelMeta messages ↔
      jsTrim channelMeta.createdBy = channelMeta.createdBy ∧
      (∀ a, Ancestor messages message.pointTo a → ∀ name ∈ extractMentions a.body,
        name = channelMeta.createdBy ∨
          (∃ b, Ancestor messages message.pointTo b ∧ name = b.author.name) ∨
          name ∈ extractProtocolMentions message.body) ∧
      ∀ name ∈ extractProtocolMentions message.body, handlerError name ≠ none →
        name = channelMeta.createdBy ∨ ∃ a, Ancestor messages message.pointTo a ∧ name ∈ namesOf a := by
  constructor
  · intro names
    refine ⟨names.ownerTrimmed, ?_, names.refusedMentions⟩
    intro a up name mention
    have named := names.chainNames a up name (List.mem_cons_of_mem _ mention)
    simpa only [ancestor_byLine_iff distinct] using named
  · rintro ⟨trimmed, chainMentions, refused⟩
    refine ⟨trimmed, ?_, ?_, refused⟩
    · intro a up name named
      simp only [ancestor_byLine_iff distinct]
      rcases List.mem_cons.mp named with rfl | mention
      · exact .inr (.inl ⟨a, up, rfl⟩)
      · exact chainMentions a up name mention
    · intro b up
      exact .inr (.inl ⟨b, (ancestor_byLine_iff distinct).mp up, List.mem_cons_self⟩)

end DistinctLines

end WebRecipients
