import GitIM.GitIndex
import GitIM.Channels
import GitIM.TableCodec

/-!
# Cards

A card is a directory of a channel with a metadata file and a discussion thread, either
among the active cards or in the archive. The checks of the card handlers, where they
find a card, and what they write into its metadata.
-/

namespace Cards

open TextLines TextScan FileTree Checked ThreadFormat ThreadValidation DmThreads Channels GitIndex
  TableCodec

section Data

inductive CardStatus where
  | todo
  | doing
  | done
  deriving DecidableEq

def CardStatus.asStr : CardStatus → Text
  | todo => "todo".toList
  | doing => "doing".toList
  | done => "done".toList

def CardStatus.parse (s : Text) : Except Text CardStatus :=
  if s = "todo".toList then .ok todo
  else if s = "doing".toList then .ok doing
  else if s = "done".toList then .ok done
  else .error ("invalid status '".toList ++ (s ++ "', allowed: todo/doing/done".toList))

theorem CardStatus.parse_asStr (s : CardStatus) : parse s.asStr = .ok s := by
  cases s <;> decide

inductive ArchivedVia where
  | channel
  | manual
  deriving DecidableEq

def ArchivedVia.asStr : ArchivedVia → Text
  | channel => "channel".toList
  | manual => "manual".toList

structure CardMeta where
  title : Text
  channel : Text
  status : CardStatus
  labels : List Text
  assignee : Option Text
  createdBy : Text
  createdAt : Text
  updatedAt : Text
  archivedVia : Option ArchivedVia
  deriving DecidableEq

/-- Reading and writing of card metadata as YAML. -/
structure CardCodec where
  fromStr : Text → Option CardMeta
  toStr : CardMeta → Text

end Data

section Labels

def maxLabelLen : Nat := 32

def cardMaxLabels : Nat := 10

inductive LabelError where
  | lengthOutOfRange (length bound : Nat)
  | invalidChar (c : Char)
  | tooMany (count bound : Nat)
  | duplicate (label : Text)
  deriving DecidableEq

def LabelError.text : LabelError → Text
  | lengthOutOfRange n bound => "label length out of range (1..=".toList ++ ((toString bound).toList
      ++ ("), got ".toList ++ (toString n).toList))
  | invalidChar c => "invalid char '".toList ++ (c :: "' in label (allowed: a-z 0-9 - _)".toList)
  | tooMany n bound => "too many labels (max ".toList ++ ((toString bound).toList ++
      ("), got ".toList ++ (toString n).toList))
  | duplicate l => "duplicate label: ".toList ++ l

def isLabelChar (c : Char) : Bool :=
  ('a' ≤ c ∧ c ≤ 'z') ∨ ('0' ≤ c ∧ c ≤ '9') ∨ c = '-' ∨ c = '_'

def validateLabel (label : Text) : Except LabelError Unit :=
  if label = [] ∨ utf8Len label > maxLabelLen then
    .error (.lengthOutOfRange (utf8Len label) maxLabelLen)
  else match label.find? (fun c => !isLabelChar c) with
    | some c => .error (.invalidChar c)
    | none => .ok ()

/-- The labels in order, each valid and not among those before it. -/
def validateLabelsFrom (seen : List Text) : List Text → Except LabelError Unit
  | [] => .ok ()
  | l :: rest => do
    validateLabel l
    refuse (l ∈ seen) (.duplicate l)
    validateLabelsFrom (l :: seen) rest

def validateLabels (labels : List Text) (maxCount : Nat) : Except LabelError Unit := do
  refuse (labels.length > maxCount) (.tooMany labels.length maxCount)
  validateLabelsFrom [] labels

def checkLabels (labels : List Text) : Except Text Unit :=
  (validateLabels labels cardMaxLabels).mapError fun e => "invalid labels: ".toList ++ e.text

end Labels

section Places

def isCardIdChar (c : Char) : Bool := ('0' ≤ c ∧ c ≤ '9') ∨ ('a' ≤ c ∧ c ≤ 'f') ∨ c = '-'

def validateCardId (cardId : Text) : Except Text Unit :=
  if cardId = [] ∨ utf8Len cardId > 20 then
    .error "invalid card_id: card_id length out of range".toList
  else match cardId.find? (fun c => !isCardIdChar c) with
    | some c => .error ("invalid card_id: invalid character in card_id: '".toList ++ [c, '\''])
    | none => .ok ()

def cardDir (channel cardId : Text) : Path :=
  "channels/".toList ++ (channel ++ ("/cards/".toList ++ cardId))

def archivedCardDir (channel cardId : Text) : Path :=
  "archive/channels/".toList ++ (channel ++ ("/cards/".toList ++ cardId))

def metaIn (dir : Path) : Path := inDir dir "card.meta.yaml".toList

def threadIn (dir : Path) : Path := inDir dir "discussion.thread".toList

structure LocatedCard where
  relPath : Path
  isArchived : Bool
  deriving DecidableEq

/-- The active card wins over an archived one of the same name. -/
def locateCard (tree : FileMap) (channel cardId : Text) : Option LocatedCard :=
  if fileExists tree (metaIn (cardDir channel cardId)) then some ⟨cardDir channel cardId, false⟩
  else if fileExists tree (metaIn (archivedCardDir channel cardId)) then
    some ⟨archivedCardDir channel cardId, true⟩
  else none

def cardNotFound (channel cardId : Text) : Text :=
  "card '".toList ++ (cardId ++ ("' not found in channel '".toList ++ (channel ++ "'".toList)))

/-- The metadata of a card in its directory. -/
def readCard (yaml : CardCodec) (tree : FileMap) (dir channel cardId : Text) :
    Except Text CardMeta :=
  match tree.lookup (metaIn dir) with
  | none => .error (cardNotFound channel cardId)
  | some content =>
    match yaml.fromStr content with
    | some info => .ok info
    | none => .error "failed to parse card meta".toList

theorem not_under_both {p : Path} {a b c d : Text} (h : Under (cardDir a b) p) :
    ¬ Under (archivedCardDir c d) p := by
  intro h'
  obtain ⟨r, hr⟩ := h.exists_rest
  obtain ⟨r', hr'⟩ := h'.exists_rest
  have hhead : some 'c' = some 'a' := congrArg List.head? (hr.symm.trans hr')
  cases hhead

/-- A located card that is not archived is in the directory of the active ones. -/
theorem relPath_of_active {tree : FileMap} {channel cardId : Text} {located : LocatedCard}
    (h : locateCard tree channel cardId = some located) (hactive : ¬ located.isArchived = true) :
    located.relPath = cardDir channel cardId := by
  rw [locateCard] at h
  split at h
  · cases h
    rfl
  · split at h
    · cases h
      exact absurd rfl hactive
    · cases h

end Places

section Checks
variable (users : List Text) (tree : FileMap)

/-- What every card handler but `unarchive` checks first. -/
def checkAuthor (author : Text) : Except Text Unit := do
  ensureAuthorNotDeparted tree author
  ensureRegistered users author

def checkAssignee (assignee : Option Text) : Except Text Unit :=
  match assignee with
  | none => .ok ()
  | some a => (ensureRegistered users a).mapError fun e => "assignee invalid: ".toList ++ e

structure UpdateRequest where
  channel : Text
  cardId : Text
  status : Option Text
  labels : Option (List Text)
  assignee : Option Text
  author : Text
  deriving DecidableEq

/-- The part of `handle_update_card` before the metadata is read: the directory of the card. -/
def findForUpdate (req : UpdateRequest) : Except Text Path := do
  checkAuthor users tree req.author
  checkChannelName req.channel
  validateCardId req.cardId
  refuse (req.status = none ∧ req.labels = none ∧ req.assignee = none)
    "must provide at least one field to update".toList
  match locateCard tree req.channel req.cardId with
  | none => .error (cardNotFound req.channel req.cardId)
  | some located => do
    refuse (located.isArchived = true) ("cannot update archived card '".toList ++
      (req.cardId ++ ("' in channel '".toList ++ (req.channel ++ "'".toList))))
    .ok located.relPath

/-- A status that the request names, or the one given. -/
def statusOr (default : CardStatus) : Option Text → Except Text CardStatus
  | none => .ok default
  | some s => CardStatus.parse s

/-- The edit that `handle_update_card` makes to the metadata it has read: the fields that the
request names, and the time. -/
def editCard (req : UpdateRequest) (now : Text) (info : CardMeta) : Except Text CardMeta := do
  let status ← statusOr info.status req.status
  checkLabels (req.labels.getD [])
  checkAssignee users req.assignee
  .ok { info with
    status := status
    labels := req.labels.getD info.labels
    assignee := req.assignee.or info.assignee
    updatedAt := now }

variable {users tree}

theorem findForUpdate_eq_ok {req : UpdateRequest} {dir : Path}
    (h : findForUpdate users tree req = .ok dir) : dir = cardDir req.channel req.cardId := by
  rw [findForUpdate] at h
  obtain ⟨_, _, h⟩ := bind_eq_ok_iff.mp h
  obtain ⟨_, _, h⟩ := bind_eq_ok_iff.mp h
  obtain ⟨_, _, h⟩ := bind_eq_ok_iff.mp h
  obtain ⟨_, _, h⟩ := bind_eq_ok_iff.mp h
  split at h
  · cases h
  · rename_i located hlocated
    obtain ⟨_, hrefuse, h⟩ := bind_eq_ok_iff.mp h
    cases h
    exact relPath_of_active hlocated (refuse_eq_ok_iff.mp hrefuse)

theorem readCard_eq_ok {yaml : CardCodec} {dir channel cardId : Text} {info : CardMeta}
    (h : readCard yaml tree dir channel cardId = .ok info) :
    (tree.lookup (metaIn dir)).bind yaml.fromStr = some info := by
  rw [readCard] at h
  split at h
  · cases h
  · rename_i content hcontent
    split at h
    · rename_i hinfo
      cases h
      rw [hcontent]
      exact hinfo
    · cases h

end Checks

section Samples

instance encodableStatus : Encodable CardStatus :=
  Encodable.ofLeftInverse
    (fun s => match s with
      | .todo => none
      | .doing => some false
      | .done => some true)
    (fun o => match o with
      | none => .todo
      | some false => .doing
      | some true => .done) fun s => by cases s <;> rfl

instance encodableVia : Encodable ArchivedVia :=
  Encodable.ofLeftInverse (fun v => decide (v = .manual))
    (fun b => if b then .manual else .channel) fun v => by cases v <;> rfl

instance encodableCard : Encodable CardMeta :=
  Encodable.ofLeftInverse
    (fun m => (m.title, m.channel, m.status, m.labels, m.assignee, m.createdBy, m.createdAt,
      m.updatedAt, m.archivedVia))
    (fun m => ⟨m.1, m.2.1, m.2.2.1, m.2.2.2.1, m.2.2.2.2.1, m.2.2.2.2.2.1, m.2.2.2.2.2.2.1,
      m.2.2.2.2.2.2.2.1, m.2.2.2.2.2.2.2.2⟩) fun _ => rfl

/-- A card in block style; a text that reads as null or as a number would be quoted. -/
def blockCard (m : CardMeta) : Text :=
  "title: ".toList ++ (m.title ++ ("\nchannel: ".toList ++ (m.channel ++ ("\nstatus: ".toList ++
    (m.status.asStr ++ (match m.labels with
      | [] => "\nlabels: []".toList
      | ls => "\nlabels:".toList ++ ls.flatMap fun l => "\n- ".toList ++ l)))))) ++
    ("\nassignee: ".toList ++ (m.assignee.getD "null".toList ++ ("\ncreated_by: ".toList ++
    (m.createdBy ++ ("\ncreated_at: ".toList ++ (m.createdAt ++ ("\nupdated_at: ".toList ++
    (m.updatedAt ++ (match m.archivedVia with
      | none => "\n".toList
      | some via => "\narchived_via: ".toList ++ (via.asStr ++ "\n".toList))))))))))

def cardTable (samples : List CardMeta) : List (CardMeta × Text) :=
  samples.map fun m => (m, blockCard m)

/-- The block style on some cards, extended to all of them. -/
def tableCards (samples : List CardMeta) : CardCodec :=
  ⟨tableValue (cardTable samples), tableText (cardTable samples)⟩

end Samples

end Cards
