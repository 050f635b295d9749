import GitIM.BoardSections
import GitIM.ByteOffsets
import GitIM.FlowFiles

/-!
# Board files

A valid board is written to a file of the predicted length and read back as it is. The edits of a
section store nothing unless the new document is valid; the edit of a field stores the field before
the document is validated.
-/

namespace BoardFiles

open TextLines TextScan Checked ByteOffsets ThreadFormat Cards InclusiveLines Boards BoardSections

section Rendering
variable {codec : BoardCodec} {doc : BoardDocument} {info : BoardMeta} {yaml body out s t : Text}

theorem endsInLf_append (ht : t ≠ []) : EndsInLf (s ++ t) ↔ EndsInLf t := by
  rw [EndsInLf, EndsInLf, List.getLast?_append_of_ne_nil _ ht]

theorem terminated_append (ht : t ≠ []) : terminated (s ++ t) = s ++ terminated t := by
  simp only [terminated, endsInLf_append ht]
  split
  · rfl
  · rw [List.append_assoc]

theorem endsInLf_terminated (t : Text) : EndsInLf (terminated t) := by
  rw [terminated]
  split
  · assumption
  · exact List.getLast?_concat

theorem utf8Len_terminated (t : Text) :
    utf8Len (terminated t) = utf8Len t + if EndsInLf t then 0 else 1 := by
  rw [terminated]
  split
  · rfl
  · exact utf8Len_append t ['\n']

/-- The metadata of a board as it stands in its file. -/
def yamlLines (yaml : Text) : Text := terminated (bareYaml yaml)

/-- The file of a board with this metadata and body. -/
def rendered (yaml body : Text) : Text :=
  terminated (terminated (delimiter ++ bareYaml yaml) ++ (delimiter ++ body))

theorem endsInLf_delimiter : EndsInLf delimiter := by
  rw [EndsInLf]
  decide +kernel

theorem delimiter_ne_nil : delimiter ≠ [] := by
  decide +kernel

theorem terminated_delimiter_append (body : Text) : terminated (delimiter ++ body) =
    delimiter ++ if body = [] then [] else terminated body := by
  by_cases hbody : body = []
  · rw [if_pos hbody, hbody, List.append_nil, terminated, if_pos endsInLf_delimiter]
  · rw [if_neg hbody, terminated_append hbody]

theorem rendered_eq (hne : bareYaml yaml ≠ []) (body : Text) : rendered yaml body =
    delimiter ++ (yamlLines yaml ++ (delimiter ++ if body = [] then [] else terminated body)) := by
  have hrest : delimiter ++ body ≠ [] := List.append_ne_nil_of_left_ne_nil delimiter_ne_nil body
  rw [rendered, terminated_append hne, terminated_append hrest, terminated_delimiter_append,
    yamlLines, List.append_assoc]

theorem utf8Len_end (body : Text) : utf8Len (if body = [] then [] else terminated body) =
    utf8Len body + if body ≠ [] ∧ ¬ EndsInLf body then 1 else 0 := by
  by_cases hbody : body = []
  · have hno : ¬ (body ≠ [] ∧ ¬ EndsInLf body) := fun h => h.1 hbody
    rw [if_pos hbody, if_neg hno, hbody]
    rfl
  · rw [if_neg hbody, utf8Len_terminated]
    by_cases hlf : EndsInLf body
    · have hno : ¬ (body ≠ [] ∧ ¬ EndsInLf body) := fun h => h.2 hlf
      rw [if_pos hlf, if_neg hno]
    · rw [if_neg hlf, if_pos ⟨hbody, hlf⟩]

/-- The formula for the length agrees with the file. -/
theorem renderedBoardLen_eq (hyaml : codec.toStr info = .ok yaml) (hne : bareYaml yaml ≠ [])
    (body : Text) : renderedBoardLen codec info body = .ok (utf8Len (rendered yaml body)) := by
  have hlen : utf8Len (rendered yaml body) = utf8Len delimiter + utf8Len (bareYaml yaml) +
      (if EndsInLf (bareYaml yaml) then 0 else 1) + utf8Len delimiter + utf8Len body +
      (if body ≠ [] ∧ ¬ EndsInLf body then 1 else 0) := by
    rw [rendered_eq hne, utf8Len_append, utf8Len_append, utf8Len_append, yamlLines,
      utf8Len_terminated, utf8Len_end]
    omega
  rw [renderedBoardLen, hyaml, hlen]
  rfl

theorem validateRenderedSize_ok_iff (hyaml : codec.toStr info = .ok yaml)
    (hne : bareYaml yaml ≠ []) : validateRenderedSize codec info body = .ok () ↔
      utf8Len (rendered yaml body) ≤ boardMaxBytes := by
  rw [validateRenderedSize, renderedBoardLen_eq hyaml hne]
  exact refuse_eq_ok_iff.trans Nat.not_lt

/-- What reading relies on: the metadata is read back, and none of its lines is a delimiter. -/
structure Written (codec : BoardCodec) (info : BoardMeta) (yaml : Text) : Prop where
  nonempty : bareYaml yaml ≠ []
  plain : ¬ '\n' :: delimiter <:+: '\n' :: yamlLines yaml
  read : codec.fromStr (yamlLines yaml) = .ok info

theorem stringifyBoardMarkdown_ok_iff
    (hwritten : ∀ yaml, codec.toStr doc.info = .ok yaml → Written codec doc.info yaml) :
    stringifyBoardMarkdown codec doc = .ok out ↔ validateBoardDocument codec doc = .ok () ∧
      ∃ yaml, codec.toStr doc.info = .ok yaml ∧ out = rendered yaml doc.body := by
  rw [stringifyBoardMarkdown, then_eq_ok_iff, mapError_eq_ok_iff]
  refine and_congr_right fun hvalid => ?_
  rw [bind_eq_ok_iff]
  refine exists_congr fun yaml => ?_
  rw [mapError_eq_ok_iff]
  refine and_congr_right fun hyaml => ?_
  rw [validateBoardDocument, then_eq_ok_iff,
    validateRenderedSize_ok_iff hyaml (hwritten yaml hyaml).nonempty] at hvalid
  have hsize : ¬ utf8Len (rendered yaml doc.body) > boardMaxBytes := Nat.not_lt.mpr hvalid.2
  refine then_eq_ok_iff.trans ?_
  rw [refuse_eq_ok_iff, Except.ok.injEq, eq_comm]
  exact and_iff_right hsize

/-- Writing succeeds for the valid boards. -/
theorem stringify_iff_valid
    (hwritten : ∀ yaml, codec.toStr doc.info = .ok yaml → Written codec doc.info yaml) :
    (∃ out, stringifyBoardMarkdown codec doc = .ok out) ↔
      validateBoardDocument codec doc = .ok () := by
  constructor
  · rintro ⟨out, hout⟩
    exact ((stringifyBoardMarkdown_ok_iff hwritten).mp hout).1
  · intro hvalid
    have hsize := (then_eq_ok_iff.mp hvalid).2
    rw [validateRenderedSize, bind_eq_ok_iff] at hsize
    obtain ⟨len, hlen, -⟩ := hsize
    rw [renderedBoardLen, bind_eq_ok_iff] at hlen
    obtain ⟨yaml, hyaml, -⟩ := hlen
    exact ⟨_, (stringifyBoardMarkdown_ok_iff hwritten).mpr
      ⟨hvalid, yaml, mapError_eq_ok_iff.mp hyaml, rfl⟩⟩

end Rendering

section Reading
variable {codec : BoardCodec} {doc : BoardDocument} {yaml body out : Text}

/-- A delimiter that begins in front of the closing one has its whole line there. -/
theorem delimiter_before {b rest : Text} (hb : b ≠ [])
    (h : '\n' :: delimiter <+: b ++ ('\n' :: delimiter ++ rest)) :
    '\n' :: delimiter <+: b ++ ['\n'] := by
  have hmark : '\n' :: delimiter = ['\n', '-', '-', '-', '\n'] := by decide +kernel
  rw [hmark] at h ⊢
  rcases b with _ | ⟨_, _ | ⟨_, _ | ⟨_, _ | ⟨_, b⟩⟩⟩⟩
  · exact absurd rfl hb
  · simp at h
  · simp at h
  · simp at h
  · cases b with
    | nil => simpa using h
    | cons _ b => simpa using h

theorem splitFrontmatter_rendered (hplain : ¬ '\n' :: delimiter <:+: '\n' :: yamlLines yaml)
    (body : Text) : splitFrontmatter (delimiter ++ (yamlLines yaml ++ (delimiter ++ body))) =
      .ok (yamlLines yaml, body) := by
  obtain ⟨front, hfront⟩ : ∃ front, yamlLines yaml = front ++ ['\n'] :=
    List.getLast?_eq_some_iff.mp (endsInLf_terminated (bareYaml yaml))
  have hsplit : Flows.splitAt ('\n' :: delimiter) (yamlLines yaml ++ (delimiter ++ body)) =
      some (front, body) := by
    have hshape : yamlLines yaml ++ (delimiter ++ body) = front ++ ('\n' :: delimiter ++ body) := by
      rw [hfront, List.append_assoc]
      rfl
    rw [hshape]
    refine FlowFiles.splitAt_first ?_ (List.cons_ne_nil _ _)
    rintro a b hab hb hprefix
    obtain ⟨behind, hbehind⟩ := delimiter_before hb hprefix
    refine hplain ⟨'\n' :: a, behind, ?_⟩
    rw [hfront, hab, List.append_assoc a, ← hbehind]
    simp
  rw [splitFrontmatter, stripPrefix_append]
  simp only [hsplit]
  rw [hfront]

/-- A board whose body is empty or ends in a line feed is read back from its file. -/
theorem parse_rendered
    (hwritten : ∀ yaml, codec.toStr doc.info = .ok yaml → Written codec doc.info yaml)
    (hbody : Closed doc.body) (hout : stringifyBoardMarkdown codec doc = .ok out) :
    renderedBoardLen codec doc.info doc.body = .ok (utf8Len out) ∧
      parseBoardMarkdown codec out = .ok doc := by
  obtain ⟨hvalid, yaml, hyaml, rfl⟩ := (stringifyBoardMarkdown_ok_iff hwritten).mp hout
  have hw := hwritten yaml hyaml
  refine ⟨renderedBoardLen_eq hyaml hw.nonempty doc.body, ?_⟩
  have hsize := (then_eq_ok_iff.mp hvalid).2
  rw [validateRenderedSize_ok_iff hyaml hw.nonempty] at hsize
  have hwhole : (if doc.body = [] then [] else terminated doc.body) = doc.body := by
    split
    · rename_i hempty
      exact hempty.symm
    · rename_i hne
      exact if_pos (hbody.resolve_left hne)
  have hsplit := splitFrontmatter_rendered hw.plain doc.body
  rw [parseBoardMarkdown, then_eq_ok_iff, refuse_eq_ok_iff]
  refine ⟨Nat.not_lt.mpr hsize, ?_⟩
  rw [rendered_eq hw.nonempty, hwhole, hsplit]
  refine bind_eq_ok_iff.mpr ⟨_, rfl, ?_⟩
  refine bind_eq_ok_iff.mpr ⟨doc.info, mapError_eq_ok_iff.mpr hw.read, ?_⟩
  exact then_eq_ok_iff.mpr ⟨mapError_eq_ok_iff.mpr hvalid, rfl⟩

end Reading

section Edits
variable {codec : BoardCodec} {doc : BoardDocument} {field section_ value : Text} {e : BoardError}

/-- A refused edit of a section leaves the board as it was. -/
theorem setBoardSection_error (h : (setBoardSection codec doc section_ value).2 = .error e) :
    (setBoardSection codec doc section_ value).1 = doc := by
  simp only [setBoardSection] at h ⊢
  split
  · rfl
  · rename_i name hname
    rw [hname] at h
    simp only at h
    split
    · rfl
    · rename_i hvalid
      rw [hvalid] at h
      cases h

theorem appendBoardSection_error (h : (appendBoardSection codec doc section_ value).2 = .error e) :
    (appendBoardSection codec doc section_ value).1 = doc := by
  simp only [appendBoardSection] at h ⊢
  split
  · rfl
  · rename_i name hname
    rw [hname] at h
    simp only at h
    split
    · rfl
    · rename_i hvalid
      rw [hvalid] at h
      cases h

/-- The metadata with a field set, unless the field is unknown or the value is refused for itself. -/
def withField (info : BoardMeta) (field value : Text) : Option BoardMeta :=
  if field = "status".toList then
    if validateStatus (trim value) = .ok () then some { info with status := trim value } else none
  else if field = "summary".toList then
    if validateSummary (trim value) = .ok () then some { info with summary := trim value } else none
  else if field = "labels".toList ∨ field = "tags".toList then
    (parseLabelsCsv value).toOption.map fun labels => { info with labels := labels }
  else none

/-- An edit of a field is refused at once, or stored and then validated. -/
theorem setBoardField_cases (codec : BoardCodec) (doc : BoardDocument) (field value : Text) :
    (∃ info, withField doc.info field value = some info ∧ setBoardField codec doc field value =
      ({ doc with info := info }, validateBoardDocument codec { doc with info := info })) ∨
    (withField doc.info field value = none ∧
      ∃ e, setBoardField codec doc field value = (doc, .error e)) := by
  rw [withField, setBoardField]
  by_cases hstatus : field = "status".toList
  · rw [if_pos hstatus, if_pos hstatus]
    cases hchecked : validateStatus (trim value) with
    | error e => exact Or.inr ⟨if_neg (by simp), e, rfl⟩
    | ok u => exact Or.inl ⟨_, if_pos rfl, rfl⟩
  rw [if_neg hstatus, if_neg hstatus]
  by_cases hsummary : field = "summary".toList
  · rw [if_pos hsummary, if_pos hsummary]
    cases hchecked : validateSummary (trim value) with
    | error e => exact Or.inr ⟨if_neg (by simp), e, rfl⟩
    | ok u => exact Or.inl ⟨_, if_pos rfl, rfl⟩
  rw [if_neg hsummary, if_neg hsummary]
  by_cases hlabels : field = "labels".toList ∨ field = "tags".toList
  · rw [if_pos hlabels, if_pos hlabels]
    cases hparsed : parseLabelsCsv value with
    | error e => exact Or.inr ⟨rfl, e, rfl⟩
    | ok labels => exact Or.inl ⟨_, rfl, rfl⟩
  · rw [if_neg hlabels, if_neg hlabels]
    exact Or.inr ⟨rfl, _, rfl⟩

/-- A value that is refused for itself, is stored already or leaves the board valid. -/
def FieldKept (codec : BoardCodec) (doc : BoardDocument) (field value : Text) : Prop :=
  ∀ info, withField doc.info field value = some info →
    info = doc.info ∨ validateBoardDocument codec { doc with info := info } = .ok ()

theorem setBoardField_unchanged_iff :
    (∀ e, (setBoardField codec doc field value).2 = .error e →
      (setBoardField codec doc field value).1 = doc) ↔ FieldKept codec doc field value := by
  rcases setBoardField_cases codec doc field value with ⟨info, hfield, hset⟩ | ⟨hfield, e, hset⟩
  · rw [hset]
    constructor
    · intro h other hother
      rw [hfield, Option.some.injEq] at hother
      cases hvalid : validateBoardDocument codec { doc with info := info } with
      | error e =>
        have hsame : info = doc.info := congrArg BoardDocument.info (h e hvalid)
        exact Or.inl (hother ▸ hsame)
      | ok u => exact Or.inr (hother ▸ hvalid)
    · intro h e he
      rcases h info hfield with hsame | hvalid
      · rw [hsame]
      · rw [hvalid] at he
        cases he
  · rw [hset]
    refine iff_of_true (fun _ _ => rfl) ?_
    intro info hinfo
    rw [hfield] at hinfo
    cases hinfo

/-- Boards through a file and through failed edits. -/
theorem boards_kept_iff (codec : BoardCodec) (doc : BoardDocument)
    (field value section_ text : Text)
    (hwritten : ∀ yaml, codec.toStr doc.info = .ok yaml → Written codec doc.info yaml) :
    (Closed doc.body → ((∃ out, stringifyBoardMarkdown codec doc = .ok out) ↔
        validateBoardDocument codec doc = .ok ()) ∧
      ∀ out, stringifyBoardMarkdown codec doc = .ok out →
        renderedBoardLen codec doc.info doc.body = .ok (utf8Len out) ∧
        parseBoardMarkdown codec out = .ok doc) ∧
    (∀ e, (setBoardField codec doc field value).2 = .error e →
      (setBoardField codec doc field value).1 = doc) ∧
    (∀ e, (setBoardSection codec doc section_ text).2 = .error e →
      (setBoardSection codec doc section_ text).1 = doc) ∧
    (∀ e, (appendBoardSection codec doc section_ text).2 = .error e →
      (appendBoardSection codec doc section_ text).1 = doc) ↔
    FieldKept codec doc field value := by
  rw [setBoardField_unchanged_iff]
  constructor
  · intro h
    exact h.2.1
  · intro h
    refine ⟨?_, h, ?_, ?_⟩
    · intro hbody
      exact ⟨stringify_iff_valid hwritten, fun out => parse_rendered hwritten hbody⟩
    · intro e
      exact setBoardSection_error
    · intro e
      exact appendBoardSection_error

end Edits

section Samples

/-- The metadata of a board without labels, whose texts need no quotes. -/
def plainYaml (info : BoardMeta) : Text := unlines [
  "version: ".toList ++ (toString info.version).toList, "handler: ".toList ++ info.handler,
  "updated_at: ".toList ++ info.updatedAt, "status: ".toList ++ info.status,
  "summary: ".toList ++ if info.summary = [] then "''".toList else info.summary, "tags: []".toList]

def plainCodec : BoardCodec where
  fromStr t := if t = plainYaml sampleInfo then .ok sampleInfo else .error "missing field".toList
  toStr info := .ok (plainYaml info)

theorem plainCodec_written (yaml : Text) (h : plainCodec.toStr sampleInfo = .ok yaml) :
    Written plainCodec sampleInfo yaml := by
  obtain rfl := Except.ok.inj h
  have hlines : yamlLines (plainYaml sampleInfo) = plainYaml sampleInfo := by decide +kernel
  refine ⟨by decide +kernel, by decide +kernel, ?_⟩
  have hread : ∀ t, t = plainYaml sampleInfo → plainCodec.fromStr t = .ok sampleInfo := by
    intro t ht
    exact if_pos ht
  exact hread _ hlines

def busyInfo : BoardMeta := { sampleInfo with summary := "reviewing".toList }

theorem boards_kept_now :
    (stringifyBoardMarkdown plainCodec (sampleBoard twoSections)).bind
        (parseBoardMarkdown plainCodec) = .ok (sampleBoard twoSections) ∧
      setBoardField plainCodec (sampleBoard twoSections) "summary".toList "reviewing ".toList =
        (⟨busyInfo, twoSections⟩, .ok ()) := by
  have hset : setBoardField plainCodec (sampleBoard twoSections) "summary".toList
      "reviewing ".toList = (⟨busyInfo, twoSections⟩, .ok ()) := by decide +kernel
  have hkept := (boards_kept_iff plainCodec (sampleBoard twoSections) "summary".toList
    "reviewing ".toList [] [] plainCodec_written).mpr (setBoardField_unchanged_iff.mp (by
      rw [hset]
      intro e he
      cases he))
  have hvalid : validateBoardDocument plainCodec (sampleBoard twoSections) = .ok () := by
    decide +kernel
  have hfile := hkept.1 (Or.inr rfl)
  obtain ⟨out, hout⟩ := hfile.1.mpr hvalid
  refine ⟨?_, hset⟩
  rw [hout]
  exact (hfile.2 out hout).2

def filled (n : Nat) : Text := List.replicate n 'x' ++ ['\n']

theorem utf8Len_filled (n : Nat) : utf8Len (filled n) = n + 1 := by
  have hsize : Char.utf8Size 'x' = 1 := by decide
  induction n with
  | zero => rfl
  | succ n ih =>
    have hcons : utf8Len (filled (n + 1)) = Char.utf8Size 'x' + utf8Len (filled n) := by
      rw [filled, List.replicate_succ, List.cons_append, utf8Len, List.map_cons, List.sum_cons]
      rfl
    rw [hcons, ih, hsize, Nat.add_comm]

theorem validate_filled {info : BoardMeta} {n length : Nat}
    (hmeta : validateBoardMeta info = .ok ()) (hbare : bareYaml (plainYaml info) = plainYaml info)
    (hlf : EndsInLf (plainYaml info)) (hlength : utf8Len (plainYaml info) = length) :
    validateBoardDocument plainCodec ⟨info, filled n⟩ =
      refuse (length + n + 9 > boardMaxBytes)
        (.documentTooLarge (length + n + 9) boardMaxBytes) := by
  have hend : EndsInLf (filled n) := List.getLast?_concat
  have hno : ¬ (filled n ≠ [] ∧ ¬ EndsInLf (filled n)) := fun h => h.2 hend
  have hmark : utf8Len delimiter = 4 := by decide +kernel
  have hlen : renderedBoardLen plainCodec info (filled n) = .ok (length + n + 9) := by
    rw [renderedBoardLen]
    refine bind_eq_ok_iff.mpr ⟨plainYaml info, rfl, ?_⟩
    rw [Except.ok.injEq, hbare, if_pos hlf, if_neg hno, hlength, hmark, utf8Len_filled]
    omega
  rw [validateBoardDocument, hmeta, validateRenderedSize]
  simp only [hlen]
  rfl

/-- A board of the largest size keeps the summary that makes it too large. -/
theorem not_boards_kept :
    validateBoardDocument plainCodec (sampleBoard (filled 65438)) = .ok () ∧
      setBoardField plainCodec (sampleBoard (filled 65438)) "summary".toList "reviewing".toList =
        (⟨busyInfo, filled 65438⟩, .error (.documentTooLarge 65543 65536)) ∧
      busyInfo ≠ sampleInfo := by
  have hsample : validateBoardDocument plainCodec ⟨sampleInfo, filled 65438⟩ =
      refuse (89 + 65438 + 9 > boardMaxBytes) (.documentTooLarge (89 + 65438 + 9) boardMaxBytes) :=
    validate_filled (by decide +kernel) (by decide +kernel) (by rw [EndsInLf]; decide +kernel)
      (by decide +kernel)
  have hbusy : validateBoardDocument plainCodec ⟨busyInfo, filled 65438⟩ =
      refuse (96 + 65438 + 9 > boardMaxBytes) (.documentTooLarge (96 + 65438 + 9) boardMaxBytes) :=
    validate_filled (by decide +kernel) (by decide +kernel) (by rw [EndsInLf]; decide +kernel)
      (by decide +kernel)
  refine ⟨hsample, ?_, by decide +kernel⟩
  have hfield : withField sampleInfo "summary".toList "reviewing".toList = some busyInfo := by
    decide +kernel
  rcases setBoardField_cases plainCodec (sampleBoard (filled 65438)) "summary".toList
    "reviewing".toList with ⟨info, hinfo, hset⟩ | ⟨hnone, -⟩
  · have hsame : info = busyInfo := Option.some.inj (hinfo.symm.trans hfield)
    rw [hset, hsame]
    exact congrArg (Prod.mk _) hbusy
  · rw [sampleBoard, hfield] at hnone
    cases hnone

end Samples

end BoardFiles
