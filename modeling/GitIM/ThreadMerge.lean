import GitIM.FileTree
import GitIM.ThreadRoundTrip
import Mathlib.Data.List.Induction
import Mathlib.Data.List.Sort

/-!
# Renumbering and merging local additions

`renumber_batch` rewrites a batch of local entries so that they follow the remote
maximum, and `resolve_content_pure` appends the rewritten batch to the remote
content of each file and reports the old and new line of every entry. Line
arithmetic wraps at 64 bits, as in a release build.
-/

namespace ThreadMerge

open TextLines TextScan FileTree ThreadFormat ThreadGrammar ThreadRoundTrip

/-- Paths are ordered component by component. -/
def pathLe (a b : Path) : Prop := a.splitOn '/' ≤ b.splitOn '/'

instance : DecidableRel pathLe := fun a b =>
  inferInstanceAs (Decidable (a.splitOn '/' ≤ b.splitOn '/'))

structure RenumberMapping where
  file : Path
  oldLine : Nat
  newLine : Nat
  deriving DecidableEq

structure ResolvedFile where
  path : Path
  content : Text
  deriving DecidableEq

inductive ConflictError where
  | renumber (fault : ParseFault)
  | io
  | parse (fault : ParseFault)
  | quickSession (message : Text)
  deriving DecidableEq

section Renumber
variable {Json : Type} (codec : JsonCodec Json)

def maxLine (entries : List (ThreadEntry Json)) : Nat :=
  ((entries.map ThreadEntry.lineNumber).max?).getD 0

/-- The hash map filled in file order; a repeated line number keeps its last image. -/
def lineMap (entries : List (ThreadEntry Json)) (maxExisting : Nat) : Nat → Option Nat :=
  entries.zipIdx.foldl
    (fun m p k => if k = p.1.lineNumber then some ((maxExisting + 1 + p.2) % u64Bound) else m k)
    (fun _ => none)

def renumberEntry (entries : List (ThreadEntry Json)) (maxExisting : Nat) :
    ThreadEntry Json → Text
  | .message m =>
    let newPoint :=
      if m.pointTo = 0 then 0
      else if m.pointTo ∈ entries.map ThreadEntry.lineNumber then
        (lineMap entries maxExisting m.pointTo).getD 0
      else m.pointTo
    formatMessage ((lineMap entries maxExisting m.lineNumber).getD 0) newPoint m.author
      m.timestamp m.body
  | .event e =>
    formatEvent codec ((lineMap entries maxExisting e.lineNumber).getD 0) e.author e.timestamp
      e.eventType e.info

def renumberBatch (batch : Text) (maxExisting : Nat) : Except ParseFault Text := do
  let file ← parseThread codec batch
  .ok (file.entries.flatMap (renumberEntry codec file.entries maxExisting))

/-- The largest remote line number; an empty file is not parsed. -/
def remoteMax (remote : Text) : Except ParseFault Nat :=
  if remote = [] then .ok 0
  else do
    let file ← parseThread codec remote
    .ok (maxLine file.entries)

/-- The remote content, closed by a line feed, and the rewritten batch behind it. -/
def finalContent (remote renumbered : Text) : Text :=
  remote ++ (if remote ≠ [] ∧ ¬ EndsInLf remote then ['\n'] else []) ++ renumbered

/-- The body of the loop of `resolve_content_pure` over one file. -/
def resolveFile (path : Path) (localContent remote : Text) :
    Except ConflictError (ResolvedFile × List RenumberMapping) := do
  let maxExisting ← (remoteMax codec remote).mapError .parse
  let localFile ← (parseThread codec localContent).mapError .parse
  let renumbered ← (renumberBatch codec localContent maxExisting).mapError .renumber
  let renumberedFile ← (parseThread codec renumbered).mapError .parse
  let mappings := List.zipWith (RenumberMapping.mk path)
    (localFile.entries.map ThreadEntry.lineNumber)
    (renumberedFile.entries.map ThreadEntry.lineNumber)
  .ok (⟨path, finalContent remote renumbered⟩, mappings)

def resolveContentPure (localAdditions remoteContents : FileMap) :
    Except ConflictError (List ResolvedFile × List RenumberMapping) := do
  let sortedFiles := (localAdditions.map Prod.fst).insertionSort pathLe
  let results ← sortedFiles.mapM fun path =>
    resolveFile codec path ((localAdditions.lookup path).getD [])
      ((remoteContents.lookup path).getD [])
  .ok (results.map Prod.fst, results.flatMap Prod.snd)

end Renumber

section Specification
variable {Json : Type}

/-- An entry moved to a new line with a new target; everything else is kept. -/
def relocate (line point : Nat) : ThreadEntry Json → ThreadEntry Json
  | .message m => .message { m with lineNumber := line, pointTo := point }
  | .event e => .event { e with lineNumber := line, pointTo := point }

/-- The target of a reply after the batch has moved behind line `top`. -/
def newTarget (batch : List (ThreadEntry Json)) (top p : Nat) : Nat :=
  if p ∈ batch.map ThreadEntry.lineNumber then
    top + 1 + (batch.map ThreadEntry.lineNumber).idxOf p
  else p

/-- The batch as it should stand behind line `top`. -/
def relocated (batch : List (ThreadEntry Json)) (top : Nat) : List (ThreadEntry Json) :=
  batch.mapIdx fun i e => relocate (top + 1 + i) (newTarget batch top e.pointTo) e

/-- The old and new line of every entry of the batch. -/
def relocation (f : Path) (batch : List (ThreadEntry Json)) (top : Nat) : List RenumberMapping :=
  batch.mapIdx fun i e => ⟨f, e.lineNumber, top + 1 + i⟩

/-- A batch of local additions to a base thread. -/
structure LocalBatch (base batch : List (ThreadEntry Json)) : Prop where
  distinct : (batch.map ThreadEntry.lineNumber).Nodup
  above : ∀ e ∈ batch, maxLine base < e.lineNumber
  replies : ∀ before e after, batch = before ++ e :: after → e.pointTo ≠ 0 →
    e.pointTo ∈ base.map ThreadEntry.lineNumber ∨
    e.pointTo ∈ before.map ThreadEntry.lineNumber

/-- The merge keeps every message and every reply target. -/
def MergeKeeps (codec : JsonCodec Json) (f : Path) (localText remote : Text)
    (batch remoteEntries : List (ThreadEntry Json)) : Prop :=
  ∃ content merged,
    resolveContentPure codec [(f, localText)] [(f, remote)] =
      .ok ([⟨f, content⟩], relocation f batch (maxLine remoteEntries)) ∧
    parseThread codec content = .ok merged ∧
    merged.entries = remoteEntries ++ relocated batch (maxLine remoteEntries)

end Specification

section LineMap
variable {Json : Type}

/-- With distinct line numbers, the line map sends a line to its place behind `top`. -/
theorem lineMap_eq {entries : List (ThreadEntry Json)}
    (distinct : (entries.map ThreadEntry.lineNumber).Nodup) (top p : Nat) :
    lineMap entries top p = if p ∈ entries.map ThreadEntry.lineNumber then
      some ((top + 1 + (entries.map ThreadEntry.lineNumber).idxOf p) % u64Bound) else none := by
  induction entries using List.reverseRecOn with
  | nil => simp [lineMap]
  | append_singleton es e ih =>
    rw [List.map_append, List.map_singleton, List.nodup_append] at distinct
    obtain ⟨hes, -, hfresh⟩ := distinct
    have hstep : lineMap (es ++ [e]) top p = if p = e.lineNumber then
        some ((top + 1 + es.length) % u64Bound) else lineMap es top p := by
      simp [lineMap, List.zipIdx_append]
    rw [hstep, ih hes, List.map_append, List.idxOf_append]
    by_cases hp : p = e.lineNumber
    · have hnew : p ∉ es.map ThreadEntry.lineNumber := fun hm => hfresh p hm p (by simp [hp]) rfl
      rw [if_pos hp, if_pos (by simp [hp]), if_neg hnew]
      simp [hp]
    · rw [if_neg hp]
      by_cases hm : p ∈ es.map ThreadEntry.lineNumber
      · rw [if_pos hm, if_pos (List.mem_append_left _ hm), if_pos hm]
      · rw [if_neg hm, if_neg (by simpa [hp] using hm)]

theorem lineMap_getD {entries : List (ThreadEntry Json)}
    (distinct : (entries.map ThreadEntry.lineNumber).Nodup) {top p : Nat}
    (room : top + entries.length < u64Bound) (hp : p ∈ entries.map ThreadEntry.lineNumber) :
    (lineMap entries top p).getD 0 = newTarget entries top p := by
  have hidx : (entries.map ThreadEntry.lineNumber).idxOf p < entries.length := by
    simpa using List.idxOf_lt_length_of_mem hp
  rw [lineMap_eq distinct, if_pos hp, newTarget, if_pos hp, Option.getD_some]
  exact Nat.mod_eq_of_lt (by omega)

theorem newTarget_lt {entries : List (ThreadEntry Json)} {top p : Nat}
    (room : top + entries.length < u64Bound) (hp : p < u64Bound) :
    newTarget entries top p < u64Bound := by
  rw [newTarget]
  split
  · rename_i hm
    have hidx : (entries.map ThreadEntry.lineNumber).idxOf p < entries.length := by
      simpa using List.idxOf_lt_length_of_mem hm
    omega
  · exact hp

/-- The relocated batch as a map over its entries. -/
theorem relocated_eq_map {batch : List (ThreadEntry Json)}
    (distinct : (batch.map ThreadEntry.lineNumber).Nodup) (top : Nat) :
    relocated batch top = batch.map fun e =>
      relocate (newTarget batch top e.lineNumber) (newTarget batch top e.pointTo) e := by
  apply List.ext_getElem
  · simp [relocated]
  · intro i hi hi'
    have hb : i < batch.length := by simpa [relocated] using hi
    have hm : batch[i].lineNumber ∈ batch.map ThreadEntry.lineNumber :=
      List.mem_map_of_mem (List.getElem_mem hb)
    have hidx : (batch.map ThreadEntry.lineNumber).idxOf batch[i].lineNumber = i := by
      have := distinct.idxOf_getElem i (by simpa using hb)
      simpa using this
    simp only [relocated, List.getElem_mapIdx, List.getElem_map]
    rw [newTarget.eq_1 batch top batch[i].lineNumber, if_pos hm, hidx]

theorem relocate_lineNumber (line point : Nat) (e : ThreadEntry Json) :
    (relocate line point e).lineNumber = line := by
  cases e <;> rfl

/-- The reported mapping pairs the old lines with the lines of the relocated batch. -/
theorem zipWith_relocated (f : Path) (batch : List (ThreadEntry Json)) (top : Nat) :
    List.zipWith (RenumberMapping.mk f) (batch.map ThreadEntry.lineNumber)
      ((relocated batch top).map ThreadEntry.lineNumber) = relocation f batch top := by
  apply List.ext_getElem
  · simp [relocated, relocation]
  · intro i hi hi'
    simp [relocated, relocation, relocate_lineNumber]

end LineMap

section Merge
variable {Json : Type} (codec : JsonCodec Json)

/-- The entries whose text survives formatting: bodies without a final line feed or a
carriage return at the end of a line, events at top level whose JSON is read back. -/
structure FormatStable (batch : List (ThreadEntry Json)) : Prop where
  bodies : ∀ m, .message m ∈ batch →
    ¬ EndsInLf m.body ∧ ∀ l ∈ m.body.splitOn '\n', ¬ EndsInCr l
  events : ∀ e, .event e ∈ batch → e.pointTo = 0
  infos : ∀ e, .event e ∈ batch → codec.fromStr (codec.toStr e.info) = some e.info

theorem endsInLf_append_lf (a b : Text) (h : b = [] ∨ EndsInLf b) :
    EndsInLf (a ++ '\n' :: b) := by
  rcases h with rfl | h
  · simp [EndsInLf]
  · have hb : b.getLast? = some '\n' := h
    simp [EndsInLf, List.getLast?_append, List.getLast?_cons, hb]

theorem formatMessage_terminated (ln pt : Nat) (author : Handler) (ts body : Text) :
    EndsInLf (formatMessage ln pt author ts body) := by
  rw [formatMessage]
  split
  · rename_i first rest _
    have h := endsInLf_append_lf (formatPrefix ln pt author ts ++ ' ' :: first) _
      (unlines_terminated (rest.map escapeContinuation))
    simpa using h
  · have h := endsInLf_append_lf (formatPrefix ln pt author ts ++ [' ']) [] (Or.inl rfl)
    simpa using h

theorem renumberEntry_terminated (entries : List (ThreadEntry Json)) (top : Nat)
    (e : ThreadEntry Json) : EndsInLf (renumberEntry codec entries top e) := by
  cases e with
  | message m => exact formatMessage_terminated _ _ _ _ _
  | event e => simp [renumberEntry, formatEvent, EndsInLf, List.getLast?_append, List.getLast?_cons]

/-- A parsed body without a final line feed or line-final carriage return is clean. -/
theorem cleanLines_of_stable {l : Text} {ls : List Text} (first : l ≠ [])
    (noLf : ∀ k ∈ l :: ls, '\n' ∉ k) (noEscape : ∀ k ∈ ls, ¬ " [L".toList <+: k)
    (hlast : ¬ EndsInLf (joinLines (l :: ls)))
    (hcr : ∀ k ∈ (joinLines (l :: ls)).splitOn '\n', ¬ EndsInCr k) : CleanLines l ls := by
  have hsplit : (joinLines (l :: ls)).splitOn '\n' = l :: ls :=
    List.splitOn_intercalate '\n' noLf (by simp)
  rw [hsplit] at hcr
  refine ⟨first, noLf, hcr, noEscape, ?_⟩
  intro hend
  rcases List.eq_nil_or_concat ls with rfl | ⟨ks, k, rfl⟩
  · exact first (by simpa using hend)
  · rw [List.concat_eq_append, ← List.cons_append, List.getLast?_concat] at hend
    apply hlast
    rw [Option.some.inj hend, List.concat_eq_append, ← List.cons_append, joinLines_concat]
    exact endsInLf_append_lf _ [] (Or.inl rfl)

/-- A batch whose entries and targets can be told apart by their line numbers. -/
structure Movable (batch : List (ThreadEntry Json)) : Prop where
  distinct : (batch.map ThreadEntry.lineNumber).Nodup
  zero : ∀ e ∈ batch, e.pointTo = 0 → 0 ∉ batch.map ThreadEntry.lineNumber

theorem LocalBatch.movable {base batch : List (ThreadEntry Json)} (h : LocalBatch base batch) :
    Movable batch := by
  refine ⟨h.distinct, fun _ _ _ hm => ?_⟩
  obtain ⟨e, he, hz⟩ := List.mem_map.mp hm
  have := h.above e he
  omega

theorem Movable.newTarget_zero {batch : List (ThreadEntry Json)} (h : Movable batch)
    {e : ThreadEntry Json} (he : e ∈ batch) (hz : e.pointTo = 0) (top : Nat) :
    newTarget batch top 0 = 0 := by
  rw [newTarget, if_neg (h.zero e he hz)]

/-- Each rewritten entry is read back as its relocated self. -/
theorem derives_renumberEntry (hcodec : codec.OneLine) {batch : List (ThreadEntry Json)}
    (hbatch : Movable batch) (hstable : FormatStable codec batch) {top : Nat}
    (room : top + batch.length < u64Bound) {e : ThreadEntry Json} (he : e ∈ batch)
    (hwf : WellFormed e) :
    Derives codec (normalizedLines (renumberEntry codec batch top e))
      [relocate (newTarget batch top e.lineNumber) (newTarget batch top e.pointTo) e] := by
  have hline : ∀ e ∈ batch, (lineMap batch top e.lineNumber).getD 0 =
      newTarget batch top e.lineNumber := fun e he =>
    lineMap_getD hbatch.distinct room (List.mem_map_of_mem he)
  cases hwf with
  | @message m l ls line point stamp body first noLf noEscape =>
    have hkept := hstable.bodies m he
    rw [body] at hkept
    have hclean := cleanLines_of_stable first noLf noEscape hkept.1 hkept.2
    have hpoint : (if m.pointTo = 0 then 0
        else if m.pointTo ∈ batch.map ThreadEntry.lineNumber then
          (lineMap batch top m.pointTo).getD 0
        else m.pointTo) = newTarget batch top m.pointTo := by
      by_cases hz : m.pointTo = 0
      · rw [if_pos hz, hz, hbatch.newTarget_zero he hz]
      · rw [if_neg hz]
        by_cases hm : m.pointTo ∈ batch.map ThreadEntry.lineNumber
        · rw [if_pos hm, lineMap_getD hbatch.distinct room hm]
        · rw [if_neg hm, newTarget, if_neg hm]
    simp only [renumberEntry]
    rw [hpoint]
    have hl := hline _ he
    simp only [ThreadEntry.lineNumber] at hl
    rw [hl, body]
    have hder := derives_formatMessage codec m.author (newTarget_lt room line)
      (newTarget_lt room point) stamp hclean
    simpa [relocate, ThreadEntry.lineNumber, ThreadEntry.pointTo, body] using hder
  | @event e line point stamp kind =>
    have hl := hline _ he
    simp only [ThreadEntry.lineNumber] at hl
    simp only [renumberEntry]
    rw [hl]
    have hder := derives_formatEvent codec hcodec e.author (newTarget_lt room line)
      stamp kind (hstable.infos e he)
    simpa [relocate, ThreadEntry.lineNumber, ThreadEntry.pointTo, hstable.events e he,
      hbatch.newTarget_zero he (hstable.events e he)] using hder

/-- Terminated texts that derive one entry each are concatenated freely. -/
theorem derives_flatMap {text : ThreadEntry Json → Text}
    {image : ThreadEntry Json → ThreadEntry Json} (es : List (ThreadEntry Json))
    (hder : ∀ e ∈ es, Derives codec (normalizedLines (text e)) [image e])
    (hterm : ∀ e ∈ es, EndsInLf (text e)) :
    Derives codec (normalizedLines (es.flatMap text)) (es.map image) := by
  induction es with
  | nil => exact .nil
  | cons e es ih =>
    rw [List.flatMap_cons, normalizedLines_append _ (Or.inr (hterm e List.mem_cons_self)),
      List.map_cons, ← List.singleton_append]
    exact (hder e List.mem_cons_self).append codec
      (ih (fun d hd => hder d (List.mem_cons_of_mem e hd))
        (fun d hd => hterm d (List.mem_cons_of_mem e hd)))

/-- The separating line feed completes the last remote line and changes no other. -/
theorem normalizedLines_terminate {t : Text} (hlf : ¬ EndsInLf t) (hcr : ¬ EndsInCr t)
    (hne : t ≠ []) : normalizedLines (t ++ ['\n']) = normalizedLines t := by
  induction t using lines_induction with
  | nil => exact absurd rfl hne
  | last l hne' hl =>
    rw [normalizedLines_line l [] hl, stripCr_of_not_endsInCr hcr, stripCr_of_not_endsInCr hcr,
      normalizedLines_last l hne' hl]
    rfl
  | line l t hl ih =>
    rw [List.append_assoc, List.cons_append, normalizedLines_line l _ hl,
      normalizedLines_line l _ hl]
    congr 1
    cases t with
    | nil => exact absurd (endsInLf_append_lf l [] (Or.inl rfl)) hlf
    | cons c t =>
      apply ih
      · simpa [EndsInLf, List.getLast?_append] using hlf
      · simpa [EndsInCr, List.getLast?_append] using hcr
      · simp

theorem normalizedLines_finalContent {remote : Text} (hcr : ¬ EndsInCr remote) (tail : Text) :
    normalizedLines (finalContent remote tail) =
      normalizedLines remote ++ normalizedLines tail := by
  rw [finalContent]
  by_cases hsep : remote ≠ [] ∧ ¬ EndsInLf remote
  · rw [if_pos hsep, normalizedLines_append tail (Or.inr (endsInLf_append_lf remote [] (Or.inl rfl))),
      normalizedLines_terminate hsep.2 hcr hsep.1]
  · rw [if_neg hsep, List.append_nil]
    apply normalizedLines_append
    by_cases hne : remote = []
    · exact Or.inl hne
    · exact Or.inr (by by_contra hlf; exact hsep ⟨hne, hlf⟩)

theorem remoteMax_eq {remote : Text} {r : ThreadFile Json}
    (hr : parseThread codec remote = .ok r) : remoteMax codec remote = .ok (maxLine r.entries) := by
  rw [remoteMax]
  split
  · rename_i hnil
    rw [hnil] at hr
    have hnone : parseThread codec [] = .ok (⟨[]⟩ : ThreadFile Json) := rfl
    cases hnone.symm.trans hr
    rfl
  · rw [hr]
    rfl

/-- One file of the merge: the batch stands relocated behind the remote entries. -/
theorem resolveFile_keeps (hcodec : codec.OneLine) (f : Path) {localText remote : Text}
    {r a : ThreadFile Json}
    (hr : parseThread codec remote = .ok r) (ha : parseThread codec localText = .ok a)
    (hbatch : Movable a.entries) (hstable : FormatStable codec a.entries)
    (room : maxLine r.entries + a.entries.length < u64Bound) (hend : ¬ EndsInCr remote) :
    ∃ content merged,
      resolveFile codec f localText remote =
        .ok (⟨f, content⟩, relocation f a.entries (maxLine r.entries)) ∧
      parseThread codec content = .ok merged ∧
      merged.entries = r.entries ++ relocated a.entries (maxLine r.entries) := by
  have hwf := parseThread_wellFormed codec ha
  have hnew : Derives codec (normalizedLines
      (a.entries.flatMap (renumberEntry codec a.entries (maxLine r.entries))))
      (relocated a.entries (maxLine r.entries)) := by
    rw [relocated_eq_map hbatch.distinct]
    exact derives_flatMap codec a.entries
      (fun e he => derives_renumberEntry codec hcodec hbatch hstable room he (hwf e he))
      (fun e _ => renumberEntry_terminated codec _ _ e)
  have hparsed : parseThread codec
      (a.entries.flatMap (renumberEntry codec a.entries (maxLine r.entries))) =
      .ok ⟨relocated a.entries (maxLine r.entries)⟩ :=
    (parseThread_eq_ok_iff codec).mpr hnew
  refine ⟨finalContent remote
      (a.entries.flatMap (renumberEntry codec a.entries (maxLine r.entries))),
    ⟨r.entries ++ relocated a.entries (maxLine r.entries)⟩, ?_, ?_, rfl⟩
  · have hbatchText : renumberBatch codec localText (maxLine r.entries) =
        .ok (a.entries.flatMap (renumberEntry codec a.entries (maxLine r.entries))) := by
      rw [renumberBatch, ha]
      rfl
    rw [resolveFile, remoteMax_eq codec hr, ha]
    simp only [Except.mapError, bind, Except.bind, hbatchText, hparsed]
    rw [zipWith_relocated]
  · apply (parseThread_eq_ok_iff codec).mpr
    rw [normalizedLines_finalContent hend]
    exact ((parseThread_eq_ok_iff codec).mp hr).append codec hnew

/-- The merge of one file loses nothing: every remote entry stays, every local entry follows
it with its own content, renumbered consecutively and pointing at the same messages. -/
theorem resolveContentPure_keeps (hcodec : codec.OneLine) (f : Path)
    (base additions localText : Text) {b r a : ThreadFile Json}
    (_hb : parseThread codec base = .ok b) (hr : parseThread codec (base ++ additions) = .ok r)
    (ha : parseThread codec localText = .ok a) (hbatch : LocalBatch b.entries a.entries)
    (hstable : FormatStable codec a.entries)
    (room : maxLine r.entries + a.entries.length < u64Bound)
    (hend : ¬ EndsInCr (base ++ additions)) :
    MergeKeeps codec f localText (base ++ additions) a.entries r.entries := by
  obtain ⟨content, merged, hfile, hparse, hentries⟩ :=
    resolveFile_keeps codec hcodec f hr ha hbatch.movable hstable room hend
  refine ⟨content, merged, ?_, hparse, hentries⟩
  have hsort : [f].insertionSort pathLe = [f] := rfl
  simp [resolveContentPure, hsort, hfile, bind, Except.bind, pure, Except.pure]

end Merge

/-- Two JSON values, enough for the concrete threads below. -/
inductive SmallJson where
  | null
  | object
  deriving DecidableEq

def smallCodec : JsonCodec SmallJson where
  null := .null
  fromStr t :=
    if t = "null".toList then some .null else if t = "\x7b\x7d".toList then some .object else none
  toStr
    | .null => "null".toList
    | .object => "\x7b\x7d".toList

theorem smallCodec_oneLine : smallCodec.OneLine where
  nonempty v := by cases v <;> decide
  noLf v := by cases v <;> decide
  noCr v := by cases v <;> decide

def alice : Handler := ⟨"alice".toList, Or.inl (by decide)⟩

def newYear : Text := "20260101T000000Z".toList

theorem newYear_shape : TimestampShape newYear :=
  ⟨"20260101".toList, "000000".toList, by decide, by decide, by decide, by decide, by decide⟩

def sampleMessage (line point : Nat) (body : Text) : ThreadEntry SmallJson :=
  .message ⟨line, point, alice, newYear, body⟩

def sampleEvent (line point : Nat) : ThreadEntry SmallJson :=
  .event ⟨line, point, alice, newYear, "join".toList, .object⟩

def generalThread : Path := "channels/general.thread".toList

def baseText : Text := "[L000001][P000000][@alice][20260101T000000Z] hello\n".toList

def remoteAddition : Text := "[L000002][P000001][@alice][20260101T000000Z] first\n".toList

def localReplies : Text :=
  "[L000002][P000001][@alice][20260101T000000Z] second\nline\n".toList ++
    ("[L000003][P000002][@alice][20260101T000000Z] third\n".toList ++
      "[L000004][P000000][@alice][20260101T000000Z][E:join] \x7b\x7d\n".toList)

/-- A local reply to the base thread, a reply to that reply and an event, behind one remote
message. -/
theorem resolveContentPure_keeps_replies :
    MergeKeeps smallCodec generalThread localReplies (baseText ++ remoteAddition)
      [sampleMessage 2 1 "second\nline".toList, sampleMessage 3 2 "third".toList, sampleEvent 4 0]
      [sampleMessage 1 0 "hello".toList, sampleMessage 2 1 "first".toList] := by
  refine resolveContentPure_keeps smallCodec smallCodec_oneLine generalThread baseText
    remoteAddition localReplies (b := ⟨[sampleMessage 1 0 "hello".toList]⟩)
    (r := ⟨[sampleMessage 1 0 "hello".toList, sampleMessage 2 1 "first".toList]⟩)
    (a := ⟨[sampleMessage 2 1 "second\nline".toList, sampleMessage 3 2 "third".toList,
      sampleEvent 4 0]⟩)
    ?_ ?_ ?_ ?_ ?_ (by decide) ?_
  · unfold baseText
    rw [String.toList_ofList]
    decide +kernel
  · unfold baseText remoteAddition
    repeat rw [String.toList_ofList]
    decide +kernel
  · unfold localReplies
    repeat rw [String.toList_ofList]
    decide +kernel
  · refine ⟨by decide, by decide, ?_⟩
    intro before e after h
    rcases before with _ | ⟨x, _ | ⟨y, _ | ⟨z, zs⟩⟩⟩ <;>
      simp only [List.nil_append, List.cons_append, List.cons.injEq] at h
    · obtain ⟨rfl, -⟩ := h
      decide
    · obtain ⟨rfl, rfl, -⟩ := h
      decide
    · obtain ⟨rfl, rfl, rfl, -⟩ := h
      decide
    · simp at h
  · refine ⟨?_, ?_, ?_⟩ <;> simp only [sampleMessage, sampleEvent, List.mem_cons, List.not_mem_nil,
      or_false, reduceCtorEq, false_or, ThreadEntry.message.injEq, ThreadEntry.event.injEq]
    · rintro m (rfl | rfl) <;> decide
    · rintro e rfl
      rfl
    · rintro e rfl
      decide
  · unfold baseText remoteAddition
    repeat rw [String.toList_ofList]
    decide

/-- A merge that reads back other entries than the relocated batch does not keep it. -/
theorem not_mergeKeeps {f : Path} {localText remote : Text}
    {batch remoteEntries : List (ThreadEntry SmallJson)} (content : Text)
    (mappings : List RenumberMapping) (merged : ThreadFile SmallJson)
    (hres : resolveContentPure smallCodec [(f, localText)] [(f, remote)] =
      .ok ([⟨f, content⟩], mappings))
    (hparse : parseThread smallCodec content = .ok merged)
    (hother : merged.entries ≠ remoteEntries ++ relocated batch (maxLine remoteEntries)) :
    ¬ MergeKeeps smallCodec f localText remote batch remoteEntries := by
  rintro ⟨content', merged', hres', hparse', hentries⟩
  cases hres.symm.trans hres'
  cases hparse.symm.trans hparse'
  exact hother hentries

def localEventReply : Text :=
  "[L000002][P000001][@alice][20260101T000000Z][E:join] \x7b\x7d\n".toList

def renumberedEvent : Text :=
  "[L000002][P000000][@alice][20260101T000000Z][E:join] \x7b\x7d\n".toList

def localBlankLine : Text := "[L000001][P000000][@alice][20260101T000000Z] hi\n\n".toList

/-- An event that answers a message loses its target, since `format_event` always writes
`P000000`; a body that ends in an empty line loses it. -/
theorem resolveContentPure_loses :
    (parseThread smallCodec baseText = .ok ⟨[sampleMessage 1 0 "hello".toList]⟩ ∧
      parseThread smallCodec localEventReply = .ok ⟨[sampleEvent 2 1]⟩ ∧
      LocalBatch [sampleMessage 1 0 "hello".toList] [sampleEvent 2 1] ∧
      ¬ MergeKeeps smallCodec generalThread localEventReply (baseText ++ [])
        [sampleEvent 2 1] [sampleMessage 1 0 "hello".toList]) ∧
    (parseThread smallCodec [] = .ok ⟨[]⟩ ∧
      parseThread smallCodec localBlankLine = .ok ⟨[sampleMessage 1 0 "hi\n".toList]⟩ ∧
      LocalBatch [] [sampleMessage 1 0 "hi\n".toList] ∧
      ¬ MergeKeeps smallCodec generalThread localBlankLine ([] ++ [])
        [sampleMessage 1 0 "hi\n".toList] []) := by
  have hsingle : ∀ {before after : List (ThreadEntry SmallJson)} {d e : ThreadEntry SmallJson},
      [d] = before ++ e :: after → e = d := by
    intro before after d e h
    rcases before with _ | ⟨x, xs⟩
    · exact (List.cons.inj h).1.symm
    · simp at h
  refine ⟨⟨?_, ?_, ⟨by decide, by decide, ?_⟩, ?_⟩, rfl, ?_, ⟨by decide, by decide, ?_⟩, ?_⟩
  · unfold baseText
    rw [String.toList_ofList]
    decide +kernel
  · unfold localEventReply
    rw [String.toList_ofList]
    decide +kernel
  · intro before e after h _
    cases hsingle h
    exact Or.inl (by decide)
  · refine not_mergeKeeps (baseText ++ renumberedEvent) [⟨generalThread, 2, 2⟩]
      ⟨[sampleMessage 1 0 "hello".toList, sampleEvent 2 0]⟩ ?_ ?_ (by decide)
    · unfold generalThread baseText renumberedEvent localEventReply
      repeat rw [String.toList_ofList]
      decide +kernel
    · unfold baseText renumberedEvent
      repeat rw [String.toList_ofList]
      decide +kernel
  · unfold localBlankLine
    rw [String.toList_ofList]
    decide +kernel
  · intro before e after h hne
    cases hsingle h
    exact absurd rfl hne
  · refine not_mergeKeeps "[L000001][P000000][@alice][20260101T000000Z] hi\n".toList
      [⟨generalThread, 1, 1⟩] ⟨[sampleMessage 1 0 "hi".toList]⟩ ?_ ?_ (by decide)
    · unfold generalThread localBlankLine
      repeat rw [String.toList_ofList]
      decide +kernel
    · rw [String.toList_ofList]
      decide +kernel

end ThreadMerge
