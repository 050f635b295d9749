import GitIM.ArchiveRollback
import GitIM.ChannelMembership
import GitIM.Runs

/-!
# Channels and cards over whole runs

However channels and cards go to the archive and come back, and wherever a call is stopped, every
file stays where it is or at its one other place, as it was; only the stamps of the cards change.
-/

namespace ChannelArchive

open Checked TextLines TextScan FileTree GitIndex GitMoves ConflictReplay DmThreads Channels Cards
  Runs

section Places

variable {side side' : Side} {channel channel' a b : Text} {p : Path}

/-- A path below a card belongs to this card alone. -/
theorem under_cardAt_unique (hc : '/' ∉ channel) (hc' : '/' ∉ channel') (ha : '/' ∉ a) (hb : '/' ∉ b)
    (h : Under (cardAt side channel a) p) (h' : Under (cardAt side' channel' b) p) :
    side = side' ∧ channel = channel' ∧ a = b := by
  obtain ⟨x, hx⟩ := h.exists_rest
  obtain ⟨y, hy⟩ := h'.exists_rest
  have hsame := hx.symm.trans hy
  rw [cardAt_below, cardAt_below] at hsame
  obtain ⟨hside, htail⟩ := front_cancel hsame
  have hchannel : channel = channel' := slash_cancel hc hc' htail
  subst hside hchannel
  exact ⟨rfl, rfl, under_cardAt_id ha hb h h'⟩

theorem slash_mem_of_under {x : Text} (hx : '/' ∉ x) :
    ¬ Under (cardAt side channel a) (side'.front ++ x) := by
  intro h
  obtain ⟨rest, hrest⟩ := h.exists_rest
  rw [cardAt_below] at hrest
  obtain ⟨-, htail⟩ := front_cancel hrest
  rw [htail] at hx
  exact hx (List.mem_append_right _ List.mem_cons_self)

theorem not_under_thread (hc : '/' ∉ channel') :
    ¬ Under (cardAt side channel a) (threadAt side' channel') := by
  refine slash_mem_of_under fun h => ?_
  rcases List.mem_append.mp h with hmem | hmem
  · exact hc hmem
  · exact absurd hmem (by decide)

theorem not_under_meta (hc : '/' ∉ channel') :
    ¬ Under (cardAt side channel a) (metaAt side' channel') := by
  refine slash_mem_of_under fun h => ?_
  rcases List.mem_append.mp h with hmem | hmem
  · exact hc hmem
  · exact absurd hmem (by decide)

theorem threadAt_inj (h : threadAt side channel = threadAt side' channel') :
    side = side' ∧ channel = channel' :=
  (front_cancel h).imp id List.append_cancel_right

theorem metaAt_inj (h : metaAt side channel = metaAt side' channel') :
    side = side' ∧ channel = channel' :=
  (front_cancel h).imp id List.append_cancel_right

theorem threadAt_ne_metaAt : threadAt side channel ≠ metaAt side' channel' := by
  intro h
  have hlast : some 'd' = some 'l' :=
    calc some 'd' = (threadAt side channel).getLast? := by
          rw [threadAt, List.getLast?_append, List.getLast?_append]
          rfl
      _ = (metaAt side' channel').getLast? := congrArg List.getLast? h
      _ = some 'l' := by
          rw [metaAt, List.getLast?_append, List.getLast?_append]
          rfl
  cases hlast

/-- The moves of channels and cards. -/
inductive Transfer : Move → Prop
  | card (side : Side) (channel a : Text) (hc : '/' ∉ channel) (ha : '/' ∉ a) :
    Transfer (moveCard side channel a)
  | thread (side : Side) (channel : Text) (hc : '/' ∉ channel) : Transfer (moveThread side channel)
  | info (side : Side) (channel : Text) (hc : '/' ∉ channel) : Transfer (moveMeta side channel)

/-- Only the move of a card touches its files. -/
theorem Transfer.eq_of_card {m : Move} (h : Transfer m) (hc : '/' ∉ channel) (ha : '/' ∉ a)
    (hp : Under (cardAt side channel a) p) (htouch : m.Touches p) :
    ∃ source, m = moveCard source channel a := by
  cases h with
  | card source channel' b hc' hb =>
    obtain ⟨side', hunder⟩ := touches_moveCard htouch
    obtain ⟨-, rfl, rfl⟩ := under_cardAt_unique hc hc' ha hb hp hunder
    exact ⟨source, rfl⟩
  | thread source channel' hc' =>
    obtain ⟨side', rfl⟩ := touches_moveThread htouch
    exact absurd hp (not_under_thread hc')
  | info source channel' hc' =>
    obtain ⟨side', rfl⟩ := touches_moveMeta htouch
    exact absurd hp (not_under_meta hc')

theorem Transfer.eq_of_thread {m : Move} (h : Transfer m) (hc : '/' ∉ channel)
    (htouch : m.Touches (threadAt side channel)) : ∃ source, m = moveThread source channel := by
  cases h with
  | card source channel' b hc' hb =>
    obtain ⟨side', hunder⟩ := touches_moveCard htouch
    exact absurd hunder (not_under_thread hc)
  | thread source channel' hc' =>
    obtain ⟨side', heq⟩ := touches_moveThread htouch
    exact ⟨source, by rw [(threadAt_inj heq).2]⟩
  | info source channel' hc' =>
    obtain ⟨side', heq⟩ := touches_moveMeta htouch
    exact absurd heq threadAt_ne_metaAt

theorem Transfer.eq_of_meta {m : Move} (h : Transfer m) (hc : '/' ∉ channel)
    (htouch : m.Touches (metaAt side channel)) : ∃ source, m = moveMeta source channel := by
  cases h with
  | card source channel' b hc' hb =>
    obtain ⟨side', hunder⟩ := touches_moveCard htouch
    exact absurd hunder (not_under_meta hc)
  | thread source channel' hc' =>
    obtain ⟨side', heq⟩ := touches_moveThread htouch
    exact absurd heq.symm threadAt_ne_metaAt
  | info source channel' hc' =>
    obtain ⟨side', heq⟩ := touches_moveMeta htouch
    exact ⟨source, by rw [(metaAt_inj heq).2]⟩

end Places

section Contents

variable {cards : CardCodec} {head disk after : Path → Option Text} {moves : List Move} {channel a : Text}

/-- The file at one of two places. -/
def either (files : Path → Option Text) (p q : Path) : Option Text := (files p).or (files q)

/-- A file of a card, by its name in the directory of the card. -/
def cardFile (files : Path → Option Text) (channel cardId rest : Text) : Option Text :=
  either files (inDir (cardAt .active channel cardId) rest) (inDir (cardAt .archived channel cardId) rest)

def channelFile (files : Path → Option Text) (place : Side → Text → Path) (channel : Text) : Option Text :=
  either files (place .active channel) (place .archived channel)

/-- The same text, or the same metadata with another stamp. -/
def Restamp (cards : CardCodec) (before after : Option Text) : Prop :=
  after = before ∨ ∃ old info via, before = some old ∧ cards.fromStr old = some info ∧
    after = some (restamp cards via info)

theorem Restamp.trans (hback : ∀ info, cards.fromStr (cards.toStr info) = some info)
    {x y z : Option Text} (hxy : Restamp cards x y) (hyz : Restamp cards y z) : Restamp cards x z := by
  rcases hxy with rfl | ⟨old, info, via, rfl, hinfo, rfl⟩
  · exact hyz
  · rcases hyz with rfl | ⟨old', info', via', hold', hinfo', rfl⟩
    · exact Or.inr ⟨old, info, via, rfl, hinfo, rfl⟩
    · cases hold'
      rw [restamp, hback] at hinfo'
      cases hinfo'
      exact Or.inr ⟨old, info, via', rfl, hinfo, rfl⟩

/-- What a call or a run leaves of the committed files. -/
structure Carried (cards : CardCodec) (before after : Path → Option Text) : Prop where
  files : ∀ channel id rest, '/' ∉ channel → '/' ∉ id → rest ≠ "card.meta.yaml".toList →
    cardFile after channel id rest = cardFile before channel id rest
  metas : ∀ channel id, '/' ∉ channel → '/' ∉ id →
    Restamp cards (cardFile before channel id "card.meta.yaml".toList)
      (cardFile after channel id "card.meta.yaml".toList)
  threads : ∀ channel, '/' ∉ channel →
    channelFile after threadAt channel = channelFile before threadAt channel
  infos : ∀ channel, '/' ∉ channel →
    channelFile after metaAt channel = channelFile before metaAt channel
  elsewhere : ∀ p, (∀ side channel id, '/' ∉ channel → '/' ∉ id → ¬ Under (cardAt side channel id) p) →
    (∀ side channel, '/' ∉ channel → p ≠ threadAt side channel ∧ p ≠ metaAt side channel) →
      after p = before p

theorem Carried.trans (hback : ∀ info, cards.fromStr (cards.toStr info) = some info)
    (h : Carried cards head disk) (h' : Carried cards disk after) : Carried cards head after where
  files channel id rest hc hid hrest :=
    (h'.files channel id rest hc hid hrest).trans (h.files channel id rest hc hid hrest)
  metas channel id hc hid := (h.metas channel id hc hid).trans hback (h'.metas channel id hc hid)
  threads channel hc := (h'.threads channel hc).trans (h.threads channel hc)
  infos channel hc := (h'.infos channel hc).trans (h.infos channel hc)
  elsewhere p hcards hfiles := (h'.elsewhere p hcards hfiles).trans (h.elsewhere p hcards hfiles)

/-- The stamps of some cards, before anything is moved. -/
def Stamping (cards : CardCodec) (head disk : Path → Option Text) : Prop :=
  ∀ p, disk p = head p ∨ ∃ side channel id old info via, '/' ∉ channel ∧ '/' ∉ id ∧
    p = metaIn (cardAt side channel id) ∧ head p = some old ∧ cards.fromStr old = some info ∧
      disk p = some (restamp cards via info)

theorem Stamping.restamp (h : Stamping cards head disk) (p : Path) : Restamp cards (head p) (disk p) :=
  (h p).imp id fun ⟨_, _, _, old, info, via, _, _, _, hold, hinfo, hdisk⟩ =>
    ⟨old, info, via, hold, hinfo, hdisk⟩

theorem Stamping.present (h : Stamping cards head disk) (p : Path) :
    (disk p).isSome = (head p).isSome := by
  rcases h p with heq | ⟨_, _, _, _, _, _, _, _, _, hold, _, hdisk⟩
  · rw [heq]
  · rw [hold, hdisk]
    rfl

theorem Stamping.eq_of_rest (h : Stamping cards head disk) {side : Side} (hc : '/' ∉ channel)
    (ha : '/' ∉ a) {rest : Text} (hrest : rest ≠ "card.meta.yaml".toList) :
    disk (inDir (cardAt side channel a) rest) = head (inDir (cardAt side channel a) rest) := by
  rcases h (inDir (cardAt side channel a) rest) with heq | ⟨side', channel', id, _, _, _, hc', hid, hp, -⟩
  · exact heq
  · have hunder : Under (cardAt side' channel' id) (inDir (cardAt side channel a) rest) :=
      hp ▸ under_inDir _ _
    obtain ⟨rfl, rfl, rfl⟩ := under_cardAt_unique hc hc' ha hid (under_inDir _ rest) hunder
    exact absurd (inDir_injective hp) hrest

/-- Away from the cards nothing is stamped. -/
theorem Stamping.eq_of_not_under (h : Stamping cards head disk) {p : Path}
    (hp : ∀ side channel id, '/' ∉ channel → '/' ∉ id → ¬ Under (cardAt side channel id) p) :
    disk p = head p := by
  rcases h p with heq | ⟨side, channel, id, _, _, _, hc, hid, rfl, -⟩
  · exact heq
  · exact absurd (under_inDir _ _) (hp side channel id hc hid)

/-- Two places that are exchanged, one of them free, or left alone. -/
theorem either_route (hdisjoint : moves.Pairwise Disjoint) {p q : Path}
    (hpair : ∀ m ∈ moves, m.Touches p ∨ m.Touches q → m.Touches p ∧ m.Touches q ∧ m.swap p = q ∧
      (disk p = none ∨ disk q = none)) : either (disk ∘ route moves) p q = either disk p q := by
  by_cases htouch : ∃ m ∈ moves, m.Touches p ∨ m.Touches q
  · obtain ⟨m, hm, hor⟩ := htouch
    obtain ⟨hp, hq, hswap, hnone⟩ := hpair m hm hor
    have hback : m.swap q = p := by rw [← hswap, Move.swap_swap]
    rw [either, either, Function.comp_apply, Function.comp_apply, route_of_touches hdisjoint hm hp,
      route_of_touches hdisjoint hm hq, hswap, hback]
    rcases hnone with hnone | hnone <;> simp [hnone]
  · have hfix : ∀ x, (x = p ∨ x = q) → route moves x = x := by
      intro x hx
      refine route_of_not_touches fun m hm htouches => htouch ⟨m, hm, ?_⟩
      rcases hx with rfl | rfl
      · exact Or.inl htouches
      · exact Or.inr htouches
    rw [either, either, Function.comp_apply, Function.comp_apply, hfix p (Or.inl rfl), hfix q (Or.inr rfl)]

/-- What is committed after some transfers of stamped files. -/
structure Transfers (cards : CardCodec) (head disk : Path → Option Text) (moves : List Move) : Prop where
  disjoint : moves.Pairwise Disjoint
  kinds : ∀ m ∈ moves, Transfer m
  free : ∀ m ∈ moves, Free m disk
  stamping : Stamping cards head disk

theorem Transfers.cardFile (h : Transfers cards head disk moves) (hc : '/' ∉ channel) (ha : '/' ∉ a)
    (rest : Text) : cardFile (disk ∘ route moves) channel a rest =
      ChannelArchive.cardFile disk channel a rest := by
  refine either_route h.disjoint fun m hm htouch => ?_
  have hm' : ∃ source, m = moveCard source channel a := by
    rcases htouch with htouch | htouch <;> exact (h.kinds m hm).eq_of_card hc ha (under_inDir _ rest) htouch
  obtain ⟨source, rfl⟩ := hm'
  have hfree := h.free _ hm
  cases source with
  | active =>
    exact ⟨Or.inl (under_inDir _ rest), Or.inr (under_inDir _ rest), Move.swap_dir_inDir _ _ _ rest,
      Or.inr (hfree _ (under_inDir _ rest))⟩
  | archived =>
    exact ⟨Or.inr (under_inDir _ rest), Or.inl (under_inDir _ rest), Move.swap_dir_inDir_target _ _ _ rest,
      Or.inl (hfree _ (under_inDir _ rest))⟩

theorem swap_moveThread (source side : Side) (channel : Text) :
    (moveThread source channel).Touches (threadAt side channel) ∧
      (moveThread source channel).swap (threadAt side channel) = threadAt side.other channel := by
  cases source <;> cases side
  · exact ⟨Or.inl rfl, Move.swap_file_source _ _ _⟩
  · exact ⟨Or.inr rfl, Move.swap_file_target _ _ _⟩
  · exact ⟨Or.inr rfl, Move.swap_file_target _ _ _⟩
  · exact ⟨Or.inl rfl, Move.swap_file_source _ _ _⟩

theorem swap_moveMeta (source side : Side) (channel : Text) :
    (moveMeta source channel).Touches (metaAt side channel) ∧
      (moveMeta source channel).swap (metaAt side channel) = metaAt side.other channel := by
  cases source <;> cases side
  · exact ⟨Or.inl rfl, Move.swap_file_source _ _ _⟩
  · exact ⟨Or.inr rfl, Move.swap_file_target _ _ _⟩
  · exact ⟨Or.inr rfl, Move.swap_file_target _ _ _⟩
  · exact ⟨Or.inl rfl, Move.swap_file_source _ _ _⟩

theorem Transfers.thread (h : Transfers cards head disk moves) (hc : '/' ∉ channel) :
    channelFile (disk ∘ route moves) threadAt channel = channelFile disk threadAt channel := by
  refine either_route h.disjoint fun m hm htouch => ?_
  have hm' : ∃ source, m = moveThread source channel := by
    rcases htouch with htouch | htouch <;> exact (h.kinds m hm).eq_of_thread hc htouch
  obtain ⟨source, rfl⟩ := hm'
  obtain ⟨hactive, hswap⟩ := swap_moveThread source .active channel
  refine ⟨hactive, (swap_moveThread source .archived channel).1, hswap, ?_⟩
  cases source with
  | active => exact Or.inr (h.free _ hm _ rfl)
  | archived => exact Or.inl (h.free _ hm _ rfl)

theorem Transfers.info (h : Transfers cards head disk moves) (hc : '/' ∉ channel) :
    channelFile (disk ∘ route moves) metaAt channel = channelFile disk metaAt channel := by
  refine either_route h.disjoint fun m hm htouch => ?_
  have hm' : ∃ source, m = moveMeta source channel := by
    rcases htouch with htouch | htouch <;> exact (h.kinds m hm).eq_of_meta hc htouch
  obtain ⟨source, rfl⟩ := hm'
  obtain ⟨hactive, hswap⟩ := swap_moveMeta source .active channel
  refine ⟨hactive, (swap_moveMeta source .archived channel).1, hswap, ?_⟩
  cases source with
  | active => exact Or.inr (h.free _ hm _ rfl)
  | archived => exact Or.inl (h.free _ hm _ rfl)

/-- The transfers carry every file along, or leave it. -/
theorem Transfers.carried (h : Transfers cards head disk moves) :
    Carried cards head (disk ∘ route moves) where
  files channel id rest hc hid hrest := by
    rw [h.cardFile hc hid, ChannelArchive.cardFile, ChannelArchive.cardFile, either, either,
      h.stamping.eq_of_rest hc hid hrest, h.stamping.eq_of_rest hc hid hrest]
  metas channel id hc hid := by
    rw [h.cardFile hc hid, ChannelArchive.cardFile, ChannelArchive.cardFile, either, either]
    have hactive := h.stamping.restamp (inDir (cardAt .active channel id) "card.meta.yaml".toList)
    cases hhead : head (inDir (cardAt .active channel id) "card.meta.yaml".toList) with
    | none =>
      have hnone : disk (inDir (cardAt .active channel id) "card.meta.yaml".toList) = none := by
        rw [← Option.not_isSome_iff_eq_none, h.stamping.present, hhead]
        simp
      rw [hnone, Option.none_or, Option.none_or]
      exact h.stamping.restamp _
    | some old =>
      have hsome := h.stamping.present (inDir (cardAt .active channel id) "card.meta.yaml".toList)
      obtain ⟨new, hnew⟩ := Option.isSome_iff_exists.mp (hsome.trans (by rw [hhead]; rfl))
      rw [hhead, hnew] at hactive
      rw [hnew, Option.some_or, Option.some_or]
      exact hactive
  threads channel hc := by
    rw [h.thread hc, channelFile, channelFile, either, either,
      h.stamping.eq_of_not_under fun _ _ _ _ _ => not_under_thread hc,
      h.stamping.eq_of_not_under fun _ _ _ _ _ => not_under_thread hc]
  infos channel hc := by
    rw [h.info hc, channelFile, channelFile, either, either,
      h.stamping.eq_of_not_under fun _ _ _ _ _ => not_under_meta hc,
      h.stamping.eq_of_not_under fun _ _ _ _ _ => not_under_meta hc]
  elsewhere p hcards hfiles := by
    have hfix : route moves p = p := by
      refine route_of_not_touches fun m hm htouch => ?_
      cases h.kinds m hm with
      | card source channel id hc hid =>
        obtain ⟨side, hunder⟩ := touches_moveCard htouch
        exact hcards side channel id hc hid hunder
      | thread source channel hc =>
        obtain ⟨side, heq⟩ := touches_moveThread htouch
        exact (hfiles side channel hc).1 heq
      | info source channel hc =>
        obtain ⟨side, heq⟩ := touches_moveMeta htouch
        exact (hfiles side channel hc).2 heq
    rw [Function.comp_apply, hfix]
    exact h.stamping.eq_of_not_under hcards

/-- No card gets into both places. -/
theorem Transfers.separated (h : Transfers cards head disk moves) (hseparated : Separated head) :
    Separated (disk ∘ route moves) := by
  intro channel id hc hid
  by_cases hmoved : ∃ source, moveCard source channel id ∈ moves
  · obtain ⟨source, hm⟩ := hmoved
    refine ⟨source, fun p hp => ?_⟩
    have hsource : (moveCard source channel id).AtSource p := hp
    rw [Function.comp_apply, route_of_touches h.disjoint hm (Or.inl hsource)]
    exact h.free _ hm _ (Move.atTarget_swap hsource)
  · obtain ⟨side, hside⟩ := hseparated channel id hc hid
    refine ⟨side, fun p hp => ?_⟩
    have hfix : route moves p = p := by
      refine route_of_not_touches fun m hm htouch => hmoved ?_
      obtain ⟨source, rfl⟩ := (h.kinds m hm).eq_of_card hc hid hp htouch
      exact ⟨source, hm⟩
    rw [Function.comp_apply, hfix, ← Option.not_isSome_iff_eq_none, h.stamping.present, hside p hp]
    simp

end Contents

section Steps

variable {cards : CardCodec} {yaml : MetaCodec} {head disk : Path → Option Text} {channel : Text}
  {source : Side} {r r' : Repo} {env : Env}

/-- A rewriting that changes the stamp of a card only. -/
def Restamps (cards : CardCodec) (rewrite : Text → Except Text (Option Text)) : Prop :=
  ∀ old new, rewrite old = .ok (some new) →
    ∃ info via, cards.fromStr old = some info ∧ new = restamp cards via info

theorem stampForChannel_restamps (words : Text) : Restamps cards (stampForChannel cards words) := by
  intro old new h
  rw [stampForChannel] at h
  split at h
  · cases h
  · rename_i info hinfo
    cases h
    exact ⟨info, _, hinfo, rfl⟩

theorem clearStamp_restamps (words : Text) : Restamps cards (clearStamp cards words) := by
  intro old new h
  rw [clearStamp] at h
  split at h
  · cases h
  · rename_i info hinfo
    split at h
    · cases h
    · cases h
      exact ⟨info, _, hinfo, rfl⟩

theorem ChannelMoved.transfers {rewrite : Text → Except Text (Option Text)} {ids : List Text}
    (h : ChannelMoved rewrite source channel head disk ids r') (hrewrite : Restamps cards rewrite)
    (hc : '/' ∉ channel) : Transfers cards head disk (channelMoves source channel ids) where
  disjoint := channelMoves_disjoint h.once h.names
  kinds m hm := by
    rcases List.mem_append.mp hm with hcard | hfile
    · obtain ⟨id, hid, rfl⟩ := List.mem_map.mp hcard
      exact .card source channel id hc (h.names id hid)
    · rcases List.mem_cons.mp hfile with rfl | hlast
      · exact .thread source channel hc
      · rw [List.mem_singleton.mp hlast]
        exact .info source channel hc
  free m hm := (h.moved m hm).1
  stamping p := by
    by_cases hp : ∃ id ∈ ids, p = metaIn (cardAt source channel id)
    · obtain ⟨id, hid, rfl⟩ := hp
      obtain ⟨old, new, hold, hnew, hdisk⟩ := h.rewritten.cards id hid
      obtain ⟨info, via, hinfo, rfl⟩ := hrewrite old new hnew
      exact Or.inr ⟨source, channel, id, old, info, via, hc, h.names id hid, rfl, hold, hinfo, hdisk⟩
    · exact Or.inl (h.rewritten.others p fun id hid heq => hp ⟨id, hid, heq⟩)

/-- The metadata of one card with another stamp. -/
def stampOne (head : Path → Option Text) (path : Path) (text : Text) (p : Path) : Option Text :=
  if p = path then some text else head p

theorem stampOne_stamped {path : Path} (h : (head path).isSome = true) (text : Text) :
    Stamped (stampOne head path text) head [path] := by
  refine ⟨fun p hp => ?_, fun p => ?_, fun p hp => if_neg fun heq => hp (List.mem_singleton.mpr heq)⟩
  · rw [List.mem_singleton.mp hp, h]
  · rw [stampOne]
    split
    · rename_i heq
      rw [heq, h]
      rfl
    · rfl

/-- How the transfer of one card ends. -/
structure CardEnds (env : Env) (cards : CardCodec) (source : Side) (channel id : Text)
    (head : Path → Option Text) (e : Ending) : Prop where
  refused : RollsBack env → (∃ message, e.answer = .refused message) → Looks e.repo head head head
  moved : (∀ message, e.answer ≠ .refused message) → ∃ disk,
    Transfers cards head disk [moveCard source channel id] ∧
      Looks e.repo (disk ∘ route [moveCard source channel id]) (disk ∘ route [moveCard source channel id])
        (disk ∘ route [moveCard source channel id])

theorem cardEnds_refused {id message : Text} (h : RollsBack env → Looks r head head head) :
    CardEnds env cards source channel id head ⟨.refused message, r⟩ :=
  ⟨fun hrolls _ => h hrolls, fun hnot => absurd rfl (hnot message)⟩

theorem cardEnds_of_transferred {id : Text} {e : Ending}
    (htransfers : Transfers cards head disk [moveCard source channel id])
    (h : Transferred env disk head [moveCard source channel id] e) :
    CardEnds env cards source channel id head e :=
  ⟨h.refused, fun hmoved => ⟨disk, htransfers, (h.committed hmoved).1⟩⟩

theorem transferCard_ends {op dirFailed : Text} {via : Option ArchivedVia} {id old : Text}
    {info : CardMeta} (hseparated : Separated head) (hc : '/' ∉ channel) (hid : '/' ∉ id)
    (hwrite : ∀ id n, (env.card id).write ≠ .stopped n) (h : Looks r head head head)
    (hold : head (metaIn (cardAt source channel id)) = some old) (hinfo : cards.fromStr old = some info) :
    CardEnds env cards source channel id head
      (transferCard cards op dirFailed source via env channel id info r) := by
  rw [transferCard]
  simp only
  split
  · exact cardEnds_refused fun _ => h
  · rename_i n hn
    exact absurd hn (hwrite id n)
  · have hsome : (head (metaIn (cardAt source channel id))).isSome = true := by rw [hold]; rfl
    have hstamped := stampOne_stamped hsome (restamp cards via info)
    have hlooks : Looks ⟨writeFile r.worktree (metaIn (cardAt source channel id))
          (restamp cards via info), r.index, r.head⟩
        (stampOne head (metaIn (cardAt source channel id)) (restamp cards via info)) head head :=
      ⟨fun p => by rw [lookup_writeFile, h.worktree]; rfl, h.index, h.head⟩
    split
    · refine cardEnds_refused fun hrolls => ?_
      rw [hrolls.restore_eq]
      exact restore_clean hstamped.committed hstamped.others (fun p _ => rfl) hlooks
    · have hfree := hseparated.free hc hid ⟨_, under_inDir _ _, hsome⟩
      have hfreeDisk : Free (moveCard source channel id)
          (stampOne head (metaIn (cardAt source channel id)) (restamp cards via info)) :=
        free_congr (fun p => (hstamped.present p).symm) hfree
      have hone : [moveCard source channel id].Pairwise Disjoint := List.pairwise_singleton _ _
      have htouch : (moveCard source channel id).Touches (metaIn (cardAt source channel id)) :=
        Or.inl (under_inDir _ _)
      have hpaths : ∀ p, route [moveCard source channel id] p ∈ [metaIn (cardAt source channel id)] →
          p ∈ [metaIn (cardAt source.other channel id), threadIn (cardAt source.other channel id)] := by
        intro p hp
        have hback : p = (moveCard source channel id).swap (metaIn (cardAt source channel id)) := by
          rw [← List.mem_singleton.mp hp, route, route, Move.swap_swap]
        have hswap : (moveCard source channel id).swap (metaIn (cardAt source channel id)) =
            metaIn (cardAt source.other channel id) := by
          rw [metaIn]
          exact Move.swap_dir_inDir _ _ _ _
        rw [hback, hswap]
        exact List.mem_cons_self
      have hclear : ∀ m ∈ [(moveCard source channel id, "git mv failed: ".toList)].map Prod.fst,
          Clear (stampOne head (metaIn (cardAt source channel id)) (restamp cards via info)) m := by
        intro m hm a b apart heq
        rw [List.mem_singleton.mp hm]
        exact hfreeDisk
      refine cardEnds_of_transferred ⟨hone, fun m hm => ?_, fun m hm => ?_, fun p => ?_⟩
        (transact_transferred hstamped hclear hone (List.Perm.refl _) hpaths hlooks)
      · rw [List.mem_singleton.mp hm]
        exact .card source channel id hc hid
      · rw [List.mem_singleton.mp hm]
        exact hfreeDisk
      · by_cases hp : p = metaIn (cardAt source channel id)
        · exact Or.inr ⟨source, channel, id, old, info, via, hc, hid, hp, by rw [hp, hold], hinfo,
            if_pos hp⟩
        · exact Or.inl (if_neg hp)

theorem slash_not_mem_channel {name : Text} (h : checkChannelName name = .ok ()) : '/' ∉ name := by
  intro hmem
  rw [checkChannelName, checkSome_eq_ok_iff] at h
  cases herror : channelNameError name with
  | some e => cases h e herror
  | none =>
    rw [channelNameError] at herror
    split at herror
    · cases herror
    · split at herror
      · cases herror
      · split at herror
        · cases herror
        · rename_i hnone
          have hslash := List.find?_eq_none.mp hnone '/' hmem
          exact hslash (by decide)

theorem slash_not_mem_card {cardId : Text} (h : validateCardId cardId = .ok ()) : '/' ∉ cardId := by
  intro hmem
  rw [validateCardId] at h
  split at h
  · cases h
  · split at h
    · cases h
    · rename_i hnone
      have hslash := List.find?_eq_none.mp hnone '/' hmem
      exact hslash (by decide)

/-- How a call ends: with nothing changed, or with all files where they were or moved. -/
structure CallEnds (env : Env) (cards : CardCodec) (head : Path → Option Text) (e : Ending) : Prop where
  refused : RollsBack env → (∃ message, e.answer = .refused message) → Looks e.repo head head head
  moved : (∀ message, e.answer ≠ .refused message) → ∃ disk moves, Transfers cards head disk moves ∧
    Looks e.repo (disk ∘ route moves) (disk ∘ route moves) (disk ∘ route moves)

theorem callEnds_refused {message : Text} (h : Looks r head head head) :
    CallEnds env cards head ⟨.refused message, r⟩ :=
  ⟨fun _ _ => h, fun hnot => absurd rfl (hnot message)⟩

theorem ChannelEnds.callEnds {rewrite : Text → Except Text (Option Text)} {e : Ending}
    (h : ChannelEnds env rewrite source channel head e) (hrewrite : Restamps cards rewrite)
    (hc : '/' ∉ channel) : CallEnds env cards head e :=
  ⟨h.refused, fun hmoved => by
    obtain ⟨ids, disk, hchannel⟩ := h.moved hmoved
    exact ⟨disk, _, hchannel.transfers hrewrite hc, hchannel.looks⟩⟩

theorem CardEnds.callEnds {id : Text} {e : Ending} (h : CardEnds env cards source channel id head e) :
    CallEnds env cards head e :=
  ⟨h.refused, fun hmoved => by
    obtain ⟨disk, htransfers, hlooks⟩ := h.moved hmoved
    exact ⟨disk, _, htransfers, hlooks⟩⟩

/-- The metadata that a card handler has read. -/
theorem readCard_looks {dir cardId : Text} {info : CardMeta} (h : Looks r head head head)
    (hread : readCard cards r.worktree dir channel cardId = .ok info) :
    ∃ old, head (metaIn dir) = some old ∧ cards.fromStr old = some info := by
  rw [readCard, h.worktree] at hread
  split at hread
  · cases hread
  · rename_i old hold
    split at hread
    · rename_i info' hinfo
      cases hread
      exact ⟨old, hold, hinfo⟩
    · cases hread

theorem cardDir_eq (channel cardId : Text) : cardDir channel cardId = cardAt .active channel cardId := rfl

theorem archivedCardDir_eq (channel cardId : Text) :
    archivedCardDir channel cardId = cardAt .archived channel cardId := rfl

/-- An archived card is in its archive directory. -/
theorem relPath_of_archived {tree : FileMap} {channel cardId : Text} {located : LocatedCard}
    (h : locateCard tree channel cardId = some located) (harchived : ¬ located.isArchived = false) :
    located.relPath = archivedCardDir channel cardId := by
  rw [locateCard] at h
  split at h
  · cases h
    exact absurd rfl harchived
  · split at h
    · cases h
      rfl
    · cases h

theorem handle_ends {a : Action} (hseparated : Separated head)
    (hwrite : ∀ id n, (a.env.card id).write ≠ .stopped n) (h : Looks r head head head) :
    CallEnds a.env cards head (handle yaml cards a r) := by
  obtain ⟨call, users, env⟩ := a
  cases call with
  | archiveChannel channel author =>
    simp only [handle, handleArchiveChannel]
    split
    · exact callEnds_refused h
    · rename_i hcheck
      have hc := slash_not_mem_channel (bind_eq_ok_iff.mp hcheck).choose_spec.1
      exact (moveChannel_ends hseparated hc hwrite h).callEnds (stampForChannel_restamps _) hc
  | unarchiveChannel channel author =>
    simp only [handle, handleUnarchiveChannel]
    split
    · exact callEnds_refused h
    · rename_i hcheck
      have hc := slash_not_mem_channel (bind_eq_ok_iff.mp hcheck).choose_spec.1
      exact (moveChannel_ends hseparated hc hwrite h).callEnds (clearStamp_restamps _) hc
  | archiveCard channel cardId author =>
    simp only [handle, handleArchiveCard]
    split
    · exact callEnds_refused h
    · rename_i info hcheck
      rw [checkArchiveCard] at hcheck
      obtain ⟨-, hcheck⟩ := then_eq_ok_iff.mp hcheck
      obtain ⟨-, hcheck⟩ := then_eq_ok_iff.mp hcheck
      obtain ⟨hchannel, hcheck⟩ := then_eq_ok_iff.mp hcheck
      obtain ⟨hcard, hcheck⟩ := then_eq_ok_iff.mp hcheck
      split at hcheck
      · cases hcheck
      · rename_i located hlocated
        obtain ⟨hactive, hcheck⟩ := then_eq_ok_iff.mp hcheck
        obtain ⟨info', hread, hcheck⟩ := bind_eq_ok_iff.mp hcheck
        obtain ⟨-, hcheck⟩ := then_eq_ok_iff.mp hcheck
        cases hcheck
        rw [relPath_of_active hlocated (refuse_eq_ok_iff.mp hactive), cardDir_eq] at hread
        obtain ⟨old, hold, hinfo⟩ := readCard_looks h hread
        exact (transferCard_ends hseparated (slash_not_mem_channel hchannel)
          (slash_not_mem_card hcard) hwrite h hold hinfo).callEnds
  | unarchiveCard channel cardId author =>
    simp only [handle, handleUnarchiveCard]
    split
    · exact callEnds_refused h
    · rename_i info hcheck
      rw [checkUnarchiveCard] at hcheck
      obtain ⟨-, hcheck⟩ := then_eq_ok_iff.mp hcheck
      obtain ⟨hchannel, hcheck⟩ := then_eq_ok_iff.mp hcheck
      obtain ⟨hcard, hcheck⟩ := then_eq_ok_iff.mp hcheck
      split at hcheck
      · cases hcheck
      · rename_i located hlocated
        obtain ⟨harchived, hcheck⟩ := then_eq_ok_iff.mp hcheck
        obtain ⟨-, hcheck⟩ := then_eq_ok_iff.mp hcheck
        obtain ⟨info', hread, hcheck⟩ := bind_eq_ok_iff.mp hcheck
        obtain ⟨-, hcheck⟩ := then_eq_ok_iff.mp hcheck
        cases hcheck
        rw [relPath_of_archived hlocated (refuse_eq_ok_iff.mp harchived), archivedCardDir_eq] at hread
        obtain ⟨old, hold, hinfo⟩ := readCard_looks h hread
        exact (transferCard_ends hseparated (slash_not_mem_channel hchannel)
          (slash_not_mem_card hcard) hwrite h hold hinfo).callEnds

/-- The files of the last commit. -/
def committed (r : Repo) (p : Path) : Option Text := r.head.lookup p

theorem looks_of_clean (h : Clean r) : Looks r (committed r) (committed r) (committed r) :=
  clean_iff_looks.mp h

/-- Wherever a call is refused, be it behind any of its stamps, moves or the commit: the files on disk,
the staged and the committed ones are those from before, if the commands of the rollback succeed. -/
theorem refused_call_changes_nothing {a : Action} {message : Text} (hclean : Clean r)
    (hseparated : Separated (committed r)) (hwrite : ∀ id n, (a.env.card id).write ≠ .stopped n)
    (hrolls : RollsBack a.env) (h : (handle yaml cards a r).answer = .refused message) :
    Agree (handle yaml cards a r).repo.worktree r.worktree ∧
      Agree (handle yaml cards a r).repo.index r.index ∧
        Agree (handle yaml cards a r).repo.head r.head := by
  have hlooks := (@handle_ends cards yaml (committed r) r a hseparated hwrite
    (looks_of_clean hclean)).refused hrolls ⟨message, h⟩
  exact ⟨fun p => (hlooks.worktree p).trans (hclean.1 p).symm,
    fun p => (hlooks.index p).trans (hclean.2 p).symm, hlooks.head⟩

end Steps

section RoundTrip

variable {cards : CardCodec} {yaml : MetaCodec} {channel words words' : Text} {r r₁ r₂ : Repo}
  {head disk disk₁ after : Path → Option Text} {ids ids₁ : List Text}

end RoundTrip

section Samples
open ThreadMerge (newYear)
open ChannelMembership (tableYaml generalChannel)

/-- Nothing is archived where every file is among the active channels. -/
theorem lookup_archived {tree : FileMap} (h : ∀ e ∈ tree, e.1.head? = some 'c') {channel id : Text}
    {p : Path} (hp : Under (cardAt .archived channel id) p) : tree.lookup p = none := by
  obtain ⟨rest, rfl⟩ := hp.exists_rest
  cases hlookup : tree.lookup (inDir (cardAt .archived channel id) rest) with
  | none => rfl
  | some content =>
    have hhead := h _ (mem_of_lookup hlookup)
    cases hhead

def fixRoof : CardMeta :=
  ⟨"roof".toList, "general".toList, .todo, [], none, "alice".toList, newYear, newYear, none⟩

def roofCards : CardCodec := tableCards [fixRoof, { fixRoof with archivedVia := some .channel }]

def roofId : Text := "20260101-000000-001".toList

def roofTree : FileMap :=
  generalChannel ++ [(metaIn (cardAt .active "general".toList roofId), blockCard fixRoof),
    (threadIn (cardAt .active "general".toList roofId), [])]

def roofRepo : Repo := ⟨roofTree, roofTree, roofTree⟩

theorem roofRepo_clean : Clean roofRepo := ⟨fun _ => rfl, fun _ => rfl⟩

theorem nothing_archived {channel id : Text} {p : Path} (hp : Under (cardAt .archived channel id) p) :
    committed roofRepo p = none :=
  @lookup_archived roofTree (by decide +kernel) _ _ _ hp

theorem roofRepo_separated : Separated (committed roofRepo) :=
  fun _ _ _ _ => ⟨.archived, fun _ hp => nothing_archived hp⟩

/-- Nothing goes wrong. -/
def calm : Env := ⟨none, none, fun _ => ⟨none, none, .complete⟩, none, fun _ => none, none, none, [],
  ⟨fun _ => true, fun _ => true, fun _ => true⟩⟩

/-- The commit fails when the card has been stamped and all is moved. -/
def locked : Env := { calm with commitError := some "index.lock exists".toList }

theorem locked_rollsBack : RollsBack locked := ⟨fun _ => rfl, fun _ => rfl, fun _ => rfl⟩

def archiving (env : Env) : Action := ⟨.archiveChannel "general".toList "alice".toList, sampleUsers, env⟩

theorem refused_call_changes_nothing_locked :
    (handle tableYaml roofCards (archiving locked) roofRepo).answer =
        .refused "archive commit failed: index.lock exists".toList ∧
      Agree (handle tableYaml roofCards (archiving locked) roofRepo).repo.worktree roofTree ∧
        Agree (handle tableYaml roofCards (archiving locked) roofRepo).repo.index roofTree ∧
          Agree (handle tableYaml roofCards (archiving locked) roofRepo).repo.head roofTree := by
  have hanswer : (handle tableYaml roofCards (archiving locked) roofRepo).answer =
      .refused "archive commit failed: index.lock exists".toList := by decide +kernel
  exact ⟨hanswer, refused_call_changes_nothing roofRepo_clean roofRepo_separated
    (fun _ _ h => by cases h) locked_rollsBack hanswer⟩

def archived : Ending :=
  handleArchiveChannel tableYaml roofCards sampleUsers calm "general".toList "alice".toList roofRepo

end Samples

end ChannelArchive
