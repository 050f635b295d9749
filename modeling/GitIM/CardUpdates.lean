import GitIM.CommitIsolation

/-!
# Updates of one card, side by side

An update reads the metadata of a card, edits it and writes it back, without a lock. As
long as no call writes while another one has read the card and is still to write it, the
file holds the edits of all calls in the order of their writes.
-/

namespace CardUpdates

open TextLines FileTree Checked Runs ConflictReplay Channels GitIndex Cards CommitCalls

section Order
variable (users : List Text)

/-- One call in the order of the writes, with the time it read from the clock. -/
structure Turn where
  call : Nat
  req : UpdateRequest
  now : Text

/-- The calls applied one after the other. -/
def applyAll : List Turn → CardMeta → Except Text CardMeta
  | [], info => .ok info
  | t :: rest, info => do
    let edited ← editCard users t.req t.now info
    applyAll rest edited

variable {users}

theorem applyAll_append_eq_ok {a b : List Turn} {info final : CardMeta} :
    applyAll users (a ++ b) info = .ok final ↔
      ∃ middle, applyAll users a info = .ok middle ∧ applyAll users b middle = .ok final := by
  induction a generalizing info with
  | nil =>
    constructor
    · intro h
      exact ⟨info, rfl, h⟩
    · rintro ⟨middle, hmiddle, h⟩
      cases hmiddle
      exact h
  | cons t a ih =>
    rw [List.cons_append, applyAll, applyAll, bind_eq_ok_iff]
    constructor
    · rintro ⟨edited, hedited, hrest⟩
      obtain ⟨middle, hmiddle, h⟩ := ih.mp hrest
      exact ⟨middle, bind_eq_ok_iff.mpr ⟨edited, hedited, hmiddle⟩, h⟩
    · rintro ⟨middle, hmiddle, h⟩
      obtain ⟨edited, hedited, hrest⟩ := bind_eq_ok_iff.mp hmiddle
      exact ⟨edited, hedited, ih.mpr ⟨middle, hrest, h⟩⟩

end Order

section Histories

def started : Action → Option Request
  | .start req => some req
  | .next _ _ => none

/-- The requests of the calls, in the order of their arrival. -/
def requests (past : List Action) : List Request := past.filterMap started

/-- The directory of the card that a request is about. -/
def dirOf (req : UpdateRequest) : Path := cardDir req.channel req.cardId

/-- Each turn is one call on the card, with a time at which the call took a step. -/
structure Turns (past : List Action) (dir : Path) (order : List Turn) : Prop where
  once : (order.map Turn.call).Nodup
  requested : ∀ t ∈ order, (requests past)[t.call]? = some (.updateCard t.req) ∧ dirOf t.req = dir
  clocked : ∀ t ∈ order, ∃ env, .next t.call env ∈ past ∧ env.now = t.now

theorem requests_append (past : List Action) (a : Action) :
    requests (past ++ [a]) = requests past ++ (started a).toList := by
  rw [requests, List.filterMap_append]
  cases h : started a <;> simp [h, requests]

theorem requests_next (past : List Action) (c : Nat) (env : Env) :
    requests (past ++ [.next c env]) = requests past := by
  rw [requests_append]
  exact List.append_nil _

theorem requests_start (past : List Action) (req : Request) :
    requests (past ++ [.start req]) = requests past ++ [req] :=
  requests_append past (.start req)

/-- A turn stays one when further requests arrive and further steps are taken. -/
theorem Turns.mono {past past' : List Action} {dir : Path} {order : List Turn}
    (hpast : ∀ a ∈ past, a ∈ past') (hrequests : requests past <+: requests past')
    (h : Turns past dir order) : Turns past' dir order := by
  refine ⟨h.once, fun t ht => ?_, fun t ht => ?_⟩
  · obtain ⟨hreq, hdir⟩ := h.requested t ht
    obtain ⟨more, hmore⟩ := hrequests
    have hlt := (List.getElem?_eq_some_iff.mp hreq).1
    exact ⟨by rw [← hmore, List.getElem?_append_left hlt, hreq], hdir⟩
  · obtain ⟨env, henv, hnow⟩ := h.clocked t ht
    exact ⟨env, hpast _ henv, hnow⟩

end Histories

section Guard

/-- The file that a call is about to write. -/
def pendingWrite : Phase → Option Path
  | .writing _ write _ => some write.path
  | _ => none

/-- A call writes a file only while no other call is about to write it. -/
def Guard (w : World) : Action → Prop
  | .start _ => True
  | .next c _ => ∀ p ∈ w.calls[c]?.bind pendingWrite,
      ∀ d < w.calls.length, d ≠ c → w.calls[d]?.bind pendingWrite ≠ some p

instance decidableGuard (w : World) : DecidablePred (Guard w)
  | .start _ => isTrue trivial
  | .next c _ => inferInstanceAs (Decidable (∀ p ∈ w.calls[c]?.bind pendingWrite,
      ∀ d < w.calls.length, d ≠ c → w.calls[d]?.bind pendingWrite ≠ some p))

end Guard

section Invariant
variable (users : List Text) (cards : CardCodec) (dir : Path)

/-- A job that moves nothing and is no message. -/
def Plain (job : Job) : Prop := job.move = none ∧ job.message = false

/-- Where a call for `req` stands, while the card holds `info`: a call that is about to write has
its edit of just that text. -/
def CallOk (past : List Action) (order : List Turn) (info : CardMeta) (c : Nat)
    (req : UpdateRequest) : Phase → Prop
  | .checking r => r = .updateCard req ∧ c ∉ order.map Turn.call
  | .reading task d => task = .update req ∧ d = dirOf req ∧ c ∉ order.map Turn.call
  | .writing job write rest => rest = [] ∧ Plain job ∧ c ∉ order.map Turn.call ∧
      ∃ env edited content, .next c env ∈ past ∧
        write = .replace (metaIn (dirOf req)) content "card meta".toList ∧
        (dirOf req = dir → content = cards.toStr edited ∧
          editCard users req env.now info = .ok edited)
  | .adding job => Plain job ∧ (dirOf req = dir → c ∈ order.map Turn.call)
  | .committing job => Plain job ∧ (dirOf req = dir → c ∈ order.map Turn.call)
  | .pushing _ => dirOf req = dir → c ∈ order.map Turn.call
  | .answered (.done _) => dirOf req = dir → c ∈ order.map Turn.call
  | _ => False

/-- The card holds the edits of the calls that have written, in the order of their writes. -/
def Ordered (first : CardMeta) (w : World) (past : List Action) : Prop :=
  ∃ order info, Turns past dir order ∧ applyAll users order first = .ok info ∧
    (w.repo.worktree.lookup (metaIn dir)).bind cards.fromStr = some info ∧
    w.calls.length = (requests past).length ∧
    ∀ c phase, w.calls[c]? = some phase → ∃ req, (requests past)[c]? = some (.updateCard req) ∧
      CallOk users cards dir past order info c req phase

def NoError (w : World) : Prop := ∀ message, .answered (.error message) ∉ w.calls

def OnlyUpdates (past : List Action) : Prop := ∀ r ∈ requests past, ∃ req, r = .updateCard req

/-- What the run keeps as long as all requests are updates and none of them fails. -/
def Inv (first : CardMeta) (p : World × List Action) : Prop :=
  OnlyUpdates p.2 → NoError p.1 → Ordered users cards dir first p.1 p.2

variable {users cards dir}

theorem CallOk.mono {past past' : List Action} {order : List Turn} {info : CardMeta} {c : Nat}
    {req : UpdateRequest} {phase : Phase} (hpast : ∀ a ∈ past, a ∈ past')
    (h : CallOk users cards dir past order info c req phase) :
    CallOk users cards dir past' order info c req phase := by
  cases phase with
  | writing job write rest =>
    obtain ⟨hrest, hplain, hnot, env, edited, content, henv, hwrite⟩ := h
    exact ⟨hrest, hplain, hnot, env, edited, content, hpast _ henv, hwrite⟩
  | checking r => exact h
  | locking m => exact h
  | reading task d => exact h
  | moving job card => exact h
  | adding job => exact h
  | committing job => exact h
  | movingBack card message => exact h
  | resetting card message => exact h
  | checkingOut card message => exact h
  | pushing job => exact h
  | answered outcome => cases outcome <;> exact h

/-- A write of another call, after which the card holds `info'`: it concerns those calls only that
are about to write the card, and there are none. -/
theorem CallOk.other {past : List Action} {order : List Turn} {info info' : CardMeta} {c : Nat}
    {req : UpdateRequest} {phase : Phase} {t : Turn} (hne : t.call ≠ c)
    (hnone : pendingWrite phase ≠ some (metaIn dir))
    (h : CallOk users cards dir past order info c req phase) :
    CallOk users cards dir past (order ++ [t]) info' c req phase := by
  have hmem : c ∈ (order ++ [t]).map Turn.call ↔ c ∈ order.map Turn.call := by
    rw [List.map_append, List.mem_append, List.map_singleton, List.mem_singleton]
    exact or_iff_left hne.symm
  cases phase with
  | writing job write rest =>
    obtain ⟨hrest, hplain, hnot, env, edited, content, henv, hwrite, _⟩ := h
    refine ⟨hrest, hplain, fun hc => hnot (hmem.mp hc), env, edited, content, henv, hwrite,
      fun hdir => absurd ?_ hnone⟩
    rw [pendingWrite, hwrite, ← hdir]
    rfl
  | checking r => exact ⟨h.1, fun hc => h.2 (hmem.mp hc)⟩
  | reading task d => exact ⟨h.1, h.2.1, fun hc => h.2.2 (hmem.mp hc)⟩
  | adding job => exact ⟨h.1, fun hdir => hmem.mpr (h.2 hdir)⟩
  | committing job => exact ⟨h.1, fun hdir => hmem.mpr (h.2 hdir)⟩
  | pushing job => exact fun hdir => hmem.mpr (h hdir)
  | answered outcome =>
    cases outcome with
    | done job => exact fun hdir => hmem.mpr (h hdir)
    | error message => exact h
    | committed job => exact h
    | written job => exact h
  | locking m => exact h
  | moving job card => exact h
  | movingBack card message => exact h
  | resetting card message => exact h
  | checkingOut card message => exact h

end Invariant

section Steps
variable {Json : Type} {json : EventJson Json} {yaml : MetaCodec} {users : List Text}
  {cards : CardCodec} {dir : Path} {first : CardMeta} {w w' : World} {past : List Action}
  {c : Nat} {env : Env} {phase : Phase}

theorem mem_past_next {a : Action} (h : a ∈ past) : a ∈ past ++ [.next c env] :=
  List.mem_append_left _ h

theorem noError_fails {message : Text} (hc : w.calls[c]? = some phase)
    (hcalls : w'.calls = w.calls.set c (.answered (.error message))) (hno : NoError w') : False := by
  have hlt : c < w.calls.length := (List.getElem?_eq_some_iff.mp hc).1
  exact hno message (hcalls ▸ List.mem_set hlt _)

/-- A call that has answered takes no further step. -/
theorem error_mem_of_advance {message : Text} (hc : w.calls[c]? = some phase)
    (hstep : advance json yaml cards users w c env phase = some w')
    (hmem : .answered (.error message) ∈ w.calls) : .answered (.error message) ∈ w'.calls := by
  obtain ⟨phase', hset⟩ := calls_of_advance hstep
  have hne : phase ≠ .answered (.error message) := by
    rintro rfl
    cases hstep
  obtain ⟨d, hd⟩ := List.mem_iff_getElem?.mp hmem
  have hdc : c ≠ d := by
    rintro rfl
    rw [hc] at hd
    exact hne (Option.some.inj hd)
  rw [hset]
  exact List.mem_of_getElem? ((List.getElem?_set_ne hdc).trans hd)

/-- A step of one call that leaves the card and the order of the writes alone. -/
theorem ordered_goto {order : List Turn} {info : CardMeta} {req : UpdateRequest} {phase' : Phase}
    (hturns : Turns past dir order) (happly : applyAll users order first = .ok info)
    (hread : (w.repo.worktree.lookup (metaIn dir)).bind cards.fromStr = some info)
    (hlen : w.calls.length = (requests past).length)
    (hcalls : ∀ d phase, w.calls[d]? = some phase → ∃ req,
      (requests past)[d]? = some (.updateCard req) ∧
        CallOk users cards dir past order info d req phase)
    (hc : w.calls[c]? = some phase) (hreq : (requests past)[c]? = some (.updateCard req))
    (hset : w'.calls = w.calls.set c phase')
    (hsame : w'.repo.worktree.lookup (metaIn dir) = w.repo.worktree.lookup (metaIn dir))
    (hok : CallOk users cards dir (past ++ [.next c env]) order info c req phase') :
    Ordered users cards dir first w' (past ++ [.next c env]) := by
  have hlt : c < w.calls.length := (List.getElem?_eq_some_iff.mp hc).1
  refine ⟨order, info, ?_, happly, hsame ▸ hread, ?_, fun d phase hd => ?_⟩
  · exact hturns.mono (fun _ ha => mem_past_next ha) (requests_next past c env ▸ List.prefix_refl _)
  · rw [hset, List.length_set, requests_next, hlen]
  · rw [requests_next]
    by_cases hdc : d = c
    · subst hdc
      rw [hset, List.getElem?_set_self hlt] at hd
      cases hd
      exact ⟨req, hreq, hok⟩
    · rw [hset, List.getElem?_set_ne (fun heq => hdc heq.symm)] at hd
      obtain ⟨req', hreq', hok'⟩ := hcalls d phase hd
      exact ⟨req', hreq', hok'.mono fun _ ha => mem_past_next ha⟩

theorem metaIn_injective {a b : Path} (h : metaIn a = metaIn b) : a = b := by
  have h' : (a ++ ['/']) ++ "card.meta.yaml".toList = (b ++ ['/']) ++ "card.meta.yaml".toList := h
  exact List.append_cancel_right (List.append_cancel_right h')

theorem perform_replace_ok {tree after : FileMap} {path : Path} {content what : Text}
    {result : WriteResult}
    (h : (FileWrite.replace path content what).perform tree result = (after, .ok ())) :
    after = writeFile tree path content := by
  cases result with
  | complete =>
    cases h
    rfl
  | notOpened => cases h
  | stopped n => cases h

/-- The write of a call: its turn comes after those before it. -/
theorem ordered_write (hlaw : ∀ m, cards.fromStr (cards.toStr m) = some m)
    (h : Ordered users cards dir first w past) {job : Job} {write : FileWrite}
    {rest : List FileWrite} (hc : w.calls[c]? = some (.writing job write rest))
    (hguard : Guard w (.next c env))
    (hstep : advance json yaml cards users w c env (.writing job write rest) = some w')
    (hno : NoError w') : Ordered users cards dir first w' (past ++ [.next c env]) := by
  obtain ⟨order, info, hturns, happly, hread, hlen, hcalls⟩ := h
  obtain ⟨req, hreq, rfl, hplain, hnot, env', edited, content, henv, rfl, hedit⟩ := hcalls c _ hc
  have hlt : c < w.calls.length := (List.getElem?_eq_some_iff.mp hc).1
  rw [advance] at hstep
  split at hstep
  · rename_i after hperform
    cases hstep
    have hafter := perform_replace_ok hperform
    have hphase : writesLeft job [] = .adding job := by
      rw [writesLeft, afterWrites, hplain.1]
    by_cases hdir : dirOf req = dir
    · obtain ⟨rfl, hedited⟩ := hedit hdir
      subst hdir
      refine ⟨order ++ [⟨c, req, env'.now⟩], edited, ⟨?_, ?_, ?_⟩, ?_, ?_, ?_, ?_⟩
      · rw [List.map_append, List.map_singleton]
        exact List.nodup_append.mpr ⟨hturns.once, List.nodup_singleton c, by
          rintro a ha b hb rfl
          have hac : a = c := List.mem_singleton.mp hb
          exact hnot (hac ▸ ha)⟩
      · rw [requests_next]
        intro t ht
        rcases List.mem_append.mp ht with ht | ht
        · exact hturns.requested t ht
        · cases List.mem_singleton.mp ht
          exact ⟨hreq, rfl⟩
      · intro t ht
        rcases List.mem_append.mp ht with ht | ht
        · obtain ⟨e, he, hnow⟩ := hturns.clocked t ht
          exact ⟨e, mem_past_next he, hnow⟩
        · cases List.mem_singleton.mp ht
          exact ⟨env', mem_past_next henv, rfl⟩
      · exact applyAll_append_eq_ok.mpr ⟨info, happly, bind_eq_ok_iff.mpr ⟨edited, hedited, rfl⟩⟩
      · change (after.lookup _).bind _ = _
        rw [hafter, lookup_writeFile, if_pos rfl]
        exact hlaw edited
      · change (w.calls.set c _).length = _
        rw [List.length_set, requests_next, hlen]
      · intro d phase hd
        rw [requests_next]
        by_cases hdc : d = c
        · subst hdc
          change (w.calls.set d _)[d]? = _ at hd
          rw [List.getElem?_set_self hlt, hphase] at hd
          cases hd
          refine ⟨req, hreq, hplain, fun _ => ?_⟩
          rw [List.map_append]
          exact List.mem_append_right _ (List.mem_singleton_self d)
        · change (w.calls.set c _)[d]? = _ at hd
          rw [List.getElem?_set_ne (fun heq => hdc heq.symm)] at hd
          obtain ⟨req', hreq', hok'⟩ := hcalls d phase hd
          have hpending : pendingWrite phase ≠ some (metaIn (dirOf req)) := by
            have hp := hguard (metaIn (dirOf req)) (by rw [hc]; rfl) d
              (List.getElem?_eq_some_iff.mp hd).1 hdc
            rwa [hd] at hp
          exact ⟨req', hreq',
            (hok'.mono fun _ ha => mem_past_next ha).other (fun heq => hdc heq.symm) hpending⟩
    · refine ordered_goto hturns happly hread hlen hcalls hc hreq rfl ?_
        (hphase ▸ ⟨hplain, fun heq => absurd heq hdir⟩)
      change after.lookup _ = _
      rw [hafter, lookup_writeFile, if_neg fun heq => hdir (metaIn_injective heq).symm]
  · cases hstep
    exact (noError_fails hc rfl hno).elim

/-- Every other step of a call. -/
theorem ordered_advance (hlaw : ∀ m, cards.fromStr (cards.toStr m) = some m)
    (h : Ordered users cards dir first w past) (hc : w.calls[c]? = some phase)
    (hguard : Guard w (.next c env))
    (hstep : advance json yaml cards users w c env phase = some w') (hno : NoError w') :
    Ordered users cards dir first w' (past ++ [.next c env]) := by
  have hself : Action.next c env ∈ past ++ [Action.next c env] :=
    List.mem_append_right _ (List.mem_singleton_self _)
  have hordered := h
  obtain ⟨order, info, hturns, happly, hread, hlen, hcalls⟩ := h
  obtain ⟨req, hreq, hok⟩ := hcalls c phase hc
  cases phase with
  | checking r =>
    obtain ⟨rfl, hnot⟩ := hok
    rw [advance] at hstep
    split at hstep
    · cases hstep
      exact (noError_fails hc rfl hno).elim
    · rename_i phase hphase
      cases hstep
      rw [check] at hphase
      obtain ⟨d, hd, hphase⟩ := bind_eq_ok_iff.mp hphase
      cases hphase
      exact ordered_goto hturns happly hread hlen hcalls hc hreq rfl rfl
        ⟨rfl, findForUpdate_eq_ok hd, hnot⟩
  | reading task d =>
    obtain ⟨rfl, rfl, hnot⟩ := hok
    rw [advance] at hstep
    split at hstep
    · cases hstep
      exact (noError_fails hc rfl hno).elim
    · rename_i job hjob
      cases hstep
      rw [prepareTask] at hjob
      obtain ⟨seen, hseen, hjob⟩ := bind_eq_ok_iff.mp hjob
      obtain ⟨edited, hedited, hjob⟩ := bind_eq_ok_iff.mp hjob
      cases hjob
      refine ordered_goto hturns happly hread hlen hcalls hc hreq rfl rfl
        ⟨rfl, ⟨rfl, rfl⟩, hnot, env, edited, cards.toStr edited, hself, rfl, fun hdir => ?_⟩
      have hinfo : seen = info := by
        have hsame := readCard_eq_ok hseen
        rw [hdir, hread] at hsame
        exact (Option.some.inj hsame).symm
      exact ⟨rfl, hinfo ▸ hedited⟩
  | writing job write rest => exact ordered_write hlaw hordered hc hguard hstep hno
  | adding job =>
    obtain ⟨hplain, hwritten⟩ := hok
    rw [advance] at hstep
    split at hstep
    · rename_i repo hadd
      cases hstep
      have hrepo := add_eq_some (fromOption_eq_some hadd)
      exact ordered_goto hturns happly hread hlen hcalls hc hreq rfl (by rw [hrepo]; rfl)
        ⟨hplain, hwritten⟩
    · cases hstep
      rw [commitFailed, hplain.1, hplain.2] at hno
      exact (noError_fails hc rfl hno).elim
  | committing job =>
    obtain ⟨hplain, hwritten⟩ := hok
    rw [advance] at hstep
    split at hstep
    · rename_i repo hcommit
      obtain ⟨_, hrepo⟩ := commit_eq_some_iff.mp (fromOption_eq_some hcommit)
      rw [hplain.2] at hstep
      cases hstep
      exact ordered_goto hturns happly hread hlen hcalls hc hreq rfl (by rw [hrepo]; rfl) hwritten
    · cases hstep
      rw [commitFailed, hplain.1, hplain.2] at hno
      exact (noError_fails hc rfl hno).elim
  | pushing job =>
    rw [advance] at hstep
    split at hstep
    · cases hstep
      exact ordered_goto hturns happly hread hlen hcalls hc hreq rfl rfl hok
    · cases hstep
      exact (noError_fails hc rfl hno).elim
  | answered outcome => cases hstep
  | locking m => exact hok.elim
  | moving job card => exact hok.elim
  | movingBack card message => exact hok.elim
  | resetting card message => exact hok.elim
  | checkingOut card message => exact hok.elim

/-- A call that arrives waits for its turn. -/
theorem ordered_start (h : Ordered users cards dir first w past) (req : UpdateRequest) :
    Ordered users cards dir first { w with calls := w.calls ++ [.checking (.updateCard req)] }
      (past ++ [.start (.updateCard req)]) := by
  obtain ⟨order, info, hturns, happly, hread, hlen, hcalls⟩ := h
  have hpast : ∀ a ∈ past, a ∈ past ++ [.start (.updateCard req)] :=
    fun _ ha => List.mem_append_left _ ha
  refine ⟨order, info, ?_, happly, hread, ?_, fun c phase hc => ?_⟩
  · exact hturns.mono hpast (requests_start past _ ▸ List.prefix_append _ _)
  · rw [requests_start, List.length_append, List.length_append, hlen]
    rfl
  · change (w.calls ++ [Phase.checking (.updateCard req)])[c]? = some phase at hc
    rw [requests_start]
    rcases Nat.lt_or_ge c w.calls.length with hlt | hge
    · rw [List.getElem?_append_left hlt] at hc
      obtain ⟨req', hreq', hok⟩ := hcalls c phase hc
      exact ⟨req', by rw [List.getElem?_append_left (hlen ▸ hlt), hreq'], hok.mono hpast⟩
    · rw [List.getElem?_append_right hge] at hc
      have hzero : c - w.calls.length = 0 := by
        have hlast := (List.getElem?_eq_some_iff.mp hc).1
        rw [List.length_singleton] at hlast
        omega
      rw [hzero] at hc
      cases hc
      refine ⟨req, ?_, rfl, fun hmem => ?_⟩
      · rw [List.getElem?_append_right (hlen ▸ hge), ← hlen, hzero]
        rfl
      · obtain ⟨t, ht, rfl⟩ := List.mem_map.mp hmem
        have hlt := (List.getElem?_eq_some_iff.mp (hturns.requested t ht).1).1
        omega

theorem inv_step (hlaw : ∀ m, cards.fromStr (cards.toStr m) = some m)
    {p q : World × List Action} {a : Action} (h : Inv users cards dir first p)
    (hguard : Guard p.1 a) (hstep : traced (step json yaml cards users) p a = some q) :
    Inv users cards dir first q := by
  obtain ⟨w, past⟩ := p
  obtain ⟨w', past'⟩ := q
  obtain ⟨hw, hpast⟩ := traced_eq_some hstep
  subst hpast
  intro honly hno
  have honly' : OnlyUpdates past := by
    intro r hr
    apply honly r
    rw [requests_append]
    exact List.mem_append_left _ hr
  cases a with
  | start r =>
    obtain ⟨req, rfl⟩ := honly r (by
      rw [requests_start]
      exact List.mem_append_right _ (List.mem_singleton_self r))
    cases hw
    exact ordered_start (h honly' fun message hmem =>
      hno message (List.mem_append_left _ hmem)) req
  | next c env =>
    obtain ⟨phase, hc, hadvance⟩ := Option.bind_eq_some_iff.mp hw
    refine ordered_advance hlaw (h honly' fun message hmem => ?_) hc hguard hadvance hno
    exact hno message (error_mem_of_advance hc hadvance hmem)

end Steps

section Result
variable {Json : Type}

end Result

section Samples
open ThreadMerge (newYear)
open DmThreads (sampleUsers)
open ChannelMembership (objectJson tableYaml generalChannel)
open CommitIsolation (sampleCard sampleEnv idOne steps)

def isDone : Phase → Bool
  | .answered (.done _) => true
  | _ => false

def card : CardMeta := sampleCard "one".toList

def setStatus : UpdateRequest :=
  ⟨"general".toList, idOne, some "doing".toList, none, none, "alice".toList⟩

def setLabels : UpdateRequest :=
  ⟨"general".toList, idOne, none, some ["bug".toList], none, "bob".toList⟩

section TwoCalls
variable {past : List Action}

end TwoCalls

/-- Both calls read the card before either writes. -/
def overlapping : List Action :=
  [.start (.updateCard setStatus), .start (.updateCard setLabels)] ++ steps 0 2 [] ++
    steps 1 2 [] ++ steps 0 4 [] ++ steps 1 4 []

end Samples

end CardUpdates
