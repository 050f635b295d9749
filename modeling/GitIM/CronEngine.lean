import GitIM.Channels

/-!
# The cron engine

At every tick the engine looks through the directories of the cron specs and fires those
that are due: it writes one thread, named after the time for which it was scheduled, and
commits it. The files themselves are the record of what has been fired. Times are
nanoseconds; what the clock, the file system and git answer is part of the tick.
-/

namespace CronEngine

open TextLines TextScan FileTree Runs ThreadFormat Channels

section Names

/-- The calendar library: RFC 3339 with whole seconds and a trailing `Z`, its parser, and the
compact form of message headers. -/
structure Chrono where
  toRfc3339 : Int → Text
  fromRfc3339 : Text → Option Int
  compact : Int → Text

def second : Int := 1000000000

/-- The library reads back what it writes for this time: a date without `T` and colons, a `T`, and
a time without hyphens. -/
structure ReadsBack (chrono : Chrono) (t : Int) : Prop where
  shape : ∃ date time, chrono.toRfc3339 t = date ++ 'T' :: time ∧ 'T' ∉ date ∧ ':' ∉ date ∧
    '-' ∉ time
  back : chrono.fromRfc3339 (chrono.toRfc3339 t) = some t

variable (chrono : Chrono)

def formatThreadFilenameTs (ts : Int) : Text :=
  (chrono.toRfc3339 ts).map fun c => if c = ':' then '-' else c

def parseThreadFilenameTs (stem : Text) : Option Int :=
  (splitOnce 'T' stem).bind fun parts =>
    chrono.fromRfc3339 (parts.1 ++ 'T' :: parts.2.map fun c => if c = '-' then ':' else c)

def fileName (ts : Int) : Text := formatThreadFilenameTs chrono ts ++ ".thread".toList

/-- The time of a fire that the name of a file stands for. -/
def fireOf (name : Text) : Option Int :=
  (stripSuffix ".thread".toList name).bind (parseThreadFilenameTs chrono)

theorem map_swap {a b : Char} {t : Text} (h : b ∉ t) :
    (t.map fun c => if c = a then b else c).map (fun c => if c = b then a else c) = t := by
  rw [List.map_map]
  conv_rhs => rw [← List.map_id t]
  apply List.map_congr_left
  intro c hc
  have hne : c ≠ b := fun heq => h (heq ▸ hc)
  by_cases hca : c = a
  · simp [hca]
  · simp [hca, hne]

theorem map_of_not_mem {a b : Char} {t : Text} (h : a ∉ t) :
    t.map (fun c => if c = a then b else c) = t := by
  conv_rhs => rw [← List.map_id t]
  apply List.map_congr_left
  intro c hc
  have hne : c ≠ a := fun heq => h (heq ▸ hc)
  exact if_neg hne

variable {chrono}

/-- The name of a fire is read back. -/
theorem fireOf_fileName {t : Int} (h : ReadsBack chrono t) : fireOf chrono (fileName chrono t) =
    some t := by
  obtain ⟨date, time, hshape, hT, hcolon, hhyphen⟩ := h.shape
  have hstem : formatThreadFilenameTs chrono t =
      date ++ 'T' :: time.map fun c => if c = ':' then '-' else c := by
    rw [formatThreadFilenameTs, hshape, List.map_append, List.map_cons, map_of_not_mem hcolon]
    rfl
  rw [fireOf, fileName, stripSuffix_eq_some_iff.mpr rfl, Option.bind_some, parseThreadFilenameTs,
    hstem, splitOnce_eq_some_iff.mpr ⟨rfl, hT⟩, Option.bind_some, map_swap hhyphen, ← hshape]
  exact h.back

theorem fileName_ne_spec (t : Int) : fileName chrono t ≠ "spec.yaml".toList := by
  intro h
  have hlast : some 'd' = some 'l' :=
    calc some 'd' = (fileName chrono t).getLast? := by rw [fileName, List.getLast?_append]; rfl
      _ = some 'l' := congrArg List.getLast? h
  cases hlast

end Names

section Engine

structure CronSpec where
  version : Nat
  schedule : Text
  timezone : Option Text
  target : Text
  prompt : Text
  enabled : Bool
  createdBy : Text
  createdAt : Text
  deriving DecidableEq

/-- The YAML library on specs, the parsers of schedules and time zones, and the search for the next
occurrence of a schedule. -/
structure CronLib where
  fromStr : Text → Option CronSpec
  schedule : Text → Bool
  timezone : Text → Bool
  nextFireAfter : CronSpec → Int → Option Int

variable (chrono : Chrono) (lib : CronLib)

def maxPromptBytes : Nat := 8 * 1024

/-- The checks of `validate`. -/
def CronSpec.valid (spec : CronSpec) : Bool :=
  spec.version = 1 ∧ lib.schedule spec.schedule ∧ spec.timezone.all lib.timezone ∧
    spec.prompt ≠ [] ∧ utf8Len spec.prompt ≤ maxPromptBytes ∧
    (chrono.fromRfc3339 spec.createdAt).isSome ∧ spec.createdAt.getLast? = some 'Z'

def fromYaml (body : Text) : Option CronSpec := (lib.fromStr body).filter (CronSpec.valid chrono lib)

/-- How the steps for one spec end during a tick. -/
structure FireEnv where
  specRead : Bool
  dirRead : Bool
  dirCreated : Bool
  write : WriteResult
  committed : Bool
  removed : Bool
  deriving DecidableEq

structure FireRequest where
  specName : Text
  spec : CronSpec
  theoreticalTs : Int

def graceWindow : Int := 120 * second

def latestFireInDir (dir : FileMap) : Option Int := (dir.filterMap fun e => fireOf chrono e.1).max?

def destAlreadyExists (dir : FileMap) (ts : Int) : Bool := (dir.lookup (fileName chrono ts)).isSome

/-- The latest fire, or the time of creation; a directory that cannot be listed has no fires. -/
def rawAnchor (env : FireEnv) (dir : FileMap) (spec : CronSpec) : Option Int :=
  match if env.dirRead then latestFireInDir chrono dir else none with
  | some ts => some ts
  | none => chrono.fromRfc3339 spec.createdAt

def clampAnchor (now raw : Int) : Int := if raw < now - graceWindow then now - graceWindow else raw

def readSpec (env : FireEnv) (dir : FileMap) : Option CronSpec :=
  if env.specRead then (dir.lookup "spec.yaml".toList).bind (fromYaml chrono lib) else none

def scanOne (self : Text) (now : Int) (env : FireEnv) (specName : Text) (dir : FileMap) :
    Option FireRequest :=
  (readSpec chrono lib env dir).bind fun spec =>
    if spec.enabled ∧ spec.target = self then
      (rawAnchor chrono env dir spec).bind fun raw =>
        (lib.nextFireAfter spec (clampAnchor now raw)).bind fun next =>
          if next ≤ now ∧ destAlreadyExists chrono dir next = false then
            some ⟨specName, spec, next⟩
          else none
    else none

def formatCronBody (specName prompt : Text) (ts : Int) : Text :=
  formatMessage 1 0 Handler.system (chrono.compact ts)
    ("cron(".toList ++ (specName ++ ("): ".toList ++ prompt)))

/-- The files behind a fire, and whether the thread of this fire was left there. The spec and the
thread are looked at once more under the lock; a failed commit removes the thread again. -/
def fireIn (dir : FileMap) (env : FireEnv) (req : FireRequest) : FileMap × Bool :=
  if (dir.lookup "spec.yaml".toList).isSome = false ∨
      destAlreadyExists chrono dir req.theoreticalTs = true ∨ env.dirCreated = false then
    (dir, false)
  else
    let body := formatCronBody chrono req.specName req.spec.prompt req.theoreticalTs
    let dest := fileName chrono req.theoreticalTs
    match env.write with
    | .notOpened => (dir, false)
    | .stopped n => (writeFile dir dest (body.take n), true)
    | .complete =>
      if env.committed then (writeFile dir dest body, true)
      else if env.removed then (removeFile (writeFile dir dest body) dest, false)
      else (writeFile dir dest body, true)

/-- A fire whose thread was left in its directory, and the time of its tick. -/
structure Fired where
  specName : Text
  ts : Int
  now : Int
  deriving DecidableEq

structure Engine where
  /-- The directories below `crons`. -/
  crons : List (Text × FileMap)
  fired : List Fired

structure Tick where
  now : Int
  listed : Bool
  env : Text → FireEnv

def scanDue (self : Text) (a : Tick) (crons : List (Text × FileMap)) : List FireRequest :=
  if a.listed then crons.filterMap fun e => scanOne chrono lib self a.now (a.env e.1) e.1 e.2
  else []

def fire (a : Tick) (e : Engine) (req : FireRequest) : Engine :=
  match e.crons.lookup req.specName with
  | none => e
  | some dir =>
    ⟨upsert (fun _ => (fireIn chrono dir (a.env req.specName) req).1) req.specName e.crons,
      if (fireIn chrono dir (a.env req.specName) req).2 then
        e.fired ++ [⟨req.specName, req.theoreticalTs, a.now⟩]
      else e.fired⟩

/-- One round of the engine: all specs are scanned, then the due ones are fired in turn. -/
def tick (self : Text) (e : Engine) (a : Tick) : Engine :=
  (scanDue chrono lib self a e.crons).foldl (fire chrono a) e

def step (self : Text) (e : Engine) (a : Tick) : Option Engine := some (tick chrono lib self e a)

end Engine

section OneSpec
variable (chrono : Chrono) (lib : CronLib) (self specName : Text)

/-- What a tick does to the directory of one spec, and the time for which it fires. -/
def tickIn (a : Tick) (dir : FileMap) : FileMap × List Int :=
  if a.listed then
    match scanOne chrono lib self a.now (a.env specName) specName dir with
    | none => (dir, [])
    | some req => ((fireIn chrono dir (a.env specName) req).1,
        if (fireIn chrono dir (a.env specName) req).2 then [req.theoreticalTs] else [])
  else (dir, [])

/-- The fires of one spec, in order. -/
def firesOf (fired : List Fired) : List Fired := fired.filter (·.specName = specName)

variable {chrono lib self specName} {a : Tick} {e : Engine} {dir : FileMap}

theorem scanOne_specName {now : Int} {env : FireEnv} {req : FireRequest}
    (h : scanOne chrono lib self now env specName dir = some req) : req.specName = specName := by
  rw [scanOne] at h
  obtain ⟨spec, _, h⟩ := Option.bind_eq_some_iff.mp h
  split at h
  · obtain ⟨raw, _, h⟩ := Option.bind_eq_some_iff.mp h
    obtain ⟨next, _, h⟩ := Option.bind_eq_some_iff.mp h
    split at h
    · cases h
      rfl
    · cases h
  · cases h

theorem firesOf_snoc (fired : List Fired) (f : Fired) :
    firesOf specName (fired ++ [f]) =
      firesOf specName fired ++ if f.specName = specName then [f] else [] := by
  rw [firesOf, firesOf, List.filter_append]
  by_cases h : f.specName = specName <;> simp [h]

theorem keys_fire (req : FireRequest) :
    (fire chrono a e req).crons.map Prod.fst = e.crons.map Prod.fst := by
  rw [fire]
  split
  · rfl
  · rename_i d hd
    exact keys_upsert (lookup_isSome_iff.mp ⟨d, hd⟩)

theorem fire_other {req : FireRequest} (h : req.specName ≠ specName) :
    (fire chrono a e req).crons.lookup specName = e.crons.lookup specName ∧
      firesOf specName (fire chrono a e req).fired = firesOf specName e.fired := by
  rw [fire]
  split
  · exact ⟨rfl, rfl⟩
  · refine ⟨?_, ?_⟩
    · rw [lookup_upsert, if_neg h.symm]
    · split
      · rw [firesOf_snoc, if_neg h, List.append_nil]
      · rfl

theorem fire_self {req : FireRequest} (hreq : req.specName = specName)
    (hdir : e.crons.lookup specName = some dir) :
    (fire chrono a e req).crons.lookup specName =
        some (fireIn chrono dir (a.env specName) req).1 ∧
      firesOf specName (fire chrono a e req).fired = firesOf specName e.fired ++
        (if (fireIn chrono dir (a.env specName) req).2 then [req.theoreticalTs] else []).map
          fun t => ⟨specName, t, a.now⟩ := by
  subst hreq
  have hfire : fire chrono a e req =
      ⟨upsert (fun _ => (fireIn chrono dir (a.env req.specName) req).1) req.specName e.crons,
        if (fireIn chrono dir (a.env req.specName) req).2 then
          e.fired ++ [⟨req.specName, req.theoreticalTs, a.now⟩]
        else e.fired⟩ := by
    rw [fire, hdir]
  rw [hfire]
  refine ⟨by rw [lookup_upsert, if_pos rfl], ?_⟩
  split
  · rw [firesOf_snoc, if_pos rfl]
    rfl
  · rw [List.map_nil, List.append_nil]

theorem foldl_fire_other {reqs : List FireRequest} (h : ∀ req ∈ reqs, req.specName ≠ specName) :
    (reqs.foldl (fire chrono a) e).crons.lookup specName = e.crons.lookup specName ∧
      firesOf specName (reqs.foldl (fire chrono a) e).fired = firesOf specName e.fired := by
  induction reqs generalizing e with
  | nil => exact ⟨rfl, rfl⟩
  | cons req reqs ih =>
    have hfirst : (fire chrono a e req).crons.lookup specName = e.crons.lookup specName ∧
        firesOf specName (fire chrono a e req).fired = firesOf specName e.fired :=
      fire_other (h req List.mem_cons_self)
    obtain ⟨hdir, hfires⟩ := ih (e := fire chrono a e req)
      fun req' hreq' => h req' (List.mem_cons_of_mem req hreq')
    exact ⟨hdir.trans hfirst.1, hfires.trans hfirst.2⟩

/-- The requests of a scan are about the specs of the listing. -/
theorem specName_mem_keys {now : Int} {env : Text → FireEnv} {crons : List (Text × FileMap)}
    {req : FireRequest}
    (h : req ∈ crons.filterMap fun e => scanOne chrono lib self now (env e.1) e.1 e.2) :
    req.specName ∈ crons.map Prod.fst := by
  obtain ⟨entry, hentry, hscan⟩ := List.mem_filterMap.mp h
  rw [scanOne_specName hscan]
  exact List.mem_map_of_mem hentry

/-- The engine treats one spec as if there were no others. -/
theorem foldl_fire_listing {crons : List (Text × FileMap)} (hkeys : (crons.map Prod.fst).Nodup)
    (hdir : crons.lookup specName = some dir) (hlookup : e.crons.lookup specName = some dir)
    (hlisted : a.listed = true) :
    (((crons.filterMap fun c => scanOne chrono lib self a.now (a.env c.1) c.1 c.2).foldl
        (fire chrono a) e).crons.lookup specName = some (tickIn chrono lib self specName a dir).1) ∧
      firesOf specName ((crons.filterMap fun c =>
          scanOne chrono lib self a.now (a.env c.1) c.1 c.2).foldl (fire chrono a) e).fired =
        firesOf specName e.fired ++
          (tickIn chrono lib self specName a dir).2.map (fun t => ⟨specName, t, a.now⟩) := by
  induction crons generalizing e with
  | nil => cases hdir
  | cons entry crons ih =>
    obtain ⟨name, d⟩ := entry
    rw [List.map_cons, List.nodup_cons] at hkeys
    rw [lookup_cons_ite] at hdir
    by_cases hname : specName = name
    · subst hname
      rw [if_pos rfl] at hdir
      cases hdir
      have hothers : ∀ req ∈ crons.filterMap fun c =>
          scanOne chrono lib self a.now (a.env c.1) c.1 c.2, req.specName ≠ specName :=
        fun req hreq heq => hkeys.1 (heq ▸ specName_mem_keys hreq)
      rw [tickIn, if_pos hlisted, List.filterMap_cons]
      cases hscan : scanOne chrono lib self a.now (a.env specName) specName dir with
      | none =>
        obtain ⟨hsame, hfires⟩ := foldl_fire_other (e := e) (a := a) hothers
        exact ⟨hsame.trans hlookup, by rw [hfires, List.map_nil, List.append_nil]⟩
      | some req =>
        obtain ⟨hsame, hfires⟩ := foldl_fire_other (e := fire chrono a e req) (a := a) hothers
        obtain ⟨hself, hfired⟩ := fire_self (a := a) (scanOne_specName hscan) hlookup
        exact ⟨hsame.trans hself, hfires.trans hfired⟩
    · rw [if_neg hname] at hdir
      rw [List.filterMap_cons]
      cases hscan : scanOne chrono lib self a.now (a.env name) name d with
      | none => exact ih hkeys.2 hdir hlookup
      | some req =>
        have hother : req.specName ≠ specName := fun heq =>
          hname (heq.symm.trans (scanOne_specName hscan))
        have hfirst : (fire chrono a e req).crons.lookup specName = e.crons.lookup specName ∧
            firesOf specName (fire chrono a e req).fired = firesOf specName e.fired := fire_other hother
        rw [List.foldl_cons, ← hfirst.2]
        exact ih hkeys.2 hdir (hfirst.1.trans hlookup)

variable (chrono lib self a) in
theorem tick_oneSpec (hkeys : (e.crons.map Prod.fst).Nodup)
    (hdir : e.crons.lookup specName = some dir) :
    (tick chrono lib self e a).crons.lookup specName =
        some (tickIn chrono lib self specName a dir).1 ∧
      firesOf specName (tick chrono lib self e a).fired =
        firesOf specName e.fired ++
          (tickIn chrono lib self specName a dir).2.map (fun t => ⟨specName, t, a.now⟩) := by
  rw [tick, scanDue]
  by_cases hlisted : a.listed = true
  · rw [if_pos hlisted]
    exact foldl_fire_listing hkeys hdir hdir hlisted
  · rw [if_neg hlisted, tickIn, if_neg hlisted]
    exact ⟨hdir, (List.append_nil _).symm⟩

theorem keys_tick : (tick chrono lib self e a).crons.map Prod.fst = e.crons.map Prod.fst := by
  rw [tick]
  generalize scanDue chrono lib self a e.crons = reqs
  induction reqs generalizing e with
  | nil => rfl
  | cons req reqs ih =>
    rw [List.foldl_cons, ih]
    exact keys_fire req

end OneSpec

section Schedule

/-- The search for the next of some occurrences. -/
structure Search (S : Set Int) (next : Int → Option Int) : Prop where
  found : ∀ t s, next t = some s → s ∈ S ∧ t < s ∧ ∀ s' ∈ S, t < s' → s ≤ s'
  exhausted : ∀ t, next t = none → ∀ s ∈ S, s ≤ t

/-- The occurrences of a schedule, a minute apart at least, and the search for the next one. -/
structure Schedule (S : Set Int) (next : Int → Option Int) : Prop extends Search S next where
  whole : ∀ s ∈ S, second ∣ s
  apart : ∀ s ∈ S, ∀ s' ∈ S, s < s' → s + 60 * second ≤ s'

/-- The spec is readable, active, owned by this clone and created at `created`. -/
structure Owned (chrono : Chrono) (lib : CronLib) (owner body : Text) (spec : CronSpec)
    (created : Int) : Prop where
  parsed : fromYaml chrono lib body = some spec
  active : spec.enabled = true
  target : spec.target = owner
  createdAt : chrono.fromRfc3339 spec.createdAt = some created

/-- The threads of a directory are just those of the given times. -/
structure DirOk (chrono : Chrono) (S : Set Int) (body : Text) (created : Int) (dir : FileMap)
    (times : List Int) : Prop where
  spec : dir.lookup "spec.yaml".toList = some body
  files : ∀ name t, (dir.lookup name).isSome = true → fireOf chrono name = some t →
    t ∈ times ∧ name = fileName chrono t
  present : ∀ t ∈ times, (dir.lookup (fileName chrono t)).isSome = true
  once : times.Nodup
  scheduled : ∀ t ∈ times, t ∈ S ∧ created < t

variable {chrono : Chrono} {lib : CronLib} {self specName body : Text} {spec : CronSpec}
  {created now : Int} {S : Set Int} {dir : FileMap} {times : List Int} {env : FireEnv}

theorem mem_fires_iff (hback : ∀ s ∈ S, ReadsBack chrono s)
    (h : DirOk chrono S body created dir times) {t : Int} :
    t ∈ (dir.filterMap fun e => fireOf chrono e.1) ↔ t ∈ times := by
  rw [List.mem_filterMap]
  constructor
  · rintro ⟨e, he, ht⟩
    obtain ⟨v, hv⟩ := lookup_isSome_iff.mpr (List.mem_map_of_mem he : e.1 ∈ dir.map Prod.fst)
    exact (h.files e.1 t (by rw [hv]; rfl) ht).1
  · intro ht
    obtain ⟨v, hv⟩ := Option.isSome_iff_exists.mp (h.present t ht)
    obtain ⟨e, he, heq⟩ := List.mem_map.mp (lookup_isSome_iff.mp ⟨v, hv⟩)
    exact ⟨e, he, by rw [heq]; exact fireOf_fileName (hback t (h.scheduled t ht).1)⟩

variable (env) in
/-- The anchor is the latest fire or the creation, and not before either. -/
theorem rawAnchor_eq (hback : ∀ s ∈ S, ReadsBack chrono s)
    (howned : Owned chrono lib self body spec created)
    (h : DirOk chrono S body created dir times) :
    ∃ raw, rawAnchor chrono env dir spec = some raw ∧ created ≤ raw ∧
      (raw = created ∨ raw ∈ times) ∧ (env.dirRead = true → ∀ t ∈ times, t ≤ raw) := by
  rw [rawAnchor]
  cases hread : env.dirRead with
  | false => exact ⟨created, howned.createdAt, Int.le_refl _, Or.inl rfl, fun hfalse => by cases hfalse⟩
  | true =>
    rw [if_pos rfl, latestFireInDir]
    cases hmax : (dir.filterMap fun e => fireOf chrono e.1).max? with
    | none =>
      have hnil := List.max?_eq_none_iff.mp hmax
      refine ⟨created, howned.createdAt, Int.le_refl _, Or.inl rfl, fun _ t ht => ?_⟩
      have hmem := (mem_fires_iff hback h).mpr ht
      rw [hnil] at hmem
      cases hmem
    | some latest =>
      obtain ⟨hmem, hle⟩ := List.max?_eq_some_iff.mp hmax
      have hlatest := (mem_fires_iff hback h).mp hmem
      exact ⟨latest, rfl, Int.le_of_lt (h.scheduled latest hlatest).2, Or.inr hlatest,
        fun _ t ht => hle t ((mem_fires_iff hback h).mpr ht)⟩

theorem le_clampAnchor (now raw : Int) : raw ≤ clampAnchor now raw ∧
    now - graceWindow ≤ clampAnchor now raw := by
  rw [clampAnchor]
  split <;> constructor <;> omega

theorem clampAnchor_le {now raw bound : Int} (hraw : raw ≤ bound)
    (hnow : now - graceWindow ≤ bound) : clampAnchor now raw ≤ bound := by
  rw [clampAnchor]
  split <;> assumption

/-- Everything a scan promises of the fire it asks for. -/
theorem scanOne_eq_some (hS : Search S (lib.nextFireAfter spec))
    (hback : ∀ s ∈ S, ReadsBack chrono s) (howned : Owned chrono lib self body spec created)
    (h : DirOk chrono S body created dir times) {req : FireRequest}
    (hscan : scanOne chrono lib self now env specName dir = some req) :
    req.theoreticalTs ∈ S ∧ created < req.theoreticalTs ∧
      now - graceWindow < req.theoreticalTs ∧ req.theoreticalTs ≤ now ∧
      destAlreadyExists chrono dir req.theoreticalTs = false ∧
      (env.dirRead = true → ∀ t ∈ times, t < req.theoreticalTs) := by
  rw [scanOne] at hscan
  obtain ⟨spec', hspec, hscan⟩ := Option.bind_eq_some_iff.mp hscan
  have heq : spec' = spec := by
    rw [readSpec, h.spec, Option.bind_some, howned.parsed] at hspec
    split at hspec
    · exact (Option.some.inj hspec).symm
    · cases hspec
  subst heq
  split at hscan
  · obtain ⟨raw, hraw, hscan⟩ := Option.bind_eq_some_iff.mp hscan
    obtain ⟨raw', hraw', hcreated, -, hlatest⟩ := rawAnchor_eq env hback howned h
    cases hraw.symm.trans hraw'
    obtain ⟨next, hnext, hscan⟩ := Option.bind_eq_some_iff.mp hscan
    obtain ⟨hmem, hafter, _⟩ := hS.found _ _ hnext
    obtain ⟨hle, hgrace⟩ := le_clampAnchor now raw
    split at hscan
    · rename_i hdue
      cases hscan
      refine ⟨hmem, ?_, Int.lt_of_le_of_lt hgrace hafter, hdue.1, hdue.2, fun hread t ht => ?_⟩
      · exact Int.lt_of_le_of_lt (Int.le_trans hcreated hle) hafter
      · exact Int.lt_of_le_of_lt (Int.le_trans (hlatest hread t ht) hle) hafter
    · cases hscan
  · cases hscan

theorem DirOk.not_exists_iff (hback : ∀ s ∈ S, ReadsBack chrono s)
    (h : DirOk chrono S body created dir times) {t : Int} (ht : t ∈ S) :
    destAlreadyExists chrono dir t = false ↔ t ∉ times := by
  rw [destAlreadyExists]
  constructor
  · intro hfalse hmem
    rw [h.present t hmem] at hfalse
    cases hfalse
  · intro hnot
    by_contra htrue
    exact hnot (h.files _ t (Bool.eq_true_of_not_eq_false htrue) (fireOf_fileName (hback t ht))).1

/-- A thread is added for a time that has none. -/
theorem DirOk.insert (hback : ∀ s ∈ S, ReadsBack chrono s)
    (h : DirOk chrono S body created dir times) {t : Int} (ht : t ∈ S) (hcreated : created < t)
    (hnot : t ∉ times) (text : Text) :
    DirOk chrono S body created (writeFile dir (fileName chrono t) text) (times ++ [t]) := by
  refine ⟨?_, fun name t' hname ht' => ?_, fun t' ht' => ?_, ?_, fun t' ht' => ?_⟩
  · rw [lookup_writeFile, if_neg (fileName_ne_spec t).symm]
    exact h.spec
  · rw [lookup_writeFile] at hname
    by_cases heq : name = fileName chrono t
    · rw [heq, fireOf_fileName (hback t ht)] at ht'
      cases ht'
      exact ⟨List.mem_append_right _ (List.mem_singleton_self t), heq⟩
    · rw [if_neg heq] at hname
      obtain ⟨hmem, hfile⟩ := h.files name t' hname ht'
      exact ⟨List.mem_append_left _ hmem, hfile⟩
  · rw [lookup_writeFile]
    split
    · rfl
    · rename_i hne
      rcases List.mem_append.mp ht' with hmem | hmem
      · exact h.present t' hmem
      · exact absurd (congrArg (fileName chrono) (List.mem_singleton.mp hmem)) hne
  · exact List.nodup_append.mpr ⟨h.once, List.nodup_singleton t, by
      rintro x hx y hy rfl
      exact hnot (List.mem_singleton.mp hy ▸ hx)⟩
  · rcases List.mem_append.mp ht' with hmem | hmem
    · exact h.scheduled t' hmem
    · rw [List.mem_singleton.mp hmem]
      exact ⟨ht, hcreated⟩

/-- A fire that left nothing behind: the directory reads as before. -/
theorem DirOk.congr {dir' : FileMap} (h : DirOk chrono S body created dir times)
    (hsame : ∀ name, dir'.lookup name = dir.lookup name) :
    DirOk chrono S body created dir' times where
  spec := (hsame _).trans h.spec
  files := fun name t hname => h.files name t (hsame name ▸ hname)
  present := fun t ht => by rw [hsame]; exact h.present t ht
  once := h.once
  scheduled := h.scheduled

theorem fireIn_ok (hback : ∀ s ∈ S, ReadsBack chrono s)
    (h : DirOk chrono S body created dir times) {req : FireRequest}
    (ht : req.theoreticalTs ∈ S) (hcreated : created < req.theoreticalTs)
    (hnot : req.theoreticalTs ∉ times) :
    DirOk chrono S body created (fireIn chrono dir env req).1
      (times ++ if (fireIn chrono dir env req).2 then [req.theoreticalTs] else []) := by
  have hnone : dir.lookup (fileName chrono req.theoreticalTs) = none := by
    have hfalse := (h.not_exists_iff hback ht).mpr hnot
    rw [destAlreadyExists] at hfalse
    exact Option.not_isSome_iff_eq_none.mp (Bool.eq_false_iff.mp hfalse)
  have hsame : DirOk chrono S body created dir (times ++ []) := (List.append_nil times).symm ▸ h
  rw [fireIn]
  split
  · exact hsame
  · split
    · exact hsame
    · exact h.insert hback ht hcreated hnot _
    · split
      · exact h.insert hback ht hcreated hnot _
      · split
        · refine hsame.congr fun name => ?_
          rw [lookup_removeFile, lookup_writeFile]
          by_cases heq : name = fileName chrono req.theoreticalTs
          · rw [if_pos heq, heq, hnone]
          · rw [if_neg heq, if_neg heq]
        · exact h.insert hback ht hcreated hnot _

variable {a : Tick}

variable (specName a) in
/-- One tick keeps the threads of a spec, and fires at most once, for an occurrence of the last two
minutes. -/
theorem tickIn_ok (hS : Search S (lib.nextFireAfter spec)) (hback : ∀ s ∈ S, ReadsBack chrono s)
    (howned : Owned chrono lib self body spec created)
    (h : DirOk chrono S body created dir times) :
    DirOk chrono S body created (tickIn chrono lib self specName a dir).1
        (times ++ (tickIn chrono lib self specName a dir).2) ∧
      ∀ t ∈ (tickIn chrono lib self specName a dir).2, a.now - graceWindow < t ∧ t ≤ a.now ∧
        ((a.env specName).dirRead = true → ∀ t' ∈ times, t' < t) := by
  have hsame : DirOk chrono S body created dir (times ++ []) := (List.append_nil times).symm ▸ h
  rw [tickIn]
  split
  · split
    · exact ⟨hsame, fun t ht => by cases ht⟩
    · rename_i req hscan
      obtain ⟨hmem, hcreated, hgrace, hdue, hfree, hlater⟩ := scanOne_eq_some hS hback howned h hscan
      have hnot := (h.not_exists_iff hback hmem).mp hfree
      refine ⟨fireIn_ok hback h hmem hcreated hnot, fun t ht => ?_⟩
      split at ht
      · rw [List.mem_singleton.mp ht]
        exact ⟨hgrace, hdue, hlater⟩
      · cases ht
  · exact ⟨hsame, fun t ht => by cases ht⟩

theorem tickIn_pairwise : (tickIn chrono lib self specName a dir).2.Pairwise (· < ·) := by
  rw [tickIn]
  split
  · split
    · exact List.Pairwise.nil
    · split
      · exact List.pairwise_singleton _ _
      · exact List.Pairwise.nil
  · exact List.Pairwise.nil

/-- Nothing fails during the tick. -/
def Calm (specName : Text) (a : Tick) : Prop :=
  a.listed = true ∧ (a.env specName).specRead = true ∧ (a.env specName).dirRead = true ∧
    (a.env specName).dirCreated = true ∧ (a.env specName).write = .complete ∧
    (a.env specName).committed = true

theorem fireIn_calm (hcalm : Calm specName a) (h : DirOk chrono S body created dir times)
    {req : FireRequest} (hfree : destAlreadyExists chrono dir req.theoreticalTs = false) :
    (fireIn chrono dir (a.env specName) req).2 = true := by
  obtain ⟨_, _, _, hcreate, hwrite, hcommit⟩ := hcalm
  have hnot : ¬ ((dir.lookup "spec.yaml".toList).isSome = false ∨
      destAlreadyExists chrono dir req.theoreticalTs = true ∨
      (a.env specName).dirCreated = false) := by
    rw [h.spec, hfree, hcreate]
    simp
  rw [fireIn, if_neg hnot, hwrite, hcommit]
  rfl

/-- A tick at most a minute after everything was fired fires what has become due since. -/
theorem tickIn_catches_up (hS : Schedule S (lib.nextFireAfter spec))
    (hback : ∀ s ∈ S, ReadsBack chrono s) (howned : Owned chrono lib self body spec created)
    (h : DirOk chrono S body created dir times) (hcalm : Calm specName a) {mark : Int}
    (hmark : created ≤ mark) (hbound : ∀ t ∈ times, t ≤ mark)
    (hfired : ∀ s ∈ S, created < s → s ≤ mark → s ∈ times)
    (hnow : a.now ≤ mark + 60 * second) {s : Int} (hs : s ∈ S) (hcreated : created < s)
    (hdue : s ≤ a.now) : s ∈ times ++ (tickIn chrono lib self specName a dir).2 := by
  by_cases hold : s ≤ mark
  · exact List.mem_append_left _ (hfired s hs hcreated hold)
  · obtain ⟨raw, hraw, hcr, hfrom, hlatest⟩ := rawAnchor_eq (a.env specName) hback howned h
    have hrawmark : raw ≤ mark := by
      rcases hfrom with heq | hmem
      · exact heq ▸ hmark
      · exact hbound raw hmem
    have hanchor : clampAnchor a.now raw ≤ mark := by
      apply clampAnchor_le hrawmark
      rw [graceWindow, second]
      rw [second] at hnow
      omega
    -- the next occurrence behind the anchor is `s`: whatever is not behind the mark is fired
    have hnext : lib.nextFireAfter spec (clampAnchor a.now raw) = some s := by
      cases hfind : lib.nextFireAfter spec (clampAnchor a.now raw) with
      | none =>
        have hle := hS.exhausted _ hfind s hs
        omega
      | some n =>
        obtain ⟨hn, hafter, hleast⟩ := hS.found _ _ hfind
        have hns : n ≤ s := hleast s hs (by omega)
        have hraw' := (le_clampAnchor a.now raw).1
        have hnmark : mark < n := by
          by_contra hle
          have hmem := hfired n hn (by omega) (by omega)
          have := hlatest hcalm.2.2.1 n hmem
          omega
        rcases Int.lt_or_eq_of_le hns with hlt | heq
        · have := hS.apart n hn s hs hlt
          omega
        · rw [heq]
    have hfree : destAlreadyExists chrono dir s = false :=
      (h.not_exists_iff hback hs).mpr fun hmem => hold (hbound s hmem)
    have hscan : scanOne chrono lib self a.now (a.env specName) specName dir =
        some ⟨specName, spec, s⟩ := by
      rw [scanOne, readSpec, if_pos hcalm.2.1, h.spec, Option.bind_some, howned.parsed,
        Option.bind_some, if_pos ⟨howned.active, howned.target⟩, hraw, Option.bind_some, hnext,
        Option.bind_some, if_pos ⟨hdue, hfree⟩]
    rw [tickIn, if_pos hcalm.1, hscan]
    apply List.mem_append_right
    change s ∈ if (fireIn chrono dir (a.env specName) ⟨specName, spec, s⟩).2 then [s] else []
    rw [if_pos (fireIn_calm hcalm h hfree)]
    exact List.mem_singleton_self s

end Schedule

section Runs
variable (chrono : Chrono) (lib : CronLib) (self specName body : Text) (spec : CronSpec)
  (created : Int) (S : Set Int)

/-- The times for which a spec was fired, in order. -/
def timesOf (e : Engine) : List Int := (firesOf specName e.fired).map Fired.ts

/-- What every run keeps of one spec. -/
structure SpecOk (e : Engine) : Prop where
  keys : (e.crons.map Prod.fst).Nodup
  threads : ∃ dir, e.crons.lookup specName = some dir ∧
    DirOk chrono S body created dir (timesOf specName e)
  recent : ∀ f ∈ firesOf specName e.fired, f.now - graceWindow < f.ts ∧ f.ts ≤ f.now

/-- All occurrences up to the mark are fired, in order, and none behind it. -/
structure CaughtUp (mark : Int) (e : Engine) : Prop where
  bound : ∀ t ∈ timesOf specName e, t ≤ mark
  all : ∀ s ∈ S, created < s → s ≤ mark → s ∈ timesOf specName e
  increasing : (timesOf specName e).Pairwise (· < ·)

/-- A spec that has just been created. -/
structure Fresh (e : Engine) : Prop where
  keys : (e.crons.map Prod.fst).Nodup
  threads : ∃ dir, e.crons.lookup specName = some dir ∧
    dir.lookup "spec.yaml".toList = some body ∧
    ∀ name, (dir.lookup name).isSome = true → fireOf chrono name = none
  unfired : firesOf specName e.fired = []

variable {chrono lib self specName body spec created S} {e e' : Engine} {a : Tick}

theorem Fresh.specOk (h : Fresh chrono specName body e) :
    SpecOk chrono specName body created S e := by
  obtain ⟨dir, hdir, hspec, hnone⟩ := h.threads
  refine ⟨h.keys, ⟨dir, hdir, ?_⟩, fun f hf => ?_⟩
  · rw [timesOf, h.unfired]
    refine ⟨hspec, fun name t hname ht => ?_, (fun t ht => by cases ht), List.nodup_nil,
      (fun t ht => by cases ht)⟩
    rw [hnone name hname] at ht
    cases ht
  · rw [h.unfired] at hf
    cases hf

theorem specOk_tick (hS : Search S (lib.nextFireAfter spec))
    (hback : ∀ s ∈ S, ReadsBack chrono s) (howned : Owned chrono lib self body spec created)
    (h : SpecOk chrono specName body created S e) :
    SpecOk chrono specName body created S (tick chrono lib self e a) := by
  obtain ⟨dir, hdir, hok⟩ := h.threads
  obtain ⟨hdir', hfires⟩ := tick_oneSpec chrono lib self a h.keys hdir
  obtain ⟨hok', hnew⟩ := tickIn_ok specName a hS hback howned hok
  refine ⟨?_, ⟨_, hdir', ?_⟩, fun f hf => ?_⟩
  · rw [keys_tick]
    exact h.keys
  · rw [timesOf, hfires, List.map_append, List.map_map]
    exact (List.map_id _).symm ▸ hok'
  · rw [hfires] at hf
    rcases List.mem_append.mp hf with hold | hmem
    · exact h.recent f hold
    · obtain ⟨t, ht, rfl⟩ := List.mem_map.mp hmem
      exact ⟨(hnew t ht).1, (hnew t ht).2.1⟩

/-- A calm tick at most a minute after the mark. -/
theorem caughtUp_tick (hS : Schedule S (lib.nextFireAfter spec))
    (hback : ∀ s ∈ S, ReadsBack chrono s) (howned : Owned chrono lib self body spec created)
    (h : SpecOk chrono specName body created S e) {mark : Int} (hmark : created ≤ mark)
    (hcaught : CaughtUp specName created S mark e) (hcalm : Calm specName a)
    (hnow : a.now ≤ mark + 60 * second) :
    CaughtUp specName created S (max mark a.now) (tick chrono lib self e a) := by
  obtain ⟨dir, hdir, hok⟩ := h.threads
  obtain ⟨_, hfires⟩ := tick_oneSpec chrono lib self a h.keys hdir
  obtain ⟨_, hnew⟩ := tickIn_ok specName a hS.toSearch hback howned hok
  have htimes : timesOf specName (tick chrono lib self e a) =
      timesOf specName e ++ (tickIn chrono lib self specName a dir).2 := by
    rw [timesOf, hfires, List.map_append, List.map_map]
    exact congrArg _ (List.map_id _)
  refine ⟨fun t ht => ?_, fun s hs hcreated hle => ?_, ?_⟩
  · rw [htimes] at ht
    rcases List.mem_append.mp ht with hold | hmem
    · have := hcaught.bound t hold
      omega
    · have := (hnew t hmem).2.1
      omega
  · rw [htimes]
    by_cases hold : s ≤ mark
    · exact List.mem_append_left _ (hcaught.all s hs hcreated hold)
    · exact tickIn_catches_up hS hback howned hok hcalm hmark hcaught.bound hcaught.all hnow hs
        hcreated (by omega)
  · rw [htimes]
    refine List.pairwise_append.mpr ⟨hcaught.increasing, ?_, fun t ht t' ht' => ?_⟩
    · exact tickIn_pairwise
    · exact (hnew t' ht').2.2 hcalm.2.2.1 t ht

/-- The ticks go forward, by a minute at most. -/
def Paced (prev : Int) : List Tick → Prop
  | [] => True
  | a :: rest => prev < a.now ∧ a.now ≤ prev + 60 * second ∧ Paced a.now rest

/-- Every run keeps the record of a spec. -/
theorem specOk_run (hS : Search S (lib.nextFireAfter spec))
    (hback : ∀ s ∈ S, ReadsBack chrono s) (howned : Owned chrono lib self body spec created)
    (h : SpecOk chrono specName body created S e) {ticks : List Tick}
    (hrun : run (step chrono lib self) e ticks = some e') :
    SpecOk chrono specName body created S e' := by
  have hguard : Along (step chrono lib self) (fun _ _ => True) e ticks :=
    along_of_forall (fun _ _ _ => trivial) e
  refine run_invariant ?_ hrun hguard h
  intro e a t hok _ hstep
  cases hstep
  exact specOk_tick hS hback howned hok

theorem caughtUp_run (hS : Schedule S (lib.nextFireAfter spec))
    (hback : ∀ s ∈ S, ReadsBack chrono s) (howned : Owned chrono lib self body spec created)
    (h : SpecOk chrono specName body created S e) {prev mark : Int} (hmark : created ≤ mark)
    (hprev : prev ≤ mark) (hcaught : CaughtUp specName created S mark e) {ticks : List Tick}
    (hpaced : Paced prev ticks) (hcalm : ∀ a ∈ ticks, Calm specName a)
    (hrun : run (step chrono lib self) e ticks = some e') :
    ∃ mark', mark ≤ mark' ∧ (∀ a ∈ ticks, a.now ≤ mark') ∧
      CaughtUp specName created S mark' e' := by
  induction ticks generalizing e prev mark with
  | nil =>
    cases hrun
    exact ⟨mark, Int.le_refl _, (fun a ha => by cases ha), hcaught⟩
  | cons a rest ih =>
    obtain ⟨t, hstep, hrest⟩ := run_cons_eq_some.mp hrun
    cases hstep
    have hnow : a.now ≤ mark + 60 * second := by
      have := hpaced.2.1
      omega
    obtain ⟨mark', hle, hall, hcaught'⟩ := ih (specOk_tick hS.toSearch hback howned h)
      (by omega : created ≤ max mark a.now) (by omega : a.now ≤ max mark a.now)
      (caughtUp_tick hS hback howned h hmark hcaught (hcalm a List.mem_cons_self) hnow)
      hpaced.2.2 (fun b hb => hcalm b (List.mem_cons_of_mem a hb)) hrest
    refine ⟨mark', by omega, fun b hb => ?_, hcaught'⟩
    rcases List.mem_cons.mp hb with rfl | hmem
    · omega
    · exact hall b hmem

theorem Fresh.caughtUp (h : Fresh chrono specName body e) :
    CaughtUp specName created S created e := by
  have hnil : timesOf specName e = [] := by rw [timesOf, h.unfired]; rfl
  refine ⟨fun t ht => ?_, fun s _ hlt hle => absurd hlt (Int.not_lt.mpr hle), ?_⟩
  · rw [hnil] at ht
    cases ht
  · rw [hnil]
    exact List.Pairwise.nil

/-- For every spec that is owned by this clone and every run of ticks from its creation: if the
ticks are a minute apart at most and nothing fails, every occurrence up to a minute before the last
tick has exactly one thread, no thread stands for anything else, and the threads appear in order.
Whatever the ticks are and whatever fails, no occurrence is fired twice and none that is two
minutes old. -/
theorem cron_fires_each_once (chrono : Chrono) (lib : CronLib) (self specName body : Text)
    (spec : CronSpec) (created : Int) (S : Set Int) (e : Engine)
    (hS : Schedule S (lib.nextFireAfter spec)) (hback : ∀ s ∈ S, ReadsBack chrono s)
    (howned : Owned chrono lib self body spec created) (hfresh : Fresh chrono specName body e) :
    (∀ first rest e', first.now ≤ created + 60 * second → Paced first.now rest →
      (∀ a ∈ first :: rest, Calm specName a) →
      run (step chrono lib self) e (first :: rest) = some e' →
      ∃ dir, e'.crons.lookup specName = some dir ∧
        (∀ last ∈ (first :: rest).getLast?, ∀ s ∈ S, created < s → s ≤ last.now - 60 * second →
          ∃! name, (dir.lookup name).isSome = true ∧ fireOf chrono name = some s) ∧
        (∀ name t, (dir.lookup name).isSome = true → fireOf chrono name = some t →
          t ∈ S ∧ created < t ∧ t ∈ timesOf specName e') ∧
        (timesOf specName e').Pairwise (· < ·)) ∧
    ∀ ticks e', run (step chrono lib self) e ticks = some e' →
      (timesOf specName e').Nodup ∧
        ∀ f ∈ firesOf specName e'.fired, f.now - 120 * second < f.ts := by
  constructor
  · intro first rest e' hfirst hpaced hcalm hrun
    obtain ⟨t, hstep, hrest⟩ := run_cons_eq_some.mp hrun
    cases hstep
    have hok : SpecOk chrono specName body created S (tick chrono lib self e first) :=
      specOk_tick hS.toSearch hback howned hfresh.specOk
    have hcaught : CaughtUp specName created S (max created first.now)
        (tick chrono lib self e first) :=
      caughtUp_tick hS hback howned hfresh.specOk (Int.le_refl _) hfresh.caughtUp
        (hcalm first List.mem_cons_self) hfirst
    obtain ⟨mark, hmark, hall, hcaught'⟩ := caughtUp_run hS hback howned hok
      (by omega : created ≤ max created first.now) (by omega : first.now ≤ max created first.now)
      hcaught hpaced (fun b hb => hcalm b (List.mem_cons_of_mem first hb)) hrest
    obtain ⟨dir, hdir, hdirok⟩ := (specOk_run hS.toSearch hback howned hok hrest).threads
    refine ⟨dir, hdir, fun last hlast s hs hcreated hle => ?_, fun name t hname ht => ?_,
      hcaught'.increasing⟩
    · have hlastmark : last.now ≤ mark := by
        rcases List.mem_cons.mp (List.mem_of_getLast? hlast) with rfl | hmem
        · omega
        · exact hall last hmem
      have hsecond : 0 < second := by decide
      have hmem := hcaught'.all s hs hcreated (by omega)
      refine ⟨fileName chrono s, ⟨hdirok.present s hmem, fireOf_fileName (hback s hs)⟩, ?_⟩
      rintro name ⟨hname, ht⟩
      exact (hdirok.files name s hname ht).2
    · have hmem := (hdirok.files name t hname ht).1
      exact ⟨(hdirok.scheduled t hmem).1, (hdirok.scheduled t hmem).2, hmem⟩
  · intro ticks e' hrun
    have hok : SpecOk chrono specName body created S e' :=
      specOk_run hS.toSearch hback howned hfresh.specOk hrun
    obtain ⟨dir, _, hdirok⟩ := hok.threads
    exact ⟨hdirok.once, fun f hf => (hok.recent f hf).1⟩

end Runs

section Samples

/-- 2026-05-11T09:00:00Z, and a minute later. -/
def nine : Int := 1778490000 * second

def ninePast : Int := nine + 60 * second

def nineText : Text := "2026-05-11T09:00:00Z".toList

def ninePastText : Text := "2026-05-11T09:01:00Z".toList

def beforeNineText : Text := "2026-05-11T08:59:30Z".toList

def sampleChrono : Chrono where
  toRfc3339 t := if t = nine then nineText else if t = ninePast then ninePastText else []
  fromRfc3339 t := if t = nineText then some nine else if t = ninePastText then some ninePast
    else if t = beforeNineText then some (nine - 30 * second) else none
  compact _ := "20260511T090000Z".toList

def sampleSpec : CronSpec :=
  ⟨1, "* 9 * * *".toList, none, "alice".toList, "stand up".toList, true, "alice".toList,
    beforeNineText⟩

def specText : Text :=
  ("schedule: \"* 9 * * *\"\ntarget: alice\nprompt: stand up\ncreated_by: alice\n" ++
    "created_at: \"2026-05-11T08:59:30Z\"\n").toList

def sampleLib : CronLib where
  fromStr t := if t = specText then some sampleSpec else none
  schedule _ := true
  timezone _ := true
  nextFireAfter _ t := if t < nine then some nine else if t < ninePast then some ninePast else none

def freshEngine : Engine := ⟨[("daily".toList, [("spec.yaml".toList, specText)])], []⟩

def calmTick (now : Int) : Tick := ⟨now, true, fun _ => ⟨true, true, true, .complete, true, true⟩⟩

def sampleTicks : List Tick :=
  [calmTick (nine + 10 * second), calmTick (nine + 70 * second), calmTick (nine + 130 * second)]

def sampleTimes : Set Int := {nine, ninePast}

theorem sample_schedule : Schedule sampleTimes (sampleLib.nextFireAfter sampleSpec) := by
  have hgap : ninePast = nine + 60 * second := rfl
  have hsecond : second = 1000000000 := rfl
  refine ⟨⟨?_, ?_⟩, ?_, ?_⟩
  · intro t s hnext
    change (if t < nine then some nine else if t < ninePast then some ninePast else none) = some s
      at hnext
    split at hnext
    · cases hnext
      refine ⟨Or.inl rfl, by assumption, ?_⟩
      rintro s' (rfl | rfl) _ <;> omega
    · split at hnext
      · cases hnext
        refine ⟨Or.inr rfl, by assumption, ?_⟩
        rintro s' (rfl | rfl) _ <;> omega
      · cases hnext
  · intro t hnext
    change (if t < nine then some nine else if t < ninePast then some ninePast else none) = none
      at hnext
    split at hnext
    · cases hnext
    · split at hnext
      · cases hnext
      · rintro s (rfl | rfl) <;> omega
  · rintro s (rfl | rfl) <;> decide
  · rintro s (rfl | rfl) s' (rfl | rfl) hlt <;> omega

theorem sample_readsBack : ∀ s ∈ sampleTimes, ReadsBack sampleChrono s := by
  rintro s (rfl | rfl)
  · exact ⟨⟨"2026-05-11".toList, "09:00:00Z".toList, by decide +kernel⟩, by decide +kernel⟩
  · exact ⟨⟨"2026-05-11".toList, "09:01:00Z".toList, by decide +kernel⟩, by decide +kernel⟩

theorem sample_owned : Owned sampleChrono sampleLib "alice".toList specText sampleSpec
    (nine - 30 * second) :=
  ⟨by decide +kernel, rfl, rfl, by decide +kernel⟩

theorem sample_fresh : Fresh sampleChrono "daily".toList specText freshEngine where
  keys := List.nodup_singleton _
  threads := by
    refine ⟨[("spec.yaml".toList, specText)], rfl, rfl, fun name hname => ?_⟩
    obtain ⟨v, hv⟩ := Option.isSome_iff_exists.mp hname
    have hmem := lookup_isSome_iff.mp ⟨v, hv⟩
    rw [List.map_singleton, List.mem_singleton] at hmem
    rw [hmem]
    decide +kernel
  unfired := rfl

theorem cron_fires_at_nine :
    ∃ e' dir, run (step sampleChrono sampleLib "alice".toList) freshEngine sampleTicks = some e' ∧
      e'.crons.lookup "daily".toList = some dir ∧
      (∃! name, (dir.lookup name).isSome = true ∧ fireOf sampleChrono name = some nine) ∧
      (∃! name, (dir.lookup name).isSome = true ∧ fireOf sampleChrono name = some ninePast) ∧
      (timesOf "daily".toList e').Nodup := by
  have hsome : (run (step sampleChrono sampleLib "alice".toList) freshEngine sampleTicks).isSome =
      true := rfl
  obtain ⟨e', hrun⟩ := Option.isSome_iff_exists.mp hsome
  obtain ⟨hregular, hany⟩ := cron_fires_each_once sampleChrono sampleLib "alice".toList
    "daily".toList specText sampleSpec (nine - 30 * second) sampleTimes freshEngine sample_schedule
    sample_readsBack sample_owned sample_fresh
  obtain ⟨dir, hdir, honce, _⟩ := hregular (calmTick (nine + 10 * second))
    [calmTick (nine + 70 * second), calmTick (nine + 130 * second)] e' (by decide)
    ⟨by decide, by decide, by decide, by decide, trivial⟩
    (fun a ha => by
      simp only [List.mem_cons, List.not_mem_nil, or_false] at ha
      rcases ha with rfl | rfl | rfl <;> exact ⟨rfl, rfl, rfl, rfl, rfl, rfl⟩) hrun
  have hlast := honce (calmTick (nine + 130 * second)) rfl
  exact ⟨e', dir, hrun, hdir, hlast nine (Or.inl rfl) (by decide) (by decide),
    hlast ninePast (Or.inr rfl) (by decide) (by decide), (hany _ e' hrun).1⟩

end Samples

end CronEngine
