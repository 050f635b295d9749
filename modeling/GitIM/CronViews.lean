import GitIM.CronCalls
import Mathlib.Data.List.Sort

/-!
# What is shown of the crons

The list, the details and the history of the crons are read off the same directories as the engine
reads. They announce when a cron fires next and which of its fires are behind it.
-/

namespace CronViews

open Checked TextLines TextScan FileTree Runs ThreadFormat Channels CronEngine CronCalls

structure CronRunEntry where
  ts : Text
  filename : Text
  deriving DecidableEq

structure CronSummary where
  name : Text
  schedule : Text
  timezone : Option Text
  target : Text
  enabled : Bool
  createdBy : Text
  createdAt : Text
  nextFire : Option Text
  deriving DecidableEq

structure CronDetail (Value : Type) where
  name : Text
  spec : Value
  recentRuns : List CronRunEntry
  nextFire : Option Text

def defaultHistoryLimit : Nat := 50

def maxHistoryLimit : Nat := 1000

def showRecentRuns : Nat := 5

section Views
variable {Extra Value : Type} (chrono : Chrono) (lib : SpecLib Extra)

/-- Which of the reads succeed while a view is put together. -/
structure ViewEnv where
  listed : Bool
  specError : Text → Option Text
  dirRead : Text → Bool

/-- The order of `cmp` on texts, the other way round. -/
def newestFirst (a b : CronRunEntry) : Bool := b.ts ≤ a.ts

def runEntry (fname : Text) : Option CronRunEntry :=
  (stripSuffix ".thread".toList fname).bind fun stem =>
    if parseThreadFilenameTs chrono stem = none then none else some ⟨stem, fname⟩

def listThreadRuns (read : Bool) (dir : FileMap) (limit : Option Nat) : List CronRunEntry :=
  if read = false then []
  else
    let entries := (dir.filterMap fun e => runEntry chrono e.1).mergeSort newestFirst
    limit.elim entries entries.take

/-- The latest of the times in the names, as the loop collects it. -/
def latestRun (dir : FileMap) : Option Int :=
  dir.foldl (fun latest e =>
    match (stripSuffix ".thread".toList e.1).bind (parseThreadFilenameTs chrono) with
    | none => latest
    | some ts => some (latest.elim ts (max · ts))) none

def computeNextFire (read : Bool) (dir : FileMap) (spec : CronSpec) (now : Int) : Option Text := do
  let rawAnchor ← match if read then latestRun chrono dir else none with
    | some ts => some ts
    | none => chrono.fromRfc3339 spec.createdAt
  let cutoff := now - 120 * second
  let anchor := if rawAnchor < cutoff then cutoff else rawAnchor
  (lib.nextFireAfter spec anchor).map chrono.toRfc3339

def summary (env : ViewEnv) (now : Int) (s : Crons) (name : Text) : Option CronSummary :=
  match CronCalls.readSpec chrono lib (env.specError name) s name with
  | .error _ => none
  | .ok (spec, _) => some
    { name := name
      schedule := spec.schedule
      timezone := spec.timezone
      target := spec.target
      enabled := spec.enabled
      createdBy := spec.createdBy
      createdAt := spec.createdAt
      nextFire := computeNextFire chrono lib (env.dirRead name) ((s.active.lookup name).getD []) spec now }

def handleListCrons (env : ViewEnv) (now : Int) (s : Crons) : List CronSummary :=
  if env.listed = false then []
  else ((s.active.map Prod.fst).mergeSort fun a b => a ≤ b).filterMap (summary chrono lib env now s)

/-- `value` parses the text of a spec once more, as it stands. -/
def handleShowCron (value : Text → Except Text Value) (env : ViewEnv) (now : Int) (s : Crons)
    (name : Text) : Except CronError (CronDetail Value) := do
  validateCronName name
  refuse (hasSpec s.active name = false) (missing name)
  let (spec, _) ← (CronCalls.readSpec chrono lib (env.specError name) s name).mapError
    (unreadable "failed to read cron '".toList name)
  let raw := (specBody s.active name).getD []
  let specValue ← (value raw).mapError fun e =>
    ⟨"failed to parse cron '".toList ++ (name ++ ("' yaml: ".toList ++ e)), "spec_unreadable".toList⟩
  let dir := (s.active.lookup name).getD []
  .ok ⟨name, specValue, listThreadRuns chrono (env.dirRead name) dir (some showRecentRuns),
    computeNextFire chrono lib (env.dirRead name) dir spec now⟩

def handleHistoryCron (env : ViewEnv) (s : Crons) (name : Text) (limit : Option Nat) :
    Except CronError (List CronRunEntry) := do
  validateCronName name
  refuse ((s.active.lookup name).isNone = true) (missing name)
  refuse (hasSpec s.active name = false) (missing name)
  let shown := min (limit.getD defaultHistoryLimit) maxHistoryLimit
  .ok (listThreadRuns chrono (env.dirRead name) ((s.active.lookup name).getD []) (some shown))

end Views

section Announcements
variable {Extra : Type} {chrono : Chrono} {lib : SpecLib Extra} {dir : FileMap}

/-- The loop finds what the engine takes for the latest fire. -/
theorem latestRun_eq (dir : FileMap) : latestRun chrono dir = latestFireInDir chrono dir := by
  have hloop : ∀ (dir : FileMap) (latest : Option Int),
      dir.foldl (fun latest e =>
        match (stripSuffix ".thread".toList e.1).bind (parseThreadFilenameTs chrono) with
        | none => latest
        | some ts => some (latest.elim ts (max · ts))) latest =
      (latest.toList ++ dir.filterMap fun e => fireOf chrono e.1).max? := by
    intro dir
    induction dir with
    | nil =>
      intro latest
      cases latest <;> rfl
    | cons e dir ih =>
      intro latest
      rw [List.foldl_cons, ih, List.filterMap_cons, fireOf]
      cases hfire : (stripSuffix ".thread".toList e.1).bind (parseThreadFilenameTs chrono) with
      | none => rfl
      | some ts => cases latest <;> rfl
  exact hloop dir none

/-- The announced time, as the engine would compute it at this moment. -/
theorem computeNextFire_eq (env : FireEnv) (dir : FileMap) (spec : CronSpec) (now : Int) :
    computeNextFire chrono lib env.dirRead dir spec now =
      ((rawAnchor chrono env dir spec).bind fun raw =>
        lib.nextFireAfter spec (clampAnchor now raw)).map chrono.toRfc3339 := by
  rw [computeNextFire, latestRun_eq, rawAnchor, Option.map_bind]
  cases (if env.dirRead = true then latestFireInDir chrono dir else none) <;> rfl

variable {Value : Type} {self specName body : Text} {spec : CronSpec} {created now now' raw t : Int} {S : Set Int}
  {times : List Int} {e e' : Engine} {a : Tick} {env env' : FireEnv}

/-- The time the engine waits for: the first occurrence behind the anchor, seen at the time `now`. -/
structure Awaited (S : Set Int) (now raw t : Int) : Prop where
  scheduled : t ∈ S
  after : clampAnchor now raw < t
  first : ∀ s ∈ S, clampAnchor now raw < s → t ≤ s

/-- It stays the same for as long as it is not two minutes old. -/
theorem Awaited.later (h : Awaited S now raw t) (hnow : now ≤ now') (hgrace : now' < t + graceWindow) :
    Awaited S now' raw t := by
  have hraw := (le_clampAnchor now raw).1
  have hafter := h.after
  have hmono : clampAnchor now raw ≤ clampAnchor now' raw :=
    clampAnchor_le (le_clampAnchor now' raw).1 (by
      have := (le_clampAnchor now' raw).2
      omega)
  refine ⟨h.scheduled, ?_, fun s hs hlater => h.first s hs (Int.lt_of_le_of_lt hmono hlater)⟩
  rw [clampAnchor]
  split <;> omega

theorem Awaited.next (h : Awaited S now raw t) (hS : Search S (lib.nextFireAfter spec)) :
    lib.nextFireAfter spec (clampAnchor now raw) = some t := by
  have hafter := h.after
  cases hnext : lib.nextFireAfter spec (clampAnchor now raw) with
  | none =>
    have hle := hS.exhausted _ hnext t h.scheduled
    omega
  | some n =>
    obtain ⟨hn, hlater, hleast⟩ := hS.found _ _ hnext
    have hle := hleast t h.scheduled hafter
    have hge := h.first n hn hlater
    rw [Int.le_antisymm hle hge]

theorem rawAnchor_congr (h : env.dirRead = env'.dirRead) :
    rawAnchor chrono env dir spec = rawAnchor chrono env' dir spec := by
  rw [rawAnchor, rawAnchor, h]

theorem readSpec_owned (howned : Owned chrono lib.engine self body spec created)
    (h : DirOk chrono S body created dir times) :
    CronEngine.readSpec chrono lib.engine env dir = if env.specRead then some spec else none := by
  rw [CronEngine.readSpec, h.spec, Option.bind_some, howned.parsed]

/-- A scan that reads the directory asks for the awaited time, once it is there. -/
theorem scanOne_awaited (hS : Search S (lib.nextFireAfter spec)) (hback : ∀ s ∈ S, ReadsBack chrono s)
    (howned : Owned chrono lib.engine self body spec created)
    (h : DirOk chrono S body created dir times) (hread : env.dirRead = true)
    (hraw : rawAnchor chrono env dir spec = some raw) (hawaited : Awaited S now raw t) :
    scanOne chrono lib.engine self now env specName dir =
      if env.specRead = true ∧ t ≤ now then some ⟨specName, spec, t⟩ else none := by
  have hfree : destAlreadyExists chrono dir t = false := by
    obtain ⟨raw', hraw', -, -, hlatest⟩ := rawAnchor_eq env hback howned h
    cases hraw.symm.trans hraw'
    refine (h.not_exists_iff hback hawaited.scheduled).mpr fun hmem => ?_
    have hold := hlatest hread t hmem
    have hclamp := (le_clampAnchor now raw).1
    have hafter := hawaited.after
    omega
  have hnext : lib.engine.nextFireAfter spec (clampAnchor now raw) = some t := hawaited.next hS
  rw [scanOne, readSpec_owned howned h]
  by_cases hspec : env.specRead = true
  · rw [if_pos hspec, Option.bind_some, if_pos ⟨howned.active, howned.target⟩, hraw, Option.bind_some,
      hnext, Option.bind_some, hfree]
    by_cases hdue : t ≤ now
    · rw [if_pos ⟨hdue, rfl⟩, if_pos ⟨hspec, hdue⟩]
    · rw [if_neg fun hboth => hdue hboth.1, if_neg fun hboth => hdue hboth.2]
  · rw [if_neg hspec, if_neg fun hboth => hspec hboth.1]
    rfl

/-- A directory in which a tick does nothing. -/
theorem tick_idle (hkeys : (e.crons.map Prod.fst).Nodup) (hdir : e.crons.lookup specName = some dir)
    (hscan : scanOne chrono lib.engine self a.now (a.env specName) specName dir = none) :
    ((tick chrono lib.engine self e a).crons.map Prod.fst).Nodup ∧
      (tick chrono lib.engine self e a).crons.lookup specName = some dir ∧
      timesOf specName (tick chrono lib.engine self e a) = timesOf specName e := by
  have htick : tickIn chrono lib.engine self specName a dir = (dir, []) := by
    rw [tickIn, hscan]
    split <;> rfl
  obtain ⟨hlookup, hfires⟩ := tick_oneSpec chrono lib.engine self a hkeys hdir
  rw [htick] at hlookup hfires
  refine ⟨keys_tick (e := e) (a := a) ▸ hkeys, hlookup, ?_⟩
  rw [timesOf, timesOf, hfires, List.map_nil, List.append_nil]

/-- Ticks none of which finds the spec due leave it as it is. -/
theorem run_idle {ticks : List Tick} (hkeys : (e.crons.map Prod.fst).Nodup)
    (hdir : e.crons.lookup specName = some dir)
    (hscan : ∀ a ∈ ticks, scanOne chrono lib.engine self a.now (a.env specName) specName dir = none)
    (hrun : run (CronEngine.step chrono lib.engine self) e ticks = some e') :
    (e'.crons.map Prod.fst).Nodup ∧ e'.crons.lookup specName = some dir ∧
      timesOf specName e' = timesOf specName e := by
  induction ticks generalizing e with
  | nil =>
    cases hrun
    exact ⟨hkeys, hdir, rfl⟩
  | cons a ticks ih =>
    obtain ⟨mid, hstep, hrest⟩ := run_cons_eq_some.mp hrun
    cases hstep
    obtain ⟨hkeys', hdir', htimes⟩ := tick_idle hkeys hdir (hscan a List.mem_cons_self)
    obtain ⟨hk, hd, ht⟩ := ih hkeys' hdir' (fun b hb => hscan b (List.mem_cons_of_mem a hb)) hrest
    exact ⟨hk, hd, ht.trans htimes⟩

/-- A calm tick at the awaited time fires it. -/
theorem tick_fires (hS : Search S (lib.nextFireAfter spec)) (hback : ∀ s ∈ S, ReadsBack chrono s)
    (howned : Owned chrono lib.engine self body spec created)
    (h : DirOk chrono S body created dir times) (hkeys : (e.crons.map Prod.fst).Nodup)
    (hdir : e.crons.lookup specName = some dir) (hcalm : Calm specName a)
    (hraw : rawAnchor chrono (a.env specName) dir spec = some raw)
    (hawaited : Awaited S a.now raw t) (hdue : t ≤ a.now) :
    timesOf specName (tick chrono lib.engine self e a) = timesOf specName e ++ [t] := by
  have hscan : scanOne chrono lib.engine self a.now (a.env specName) specName dir =
      some ⟨specName, spec, t⟩ := by
    rw [scanOne_awaited hS hback howned h hcalm.2.2.1 hraw hawaited, if_pos ⟨hcalm.2.1, hdue⟩]
  have hfree : destAlreadyExists chrono dir t = false :=
    (scanOne_eq_some hS hback howned h hscan).2.2.2.2.1
  have hfires := (tick_oneSpec chrono lib.engine self a hkeys hdir).2
  rw [tickIn, if_pos hcalm.1, hscan] at hfires
  have hfired : (fireIn chrono dir (a.env specName) ⟨specName, spec, t⟩).2 = true :=
    fireIn_calm hcalm h hfree
  simp only [hfired, if_true] at hfires
  rw [timesOf, timesOf, hfires, List.map_append]
  rfl

/-- What the list says of a cron that this clone owns. -/
theorem nextFire_of_shown {view : ViewEnv} {archived : List (Text × FileMap)} {shown : CronSummary}
    (howned : Owned chrono lib.engine self body spec created)
    (h : DirOk chrono S body created dir times) (hdir : e.crons.lookup specName = some dir)
    (hshown : shown ∈ handleListCrons chrono lib view now ⟨e.crons, archived⟩)
    (hname : shown.name = specName) :
    shown.nextFire = computeNextFire chrono lib (view.dirRead specName) dir spec now := by
  rw [handleListCrons] at hshown
  split at hshown
  · cases hshown
  · obtain ⟨name, -, hsummary⟩ := List.mem_filterMap.mp hshown
    rw [summary] at hsummary
    split at hsummary
    · cases hsummary
    · rename_i spec' extra hread
      cases hsummary
      cases hname
      obtain ⟨text, htext, hparsed⟩ := readSpec_eq_ok hread
      have hbody : text = body := by
        rw [specBody, hdir] at htext
        exact Option.some.inj (htext.symm.trans h.spec)
      have hspec : spec' = spec := by
        have hengine := howned.parsed
        rw [fromYaml_eq, ← hbody, hparsed] at hengine
        exact Option.some.inj hengine
      rw [hspec, hdir, Option.getD_some]

/-- The details of a cron are its line of the list and the newest five lines of its history. -/
theorem showCron_agrees {value : Text → Except Text Value} {view : ViewEnv} {s : Crons} {name : Text}
    {detail : CronDetail Value} (h : handleShowCron chrono lib value view now s name = .ok detail) :
    (∃ shown, summary chrono lib view now s name = some shown ∧ shown.nextFire = detail.nextFire) ∧
      handleHistoryCron chrono view s name (some showRecentRuns) = .ok detail.recentRuns := by
  obtain ⟨hname, h⟩ := then_eq_ok_iff.mp h
  obtain ⟨hspec, h⟩ := then_eq_ok_iff.mp h
  obtain ⟨⟨spec, extra⟩, hread, h⟩ := bind_eq_ok_iff.mp h
  obtain ⟨specValue, -, h⟩ := bind_eq_ok_iff.mp h
  obtain rfl := Except.ok.inj h
  have hread := mapError_eq_ok_iff.mp hread
  constructor
  · exact ⟨_, by rw [summary, hread], rfl⟩
  · have hdir : ¬ (s.active.lookup name).isNone = true := by
      intro hnone
      rw [Option.isNone_iff_eq_none] at hnone
      obtain ⟨body, hbody, -⟩ := readSpec_eq_ok hread
      rw [specBody, hnone] at hbody
      cases hbody
    rw [handleHistoryCron]
    refine then_eq_ok_iff.mpr ⟨hname, then_eq_ok_iff.mpr ⟨refuse_eq_ok_iff.mpr hdir,
      then_eq_ok_iff.mpr ⟨hspec, ?_⟩⟩⟩
    rfl

/-- The list announces what the engine does. If it names a time, no tick fires anything before that,
and the first calm tick from then on fires just this time, unless two minutes have passed. If it names
none, the cron never fires again. -/
theorem announced_fire_is_next {past : List Tick} {e₀ : Engine} {view : ViewEnv}
    {archived : List (Text × FileMap)} {shown : CronSummary}
    (hS : Search S (lib.nextFireAfter spec)) (hback : ∀ s ∈ S, ReadsBack chrono s)
    (howned : Owned chrono lib.engine self body spec created) (hfresh : Fresh chrono specName body e₀)
    (hpast : run (CronEngine.step chrono lib.engine self) e₀ past = some e)
    (hshown : shown ∈ handleListCrons chrono lib view now ⟨e.crons, archived⟩)
    (hname : shown.name = specName) (hread : view.dirRead specName = true) :
    (∀ text, shown.nextFire = some text → ∃ t ∈ S, text = chrono.toRfc3339 t ∧
      ∀ waiting e₁, (∀ a ∈ waiting, now ≤ a.now ∧ a.now < t ∧ (a.env specName).dirRead = true) →
        run (CronEngine.step chrono lib.engine self) e waiting = some e₁ →
        timesOf specName e₁ = timesOf specName e ∧
          ∀ a, Calm specName a → now ≤ a.now → t ≤ a.now → a.now < t + graceWindow →
            timesOf specName (tick chrono lib.engine self e₁ a) = timesOf specName e ++ [t]) ∧
    (shown.nextFire = none → ∀ ticks e₁,
      (∀ a ∈ ticks, now ≤ a.now ∧ (a.env specName).dirRead = true) →
      run (CronEngine.step chrono lib.engine self) e ticks = some e₁ →
      timesOf specName e₁ = timesOf specName e) := by
  have hok : SpecOk chrono specName body created S e := specOk_run hS hback howned hfresh.specOk hpast
  obtain ⟨dir, hdir, hdirok⟩ := hok.threads
  let reading : FireEnv := ⟨true, true, true, .complete, true, true⟩
  obtain ⟨raw, hraw, -⟩ := rawAnchor_eq reading hback howned hdirok
  have hanchor : ∀ env : FireEnv, env.dirRead = true → rawAnchor chrono env dir spec = some raw :=
    fun env henv => (rawAnchor_congr henv).trans hraw
  have hnextFire : shown.nextFire =
      (lib.nextFireAfter spec (clampAnchor now raw)).map chrono.toRfc3339 := by
    rw [nextFire_of_shown howned hdirok hdir hshown hname, hread,
      show true = reading.dirRead from rfl, computeNextFire_eq, hraw, Option.bind_some]
  cases hnext : lib.nextFireAfter spec (clampAnchor now raw) with
  | none =>
    rw [hnext] at hnextFire
    refine ⟨fun text htext => ?_, fun _ ticks e₁ hticks hrun => ?_⟩
    · cases hnextFire.symm.trans htext
    · refine (run_idle hok.keys hdir (fun a ha => ?_) hrun).2.2
      obtain ⟨hlater, hdirRead⟩ := hticks a ha
      -- nothing is left behind the anchor, and the anchor only moves forward
      have hmono : clampAnchor now raw ≤ clampAnchor a.now raw :=
        clampAnchor_le (le_clampAnchor a.now raw).1 (by
          have := (le_clampAnchor a.now raw).2
          omega)
      have hgone : lib.engine.nextFireAfter spec (clampAnchor a.now raw) = none := by
        cases hfind : lib.nextFireAfter spec (clampAnchor a.now raw) with
        | none => exact hfind
        | some n =>
          obtain ⟨hn, hafter, -⟩ := hS.found _ _ hfind
          have hle := hS.exhausted _ hnext n hn
          omega
      rw [scanOne, readSpec_owned howned hdirok]
      split
      · rw [Option.bind_some, if_pos ⟨howned.active, howned.target⟩, hanchor _ hdirRead,
          Option.bind_some, hgone, Option.bind_none]
      · rfl
  | some t =>
    rw [hnext] at hnextFire
    obtain ⟨ht, hafter, hfirst⟩ := hS.found _ _ hnext
    have hawaited : Awaited S now raw t := ⟨ht, hafter, hfirst⟩
    refine ⟨fun text htext => ⟨t, ht, ?_, fun waiting e₁ hwaiting hrun => ?_⟩, fun hnone => ?_⟩
    · exact Option.some.inj (htext.symm.trans hnextFire)
    · have hidle := run_idle hok.keys hdir (fun a ha => by
        obtain ⟨hlater, hearly, hdirRead⟩ := hwaiting a ha
        have hgrace : a.now < t + graceWindow := by
          rw [graceWindow, second]
          omega
        rw [scanOne_awaited hS hback howned hdirok hdirRead (hanchor _ hdirRead)
          (hawaited.later hlater hgrace), if_neg fun hboth => by omega]) hrun
      obtain ⟨hkeys, hdir₁, htimes⟩ := hidle
      refine ⟨htimes, fun a hcalm hlater hdue hgrace => ?_⟩
      rw [tick_fires hS hback howned hdirok hkeys hdir₁ hcalm (hanchor _ hcalm.2.2.1)
        (hawaited.later hlater hgrace) hdue, htimes]
    · cases hnextFire.symm.trans hnone

end Announcements

section Histories
variable {chrono : Chrono} {dir : FileMap} {S : Set Int} {body : Text} {created t : Int}
  {times : List Int}

/-- The line of a fire in the history. -/
def entryOf (chrono : Chrono) (t : Int) : CronRunEntry :=
  ⟨formatThreadFilenameTs chrono t, fileName chrono t⟩

/-- The library writes later times as greater texts. -/
def Chronological (chrono : Chrono) (S : Set Int) : Prop :=
  ∀ s ∈ S, ∀ t ∈ S, s < t → formatThreadFilenameTs chrono s < formatThreadFilenameTs chrono t

theorem runEntry_eq_some {fname : Text} {entry : CronRunEntry} :
    runEntry chrono fname = some entry ↔
      (fireOf chrono fname).isSome = true ∧ fname = entry.ts ++ ".thread".toList ∧
        entry.filename = fname := by
  rw [runEntry, fireOf]
  cases hstem : stripSuffix ".thread".toList fname with
  | none =>
    rw [Option.bind_none, Option.bind_none]
    constructor
    · intro h
      cases h
    · rintro ⟨h, -⟩
      cases h
  | some stem =>
    have hname := stripSuffix_eq_some_iff.mp hstem
    rw [Option.bind_some, Option.bind_some]
    cases hparse : parseThreadFilenameTs chrono stem with
    | none =>
      constructor
      · intro h
        cases h
      · rintro ⟨h, -⟩
        cases h
    | some ts =>
      rw [if_neg (by simp)]
      constructor
      · intro h
        cases h
        exact ⟨rfl, hname, rfl⟩
      · rintro ⟨-, hentry, hfile⟩
        have hts : stem = entry.ts := List.append_cancel_right (hname.symm.trans hentry)
        rw [hts, ← hfile]

/-- The entries of a directory are those of its fires. -/
theorem entries_perm (hback : ∀ s ∈ S, ReadsBack chrono s)
    (h : DirOk chrono S body created dir times) (hkeys : (dir.map Prod.fst).Nodup) :
    (dir.filterMap fun e => runEntry chrono e.1).Perm (times.map (entryOf chrono)) := by
  have hentries : dir.filterMap (fun e => runEntry chrono e.1) =
      (dir.map Prod.fst).filterMap (runEntry chrono) := by
    rw [List.filterMap_map]
    rfl
  rw [hentries]
  refine (List.perm_ext_iff_of_nodup ?_ ?_).mpr fun entry => ?_
  · refine hkeys.filterMap fun a b entry ha hb => ?_
    rw [← (runEntry_eq_some.mp ha).2.2, ← (runEntry_eq_some.mp hb).2.2]
  · refine h.once.map_on fun s hs t ht heq => ?_
    have hname : fileName chrono s = fileName chrono t := congrArg CronRunEntry.filename heq
    have hfire := congrArg (fireOf chrono) hname
    rw [fireOf_fileName (hback s (h.scheduled s hs).1), fireOf_fileName (hback t (h.scheduled t ht).1)]
      at hfire
    exact Option.some.inj hfire
  · rw [List.mem_filterMap, List.mem_map]
    constructor
    · rintro ⟨fname, hmem, hentry⟩
      obtain ⟨hfire, hts, hfile⟩ := runEntry_eq_some.mp hentry
      obtain ⟨t, ht⟩ := Option.isSome_iff_exists.mp hfire
      obtain ⟨content, hcontent⟩ := lookup_isSome_iff.mpr hmem
      obtain ⟨htimes, hname⟩ := h.files fname t (by rw [hcontent]; rfl) ht
      refine ⟨t, htimes, ?_⟩
      have hstem : formatThreadFilenameTs chrono t = entry.ts :=
        List.append_cancel_right (hname.symm.trans hts)
      rw [entryOf, hstem, ← hname, ← hfile]
    · rintro ⟨t, ht, rfl⟩
      have hfire := fireOf_fileName (hback t (h.scheduled t ht).1)
      obtain ⟨content, hcontent⟩ := Option.isSome_iff_exists.mp (h.present t ht)
      refine ⟨fileName chrono t, lookup_isSome_iff.mp ⟨content, hcontent⟩, ?_⟩
      exact runEntry_eq_some.mpr ⟨by rw [hfire]; rfl, rfl, rfl⟩

/-- Sorted by their texts, the entries are sorted by their times. -/
theorem sorted_entries (hback : ∀ s ∈ S, ReadsBack chrono s) (hordered : Chronological chrono S)
    (h : DirOk chrono S body created dir times) (hkeys : (dir.map Prod.fst).Nodup) :
    (dir.filterMap fun e => runEntry chrono e.1).mergeSort newestFirst =
      (times.mergeSort fun a b => b ≤ a).map (entryOf chrono) := by
  have hperm := entries_perm hback h hkeys
  have hsorted : ((times.mergeSort fun a b => b ≤ a).map (entryOf chrono)).Pairwise
      fun a b => newestFirst a b = true := by
    rw [List.pairwise_map]
    have htimes := @List.pairwise_mergeSort _ (fun a b : Int => decide (b ≤ a))
      (fun a b c hab hbc => by simp only [decide_eq_true_eq] at *; omega)
      (fun a b => by simp only [Bool.or_eq_true, decide_eq_true_eq]; omega) times
    refine htimes.imp_of_mem fun {a b} ha hb hle => ?_
    have ha' := (h.scheduled a (List.mem_mergeSort.mp ha)).1
    have hb' := (h.scheduled b (List.mem_mergeSort.mp hb)).1
    rw [newestFirst, decide_eq_true_eq]
    rcases Int.lt_or_eq_of_le (of_decide_eq_true hle) with hlt | heq
    · exact le_of_lt (hordered b hb' a ha' hlt)
    · rw [heq]
  have hmerged := @List.pairwise_mergeSort _ newestFirst
    (fun a b c hab hbc => by
      simp only [newestFirst, decide_eq_true_eq] at *
      exact le_trans hbc hab)
    (fun a b => by
      simp only [newestFirst, Bool.or_eq_true, decide_eq_true_eq]
      exact le_total b.ts a.ts)
    (dir.filterMap fun e => runEntry chrono e.1)
  refine List.Perm.eq_of_pairwise (fun a b ha hb hab hba => ?_) hmerged hsorted ?_
  · obtain ⟨s, -, rfl⟩ := List.mem_map.mp (hperm.mem_iff.mp (List.mem_mergeSort.mp ha))
    obtain ⟨t, -, rfl⟩ := List.mem_map.mp hb
    have hts : formatThreadFilenameTs chrono s = formatThreadFilenameTs chrono t :=
      le_antisymm (of_decide_eq_true hba) (of_decide_eq_true hab)
    rw [entryOf, entryOf, fileName, fileName, hts]
  · exact (List.mergeSort_perm _ _).trans
      (hperm.trans ((List.mergeSort_perm _ _).symm.map (entryOf chrono)))

theorem nodup_writeFile (hkeys : (dir.map Prod.fst).Nodup) (path : Path) (content : Text) :
    ((writeFile dir path content).map Prod.fst).Nodup := by
  rw [writeFile]
  by_cases hmem : path ∈ dir.map Prod.fst
  · rw [keys_upsert hmem]
    exact hkeys
  · rw [upsert_of_not_mem hmem, List.map_append]
    refine List.nodup_append.mpr ⟨hkeys, List.nodup_singleton _, ?_⟩
    rintro a ha b hb rfl
    have hpath : a = path := List.mem_singleton.mp hb
    exact hmem (hpath ▸ ha)

theorem nodup_removeFile (hkeys : (dir.map Prod.fst).Nodup) (path : Path) :
    ((removeFile dir path).map Prod.fst).Nodup :=
  hkeys.sublist (List.filter_sublist.map Prod.fst)

theorem nodup_fireIn (hkeys : (dir.map Prod.fst).Nodup) (env : FireEnv) (req : FireRequest) :
    ((fireIn chrono dir env req).1.map Prod.fst).Nodup := by
  rw [fireIn]
  split
  · exact hkeys
  · simp only
    split
    · exact hkeys
    · exact nodup_writeFile hkeys _ _
    · split
      · exact nodup_writeFile hkeys _ _
      · split
        · exact nodup_removeFile (nodup_writeFile hkeys _ _) _
        · exact nodup_writeFile hkeys _ _

variable {lib : CronLib} {self specName : Text} {spec : CronSpec} {e e' : Engine}

/-- No directory lists a name twice. -/
theorem nodup_run {ticks : List Tick} (hcrons : (e.crons.map Prod.fst).Nodup)
    (hdir : ∃ dir, e.crons.lookup specName = some dir ∧ (dir.map Prod.fst).Nodup)
    (hrun : run (CronEngine.step chrono lib self) e ticks = some e') :
    ∃ dir, e'.crons.lookup specName = some dir ∧ (dir.map Prod.fst).Nodup := by
  have hguard : Along (CronEngine.step chrono lib self) (fun _ _ => True) e ticks :=
    along_of_forall (fun _ _ _ => trivial) e
  refine (@run_invariant _ _ _ _ (fun e => (e.crons.map Prod.fst).Nodup ∧
    ∃ dir, e.crons.lookup specName = some dir ∧ (dir.map Prod.fst).Nodup) ?_ _ _ _ hrun hguard
      ⟨hcrons, hdir⟩).2
  rintro e a e' ⟨hkeys, dir, hlookup, hnodup⟩ - hstep
  cases hstep
  refine ⟨?_, _, (tick_oneSpec chrono lib self a hkeys hlookup).1, ?_⟩
  · rw [keys_tick]
    exact hkeys
  · rw [tickIn]
    split
    · split
      · exact hnodup
      · exact nodup_fireIn hnodup _ _
    · exact hnodup

/-- The history is the record of the engine. Whatever the ticks are and whatever fails, it shows the
times for which the cron was fired, each of them once and the latest first, as far as the limit goes. -/
theorem history_shows_fires {ticks : List Tick} {view : ViewEnv} {archived : List (Text × FileMap)}
    (hS : Search S (lib.nextFireAfter spec)) (hback : ∀ s ∈ S, ReadsBack chrono s)
    (hordered : Chronological chrono S) (howned : Owned chrono lib self body spec created)
    (hfresh : Fresh chrono specName body e)
    (hdir : ∀ dir, e.crons.lookup specName = some dir → (dir.map Prod.fst).Nodup)
    (hrun : run (CronEngine.step chrono lib self) e ticks = some e')
    (hread : view.dirRead specName = true) (hname : validateCronName specName = .ok ())
    (limit : Option Nat) :
    handleHistoryCron chrono view ⟨e'.crons, archived⟩ specName limit =
      .ok ((((timesOf specName e').mergeSort fun a b => b ≤ a).take (min (limit.getD 50) 1000)).map
        (entryOf chrono)) := by
  obtain ⟨dir, hlookup, hok⟩ := (specOk_run hS hback howned hfresh.specOk hrun).threads
  obtain ⟨first, hfirst, -⟩ := hfresh.threads
  obtain ⟨dir', hlookup', hkeys⟩ := nodup_run hfresh.keys ⟨first, hfirst, hdir first hfirst⟩ hrun
  cases hlookup.symm.trans hlookup'
  have hspec : hasSpec e'.crons specName = true := by
    have hbody : dir.lookup specFile = some body := hok.spec
    rw [hasSpec, hlookup, Option.bind_some, hbody]
    rfl
  have hsorted := sorted_entries hback hordered hok hkeys
  simp only [handleHistoryCron, hname, hlookup, hspec, listThreadRuns, hread, hsorted, refuse,
    Option.isNone_some, Option.getD_some, Option.elim_some, List.map_take]
  rfl

end Histories

section Samples

def dailyEngine : Engine := ⟨[(daily, [(specFile, onText)])], []⟩

def wholeView : ViewEnv := ⟨true, fun _ => none, fun _ => true⟩

/-- What is shown of the cron before its first fire. -/
def dailySummary : CronSummary :=
  ⟨daily, "* 9 * * *".toList, none, alice, true, alice, beforeNineText, some nineText⟩

theorem daily_owned : Owned sampleChrono sampleSpecLib.engine alice onText sampleSpec
    (nine - 30 * second) :=
  ⟨by decide +kernel, rfl, rfl, by decide +kernel⟩

theorem daily_fresh : Fresh sampleChrono daily onText dailyEngine where
  keys := List.nodup_singleton _
  threads := by
    refine ⟨[(specFile, onText)], rfl, rfl, fun name hname => ?_⟩
    obtain ⟨v, hv⟩ := Option.isSome_iff_exists.mp hname
    have hmem := lookup_isSome_iff.mp ⟨v, hv⟩
    rw [List.map_singleton, List.mem_singleton] at hmem
    rw [hmem]
    decide +kernel
  unfired := rfl

theorem daily_shown : dailySummary ∈ handleListCrons sampleChrono sampleSpecLib wholeView
    (nine - 20 * second) ⟨dailyEngine.crons, []⟩ := by
  decide +kernel

theorem announced_fire_is_next_sample : ∃ t ∈ sampleTimes, nineText = sampleChrono.toRfc3339 t ∧
    timesOf daily (tick sampleChrono sampleSpecLib.engine alice dailyEngine
      (calmTick (nine + 10 * second))) = [t] := by
  have hpast : run (CronEngine.step sampleChrono sampleSpecLib.engine alice) dailyEngine [] =
      some dailyEngine := rfl
  obtain ⟨hnamed, -⟩ := announced_fire_is_next sample_schedule.toSearch sample_readsBack daily_owned daily_fresh
    hpast daily_shown rfl rfl
  obtain ⟨t, ht, htext, hfire⟩ := hnamed nineText rfl
  obtain ⟨htimes, hnext⟩ := hfire [] dailyEngine (fun a ha => by cases ha) rfl
  have hdue : t = nine := by
    rcases ht with rfl | rfl
    · rfl
    · exact absurd htext (by decide +kernel)
  subst hdue
  exact ⟨nine, ht, htext, hnext (calmTick (nine + 10 * second)) ⟨rfl, rfl, rfl, rfl, rfl, rfl⟩
    (by decide) (by decide) (by decide)⟩

theorem sample_chronological : Chronological sampleChrono sampleTimes := by
  have hgap : ninePast = nine + 60 * second := rfl
  have hsecond : second = 1000000000 := rfl
  rintro s (rfl | rfl) t (rfl | rfl) hlt
  · exact absurd hlt (Int.lt_irrefl _)
  · decide +kernel
  · omega
  · exact absurd hlt (Int.lt_irrefl _)

theorem history_shows_fires_sample : ∃ e', run (CronEngine.step sampleChrono sampleLib alice) freshEngine
    sampleTicks = some e' ∧ handleHistoryCron sampleChrono wholeView ⟨e'.crons, []⟩ daily (some 1) =
      .ok ((((timesOf daily e').mergeSort fun a b => b ≤ a).take 1).map (entryOf sampleChrono)) := by
  have hsome : (run (CronEngine.step sampleChrono sampleLib alice) freshEngine sampleTicks).isSome =
      true := rfl
  obtain ⟨e', hrun⟩ := Option.isSome_iff_exists.mp hsome
  refine ⟨e', hrun, history_shows_fires sample_schedule.toSearch sample_readsBack sample_chronological
    sample_owned sample_fresh (fun dir hdir => ?_) hrun rfl (by decide +kernel) (some 1)⟩
  cases hdir
  exact List.nodup_singleton _

end Samples

end CronViews
