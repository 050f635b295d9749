import Mathlib.Data.List.Perm.Subperm
import GitIM.CronEngine
import GitIM.GitIndex

/-!
# The calls on cron triggers

A call looks at the repository, makes up its mind, and only then takes the commit lock; what it finds
there it looks at once more, but not at all of it. Between the two halves other calls and the engine
go on. The runs of a cron are files next to its spec, and a deleted cron takes them along into the
archive.
-/

namespace CronCalls

open Checked TextLines TextScan FileTree GitIndex Runs ThreadFormat Channels CronEngine

/-- The libraries behind a spec: YAML with the fields that this version does not know, the parsers of
schedules and time zones with their complaints, and the search for the next occurrence. -/
structure SpecLib (Extra : Type) where
  read : Text → Except Text (CronSpec × Extra)
  write : CronSpec × Extra → Except Text Text
  noExtra : Extra
  scheduleError : Text → Option Text
  timezoneError : Text → Option Text
  createdAtError : Text → Text
  nextFireAfter : CronSpec → Int → Option Int

def SpecLib.engine {Extra : Type} (lib : SpecLib Extra) : CronLib where
  fromStr := fun body => (lib.read body).toOption.map Prod.fst
  schedule := fun schedule => (lib.scheduleError schedule).isNone
  timezone := fun zone => (lib.timezoneError zone).isNone
  nextFireAfter := lib.nextFireAfter

structure CronError where
  message : Text
  code : Text
  deriving DecidableEq

section Names

inductive CronNameError where
  | empty
  | tooLong (length : Nat)
  | dotPrefix (name : Text)
  | reserved (name : Text)
  | badFirstChar (name : Text)
  | badChar (name : Text) (ch : Char)
  deriving DecidableEq

def CronNameError.text : CronNameError → Text
  | .empty => "cron name cannot be empty".toList
  | .tooLong length => "cron name exceeds 63 characters (got ".toList ++
      (Nat.toDigits 10 length ++ [')'])
  | .dotPrefix name => "cron name '".toList ++ (name ++ "' cannot start with '.'".toList)
  | .reserved name => "cron name '".toList ++ (name ++ "' is reserved".toList)
  | .badFirstChar name => "cron name '".toList ++
      (name ++ "' must start with a lowercase letter or digit".toList)
  | .badChar name ch => "cron name '".toList ++ (name ++ ("' contains invalid character '".toList ++
      (ch :: "' (allowed: a-z 0-9 -)".toList)))

def isLowerAlnum (c : Char) : Bool := c.isLower || c.isDigit

def coreValidateCronName (name : Text) : Except CronNameError Unit := do
  refuse (utf8Len name > 63) (.tooLong (utf8Len name))
  refuse (name.head? = some '.') (.dotPrefix name)
  refuse (name = "archive".toList ∨ name = "crons".toList) (.reserved name)
  match name with
  | [] => .error .empty
  | first :: _ => do
    refuse (isLowerAlnum first = false) (.badFirstChar name)
    checkSome (name.find? fun c => !(isLowerAlnum c || c = '-')) fun c => .error (.badChar name c)

def validateCronName (name : Text) : Except CronError Unit :=
  (coreValidateCronName name).mapError fun e => ⟨e.text, "invalid_name".toList⟩

end Names

section Specs
variable {Extra : Type} (chrono : Chrono) (lib : SpecLib Extra)

inductive CronSpecError where
  | invalidVersion (version : Nat)
  | invalidSchedule (error : Text)
  | invalidTimezone (error : Text)
  | emptyPrompt
  | oversizedPrompt (length : Nat)
  | invalidCreatedAt (error : Text)
  | createdAtNotUtc (createdAt : Text)
  deriving DecidableEq

def CronSpecError.text : CronSpecError → Text
  | .invalidVersion v => "unsupported spec version ".toList ++
      (Nat.toDigits 10 v ++ ", expected 1".toList)
  | .invalidSchedule e => "invalid cron schedule: ".toList ++ e
  | .invalidTimezone e => "invalid IANA timezone: ".toList ++ e
  | .emptyPrompt => "prompt cannot be empty".toList
  | .oversizedPrompt len => "prompt exceeds 8192 bytes (got ".toList ++ (Nat.toDigits 10 len ++ [')'])
  | .invalidCreatedAt e => "invalid created_at timestamp: ".toList ++ e
  | .createdAtNotUtc t => "created_at must be UTC (end with 'Z'), got: ".toList ++ t

def CronSpecError.code : CronSpecError → Text
  | .invalidVersion _ => "invalid_version".toList
  | .invalidSchedule _ => "invalid_schedule".toList
  | .invalidTimezone _ => "invalid_timezone".toList
  | .emptyPrompt => "prompt_empty".toList
  | .oversizedPrompt _ => "prompt_too_large".toList
  | .invalidCreatedAt _ => "invalid_created_at".toList
  | .createdAtNotUtc _ => "invalid_created_at".toList

def validate (spec : CronSpec) : Except CronSpecError Unit := do
  refuse (spec.version ≠ 1) (.invalidVersion spec.version)
  checkSome (lib.scheduleError spec.schedule) fun e => .error (.invalidSchedule e)
  checkSome spec.timezone fun zone =>
    checkSome (lib.timezoneError zone) fun e => .error (.invalidTimezone (zone ++ (": ".toList ++ e)))
  refuse (spec.prompt = []) .emptyPrompt
  refuse (utf8Len spec.prompt > maxPromptBytes) (.oversizedPrompt (utf8Len spec.prompt))
  refuse (chrono.fromRfc3339 spec.createdAt = none)
    (.invalidCreatedAt (spec.createdAt ++ (": ".toList ++ lib.createdAtError spec.createdAt)))
  refuse (spec.createdAt.getLast? ≠ some 'Z') (.createdAtNotUtc spec.createdAt)

/-- The checks of the calls are those of the engine. -/
theorem validate_ok_iff (spec : CronSpec) :
    validate chrono lib spec = .ok () ↔ spec.valid chrono lib.engine = true := by
  have hzone : (∀ zone, spec.timezone = some zone → lib.timezoneError zone = none) ↔
      spec.timezone.all lib.engine.timezone = true := by
    cases spec.timezone <;> simp [SpecLib.engine]
  have hinner : ∀ zone, checkSome (lib.timezoneError zone) (fun e => (.error
      (.invalidTimezone (zone ++ (": ".toList ++ e))) : Except CronSpecError Unit)) = .ok () ↔
        lib.timezoneError zone = none := by
    intro zone
    cases lib.timezoneError zone <;> simp [checkSome]
  have hschedule : checkSome (lib.scheduleError spec.schedule) (fun e => (.error
      (.invalidSchedule e) : Except CronSpecError Unit)) = .ok () ↔
        lib.engine.schedule spec.schedule = true := by
    simp only [SpecLib.engine]
    cases lib.scheduleError spec.schedule <;> simp [checkSome]
  simp only [validate, CronSpec.valid, then_eq_ok_iff, refuse_eq_ok_iff, checkSome_eq_ok_iff,
    decide_eq_true_iff, hschedule, hinner, hzone]
  simp [Option.isSome_iff_ne_none]

/-- Parsed and checked. -/
def specFromYaml (body : Text) : Except Text (CronSpec × Extra) := do
  let parsed ← (lib.read body).mapError ("YAML parse error: ".toList ++ ·)
  (validate chrono lib parsed.1).mapError CronSpecError.text
  .ok parsed

theorem fromYaml_eq (body : Text) :
    fromYaml chrono lib.engine body = (specFromYaml chrono lib body).toOption.map Prod.fst := by
  cases hread : lib.read body with
  | error e => simp [fromYaml, specFromYaml, SpecLib.engine, hread, Except.toOption, Except.mapError,
      bind, Except.bind]
  | ok parsed =>
    have hvalid := validate_ok_iff chrono lib parsed.1
    cases hcheck : validate chrono lib parsed.1 with
    | error e =>
      have hnot : parsed.1.valid chrono lib.engine = false := by
        rw [← Bool.not_eq_true, ← hvalid, hcheck]
        simp
      have hparsed : lib.engine.fromStr body = some parsed.1 := by
        simp [SpecLib.engine, hread, Except.toOption]
      simp [fromYaml, specFromYaml, hparsed, hread, hcheck, hnot, Except.toOption, Except.mapError, bind,
        Except.bind]
    | ok u =>
      have hyes : parsed.1.valid chrono lib.engine = true := hvalid.mp hcheck
      have hparsed : lib.engine.fromStr body = some parsed.1 := by
        simp [SpecLib.engine, hread, Except.toOption]
      simp [fromYaml, specFromYaml, hparsed, hread, hcheck, hyes, Except.toOption, Except.mapError, bind,
        Except.bind]

end Specs

section Calls

/-- The directories of the crons, in use and archived. -/
structure Crons where
  active : List (Text × FileMap)
  archived : List (Text × FileMap)

def specFile : Path := "spec.yaml".toList

/-- Whether there is a spec below a name. -/
def hasSpec (dirs : List (Text × FileMap)) (name : Text) : Bool :=
  ((dirs.lookup name).bind (·.lookup specFile)).isSome

def setDir (dirs : List (Text × FileMap)) (name : Text) (dir : FileMap) : List (Text × FileMap) :=
  upsert (fun _ => dir) name dirs

def dropDir (dirs : List (Text × FileMap)) (name : Text) : List (Text × FileMap) :=
  dirs.filter fun e => e.1 ≠ name

/-- `remove_dir` takes an empty directory only. -/
def removeDir (dirs : List (Text × FileMap)) (name : Text) : List (Text × FileMap) :=
  if dirs.lookup name = some [] then dropDir dirs name else dirs

/-- What a call meets before it takes the lock. -/
structure CheckEnv where
  now : Int
  departed : Bool
  registered : Text → Bool
  specError : Option Text
  archiveDirError : Option Text

/-- What a call meets under the lock. -/
structure LockEnv where
  dirError : Option Text
  specError : Option Text
  writeError : Text
  write : WriteResult
  moveError : Option Text
  gitWords : Text
  commitError : Option Text
  removed : Bool
  restored : WriteResult
  movedBack : Bool

inductive Call where
  | create (name schedule : Text) (timezone : Option Text) (target prompt author : Text)
  | toggle (name author : Text) (enable : Bool)
  | delete (name author : Text)

/-- A call that has made up its mind. -/
inductive Job where
  | create (name specYaml : Text)
  | toggle (name newYaml : Text) (enable : Bool)
  | delete (name : Text)
  deriving DecidableEq

def Job.name : Job → Text
  | .create name _ => name
  | .toggle name _ _ => name
  | .delete name => name

variable {Extra : Type} (chrono : Chrono) (lib : SpecLib Extra)

def conflict (name : Text) : CronError :=
  ⟨"cron '".toList ++ (name ++ "' already exists".toList), "name_conflict".toList⟩

def missing (name : Text) : CronError :=
  ⟨"cron '".toList ++ (name ++ "' does not exist".toList), "not_found".toList⟩

def checkAuthor (env : CheckEnv) (author : Text) : Except CronError Handler := do
  let handler ← (Handler.new author).mapError fun e =>
    ⟨"invalid author: ".toList ++ handlerErrorText e, "invalid_author".toList⟩
  refuse (env.departed = true)
    ⟨"user @".toList ++ (handler.name ++ " is departed".toList), "self_departed".toList⟩
  .ok handler

def lowerAscii (c : Char) : Char := if c.isUpper then c.toLower else c

/-- `@self`, in whatever case, is the author. -/
def resolveTarget (env : CheckEnv) (author : Handler) (target : Text) : Except CronError Handler :=
  let stripped := (stripPrefix ['@'] target).getD target
  if stripped.map lowerAscii = "self".toList then .ok author
  else do
    let handler ← (Handler.new stripped).mapError fun e =>
      ⟨"invalid target handler: ".toList ++ handlerErrorText e, "invalid_target".toList⟩
    refuse (env.registered handler.name = false)
      ⟨"target user @".toList ++ (handler.name ++ " not found".toList), "target_not_found".toList⟩
    .ok handler

def newSpec (now : Int) (schedule : Text) (timezone : Option Text) (target prompt author : Text) :
    CronSpec where
  version := 1
  schedule := schedule
  timezone := timezone
  target := target
  prompt := prompt
  enabled := true
  createdBy := author
  createdAt := chrono.toRfc3339 now

def serialize (spec : CronSpec × Extra) : Except CronError Text :=
  (lib.write spec).mapError fun e =>
    ⟨"failed to serialize cron spec: ".toList ++ e, "serialize_failed".toList⟩

def prepareCreate (env : CheckEnv) (s : Crons) (name schedule : Text) (timezone : Option Text)
    (target prompt author : Text) : Except CronError (Option Job) := do
  validateCronName name
  let creator ← checkAuthor env author
  let resolved ← resolveTarget env creator target
  refuse (hasSpec s.active name = true) (conflict name)
  refuse (hasSpec s.archived name = true)
    ⟨"cron '".toList ++ (name ++ "' exists in archive".toList), "name_conflict".toList⟩
  let spec := newSpec chrono env.now schedule timezone resolved.name prompt creator.name
  (validate chrono lib spec).mapError fun e => ⟨e.text, e.code⟩
  let body ← serialize lib (spec, lib.noExtra)
  .ok (some (.create name body))

/-- Read and checked; `error` is what the file system complains of. -/
def readSpec (error : Option Text) (s : Crons) (name : Text) : Except Text (CronSpec × Extra) :=
  match error, (s.active.lookup name).bind (·.lookup specFile) with
  | some e, _ => .error e
  | none, none => .error "No such file or directory".toList
  | none, some body => specFromYaml chrono lib body

def unreadable (what name e : Text) : CronError :=
  ⟨what ++ (name ++ ("': ".toList ++ e)), "spec_unreadable".toList⟩

def prepareToggle (env : CheckEnv) (s : Crons) (name author : Text) (enable : Bool) :
    Except CronError (Option Job) := do
  validateCronName name
  let _ ← checkAuthor env author
  refuse (hasSpec s.active name = false) (missing name)
  let (spec, extra) ← (readSpec chrono lib env.specError s name).mapError
    (unreadable "failed to read cron '".toList name)
  if spec.enabled = enable then .ok none
  else do
    let body ← serialize lib ({ spec with enabled := enable }, extra)
    .ok (some (.toggle name body enable))

def prepareDelete (env : CheckEnv) (s : Crons) (name author : Text) :
    Except CronError (Option Job) := do
  validateCronName name
  let _ ← checkAuthor env author
  refuse (hasSpec s.active name = false) (missing name)
  refuse ((s.archived.lookup name).isSome = true) ⟨"cron '".toList ++
    (name ++ "' already has an archive entry; delete aborted".toList), "archive_conflict".toList⟩
  checkSome env.archiveDirError fun e =>
    .error ⟨"failed to create archive/crons dir: ".toList ++ e, "fs_error".toList⟩
  .ok (some (.delete name))

/-- The first half of a call: an error, an answer at once, or a job for the second half. -/
def prepare (env : CheckEnv) (s : Crons) : Call → Except CronError (Option Job)
  | .create name schedule timezone target prompt author =>
    prepareCreate chrono lib env s name schedule timezone target prompt author
  | .toggle name author enable => prepareToggle chrono lib env s name author enable
  | .delete name author => prepareDelete env s name author

/-- The end of a call, and the directories behind it. -/
abbrev Ending := Except CronError Bool × Crons

def fsError (what e : Text) : Except CronError Bool := .error ⟨what ++ e, "fs_error".toList⟩

def commitFailed (what e : Text) : Except CronError Bool :=
  .error ⟨what ++ e, "commit_failed".toList⟩

def finishCreate (env : LockEnv) (s : Crons) (name specYaml : Text) : Ending :=
  if hasSpec s.active name = true then (.error (conflict name), s)
  else
    match env.dirError with
    | some e => (fsError "failed to create cron dir: ".toList e, s)
    | none =>
      let dir := (s.active.lookup name).getD []
      match env.write with
      | .notOpened => (fsError "failed to write spec.yaml: ".toList env.writeError,
          { s with active := removeDir (setDir s.active name dir) name })
      | .stopped n => (fsError "failed to write spec.yaml: ".toList env.writeError,
          { s with active := removeDir (setDir s.active name
            (writeFile dir specFile (specYaml.take n))) name })
      | .complete =>
        let written := writeFile dir specFile specYaml
        match env.commitError with
        | none => (.ok true, { s with active := setDir s.active name written })
        | some e =>
          let left := if env.removed then removeFile written specFile else written
          (commitFailed "create_cron commit failed: ".toList e,
            { s with active := removeDir (setDir s.active name left) name })

/-- A file opened for writing is empty before anything is written. -/
def overwrite (dir : FileMap) (path : Path) (content : Text) : WriteResult → FileMap
  | .notOpened => dir
  | .stopped n => writeFile dir path (content.take n)
  | .complete => writeFile dir path content

def finishToggle (env : LockEnv) (s : Crons) (name newYaml : Text) (enable : Bool) : Ending :=
  match readSpec chrono lib env.specError s name with
  | .error e => (.error ⟨"failed to re-read cron under lock: ".toList ++ e,
      "spec_unreadable".toList⟩, s)
  | .ok current =>
    if current.1.enabled = enable then (.ok false, s)
    else
      let dir := (s.active.lookup name).getD []
      let written := overwrite dir specFile newYaml env.write
      if env.write ≠ .complete then
        (fsError "failed to write spec.yaml: ".toList env.writeError,
          { s with active := setDir s.active name written })
      else
        match env.commitError with
        | none => (.ok true, { s with active := setDir s.active name written })
        | some e =>
          let back := match lib.write current with
            | .error _ => written
            | .ok old => overwrite written specFile old env.restored
          (commitFailed "toggle commit failed: ".toList e,
            { s with active := setDir s.active name back })

/-- `git mv` of a whole directory. One that exists takes the moved one inside. -/
def moveInto (words : Text) (source target : List (Text × FileMap)) (name : Text) :
    Except Text (List (Text × FileMap) × List (Text × FileMap)) :=
  match source.lookup name, target.lookup name with
  | none, _ => .error words
  | some dir, none => .ok (dropDir source name, setDir target name dir)
  | some dir, some there =>
    if there.any fun e => name ++ ['/'] <+: e.1 then .error words
    else .ok (dropDir source name,
      setDir target name (there ++ dir.map fun e => (name ++ '/' :: e.1, e.2)))

def finishDelete (env : LockEnv) (s : Crons) (name : Text) : Ending :=
  if hasSpec s.active name = false then (.error (missing name), s)
  else
    match env.moveError.elim (moveInto env.gitWords s.active s.archived name) .error with
    | .error e => (.error ⟨"git mv failed: ".toList ++ e, "git_error".toList⟩, s)
    | .ok (active, archived) =>
      match env.commitError with
      | none => (.ok true, ⟨active, archived⟩)
      | some e =>
        match if env.movedBack then moveInto env.gitWords archived active name else .error e with
        | .error _ => (commitFailed "delete_cron commit failed: ".toList e, ⟨active, archived⟩)
        | .ok (archived, active) =>
          (commitFailed "delete_cron commit failed: ".toList e, ⟨active, archived⟩)

def finish (env : LockEnv) (s : Crons) : Job → Ending
  | .create name specYaml => finishCreate env s name specYaml
  | .toggle name newYaml enable => finishToggle chrono lib env s name newYaml enable
  | .delete name => finishDelete env s name

/-- The crons, the calls between their halves, and what the engine has found due. -/
structure State where
  crons : Crons
  jobs : List Job
  requests : List FireRequest

inductive Action where
  | begin (call : Call) (env : CheckEnv)
  | finish (i : Nat) (env : LockEnv)
  | scan (self : Text) (tick : Tick)
  | fire (i : Nat) (env : FireEnv)

/-- The thread of a fire, written under the lock. -/
def fireOne (env : FireEnv) (s : Crons) (req : FireRequest) : Crons :=
  match s.active.lookup req.specName with
  | none => s
  | some dir => { s with active := setDir s.active req.specName (fireIn chrono dir env req).1 }

def step (s : State) : Action → Option State
  | .begin call env =>
    match prepare chrono lib env s.crons call with
    | .ok (some job) => some { s with jobs := s.jobs ++ [job] }
    | .ok none => some s
    | .error _ => some s
  | .finish i env => s.jobs[i]?.map fun job =>
      { s with crons := (finish chrono lib env s.crons job).2, jobs := s.jobs.eraseIdx i }
  | .scan self tick => some
      { s with requests := s.requests ++ scanDue chrono lib.engine self tick s.crons.active }
  | .fire i env => s.requests[i]?.map fun req =>
      { s with crons := fireOne chrono env s.crons req, requests := s.requests.eraseIdx i }

end Calls

section History

/-- The runs in a directory: the files that are not specs, by name, however deep they lie. -/
def runsIn (dir : FileMap) : List (Text × Text) :=
  (dir.map fun e => (baseName e.1, e.2)).filter fun e => e.1 ≠ specFile

/-- The runs of a name in two places. -/
def held (a b : List (Text × FileMap)) (name : Text) : List (Text × Text) :=
  runsIn ((a.lookup name).getD []) ++ runsIn ((b.lookup name).getD [])

/-- All runs of a cron, in use or archived. -/
def history (s : Crons) (name : Text) : List (Text × Text) := held s.active s.archived name

variable {dir : FileMap} {name : Text}

/-- A letter that is not taken ends the prefix, whatever comes behind it. -/
theorem takeWhile_stop {α : Type} {p : α → Bool} {c : α} (hc : p c = false) (front back : List α) :
    (front ++ c :: back).takeWhile p = front.takeWhile p := by
  induction front with
  | nil => simp [hc]
  | cons a front ih =>
    rw [List.cons_append, List.takeWhile_cons, List.takeWhile_cons, ih]

theorem baseName_below (dir p : Path) : baseName (dir ++ '/' :: p) = baseName p := by
  rw [baseName, baseName, List.reverse_append, List.reverse_cons, List.append_assoc,
    List.singleton_append, takeWhile_stop (by simp)]

theorem baseName_specFile : baseName specFile = specFile := by decide +kernel

theorem runsIn_append (a b : FileMap) : runsIn (a ++ b) = runsIn a ++ runsIn b := by
  rw [runsIn, List.map_append, List.filter_append]
  rfl

theorem runsIn_below (name : Text) (dir : FileMap) :
    runsIn (dir.map fun e => (name ++ '/' :: e.1, e.2)) = runsIn dir := by
  rw [runsIn, runsIn, List.map_map]
  congr 2
  funext e
  simp [baseName_below]

theorem runsIn_cons (e : Path × Text) (dir : FileMap) :
    runsIn (e :: dir) =
      (if baseName e.1 ≠ specFile then [(baseName e.1, e.2)] else []) ++ runsIn dir := by
  rw [runsIn, List.map_cons, List.filter_cons]
  by_cases h : baseName e.1 = specFile <;> simp [h, runsIn]

/-- A spec is no run. -/
theorem runsIn_writeSpec (dir : FileMap) (content : Text) :
    runsIn (writeFile dir specFile content) = runsIn dir := by
  rw [writeFile]
  induction dir with
  | nil => simp [upsert, runsIn, baseName_specFile]
  | cons e dir ih =>
    obtain ⟨p, c⟩ := e
    rw [upsert]
    split
    · rename_i hp
      rw [runsIn_cons, runsIn_cons, hp, baseName_specFile]
      simp
    · rw [runsIn_cons, runsIn_cons, ih]

theorem runsIn_removeSpec (dir : FileMap) : runsIn (removeFile dir specFile) = runsIn dir := by
  rw [removeFile]
  induction dir with
  | nil => rfl
  | cons e dir ih =>
    by_cases hp : e.1 = specFile
    · rw [List.filter_cons_of_neg (by simpa using hp), runsIn_cons, hp, baseName_specFile, ih]
      simp
    · rw [List.filter_cons_of_pos (by simpa using hp), runsIn_cons, runsIn_cons, ih]

theorem runsIn_overwrite (dir : FileMap) (content : Text) (result : WriteResult) :
    runsIn (overwrite dir specFile content result) = runsIn dir := by
  cases result with
  | notOpened => rfl
  | stopped n => exact runsIn_writeSpec dir _
  | complete => exact runsIn_writeSpec dir _

variable {dirs a b : List (Text × FileMap)}

theorem lookup_setDir (dirs : List (Text × FileMap)) (name other : Text) (dir : FileMap) :
    (setDir dirs name dir).lookup other = if other = name then some dir else dirs.lookup other :=
  lookup_upsert _ _ _ _

theorem lookup_dropDir (dirs : List (Text × FileMap)) (name other : Text) :
    (dropDir dirs name).lookup other = if other = name then none else dirs.lookup other := by
  rw [dropDir, lookup_filter_key fun k => k ≠ name]
  by_cases h : other = name <;> simp [h]

/-- An empty directory has no runs. -/
theorem runs_removeDir (dirs : List (Text × FileMap)) (name other : Text) :
    runsIn (((removeDir dirs name).lookup other).getD []) = runsIn ((dirs.lookup other).getD []) := by
  rw [removeDir]
  split
  · rename_i hempty
    rw [lookup_dropDir]
    split
    · rename_i heq
      rw [heq, hempty]
      rfl
    · rfl
  · rfl

/-- A directory that keeps its runs, among the others. -/
theorem runs_setDir {new : FileMap} (h : runsIn new = runsIn ((dirs.lookup name).getD []))
    (other : Text) :
    runsIn (((setDir dirs name new).lookup other).getD []) = runsIn ((dirs.lookup other).getD []) := by
  rw [lookup_setDir]
  split
  · rename_i heq
    rw [heq, ← h]
    rfl
  · rfl

/-- A move takes the runs along. -/
theorem moveInto_held {words : Text} {a' b' : List (Text × FileMap)}
    (h : moveInto words a b name = .ok (a', b')) (other : Text) :
    (held a' b' other).Perm (held a b other) := by
  rw [moveInto] at h
  split at h
  · cases h
  · rename_i dir hsource htarget
    cases h
    rw [held, held, lookup_dropDir, lookup_setDir]
    by_cases heq : other = name
    · simp [heq, hsource, htarget, runsIn]
    · simp [heq]
  · rename_i dir there hsource htarget
    split at h
    · cases h
    · cases h
      rw [held, held, lookup_dropDir, lookup_setDir]
      by_cases heq : other = name
      · simp only [heq, if_true, hsource, htarget, Option.getD_some, Option.getD_none, runsIn_append,
          runsIn_below]
        have hswap : (runsIn there ++ runsIn dir).Perm (runsIn dir ++ runsIn there) :=
          List.perm_append_comm
        exact hswap
      · simp [heq]

variable {Extra : Type} {chrono : Chrono} {lib : SpecLib Extra} {s s' : Crons}

theorem history_active {active : List (Text × FileMap)} {other : Text}
    (h : runsIn ((active.lookup other).getD []) = runsIn ((s.active.lookup other).getD [])) :
    history { s with active := active } other = history s other := by
  rw [history, history, held, held, h]

theorem finishCreate_history (env : LockEnv) (s : Crons) (name body other : Text) :
    history (finishCreate env s name body).2 other = history s other := by
  have hwrite : ∀ content, runsIn (writeFile ((s.active.lookup name).getD []) specFile content) =
      runsIn ((s.active.lookup name).getD []) := runsIn_writeSpec _
  have hkeep : ∀ dir, runsIn dir = runsIn ((s.active.lookup name).getD []) →
      history { s with active := removeDir (setDir s.active name dir) name } other = history s other :=
    fun dir hdir => history_active ((runs_removeDir _ _ _).trans (runs_setDir hdir other))
  rw [finishCreate]
  split
  · rfl
  · split
    · rfl
    · simp only
      split
      · exact hkeep _ rfl
      · exact hkeep _ (hwrite _)
      · split
        · exact history_active (runs_setDir (hwrite _) other)
        · refine hkeep _ ?_
          split
          · exact (runsIn_removeSpec _).trans (hwrite _)
          · exact hwrite _

theorem finishToggle_history (env : LockEnv) (s : Crons) (name body other : Text) (enable : Bool) :
    history (finishToggle chrono lib env s name body enable).2 other = history s other := by
  have hkeep : ∀ dir, runsIn dir = runsIn ((s.active.lookup name).getD []) →
      history { s with active := setDir s.active name dir } other = history s other :=
    fun dir hdir => history_active (runs_setDir hdir other)
  have hwritten := runsIn_overwrite ((s.active.lookup name).getD []) body env.write
  rw [finishToggle]
  split
  · rfl
  · split
    · rfl
    · simp only
      split
      · exact hkeep _ hwritten
      · split
        · exact hkeep _ hwritten
        · refine hkeep _ ?_
          split
          · exact hwritten
          · exact (runsIn_overwrite _ _ _).trans hwritten

theorem finishDelete_history (env : LockEnv) (s : Crons) (name other : Text) :
    (history (finishDelete env s name).2 other).Perm (history s other) := by
  rw [finishDelete]
  split
  · exact .refl _
  · split
    · exact .refl _
    · rename_i active archived hmoved
      have hinto : moveInto env.gitWords s.active s.archived name = .ok (active, archived) := by
        cases hrefused : env.moveError with
        | none => simpa [hrefused] using hmoved
        | some e => simp [hrefused] at hmoved
      have hfirst : (history ⟨active, archived⟩ other).Perm (history s other) :=
        moveInto_held hinto other
      split
      · exact hfirst
      · split
        · exact hfirst
        · rename_i archived' active' hback
          have hreturned : moveInto env.gitWords archived active name = .ok (archived', active') := by
            by_cases hmovedBack : env.movedBack = true
            · simpa [hmovedBack] using hback
            · simp [hmovedBack] at hback
          have hsecond := moveInto_held hreturned other
          refine List.Perm.trans ?_ hfirst
          exact List.perm_append_comm.trans (hsecond.trans List.perm_append_comm)

theorem runsIn_fireIn (dir : FileMap) (env : FireEnv) (req : FireRequest) :
    ∃ more, runsIn (fireIn chrono dir env req).1 = runsIn dir ++ more := by
  rw [fireIn]
  split
  · exact ⟨[], (List.append_nil _).symm⟩
  · rename_i hgo
    have hfresh : fileName chrono req.theoreticalTs ∉ dir.map Prod.fst := by
      intro hmem
      obtain ⟨v, hv⟩ := lookup_isSome_iff.mpr hmem
      apply hgo
      right
      left
      rw [destAlreadyExists, hv]
      rfl
    have hwritten : ∀ content, writeFile dir (fileName chrono req.theoreticalTs) content =
        dir ++ [(fileName chrono req.theoreticalTs, content)] :=
      fun content => upsert_of_not_mem hfresh
    simp only
    split
    · exact ⟨[], (List.append_nil _).symm⟩
    · exact ⟨_, by rw [hwritten, runsIn_append]⟩
    · split
      · exact ⟨_, by rw [hwritten, runsIn_append]⟩
      · split
        · refine ⟨[], ?_⟩
          have hremoved : removeFile (dir ++ [(fileName chrono req.theoreticalTs,
              formatCronBody chrono req.specName req.spec.prompt req.theoreticalTs)])
                (fileName chrono req.theoreticalTs) = dir := by
            rw [removeFile, List.filter_append]
            have hall : dir.filter (fun e => decide (e.1 ≠ fileName chrono req.theoreticalTs)) = dir := by
              rw [List.filter_eq_self]
              intro e he
              have hne : e.1 ≠ fileName chrono req.theoreticalTs := fun heq =>
                hfresh (heq ▸ List.mem_map_of_mem he)
              simpa using hne
            rw [hall]
            simp
          rw [hwritten, hremoved, List.append_nil]
        · exact ⟨_, by rw [hwritten, runsIn_append]⟩

theorem fireOne_history (env : FireEnv) (s : Crons) (req : FireRequest) (other : Text) :
    List.Subperm (history s other) (history (fireOne chrono env s req) other) := by
  rw [fireOne]
  split
  · exact .refl _
  · rename_i dir hdir
    obtain ⟨more, hmore⟩ := @runsIn_fireIn chrono dir env req
    rw [history, history, held, held, lookup_setDir]
    refine List.Subperm.append ?_ (.refl _)
    split
    · rename_i heq
      rw [heq, hdir, Option.getD_some, Option.getD_some, hmore]
      exact (List.sublist_append_left _ _).subperm
    · exact .refl _

theorem step_history {s s' : State} {a : Action} (hstep : step chrono lib s a = some s') (name : Text) :
    List.Subperm (history s.crons name) (history s'.crons name) := by
  cases a with
  | begin call env =>
    rw [step] at hstep
    split at hstep <;> cases hstep <;> exact .refl _
  | finish i env =>
    obtain ⟨job, -, rfl⟩ := Option.map_eq_some_iff.mp hstep
    cases job with
    | create other body =>
      exact (List.Perm.of_eq (finishCreate_history env s.crons other body name).symm).subperm
    | toggle other body enable =>
      exact (List.Perm.of_eq (finishToggle_history env s.crons other body name enable).symm).subperm
    | delete other => exact (finishDelete_history env s.crons other name).symm.subperm
  | scan self tick =>
    cases hstep
    exact .refl _
  | fire i env =>
    obtain ⟨req, -, rfl⟩ := Option.map_eq_some_iff.mp hstep
    exact fireOne_history env s.crons req name

/-- No run is lost. However the halves of the calls and the fires of the engine come one after another,
and whatever fails, the runs that a cron has left keep their names and contents, in use or archived. -/
theorem runs_never_lost {s s' : State} {actions : List Action}
    (hrun : run (step chrono lib) s actions = some s') (name : Text) :
    List.Subperm (history s.crons name) (history s'.crons name) :=
  @run_related _ _ _ (fun s s' => List.Subperm (history s.crons name) (history s'.crons name))
    (fun s => List.Subperm.refl (history s.crons name)) (fun _ _ _ => List.Subperm.trans)
    (fun _ _ _ hstep => step_history hstep name) _ _ _ hrun

end History

section Places

def Call.name : Call → Text
  | .create name .. => name
  | .toggle name .. => name
  | .delete name _ => name

/-- No call on a name begins while another one on it is between its halves. -/
def NoOverlap (s : State) : Action → Prop
  | .begin call _ => ∀ job ∈ s.jobs, job.name ≠ call.name
  | _ => True

variable {Extra : Type} {chrono : Chrono} {lib : SpecLib Extra} {s s' : State} {c : Crons}
  {name other : Text}

def specBody (dirs : List (Text × FileMap)) (name : Text) : Option Text :=
  (dirs.lookup name).bind (·.lookup specFile)

theorem hasSpec_eq (dirs : List (Text × FileMap)) (name : Text) :
    hasSpec dirs name = (specBody dirs name).isSome := rfl

variable (chrono lib) in
/-- What the first half of a call has seen is still so. -/
def Ready (c : Crons) : Job → Prop
  | .create name _ => c.archived.lookup name = none
  | .toggle name body enable => ∃ old spec extra, specBody c.active name = some old ∧
      specFromYaml chrono lib old = .ok (spec, extra) ∧
        lib.write ({ spec with enabled := enable }, extra) = .ok body
  | .delete name => hasSpec c.active name = true

variable (chrono lib) in
structure Orderly (s : State) : Prop where
  place : ∀ name, hasSpec s.crons.active name = true → s.crons.archived.lookup name = none
  kept : ∀ name, (s.crons.archived.lookup name).isSome = true →
    hasSpec s.crons.archived name = true
  apart : (s.jobs.map Job.name).Nodup
  ready : ∀ job ∈ s.jobs, Ready chrono lib s.crons job

/-- Two states of the directories that agree on a name, as far as the calls look. -/
structure SameAt (c c' : Crons) (name : Text) : Prop where
  spec : specBody c'.active name = specBody c.active name
  archived : c'.archived.lookup name = c.archived.lookup name

theorem SameAt.ready {c c' : Crons} {job : Job} (h : SameAt c c' job.name)
    (hready : Ready chrono lib c job) : Ready chrono lib c' job := by
  cases job with
  | create name body => exact h.archived.trans hready
  | toggle name body enable =>
    obtain ⟨old, spec, extra, hold, hrest⟩ := hready
    exact ⟨old, spec, extra, h.spec.trans hold, hrest⟩
  | delete name =>
    have hspec : (specBody c'.active name).isSome = (specBody c.active name).isSome :=
      congrArg Option.isSome h.spec
    exact hspec.trans hready

theorem lookup_removeDir_other (dirs : List (Text × FileMap)) (h : other ≠ name) :
    (removeDir dirs name).lookup other = dirs.lookup other := by
  rw [removeDir]
  split
  · rw [lookup_dropDir, if_neg h]
  · rfl

theorem specBody_setDir (dirs : List (Text × FileMap)) (name : Text) (dir : FileMap) :
    specBody (setDir dirs name dir) name = dir.lookup specFile := by
  rw [specBody, lookup_setDir, if_pos rfl]
  rfl

theorem specBody_getD (dirs : List (Text × FileMap)) (name : Text) :
    ((dirs.lookup name).getD []).lookup specFile = specBody dirs name := by
  rw [specBody]
  cases dirs.lookup name <;> rfl

/-- The second half of a creation: the spec as prepared, a part of it, or none. -/
structure Created (c c' : Crons) (name body : Text) : Prop where
  archived : c'.archived = c.archived
  others : ∀ other, other ≠ name → c'.active.lookup other = c.active.lookup other
  spec : hasSpec c.active name = true → specBody c'.active name = specBody c.active name

theorem created (env : LockEnv) (c : Crons) (name body : Text) :
    Created c (finishCreate env c name body).2 name body := by
  have hset : ∀ dir other, other ≠ name →
      (setDir c.active name dir).lookup other = c.active.lookup other :=
    fun dir other hne => by rw [lookup_setDir, if_neg hne]
  have hremove : ∀ dir other, other ≠ name →
      (removeDir (setDir c.active name dir) name).lookup other = c.active.lookup other :=
    fun dir other hne => by rw [lookup_removeDir_other _ hne, hset dir other hne]
  rw [finishCreate]
  split
  · exact ⟨rfl, fun _ _ => rfl, fun _ => rfl⟩
  · rename_i hnone
    split
    · exact ⟨rfl, fun _ _ => rfl, fun h => absurd h hnone⟩
    · simp only
      split
      · exact ⟨rfl, hremove _, fun h => absurd h hnone⟩
      · exact ⟨rfl, hremove _, fun h => absurd h hnone⟩
      · split
        · exact ⟨rfl, hset _, fun h => absurd h hnone⟩
        · exact ⟨rfl, hremove _, fun h => absurd h hnone⟩

/-- The second half of a toggle leaves a spec where one was. -/
structure Toggled (c c' : Crons) (name : Text) : Prop where
  archived : c'.archived = c.archived
  others : ∀ other, other ≠ name → c'.active.lookup other = c.active.lookup other
  spec : hasSpec c.active name = true → hasSpec c'.active name = true

theorem isSome_overwrite {dir : FileMap} (h : (dir.lookup specFile).isSome = true) (content : Text)
    (result : WriteResult) : ((overwrite dir specFile content result).lookup specFile).isSome = true := by
  cases result with
  | notOpened => exact h
  | stopped n => simp [overwrite]
  | complete => simp [overwrite]

theorem toggled (env : LockEnv) (c : Crons) (name body : Text) (enable : Bool) :
    Toggled c (finishToggle chrono lib env c name body enable).2 name := by
  have hset : ∀ dir, (hasSpec c.active name = true → (dir.lookup specFile).isSome = true) →
      Toggled c { c with active := setDir c.active name dir } name := fun dir hdir =>
    ⟨rfl, fun other hne => by rw [lookup_setDir, if_neg hne], fun h => by
      rw [hasSpec_eq, specBody_setDir]
      exact hdir h⟩
  have hold : hasSpec c.active name = true →
      (((c.active.lookup name).getD []).lookup specFile).isSome = true := fun h => by
    rwa [specBody_getD]
  rw [finishToggle]
  split
  · exact ⟨rfl, fun _ _ => rfl, id⟩
  · split
    · exact ⟨rfl, fun _ _ => rfl, id⟩
    · simp only
      split
      · exact hset _ fun h => isSome_overwrite (hold h) _ _
      · split
        · exact hset _ fun h => isSome_overwrite (hold h) _ _
        · refine hset _ fun h => ?_
          split
          · exact isSome_overwrite (hold h) _ _
          · exact isSome_overwrite (isSome_overwrite (hold h) _ _) _ _

/-- The second half of a deletion: the whole directory is in the archive, or all is as it was. -/
inductive Deleted (c c' : Crons) (name : Text) : Prop
  | moved (dir : FileMap) (source : c.active.lookup name = some dir)
      (active : ∀ other, c'.active.lookup other =
        if other = name then none else c.active.lookup other)
      (archived : ∀ other, c'.archived.lookup other =
        if other = name then some dir else c.archived.lookup other)
  | unmoved (active : ∀ other, c'.active.lookup other = c.active.lookup other)
      (archived : ∀ other, c'.archived.lookup other = c.archived.lookup other)

theorem moveInto_free {words : Text} {a b a' b' : List (Text × FileMap)}
    (hfree : b.lookup name = none) (h : moveInto words a b name = .ok (a', b')) :
    ∃ dir, a.lookup name = some dir ∧ a' = dropDir a name ∧ b' = setDir b name dir := by
  rw [moveInto, hfree] at h
  split at h
  · cases h
  · rename_i dir hsource _
    cases h
    exact ⟨dir, hsource, rfl, rfl⟩
  · rename_i hthere
    cases hthere

theorem deleted (env : LockEnv) (hfree : c.archived.lookup name = none) :
    Deleted c (finishDelete env c name).2 name := by
  rw [finishDelete]
  split
  · exact .unmoved (fun _ => rfl) (fun _ => rfl)
  · split
    · exact .unmoved (fun _ => rfl) (fun _ => rfl)
    · rename_i active archived hmoved
      have hinto : moveInto env.gitWords c.active c.archived name = .ok (active, archived) := by
        cases hrefused : env.moveError with
        | none => simpa [hrefused] using hmoved
        | some e => simp [hrefused] at hmoved
      obtain ⟨dir, hsource, rfl, rfl⟩ := moveInto_free hfree hinto
      have hdone : Deleted c ⟨dropDir c.active name, setDir c.archived name dir⟩ name :=
        .moved dir hsource (lookup_dropDir _ _) (lookup_setDir _ _ · _)
      split
      · exact hdone
      · split
        · exact hdone
        · rename_i archived' active' hback
          have hreturned : moveInto env.gitWords (setDir c.archived name dir) (dropDir c.active name)
              name = .ok (archived', active') := by
            by_cases hmovedBack : env.movedBack = true
            · simpa [hmovedBack] using hback
            · simp [hmovedBack] at hback
          have hgone : (dropDir c.active name).lookup name = none := by rw [lookup_dropDir, if_pos rfl]
          obtain ⟨dir', hdir', rfl, rfl⟩ := moveInto_free hgone hreturned
          rw [lookup_setDir, if_pos rfl] at hdir'
          cases hdir'
          refine .unmoved (fun other => ?_) (fun other => ?_)
          · rw [lookup_setDir, lookup_dropDir]
            split
            · rename_i heq
              rw [heq, hsource]
            · rfl
          · rw [lookup_dropDir, lookup_setDir]
            split
            · rename_i heq
              rw [heq, hfree]
            · rfl

theorem readSpec_eq_ok {error : Option Text} {parsed : CronSpec × Extra}
    (h : readSpec chrono lib error c name = .ok parsed) :
    ∃ body, specBody c.active name = some body ∧ specFromYaml chrono lib body = .ok parsed := by
  rw [readSpec.eq_def] at h
  split at h
  · cases h
  · cases h
  · rename_i body hbody
    exact ⟨body, hbody, h⟩

/-- What a call has seen when it goes for the lock. -/
theorem prepare_ready {env : CheckEnv} {call : Call} {job : Job}
    (hkept : ∀ name, (c.archived.lookup name).isSome = true → hasSpec c.archived name = true)
    (h : prepare chrono lib env c call = .ok (some job)) :
    job.name = call.name ∧ Ready chrono lib c job := by
  cases call with
  | create name schedule timezone target prompt author =>
    rw [prepare, prepareCreate] at h
    obtain ⟨_, -, h⟩ := bind_eq_ok_iff.mp h
    obtain ⟨_, -, h⟩ := bind_eq_ok_iff.mp h
    obtain ⟨_, -, h⟩ := bind_eq_ok_iff.mp h
    obtain ⟨_, -, h⟩ := bind_eq_ok_iff.mp h
    obtain ⟨_, hfree, h⟩ := bind_eq_ok_iff.mp h
    obtain ⟨_, -, h⟩ := bind_eq_ok_iff.mp h
    obtain ⟨_, -, h⟩ := bind_eq_ok_iff.mp h
    cases h
    refine ⟨rfl, ?_⟩
    have hnone := refuse_eq_ok_iff.mp hfree
    rw [Ready, ← Option.not_isSome_iff_eq_none]
    exact fun hsome => hnone (hkept name hsome)
  | toggle name author enable =>
    rw [prepare, prepareToggle] at h
    obtain ⟨_, -, h⟩ := bind_eq_ok_iff.mp h
    obtain ⟨_, -, h⟩ := bind_eq_ok_iff.mp h
    obtain ⟨_, -, h⟩ := bind_eq_ok_iff.mp h
    obtain ⟨⟨spec, extra⟩, hread, h⟩ := bind_eq_ok_iff.mp h
    simp only at h
    split at h
    · cases h
    · obtain ⟨body, hwrite, h⟩ := bind_eq_ok_iff.mp h
      cases h
      obtain ⟨old, hold, hparsed⟩ := readSpec_eq_ok (mapError_eq_ok_iff.mp hread)
      exact ⟨rfl, old, _, _, hold, hparsed, mapError_eq_ok_iff.mp hwrite⟩
  | delete name author =>
    rw [prepare, prepareDelete] at h
    obtain ⟨_, -, h⟩ := bind_eq_ok_iff.mp h
    obtain ⟨_, -, h⟩ := bind_eq_ok_iff.mp h
    obtain ⟨_, hspec, h⟩ := bind_eq_ok_iff.mp h
    obtain ⟨_, -, h⟩ := bind_eq_ok_iff.mp h
    obtain ⟨_, -, h⟩ := bind_eq_ok_iff.mp h
    cases h
    exact ⟨rfl, Bool.eq_true_of_not_eq_false (refuse_eq_ok_iff.mp hspec)⟩

/-- What the second half of a call does to the places of the crons. -/
structure Settled (c c' : Crons) (name : Text) : Prop where
  others : ∀ other, other ≠ name → SameAt c c' other
  place : hasSpec c'.active name = true → c'.archived.lookup name = none
  kept : (c'.archived.lookup name).isSome = true → hasSpec c'.archived name = true
  frozen : ∀ dir, c.archived.lookup name = some dir → c'.archived.lookup name = some dir

theorem specBody_congr {dirs dirs' : List (Text × FileMap)}
    (h : dirs'.lookup name = dirs.lookup name) : specBody dirs' name = specBody dirs name := by
  rw [specBody, specBody, h]

theorem hasSpec_congr {dirs dirs' : List (Text × FileMap)}
    (h : dirs'.lookup name = dirs.lookup name) : hasSpec dirs' name = hasSpec dirs name := by
  rw [hasSpec, hasSpec, h]

theorem settled_of_archived {c' : Crons} (harchived : c'.archived = c.archived)
    (hactive : ∀ other, other ≠ name → c'.active.lookup other = c.active.lookup other)
    (hnone : c.archived.lookup name = none) : Settled c c' name where
  others other hne := ⟨specBody_congr (hactive other hne), by rw [harchived]⟩
  place _ := by rw [harchived, hnone]
  kept h := by
    rw [harchived, hnone] at h
    cases h
  frozen dir h := by rw [harchived, h]

theorem settled_finish (env : LockEnv) {job : Job}
    (hplace : ∀ name, hasSpec c.active name = true → c.archived.lookup name = none)
    (hready : Ready chrono lib c job) :
    Settled c (finish chrono lib env c job).2 job.name := by
  cases job with
  | create name body =>
    have h := created env c name body
    exact settled_of_archived h.archived h.others hready
  | toggle name body enable =>
    have h : Toggled c (finishToggle chrono lib env c name body enable).2 name :=
      toggled env c name body enable
    obtain ⟨old, spec, extra, hold, -⟩ := hready
    refine settled_of_archived h.archived h.others (hplace name ?_)
    rw [hasSpec_eq, hold]
    rfl
  | delete name =>
    have hnone := hplace name hready
    cases deleted env hnone with
    | moved dir source active archived =>
      refine ⟨fun other hne => ⟨specBody_congr ?_, ?_⟩, fun h => ?_, fun _ => ?_, fun there h => ?_⟩
      · exact (active other).trans (if_neg hne)
      · exact (archived other).trans (if_neg hne)
      · have hgone : (finish chrono lib env c (.delete name)).2.active.lookup name = none :=
          (active name).trans (if_pos rfl)
        rw [Job.name, hasSpec, hgone] at h
        cases h
      · have hthere : (finish chrono lib env c (.delete name)).2.archived.lookup name =
            c.active.lookup name := ((archived name).trans (if_pos rfl)).trans source.symm
        rw [Job.name, hasSpec, hthere]
        exact hready
      · rw [Job.name, hnone] at h
        cases h
    | unmoved active archived =>
      refine ⟨fun other _ => ⟨specBody_congr (active other), archived other⟩, fun _ => ?_, fun h => ?_,
        fun dir h => (archived name).trans h⟩
      · exact (archived name).trans hnone
      · have hsame : (finish chrono lib env c (.delete name)).2.archived.lookup name = none :=
          (archived name).trans hnone
        rw [Job.name, hsame] at h
        cases h

/-- A fire leaves the spec alone. -/
theorem fireIn_spec (dir : FileMap) (env : FireEnv) (req : FireRequest) :
    (fireIn chrono dir env req).1.lookup specFile = dir.lookup specFile := by
  have hne : specFile ≠ fileName chrono req.theoreticalTs := (fileName_ne_spec _).symm
  rw [fireIn]
  split
  · rfl
  · simp only
    split
    · rfl
    · rw [lookup_writeFile, if_neg hne]
    · split
      · rw [lookup_writeFile, if_neg hne]
      · split
        · rw [lookup_removeFile, if_neg hne, lookup_writeFile, if_neg hne]
        · rw [lookup_writeFile, if_neg hne]

theorem sameAt_fireOne (env : FireEnv) (c : Crons) (req : FireRequest) (name : Text) :
    SameAt c (fireOne chrono env c req) name := by
  rw [fireOne]
  split
  · exact ⟨rfl, rfl⟩
  · rename_i dir hdir
    refine ⟨?_, rfl⟩
    by_cases heq : name = req.specName
    · subst heq
      rw [specBody_setDir, fireIn_spec, specBody, hdir]
      rfl
    · exact specBody_congr (by rw [lookup_setDir, if_neg heq])

theorem name_ne_of_mem_eraseIdx {jobs : List Job} {i : Nat} {job other : Job}
    (hapart : (jobs.map Job.name).Nodup) (hjob : jobs[i]? = some job)
    (hother : other ∈ jobs.eraseIdx i) : other.name ≠ job.name := by
  obtain ⟨hlt, rfl⟩ := List.getElem?_eq_some_iff.mp hjob
  have hperm := (List.getElem_cons_eraseIdx_perm hlt).map Job.name
  have hnodup := hperm.nodup_iff.mpr hapart
  rw [List.map_cons, List.nodup_cons] at hnodup
  exact fun heq => hnodup.1 (heq ▸ List.mem_map_of_mem hother)

theorem Orderly.step (h : Orderly chrono lib s) {a : Action} (hguard : NoOverlap s a)
    (hstep : CronCalls.step chrono lib s a = some s') :
    Orderly chrono lib s' ∧ ∀ name dir, s.crons.archived.lookup name = some dir →
      s'.crons.archived.lookup name = some dir := by
  cases a with
  | begin call env =>
    rw [CronCalls.step] at hstep
    split at hstep
    · rename_i job hprepare
      cases hstep
      obtain ⟨hname, hready⟩ := prepare_ready h.kept hprepare
      refine ⟨⟨h.place, h.kept, ?_, fun other hother => ?_⟩, fun _ _ hdir => hdir⟩
      · rw [List.map_append, List.map_singleton]
        refine List.nodup_append.mpr ⟨h.apart, List.nodup_singleton _, ?_⟩
        rintro _ hx _ hy rfl
        obtain ⟨other, hother, heq⟩ := List.mem_map.mp hx
        exact hguard other hother (heq.trans ((List.mem_singleton.mp hy).trans hname))
      · rcases List.mem_append.mp hother with hold | hnew
        · exact h.ready other hold
        · exact List.mem_singleton.mp hnew ▸ hready
    · cases hstep
      exact ⟨h, fun _ _ hdir => hdir⟩
    · cases hstep
      exact ⟨h, fun _ _ hdir => hdir⟩
  | finish i env =>
    obtain ⟨job, hjob, rfl⟩ := Option.map_eq_some_iff.mp hstep
    have hready := h.ready job (List.mem_of_getElem? hjob)
    have hsettled := settled_finish env h.place hready
    refine ⟨⟨fun name hname => ?_, fun name hname => ?_, ?_, fun other hother => ?_⟩,
      fun name dir hdir => ?_⟩
    · by_cases heq : name = job.name
      · exact heq ▸ hsettled.place (heq ▸ hname)
      · have hsame := hsettled.others name heq
        rw [hsame.archived]
        rw [hasSpec_eq, hsame.spec] at hname
        exact h.place name hname
    · by_cases heq : name = job.name
      · exact heq ▸ hsettled.kept (heq ▸ hname)
      · have hsame := hsettled.others name heq
        rw [hsame.archived] at hname
        exact (hasSpec_congr hsame.archived).trans (h.kept name hname)
    · exact h.apart.sublist ((List.eraseIdx_sublist _ _).map Job.name)
    · exact (hsettled.others other.name (name_ne_of_mem_eraseIdx h.apart hjob hother)).ready
        (h.ready other (List.mem_of_mem_eraseIdx hother))
    · by_cases heq : name = job.name
      · exact heq ▸ hsettled.frozen dir (heq ▸ hdir)
      · exact (hsettled.others name heq).archived.trans hdir
  | scan self tick =>
    cases hstep
    exact ⟨⟨h.place, h.kept, h.apart, h.ready⟩, fun _ _ hdir => hdir⟩
  | fire i env =>
    obtain ⟨req, -, rfl⟩ := Option.map_eq_some_iff.mp hstep
    have hsame := @sameAt_fireOne chrono env s.crons req
    refine ⟨⟨fun name hname => ?_, fun name hname => ?_, h.apart, fun job hjob => ?_⟩,
      fun name dir hdir => (hsame name).archived.trans hdir⟩
    · rw [hasSpec_eq, (hsame name).spec] at hname
      exact (hsame name).archived.trans (h.place name hname)
    · rw [(hsame name).archived] at hname
      exact (hasSpec_congr (hsame name).archived).trans (h.kept name hname)
    · exact (hsame job.name).ready (h.ready job hjob)

end Places

section SpecFields

variable {Extra : Type} {chrono : Chrono} {lib : SpecLib Extra} {s s' : State} {c : Crons}
  {name : Text}

/-- The same spec, maybe switched on or off. -/
def Switched (x y : CronSpec × Extra) : Prop := y = ({ x.1 with enabled := y.1.enabled }, x.2)

theorem Switched.trans {x y z : CronSpec × Extra} (hxy : Switched x y) (hyz : Switched y z) :
    Switched x z := by
  rw [Switched] at *
  rw [hyz, hxy]

end SpecFields

section Samples

/-- A spec as the library writes it. -/
def switchText (enabled : Text) : Text :=
  "version: 1\nschedule: '* 9 * * *'\ntarget: alice\nprompt: stand up\nenabled: ".toList ++
    (enabled ++ "\ncreated_by: alice\ncreated_at: 2026-05-11T08:59:30Z\n".toList)

def onText : Text := switchText "true".toList

def offText : Text := switchText "false".toList

def offSpec : CronSpec := { sampleSpec with enabled := false }

def sampleSpecLib : SpecLib Unit where
  read t := if t = onText then .ok (sampleSpec, ())
    else if t = offText then .ok (offSpec, ()) else .error "missing field".toList
  write x := if x.1 = sampleSpec then .ok onText
    else if x.1 = offSpec then .ok offText else .error "not a sample".toList
  noExtra := ()
  scheduleError _ := none
  timezoneError _ := none
  createdAtError _ := []
  nextFireAfter := sampleLib.nextFireAfter

def daily : Text := "daily".toList

def alice : Text := "alice".toList

/-- A cron with one run. -/
def sampleState : State :=
  ⟨⟨[(daily, [(specFile, onText), ("2026-05-10T09-00-00Z.thread".toList, "stand up".toList)])], []⟩,
    [], []⟩

def freeCheck : CheckEnv := ⟨nine, false, fun _ => true, none, none⟩

def freeLock : LockEnv := ⟨none, none, [], .complete, none, [], none, true, .complete, true⟩

/-- The engine fires between the halves of a switch, then the cron is deleted. -/
def sampleActions : List Action :=
  [.begin (.toggle daily alice false) freeCheck, .scan alice (calmTick (nine + 10 * second)),
    .fire 0 ⟨true, true, true, .complete, true, true⟩, .finish 0 freeLock,
    .begin (.delete daily alice) freeCheck, .finish 0 freeLock]

instance (s : State) : DecidablePred (NoOverlap s)
  | .begin call _ => inferInstanceAs (Decidable (∀ job ∈ s.jobs, job.name ≠ call.name))
  | .finish _ _ => isTrue trivial
  | .scan _ _ => isTrue trivial
  | .fire _ _ => isTrue trivial

theorem sample_runs : (run (step sampleChrono sampleSpecLib) sampleState sampleActions).isSome = true :=
  by decide +kernel

theorem runs_never_lost_sample : ∃ s', run (step sampleChrono sampleSpecLib) sampleState sampleActions =
    some s' ∧ List.Subperm (history sampleState.crons daily) (history s'.crons daily) := by
  obtain ⟨s', hrun⟩ := Option.isSome_iff_exists.mp sample_runs
  exact ⟨s', hrun, runs_never_lost hrun daily⟩

end Samples

end CronCalls
