import GitIM.Cards
import GitIM.Poll

/-!
# User metadata

The file `users/<handler>.meta.yaml`: its fields, their checks, and the edits of
`handle_update_user`, `handle_labels_add` and `handle_labels_remove`. A set of labels is
kept as the sorted list of its elements.
-/

namespace Users

open TextLines TextScan FileTree Checked ThreadFormat DmThreads Cards
open Poll (sortedSet)

section Data

inductive UserKind where
  | unknown
  | human
  | agent
  deriving DecidableEq

structure UserMeta where
  displayName : Text
  role : Text
  introduction : Text
  labels : List Text
  kind : UserKind
  deriving DecidableEq

/-- Reading and writing of user metadata as YAML. -/
structure UserCodec where
  fromStr : Text → Option UserMeta
  toStr : UserMeta → Text

def maxIntroductionLen : Nat := 256

def userMaxLabels : Nat := 20

inductive UserMetaError where
  | introductionTooLong (length bound : Nat)
  | label (e : LabelError)
  deriving DecidableEq

def UserMetaError.text : UserMetaError → Text
  | introductionTooLong n bound => "introduction too long (".toList ++ ((toString n).toList ++
      (" > ".toList ++ ((toString bound).toList ++ " bytes)".toList)))
  | label e => e.text

def validateUserMeta (info : UserMeta) : Except UserMetaError Unit := do
  refuse (utf8Len info.introduction > maxIntroductionLen)
    (.introductionTooLong (utf8Len info.introduction) maxIntroductionLen)
  (validateLabels info.labels userMaxLabels).mapError .label

end Data

section Edits

/-- The checks of `handle_update_user` before it reads the file. -/
def checkProfile (handler : Text) (displayName introduction : Option Text) : Except Text Unit := do
  let _ ← checkHandler handler "invalid handler".toList
  checkSome displayName fun name =>
    refuse (trim name = [] ∨ utf8Len name > 64) "display_name must be 1-64 bytes".toList
  checkSome introduction fun intro =>
    refuse (utf8Len intro > maxIntroductionLen) ("introduction exceeds ".toList ++
      ((toString maxIntroductionLen).toList ++ " byte limit".toList))

/-- The metadata with the fields that are given. -/
def editProfile (displayName introduction : Option Text) (info : UserMeta) : UserMeta :=
  { info with
    displayName := displayName.getD info.displayName
    introduction := introduction.getD info.introduction }

/-- `none` if all the labels are there. -/
def addLabels (labels : List Text) (info : UserMeta) : Except Text (Option UserMeta) := do
  let union := sortedSet (info.labels ++ labels)
  refuse (union.length > userMaxLabels) ("would exceed user cap ".toList ++
    ((toString userMaxLabels).toList ++ (" (resulting count ".toList ++
      ((toString union.length).toList ++ [')']))))
  if union = sortedSet info.labels then .ok none
  else do
    (validateUserMeta { info with labels := union }).mapError
      fun e => "post-merge meta validation failed: ".toList ++ e.text
    .ok (some { info with labels := union })

/-- `none` if none of the labels is there. -/
def removeLabels (labels : List Text) (info : UserMeta) : Except Text (Option UserMeta) := do
  let remaining := sortedSet (info.labels.filter fun l => l ∉ labels)
  if remaining = sortedSet info.labels then .ok none
  else do
    (validateUserMeta { info with labels := remaining }).mapError
      fun e => "post-remove meta validation failed: ".toList ++ e.text
    .ok (some { info with labels := remaining })

end Edits

end Users
