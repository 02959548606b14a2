import Frostvault.Upload.SnapshotCodec
import Frostvault.Lib.Text

/-!
Storage plans: the chain of transitions of a Vault's current versions
(`app/services/lifecycle_profiles.py`).

* `validateLifecycleProfile`: the checks of a chain, with their errors and warnings;
* `profileFromJson`: a stored plan, `none` where reading it raises.
-/

namespace Frostvault

open SnapshotLayout (text member)

/-! ### Profiles -/

/-- `LifecycleTransition`, whose fields are what the JSON text holds. -/
structure LifecycleTransition where
  days : Json
  storageClass : Json

/-- `LifecycleProfile`. -/
structure LifecycleProfile where
  transitions : List LifecycleTransition

/-- `SUPPORTED_STORAGE_CLASSES`. -/
def supportedStorageClasses : List (List Char) :=
  [text "STANDARD_IA", text "ONEZONE_IA", text "GLACIER_IR", text "GLACIER", text "DEEP_ARCHIVE"]

/-- `MIN_SOURCE_RESIDENCE.get(storage_class, 0)`. -/
def minSourceResidence (storageClass : List Char) : ℤ :=
  if storageClass = text "STANDARD_IA" ∨ storageClass = text "ONEZONE_IA" then 30
  else if storageClass = text "GLACIER_IR" ∨ storageClass = text "GLACIER" then 90
  else 0

/-- `ALLOWED_TARGETS`. -/
def allowedTargets (storageClass : List Char) : List (List Char) :=
  if storageClass = text "STANDARD" then supportedStorageClasses
  else if storageClass = text "STANDARD_IA" then
    [text "ONEZONE_IA", text "GLACIER_IR", text "GLACIER", text "DEEP_ARCHIVE"]
  else if storageClass = text "ONEZONE_IA" ∨ storageClass = text "GLACIER_IR" then
    [text "GLACIER", text "DEEP_ARCHIVE"]
  else if storageClass = text "GLACIER" then [text "DEEP_ARCHIVE"]
  else []

/-! ### Validation -/

/-- The errors of a chain, with what their texts show. -/
inductive ProfileError
  | daysNotNatural
  | unsupportedClass (storageClass : Json)
  | daysNotIncreasing
  | unsupportedTransition (previousClass storageClass : List Char)
  | infrequentAccessTooYoung
  | residenceTooShort (previousClass : List Char) (residence : ℤ)

/-- The warnings about the costs of a class. -/
inductive ProfileWarning
  | transitionFees
  | deepArchive
deriving DecidableEq, Repr

/-- `ProfileValidation`. -/
structure ProfileValidation where
  errors : List ProfileError
  warnings : List ProfileWarning

/-- `ProfileValidation.ok`. -/
def ProfileValidation.ok (v : ProfileValidation) : Bool := v.errors.isEmpty

/-- What the loop of `validate_lifecycle_profile` has found so far. -/
structure ChainCheck where
  errors : List ProfileError
  warnings : List ProfileWarning
  previousDays : ℤ
  previousClass : List Char

/-- The errors of a transition whose days and class can be read. -/
def transitionErrors (previousDays : ℤ) (previousClass : List Char) (days : ℤ)
    (storageClass : List Char) : List ProfileError :=
  (if days ≤ previousDays then [.daysNotIncreasing] else []) ++
  (if storageClass ∈ allowedTargets previousClass then []
    else [.unsupportedTransition previousClass storageClass]) ++
  (if (storageClass = text "STANDARD_IA" ∨ storageClass = text "ONEZONE_IA") ∧ days < 30 then
    [.infrequentAccessTooYoung] else []) ++
  (if days - previousDays < minSourceResidence previousClass then
    [.residenceTooShort previousClass (minSourceResidence previousClass)] else [])

/-- One turn of the loop; a `bool` is no `int`. -/
def ChainCheck.step (c : ChainCheck) (t : LifecycleTransition) : ChainCheck :=
  match t.days with
  | .int days =>
      if days < 0 then { c with errors := c.errors ++ [.daysNotNatural] }
      else match t.storageClass with
        | .str storageClass =>
            if storageClass ∈ supportedStorageClasses then
              { errors := c.errors ++
                  transitionErrors c.previousDays c.previousClass days storageClass
                warnings := c.warnings ++
                  [if storageClass = text "DEEP_ARCHIVE" then .deepArchive else .transitionFees]
                previousDays := days
                previousClass := storageClass }
            else { c with errors := c.errors ++ [.unsupportedClass t.storageClass] }
        | other => { c with errors := c.errors ++ [.unsupportedClass other] }
  | _ => { c with errors := c.errors ++ [.daysNotNatural] }

/-- `validate_lifecycle_profile`. -/
def validateLifecycleProfile (profile : LifecycleProfile) : ProfileValidation :=
  let c := profile.transitions.foldl ChainCheck.step ⟨[], [], -1, text "STANDARD"⟩
  { errors := c.errors
    warnings := c.warnings.eraseDups }

/-! ### Stored plans -/

/-- `set(payload) == keys`. -/
def hasKeys (ms : List (List Char × Json)) (keys : List (List Char)) : Bool :=
  ms.all (fun m => m.1 ∈ keys) && keys.all fun key => key ∈ ms.map Prod.fst

/-- An item of `payload["transitions"]`. -/
def transitionFromJson : Json → Option LifecycleTransition
  | .obj ms => do
      guard (hasKeys ms [text "days", text "storage_class"])
      let days ← member ms "days"
      let storageClass ← member ms "storage_class"
      some ⟨days, storageClass⟩
  | _ => none

/-- `profile_from_json`. -/
def profileFromJson (value : Option (List Char)) : Option LifecycleProfile :=
  match value with
  | none => some ⟨[]⟩
  | some raw =>
      match Json.loads raw with
      | some (.obj ms) => do
          guard (hasKeys ms [text "transitions"])
          match ← member ms "transitions" with
          | .arr items => do
              let steps ← items.mapM transitionFromJson
              guard (validateLifecycleProfile ⟨steps⟩).ok
              some ⟨steps⟩
          | _ => none
      | _ => none

end Frostvault
