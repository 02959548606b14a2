import Frostvault.Lib.PrefixOrder
import Frostvault.Lifecycle.Profiles
import Mathlib.Data.Char

/-!
The lifecycle rules of a bucket (`app/services/s3_lifecycle_rules.py`,
`sync_lifecycle_rules_for_bucket` of `app/services/lifecycle_policies.py`).

A Vault with transitions has one rule, for the keys under its prefix.  The application replaces
its own rules, by their ids, and leaves the others; before that it makes sure that no Vault's
prefix lies under another's.

* `vaultObjectPrefix`, `validateVaultPrefixes`: the prefixes and the check of neighbours;
* `buildVaultLifecycleRule`, `mergeLifecycleRules`: the rules;
* `syncLifecycleRulesForBucket`: the configuration that is written.
-/

namespace Frostvault

open SnapshotLayout (text member)

/-! ### Prefixes -/

/-- `vault_object_prefix`, `none` where it raises. -/
def vaultObjectPrefix (raw : List Char) : Option (List Char) :=
  let normalized := Text.strip (· = '/') raw
  if normalized = [] then none else some (normalized ++ ['/'])

/-- The loop of `validate_vault_prefixes` over the sorted prefixes. -/
def noNeighbourUnder : List (List Char) → Bool
  | previous :: current :: rest =>
      !previous.isPrefixOf current && noNeighbourUnder (current :: rest)
  | _ => true

/-- `validate_vault_prefixes`, `none` where it raises. -/
def validateVaultPrefixes (prefixes : List (List Char)) : Option Unit := do
  let normalized ← prefixes.mapM vaultObjectPrefix
  guard (noNeighbourUnder (normalized.insertionSort (· ≤ ·)))

/-! ### Rules -/

/-- A rule: its id, if it has one, and its other members. -/
structure LifecycleRule where
  id : Option (List Char)
  members : List (List Char × Json)

/-- `RULE_ID_PREFIX`. -/
def ruleIdStart : List Char := text "frostvault-plan-"

/-- `LEGACY_RULE_ID_PREFIX`. -/
def legacyRuleIdStart : List Char := text "psa-policy-"

/-- `ABORT_RULE_ID`. -/
def abortRuleId : List Char := text "frostvault-abort-incomplete-multipart"

/-- `MAX_BUCKET_LIFECYCLE_RULES`. -/
def maxBucketLifecycleRules : ℕ := 1000

/-- `is_application_lifecycle_rule`. -/
def isApplicationLifecycleRule (rule : LifecycleRule) : Bool :=
  let ruleId := rule.id.getD []
  ruleIdStart.isPrefixOf ruleId || legacyRuleIdStart.isPrefixOf ruleId || ruleId = abortRuleId

/-- A filter by prefix. -/
def prefixFilter (p : List Char) : Json := .obj [(text "Prefix", .str p)]

/-- `incomplete_upload_rule`. -/
def incompleteUploadRule : LifecycleRule where
  id := some abortRuleId
  members := [
    (text "Status", .str (text "Enabled")),
    (text "Filter", prefixFilter (text "vaults/")),
    (text "AbortIncompleteMultipartUpload", .obj [(text "DaysAfterInitiation", .int 7)])]

/-- An element of `rule["Transitions"]`. -/
def transitionMember (t : LifecycleTransition) : Json :=
  .obj [(text "Days", t.days), (text "StorageClass", t.storageClass)]

/-- `build_vault_lifecycle_rule`, `none` where it raises. -/
def buildVaultLifecycleRule (vaultUuid raw : List Char) (profile : LifecycleProfile) :
    Option LifecycleRule := do
  guard (validateLifecycleProfile profile).ok
  let p ← vaultObjectPrefix raw
  some
    { id := some (ruleIdStart ++ vaultUuid)
      members := [
        (text "Status", .str (text "Enabled")),
        (text "Filter", prefixFilter p)] ++
        if profile.transitions = [] then []
        else [(text "Transitions", .arr (profile.transitions.map transitionMember))] }

/-- `merge_lifecycle_rules`. -/
def mergeLifecycleRules (existing app : List LifecycleRule) : List LifecycleRule :=
  existing.filter (fun rule => !isApplicationLifecycleRule rule) ++ app

/-! ### Synchronisation -/

/-- `sync_bucket_lifecycle_rules`: the rules put, `none` where it raises.  `stored` are those of
the bucket, `none` when it has no configuration. -/
def syncBucketLifecycleRules (stored : Option (List LifecycleRule)) (app : List LifecycleRule) :
    Option (List LifecycleRule) := do
  let merged := mergeLifecycleRules (stored.getD []) (app ++ [incompleteUploadRule])
  guard (merged.length ≤ maxBucketLifecycleRules)
  some merged

/-- A row of `vaults`, as the synchronisation reads it. -/
structure PlannedVault where
  uuid : List Char
  s3Prefix : List Char
  storagePlanJson : Option (List Char)

/-- `sync_lifecycle_rules_for_bucket` for the rows of the bucket: the number of rules and the
configuration it puts. -/
def syncLifecycleRulesForBucket (rows : List PlannedVault) (stored : Option (List LifecycleRule)) :
    Option (ℕ × List LifecycleRule) := do
  let plans ← rows.mapM fun row => (profileFromJson row.storagePlanJson).map fun plan => (row, plan)
  if plans.any fun entry => !entry.2.transitions.isEmpty then
    validateVaultPrefixes (plans.map fun entry => entry.1.s3Prefix)
  let rules ← (plans.filter fun entry => !entry.2.transitions.isEmpty).mapM fun entry =>
    buildVaultLifecycleRule entry.1.uuid entry.1.s3Prefix entry.2
  let config ← syncBucketLifecycleRules stored rules
  some (rules.length, config)

/-! ### What a rule is for -/

/-- The prefix of a rule's filter. -/
def LifecycleRule.filterPrefix? (rule : LifecycleRule) : Option (List Char) :=
  match member rule.members "Filter" with
  | some (.obj ms) =>
      match member ms "Prefix" with
      | some (.str p) => some p
      | _ => none
  | _ => none

/-- The rule applies to the object of the key. -/
def LifecycleRule.Covers (rule : LifecycleRule) (key : List Char) : Prop :=
  ∃ p, rule.filterPrefix? = some p ∧ p <+: key

/-- The key lies under the Vault's prefix. -/
def PlannedVault.Holds (row : PlannedVault) (key : List Char) : Prop :=
  ∃ p, vaultObjectPrefix row.s3Prefix = some p ∧ p <+: key

/-- The transition rule of a Vault, if it has transitions. -/
def PlannedVault.rule? (row : PlannedVault) : Option LifecycleRule := do
  let plan ← profileFromJson row.storagePlanJson
  if plan.transitions.isEmpty then none
  else buildVaultLifecycleRule row.uuid row.s3Prefix plan

end Frostvault
