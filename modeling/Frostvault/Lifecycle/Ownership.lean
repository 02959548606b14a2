import Frostvault.Lib.Runs
import Frostvault.Lifecycle.Rules

/-!
Synchronisation touches only what it owns (`sync_lifecycle_rules_for_bucket`).

The check of neighbours finds every pair of prefixes of which one lies under the other
(`PrefixOrder`), Vaults without transitions included.  So a rule with transitions covers the keys
of its own Vault and of no other one.

* `validateVaultPrefixes_eq_some_iff`: what the check lets pass;
* `validateVaultPrefixes_eq_none_iff`: **exactly when it raises**;
* `sync_eq`, `plannedRules_cases`: the two halves of a synchronisation, what the first has found;
* `not_holds_of_rule`: a Vault with a rule has its keys to itself;
* `lifecycle_sync_owns_its_rules`: the law.
-/

namespace Frostvault

open List

open SnapshotLayout (text)

variable {rows : List PlannedVault} {row row' : PlannedVault}
  {stored : Option (List LifecycleRule)} {rule : LifecycleRule} {prefixes : List (List Char)}
  {key p : List Char}

/-! ### The check of the prefixes -/

lemma mapM_eq_some_iff {α β : Type} {f : α → Option β} (d : β) {l : List α} {l' : List β} :
    l.mapM f = some l' ↔ (∀ a ∈ l, f a ≠ none) ∧ l' = l.map fun a => (f a).getD d := by
  induction l generalizing l' with
  | nil => simp [pure, eq_comm]
  | cons a l ih =>
      rw [mapM_cons, Option.bind_eq_bind, Option.bind_eq_some_iff, forall_mem_cons]
      cases hfa : f a with
      | none => simp
      | some b =>
          simp only [Option.bind_eq_bind, Option.some.injEq, exists_eq_left', Option.pure_def,
            Option.bind_eq_some_iff, ih, ne_eq, reduceCtorEq, not_false_eq_true, true_and,
            map_cons, hfa, Option.getD_some]
          constructor
          · rintro ⟨_, ⟨hall, rfl⟩, rfl⟩
            exact ⟨hall, rfl⟩
          · rintro ⟨hall, rfl⟩
            exact ⟨_, ⟨hall, rfl⟩, rfl⟩

lemma noNeighbourUnder_iff (l : List (List Char)) :
    noNeighbourUnder l ↔ l.IsChain (fun a b => ¬a <+: b) := by
  induction l with
  | nil => simp [noNeighbourUnder]
  | cons a l ih =>
      cases l with
      | nil => simp [noNeighbourUnder]
      | cons b l =>
          rw [noNeighbourUnder, Bool.and_eq_true, ih, isChain_cons_cons, Bool.not_eq_true',
            ← Bool.not_eq_true, isPrefixOf_iff_prefix]

/-- The prefix of a Vault, where it has one. -/
def vaultPrefix (raw : List Char) : List Char := (vaultObjectPrefix raw).getD []

lemma vaultPrefix_eq (h : vaultObjectPrefix key = some p) : vaultPrefix key = p := by
  rw [vaultPrefix, h, Option.getD_some]

/-- **What the check lets pass.** -/
lemma validateVaultPrefixes_eq_some_iff : validateVaultPrefixes prefixes = some () ↔
    (∀ raw ∈ prefixes, vaultObjectPrefix raw ≠ none) ∧
      ∀ (i j : ℕ) (a b : List Char), i ≠ j → prefixes[i]? = some a → prefixes[j]? = some b →
        ¬vaultPrefix a <+: vaultPrefix b := by
  rw [← PrefixOrder.pairwise_apart_iff_getElem?, ← pairwise_map (R := PrefixOrder.Apart),
    ← PrefixOrder.pairwise_apart_iff_sorted, ← noNeighbourUnder_iff, validateVaultPrefixes,
    Option.bind_eq_bind, Option.bind_eq_some_iff]
  simp only [mapM_eq_some_iff []]
  have hguard (b : Bool) : (guard (b) : Option Unit) = some () ↔ b := by
    cases b <;> simp [guard]
  constructor
  · rintro ⟨_, ⟨hall, rfl⟩, hchecked⟩
    exact ⟨hall, (hguard _).mp hchecked⟩
  · rintro ⟨hall, hchecked⟩
    exact ⟨_, ⟨hall, rfl⟩, (hguard _).mpr hchecked⟩

/-- Two Vaults one of whose prefixes lies under the other's. -/
def Overlap (prefixes : List (List Char)) : Prop :=
  ∃ (i j : ℕ) (a b p q : List Char), i ≠ j ∧ prefixes[i]? = some a ∧ prefixes[j]? = some b ∧
    vaultObjectPrefix a = some p ∧ vaultObjectPrefix b = some q ∧ p <+: q

/-- **Exactly when the check raises.** -/
lemma validateVaultPrefixes_eq_none_iff : validateVaultPrefixes prefixes = none ↔
    (∃ raw ∈ prefixes, vaultObjectPrefix raw = none) ∨ Overlap prefixes := by
  have hsome : ¬validateVaultPrefixes prefixes = none ↔
      validateVaultPrefixes prefixes = some () := by
    cases validateVaultPrefixes prefixes <;> simp
  have hall : (∀ raw ∈ prefixes, vaultObjectPrefix raw ≠ none) ↔
      ¬∃ raw ∈ prefixes, vaultObjectPrefix raw = none := by
    push Not
    rfl
  rw [← not_iff_not, hsome, validateVaultPrefixes_eq_some_iff, not_or, ← hall]
  refine and_congr_right fun hall => ⟨?_, ?_⟩
  · rintro h ⟨i, j, a, b, p, q, hij, ha, hb, hp, hq, hpq⟩
    rw [← vaultPrefix_eq hp, ← vaultPrefix_eq hq] at hpq
    exact h i j a b hij ha hb hpq
  · intro h i j a b hij ha hb hpq
    obtain ⟨p, hp⟩ := Option.ne_none_iff_exists'.mp (hall a (mem_of_getElem? ha))
    obtain ⟨q, hq⟩ := Option.ne_none_iff_exists'.mp (hall b (mem_of_getElem? hb))
    rw [vaultPrefix_eq hp, vaultPrefix_eq hq] at hpq
    exact h ⟨i, j, a, b, p, q, hij, ha, hb, hp, hq, hpq⟩

/-! ### One synchronisation -/

/-- A Vault with its plan, as the synchronisation reads them. -/
abbrev PlanOf := PlannedVault × LifecycleProfile

/-- The plan has transitions. -/
def PlanOf.transitions (entry : PlanOf) : Bool := !entry.2.transitions.isEmpty

/-- The plans read are those of the rows, in their order. -/
lemma plans_eq {plans : List PlanOf} (h : (rows.mapM fun row =>
      (profileFromJson row.storagePlanJson).map fun plan => (row, plan)) = some plans) :
    plans.map Prod.fst = rows ∧
      ∀ entry ∈ plans, profileFromJson entry.1.storagePlanJson = some entry.2 := by
  induction rows generalizing plans with
  | nil =>
      cases h
      exact ⟨rfl, fun entry hmem => absurd hmem not_mem_nil⟩
  | cons row rows ih =>
      rw [mapM_cons] at h
      simp only [Option.bind_eq_bind, Option.bind_eq_some_iff, Option.map_eq_some_iff,
        Option.pure_def, Option.some.injEq] at h
      obtain ⟨_, ⟨plan, hplan, rfl⟩, rest, hrest, rfl⟩ := h
      obtain ⟨hrows, hplans⟩ := ih hrest
      refine ⟨by rw [map_cons, hrows], fun entry hmem => ?_⟩
      rcases mem_cons.mp hmem with rfl | hmem
      · exact hplan
      · exact hplans entry hmem

lemma rule?_eq {entry : PlanOf} (h : profileFromJson entry.1.storagePlanJson = some entry.2) :
    entry.1.rule? = if entry.transitions then
      buildVaultLifecycleRule entry.1.uuid entry.1.s3Prefix entry.2 else none := by
  rw [PlannedVault.rule?, h, Option.bind_eq_bind, Option.bind_some, PlanOf.transitions]
  cases entry.2.transitions.isEmpty <;> rfl

variable {rules : List LifecycleRule}

/-- The rules built are those of the rows. -/
lemma rules_eq {plans : List PlanOf}
    (hplans : ∀ entry ∈ plans, profileFromJson entry.1.storagePlanJson = some entry.2)
    (h : ((plans.filter PlanOf.transitions).mapM fun entry =>
      buildVaultLifecycleRule entry.1.uuid entry.1.s3Prefix entry.2) = some rules) :
    plans.filterMap (fun entry => entry.1.rule?) = rules := by
  induction plans generalizing rules with
  | nil =>
      cases h
      rfl
  | cons entry plans ih =>
      have hrest : ∀ e ∈ plans, profileFromJson e.1.storagePlanJson = some e.2 :=
        fun e he => hplans e (mem_cons_of_mem _ he)
      have hrule := rule?_eq (hplans entry mem_cons_self)
      cases htransitions : entry.transitions with
      | false =>
          rw [htransitions, if_neg Bool.false_ne_true] at hrule
          rw [filter_cons_of_neg (by simp [htransitions])] at h
          rw [filterMap_cons, hrule]
          exact ih hrest h
      | true =>
          rw [htransitions, if_pos rfl] at hrule
          rw [filter_cons_of_pos htransitions, mapM_cons] at h
          simp only [Option.bind_eq_bind, Option.bind_eq_some_iff, Option.pure_def,
            Option.some.injEq] at h
          obtain ⟨rule, hbuilt, rest, hmapM, rfl⟩ := h
          rw [filterMap_cons, hrule, hbuilt, ih hrest hmapM]

/-- The part of a synchronisation that does not read the bucket: its rules. -/
def plannedRules (rows : List PlannedVault) : Option (List LifecycleRule) := do
  let plans ← rows.mapM fun row =>
    (profileFromJson row.storagePlanJson).map fun plan => (row, plan)
  if plans.any PlanOf.transitions then
    validateVaultPrefixes (plans.map fun entry => entry.1.s3Prefix)
  (plans.filter PlanOf.transitions).mapM fun entry =>
    buildVaultLifecycleRule entry.1.uuid entry.1.s3Prefix entry.2

/-- **The two halves of a synchronisation.** -/
lemma sync_eq (rows : List PlannedVault) (stored : Option (List LifecycleRule)) :
    syncLifecycleRulesForBucket rows stored = (plannedRules rows).bind fun rules =>
      (syncBucketLifecycleRules stored rules).map fun config => (rules.length, config) := by
  rw [syncLifecycleRulesForBucket, plannedRules]
  simp only [Option.bind_eq_bind, Option.bind_assoc, Option.map_eq_bind]
  refine congrArg _ (funext fun plans => ?_)
  by_cases hany : plans.any PlanOf.transitions
  · have hany' : (plans.any fun entry => !entry.2.transitions.isEmpty) := hany
    rw [if_pos hany', if_pos hany, Option.bind_assoc]
    rfl
  · have hany' : ¬(plans.any fun entry => !entry.2.transitions.isEmpty) := hany
    rw [if_neg hany', if_neg hany]
    rfl

/-- **What the first half has found**: the rules of the rows, and no overlap if there are any. -/
lemma plannedRules_cases (h : plannedRules rows = some rules) :
    rules = rows.filterMap PlannedVault.rule? ∧ ∀ row ∈ rows, row.rule? ≠ none →
      validateVaultPrefixes (rows.map PlannedVault.s3Prefix) = some () := by
  rw [plannedRules, Option.bind_eq_bind, Option.bind_eq_some_iff] at h
  obtain ⟨plans, hmapM, h⟩ := h
  obtain ⟨hrows, hplans⟩ := plans_eq hmapM
  obtain ⟨hchecked, hrules⟩ : (plans.any PlanOf.transitions →
      validateVaultPrefixes (plans.map fun entry => entry.1.s3Prefix) = some ()) ∧
      ((plans.filter PlanOf.transitions).mapM fun entry =>
        buildVaultLifecycleRule entry.1.uuid entry.1.s3Prefix entry.2) = some rules := by
    split at h
    · obtain ⟨_, hvalid, hrules⟩ := Option.bind_eq_some_iff.mp h
      exact ⟨fun _ => hvalid, hrules⟩
    · rename_i hany
      exact ⟨fun h => absurd h hany, h⟩
  rw [← hrows]
  constructor
  · rw [filterMap_map]
    exact (rules_eq hplans hrules).symm
  · intro row hrow hrule
    obtain ⟨entry, hentry, rfl⟩ := mem_map.mp hrow
    rw [map_map]
    refine hchecked (any_eq_true.mpr ⟨entry, hentry, ?_⟩)
    rw [rule?_eq (hplans entry hentry)] at hrule
    by_contra hnot
    exact hrule (if_neg hnot)

/-! ### The configuration -/

/-- **The rule of a Vault**: its id is the application's, its filter the Vault's prefix. -/
lemma rule?_cases (h : row.rule? = some rule) :
    isApplicationLifecycleRule rule ∧
      ∃ p, vaultObjectPrefix row.s3Prefix = some p ∧ rule.filterPrefix? = some p := by
  rw [PlannedVault.rule?, Option.bind_eq_bind, Option.bind_eq_some_iff] at h
  obtain ⟨plan, -, h⟩ := h
  split at h
  · cases h
  rw [buildVaultLifecycleRule, Option.bind_eq_bind, Runs.guard_bind_eq_some, Option.bind_eq_bind,
    Option.bind_eq_some_iff] at h
  obtain ⟨-, p, hp, h⟩ := h
  cases h
  constructor
  · have hstart : ruleIdStart.isPrefixOf (ruleIdStart ++ row.uuid) :=
      isPrefixOf_iff_prefix.mpr (prefix_append _ _)
    simp only [isApplicationLifecycleRule, Option.getD_some, hstart, Bool.true_or]
  · refine ⟨p, hp, ?_⟩
    by_cases hnone : plan.transitions = []
    · simp only [hnone, if_true]
      rfl
    · simp only [hnone, if_false]
      rfl

lemma filter_merged (existing : List LifecycleRule)
    (h : ∀ rule ∈ rules, isApplicationLifecycleRule rule) :
    (mergeLifecycleRules existing rules).filter (fun rule => !isApplicationLifecycleRule rule) =
      existing.filter fun rule => !isApplicationLifecycleRule rule := by
  have hnone : rules.filter (fun rule => !isApplicationLifecycleRule rule) = [] := by
    rw [filter_eq_nil_iff]
    intro rule hrule
    simp [h rule hrule]
  rw [mergeLifecycleRules, filter_append, hnone, append_nil, filter_filter]
  simp only [Bool.and_self]

lemma syncBucketLifecycleRules_eq_some_iff {config : List LifecycleRule} :
    syncBucketLifecycleRules stored rules = some config ↔
      (mergeLifecycleRules (stored.getD []) (rules ++ [incompleteUploadRule])).length ≤
          maxBucketLifecycleRules ∧
        config = mergeLifecycleRules (stored.getD []) (rules ++ [incompleteUploadRule]) := by
  rw [syncBucketLifecycleRules, Option.bind_eq_bind, Runs.guard_bind_eq_some, Option.some_inj,
    eq_comm (a := config)]

lemma isApplication_of_mem {rows : List PlannedVault}
    (h : rule ∈ rows.filterMap PlannedVault.rule? ++ [incompleteUploadRule]) :
    isApplicationLifecycleRule rule := by
  rcases mem_append.mp h with h | h
  · obtain ⟨row, -, hrule⟩ := mem_filterMap.mp h
    exact (rule?_cases hrule).1
  · obtain rfl := mem_singleton.mp h
    decide

lemma holds_of_covers (hrule : row.rule? = some rule) (hkey : rule.Covers key) :
    row.Holds key := by
  obtain ⟨p, hfilter, hpkey⟩ := hkey
  obtain ⟨-, p', hp, hfilter'⟩ := rule?_cases hrule
  obtain rfl : p = p' := Option.some_inj.mp (hfilter.symm.trans hfilter')
  exact ⟨p, hp, hpkey⟩

/-- **A Vault with a rule has its keys to itself.** -/
lemma not_holds_of_rule (hchecked : validateVaultPrefixes (rows.map PlannedVault.s3Prefix) =
      some ()) {i j : ℕ} (hij : j ≠ i) (hi : rows[i]? = some row) (hj : rows[j]? = some row')
    (hrule : row.rule? = some rule) (hkey : rule.Covers key) :
    ¬row'.Holds key := by
  rintro ⟨q, hq, hqkey⟩
  obtain ⟨p, hp, hpkey⟩ := holds_of_covers hrule hkey
  have hi' : (rows.map PlannedVault.s3Prefix)[i]? = some row.s3Prefix := by
    rw [getElem?_map, hi, Option.map_some]
  have hj' : (rows.map PlannedVault.s3Prefix)[j]? = some row'.s3Prefix := by
    rw [getElem?_map, hj, Option.map_some]
  have hapart := (validateVaultPrefixes_eq_some_iff.mp hchecked).2
  -- two prefixes of one key are prefixes of each other
  rcases prefix_or_prefix_of_prefix hpkey hqkey with hpq | hqp
  · refine hapart i j _ _ hij.symm hi' hj' ?_
    rwa [vaultPrefix_eq hp, vaultPrefix_eq hq]
  · refine hapart j i _ _ hij hj' hi' ?_
    rwa [vaultPrefix_eq hp, vaultPrefix_eq hq]

/-! ### The law -/

/-- **Synchronisation touches only what it owns.**  The rules of others stay, in their order; a
rule with transitions covers keys of its Vault alone; a second synchronisation writes the same;
and the check of the prefixes raises exactly for a prefix that is empty or one that lies under
another. -/
theorem lifecycle_sync_owns_its_rules :
    (∀ rows stored n config, syncLifecycleRulesForBucket rows stored = some (n, config) →
      config = (stored.getD []).filter (fun rule => !isApplicationLifecycleRule rule) ++
        rows.filterMap PlannedVault.rule? ++ [incompleteUploadRule] ∧
      (∀ rule ∈ rows.filterMap PlannedVault.rule? ++ [incompleteUploadRule],
        isApplicationLifecycleRule rule = true) ∧
      (∀ (i : ℕ) row rule key, rows[i]? = some row → row.rule? = some rule → rule.Covers key →
        row.Holds key ∧ ∀ (j : ℕ) row', j ≠ i → rows[j]? = some row' →
          ¬row'.Holds key ∧ ∀ rule', row'.rule? = some rule' → ¬rule'.Covers key) ∧
      syncLifecycleRulesForBucket rows (some config) = some (n, config)) ∧
    (∀ prefixes, validateVaultPrefixes prefixes = none ↔
      (∃ raw ∈ prefixes, vaultObjectPrefix raw = none) ∨ Overlap prefixes) := by
  refine ⟨fun rows stored n config h => ?_, fun prefixes => validateVaultPrefixes_eq_none_iff⟩
  rw [sync_eq, Option.bind_eq_some_iff] at h
  obtain ⟨rules, hrules, h⟩ := h
  obtain ⟨_, hconfig, hpair⟩ := Option.map_eq_some_iff.mp h
  cases hpair
  obtain ⟨rfl, hchecked⟩ := plannedRules_cases hrules
  obtain ⟨hlength, hmerged⟩ := syncBucketLifecycleRules_eq_some_iff.mp hconfig
  refine ⟨by rw [hmerged, mergeLifecycleRules, append_assoc],
    fun rule => isApplication_of_mem, ?_, ?_⟩
  · intro i row rule key hi hrule hkey
    have hvalid := hchecked row (mem_of_getElem? hi) (by simp [hrule])
    refine ⟨holds_of_covers hrule hkey, fun j row' hij hj => ?_⟩
    have hnot := not_holds_of_rule hvalid hij hi hj hrule hkey
    exact ⟨hnot, fun rule' hrule' hkey' => hnot (holds_of_covers hrule' hkey')⟩
  · rw [sync_eq, hrules, Option.bind_some]
    have hsame : mergeLifecycleRules config
        (rows.filterMap PlannedVault.rule? ++ [incompleteUploadRule]) = config := by
      rw [hmerged]
      conv_lhs => rw [mergeLifecycleRules]
      rw [filter_merged _ fun rule => isApplication_of_mem]
      rfl
    have hagain : syncBucketLifecycleRules (some config)
        (rows.filterMap PlannedVault.rule?) = some config := by
      rw [syncBucketLifecycleRules_eq_some_iff, Option.getD_some, hsame]
      exact ⟨hmerged ▸ hlength, rfl⟩
    rw [hagain, Option.map_some]

/-- A Vault with one transition. -/
def docsPlan : Json :=
  .obj [(text "transitions", .arr [.obj [
    (text "days", .int 30), (text "storage_class", .str (text "STANDARD_IA"))]])]

def docsVault : PlannedVault := ⟨text "u", text "docs", some (Json.dumps (fun _ => []) docsPlan)⟩

/-- A Vault that keeps its objects in the standard class. -/
def photosVault : PlannedVault := ⟨text "v", text "photos", none⟩

lemma profileFromJson_docs : profileFromJson docsVault.storagePlanJson =
    some ⟨[⟨.int 30, .str (text "STANDARD_IA")⟩]⟩ := by
  have hplain : Json.Plain docsPlan := by
    simp only [docsPlan]
    refine .obj fun m hm => ?_
    obtain rfl := mem_singleton.mp hm
    refine .arr fun v hv => ?_
    obtain rfl := mem_singleton.mp hv
    refine .obj fun m hm => ?_
    rcases mem_pair.mp hm with rfl | rfl
    · exact .int 30
    · exact .str _
  simp only [profileFromJson, docsVault, Json.loads_dumps hplain]
  rfl

/-- A Vault with transitions beside one without: the keys of the second are its own. -/
theorem lifecycle_sync_owns_its_rules_docs : ∃ rule, docsVault.rule? = some rule ∧
    ∀ key, photosVault.Holds key → ¬rule.Covers key := by
  have hrule : ∃ rule, docsVault.rule? = some rule := by
    rw [PlannedVault.rule?, profileFromJson_docs]
    exact ⟨_, rfl⟩
  have hsync : ∃ config,
      syncLifecycleRulesForBucket [docsVault, photosVault] none = some (1, config) := by
    rw [syncLifecycleRulesForBucket, mapM_cons, profileFromJson_docs]
    exact ⟨_, rfl⟩
  obtain ⟨rule, hrule⟩ := hrule
  obtain ⟨config, hsync⟩ := hsync
  obtain ⟨-, -, howns, -⟩ := lifecycle_sync_owns_its_rules.1 _ _ _ _ hsync
  refine ⟨rule, hrule, fun key hholds hcovers => ?_⟩
  exact ((howns 0 docsVault rule key rfl hrule hcovers).2 1 photosVault (by decide) rfl).1 hholds

/-- The check refuses a prefix that is empty, though there is no other one to lie under. -/
theorem validateVaultPrefixes_of_empty :
    ¬∀ prefixes, validateVaultPrefixes prefixes = none ↔ Overlap prefixes := by
  intro h
  obtain ⟨i, j, a, b, p, q, -, ha, -, hp, -⟩ := (h [[]]).mp (by decide)
  obtain rfl : a = [] := mem_singleton.mp (mem_of_getElem? ha)
  have hnone : vaultObjectPrefix [] = none := by decide
  rw [hnone] at hp
  cases hp

end Frostvault
