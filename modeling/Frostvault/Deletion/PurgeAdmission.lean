import Frostvault.Deletion.Scope

/-!
The rows of an admitted deletion (`schedule_cloud_purge` of `app/services/cloud_deletion.py`).

A request is stored as one Job for each selected file, with one item for each version and delete
marker the file has at this moment.

* `PurgeMember`, `PurgeMember.Admitted`: a selected file with its Job and its items;
* `GroupAdmission`: the rows an admission appends;
* `groupAdmission_foldl`: the loop over the selected files appends them;
* `scheduleCloudPurge_members`: **what an admission has checked and stored**.
-/

namespace Frostvault

open List

/-- A selected file with its Job and its items. -/
structure PurgeMember where
  file : VaultFile
  job : Job
  items : List DeletionItem

/-- The Job and the items are those of the file at the time of the request. -/
structure PurgeMember.Admitted (cat : Catalog) (v : VaultId) (g : GroupId) (origin : JobOrigin)
    (requestedAt : Stamp) (m : PurgeMember) : Prop where
  job : m.job = purgeJob v m.file origin g requestedAt m.job.id
  items : ∃ n, m.items = (currentTargets cat m.file).zipIdx.map fun (t, k) =>
    purgeItem m.job.id m.file.id t (n + k)

/-- The items of a group. -/
def groupItems (members : List PurgeMember) : List DeletionItem := members.flatMap PurgeMember.items

/-- The rows an admission appends. -/
structure GroupAdmission (cat cat' : Catalog) (v : VaultId) (g : GroupId) (origin : JobOrigin)
    (requestedAt : Stamp) (members : List PurgeMember) : Prop where
  files_eq : cat'.files = cat.files
  jobs_eq : cat'.jobs = cat.jobs ++ members.map PurgeMember.job
  items_eq : cat'.items = cat.items ++ groupItems members
  admitted : ∀ m ∈ members, m.Admitted cat v g origin requestedAt
  items_nodup : ((groupItems members).map DeletionItem.id).Nodup
  items_new : ∀ i ∈ groupItems members, i.id ∉ cat.items.map DeletionItem.id

variable {cat cat' : Catalog} {v : VaultId} {g : GroupId} {origin : JobOrigin}
  {requestedAt : Stamp} {m : PurgeMember} {members : List PurgeMember}

namespace PurgeMember.Admitted

section

variable (h : m.Admitted cat v g origin requestedAt)

include h

lemma target_of_item {i : DeletionItem} (hi : i ∈ m.items) :
    ∃ t ∈ currentTargets cat m.file, i = purgeItem m.job.id m.file.id t i.id := by
  obtain ⟨n, hn⟩ := h.items
  rw [hn] at hi
  obtain ⟨⟨t, k⟩, htk, rfl⟩ := mem_map.mp hi
  exact ⟨t, fst_mem_of_mem_zipIdx htk, rfl⟩

lemma item_of_target {t : DeletionTarget} (ht : t ∈ currentTargets cat m.file) :
    ∃ i ∈ m.items, i = purgeItem m.job.id m.file.id t i.id := by
  obtain ⟨n, hn⟩ := h.items
  rw [← zipIdx_map_fst 0 (currentTargets cat m.file)] at ht
  obtain ⟨⟨t, k⟩, hk, rfl⟩ := mem_map.mp ht
  exact ⟨purgeItem m.job.id m.file.id t (n + k), hn ▸ mem_map.mpr ⟨(t, k), hk, rfl⟩, rfl⟩

/-- Items that point at one row are one item, when the targets are different rows. -/
lemma item_unique (hkeys : ((currentTargets cat m.file).map fun t => (t.kind, t.rowId)).Nodup)
    {i i' : DeletionItem} (hi : i ∈ m.items) (hi' : i' ∈ m.items)
    (hversion : i.archiveVersionId = i'.archiveVersionId)
    (hmarker : i.deleteMarkerId = i'.deleteMarkerId) : i = i' := by
  obtain ⟨n, hn⟩ := h.items
  rw [hn] at hi hi'
  obtain ⟨⟨t, k⟩, hk, rfl⟩ := mem_map.mp hi
  obtain ⟨⟨t', k'⟩, hk', rfl⟩ := mem_map.mp hi'
  rw [mk_mem_zipIdx_iff_getElem?] at hk hk'
  have hkey : (t.kind, t.rowId) = (t'.kind, t'.rowId) := by
    simp only [purgeItem] at hversion hmarker
    cases hkind : t.kind <;> cases hkind' : t'.kind <;> simp_all
  have hat := getElem?_map (f := fun t : DeletionTarget => (t.kind, t.rowId))
    (l := currentTargets cat m.file) (i := k)
  have hat' := getElem?_map (f := fun t : DeletionTarget => (t.kind, t.rowId))
    (l := currentTargets cat m.file) (i := k')
  rw [hk, Option.map_some] at hat
  rw [hk', Option.map_some, ← hkey, ← hat] at hat'
  obtain ⟨hlt, -⟩ := List.getElem?_eq_some_iff.mp hat
  obtain rfl : k = k' := (getElem?_inj hlt hkeys).mp hat'.symm
  rw [Option.some.inj (hk.symm.trans hk')]

end

end PurgeMember.Admitted

lemma currentTargets_append {new : List DeletionItem} (hitems : cat'.items = cat.items ++ new)
    (hpending : ∀ i ∈ new, i.status = .pending) (f : VaultFile) :
    currentTargets cat' f = currentTargets cat f := by
  have hnew : ∀ id : RowId, new.any (fun i =>
      decide (i.deleteMarkerId = some id) && decide (i.status = .deleted)) = false := by
    intro id
    rw [any_eq_false]
    intro i hi
    simp [hpending i hi]
  simp only [currentTargets, markerTargets, hitems, any_append, hnew, Bool.or_false]

/-- **The loop over the selected files** appends their Jobs and items. -/
lemma groupAdmission_foldl (v : VaultId) (origin : JobOrigin) (g : GroupId) (requestedAt : Stamp)
    (files : List VaultFile) (cat : Catalog) :
    ∃ members : List PurgeMember, members.map PurgeMember.file = files ∧
      GroupAdmission cat (files.foldl (schedulePurgeOf v origin g requestedAt) cat) v g origin
        requestedAt members := by
  induction files generalizing cat with
  | nil => exact ⟨[], rfl, rfl, by simp, by simp [groupItems], by simp, by simp [groupItems],
      by simp [groupItems]⟩
  | cons f files ih =>
      obtain ⟨members, hfiles, h⟩ := ih (schedulePurgeOf v origin g requestedAt cat f)
      set first := Catalog.fresh (cat.items.map DeletionItem.id) with hfirst
      set own : PurgeMember := ⟨f, purgeJob v f origin g requestedAt cat.freshJobId,
        (currentTargets cat f).zipIdx.map fun (t, k) =>
          purgeItem cat.freshJobId f.id t (first + k)⟩ with hown
      have hitems : (schedulePurgeOf v origin g requestedAt cat f).items =
          cat.items ++ own.items := rfl
      have hjobs : (schedulePurgeOf v origin g requestedAt cat f).jobs = cat.jobs ++ [own.job] :=
        rfl
      have hpending : ∀ i ∈ own.items, i.status = .pending := by
        intro i hi
        obtain ⟨⟨t, k⟩, -, rfl⟩ := mem_map.mp hi
        rfl
      -- the items of a file are numbered from a fresh id on
      have hids : own.items.map DeletionItem.id =
          List.range' first (currentTargets cat f).length := by
        rw [hown, map_map, List.range'_eq_map_range]
        refine ext_getElem (by simp) fun n h₁ h₂ => ?_
        simp [purgeItem]
      have hfresh : ∀ i ∈ own.items, i.id ∉ cat.items.map DeletionItem.id := by
        intro i hi hold
        have hge : i.id ∈ List.range' first (currentTargets cat f).length :=
          hids ▸ mem_map_of_mem hi
        have hlt := Catalog.lt_fresh hold
        have := (mem_range'_1.mp hge).1
        omega
      have hmembers : groupItems (own :: members) = own.items ++ groupItems members := rfl
      refine ⟨own :: members, by rw [map_cons, hfiles], ?_⟩
      exact
        { files_eq := h.files_eq
          jobs_eq := by
            rw [foldl_cons, h.jobs_eq, hjobs]
            simp
          items_eq := by
            rw [foldl_cons, h.items_eq, hitems, hmembers, append_assoc]
          admitted := by
            intro m hm
            rcases mem_cons.mp hm with rfl | hm
            · exact ⟨rfl, first, rfl⟩
            · have hold := h.admitted m hm
              refine ⟨hold.job, ?_⟩
              rw [← currentTargets_append hitems hpending m.file]
              exact hold.items
          items_nodup := by
            rw [hmembers, map_append, nodup_append]
            refine ⟨hids ▸ nodup_range', h.items_nodup, ?_⟩
            rintro _ ha _ hb rfl
            obtain ⟨i, hi, hid⟩ := mem_map.mp hb
            refine h.items_new i hi ?_
            rw [hid, hitems, map_append]
            exact mem_append_right _ ha
          items_new := by
            intro i hi
            rw [hmembers] at hi
            rcases mem_append.mp hi with hi | hi
            · exact hfresh i hi
            · intro hold
              refine h.items_new i hi ?_
              rw [hitems, map_append]
              exact mem_append_left _ hold }

/-- What an admission selects are files of the Vault, each once. -/
lemma selectedFiles_spec {sel : Selection} {files : List VaultFile}
    (h : selectedFiles cat v sel = some files) :
    (∀ f ∈ files, f ∈ cat.files ∧ f.vaultId = v) ∧ files.Nodup := by
  have hnodup : cat.files.Nodup := List.Nodup.of_map _ cat.ids_nodup
  rw [selectedFiles] at h
  split at h
  · cases h
    refine ⟨fun f hf => ?_, hnodup.filter _⟩
    obtain ⟨hmem, hv⟩ := mem_filter.mp hf
    exact ⟨hmem, of_decide_eq_true (Bool.and_eq_true_iff.mp hv).1⟩
  · split at h
    · cases h
    · cases h
      refine ⟨fun f hf => ?_, hnodup.filter _⟩
      obtain ⟨hmem, hv⟩ := mem_filter.mp hf
      exact ⟨hmem, of_decide_eq_true (Bool.and_eq_true_iff.mp hv).1⟩

/-- **An admission** has checked the files of its members, and stored their Jobs and items. -/
lemma scheduleCloudPurge_members {vaults : VaultTable} {sel : Selection}
    {confirmation reason : String}
    (h : scheduleCloudPurge vaults cat v sel requestedAt confirmation reason origin = some cat') :
    ∃ vault members, vaults v = some vault ∧ members ≠ [] ∧
      GroupAdmission cat cat' v (freshGroupId cat) origin requestedAt members ∧
      (∀ m ∈ members, m.file ∈ cat.files ∧ m.file.vaultId = v) ∧
      (members.map PurgeMember.file).Nodup ∧
      validateFiles cat vault (members.map PurgeMember.file) none := by
  simp only [scheduleCloudPurge, Option.bind_eq_bind, Option.bind_eq_some_iff,
    Option.guard_eq_some', exists_const, Option.some.injEq] at h
  obtain ⟨vault, hvault, -, -, -, -, files, hsel, hne, hvalid, rfl⟩ := h
  obtain ⟨members, hfiles, hadm⟩ :=
    groupAdmission_foldl v origin (freshGroupId cat) requestedAt files cat
  obtain ⟨hmem, hnodup⟩ := selectedFiles_spec hsel
  refine ⟨vault, members, hvault, ?_, hadm, fun m hm => ?_, hfiles ▸ hnodup, hfiles ▸ hvalid⟩
  · rintro rfl
    exact hne hfiles.symm
  · exact hmem m.file (hfiles ▸ mem_map_of_mem hm)

end Frostvault
