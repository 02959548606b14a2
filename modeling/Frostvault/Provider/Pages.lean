import Frostvault.Provider.Listing

/-!
A listing is complete, however it is cut into pages (`_object_version_entries` of
`app/services/s3_copy.py`, `inventory` of `app/services/upload_provenance.py`).

The provider answers one request after the other; every request but the first hands back the
continuation marker of the page before.

* `replies`: what the provider answers to the requests of a listing;
* `Chained`: pages that all say whether they are the last one, and whose markers differ;
* `addItems_eq_some_iff`: one field of one page;
* `entriesFrom_eq_ok_iff`: **what the loop returns**, from any page on;
* `exact_listing`: **a listing is exact or raises, whatever the pages**.
-/

namespace Frostvault

open List

/-! ### Requests -/

/-- `NextKeyMarker` and `NextVersionIdMarker`, which the next request hands back. -/
abbrev Continuation := ObjectKey × Option ProviderVersionId

/-- The continuation marker of a page, if it has one. -/
def VersionPage.continuation (page : VersionPage) : Option Continuation :=
  page.nextKeyMarker.map fun k => (k, page.nextVersionIdMarker)

/-- A provider: its answer to the request for the page after a continuation marker. -/
abbrev PagedProvider := Option Continuation → Except ProviderError VersionPage

/-- The answers to the requests of a listing, of which there are at most `n`. -/
def replies (provider : PagedProvider) : ℕ → Option Continuation →
    List (Except ProviderError VersionPage)
  | 0, _ => []
  | n + 1, c =>
      provider c ::
        match provider c with
        | .ok page =>
            if page.isTruncated = some true then
              match page.continuation with
              | some next => replies provider n (some next)
              | none => []
            else []
        | .error _ => []

/-- The provider answers with these pages, each to the marker of the one before. -/
def PagesServed (provider : PagedProvider) : Option Continuation → List VersionPage → Prop
  | _, [] => True
  | c, page :: pages => provider c = .ok page ∧ PagesServed provider page.continuation pages

/-- The pages of a complete listing: the last one says that it is the last, the others that they
are not, and no continuation marker is missing or occurs twice or among `seen`. -/
inductive Chained : List Continuation → List VersionPage → Prop
  | last {seen : List Continuation} {page : VersionPage} (h : page.isTruncated = some false) :
      Chained seen [page]
  | more {seen : List Continuation} {page : VersionPage} {pages : List VersionPage}
      {next : Continuation} (h : page.isTruncated = some true)
      (hnext : page.continuation = some next) (hnew : next ∉ seen)
      (hpages : Chained (next :: seen) pages) : Chained seen (page :: pages)

/-- What a provider lists for a prefix: the versions and the delete markers, of all keys that
start with it. -/
structure KeyListing where
  versions : List PageItem
  deleteMarkers : List PageItem

/-- What pages list together. -/
def listingOf (pages : List VersionPage) : KeyListing where
  versions := pages.flatMap VersionPage.versions
  deleteMarkers := pages.flatMap VersionPage.deleteMarkers

/-- The listing is cut into these pages. -/
structure PageSplit (listing : KeyListing) (pages : List VersionPage) : Prop where
  listed : listingOf pages = listing
  chained : Chained [] pages

/-! ### Exact identities -/

/-- The VersionIds listed for the key itself. -/
def exactIds (key : ObjectKey) (items : List PageItem) : List ProviderVersionId :=
  items.filterMap fun item => if item.key = key then item.versionId else none

/-- Every entry of the key itself has a VersionId, and not `null`. -/
def Named (key : ObjectKey) (items : List PageItem) : Prop :=
  ∀ item ∈ items, item.key = key → item.versionId.any (· ≠ nullVersionId) = true

instance (key : ObjectKey) (items : List PageItem) : Decidable (Named key items) :=
  inferInstanceAs (Decidable (∀ _ ∈ _, _))

/-- The exact identities of the key are not ambiguous: none is empty or `null`, and none occurs
twice, as a version or as a delete marker. -/
structure KeyListing.Unambiguous (key : ObjectKey) (l : KeyListing) : Prop where
  versions : Named key l.versions
  deleteMarkers : Named key l.deleteMarkers
  once : (exactIds key l.versions ++ exactIds key l.deleteMarkers).Nodup

instance (key : ObjectKey) (l : KeyListing) : Decidable (l.Unambiguous key) :=
  decidable_of_iff (Named key l.versions ∧ Named key l.deleteMarkers ∧
    (exactIds key l.versions ++ exactIds key l.deleteMarkers).Nodup)
    ⟨fun h => ⟨h.1, h.2.1, h.2.2⟩, fun h => ⟨h.1, h.2, h.3⟩⟩

variable {key : ObjectKey}

lemma exactIds_append (a b : List PageItem) :
    exactIds key (a ++ b) = exactIds key a ++ exactIds key b :=
  filterMap_append

lemma named_append (a b : List PageItem) :
    Named key (a ++ b) ↔ Named key a ∧ Named key b := by
  simp only [Named, mem_append, or_imp, forall_and]

/-- **One field of one page**: the identities of the key are added, in order, unless one of them is
ambiguous. -/
lemma addItems_eq_some_iff {other entries out : List ProviderVersionId} {items : List PageItem} :
    addItems key other entries items = some out ↔
      out = entries ++ exactIds key items ∧ Named key items ∧ (exactIds key items).Nodup ∧
        ∀ v ∈ exactIds key items, v ∉ entries ∧ v ∉ other := by
  induction items generalizing entries with
  | nil =>
      have hids : exactIds key [] = [] := rfl
      have hnamed : Named key [] := forall_mem_nil _
      rw [addItems, Option.some.injEq, hids, append_nil]
      exact ⟨fun h => ⟨h.symm, hnamed, nodup_nil, forall_mem_nil _⟩, fun h => h.1.symm⟩
  | cons item items ih =>
      by_cases hkey : item.key = key
      · cases hid : item.versionId with
        | none => simp [addItems, hkey, hid, Named]
        | some v =>
            have hids : exactIds key (item :: items) = v :: exactIds key items := by
              simp [exactIds, hkey, hid]
            have hnamed : Named key (item :: items) ↔ v ≠ nullVersionId ∧ Named key items := by
              simp [Named, hkey, hid]
            rw [addItems, if_neg (not_not.mpr hkey), hid]
            dsimp only
            rw [hids, hnamed]
            split
            · rename_i hbad
              simp only [reduceCtorEq, nodup_cons, mem_cons, false_iff]
              rintro ⟨-, ⟨hnull, -⟩, -, hnew⟩
              obtain ⟨hentries, hother⟩ := hnew v (.inl rfl)
              exact hbad.elim hnull fun h => h.elim hentries hother
            · rename_i hgood
              simp only [not_or] at hgood
              have hsnoc (u : ProviderVersionId) : u ∉ entries ++ [v] ↔ u ∉ entries ∧ u ≠ v := by
                simp
              rw [ih, append_assoc, singleton_append]
              simp only [hsnoc, nodup_cons, mem_cons]
              constructor
              · rintro ⟨hout, hn, hnd, hnew⟩
                refine ⟨hout, ⟨hgood.1, hn⟩, ⟨fun hv => (hnew v hv).1.2 rfl, hnd⟩, ?_⟩
                rintro u (rfl | hu)
                · exact hgood.2
                · exact ⟨(hnew u hu).1.1, (hnew u hu).2⟩
              · rintro ⟨hout, ⟨-, hn⟩, ⟨hv, hnd⟩, hnew⟩
                refine ⟨hout, hn, hnd, fun u hu => ⟨⟨(hnew u (.inr hu)).1, ?_⟩,
                  (hnew u (.inr hu)).2⟩⟩
                rintro rfl
                exact hv hu
      · have hids : exactIds key (item :: items) = exactIds key items := by
          simp [exactIds, hkey]
        have hnamed : Named key (item :: items) ↔ Named key items := by
          simp [Named, hkey]
        rw [addItems, if_pos hkey, ih, hids, hnamed]

/-- The same, where what was found before is in order. -/
lemma addItems_eq_some_iff_nodup {other entries out : List ProviderVersionId}
    {items : List PageItem} (hnd : (entries ++ other).Nodup) :
    addItems key other entries items = some out ↔
      out = entries ++ exactIds key items ∧ Named key items ∧ (out ++ other).Nodup := by
  rw [addItems_eq_some_iff]
  refine and_congr_right fun hout => and_congr_right fun _ => ?_
  obtain ⟨hentries, hother, hdis⟩ := nodup_append.mp hnd
  rw [hout, nodup_append, nodup_append]
  constructor
  · rintro ⟨hids, hnew⟩
    refine ⟨⟨hentries, hids, ?_⟩, hother, ?_⟩
    · rintro a ha b hb rfl
      exact (hnew a hb).1 ha
    · rintro a ha b hb rfl
      rcases mem_append.mp ha with ha | ha
      · exact hdis a ha a hb rfl
      · exact (hnew a ha).2 hb
  · rintro ⟨⟨-, hids, hnew⟩, -, hapart⟩
    refine ⟨hids, fun v hv => ⟨fun h => hnew v h v hv rfl, fun h => ?_⟩⟩
    exact hapart v (mem_append_right _ hv) v h rfl

/-! ### The loop -/

/-- What the loop has when it found `vs` and `ms` before these pages. -/
def foundAfter (key : ObjectKey) (vs ms : List ProviderVersionId) (l : KeyListing) :
    List ProviderVersionId × List ProviderVersionId :=
  (vs ++ exactIds key l.versions, ms ++ exactIds key l.deleteMarkers)

/-- The identities of the pages can be told apart, and from those found before. -/
structure Apart (key : ObjectKey) (vs ms : List ProviderVersionId) (l : KeyListing) : Prop where
  versions : Named key l.versions
  deleteMarkers : Named key l.deleteMarkers
  once : ((foundAfter key vs ms l).1 ++ (foundAfter key vs ms l).2).Nodup

lemma apart_nil {l : KeyListing} : Apart key [] [] l ↔ l.Unambiguous key :=
  ⟨fun h => ⟨h.1, h.2, h.3⟩, fun h => ⟨h.1, h.2, h.3⟩⟩

lemma foundAfter_cons (vs ms : List ProviderVersionId) (page : VersionPage)
    (pages : List VersionPage) :
    foundAfter key vs ms (listingOf (page :: pages)) =
      foundAfter key (vs ++ exactIds key page.versions) (ms ++ exactIds key page.deleteMarkers)
        (listingOf pages) := by
  simp only [foundAfter, listingOf, flatMap_cons, exactIds_append, append_assoc]

variable {ms vs : List ProviderVersionId} {pages : List VersionPage} {seen : List Continuation}

/-- The identities of one page, and those of the pages after it. -/
lemma apart_cons {page : VersionPage} :
    Apart key vs ms (listingOf (page :: pages)) ↔
      Named key page.versions ∧ Named key page.deleteMarkers ∧
        Apart key (vs ++ exactIds key page.versions) (ms ++ exactIds key page.deleteMarkers)
          (listingOf pages) := by
  have hv : Named key (listingOf (page :: pages)).versions ↔
      Named key page.versions ∧ Named key (listingOf pages).versions := by
    rw [← named_append]
    rfl
  have hm : Named key (listingOf (page :: pages)).deleteMarkers ↔
      Named key page.deleteMarkers ∧ Named key (listingOf pages).deleteMarkers := by
    rw [← named_append]
    rfl
  constructor
  · rintro ⟨h₁, h₂, h₃⟩
    rw [foundAfter_cons] at h₃
    exact ⟨(hv.mp h₁).1, (hm.mp h₂).1, (hv.mp h₁).2, (hm.mp h₂).2, h₃⟩
  · rintro ⟨h₁, h₂, h₃⟩
    refine ⟨hv.mpr ⟨h₁, h₃.versions⟩, hm.mpr ⟨h₂, h₃.deleteMarkers⟩, ?_⟩
    rw [foundAfter_cons]
    exact h₃.once

lemma Apart.before {l : KeyListing} (h : Apart key vs ms l) :
    (vs ++ ms).Nodup :=
  h.once.sublist ((sublist_append_left _ _).append (sublist_append_left _ _))

/-- **One page.** -/
lemma addPage_iff {vs' ms' : List ProviderVersionId} {page : VersionPage} (hnd : (vs ++ ms).Nodup) :
    (addItems key ms vs page.versions = some vs' ∧
        addItems key vs' ms page.deleteMarkers = some ms') ↔
      vs' = vs ++ exactIds key page.versions ∧ ms' = ms ++ exactIds key page.deleteMarkers ∧
        Named key page.versions ∧ Named key page.deleteMarkers ∧ (vs' ++ ms').Nodup := by
  rw [addItems_eq_some_iff_nodup hnd]
  constructor
  · rintro ⟨⟨hvs, hn, hnd'⟩, hms⟩
    rw [addItems_eq_some_iff_nodup (nodup_append_comm.mp hnd')] at hms
    exact ⟨hvs, hms.1, hn, hms.2.1, nodup_append_comm.mp hms.2.2⟩
  · rintro ⟨hvs, hms, hn, hn', hnd'⟩
    have hmid : (vs' ++ ms).Nodup := by
      refine hnd'.sublist (List.Sublist.append_left ?_ vs')
      rw [hms]
      exact sublist_append_left _ _
    refine ⟨⟨hvs, hn, hmid⟩, ?_⟩
    rw [addItems_eq_some_iff_nodup (nodup_append_comm.mp hmid)]
    exact ⟨hms, hn', nodup_append_comm.mp hnd'⟩

/-- **What the loop returns**: it read pages up to one that says it is the last, and what they list
of the key is not ambiguous. -/
theorem entriesFrom_eq_ok_iff {answers : List (Except ProviderError VersionPage)}
    {out : List ProviderVersionId × List ProviderVersionId} (hnd : (vs ++ ms).Nodup) :
    entriesFrom key vs ms seen answers = .ok out ↔
      ∃ pages rest, answers = pages.map .ok ++ rest ∧ Chained seen pages ∧
        Apart key vs ms (listingOf pages) ∧ out = foundAfter key vs ms (listingOf pages) := by
  induction answers generalizing vs ms seen with
  | nil =>
      constructor
      · intro h
        cases h
      · rintro ⟨pages, rest, hnil, hch, -⟩
        have hpages : pages = [] := map_eq_nil_iff.mp (append_eq_nil_iff.mp hnil.symm).1
        subst hpages
        cases hch
  | cons answer answers ih =>
      cases answer with
      | error e =>
          constructor
          · intro h
            cases h
          · rintro ⟨pages, rest, heq, hch, -⟩
            cases hch <;> cases heq
      | ok page =>
          constructor
          · intro h
            rw [entriesFrom] at h
            split at h
            · rename_i truncated vs' htruncated hvs
              split at h
              · cases h
              · rename_i ms' hms
                obtain ⟨rfl, rfl, hn, hn', hnd'⟩ := (addPage_iff hnd).mp ⟨hvs, hms⟩
                split at h
                · rename_i ht
                  split at h
                  · cases h
                  · rename_i next hnext
                    split at h
                    · cases h
                    · rename_i hnew
                      obtain ⟨pages, rest, rfl, hch, hapart, hout⟩ := (ih hnd').mp h
                      refine ⟨page :: pages, rest, rfl, .more (htruncated.trans (by rw [ht]))
                        (by rw [VersionPage.continuation, hnext]; rfl) hnew hch,
                        apart_cons.mpr ⟨hn, hn', hapart⟩, ?_⟩
                      rw [hout, foundAfter_cons]
                · rename_i ht
                  cases h
                  have hlast : page.isTruncated = some false := by
                    rw [htruncated, Bool.eq_false_of_not_eq_true ht]
                  have hapart : Apart key (vs ++ exactIds key page.versions)
                      (ms ++ exactIds key page.deleteMarkers) (listingOf []) :=
                    ⟨forall_mem_nil _, forall_mem_nil _, by
                      simpa [foundAfter, listingOf, exactIds] using hnd'⟩
                  refine ⟨[page], answers, rfl, .last hlast,
                    apart_cons.mpr ⟨hn, hn', hapart⟩, ?_⟩
                  simp [foundAfter, listingOf]
            · cases h
          · rintro ⟨pages, rest, heq, hch, hapart, rfl⟩
            cases hch with
            | @last _ page' hlast =>
                obtain ⟨hpage, -⟩ := cons_eq_cons.mp heq
                cases hpage
                obtain ⟨hn, hn', hrest⟩ := apart_cons.mp hapart
                obtain ⟨hvs, hms⟩ := (addPage_iff hnd).mpr ⟨rfl, rfl, hn, hn', hrest.before⟩
                rw [entriesFrom, hlast, hvs]
                dsimp only
                rw [hms]
                simp [foundAfter, listingOf]
            | @more _ page' pages next ht hnext hnew hch =>
                obtain ⟨hpage, hanswers⟩ := cons_eq_cons.mp heq
                cases hpage
                obtain ⟨hn, hn', hrest⟩ := apart_cons.mp hapart
                obtain ⟨hvs, hms⟩ := (addPage_iff hnd).mpr ⟨rfl, rfl, hn, hn', hrest.before⟩
                obtain ⟨k, hk, rfl⟩ := Option.map_eq_some_iff.mp hnext
                rw [entriesFrom, ht, hvs]
                dsimp only
                rw [hms, hk]
                dsimp only
                rw [if_pos rfl, if_neg hnew]
                exact (ih hrest.before).mpr
                  ⟨pages, rest, hanswers, hch, hrest, foundAfter_cons vs ms page pages⟩

/-- On pages that are chained the loop raises nothing but its own exceptions. -/
lemma entriesFrom_chained (hch : Chained seen pages)
    (rest : List (Except ProviderError VersionPage)) {e : ProviderError}
    (h : entriesFrom key vs ms seen (pages.map .ok ++ rest) = .error e) : e = .other := by
  induction hch generalizing vs ms with
  | last hlast =>
      rw [map_cons, cons_append, entriesFrom, hlast] at h
      split at h
      · rename_i truncated vs' htruncated _
        cases htruncated
        split at h
        · exact (Except.error.inj h).symm
        · cases h
      · exact (Except.error.inj h).symm
  | more ht hnext hnew hch ih =>
      obtain ⟨k, hk, rfl⟩ := Option.map_eq_some_iff.mp hnext
      rw [map_cons, cons_append, entriesFrom, ht] at h
      split at h
      · rename_i truncated vs' htruncated _
        cases htruncated
        split at h
        · exact (Except.error.inj h).symm
        · rw [if_pos rfl, hk] at h
          dsimp only at h
          rw [if_neg hnew] at h
          exact ih h
      · exact (Except.error.inj h).symm

lemma Chained.eq_nil_of_append {seen' : List Continuation} {rest : List VersionPage}
    (h : Chained seen pages) (h' : Chained seen' (pages ++ rest)) : rest = [] := by
  induction h generalizing seen' with
  | last hlast =>
      cases h' with
      | last _ => rfl
      | more ht _ _ _ => cases hlast.symm.trans ht
  | @more _ page pages _ ht hnext hnew hch ih =>
      have hall : Chained seen' (page :: (pages ++ rest)) := h'
      generalize hl : pages ++ rest = l at hall
      cases hall with
      | last hlast => cases hlast.symm.trans ht
      | more _ _ _ hch' => exact ih (hl ▸ hch')

/-! ### A provider and its pages -/

/-- The requests of a listing see the pages the provider serves, and end with the last one. -/
lemma replies_of_serves {provider : PagedProvider} {c : Option Continuation} {n : ℕ}
    (hch : Chained seen pages) (hserves : PagesServed provider c pages) (hn : pages.length ≤ n) :
    replies provider n c = pages.map .ok := by
  induction hch generalizing c n with
  | last hlast =>
      obtain ⟨m, rfl⟩ : ∃ m, n = m + 1 := Nat.exists_eq_add_one.mpr hn
      rw [replies, hserves.1]
      dsimp only
      rw [if_neg (by rw [hlast]; decide)]
      rfl
  | more ht hnext hnew hch ih =>
      obtain ⟨m, rfl⟩ : ∃ m, n = m + 1 :=
        Nat.exists_eq_add_one.mpr (Nat.lt_of_lt_of_le (Nat.succ_pos _) hn)
      obtain ⟨hfirst, hrest⟩ := hserves
      rw [hnext] at hrest
      rw [replies, hfirst]
      dsimp only
      rw [if_pos ht, hnext]
      dsimp only
      rw [ih hrest (Nat.le_of_succ_le_succ hn)]
      rfl

/-- The pages among the answers to a listing are those the provider serves. -/
lemma serves_of_replies {provider : PagedProvider} {rest : List (Except ProviderError VersionPage)}
    {c : Option Continuation} {n : ℕ} (hch : Chained seen pages)
    (h : replies provider n c = pages.map .ok ++ rest) : PagesServed provider c pages := by
  induction hch generalizing c n with
  | last hlast =>
      cases n with
      | zero => cases h
      | succ m =>
          obtain ⟨hfirst, -⟩ := cons_eq_cons.mp h
          exact ⟨hfirst, trivial⟩
  | more ht hnext hnew hch ih =>
      cases n with
      | zero => cases h
      | succ m =>
          obtain ⟨hfirst, hanswers⟩ := cons_eq_cons.mp h
          rw [hfirst] at hanswers
          dsimp only at hanswers
          rw [if_pos ht, hnext] at hanswers
          refine ⟨hfirst, ?_⟩
          rw [hnext]
          exact ih hanswers

/-- What a listing of a key is: its identities, unless one of them is ambiguous. -/
def KeyListing.exact (key : ObjectKey) (l : KeyListing) :
    Except ProviderError (List ProviderVersionId × List ProviderVersionId) :=
  if l.Unambiguous key then .ok (exactIds key l.versions, exactIds key l.deleteMarkers)
  else .error .other

lemma objectVersionEntries_split {listing : KeyListing} (h : PageSplit listing pages) :
    objectVersionEntries key (pages.map .ok) = listing.exact key := by
  have hloop (out : List ProviderVersionId × List ProviderVersionId) :
      objectVersionEntries key (pages.map .ok) = .ok out ↔
        ∃ (shown : List VersionPage) (rest : List (Except ProviderError VersionPage)),
          pages.map .ok = shown.map .ok ++ rest ∧ Chained [] shown ∧
          Apart key [] [] (listingOf shown) ∧ out = foundAfter key [] [] (listingOf shown) :=
    entriesFrom_eq_ok_iff nodup_nil
  have hexact : listing.Unambiguous key → objectVersionEntries key (pages.map .ok) =
      .ok (exactIds key listing.versions, exactIds key listing.deleteMarkers) := by
    intro hun
    refine (hloop _).mpr ⟨pages, [], (append_nil _).symm, h.chained, ?_, ?_⟩
    · rw [h.listed]
      exact apart_nil.mpr hun
    · rw [h.listed]
      rfl
  by_cases hun : listing.Unambiguous key
  · rw [KeyListing.exact, if_pos hun, hexact hun]
  · rw [KeyListing.exact, if_neg hun]
    cases hres : objectVersionEntries key (pages.map .ok) with
    | error e =>
        rw [← append_nil (pages.map Except.ok)] at hres
        rw [entriesFrom_chained h.chained [] hres]
    | ok out =>
        obtain ⟨pages', rest, heq, hch, hapart, -⟩ := (hloop out).mp hres
        obtain ⟨front, back, rfl, hfront, -⟩ := map_eq_append_iff.mp heq
        have hsame : front = pages' :=
          map_injective_iff.mpr (fun _ _ h => Except.ok.inj h) hfront
        subst hsame
        obtain rfl := hch.eq_nil_of_append h.chained
        rw [append_nil] at h
        rw [h.listed] at hapart
        exact (hun (apart_nil.mp hapart)).elim

variable (key) in
/-- **A listing is exact or raises.**  What is returned was read up to a page that says it is the
last, from pages that all say whether they are, with no continuation marker missing or repeated, and
is exactly what these pages list of the key, each identity once and none ambiguous.  Conversely a
listing that is cut into such pages, in any way, gives what it has of the key, or raises where an
identity is ambiguous; so does the sorted inventory. -/
theorem exact_listing :
    (∀ (provider : PagedProvider) (n : ℕ) (out : List ProviderVersionId × List ProviderVersionId),
      objectVersionEntries key (replies provider n none) = .ok out →
        ∃ listing pages, PageSplit listing pages ∧ PagesServed provider none pages ∧
          listing.exact key = .ok out) ∧
    ∀ (listing : KeyListing) (pages : List VersionPage) (provider : PagedProvider) (n : ℕ),
      PageSplit listing pages → PagesServed provider none pages → pages.length ≤ n →
        objectVersionEntries key (replies provider n none) = listing.exact key ∧
        ∀ ready, inventory key ready (replies provider n none) =
          (guardedListing ready (listing.exact key)).map fun (versions, markers) =>
            ⟨versions.insertionSort (· ≤ ·), markers.insertionSort (· ≤ ·)⟩ := by
  constructor
  · intro provider n out h
    obtain ⟨pages, rest, heq, hch, hapart, hout⟩ := (entriesFrom_eq_ok_iff nodup_nil).mp h
    refine ⟨listingOf pages, pages, ⟨rfl, hch⟩, serves_of_replies hch heq, ?_⟩
    rw [KeyListing.exact, if_pos (apart_nil.mp hapart), hout]
    rfl
  · intro listing pages provider n hsplit hserves hn
    have hlisted : objectVersionEntries key (replies provider n none) = listing.exact key := by
      rw [replies_of_serves hsplit.chained hserves hn, objectVersionEntries_split hsplit]
    refine ⟨hlisted, fun ready => ?_⟩
    rw [inventory, hlisted]

/-- Two pages of a listing in which two keys share the prefix. -/
def twoPages : List VersionPage :=
  [⟨some true, [⟨4, some 7⟩, ⟨5, some 7⟩], [], some 4, some 7⟩,
    ⟨some false, [⟨4, some 8⟩], [⟨4, some 9⟩], none, none⟩]

/-- A provider that serves them. -/
def twoPageProvider : PagedProvider
  | none => .ok ⟨some true, [⟨4, some 7⟩, ⟨5, some 7⟩], [], some 4, some 7⟩
  | some _ => .ok ⟨some false, [⟨4, some 8⟩], [⟨4, some 9⟩], none, none⟩

/-- The versions 7 and 8 of the key 4 and its marker 9 are listed, from two pages. -/
theorem exact_listing_two_pages :
    objectVersionEntries 4 (replies twoPageProvider 2 none) = .ok ([7, 8], [9]) :=
  ((exact_listing 4).2 (listingOf twoPages) twoPages twoPageProvider 2
    ⟨rfl, .more rfl rfl (fun h => nomatch h) (.last rfl)⟩ ⟨rfl, rfl, trivial⟩ (by decide)).1

end Frostvault
