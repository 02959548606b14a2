import Frostvault.Upload.SnapshotCodec

/-!
The layout of Upload Snapshots, prepared and read back (`app/services/upload_snapshot.py`).

* `layout_of_count`: whole numbers and the right number of parts make a layout;
* `validate_of_parts`: what `from_json` checks holds of a snapshot of the bytes that were read;
* `readPart_ends`, `readParts_ends`: both loops end, with what they have read cut into parts;
* `hasLayout_iff`: an accepted text has a layout exactly if its size is whole, and its part size is
  whole or the only part is not full;
* `snapshot_codec`: **preparation ends with a layout that survives the codec, and accepted texts
  have one exactly under that condition**.
-/

namespace Frostvault

open List

namespace SnapshotLayout

/-! ### The layout -/

/-- The parts of the snapshot, as `part_length` gives them, have these lengths in bytes. -/
structure Layout (s : SnapshotData) (lengths : List ℕ) : Prop where
  lengths_eq : (List.range s.partChecksums.length).map
    (fun i => (partLength s (i + 1)).map PyNumber.value) = lengths.map fun l : ℕ => some (l : ℚ)
  positive : ∀ l ∈ lengths, 0 < l ∨ s.size.value = 0
  bounded : ∀ l ∈ lengths, (l : ℚ) ≤ s.partSize.value
  sum_eq : (lengths.sum : ℚ) = s.size.value
  count_eq : s.partChecksums.length = max 1 ⌈s.size.value / s.partSize.value⌉₊
  count_le : s.partChecksums.length ≤ 10000

/-- The snapshot denotes a layout. -/
def HasLayout (s : SnapshotData) : Prop := ∃ lengths, Layout s lengths

/-- The number is a whole one. -/
def Whole (a : PyNumber) : Prop := ∃ n : ℕ, a.value = n

variable {bytes : List UInt8} {partSize size : ℕ} {parts : List (List Char)} {s : SnapshotData}

/-- The length of a part of a snapshot with whole sizes. -/
lemma partLength_value {i : ℕ} (hsize : s.size.Is size) (hpart : s.partSize.Is partSize)
    (hi : i < s.partChecksums.length) (hlt : i * partSize ≤ size) (hbound : size < 2 ^ 53)
    (hcount : i < 10000) :
    (partLength s (i + 1)).map PyNumber.value =
      some ((min partSize (size - i * partSize) : ℕ) : ℚ) := by
  have hcast : ((i + 1 : ℕ) : ℤ) - 1 = i := by omega
  have hindex : (PyNumber.int ((i + 1 : ℕ) - 1)).Is i := by
    rw [hcast]
    refine PyNumber.is_int ?_
    rw [Nat.abs_cast]
    omega
  have hprod : (i : ℤ) * partSize = (i * partSize : ℕ) := by push_cast; rfl
  have hmul := PyNumber.is_mul hindex hpart (by rw [hprod, Nat.abs_cast]; omega)
  have hdiff : (size : ℤ) - i * partSize = (size - i * partSize : ℕ) := by
    rw [hprod, Nat.cast_sub hlt]
  have hsub := PyNumber.is_sub hsize hmul (by rw [hdiff, Nat.abs_cast]; omega)
  rw [hdiff] at hsub
  have hmin := PyNumber.is_min hpart hsub
  rw [partLength, if_pos (by omega), Option.map_some, hmin.1]
  push_cast
  rfl

/-- **Whole numbers and the right number of parts make a layout.** -/
lemma layout_of_count (hsize : s.size.Is size) (hpart : s.partSize.Is partSize)
    (hpos : 0 < partSize) (hbound : size < 2 ^ 53)
    (hcount : s.partChecksums.length = max 1 (Parts.count partSize size))
    (hle : s.partChecksums.length ≤ 10000) :
    Layout s ((List.range s.partChecksums.length).map
      fun i => min partSize (size - i * partSize)) := by
  have hstart : ∀ i < s.partChecksums.length, i * partSize < size ∨ size = 0 ∧ i = 0 := by
    intro i hi
    by_cases hlt : i < Parts.count partSize size
    · exact Or.inl ((Parts.lt_count_iff hpos).mp hlt)
    · have hi0 : i = 0 := by omega
      subst hi0
      have hzero := mt (Parts.lt_count_iff hpos).mpr hlt
      exact Or.inr ⟨by omega, rfl⟩
  have hlast : size ≤ Parts.count partSize size * partSize :=
    not_lt.mp fun h => lt_irrefl _ ((Parts.lt_count_iff hpos).mpr h)
  have hvalue : s.size.value = (size : ℚ) := hsize.1
  have hpartValue : s.partSize.value = (partSize : ℚ) := hpart.1
  refine ⟨?_, ?_, ?_, ?_, ?_, hle⟩
  · rw [map_map]
    refine map_congr_left fun i hi => ?_
    have hi := mem_range.mp hi
    refine partLength_value hsize hpart hi ?_ hbound (by omega)
    rcases hstart i hi with h | ⟨-, rfl⟩ <;> omega
  · intro l hl
    obtain ⟨i, hi, rfl⟩ := mem_map.mp hl
    rcases hstart i (mem_range.mp hi) with h | ⟨h, -⟩
    · exact Or.inl (by omega)
    · exact Or.inr (by rw [hvalue, h, Nat.cast_zero])
  · intro l hl
    obtain ⟨i, -, rfl⟩ := mem_map.mp hl
    rw [hpartValue]
    exact_mod_cast min_le_left partSize (size - i * partSize)
  · rw [hvalue, Parts.sum_lengths]
    congr 1
    refine min_eq_left (hlast.trans ?_)
    exact Nat.mul_le_mul_right _ (by rw [hcount]; exact le_max_right _ _)
  · rw [hcount, Parts.count_eq_ceil hpos, hvalue, hpartValue]

/-! ### Accepted texts -/

variable {sha256 : List UInt8 → List UInt8}

/-- The checks of `from_json`, one by one. -/
structure Validated (sha256 : List UInt8 → List UInt8) (s : SnapshotData)
    (digest : List UInt8) (parts : List (List UInt8)) : Prop where
  size_nonneg : 0 ≤ s.size.value
  size_le : s.size.value ≤ maxObjectSize
  le_partSize : defaultPartSize ≤ s.partSize.value
  partSize_le : s.partSize.value ≤ maxPartSize
  digest_eq : Hex.decode s.plaintextSha256 = some digest
  parts_eq : s.partChecksums.mapM Base64.decode = some parts
  digest_length : digest.length = 32
  parts_ne : parts ≠ []
  parts_length : ∀ p ∈ parts, p.length = 32
  count : (parts.length : ℚ) = (expectedCount s.size s.partSize).value
  count_le : (expectedCount s.size s.partSize).value ≤ 10000
  type_eq : s.checksumType = checksumType (isMultipart s.size)
  checksum : s.checksumSha256 =
    if isMultipart s.size then compositeChecksum sha256 parts else Base64.encode digest
  single : isMultipart s.size = false → parts.head? = some digest

lemma guard_eq_some {p : Prop} [Decidable p] {u : Unit} :
    (guard p : Option Unit) = some u ↔ p := by
  by_cases hp : p
  · simp [guard, hp]
  · simp [guard, hp]

lemma validate_eq_some :
    validate sha256 s = some () ↔ ∃ digest parts, Validated sha256 s digest parts := by
  simp only [validate, Option.bind_eq_bind, Option.bind_eq_some_iff, guard_eq_some]
  constructor
  · rintro ⟨-, ⟨h1, h2, h3, h4⟩, digest, hdigest, parts, hparts, -, ⟨h5, h6, h7⟩, h8, h9, h10, h11,
      h12⟩
    exact ⟨digest, parts, h1, h2, h3, h4, hdigest, hparts, h5, h6, h7, h8, h9, h10, h11, h12⟩
  · rintro ⟨digest, parts, h⟩
    exact ⟨(), ⟨h.size_nonneg, h.size_le, h.le_partSize, h.partSize_le⟩, digest, h.digest_eq,
      parts, h.parts_eq, (), ⟨h.digest_length, h.parts_ne, h.parts_length⟩, h.count, h.count_le,
      h.type_eq, h.checksum, h.single⟩

lemma validated_of_fromJson {raw : List Char} (h : fromJson sha256 raw = some s) :
    ∃ digest parts, Validated sha256 s digest parts := by
  unfold fromJson at h
  split at h
  · obtain ⟨s', -, h⟩ := Option.bind_eq_some_iff.mp h
    obtain ⟨_, hvalid, h⟩ := Option.bind_eq_some_iff.mp h
    cases h
    exact validate_eq_some.mp hvalid
  · cases h

lemma length_of_mapM {α β : Type} {f : α → Option β} {as : List α} {bs : List β}
    (h : as.mapM f = some bs) : as.length = bs.length := by
  induction as generalizing bs with
  | nil =>
      cases h
      rfl
  | cons a as ih =>
      rw [mapM_cons] at h
      obtain ⟨b, -, h⟩ := Option.bind_eq_some_iff.mp h
      obtain ⟨bs', hbs, h⟩ := Option.bind_eq_some_iff.mp h
      cases h
      rw [length_cons, length_cons, ih hbs]

/-- The number of parts that is expected of whole sizes. -/
lemma expectedCount_value {size partSize : PyNumber} {n p : ℕ} (hsize : size.Is n)
    (hpart : partSize.Is p) (hp : defaultPartSize ≤ p) (hn : n ≤ maxObjectSize)
    (hpmax : p ≤ maxPartSize) :
    (expectedCount size partSize).value = ((max 1 (Parts.count p n) : ℕ) : ℚ) := by
  have hone : (PyNumber.int 1).Is 1 := PyNumber.is_int (by decide)
  have hpos : 0 < p := lt_of_lt_of_le (by decide) hp
  simp only [maxObjectSize, maxPartSize, chunkSize] at hn hpmax
  have hmult : isMultipart size = decide (multipartThreshold ≤ n) := by
    rw [isMultipart, hsize.1]
    norm_cast
  unfold expectedCount
  rw [hmult]
  by_cases hbig : multipartThreshold ≤ n
  · have hsum : (n : ℤ) + p - 1 = (n + p - 1 : ℕ) := by omega
    have hadd := PyNumber.is_add hsize hpart (by rw [abs_lt]; constructor <;> omega)
    have hsub := PyNumber.is_sub hadd hone (by rw [abs_lt]; constructor <;> omega)
    rw [hsum] at hsub
    have hquot : ((n + p - 1 : ℕ) : ℤ) / p = (Parts.count p n : ℕ) := by
      rw [Parts.count]
      push_cast
      rfl
    have hquot_le : Parts.count p n ≤ n + p - 1 := Nat.div_le_self _ _
    have hdiv := PyNumber.is_floordiv hsub hpart (by omega)
      (by rw [hquot, Nat.abs_cast]; omega)
    rw [hquot] at hdiv
    have hmax := PyNumber.is_max hone hdiv
    rw [if_pos (by simpa using hbig), hmax.1]
    push_cast
    rfl
  · have hsmall : Parts.count p n ≤ 1 := by
      by_contra hlt
      have := (Parts.lt_count_iff hpos).mp (not_le.mp hlt)
      simp only [multipartThreshold, defaultPartSize] at *
      omega
    rw [if_neg (by simpa using hbig), max_eq_left hsmall]
    simp [PyNumber.value]

lemma is_of_whole {a : PyNumber} {n bound : ℕ} (h : a.value = n) (hle : a.value ≤ bound)
    (hbound : bound < 2 ^ 53) : a.Is n ∧ n ≤ bound := by
  rw [h] at hle
  have hle' : n ≤ bound := by exact_mod_cast hle
  refine ⟨⟨by rw [h]; norm_cast, ?_⟩, hle'⟩
  rw [Nat.abs_cast]
  omega

/-- The first part is full, or all of a size that is whole. -/
lemma firstPart_value {size : ℕ} (hsize : s.size.Is size) (hne : 0 < s.partChecksums.length) :
    (partLength s 1).map PyNumber.value = some (min s.partSize.value size) := by
  have hstart : ((PyNumber.int ((1 : ℕ) - 1)).mul s.partSize).Is 0 := by
    cases hp : s.partSize with
    | int p => exact ⟨by simp [PyNumber.mul, PyNumber.combine, PyNumber.value], by norm_num⟩
    | float q =>
        have hzero : Binary64.nearest 0 = 0 := by
          exact_mod_cast Binary64.nearest_intCast (n := 0) (by norm_num)
        refine ⟨?_, by norm_num⟩
        simp [PyNumber.mul, PyNumber.combine, PyNumber.value, PyNumber.toFloat, hzero]
  have hrest := PyNumber.is_sub hsize hstart (by simpa using hsize.2)
  rw [sub_zero] at hrest
  rw [partLength, if_pos ⟨le_rfl, hne⟩, Option.map_some, PyNumber.min]
  have hvalue : (s.size.sub ((PyNumber.int ((1 : ℕ) - 1)).mul s.partSize)).value = (size : ℚ) :=
    hrest.1
  rw [hvalue]
  split_ifs with hlt
  · rw [hvalue, min_eq_right hlt.le]
  · rw [min_eq_left (not_lt.mp hlt)]

/-- One part is expected where it is as large as a whole size. -/
lemma expectedCount_single {size : PyNumber} {n : ℕ} {q : ℚ} (hsize : size.Is n) (hle : n ≤ q)
    (hlow : defaultPartSize ≤ q) (hhigh : q ≤ maxPartSize) :
    (expectedCount size (.float q)).value = 1 := by
  unfold expectedCount
  split
  · have hone : Binary64.nearest 1 = 1 := by
      exact_mod_cast Binary64.nearest_intCast (n := 1) (by norm_num)
    have hadd : size.add (.float q) = .float (Binary64.nearest (n + q)) := by
      have hfloat := PyNumber.toFloat_of_is hsize
      cases size <;> simp only [PyNumber.add, PyNumber.combine] <;> rw [hfloat] <;> rfl
    have hq : (2 : ℚ) ^ 23 ≤ q ∧ q ≤ 2 ^ 30 := by
      constructor
      · refine le_trans (le_of_eq ?_) hlow
        norm_num [defaultPartSize, chunkSize]
      · refine hhigh.trans (le_of_eq ?_)
        norm_num [maxPartSize, chunkSize]
    have hn : (0 : ℚ) ≤ n := Nat.cast_nonneg n
    set x := Binary64.nearest (n + q) with hx
    have hxerr := abs_lt.mp (Binary64.abs_nearest_sub_lt (q := n + q) (k := 32) (by norm_num)
      (by rw [abs_lt]; constructor <;> linarith))
    set y := Binary64.nearest (x - 1) with hy
    have hyerr := abs_lt.mp (Binary64.abs_nearest_sub_lt (q := x - 1) (k := 32) (by norm_num)
      (by norm_num at hxerr; rw [abs_lt]; constructor <;> linarith))
    norm_num at hxerr hyerr
    have hfloor : 0 ≤ ⌊y / q⌋ ∧ ⌊y / q⌋ < 2 := by
      have hqpos : 0 < q := by linarith
      constructor
      · exact Int.floor_nonneg.mpr (div_nonneg (by linarith) hqpos.le)
      · rw [Int.floor_lt, div_lt_iff₀ hqpos]
        push_cast
        linarith
    have hsub : (PyNumber.float x).sub (.int 1) = .float y := by
      simp only [PyNumber.sub, PyNumber.combine, PyNumber.toFloat, Int.cast_one, hone, hy]
    have hdiv : (PyNumber.float y).floordiv (.float q) = .float ⌊y / q⌋ := by
      have hexact := Binary64.nearest_intCast (n := ⌊y / q⌋) (by rw [abs_lt]; omega)
      simp only [PyNumber.floordiv, PyNumber.combine, PyNumber.toFloat, hexact]
    have hcap : ¬(1 : ℚ) < ⌊y / q⌋ := by
      have hle : ⌊y / q⌋ ≤ 1 := by omega
      exact not_lt.mpr (by exact_mod_cast hle)
    rw [hadd, hsub, hdiv]
    simp [PyNumber.max, PyNumber.value, hcap]
  · simp [PyNumber.value]

/-- **An accepted text has a layout** exactly if its size is whole, and its part size is whole or
not below the size. -/
theorem hasLayout_iff {raw : List Char} (h : fromJson sha256 raw = some s) :
    HasLayout s ↔ Whole s.size ∧ (Whole s.partSize ∨ s.size.value ≤ s.partSize.value) := by
  obtain ⟨digest, parts, hv⟩ := validated_of_fromJson h
  have hlength := length_of_mapM hv.parts_eq
  have hne : 0 < s.partChecksums.length := by
    rw [hlength]
    exact length_pos_iff.mpr hv.parts_ne
  constructor
  · rintro ⟨lengths, hl⟩
    obtain ⟨hsize, -⟩ := is_of_whole hl.sum_eq.symm hv.size_le (by decide)
    refine ⟨⟨lengths.sum, hl.sum_eq.symm⟩, ?_⟩
    rcases le_or_gt s.size.value s.partSize.value with hle | hlt
    · exact .inr hle
    · -- the first part is full
      have hfirst := congrArg List.head? hl.lengths_eq
      rw [head?_map, head?_map, head?_range, if_neg hne.ne'] at hfirst
      obtain ⟨l, -, hfull⟩ := Option.map_eq_some_iff.mp hfirst.symm
      have hfull : some (l : ℚ) = (partLength s 1).map PyNumber.value := hfull
      rw [firstPart_value hsize hne, hl.sum_eq, min_eq_left hlt.le] at hfull
      exact .inl ⟨l, (Option.some.inj hfull).symm⟩
  · rintro ⟨⟨size, hsize⟩, hpart⟩
    obtain ⟨hsize', hle⟩ := is_of_whole hsize hv.size_le (by decide)
    by_cases hwhole : Whole s.partSize
    · obtain ⟨partSize, hpart⟩ := hwhole
      obtain ⟨hpart', hple⟩ := is_of_whole hpart hv.partSize_le (by decide)
      have hdefault : defaultPartSize ≤ partSize := by
        have := hv.le_partSize
        rw [hpart] at this
        exact_mod_cast this
      have hvalue := expectedCount_value hsize' hpart' hdefault hle hple
      have hcount : s.partChecksums.length = max 1 (Parts.count partSize size) := by
        rw [hlength]
        exact_mod_cast hv.count.trans hvalue
      have hten : s.partChecksums.length ≤ 10000 := by
        rw [hcount]
        exact_mod_cast hvalue ▸ hv.count_le
      exact ⟨_, layout_of_count hsize' hpart' (lt_of_lt_of_le (by decide) hdefault)
        (lt_of_le_of_lt hle (by decide)) hcount hten⟩
    · -- a part size that is no whole number is a binary64 number, and there is one part
      have hfit := hpart.resolve_left hwhole
      rw [hsize] at hfit
      have hlow := hv.le_partSize
      have hpos : 0 < s.partSize.value :=
        lt_of_lt_of_le (by norm_num [defaultPartSize, chunkSize]) hlow
      have hone : s.partChecksums.length = 1 := by
        cases hp : s.partSize with
        | int p =>
            refine absurd ⟨p.toNat, ?_⟩ hwhole
            rw [hp] at hpos ⊢
            have hnonneg : (0 : ℚ) ≤ p := hpos.le
            have hcast : (p.toNat : ℤ) = p := Int.toNat_of_nonneg (by exact_mod_cast hnonneg)
            show (p : ℚ) = p.toNat
            exact_mod_cast hcast.symm
        | float q =>
            have hhigh := hv.partSize_le
            have hcount := hv.count
            rw [hp] at hfit hlow hhigh hcount
            have hsingle : (expectedCount s.size (.float q)).value = 1 :=
              expectedCount_single hsize' hfit hlow hhigh
            rw [hsingle] at hcount
            rw [hlength]
            exact_mod_cast hcount
      refine ⟨[size], ?_, ?_, ?_, ?_, ?_, by omega⟩
      · rw [hone]
        refine congrArg (fun v => [v]) ((firstPart_value hsize' hne).trans ?_)
        rw [min_eq_right hfit]
      · rw [forall_mem_singleton, hsize, Nat.cast_eq_zero]
        exact (Nat.eq_zero_or_pos size).symm
      · rwa [forall_mem_singleton]
      · rw [sum_singleton, hsize]
      · rw [hone, hsize]
        refine (max_eq_left (Nat.ceil_le.mpr ?_)).symm
        rw [Nat.cast_one, div_le_one hpos]
        exact hfit

/-! ### The loops end -/

/-- A loop ends with `res` for every number of turns from `bound` on. -/
def Ends {α : Type} (loop : ℕ → Option α) (bound : ℕ) (res : α) : Prop :=
  ∀ turns, bound ≤ turns → loop turns = some res

lemma Ends.of_succ {α : Type} {loop : ℕ → Option α} {bound : ℕ} {res : α}
    (h : ∀ turns, bound ≤ turns → loop (turns + 1) = some res) : Ends loop (bound + 1) res := by
  intro turns hturns
  obtain ⟨t, rfl⟩ := Nat.exists_eq_add_of_le' (show 1 ≤ turns by omega)
  exact h t (by omega)

/-- What filling a part does: it takes that many bytes from the stream, or raises. -/
structure Filled (goesOn : ℕ → Bool) (left : ℕ) (r : Reading) (part : List UInt8)
    (res : Except SnapshotError (Reading × List UInt8)) : Prop where
  ok : ∀ r' part', res = .ok (r', part') → left ≤ r.stream.length ∧
    r' = ⟨r.plaintext ++ r.stream.take left, r.stream.drop left⟩ ∧ part' = part ++ r.stream.take left
  complete : (∀ n, goesOn n = true) → left ≤ r.stream.length → ∃ out, res = .ok out

/-- **Filling a part ends.**  Each turn takes at least one byte. -/
lemma readPart_ends (goesOn : ℕ → Bool) (left : ℕ) (r : Reading) (part : List UInt8) :
    ∃ res, Ends (fun turns => readPart goesOn turns left r part) (left + 1) res ∧
      Filled goesOn left r part res := by
  induction left using Nat.strong_induction_on generalizing r part with
  | _ left ih =>
      by_cases hleft : left = 0
      · subst hleft
        refine ⟨.ok (r, part), Ends.of_succ fun t _ => by simp [readPart], ?_, fun _ _ => ⟨_, rfl⟩⟩
        rintro r' part' heq
        cases heq
        simp
      by_cases hgo : goesOn r.plaintext.length
      · by_cases hchunk : r.stream.take (min chunkSize left) = []
        · have hempty : r.stream = [] := by
            rcases take_eq_nil_iff.mp hchunk with hzero | hnil
            · simp only [chunkSize] at hzero
              omega
            · exact hnil
          refine ⟨.error .changed, Ends.of_succ fun t _ => by simp [readPart, hleft, hgo, hchunk],
            fun _ _ h => (by cases h), fun _ hle => ?_⟩
          rw [hempty, length_nil] at hle
          omega
        · generalize hk : (r.stream.take (min chunkSize left)).length = k at *
          have hkpos : 0 < k := by
            rw [← hk]
            exact length_pos_iff.mpr hchunk
          have hkle : k ≤ left ∧ k ≤ r.stream.length := by
            rw [← hk, length_take]
            omega
          have htake : r.stream.take (min chunkSize left) = r.stream.take k := by
            rw [take_eq_take_iff, ← hk, length_take]
            omega
          obtain ⟨res, hends, hfilled⟩ := ih (left - k) (by omega)
            ⟨r.plaintext ++ r.stream.take k, r.stream.drop k⟩ (part ++ r.stream.take k)
          have hsplit : r.stream.take left =
              r.stream.take k ++ (r.stream.drop k).take (left - k) := by
            rw [← take_add, Nat.add_sub_cancel' hkle.1]
          refine ⟨res, Ends.of_succ fun t ht => ?_, ?_, ?_⟩
          · rw [htake] at hk hchunk
            rw [← hends t (by omega)]
            simp only [readPart, hleft, hgo, htake, hchunk, hk, if_false, Bool.not_true,
              Bool.false_eq_true]
          · intro r' part' heq
            obtain ⟨hle, hr, hpart⟩ := hfilled.ok r' part' heq
            rw [length_drop] at hle
            refine ⟨by omega, ?_, ?_⟩
            · rw [hr, hsplit, append_assoc, drop_drop, Nat.add_sub_cancel' hkle.1]
            · rw [hpart, hsplit, append_assoc]
          · intro hall hle
            refine hfilled.complete hall ?_
            rw [length_drop]
            omega
      · refine ⟨.error .stopped, Ends.of_succ fun t _ => by simp [readPart, hleft, hgo],
          fun _ _ h => (by cases h), fun hall _ => absurd (hall _) hgo⟩

/-- What has been read, cut into parts. -/
structure CutInto (sha256 : List UInt8 → List UInt8) (partSize size : ℕ) (bytes : List UInt8)
    (r : Reading) (parts : List (List Char)) : Prop where
  joined : r.plaintext ++ r.stream = bytes
  length_eq : r.plaintext.length = min (parts.length * partSize) size
  digests : parts = (List.range parts.length).map
    fun i => Base64.encode (sha256 (Parts.part partSize r.plaintext i))
  starts : ∀ i < parts.length, i * partSize < size ∨ i = 0

lemma CutInto.next {r : Reading} (h : CutInto sha256 partSize size bytes r parts)
    (hmore : r.plaintext.length < size ∨ parts = []) {left : ℕ}
    (hleft : left = min partSize (size - r.plaintext.length)) (hle : left ≤ r.stream.length) :
    CutInto sha256 partSize size bytes
      ⟨r.plaintext ++ r.stream.take left, r.stream.drop left⟩
      (parts ++ [Base64.encode (sha256 (r.stream.take left))]) := by
  have hlen := h.length_eq
  have hwhole : r.plaintext.length = parts.length * partSize := by
    rcases hmore with hlt | rfl
    · omega
    · simpa using hlen
  have htake : (r.stream.take left).length = left := by
    rw [length_take]
    omega
  refine ⟨?_, ?_, ?_, ?_⟩
  · rw [append_assoc, take_append_drop, h.joined]
  · rw [length_append, htake, length_append, length_singleton, Nat.succ_mul]
    omega
  · rw [length_append, length_singleton, range_succ, map_append]
    congr 1
    · conv_lhs => rw [h.digests]
      refine map_congr_left fun i hi => ?_
      have hi := mem_range.mp hi
      have hmul := Nat.mul_le_mul_right partSize (show i + 1 ≤ parts.length by omega)
      rw [Parts.part_append _ (by omega)]
    · have hshort : (r.stream.take left).length ≤ partSize := by omega
      rw [map_singleton, Parts.part, ← hwhole, drop_left,
        take_of_length_le hshort]
  · intro i hi
    rw [length_append, length_singleton] at hi
    by_cases heq : i = parts.length
    · subst heq
      rcases hmore with hlt | rfl
      · exact Or.inl (by omega)
      · exact Or.inr rfl
    · exact h.starts i (by omega)

/-- **Cutting the file ends**, with all of it in parts, or an error. -/
lemma readParts_ends (goesOn : ℕ → Bool) (hp : 0 < partSize) {r : Reading}
    (h : CutInto sha256 partSize size bytes r parts) :
    ∃ res, Ends (fun turns => readParts sha256 goesOn partSize size turns r parts)
        (size - r.plaintext.length + (if parts = [] then 1 else 0) + 2) res ∧
      (∀ r' parts', res = .ok (r', parts') → CutInto sha256 partSize size bytes r' parts' ∧
        parts' ≠ [] ∧ size ≤ r'.plaintext.length) ∧
      ((∀ n, goesOn n) → size ≤ bytes.length → ∃ out, res = .ok out) := by
  generalize hm : size - r.plaintext.length + (if parts = [] then 1 else 0) = m
  induction m using Nat.strong_induction_on generalizing r parts with
  | _ m ih =>
      by_cases hmore : r.plaintext.length < size ∨ parts = []
      · generalize hleft : min partSize (size - r.plaintext.length) = left
        obtain ⟨filled, hfill, hfilled⟩ := readPart_ends goesOn left r []
        have hfuel : left + 1 ≤ m + 1 := by omega
        cases filled with
        | error e =>
            refine ⟨.error e, Ends.of_succ fun t ht => ?_, fun _ _ heq => (by cases heq), ?_⟩
            · have hpart := hfill t (by omega)
              simp only [readParts, if_pos hmore, hleft, hpart]
            · intro hall hle
              have hjoined := congrArg List.length h.joined
              rw [length_append] at hjoined
              obtain ⟨out, hout⟩ := hfilled.complete hall (by omega)
              cases hout
        | ok out =>
            obtain ⟨r', part⟩ := out
            obtain ⟨hle, hr', hpart'⟩ := hfilled.ok r' part rfl
            rw [nil_append] at hpart'
            subst hr' hpart'
            have hnext := h.next hmore hleft.symm hle
            have hlength : (r.plaintext ++ r.stream.take left).length =
                r.plaintext.length + left := by
              rw [length_append, length_take]
              omega
            have hdecrease : size - (r.plaintext ++ r.stream.take left).length +
                (if parts ++ [Base64.encode (sha256 (r.stream.take left))] = [] then 1 else 0) <
                m := by
              rw [hlength, if_neg (by simp), ← hm]
              rcases hmore with hlt | hnil
              · omega
              · rw [if_pos hnil]
                omega
            obtain ⟨res, hends, hok, hcomplete⟩ := ih _ hdecrease hnext rfl
            refine ⟨res, Ends.of_succ fun t ht => ?_, hok, hcomplete⟩
            have hpart := hfill t (by omega)
            have hrest := hends t (by omega)
            simp only [readParts, if_pos hmore, hleft, hpart]
            exact hrest
      · refine ⟨.ok (r, parts), Ends.of_succ fun t _ => by simp only [readParts, if_neg hmore],
          ?_, fun _ _ => ⟨_, rfl⟩⟩
        rintro r' parts' heq
        cases heq
        push Not at hmore
        exact ⟨h, hmore.2, hmore.1⟩

/-- The number of parts a file was cut into. -/
lemma CutInto.count (hp : 0 < partSize) {r : Reading}
    (h : CutInto sha256 partSize size bytes r parts) (hne : parts ≠ [])
    (hall : size ≤ r.plaintext.length) :
    parts.length = max 1 (Parts.count partSize size) := by
  have hpos := length_pos_iff.mpr hne
  have hlen := h.length_eq
  have hlow : Parts.count partSize size ≤ parts.length := by
    by_contra hlt
    have := (Parts.lt_count_iff hp).mp (not_le.mp hlt)
    omega
  by_contra hdiff
  have hlt : max 1 (Parts.count partSize size) < parts.length := by omega
  rcases h.starts _ hlt with hstart | hzero
  · have := (Parts.lt_count_iff hp).mpr hstart
    omega
  · omega

/-! ### What is prepared is read back -/

lemma mapM_decode_encode {ι : Type} (l : List ι) (f : ι → List UInt8) :
    (l.map fun i => Base64.encode (f i)).mapM Base64.decode = some (l.map f) := by
  induction l with
  | nil => rfl
  | cons i l ih =>
      rw [map_cons, mapM_cons, Base64.decode_encode, ih]
      rfl

lemma filterMap_decode_encode {ι : Type} (l : List ι) (f : ι → List UInt8) :
    (l.map fun i => Base64.encode (f i)).filterMap Base64.decode = l.map f := by
  induction l with
  | nil => rfl
  | cons i l ih =>
      rw [map_cons, filterMap_cons_some (Base64.decode_encode _), ih, map_cons]

lemma isMultipart_int (n : ℕ) : isMultipart (.int n) = decide (multipartThreshold ≤ n) := by
  rw [isMultipart, PyNumber.value]
  norm_cast

/-- **The checks of `from_json` hold of a snapshot of the bytes that were read.** -/
lemma validated_snapshotOf {r : Reading} (hsha : ∀ b, (sha256 b).length = 32)
    (h : CutInto sha256 partSize size bytes r parts) (hne : parts ≠ [])
    (hall : size ≤ r.plaintext.length) (hlow : defaultPartSize ≤ partSize)
    (hhigh : partSize ≤ maxPartSize) (hsize : size ≤ maxObjectSize)
    (hten : Parts.count partSize size ≤ 10000) :
    ∃ digest digests,
      Validated sha256 (snapshotOf sha256 partSize r.plaintext parts) digest digests := by
  have hp : 0 < partSize := lt_of_lt_of_le (by decide) hlow
  have hlen : r.plaintext.length = size := by
    have := h.length_eq
    omega
  have hcount := h.count hp hne hall
  have hmax : maxObjectSize < 2 ^ 53 ∧ maxPartSize < 2 ^ 53 := by decide
  have hvalue : (expectedCount (.int r.plaintext.length) (.int partSize)).value =
      ((max 1 (Parts.count partSize r.plaintext.length) : ℕ) : ℚ) :=
    expectedCount_value (PyNumber.is_int (by rw [Nat.abs_cast]; omega))
      (PyNumber.is_int (by rw [Nat.abs_cast]; omega)) hlow (hlen.le.trans hsize) hhigh
  rw [hlen] at hvalue
  obtain ⟨digests, hparts, hfilter, hlength, hmem, hhead⟩ : ∃ digests : List (List UInt8),
      parts.mapM Base64.decode = some digests ∧ parts.filterMap Base64.decode = digests ∧
        digests.length = parts.length ∧ (∀ d ∈ digests, d.length = 32) ∧
        digests.head? = some (sha256 (Parts.part partSize r.plaintext 0)) := by
    refine ⟨(List.range parts.length).map fun i => sha256 (Parts.part partSize r.plaintext i),
      ?_, ?_, by simp, ?_, ?_⟩
    · conv_lhs => rw [h.digests]
      exact mapM_decode_encode _ _
    · conv_lhs => rw [h.digests]
      exact filterMap_decode_encode _ _
    · intro d hd
      obtain ⟨i, -, rfl⟩ := mem_map.mp hd
      exact hsha _
    · obtain ⟨n, hn⟩ := Nat.exists_eq_add_of_le' (length_pos_iff.mpr hne)
      rw [hn, range_succ_eq_map]
      rfl
  refine ⟨sha256 r.plaintext, digests, ?_⟩
  have hmult : isMultipart (.int r.plaintext.length) =
      decide (multipartThreshold ≤ r.plaintext.length) := isMultipart_int _
  have hsmall : ((r.plaintext.length : ℤ) : ℚ) ≤ maxObjectSize := by
    rw [hlen]
    exact_mod_cast hsize
  have hnonneg : (0 : ℚ) ≤ ((r.plaintext.length : ℤ) : ℚ) := by exact_mod_cast Nat.zero_le _
  have hlow' : (defaultPartSize : ℚ) ≤ ((partSize : ℤ) : ℚ) := by exact_mod_cast hlow
  have hhigh' : ((partSize : ℤ) : ℚ) ≤ maxPartSize := by exact_mod_cast hhigh
  refine ⟨hnonneg, hsmall, hlow', hhigh', Hex.decode_encode _, hparts, hsha _, ?_, hmem, ?_, ?_,
    ?_, ?_, ?_⟩
  · rintro rfl
    rw [length_nil] at hlength
    exact hne (length_eq_zero_iff.mp hlength.symm)
  · rw [hlength, hcount]
    rw [← hlen] at hvalue ⊢
    exact hvalue.symm
  · change (expectedCount (.int r.plaintext.length) (.int partSize)).value ≤ 10000
    rw [hlen, hvalue]
    exact_mod_cast max_le (by decide) hten
  · change checksumType (decide (multipartThreshold ≤ r.plaintext.length)) =
      checksumType (isMultipart (.int r.plaintext.length))
    rw [hmult]
  · change (if multipartThreshold ≤ r.plaintext.length then _ else _) =
      if isMultipart (.int r.plaintext.length) = true then _ else _
    rw [hmult, hfilter]
    simp only [decide_eq_true_eq]
  · intro hsingle
    change isMultipart (.int r.plaintext.length) = false at hsingle
    rw [hmult, decide_eq_false_iff_not, not_le] at hsingle
    have hwhole : Parts.part partSize r.plaintext 0 = r.plaintext := by
      rw [Parts.part, Nat.zero_mul, drop_zero]
      refine take_of_length_le ?_
      simp only [multipartThreshold, defaultPartSize] at hsingle hlow
      omega
    rw [hhead, hwhole]

/-- The object of a snapshot with whole numbers has no binary64 numbers. -/
lemma plain_fields {size partSize : ℤ} (hsize : s.size = .int size)
    (hpart : s.partSize = .int partSize) : Json.Plain (.obj (fields s)) := by
  refine .obj fun m hm => ?_
  simp only [fields, hsize, hpart, numberJson, mem_cons, not_mem_nil, or_false] at hm
  rcases hm with rfl | rfl | rfl | rfl | rfl | rfl | rfl | rfl
  · exact .int _
  · exact .int _
  · exact .str _
  · exact .str _
  · exact .str _
  · exact .str _
  · exact .int _
  · refine .arr fun v hv => ?_
    obtain ⟨c, -, rfl⟩ := mem_map.mp hv
    exact .str c

lemma mapM_readText (parts : List (List Char)) :
    (parts.map Json.str).mapM readText = some parts := by
  induction parts with
  | nil => rfl
  | cons c parts ih =>
      rw [map_cons, mapM_cons, ih]
      rfl

/-- Every member is found under its key. -/
lemma readFields_fields {size partSize : ℤ} (hsize : s.size = .int size)
    (hpart : s.partSize = .int partSize) : readFields (fields s) = some s := by
  obtain ⟨size', plaintext, type, checksum, partSize', parts⟩ := s
  obtain rfl : size' = .int size := hsize
  obtain rfl : partSize' = .int partSize := hpart
  generalize hms : fields ⟨.int size, plaintext, type, checksum, .int partSize, parts⟩ = ms
  have hformat : member ms "format" = some (.int 1) := by rw [← hms]; rfl
  have hsize : member ms "size" = some (.int size) := by rw [← hms]; rfl
  have hplaintext : member ms "plaintext_sha256" = some (.str plaintext) := by rw [← hms]; rfl
  have halgorithm : member ms "algorithm" = some (.str (text "SHA256")) := by rw [← hms]; rfl
  have htype : member ms "checksum_type" = some (.str type) := by rw [← hms]; rfl
  have hchecksum : member ms "checksum_sha256" = some (.str checksum) := by rw [← hms]; rfl
  have hpart : member ms "part_size" = some (.int partSize) := by rw [← hms]; rfl
  have hparts : member ms "part_checksums" = some (.arr (parts.map .str)) := by rw [← hms]; rfl
  have hone : (PyNumber.int 1).value = 1 := Int.cast_one
  simp only [readFields, hformat, hsize, hplaintext, halgorithm, htype, hchecksum, hpart, hparts,
    Option.bind_eq_bind, Option.bind_some, readNumber, readText, readTuple, mapM_readText, hone,
    and_self, guard_true]
  rfl

/-- A snapshot with whole numbers that passes the checks is read back from its text. -/
lemma fromJson_asJson (repr : Binary64 → List Char) {size partSize : ℤ} (hsize : s.size = .int size)
    (hpart : s.partSize = .int partSize) {digest : List UInt8} {digests : List (List UInt8)}
    (h : Validated sha256 s digest digests) : fromJson sha256 (asJson repr s) = some s := by
  have hloads : Json.loads (Json.dumps repr (.obj (fields s))) = some (.obj (fields s)) :=
    Json.loads_dumps (plain_fields hsize hpart)
  simp only [fromJson, asJson, hloads, readFields_fields hsize hpart, Option.bind_eq_bind,
    Option.bind_some, validate_eq_some.mpr ⟨digest, digests, h⟩]
  rfl

/-! ### Preparation and codec -/

/-- What is asked of the adjuster: a part size in range that needs no more than 10000 parts. -/
structure AdjustedPartSize (partSize size : ℕ) : Prop where
  low : defaultPartSize ≤ partSize
  high : partSize ≤ maxPartSize
  count : Parts.count partSize size ≤ 10000

/-- Nothing happens to the file, and nothing stops the caller, until it has been read. -/
structure SourceFile.Unchanged (file : SourceFile) : Prop where
  active : file.active = true
  regular : file.regular = true
  opens : file.opens = true
  sameAtOpen : file.sameAtOpen = true
  whole : file.bytes.length = file.size
  goesOn : ∀ n, file.goesOn n = true
  sameAtEnd : file.sameAtEnd = true
  sameAtPath : file.sameAtPath = true

/-- The snapshot is of a file that was read to its end, in parts. -/
def PreparedFrom (sha256 : List UInt8 → List UInt8) (partSize : ℕ) (file : SourceFile)
    (s : SnapshotData) : Prop :=
  file.size ≤ maxObjectSize ∧ ∃ r parts, CutInto sha256 partSize file.size file.bytes r parts ∧
    parts ≠ [] ∧ file.size ≤ r.plaintext.length ∧ s = snapshotOf sha256 partSize r.plaintext parts

lemma cutInto_start (sha256 : List UInt8 → List UInt8) (partSize size : ℕ) (bytes : List UInt8) :
    CutInto sha256 partSize size bytes ⟨[], bytes⟩ [] :=
  ⟨rfl, by simp, rfl, by simp⟩

/-- **Preparation ends**: with a snapshot of the whole file, or with an error. -/
lemma prepare_ends (sha256 : List UInt8 → List UInt8) (adjust : ℕ → ℕ → ℕ) (file : SourceFile)
    (hadjust : AdjustedPartSize (adjust defaultPartSize file.size) file.size) :
    ∃ res, Ends (fun turns => prepareUploadSnapshot sha256 adjust turns file) (file.size + 3) res ∧
      (∀ s, res = .ok s →
        PreparedFrom sha256 (adjust defaultPartSize file.size) file s) ∧
      (file.Unchanged → file.size ≤ maxObjectSize → ∃ s, res = .ok s) := by
  have hp : 0 < adjust defaultPartSize file.size := lt_of_lt_of_le (by decide) hadjust.low
  cases hrefuses : refuses (adjust defaultPartSize file.size) file with
  | some e =>
      refine ⟨.error e, fun turns _ => by simp only [prepareUploadSnapshot, hrefuses],
        fun _ h => (by cases h), fun hfile hsize => ?_⟩
      simp [refuses, hfile.active, hfile.regular, hfile.opens, hfile.sameAtOpen,
        not_lt.mpr hsize, not_lt.mpr hadjust.high] at hrefuses
  | none =>
      have hsize : file.size ≤ maxObjectSize := by
        unfold refuses at hrefuses
        split_ifs at hrefuses
        omega
      obtain ⟨res, hends, hok, hcomplete⟩ := readParts_ends file.goesOn hp
        (cutInto_start sha256 (adjust defaultPartSize file.size) file.size file.bytes)
      have hread : ∀ turns, file.size + 3 ≤ turns →
          readParts sha256 file.goesOn (adjust defaultPartSize file.size) file.size turns
            ⟨[], file.bytes⟩ [] = some res := by
        intro turns hturns
        exact hends turns (by simpa using hturns)
      cases res with
      | error e =>
          refine ⟨.error e, fun turns hturns => ?_, fun _ h => (by cases h), fun hfile _ => ?_⟩
          · simp only [prepareUploadSnapshot, hrefuses, hread turns hturns]
          · obtain ⟨out, hout⟩ := hcomplete hfile.goesOn hfile.whole.ge
            cases hout
      | ok out =>
          obtain ⟨r, parts⟩ := out
          obtain ⟨hcut, hne, hall⟩ := hok r parts rfl
          refine ⟨finishSnapshot sha256 (adjust defaultPartSize file.size) file r parts,
            fun turns hturns => ?_, fun s hs => ?_, fun hfile _ => ?_⟩
          · simp only [prepareUploadSnapshot, hrefuses, hread turns hturns]
          · unfold finishSnapshot at hs
            split_ifs at hs
            exact ⟨hsize, r, parts, hcut, hne, hall, (Except.ok.inj hs).symm⟩
          · have hjoined := congrArg List.length hcut.joined
            have hlen := hcut.length_eq
            have hwhole := hfile.whole
            rw [length_append] at hjoined
            have hend : r.stream = [] := length_eq_zero_iff.mp (by omega)
            refine ⟨snapshotOf sha256 (adjust defaultPartSize file.size) r.plaintext parts, ?_⟩
            rw [finishSnapshot, if_neg (by simp [hfile.goesOn]), if_neg]
            simp [hend, hfile.sameAtEnd, hfile.sameAtPath]

/-- **Snapshots and their text.**  Preparation of any file ends, and of one that stays as it is
and is not too large, with a snapshot.  What it returns is laid out in the chosen part size, and
is read back from its text.  A text that is accepted denotes a layout exactly if the two sizes
in it are whole numbers (the part size of a single part may also be larger than the size). -/
theorem snapshot_codec (sha256 : List UInt8 → List UInt8) (hsha : ∀ b, (sha256 b).length = 32)
    (repr : Binary64 → List Char) :
    (∀ (adjust : ℕ → ℕ → ℕ) (file : SourceFile),
      AdjustedPartSize (adjust defaultPartSize file.size) file.size →
      ∃ res, Ends (fun turns => prepareUploadSnapshot sha256 adjust turns file)
          (file.size + 3) res ∧
        (file.Unchanged → file.size ≤ maxObjectSize → ∃ s, res = .ok s) ∧
        ∀ s, res = .ok s →
          (s.size.value = file.size ∧ s.partSize.value = adjust defaultPartSize file.size ∧
            HasLayout s) ∧ fromJson sha256 (asJson repr s) = some s) ∧
    ∀ raw s, fromJson sha256 raw = some s →
      (HasLayout s ↔ Whole s.size ∧ (Whole s.partSize ∨ s.size.value ≤ s.partSize.value)) := by
  refine ⟨fun adjust file hadjust => ?_, fun raw s h => hasLayout_iff h⟩
  obtain ⟨res, hends, hok, hcomplete⟩ := prepare_ends sha256 adjust file hadjust
  refine ⟨res, hends, hcomplete, fun s hs => ?_⟩
  obtain ⟨hsize, r, parts, hcut, hne, hall, rfl⟩ := hok s hs
  have hp : 0 < adjust defaultPartSize file.size := lt_of_lt_of_le (by decide) hadjust.low
  have hlen : r.plaintext.length = file.size := by
    have := hcut.length_eq
    omega
  have hcount := hcut.count hp hne hall
  have hmax : maxObjectSize < 2 ^ 53 ∧ maxPartSize < 2 ^ 53 := by decide
  have hhigh := hadjust.high
  constructor
  · have hsizeIs : (PyNumber.int r.plaintext.length).Is file.size := by
      rw [← hlen]
      exact PyNumber.is_int (by rw [Nat.abs_cast]; omega)
    have hpartIs : (PyNumber.int (adjust defaultPartSize file.size : ℕ)).Is
        (adjust defaultPartSize file.size) := PyNumber.is_int (by rw [Nat.abs_cast]; omega)
    exact ⟨hsizeIs.1, hpartIs.1, _, layout_of_count hsizeIs hpartIs hp (by omega) hcount
      (hcount.le.trans (max_le (by decide) hadjust.count))⟩
  · obtain ⟨digest, digests, hvalid⟩ := validated_snapshotOf hsha hcut hne hall hadjust.low
      hadjust.high hsize hadjust.count
    exact fromJson_asJson repr rfl rfl hvalid

/-! ### One file and one text -/

/-- The digest of no bytes, and that of 32 zero bytes, for the two inputs below. -/
def digestOf (bytes : List UInt8) : List UInt8 :=
  if bytes = [] then
    [227, 176, 196, 66, 152, 252, 28, 20, 154, 251, 244, 200, 153, 111, 185, 36, 39, 174, 65, 228,
      100, 155, 147, 76, 164, 149, 153, 27, 120, 82, 184, 85]
  else
    [102, 104, 122, 173, 248, 98, 189, 119, 108, 143, 193, 139, 142, 159, 142, 32, 8, 151, 20, 133,
      110, 226, 51, 179, 144, 42, 89, 29, 13, 95, 41, 37]

/-- A file of one byte more than a part, which nothing happens to. -/
def longFile : SourceFile where
  active := true
  regular := true
  size := defaultPartSize + 1
  opens := true
  sameAtOpen := true
  bytes := List.replicate (defaultPartSize + 1) 0
  goesOn _ := true
  sameAtEnd := true
  sameAtPath := true

/-- The file has a snapshot of two parts, which is read back. -/
theorem snapshot_codec_twoParts : ∃ s,
    prepareUploadSnapshot digestOf (fun chunk _ => chunk) (longFile.size + 3) longFile =
        some (.ok s) ∧
      s.partChecksums.length = 2 ∧ fromJson digestOf (asJson (fun _ => []) s) = some s := by
  have hlength : ∀ b, (digestOf b).length = 32 := by
    intro b
    unfold digestOf
    split_ifs <;> rfl
  obtain ⟨res, hends, hcomplete, hok⟩ := (snapshot_codec digestOf hlength fun _ => []).1
    (fun chunk _ => chunk) longFile ⟨by decide, by decide, by decide⟩
  obtain ⟨s, rfl⟩ := hcomplete
    ⟨rfl, rfl, rfl, rfl, length_replicate, fun _ => rfl, rfl, rfl⟩ (by decide)
  obtain ⟨⟨hsize, hpart, lengths, hlayout⟩, hread⟩ := hok s rfl
  refine ⟨s, hends _ le_rfl, ?_, hread⟩
  rw [hlayout.count_eq, hsize, hpart]
  have hceil : ⌈((longFile.size : ℕ) : ℚ) / (defaultPartSize : ℕ)⌉₊ = 2 := by
    rw [Nat.ceil_eq_iff (by decide)]
    norm_num [longFile, defaultPartSize, chunkSize]
  rw [hceil]
  rfl

/-- A text with a size that is no whole number, half a byte over one part. -/
def halfByteText : List Char := text <|
  "\x7b\"format\":1,\"size\":8388608.5,\"plaintext_sha256\":\"" ++
  "0000000000000000000000000000000000000000000000000000000000000000\"," ++
  "\"algorithm\":\"SHA256\",\"checksum_type\":\"COMPOSITE\"," ++
  "\"checksum_sha256\":\"Zmh6rfhivXdsj8GLjp+OIAiXFIVu4jOzkCpZHQ1fKSU=-1\"," ++
  "\"part_size\":8388608," ++
  "\"part_checksums\":[\"AAAAAAAAAAAAAAAAAAAAAAAAAAAAAAAAAAAAAAAAAAA=\"]\x7d"

/-- **A size that is no whole number.**  The text is accepted, with one part, which is shorter
than the size. -/
theorem half_byte_accepted : ∃ s, fromJson digestOf halfByteText = some s ∧
    s.partChecksums.length = 1 ∧ (partLength s 1).map PyNumber.value = some 8388608 ∧
      s.size.value = 8388608 + 1 / 2 ∧ ¬HasLayout s := by
  have hread : (fromJson digestOf halfByteText).map (fun s =>
      (s.partChecksums.length, (partLength s 1).map PyNumber.value, s.size.value)) =
      some (1, some 8388608, 8388608 + 1 / 2) := by
    -- short literals are read much faster than the whole text
    simp only [halfByteText, text, String.toList_append]
    decide +kernel
  obtain ⟨s, hs, hvalues⟩ := Option.map_eq_some_iff.mp hread
  obtain ⟨hparts, hvalues⟩ := Prod.mk.inj hvalues
  obtain ⟨hlength, hsize⟩ := Prod.mk.inj hvalues
  refine ⟨s, hs, hparts, hlength, hsize, fun hlayout => ?_⟩
  obtain ⟨⟨n, hn⟩, -⟩ := (hasLayout_iff hs).mp hlayout
  rw [hsize] at hn
  have hcast : (2 * n : ℚ) = 2 * 8388608 + 1 := by
    rw [← hn]
    norm_num
  have hnat : 2 * n = 2 * 8388608 + 1 := by exact_mod_cast hcast
  omega

end SnapshotLayout

end Frostvault
