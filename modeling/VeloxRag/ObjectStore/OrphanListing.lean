import VeloxRag.Platform
import VeloxRag.Lib.Keyset

/-!
# Listing old objects

A clean-up asks the store for the objects below a prefix that are older than a time.  The store gives
all objects in the order of their keys, so a page ends for two reasons: it has as many items as were
asked for, or it has looked at as many objects as it may.  Where the next page begins depends on the
reason.

## Main definitions

* `validObjectKey` — the keys that the service uses.
* `listLoop`, `listOlderThan` — a page of a listing.
* `listOlderThan_covers` — what a page shows, and where the next one begins.
* `orphan_listing_exhaustive` — all pages together.
-/

namespace VeloxRag.ObjectStore

open Lib Keyset

/-! ## Objects -/

/-- `_valid_object_key`. -/
def validObjectKey (objectKey : Str) : Bool :=
  decide (objectKey ≠ []) && decide (objectKey.head? ≠ some '/')
    && decide (objectKey.getLast? ≠ some '/') && decide ('\\' ∉ objectKey)
    && objectKey.all (fun c => decide (32 ≤ c.toNat ∧ c.toNat ≠ 127))
    && decide ((encode objectKey).length ≤ 1024)
    && (objectKey.splitOn '/').all fun segment =>
      decide (segment ≠ [] ∧ segment ≠ ".".toList ∧ segment ≠ "..".toList)

/-- What the store says about an object; the time is absent when it has no zone. -/
structure ListedObject where
  objectName : Str
  size : Option ℤ
  lastModified : Option ℕ
  metadata : List (Str × Str)

/-- The value under a key of the metadata, whatever the case of the key; the last one counts. -/
def metadataValue? (metadata : List (Str × Str)) (key : String) : Option Str :=
  (metadata.reverse.find? fun m => decide (m.1.map Char.toLower = key.toList)).map (·.2)

/-- `_metadata_checksum`. -/
def metadataChecksum (metadata : List (Str × Str)) : Option Str :=
  ((metadataValue? metadata "x-amz-meta-sha256").or (metadataValue? metadata "sha256")).filter isSha256

structure OrphanCandidate where
  objectKey : Str
  size : ℤ
  checksumSha256 : Option Str
  lastModified : ℕ
deriving DecidableEq

/-- The candidate that an object is, if what the store says about it is in order. -/
def ListedObject.candidate? (stat : ListedObject) : Option OrphanCandidate :=
  match stat.size, stat.lastModified with
  | some size, some lastModified =>
      if validObjectKey stat.objectName = true ∧ 0 ≤ size then
        some ⟨stat.objectName, size, metadataChecksum stat.metadata, lastModified⟩
      else none
  | _, _ => none

theorem ListedObject.candidate?_objectKey {stat : ListedObject} {candidate : OrphanCandidate}
    (h : stat.candidate? = some candidate) :
    candidate.objectKey = stat.objectName ∧ validObjectKey stat.objectName = true := by
  rw [candidate?] at h
  split at h
  · split at h
    · rename_i hvalid
      cases h
      exact ⟨rfl, hvalid.1⟩
    · cases h
  · cases h

/-! ## Pages -/

abbrev OrphanPage := Page OrphanCandidate Str

inductive ListingError
  /-- `ValueError`. -/
  | requestInvalid
  /-- `ObjectStoreError("OBJECT_VERIFICATION_FAILED")`. -/
  | verificationFailed
deriving DecidableEq, Repr

/-- The loop of `_list_older_than_sync` over the objects that the store gives. -/
def listLoop (olderThan limit scanLimit : ℕ) :
    List ListedObject → List OrphanCandidate → ℕ → Option Str → Except ListingError OrphanPage
  | [], items, _, _ => .ok ⟨items, none⟩
  | stat :: objects, items, scanned, lastScanned =>
      if scanLimit < scanned + 1 then
        .ok ⟨items, lastScanned.or (items.getLast?.map (·.objectKey))⟩
      else
        match stat.candidate? with
        | none => .error .verificationFailed
        | some candidate =>
            if olderThan ≤ candidate.lastModified then
              listLoop olderThan limit scanLimit objects items (scanned + 1) (some stat.objectName)
            else if items.length = limit then .ok ⟨items, items.getLast?.map (·.objectKey)⟩
            else
              listLoop olderThan limit scanLimit objects (items ++ [candidate]) (scanned + 1)
                (some stat.objectName)

/-- `prefix.rstrip("/")`. -/
def stripSlashes (keyPrefix : Str) : Str := (keyPrefix.reverse.dropWhile (· = '/')).reverse

/-- The objects below a prefix. -/
def belowPrefix (objects : List ListedObject) (keyPrefix : Str) : List ListedObject :=
  objects.filter fun stat => keyPrefix.isPrefixOf stat.objectName

/-- `list_older_than` of a store with the objects: the store lists by key. -/
def listOlderThan (objects : List ListedObject) (keyPrefix : Str) (olderThan limit : ℕ)
    (startAfter : Option Str) : Except ListingError OrphanPage :=
  if keyPrefix = [] ∨ validObjectKey (stripSlashes keyPrefix) = false ∨ ¬(1 ≤ limit ∧ limit ≤ 1000)
      ∨ startAfter.any (fun key => !validObjectKey key) = true then .error .requestInvalid
  else
    listLoop olderThan limit (min 1000 (max (limit + 1) (limit * 8)))
      (rowsAfter ListedObject.objectName (belowPrefix objects keyPrefix) startAfter) [] 0 none

/-! ## What a page shows -/

section Page

variable {olderThan limit scanLimit : ℕ}

/-- The candidates among objects that are old enough. -/
def oldCandidates (olderThan : ℕ) (objects : List ListedObject) : List OrphanCandidate :=
  (objects.filterMap ListedObject.candidate?).filter fun candidate =>
    decide (candidate.lastModified < olderThan)

theorem oldCandidates_append (xs ys : List ListedObject) :
    oldCandidates olderThan (xs ++ ys) = oldCandidates olderThan xs ++ oldCandidates olderThan ys := by
  rw [oldCandidates, List.filterMap_append, List.filter_append]
  rfl

theorem oldCandidates_singleton {stat : ListedObject} {candidate : OrphanCandidate}
    (h : stat.candidate? = some candidate) : oldCandidates olderThan [stat] =
      if candidate.lastModified < olderThan then [candidate] else [] := by
  rw [oldCandidates, List.filterMap_cons_some h, List.filterMap_nil]
  by_cases hold : candidate.lastModified < olderThan <;> simp [hold]

/-- The last of the old candidates splits the objects: behind it there is no other. -/
theorem oldCandidates_eq_concat {objects : List ListedObject} {init : List OrphanCandidate}
    {last : OrphanCandidate} (h : oldCandidates olderThan objects = init ++ [last]) :
    ∃ front stat rest, objects = front ++ stat :: rest ∧ stat.objectName = last.objectKey ∧
      oldCandidates olderThan (front ++ [stat]) = init ++ [last] ∧
      oldCandidates olderThan rest = [] := by
  induction objects using List.reverseRecOn with
  | nil => simp [oldCandidates] at h
  | append_singleton objects stat ih =>
    rw [oldCandidates_append] at h
    cases hcandidate : stat.candidate? with
    | none =>
      have hnone : oldCandidates olderThan [stat] = [] := by
        simp [oldCandidates, hcandidate]
      rw [hnone, List.append_nil] at h
      obtain ⟨front, x, rest, rfl, hname, hfront, hrest⟩ := ih h
      refine ⟨front, x, rest ++ [stat], by simp, hname, hfront, ?_⟩
      rw [oldCandidates_append, hrest, hnone]
      rfl
    | some candidate =>
      have hsingle : oldCandidates olderThan [stat] = _ := oldCandidates_singleton hcandidate
      by_cases hold : candidate.lastModified < olderThan
      · rw [if_pos hold] at hsingle
        rw [hsingle] at h
        obtain ⟨hinit, hlast⟩ := List.append_inj' h rfl
        cases hlast
        refine ⟨objects, stat, [], rfl, (ListedObject.candidate?_objectKey hcandidate).1.symm, ?_, rfl⟩
        rw [oldCandidates_append, hsingle, hinit]
      · rw [if_neg hold] at hsingle
        rw [hsingle, List.append_nil] at h
        obtain ⟨front, x, rest, rfl, hname, hfront, hrest⟩ := ih h
        refine ⟨front, x, rest ++ [stat], by simp, hname, hfront, ?_⟩
        rw [oldCandidates_append, hrest, hsingle]
        rfl

/-- A page that ends at the last old candidate of the objects it has seen goes on behind it. -/
theorem covers_last {seen objects : List ListedObject} (hne : oldCandidates olderThan seen ≠ []) :
    Covers ListedObject.objectName (oldCandidates olderThan) (seen ++ objects)
      ⟨oldCandidates olderThan seen,
        (oldCandidates olderThan seen).getLast?.map (·.objectKey)⟩ := by
  obtain ⟨init, last, hconcat⟩ : ∃ init last, oldCandidates olderThan seen = init ++ [last] :=
    ⟨_, _, (List.dropLast_append_getLast hne).symm⟩
  obtain ⟨front, stat, rest, rfl, hname, hfront, -⟩ := oldCandidates_eq_concat hconcat
  refine ⟨front ++ [stat], rest ++ objects, by simp, ?_, .inr ⟨front, stat, rfl, ?_⟩⟩
  · rw [hconcat, hfront]
  · rw [hconcat, List.getLast?_concat, Option.map_some, hname]

/-- **A page covers** what is left, whatever has been seen before. -/
theorem listLoop_covers (hlimit : 1 ≤ limit) (hscan : 1 ≤ scanLimit) (objects : List ListedObject) :
    ∀ seen : List ListedObject, (∀ stat ∈ objects, stat.candidate?.isSome = true) →
    (oldCandidates olderThan seen).length ≤ limit →
    ∃ page, listLoop olderThan limit scanLimit objects (oldCandidates olderThan seen) seen.length
        (seen.getLast?.map (·.objectName)) = .ok page ∧
      Covers ListedObject.objectName (oldCandidates olderThan) (seen ++ objects) page ∧
      page.items.length ≤ limit := by
  induction objects with
  | nil =>
    intro seen _ hlength
    exact ⟨_, rfl, ⟨seen, [], rfl, rfl, .inl ⟨rfl, rfl⟩⟩, hlength⟩
  | cons stat objects ih =>
    intro seen hvalid hlength
    rw [listLoop]
    split
    · rename_i hfull
      -- the scan limit: something was seen, and the page goes on behind the last of it
      refine ⟨_, rfl, ?_, hlength⟩
      have hne : seen ≠ [] := by
        rintro rfl
        simp only [List.length_nil] at hfull
        omega
      obtain ⟨init, x, rfl⟩ : ∃ init x, seen = init ++ [x] :=
        ⟨_, _, (List.dropLast_append_getLast hne).symm⟩
      refine ⟨init ++ [x], stat :: objects, rfl, rfl, .inr ⟨init, x, rfl, ?_⟩⟩
      rw [List.getLast?_concat, Option.map_some, Option.some_or]
    · obtain ⟨candidate, hcandidate⟩ :=
        Option.isSome_iff_exists.mp (hvalid stat List.mem_cons_self)
      have hrest : ∀ x ∈ objects, x.candidate?.isSome = true :=
        fun x hx => hvalid x (List.mem_cons_of_mem _ hx)
      have hsingle : oldCandidates olderThan [stat] = _ := oldCandidates_singleton hcandidate
      have hsnoc : (seen ++ [stat]).length = seen.length + [stat].length := List.length_append
      have hsplit : seen ++ stat :: objects = (seen ++ [stat]) ++ objects := by simp
      have hseen := ih (seen ++ [stat]) hrest
      rw [oldCandidates_append, hsingle, hsnoc, List.length_singleton,
        List.getLast?_concat, Option.map_some, ← hsplit] at hseen
      rw [hcandidate]
      dsimp only
      by_cases hnew : olderThan ≤ candidate.lastModified
      · rw [if_pos hnew]
        rw [if_neg (not_lt.mpr hnew), List.append_nil] at hseen
        exact hseen hlength
      · rw [if_neg hnew]
        rw [if_pos (not_le.mp hnew)] at hseen
        by_cases hitems : (oldCandidates olderThan seen).length = limit
        · -- the item limit: the page goes on behind the last item
          rw [if_pos hitems]
          have hne : oldCandidates olderThan seen ≠ [] := List.ne_nil_of_length_pos (by omega)
          exact ⟨_, rfl, covers_last hne, hlength⟩
        · rw [if_neg hitems]
          refine hseen ?_
          rw [List.length_append, List.length_singleton]
          omega

end Page

/-! ## All pages -/

section All

variable {objects : List ListedObject} {keyPrefix : Str} {olderThan limit : ℕ}

theorem mem_belowPrefix {stat : ListedObject} (h : stat ∈ belowPrefix objects keyPrefix) :
    stat ∈ objects := (List.mem_filter.mp h).1

/-- A page of a listing. -/
theorem listOlderThan_covers (hne : keyPrefix ≠ [])
    (hkeyPrefix : validObjectKey (stripSlashes keyPrefix) = true) (hlimit : 1 ≤ limit)
    (hmax : limit ≤ 1000) (hvalid : ∀ stat ∈ objects, stat.candidate?.isSome = true)
    {startAfter : Option Str} (hstart : ∀ key ∈ startAfter, validObjectKey key = true) :
    ∃ page, listOlderThan objects keyPrefix olderThan limit startAfter = .ok page ∧
      Covers ListedObject.objectName (oldCandidates olderThan)
        (rowsAfter ListedObject.objectName (belowPrefix objects keyPrefix) startAfter) page ∧
      page.items.length ≤ limit := by
  have hany : startAfter.any (fun key => !validObjectKey key) = false := by
    cases startAfter with
    | none => rfl
    | some key => simp [hstart key rfl]
  have hrows : ∀ stat ∈ rowsAfter ListedObject.objectName (belowPrefix objects keyPrefix) startAfter,
      stat.candidate?.isSome = true :=
    fun stat hstat => hvalid stat (mem_belowPrefix (mem_rowsAfter.mp hstat).1)
  have hscan : 1 ≤ min 1000 (max (limit + 1) (limit * 8)) := by omega
  rw [listOlderThan, if_neg (by simp [hne, hkeyPrefix, hlimit, hmax, hany])]
  exact listLoop_covers hlimit hscan _ [] hrows (Nat.zero_le _)

theorem startAfter_valid {startAfter : Option Str} {page : OrphanPage}
    (h : listOlderThan objects keyPrefix olderThan limit startAfter = .ok page) :
    ∀ key ∈ startAfter, validObjectKey key = true := by
  rw [listOlderThan] at h
  split at h
  · cases h
  · rename_i hrequest
    simp only [not_or] at hrequest
    rintro key rfl
    simpa using hrequest.2.2.2

/-- All pages of a listing, one after the other. -/
def allOlderThan (objects : List ListedObject) (keyPrefix : Str) (olderThan limit turns : ℕ) :
    Option (List OrphanCandidate) :=
  follow (fun startAfter => (listOlderThan objects keyPrefix olderThan limit startAfter).toOption)
    turns none

theorem pairwise_oldCandidates {rows : List ListedObject}
    (h : rows.Pairwise fun a b => a.objectName < b.objectName) :
    (oldCandidates olderThan rows).Pairwise fun a b => a.objectKey < b.objectKey := by
  refine List.Pairwise.filter _ (List.Pairwise.filterMap _ ?_ h)
  intro stat stat' hlt candidate hcandidate candidate' hcandidate'
  rw [(ListedObject.candidate?_objectKey hcandidate).1,
    (ListedObject.candidate?_objectKey hcandidate').1]
  exact hlt

/-- **The pages of a listing** end, and show every object below the prefix that is older than the
cutoff once and no other, in the order of the keys. -/
theorem orphan_listing_exhaustive (objects : List ListedObject) (keyPrefix : Str) (olderThan limit : ℕ)
    (hne : keyPrefix ≠ []) (hkeyPrefix : validObjectKey (stripSlashes keyPrefix) = true)
    (hlimit : 1 ≤ limit) (hmax : limit ≤ 1000)
    (hkeys : (objects.map (·.objectName)).Nodup)
    (hvalid : ∀ stat ∈ objects, stat.candidate?.isSome = true) :
    (∃ turns items, allOlderThan objects keyPrefix olderThan limit turns = some items ∧
      items.Perm (oldCandidates olderThan (belowPrefix objects keyPrefix)) ∧
      items.Pairwise fun a b => a.objectKey < b.objectKey) ∧
    ∀ startAfter page, listOlderThan objects keyPrefix olderThan limit startAfter = .ok page →
      page.items.length ≤ limit := by
  have hrows : ((belowPrefix objects keyPrefix).map (·.objectName)).Nodup :=
    hkeys.sublist (List.filter_sublist.map _)
  have hpage : ∀ startAfter : Option Str,
      (∀ key ∈ startAfter, key ∈ (belowPrefix objects keyPrefix).map (·.objectName)) →
      ∃ page, (listOlderThan objects keyPrefix olderThan limit startAfter).toOption = some page ∧
        Covers ListedObject.objectName (oldCandidates olderThan)
          (rowsAfter ListedObject.objectName (belowPrefix objects keyPrefix) startAfter) page := by
    intro startAfter hstart
    have hkeysValid : ∀ key ∈ startAfter, validObjectKey key = true := by
      intro key hkey
      obtain ⟨stat, hstat, rfl⟩ := List.mem_map.mp (hstart key hkey)
      obtain ⟨candidate, hcandidate⟩ :=
        Option.isSome_iff_exists.mp (hvalid stat (mem_belowPrefix hstat))
      exact (ListedObject.candidate?_objectKey hcandidate).2
    obtain ⟨page, hok, hcovers, -⟩ :=
      listOlderThan_covers hne hkeyPrefix hlimit hmax hvalid hkeysValid
    exact ⟨page, by rw [hok]; rfl, hcovers⟩
  constructor
  · have hfollow := follow_covers hrows oldCandidates_append hpage _ none (by simp)
      (Nat.lt_succ_self _)
    have hperm : (rowsAfter ListedObject.objectName (belowPrefix objects keyPrefix) none).Perm
        ((belowPrefix objects keyPrefix).filter (after ListedObject.objectName none)) :=
      rowsAfter_perm none
    have hall : (belowPrefix objects keyPrefix).filter (after ListedObject.objectName none) =
        belowPrefix objects keyPrefix := List.filter_true _
    rw [hall] at hperm
    refine ⟨_, _, hfollow, ?_, ?_⟩
    · exact (hperm.filterMap _).filter _
    · exact pairwise_oldCandidates (pairwise_rowsAfter hrows none)
  · intro startAfter page hok
    obtain ⟨page', hok', -, hlength⟩ :=
      listOlderThan_covers hne hkeyPrefix hlimit hmax hvalid (startAfter_valid hok)
    rw [hok] at hok'
    cases hok'
    exact hlength

/-- Two objects of a job from before the cutoff, and one from after it between them. -/
def sampleObjects : List ListedObject :=
  [⟨"tmp/jobs/c".toList, some 3, some 7, []⟩, ⟨"tmp/jobs/b".toList, some 2, some 12, []⟩,
    ⟨"tmp/jobs/a".toList, some 1, some 5, []⟩]

theorem orphan_listing_exhaustive_sample :
    (∃ turns items, allOlderThan sampleObjects "tmp/jobs/".toList 10 1 turns = some items ∧
      items.Perm [⟨"tmp/jobs/c".toList, 3, none, 7⟩, ⟨"tmp/jobs/a".toList, 1, none, 5⟩] ∧
      items.Pairwise fun a b => a.objectKey < b.objectKey) ∧
    ∀ startAfter page, listOlderThan sampleObjects "tmp/jobs/".toList 10 1 startAfter = .ok page →
      page.items.length ≤ 1 := by
  have hold : oldCandidates 10 (belowPrefix sampleObjects "tmp/jobs/".toList) =
      [⟨"tmp/jobs/c".toList, 3, none, 7⟩, ⟨"tmp/jobs/a".toList, 1, none, 5⟩] := by
    decide
  rw [← hold]
  exact orphan_listing_exhaustive sampleObjects "tmp/jobs/".toList 10 1 (by decide) (by decide)
    (by decide) (by decide) (by decide) (by decide)

end All

end VeloxRag.ObjectStore
