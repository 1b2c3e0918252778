import VeloxRag.Api.Cursors
import VeloxRag.Lib.Keyset

/-!
# Listings

The services list their tables by time of creation and identity, page by page.  The pages of all
tables are one definition; a table has a condition that says which rows the caller sees, its own
bounds of the page size and its own error.

## Main definitions

* `RowKey` — the columns by which a table is listed.
* `Listing`, `Listing.page` — a listing, and the answer to a request for a page.
* `documentListing`, `versionListing` and the others — the listings of the services.
* `keyset_pagination` — cursors round trip, and all pages are the visible rows in order.
-/

namespace VeloxRag.Api

open Lib Ingestion

/-! ## The order of rows -/

/-- The fields of a time, the greatest unit first. -/
def timestampFields (t : Timestamp) : ℕ ×ₗ ℕ ×ₗ ℕ ×ₗ ℕ ×ₗ ℕ ×ₗ ℕ ×ₗ ℕ :=
  toLex (t.year, toLex (t.month, toLex (t.day, toLex (t.hour, toLex (t.minute,
    toLex (t.second, t.microsecond))))))

theorem timestampFields_injective : Function.Injective timestampFields := by
  intro t u h
  cases t
  cases u
  simp only [timestampFields, EmbeddingLike.apply_eq_iff_eq, Prod.mk.injEq] at h
  simp only [Timestamp.mk.injEq]
  exact h

/-- Times in UTC are in the order of their fields. -/
instance : LinearOrder Timestamp := LinearOrder.lift' timestampFields timestampFields_injective

/-- `created_at` and `id` of a row; the driver gives times in UTC. -/
structure RowKey where
  createdAt : Timestamp
  id : ℕ
  datetime_valid : validDatetime createdAt = true
  id_lt : id < 2 ^ 128

instance : DecidableEq RowKey := fun a b =>
  decidable_of_iff (a.createdAt = b.createdAt ∧ a.id = b.id) <| by
    cases a
    cases b
    rw [RowKey.mk.injEq]

namespace RowKey

def position (k : RowKey) : CursorPosition := ⟨k.createdAt, some 0, k.id, k.datetime_valid, k.id_lt⟩

/-- What a listing is ordered by. -/
def sortKey (k : RowKey) : Timestamp ×ₗ ℕ := toLex (k.createdAt, k.id)

end RowKey

/-! ## Pages -/

/-- `default_page_size` and `max_page_size`. -/
structure PageSettings where
  defaultPageSize : ℕ
  maxPageSize : ℕ
  default_pos : 1 ≤ defaultPageSize
  default_le : defaultPageSize ≤ maxPageSize

/-- A listing of rows: its columns, which rows the caller sees, its page sizes and its error. -/
structure Listing (ρ : Type) where
  rowKey : ρ → RowKey
  visible : ρ → Bool
  /-- the page size when the request names none; `none` when it has to -/
  defaultLimit : Option ℕ
  maximum : ℕ
  invalid : BusinessError
  /-- the cursor is read before the page size is checked -/
  cursorFirst : Bool

def internalError : BusinessError := ⟨500, "INTERNAL_ERROR", "Internal server error"⟩

namespace Listing

variable {ρ : Type} (P : Platform) (listing : Listing ρ)

/-- The page size of a request, if it is valid. -/
def pageLimit (limit : Option ℤ) : Except BusinessError ℕ :=
  match limit, listing.defaultLimit with
  | some n, _ =>
      if 1 ≤ n ∧ n ≤ listing.maximum then .ok n.toNat else .error listing.invalid
  | none, some n => if 1 ≤ n ∧ n ≤ listing.maximum then .ok n else .error listing.invalid
  | none, none => .error listing.invalid

/-- `None if cursor is None else decode_cursor(cursor)`. -/
def cursorPosition : Option Str → Except BusinessError (Option CursorPosition)
  | none => .ok none
  | some cursor => (decodeCursor P cursor).map some

/-- `_page_parameters`. -/
def pageParameters (cursor : Option Str) (limit : Option ℤ) :
    Except BusinessError (Option CursorPosition × ℕ) :=
  if listing.cursorFirst then do
    let position ← cursorPosition P cursor
    let pageLimit ← listing.pageLimit limit
    pure (position, pageLimit)
  else do
    let pageLimit ← listing.pageLimit limit
    let position ← cursorPosition P cursor
    pure (position, pageLimit)

/-- The rows that come after a position. -/
def after (position : Option CursorPosition) (row : ρ) : Bool :=
  match position with
  | none => true
  | some p =>
      decide (p.createdAt < (listing.rowKey row).createdAt)
        || (decide ((listing.rowKey row).createdAt = p.createdAt)
          && decide (p.id < (listing.rowKey row).id))

/-- The query of the repository. -/
def query (rows : List ρ) (position : Option CursorPosition) (limit : ℕ) : List ρ :=
  (((rows.filter listing.visible).filter (listing.after position)).mergeSort
    fun a b => decide ((listing.rowKey a).sortKey ≤ (listing.rowKey b).sortKey)).take limit

/-- `_next_cursor`. -/
def nextCursor (visible : List ρ) (hasMore : Bool) : Except BusinessError (Option Str) :=
  if hasMore then
    match visible.getLast? with
    | none => .ok none
    | some last =>
        match encodeCursor P (listing.rowKey last).position with
        | none => .error internalError
        | some cursor => .ok (some cursor)
  else .ok none

/-- One page. -/
def page (rows : List ρ) (limit : Option ℤ) (cursor : Option Str) :
    Except BusinessError (Keyset.Page ρ Str) := do
  let (position, pageLimit) ← listing.pageParameters P cursor limit
  let found := listing.query rows position (pageLimit + 1)
  let hasMore := decide (pageLimit < found.length)
  let visible := found.take pageLimit
  let next ← listing.nextCursor P visible hasMore
  pure ⟨visible, next⟩

end Listing

/-! ## The listings of the services -/

/-- The knowledge bases whose scope a key has: pairs of the key and the knowledge base. -/
abbrev Scopes := List (ℕ × ℕ)

structure KnowledgeBaseRow where
  key : RowKey
  deleting : Bool

structure DocumentRow where
  key : RowKey
  knowledgeBaseId : ℕ
  deleted : Bool

structure VersionRow where
  key : RowKey
  documentId : ℕ

inductive KeyKind
  | admin
  | agent
deriving DecidableEq

structure ApiKeyRow where
  key : RowKey
  kind : KeyKind

inductive Capability
  | embedding
  | rerank
deriving DecidableEq

structure ModelProfileRow where
  key : RowKey
  capability : Capability

structure GenerationRow where
  key : RowKey
  knowledgeBaseId : ℕ

section Services

variable (settings : PageSettings)

def knowledgeBaseInvalid : BusinessError :=
  ⟨422, "VALIDATION_ERROR", "Invalid knowledge base request"⟩

def apiKeyInvalid : BusinessError := ⟨422, "VALIDATION_ERROR", "Invalid API key policy"⟩

/-- The knowledge base exists, is not being deleted and is in the scope of the key. -/
def inScope (knowledgeBases : List KnowledgeBaseRow) (scopes : Scopes) (actorKeyId : ℕ)
    (knowledgeBaseId : ℕ) : Bool :=
  knowledgeBases.any fun kb => decide (kb.key.id = knowledgeBaseId) && !kb.deleting
    && decide ((actorKeyId, knowledgeBaseId) ∈ scopes)

/-- `list_knowledge_bases`. -/
def knowledgeBaseListing (scopes : Scopes) (actorKeyId : ℕ) : Listing KnowledgeBaseRow where
  rowKey := (·.key)
  visible := fun kb => decide ((actorKeyId, kb.key.id) ∈ scopes) && !kb.deleting
  defaultLimit := some settings.defaultPageSize
  maximum := settings.maxPageSize
  invalid := knowledgeBaseInvalid
  cursorFirst := false

/-- `list_documents`, after the check of the knowledge base. -/
def documentListing (knowledgeBases : List KnowledgeBaseRow) (scopes : Scopes) (actorKeyId : ℕ)
    (knowledgeBaseId : ℕ) : Listing DocumentRow where
  rowKey := (·.key)
  visible := fun d => !d.deleted && inScope knowledgeBases scopes actorKeyId d.knowledgeBaseId
    && decide (d.knowledgeBaseId = knowledgeBaseId)
  defaultLimit := none
  maximum := min settings.maxPageSize 100
  invalid := knowledgeBaseInvalid
  cursorFirst := false

/-- `list_versions`, after the check of the document. -/
def versionListing (knowledgeBases : List KnowledgeBaseRow) (documents : List DocumentRow)
    (scopes : Scopes) (actorKeyId : ℕ) (documentId : ℕ) : Listing VersionRow where
  rowKey := (·.key)
  visible := fun v => decide (v.documentId = documentId) && documents.any fun d =>
    decide (d.key.id = documentId) && !d.deleted
      && inScope knowledgeBases scopes actorKeyId d.knowledgeBaseId
  defaultLimit := none
  maximum := min settings.maxPageSize 100
  invalid := knowledgeBaseInvalid
  cursorFirst := false

/-- `list_by_kind`. -/
def apiKeyListing (kind : KeyKind) : Listing ApiKeyRow where
  rowKey := (·.key)
  visible := fun row => decide (row.kind = kind)
  defaultLimit := some settings.defaultPageSize
  maximum := settings.maxPageSize
  invalid := apiKeyInvalid
  cursorFirst := false

/-- `list_admin_keys`. -/
def adminKeyListing : Listing ApiKeyRow := apiKeyListing settings .admin

/-- `list_agent_keys`. -/
def agentKeyListing : Listing ApiKeyRow := apiKeyListing settings .agent

/-- A listing of the provider service. -/
def providerListing {ρ : Type} (rowKey : ρ → RowKey) (visible : ρ → Bool) (resource : String) :
    Listing ρ where
  rowKey := rowKey
  visible := visible
  defaultLimit := some (min settings.defaultPageSize (min settings.maxPageSize 100))
  maximum := min settings.maxPageSize 100
  invalid := ⟨422, "VALIDATION_ERROR", "Invalid " ++ resource ++ " request"⟩
  cursorFirst := true

/-- `list_credentials`. -/
def credentialListing : Listing RowKey :=
  providerListing settings id (fun _ => true) "provider credential"

/-- `list_provider_configs`. -/
def providerConfigListing : Listing RowKey :=
  providerListing settings id (fun _ => true) "provider configuration"

/-- `list_model_profiles`. -/
def modelProfileListing : Listing ModelProfileRow :=
  providerListing settings (·.key) (fun row => decide (row.capability = .embedding)) "model profile"

/-- `list_generations`, of a knowledge base that exists. -/
def generationListing (knowledgeBaseId : ℕ) : Listing GenerationRow where
  rowKey := (·.key)
  visible := fun row => decide (row.knowledgeBaseId = knowledgeBaseId)
  defaultLimit := some (min settings.defaultPageSize (min settings.maxPageSize 100))
  maximum := min settings.maxPageSize 100
  invalid := ⟨422, "VALIDATION_ERROR", "Invalid generation request"⟩
  cursorFirst := false

end Services

/-! ## All pages -/

namespace Listing

variable {ρ : Type} {P : Platform} (listing : Listing ρ) {rows : List ρ}

/-- What the rows of a listing are ordered by. -/
def sortKey (row : ρ) : Timestamp ×ₗ ℕ := (listing.rowKey row).sortKey

theorem after_position (position : Option RowKey) (row : ρ) :
    listing.after (position.map RowKey.position) row =
      Keyset.after listing.sortKey (position.map RowKey.sortKey) row := by
  cases position with
  | none => rfl
  | some p =>
    rw [Bool.eq_iff_iff]
    simp only [after, Keyset.after, Option.map_some, Option.all_some, Bool.or_eq_true,
      Bool.and_eq_true, decide_eq_true_eq, sortKey, RowKey.sortKey, Prod.Lex.toLex_lt_toLex,
      RowKey.position]
    constructor
    · rintro (hlt | ⟨heq, hlt⟩)
      · exact .inl hlt
      · exact .inr ⟨heq.symm, hlt⟩
    · rintro (hlt | ⟨heq, hlt⟩)
      · exact .inl hlt
      · exact .inr ⟨heq.symm, hlt⟩

theorem query_eq_fetch (position : Option RowKey) (limit : ℕ) :
    listing.query rows (position.map RowKey.position) limit =
      Keyset.fetch listing.sortKey (rows.filter listing.visible) (position.map RowKey.sortKey)
        limit := by
  rw [query, Keyset.fetch, Keyset.rowsAfter]
  congr 2
  exact List.filter_congr fun row _ => listing.after_position position row

/-- The cursor of a position in the order of the rows. -/
def cursorOf (P : Platform) (k : Timestamp ×ₗ ℕ) : Str :=
  if h : validDatetime (ofLex k).1 = true ∧ (ofLex k).2 < 2 ^ 128 then
    (encodeCursor P ⟨(ofLex k).1, some 0, (ofLex k).2, h.1, h.2⟩).getD []
  else []

theorem cursorOf_sortKey (k : RowKey) (hyear : 1000 ≤ k.createdAt.year) :
    encodeCursor P k.position = some (cursorOf P k.sortKey) ∧
      decodeCursor P (cursorOf P k.sortKey) = .ok k.position := by
  obtain ⟨value, hencode, hdecode⟩ := decodeCursor_encodeCursor (p := k.position) P rfl hyear
  have hcursor : cursorOf P k.sortKey = value := by
    rw [cursorOf, dif_pos ⟨k.datetime_valid, k.id_lt⟩]
    change (encodeCursor P k.position).getD [] = value
    rw [hencode]
    rfl
  rw [hcursor]
  exact ⟨hencode, hdecode⟩

theorem pageParameters_eq {cursor : Option Str} {position : Option CursorPosition} {limit : Option ℤ}
    {size : ℕ} (hposition : cursorPosition P cursor = .ok position)
    (hlimit : listing.pageLimit limit = .ok size) :
    listing.pageParameters P cursor limit = .ok (position, size) := by
  rw [pageParameters, hposition, hlimit]
  split <;> rfl

theorem nextCursor_eq {visible : List ρ} {hasMore : Bool}
    (hyears : ∀ row ∈ visible, 1000 ≤ (listing.rowKey row).createdAt.year) :
    listing.nextCursor P visible hasMore = .ok
      ((if hasMore then visible.getLast?.map listing.sortKey else none).map (cursorOf P)) := by
  rw [nextCursor]
  cases hasMore with
  | false => rfl
  | true =>
    rw [if_pos rfl, if_pos rfl]
    cases hlast : visible.getLast? with
    | none => rfl
    | some last =>
      have hyear := hyears last (List.mem_of_getLast? hlast)
      dsimp only
      rw [(cursorOf_sortKey (listing.rowKey last) hyear).1]
      rfl

/-- A request with the cursor of a row answers with the page after that row. -/
theorem page_eq {limit : Option ℤ} {size : ℕ} (hlimit : listing.pageLimit limit = .ok size)
    (hyears : ∀ row ∈ rows, 1000 ≤ (listing.rowKey row).createdAt.year)
    (position : Option (Timestamp ×ₗ ℕ))
    (hposition : ∀ k ∈ position, k ∈ (rows.filter listing.visible).map listing.sortKey) :
    listing.page P rows limit (position.map (cursorOf P)) = .ok
      ⟨(Keyset.page listing.sortKey (rows.filter listing.visible) size position).items,
        (Keyset.page listing.sortKey (rows.filter listing.visible) size position).next.map
          (cursorOf P)⟩ := by
  obtain ⟨key, hkey, hcursor⟩ : ∃ key : Option RowKey, key.map RowKey.sortKey = position ∧
      cursorPosition P (position.map (cursorOf P)) = .ok (key.map RowKey.position) := by
    cases position with
    | none => exact ⟨none, rfl, rfl⟩
    | some k =>
      obtain ⟨row, hrow, rfl⟩ := List.mem_map.mp (hposition k rfl)
      have hyear := hyears row (List.mem_of_mem_filter hrow)
      refine ⟨some (listing.rowKey row), rfl, ?_⟩
      rw [Option.map_some, cursorPosition, sortKey, (cursorOf_sortKey (listing.rowKey row) hyear).2]
      rfl
  have hvisible : ∀ row ∈ (listing.query rows (key.map RowKey.position) (size + 1)).take size,
      1000 ≤ (listing.rowKey row).createdAt.year := by
    intro row hrow
    rw [query_eq_fetch] at hrow
    have hmem := Keyset.mem_rowsAfter.mp (List.mem_of_mem_take (List.mem_of_mem_take hrow))
    exact hyears row (List.mem_of_mem_filter hmem.1)
  rw [page, pageParameters_eq listing hcursor hlimit]
  change (do
    let next ← listing.nextCursor P ((listing.query rows (key.map RowKey.position) (size + 1)).take
      size) (decide (size < (listing.query rows (key.map RowKey.position) (size + 1)).length))
    pure (⟨(listing.query rows (key.map RowKey.position) (size + 1)).take size, next⟩ :
      Keyset.Page ρ Str) : Except BusinessError (Keyset.Page ρ Str)) = _
  rw [nextCursor_eq listing hvisible, query_eq_fetch, hkey]
  simp only [Keyset.page, decide_eq_true_eq]
  rfl

end Listing

/-- The requests that follow the cursors of a listing from its start. -/
def Listing.all {ρ : Type} (P : Platform) (listing : Listing ρ) (rows : List ρ) (limit : Option ℤ) :
    ℕ → Option (List ρ) :=
  fun turns => Keyset.follow (fun cursor => (listing.page P rows limit cursor).toOption) turns none

/-- **Keyset pagination.**  Cursors round trip from the year 1000 on, and nothing else is read; and
the pages of a table, from the first to the one without a cursor, are the visible rows, each once
and in the order of their time and identity. -/
theorem keyset_pagination (P : Platform) :
    (∀ p : CursorPosition, p.offset = some 0 → 1000 ≤ p.createdAt.year →
      ∃ value, encodeCursor P p = some value ∧ decodeCursor P value = .ok p) ∧
    (∀ value p, decodeCursor P value = .ok p → encodeCursor P p = some value) ∧
    ∀ (ρ : Type) (listing : Listing ρ) (rows : List ρ) (limit : Option ℤ) (size : ℕ),
      listing.pageLimit limit = .ok size →
      (rows.map fun row => (listing.rowKey row).id).Nodup →
      (∀ row ∈ rows, 1000 ≤ (listing.rowKey row).createdAt.year) →
      ∃ turns items, listing.all P rows limit turns = some items ∧
        items.Perm (rows.filter listing.visible) ∧
        items.Pairwise fun a b => (listing.rowKey a).sortKey < (listing.rowKey b).sortKey := by
  refine ⟨fun p => decodeCursor_encodeCursor P, fun value p => encodeCursor_of_decodeCursor P, ?_⟩
  intro ρ listing rows limit size hlimit hids hyears
  have hsize : 1 ≤ size := by
    unfold Listing.pageLimit at hlimit
    split at hlimit
    · split at hlimit
      · cases hlimit
        omega
      · cases hlimit
    · split at hlimit
      · cases hlimit
        omega
      · cases hlimit
    · cases hlimit
  have hkeys : ((rows.filter listing.visible).map listing.sortKey).Nodup := by
    have hids' : ((rows.filter listing.visible).map fun row => (listing.rowKey row).id).Nodup :=
      List.Nodup.sublist (List.filter_sublist.map _) hids
    apply List.Nodup.of_map fun k : Timestamp ×ₗ ℕ => (ofLex k).2
    rw [List.map_map]
    exact hids'
  refine ⟨(Keyset.rowsAfter listing.sortKey (rows.filter listing.visible) none).length + 1,
    Keyset.rowsAfter listing.sortKey (rows.filter listing.visible) none, ?_, ?_,
    Keyset.pairwise_rowsAfter hkeys none⟩
  · rw [Listing.all, ← Keyset.follow_page hkeys hsize _ none (Nat.lt_succ_self _)]
    apply Keyset.follow_encoded (Listing.cursorOf P) _ _ _ none
    · exact nofun
    · intro position hposition
      rw [Listing.page_eq listing hlimit hyears position hposition]
      rfl
  · have hall : (rows.filter listing.visible).filter (Keyset.after listing.sortKey none) =
        rows.filter listing.visible := List.filter_eq_self.mpr fun _ _ => rfl
    have hperm := @Keyset.rowsAfter_perm _ _ _ listing.sortKey (rows.filter listing.visible) none
    rw [hall] at hperm
    exact hperm

/-- A row of the last second of a leap day. -/
def leapDayKey (id : ℕ) (h : id < 2 ^ 128) : RowKey :=
  ⟨⟨2024, 2, 29, 23, 59, 59, 999999⟩, id, by decide, h⟩

/-- Three agent keys of one time and an admin key, listed one by one. -/
def sampleKeys : List ApiKeyRow :=
  [⟨leapDayKey 3 (by decide), .agent⟩, ⟨leapDayKey 1 (by decide), .agent⟩,
    ⟨leapDayKey 2 (by decide), .admin⟩, ⟨leapDayKey 0 (by decide), .agent⟩]

def samplePages : PageSettings where
  defaultPageSize := 20
  maxPageSize := 100
  default_pos := by decide
  default_le := by decide

theorem keyset_pagination_sampleKeys :
    (∃ value, encodeCursor .ascii (leapDayKey 3 (by decide)).position = some value ∧
      decodeCursor .ascii value = .ok (leapDayKey 3 (by decide)).position ∧
      encodeCursor .ascii (leapDayKey 3 (by decide)).position = some value) ∧
    ∃ turns items, (agentKeyListing samplePages).all .ascii sampleKeys (some 1) turns = some items ∧
      items.Perm (sampleKeys.filter (agentKeyListing samplePages).visible) ∧
      items.Pairwise fun a b => a.key.sortKey < b.key.sortKey := by
  obtain ⟨hround, himage, hpages⟩ := keyset_pagination .ascii
  constructor
  · obtain ⟨value, hencode, hdecode⟩ := hround (leapDayKey 3 (by decide)).position rfl (by decide)
    exact ⟨value, hencode, hdecode, himage value _ hdecode⟩
  · exact hpages ApiKeyRow (agentKeyListing samplePages) sampleKeys (some 1) 1 rfl (by decide)
      (by decide)

end VeloxRag.Api
