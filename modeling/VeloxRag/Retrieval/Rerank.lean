import VeloxRag.Lib.Ranking
import VeloxRag.Providers.EmbeddingResponses
import VeloxRag.Retrieval.Search

/-!
# Rerank responses

A reranker answers with scores for the candidates, each under the candidate's index.  The parser
refuses an index that is out of range or there twice, and does not ask whether every candidate has a
score; what has none is not among the results.

## Main definitions

* `scoreOf`, `rerankEntries?`, `parseResponse` — the parser on a decoded response.
* `providerGateway` — the reranker that reads the provider's responses with it.
* `Reorders` — the results are the first of the candidates in the order of the scores.
* `rerank_reorders_iff` — when they are.
-/

namespace VeloxRag.Retrieval

open Lib Providers Indexing

variable {P : Platform}

/-! ## The parser -/

section Parser

variable (ops : NumberOps P.Float P.Float) (lt : P.Float → P.Float → Bool)

/-- A number under the key. -/
def numberAt? (members : JsonMembers P.Float) (key : String) : Option (ℤ ⊕ P.Float) :=
  match members.lookup key.toList with
  | some (.int n) => some (.inl n)
  | some (.float x) => some (.inr x)
  | _ => none

/-- The loop of `_score_of`; a number that no float stands for raises. -/
def scoreFrom (members : JsonMembers P.Float) : List String → Option P.Float
  | [] => none
  | key :: keys =>
      match numberAt? members key with
      | none => scoreFrom members keys
      | some number =>
          match ops.toFloat number with
          | none => none
          | some numeric => if ops.isFinite numeric then some numeric else scoreFrom members keys

/-- `_score_of`. -/
def scoreOf (members : JsonMembers P.Float) : Option P.Float :=
  scoreFrom ops members ["score", "relevance_score"]

/-- What the parser looks up in an entry. -/
def rerankEntry : Json P.Float → RerankEntry P
  | .obj members =>
      { index := match members.lookup "index".toList with
          | some (.int index) => some index
          | _ => none
        score := scoreOf ops members }
  | _ => ⟨none, none⟩

/-- The list of a response, or the one under `results`. -/
def rerankEntries? : Json P.Float → Option (List (RerankEntry P))
  | .arr items => some (items.map (rerankEntry ops))
  | .obj members =>
      match members.lookup "results".toList with
      | some (.arr items) => some (items.map (rerankEntry ops))
      | _ => none
  | _ => none

/-- `_parse_response` of a decoded body. -/
def parseResponse (documentCount : ℕ) (document : Json P.Float) : Option (List ℕ) := do
  let entries ← rerankEntries? ops document
  parseRerankResponse lt documentCount entries

/-- The reranker over a provider; `respond` is the decoded body of a response that is a success. -/
def providerGateway (respond : ℕ → Str → List Str → Option (Json P.Float)) : RerankGateway P where
  lt := lt
  entries profile query documents := (respond profile query documents).bind (rerankEntries? ops)

/-- `<` and `==` compare the numbers that finite floats stand for. -/
structure ScoreOrder (value : P.Float → ℚ) : Prop where
  lt_iff : ∀ x y, ops.isFinite x = true → ops.isFinite y = true →
    (lt x y = true ↔ value x < value y)
  eq_iff : ∀ x y, ops.isFinite x = true → ops.isFinite y = true →
    (P.floats.eq x y = true ↔ value x = value y)

end Parser

section Entries

variable {ops : NumberOps P.Float P.Float} {lt : P.Float → P.Float → Bool} {value : P.Float → ℚ}

theorem isFinite_scoreFrom {members : JsonMembers P.Float} {keys : List String} {score : P.Float}
    (h : scoreFrom ops members keys = some score) : ops.isFinite score = true := by
  induction keys with
  | nil => cases h
  | cons key keys ih =>
      rw [scoreFrom] at h
      split at h
      · exact ih h
      · split at h
        · cases h
        · split at h
          · rename_i hfinite
            cases h
            exact hfinite
          · exact ih h

theorem isFinite_rerankEntry {item : Json P.Float} {score : P.Float}
    (h : (rerankEntry ops item).score = some score) : ops.isFinite score = true := by
  cases item with
  | obj members => exact isFinite_scoreFrom h
  | _ => cases h

theorem isFinite_rerankEntries? {document : Json P.Float} {entries : List (RerankEntry P)}
    (h : rerankEntries? ops document = some entries) {entry : RerankEntry P} (hentry : entry ∈ entries)
    {score : P.Float} (hscore : entry.score = some score) : ops.isFinite score = true := by
  have hitems : ∃ items : List (Json P.Float), entries = items.map (rerankEntry ops) := by
    cases document with
    | arr items =>
        cases h
        exact ⟨items, rfl⟩
    | obj members =>
        rw [rerankEntries?] at h
        split at h
        · cases h
          exact ⟨_, rfl⟩
        · cases h
    | _ => cases h
  obtain ⟨items, rfl⟩ := hitems
  obtain ⟨item, -, rfl⟩ := List.mem_map.mp hentry
  exact isFinite_rerankEntry hscore

/-- **What the loop reads**: the index and the score of every entry. -/
theorem forall₂_of_readRerankEntries {documentCount : ℕ} : ∀ {entries : List (RerankEntry P)}
    {seen : List ℕ} {parsed : List (ℕ × P.Float)},
    readRerankEntries documentCount seen entries = some parsed →
      List.Forall₂ (fun entry p => entry.index = some (p.1 : ℤ) ∧ entry.score = some p.2)
        entries parsed := by
  intro entries
  induction entries with
  | nil =>
      intro seen parsed h
      cases h
      exact .nil
  | cons entry entries ih =>
      intro seen parsed h
      rw [readRerankEntries] at h
      split at h
      · rename_i index hindex
        split at h
        · cases h
        · obtain ⟨score, hscore, h⟩ := Option.bind_eq_some_iff.mp h
          obtain ⟨rest, hrest, h⟩ := Option.bind_eq_some_iff.mp h
          cases h
          exact .cons ⟨hindex, hscore⟩ (ih hrest)
      · cases h

/-- The reranker parses what the provider responds. -/
theorem providerGateway_rerank {respond : ℕ → Str → List Str → Option (Json P.Float)} {profile : ℕ}
    {query : Str} {documents : List Str} {document : Json P.Float}
    (h : respond profile query documents = some document) :
    (providerGateway ops lt respond).rerank profile query documents =
      parseResponse ops lt documents.length document := by
  simp only [RerankGateway.rerank, providerGateway, h, Option.bind_eq_bind, Option.bind_some,
    parseResponse]

/-- The scores as numbers. -/
def scored (value : P.Float → ℚ) (parsed : List (ℕ × P.Float)) : List (ℕ × ℚ) :=
  parsed.map fun p => (p.1, value p.2)

theorem fst_scored (parsed : List (ℕ × P.Float)) :
    (scored value parsed).map (·.1) = parsed.map (·.1) := by
  rw [scored, List.map_map]
  rfl

/-- **An accepted response** ranks the candidates that it has entries for. -/
theorem parseResponse_eq_some (horder : ScoreOrder ops lt value) {documentCount : ℕ}
    {document : Json P.Float} {ordered : List ℕ}
    (h : parseResponse ops lt documentCount document = some ordered) :
    ∃ entries parsed, rerankEntries? ops document = some entries ∧ entries ≠ [] ∧
      List.Forall₂ (fun entry p => entry.index = some (p.1 : ℤ) ∧ entry.score = some p.2)
        entries parsed ∧
      (parsed.map (·.1)).Nodup ∧ (∀ i ∈ parsed.map (·.1), i < documentCount) ∧
      ordered = ranked (scored value parsed) := by
  obtain ⟨entries, hentries, hparsed⟩ := Option.bind_eq_some_iff.mp h
  rw [parseRerankResponse] at hparsed
  split at hparsed
  · cases hparsed
  rename_i hne
  obtain ⟨parsed, hread, rfl⟩ := Option.map_eq_some_iff.mp hparsed
  obtain ⟨hnodup, hall⟩ := readRerankEntries_ok hread
  have hforall := forall₂_of_readRerankEntries hread
  refine ⟨entries, parsed, hentries, hne, hforall, hnodup, fun i hi => (hall i hi).1, ?_⟩
  have hfinite : ∀ p ∈ parsed, ops.isFinite p.2 = true := by
    intro p hp
    obtain ⟨entry, hentry, -, hscore⟩ := Fallible.exists_of_mem_right hforall hp
    exact isFinite_rerankEntries? hentries hentry hscore
  have hmap := List.map_mergeSort (l := parsed)
    (r := fun a b => lt b.2 a.2 || (P.floats.eq a.2 b.2 && decide (a.1 ≤ b.1)))
    (s := rankLe) (f := fun p => (p.1, value p.2)) (by
      intro a ha b hb
      rw [Bool.eq_iff_iff, rankLe_iff, Bool.or_eq_true, Bool.and_eq_true, decide_eq_true_eq,
        horder.lt_iff _ _ (hfinite b hb) (hfinite a ha),
        horder.eq_iff _ _ (hfinite a ha) (hfinite b hb)])
  rw [ranked, scored, ← hmap, List.map_map]
  rfl

/-- The score that a response gives a candidate. -/
def responseScore (value : P.Float → ℚ) (entries : List (RerankEntry P)) (i : ℕ) : Option ℚ :=
  ((entries.find? fun entry => entry.index = some (i : ℤ)).bind (·.score)).map value

theorem responseScore_eq {entries : List (RerankEntry P)} {parsed : List (ℕ × P.Float)}
    (h : List.Forall₂ (fun entry p => entry.index = some (p.1 : ℤ) ∧ entry.score = some p.2)
      entries parsed) : responseScore value entries = scoreAt (scored value parsed) := by
  funext i
  induction h with
  | nil => rfl
  | @cons entry p entries parsed hentry _ ih =>
      rw [responseScore, scored, List.map_cons, scoreAt, List.lookup_cons]
      by_cases hi : i = p.1
      · have hfind : (entry :: entries).find? (fun e => e.index = some (i : ℤ)) = some entry := by
          simp [hentry.1, hi]
        rw [hfind, Option.bind_some, hentry.2, hi, beq_self_eq_true]
        rfl
      · have hfind : (entry :: entries).find? (fun e => e.index = some (i : ℤ)) =
            entries.find? fun e => e.index = some (i : ℤ) := by
          simp [hentry.1, eq_comm, hi]
        rw [hfind, beq_false_of_ne hi]
        exact ih

end Entries

/-! ## The results -/

/-- The results are the first of the candidates when these are ordered by their scores. -/
def Reorders (scores : ℕ → Option ℚ) (candidates : List (Hit P)) (topK : ℕ) (hits : List (Hit P)) :
    Prop :=
  ∃ order : List ℕ, order.Perm (List.range candidates.length) ∧ order.Pairwise (Precedes scores) ∧
    hits = (order.filterMap fun i => candidates[i]?).take topK

section Results

variable {α : Type} {items : List α} {order : List ℕ}

theorem take_picked (h : ∀ i ∈ order, i < items.length) (k : ℕ) :
    (order.filterMap fun i => items[i]?).take k = (order.take k).filterMap fun i => items[i]? := by
  induction order generalizing k with
  | nil => simp
  | cons i order ih =>
      have hi := List.getElem?_eq_getElem (h i List.mem_cons_self)
      cases k with
      | zero => simp
      | succ k =>
          rw [List.filterMap_cons_some hi, List.take_succ_cons, List.take_succ_cons,
            List.filterMap_cons_some hi, ih fun j hj => h j (List.mem_cons_of_mem _ hj)]

theorem length_picked (h : ∀ i ∈ order, i < items.length) :
    (order.filterMap fun i => items[i]?).length = order.length := by
  induction order with
  | nil => rfl
  | cons i order ih =>
      have hi := List.getElem?_eq_getElem (h i List.mem_cons_self)
      rw [List.filterMap_cons_some hi, List.length_cons, List.length_cons,
        ih fun j hj => h j (List.mem_cons_of_mem _ hj)]

theorem Reorders.length_eq {scores : ℕ → Option ℚ} {candidates hits : List (Hit P)} {topK : ℕ}
    (h : Reorders scores candidates topK hits) : hits.length = min topK candidates.length := by
  obtain ⟨order, hperm, -, rfl⟩ := h
  have horder : ∀ i ∈ order, i < candidates.length :=
    fun i hi => List.mem_range.mp (hperm.mem_iff.mp hi)
  rw [List.length_take, length_picked horder, hperm.length_eq, List.length_range]

/-- The results of a ranking are the first of the candidates exactly if it is long enough. -/
theorem reorders_iff {candidates : List (Hit P)} {entries : List (ℕ × ℚ)}
    (hnodup : (entries.map (·.1)).Nodup) (hlt : ∀ i ∈ entries.map (·.1), i < candidates.length)
    (topK : ℕ) :
    Reorders (scoreAt entries) candidates topK
        (((ranked entries).filterMap fun i => candidates[i]?).take topK) ↔
      min topK candidates.length ≤ entries.length := by
  have hranked : ∀ i ∈ ranked entries, i < candidates.length :=
    fun i hi => hlt i (ranked_perm.mem_iff.mp hi)
  constructor
  · intro h
    have hlength := h.length_eq
    rw [List.length_take, length_picked hranked, length_ranked] at hlength
    omega
  · rw [← take_ranked_iff hnodup hlt topK]
    rintro ⟨order, hperm, hpairwise, heq⟩
    have horder : ∀ i ∈ order, i < candidates.length :=
      fun i hi => List.mem_range.mp (hperm.mem_iff.mp hi)
    exact ⟨order, hperm, hpairwise, by rw [take_picked hranked, take_picked horder, heq]⟩

end Results

/-- **When reranking only reorders.**  A response that is accepted gives as many results as it has
entries, up to the number asked for.  They are the first of the candidates in the order of the scores,
those without a score behind the others, exactly if there is an entry for each result that the same
search has without reranking; and every candidate has a score in this order exactly if there are as
many entries as candidates. -/
theorem rerank_reorders_iff {ops : NumberOps P.Float P.Float} {lt : P.Float → P.Float → Bool}
    {value : P.Float → ℚ} (horder : ScoreOrder ops lt value)
    {respond : ℕ → Str → List Str → Option (Json P.Float)} {target : ActiveSearchTarget}
    {command : SearchRequest P} {candidates : List (Hit P)} {profile : ℕ} {document : Json P.Float}
    {ordered : List ℕ} (hrerank : command.rerank = true)
    (hprofile : target.rerankProfileId = some profile)
    (hrespond : respond profile command.query (candidates.map (·.result.text)) = some document)
    (haccepted : parseResponse ops lt candidates.length document = some ordered) :
    ∃ entries hits, rerankEntries? ops document = some entries ∧
      applyRerank (some (providerGateway ops lt respond)) target command candidates = .ok hits ∧
      hits.length = min command.topK entries.length ∧
      (Reorders (responseScore value entries) candidates command.topK hits ↔
        min command.topK candidates.length ≤ entries.length) ∧
      (hits.length = (candidates.take command.topK).length ↔
        min command.topK candidates.length ≤ entries.length) ∧
      ((Reorders (responseScore value entries) candidates command.topK hits ∧
          ∀ i < candidates.length, responseScore value entries i ≠ none) ↔
        entries.length = candidates.length) := by
  obtain ⟨entries, parsed, hentries, hne, hforall, hnodup, hlt, rfl⟩ :=
    parseResponse_eq_some horder haccepted
  have hkeys : ((scored value parsed).map (·.1)).Nodup := by
    rw [fst_scored]
    exact hnodup
  have hbound : ∀ i ∈ (scored value parsed).map (·.1), i < candidates.length := by
    rw [fst_scored]
    exact hlt
  have hcount : (scored value parsed).length = entries.length := by
    rw [scored, List.length_map, hforall.length_eq]
  have hle := length_entries_le hkeys hbound
  have hscores : responseScore value entries = scoreAt (scored value parsed) :=
    responseScore_eq hforall
  have hranked : ∀ i ∈ ranked (scored value parsed), i < candidates.length :=
    fun i hi => hbound i (ranked_perm.mem_iff.mp hi)
  have hnonempty : candidates.isEmpty = false := by
    cases candidates with
    | cons hit candidates => rfl
    | nil =>
        have hpos := List.length_pos_of_ne_nil hne
        simp only [List.length_nil] at hle
        omega
  have hgateway : (providerGateway ops lt respond).rerank profile command.query
      (candidates.map (·.result.text)) = some (ranked (scored value parsed)) := by
    rw [providerGateway_rerank hrespond, List.length_map]
    exact haccepted
  have happly : applyRerank (some (providerGateway ops lt respond)) target command candidates =
      .ok (((ranked (scored value parsed)).filterMap fun i => candidates[i]?).take command.topK) := by
    rw [applyRerank]
    simp only [hrerank, Bool.true_eq_false, if_false, hprofile, hnonempty, Bool.false_eq_true, hgateway]
  have hlength : (((ranked (scored value parsed)).filterMap fun i => candidates[i]?).take
      command.topK).length = min command.topK entries.length := by
    rw [List.length_take, length_picked hranked, length_ranked, hcount]
  have hreorders := reorders_iff hkeys hbound command.topK
  rw [← hscores, hcount] at hreorders
  refine ⟨entries, _, hentries, happly, hlength, hreorders, ?_, ?_⟩
  · rw [hlength, List.length_take]
    omega
  · have hcomplete := forall_scoreAt_ne_none_iff hkeys hbound
    rw [hcount, ← hscores] at hcomplete
    rw [hreorders, hcomplete]
    omega

/-! ## Responses for two candidates -/

namespace RerankSample

def ops : NumberOps (Option Bool) (Option Bool) where
  toFloat := fun number => number.elim (fun n => smallFloats.ofLiteral (Json.decimal n)) some
  isFinite := smallFloats.isFinite

/-- `0.0 < 1.0` -/
def lt (x y : Option Bool) : Bool := decide (x = some false ∧ y = some true)

def value : Option Bool → ℚ
  | some true => 1
  | _ => 0

theorem scoreOrder : ScoreOrder (P := Platform.small) ops lt value where
  lt_iff := by
    intro x y hx hy
    rcases x with _ | _ | _ <;> rcases y with _ | _ | _ <;> simp [ops, smallFloats, lt, value] at *
  eq_iff := by
    intro x y hx hy
    rcases x with _ | _ | _ <;> rcases y with _ | _ | _ <;>
      simp [ops, Platform.small, smallFloats, value] at *

/-- `{"index": index, "score": score}` -/
def entry (index : ℕ) (score : Bool) : Json (Option Bool) :=
  .obj [("index".toList, .int index), ("score".toList, .float (some score))]

/-- A response for the first candidate only. -/
def partialDocument : Json (Option Bool) := .arr [entry 0 false]

/-- A response with the second candidate first. -/
def document : Json (Option Bool) := .arr [entry 1 true, entry 0 false]

def target : ActiveSearchTarget where
  knowledgeBaseId := 1
  knowledgeBaseStatus := .active
  generationId := 10
  generationStatus := .active
  embeddingProfileId := some 5
  qdrantCollectionName := collectionName 1 10
  embeddingConfigSnapshot := none
  embeddingConfigHash := none
  indexProfileHash := "h".toList
  filterSchemaSnapshot := none
  rerankProfileId := some 7

def request (rerank : Bool) : SearchRequest Platform.small where
  query := "q".toList
  topK := 10
  filters := none
  rerank := rerank
  query_length := sampleSearch.query_length
  topK_le := sampleSearch.topK_le

/-- A result with this text. -/
def hit (id : ℕ) (c : Char) : Hit Platform.small where
  point := ⟨id, some false, ⟨1, id, id, 0, List.replicate 64 'a', [c], [], 0, 1, [], by simp, rfl⟩, rfl⟩
  document := ⟨id, id, "a.txt".toList⟩
  result := ⟨[c], some false, id, id, 0, none, [], "a.txt".toList, 0, 1, []⟩

def candidates : List (Hit Platform.small) := [hit 2 'a', hit 3 'b']

/-- A provider that answers with this document. -/
def gateway (document : Json (Option Bool)) : RerankGateway Platform.small :=
  providerGateway ops lt fun _ _ _ => some document

theorem parseResponse_of_pairwise {ops : NumberOps P.Float P.Float} {lt : P.Float → P.Float → Bool}
    {documentCount : ℕ} {document : Json P.Float} (entries : List (RerankEntry P))
    (parsed : List (ℕ × P.Float)) (hentries : rerankEntries? ops document = some entries)
    (hne : entries ≠ []) (hread : readRerankEntries documentCount [] entries = some parsed)
    (hsorted : parsed.Pairwise fun a b =>
      (lt b.2 a.2 || (P.floats.eq a.2 b.2 && decide (a.1 ≤ b.1))) = true) :
    parseResponse ops lt documentCount document = some (parsed.map (·.1)) := by
  rw [parseResponse, hentries, Option.bind_eq_bind, Option.bind_some, parseRerankResponse,
    if_neg hne, hread, Option.map_some, List.mergeSort_of_pairwise hsorted]

/-- The entries of the two responses. -/
def partialEntries : List (RerankEntry Platform.small) := [⟨some 0, some (some false)⟩]

def documentEntries : List (RerankEntry Platform.small) :=
  [⟨some 1, some (some true)⟩, ⟨some 0, some (some false)⟩]

theorem parseResponse_single :
    parseResponse (P := Platform.small) ops lt 2 partialDocument = some [0] :=
  parseResponse_of_pairwise partialEntries [(0, some false)] rfl (List.cons_ne_nil _ _) rfl
    (List.pairwise_singleton _ _)

theorem parseResponse_document :
    parseResponse (P := Platform.small) ops lt 2 document = some [1, 0] :=
  parseResponse_of_pairwise documentEntries [(1, some true), (0, some false)] rfl
    (List.cons_ne_nil _ _) rfl (by simp [lt])

/-- The search with reranking when the provider orders the two candidates so. -/
theorem applyRerank_gateway {body : Json (Option Bool)} {order : List ℕ}
    (h : parseResponse (P := Platform.small) ops lt 2 body = some order) :
    applyRerank (some (gateway body)) target (request true) candidates =
      .ok ((order.filterMap fun i => candidates[i]?).take 10) := by
  have hgateway : (gateway body).rerank 7 "q".toList [['a'], ['b']] = some order :=
    (providerGateway_rerank rfl).trans h
  have htexts : candidates.map (·.result.text) = [['a'], ['b']] := rfl
  have hprofile : target.rerankProfileId = some 7 := rfl
  rw [applyRerank]
  simp only [request, Bool.true_eq_false, if_false, hprofile, htexts]
  rw [hgateway]
  rfl

end RerankSample

open RerankSample in
/-- The second candidate has the higher score and comes first. -/
theorem rerank_reorders_two :
    applyRerank (some (gateway document)) target (request true) candidates =
        .ok [hit 3 'b', hit 2 'a'] ∧
      Reorders (responseScore (P := Platform.small) value documentEntries) candidates 10
        [hit 3 'b', hit 2 'a'] := by
  obtain ⟨entries, hits, hentries, happly, -, -, -, hall⟩ :=
    @rerank_reorders_iff Platform.small _ _ _ scoreOrder (fun _ _ _ => some document) target
      (request true) candidates _ _ _ rfl rfl rfl parseResponse_document
  obtain rfl := Option.some.inj (hentries.symm.trans (rfl : _ = some documentEntries))
  have horder := applyRerank_gateway parseResponse_document
  obtain rfl := Except.ok.inj (horder.symm.trans happly)
  exact ⟨horder, (hall.mpr rfl).1⟩

open RerankSample in
/-- A response for one of two candidates is accepted, and the search has one result with reranking and
two without. -/
theorem partial_rerank_returns_fewer :
    parseResponse (P := Platform.small) ops lt 2 partialDocument = some [0] ∧
      applyRerank (some (gateway partialDocument)) target (request true) candidates =
        .ok [hit 2 'a'] ∧
      applyRerank (some (gateway partialDocument)) target (request false) candidates = .ok candidates ∧
      ∀ scores, ¬Reorders scores candidates (request true).topK [hit 2 'a'] := by
  refine ⟨parseResponse_single, applyRerank_gateway parseResponse_single, rfl, ?_⟩
  intro scores h
  have hlength := h.length_eq
  cases hlength

end VeloxRag.Retrieval
