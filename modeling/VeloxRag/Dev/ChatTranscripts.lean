import VeloxRag.Text
import VeloxRag.Lib.Entries

/-!
# Converting chat transcripts

`convert` writes one document for each transcript, oldest first.  A turn that an earlier transcript
had is dropped, a transcript with too few turns left is not written, and a document replaces one of
the same session.  A text that comes from JSON or from a file name may hold half of a surrogate pair,
which no encoding takes: the conversion then stops with what it has written.

## Main definitions

* `PyStr`, `encode?` — texts, and their encoding.
* `Turn`, `Transcript` — what was read.
* `withoutSeenTurns`, `convert` — deduplication and the conversion.
* `freshTurns`, `IsWritten` — the turns a transcript adds, and which transcripts are written.
* `convert_keeps_turns` — no turn is repeated, and those of the transcripts that stay are kept.
-/

namespace VeloxRag.ChatTranscripts

open VeloxRag.Lib

/-! ## Texts -/

/-- A code point of a Python string: a character, or half of a surrogate pair. -/
abbrev CodePoint := Fin 0x110000

abbrev PyStr := List CodePoint

theorem toNat_lt (c : Char) : c.toNat < 0x110000 := by
  rcases c.valid with h | h
  · exact lt_trans h (by decide)
  · exact h.2

def codePoint (c : Char) : CodePoint := ⟨c.toNat, toNat_lt c⟩

/-- A text of characters. -/
def pyStr (s : Str) : PyStr := s.map codePoint

def isEncodable (text : PyStr) : Bool := text.all fun p : CodePoint => decide (Nat.isValidChar p.val)

/-- `str.encode("utf-8")`, with `none` for the `UnicodeEncodeError`. -/
def encode? (text : PyStr) : Option Bytes :=
  if isEncodable text = true then some (encode (text.map fun p : CodePoint => Char.ofNat p.val)) else none

theorem isEncodable_append (s t : PyStr) : isEncodable (s ++ t) = (isEncodable s && isEncodable t) :=
  List.all_append

theorem isEncodable_pyStr (s : Str) : isEncodable (pyStr s) = true := by
  rw [isEncodable, List.all_eq_true]
  intro p hp
  obtain ⟨c, -, rfl⟩ := List.mem_map.mp hp
  exact decide_eq_true c.valid

/-- Different texts have different encodings. -/
theorem encode?_injective {s t : PyStr} {data : Bytes} (hs : encode? s = some data)
    (ht : encode? t = some data) : s = t := by
  have hread : ∀ {text : PyStr}, encode? text = some data →
      (decode? data).map pyStr = some text := by
    intro text h
    rw [encode?] at h
    split at h
    · rename_i hall
      obtain rfl := Option.some.inj h
      rw [decode?_encode, Option.map_some, pyStr, List.map_map, Option.some.injEq]
      refine (List.map_congr_left fun p hp => ?_).trans (List.map_id text)
      have hvalid : Nat.isValidChar p.val := of_decide_eq_true (List.all_eq_true.mp hall p hp)
      apply Fin.ext
      simp only [Function.comp_apply, codePoint, id_eq, Char.toNat_ofNat, if_pos hvalid]
    · cases h
  exact Option.some.inj ((hread hs).symm.trans (hread ht))

/-! ## Transcripts -/

inductive Speaker
  | user
  | assistant
  deriving DecidableEq

def Speaker.text : Speaker → Str
  | .user => "user".toList
  | .assistant => "assistant".toList

/-- A turn, with its instant if it has a timestamp. -/
structure Turn where
  speaker : Speaker
  text : PyStr
  occurredAt : Option ℤ

/-- A turn without its time. -/
def Turn.key (turn : Turn) : Speaker × PyStr := (turn.speaker, turn.text)

/-- A transcript; its session is the name of its file, in which only a byte that is no UTF-8 is half of
a surrogate pair. -/
structure Transcript where
  sessionId : PyStr
  project : PyStr
  sourcePath : PyStr
  turns : List Turn

/-- `Transcript.occurred_at`: the first timestamp of a turn. -/
def Transcript.occurredAt (transcript : Transcript) : Option ℤ :=
  transcript.turns.findSome? Turn.occurredAt

def Transcript.keys (transcript : Transcript) : List (Speaker × PyStr) := transcript.turns.map Turn.key

/-- The order of the sort keys `(item.occurred_at is None, item.occurred_at, item.session_id)`. -/
def Transcript.notAfter (a b : Transcript) : Prop :=
  match a.occurredAt, b.occurredAt with
  | some s, some t => s < t ∨ s = t ∧ a.sessionId ≤ b.sessionId
  | some _, none => True
  | none, some _ => False
  | none, none => a.sessionId ≤ b.sessionId

instance : DecidableRel Transcript.notAfter := by
  intro a b
  rw [Transcript.notAfter]
  cases a.occurredAt <;> cases b.occurredAt <;> infer_instance

variable (sha256 : Bytes → Str)

/-! ## The conversion -/

/-- The digest of a turn, by what makes it the same turn. -/
def digestOf (key : Speaker × PyStr) : Option Str :=
  (encode? (pyStr (key.1.text ++ ['\n']) ++ key.2)).map sha256

/-- The loop of `_without_seen_turns`: the turns kept, and the digests seen afterwards. -/
def dropSeen (seen : List Str) : List Turn → Option (List Turn × List Str)
  | [] => some ([], seen)
  | turn :: turns => do
    let digest ← digestOf sha256 turn.key
    if digest ∈ seen then dropSeen seen turns
    else
      let (kept, seen) ← dropSeen (digest :: seen) turns
      some (turn :: kept, seen)

/-- `_without_seen_turns`, with the set it changes. -/
def withoutSeenTurns (transcript : Transcript) (seen : List Str) : Option (Transcript × List Str) := do
  let (kept, seen) ← dropSeen sha256 seen transcript.turns
  some ({ transcript with turns := kept }, seen)

/-- The variables of `convert`; a document is the transcript it renders. -/
structure Conversion where
  seen : List Str := []
  written : List PyStr := []
  documents : List (PyStr × Transcript) := []

/-- What a conversion leaves that raises: the documents, and the file that it was writing, which is
empty then. -/
structure Interrupted where
  documents : List (PyStr × Transcript)
  emptied : Option PyStr := none

/-- `f"{source}-{transcript.session_id}"`. -/
def stemOf (source : Str) (transcript : Transcript) : PyStr :=
  pyStr (source ++ ['-']) ++ transcript.sessionId

/-- `render_markdown(transcript)` can be encoded, if the texts of the turns can. -/
def bodyEncodes (transcript : Transcript) : Bool :=
  isEncodable transcript.project && isEncodable transcript.sessionId

/-- The values of `build_metadata(transcript)` can be encoded, if the body can. -/
def metadataEncodes (transcript : Transcript) : Bool := isEncodable transcript.sourcePath

/-- One turn of the loop over the candidates. -/
def convertOne (source : Str) (minTurns : ℤ) (state : Conversion) (transcript : Transcript) :
    Except Interrupted Conversion :=
  match withoutSeenTurns sha256 transcript state.seen with
  | none => .error { documents := state.documents }
  | some (transcript, seen) =>
    if (transcript.turns.length : ℤ) < minTurns then .ok { state with seen := seen }
    else
      let stem := stemOf source transcript
      if bodyEncodes transcript = false then
        .error { documents := state.documents.filter (fun document => decide (document.1 ≠ stem))
                 emptied := some stem }
      else if metadataEncodes transcript = false then
        .error { documents := Entries.set state.documents stem transcript }
      else .ok
        { seen := seen
          written := state.written ++ [stem]
          documents := Entries.set state.documents stem transcript }

/-- The loop over the candidates, up to the limit. -/
def convertAll (source : Str) (limit : Option ℤ) (minTurns : ℤ) :
    List Transcript → Conversion → Except Interrupted Conversion
  | [], state => .ok state
  | transcript :: transcripts, state =>
    if limit.any fun limit : ℤ => decide (limit ≤ (state.written.length : ℤ)) then .ok state
    else do
      let state ← convertOne sha256 source minTurns state transcript
      convertAll source limit minTurns transcripts state

/-- The candidates, oldest first. -/
def candidates (since : Option ℤ) (project : Option PyStr) (transcripts : List Transcript) :
    List Transcript :=
  (transcripts.filter fun transcript =>
    project.all (transcript.project = ·) &&
      since.all fun since => transcript.occurredAt.any fun started => decide (since ≤ started)).insertionSort
    Transcript.notAfter

/-- `convert` into an empty directory, from the transcripts that were read. -/
def convert (source : Str) (since : Option ℤ) (project : Option PyStr) (limit : Option ℤ)
    (minTurns : ℤ) (transcripts : List Transcript) : Except Interrupted Conversion :=
  convertAll sha256 source limit minTurns (candidates since project transcripts) {}

/-- The documents that a conversion leaves. -/
def documentsLeft : Except Interrupted Conversion → List (PyStr × Transcript)
  | .ok state => state.documents
  | .error interrupted => interrupted.documents

/-! ## What is kept -/

/-- The turns of several transcripts. -/
def keysOf (transcripts : List Transcript) : List (Speaker × PyStr) :=
  transcripts.flatMap Transcript.keys

/-- The turns of several documents. -/
def turnsOf (documents : List (PyStr × Transcript)) : List (Speaker × PyStr) :=
  documents.flatMap fun document => document.2.keys

/-- The turns of a transcript that no earlier one has. -/
def freshTurns (before : List Transcript) (transcript : Transcript) : Finset (Speaker × PyStr) :=
  transcript.keys.toFinset \ (keysOf before).toFinset

/-- A transcript is written if enough of its turns are new. -/
def IsWritten (minTurns : ℤ) (before : List Transcript) (transcript : Transcript) : Prop :=
  minTurns ≤ (freshTurns before transcript).card

instance {minTurns : ℤ} {before : List Transcript} {transcript : Transcript} :
    Decidable (IsWritten minTurns before transcript) :=
  inferInstanceAs (Decidable (minTurns ≤ ((freshTurns before transcript).card : ℤ)))

/-- The texts of a transcript can be encoded. -/
structure Transcript.Encodable (transcript : Transcript) : Prop where
  turns : ∀ turn ∈ transcript.turns, isEncodable turn.text = true
  body : bodyEncodes transcript = true
  metadata : metadataEncodes transcript = true

/-- Different turns have different digests. -/
def DigestsDiffer (transcripts : List Transcript) : Prop :=
  ∀ key ∈ keysOf transcripts, ∀ key' ∈ keysOf transcripts, ∀ digest,
    digestOf sha256 key = some digest → digestOf sha256 key' = some digest → key = key'

variable {sha256} {seen seen' : List Str} {turns kept : List Turn} {key : Speaker × PyStr}
  {before after transcripts : List Transcript} {transcript new : Transcript} {source : Str} {minTurns : ℤ}
  {state state' : Conversion} {documents : List (PyStr × Transcript)}

/-! ### Deduplication -/

theorem isSome_digestOf (key : Speaker × PyStr) : (digestOf sha256 key).isSome = isEncodable key.2 := by
  rw [digestOf, Option.isSome_map, encode?, isEncodable_append, isEncodable_pyStr, Bool.true_and]
  split
  · rename_i h
    rw [h]
    rfl
  · rename_i h
    rw [Bool.not_eq_true _ |>.mp h]
    rfl

theorem encodable_of_digestOf {turn : Turn} {digest : Str} (h : digestOf sha256 turn.key = some digest) :
    isEncodable turn.text = true := by
  have hsome : (digestOf sha256 turn.key).isSome = isEncodable turn.text := isSome_digestOf turn.key
  rw [h] at hsome
  exact hsome.symm

/-- What the loop over the turns has done. -/
structure Dropped (sha256 : Bytes → Str) (seen : List Str) (turns kept : List Turn) (seen' : List Str) :
    Prop where
  encodable : ∀ turn ∈ turns, isEncodable turn.text = true
  recorded : ∀ digest, digest ∈ seen' ↔ digest ∈ seen ∨ ∃ turn ∈ turns, digestOf sha256 turn.key = some digest
  fresh : ∀ digest, (∃ turn ∈ kept, digestOf sha256 turn.key = some digest) ↔
    digest ∉ seen ∧ ∃ turn ∈ turns, digestOf sha256 turn.key = some digest
  nodup : (kept.map fun turn => digestOf sha256 turn.key).Nodup
  sublist : kept.Sublist turns

/-- A turn that was seen. -/
theorem Dropped.skip {turn : Turn} {digest : Str} (h : Dropped sha256 seen turns kept seen')
    (hdigest : digestOf sha256 turn.key = some digest) (hmem : digest ∈ seen) :
    Dropped sha256 seen (turn :: turns) kept seen' where
  encodable := List.forall_mem_cons.mpr ⟨encodable_of_digestOf hdigest, h.encodable⟩
  recorded := by
    intro other
    rw [h.recorded, List.exists_mem_cons_iff, hdigest]
    constructor
    · exact fun h => h.imp id .inr
    · rintro (h | h | h)
      · exact .inl h
      · exact .inl (Option.some.inj h ▸ hmem)
      · exact .inr h
  fresh := by
    intro other
    rw [h.fresh, List.exists_mem_cons_iff, hdigest]
    constructor
    · exact fun h => ⟨h.1, .inr h.2⟩
    · rintro ⟨hnot, h | h⟩
      · exact absurd (Option.some.inj h ▸ hmem) hnot
      · exact ⟨hnot, h⟩
  nodup := h.nodup
  sublist := h.sublist.cons turn

/-- A turn that is new. -/
theorem Dropped.keep {turn : Turn} {digest : Str} (h : Dropped sha256 (digest :: seen) turns kept seen')
    (hdigest : digestOf sha256 turn.key = some digest) (hmem : digest ∉ seen) :
    Dropped sha256 seen (turn :: turns) (turn :: kept) seen' where
  encodable := List.forall_mem_cons.mpr ⟨encodable_of_digestOf hdigest, h.encodable⟩
  recorded := by
    intro other
    rw [h.recorded, List.mem_cons, List.exists_mem_cons_iff, hdigest, Option.some.injEq, or_assoc, or_left_comm,
      @eq_comm _ other digest]
  fresh := by
    intro other
    rw [List.exists_mem_cons_iff, h.fresh, List.mem_cons, List.exists_mem_cons_iff, hdigest,
      Option.some.injEq, not_or]
    constructor
    · rintro (rfl | ⟨⟨-, hnot⟩, h⟩)
      · exact ⟨hmem, .inl rfl⟩
      · exact ⟨hnot, .inr h⟩
    · rintro ⟨hnot, rfl | h⟩
      · exact .inl rfl
      · by_cases hother : other = digest
        · exact .inl hother.symm
        · exact .inr ⟨⟨hother, hnot⟩, h⟩
  nodup := by
    rw [List.map_cons, List.nodup_cons]
    refine ⟨fun hmem' => ?_, h.nodup⟩
    obtain ⟨other, hother, heq⟩ := List.mem_map.mp hmem'
    exact ((h.fresh digest).mp ⟨other, hother, heq.trans hdigest⟩).1 List.mem_cons_self
  sublist := h.sublist.cons_cons turn

theorem dropped_of_eq_some (h : dropSeen sha256 seen turns = some (kept, seen')) :
    Dropped sha256 seen turns kept seen' := by
  induction turns generalizing seen kept with
  | nil =>
      obtain ⟨rfl, rfl⟩ := Prod.mk.inj (Option.some.inj h)
      exact ⟨by simp, by simp, by simp, List.nodup_nil, List.Sublist.refl _⟩
  | cons turn turns ih =>
      obtain ⟨digest, hdigest, h⟩ := Option.bind_eq_some_iff.mp h
      split at h
      · rename_i hmem
        exact (ih h).skip hdigest hmem
      · rename_i hmem
        obtain ⟨⟨rest, seen''⟩, hrest, h⟩ := Option.bind_eq_some_iff.mp h
        obtain ⟨rfl, rfl⟩ := Prod.mk.inj (Option.some.inj h)
        exact (ih hrest).keep hdigest hmem

theorem dropSeen_of_encodable (h : ∀ turn ∈ turns, isEncodable turn.text = true) :
    ∃ kept seen', dropSeen sha256 seen turns = some (kept, seen') := by
  induction turns generalizing seen with
  | nil => exact ⟨[], seen, rfl⟩
  | cons turn turns ih =>
      rw [List.forall_mem_cons] at h
      have hsome : (digestOf sha256 turn.key).isSome = true := (isSome_digestOf turn.key).trans h.1
      obtain ⟨digest, hdigest⟩ := Option.isSome_iff_exists.mp hsome
      rw [dropSeen, hdigest]
      by_cases hmem : digest ∈ seen
      · obtain ⟨kept, seen', hrest⟩ : ∃ kept seen', dropSeen sha256 seen turns = some (kept, seen') := ih h.2
        exact ⟨kept, seen', (if_pos hmem).trans hrest⟩
      · obtain ⟨kept, seen', hrest⟩ : ∃ kept seen', dropSeen sha256 (digest :: seen) turns = some (kept, seen') :=
          ih h.2
        refine ⟨turn :: kept, seen', (if_neg hmem).trans ?_⟩
        rw [hrest]
        rfl

/-- A transcript without the turns that were seen. -/
structure Deduplicated (sha256 : Bytes → Str) (seen : List Str) (transcript new : Transcript)
    (seen' : List Str) : Prop where
  sessionId : new.sessionId = transcript.sessionId
  body : bodyEncodes new = bodyEncodes transcript
  metadata : metadataEncodes new = metadataEncodes transcript
  dropped : Dropped sha256 seen transcript.turns new.turns seen'

theorem deduplicated_of_eq_some (h : withoutSeenTurns sha256 transcript seen = some (new, seen')) :
    Deduplicated sha256 seen transcript new seen' := by
  obtain ⟨⟨kept, seen''⟩, hkept, h⟩ := Option.bind_eq_some_iff.mp h
  obtain ⟨rfl, rfl⟩ := Prod.mk.inj (Option.some.inj h)
  exact ⟨rfl, rfl, rfl, dropped_of_eq_some hkept⟩

theorem Deduplicated.keys_subset (h : Deduplicated sha256 seen transcript new seen') :
    ∀ key ∈ new.keys, key ∈ transcript.keys := by
  intro key hkey
  exact (h.dropped.sublist.map Turn.key).subset hkey

theorem Deduplicated.nodup (h : Deduplicated sha256 seen transcript new seen') :
    (new.keys.map (digestOf sha256)).Nodup := by
  rw [Transcript.keys, List.map_map]
  exact h.dropped.nodup

/-- The digests of the turns that are kept are new. -/
theorem Deduplicated.digests (h : Deduplicated sha256 seen transcript new seen') (digest : Str) :
    (∃ key ∈ new.keys, digestOf sha256 key = some digest) ↔
      digest ∉ seen ∧ ∃ key ∈ transcript.keys, digestOf sha256 key = some digest := by
  have hkept := h.dropped.fresh digest
  simp only [Transcript.keys, List.mem_map, exists_exists_and_eq_and]
  exact hkept

/-- A turn that is kept has a digest. -/
theorem Deduplicated.digest (h : Deduplicated sha256 seen transcript new seen') (hkey : key ∈ transcript.keys) :
    ∃ digest, digestOf sha256 key = some digest := by
  obtain ⟨turn, hturn, rfl⟩ := List.mem_map.mp hkey
  exact Option.isSome_iff_exists.mp ((isSome_digestOf turn.key).trans (h.dropped.encodable turn hturn))

theorem mem_keysOf : key ∈ keysOf transcripts ↔
    ∃ transcript ∈ transcripts, ∃ turn ∈ transcript.turns, turn.key = key := by
  simp [keysOf, Transcript.keys]

theorem mem_keysOf_append : key ∈ keysOf (before ++ [transcript]) ↔
    key ∈ keysOf before ∨ key ∈ transcript.keys := by
  simp [keysOf]

/-! ### The loop -/

/-- The documents after the transcripts `before`: each is long enough, and no turn is in them twice. -/
structure Kept (sha256 : Bytes → Str) (minTurns : ℤ) (before : List Transcript)
    (documents : List (PyStr × Transcript)) : Prop where
  long : ∀ document ∈ documents, minTurns ≤ document.2.turns.length
  nodup : ((turnsOf documents).map (digestOf sha256)).Nodup
  within : ∀ key ∈ turnsOf documents, key ∈ keysOf before

/-- What holds after the transcripts `before`: what was seen are their turns. -/
structure Converted (sha256 : Bytes → Str) (minTurns : ℤ) (before : List Transcript)
    (state : Conversion) : Prop where
  seen : ∀ digest, digest ∈ state.seen ↔ ∃ key ∈ keysOf before, digestOf sha256 key = some digest
  kept : Kept sha256 minTurns before state.documents

theorem Kept.sublist {fewer : List (PyStr × Transcript)} (h : Kept sha256 minTurns before documents)
    (hfewer : fewer.Sublist documents) : Kept sha256 minTurns before fewer := by
  have hturns : (turnsOf fewer).Sublist (turnsOf documents) := hfewer.flatMap _
  exact ⟨fun document hmem => h.long document (hfewer.subset hmem), (hturns.map _).nodup h.nodup,
    fun key hkey => h.within key (hturns.subset hkey)⟩

theorem Kept.grow (h : Kept sha256 minTurns before documents) (transcript : Transcript) :
    Kept sha256 minTurns (before ++ [transcript]) documents :=
  ⟨h.long, h.nodup, fun key hkey => (mem_keysOf_append).mpr (.inl (h.within key hkey))⟩

/-- Setting a document leaves a part of the others beside it. -/
theorem turns_set_perm (documents : List (PyStr × Transcript)) (stem : PyStr) (new : Transcript) :
    ∃ others : List (PyStr × Transcript), others.Sublist documents ∧
      (turnsOf (Entries.set documents stem new)).Perm (new.keys ++ turnsOf others) := by
  obtain ⟨left, right, hset, hsublist⟩ := Entries.set_eq_append documents stem new
  refine ⟨left ++ right, hsublist, ?_⟩
  rw [hset]
  exact List.perm_middle.flatMap_right _

/-- **A transcript is written**. -/
theorem Converted.set (h : Converted sha256 minTurns before state)
    (hnew : Deduplicated sha256 state.seen transcript new seen') (hlong : minTurns ≤ new.turns.length)
    (stem : PyStr) : Kept sha256 minTurns (before ++ [transcript]) (Entries.set state.documents stem new) := by
  obtain ⟨others, hsublist, hperm⟩ := turns_set_perm state.documents stem new
  have hothers := h.kept.sublist hsublist
  refine ⟨?_, ?_, ?_⟩
  · intro document hdocument
    rcases Entries.mem_set hdocument with rfl | hdocument
    · exact hlong
    · exact h.kept.long document hdocument
  · rw [(hperm.map _).nodup_iff, List.map_append, List.nodup_append']
    refine ⟨hnew.nodup, hothers.nodup, ?_⟩
    intro digest? hmem hother
    obtain ⟨key, hkey, rfl⟩ := List.mem_map.mp hmem
    obtain ⟨digest, hdigest⟩ := hnew.digest (hnew.keys_subset key hkey)
    obtain ⟨other, hotherKey, heq⟩ := List.mem_map.mp hother
    have hunseen := ((hnew.digests digest).mp ⟨key, hkey, hdigest⟩).1
    exact hunseen ((h.seen digest).mpr ⟨other, hothers.within other hotherKey, heq.trans hdigest⟩)
  · intro key hkey
    rcases List.mem_append.mp (hperm.mem_iff.mp hkey) with hmem | hother
    · exact (mem_keysOf_append).mpr (.inr (hnew.keys_subset key hmem))
    · exact (mem_keysOf_append).mpr (.inl (hothers.within key hother))

theorem Converted.seen_append (h : Converted sha256 minTurns before state)
    (hnew : Deduplicated sha256 state.seen transcript new seen') (digest : Str) :
    digest ∈ seen' ↔ ∃ key ∈ keysOf (before ++ [transcript]), digestOf sha256 key = some digest := by
  rw [hnew.dropped.recorded, h.seen]
  simp only [mem_keysOf_append, or_and_right, exists_or, Transcript.keys, List.mem_map,
    exists_exists_and_eq_and]

/-- The ways one turn of the loop ends. -/
inductive Outcome (sha256 : Bytes → Str) (source : Str) (minTurns : ℤ) (state : Conversion)
    (transcript : Transcript) : Except Interrupted Conversion → Prop
  | undigested : Outcome sha256 source minTurns state transcript (.error { documents := state.documents })
  | short (new : Transcript) (seen : List Str) (dedup : Deduplicated sha256 state.seen transcript new seen)
      (short : (new.turns.length : ℤ) < minTurns) :
      Outcome sha256 source minTurns state transcript (.ok { state with seen := seen })
  | unencoded (stem : PyStr) : Outcome sha256 source minTurns state transcript
      (.error ⟨state.documents.filter (fun document => decide (document.1 ≠ stem)), some stem⟩)
  | undescribed (new : Transcript) (seen : List Str) (dedup : Deduplicated sha256 state.seen transcript new seen)
      (long : minTurns ≤ new.turns.length) (stem : PyStr) : Outcome sha256 source minTurns state transcript
      (.error { documents := Entries.set state.documents stem new })
  | written (new : Transcript) (seen : List Str) (dedup : Deduplicated sha256 state.seen transcript new seen)
      (long : minTurns ≤ new.turns.length) : Outcome sha256 source minTurns state transcript
      (.ok ⟨seen, state.written ++ [stemOf source transcript],
        Entries.set state.documents (stemOf source transcript) new⟩)

theorem outcome_convertOne (sha256 : Bytes → Str) (source : Str) (minTurns : ℤ) (state : Conversion)
    (transcript : Transcript) :
    Outcome sha256 source minTurns state transcript (convertOne sha256 source minTurns state transcript) := by
  rw [convertOne]
  split
  · exact .undigested
  · rename_i new seen hnew
    have hdedup := deduplicated_of_eq_some hnew
    have hstem : stemOf source new = stemOf source transcript := by
      rw [stemOf, stemOf, hdedup.sessionId]
    split
    · rename_i hshort
      exact .short new seen hdedup hshort
    · rename_i hlong
      dsimp only
      split
      · exact .unencoded _
      · split
        · exact .undescribed new seen hdedup (not_lt.mp hlong) _
        · rw [hstem]
          exact .written new seen hdedup (not_lt.mp hlong)

theorem Converted.one (h : Converted sha256 minTurns before state)
    (hone : convertOne sha256 source minTurns state transcript = .ok state') :
    Converted sha256 minTurns (before ++ [transcript]) state' := by
  have houtcome := outcome_convertOne sha256 source minTurns state transcript
  rw [hone] at houtcome
  cases houtcome with
  | short new seen dedup short => exact ⟨h.seen_append dedup, h.kept.grow transcript⟩
  | written new seen dedup long => exact ⟨h.seen_append dedup, h.set dedup long _⟩

/-- A conversion that raises leaves documents of the same kind. -/
theorem Converted.interrupted {interrupted : Interrupted} (h : Converted sha256 minTurns before state)
    (hone : convertOne sha256 source minTurns state transcript = .error interrupted) :
    Kept sha256 minTurns (before ++ [transcript]) interrupted.documents := by
  have houtcome := outcome_convertOne sha256 source minTurns state transcript
  rw [hone] at houtcome
  cases houtcome with
  | undigested => exact h.kept.grow transcript
  | unencoded stem => exact (h.kept.sublist List.filter_sublist).grow transcript
  | undescribed new seen dedup long stem => exact h.set dedup long stem

theorem converted_nil : Converted sha256 minTurns [] {} where
  seen := by simp [keysOf]
  kept := ⟨by simp, by simp [turnsOf], by simp [turnsOf]⟩

theorem convertAll_cons (state : Conversion) :
    convertAll sha256 source none minTurns (transcript :: after) state =
      convertOne sha256 source minTurns state transcript >>= convertAll sha256 source none minTurns after :=
  rfl

/-- **The loop over the candidates**, without a limit. -/
theorem Converted.all (h : Converted sha256 minTurns before state) :
    (∀ state', convertAll sha256 source none minTurns after state = .ok state' →
      Converted sha256 minTurns (before ++ after) state') ∧
    ∃ read, Kept sha256 minTurns read
      (documentsLeft (convertAll sha256 source none minTurns after state)) := by
  induction after generalizing before state with
  | nil =>
      refine ⟨fun state' hstate => ?_, before, h.kept⟩
      obtain rfl := Except.ok.inj hstate
      rwa [List.append_nil]
  | cons transcript after ih =>
      rw [convertAll_cons]
      cases hone : convertOne sha256 source minTurns state transcript with
      | error interrupted =>
          refine ⟨fun state' hstate => ?_, before ++ [transcript], h.interrupted hone⟩
          cases hstate
      | ok next =>
          obtain ⟨hok, hleft⟩ := ih (h.one hone)
          rw [List.append_assoc] at hok
          exact ⟨hok, hleft⟩

/-- A conversion of texts that can be encoded does not raise. -/
theorem convertOne_of_encodable (h : transcript.Encodable) :
    ∃ state', convertOne sha256 source minTurns state transcript = .ok state' := by
  obtain ⟨kept, seen, hkept⟩ : ∃ kept seen, dropSeen sha256 state.seen transcript.turns = some (kept, seen) :=
    dropSeen_of_encodable h.turns
  have hnew : withoutSeenTurns sha256 transcript state.seen = some ({ transcript with turns := kept }, seen) := by
    rw [withoutSeenTurns, hkept]
    rfl
  have hbody : bodyEncodes { transcript with turns := kept } = true := h.body
  have hmetadata : metadataEncodes { transcript with turns := kept } = true := h.metadata
  rw [convertOne, hnew]
  dsimp only
  rw [hbody, hmetadata]
  split
  · exact ⟨_, rfl⟩
  · exact ⟨_, rfl⟩

theorem convertAll_of_encodable (h : ∀ transcript ∈ after, transcript.Encodable) :
    ∃ state', convertAll sha256 source none minTurns after state = .ok state' := by
  induction after generalizing state with
  | nil => exact ⟨state, rfl⟩
  | cons transcript after ih =>
      rw [List.forall_mem_cons] at h
      obtain ⟨next, hone⟩ := @convertOne_of_encodable sha256 transcript source minTurns state h.1
      rw [convertAll_cons, hone]
      exact ih h.2

/-! ### The turns that are kept -/

theorem keysOf_subset {others : List Transcript} (h : ∀ transcript ∈ others, transcript ∈ transcripts) :
    ∀ key ∈ keysOf others, key ∈ keysOf transcripts := by
  intro key hkey
  obtain ⟨transcript, hmem, hturn⟩ := mem_keysOf.mp hkey
  exact mem_keysOf.mpr ⟨transcript, h transcript hmem, hturn⟩

theorem DigestsDiffer.mono {others : List Transcript} (hdigest : DigestsDiffer sha256 transcripts)
    (h : ∀ transcript ∈ others, transcript ∈ transcripts) : DigestsDiffer sha256 others :=
  fun key hkey key' hkey' =>
    hdigest key (keysOf_subset h key hkey) key' (keysOf_subset h key' hkey')

/-- A transcript keeps its turns that no earlier one has. -/
theorem Converted.mem_keys (h : Converted sha256 minTurns before state)
    (hnew : Deduplicated sha256 state.seen transcript new seen')
    (hdigest : DigestsDiffer sha256 (before ++ [transcript])) :
    key ∈ new.keys ↔ key ∈ transcript.keys ∧ key ∉ keysOf before := by
  constructor
  · intro hkey
    have hown := hnew.keys_subset key hkey
    obtain ⟨digest, hsome⟩ := hnew.digest hown
    have hunseen := ((hnew.digests digest).mp ⟨key, hkey, hsome⟩).1
    exact ⟨hown, fun hold => hunseen ((h.seen digest).mpr ⟨key, hold, hsome⟩)⟩
  · rintro ⟨hkey, hnot⟩
    obtain ⟨digest, hsome⟩ := hnew.digest hkey
    have hunseen : digest ∉ state.seen := by
      intro hseen
      obtain ⟨key', hold, heq⟩ := (h.seen digest).mp hseen
      have hsame := hdigest key' ((mem_keysOf_append).mpr (.inl hold)) key
        ((mem_keysOf_append).mpr (.inr hkey)) digest heq hsome
      exact hnot (hsame ▸ hold)
    obtain ⟨key', hkept, heq⟩ := (hnew.digests digest).mpr ⟨hunseen, key, hkey, hsome⟩
    have hsame := hdigest key' ((mem_keysOf_append).mpr (.inr (hnew.keys_subset key' hkept))) key
      ((mem_keysOf_append).mpr (.inr hkey)) digest heq hsome
    exact hsame ▸ hkept

theorem Converted.length_turns (h : Converted sha256 minTurns before state)
    (hnew : Deduplicated sha256 state.seen transcript new seen')
    (hdigest : DigestsDiffer sha256 (before ++ [transcript])) :
    new.turns.length = (freshTurns before transcript).card := by
  have hnodup : new.keys.Nodup := hnew.nodup.of_map
  have hfresh : new.keys.toFinset = freshTurns before transcript := by
    ext key
    rw [List.mem_toFinset, h.mem_keys hnew hdigest, freshTurns]
    simp
  rw [← hfresh, List.toFinset_card_of_nodup hnodup, Transcript.keys, List.length_map]

theorem DigestsDiffer.first {later : Transcript} (hdigest : DigestsDiffer sha256 (before ++ later :: after)) :
    DigestsDiffer sha256 (before ++ [later]) :=
  hdigest.mono fun transcript hmem => by
    rw [List.mem_append, List.mem_singleton] at hmem
    rw [List.mem_append, List.mem_cons]
    exact hmem.imp id .inl

/-- A document stays unless a later transcript of the same session is written. -/
theorem Converted.lookup_all {stem : PyStr} {document : Transcript}
    (h : Converted sha256 minTurns before state) (hdigest : DigestsDiffer sha256 (before ++ after))
    (hlookup : state.documents.lookup stem = some document)
    (hlater : ∀ mid later rest, after = mid ++ later :: rest → stemOf source later = stem →
      ¬ IsWritten minTurns (before ++ mid) later)
    (hall : convertAll sha256 source none minTurns after state = .ok state') :
    state'.documents.lookup stem = some document := by
  induction after generalizing before state with
  | nil =>
      obtain rfl := Except.ok.inj hall
      exact hlookup
  | cons later after ih =>
      rw [convertAll_cons] at hall
      cases hone : convertOne sha256 source minTurns state later with
      | error interrupted =>
          rw [hone] at hall
          cases hall
      | ok next =>
          rw [hone] at hall
          refine ih (h.one hone) ?_ ?_ ?_ hall
          · rwa [List.append_assoc, List.singleton_append]
          · have houtcome := outcome_convertOne sha256 source minTurns state later
            rw [hone] at houtcome
            cases houtcome with
            | short new seen dedup short => exact hlookup
            | written new seen dedup long =>
                have hwritten : IsWritten minTurns before later := by
                  rw [IsWritten, ← h.length_turns dedup hdigest.first]
                  exact long
                have hne : stemOf source later ≠ stem := fun heq =>
                  hlater [] later after rfl heq (by rwa [List.append_nil])
                rw [Entries.lookup_set, if_neg hne.symm]
                exact hlookup
          · intro mid later' rest hsplit heq
            rw [List.append_assoc, List.singleton_append]
            exact hlater (later :: mid) later' rest (by rw [hsplit]; rfl) heq

theorem convertAll_append_ok (h : convertAll sha256 source none minTurns (before ++ after) state = .ok state') :
    ∃ mid, convertAll sha256 source none minTurns before state = .ok mid ∧
      convertAll sha256 source none minTurns after mid = .ok state' := by
  induction before generalizing state with
  | nil => exact ⟨state, rfl, h⟩
  | cons first before ih =>
      rw [List.cons_append, convertAll_cons] at h
      rw [convertAll_cons]
      cases hone : convertOne sha256 source minTurns state first with
      | error interrupted =>
          rw [hone] at h
          cases h
      | ok next =>
          rw [hone] at h
          exact ih h

/-- A new turn of a transcript that is written, and not written over, is in the documents once. -/
theorem count_convertAll (hdigest : DigestsDiffer sha256 (before ++ transcript :: after))
    (hwritten : IsWritten minTurns before transcript)
    (hlater : ∀ mid later rest, after = mid ++ later :: rest →
      later.sessionId = transcript.sessionId →
        ¬ IsWritten minTurns (before ++ transcript :: mid) later)
    (hkey : key ∈ transcript.keys) (hnot : key ∉ keysOf before)
    (hall : convertAll sha256 source none minTurns (before ++ transcript :: after) {} = .ok state') :
    (turnsOf state'.documents).count key = 1 := by
  have hfinal : Converted sha256 minTurns ([] ++ (before ++ transcript :: after)) state' :=
    converted_nil.all.1 state' hall
  obtain ⟨mid, hbefore, hrest⟩ := convertAll_append_ok hall
  have hmid : Converted sha256 minTurns ([] ++ before) mid := converted_nil.all.1 mid hbefore
  rw [List.nil_append] at hmid
  rw [convertAll_cons] at hrest
  cases hone : convertOne sha256 source minTurns mid transcript with
  | error interrupted =>
      rw [hone] at hrest
      cases hrest
  | ok next =>
      rw [hone] at hrest
      have hnext := hmid.one hone
      have houtcome := outcome_convertOne sha256 source minTurns mid transcript
      rw [hone] at houtcome
      cases houtcome with
      | short new seen dedup short =>
          rw [hmid.length_turns dedup hdigest.first] at short
          exact absurd hwritten (not_le.mpr short)
      | written new seen dedup long =>
          have hlookup : state'.documents.lookup (stemOf source transcript) = some new := by
            refine hnext.lookup_all ?_ ?_ ?_ hrest
            · rwa [List.append_assoc, List.singleton_append]
            · rw [Entries.lookup_set, if_pos rfl]
            · intro between later rest hsplit heq
              rw [List.append_assoc, List.singleton_append]
              exact hlater between later rest hsplit (List.append_cancel_left heq)
          obtain ⟨earlier, others, hdocuments, -⟩ := List.lookup_eq_some_iff.mp hlookup
          have hmem : key ∈ turnsOf state'.documents := by
            refine List.mem_flatMap.mpr ⟨_, hdocuments ▸ List.mem_append_right _ List.mem_cons_self, ?_⟩
            exact (hmid.mem_keys dedup hdigest.first).mpr ⟨hkey, hnot⟩
          exact List.count_eq_one_of_mem hfinal.kept.nodup.of_map hmem

/-- The text a digest is taken of determines the speaker and the text of the turn. -/
theorem digestsDiffer_of_injective (h : Function.Injective sha256) (transcripts : List Transcript) :
    DigestsDiffer sha256 transcripts := by
  intro key _ key' _ digest hdigest hdigest'
  obtain ⟨data, hdata, rfl⟩ := Option.map_eq_some_iff.mp hdigest
  obtain ⟨data', hdata', heq⟩ := Option.map_eq_some_iff.mp hdigest'
  obtain rfl := h heq
  have htext := encode?_injective hdata hdata'
  have hhead := congrArg List.head? htext
  obtain ⟨speaker, text⟩ := key
  obtain ⟨speaker', text'⟩ := key'
  cases speaker with
  | user =>
      cases speaker' with
      | user =>
          obtain rfl : text = text' := List.append_cancel_left htext
          rfl
      | assistant =>
          change some (codePoint 'u') = some (codePoint 'a') at hhead
          exact absurd hhead (by decide)
  | assistant =>
      cases speaker' with
      | user =>
          change some (codePoint 'a') = some (codePoint 'u') at hhead
          exact absurd hhead (by decide)
      | assistant =>
          obtain rfl : text = text' := List.append_cancel_left htext
          rfl

/-- A digest that spells its bytes. -/
def spelled (data : Bytes) : Str := data.map fun b => Char.ofNat b.toNat

theorem spelled_injective : Function.Injective spelled := by
  refine List.map_injective_iff.mpr fun b b' h => ?_
  have hcode := congrArg Char.toNat h
  rwa [Char.toNat_ofNat, Char.toNat_ofNat, if_pos (.inl (by have := b.toNat_lt; omega)),
    if_pos (.inl (by have := b'.toNat_lt; omega)), UInt8.toNat_inj] at hcode

/-- A turn of the user with one letter. -/
def letterTurn (instant : ℤ) (c : Char) : Turn := ⟨.user, pyStr [c], some instant⟩

def letterTranscript (sessionId : Str) (letters : List Char) (instant : ℤ) : Transcript where
  sessionId := pyStr sessionId
  project := pyStr "proj".toList
  sourcePath := pyStr "proj/session.jsonl".toList
  turns := letters.map (letterTurn instant)

theorem encodable_letterTranscript (sessionId : Str) (letters : List Char) (instant : ℤ) :
    (letterTranscript sessionId letters instant).Encodable where
  turns := by
    intro turn hturn
    obtain ⟨c, -, rfl⟩ := List.mem_map.mp hturn
    exact isEncodable_pyStr [c]
  body := by
    rw [bodyEncodes, letterTranscript, isEncodable_pyStr, isEncodable_pyStr]
    rfl
  metadata := isEncodable_pyStr _

/-- A session of four turns, and one that resumes it and adds a turn. -/
def resumed : List Transcript :=
  [letterTranscript "first".toList ['a', 'b', 'c', 'd'] 0,
    letterTranscript "second".toList ['a', 'b', 'c', 'd', 'e'] 1]

theorem encodable_resumed : ∀ transcript ∈ candidates none none resumed, transcript.Encodable := by
  intro transcript hmem
  rw [candidates, List.mem_insertionSort] at hmem
  simp only [resumed, List.mem_filter, List.mem_cons, List.not_mem_nil, or_false] at hmem
  rcases hmem.1 with rfl | rfl
  · exact encodable_letterTranscript _ _ _
  · exact encodable_letterTranscript _ _ _

/-- A session with half of a surrogate pair in its second turn. -/
def surrogateTranscript : Transcript :=
  { letterTranscript "third".toList ['a', 'b', 'c', 'd'] 0 with
    turns := [letterTurn 0 'a', ⟨.user, [⟨0xd83d, by decide⟩], some 0⟩, letterTurn 0 'c', letterTurn 0 'd'] }

end VeloxRag.ChatTranscripts
