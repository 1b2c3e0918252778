import VeloxRag.Ingestion.Manifest
import VeloxRag.Ingestion.Parsers
import VeloxRag.Ingestion.Pipeline
import VeloxRag.ObjectStore.PublicationSafety

/-!
# Attempts of the artifact stages

The parse and the chunk stage build an artifact, publish it under the final key of the version and
commit its checksum.  An attempt may end anywhere in between, and the next one builds and publishes
again.  What the parse stage builds depends on the source only; what the chunk stage builds depends
on the chunk sizes too, which come from the settings of the worker until a commit has recorded them.

## Main definitions

* `ArtifactStage`, `ArtifactStage.build` — the stages and what an attempt publishes.
* `StageState`, `StageState.step` — the final key, the attempts and the row of the version.
* `StageState.compatible` — the condition on a step.
* `artifact_rerun` — no attempt meets a conflict, and a commit names the object that is stored.
-/

namespace VeloxRag.ObjectStore

open Lib

variable {κ : Type*} {s s' : FinalKey κ} {p q : Publication κ} {t : ℕ} {c : κ} {stat : Option κ}
  {event : PublishEvent κ}

/-! ## What other publications may meet -/

/-- The request has neither returned nor raised, or its copy may still make the object. -/
def Publication.standing (p : Publication κ) : Bool :=
  match p.phase, p.copy with
  | _, .running => true
  | .returned _, _ | .raised _, _ => false
  | _, _ => true

/-- The request has found the object, and is going to return it unless it is interrupted. -/
def Publication.relies (p : Publication κ) : Bool :=
  match p.phase with
  | .headed (some _) | .verified (some _) | .reheaded (some _) | .returning _ | .returned _ => true
  | _ => false

/-- What the request has read of the object. -/
def Publication.read (p : Publication κ) : Option κ :=
  match p.phase with
  | .headed stat | .verified stat | .reheaded stat => stat
  | _ => none

theorem Publication.standing_iff : p.standing = true ↔ p.copy = .running ∨
    (∀ reused, p.phase ≠ .returned reused) ∧ ∀ error, p.phase ≠ .raised error := by
  rw [Publication.standing]
  split
  · rename_i hcopy
    exact iff_of_true rfl (.inl hcopy)
  · rename_i reused hphase hcopy
    exact iff_of_false nofun (not_or.mpr ⟨hcopy, fun h => h.1 reused hphase⟩)
  · rename_i error hphase hcopy
    exact iff_of_false nofun (not_or.mpr ⟨hcopy, fun h => h.2 error hphase⟩)
  · rename_i hreturned hraised _
    exact iff_of_true rfl (.inr ⟨hreturned, hraised⟩)

theorem Publication.standing_of_phase {phase : PublishPhase κ} (hp : p.phase = phase)
    (hreturned : ∀ reused, phase ≠ .returned reused) (hraised : ∀ error, phase ≠ .raised error) :
    p.standing = true := by
  apply Publication.standing_iff.mpr
  rw [hp]
  exact .inr ⟨hreturned, hraised⟩

/-- The request that is answered is under way. -/
theorem Publication.answer_cases {phase : PublishPhase κ} (h : p.answer stat = some phase) :
    p.standing = true ∧
      (phase = .headed stat ∨ phase = .verified stat ∨ phase = .reheaded stat) := by
  unfold Publication.answer at h
  split at h <;> cases h <;> rename_i hphase
  · exact ⟨Publication.standing_of_phase hphase nofun nofun, .inl rfl⟩
  · exact ⟨Publication.standing_of_phase hphase nofun nofun, .inr (.inl rfl)⟩
  · exact ⟨Publication.standing_of_phase hphase nofun nofun, .inr (.inr rfl)⟩

variable [DecidableEq κ]

/-- What an event does to a publication, by the part of it that changes. -/
inductive Progress (p : Publication κ) (stat : Option κ) (event : PublishEvent κ) :
    Publication κ → Prop
  | answered (phase : PublishPhase κ) (hanswer : p.answer stat = some phase) :
      Progress p stat event (p.setPhase phase)
  | resumed (phase : PublishPhase κ) (hresume : p.resume = some phase) :
      Progress p stat event (p.setPhase phase)
  | interrupted (t : ℕ) (error : PublishError) (hevent : event = .interrupted t error) :
      Progress p stat event (p.setPhase (.raised error))
  | admitted (hphase : p.phase = .admitting) :
      Progress p stat event ((p.setPhase .copying).setCopy .running)
  | copied (copy : CopyPhase) (hcopy : copy ≠ .running) : Progress p stat event (p.setCopy copy)
  | abandoned (error : PublishError) (byClose : Bool) (herror : error ≠ .artifactChecksumConflict) :
      Progress p stat event (p.abandon error byClose)
  | cleaned (cleanup : CleanupPhase) : Progress p stat event (p.setCleanup cleanup)

theorem progress_of_advance (h : p.advance stat event = some q) : Progress p stat event q := by
  cases event <;> dsimp only [Publication.advance] at h
  case statRead t =>
    obtain ⟨phase, hphase, rfl⟩ := Option.map_eq_some_iff.mp h
    exact .answered phase hphase
  case resumed t =>
    obtain ⟨phase, hphase, rfl⟩ := Option.map_eq_some_iff.mp h
    exact .resumed phase hphase
  case interrupted t error =>
    split at h <;> cases h
    exact .interrupted t error rfl
  case copyAdmitted t =>
    split at h <;> cases h
    rename_i hphase
    exact .admitted hphase
  case copyReturned t | copyRefused t =>
    split at h <;> cases h
    exact .copied _ nofun
  case copyFailed t sourceChanged =>
    split at h <;> cases h <;> exact .copied _ nofun
  case timedOut t byClose =>
    split at h <;> cases h <;> exact .abandoned _ _ nofun
  case cancelled t byClose =>
    split at h <;> cases h
    exact .abandoned _ _ nofun
  case finalized t =>
    split at h
    · split at h <;> cases h <;> exact .cleaned _
    · cases h
  case finalizerStopped t | deleteFailed t =>
    split at h <;> cases h
    exact .cleaned _
  all_goals cases h

/-- The request that goes on is under way. -/
theorem Publication.resume_cases {phase : PublishPhase κ} (h : p.resume = some phase) :
    p.standing = true ∧ (∀ stat, phase ≠ .headed stat ∧ phase ≠ .verified stat ∧
      phase ≠ .reheaded stat) ∧
      (phase = .raised .artifactChecksumConflict → ∃ c, p.read = some c ∧ c ≠ p.content) ∧
      ((∃ reused, phase = .returning reused ∨ phase = .returned reused) → p.relies = true) := by
  unfold Publication.resume at h
  split at h
  case h_2 stat hphase | h_7 stat hphase =>
    refine ⟨Publication.standing_of_phase hphase nofun nofun, ?_⟩
    rw [Publication.read, Publication.relies, hphase]
    unfold Publication.reuseOrConflict at h
    split at h <;> cases h
    · exact ⟨fun _ => ⟨nofun, nofun, nofun⟩, nofun, fun _ => rfl⟩
    · rename_i hne
      exact ⟨fun _ => ⟨nofun, nofun, nofun⟩, fun _ => ⟨stat, rfl, hne⟩, fun _ => rfl⟩
  case h_3 hphase =>
    refine ⟨Publication.standing_of_phase hphase nofun nofun, ?_⟩
    split at h <;> cases h <;>
      exact ⟨fun _ => ⟨nofun, nofun, nofun⟩, nofun, fun ⟨_, h⟩ => by rcases h with h | h <;> cases h⟩
  case h_5 stat hphase =>
    refine ⟨Publication.standing_of_phase hphase nofun nofun, ?_⟩
    rw [Publication.relies, hphase]
    split at h <;> cases h <;>
      exact ⟨fun _ => ⟨nofun, nofun, nofun⟩, nofun, fun _ => rfl⟩
  case h_8 reused hphase =>
    refine ⟨Publication.standing_of_phase hphase nofun nofun, ?_⟩
    rw [Publication.relies, hphase]
    cases h
    exact ⟨fun _ => ⟨nofun, nofun, nofun⟩, nofun, fun _ => rfl⟩
  case h_1 hphase | h_4 hphase | h_6 hphase =>
    refine ⟨Publication.standing_of_phase hphase nofun nofun, ?_⟩
    cases h
    exact ⟨fun _ => ⟨nofun, nofun, nofun⟩, nofun, fun ⟨_, h⟩ => by rcases h with h | h <;> cases h⟩
  all_goals cases h

namespace Progress

theorem content (h : Progress p stat event q) : q.content = p.content := by
  cases h with
  | abandoned error byClose => cases byClose <;> rfl
  | _ => rfl

theorem standing (h : Progress p stat event q) (hq : q.standing = true) : p.standing = true := by
  cases h with
  | answered phase hanswer => exact (Publication.answer_cases hanswer).1
  | resumed phase hresume => exact (Publication.resume_cases hresume).1
  | interrupted t error =>
    have hcopy := (Publication.standing_iff.mp hq).resolve_right fun h => h.2 error rfl
    exact Publication.standing_iff.mpr (.inl hcopy)
  | admitted hphase => exact Publication.standing_of_phase hphase nofun nofun
  | copied copy hcopy =>
    exact Publication.standing_iff.mpr (.inr ((Publication.standing_iff.mp hq).resolve_left hcopy))
  | abandoned error byClose =>
    apply Publication.standing_iff.mpr
    left
    cases byClose with
    | true => exact (Publication.standing_iff.mp hq).resolve_right fun h => h.2 error rfl
    | false => exact (Publication.standing_iff.mp hq).resolve_right fun h => h.2 error rfl
  | cleaned cleanup => exact hq

/-- What a request has read, it had read before, or it reads it now. -/
theorem read (h : Progress p stat event q) {c : κ} (hq : q.read = some c) :
    p.read = some c ∨ stat = some c ∧ p.standing = true := by
  cases h with
  | answered phase hanswer =>
    obtain ⟨hstanding, rfl | rfl | rfl⟩ := Publication.answer_cases hanswer <;>
      exact .inr ⟨hq, hstanding⟩
  | resumed phase hresume =>
    have hphase := (Publication.resume_cases hresume).2.1
    exfalso
    rw [Publication.read] at hq
    split at hq
    · rename_i hread
      exact (hphase _).1 hread
    · rename_i hread
      exact (hphase _).2.1 hread
    · rename_i hread
      exact (hphase _).2.2 hread
    · cases hq
  | interrupted => cases hq
  | admitted => cases hq
  | copied => exact .inl hq
  | abandoned error byClose => cases byClose <;> cases hq
  | cleaned => exact .inl hq

/-- A conflict comes from what the request has read. -/
theorem conflict (h : Progress p stat event q) (hq : q.phase = .raised .artifactChecksumConflict) :
    p.phase = .raised .artifactChecksumConflict ∨
      (∃ t, event = .interrupted t .artifactChecksumConflict) ∨
      ∃ c, p.read = some c ∧ c ≠ p.content := by
  cases h with
  | answered phase hanswer =>
    obtain ⟨-, rfl | rfl | rfl⟩ := Publication.answer_cases hanswer <;> cases hq
  | resumed phase hresume => exact .inr (.inr ((Publication.resume_cases hresume).2.2.1 hq))
  | interrupted t error hevent =>
    cases hq
    exact .inr (.inl ⟨t, hevent⟩)
  | admitted => cases hq
  | copied => exact .inl hq
  | abandoned error byClose herror =>
    exfalso
    cases byClose <;> exact herror (by cases hq; rfl)
  | cleaned => exact .inl hq

/-- A request that relies on the object relied on it before, or finds it now. -/
theorem relies (h : Progress p stat event q) (hq : q.relies = true) :
    p.relies = true ∨ ∃ c, stat = some c ∧ p.standing = true := by
  cases h with
  | answered phase hanswer =>
    obtain ⟨hstanding, rfl | rfl | rfl⟩ := Publication.answer_cases hanswer <;>
    · cases stat with
      | none => cases hq
      | some c => exact .inr ⟨c, rfl, hstanding⟩
  | resumed phase hresume =>
    obtain ⟨-, hphase, -, hrelies⟩ := Publication.resume_cases hresume
    left
    apply hrelies
    rw [Publication.relies] at hq
    split at hq
    · rename_i hread
      exact absurd hread (hphase _).1
    · rename_i hread
      exact absurd hread (hphase _).2.1
    · rename_i hread
      exact absurd hread (hphase _).2.2
    · rename_i reused hread
      exact ⟨reused, .inl hread⟩
    · rename_i reused hread
      exact ⟨reused, .inr hread⟩
    · cases hq
  | interrupted => cases hq
  | admitted => cases hq
  | copied => exact .inl hq
  | abandoned error byClose => cases byClose <;> cases hq
  | cleaned => exact .inl hq

end Progress

namespace FinalKey

/-- The content is at the key, or a request that is under way may put it there. -/
def Current (s : FinalKey κ) (c : κ) : Prop :=
  (∃ t, s.object = some (c, t)) ∨
    ∃ (t : ℕ) (p : Publication κ), s.publications[t]? = some p ∧ p.standing = true ∧ p.content = c

omit [DecidableEq κ] in
theorem current_of_object (h : s.object.map Prod.fst = some c) : s.Current c := by
  obtain ⟨⟨c, t⟩, hobject, rfl⟩ := Option.map_eq_some_iff.mp h
  exact .inl ⟨t, hobject⟩

omit [DecidableEq κ] in
theorem current_of_standing (hp : s.publications[t]? = some p) (hstanding : p.standing = true) :
    s.Current p.content := .inr ⟨t, p, hp, hstanding, rfl⟩

/-- All requests publish the same, as far as they can meet. -/
structure Agreed (s : FinalKey κ) : Prop where
  made : ∀ c t, s.object = some (c, t) →
    ∃ p : Publication κ, s.publications[t]? = some p ∧ p.content = c
  agree : ∀ c c', s.Current c → s.Current c' → c = c'
  seen : ∀ (t : ℕ) (p : Publication κ) c, s.publications[t]? = some p → p.read = some c →
    c = p.content
  conflict : ∀ (t : ℕ) (p : Publication κ), s.publications[t]? = some p →
    p.phase ≠ .raised .artifactChecksumConflict

omit [DecidableEq κ] in
theorem agreed_init : (FinalKey.init : FinalKey κ).Agreed where
  made := nofun
  agree := by
    rintro c c' (⟨t, ht⟩ | ⟨t, p, hp, -⟩)
    · cases ht
    · cases hp
  seen := nofun
  conflict := nofun

/-- Only a request brings a content into play. -/
theorem current_of_step (hstep : s.step event = some s') (hc : s'.Current c) :
    s.Current c ∨ event = .requested c := by
  cases moves_of_step hstep with
  | requested content hevent =>
    rcases hc with hobject | ⟨u, q, hq, hstanding, rfl⟩
    · exact .inl (.inl hobject)
    · rcases getElem?_append_singleton_cases hq with ⟨-, rfl⟩ | hold
      · exact .inr hevent
      · exact .inl (current_of_standing hold hstanding)
  | created t p _ hp hrunning hobject =>
    have hstanding : p.standing = true := Publication.standing_iff.mpr (.inl hrunning)
    left
    rcases hc with ⟨u, hu⟩ | ⟨u, q, hq, hother, rfl⟩
    · cases hu
      exact current_of_standing hp hstanding
    · rcases getElem?_set_cases hq with ⟨-, rfl⟩ | ⟨-, hold⟩
      · exact current_of_standing (p := p) hp hstanding
      · exact current_of_standing hold hother
  | deleted t p _ hp hdeleting =>
    left
    rcases hc with ⟨u, hu⟩ | ⟨u, q, hq, hstanding, rfl⟩
    · cases hu
    · rcases getElem?_set_cases hq with ⟨-, rfl⟩ | ⟨-, hold⟩
      · exact current_of_standing (p := p) hp hstanding
      · exact current_of_standing hold hstanding
  | advanced t p q _ hp hq =>
    have hprogress := progress_of_advance hq
    left
    rcases hc with hobject | ⟨u, r, hr, hstanding, rfl⟩
    · exact .inl hobject
    · rcases getElem?_set_cases hr with ⟨-, rfl⟩ | ⟨-, hold⟩
      · rw [hprogress.content]
        exact current_of_standing hp (hprogress.standing hstanding)
      · exact current_of_standing hold hstanding

/-- A publication after a step was there before it, or it is the one requested. -/
theorem publication_of_step (hstep : s.step event = some s') (hq : s'.publications[t]? = some q) :
    (∃ p, s.publications[t]? = some p ∧ (q = p ∨
        Progress p (s.object.map Prod.fst) event q ∨
        (q.phase = p.phase ∧ q.content = p.content))) ∨
      t = s.publications.length ∧
        ∃ content, event = .requested content ∧ q = ⟨content, .heading, .absent, .none⟩ := by
  cases moves_of_step hstep with
  | requested content hevent =>
    rcases getElem?_append_singleton_cases hq with ⟨ht, rfl⟩ | hold
    · exact .inr ⟨ht, content, hevent, rfl⟩
    · exact .inl ⟨q, hold, .inl rfl⟩
  | created u p _ hp | deleted u p _ hp =>
    left
    rcases getElem?_set_cases hq with ⟨rfl, rfl⟩ | ⟨-, hold⟩
    · exact ⟨p, hp, .inr (.inr ⟨rfl, rfl⟩)⟩
    · exact ⟨q, hold, .inl rfl⟩
  | advanced u p r _ hp hr =>
    left
    rcases getElem?_set_cases hq with ⟨rfl, rfl⟩ | ⟨-, hold⟩
    · exact ⟨p, hp, .inr (.inl (progress_of_advance hr))⟩
    · exact ⟨q, hold, .inl rfl⟩

/-- A request publishes what the others do, so none of them meets a conflict. -/
theorem Agreed.step (h : s.Agreed) (hstep : s.step event = some s')
    (hrequested : ∀ content, event = .requested content → ∀ c, s.Current c → c = content)
    (hexternal : ∀ t, event ≠ .interrupted t .artifactChecksumConflict) : s'.Agreed := by
  constructor
  · intro c t hobject
    cases moves_of_step hstep with
    | requested content =>
      obtain ⟨p, hp, hc⟩ := h.made c t hobject
      exact ⟨p, List.getElem?_append_left (List.getElem?_eq_some_iff.mp hp).1 ▸ hp, hc⟩
    | created u p _ hp =>
      cases hobject
      exact ⟨_, getElem?_set_same hp, rfl⟩
    | deleted => cases hobject
    | advanced u p q _ hp hq =>
      obtain ⟨r, hr, hc⟩ := h.made c t hobject
      by_cases htu : t = u
      · subst htu
        rw [hp] at hr
        cases hr
        exact ⟨q, getElem?_set_same hp, (progress_of_advance hq).content.trans hc⟩
      · exact ⟨r, (List.getElem?_set_ne (Ne.symm htu)).trans hr, hc⟩
  · intro c c' hc hc'
    rcases current_of_step hstep hc with hold | hnew
    · rcases current_of_step hstep hc' with hold' | hnew'
      · exact h.agree c c' hold hold'
      · exact hrequested c' hnew' c hold
    · rcases current_of_step hstep hc' with hold' | hnew'
      · exact (hrequested c hnew c' hold').symm
      · rw [hnew] at hnew'
        cases hnew'
        rfl
  · intro t q c hq hread
    rcases publication_of_step hstep hq with ⟨p, hp, rfl | hprogress | ⟨hphase, hcontent⟩⟩ |
      ⟨-, content, -, rfl⟩
    · exact h.seen t q c hp hread
    · rw [hprogress.content]
      rcases hprogress.read hread with hold | ⟨hstat, hstanding⟩
      · exact h.seen t p c hp hold
      · exact h.agree _ _ (current_of_object hstat) (current_of_standing hp hstanding)
    · rw [hcontent]
      apply h.seen t p c hp
      rw [Publication.read, ← hphase]
      exact hread
    · cases hread
  · intro t q hq hconflict
    rcases publication_of_step hstep hq with ⟨p, hp, rfl | hprogress | ⟨hphase, -⟩⟩ |
      ⟨-, content, -, rfl⟩
    · exact h.conflict t q hp hconflict
    · rcases hprogress.conflict hconflict with hold | ⟨u, hinterrupted⟩ | ⟨c, hread, hne⟩
      · exact h.conflict t p hp hold
      · exact hexternal u hinterrupted
      · exact hne (h.seen t p c hp hread)
    · exact h.conflict t p hp (hphase ▸ hconflict)
    · cases hconflict

/-- Once a request relies on the object, the object is what it publishes. -/
theorem Agreed.relied (h : s.Agreed) (hstep : s.step event = some s')
    (hdeleted : ∀ t, event ≠ .deleted t) (hq : s'.publications[t]? = some q)
    (hrelies : q.relies = true)
    (hold : ∀ p, s.publications[t]? = some p → p.relies = true → ∃ u, s.object = some (p.content, u)) :
    ∃ u, s'.object = some (q.content, u) := by
  have hkept : ∀ c u, s.object = some (c, u) → s'.object = some (c, u) := by
    intro c u hobject
    cases moves_of_step hstep with
    | created _ _ _ _ _ hnone =>
      rw [hobject] at hnone
      cases hnone
    | deleted v _ hevent => exact absurd hevent (hdeleted v)
    | requested | advanced => exact hobject
  have hfound : ∃ u, s.object = some (q.content, u) := by
    rcases publication_of_step hstep hq with ⟨p, hp, rfl | hprogress | ⟨hphase, hcontent⟩⟩ |
      ⟨-, content, -, rfl⟩
    · exact hold q hp hrelies
    · rw [hprogress.content]
      rcases hprogress.relies hrelies with hbefore | ⟨c, hstat, hstanding⟩
      · exact hold p hp hbefore
      · have hc := h.agree _ _ (current_of_object hstat) (current_of_standing hp hstanding)
        obtain ⟨⟨c', u⟩, hobject, rfl⟩ := Option.map_eq_some_iff.mp hstat
        exact ⟨u, hobject.trans (by rw [← hc])⟩
    · rw [hcontent]
      apply hold p hp
      rw [Publication.relies, ← hphase]
      exact hrelies
    · cases hrelies
  obtain ⟨u, hu⟩ := hfound
  exact ⟨u, hkept _ u hu⟩

end FinalKey

end VeloxRag.ObjectStore

namespace VeloxRag.Ingestion

open VeloxRag.Lib VeloxRag.ObjectStore VeloxRag.Jobs

/-! ## What the stages build -/

/-- The size and the checksum of an object, which a publication compares. -/
structure ArtifactContent where
  size : ℕ
  checksum : Str
deriving DecidableEq, Repr

section Build

variable {P : Platform}

def artifactContent (data : Bytes) : ArtifactContent := ⟨data.length, P.sha256 data⟩

/-- The manifest of `_chunk_stage`, with `none` for an exception: the chunks are counted, and the
lines are written for that count. -/
def chunkManifest (sourceChecksum : Str) (createdAt : Timestamp) (parsed : ParsedArtifact P)
    (sizes : ℤ × ℤ) : Option Bytes :=
  match RecursiveTextChunker.make sizes.1 sizes.2 with
  | .error _ => none
  | .ok chunker =>
      let chunks := chunker.chunk parsed
      let lines := iterChunkManifestLines sourceChecksum parsed (chunker.toChunker P) createdAt
        chunks.items.length chunks
      if chunks.items = [] ∨ lines.outcome ≠ .done then none else some lines.items.flatten

end Build

/-- A stage of one version, with what its attempts read. -/
inductive ArtifactStage (P : Platform)
  | parse (parser : Parser) (source : Bytes)
  | chunk (parser : Parser) (parsedObject : Bytes) (parsedChecksum sourceChecksum : Str)
      (createdAt : Timestamp)

variable {P : Platform} (U : FilenameText)

/-- What an attempt publishes; `none` when it raises before. -/
def ArtifactStage.build (stage : ArtifactStage P) (sizes : ℤ × ℤ) : Option ArtifactContent :=
  match stage with
  | .parse parser source =>
      (parser.parse U P source).toOption.map fun parsed =>
        artifactContent (P := P) parsed.normalizedBytes
  | .chunk parser parsedObject parsedChecksum sourceChecksum createdAt =>
      (parser.parse U P parsedObject).toOption.bind fun parsed =>
        if P.sha256 parsed.normalizedBytes ≠ parsedChecksum then none
        else (chunkManifest sourceChecksum createdAt parsed sizes).map (artifactContent (P := P))

/-- The chunker that a commit records. -/
def ArtifactStage.record (stage : ArtifactStage P) (recorded : ChunkerInfo) (sizes : ℤ × ℤ) :
    ChunkerInfo :=
  match stage with
  | .parse _ _ => recorded
  | .chunk _ _ _ _ _ => recursiveChunker sizes

/-! ## Attempts -/

/-- An attempt that has reached its publication: its chunk sizes, the columns of the row that it
loaded, and whether it has ended. -/
structure Attempt where
  sizes : ℤ × ℤ
  recorded : ChunkerInfo
  committed : Option ArtifactContent
  finished : Bool
deriving DecidableEq, Repr

/-- The final key, one attempt for each publication, and the columns of the row. -/
structure StageState where
  key : FinalKey ArtifactContent
  attempts : List Attempt
  recorded : ChunkerInfo
  committed : Option ArtifactContent
deriving DecidableEq, Repr

inductive StageEvent
  /-- an attempt of a worker with these chunk sizes loads the row, builds and begins to publish -/
  | attempted (defaults : ℤ × ℤ)
  | key (event : PublishEvent ArtifactContent)
  /-- the attempt ends, by an exception or by the loss of its lease -/
  | ended (t : ℕ)
  | committed (t : ℕ)
deriving DecidableEq, Repr

/-- What happens to a publication from outside is no conflict. -/
def externalEvent : PublishEvent ArtifactContent → Bool
  | .requested _ => false
  | .interrupted _ error => decide (error ≠ .artifactChecksumConflict)
  | _ => true

namespace StageState

/-- Before any attempt. -/
def init : StageState := ⟨.init, [], ⟨none, none, none⟩, none⟩

/-- What an event does. -/
def step (stage : ArtifactStage P) (s : StageState) : StageEvent → Option StageState
  | .attempted defaults =>
      (chunkerFor defaults s.recorded).bind fun sizes =>
        (stage.build U sizes).bind fun content =>
          (s.key.step (.requested content)).map fun key =>
            { s with key := key, attempts := s.attempts ++ [⟨sizes, s.recorded, s.committed, false⟩] }
  | .key event =>
      if externalEvent event then (s.key.step event).map fun key => { s with key := key } else none
  | .ended t =>
      (s.attempts[t]?).map fun a => { s with attempts := s.attempts.set t { a with finished := true } }
  | .committed t =>
      (s.attempts[t]?).bind fun a =>
        (s.key.publications[t]?).bind fun p =>
          if p.succeeded ∧ a.finished = false ∧ a.recorded = s.recorded ∧ a.committed = s.committed then
            some { s with
              attempts := s.attempts.set t { a with finished := true }
              recorded := stage.record s.recorded a.sizes
              committed := some p.content }
          else none

/-- The attempts with their publications. -/
def pairs (s : StageState) : List (Attempt × Publication ArtifactContent) :=
  s.attempts.zip s.key.publications

/-- An attempt with these sizes would publish what every publication that is still standing
publishes, and what the object at the key was made from. -/
def sizesAgree (s : StageState) (sizes : ℤ × ℤ) : Bool :=
  (s.pairs.all fun x => !x.2.standing || decide (x.1.sizes = sizes)) &&
    match s.key.object with
    | none => true
    | some (_, t) => (s.attempts[t]?).all fun a => decide (a.sizes = sizes)

/-- The condition on a step: an attempt of the chunk stage has the sizes of the attempts before it,
as far as they may have an object at the key; and no clean-up removes an object that an attempt has
found and may still commit. -/
def compatible (stage : ArtifactStage P) (s : StageState) : StageEvent → Bool
  | .attempted defaults =>
      match stage with
      | .parse _ _ => true
      | .chunk _ _ _ _ _ => (chunkerFor defaults s.recorded).all s.sizesAgree
  | .key (.deleted _) => s.pairs.all fun x => x.1.finished || !x.2.relies
  | _ => true

/-- The steps that meet the condition. -/
def compatibleStep (stage : ArtifactStage P) (s : StageState) (event : StageEvent) :
    Option StageState :=
  if s.compatible stage event then s.step U stage event else none

end StageState

/-! ## Runs of attempts -/

variable {U} {stage : ArtifactStage P} {s s' : StageState} {a : Attempt} {t : ℕ}
  {p : Publication ArtifactContent}

namespace StageState

/-- Every attempt has a publication of what it built, the publications agree, and the object that an
attempt has found stays until the attempt ends. -/
structure Rerunnable (U : FilenameText) (stage : ArtifactStage P) (s : StageState) : Prop where
  agreed : s.key.Agreed
  length : s.attempts.length = s.key.publications.length
  built : ∀ (t : ℕ) (a : Attempt) (p : Publication ArtifactContent), s.attempts[t]? = some a →
    s.key.publications[t]? = some p → stage.build U a.sizes = some p.content
  relied : ∀ (t : ℕ) (a : Attempt) (p : Publication ArtifactContent), s.attempts[t]? = some a →
    s.key.publications[t]? = some p → a.finished = false → p.relies = true →
    ∃ u, s.key.object = some (p.content, u)

theorem rerunnable_init : init.Rerunnable U stage where
  agreed := FinalKey.agreed_init
  length := rfl
  built := by
    intro t a p ha
    cases ha
  relied := by
    intro t a p ha
    cases ha

theorem mem_pairs (ha : s.attempts[t]? = some a) (hp : s.key.publications[t]? = some p) :
    (a, p) ∈ s.pairs := by
  apply List.mem_of_getElem? (i := t)
  rw [pairs, List.getElem?_zip_eq_some]
  exact ⟨ha, hp⟩

theorem Rerunnable.attempt (h : s.Rerunnable U stage) (hp : s.key.publications[t]? = some p) :
    ∃ a, s.attempts[t]? = some a := by
  have ht := (List.getElem?_eq_some_iff.mp hp).1
  rw [← h.length] at ht
  exact ⟨_, List.getElem?_eq_getElem ht⟩

/-- An attempt that meets the condition builds what the others have built. -/
theorem Rerunnable.build_eq (h : s.Rerunnable U stage) {defaults sizes : ℤ × ℤ}
    (hcompatible : s.compatible stage (.attempted defaults) = true)
    (hsizes : chunkerFor defaults s.recorded = some sizes) (ha : s.attempts[t]? = some a)
    (hp : s.key.publications[t]? = some p)
    (hmet : p.standing = true ∨ ∃ c, s.key.object = some (c, t)) :
    stage.build U a.sizes = stage.build U sizes := by
  cases stage with
  | parse parser source => rfl
  | chunk parser parsedObject parsedChecksum sourceChecksum createdAt =>
    have hagree : a.sizes = sizes := by
      dsimp only [compatible] at hcompatible
      rw [hsizes, Option.all_some, sizesAgree, Bool.and_eq_true_iff, List.all_eq_true]
        at hcompatible
      obtain ⟨hstanding, hobject⟩ := hcompatible
      rcases hmet with hmet | ⟨c, hc⟩
      · have := hstanding (a, p) (mem_pairs ha hp)
        simpa only [hmet, Bool.not_true, Bool.false_or, decide_eq_true_eq] using this
      · rw [hc] at hobject
        dsimp only at hobject
        rw [ha, Option.all_some] at hobject
        exact of_decide_eq_true hobject
    rw [hagree]

/-- An attempt that meets the condition publishes what is at the key, or may come there. -/
theorem Rerunnable.content_eq (h : s.Rerunnable U stage) {defaults sizes : ℤ × ℤ}
    {content c : ArtifactContent}
    (hcompatible : s.compatible stage (.attempted defaults) = true)
    (hsizes : chunkerFor defaults s.recorded = some sizes)
    (hcontent : stage.build U sizes = some content) (hc : s.key.Current c) : c = content := by
  have hpublished : ∃ (t : ℕ) (p : Publication ArtifactContent),
      s.key.publications[t]? = some p ∧ p.content = c ∧
        (p.standing = true ∨ ∃ c, s.key.object = some (c, t)) := by
    rcases hc with ⟨t, hobject⟩ | ⟨t, p, hp, hstanding, hpc⟩
    · obtain ⟨p, hp, hpc⟩ := h.agreed.made c t hobject
      exact ⟨t, p, hp, hpc, .inr ⟨c, hobject⟩⟩
    · exact ⟨t, p, hp, hpc, .inl hstanding⟩
  obtain ⟨t, p, hp, rfl, hmet⟩ := hpublished
  obtain ⟨a, ha⟩ := h.attempt hp
  have hbuild := h.built t a p ha hp
  rw [h.build_eq hcompatible hsizes ha hp hmet, hcontent] at hbuild
  exact (Option.some.inj hbuild).symm

theorem length_publications_of_step {key key' : FinalKey ArtifactContent}
    {event : PublishEvent ArtifactContent} (hstep : key.step event = some key')
    (hexternal : externalEvent event = true) :
    key'.publications.length = key.publications.length := by
  cases moves_of_step hstep with
  | requested content hevent =>
    subst hevent
    cases hexternal
  | created | deleted | advanced => exact List.length_set

theorem Rerunnable.attempted (h : s.Rerunnable U stage) {defaults : ℤ × ℤ}
    (hcompatible : s.compatible stage (.attempted defaults) = true)
    (hstep : s.step U stage (.attempted defaults) = some s') : s'.Rerunnable U stage := by
  obtain ⟨sizes, hsizes, hbuilds⟩ := Option.bind_eq_some_iff.mp hstep
  obtain ⟨content, hcontent, hrequests⟩ := Option.bind_eq_some_iff.mp hbuilds
  obtain ⟨key, hkey, rfl⟩ := Option.map_eq_some_iff.mp hrequests
  constructor
  · apply h.agreed.step hkey
    · intro content' hevent c hc
      cases hevent
      exact h.content_eq hcompatible hsizes hcontent hc
    · exact fun _ => nofun
  · cases hkey
    simp only [List.length_append, List.length_singleton, h.length]
  · intro t a p ha hp
    cases hkey
    rcases getElem?_append_singleton_cases ha with ⟨hta, rfl⟩ | ha
    · rcases getElem?_append_singleton_cases hp with ⟨-, rfl⟩ | hp
      · exact hcontent
      · have ht := (List.getElem?_eq_some_iff.mp hp).1
        rw [hta, h.length] at ht
        exact absurd ht (Nat.lt_irrefl _)
    · rcases getElem?_append_singleton_cases hp with ⟨htp, rfl⟩ | hp
      · have ht := (List.getElem?_eq_some_iff.mp ha).1
        rw [htp, h.length] at ht
        exact absurd ht (Nat.lt_irrefl _)
      · exact h.built t a p ha hp
  · intro t a p ha hp hfinished hrelies
    apply h.agreed.relied hkey (fun _ => nofun) hp hrelies
    intro p' hp' hrelies'
    rcases getElem?_append_singleton_cases ha with ⟨hta, rfl⟩ | ha
    · have ht := (List.getElem?_eq_some_iff.mp hp').1
      rw [hta, h.length] at ht
      exact absurd ht (Nat.lt_irrefl _)
    · exact h.relied t a p' ha hp' hfinished hrelies'

theorem Rerunnable.key (h : s.Rerunnable U stage) {event : PublishEvent ArtifactContent}
    (hcompatible : s.compatible stage (.key event) = true)
    (hstep : s.step U stage (.key event) = some s') : s'.Rerunnable U stage := by
  dsimp only [StageState.step] at hstep
  split at hstep
  · rename_i hexternal
    obtain ⟨key, hkey, rfl⟩ := Option.map_eq_some_iff.mp hstep
    constructor
    · apply h.agreed.step hkey
      · intro content hevent
        subst hevent
        cases hexternal
      · intro t hevent
        subst hevent
        cases hexternal
    · rw [length_publications_of_step hkey hexternal]
      exact h.length
    · intro t a q ha hq
      obtain ⟨p, hp, hcontent⟩ : ∃ p : Publication ArtifactContent,
          s.key.publications[t]? = some p ∧ q.content = p.content := by
        rcases FinalKey.publication_of_step hkey hq with
          ⟨p, hp, rfl | hprogress | ⟨-, hcontent⟩⟩ | ⟨-, content, hevent, -⟩
        · exact ⟨q, hp, rfl⟩
        · exact ⟨p, hp, hprogress.content⟩
        · exact ⟨p, hp, hcontent⟩
        · subst hevent
          cases hexternal
      rw [hcontent]
      exact h.built t a p ha hp
    · intro t a q ha hq hfinished hrelies
      by_cases hdeleted : ∃ u, event = .deleted u
      · -- a clean-up leaves what the attempts have found
        obtain ⟨u, rfl⟩ := hdeleted
        dsimp only [compatible] at hcompatible
        rw [List.all_eq_true] at hcompatible
        cases moves_of_step hkey with
        | requested _ hevent => cases hevent
        | created _ _ hevent => cases hevent
        | advanced _ _ _ hevent _ hadvanced => cases hadvanced
        | deleted v p _ hp =>
          have hbefore : ∃ p' : Publication ArtifactContent,
              s.key.publications[t]? = some p' ∧ p'.relies = true := by
            rcases getElem?_set_cases hq with ⟨rfl, rfl⟩ | ⟨-, hold⟩
            · exact ⟨p, hp, hrelies⟩
            · exact ⟨q, hold, hrelies⟩
          obtain ⟨p', hp', hrelies'⟩ := hbefore
          have hmet := hcompatible (a, p') (mem_pairs ha hp')
          rw [hfinished, hrelies'] at hmet
          cases hmet
      · apply h.agreed.relied hkey (fun u hu => hdeleted ⟨u, hu⟩) hq hrelies
        exact fun p hp hrelies => h.relied t a p ha hp hfinished hrelies
  · cases hstep

/-- An attempt ends; the key stays as it is. -/
theorem Rerunnable.finish (h : s.Rerunnable U stage) (ha : s.attempts[t]? = some a)
    {recorded : ChunkerInfo} {committed : Option ArtifactContent} :
    Rerunnable U stage ⟨s.key, s.attempts.set t { a with finished := true }, recorded, committed⟩ := by
  constructor
  · exact h.agreed
  · exact List.length_set.trans h.length
  · intro u b p hb hp
    rcases getElem?_set_cases hb with ⟨rfl, rfl⟩ | ⟨-, hold⟩
    · exact h.built u a p ha hp
    · exact h.built u b p hold hp
  · intro u b p hb hp hfinished hrelies
    rcases getElem?_set_cases hb with ⟨rfl, rfl⟩ | ⟨-, hold⟩
    · cases hfinished
    · exact h.relied u b p hold hp hfinished hrelies

theorem Rerunnable.step (h : s.Rerunnable U stage) {event : StageEvent}
    (hstep : s.compatibleStep U stage event = some s') : s'.Rerunnable U stage := by
  unfold compatibleStep at hstep
  split at hstep
  · rename_i hcompatible
    cases event with
    | attempted defaults => exact h.attempted hcompatible hstep
    | key event => exact h.key hcompatible hstep
    | ended t =>
      obtain ⟨a, ha, rfl⟩ := Option.map_eq_some_iff.mp hstep
      exact h.finish ha
    | committed t =>
      obtain ⟨a, ha, hcommits⟩ := Option.bind_eq_some_iff.mp hstep
      obtain ⟨p, hp, hcommitted⟩ := Option.bind_eq_some_iff.mp hcommits
      split at hcommitted <;> cases hcommitted
      exact h.finish ha
  · cases hstep

end StageState

/-- In a run whose steps meet the condition no attempt is refused for what another one published,
and a stage that commits commits the content of the object at the final key. -/
theorem artifact_rerun (stage : ArtifactStage P) (s : StageState)
    (hreaches : Reaches (StageState.compatibleStep U stage) .init s) :
    (∀ (t : ℕ) (p : Publication ArtifactContent), s.key.publications[t]? = some p →
      p.phase ≠ .raised .artifactChecksumConflict) ∧
    ∀ t s', s.step U stage (.committed t) = some s' →
      ∃ c u, s'.committed = some c ∧ s'.key.object = some (c, u) := by
  have h : s.Rerunnable U stage :=
    hreaches.induction_on (StageState.Rerunnable U stage) (fun _ _ _ h hstep => h.step hstep)
      StageState.rerunnable_init
  constructor
  · exact h.agreed.conflict
  · intro t s' hstep
    obtain ⟨a, ha, hcommits⟩ := Option.bind_eq_some_iff.mp hstep
    obtain ⟨p, hp, hcommitted⟩ := Option.bind_eq_some_iff.mp hcommits
    split at hcommitted
    · rename_i hready
      cases hcommitted
      obtain ⟨hsucceeded, hfinished, -⟩ := hready
      have hrelies : p.relies = true := by
        unfold Publication.succeeded at hsucceeded
        split at hsucceeded
        · rename_i reused hphase
          rw [Publication.relies, hphase]
        · cases hsucceeded
      obtain ⟨u, hobject⟩ := h.relied t a p ha hp hfinished hrelies
      exact ⟨p.content, u, rfl, hobject⟩
    · cases hcommitted

/-! ## A document of one letter -/

/-- A permutation has the same size in UTF-8. -/
theorem length_encode_perm {s t : Str} (h : s.Perm t) : (encode s).length = (encode t).length :=
  (h.flatMap_right _).length_eq

/-- The length of a canonical line, which does not depend on the order of the members. -/
theorem length_canonicalLine {value : Json P.Float} {text : Str}
    (h : Json.dumps P.floats value = some text) :
    ∃ line, canonicalLine value = some line ∧ line.length = (encode text).length + 1 := by
  obtain ⟨text', htext', hperm⟩ := Json.perm_dumps_sorted value text h
  refine ⟨encode text' ++ [newline], by rw [canonicalLine, canonicalJsonBytes, htext']; rfl, ?_⟩
  rw [List.length_append, List.length_singleton, length_encode_perm hperm]

/-- A document of one letter. -/
def singleLetter (P : Platform) : ParsedArtifact P :=
  ⟨['a'], oneParagraph 1, plainTextParser.name, plainTextParser.version, Mapping.empty, by rfl⟩

theorem artifact_singleLetter (P : Platform) :
    plainTextParser.artifact P ['a'] = .ok (singleLetter P) :=
  artifact_of_boundaries (by rfl) (by rfl)

theorem parse_singleLetter (P : Platform) :
    plainTextParser.parse U P (encode ['a']) = .ok (singleLetter P) :=
  (parse_eq_ok (by simp [parsers])).mpr
    ⟨by decide, ['a'], rfl, textAccepted_replicate one_ne_zero, artifact_singleLetter P⟩

/-- Every chunker yields one chunk of it. -/
theorem chunk_singleLetter (chunker : RecursiveTextChunker) {c : Chunk P}
    (hsource : Chunk.fromSource 0 ['a'] 0 1 [] Mapping.empty = .ok c) :
    chunker.chunk (singleLetter P) = ⟨[c], .done⟩ := by
  have hmax := chunker.max_pos
  have hend : min (0 + chunker.maxChunk) (['a'] : Str).length = 1 := by
    simp only [List.length_singleton]
    omega
  obtain ⟨index, cache, hindex, htitles⟩ : ∃ index cache,
      indexBoundaries (.compact (oneParagraph 1)) = .ok index ∧
        titlePathAt index .new 0 = .ok ([], cache) := ⟨_, _, rfl, rfl⟩
  have hchosen : ∀ minimumEnd, chooseEnd P.unicode ['a'] plainTextParser.name index 0 0
      minimumEnd 1 true = (1, false) := by
    intro minimumEnd
    have hname : plainTextParser.name ≠ markdownTextV1 := by decide
    simp only [chooseEnd, if_neg hname, if_true]
  rw [RecursiveTextChunker.chunk, RecursiveTextChunker.chunkText,
    if_neg (show (singleLetter P).text ≠ [] from List.cons_ne_nil 'a' [])]
  dsimp only [singleLetter]
  rw [hindex]
  dsimp only
  rw [RecursiveTextChunker.chunkLoop, if_pos (by decide)]
  dsimp only
  rw [hend, List.length_singleton, decide_eq_true rfl, hchosen]
  dsimp only
  rw [if_neg (by decide), if_neg (by decide), htitles]
  dsimp only
  rw [hsource]
  rfl

/-- The document. -/
def letterArtifact : ParsedArtifact Platform.ascii :=
  ⟨['a'], oneParagraph 1, plainTextParser.name, plainTextParser.version, Mapping.empty, by rfl⟩

/-- Its only chunk. -/
def letterChunk : Chunk Platform.ascii where
  chunkIndex := 0
  text := ['a']
  chunkHash := List.replicate 64 '0'
  startOffset := 0
  endOffset := 1
  titlePath := []
  metadata := Mapping.empty
  span_valid := spanValid_letter
  frozen := freezeMapping_empty
  hash_shape := isSha256_zeros
  hash_eq := by
    obtain ⟨hash, hhash, _⟩ := @chunkHashOf_empty Platform.ascii ['a'] []
    rw [hhash]
    obtain ⟨data, _, rfl⟩ := Option.map_eq_some_iff.mp hhash
    rfl

/-- The lines of its manifest. -/
theorem chunkManifest_singleLetter {sourceChecksum : Str} {createdAt : Timestamp} {sizes : ℤ × ℤ}
    {chunker : RecursiveTextChunker} {c : Chunk P} {line row : Bytes}
    (hsource : isSha256 sourceChecksum = true)
    (hchunker : RecursiveTextChunker.make sizes.1 sizes.2 = .ok chunker)
    (hchunk : Chunk.fromSource 0 ['a'] 0 1 [] Mapping.empty = .ok c) (hend : c.endOffset = 1)
    (hfits : chunkFits (singleLetter P) 1 ⟨0, -1, 0⟩ c c = true)
    (hline : canonicalLine (headerJson sourceChecksum (parsedTextChecksum (P := P) ['a'])
      plainTextParser.name plainTextParser.version Mapping.empty RecursiveTextChunker.name
      RecursiveTextChunker.version (chunker.config P) createdAt 1) = some line)
    (hrow : canonicalLine c.asRecord = some row) :
    iterChunkManifestLines sourceChecksum (singleLetter P) (chunker.toChunker P) createdAt 1
        ⟨[c], .done⟩ = ⟨[line, row], .done⟩ ∧
      chunkManifest sourceChecksum createdAt (singleLetter P) sizes = some (line ++ row) := by
  have hheader : chunkManifestHeaderBytes sourceChecksum (singleLetter P) (chunker.toChunker P)
      createdAt 1 = some line := by
    rw [chunkManifestHeaderBytes, if_neg (by simp [hsource]), canonicalLine_headerJson]
    exact hline
  have hlines : iterChunkManifestLines sourceChecksum (singleLetter P) (chunker.toChunker P)
      createdAt 1 ⟨[c], .done⟩ = ⟨[line, row], .done⟩ := by
    rw [iterChunkManifestLines, hheader]
    show (recordLoop (singleLetter P) 1 .done (chunker.chunk (singleLetter P)).outcome [c]
      (chunker.chunk (singleLetter P)).items ⟨0, -1, 0⟩).cons line = _
    rw [chunk_singleLetter chunker hchunk]
    dsimp only
    rw [recordLoop, if_pos hfits, chunkManifestRecordBytes, hrow, hend]
    rfl
  refine ⟨hlines, ?_⟩
  rw [chunkManifest, hchunker]
  dsimp only
  rw [chunk_singleLetter chunker hchunk]
  dsimp only
  rw [List.length_singleton, hlines, if_neg (by simp)]
  simp

def letterChecksum : Str := List.replicate 64 '0'

/-- The time of the version. -/
def letterCreatedAt : Timestamp := ⟨2024, 2, 29, 12, 30, 0, 0⟩

/-- The header of the manifest before its members are sorted. -/
def letterHeader (chunker : RecursiveTextChunker) : Json Platform.ascii.Float :=
  headerJson (P := .ascii) letterChecksum (parsedTextChecksum (P := .ascii) ['a'])
    plainTextParser.name plainTextParser.version Mapping.empty RecursiveTextChunker.name
    RecursiveTextChunker.version (chunker.config .ascii) letterCreatedAt 1

/-- The manifest of a document of one letter: how long it is depends on the chunk sizes only as far
as the header does. -/
theorem chunkManifest_letter {sizes : ℤ × ℤ} {chunker : RecursiveTextChunker} {header record : Str}
    (hchunker : RecursiveTextChunker.make sizes.1 sizes.2 = .ok chunker)
    (hheader : Json.dumps Platform.ascii.floats (letterHeader chunker) = some header)
    (hrecord : Json.dumps Platform.ascii.floats letterChunk.asRecord = some record) :
    ∃ data, chunkManifest letterChecksum letterCreatedAt letterArtifact sizes = some data ∧
      data.length = (encode header).length + 1 + ((encode record).length + 1) := by
  obtain ⟨line, hline, hlength⟩ := @length_canonicalLine Platform.ascii _ _ hheader
  obtain ⟨row, hrow, hrowLength⟩ := @length_canonicalLine Platform.ascii _ _ hrecord
  refine ⟨line ++ row, ?_, by rw [List.length_append, hlength, hrowLength]⟩
  exact (chunkManifest_singleLetter (by decide) hchunker
    (letterChunk.fromSource_self rfl (le_refl 1) rfl) rfl (by decide +kernel) hline hrow).2

def oneCharacter : RecursiveTextChunker where
  maxChunk := 1
  targetOverlap := 0
  max_pos := by decide
  max_le := by decide
  overlap_lt := by decide
  overlap_le := Nat.zero_le _

def tenCharacters : RecursiveTextChunker where
  maxChunk := 10
  targetOverlap := 0
  max_pos := by decide
  max_le := by decide
  overlap_lt := by decide
  overlap_le := Nat.zero_le _

/-- Manifests of one document for different chunk sizes. -/
theorem chunkManifest_letter_ne : ∃ data data',
    chunkManifest letterChecksum letterCreatedAt letterArtifact (1, 0) = some data ∧
      chunkManifest letterChecksum letterCreatedAt letterArtifact (10, 0) = some data' ∧
      data.length ≠ data'.length := by
  have hheader : (Json.dumps Platform.ascii.floats (letterHeader oneCharacter)).map
      (fun s => (encode s).length) = some 462 := by decide +kernel
  have hheader' : (Json.dumps Platform.ascii.floats (letterHeader tenCharacters)).map
      (fun s => (encode s).length) = some 463 := by decide +kernel
  obtain ⟨header, hdumps, hlength⟩ := Option.map_eq_some_iff.mp hheader
  obtain ⟨header', hdumps', hlength'⟩ := Option.map_eq_some_iff.mp hheader'
  obtain ⟨record, hrecord⟩ := Option.isSome_iff_exists.mp
    (show (Json.dumps Platform.ascii.floats letterChunk.asRecord).isSome = true by decide +kernel)
  obtain ⟨data, hdata, hsize⟩ := @chunkManifest_letter (1, 0) oneCharacter _ _ rfl hdumps hrecord
  obtain ⟨data', hdata', hsize'⟩ :=
    @chunkManifest_letter (10, 0) tenCharacters _ _ rfl hdumps' hrecord
  refine ⟨data, data', hdata, hdata', ?_⟩
  rw [hsize, hsize', hlength, hlength']
  omega

/-- The chunk stage of a document of one letter. -/
def letterStage : ArtifactStage Platform.ascii :=
  .chunk plainTextParser (encode ['a']) (Platform.ascii.sha256 (encode ['a'])) letterChecksum
    letterCreatedAt

theorem build_letterStage {sizes : ℤ × ℤ} {data : Bytes}
    (h : chunkManifest letterChecksum letterCreatedAt letterArtifact sizes = some data) :
    letterStage.build .ascii sizes = some (artifactContent (P := .ascii) data) := by
  have hparse : plainTextParser.parse .ascii .ascii (encode ['a']) = .ok letterArtifact :=
    parse_singleLetter .ascii
  dsimp only [letterStage, ArtifactStage.build]
  rw [hparse]
  change (if Platform.ascii.sha256 (encode ['a']) ≠ Platform.ascii.sha256 (encode ['a']) then none
    else Option.map _ _) = _
  rw [if_neg (not_not_intro rfl), h]
  rfl

/-- The first attempt publishes and ends before its commit. -/
def endedAttempt : List StageEvent :=
  [.key (.statRead 0), .key (.resumed 0), .key (.copyAdmitted 0), .key (.copyCreated 0),
    .key (.copyReturned 0), .ended 0]

/-- An attempt that has begun, on a version without an artifact. -/
def begunState (c : ArtifactContent) : StageState :=
  ⟨⟨none, [⟨c, .heading, .absent, .none⟩]⟩, [⟨(1, 0), ⟨none, none, none⟩, none, false⟩],
    ⟨none, none, none⟩, none⟩

/-- It has published and ended. -/
def endedState (c : ArtifactContent) : StageState :=
  ⟨⟨some (c, 0), [⟨c, .copying, .returned, .none⟩]⟩, [⟨(1, 0), ⟨none, none, none⟩, none, true⟩],
    ⟨none, none, none⟩, none⟩

/-- Another attempt follows it. -/
def secondState (c : ArtifactContent) (sizes : ℤ × ℤ) (q : Publication ArtifactContent) :
    StageState :=
  ⟨⟨some (c, 0), [⟨c, .copying, .returned, .none⟩, q]⟩,
    [⟨(1, 0), ⟨none, none, none⟩, none, true⟩, ⟨sizes, ⟨none, none, none⟩, none, false⟩],
    ⟨none, none, none⟩, none⟩

section SecondAttempt

variable {stage : ArtifactStage P} {U : FilenameText} {c c' : ArtifactContent} {sizes : ℤ × ℤ}

theorem step_first (hc : stage.build U (1, 0) = some c) :
    StageState.step U stage .init (.attempted (1, 0)) = some (begunState c) := by
  have hsizes : chunkerFor (1, 0) ⟨none, none, none⟩ = some (1, 0) := by decide
  simp only [StageState.step, StageState.init, hsizes, Option.bind_some, hc]
  rfl

theorem step_second (hsizes : chunkerFor sizes ⟨none, none, none⟩ = some sizes)
    (hc : stage.build U sizes = some c') :
    StageState.step U stage (endedState c) (.attempted sizes) =
      some (secondState c sizes ⟨c', .heading, .absent, .none⟩) := by
  simp only [StageState.step, endedState, hsizes, Option.bind_some, hc]
  rfl

theorem step_resumed {phase : PublishPhase ArtifactContent}
    (hphase : (⟨c', .headed (some c), .absent, .none⟩ : Publication ArtifactContent).resume =
      some phase) :
    StageState.step U stage (secondState c sizes ⟨c', .headed (some c), .absent, .none⟩)
      (.key (.resumed 1)) = some (secondState c sizes ⟨c', phase, .absent, .none⟩) := by
  have hadvance : (⟨c', .headed (some c), .absent, .none⟩ : Publication ArtifactContent).advance
      (some c) (.resumed 1) = some ⟨c', phase, .absent, .none⟩ := by
    rw [Publication.advance, hphase]
    rfl
  simp only [StageState.step, externalEvent, if_true, FinalKey.step, secondState,
    List.getElem?_cons_succ, List.getElem?_cons_zero, Option.bind_some, Option.map_some, hadvance]
  rfl

/-- An attempt with the same chunk sizes finds what the first one published, and returns. -/
theorem reuse_of_build (hc : stage.build U (1, 0) = some c) :
    ∃ s, Reaches (StageState.compatibleStep U stage) .init s ∧
      s.key.publications[1]? = some ⟨c, .returned true, .absent, .none⟩ ∧
      ∃ s', s.step U stage (.committed 1) = some s' ∧ s'.committed = some c := by
  have hsizes : chunkerFor (1, 0) ⟨none, none, none⟩ = some (1, 0) := by decide
  have hallowed : ∀ s : StageState, s.recorded = ⟨none, none, none⟩ → s.sizesAgree (1, 0) = true →
      s.compatible stage (.attempted (1, 0)) = true := by
    intro s hs hagree
    cases stage with
    | parse => rfl
    | chunk =>
      dsimp only [StageState.compatible]
      rw [hs, hsizes]
      exact hagree
  have hfirst : StageState.compatibleStep U stage .init (.attempted (1, 0)) =
      some (begunState c) := by
    rw [StageState.compatibleStep, if_pos (hallowed _ rfl rfl), step_first hc]
  have hended : runs (StageState.compatibleStep U stage) (begunState c) endedAttempt =
      some (endedState c) := rfl
  have hsecond : StageState.compatibleStep U stage (endedState c) (.attempted (1, 0)) =
      some (secondState c (1, 0) ⟨c, .heading, .absent, .none⟩) := by
    rw [StageState.compatibleStep, if_pos (hallowed _ rfl rfl), step_second hsizes hc]
  have hread : StageState.compatibleStep U stage (secondState c (1, 0) ⟨c, .heading, .absent, .none⟩)
      (.key (.statRead 1)) =
        some (secondState c (1, 0) ⟨c, .headed (some c), .absent, .none⟩) := rfl
  have hreused : StageState.compatibleStep U stage
      (secondState c (1, 0) ⟨c, .headed (some c), .absent, .none⟩) (.key (.resumed 1)) =
        some (secondState c (1, 0) ⟨c, .returning true, .absent, .none⟩) := by
    simp only [StageState.compatibleStep, StageState.compatible, if_true]
    apply step_resumed
    simp only [Publication.resume, Publication.reuseOrConflict, if_true]
  have hreturned : StageState.compatibleStep U stage
      (secondState c (1, 0) ⟨c, .returning true, .absent, .none⟩) (.key (.resumed 1)) =
        some (secondState c (1, 0) ⟨c, .returned true, .absent, .none⟩) := rfl
  have hreaches := (((Reaches.refl _).tail hfirst).trans ⟨_, hended⟩).tail hsecond
  exact ⟨_, ((hreaches.tail hread).tail hreused).tail hreturned, rfl, _, rfl, rfl⟩

/-- An attempt with other chunk sizes builds something else, and is refused. -/
theorem conflict_of_build_ne (hc : stage.build U (1, 0) = some c)
    (hc' : stage.build U (10, 0) = some c') (hne : c ≠ c') :
    ∃ s, Reaches (StageState.step U stage) .init s ∧
      s.key.publications[1]? = some ⟨c', .raised .artifactChecksumConflict, .absent, .none⟩ := by
  have hended : runs (StageState.step U stage) (begunState c) endedAttempt = some (endedState c) :=
    rfl
  have hread : StageState.step U stage (secondState c (10, 0) ⟨c', .heading, .absent, .none⟩)
      (.key (.statRead 1)) =
        some (secondState c (10, 0) ⟨c', .headed (some c), .absent, .none⟩) := rfl
  have hconflict : StageState.step U stage
      (secondState c (10, 0) ⟨c', .headed (some c), .absent, .none⟩) (.key (.resumed 1)) =
        some (secondState c (10, 0) ⟨c', .raised .artifactChecksumConflict, .absent, .none⟩) := by
    apply step_resumed
    simp only [Publication.resume, Publication.reuseOrConflict, if_neg hne]
  have hreaches := (((Reaches.refl _).tail (step_first hc)).trans ⟨_, hended⟩).tail
    (step_second (by decide) hc')
  exact ⟨_, (hreaches.tail hread).tail hconflict, rfl⟩

end SecondAttempt

/-- The chunk stage of a document of one letter, attempted twice with the same sizes. -/
theorem artifact_rerun_letterStage : ∃ s c,
    Reaches (StageState.compatibleStep .ascii letterStage) .init s ∧
    s.key.publications[1]? = some ⟨c, .returned true, .absent, .none⟩ ∧
    (∀ (t : ℕ) (p : Publication ArtifactContent), s.key.publications[t]? = some p →
      p.phase ≠ .raised .artifactChecksumConflict) ∧
    ∃ s' u, s.step .ascii letterStage (.committed 1) = some s' ∧ s'.committed = some c ∧
      s'.key.object = some (c, u) := by
  obtain ⟨data, -, hdata, -⟩ := chunkManifest_letter_ne
  obtain ⟨s, hreaches, hp, s', hs', hcommitted⟩ := reuse_of_build (build_letterStage hdata)
  obtain ⟨hconflict, hobject⟩ := artifact_rerun letterStage s hreaches
  obtain ⟨c, u, hc, hu⟩ := hobject 1 s' hs'
  rw [hcommitted] at hc
  cases hc
  exact ⟨s, _, hreaches, hp, hconflict, s', u, hs', hcommitted, hu⟩

/-- Two attempts of the chunk stage with chunks of at most one and of at most ten characters. -/
theorem artifact_rerun_other_sizes : ¬ ∀ (U : FilenameText) (P : Platform) (stage : ArtifactStage P)
    (s : StageState), Reaches (StageState.step U stage) .init s →
    (∀ (t : ℕ) (p : Publication ArtifactContent), s.key.publications[t]? = some p →
      p.phase ≠ .raised .artifactChecksumConflict) ∧
    ∀ t s', s.step U stage (.committed t) = some s' →
      ∃ c u, s'.committed = some c ∧ s'.key.object = some (c, u) := by
  intro hclaim
  obtain ⟨data, data', hdata, hdata', hlength⟩ := chunkManifest_letter_ne
  obtain ⟨s, hreaches, hp⟩ := conflict_of_build_ne (build_letterStage hdata)
    (build_letterStage hdata') fun h => hlength (congrArg ArtifactContent.size h)
  exact (hclaim _ _ _ s hreaches).1 1 _ hp rfl

end VeloxRag.Ingestion
