import VeloxRag.ObjectStore.Publication

/-!
# When a publication is undone

The clean-up of an abandoned copy removes the final object if the copy succeeded after all.  From the
time the object exists until the clean-up removes it, any other publication can find the object and
return it as its own success.  The runs in which no success is undone are described by a condition on
each step; a step that does not meet it leads on to a removal after a success.

## Main definitions

* `FinalKey.Undoes` — a clean-up is about to remove the object after another publication returned.
* `FinalKey.careful` — the condition on a step.
* `publication_kept` — no success is undone in a run whose steps all meet the condition.
-/

namespace VeloxRag.ObjectStore

open Lib

variable {κ : Type*}

/-- The copy made the object at the key. -/
def CopyPhase.made : CopyPhase → Bool
  | .created | .returned => true
  | _ => false

namespace Publication

def succeeded (p : Publication κ) : Bool :=
  match p.phase with
  | .returned _ => true
  | _ => false

/-- The clean-up of the publication is going to remove the object that its copy made. -/
def doomed (p : Publication κ) : Bool :=
  match p.cleanup with
  | .waiting => p.copy.made
  | .deleting => true
  | _ => false

/-- The object is still the one that the copy of the publication made. -/
def owns (p : Publication κ) : Bool := p.copy.made && decide (p.cleanup ≠ .finished)

/-- The result of the publication is known and the request is about to return it. -/
def ready (p : Publication κ) : Bool :=
  match p.phase with
  | .returning _ => true
  | _ => false

end Publication

namespace FinalKey

def succeeded (s : FinalKey κ) : Bool := s.publications.any Publication.succeeded

def doomed (s : FinalKey κ) : Bool := s.publications.any Publication.doomed

/-- The condition on a step.  A publication returns only while no clean-up is going to remove the
object; and once one has returned, no publication whose copy made the object is abandoned, and no
abandoned copy makes it. -/
def careful (s : FinalKey κ) : PublishEvent κ → Bool
  | .resumed t => !((s.publications[t]?).any Publication.ready && s.doomed)
  | .timedOut t byClose | .cancelled t byClose =>
    byClose || !((s.publications[t]?).any (·.copy.made) && s.succeeded)
  | .copyCreated t => !((s.publications[t]?).any (·.cleanup == .waiting) && s.succeeded)
  | _ => true

end FinalKey

/-- An event belongs to a publication. -/
def PublishEvent.publication : PublishEvent κ → Option ℕ
  | .requested _ => none
  | .statRead t | .resumed t | .interrupted t _ | .copyAdmitted t | .copyCreated t | .copyReturned t
  | .copyRefused t | .copyFailed t _ | .timedOut t _ | .cancelled t _ | .finalized t
  | .finalizerStopped t | .deleted t | .deleteFailed t => some t

variable {s s' : FinalKey κ} {p q : Publication κ} {t : ℕ} {stat : Option κ} {event : PublishEvent κ}

/-- What an event does to the publication it belongs to. -/
inductive Advanced (p : Publication κ) (event : PublishEvent κ) : Publication κ → Prop
  | phase (phase : PublishPhase κ) (hactive : ∀ error, p.phase ≠ .raised error)
      (hphase : ∀ reused, phase = .returned reused →
        p.phase = .returning reused ∧ ∃ t, event = .resumed t) :
      Advanced p event (p.setPhase phase)
  | admitted (hphase : p.phase = .admitting) :
      Advanced p event ((p.setPhase .copying).setCopy .running)
  | copied (copy : CopyPhase) (hopen : p.copy ≠ .returned)
      (hmade : copy.made = true → p.copy.made = true) :
      Advanced p event (p.setCopy copy)
  | abandoned (t : ℕ) (error : PublishError) (byClose : Bool) (hphase : p.phase = .copying)
      (hevent : event = .timedOut t byClose ∨ event = .cancelled t byClose) :
      Advanced p event (p.abandon error byClose)
  | deleting (hcleanup : p.cleanup = .waiting) (hcopy : p.copy = .returned) :
      Advanced p event (p.setCleanup .deleting)
  | ended (hcleanup : p.cleanup ≠ .none) : Advanced p event (p.setCleanup .finished)

/-- A publication with a finalizer has raised, and the finalizer removes what a copy made that
returned. -/
structure Publication.Consistent (p : Publication κ) : Prop where
  raised : p.cleanup ≠ .none → ∃ error, p.phase = .raised error
  deleting : p.cleanup = .deleting → p.copy = .returned

theorem Advanced.consistent (h : p.Consistent) (hadvanced : Advanced p event q) : q.Consistent := by
  cases hadvanced with
  | phase phase hactive =>
    refine ⟨fun hcleanup => ?_, h.deleting⟩
    obtain ⟨error, hraised⟩ := h.raised hcleanup
    exact absurd hraised (hactive error)
  | admitted hphase =>
    have hnone : p.cleanup = .none := by
      by_contra hcleanup
      obtain ⟨error, hraised⟩ := h.raised hcleanup
      rw [hphase] at hraised
      cases hraised
    constructor
    · exact fun hcleanup => absurd hnone hcleanup
    · intro hcleanup
      change p.cleanup = .deleting at hcleanup
      rw [hnone] at hcleanup
      cases hcleanup
  | copied copy hopen => exact ⟨h.raised, fun hcleanup => absurd (h.deleting hcleanup) hopen⟩
  | abandoned t error byClose =>
    cases byClose with
    | true => exact ⟨fun _ => ⟨error, rfl⟩, h.deleting⟩
    | false => exact ⟨fun _ => ⟨error, rfl⟩, nofun⟩
  | deleting hcleanup hcopy =>
    exact ⟨fun _ => h.raised (by rw [hcleanup]; exact nofun), fun _ => hcopy⟩
  | ended hcleanup => exact ⟨fun _ => h.raised hcleanup, nofun⟩

theorem Publication.Consistent.owns_of_doomed (h : p.Consistent) (hdoomed : p.doomed = true) :
    p.owns = true := by
  unfold Publication.doomed at hdoomed
  split at hdoomed
  · rename_i hwaiting
    rw [Publication.owns, hdoomed, hwaiting]
    rfl
  · rename_i hdeleting
    rw [Publication.owns, h.deleting hdeleting, hdeleting]
    rfl
  · cases hdoomed

theorem Publication.Consistent.not_succeeded (h : p.Consistent) (hdoomed : p.doomed = true) :
    p.succeeded = false := by
  have hcleanup : p.cleanup ≠ .none := by
    intro hnone
    rw [Publication.doomed, hnone] at hdoomed
    cases hdoomed
  obtain ⟨error, hraised⟩ := h.raised hcleanup
  rw [Publication.succeeded, hraised]

theorem Advanced.owns (h : p.Consistent) (hadvanced : Advanced p event q) (howns : q.owns = true) :
    p.owns = true := by
  cases hadvanced with
  | phase => exact howns
  | admitted => cases howns
  | copied copy _ hmade =>
    obtain ⟨hcopy, hcleanup⟩ := Bool.and_eq_true_iff.mp howns
    exact Bool.and_eq_true_iff.mpr ⟨hmade hcopy, hcleanup⟩
  | abandoned t error byClose hphase =>
    have hcleanup : p.cleanup ≠ .finished := by
      intro hfinished
      obtain ⟨error', hraised⟩ := h.raised (by rw [hfinished]; exact nofun)
      rw [hphase] at hraised
      cases hraised
    have hcopy : p.copy.made = true := by
      cases byClose <;> exact (Bool.and_eq_true_iff.mp howns).1
    exact Bool.and_eq_true_iff.mpr ⟨hcopy, decide_eq_true hcleanup⟩
  | deleting hcleanup hcopy =>
    rw [Publication.owns, hcleanup, hcopy]
    rfl
  | ended =>
    obtain ⟨-, hcleanup⟩ := Bool.and_eq_true_iff.mp howns
    cases hcleanup

/-- A publication newly succeeds only when the request returns what it had ready. -/
theorem Advanced.succeeded (hadvanced : Advanced p event q) (h : q.succeeded = true) :
    p.succeeded = true ∨ p.ready = true ∧ ∃ t, event = .resumed t := by
  cases hadvanced with
  | phase phase _ hphase =>
    have hreturned : ∃ reused, phase = .returned reused := by
      cases phase with
      | returned reused => exact ⟨reused, rfl⟩
      | _ => cases h
    obtain ⟨reused, rfl⟩ := hreturned
    obtain ⟨hready, hevent⟩ := hphase reused rfl
    exact .inr ⟨by rw [Publication.ready, hready], hevent⟩
  | admitted => cases h
  | copied | deleting | ended => exact .inl h
  | abandoned t error byClose => cases byClose <;> cases h

/-- A publication is newly doomed only when it is abandoned. -/
theorem Advanced.doomed (h : p.Consistent) (hadvanced : Advanced p event q) (hq : q.doomed = true) :
    p.doomed = true ∨ p.copy.made = true ∧ q.succeeded = false ∧
      ∃ t, event = .timedOut t false ∨ event = .cancelled t false := by
  cases hadvanced with
  | phase => exact .inl hq
  | admitted hphase =>
    obtain ⟨hraised, -⟩ := h
    by_cases hcleanup : p.cleanup = .none
    · change (match p.cleanup with
        | .waiting => false
        | .deleting => true
        | _ => false) = true at hq
      rw [hcleanup] at hq
      cases hq
    · obtain ⟨error, herror⟩ := hraised hcleanup
      rw [hphase] at herror
      cases herror
  | copied copy hopen hmade =>
    unfold Publication.doomed at hq ⊢
    change (match p.cleanup with
      | .waiting => copy.made
      | .deleting => true
      | _ => false) = true at hq
    cases hcleanup : p.cleanup with
    | waiting =>
      rw [hcleanup] at hq
      exact .inl (hmade hq)
    | deleting => exact .inl rfl
    | none | finished => rw [hcleanup] at hq; cases hq
  | abandoned t error byClose hphase hevent =>
    cases byClose with
    | true => exact .inl hq
    | false => exact .inr ⟨hq, rfl, t, hevent⟩
  | deleting hcleanup hcopy =>
    rw [Publication.doomed, hcleanup, hcopy]
    exact .inl rfl
  | ended => cases hq

theorem Publication.answer_active {phase : PublishPhase κ} (h : p.answer stat = some phase)
    (error : PublishError) : p.phase ≠ .raised error := by
  intro hphase
  rw [Publication.answer, hphase] at h
  cases h

/-- The object at the key is the one its owner made, so there is at most one owner. -/
structure FinalKey.Owned (s : FinalKey κ) : Prop where
  consistent : ∀ (t : ℕ) (p : Publication κ), s.publications[t]? = some p → p.Consistent
  owner : ∀ (t : ℕ) (p : Publication κ), s.publications[t]? = some p → p.owns = true →
    ∃ content, s.object = some (content, t)

theorem FinalKey.owned_init : (FinalKey.init : FinalKey κ).Owned := ⟨nofun, nofun⟩

/-- No publication has returned while a clean-up is going to remove the object. -/
def FinalKey.Kept (s : FinalKey κ) : Prop :=
  ∀ (t u : ℕ) (p q : Publication κ), s.publications[t]? = some p → s.publications[u]? = some q →
    p.succeeded = true → q.doomed = false

theorem FinalKey.succeeded_of_getElem? (hp : s.publications[t]? = some p)
    (h : p.succeeded = true) : s.succeeded = true :=
  List.any_eq_true.mpr ⟨p, List.mem_of_getElem? hp, h⟩

theorem FinalKey.doomed_of_getElem? (hp : s.publications[t]? = some p)
    (h : p.doomed = true) : s.doomed = true :=
  List.any_eq_true.mpr ⟨p, List.mem_of_getElem? hp, h⟩

theorem FinalKey.exists_of_succeeded (h : s.succeeded = true) :
    ∃ (t : ℕ) (p : Publication κ), s.publications[t]? = some p ∧ p.succeeded = true := by
  obtain ⟨p, hp, hsucceeded⟩ := List.any_eq_true.mp h
  obtain ⟨t, ht⟩ := List.mem_iff_getElem?.mp hp
  exact ⟨t, p, ht, hsucceeded⟩

theorem FinalKey.exists_of_doomed (h : s.doomed = true) :
    ∃ (t : ℕ) (p : Publication κ), s.publications[t]? = some p ∧ p.doomed = true := by
  obtain ⟨p, hp, hdoomed⟩ := List.any_eq_true.mp h
  obtain ⟨t, ht⟩ := List.mem_iff_getElem?.mp hp
  exact ⟨t, p, ht, hdoomed⟩

variable [DecidableEq κ]

namespace FinalKey

/-- The clean-up of the publication `t` can remove an object from the key, and another publication
has returned. -/
def Undoes (s : FinalKey κ) (t : ℕ) : Prop :=
  (∃ u p, u ≠ t ∧ s.publications[u]? = some p ∧ p.succeeded = true) ∧ s.object ≠ none ∧
    (s.step (.deleted t)).isSome

/-- The steps that meet the condition. -/
def carefulStep (s : FinalKey κ) (event : PublishEvent κ) : Option (FinalKey κ) :=
  if s.careful event then s.step event else none

end FinalKey

/-- What one step does to the key. -/
inductive Moves (s : FinalKey κ) (event : PublishEvent κ) : FinalKey κ → Prop
  | requested (content : κ) (hevent : event = .requested content) :
      Moves s event { s with publications := s.publications ++ [⟨content, .heading, .absent, .none⟩] }
  | created (t : ℕ) (p : Publication κ) (hevent : event = .copyCreated t)
      (hp : s.publications[t]? = some p) (hrunning : p.copy = .running) (hobject : s.object = none) :
      Moves s event { s.set t (p.setCopy .created) with object := some (p.content, t) }
  | deleted (t : ℕ) (p : Publication κ) (hevent : event = .deleted t)
      (hp : s.publications[t]? = some p) (hdeleting : p.cleanup = .deleting) :
      Moves s event { s.set t (p.setCleanup .finished) with object := none }
  | advanced (t : ℕ) (p q : Publication κ) (hevent : event.publication = some t)
      (hp : s.publications[t]? = some p)
      (hq : p.advance (s.object.map Prod.fst) event = some q) : Moves s event (s.set t q)

theorem moves_of_step (hstep : s.step event = some s') : Moves s event s' := by
  cases event <;> dsimp only [FinalKey.step] at hstep
  case requested content =>
    cases hstep
    exact .requested content rfl
  case copyCreated t =>
    obtain ⟨p, hp, hcreated⟩ := Option.bind_eq_some_iff.mp hstep
    split at hcreated
    · rename_i h
      cases hcreated
      exact .created t p rfl hp h.1 h.2
    · cases hcreated
  case deleted t =>
    obtain ⟨p, hp, hdeleted⟩ := Option.bind_eq_some_iff.mp hstep
    split at hdeleted
    · rename_i h
      cases hdeleted
      exact .deleted t p rfl hp h
    · cases hdeleted
  all_goals
    obtain ⟨p, hp, hadvanced⟩ := Option.bind_eq_some_iff.mp hstep
    obtain ⟨q, hq, hs'⟩ := Option.map_eq_some_iff.mp hadvanced
    subst hs'
    exact .advanced _ p q rfl hp hq

theorem Publication.resume_returned {reused : Bool} (h : p.resume = some (.returned reused)) :
    p.phase = .returning reused := by
  unfold Publication.resume at h
  split at h
  case h_8 reused' hphase =>
    cases h
    exact hphase
  case h_3 => split at h <;> cases h
  case h_2 stat _ | h_7 stat _ =>
    unfold Publication.reuseOrConflict at h
    split at h <;> cases h
  case h_5 => split at h <;> cases h
  all_goals cases h

theorem Publication.resume_active {phase : PublishPhase κ} (h : p.resume = some phase)
    (error : PublishError) : p.phase ≠ .raised error := by
  intro hphase
  rw [Publication.resume, hphase] at h
  cases h

theorem advanced_of_advance (h : p.advance stat event = some q) : Advanced p event q := by
  cases event <;> dsimp only [Publication.advance] at h
  case statRead t =>
    obtain ⟨phase, hphase, hq⟩ := Option.map_eq_some_iff.mp h
    subst hq
    apply Advanced.phase
    · exact Publication.answer_active hphase
    · rintro reused rfl
      unfold Publication.answer at hphase
      split at hphase <;> cases hphase
  case resumed t =>
    obtain ⟨phase, hphase, hq⟩ := Option.map_eq_some_iff.mp h
    subst hq
    apply Advanced.phase
    · exact Publication.resume_active hphase
    · rintro reused rfl
      exact ⟨p.resume_returned hphase, t, rfl⟩
  case interrupted t error =>
    split at h <;> cases h
    rename_i hactive
    apply Advanced.phase
    · intro error' hphase
      rw [Publication.interruptible, hphase] at hactive
      cases hactive
    · exact nofun
  case copyAdmitted t =>
    split at h <;> cases h
    rename_i hphase
    exact .admitted hphase
  case copyReturned t =>
    split at h <;> cases h
    rename_i hcreated
    apply Advanced.copied
    · rw [hcreated]
      exact nofun
    · intro _
      rw [hcreated]
      rfl
  case copyRefused t =>
    split at h <;> cases h
    rename_i hrunning
    apply Advanced.copied
    · rw [hrunning]
      exact nofun
    · exact nofun
  case copyFailed t sourceChanged =>
    split at h <;> cases h <;> rename_i hcopy
    · exact .copied _ (by rw [hcopy]; exact nofun) nofun
    · exact .copied _ (by rw [hcopy]; exact nofun) nofun
  case timedOut t byClose =>
    split at h <;> cases h <;> rename_i hphase _ <;> exact .abandoned t _ _ hphase (.inl rfl)
  case cancelled t byClose =>
    split at h <;> cases h
    rename_i hphase
    exact .abandoned t _ _ hphase (.inr rfl)
  case finalized t =>
    split at h
    · rename_i hwaiting
      split at h
      · rename_i hcopy
        cases h
        exact .deleting hwaiting hcopy
      · cases h
        exact .ended (by rw [hwaiting]; exact nofun)
      · cases h
    · cases h
  case finalizerStopped t | deleteFailed t =>
    split at h <;> cases h
    rename_i hcleanup
    exact .ended (by rw [hcleanup]; exact nofun)
  all_goals cases h

theorem FinalKey.Owned.step (h : s.Owned) (hstep : s.step event = some s') : s'.Owned := by
  cases moves_of_step hstep with
  | requested content =>
    constructor
    · intro u q hq
      rcases getElem?_append_singleton_cases hq with ⟨-, rfl⟩ | hold
      · exact ⟨fun hcleanup => absurd rfl hcleanup, nofun⟩
      · exact h.consistent u q hold
    · intro u q hq howns
      rcases getElem?_append_singleton_cases hq with ⟨-, rfl⟩ | hold
      · cases howns
      · exact h.owner u q hold howns
  | created t p _ hp hrunning hobject =>
    have hconsistent := h.consistent t p hp
    constructor
    · intro u q hq
      rcases getElem?_set_cases hq with ⟨-, rfl⟩ | ⟨-, hold⟩
      · refine ⟨hconsistent.raised, fun hdeleting => ?_⟩
        have := hconsistent.deleting hdeleting
        rw [hrunning] at this
        cases this
      · exact h.consistent u q hold
    · intro u q hq howns
      rcases getElem?_set_cases hq with ⟨rfl, -⟩ | ⟨-, hold⟩
      · exact ⟨p.content, rfl⟩
      · obtain ⟨content, howner⟩ := h.owner u q hold howns
        rw [hobject] at howner
        cases howner
  | deleted t p _ hp hdeleting =>
    have hconsistent := h.consistent t p hp
    have howns : p.owns = true := hconsistent.owns_of_doomed (by rw [Publication.doomed, hdeleting])
    obtain ⟨content, hobject⟩ := h.owner t p hp howns
    constructor
    · intro u q hq
      rcases getElem?_set_cases hq with ⟨-, rfl⟩ | ⟨-, hold⟩
      · exact ⟨fun _ => hconsistent.raised (by rw [hdeleting]; exact nofun), nofun⟩
      · exact h.consistent u q hold
    · intro u q hq hother
      rcases getElem?_set_cases hq with ⟨-, rfl⟩ | ⟨hne, hold⟩
      · exact absurd (Bool.and_eq_true_iff.mp hother).2 nofun
      · obtain ⟨content', howner⟩ := h.owner u q hold hother
        rw [hobject] at howner
        cases howner
        exact absurd rfl hne
  | advanced t p q _ hp hq =>
    have hconsistent := h.consistent t p hp
    have hadvanced := advanced_of_advance hq
    constructor
    · intro u r hr
      rcases getElem?_set_cases hr with ⟨-, rfl⟩ | ⟨-, hold⟩
      · exact hadvanced.consistent hconsistent
      · exact h.consistent u r hold
    · intro u r hr howns
      rcases getElem?_set_cases hr with ⟨rfl, rfl⟩ | ⟨-, hold⟩
      · exact h.owner u p hp (hadvanced.owns hconsistent howns)
      · exact h.owner u r hold howns

theorem FinalKey.Kept.step (h : s.Kept) (howned : s.Owned) (hcareful : s.careful event = true)
    (hstep : s.step event = some s') : s'.Kept := by
  cases moves_of_step hstep with
  | requested content =>
    intro t u p q hp hq hsucceeded
    rcases getElem?_append_singleton_cases hp with ⟨-, rfl⟩ | hp
    · cases hsucceeded
    · rcases getElem?_append_singleton_cases hq with ⟨-, rfl⟩ | hq
      · rfl
      · exact h t u p q hp hq hsucceeded
  | created v r hevent hr hrunning hobject =>
    intro t u p q hp hq hsucceeded
    have hold : s.succeeded = true ∧ ∃ (t : ℕ) (p : Publication κ), s.publications[t]? = some p ∧ p.succeeded = true := by
      rcases getElem?_set_cases hp with ⟨-, rfl⟩ | ⟨-, hp⟩
      · exact ⟨FinalKey.succeeded_of_getElem? hr hsucceeded, v, r, hr, hsucceeded⟩
      · exact ⟨FinalKey.succeeded_of_getElem? hp hsucceeded, t, p, hp, hsucceeded⟩
    obtain ⟨hany, t', p', hp', hsucceeded'⟩ := hold
    rcases getElem?_set_cases hq with ⟨-, rfl⟩ | ⟨-, hq⟩
    · cases hcleanup : r.cleanup with
      | waiting =>
        subst hevent
        simp only [FinalKey.careful, hr, hany, Option.any_some, hcleanup, beq_self_eq_true,
          Bool.and_self, Bool.not_true, Bool.false_eq_true] at hcareful
      | none | finished => simp only [Publication.doomed, Publication.setCopy, hcleanup]
      | deleting =>
        have hdoomed := h t' v p' r hp' hr hsucceeded'
        rw [Publication.doomed, hcleanup] at hdoomed
        cases hdoomed
    · exact h t' u p' q hp' hq hsucceeded'
  | deleted v r hevent hr hdeleting =>
    intro t u p q hp hq hsucceeded
    have hold : ∃ (t : ℕ) (p : Publication κ), s.publications[t]? = some p ∧ p.succeeded = true := by
      rcases getElem?_set_cases hp with ⟨-, rfl⟩ | ⟨-, hp⟩
      · exact ⟨v, r, hr, hsucceeded⟩
      · exact ⟨t, p, hp, hsucceeded⟩
    obtain ⟨t', p', hp', hsucceeded'⟩ := hold
    rcases getElem?_set_cases hq with ⟨-, rfl⟩ | ⟨-, hq⟩
    · rfl
    · exact h t' u p' q hp' hq hsucceeded'
  | advanced v r r' hevent hr hr' =>
    have hconsistent := howned.consistent v r hr
    have hadvanced := advanced_of_advance hr'
    intro t u p q hp hq hsucceeded
    have hsuccess : (∃ (t : ℕ) (p : Publication κ), s.publications[t]? = some p ∧
        p.succeeded = true) ∨
        r.ready = true ∧ ∃ t, event = .resumed t := by
      rcases getElem?_set_cases hp with ⟨-, rfl⟩ | ⟨-, hp⟩
      · rcases hadvanced.succeeded hsucceeded with hold | hnew
        · exact .inl ⟨v, r, hr, hold⟩
        · exact .inr hnew
      · exact .inl ⟨t, p, hp, hsucceeded⟩
    by_contra hnot
    have hdoom : (∃ (u : ℕ) (q : Publication κ), s.publications[u]? = some q ∧ q.doomed = true) ∨
        r.copy.made = true ∧ ∃ t, event = .timedOut t false ∨ event = .cancelled t false := by
      have hdoomed : q.doomed = true := (Bool.not_eq_false _).mp hnot
      rcases getElem?_set_cases hq with ⟨-, rfl⟩ | ⟨-, hq⟩
      · rcases hadvanced.doomed hconsistent hdoomed with hold | ⟨hmade, -, hnew⟩
        · exact .inl ⟨v, r, hr, hold⟩
        · exact .inr ⟨hmade, hnew⟩
      · exact .inl ⟨u, q, hq, hdoomed⟩
    rcases hsuccess with ⟨t', p', hp', hsucceeded'⟩ | ⟨hready, w, hresumed⟩
    · rcases hdoom with ⟨u', q', hq', hdoomed'⟩ | ⟨hmade, w, habandoned⟩
      · have := h t' u' p' q' hp' hq' hsucceeded'
        rw [hdoomed'] at this
        cases this
      · have hany := FinalKey.succeeded_of_getElem? hp' hsucceeded'
        rcases habandoned with rfl | rfl <;> cases hevent <;>
          simp only [FinalKey.careful, hr, hany, Option.any_some, hmade, Bool.and_self,
            Bool.not_true, Bool.or_self, Bool.false_eq_true] at hcareful
    · subst hresumed
      cases hevent
      rcases hdoom with ⟨u', q', hq', hdoomed'⟩ | ⟨-, w', habandoned⟩
      · have hany := FinalKey.doomed_of_getElem? hq' hdoomed'
        simp only [FinalKey.careful, hr, hany, Option.any_some, hready, Bool.and_self,
          Bool.not_true, Bool.false_eq_true] at hcareful
      · rcases habandoned with habandoned | habandoned <;> cases habandoned

theorem FinalKey.step_finalized (hp : s.publications[t]? = some p) (hcleanup : p.cleanup = .waiting)
    (hcopy : p.copy = .returned) :
    s.step (.finalized t) = some (s.set t (p.setCleanup .deleting)) := by
  simp only [FinalKey.step, hp, Option.bind_some, Publication.advance, hcleanup, hcopy, if_true,
    Option.map_some]

theorem FinalKey.step_copyReturned (hp : s.publications[t]? = some p) (hcopy : p.copy = .created) :
    s.step (.copyReturned t) = some (s.set t (p.setCopy .returned)) := by
  simp only [FinalKey.step, hp, Option.bind_some, Publication.advance, hcopy, if_true,
    Option.map_some]

theorem FinalKey.undoes_of_deleting (howned : s.Owned) {u : ℕ}
    (hp : s.publications[t]? = some p) (hsucceeded : p.succeeded = true)
    (hq : s.publications[u]? = some q) (hdeleting : q.cleanup = .deleting) : s.Undoes u := by
  have hconsistent := howned.consistent u q hq
  have hdoomed : q.doomed = true := by rw [Publication.doomed, hdeleting]
  obtain ⟨content, hobject⟩ := howned.owner u q hq (hconsistent.owns_of_doomed hdoomed)
  refine ⟨⟨t, p, ?_, hp, hsucceeded⟩, ?_, ?_⟩
  · rintro rfl
    rw [hp] at hq
    cases hq
    rw [hconsistent.not_succeeded hdoomed] at hsucceeded
    cases hsucceeded
  · rw [hobject]
    exact Option.some_ne_none _
  · simp only [FinalKey.step, hq, Option.bind_some, hdeleting, if_true, Option.isSome_some]

/-- A clean-up that is going to remove the object can do so while another publication has returned. -/
theorem FinalKey.undone_of_doomed (howned : s.Owned) {u : ℕ}
    (hp : s.publications[t]? = some p) (hsucceeded : p.succeeded = true)
    (hq : s.publications[u]? = some q) (hdoomed : q.doomed = true) :
    ∃ s', Reaches FinalKey.step s s' ∧ s'.Undoes u := by
  have hne : t ≠ u := by
    rintro rfl
    rw [hp] at hq
    cases hq
    rw [(howned.consistent t p hp).not_succeeded hdoomed] at hsucceeded
    cases hsucceeded
  have hother : ∀ (s₁ : FinalKey κ) (r : Publication κ), s₁.publications[t]? = some p →
      (s₁.set u r).publications[t]? = some p := by
    intro s₁ r h
    rw [FinalKey.set, List.getElem?_set_ne hne.symm, h]
  have hfinalize : ∀ (s₁ : FinalKey κ) (r : Publication κ), s₁.Owned → s₁.publications[t]? = some p →
      s₁.publications[u]? = some r → r.cleanup = .waiting → r.copy = .returned →
      ∃ s', Reaches FinalKey.step s₁ s' ∧ s'.Undoes u := by
    intro s₁ r howned₁ hp₁ hr hwaiting hreturned
    have hstep := FinalKey.step_finalized hr hwaiting hreturned
    exact ⟨_, (Reaches.refl s₁).tail hstep, FinalKey.undoes_of_deleting (howned₁.step hstep)
      (hother s₁ _ hp₁) hsucceeded (getElem?_set_same hr) rfl⟩
  unfold Publication.doomed at hdoomed
  split at hdoomed
  · rename_i hwaiting
    cases hcopy : q.copy with
    | created =>
      have hstep := FinalKey.step_copyReturned hq hcopy
      obtain ⟨s', hreaches, hundoes⟩ := hfinalize (s.set u (q.setCopy .returned)) _
        (howned.step hstep) (hother s _ hp) (getElem?_set_same hq) hwaiting rfl
      exact ⟨s', ((Reaches.refl s).tail hstep).trans hreaches, hundoes⟩
    | returned => exact hfinalize s q howned hp hq hwaiting hcopy
    | absent | running | raised => rw [hcopy] at hdoomed; cases hdoomed
  · rename_i hdeleting
    exact ⟨s, Reaches.refl s, FinalKey.undoes_of_deleting howned hp hsucceeded hq hdeleting⟩
  · cases hdoomed

/-- A publication that becomes doomed while another one has returned. -/
theorem FinalKey.undone_of_set {q : Publication κ} (howned : s'.Owned)
    (hs' : s'.publications = s.publications.set t q) (hp : s.publications[t]? = some p)
    (hnot : p.succeeded = false) (hdoomed : q.doomed = true) (hsucceeded : s.succeeded = true) :
    ∃ u s'', Reaches FinalKey.step s' s'' ∧ s''.Undoes u := by
  obtain ⟨v, r, hr, hreturned⟩ := FinalKey.exists_of_succeeded hsucceeded
  have hne : v ≠ t := by
    rintro rfl
    rw [hp] at hr
    cases hr
    rw [hnot] at hreturned
    cases hreturned
  refine ⟨t, FinalKey.undone_of_doomed howned (t := v) (p := r) ?_ hreturned (q := q) ?_ hdoomed⟩
  · rw [hs', List.getElem?_set_ne hne.symm, hr]
  · rw [hs']
    exact getElem?_set_same hp

/-- A step that does not meet the condition leads on to a removal after a success. -/
theorem FinalKey.undone_of_careless (howned : s.Owned) (hcareless : s.careful event = false)
    (hstep : s.step event = some s') : ∃ u s'', Reaches FinalKey.step s' s'' ∧ s''.Undoes u := by
  have howned' := howned.step hstep
  have habandoned : ∀ (t : ℕ) (p : Publication κ) (error : PublishError),
      s.publications[t]? = some p → p.phase = .copying → p.copy.made = true →
      s.succeeded = true → s' = s.set t (p.abandon error false) →
      ∃ u s'', Reaches FinalKey.step s' s'' ∧ s''.Undoes u := by
    intro t p error hp hphase hmade hsucceeded hs'
    refine FinalKey.undone_of_set howned' (q := p.abandon error false) (by rw [hs']; rfl) hp ?_
      hmade hsucceeded
    rw [Publication.succeeded, hphase]
  cases event <;> dsimp only [FinalKey.careful] at hcareless
  case resumed t =>
    obtain ⟨p, hp, hadvanced⟩ := Option.bind_eq_some_iff.mp hstep
    obtain ⟨q, hq, rfl⟩ := Option.map_eq_some_iff.mp hadvanced
    rw [hp, Option.any_some, Bool.not_eq_false', Bool.and_eq_true_iff] at hcareless
    obtain ⟨hready, hdoomed⟩ := hcareless
    obtain ⟨u, r, hr, hdoomed'⟩ := FinalKey.exists_of_doomed hdoomed
    have hreturned : q.succeeded = true := by
      obtain ⟨phase, hphase, rfl⟩ := Option.map_eq_some_iff.mp hq
      unfold Publication.ready at hready
      split at hready
      · rename_i reused hreturning
        rw [Publication.resume, hreturning] at hphase
        cases hphase
        rfl
      · cases hready
    have hne : u ≠ t := by
      rintro rfl
      rw [hp] at hr
      cases hr
      obtain ⟨error, hraised⟩ := (howned.consistent u p hp).raised fun hnone => by
        rw [Publication.doomed, hnone] at hdoomed'
        cases hdoomed'
      rw [Publication.ready, hraised] at hready
      cases hready
    refine ⟨u, FinalKey.undone_of_doomed howned' (getElem?_set_same hp) hreturned (q := r) ?_ hdoomed'⟩
    exact (List.getElem?_set_ne hne.symm).trans hr
  case timedOut t byClose =>
    obtain ⟨p, hp, hadvanced⟩ := Option.bind_eq_some_iff.mp hstep
    obtain ⟨q, hq, rfl⟩ := Option.map_eq_some_iff.mp hadvanced
    rw [hp, Option.any_some, Bool.or_eq_false_iff, Bool.not_eq_false', Bool.and_eq_true_iff]
      at hcareless
    obtain ⟨rfl, hmade, hsucceeded⟩ := hcareless
    dsimp only [Publication.advance] at hq
    split at hq <;> cases hq <;> rename_i hphase _ <;>
      exact habandoned t p _ hp hphase hmade hsucceeded rfl
  case cancelled t byClose =>
    obtain ⟨p, hp, hadvanced⟩ := Option.bind_eq_some_iff.mp hstep
    obtain ⟨q, hq, rfl⟩ := Option.map_eq_some_iff.mp hadvanced
    rw [hp, Option.any_some, Bool.or_eq_false_iff, Bool.not_eq_false', Bool.and_eq_true_iff]
      at hcareless
    obtain ⟨rfl, hmade, hsucceeded⟩ := hcareless
    dsimp only [Publication.advance] at hq
    split at hq <;> cases hq
    rename_i hphase
    exact habandoned t p _ hp hphase hmade hsucceeded rfl
  case copyCreated t =>
    obtain ⟨p, hp, hcreated⟩ := Option.bind_eq_some_iff.mp hstep
    rw [hp, Option.any_some, Bool.not_eq_false', Bool.and_eq_true_iff, beq_iff_eq] at hcareless
    obtain ⟨hwaiting, hsucceeded⟩ := hcareless
    split at hcreated <;> cases hcreated
    have hdoomed : (p.setCopy .created).doomed = true := by
      change (match p.cleanup with
        | .waiting => true
        | .deleting => true
        | _ => false) = true
      rw [hwaiting]
    refine FinalKey.undone_of_set howned' rfl hp ?_ hdoomed hsucceeded
    obtain ⟨error, hraised⟩ := (howned.consistent t p hp).raised (by rw [hwaiting]; exact nofun)
    rw [Publication.succeeded, hraised]
  all_goals cases hcareless

theorem FinalKey.owned_kept_of_reaches (h : Reaches FinalKey.carefulStep (.init : FinalKey κ) s) :
    s.Owned ∧ s.Kept := by
  have hinit : (FinalKey.init : FinalKey κ).Kept := by
    intro t u p q hp
    rw [FinalKey.init, List.getElem?_nil] at hp
    cases hp
  apply h.induction_on (fun s => s.Owned ∧ s.Kept) ?_ ⟨FinalKey.owned_init, hinit⟩
  rintro t event u ⟨howned, hkept⟩ hstep
  unfold FinalKey.carefulStep at hstep
  split at hstep
  · rename_i hcareful
    exact ⟨howned.step hstep, hkept.step howned hcareful hstep⟩
  · cases hstep

/-- In a run whose steps all meet the condition, no clean-up removes the object once another
publication has returned; and from a step that does not meet it, such a removal can follow. -/
theorem publication_kept (h : Reaches FinalKey.carefulStep (.init : FinalKey κ) s) :
    (∀ t, ¬ s.Undoes t) ∧
    ∀ event s', s.careful event = false → s.step event = some s' →
      ∃ u s'', Reaches FinalKey.step s' s'' ∧ s''.Undoes u := by
  obtain ⟨howned, hkept⟩ := FinalKey.owned_kept_of_reaches h
  constructor
  · rintro t ⟨⟨u, p, -, hp, hsucceeded⟩, -, hdeleted⟩
    obtain ⟨s', hs'⟩ := Option.isSome_iff_exists.mp hdeleted
    obtain ⟨q, hq, hdeleting⟩ := Option.bind_eq_some_iff.mp hs'
    split at hdeleting
    · rename_i hcleanup
      have := hkept u t p q hp hq hsucceeded
      rw [Publication.doomed, hcleanup] at this
      cases this
    · cases hdeleting
  · intro event s' hcareless hstep
    exact FinalKey.undone_of_careless howned hcareless hstep

/-- A copy succeeds after its deadline, another publication finds the object and returns it, and then
the clean-up of the first is about to remove it. -/
def undoneRun : List (PublishEvent ℕ) :=
  [.requested 7, .statRead 0, .resumed 0, .copyAdmitted 0, .timedOut 0 false, .copyCreated 0,
    .copyReturned 0, .requested 7, .statRead 1, .resumed 1, .resumed 1, .finalized 0]

theorem publication_undone :
    ¬ ∀ s : FinalKey ℕ, Reaches FinalKey.step .init s → ∀ t, ¬ s.Undoes t := by
  intro hall
  have hrun : (runs FinalKey.step (.init : FinalKey ℕ) undoneRun).map
      (fun s => (s.publications[1]?, s.object, (s.step (.deleted 0)).isSome)) =
        some (some ⟨7, .returned true, .absent, .none⟩, some (7, 0), true) := by decide +kernel
  obtain ⟨s, hs, heq⟩ := Option.map_eq_some_iff.mp hrun
  obtain ⟨hreturned, hobject, hdeleted⟩ := (Prod.mk.injEq _ _ _ _ ▸ heq).imp_right Prod.mk.inj
  refine hall s ⟨undoneRun, hs⟩ 0 ⟨⟨1, _, by decide, hreturned, rfl⟩, ?_, hdeleted⟩
  rw [hobject]
  exact Option.some_ne_none _

/-- A copy ends in time and its publication returns, and a later one returns the same object. -/
def keptRun : List (PublishEvent ℕ) :=
  [.requested 7, .requested 7, .statRead 0, .resumed 0, .copyAdmitted 0, .copyCreated 0,
    .copyReturned 0, .resumed 0, .statRead 0, .resumed 0, .resumed 0, .statRead 1, .resumed 1,
    .resumed 1]

theorem publication_kept_keptRun :
    ∃ s : FinalKey ℕ, s.publications.map (·.phase) = [.returned false, .returned true] ∧
      ∀ t, ¬ s.Undoes t := by
  have hrun : (runs FinalKey.carefulStep (.init : FinalKey ℕ) keptRun).map
      (fun s => s.publications.map (·.phase)) = some [.returned false, .returned true] := by
    decide +kernel
  obtain ⟨s, hs, hphases⟩ := Option.map_eq_some_iff.mp hrun
  exact ⟨s, hphases, (publication_kept ⟨keptRun, hs⟩).1⟩

end VeloxRag.ObjectStore
