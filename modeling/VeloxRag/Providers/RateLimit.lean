import VeloxRag.Lib.TokenBucket
import VeloxRag.Providers.Admission

/-!
# The rate of admissions

The limit states of one provider, one after the other, are one token bucket: `_refill_existing_rate`
is its lazy refill, an admission takes a token, a refund gives it back, and a state that is forgotten
because its bucket is full comes back as a full bucket.  So the bound of the bucket on every window is
the bound on the admissions, and since a request that was admitted attempts the provider or is
refunded, and never both, the attempts are bounded by what was taken and not given back.

## Main definitions

* `bucketEvents` — the history of one provider as the actions of a bucket.
* `RatedBy`, `Rated` — the live state of a provider shows the level of its bucket.
* `happened` — how often an action of a provider happened in a window.
* `rate_limit` — the bounds.
-/

namespace VeloxRag.Embeddings

open Lib

/-- What an entry of the history does to the bucket. -/
def LimitAction.bucketAction : LimitAction → Option BucketAction
  | .admitted => some .take
  | .refunded => some .give
  | .recreated => some .reset
  | .created | .attempted => none

/-- The history of one provider, as the actions of its bucket. -/
def bucketEvents (provider : ℕ) (history : List LimitRecord) : List (BucketAction × ℚ) :=
  history.filterMap fun record =>
    if record.provider = provider then record.action.bucketAction.map fun a => (a, record.time)
    else none

/-- The bucket brought up to date. -/
def refilledAt (r : ℕ) (b : Bucket ℚ) (now : ℚ) : Bucket ℚ :=
  ⟨min r (b.level + r / rateWindowSeconds * (now - b.updated)), now⟩

/-- A limit state shows the level of the bucket. -/
def Shows (r : ℕ) (b : Bucket ℚ) (state : ProviderLimitState) : Prop :=
  match state.rateTokens with
  | none => b.level = r
  | some tokens => b.level = tokens ∧ state.rateUpdatedAt = some b.updated ∧
      state.rateCapacity = r ∧ state.ratePerMinute = r

/-- The bucket of a provider that was used. -/
structure RatedBy (g : Gateway) (provider r : ℕ) (b : Bucket ℚ) : Prop where
  run : BucketRun (r : ℚ) (r / rateWindowSeconds) rateTolerance (bucketEvents provider g.history) b
  updated : b.updated ∈ g.readings
  used : ∃ record ∈ g.history, record.provider = provider
  live : ∀ st state, (provider, st) ∈ g.limitStates → g.states[st]? = some state → Shows r b state
  dropped : provider ∉ g.limitStates.map Prod.fst → r ≤ b.level + rateTolerance

/-- A provider that was never used. -/
structure Unused (g : Gateway) (provider : ℕ) : Prop where
  history : ∀ record ∈ g.history, record.provider ≠ provider
  entries : provider ∉ g.limitStates.map Prod.fst

/-- The provider was never used, or its live state shows the level of a bucket. -/
def Rated (g : Gateway) (provider r : ℕ) : Prop :=
  Unused g provider ∨ ∃ b, RatedBy g provider r b

section Buckets

variable {r : ℕ} {b : Bucket ℚ} {state state' : ProviderLimitState} {now : ℚ}

theorem rate_nonneg (r : ℕ) : (0 : ℚ) ≤ r / rateWindowSeconds := by
  unfold rateWindowSeconds
  positivity

theorem level_le_refilledAt (hlevel : b.level ≤ r) (hnow : b.updated ≤ now) :
    b.level ≤ (refilledAt r b now).level :=
  le_min hlevel (le_add_of_nonneg_right (mul_nonneg (rate_nonneg r) (sub_nonneg.mpr hnow)))

theorem refilledAt_level_le : (refilledAt r b now).level ≤ r := min_le_left _ _

theorem Shows.of_rate (h : Shows r b state) (htokens : state'.rateTokens = state.rateTokens)
    (hupdated : state'.rateUpdatedAt = state.rateUpdatedAt)
    (hcapacity : state'.rateCapacity = state.rateCapacity)
    (hminute : state'.ratePerMinute = state.ratePerMinute) : Shows r b state' := by
  unfold Shows at h ⊢
  rw [htokens, hupdated, hcapacity, hminute]
  exact h

theorem Shows.of_none (h : Shows r b state) (htokens : state.rateTokens = none) : b.level = r := by
  unfold Shows at h
  rw [htokens] at h
  exact h

theorem Shows.of_some {tokens : ℚ} (h : Shows r b state) (htokens : state.rateTokens = some tokens) :
    b.level = tokens ∧ state.rateUpdatedAt = some b.updated ∧ state.rateCapacity = r ∧
      state.ratePerMinute = r := by
  unfold Shows at h
  rw [htokens] at h
  exact h

theorem refilledAt_of_full (h : b.level = r) (hnow : b.updated ≤ now) :
    (refilledAt r b now).level = r := by
  apply le_antisymm refilledAt_level_le
  rw [← h]
  exact level_le_refilledAt (le_of_eq h) hnow

/-- `_refill_existing_rate` is the lazy refill. -/
theorem refillExistingRate_tokens {tokens : ℚ} (h : Shows r b state)
    (htokens : state.rateTokens = some tokens) (hlevel : b.level ≤ r) (hnow : b.updated ≤ now) :
    (refillExistingRate state now).rateTokens = some (refilledAt r b now).level ∧
      (refillExistingRate state now).rateUpdatedAt = some now := by
  obtain ⟨rfl, hupdated, hcapacity, hminute⟩ := h.of_some htokens
  have hmax : max b.updated now = now := max_eq_right hnow
  simp only [refillExistingRate, htokens, hupdated, hmax, hcapacity, hminute, refilledAt, and_true]
  split
  · have hfill : (now - b.updated) * (r : ℚ) / rateWindowSeconds =
        r / rateWindowSeconds * (now - b.updated) := by ring
    rw [hfill]
  · rename_i hidle
    have hzero : (r : ℚ) / rateWindowSeconds * (now - b.updated) = 0 := by
      rcases not_and_or.mp hidle with hidle | hidle
      · have : now - b.updated = 0 := le_antisymm (not_lt.mp hidle) (sub_nonneg.mpr hnow)
        rw [this, mul_zero]
      · rw [Nat.eq_zero_of_not_pos hidle]
        simp
    rw [hzero, add_zero, min_eq_right hlevel]

theorem Shows.refill (h : Shows r b state) (hlevel : b.level ≤ r) (hnow : b.updated ≤ now) :
    Shows r (refilledAt r b now) (refillExistingRate state now) := by
  cases htokens : state.rateTokens with
  | none =>
    rw [refillExistingRate_of_unset htokens, Shows, htokens]
    exact refilledAt_of_full (h.of_none htokens) hnow
  | some tokens =>
    obtain ⟨-, -, hcapacity, hminute⟩ := h.of_some htokens
    obtain ⟨hrefilled, hupdated⟩ := refillExistingRate_tokens h htokens hlevel hnow
    rw [Shows, hrefilled]
    exact ⟨rfl, hupdated, by simpa using hcapacity, by simpa using hminute⟩

/-- `_refresh_rate` with the same rate is the lazy refill of the bucket. -/
theorem refreshRate_tokens (h : Shows r b state) (hlevel : b.level ≤ r) (hnow : b.updated ≤ now) :
    (refreshRate state now r).rateTokens = some (refilledAt r b now).level ∧
      (refreshRate state now r).rateUpdatedAt = some now ∧
        (refreshRate state now r).rateCapacity = r ∧ (refreshRate state now r).ratePerMinute = r := by
  cases htokens : state.rateTokens with
  | none =>
    rw [refilledAt_of_full (h.of_none htokens) hnow]
    simp [refreshRate, htokens]
  | some tokens =>
    obtain ⟨hrefilled, hupdated⟩ := refillExistingRate_tokens h htokens hlevel hnow
    have hle : min (refilledAt r b now).level (r : ℚ) = (refilledAt r b now).level :=
      min_eq_left refilledAt_level_le
    simp [refreshRate, htokens, hrefilled, hupdated, hle]

/-- `_reclaim_delay` leaves the rate or brings it up to date. -/
theorem reclaimDelay_cases : (reclaimDelay state now).1 = state ∨
    (reclaimDelay state now).1 = refillExistingRate state now := by
  by_cases hidle : state.Idle
  · exact .inr (reclaimDelay_of_idle hidle)
  · exact .inl (reclaimDelay_of_busy hidle)

/-- A state that may go has a full bucket. -/
theorem full_of_reclaimable (h : Shows r b state) (hlevel : b.level ≤ r) (hnow : b.updated ≤ now)
    (hgone : (reclaimDelay state now).2 = some 0) :
    r ≤ (refilledAt r b now).level + rateTolerance := by
  have htol : (0 : ℚ) ≤ rateTolerance := by norm_num [rateTolerance]
  have hidle := idle_of_reclaimable hgone
  cases htokens : state.rateTokens with
  | none =>
    rw [refilledAt_of_full (h.of_none htokens) hnow]
    linarith
  | some tokens =>
    obtain ⟨-, -, hcapacity, hminute⟩ := h.of_some htokens
    obtain ⟨hrefilled, -⟩ := refillExistingRate_tokens h htokens hlevel hnow
    by_contra hshort
    have hmissing : ¬((r : ℚ) - (refilledAt r b now).level ≤ rateTolerance) := by linarith
    simp only [reclaimDelay, hidle, not_true, if_false, htokens, hrefilled, Option.getD_some,
      refillExistingRate_rateCapacity, refillExistingRate_ratePerMinute, hcapacity, hminute,
      if_neg hmissing] at hgone
    split at hgone
    · cases hgone
    · rename_i hpos
      have hr : (0 : ℚ) < r := by exact_mod_cast Nat.pos_of_ne_zero hpos
      have hpositive : 0 < (r - (refilledAt r b now).level) * rateWindowSeconds / (r : ℚ) := by
        have : (0 : ℚ) < r - (refilledAt r b now).level := by linarith
        unfold rateWindowSeconds
        positivity
      exact absurd (Option.some.inj hgone) (ne_of_gt hpositive)

end Buckets

section Frames

variable {g g' : Gateway} {p r t st st' : ℕ} {q : EmbeddingRequest} {b : Bucket ℚ}
  {state state' : ProviderLimitState} {phase : RequestPhase} {now : ℚ}

/-- The counters are changed, the rate is not. -/
structure SameRate (state state' : ProviderLimitState) : Prop where
  tokens : state'.rateTokens = state.rateTokens
  updatedAt : state'.rateUpdatedAt = state.rateUpdatedAt
  capacity : state'.rateCapacity = state.rateCapacity
  perMinute : state'.ratePerMinute = state.ratePerMinute

theorem SameRate.refl (state : ProviderLimitState) : SameRate state state := ⟨rfl, rfl, rfl, rfl⟩

/-- A step that does nothing to the rate of a provider. -/
structure Untouched (g g' : Gateway) (p : ℕ) : Prop where
  readings : g.readings ⊆ g'.readings
  history : g.history ⊆ g'.history
  events : bucketEvents p g'.history = bucketEvents p g.history
  told : ∀ record ∈ g'.history, record.provider = p → ∃ record' ∈ g.history, record'.provider = p
  entries : ∀ st, (p, st) ∈ g'.limitStates ↔ (p, st) ∈ g.limitStates
  states : ∀ st state', (p, st) ∈ g.limitStates → g'.states[st]? = some state' →
    ∃ state, g.states[st]? = some state ∧ SameRate state state'

theorem not_mem_keys_iff : p ∉ g.limitStates.map Prod.fst ↔ ∀ st, (p, st) ∉ g.limitStates := by
  simp

theorem Rated.untouched (h : Rated g p r) (hu : Untouched g g' p) : Rated g' p r := by
  rcases h with hunused | ⟨b, hb⟩
  · left
    constructor
    · intro record hrecord hp
      obtain ⟨record', hrecord', hp'⟩ := hu.told record hrecord hp
      exact hunused.history record' hrecord' hp'
    · rw [not_mem_keys_iff]
      intro st hst
      exact not_mem_keys_iff.mp hunused.entries st ((hu.entries st).mp hst)
  · right
    refine ⟨b, ?_, hu.readings hb.updated, ?_, ?_, ?_⟩
    · rw [hu.events]
      exact hb.run
    · obtain ⟨record, hrecord, hp⟩ := hb.used
      exact ⟨record, hu.history hrecord, hp⟩
    · intro st state' hst hstate'
      have hst₀ := (hu.entries st).mp hst
      obtain ⟨state, hstate, hsame⟩ := hu.states st state' hst₀ hstate'
      exact (hb.live st state hst₀ hstate).of_rate hsame.tokens hsame.updatedAt hsame.capacity
        hsame.perMinute
    · intro hnone
      apply hb.dropped
      rw [not_mem_keys_iff] at hnone ⊢
      intro st hst
      exact hnone st ((hu.entries st).mpr hst)

/-- A provider with a live state was used. -/
theorem Rated.used (h : Rated g p r) (hst : (p, st) ∈ g.limitStates) : ∃ b, RatedBy g p r b := by
  rcases h with hunused | hb
  · exact absurd hst (not_mem_keys_iff.mp hunused.entries st)
  · exact hb

/-- The states of two providers are different. -/
theorem Accounts.state_ne {p' : ℕ} (h : Accounts g) (hst : (p, st) ∈ g.limitStates)
    (hst' : (p', st') ∈ g.limitStates) (hne : p ≠ p') : st ≠ st' := by
  rintro rfl
  have heq := List.inj_on_of_nodup_map h.entries hst hst' rfl
  exact hne (congrArg Prod.fst heq)

theorem Accounts.live_unique (h : Accounts g) (hst : (p, st) ∈ g.limitStates)
    (hst' : (p, st') ∈ g.limitStates) : st = st' :=
  congrArg Prod.snd (List.inj_on_of_nodup_map h.providers hst hst' rfl)

/-- Only the counters of one state are changed. -/
theorem Untouched.of_counters (p : ℕ) (hst : g.states[st]? = some state)
    (hsame : SameRate state state') :
    Untouched g ((g.setState st state').setPhase t q phase) p where
  readings := List.Subset.refl _
  history := List.Subset.refl _
  events := rfl
  told record hrecord hp := ⟨record, hrecord, hp⟩
  entries _ := Iff.rfl
  states st' state₁ _ hst' := by
    rcases getElem?_set_cases hst' with ⟨rfl, rfl⟩ | ⟨-, hst'⟩
    · exact ⟨state, hst, hsame⟩
    · exact ⟨state₁, hst', .refl state₁⟩

theorem Untouched.of_eq (p : ℕ) (hreadings : g'.readings = g.readings)
    (hhistory : g'.history = g.history) (hentries : g'.limitStates = g.limitStates)
    (hstates : g'.states = g.states) : Untouched g g' p where
  readings := by rw [hreadings]; exact List.Subset.refl _
  history := by rw [hhistory]; exact List.Subset.refl _
  events := by rw [hhistory]
  told record hrecord hp := ⟨record, by rwa [hhistory] at hrecord, hp⟩
  entries _ := by rw [hentries]
  states st' state₁ _ hst' := ⟨state₁, by rwa [hstates] at hst', .refl state₁⟩

theorem bucketEvents_concat (history : List LimitRecord) (record : LimitRecord) :
    bucketEvents p (history ++ [record]) = bucketEvents p history ++
      (if record.provider = p then
        (record.action.bucketAction.map fun a => (a, record.time)).toList else []) := by
  rw [bucketEvents, List.filterMap_append]
  congr 1
  split
  · cases haction : record.action.bucketAction <;> simp [*]
  · simp [*]

/-- The rate of one state is changed; the other providers do not notice. -/
theorem Untouched.of_other {p' : ℕ} (action : LimitAction) (now : ℚ) (h : Accounts g)
    (hst : (p', st) ∈ g.limitStates) (hne : p ≠ p')
    (hreadings : g.readings ⊆ g'.readings) (hentries : g'.limitStates = g.limitStates)
    (hstates : g'.states = g.states.set st state')
    (hhistory : g'.history = g.history ∨ g'.history = g.history ++ [⟨p', action, now⟩]) :
    Untouched g g' p where
  readings := hreadings
  history := by
    rcases hhistory with hhistory | hhistory <;> rw [hhistory]
    · exact List.Subset.refl _
    · exact List.subset_append_left _ _
  events := by
    rcases hhistory with hhistory | hhistory <;> rw [hhistory]
    rw [bucketEvents_concat, if_neg (Ne.symm hne), List.append_nil]
  told record hrecord hp := by
    rcases hhistory with hhistory | hhistory <;> rw [hhistory] at hrecord
    · exact ⟨record, hrecord, hp⟩
    · rcases List.mem_append.mp hrecord with hrecord | hrecord
      · exact ⟨record, hrecord, hp⟩
      · rw [List.mem_singleton.mp hrecord] at hp
        exact absurd hp.symm hne
  entries _ := by rw [hentries]
  states st' state₁ hst' hstate₁ := by
    rw [hstates] at hstate₁
    rcases getElem?_set_cases hstate₁ with ⟨rfl, rfl⟩ | ⟨-, hstate₁⟩
    · exact absurd rfl (h.state_ne hst' hst hne)
    · exact ⟨state₁, hstate₁, .refl state₁⟩

/-- The rate of the live state of a provider is changed as its bucket is. -/
theorem RatedBy.change {events : List (BucketAction × ℚ)} {b' : Bucket ℚ} (h : RatedBy g p r b)
    (hacc : Accounts g) (hst : (p, st) ∈ g.limitStates)
    (hrun : BucketRun (r : ℚ) (r / rateWindowSeconds) rateTolerance
      (bucketEvents p g.history ++ events) b')
    (hshows : Shows r b' state') (hupdated : b'.updated ∈ g'.readings)
    (hentries : g'.limitStates = g.limitStates) (hstates : g'.states = g.states.set st state')
    (hhistory : g.history ⊆ g'.history)
    (hevents : bucketEvents p g'.history = bucketEvents p g.history ++ events) :
    RatedBy g' p r b' where
  run := by rw [hevents]; exact hrun
  updated := hupdated
  used := by
    obtain ⟨record, hrecord, hp⟩ := h.used
    exact ⟨record, hhistory hrecord, hp⟩
  live st' state₁ hst' hstate₁ := by
    rw [hentries] at hst'
    rw [hstates] at hstate₁
    rcases getElem?_set_cases hstate₁ with ⟨-, rfl⟩ | ⟨hne, -⟩
    · exact hshows
    · exact absurd (hacc.live_unique hst' hst) hne
  dropped hnone := by
    rw [hentries] at hnone
    exact absurd hst (not_mem_keys_iff.mp hnone st)

end Frames

section Steps

variable {g g' : Gateway} {p r t st : ℕ} {q : EmbeddingRequest} {b : Bucket ℚ}
  {state : ProviderLimitState} {now : ℚ}

theorem RatedBy.level_le (h : RatedBy g p r b) : b.level ≤ r := h.run.level_le (Nat.cast_nonneg r)

/-- The lazy refill of the bucket. -/
theorem RatedBy.refill (h : RatedBy g p r b) (hnow : b.updated ≤ now) :
    BucketRun (r : ℚ) (r / rateWindowSeconds) rateTolerance (bucketEvents p g.history)
      (refilledAt r b now) :=
  .refill h.run hnow

/-- The clock does not go back. -/
theorem RatedBy.updated_le (h : RatedBy g p r b) (hclock : (g.readings ++ [now]).Pairwise (· ≤ ·)) :
    b.updated ≤ now :=
  (List.pairwise_append.mp hclock).2.2 b.updated h.updated now (List.mem_singleton.mpr rfl)

theorem Rated.tryAdmit (h : Rated g p r) (hacc : Accounts g) (hst : g.states[st]? = some state)
    (ht : g.requests[t]? = some q) (hphase : q.phase = .queued st)
    (hrate : q.controls.providerConfigId = p → q.controls.requestsPerMinute = r)
    (hclock : (g.tryAdmit t q st state now).readings.Pairwise (· ≤ ·)) :
    Rated (g.tryAdmit t q st state now) p r := by
  have hentry : (q.controls.providerConfigId, st) ∈ g.limitStates :=
    hacc.held t q st ht (by simp [hphase, RequestPhase.holds])
  rcases tryAdmit_cases g t q st state now with ⟨-, -, tokens, htokens, henough, heq⟩ | heq | heq
  · rw [heq] at hclock ⊢
    by_cases hp : q.controls.providerConfigId = p
    · subst hp
      obtain ⟨b, hb⟩ := h.used hentry
      have hnow := hb.updated_le hclock
      obtain ⟨hrefreshed, hupdated, hcapacity, hminute⟩ :=
        refreshRate_tokens (hb.live st state hentry hst) hb.level_le hnow
      rw [hrate rfl] at htokens ⊢
      rw [hrefreshed, Option.getD_some] at htokens
      subst htokens
      right
      refine ⟨_, hb.change hacc hentry ((hb.refill hnow).take henough) ?_
        (List.mem_append_right _ (List.mem_singleton.mpr rfl)) rfl rfl
        (List.subset_append_left _ _) (by
          simp [Gateway.setPhase, Gateway.tell, Gateway.setState, Gateway.read, bucketEvents_concat,
            LimitAction.bucketAction, refilledAt])⟩
      exact ⟨rfl, hupdated, hcapacity, hminute⟩
    · exact h.untouched (.of_other _ now hacc hentry (Ne.symm hp) (List.subset_append_left _ _) rfl rfl
        (.inr rfl))
  · rw [heq] at hclock ⊢
    by_cases hp : q.controls.providerConfigId = p
    · subst hp
      obtain ⟨b, hb⟩ := h.used hentry
      have hnow := hb.updated_le hclock
      obtain ⟨hrefreshed, hupdated, hcapacity, hminute⟩ :=
        refreshRate_tokens (hb.live st state hentry hst) hb.level_le hnow
      rw [hrate rfl]
      right
      have hrun := hb.refill hnow
      rw [← List.append_nil (bucketEvents _ g.history)] at hrun
      refine ⟨_, hb.change hacc hentry hrun ?_
        (List.mem_append_right _ (List.mem_singleton.mpr rfl)) rfl rfl (List.Subset.refl _)
        (by simp [Gateway.setState, Gateway.read])⟩
      rw [Shows, hrefreshed]
      exact ⟨rfl, hupdated, hcapacity, hminute⟩
    · exact h.untouched (.of_other .admitted now hacc hentry (Ne.symm hp)
        (List.subset_append_left _ _) rfl rfl (.inl rfl))
  · rw [heq]
    exact h

theorem Rated.refundRateLimit (h : Rated g p r) (hacc : Accounts g)
    (hst : g.states[st]? = some state) (ht : g.requests[t]? = some q)
    (hphase : q.phase = .refunding st)
    (hclock : (g.refundRateLimit t q st state now).readings.Pairwise (· ≤ ·)) :
    Rated (g.refundRateLimit t q st state now) p r := by
  have hentry : (q.controls.providerConfigId, st) ∈ g.limitStates :=
    hacc.held t q st ht (by simp [hphase, RequestPhase.holds])
  obtain ⟨-, tokens, updatedAt, htokens, hupdated, hcapacity, -⟩ :=
    hacc.rate_set hst ht (by simp [hphase, RequestPhase.worksIn])
  obtain ⟨tokens', htokens', -, heq⟩ := refundRateLimit_eq g t st q now htokens hupdated hcapacity
  rw [heq] at hclock ⊢
  by_cases hp : q.controls.providerConfigId = p
  · subst hp
    obtain ⟨b, hb⟩ := h.used hentry
    have hnow := hb.updated_le hclock
    have hlive := hb.live st state hentry hst
    obtain ⟨-, -, hcap, hminute⟩ := hlive.of_some htokens
    obtain ⟨hrefilled, hrefilledAt⟩ := refillExistingRate_tokens hlive htokens hb.level_le hnow
    rw [hrefilled] at htokens'
    cases htokens'
    right
    refine ⟨_, hb.change hacc hentry (hb.refill hnow).give ?_
      (List.mem_append_right _ (List.mem_singleton.mpr rfl)) rfl rfl
      (List.subset_append_left _ _) (by
        simp [Gateway.setPhase, Gateway.tell, Gateway.setState, Gateway.read, bucketEvents_concat,
          LimitAction.bucketAction, refilledAt])⟩
    rw [hcap]
    exact ⟨rfl, hrefilledAt, by simpa using hcap, by simpa using hminute⟩
  · exact h.untouched (.of_other _ now hacc hentry (Ne.symm hp) (List.subset_append_left _ _) rfl rfl
      (.inr rfl))

/-- The live state after a pass over the registry shows the bucket as it was or brought up to date;
if it may go the bucket is full. -/
theorem RatedBy.reclaimed {state' : ProviderLimitState} (h : RatedBy g p r b)
    (hst : (p, st) ∈ g.limitStates) (hnow : b.updated ≤ now)
    (hstate' : (g.reclaimDelays now).states[st]? = some state') :
    Shows r b state' ∨ Shows r (refilledAt r b now) state' := by
  obtain ⟨state, hstate, heq⟩ := getElem?_reclaimed g.limitStates g.states hstate'
  have hlive := h.live st state hst hstate
  have hcases : state' = state ∨ state' = refillExistingRate state now := by
    rcases heq with rfl | rfl
    · exact .inl rfl
    · exact reclaimDelay_cases
  rcases hcases with rfl | rfl
  · exact .inl hlive
  · exact .inr (hlive.refill h.level_le hnow)

theorem Unused.of_entries (h : Unused g p) (hhistory : g'.history = g.history)
    (hentries : g'.limitStates ⊆ g.limitStates) : Unused g' p where
  history := by rw [hhistory]; exact h.history
  entries := by
    rw [not_mem_keys_iff]
    intro st hst
    exact not_mem_keys_iff.mp h.entries st (hentries hst)

theorem Rated.reclaimDelays (h : Rated g p r) (hacc : Accounts g) (hnow : now ∈ g.readings)
    (hlast : ∀ reading ∈ g.readings, reading ≤ now) : Rated (g.reclaimDelays now) p r := by
  rcases h with hunused | ⟨b, hb⟩
  · exact .inl (hunused.of_entries rfl (List.Subset.refl _))
  · right
    have hupdated := hlast b.updated hb.updated
    by_cases hlive : ∃ st, (p, st) ∈ g.limitStates
    · obtain ⟨st, hst⟩ := hlive
      have hmade := (hacc.reclaimDelays now).made (p, st) hst
      have hstate' := List.getElem?_eq_getElem hmade
      have hdropped : p ∈ g.limitStates.map Prod.fst := List.mem_map.mpr ⟨(p, st), hst, rfl⟩
      have hunique : ∀ st' state', (p, st') ∈ g.limitStates →
          (g.reclaimDelays now).states[st']? = some state' →
            (g.reclaimDelays now).states[st] = state' := by
        intro st' state' hst' hstate'
        rw [hacc.live_unique hst' hst, List.getElem?_eq_getElem hmade] at hstate'
        exact Option.some.inj hstate'
      rcases hb.reclaimed hst hupdated hstate' with hshows | hshows
      · refine ⟨b, hb.run, hb.updated, hb.used, ?_, fun hnone => absurd hdropped hnone⟩
        intro st' state' hst' hstate'
        rw [← hunique st' state' hst' hstate']
        exact hshows
      · refine ⟨_, hb.refill hupdated, hnow, hb.used, ?_, fun hnone => absurd hdropped hnone⟩
        intro st' state' hst' hstate'
        rw [← hunique st' state' hst' hstate']
        exact hshows
    · refine ⟨b, hb.run, hb.updated, hb.used, ?_, hb.dropped⟩
      intro st state hst
      exact absurd ⟨st, hst⟩ hlive

theorem Rated.pruneReclaimableStates (h : Rated g p r) (hacc : Accounts g) (hnow : now ∈ g.readings)
    (hlast : ∀ reading ∈ g.readings, reading ≤ now) :
    Rated (g.pruneReclaimableStates now) p r := by
  rcases h with hunused | ⟨b, hb⟩
  · exact .inl (hunused.of_entries rfl (List.filter_subset_self _))
  · have hupdated := hlast b.updated hb.updated
    by_cases hkept : ∀ st, (p, st) ∈ g.limitStates →
        (p, st) ∈ (g.pruneReclaimableStates now).limitStates
    · -- nothing of this provider is dropped
      rcases Rated.reclaimDelays (.inr ⟨b, hb⟩) hacc hnow hlast with hunused | ⟨b', hb'⟩
      · exact .inl (hunused.of_entries rfl (List.filter_subset_self _))
      · right
        refine ⟨b', hb'.run, hb'.updated, hb'.used, ?_, ?_⟩
        · intro st state hst hstate
          exact hb'.live st state (List.mem_filter.mp hst).1 hstate
        · intro hnone
          apply hb'.dropped
          rw [not_mem_keys_iff] at hnone ⊢
          intro st hst
          exact hnone st (hkept st hst)
    · push Not at hkept
      obtain ⟨st, hst, hgone⟩ := hkept
      obtain ⟨state, hstate, -, hdelay⟩ := idle_of_pruned hst hgone
      have hfull := full_of_reclaimable (hb.live st state hst hstate) hb.level_le hupdated hdelay
      right
      refine ⟨_, hb.refill hupdated, hnow, hb.used, ?_, fun _ => hfull⟩
      intro st' state' hst' _
      have hst₀ := (List.mem_filter.mp hst').1
      rw [hacc.live_unique hst₀ hst] at hst'
      exact absurd hst' hgone

/-- A state is made for another provider. -/
theorem Untouched.createState {p' : ℕ} (hacc : Accounts g) (hne : p ≠ p') :
    Untouched g ((g.createState p' now).setPhase t q (.referenced g.states.length)) p where
  readings := List.Subset.refl _
  history := List.subset_append_left _ _
  events := by
    simp only [Gateway.setPhase, Gateway.createState, Gateway.tell]
    rw [bucketEvents_concat, if_neg (Ne.symm hne), List.append_nil]
  told record hrecord hp := by
    rcases List.mem_append.mp hrecord with hrecord | hrecord
    · exact ⟨record, hrecord, hp⟩
    · rw [List.mem_singleton.mp hrecord] at hp
      exact absurd hp.symm hne
  entries st := by
    constructor
    · intro hst
      rcases List.mem_append.mp hst with hst | hst
      · exact hst
      · exact absurd (congrArg Prod.fst (List.mem_singleton.mp hst)) hne
    · exact List.mem_append_left _
  states st state hst hstate := by
    refine ⟨state, ?_, .refl state⟩
    rw [← hstate]
    exact (List.getElem?_append_left (hacc.made (p, st) hst)).symm

/-- The state that is made for a provider shows a full bucket. -/
theorem RatedBy.created (action : LimitAction) (events : List (BucketAction × ℚ))
    (hnone : p ∉ g.limitStates.map Prod.fst) (hnow : now ∈ g.readings)
    (hrun : BucketRun (r : ℚ) (r / rateWindowSeconds) rateTolerance
      (bucketEvents p g.history ++ events) ⟨r, now⟩)
    (hevents : (action.bucketAction.map fun a => (a, now)).toList = events)
    (hmade : (if g.history.any (fun record => record.provider == p) then LimitAction.recreated
      else .created) = action) :
    RatedBy ((g.createState p now).setPhase t q (.referenced g.states.length)) p r ⟨r, now⟩ where
  run := by
    simp only [Gateway.setPhase, Gateway.createState, Gateway.tell, hmade]
    rw [bucketEvents_concat, if_pos rfl, hevents]
    exact hrun
  updated := hnow
  used := ⟨_, List.mem_append_right _ (List.mem_singleton.mpr rfl), rfl⟩
  live st state hst hstate := by
    have hnew : st = g.states.length := by
      rcases List.mem_append.mp hst with hst | hst
      · exact absurd hst (not_mem_keys_iff.mp hnone st)
      · exact congrArg Prod.snd (List.mem_singleton.mp hst)
    subst hnew
    simp only [Gateway.setPhase, Gateway.createState, List.getElem?_concat_length] at hstate
    cases hstate
    rfl
  dropped hgone := by
    apply absurd _ hgone
    exact List.mem_map.mpr ⟨_, List.mem_append_right _ (List.mem_singleton.mpr rfl), rfl⟩

/-- A provider that was forgotten comes back with a full bucket. -/
theorem Rated.createState (h : Rated g p r) (hacc : Accounts g) (hnow : now ∈ g.readings)
    (hlast : ∀ reading ∈ g.readings, reading ≤ now)
    (hnone : q.controls.providerConfigId ∉ g.limitStates.map Prod.fst) :
    Rated ((g.createState q.controls.providerConfigId now).setPhase t q
      (.referenced g.states.length)) p r := by
  by_cases hp : q.controls.providerConfigId = p
  · subst hp
    right
    rcases h with hunused | ⟨b, hb⟩
    · refine ⟨_, .created .created [] hnone hnow ?_ rfl ?_⟩
      · have hnothing : bucketEvents q.controls.providerConfigId g.history = [] := by
          rw [bucketEvents, List.filterMap_eq_nil_iff]
          intro record hrecord
          rw [if_neg (hunused.history record hrecord)]
        rw [hnothing]
        exact .full now
      · rw [if_neg]
        simpa using hunused.history
    · have hupdated := hlast b.updated hb.updated
      have hfull : (r : ℚ) ≤ (refilledAt r b now).level + rateTolerance :=
        le_trans (hb.dropped hnone)
          (add_le_add_left (level_le_refilledAt hb.level_le hupdated) rateTolerance)
      refine ⟨_, .created .recreated _ hnone hnow (.reset (hb.refill hupdated) hfull) rfl ?_⟩
      rw [if_pos]
      simpa using hb.used
  · exact h.untouched (.createState hacc (Ne.symm hp))

theorem Rated.acquireState {maxProviderStates : ℕ} (h : Rated g p r) (hacc : Accounts g)
    (hclock : (g.acquireState maxProviderStates t q now).readings.Pairwise (· ≤ ·)) :
    Rated (g.acquireState maxProviderStates t q now) p r := by
  have hread : Accounts (g.read now) := hacc.of_eq rfl rfl rfl rfl
  have hrated : Rated (g.read now) p r := by
    apply h.untouched
    exact ⟨List.subset_append_left _ _, List.Subset.refl _, rfl,
      fun record hrecord hp => ⟨record, hrecord, hp⟩, fun _ => Iff.rfl,
      fun _ state _ hstate => ⟨state, hstate, .refl state⟩⟩
  have hnow : now ∈ (g.read now).readings := List.mem_append_right _ (List.mem_singleton.mpr rfl)
  have hlast : (g.read now).readings.Pairwise (· ≤ ·) →
      ∀ reading ∈ (g.read now).readings, reading ≤ now := by
    intro hsorted reading hreading
    rcases List.mem_append.mp hreading with hreading | hreading
    · exact (List.pairwise_append.mp hsorted).2.2 reading hreading now (List.mem_singleton.mpr rfl)
    · exact le_of_eq (List.mem_singleton.mp hreading)
  rcases acquireState_cases maxProviderStates g t q now with
    ⟨st, hlive, ⟨state, hst, heq⟩ | ⟨-, heq⟩⟩ | ⟨hlive, heq | heq⟩
  · rw [heq]
    exact h.untouched (.of_counters p hst ⟨rfl, rfl, rfl, rfl⟩)
  · rw [heq]
    exact h
  · rw [heq] at hclock ⊢
    have hpruned := hrated.pruneReclaimableStates hread hnow (hlast hclock)
    apply hpruned.createState hread.pruneReclaimableStates hnow (hlast hclock)
    intro hmem
    apply not_mem_of_limitState_eq_none hlive
    exact (List.filter_sublist.map Prod.fst).subset hmem
  · rw [heq] at hclock ⊢
    have hpruned := hrated.pruneReclaimableStates hread hnow (hlast hclock)
    exact hpruned.reclaimDelays hread.pruneReclaimableStates hnow (hlast hclock)

theorem Untouched.removeTicket (p : ℕ) (hst : g.states[st]? = some state) :
    Untouched g (g.removeTicket t q st state) p := by
  rw [Gateway.removeTicket]
  split
  · exact .of_counters p hst ⟨rfl, rfl, rfl, rfl⟩
  · exact .of_eq p rfl rfl rfl rfl

theorem Untouched.releaseConcurrency (p : ℕ) (hst : g.states[st]? = some state) :
    Untouched g (g.releaseConcurrency t q st state) p := by
  rw [Gateway.releaseConcurrency]
  split
  · exact .of_eq p rfl rfl rfl rfl
  · exact .of_counters p hst ⟨rfl, rfl, rfl, rfl⟩

theorem Untouched.releaseStateReference (p : ℕ) (hst : g.states[st]? = some state) :
    Untouched g (g.releaseStateReference t q st state) p := by
  rw [Gateway.releaseStateReference]
  split
  · exact .of_eq p rfl rfl rfl rfl
  · exact .of_counters p hst ⟨rfl, rfl, rfl, rfl⟩

/-- An attempt is no action of the bucket. -/
theorem Rated.attempted (h : Rated g p r)
    (hentry : (q.controls.providerConfigId, st) ∈ g.limitStates) (phase : RequestPhase) :
    Rated (((g.read now).tell q.controls.providerConfigId .attempted now).setPhase t q phase) p r := by
  apply h.untouched
  constructor
  · exact List.subset_append_left _ _
  · exact List.subset_append_left _ _
  · simp only [Gateway.setPhase, Gateway.tell, Gateway.read]
    rw [bucketEvents_concat]
    simp [LimitAction.bucketAction]
  · intro record hrecord hp
    rcases List.mem_append.mp hrecord with hrecord | hrecord
    · exact ⟨record, hrecord, hp⟩
    · rw [List.mem_singleton.mp hrecord] at hp
      simp only at hp
      rw [hp] at hentry
      obtain ⟨b, hb⟩ := h.used hentry
      exact hb.used
  · intro _
    exact Iff.rfl
  · intro st state _ hstate
    exact ⟨state, hstate, .refl state⟩

theorem Rated.moved {maxProviderStates : ℕ} (h : Rated g p r) (hacc : Accounts g)
    (ht : g.requests[t]? = some q) (hmoved : Moved maxProviderStates g t q g')
    (hrate : q.controls.providerConfigId = p → q.controls.requestsPerMinute = r)
    (hclock : g'.readings.Pairwise (· ≤ ·)) : Rated g' p r := by
  cases hmoved with
  | acquired now hphase => exact h.acquireState hacc hclock
  | enqueued hst hphase => exact h.untouched (.of_counters p hst ⟨rfl, rfl, rfl, rfl⟩)
  | tried now hst hphase => exact h.tryAdmit hacc hst ht hphase hrate hclock
  | removed hst hphase => exact h.untouched (.removeTicket p hst)
  | @attempted st now hphase =>
    exact h.attempted (hacc.held t q st ht (by simp [hphase, RequestPhase.holds])) _
  | wentOn hon => exact h.untouched (.of_eq p rfl rfl rfl rfl)
  | refunded now hst hphase => exact h.refundRateLimit hacc hst ht hphase hclock
  | concurrencyReleased hst hphase => exact h.untouched (.releaseConcurrency p hst)
  | referenceReleased hst hphase => exact h.untouched (.releaseStateReference p hst)

end Steps

/-! ## What a run tells

A step appends to the history and to the readings, and it leaves the controls of every request. -/

section Ledger

variable {g g' : Gateway} {p r t : ℕ} {q : EmbeddingRequest} {now first last : ℚ}

/-- How often an action of a provider happened between two times. -/
def happened (g : Gateway) (p : ℕ) (action : LimitAction) (first last : ℚ) : ℕ :=
  g.history.countP fun record =>
    decide (record.provider = p ∧ record.action = action ∧ first ≤ record.time ∧ record.time ≤ last)

/-- How often an action of a provider happened until a time. -/
def toldUntil (g : Gateway) (p : ℕ) (action : LimitAction) (last : ℚ) : ℕ :=
  g.history.countP fun record =>
    decide (record.provider = p ∧ record.action = action ∧ record.time ≤ last)

/-- The requests of a provider that were admitted and neither attempted it nor were refunded. -/
def undecided (g : Gateway) (p : ℕ) : ℕ :=
  g.requests.countP fun q => q.phase.undecided && decide (q.controls.providerConfigId = p)

/-- Each admission is followed by an attempt or by a refund. -/
structure Ledger (g : Gateway) (p : ℕ) : Prop where
  read : ∀ record ∈ g.history, record.time ∈ g.readings
  balanced : ∀ last, (∀ reading ∈ g.readings, reading ≤ last) →
    toldUntil g p .attempted last + toldUntil g p .refunded last + undecided g p =
      toldUntil g p .admitted last
  bounded : ∀ last, toldUntil g p .attempted last + toldUntil g p .refunded last ≤
    toldUntil g p .admitted last

/-- Nothing is told. -/
theorem Ledger.quiet (h : Ledger g p) (hhistory : g'.history = g.history)
    (hreadings : g.readings ⊆ g'.readings) (hundecided : undecided g' p = undecided g p) :
    Ledger g' p where
  read record hrecord := hreadings (h.read record (hhistory ▸ hrecord))
  balanced last hlast := by
    rw [hundecided]
    simp only [toldUntil, hhistory]
    exact h.balanced last fun reading hreading => hlast reading (hreadings hreading)
  bounded last := by
    simp only [toldUntil, hhistory]
    exact h.bounded last

theorem toldUntil_concat {p' : ℕ} {action action' : LimitAction}
    (hhistory : g'.history = g.history ++ [⟨p', action', now⟩]) :
    toldUntil g' p action last = toldUntil g p action last +
      if p' = p ∧ action' = action ∧ now ≤ last then 1 else 0 := by
  simp [toldUntil, hhistory, List.countP_append, List.countP_cons]

/-- One action is told, at the time the clock shows. -/
theorem Ledger.tell {p' : ℕ} {action : LimitAction} (h : Ledger g p)
    (hclock : g'.readings.Pairwise (· ≤ ·))
    (hhistory : g'.history = g.history ++ [⟨p', action, now⟩])
    (hreadings : g'.readings = g.readings ++ [now])
    (hundecided : undecided g' p +
        (if p' = p ∧ (action = .attempted ∨ action = .refunded) then 1 else 0) =
      undecided g p + if p' = p ∧ action = .admitted then 1 else 0) : Ledger g' p := by
  have hbalanced : ∀ last, (∀ reading ∈ g'.readings, reading ≤ last) →
      toldUntil g' p .attempted last + toldUntil g' p .refunded last + undecided g' p =
        toldUntil g' p .admitted last := by
    intro last hlast
    rw [hreadings] at hlast
    have hnow : now ≤ last := hlast now (List.mem_append_right _ (List.mem_singleton.mpr rfl))
    have hbefore := h.balanced last fun reading hreading =>
      hlast reading (List.mem_append_left _ hreading)
    rw [toldUntil_concat hhistory, toldUntil_concat hhistory, toldUntil_concat hhistory]
    by_cases hp : p' = p
    · cases action <;> simp only [hp, hnow, reduceCtorEq, and_true, and_false, or_true, or_false,
        if_true, if_false] at hundecided ⊢ <;> omega
    · simp only [hp, false_and, if_false] at hundecided ⊢
      omega
  refine ⟨?_, hbalanced, ?_⟩
  · intro record hrecord
    rw [hhistory] at hrecord
    rw [hreadings]
    rcases List.mem_append.mp hrecord with hrecord | hrecord
    · exact List.mem_append_left _ (h.read record hrecord)
    · rw [List.mem_singleton.mp hrecord]
      exact List.mem_append_right _ (List.mem_singleton.mpr rfl)
  · intro last
    by_cases hnow : now ≤ last
    · -- everything was told until then
      have hall : ∀ reading ∈ g'.readings, reading ≤ last := by
        intro reading hreading
        rw [hreadings] at hclock hreading
        rcases List.mem_append.mp hreading with hreading | hreading
        · exact le_trans ((List.pairwise_append.mp hclock).2.2 reading hreading now
            (List.mem_singleton.mpr rfl)) hnow
        · rw [List.mem_singleton.mp hreading]
          exact hnow
      have := hbalanced last hall
      omega
    · have hbefore := h.bounded last
      rw [toldUntil_concat hhistory, toldUntil_concat hhistory, toldUntil_concat hhistory]
      simpa only [hnow, and_false, if_false, add_zero] using hbefore

/-- A request moves. -/
theorem undecided_set {phase : RequestPhase} (ht : g.requests[t]? = some q)
    (hrequests : g'.requests = g.requests.set t { q with phase := phase }) :
    undecided g' p + (if q.phase.undecided ∧ q.controls.providerConfigId = p then 1 else 0) =
      undecided g p + if phase.undecided ∧ q.controls.providerConfigId = p then 1 else 0 := by
  rw [undecided, undecided, hrequests]
  simpa using countP_set_add (p := fun q : EmbeddingRequest =>
    q.phase.undecided && decide (q.controls.providerConfigId = p)) ht { q with phase := phase }

/-- A request moves and stays decided or undecided. -/
theorem undecided_same {phase : RequestPhase} (ht : g.requests[t]? = some q)
    (hrequests : g'.requests = g.requests.set t { q with phase := phase })
    (hphase : phase.undecided = q.phase.undecided) : undecided g' p = undecided g p := by
  have := undecided_set (p := p) ht hrequests
  rw [hphase] at this
  omega

theorem Ledger.acquireState {maxProviderStates : ℕ} (h : Ledger g p) (ht : g.requests[t]? = some q)
    (hphase : q.phase = .starting)
    (hclock : (g.acquireState maxProviderStates t q now).readings.Pairwise (· ≤ ·)) :
    Ledger (g.acquireState maxProviderStates t q now) p := by
  rcases acquireState_cases maxProviderStates g t q now with
    ⟨st, hlive, ⟨state, hst, heq⟩ | ⟨-, heq⟩⟩ | ⟨hlive, heq | heq⟩
  · rw [heq]
    exact h.quiet rfl (List.Subset.refl _) (undecided_same ht rfl (by rw [hphase]; rfl))
  · rw [heq]
    exact h
  · rw [heq] at hclock ⊢
    apply h.tell hclock rfl rfl
    have hsame : undecided (g.setPhase t q
        (.referenced ((g.read now).pruneReclaimableStates now).states.length)) p = undecided g p :=
      undecided_same ht rfl (by rw [hphase]; rfl)
    rw [if_neg, if_neg]
    · exact hsame
    · rintro ⟨-, hadmitted⟩
      split at hadmitted <;> cases hadmitted
    · rintro ⟨-, hattempted | hrefunded⟩
      · split at hattempted <;> cases hattempted
      · split at hrefunded <;> cases hrefunded
  · rw [heq]
    exact h.quiet rfl (List.subset_append_left _ _) rfl

theorem Ledger.tryAdmit {st : ℕ} {state : ProviderLimitState} (h : Ledger g p)
    (ht : g.requests[t]? = some q) (hphase : q.phase = .queued st)
    (hclock : (g.tryAdmit t q st state now).readings.Pairwise (· ≤ ·)) :
    Ledger (g.tryAdmit t q st state now) p := by
  rcases tryAdmit_cases g t q st state now with ⟨-, -, tokens, -, -, heq⟩ | heq | heq
  · rw [heq] at hclock ⊢
    apply h.tell hclock rfl rfl
    change undecided (g.setPhase t q (.admitted st false)) p + _ = _
    have hmoved : undecided (g.setPhase t q (.admitted st false)) p + _ = _ :=
      undecided_set ht rfl
    simpa [hphase, RequestPhase.undecided] using hmoved
  · rw [heq]
    exact h.quiet rfl (List.subset_append_left _ _) rfl
  · rw [heq]
    exact h

theorem Ledger.refundRateLimit {st : ℕ} {state : ProviderLimitState} (h : Ledger g p)
    (hacc : Accounts g) (hst : g.states[st]? = some state) (ht : g.requests[t]? = some q)
    (hphase : q.phase = .refunding st)
    (hclock : (g.refundRateLimit t q st state now).readings.Pairwise (· ≤ ·)) :
    Ledger (g.refundRateLimit t q st state now) p := by
  obtain ⟨-, tokens, updatedAt, htokens, hupdated, hcapacity, -⟩ :=
    hacc.rate_set hst ht (by simp [hphase, RequestPhase.worksIn])
  obtain ⟨tokens', -, -, heq⟩ := refundRateLimit_eq g t st q now htokens hupdated hcapacity
  rw [heq] at hclock ⊢
  apply h.tell hclock rfl rfl
  change undecided (g.setPhase t q (.releasingConcurrency st)) p + _ = _
  have hmoved : undecided (g.setPhase t q (.releasingConcurrency st)) p + _ = _ :=
    undecided_set ht rfl
  simpa [hphase, RequestPhase.undecided] using hmoved

theorem Ledger.attempted {st : ℕ} (h : Ledger g p) (ht : g.requests[t]? = some q)
    (hphase : q.phase = .admitted st false)
    (hclock : (g.read now).readings.Pairwise (· ≤ ·)) :
    Ledger (((g.read now).tell q.controls.providerConfigId .attempted now).setPhase t q
      (.admitted st true)) p := by
  refine Ledger.tell h ?_ rfl rfl ?_
  · exact hclock
  change undecided (g.setPhase t q (.admitted st true)) p + _ = _
  have hmoved : undecided (g.setPhase t q (.admitted st true)) p + _ = _ := undecided_set ht rfl
  simpa [hphase, RequestPhase.undecided] using hmoved

theorem Ledger.goesOn {phase : RequestPhase} (h : Ledger g p) (ht : g.requests[t]? = some q)
    (hon : GoesOn q.phase phase) : Ledger (g.setPhase t q phase) p := by
  have hphase : phase.undecided = q.phase.undecided := by
    generalize q.phase = before at hon
    cases hon <;> rfl
  exact h.quiet rfl (List.Subset.refl _) (undecided_same ht rfl hphase)

theorem Ledger.moved {maxProviderStates : ℕ} (h : Ledger g p) (hacc : Accounts g)
    (ht : g.requests[t]? = some q) (hmoved : Moved maxProviderStates g t q g')
    (hclock : g'.readings.Pairwise (· ≤ ·)) : Ledger g' p := by
  cases hmoved with
  | acquired now hphase => exact h.acquireState ht hphase hclock
  | enqueued hst hphase =>
    exact h.quiet rfl (List.Subset.refl _) (undecided_same ht rfl (by rw [hphase]; rfl))
  | tried now hst hphase => exact h.tryAdmit ht hphase hclock
  | @removed st state hst hphase =>
    have hrequests : (g.removeTicket t q st state).requests =
        g.requests.set t { q with phase := .releasingReference st } := by
      rw [Gateway.removeTicket]
      split <;> rfl
    refine h.quiet ?_ ?_ (undecided_same ht hrequests (by rw [hphase]; rfl))
    · rw [Gateway.removeTicket]
      split <;> rfl
    · rw [Gateway.removeTicket]
      split <;> exact List.Subset.refl _
  | attempted now hphase => exact h.attempted ht hphase hclock
  | wentOn hon => exact h.goesOn ht hon
  | refunded now hst hphase => exact h.refundRateLimit hacc hst ht hphase hclock
  | @concurrencyReleased st state hst hphase =>
    have hrequests : (g.releaseConcurrency t q st state).requests =
        g.requests.set t { q with phase := .releasingReference st } := by
      rw [Gateway.releaseConcurrency]
      split <;> rfl
    refine h.quiet ?_ ?_ (undecided_same ht hrequests (by rw [hphase]; rfl))
    · rw [Gateway.releaseConcurrency]
      split <;> rfl
    · rw [Gateway.releaseConcurrency]
      split <;> exact List.Subset.refl _
  | @referenceReleased st state hst hphase =>
    have hrequests : (g.releaseStateReference t q st state).requests =
        g.requests.set t { q with phase := .finished } := by
      rw [Gateway.releaseStateReference]
      split <;> rfl
    refine h.quiet ?_ ?_ (undecided_same ht hrequests (by rw [hphase]; rfl))
    · rw [Gateway.releaseStateReference]
      split <;> rfl
    · rw [Gateway.releaseStateReference]
      split <;> exact List.Subset.refl _

/-- The clock is read after all its earlier readings. -/
theorem Moved.readings {maxProviderStates : ℕ} (hmoved : Moved maxProviderStates g t q g') :
    g.readings <+: g'.readings := by
  cases hmoved with
  | acquired now hphase =>
    rcases acquireState_cases maxProviderStates g t q now with
      ⟨st, hlive, ⟨state, hst, heq⟩ | ⟨-, heq⟩⟩ | ⟨hlive, heq | heq⟩
    · rw [heq]
      exact List.prefix_rfl
    · rw [heq]
    · rw [heq]
      exact List.prefix_append _ _
    · rw [heq]
      exact List.prefix_append _ _
  | enqueued hst hphase => exact List.prefix_rfl
  | @tried st state now hst hphase =>
    rcases tryAdmit_cases g t q st state now with ⟨-, -, tokens, -, -, heq⟩ | heq | heq
    · rw [heq]
      exact List.prefix_append _ _
    · rw [heq]
      exact List.prefix_append _ _
    · rw [heq]
  | removed hst hphase =>
    rw [Gateway.removeTicket]
    split <;> exact List.prefix_rfl
  | attempted now hphase => exact List.prefix_append _ _
  | wentOn hon => exact List.prefix_rfl
  | refunded now hst hphase =>
    simp only [Gateway.refundRateLimit]
    split
    · split <;> exact List.prefix_append _ _
    · exact List.prefix_append _ _
  | concurrencyReleased hst hphase =>
    rw [Gateway.releaseConcurrency]
    split <;> exact List.prefix_rfl
  | referenceReleased hst hphase =>
    rw [Gateway.releaseStateReference]
    split <;> exact List.prefix_rfl

/-- All requests of a provider use the same rate. -/
def SameRates (g : Gateway) (p r : ℕ) : Prop :=
  ∀ q ∈ g.requests, q.controls.providerConfigId = p → q.controls.requestsPerMinute = r

theorem SameRates.before {maxProviderStates : ℕ} (h : SameRates g' p r)
    (ht : g.requests[t]? = some q) (hmoved : Moved maxProviderStates g t q g') :
    SameRates g p r := by
  rcases hmoved.requests with hrequests | ⟨phase, hrequests, -⟩
  · rw [SameRates, ← hrequests]
    exact h
  · intro q₀ hq₀ hp
    obtain ⟨u, hu⟩ := List.mem_iff_getElem?.mp hq₀
    by_cases hut : u = t
    · subst hut
      cases ht.symm.trans hu
      have hmem : { q with phase := phase } ∈ g'.requests := by
        rw [hrequests]
        exact List.mem_of_getElem? (getElem?_set_same ht)
      exact h { q with phase := phase } hmem hp
    · apply h q₀ _ hp
      rw [hrequests]
      apply List.mem_of_getElem? (i := u)
      rw [List.getElem?_set_ne (Ne.symm hut)]
      exact hu

/-- The bucket and the ledger of a provider, as long as the clock does not go back and the rate stays. -/
structure Budgeted (g : Gateway) (p r : ℕ) : Prop where
  accounts : Accounts g
  rated : g.readings.Pairwise (· ≤ ·) → SameRates g p r → Rated g p r
  ledger : g.readings.Pairwise (· ≤ ·) → Ledger g p

theorem budgeted_init : Budgeted Gateway.init p r := by
  refine ⟨accounts_init, ?_, ?_⟩
  · intro _ _
    left
    constructor
    · intro record hrecord
      cases hrecord
    · exact List.not_mem_nil
  · intro _
    refine ⟨?_, fun _ _ => rfl, fun _ => le_refl _⟩
    intro record hrecord
    cases hrecord

theorem Budgeted.step {maxProviderStates : ℕ} {event : GatewayEvent} (h : Budgeted g p r)
    (hstep : g.step maxProviderStates event = some g') : Budgeted g' p r := by
  rcases step_cases hstep with ⟨controls, rfl⟩ | ⟨t, q, ht, hmoved⟩
  · refine ⟨h.accounts.called controls, ?_, ?_⟩
    · intro hclock hrates
      have hbefore : SameRates g p r := fun q hq hp => hrates q (List.mem_append_left _ hq) hp
      refine (h.rated hclock hbefore).untouched ?_
      exact .of_eq p rfl rfl rfl rfl
    · intro hclock
      refine (h.ledger hclock).quiet ?_ ?_ ?_
      · rfl
      · exact List.Subset.refl _
      · simp [undecided, RequestPhase.undecided]
  · refine ⟨h.accounts.moved ht hmoved, ?_, ?_⟩
    · intro hclock hrates
      have hbefore := hrates.before ht hmoved
      have hrated := h.rated (hclock.sublist hmoved.readings.sublist) hbefore
      exact hrated.moved h.accounts ht hmoved (hbefore q (List.mem_of_getElem? ht)) hclock
    · intro hclock
      have hledger := h.ledger (hclock.sublist hmoved.readings.sublist)
      exact hledger.moved h.accounts ht hmoved hclock

/-- The budget in every run. -/
theorem budgeted_of_reaches {maxProviderStates : ℕ}
    (h : Reaches (Gateway.step maxProviderStates) Gateway.init g) : Budgeted g p r :=
  h.induction_on (Budgeted · p r) (fun _ _ _ hg hstep => hg.step hstep) budgeted_init

/-- The actions of the bucket are counted in the history. -/
theorem countP_bucketEvents (action : LimitAction) {a : BucketAction} (history : List LimitRecord)
    (haction : ∀ action', action'.bucketAction = some a ↔ action' = action) :
    inWindow (bucketEvents p history) a first last = history.countP fun record =>
      decide (record.provider = p ∧ record.action = action ∧ first ≤ record.time ∧
        record.time ≤ last) := by
  rw [inWindow, bucketEvents, List.countP_filterMap]
  apply List.countP_congr
  intro record _
  by_cases hp : record.provider = p
  · have hiff := haction record.action
    cases hbucket : record.action.bucketAction with
    | none =>
      rw [hbucket] at hiff
      have hne : record.action ≠ action := fun heq => by simpa using hiff.mpr heq
      simp [hp, hne]
    | some a' =>
      rw [hbucket, Option.some.injEq] at hiff
      simp [hp, hiff]
  · simp [hp]

/-- What a provider may be sent in a window. -/
def allowance (g : Gateway) (p r : ℕ) (first span : ℚ) : ℚ :=
  r + span * r / rateWindowSeconds +
    rateTolerance * (happened g p .admitted first (first + span) +
      happened g p .recreated first (first + span))

theorem allowance_nonneg {span : ℚ} (hspan : 0 ≤ span) : 0 ≤ allowance g p r first span := by
  unfold allowance rateWindowSeconds rateTolerance
  positivity

theorem RatedBy.admitted_le {b : Bucket ℚ} {span : ℚ} (first : ℚ) (h : RatedBy g p r b) (hspan : 0 ≤ span) :
    (happened g p .admitted first (first + span) : ℚ) ≤
      allowance g p r first span + happened g p .refunded first (first + span) := by
  have htol : (0 : ℚ) ≤ rateTolerance := by norm_num [rateTolerance]
  have hbound := h.run.taken_le first (Nat.cast_nonneg r) (rate_nonneg r) htol hspan
  rw [countP_bucketEvents .admitted _ (by rintro (_ | _) <;> decide),
    countP_bucketEvents .refunded _ (by rintro (_ | _) <;> decide),
    countP_bucketEvents .recreated _ (by rintro (_ | _) <;> decide)] at hbound
  have hrefill : (r : ℚ) / rateWindowSeconds * span = span * r / rateWindowSeconds := by ring
  rw [hrefill] at hbound
  simp only [allowance, happened]
  linarith

/-- A provider that was never used was sent nothing. -/
theorem Unused.happened (h : Unused g p) (action : LimitAction) : happened g p action first last = 0 := by
  rw [Embeddings.happened, List.countP_eq_zero]
  intro record hrecord
  simp [h.history record hrecord]

theorem Rated.admitted_le {span : ℚ} (first : ℚ) (h : Rated g p r) (hspan : 0 ≤ span) :
    (happened g p .admitted first (first + span) : ℚ) ≤
      allowance g p r first span + happened g p .refunded first (first + span) := by
  rcases h with hunused | ⟨b, hb⟩
  · rw [hunused.happened, hunused.happened, Nat.cast_zero, add_zero]
    exact allowance_nonneg hspan
  · exact hb.admitted_le first hspan

/-- What happened since the first use. -/
theorem happened_of_first (action : LimitAction)
    (hfirst : ∀ record ∈ g.history, record.provider = p → first ≤ record.time) :
    happened g p action first last = toldUntil g p action last := by
  rw [happened, toldUntil]
  apply List.countP_congr
  intro record hrecord
  have := hfirst record hrecord
  simp only [decide_eq_true_eq]
  tauto

/-- The rate limit of a provider: its tokens lie between zero and the rate, in every window the
admissions stay within the allowance and the refunds, and from the first use on the attempts stay
within the allowance. -/
theorem rate_limit {maxProviderStates : ℕ}
    (h : Reaches (Gateway.step maxProviderStates) Gateway.init g)
    (hclock : g.readings.Pairwise (· ≤ ·)) (hrates : SameRates g p r) :
    (∀ st state tokens, (p, st) ∈ g.limitStates → g.states[st]? = some state →
      state.rateTokens = some tokens → 0 ≤ tokens ∧ tokens ≤ r) ∧
    ∀ first span : ℚ, 0 ≤ span →
      (happened g p .admitted first (first + span) : ℚ) ≤
        allowance g p r first span + happened g p .refunded first (first + span) ∧
      ((∀ record ∈ g.history, record.provider = p → first ≤ record.time) →
        (happened g p .attempted first (first + span) : ℚ) ≤ allowance g p r first span) := by
  have hbudgeted : Budgeted g p r := budgeted_of_reaches h
  have hrated := hbudgeted.rated hclock hrates
  constructor
  · intro st state tokens hst hstate htokens
    obtain ⟨b, hb⟩ := hrated.used hst
    obtain ⟨rfl, -, -, -⟩ := (hb.live st state hst hstate).of_some htokens
    exact ⟨hb.run.level_nonneg (Nat.cast_nonneg r) (rate_nonneg r), hb.level_le⟩
  · intro first span hspan
    have hadmitted := hrated.admitted_le first hspan
    refine ⟨hadmitted, ?_⟩
    intro hfirst
    -- every attempt is an admission that was not refunded
    have hledger := (hbudgeted.ledger hclock).bounded (first + span)
    rw [← happened_of_first .attempted hfirst, ← happened_of_first .refunded hfirst,
      ← happened_of_first .admitted hfirst] at hledger
    have hcast : (happened g p .attempted first (first + span) : ℚ) +
        happened g p .refunded first (first + span) ≤
          happened g p .admitted first (first + span) := by
      exact_mod_cast hledger
    linarith

/-- The bounds at the end of a run with two requests. -/
theorem rate_limit_queuedRun : ∃ g, runs (Gateway.step 1) Gateway.init queuedRun = some g ∧
    happened g 7 .admitted 0 3 = 2 ∧ happened g 7 .refunded 0 3 = 1 ∧
      happened g 7 .attempted 0 3 = 1 ∧
        (happened g 7 .admitted 0 (0 + 3) : ℚ) ≤
          allowance g 7 60 0 3 + happened g 7 .refunded 0 (0 + 3) := by
  have hrun : (runs (Gateway.step 1) Gateway.init queuedRun).map (fun g =>
      (happened g 7 .admitted 0 3, happened g 7 .refunded 0 3, happened g 7 .attempted 0 3,
        decide (g.readings.Pairwise (· ≤ ·)),
        decide (∀ q ∈ g.requests, q.controls.providerConfigId = 7 →
          q.controls.requestsPerMinute = 60))) = some (2, 1, 1, true, true) := by
    decide +kernel
  obtain ⟨g, hg, hfacts⟩ := Option.map_eq_some_iff.mp hrun
  simp only [Prod.mk.injEq, decide_eq_true_eq] at hfacts
  obtain ⟨hadmitted, hrefunded, hattempted, hclock, hrates⟩ := hfacts
  exact ⟨g, hg, hadmitted, hrefunded, hattempted,
    ((rate_limit ⟨queuedRun, hg⟩ hclock hrates).2 0 3 (by norm_num)).1⟩

end Ledger

end VeloxRag.Embeddings
