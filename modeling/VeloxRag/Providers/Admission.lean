import VeloxRag.Providers.Embeddings

/-!
# The counters of the limit states

Every counter of a limit state is the number of requests that stand in the relation it counts, the
queue holds exactly the tickets of the requests that wait, and the registry names every state that
a request holds.  One lemma, `StateAccounts.move`, says what a step of one request does to the counters
of the state it is at; the other states see a request that has nothing to do with them before and
after.

## Main definitions

* `StateAccounts` — the counters of one state.
* `Accounts` — the invariant of the gateway.
* `Retained`, `AdmittedInTurn` — what one step may drop and admit.
* `accounts_of_reaches`, `admission_accounts` — the invariant holds in every run.
-/

namespace VeloxRag.Embeddings

open Lib

/-- A rate that was set is set as a whole, and nobody works before it is. -/
structure RateKept (state : ProviderLimitState) : Prop where
  unset : state.rateTokens = none → state.active = 0
  set : ∀ tokens, state.rateTokens = some tokens →
    (∃ updatedAt, state.rateUpdatedAt = some updatedAt) ∧ 0 < state.rateCapacity ∧
      0 < state.ratePerMinute

/-- The counters of the state `st` are numbers of requests. -/
structure StateAccounts (requests : List EmbeddingRequest) (st : ℕ) (state : ProviderLimitState) :
    Prop where
  references : state.references = requests.countP fun r => r.phase.holds st
  active : state.active = requests.countP fun r => r.phase.worksIn st
  waiters : state.waiters = requests.countP fun r => r.phase.waitsIn st
  queue : state.waiters = state.queue.length
  nodup : state.queue.Nodup
  mem_queue : ∀ t, t ∈ state.queue ↔ ∃ r, requests[t]? = some r ∧ r.phase.waitsIn st = true
  rate : RateKept state

/-- The accounts of the gateway. -/
structure Accounts (g : Gateway) : Prop where
  states : ∀ st state, g.states[st]? = some state → StateAccounts g.requests st state
  /-- a provider has one live state -/
  providers : (g.limitStates.map Prod.fst).Nodup
  entries : (g.limitStates.map Prod.snd).Nodup
  made : ∀ entry ∈ g.limitStates, entry.2 < g.states.length
  /-- the state that a request holds is the live state of its provider -/
  held : ∀ (t : ℕ) (r : EmbeddingRequest) (st : ℕ), g.requests[t]? = some r →
    r.phase.holds st = true → (r.controls.providerConfigId, st) ∈ g.limitStates
  quiet : g.assertionRaised = false

section Phases

variable {st st' : ℕ} {phase : RequestPhase}

theorem RequestPhase.holds_of_worksIn (h : phase.worksIn st = true) : phase.holds st = true := by
  cases phase <;> simp_all [RequestPhase.worksIn, RequestPhase.holds]

theorem RequestPhase.holds_of_waitsIn (h : phase.waitsIn st = true) : phase.holds st = true := by
  cases phase <;> simp_all [RequestPhase.waitsIn, RequestPhase.holds]

end Phases

section Rates

variable {state : ProviderLimitState} {now : ℚ} {rpm : ℕ}

/-- The rate is brought up to date; the counters stay. -/
structure SameCounters (state state' : ProviderLimitState) : Prop where
  queue : state'.queue = state.queue
  active : state'.active = state.active
  waiters : state'.waiters = state.waiters
  references : state'.references = state.references

theorem SameCounters.refl (state : ProviderLimitState) : SameCounters state state := ⟨rfl, rfl, rfl, rfl⟩

theorem refillExistingRate_of_unset (h : state.rateTokens = none) :
    refillExistingRate state now = state := by
  simp [refillExistingRate, h]

theorem refillExistingRate_counters (state : ProviderLimitState) (now : ℚ) :
    SameCounters state (refillExistingRate state now) := by
  unfold refillExistingRate
  split <;> exact ⟨rfl, rfl, rfl, rfl⟩

@[simp] theorem refillExistingRate_rateCapacity :
    (refillExistingRate state now).rateCapacity = state.rateCapacity := by
  unfold refillExistingRate
  split <;> rfl

@[simp] theorem refillExistingRate_ratePerMinute :
    (refillExistingRate state now).ratePerMinute = state.ratePerMinute := by
  unfold refillExistingRate
  split <;> rfl

theorem refillExistingRate_kept (h : RateKept state) : RateKept (refillExistingRate state now) := by
  cases htokens : state.rateTokens with
  | none =>
    rw [refillExistingRate_of_unset htokens]
    exact h
  | some tokens =>
    obtain ⟨⟨updatedAt, hupdated⟩, hcapacity, hminute⟩ := h.set tokens htokens
    constructor
    · intro hnone
      simp only [refillExistingRate, htokens, hupdated] at hnone
      split at hnone <;> cases hnone
    · intro tokens' _
      refine ⟨⟨max updatedAt now, ?_⟩, by simpa using hcapacity, by simpa using hminute⟩
      simp [refillExistingRate, htokens, hupdated]

theorem refreshRate_counters (state : ProviderLimitState) (now : ℚ) (rpm : ℕ) :
    SameCounters state (refreshRate state now rpm) := by
  cases htokens : state.rateTokens with
  | none =>
    simp only [refreshRate, htokens]
    exact ⟨rfl, rfl, rfl, rfl⟩
  | some tokens =>
    have hsame := refillExistingRate_counters state now
    simp only [refreshRate, htokens]
    exact ⟨hsame.queue, hsame.active, hsame.waiters, hsame.references⟩

theorem refreshRate_set (now : ℚ) (rpm : ℕ) (h : RateKept state) :
    (∃ tokens, (refreshRate state now rpm).rateTokens = some tokens) ∧
      (∃ updatedAt, (refreshRate state now rpm).rateUpdatedAt = some updatedAt) ∧
        (refreshRate state now rpm).rateCapacity = rpm ∧
          (refreshRate state now rpm).ratePerMinute = rpm := by
  cases htokens : state.rateTokens with
  | none => simp [refreshRate, htokens]
  | some tokens =>
    obtain ⟨⟨updatedAt, hupdated⟩, -, -⟩ := h.set tokens htokens
    simp [refreshRate, htokens, refillExistingRate, hupdated]
    split <;> simp

theorem refillExistingRate_again :
    refillExistingRate (refillExistingRate state now) now = refillExistingRate state now := by
  cases htokens : state.rateTokens with
  | none => rw [refillExistingRate_of_unset htokens, refillExistingRate_of_unset htokens]
  | some tokens =>
    cases hupdated : state.rateUpdatedAt with
    | none => simp [refillExistingRate, htokens, hupdated]
    | some updatedAt =>
      by_cases hrefilled : 0 < max updatedAt now - updatedAt ∧ 0 < state.ratePerMinute
      · simp only [refillExistingRate, htokens, hupdated, if_pos hrefilled]
        simp
      · simp only [refillExistingRate, htokens, hupdated, if_neg hrefilled]
        simp

theorem reclaimDelay_of_busy (h : ¬state.Idle) : (reclaimDelay state now).1 = state := by
  simp [reclaimDelay, h]

theorem reclaimDelay_of_idle (h : state.Idle) :
    (reclaimDelay state now).1 = refillExistingRate state now := by
  cases htokens : state.rateTokens with
  | none => simp [reclaimDelay, h, htokens, refillExistingRate_of_unset htokens]
  | some tokens => simp [reclaimDelay, h, htokens]

theorem SameCounters.idle {state' : ProviderLimitState} (h : SameCounters state state') :
    state'.Idle ↔ state.Idle := by
  rw [ProviderLimitState.Idle, ProviderLimitState.Idle, h.references, h.active, h.waiters, h.queue]

theorem reclaimDelay_counters : SameCounters state (reclaimDelay state now).1 := by
  unfold reclaimDelay
  split
  · exact .refl state
  · split
    · exact .refl state
    · exact refillExistingRate_counters state now

theorem reclaimDelay_kept (h : RateKept state) : RateKept (reclaimDelay state now).1 := by
  unfold reclaimDelay
  split
  · exact h
  · split
    · exact h
    · exact refillExistingRate_kept h

theorem reclaimDelay_again :
    (reclaimDelay (reclaimDelay state now).1 now).1 = (reclaimDelay state now).1 := by
  by_cases hidle : state.Idle
  · rw [reclaimDelay_of_idle hidle,
      reclaimDelay_of_idle ((refillExistingRate_counters state now).idle.mpr hidle), refillExistingRate_again]
  · rw [reclaimDelay_of_busy hidle, reclaimDelay_of_busy hidle]

/-- A state that somebody refers to, works in or waits for stays. -/
theorem idle_of_reclaimable (h : (reclaimDelay state now).2 = some 0) : state.Idle := by
  by_contra hidle
  simp [reclaimDelay, hidle] at h

end Rates

section Moves

variable {requests : List EmbeddingRequest} {st t : ℕ} {state state' : ProviderLimitState}
  {r : EmbeddingRequest} {phase : RequestPhase}

/-- The rate alone is changed. -/
theorem StateAccounts.of_counters (h : StateAccounts requests st state)
    (hsame : SameCounters state state') (hrate : RateKept state') :
    StateAccounts requests st state' where
  references := hsame.references.trans h.references
  active := hsame.active.trans h.active
  waiters := hsame.waiters.trans h.waiters
  queue := by rw [hsame.waiters, hsame.queue, h.queue]
  nodup := by rw [hsame.queue]; exact h.nodup
  mem_queue := by rw [hsame.queue]; exact h.mem_queue
  rate := hrate

/-- A number of requests after one of them moved. -/
theorem counted_move {p : EmbeddingRequest → Bool} {n n' : ℤ} {r' : EmbeddingRequest}
    (ht : requests[t]? = some r) (hn : n = requests.countP p)
    (h : n' + (if p r then 1 else 0) = n + if p r' then 1 else 0) :
    n' = (requests.set t r').countP p := by
  have hcount := countP_set_add (p := p) ht r'
  cases hr : p r <;> cases hr' : p r' <;>
    simp only [hr, hr', Bool.false_eq_true, if_true, if_false] at h hcount <;> omega

/-- One request moves, and the counters of the state move with it. -/
theorem StateAccounts.move (h : StateAccounts requests st state) (ht : requests[t]? = some r)
    (hreferences : state'.references + (if r.phase.holds st then 1 else 0) =
      state.references + if phase.holds st then 1 else 0)
    (hactive : state'.active + (if r.phase.worksIn st then 1 else 0) =
      state.active + if phase.worksIn st then 1 else 0)
    (hwaiters : state'.waiters + (if r.phase.waitsIn st then 1 else 0) =
      state.waiters + if phase.waitsIn st then 1 else 0)
    (hlength : state'.waiters = state'.queue.length) (hnodup : state'.queue.Nodup)
    (hmem : ∀ u, u ∈ state'.queue ↔
      (u = t ∧ phase.waitsIn st = true) ∨ (u ≠ t ∧ u ∈ state.queue))
    (hrate : RateKept state') :
    StateAccounts (requests.set t { r with phase := phase }) st state' where
  references := counted_move ht h.references hreferences
  active := counted_move ht h.active hactive
  waiters := counted_move ht h.waiters hwaiters
  queue := hlength
  nodup := hnodup
  mem_queue u := by
    rw [hmem u]
    constructor
    · rintro (⟨rfl, hwaits⟩ | ⟨hne, hu⟩)
      · exact ⟨_, getElem?_set_same ht, hwaits⟩
      · obtain ⟨r', hr', hwaits⟩ := (h.mem_queue u).mp hu
        exact ⟨r', by rwa [List.getElem?_set_ne (Ne.symm hne)], hwaits⟩
    · rintro ⟨r', hr', hwaits⟩
      rcases getElem?_set_cases hr' with ⟨rfl, rfl⟩ | ⟨hne, hr'⟩
      · exact .inl ⟨rfl, hwaits⟩
      · exact .inr ⟨hne, (h.mem_queue u).mpr ⟨r', hr', hwaits⟩⟩
  rate := hrate

/-- A request moves that has nothing to do with the state. -/
theorem StateAccounts.other (h : StateAccounts requests st state) (ht : requests[t]? = some r)
    (hbefore : r.phase.holds st = false) (hafter : phase.holds st = false) :
    StateAccounts (requests.set t { r with phase := phase }) st state := by
  have hno : ∀ {phase : RequestPhase}, phase.holds st = false →
      phase.worksIn st = false ∧ phase.waitsIn st = false := by
    intro phase hphase
    constructor
    · by_contra hworks
      rw [RequestPhase.holds_of_worksIn (by simpa using hworks)] at hphase
      cases hphase
    · by_contra hwaits
      rw [RequestPhase.holds_of_waitsIn (by simpa using hwaits)] at hphase
      cases hphase
  have hticket : t ∉ state.queue := by
    rw [h.mem_queue t]
    rintro ⟨r', hr', hwaits⟩
    cases ht.symm.trans hr'
    rw [(hno hbefore).2] at hwaits
    cases hwaits
  apply h.move ht
  · rw [hbefore, hafter]
  · rw [(hno hbefore).1, (hno hafter).1]
  · rw [(hno hbefore).2, (hno hafter).2]
  · exact h.queue
  · exact h.nodup
  · intro u
    rw [(hno hafter).2]
    constructor
    · intro hu
      exact .inr ⟨fun hut => hticket (hut ▸ hu), hu⟩
    · rintro (⟨-, hwaits⟩ | ⟨-, hu⟩)
      · cases hwaits
      · exact hu
  · exact h.rate

/-- A new request has nothing to do with any state. -/
theorem StateAccounts.called (h : StateAccounts requests st state) (controls : OperationalControls) :
    StateAccounts (requests ++ [⟨controls, .starting⟩]) st state where
  references := by simpa [RequestPhase.holds] using h.references
  active := by simpa [RequestPhase.worksIn] using h.active
  waiters := by simpa [RequestPhase.waitsIn] using h.waiters
  queue := h.queue
  nodup := h.nodup
  mem_queue u := by
    rw [h.mem_queue u]
    constructor
    · rintro ⟨r, hr, hwaits⟩
      refine ⟨r, ?_, hwaits⟩
      rw [List.getElem?_append_left (List.getElem?_eq_some_iff.mp hr).1]
      exact hr
    · rintro ⟨r, hr, hwaits⟩
      rcases getElem?_append_singleton_cases hr with ⟨-, rfl⟩ | hr
      · cases hwaits
      · exact ⟨r, hr, hwaits⟩
  rate := h.rate

end Moves

section Gateways

variable {g g' : Gateway} {t st : ℕ} {r : EmbeddingRequest} {state state' : ProviderLimitState}
  {phase : RequestPhase}

/-- What is told for the theorems does not count. -/
theorem Accounts.of_eq (h : Accounts g) (hstates : g'.states = g.states)
    (hentries : g'.limitStates = g.limitStates) (hrequests : g'.requests = g.requests)
    (hquiet : g'.assertionRaised = g.assertionRaised) : Accounts g' where
  states := by rw [hstates, hrequests]; exact h.states
  providers := by rw [hentries]; exact h.providers
  entries := by rw [hentries]; exact h.entries
  made := by rw [hentries, hstates]; exact h.made
  held := by rw [hrequests, hentries]; exact h.held
  quiet := hquiet.trans h.quiet

/-- One request moves at one state. -/
theorem Accounts.move (h : Accounts g) (ht : g.requests[t]? = some r)
    (hst : st < g.states.length)
    (hstate : StateAccounts (g.requests.set t { r with phase := phase }) st state')
    (hbefore : ∀ st', st' ≠ st → r.phase.holds st' = false)
    (hafter : ∀ st', st' ≠ st → phase.holds st' = false)
    (hheld : phase.holds st = true → (r.controls.providerConfigId, st) ∈ g.limitStates) :
    Accounts ((g.setState st state').setPhase t r phase) where
  states st' state₀ hst' := by
    rcases getElem?_set_cases hst' with ⟨rfl, rfl⟩ | ⟨hne, hst'⟩
    · exact hstate
    · exact (h.states st' state₀ hst').other ht (hbefore st' hne) (hafter st' hne)
  providers := h.providers
  entries := h.entries
  made entry hentry := by
    simp only [Gateway.setPhase, Gateway.setState, List.length_set]
    exact h.made entry hentry
  held t' r' st' hr' hholds := by
    rcases getElem?_set_cases hr' with ⟨rfl, rfl⟩ | ⟨-, hr'⟩
    · by_cases hst' : st' = st
      · subst hst'
        exact hheld hholds
      · rw [hafter st' hst'] at hholds
        cases hholds
    · exact h.held t' r' st' hr' hholds
  quiet := h.quiet

/-- A request moves and stays in the same relations to every state. -/
theorem Accounts.stay (h : Accounts g) (ht : g.requests[t]? = some r) (phase : RequestPhase)
    (hholds : ∀ st, phase.holds st = r.phase.holds st)
    (hworks : ∀ st, phase.worksIn st = r.phase.worksIn st)
    (hwaits : ∀ st, phase.waitsIn st = r.phase.waitsIn st) : Accounts (g.setPhase t r phase) where
  states st state hst := by
    have hbefore := h.states st state hst
    apply hbefore.move ht
    · rw [hholds]
    · rw [hworks]
    · rw [hwaits]
    · exact hbefore.queue
    · exact hbefore.nodup
    · intro u
      rw [hwaits]
      constructor
      · intro hu
        by_cases hut : u = t
        · subst hut
          obtain ⟨r', hr', hr'waits⟩ := (hbefore.mem_queue u).mp hu
          cases ht.symm.trans hr'
          exact .inl ⟨rfl, hr'waits⟩
        · exact .inr ⟨hut, hu⟩
      · rintro (⟨rfl, hu⟩ | ⟨-, hu⟩)
        · exact (hbefore.mem_queue u).mpr ⟨r, ht, hu⟩
        · exact hu
    · exact hbefore.rate
  providers := h.providers
  entries := h.entries
  made := h.made
  held t' r' st' hr' hr'holds := by
    rcases getElem?_set_cases hr' with ⟨rfl, rfl⟩ | ⟨-, hr'⟩
    · exact h.held t' r st' ht ((hholds st').symm.trans hr'holds)
    · exact h.held t' r' st' hr' hr'holds
  quiet := h.quiet

/-- The rate of one state is brought up to date. -/
theorem Accounts.setRate (h : Accounts g) (hst : g.states[st]? = some state)
    (hsame : SameCounters state state') (hrate : RateKept state') : Accounts (g.setState st state') where
  states st' state₀ hst' := by
    rcases getElem?_set_cases hst' with ⟨rfl, rfl⟩ | ⟨-, hst'⟩
    · exact (h.states st' state hst).of_counters hsame hrate
    · exact h.states st' state₀ hst'
  providers := h.providers
  entries := h.entries
  made entry hentry := by
    simp only [Gateway.setState, List.length_set]
    exact h.made entry hentry
  held := h.held
  quiet := h.quiet

/-- The ticket of a request that does not wait is in no queue. -/
theorem Accounts.not_mem_queue (h : Accounts g) (hst : g.states[st]? = some state)
    (ht : g.requests[t]? = some r) (hwaits : r.phase.waitsIn st = false) : t ∉ state.queue := by
  rw [(h.states st state hst).mem_queue t]
  rintro ⟨r', hr', hr'waits⟩
  cases ht.symm.trans hr'
  rw [hwaits] at hr'waits
  cases hr'waits

theorem mem_iff_of_not_mem {u : ℕ} {queue : List ℕ} (h : t ∉ queue) :
    u ∈ queue ↔ u ≠ t ∧ u ∈ queue := by
  constructor
  · intro hu
    exact ⟨fun hut => h (hut ▸ hu), hu⟩
  · exact And.right

/-- A request takes a reference to the live state of its provider. -/
theorem Accounts.referenced (h : Accounts g) (hst : g.states[st]? = some state)
    (ht : g.requests[t]? = some r) (hphase : r.phase = .starting)
    (hentry : (r.controls.providerConfigId, st) ∈ g.limitStates) :
    Accounts ((g.setState st { state with references := state.references + 1 }).setPhase t r
      (.referenced st)) := by
  have hbefore := h.states st state hst
  have hticket := h.not_mem_queue hst ht (by rw [hphase]; rfl)
  apply h.move ht (List.getElem?_eq_some_iff.mp hst).1
  · apply hbefore.move ht
    · simp [hphase, RequestPhase.holds]
    · simp [hphase, RequestPhase.worksIn]
    · simp [hphase, RequestPhase.waitsIn]
    · exact hbefore.queue
    · exact hbefore.nodup
    · intro u
      simpa [RequestPhase.waitsIn] using mem_iff_of_not_mem hticket
    · exact ⟨hbefore.rate.unset, hbefore.rate.set⟩
  · intro st' _
    rw [hphase]
    rfl
  · intro st' hne
    simpa [RequestPhase.holds] using fun h => hne h.symm
  · intro _
    exact hentry

theorem Accounts.enqueue (h : Accounts g) (hst : g.states[st]? = some state)
    (ht : g.requests[t]? = some r) (hphase : r.phase = .referenced st) :
    Accounts (g.enqueue t r st state) := by
  have hbefore := h.states st state hst
  have hticket := h.not_mem_queue hst ht (by rw [hphase]; rfl)
  have hother : ∀ st', st' ≠ st → (st == st') = false := fun st' hne => by simpa using Ne.symm hne
  apply h.move ht (List.getElem?_eq_some_iff.mp hst).1
  · apply hbefore.move ht
    · simp [hphase, RequestPhase.holds]
    · simp [hphase, RequestPhase.worksIn]
    · simp [hphase, RequestPhase.waitsIn]
    · simp [hbefore.queue]
    · exact hbefore.nodup.append (List.nodup_singleton t) (by simpa using hticket)
    · intro u
      by_cases hut : u = t <;> simp [RequestPhase.waitsIn, hut, hticket]
    · exact ⟨hbefore.rate.unset, hbefore.rate.set⟩
  · intro st' hne
    rw [hphase]
    exact hother st' hne
  · exact hother
  · intro _
    exact h.held t r st ht (by simp [hphase, RequestPhase.holds])

theorem Accounts.removeTicket (h : Accounts g) (hst : g.states[st]? = some state)
    (ht : g.requests[t]? = some r) (hphase : r.phase = .unadmitted st) :
    Accounts (g.removeTicket t r st state) := by
  have hbefore := h.states st state hst
  have hticket : t ∈ state.queue := (hbefore.mem_queue t).mpr ⟨r, ht, by simp [hphase, RequestPhase.waitsIn]⟩
  have hother : ∀ st', st' ≠ st → (st == st') = false := fun st' hne => by simpa using Ne.symm hne
  have hlength := List.length_pos_of_mem hticket
  rw [Gateway.removeTicket, if_pos hticket]
  apply h.move ht (List.getElem?_eq_some_iff.mp hst).1
  · apply hbefore.move ht
    · simp [hphase, RequestPhase.holds]
    · simp [hphase, RequestPhase.worksIn]
    · simp [hphase, RequestPhase.waitsIn]
    · change state.waiters - 1 = ((state.queue.erase t).length : ℤ)
      rw [List.length_erase_of_mem hticket, hbefore.queue]
      omega
    · exact hbefore.nodup.erase t
    · intro u
      simp [RequestPhase.waitsIn, hbefore.nodup.mem_erase_iff]
    · exact ⟨hbefore.rate.unset, hbefore.rate.set⟩
  · intro st' hne
    rw [hphase]
    exact hother st' hne
  · exact hother
  · intro _
    exact h.held t r st ht (by simp [hphase, RequestPhase.holds])

theorem Accounts.releaseConcurrency (h : Accounts g) (hst : g.states[st]? = some state)
    (ht : g.requests[t]? = some r) (hphase : r.phase = .releasingConcurrency st) :
    Accounts (g.releaseConcurrency t r st state) := by
  have hbefore := h.states st state hst
  have hworks : r.phase.worksIn st = true := by simp [hphase, RequestPhase.worksIn]
  have hactive := countP_pos_of_getElem? (p := fun r : EmbeddingRequest => r.phase.worksIn st) ht hworks
  have hcount := hbefore.active
  have hticket := h.not_mem_queue hst ht (by rw [hphase]; rfl)
  have hother : ∀ st', st' ≠ st → (st == st') = false := fun st' hne => by simpa using Ne.symm hne
  rw [Gateway.releaseConcurrency, if_neg (by omega)]
  apply h.move ht (List.getElem?_eq_some_iff.mp hst).1
  · apply hbefore.move ht
    · simp [hphase, RequestPhase.holds]
    · simp [hphase, RequestPhase.worksIn]
    · simp [hphase, RequestPhase.waitsIn]
    · exact hbefore.queue
    · exact hbefore.nodup
    · intro u
      simpa [RequestPhase.waitsIn] using mem_iff_of_not_mem hticket
    · refine ⟨fun hunset => ?_, hbefore.rate.set⟩
      have := hbefore.rate.unset hunset
      omega
  · intro st' hne
    rw [hphase]
    exact hother st' hne
  · exact hother
  · intro _
    exact h.held t r st ht (by simp [hphase, RequestPhase.holds])

theorem Accounts.releaseStateReference (h : Accounts g) (hst : g.states[st]? = some state)
    (ht : g.requests[t]? = some r) (hphase : r.phase = .releasingReference st) :
    Accounts (g.releaseStateReference t r st state) := by
  have hbefore := h.states st state hst
  have hholds : r.phase.holds st = true := by simp [hphase, RequestPhase.holds]
  have hpos := countP_pos_of_getElem? (p := fun r : EmbeddingRequest => r.phase.holds st) ht hholds
  have hcount := hbefore.references
  have hticket := h.not_mem_queue hst ht (by rw [hphase]; rfl)
  have hother : ∀ st', st' ≠ st → (st == st') = false := fun st' hne => by simpa using Ne.symm hne
  rw [Gateway.releaseStateReference, if_neg (by omega)]
  apply h.move ht (List.getElem?_eq_some_iff.mp hst).1
  · apply hbefore.move ht
    · simp [hphase, RequestPhase.holds]
    · simp [hphase, RequestPhase.worksIn]
    · simp [hphase, RequestPhase.waitsIn]
    · exact hbefore.queue
    · exact hbefore.nodup
    · intro u
      simpa [RequestPhase.waitsIn] using mem_iff_of_not_mem hticket
    · exact ⟨hbefore.rate.unset, hbefore.rate.set⟩
  · intro st' hne
    rw [hphase]
    exact hother st' hne
  · intro st' _
    rfl
  · intro hfinished
    cases hfinished

theorem refillExistingRate_set {tokens updatedAt : ℚ} (now : ℚ) (htokens : state.rateTokens = some tokens)
    (hupdated : state.rateUpdatedAt = some updatedAt) :
    ∃ tokens', (refillExistingRate state now).rateTokens = some tokens' ∧
      (refillExistingRate state now).rateUpdatedAt = some (max updatedAt now) := by
  simp only [refillExistingRate, htokens, hupdated]
  split
  · exact ⟨_, rfl, trivial⟩
  · exact ⟨_, rfl, trivial⟩

/-- An admitted request has its rate to refund. -/
theorem Accounts.rate_set (h : Accounts g) (hst : g.states[st]? = some state)
    (ht : g.requests[t]? = some r) (hworks : r.phase.worksIn st = true) :
    0 < state.active ∧ ∃ tokens updatedAt, state.rateTokens = some tokens ∧
      state.rateUpdatedAt = some updatedAt ∧ 0 < state.rateCapacity ∧ 0 < state.ratePerMinute := by
  have hbefore := h.states st state hst
  have hpos := countP_pos_of_getElem? (p := fun r : EmbeddingRequest => r.phase.worksIn st) ht hworks
  have hactive : 0 < state.active := by
    have := hbefore.active
    omega
  cases htokens : state.rateTokens with
  | none =>
    have := hbefore.rate.unset htokens
    omega
  | some tokens =>
    obtain ⟨⟨updatedAt, hupdated⟩, hcapacity, hminute⟩ := hbefore.rate.set tokens htokens
    exact ⟨hactive, tokens, updatedAt, rfl, hupdated, hcapacity, hminute⟩

/-- The refund never meets a rate that is not set. -/
theorem refundRateLimit_eq {tokens updatedAt : ℚ} (g : Gateway) (t st : ℕ) (r : EmbeddingRequest)
    (now : ℚ) (htokens : state.rateTokens = some tokens)
    (hupdated : state.rateUpdatedAt = some updatedAt) (hcapacity : 0 < state.rateCapacity) :
    ∃ tokens', (refillExistingRate state now).rateTokens = some tokens' ∧
      (refillExistingRate state now).rateUpdatedAt = some (max updatedAt now) ∧
      g.refundRateLimit t r st state now = (((g.read now).setState st
        { refillExistingRate state now with
          rateTokens := some (min state.rateCapacity (tokens' + 1)) }).tell
            r.controls.providerConfigId .refunded now).setPhase t r (.releasingConcurrency st) := by
  obtain ⟨tokens', htokens', hupdated'⟩ := refillExistingRate_set now htokens hupdated
  refine ⟨tokens', htokens', hupdated', ?_⟩
  have hcap : state.rateCapacity ≠ 0 := Nat.pos_iff_ne_zero.mp hcapacity
  simp [Gateway.refundRateLimit, htokens', hcap]

theorem Accounts.refundRateLimit {now : ℚ} (h : Accounts g) (hst : g.states[st]? = some state)
    (ht : g.requests[t]? = some r) (hphase : r.phase = .refunding st) :
    Accounts (g.refundRateLimit t r st state now) := by
  have hbefore := h.states st state hst
  obtain ⟨hactive, tokens, updatedAt, htokens, hupdated, hcapacity, hminute⟩ :=
    h.rate_set hst ht (by simp [hphase, RequestPhase.worksIn])
  obtain ⟨tokens', htokens', hupdated', heq⟩ := refundRateLimit_eq g t st r now htokens hupdated hcapacity
  have hsame := refillExistingRate_counters state now
  have hticket := h.not_mem_queue hst ht (by rw [hphase]; rfl)
  have hother : ∀ st', st' ≠ st → (st == st') = false := fun st' hne => by simpa using Ne.symm hne
  rw [heq]
  have hmoved : Accounts ((g.setState st
      { refillExistingRate state now with
        rateTokens := some (min state.rateCapacity (tokens' + 1)) }).setPhase t r
          (.releasingConcurrency st)) := by
    apply h.move ht (List.getElem?_eq_some_iff.mp hst).1
    · apply hbefore.move ht
      · simp [hphase, RequestPhase.holds, hsame.references]
      · simp [hphase, RequestPhase.worksIn, hsame.active]
      · simp [hphase, RequestPhase.waitsIn, hsame.waiters]
      · rw [hsame.waiters, hsame.queue]
        exact hbefore.queue
      · rw [hsame.queue]
        exact hbefore.nodup
      · intro u
        rw [hsame.queue]
        simpa [RequestPhase.waitsIn] using mem_iff_of_not_mem hticket
      · constructor
        · intro hnone
          cases hnone
        · intro _ _
          exact ⟨⟨_, hupdated'⟩, by simpa using hcapacity, by simpa using hminute⟩
    · intro st' hne
      rw [hphase]
      exact hother st' hne
    · exact hother
    · intro _
      exact h.held t r st ht (by simp [hphase, RequestPhase.holds])
  exact hmoved.of_eq rfl rfl rfl rfl

/-- One pass of the loop in `_admit` admits the request whose turn it is, or leaves it waiting with
the rate brought up to date. -/
theorem tryAdmit_cases (g : Gateway) (t : ℕ) (r : EmbeddingRequest) (st : ℕ)
    (state : ProviderLimitState) (now : ℚ) :
    (state.queue.head? = some t ∧ state.active < r.controls.maxConcurrency ∧
      ∃ tokens, (refreshRate state now r.controls.requestsPerMinute).rateTokens.getD 0 = tokens ∧
        1 ≤ tokens + rateTolerance ∧
        g.tryAdmit t r st state now = (((g.read now).setState st
          { refreshRate state now r.controls.requestsPerMinute with
            queue := state.queue.tail
            waiters := state.waiters - 1
            active := state.active + 1
            rateTokens := some (max 0 (tokens - 1)) }).tell
              r.controls.providerConfigId .admitted now).setPhase t r (.admitted st false)) ∨
    (g.tryAdmit t r st state now =
      (g.read now).setState st (refreshRate state now r.controls.requestsPerMinute)) ∨
    g.tryAdmit t r st state now = g := by
  have hsame := refreshRate_counters state now r.controls.requestsPerMinute
  by_cases hturn : state.queue.head? = some t ∧ state.active < r.controls.maxConcurrency
  · by_cases henough : 1 ≤
        (refreshRate state now r.controls.requestsPerMinute).rateTokens.getD 0 + rateTolerance
    · refine .inl ⟨hturn.1, hturn.2, _, rfl, henough, ?_⟩
      simp only [Gateway.tryAdmit, if_pos hturn, if_pos henough, hsame.queue, hsame.waiters,
        hsame.active]
    · refine .inr (.inl ?_)
      simp only [Gateway.tryAdmit, if_pos hturn, if_neg henough]
  · refine .inr (.inr ?_)
    simp only [Gateway.tryAdmit, if_neg hturn]

theorem Accounts.tryAdmit {now : ℚ} (h : Accounts g) (hst : g.states[st]? = some state)
    (ht : g.requests[t]? = some r) (hphase : r.phase = .queued st) :
    Accounts (g.tryAdmit t r st state now) := by
  have hbefore := h.states st state hst
  have hsame := refreshRate_counters state now r.controls.requestsPerMinute
  obtain ⟨⟨tokens₀, htokens₀⟩, ⟨updatedAt, hupdated⟩, hcapacity, hminute⟩ :=
    refreshRate_set now r.controls.requestsPerMinute hbefore.rate
  have hrpm := r.controls.validRate.1
  have hother : ∀ st', st' ≠ st → (st == st') = false := fun st' hne => by simpa using Ne.symm hne
  rcases tryAdmit_cases g t r st state now with ⟨hhead, hactive, tokens, -, -, heq⟩ | heq | heq
  · rw [heq]
    obtain ⟨rest, hqueue⟩ := List.head?_eq_some_iff.mp hhead
    have hnodup := hbefore.nodup
    rw [hqueue, List.nodup_cons] at hnodup
    have hmoved : Accounts ((g.setState st
        { refreshRate state now r.controls.requestsPerMinute with
          queue := state.queue.tail
          waiters := state.waiters - 1
          active := state.active + 1
          rateTokens := some (max 0 (tokens - 1)) }).setPhase t r (.admitted st false)) := by
      apply h.move ht (List.getElem?_eq_some_iff.mp hst).1
      · apply hbefore.move ht
        · simp [hphase, RequestPhase.holds, hsame.references]
        · simp [hphase, RequestPhase.worksIn]
        · simp [hphase, RequestPhase.waitsIn]
        · change state.waiters - 1 = (state.queue.tail.length : ℤ)
          rw [hbefore.queue, hqueue]
          simp
        · rw [hqueue]
          exact hnodup.2
        · intro u
          rw [hqueue]
          simp only [List.tail_cons, RequestPhase.waitsIn, List.mem_cons]
          constructor
          · intro hu
            exact .inr ⟨fun hut => hnodup.1 (hut ▸ hu), .inr hu⟩
          · rintro (⟨-, hwaits⟩ | ⟨hne, hu⟩)
            · cases hwaits
            · exact hu.resolve_left hne
        · constructor
          · intro hnone
            cases hnone
          · intro _ _
            exact ⟨⟨_, hupdated⟩, by rw [hcapacity]; exact hrpm, by rw [hminute]; exact hrpm⟩
      · intro st' hne
        rw [hphase]
        exact hother st' hne
      · exact hother
      · intro _
        exact h.held t r st ht (by simp [hphase, RequestPhase.holds])
    exact hmoved.of_eq rfl rfl rfl rfl
  · rw [heq]
    have hrate : RateKept (refreshRate state now r.controls.requestsPerMinute) := by
      constructor
      · intro hnone
        rw [htokens₀] at hnone
        cases hnone
      · intro _ _
        exact ⟨⟨_, hupdated⟩, by rw [hcapacity]; exact hrpm, by rw [hminute]; exact hrpm⟩
    exact (h.setRate hst hsame hrate).of_eq rfl rfl rfl rfl
  · rw [heq]
    exact h

/-- A pass over the registry leaves each state or brings its rate up to date. -/
theorem getElem?_reclaimed {now : ℚ} (entries : List (ℕ × ℕ)) (states : List ProviderLimitState)
    (h : (entries.foldl (fun states entry =>
      states.modify entry.2 fun state => (reclaimDelay state now).1) states)[st]? = some state') :
    ∃ state, states[st]? = some state ∧
      (state' = state ∨ state' = (reclaimDelay state now).1) := by
  induction entries generalizing states with
  | nil => exact ⟨state', h, .inl rfl⟩
  | cons entry entries ih =>
    obtain ⟨state₁, hstate₁, hstate'⟩ := ih _ h
    rw [List.getElem?_modify] at hstate₁
    split at hstate₁
    · obtain ⟨state, hstate, rfl⟩ := Option.map_eq_some_iff.mp hstate₁
      refine ⟨state, hstate, .inr ?_⟩
      rcases hstate' with rfl | rfl
      · rfl
      · exact reclaimDelay_again
    · exact ⟨state₁, by simpa using hstate₁, hstate'⟩

theorem length_reclaimed {now : ℚ} (entries : List (ℕ × ℕ)) (states : List ProviderLimitState) :
    (entries.foldl (fun states entry =>
      states.modify entry.2 fun state => (reclaimDelay state now).1) states).length =
        states.length := by
  induction entries generalizing states with
  | nil => rfl
  | cons entry entries ih => rw [List.foldl_cons, ih, List.length_modify]

theorem Accounts.reclaimDelays (now : ℚ) (h : Accounts g) : Accounts (g.reclaimDelays now) where
  states st state' hst := by
    obtain ⟨state, hstate, rfl | rfl⟩ := getElem?_reclaimed g.limitStates g.states hst
    · exact h.states st _ hstate
    · exact (h.states st state hstate).of_counters reclaimDelay_counters
        (reclaimDelay_kept (h.states st state hstate).rate)
  providers := h.providers
  entries := h.entries
  made entry hentry := by
    rw [Gateway.reclaimDelays, length_reclaimed]
    exact h.made entry hentry
  held := h.held
  quiet := h.quiet

/-- An entry that goes names an idle state. -/
theorem idle_of_pruned {now : ℚ} {entry : ℕ × ℕ} (hentry : entry ∈ g.limitStates)
    (hgone : entry ∉ (g.pruneReclaimableStates now).limitStates) :
    ∃ state, g.states[entry.2]? = some state ∧ state.Idle ∧
      (reclaimDelay state now).2 = some 0 := by
  have hreclaimable : g.reclaimable now entry = true := by
    by_contra hkept
    apply hgone
    exact List.mem_filter.mpr ⟨hentry, by simpa using hkept⟩
  rw [Gateway.reclaimable] at hreclaimable
  split at hreclaimable
  · rename_i state hstate
    have hdelay : (reclaimDelay state now).2 = some 0 := by simpa using hreclaimable
    exact ⟨state, hstate, idle_of_reclaimable hdelay, hdelay⟩
  · cases hreclaimable

theorem Accounts.pruneReclaimableStates {now : ℚ} (h : Accounts g) :
    Accounts (g.pruneReclaimableStates now) where
  states := (h.reclaimDelays now).states
  providers := h.providers.sublist (List.filter_sublist.map _)
  entries := h.entries.sublist (List.filter_sublist.map _)
  made entry hentry := (h.reclaimDelays now).made entry (List.mem_filter.mp hentry).1
  held t r st hr hholds := by
    have hentry := h.held t r st hr hholds
    by_contra hgone
    obtain ⟨state, hstate, hidle, -⟩ := idle_of_pruned hentry hgone
    have hcount := (h.states st state hstate).references
    have hpos : 0 < g.requests.countP fun r => r.phase.holds st := countP_pos_of_getElem? hr hholds
    have hzero := hidle.1
    omega
  quiet := h.quiet

/-- Nobody holds a state that is not made yet. -/
theorem Accounts.fresh (h : Accounts g) :
    StateAccounts g.requests g.states.length { ProviderLimitState.fresh with references := 0 } := by
  have hnone : ∀ r ∈ g.requests, r.phase.holds g.states.length = false := by
    intro r hr
    obtain ⟨t, ht⟩ := List.mem_iff_getElem?.mp hr
    by_contra hholds
    exact absurd (h.made _ (h.held t r _ ht (by simpa using hholds))) (lt_irrefl _)
  have hcount : ∀ p : EmbeddingRequest → Bool,
      (∀ r ∈ g.requests, p r = true → r.phase.holds g.states.length = true) →
      (0 : ℤ) = g.requests.countP p := by
    intro p hp
    have hzero : g.requests.countP p = 0 := by
      rw [List.countP_eq_zero]
      intro r hr hpr
      have hholds := hp r hr hpr
      rw [hnone r hr] at hholds
      cases hholds
    rw [hzero]
    rfl
  refine ⟨hcount _ fun r hr hp => hp, hcount _ fun r hr => RequestPhase.holds_of_worksIn,
    hcount _ fun r hr => RequestPhase.holds_of_waitsIn, rfl, List.nodup_nil, ?_, ?_, ?_⟩
  · intro t
    constructor
    · intro ht
      cases ht
    · rintro ⟨r, hr, hwaits⟩
      have := hnone r (List.mem_of_getElem? hr)
      rw [RequestPhase.holds_of_waitsIn hwaits] at this
      cases this
  · intro _
    rfl
  · intro tokens htokens
    cases htokens

theorem limitState_eq_some {provider : ℕ} (h : g.limitState provider = some st) :
    (provider, st) ∈ g.limitStates := by
  obtain ⟨entry, hfind, rfl⟩ := Option.map_eq_some_iff.mp h
  have hkey : entry.1 = provider := by simpa using List.find?_some hfind
  rw [← hkey]
  exact List.mem_of_find?_eq_some hfind

theorem not_mem_of_limitState_eq_none {provider : ℕ} (h : g.limitState provider = none) :
    provider ∉ g.limitStates.map Prod.fst := by
  rw [Gateway.limitState, Option.map_eq_none_iff, List.find?_eq_none] at h
  intro hmem
  obtain ⟨entry, hentry, rfl⟩ := List.mem_map.mp hmem
  exact h entry hentry (by simp)

/-- A provider without a live state gets one. -/
theorem Accounts.createState {now : ℚ} (h : Accounts g) (ht : g.requests[t]? = some r)
    (hphase : r.phase = .starting)
    (hnone : r.controls.providerConfigId ∉ g.limitStates.map Prod.fst) :
    Accounts ((g.createState r.controls.providerConfigId now).setPhase t r
      (.referenced g.states.length)) where
  states st state hst := by
    rcases getElem?_append_singleton_cases hst with ⟨rfl, rfl⟩ | hst
    · have hticket : t ∉ ([] : List ℕ) := List.not_mem_nil
      apply h.fresh.move ht
      · simp [hphase, RequestPhase.holds, ProviderLimitState.fresh]
      · simp [hphase, RequestPhase.worksIn, ProviderLimitState.fresh]
      · simp [hphase, RequestPhase.waitsIn, ProviderLimitState.fresh]
      · rfl
      · exact List.nodup_nil
      · intro u
        simp [RequestPhase.waitsIn, ProviderLimitState.fresh]
      · exact ⟨h.fresh.rate.unset, h.fresh.rate.set⟩
    · have hlt := (List.getElem?_eq_some_iff.mp hst).1
      apply (h.states st state hst).other ht
      · rw [hphase]
        rfl
      · simp [RequestPhase.holds]
        omega
  providers := by
    rw [Gateway.setPhase, Gateway.createState, List.map_append, List.nodup_append]
    refine ⟨h.providers, List.nodup_singleton _, ?_⟩
    rintro provider hmem provider' hmem' rfl
    rw [List.mem_singleton.mp hmem'] at hmem
    exact hnone hmem
  entries := by
    rw [Gateway.setPhase, Gateway.createState, List.map_append, List.nodup_append]
    refine ⟨h.entries, List.nodup_singleton _, ?_⟩
    rintro st hmem st' hmem' rfl
    obtain ⟨entry, hentry, rfl⟩ := List.mem_map.mp hmem
    have hlt := h.made entry hentry
    rw [List.mem_singleton.mp hmem'] at hlt
    exact lt_irrefl _ hlt
  made entry hentry := by
    simp only [Gateway.setPhase, Gateway.createState, List.length_append, List.length_singleton]
    rcases List.mem_append.mp hentry with hentry | hentry
    · exact Nat.lt_succ_of_lt (h.made entry hentry)
    · rw [List.mem_singleton.mp hentry]
      exact Nat.lt_succ_self _
  held t' r' st' hr' hholds := by
    apply List.mem_append.mpr
    rcases getElem?_set_cases hr' with ⟨rfl, rfl⟩ | ⟨-, hr'⟩
    · have hst' : g.states.length = st' := by simpa [RequestPhase.holds] using hholds
      rw [← hst']
      exact .inr (List.mem_singleton.mpr rfl)
    · exact .inl (h.held t' r' st' hr' hholds)
  quiet := h.quiet

/-- One pass of `_limit_state`. -/
theorem acquireState_cases (maxProviderStates : ℕ) (g : Gateway) (t : ℕ) (r : EmbeddingRequest)
    (now : ℚ) :
    (∃ st, g.limitState r.controls.providerConfigId = some st ∧
      ((∃ state, g.states[st]? = some state ∧ g.acquireState maxProviderStates t r now =
        (g.setState st { state with references := state.references + 1 }).setPhase t r
          (.referenced st)) ∨
      (g.states[st]? = none ∧ g.acquireState maxProviderStates t r now = g))) ∨
    (g.limitState r.controls.providerConfigId = none ∧
      (g.acquireState maxProviderStates t r now =
        (((g.read now).pruneReclaimableStates now).createState r.controls.providerConfigId
          now).setPhase t r (.referenced ((g.read now).pruneReclaimableStates now).states.length) ∨
      g.acquireState maxProviderStates t r now =
        ((g.read now).pruneReclaimableStates now).reclaimDelays now)) := by
  cases hlive : g.limitState r.controls.providerConfigId with
  | some st =>
    refine .inl ⟨st, rfl, ?_⟩
    cases hst : g.states[st]? with
    | some state =>
      refine .inl ⟨state, rfl, ?_⟩
      simp only [Gateway.acquireState, hlive, hst]
    | none =>
      refine .inr ⟨rfl, ?_⟩
      simp only [Gateway.acquireState, hlive, hst]
  | none =>
    refine .inr ⟨rfl, ?_⟩
    simp only [Gateway.acquireState, hlive]
    split
    · exact .inl rfl
    · exact .inr rfl

theorem Accounts.acquireState {maxProviderStates : ℕ} {now : ℚ} (h : Accounts g)
    (ht : g.requests[t]? = some r) (hphase : r.phase = .starting) :
    Accounts (g.acquireState maxProviderStates t r now) := by
  have hread : Accounts (g.read now) := h.of_eq rfl rfl rfl rfl
  rcases acquireState_cases maxProviderStates g t r now with
    ⟨st, hlive, ⟨state, hst, heq⟩ | ⟨-, heq⟩⟩ | ⟨hlive, heq | heq⟩
  · rw [heq]
    exact h.referenced hst ht hphase (limitState_eq_some hlive)
  · rw [heq]
    exact h
  · rw [heq]
    apply hread.pruneReclaimableStates.createState ht hphase
    intro hmem
    apply not_mem_of_limitState_eq_none hlive
    exact (List.filter_sublist.map Prod.fst).subset hmem
  · rw [heq]
    exact hread.pruneReclaimableStates.reclaimDelays now

theorem Accounts.called (h : Accounts g) (controls : OperationalControls) :
    Accounts { g with requests := g.requests ++ [⟨controls, .starting⟩] } where
  states st state hst := (h.states st state hst).called controls
  providers := h.providers
  entries := h.entries
  made := h.made
  held t r st hr hholds := by
    rcases getElem?_append_singleton_cases hr with ⟨-, rfl⟩ | hr
    · cases hholds
    · exact h.held t r st hr hholds
  quiet := h.quiet

/-- Without taking or giving back anything the request goes on. -/
inductive GoesOn : RequestPhase → RequestPhase → Prop
  | abandoned (st : ℕ) : GoesOn (.referenced st) (.releasingReference st)
  | unadmitted (st : ℕ) : GoesOn (.queued st) (.unadmitted st)
  | ended (st : ℕ) : GoesOn (.admitted st true) (.releasingConcurrency st)
  | unattempted (st : ℕ) : GoesOn (.admitted st false) (.refunding st)
  | finished : GoesOn .starting .finished

/-- What a step of the request `t` can do. -/
inductive Moved (maxProviderStates : ℕ) (g : Gateway) (t : ℕ) (r : EmbeddingRequest) :
    Gateway → Prop
  | acquired (now : ℚ) (was : r.phase = .starting) :
      Moved maxProviderStates g t r (g.acquireState maxProviderStates t r now)
  | enqueued {st : ℕ} {state : ProviderLimitState} (found : g.states[st]? = some state)
      (was : r.phase = .referenced st) : Moved maxProviderStates g t r (g.enqueue t r st state)
  | tried {st : ℕ} {state : ProviderLimitState} (now : ℚ) (found : g.states[st]? = some state)
      (was : r.phase = .queued st) :
      Moved maxProviderStates g t r (g.tryAdmit t r st state now)
  | removed {st : ℕ} {state : ProviderLimitState} (found : g.states[st]? = some state)
      (was : r.phase = .unadmitted st) : Moved maxProviderStates g t r (g.removeTicket t r st state)
  | attempted {st : ℕ} (now : ℚ) (was : r.phase = .admitted st false) :
      Moved maxProviderStates g t r
        (((g.read now).tell r.controls.providerConfigId .attempted now).setPhase t r
          (.admitted st true))
  | wentOn {phase : RequestPhase} (on : GoesOn r.phase phase) :
      Moved maxProviderStates g t r (g.setPhase t r phase)
  | refunded {st : ℕ} {state : ProviderLimitState} (now : ℚ) (found : g.states[st]? = some state)
      (was : r.phase = .refunding st) :
      Moved maxProviderStates g t r (g.refundRateLimit t r st state now)
  | concurrencyReleased {st : ℕ} {state : ProviderLimitState} (found : g.states[st]? = some state)
      (was : r.phase = .releasingConcurrency st) :
      Moved maxProviderStates g t r (g.releaseConcurrency t r st state)
  | referenceReleased {st : ℕ} {state : ProviderLimitState} (found : g.states[st]? = some state)
      (was : r.phase = .releasingReference st) :
      Moved maxProviderStates g t r (g.releaseStateReference t r st state)

theorem moved_of_advance {maxProviderStates : ℕ} {event : GatewayEvent}
    (hevent : event.request = some t) (h : g.advance maxProviderStates r event = some g') :
    Moved maxProviderStates g t r g' := by
  cases event with
  | called controls => cases hevent
  | stateRequested u now =>
    cases hevent
    cases hphase : r.phase <;> simp only [Gateway.advance, hphase, reduceCtorEq] at h
    cases h
    exact .acquired now hphase
  | enqueued u =>
    cases hevent
    cases hphase : r.phase <;> simp only [Gateway.advance, hphase, reduceCtorEq] at h
    obtain ⟨state, hstate, rfl⟩ := Option.map_eq_some_iff.mp h
    exact .enqueued hstate hphase
  | admissionTried u now =>
    cases hevent
    cases hphase : r.phase <;> simp only [Gateway.advance, hphase, reduceCtorEq] at h
    obtain ⟨state, hstate, rfl⟩ := Option.map_eq_some_iff.mp h
    exact .tried now hstate hphase
  | abandoned u =>
    cases hevent
    cases hphase : r.phase <;> simp only [Gateway.advance, hphase, reduceCtorEq] at h <;> cases h
    · exact .wentOn (hphase ▸ .finished)
    · exact .wentOn (hphase ▸ .abandoned _)
    · exact .wentOn (hphase ▸ .unadmitted _)
  | ticketRemoved u =>
    cases hevent
    cases hphase : r.phase <;> simp only [Gateway.advance, hphase, reduceCtorEq] at h
    obtain ⟨state, hstate, rfl⟩ := Option.map_eq_some_iff.mp h
    exact .removed hstate hphase
  | attemptStarted u now =>
    cases hevent
    simp only [Gateway.advance] at h
    split at h
    · rename_i st hphase
      cases h
      exact .attempted now hphase
    · cases h
  | ended u =>
    cases hevent
    simp only [Gateway.advance] at h
    split at h
    · rename_i st hphase
      cases h
      exact .wentOn (hphase ▸ .ended st)
    · rename_i st hphase
      cases h
      exact .wentOn (hphase ▸ .unattempted st)
    · cases h
  | refunded u now =>
    cases hevent
    cases hphase : r.phase <;> simp only [Gateway.advance, hphase, reduceCtorEq] at h
    obtain ⟨state, hstate, rfl⟩ := Option.map_eq_some_iff.mp h
    exact .refunded now hstate hphase
  | concurrencyReleased u =>
    cases hevent
    cases hphase : r.phase <;> simp only [Gateway.advance, hphase, reduceCtorEq] at h
    obtain ⟨state, hstate, rfl⟩ := Option.map_eq_some_iff.mp h
    exact .concurrencyReleased hstate hphase
  | referenceReleased u =>
    cases hevent
    cases hphase : r.phase <;> simp only [Gateway.advance, hphase, reduceCtorEq] at h
    obtain ⟨state, hstate, rfl⟩ := Option.map_eq_some_iff.mp h
    exact .referenceReleased hstate hphase

/-- A step calls a new request or moves one. -/
theorem step_cases {maxProviderStates : ℕ} {event : GatewayEvent}
    (h : g.step maxProviderStates event = some g') :
    (∃ controls, g' = { g with requests := g.requests ++ [⟨controls, .starting⟩] }) ∨
      ∃ t r, g.requests[t]? = some r ∧ Moved maxProviderStates g t r g' := by
  cases hrequest : event.request with
  | none =>
    cases event with
    | called controls =>
      cases h
      exact .inl ⟨controls, rfl⟩
    | _ => cases hrequest
  | some t =>
    have hadvance : (g.requests[t]?).bind (fun r => g.advance maxProviderStates r event) = some g' := by
      cases event with
      | called controls => cases hrequest
      | _ =>
        cases hrequest
        exact h
    obtain ⟨r, ht, hr⟩ := Option.bind_eq_some_iff.mp hadvance
    exact .inr ⟨t, r, ht, moved_of_advance hrequest hr⟩

theorem Accounts.goesOn (h : Accounts g) (ht : g.requests[t]? = some r) (hon : GoesOn r.phase phase) :
    Accounts (g.setPhase t r phase) := by
  generalize hphase : r.phase = before at hon
  cases hon <;> apply h.stay ht <;> intro st <;> rw [hphase] <;> rfl

theorem Accounts.moved {maxProviderStates : ℕ} (h : Accounts g) (ht : g.requests[t]? = some r)
    (hmoved : Moved maxProviderStates g t r g') : Accounts g' := by
  cases hmoved with
  | acquired now hphase => exact h.acquireState ht hphase
  | enqueued hst hphase => exact h.enqueue hst ht hphase
  | tried now hst hphase => exact h.tryAdmit hst ht hphase
  | removed hst hphase => exact h.removeTicket hst ht hphase
  | attempted now hphase =>
    have hattempted := h.stay ht (.admitted _ true) (fun st => by rw [hphase]; rfl)
      (fun st => by rw [hphase]; rfl) fun st => by rw [hphase]; rfl
    exact hattempted.of_eq rfl rfl rfl rfl
  | wentOn hon => exact h.goesOn ht hon
  | refunded now hst hphase => exact h.refundRateLimit hst ht hphase
  | concurrencyReleased hst hphase => exact h.releaseConcurrency hst ht hphase
  | referenceReleased hst hphase => exact h.releaseStateReference hst ht hphase

theorem accounts_init : Accounts Gateway.init where
  states st state hst := by cases hst
  providers := List.nodup_nil
  entries := List.nodup_nil
  made entry hentry := by cases hentry
  held t r st hr := by cases hr
  quiet := rfl

theorem Accounts.step {maxProviderStates : ℕ} {event : GatewayEvent} (h : Accounts g)
    (hstep : g.step maxProviderStates event = some g') : Accounts g' := by
  rcases step_cases hstep with ⟨controls, rfl⟩ | ⟨t, r, ht, hmoved⟩
  · exact h.called controls
  · exact h.moved ht hmoved

/-- The accounts are right in every run. -/
theorem accounts_of_reaches {maxProviderStates : ℕ}
    (h : Reaches (Gateway.step maxProviderStates) Gateway.init g) : Accounts g :=
  h.induction_on Accounts (fun _ _ _ hg hstep => hg.step hstep) accounts_init

/-- An entry that a step drops from the registry names a state that nobody refers to, works in or
waits for. -/
def Retained (g g' : Gateway) : Prop :=
  ∀ entry ∈ g.limitStates, entry ∉ g'.limitStates →
    ∃ state, g.states[entry.2]? = some state ∧ state.Idle

/-- A request that a step admits was at the head of the queue, and its provider had a place below the
limit of the request itself. -/
def AdmittedInTurn (g g' : Gateway) : Prop :=
  ∀ (t : ℕ) (r r' : EmbeddingRequest) (st : ℕ), g.requests[t]? = some r →
    g'.requests[t]? = some r' → r.phase.worksIn st = false → r'.phase.worksIn st = true →
      ∃ state, g.states[st]? = some state ∧ state.queue.head? = some t ∧
        state.active < r.controls.maxConcurrency

theorem Retained.of_eq (h : g'.limitStates = g.limitStates) : Retained g g' := by
  intro entry hentry hgone
  rw [h] at hgone
  exact absurd hentry hgone

theorem Retained.moved {maxProviderStates : ℕ} (hmoved : Moved maxProviderStates g t r g') :
    Retained g g' := by
  cases hmoved with
  | acquired now hphase =>
    rcases acquireState_cases maxProviderStates g t r now with
      ⟨st, hlive, ⟨state, hst, heq⟩ | ⟨-, heq⟩⟩ | ⟨hlive, heq | heq⟩
    · rw [heq]
      exact .of_eq rfl
    · rw [heq]
      exact .of_eq rfl
    · rw [heq]
      intro entry hentry hgone
      have hpruned : entry ∉ ((g.read now).pruneReclaimableStates now).limitStates := by
        intro hkept
        exact hgone (List.mem_append_left _ hkept)
      obtain ⟨state, hstate, hidle, -⟩ := idle_of_pruned (g := g.read now) hentry hpruned
      exact ⟨state, hstate, hidle⟩
    · rw [heq]
      intro entry hentry hgone
      obtain ⟨state, hstate, hidle, -⟩ := idle_of_pruned (g := g.read now) hentry hgone
      exact ⟨state, hstate, hidle⟩
  | enqueued hst hphase => exact .of_eq rfl
  | tried now hst hphase =>
    rcases tryAdmit_cases g t r _ _ now with ⟨-, -, tokens, -, -, heq⟩ | heq | heq
    · exact .of_eq (by rw [heq]; rfl)
    · exact .of_eq (by rw [heq]; rfl)
    · exact .of_eq (by rw [heq])
  | removed hst hphase =>
    rw [Gateway.removeTicket]
    split <;> exact .of_eq rfl
  | attempted now hphase => exact .of_eq rfl
  | wentOn hon => exact .of_eq rfl
  | refunded now hst hphase =>
    simp only [Gateway.refundRateLimit]
    split
    · split <;> exact .of_eq rfl
    · exact .of_eq rfl
  | concurrencyReleased hst hphase =>
    rw [Gateway.releaseConcurrency]
    split <;> exact .of_eq rfl
  | referenceReleased hst hphase =>
    rw [Gateway.releaseStateReference]
    split <;> exact .of_eq rfl

/-- The requests after a step; one that is admitted had its turn. -/
theorem Moved.requests {maxProviderStates : ℕ} (hmoved : Moved maxProviderStates g t r g') :
    g'.requests = g.requests ∨
      ∃ phase, g'.requests = g.requests.set t { r with phase := phase } ∧
        ∀ st, phase.worksIn st = true → r.phase.worksIn st = true ∨
          ∃ state, g.states[st]? = some state ∧ state.queue.head? = some t ∧
            state.active < r.controls.maxConcurrency := by
  cases hmoved with
  | acquired now hphase =>
    rcases acquireState_cases maxProviderStates g t r now with
      ⟨st, hlive, ⟨state, hst, heq⟩ | ⟨-, heq⟩⟩ | ⟨hlive, heq | heq⟩
    · refine .inr ⟨.referenced st, by rw [heq]; rfl, ?_⟩
      intro st' hworks
      cases hworks
    · exact .inl (by rw [heq])
    · refine .inr ⟨_, by rw [heq]; rfl, ?_⟩
      intro st' hworks
      cases hworks
    · exact .inl (by rw [heq]; rfl)
  | enqueued hst hphase =>
    refine .inr ⟨_, rfl, ?_⟩
    intro st' hworks
    cases hworks
  | @tried st state now hst hphase =>
    rcases tryAdmit_cases g t r st state now with ⟨hhead, hactive, tokens, -, -, heq⟩ | heq | heq
    · refine .inr ⟨.admitted st false, by rw [heq]; rfl, ?_⟩
      intro st' hworks
      have hsame : st = st' := by simpa [RequestPhase.worksIn] using hworks
      subst hsame
      exact .inr ⟨state, hst, hhead, hactive⟩
    · exact .inl (by rw [heq]; rfl)
    · exact .inl (by rw [heq])
  | @removed st state hst hphase =>
    refine .inr ⟨.releasingReference st, ?_, ?_⟩
    · rw [Gateway.removeTicket]
      split <;> rfl
    · intro st' hworks
      cases hworks
  | attempted now hphase =>
    refine .inr ⟨_, rfl, ?_⟩
    intro st' hworks
    rw [hphase]
    exact .inl hworks
  | @wentOn phase hon =>
    refine .inr ⟨phase, rfl, ?_⟩
    intro st' hworks
    generalize r.phase = before at hon
    cases hon with
    | abandoned | unadmitted | finished => cases hworks
    | ended | unattempted => exact .inl hworks
  | @refunded st state now hst hphase =>
    refine .inr ⟨.releasingConcurrency st, ?_, ?_⟩
    · simp only [Gateway.refundRateLimit]
      split
      · split <;> rfl
      · rfl
    · intro st' hworks
      rw [hphase]
      exact .inl hworks
  | @concurrencyReleased st state hst hphase =>
    refine .inr ⟨.releasingReference st, ?_, ?_⟩
    · rw [Gateway.releaseConcurrency]
      split <;> rfl
    · intro st' hworks
      cases hworks
  | @referenceReleased st state hst hphase =>
    refine .inr ⟨.finished, ?_, ?_⟩
    · rw [Gateway.releaseStateReference]
      split <;> rfl
    · intro st' hworks
      cases hworks

theorem AdmittedInTurn.moved {maxProviderStates : ℕ} (ht : g.requests[t]? = some r)
    (hmoved : Moved maxProviderStates g t r g') : AdmittedInTurn g g' := by
  intro u q q' st hq hq' hbefore hafter
  rcases hmoved.requests with hsame | ⟨phase, hset, hturn⟩
  · rw [hsame, hq] at hq'
    cases hq'
    rw [hbefore] at hafter
    cases hafter
  · rw [hset] at hq'
    rcases getElem?_set_cases hq' with ⟨rfl, rfl⟩ | ⟨-, hq'⟩
    · cases ht.symm.trans hq
      rcases hturn st hafter with hworks | hadmitted
      · rw [hbefore] at hworks
        cases hworks
      · exact hadmitted
    · cases hq.symm.trans hq'
      rw [hbefore] at hafter
      cases hafter

/-- In every run of the gateway the accounts are right and no assertion fails, and every further step
drops only states that nobody uses and admits only in turn. -/
theorem admission_accounts {maxProviderStates : ℕ}
    (h : Reaches (Gateway.step maxProviderStates) Gateway.init g) :
    Accounts g ∧ ∀ event g', g.step maxProviderStates event = some g' →
      Retained g g' ∧ AdmittedInTurn g g' := by
  refine ⟨accounts_of_reaches h, ?_⟩
  intro event g' hstep
  rcases step_cases hstep with ⟨controls, rfl⟩ | ⟨t, r, ht, hmoved⟩
  · refine ⟨.of_eq rfl, ?_⟩
    intro u q q' st hq hq' hbefore hafter
    rcases getElem?_append_singleton_cases hq' with ⟨-, rfl⟩ | hq'
    · cases hafter
    · cases hq.symm.trans hq'
      rw [hbefore] at hafter
      cases hafter
  · exact ⟨.moved hmoved, .moved ht hmoved⟩

end Gateways

/-- One request at a time, one a second. -/
def singleFile : OperationalControls := ⟨7, 1, 60, by decide, by decide⟩

/-- Two requests to one provider: the second waits for the first, is admitted after it, and ends
before it reaches the provider. -/
def queuedRun : List GatewayEvent :=
  [.called singleFile, .called singleFile, .stateRequested 0 0, .enqueued 0, .admissionTried 0 0,
    .stateRequested 1 1, .enqueued 1, .admissionTried 1 1, .attemptStarted 0 1, .ended 0,
    .concurrencyReleased 0, .admissionTried 1 2, .ended 1, .refunded 1 3, .concurrencyReleased 1,
    .referenceReleased 0]

theorem admission_accounts_queuedRun : ∃ g, runs (Gateway.step 1) Gateway.init queuedRun = some g ∧
    g.requests.map EmbeddingRequest.phase = [.finished, .releasingReference 0] ∧ Accounts g ∧
      ∀ event g', g.step 1 event = some g' → Retained g g' ∧ AdmittedInTurn g g' := by
  have hrun : (runs (Gateway.step 1) Gateway.init queuedRun).map
      (fun g => g.requests.map EmbeddingRequest.phase) = some [.finished, .releasingReference 0] := by
    decide +kernel
  obtain ⟨g, hg, hphases⟩ := Option.map_eq_some_iff.mp hrun
  exact ⟨g, hg, hphases, admission_accounts ⟨queuedRun, hg⟩⟩

end VeloxRag.Embeddings
