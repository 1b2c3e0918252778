import VeloxRag.Providers.PoolLeases

/-!
# Evicted pools leave the registry

A pool that is marked is in the registry until the task that marked it takes it out.  Here the steps
of the transport are whole: a request that evicts a pool ends its eviction in one step.

## Main definitions

* `TaskId`, `Removing` — a task that is to take an entry out of the registry.
* `Evolves` — what one step does to the registry and to the tasks that remove entries.
* `marked_removing` — every marked entry of the registry has such a task.
* `removing_of_reaches` — it stays one until the entry is gone.
-/

namespace VeloxRag.Transport

open Lib

/-- A task of the event loop: a request, the close task, a caller of `aclose`. -/
inductive TaskId
  | request (t : ℕ)
  | close
  | caller (n : ℕ)
  deriving DecidableEq, Repr

variable {δ : Type*} {s s' : State δ} {t e : ℕ} {v : δ} {r : TransportRequest δ} {id : TaskId}
  {maxDestinationPools : ℕ}

/-- The task is to take the entry out of the registry. -/
def Removing (s : State δ) (v : δ) (e : ℕ) : TaskId → Prop
  | .request t => ∃ r called, s.requests[t]? = some r ∧ r.phase = .evicting v e called
  | .close => ∃ rest called, s.closePhase = .closing rest called ∧ (v, e) ∈ rest
  | .caller _ => False

/-- The entry is marked. -/
def Marked (s : State δ) (e : ℕ) : Prop :=
  ∃ entry, s.entries[e]? = some entry ∧ entry.closing = true

/-! ## One step -/

/-- What a step does to the registry: only a new entry is registered, who removes an entry goes on
until it is gone, and what is marked was marked or is removed. -/
structure Evolves (s s' : State δ) : Prop where
  registered : ∀ p ∈ s'.pools, p ∈ s.pools ∨ p.2 = s.entries.length
  grows : s.entries.length ≤ s'.entries.length
  removing : ∀ v e id, Removing s v e id → (v, e) ∈ s'.pools → Removing s' v e id
  marked : ∀ p ∈ s'.pools, Marked s' p.2 →
    p ∈ s.pools ∧ Marked s p.2 ∨ ∃ id, Removing s' p.1 p.2 id

theorem Removing.of_eq (h : Removing s v e id) (hrequests : s'.requests = s.requests)
    (hclose : s'.closePhase = s.closePhase) : Removing s' v e id := by
  cases id with
  | request t =>
      rw [Removing, hrequests]
      exact h
  | close =>
      rw [Removing, hclose]
      exact h
  | caller n => exact h

/-- A request moves that does not stop evicting. -/
theorem Removing.of_set {r' : TransportRequest δ} (h : Removing s v e id)
    (ht : s.requests[t]? = some r) (hrequests : s'.requests = s.requests.set t r')
    (hclose : s'.closePhase = s.closePhase)
    (hphase : ∀ v e called, r.phase = .evicting v e called →
      ∃ called', r'.phase = .evicting v e called') : Removing s' v e id := by
  cases id with
  | request t' =>
      obtain ⟨r₀, called, hr₀, hevicting⟩ := h
      rw [Removing, hrequests]
      by_cases hsame : t' = t
      · subst hsame
        rw [ht] at hr₀
        cases hr₀
        obtain ⟨called', hcalled'⟩ := hphase v e called hevicting
        exact ⟨r', called', getElem?_set_same ht, hcalled'⟩
      · rw [List.getElem?_set_ne (Ne.symm hsame)]
        exact ⟨r₀, called, hr₀, hevicting⟩
  | close =>
      rw [Removing, hclose]
      exact h
  | caller n => exact h

/-- A step that marks nothing and leaves the registry a part of what it was. -/
theorem Evolves.of_keeps (hpools : ∀ p ∈ s'.pools, p ∈ s.pools)
    (hlength : s'.entries.length = s.entries.length)
    (hmarked : ∀ e, Marked s' e → Marked s e)
    (hkeeps : ∀ v e id, Removing s v e id → Removing s' v e id) : Evolves s s' where
  registered p hp := .inl (hpools p hp)
  grows := hlength.ge
  removing v e id h _ := hkeeps v e id h
  marked p hp hmark := .inl ⟨hpools p hp, hmarked p.2 hmark⟩

theorem Marked.of_set {entry : PoolEntry δ} {e₀ : ℕ} (entry' : PoolEntry δ) (he₀ : s.entries[e₀]? = some entry)
    (hentries : s'.entries = s.entries.set e₀ entry') (hclosing : entry'.closing = entry.closing)
    (h : Marked s' e) : Marked s e := by
  obtain ⟨found, hfound, hmark⟩ := h
  rw [hentries] at hfound
  rcases getElem?_set_cases hfound with ⟨rfl, rfl⟩ | ⟨-, hfound⟩
  · exact ⟨entry, he₀, hclosing ▸ hmark⟩
  · exact ⟨found, hfound, hmark⟩

theorem Evolves.refl (s : State δ) : Evolves s s :=
  .of_keeps (fun _ hp => hp) rfl (fun _ h => h) fun _ _ _ h => h

/-- A request that does not stop evicting moves, and nothing else changes. -/
theorem Evolves.setPhase (ht : s.requests[t]? = some r) (phase : RequestPhase δ)
    (hphase : ∀ v e called, r.phase = .evicting v e called → ∃ called', phase = .evicting v e called') :
    Evolves s (s.setPhase t r phase) :=
  .of_keeps (fun _ hp => hp) rfl (fun _ h => h) fun _ _ _ h => h.of_set ht rfl rfl hphase

/-- A request that waits evicts nothing. -/
theorem not_evicting (hwas : r.phase = .waiting) (phase : RequestPhase δ) :
    ∀ v e called, r.phase = .evicting v e called → ∃ called', phase = .evicting v e called' := by
  intro v e called hevicting
  rw [hwas] at hevicting
  cases hevicting

theorem Evolves.created (ht : s.requests[t]? = some r)
    (hwas : r.phase = .waiting) :
    Evolves s { s with
      entries := s.entries ++ [⟨r.destination, 1, false, 0⟩]
      pools := s.pools ++ [(r.destination, s.entries.length)]
      requests := s.requests.set t { r with phase := .leased s.entries.length } } where
  registered p hp := by
    rcases List.mem_append.mp hp with hp | hp
    · exact .inl hp
    · rw [List.mem_singleton.mp hp]
      exact .inr rfl
  grows := by simp
  removing v e id hremoving _ := hremoving.of_set ht rfl rfl (not_evicting hwas _)
  marked p hp hmark := by
    obtain ⟨entry, hentry, hclosing⟩ := hmark
    rcases getElem?_append_singleton_cases hentry with ⟨-, rfl⟩ | hentry
    · cases hclosing
    · rcases List.mem_append.mp hp with hp | hp
      · exact .inl ⟨hp, entry, hentry, hclosing⟩
      · rw [List.mem_singleton.mp hp, List.getElem?_eq_none (Nat.le_refl _)] at hentry
        cases hentry

/-- A request marks an idle entry of the registry. -/
theorem Evolves.evicts {victim : δ × ℕ} (h : PoolAccounts maxDestinationPools s)
    (ht : s.requests[t]? = some r) (hwas : r.phase = .waiting) (hvictim : victim ∈ s.pools) :
    Evolves s ((s.markClosing victim.2).setPhase t r (.evicting victim.1 victim.2 false)) where
  registered p hp := .inl hp
  grows := by simp [State.setPhase, State.markClosing]
  removing v e id hremoving _ := hremoving.of_set ht rfl rfl (not_evicting hwas _)
  marked p hp hmark := by
    by_cases hsame : p.2 = victim.2
    · have hp : p = victim := List.inj_on_of_nodup_map h.registered hp hvictim hsame
      subst hp
      exact .inr ⟨.request t, _, false, getElem?_set_same ht, rfl⟩
    · obtain ⟨entry, hentry, hclosing⟩ := hmark
      have hother : ((s.markClosing victim.2).setPhase t r
          (.evicting victim.1 victim.2 false)).entries[p.2]? = s.entries[p.2]? :=
        List.getElem?_modify_ne _ _ (Ne.symm hsame)
      rw [hother] at hentry
      exact .inl ⟨hp, entry, hentry, hclosing⟩

theorem marked_callClose {e₀ : ℕ} (h : Marked (s.callClose e₀) e) : Marked s e := by
  obtain ⟨entry, hentry, hclosing⟩ := h
  simp only [State.callClose, List.getElem?_modify, Option.map_eq_map, Option.map_eq_some_iff] at hentry
  obtain ⟨entry', hentry', rfl⟩ := hentry
  refine ⟨entry', hentry', ?_⟩
  split at hclosing
  · exact hclosing
  · exact hclosing

theorem Evolves.released {e₀ : ℕ} {entry : PoolEntry δ} (ht : s.requests[t]? = some r)
    (hwas : r.phase = .releasing e₀) (he₀ : s.entries[e₀]? = some entry) :
    Evolves s (s.releasePool t r e₀ entry) := by
  have hnot : ∀ v e called, r.phase = .evicting v e called →
      ∃ called', (RequestPhase.finished : RequestPhase δ) = .evicting v e called' := by
    intro v e called hevicting
    rw [hwas] at hevicting
    cases hevicting
  rw [State.releasePool]
  split
  · exact .of_keeps (fun _ hp => hp) rfl (fun _ hmark => hmark) fun v e id hremoving =>
      hremoving.of_set ht rfl rfl hnot
  · refine .of_keeps (fun _ hp => hp) ?_ ?_ fun v e id hremoving => hremoving.of_set ht rfl rfl hnot
    · simp [State.setPhase, State.setEntry]
    · intro e hmark
      exact hmark.of_set { entry with leases := entry.leases - 1 } he₀ rfl rfl

/-- The close task marks what it will close. -/
theorem Evolves.closePassed (h : PoolAccounts maxDestinationPools s)
    (hscanning : s.closePhase = .scanning) : Evolves s s.closeAllPools := by
  have hidle : ∀ v e id, Removing s v e id → ∀ closePhase : ClosePhase δ, ∀ entries,
      Removing { s with entries := entries, closePhase := closePhase } v e id := by
    intro v e id hremoving closePhase entries
    cases id with
    | request t => exact hremoving
    | close =>
        obtain ⟨rest, called, hclosing, -⟩ := hremoving
        rw [hscanning] at hclosing
        cases hclosing
    | caller n => exact hremoving
  simp only [State.closeAllPools]
  split
  · split
    · exact .of_keeps (fun _ hp => hp) rfl (fun _ hmark => hmark) fun v e id hremoving =>
        hidle v e id hremoving _ _
    · exact .refl s
  · refine ⟨fun p hp => .inl hp, (length_marked _ _).ge, fun v e id hremoving _ =>
      hidle v e id hremoving _ _, ?_⟩
    intro p hp hmark
    obtain ⟨entry, hentry, hclosing⟩ := hmark
    rw [getElem?_marked, Option.map_eq_some_iff] at hentry
    obtain ⟨before, hbefore, rfl⟩ := hentry
    split at hclosing
    · rename_i hmem
      obtain ⟨q, hq, hsame⟩ := List.mem_map.mp hmem
      have hqp : q = p := List.inj_on_of_nodup_map h.registered (List.mem_filter.mp hq).1 hp hsame
      subst hqp
      exact .inr ⟨.close, _, false, rfl, hq⟩
    · exact .inl ⟨hp, before, hbefore, hclosing⟩

section Steps

variable [DecidableEq δ]

/-- What leaves the registry is what the task removes. -/
theorem not_mem_forget (h : PoolAccounts maxDestinationPools s) (v : δ) (e : ℕ) :
    (v, e) ∉ (s.forget v e).pools := by
  intro hmem
  rw [State.forget] at hmem
  split at hmem
  · have := (List.mem_filter.mp hmem).2
    simp at this
  · rename_i hne
    apply hne
    rw [State.pool, Option.map_eq_some_iff]
    refine ⟨(v, e), ?_, rfl⟩
    cases hfind : s.pools.find? fun p => p.1 = v with
    | none =>
        have := List.find?_eq_none.mp hfind _ hmem
        simp at this
    | some q =>
        have hq : q.1 = v := by simpa using List.find?_some hfind
        have hsame := List.inj_on_of_nodup_map h.destinations (List.mem_of_find?_eq_some hfind) hmem hq
        rw [hsame]

theorem forget_subset (v : δ) (e : ℕ) : (s.forget v e).pools ⊆ s.pools := by
  rw [State.forget]
  split
  · exact List.filter_subset_self _
  · exact List.Subset.refl _

/-- A pass of `_pool_for` evicts an entry of the registry. -/
theorem evicting_registered (hwas : r.phase = .waiting) (ht : s.requests[t]? = some r)
    (h : (s.poolFor maxDestinationPools t r).requests[t]? =
      some { r with phase := .evicting v e false }) : (v, e) ∈ s.pools := by
  generalize hr : { r with phase := RequestPhase.evicting v e false } = r' at h
  have hphase : r'.phase = .evicting v e false := by rw [← hr]
  have hr' := h
  have moved : ∀ phase, ((s.requests.set t { r with phase := phase })[t]? = some r') →
      r'.phase = phase := by
    intro phase hset
    rw [getElem?_set_same ht] at hset
    cases hset
    rfl
  have stayed : s.requests[t]? = some r' → r'.phase = .waiting := by
    intro hsame
    rw [ht] at hsame
    cases hsame
    exact hwas
  rw [State.poolFor] at hr'
  split at hr'
  · rw [moved _ hr'] at hphase
    cases hphase
  · split at hr'
    · split at hr'
      · split at hr'
        · rw [stayed hr'] at hphase
          cases hphase
        · rw [moved _ hr'] at hphase
          cases hphase
      · rw [stayed hr'] at hphase
        cases hphase
    · split at hr'
      · rw [moved _ hr'] at hphase
        cases hphase
      · split at hr'
        · rename_i victim hvictim
          rw [moved _ hr'] at hphase
          cases hphase
          exact List.mem_of_find?_eq_some hvictim
        · rw [stayed hr'] at hphase
          cases hphase


theorem Evolves.poolRequested (h : PoolAccounts maxDestinationPools s) (ht : s.requests[t]? = some r)
    (hwas : r.phase = .waiting) : Evolves s (s.poolFor maxDestinationPools t r) := by
  have hserved := served_poolFor maxDestinationPools s t r
  generalize hs' : s.poolFor maxDestinationPools t r = s' at hserved
  cases hserved with
  | refused => exact .setPhase ht _ (not_evicting hwas _)
  | @granted e₀ entry active registered found unmarked =>
      refine .of_keeps ?_ ?_ ?_ ?_
      · intro p hp
        rcases List.mem_append.mp hp with hp | hp
        · exact (List.mem_filter.mp hp).1
        · exact (List.mem_filter.mp hp).1
      · simp [State.setPhase, State.moveToEnd, State.setEntry]
      · intro e hmark
        exact hmark.of_set { entry with leases := entry.leases + 1 } found rfl rfl
      · exact fun v e id hremoving => hremoving.of_set ht rfl rfl (not_evicting hwas _)
  | created => exact .created ht hwas
  | @evicts victim idle =>
      apply Evolves.evicts h ht hwas
      have hevicting : (s.requests.set t { r with phase := .evicting victim.1 victim.2 false })[t]? =
          some { r with phase := .evicting victim.1 victim.2 false } := getElem?_set_same ht
      apply evicting_registered hwas ht
      rw [hs']
      exact hevicting
  | waits => exact .refl s

/-- The eviction ends, and its entry is gone. -/
theorem Evolves.evicted {phase : RequestPhase δ} (h : PoolAccounts maxDestinationPools s)
    (ht : s.requests[t]? = some r) (hwas : r.phase = .evicting v e true) :
    Evolves s ((s.forget v e).setPhase t r phase) := by
  have hforget : (s.forget v e).entries = s.entries ∧ (s.forget v e).requests = s.requests
      ∧ (s.forget v e).closePhase = s.closePhase := by
    rw [State.forget]
    split <;> exact ⟨rfl, rfl, rfl⟩
  refine ⟨fun p hp => .inl (forget_subset v e hp), ?_, ?_, ?_⟩
  · rw [State.setPhase, hforget.1]
  · intro v' e' id hremoving hmem
    cases id with
    | request t' =>
        obtain ⟨r₀, called, hr₀, hevicting⟩ := hremoving
        by_cases hsame : t' = t
        · subst hsame
          rw [ht] at hr₀
          cases hr₀
          rw [hwas] at hevicting
          cases hevicting
          exact absurd hmem (not_mem_forget h v e)
        · refine ⟨r₀, called, ?_, hevicting⟩
          rw [State.setPhase, hforget.2.1, List.getElem?_set_ne (Ne.symm hsame)]
          exact hr₀
    | close =>
        obtain ⟨rest, called, hclosing, hrest⟩ := hremoving
        exact ⟨rest, called, hforget.2.2.trans hclosing, hrest⟩
    | caller n => exact hremoving
  · intro p hp hmark
    obtain ⟨entry, hentry, hclosing⟩ := hmark
    rw [State.setPhase, hforget.1] at hentry
    exact .inl ⟨forget_subset v e hp, entry, hentry, hclosing⟩

theorem Evolves.moved {event : TransportEvent δ} (h : PoolAccounts maxDestinationPools s)
    (ht : s.requests[t]? = some r) (hstep : s.advance maxDestinationPools t r event = some s') :
    Evolves s s' := by
  simp only [State.advance] at hstep
  split at hstep
  · split at hstep
    · rename_i hwaiting
      cases hstep
      exact .poolRequested h ht hwaiting
    · cases hstep
  · split at hstep
    · rename_i hwaiting
      cases hstep
      exact .setPhase ht _ (not_evicting hwaiting _)
    · rename_i hleased
      cases hstep
      apply Evolves.setPhase ht
      intro v e called hevicting
      rw [hleased] at hevicting
      cases hevicting
    · cases hstep
  · split at hstep
    · rename_i victim e hevicting
      cases hstep
      refine .of_keeps (fun _ hp => hp) ?_ (fun e hmark => marked_callClose hmark) ?_
      · simp [State.setPhase, State.callClose]
      · intro v e' id hremoving
        refine hremoving.of_set ht rfl rfl ?_
        intro v e called hphase
        rw [hevicting] at hphase
        cases hphase
        exact ⟨true, rfl⟩
    · cases hstep
  · split at hstep
    · rename_i hevicting
      cases hstep
      exact .evicted h ht hevicting
    · cases hstep
  · split at hstep
    · rename_i hreleasing
      obtain ⟨entry, hentry, rfl⟩ := Option.map_eq_some_iff.mp hstep
      exact .released ht hreleasing hentry
    · cases hstep
  · cases hstep

/-- The close task takes a pool out of the registry. -/
theorem Evolves.poolForgotten {rest : List (δ × ℕ)} (h : PoolAccounts maxDestinationPools s)
    (hclosing : s.closePhase = .closing ((v, e) :: rest) true) :
    Evolves s { s.forget v e with
      closePhase := if rest = [] then .scanning else .closing rest false } := by
  have hforget : (s.forget v e).entries = s.entries ∧ (s.forget v e).requests = s.requests := by
    rw [State.forget]
    split <;> exact ⟨rfl, rfl⟩
  refine ⟨fun p hp => .inl (forget_subset v e hp), hforget.1 ▸ Nat.le_refl _, ?_, ?_⟩
  · intro v' e' id hremoving hmem
    cases id with
    | request t =>
        obtain ⟨r, called, hr, hevicting⟩ := hremoving
        exact ⟨r, called, hforget.2 ▸ hr, hevicting⟩
    | close =>
        obtain ⟨rest', called, hphase, hrest⟩ := hremoving
        rw [hclosing] at hphase
        cases hphase
        rcases List.mem_cons.mp hrest with hsame | hrest
        · cases hsame
          exact absurd hmem (not_mem_forget h v e)
        · exact ⟨rest, false, if_neg (List.ne_nil_of_mem hrest), hrest⟩
    | caller n => exact hremoving
  · rintro p hp ⟨entry, hentry, hmark⟩
    exact .inl ⟨forget_subset v e hp, entry, hforget.1 ▸ hentry, hmark⟩

theorem Evolves.manage {event : TransportEvent δ} (h : PoolAccounts maxDestinationPools s)
    (hstep : s.manage event = some s') : Evolves s s' := by
  simp only [State.manage] at hstep
  split at hstep
  · cases hstep
    refine .of_keeps (fun _ hp => hp) rfl (fun _ hmark => hmark) ?_
    intro v e id hremoving
    cases id with
    | request t =>
        obtain ⟨r, called, hr, hevicting⟩ := hremoving
        obtain ⟨hlt, -⟩ := List.getElem?_eq_some_iff.mp hr
        exact ⟨r, called, (List.getElem?_append_left hlt).trans hr, hevicting⟩
    | close => exact hremoving
    | caller n => exact hremoving
  · cases hstep
    refine .of_keeps (fun _ hp => hp) rfl (fun _ hmark => hmark) ?_
    intro v e id hremoving
    cases id with
    | request t => exact hremoving
    | close =>
        obtain ⟨rest, called, hclosing, hrest⟩ := hremoving
        refine ⟨rest, called, ?_, hrest⟩
        rw [← hclosing]
        exact if_neg (by rw [hclosing]; intro h; cases h)
    | caller n => exact hremoving
  · split at hstep
    · rename_i hscanning
      cases hstep
      exact .closePassed h hscanning
    · cases hstep
  · split at hstep
    · rename_i destination e rest hclosing
      cases hstep
      refine .of_keeps (fun _ hp => hp) ?_ (fun e hmark => marked_callClose hmark) ?_
      · simp [State.callClose]
      · intro v e' id hremoving
        cases id with
        | request t => exact hremoving
        | close =>
            obtain ⟨rest', called, hphase, hrest⟩ := hremoving
            rw [hclosing] at hphase
            cases hphase
            exact ⟨_, true, rfl, hrest⟩
        | caller n => exact hremoving
    · cases hstep
  · split at hstep
    · rename_i hclosing
      cases hstep
      exact .poolForgotten h hclosing
    · cases hstep
  · split at hstep
    · rename_i hscanning
      cases hstep
      refine .of_keeps (fun _ hp => hp) rfl (fun _ hmark => hmark) ?_
      intro v e id hremoving
      cases id with
      | request t => exact hremoving
      | close =>
          obtain ⟨rest, called, hclosing, -⟩ := hremoving
          rw [hscanning] at hclosing
          cases hclosing
      | caller n => exact hremoving
    · cases hstep
  · cases hstep

theorem evolves_of_step {event : TransportEvent δ} (h : PoolAccounts maxDestinationPools s)
    (hstep : s.step maxDestinationPools event = some s') : Evolves s s' := by
  rw [State.step] at hstep
  split at hstep
  · obtain ⟨r, ht, hr⟩ := Option.bind_eq_some_iff.mp hstep
    exact .moved h ht hr
  · exact .manage h hstep

end Steps

/-! ## Every run -/

/-- What is marked in the registry is being removed. -/
def MarkedRemoving (s : State δ) : Prop :=
  ∀ p ∈ s.pools, Marked s p.2 → ∃ id, Removing s p.1 p.2 id

theorem MarkedRemoving.evolves (h : MarkedRemoving s) (hstep : Evolves s s') : MarkedRemoving s' := by
  intro p hp hmark
  rcases hstep.marked p hp hmark with ⟨hbefore, hmarked⟩ | hremoving
  · obtain ⟨id, hid⟩ := h p hbefore hmarked
    exact ⟨id, hstep.removing p.1 p.2 id hid hp⟩
  · exact hremoving

/-- A task that removes an entry goes on, or the entry is gone for good. -/
theorem Evolves.removing_or_gone (hstep : Evolves s s') (he : e < s.entries.length)
    (h : Removing s v e id ∨ (v, e) ∉ s.pools) : Removing s' v e id ∨ (v, e) ∉ s'.pools := by
  by_cases hmem : (v, e) ∈ s'.pools
  · rcases hstep.registered (v, e) hmem with hbefore | hnew
    · rcases h with hremoving | hgone
      · exact .inl (hstep.removing v e id hremoving hmem)
      · exact absurd hbefore hgone
    · exact absurd hnew he.ne
  · exact .inr hmem

theorem markedRemoving_init : MarkedRemoving (State.init : State δ) := by
  intro p hp
  cases hp

section Runs

variable [DecidableEq δ]

/-- Every marked entry of the registry is being removed, in every run. -/
theorem markedRemoving_of_reaches
    (h : Reaches (State.step maxDestinationPools) (State.init : State δ) s) : MarkedRemoving s := by
  refine (h.induction_on (fun s => PoolAccounts maxDestinationPools s ∧ MarkedRemoving s) ?_
    ⟨poolAccounts_init, markedRemoving_init⟩).2
  rintro s event s' ⟨haccounts, hmarked⟩ hstep
  exact ⟨haccounts.step hstep, hmarked.evolves (evolves_of_step haccounts hstep)⟩

/-- Who removes an entry of the registry goes on until it is gone. -/
theorem removing_of_reaches (haccounts : PoolAccounts maxDestinationPools s)
    (hregistered : (v, e) ∈ s.pools) (hremoving : Removing s v e id)
    (h : Reaches (State.step maxDestinationPools) s s') :
    Removing s' v e id ∨ (v, e) ∉ s'.pools := by
  refine (h.induction_on (fun s => PoolAccounts maxDestinationPools s ∧ e < s.entries.length
    ∧ (Removing s v e id ∨ (v, e) ∉ s.pools)) ?_
    ⟨haccounts, haccounts.made _ hregistered, .inl hremoving⟩).2.2
  rintro s event s' ⟨haccounts, he, hor⟩ hstep
  have hevolves := evolves_of_step haccounts hstep
  exact ⟨haccounts.step hstep, he.trans_le hevolves.grows, hevolves.removing_or_gone he hor⟩

end Runs

end VeloxRag.Transport
