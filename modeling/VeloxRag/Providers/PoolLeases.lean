import VeloxRag.Providers.Transport

/-!
# The leases on the pools

The lease counter of a pool is the number of requests that hold a lease on it, and a pool is marked
as closing before it is closed, by the one request or close task that will close it.  So the calls of
`aclose` that were made and those that are still to come are one together once the pool is marked,
and none before.

## Main definitions

* `EntryAccounts` — the counters of one pool.
* `PoolAccounts` — the invariant of the transport.
* `GrantedOpen`, `ClosedUnleased` — what one step may grant and close.
* `pool_leases` — the invariant holds in every run.
-/

namespace VeloxRag.Transport

open Lib

variable {δ : Type*}

/-- How often the pool of an entry is still to be closed. -/
def State.pending (s : State δ) (e : ℕ) : ℕ :=
  (s.requests.countP fun r => r.phase.willClose e) + s.closePhase.pending.count e

/-- The counters of one pool. -/
structure EntryAccounts (s : State δ) (e : ℕ) (entry : PoolEntry δ) : Prop where
  leases : entry.leases = s.requests.countP fun r => r.phase.holds e
  unleased : entry.closing = true → entry.leases = 0
  closes : entry.closes + s.pending e = entry.closing.toNat

/-- The accounts of the transport. -/
structure PoolAccounts (maxDestinationPools : ℕ) (s : State δ) : Prop where
  entries : ∀ e entry, s.entries[e]? = some entry → EntryAccounts s e entry
  destinations : (s.pools.map Prod.fst).Nodup
  registered : (s.pools.map Prod.snd).Nodup
  made : ∀ p ∈ s.pools, p.2 < s.entries.length
  size : s.pools.length ≤ maxDestinationPools
  held : ∀ (t : ℕ) (r : TransportRequest δ) (e : ℕ), s.requests[t]? = some r →
    (r.phase.holds e || r.phase.willClose e) = true → e < s.entries.length
  closing : ∀ e ∈ s.closePhase.pending, e < s.entries.length
  quiet : s.assertionRaised = false

variable {maxDestinationPools : ℕ} {s s' : State δ} {t e : ℕ} {r : TransportRequest δ}
  {phase : RequestPhase δ} {entry entry' : PoolEntry δ}

/-- One request moves, and the counters of an entry move with it. -/
theorem EntryAccounts.move (h : EntryAccounts s e entry) (ht : s.requests[t]? = some r)
    (hrequests : s'.requests = s.requests.set t { r with phase := phase })
    (hclose : s'.closePhase = s.closePhase)
    (hleases : entry'.leases + (if r.phase.holds e then 1 else 0) =
      entry.leases + if phase.holds e then 1 else 0)
    (hunleased : entry'.closing = true → entry'.leases = 0)
    (hcloses : entry'.closes + (if phase.willClose e then 1 else 0) + entry.closing.toNat =
      entry.closes + (if r.phase.willClose e then 1 else 0) + entry'.closing.toNat) :
    EntryAccounts s' e entry' where
  leases := by
    have hcount := countP_set_add (p := fun r : TransportRequest δ => r.phase.holds e) ht
      { r with phase := phase }
    have hbefore := h.leases
    rw [hrequests]
    cases hr : r.phase.holds e <;> cases hphase : phase.holds e <;>
      simp only [hr, hphase, Bool.false_eq_true, if_true, if_false] at hleases hcount <;> omega
  unleased := hunleased
  closes := by
    have hcount := countP_set_add (p := fun r : TransportRequest δ => r.phase.willClose e) ht
      { r with phase := phase }
    have hbefore := h.closes
    rw [State.pending] at hbefore ⊢
    rw [hrequests, hclose]
    simp only at hcount
    omega

/-- A request moves that has nothing to do with the entry. -/
theorem EntryAccounts.other (h : EntryAccounts s e entry) (ht : s.requests[t]? = some r)
    (hrequests : s'.requests = s.requests.set t { r with phase := phase })
    (hclose : s'.closePhase = s.closePhase) (hholds : phase.holds e = r.phase.holds e)
    (hwill : phase.willClose e = r.phase.willClose e) : EntryAccounts s' e entry := by
  apply h.move ht hrequests hclose
  · rw [hholds]
  · exact h.unleased
  · rw [hwill]

/-- Nothing that the counters of the entries count is changed. -/
theorem EntryAccounts.same (h : EntryAccounts s e entry) (hrequests : s'.requests = s.requests)
    (hclose : s'.closePhase.pending = s.closePhase.pending) : EntryAccounts s' e entry where
  leases := by rw [hrequests]; exact h.leases
  unleased := h.unleased
  closes := by
    have hbefore := h.closes
    rw [State.pending] at hbefore ⊢
    rw [hrequests, hclose]
    exact hbefore

/-- A change of the registry alone that drops pools or orders them anew. -/
theorem PoolAccounts.setPools {pools kept : List (δ × ℕ)} (h : PoolAccounts maxDestinationPools s)
    (hperm : pools.Perm kept) (hkept : kept.Sublist s.pools) :
    PoolAccounts maxDestinationPools { s with pools := pools } where
  entries e entry he := (h.entries e entry he).same rfl rfl
  destinations := (hperm.map Prod.fst).nodup_iff.mpr (h.destinations.sublist (hkept.map Prod.fst))
  registered := (hperm.map Prod.snd).nodup_iff.mpr (h.registered.sublist (hkept.map Prod.snd))
  made p hp := h.made p (hkept.subset (hperm.subset hp))
  size := by
    change pools.length ≤ maxDestinationPools
    rw [hperm.length_eq]
    exact le_trans hkept.length_le h.size
  held := h.held
  closing := h.closing
  quiet := h.quiet

/-- One request moves at one entry. -/
theorem PoolAccounts.move (h : PoolAccounts maxDestinationPools s) (ht : s.requests[t]? = some r)
    (he : e < s.entries.length)
    (hentry : EntryAccounts ((s.setEntry e entry').setPhase t r phase) e entry')
    (hholds : ∀ e', e' ≠ e → phase.holds e' = r.phase.holds e')
    (hwill : ∀ e', e' ≠ e → phase.willClose e' = r.phase.willClose e') :
    PoolAccounts maxDestinationPools ((s.setEntry e entry').setPhase t r phase) where
  entries e' entry₀ he' := by
    rcases getElem?_set_cases he' with ⟨rfl, rfl⟩ | ⟨hne, he'⟩
    · exact hentry
    · exact (h.entries e' entry₀ he').other ht rfl rfl (hholds e' hne) (hwill e' hne)
  destinations := h.destinations
  registered := h.registered
  made p hp := by
    simp only [State.setPhase, State.setEntry, List.length_set]
    exact h.made p hp
  size := h.size
  held t' r' e' hr' hheld := by
    simp only [State.setPhase, State.setEntry, List.length_set]
    rcases getElem?_set_cases hr' with ⟨rfl, rfl⟩ | ⟨-, hr'⟩
    · by_cases hne : e' = e
      · rw [hne]
        exact he
      · rw [hholds e' hne, hwill e' hne] at hheld
        exact h.held t' r e' ht hheld
    · exact h.held t' r' e' hr' hheld
  closing e' he' := by
    simp only [State.setPhase, State.setEntry, List.length_set]
    exact h.closing e' he'
  quiet := h.quiet

/-- A request moves and keeps what it holds and is to close. -/
theorem PoolAccounts.stay (h : PoolAccounts maxDestinationPools s) (ht : s.requests[t]? = some r)
    (phase : RequestPhase δ) (hholds : ∀ e, phase.holds e = r.phase.holds e)
    (hwill : ∀ e, phase.willClose e = r.phase.willClose e) :
    PoolAccounts maxDestinationPools (s.setPhase t r phase) where
  entries e entry he := (h.entries e entry he).other ht rfl rfl (hholds e) (hwill e)
  destinations := h.destinations
  registered := h.registered
  made := h.made
  size := h.size
  held t' r' e' hr' hheld := by
    rcases getElem?_set_cases hr' with ⟨rfl, rfl⟩ | ⟨-, hr'⟩
    · rw [hholds e', hwill e'] at hheld
      exact h.held t' r e' ht hheld
    · exact h.held t' r' e' hr' hheld
  closing := h.closing
  quiet := h.quiet

theorem modify_eq_setEntry {f : PoolEntry δ → PoolEntry δ} (he : s.entries[e]? = some entry) :
    s.entries.modify e f = s.entries.set e (f entry) := by
  apply List.ext_getElem?
  intro i
  rw [List.getElem?_modify, List.getElem?_set]
  obtain ⟨hlt, heq⟩ := List.getElem?_eq_some_iff.mp he
  by_cases hi : e = i
  · subst hi
    simp [hlt, heq]
  · simp [hi]

/-- A pool that nobody leases and nobody closes. -/
theorem idle_iff {p : δ × ℕ} : s.idle p = true ↔
    ∃ entry, s.entries[p.2]? = some entry ∧ entry.leases = 0 ∧ entry.closing = false := by
  rw [State.idle]
  cases h : s.entries[p.2]? <;> simp

/-- A lease is granted on a pool that is not closing. -/
theorem PoolAccounts.leased (h : PoolAccounts maxDestinationPools s) (ht : s.requests[t]? = some r)
    (hphase : r.phase = .waiting) (he : s.entries[e]? = some entry) (hopen : entry.closing = false) :
    PoolAccounts maxDestinationPools
      ((s.setEntry e { entry with leases := entry.leases + 1 }).setPhase t r (.leased e)) := by
  apply h.move ht (List.getElem?_eq_some_iff.mp he).1
  · refine EntryAccounts.move (h.entries e entry he) ht rfl rfl ?_ ?_ ?_
    · simp [hphase, RequestPhase.holds]
    · intro hclosing
      cases hopen.symm.trans hclosing
    · simp [hphase, RequestPhase.willClose]
  · intro e' hne
    simp [hphase, RequestPhase.holds, Ne.symm hne]
  · intro e' hne
    simp [hphase, RequestPhase.willClose]

/-- A pool is made for a destination that has none. -/
theorem PoolAccounts.created (h : PoolAccounts maxDestinationPools s) (ht : s.requests[t]? = some r)
    (hphase : r.phase = .waiting) (hnone : r.destination ∉ s.pools.map Prod.fst)
    (hroom : s.pools.length < maxDestinationPools) :
    PoolAccounts maxDestinationPools
      { s with
        entries := s.entries ++ [⟨r.destination, 1, false, 0⟩]
        pools := s.pools ++ [(r.destination, s.entries.length)]
        requests := s.requests.set t { r with phase := .leased s.entries.length } } where
  entries e entry he := by
    have hheld : ∀ r' ∈ s.requests, (r'.phase.holds s.entries.length ||
        r'.phase.willClose s.entries.length) = false := by
      intro r' hr'
      obtain ⟨u, hu⟩ := List.mem_iff_getElem?.mp hr'
      by_contra hholds
      exact lt_irrefl _ (h.held u r' _ hu (Bool.not_eq_false _ ▸ hholds))
    rcases getElem?_append_singleton_cases he with ⟨rfl, rfl⟩ | he
    · have hfresh : EntryAccounts s s.entries.length ⟨r.destination, 0, false, 0⟩ := by
        constructor
        · have hzero : (s.requests.countP fun r => r.phase.holds s.entries.length) = 0 := by
            rw [List.countP_eq_zero]
            intro r' hr'
            simpa using (Bool.or_eq_false_iff.mp (hheld r' hr')).1
          rw [hzero]
          rfl
        · intro hclosing
          cases hclosing
        · have hzero : (s.requests.countP fun r => r.phase.willClose s.entries.length) = 0 := by
            rw [List.countP_eq_zero]
            intro r' hr'
            simpa using (Bool.or_eq_false_iff.mp (hheld r' hr')).2
          have hcount : s.closePhase.pending.count s.entries.length = 0 := by
            rw [List.count_eq_zero]
            intro hmem
            exact lt_irrefl _ (h.closing _ hmem)
          rw [State.pending, hzero, hcount]
          rfl
      refine EntryAccounts.move hfresh ht rfl rfl ?_ ?_ ?_
      · simp [hphase, RequestPhase.holds]
      · intro hclosing
        cases hclosing
      · simp [hphase, RequestPhase.willClose]
    · have hlt := (List.getElem?_eq_some_iff.mp he).1
      refine EntryAccounts.other (h.entries e entry he) ht rfl rfl ?_ ?_
      · simp [hphase, RequestPhase.holds]
        omega
      · simp [hphase, RequestPhase.willClose]
  destinations := by
    rw [List.map_append, List.nodup_append]
    refine ⟨h.destinations, List.nodup_singleton _, ?_⟩
    rintro d hd d' hd' rfl
    rw [List.mem_singleton.mp hd'] at hd
    exact hnone hd
  registered := by
    rw [List.map_append, List.nodup_append]
    refine ⟨h.registered, List.nodup_singleton _, ?_⟩
    rintro e he e' he' rfl
    obtain ⟨p, hp, rfl⟩ := List.mem_map.mp he
    have hlt := h.made p hp
    rw [List.mem_singleton.mp he'] at hlt
    exact lt_irrefl _ hlt
  made p hp := by
    rw [List.length_append, List.length_singleton]
    rcases List.mem_append.mp hp with hp | hp
    · exact Nat.lt_succ_of_lt (h.made p hp)
    · rw [List.mem_singleton.mp hp]
      exact Nat.lt_succ_self _
  size := by
    rw [List.length_append, List.length_singleton]
    exact hroom
  held t' r' e' hr' hheld := by
    rw [List.length_append, List.length_singleton]
    rcases getElem?_set_cases hr' with ⟨rfl, rfl⟩ | ⟨-, hr'⟩
    · have hsame : s.entries.length = e' := by
        simpa [RequestPhase.holds, RequestPhase.willClose] using hheld
      rw [← hsame]
      exact Nat.lt_succ_self _
    · exact Nat.lt_succ_of_lt (h.held t' r' e' hr' hheld)
  closing e' he' := by
    rw [List.length_append, List.length_singleton]
    exact Nat.lt_succ_of_lt (h.closing e' he')
  quiet := h.quiet

/-- A request marks the pool it evicts. -/
theorem PoolAccounts.marked {victim : δ × ℕ} (h : PoolAccounts maxDestinationPools s)
    (ht : s.requests[t]? = some r) (hphase : r.phase = .waiting) (hidle : s.idle victim = true) :
    PoolAccounts maxDestinationPools
      ((s.markClosing victim.2).setPhase t r (.evicting victim.1 victim.2 false)) := by
  obtain ⟨entry, he, hleases, hopen⟩ := idle_iff.mp hidle
  have hmark : s.markClosing victim.2 = s.setEntry victim.2 { entry with closing := true } := by
    rw [State.markClosing, State.setEntry, modify_eq_setEntry he]
  rw [hmark]
  apply h.move ht (List.getElem?_eq_some_iff.mp he).1
  · refine EntryAccounts.move (h.entries _ entry he) ht rfl rfl ?_ ?_ ?_
    · simp [hphase, RequestPhase.holds]
    · intro _
      exact hleases
    · simp [hphase, RequestPhase.willClose, hopen]
  · intro e' hne
    simp [hphase, RequestPhase.holds]
  · intro e' hne
    simp [hphase, RequestPhase.willClose, Ne.symm hne]

theorem PoolAccounts.releasePool (h : PoolAccounts maxDestinationPools s)
    (ht : s.requests[t]? = some r) (hphase : r.phase = .releasing e) (he : s.entries[e]? = some entry) :
    PoolAccounts maxDestinationPools (s.releasePool t r e entry) := by
  have hholds : r.phase.holds e = true := by simp [hphase, RequestPhase.holds]
  have hpos := countP_pos_of_getElem? (p := fun r : TransportRequest δ => r.phase.holds e) ht hholds
  have hcount := (h.entries e entry he).leases
  rw [State.releasePool, if_neg (by omega)]
  apply h.move ht (List.getElem?_eq_some_iff.mp he).1
  · refine EntryAccounts.move (h.entries e entry he) ht rfl rfl ?_ ?_ ?_
    · simp [hphase, RequestPhase.holds]
    · intro hclosing
      have := (h.entries e entry he).unleased hclosing
      omega
    · simp [hphase, RequestPhase.willClose]
  · intro e' hne
    simp [hphase, RequestPhase.holds, Ne.symm hne]
  · intro e' hne
    simp [hphase, RequestPhase.willClose]

/-- The request calls `aclose` of the pool it evicts. -/
theorem PoolAccounts.victimClosed {victim : δ} (h : PoolAccounts maxDestinationPools s)
    (ht : s.requests[t]? = some r) (hphase : r.phase = .evicting victim e false) :
    PoolAccounts maxDestinationPools ((s.callClose e).setPhase t r (.evicting victim e true)) := by
  have hlt := h.held t r e ht (by simp [hphase, RequestPhase.holds, RequestPhase.willClose])
  have he := List.getElem?_eq_getElem hlt
  have hcall : s.callClose e =
      s.setEntry e { s.entries[e] with closes := s.entries[e].closes + 1 } := by
    rw [State.callClose, State.setEntry, modify_eq_setEntry he]
  rw [hcall]
  apply h.move ht hlt
  · refine EntryAccounts.move (h.entries e _ he) ht rfl rfl ?_ ?_ ?_
    · simp [hphase, RequestPhase.holds]
    · exact (h.entries e _ he).unleased
    · simp [hphase, RequestPhase.willClose]
  · intro e' hne
    simp [hphase, RequestPhase.holds]
  · intro e' hne
    simp [hphase, RequestPhase.willClose, Ne.symm hne]

/-- The close task moves on without a change of what it is to close. -/
theorem PoolAccounts.setClosePhase {closePhase : ClosePhase δ} {closed : Bool}
    (h : PoolAccounts maxDestinationPools s) (hpending : closePhase.pending = s.closePhase.pending) :
    PoolAccounts maxDestinationPools { s with closed := closed, closePhase := closePhase } where
  entries e entry he := (h.entries e entry he).same rfl hpending
  destinations := h.destinations
  registered := h.registered
  made := h.made
  size := h.size
  held := h.held
  closing e he := h.closing e (hpending ▸ he)
  quiet := h.quiet

theorem PoolAccounts.called (h : PoolAccounts maxDestinationPools s) (destination : δ) :
    PoolAccounts maxDestinationPools { s with requests := s.requests ++ [⟨destination, .waiting⟩] } where
  entries e entry he := by
    obtain ⟨hleases, hunleased, hcloses⟩ := h.entries e entry he
    refine ⟨?_, hunleased, ?_⟩
    · simpa [RequestPhase.holds] using hleases
    · simpa [State.pending, RequestPhase.willClose] using hcloses
  destinations := h.destinations
  registered := h.registered
  made := h.made
  size := h.size
  held t r e hr hheld := by
    rcases getElem?_append_singleton_cases hr with ⟨-, rfl⟩ | hr
    · cases hheld
    · exact h.held t r e hr hheld
  closing := h.closing
  quiet := h.quiet

/-- The entries after some of them are marked. -/
theorem getElem?_marked (marks : List (δ × ℕ)) (entries : List (PoolEntry δ)) (e : ℕ) :
    (marks.foldl (fun entries p => entries.modify p.2 fun entry => { entry with closing := true })
      entries)[e]? = entries[e]?.map fun entry =>
        if e ∈ marks.map Prod.snd then { entry with closing := true } else entry := by
  induction marks generalizing entries with
  | nil => simp
  | cons mark marks ih =>
    rw [List.foldl_cons, ih, List.getElem?_modify]
    cases entries[e]? with
    | none => simp
    | some entry =>
      by_cases hmark : mark.2 = e <;> by_cases hmem : e ∈ marks.map Prod.snd <;>
        simp_all [eq_comm]

theorem length_marked (marks : List (δ × ℕ)) (entries : List (PoolEntry δ)) :
    (marks.foldl (fun entries p => entries.modify p.2 fun entry => { entry with closing := true })
      entries).length = entries.length := by
  induction marks generalizing entries with
  | nil => rfl
  | cons mark marks ih => rw [List.foldl_cons, ih, List.length_modify]

/-- The close task marks the pools it will close. -/
theorem PoolAccounts.closeAllPools (h : PoolAccounts maxDestinationPools s)
    (hscanning : s.closePhase = .scanning) :
    PoolAccounts maxDestinationPools s.closeAllPools := by
  have hnothing : s.closePhase.pending = [] := by rw [hscanning]; rfl
  simp only [State.closeAllPools]
  split
  · split
    · exact h.setClosePhase hnothing.symm
    · exact h
  · have hnodup : ((s.pools.filter s.idle).map Prod.snd).Nodup :=
      h.registered.sublist (List.filter_sublist.map _)
    constructor
    · intro e entry' he'
      rw [getElem?_marked, Option.map_eq_some_iff] at he'
      obtain ⟨entry, he, hmarked⟩ := he'
      obtain ⟨hleases, hunleased, hcloses⟩ := h.entries e entry he
      rw [State.pending, hnothing, List.count_nil, add_zero] at hcloses
      by_cases hmem : e ∈ (s.pools.filter s.idle).map Prod.snd
      · obtain ⟨p, hp, rfl⟩ := List.mem_map.mp hmem
        obtain ⟨entry₀, he₀, hzero, hopen⟩ := idle_iff.mp (List.mem_filter.mp hp).2
        cases he.symm.trans he₀
        rw [if_pos hmem] at hmarked
        subst hmarked
        refine ⟨hleases, fun _ => hzero, ?_⟩
        rw [hopen] at hcloses
        simp only [State.pending, ClosePhase.pending, Bool.false_eq_true, if_false,
          List.count_eq_one_of_mem hnodup hmem]
        simp only [Bool.toNat_false] at hcloses
        simp only [Bool.toNat_true]
        omega
      · rw [if_neg hmem] at hmarked
        subst hmarked
        refine ⟨hleases, hunleased, ?_⟩
        simp only [State.pending, ClosePhase.pending, Bool.false_eq_true, if_false,
          List.count_eq_zero_of_not_mem hmem, add_zero]
        exact hcloses
    · exact h.destinations
    · exact h.registered
    · intro p hp
      rw [length_marked]
      exact h.made p hp
    · exact h.size
    · intro t r e hr hheld
      rw [length_marked]
      exact h.held t r e hr hheld
    · intro e he
      rw [length_marked]
      obtain ⟨p, hp, rfl⟩ := List.mem_map.mp he
      exact h.made p (List.mem_filter.mp hp).1
    · exact h.quiet

/-- The close task calls `aclose` of its next pool. -/
theorem PoolAccounts.poolClosed {destination : δ} {rest : List (δ × ℕ)}
    (h : PoolAccounts maxDestinationPools s)
    (hclosing : s.closePhase = .closing ((destination, e) :: rest) false) :
    PoolAccounts maxDestinationPools
      { s.callClose e with closePhase := .closing ((destination, e) :: rest) true } := by
  have hlt : e < s.entries.length := h.closing e (by simp [hclosing, ClosePhase.pending])
  have he := List.getElem?_eq_getElem hlt
  have hcall : (s.callClose e).entries =
      s.entries.set e { s.entries[e] with closes := s.entries[e].closes + 1 } :=
    modify_eq_setEntry he
  constructor
  · intro e' entry' he'
    rw [hcall] at he'
    rcases getElem?_set_cases he' with ⟨rfl, rfl⟩ | ⟨hne, he'⟩
    · obtain ⟨hleases, hunleased, hcloses⟩ := h.entries _ _ he
      refine ⟨hleases, hunleased, ?_⟩
      simp only [State.pending, hclosing, ClosePhase.pending, Bool.false_eq_true, if_false,
        List.map_cons, List.count_cons_self] at hcloses
      change s.entries[e'].closes + 1 + ((s.requests.countP fun r => r.phase.willClose e') +
        (rest.map Prod.snd).count e') = s.entries[e'].closing.toNat
      omega
    · obtain ⟨hleases, hunleased, hcloses⟩ := h.entries e' entry' he'
      refine ⟨hleases, hunleased, ?_⟩
      simp only [State.pending, hclosing, ClosePhase.pending, Bool.false_eq_true, if_false,
        List.map_cons, List.count_cons_of_ne (Ne.symm hne)] at hcloses
      simp only [State.pending, ClosePhase.pending, if_true, List.tail_cons]
      exact hcloses
  · exact h.destinations
  · exact h.registered
  · intro p hp
    rw [hcall, List.length_set]
    exact h.made p hp
  · exact h.size
  · intro t r e' hr hheld
    rw [hcall, List.length_set]
    exact h.held t r e' hr hheld
  · intro e' he'
    rw [hcall, List.length_set]
    apply h.closing e'
    rw [hclosing]
    exact List.mem_cons_of_mem _ he'
  · exact h.quiet

theorem poolAccounts_init : PoolAccounts maxDestinationPools (State.init : State δ) where
  entries e entry he := by cases he
  destinations := List.nodup_nil
  registered := List.nodup_nil
  made p hp := by cases hp
  size := Nat.zero_le _
  held t r e hr := by cases hr
  closing e he := by cases he
  quiet := rfl

/-- A lease that a step grants is on a pool that is not closing, before the transport is closed. -/
def GrantedOpen (s s' : State δ) : Prop :=
  ∀ (t : ℕ) (r r' : TransportRequest δ) (e : ℕ), s.requests[t]? = some r →
    s'.requests[t]? = some r' → r.phase.holds e = false → r'.phase.holds e = true →
      s.closed = false ∧ ∀ entry, s.entries[e]? = some entry → entry.closing = false

/-- A pool that a step closes is leased by nobody. -/
def ClosedUnleased (s s' : State δ) : Prop :=
  ∀ (e : ℕ) (entry entry' : PoolEntry δ), s.entries[e]? = some entry → s'.entries[e]? = some entry' →
    entry'.closes ≠ entry.closes → ∀ r ∈ s.requests, r.phase.holds e = false

/-- A pool that is still to be closed is leased by nobody. -/
theorem PoolAccounts.unleased_of_pending (h : PoolAccounts maxDestinationPools s)
    (he : s.entries[e]? = some entry) (hpending : 0 < s.pending e) :
    ∀ r ∈ s.requests, r.phase.holds e = false := by
  obtain ⟨hleases, hunleased, hcloses⟩ := h.entries e entry he
  have hclosing : entry.closing = true := by
    cases hopen : entry.closing with
    | true => rfl
    | false =>
      rw [hopen] at hcloses
      simp only [Bool.toNat_false] at hcloses
      omega
  rw [hunleased hclosing] at hleases
  have hzero : (s.requests.countP fun r => r.phase.holds e) = 0 := by omega
  rw [List.countP_eq_zero] at hzero
  intro r hr
  simpa using hzero r hr

/-- A step calls no `aclose`. -/
def SameCloses (s s' : State δ) : Prop :=
  ∀ (e : ℕ) (entry entry' : PoolEntry δ), s.entries[e]? = some entry → s'.entries[e]? = some entry' →
    entry'.closes = entry.closes

theorem SameCloses.of_eq (h : s'.entries = s.entries) : SameCloses s s' := by
  intro e entry entry' he he'
  rw [h] at he'
  cases he.symm.trans he'
  rfl

theorem SameCloses.of_set {e₀ : ℕ} {entry₀ entry₁ : PoolEntry δ} (he₀ : s.entries[e₀]? = some entry₀)
    (hset : s'.entries = s.entries.set e₀ entry₁) (hcloses : entry₁.closes = entry₀.closes) :
    SameCloses s s' := by
  intro e entry entry' he he'
  rw [hset] at he'
  rcases getElem?_set_cases he' with ⟨rfl, rfl⟩ | ⟨-, he'⟩
  · cases he.symm.trans he₀
    exact hcloses
  · cases he.symm.trans he'
    rfl

theorem SameCloses.closedUnleased (h : SameCloses s s') : ClosedUnleased s s' := by
  intro e entry entry' he he' hne
  exact absurd (h e entry entry' he he') hne

/-- One call of `aclose`. -/
theorem ClosedUnleased.of_called (h : PoolAccounts maxDestinationPools s) (hpending : 0 < s.pending e)
    (hcall : s'.entries = (s.callClose e).entries) : ClosedUnleased s s' := by
  intro e' entry entry' he he' hne
  by_cases hsame : e' = e
  · subst hsame
    exact h.unleased_of_pending he hpending
  · have hother : (s.callClose e).entries[e']? = s.entries[e']? := by
      simp [State.callClose, Ne.symm hsame]
    rw [hcall, hother, he] at he'
    cases he'
    exact absurd rfl hne

section Steps

variable [DecidableEq δ]

theorem PoolAccounts.forget (h : PoolAccounts maxDestinationPools s) (destination : δ) (e : ℕ) :
    PoolAccounts maxDestinationPools (s.forget destination e) := by
  rw [State.forget]
  split
  · exact h.setPools (List.Perm.refl _) List.filter_sublist
  · exact h

theorem PoolAccounts.moveToEnd (h : PoolAccounts maxDestinationPools s) (destination : δ) :
    PoolAccounts maxDestinationPools (s.moveToEnd destination) := by
  apply h.setPools _ (List.Sublist.refl s.pools)
  have hsplit := List.filter_append_perm (fun p : δ × ℕ => decide (p.1 ≠ destination)) s.pools
  simpa using hsplit

theorem pool_eq_none {destination : δ} (h : s.pool destination = none) :
    destination ∉ s.pools.map Prod.fst := by
  rw [State.pool, Option.map_eq_none_iff, List.find?_eq_none] at h
  intro hmem
  obtain ⟨p, hp, rfl⟩ := List.mem_map.mp hmem
  exact h p hp (by simp)

/-- What one pass of `_pool_for` can do. -/
inductive Served (maxDestinationPools : ℕ) (s : State δ) (t : ℕ) (r : TransportRequest δ) :
    State δ → Prop
  | refused : Served maxDestinationPools s t r (s.setPhase t r .finished)
  | granted {e : ℕ} {entry : PoolEntry δ} (active : s.closed = false)
      (registered : (r.destination, e) ∈ s.pools) (found : s.entries[e]? = some entry)
      (unmarked : entry.closing = false) :
      Served maxDestinationPools s t r
        (((s.setEntry e { entry with leases := entry.leases + 1 }).moveToEnd
          r.destination).setPhase t r (.leased e))
  | created (active : s.closed = false) (unregistered : r.destination ∉ s.pools.map Prod.fst)
      (room : s.pools.length < maxDestinationPools) :
      Served maxDestinationPools s t r
        { s with
          entries := s.entries ++ [⟨r.destination, 1, false, 0⟩]
          pools := s.pools ++ [(r.destination, s.entries.length)]
          requests := s.requests.set t { r with phase := .leased s.entries.length } }
  | evicts {victim : δ × ℕ} (idle : s.idle victim = true) :
      Served maxDestinationPools s t r
        ((s.markClosing victim.2).setPhase t r (.evicting victim.1 victim.2 false))
  | waits : Served maxDestinationPools s t r s

theorem pool_eq_some {destination : δ} (h : s.pool destination = some e) :
    (destination, e) ∈ s.pools := by
  obtain ⟨p, hfind, rfl⟩ := Option.map_eq_some_iff.mp h
  have hkey : p.1 = destination := by simpa using List.find?_some hfind
  rw [← hkey]
  exact List.mem_of_find?_eq_some hfind

theorem served_poolFor (maxDestinationPools : ℕ) (s : State δ) (t : ℕ) (r : TransportRequest δ) :
    Served maxDestinationPools s t r (s.poolFor maxDestinationPools t r) := by
  rw [State.poolFor]
  split
  · exact .refused
  · rename_i hactive
    have hactive : s.closed = false := by simpa using hactive
    split
    · rename_i e hpool
      split
      · rename_i entry he
        split
        · exact .waits
        · rename_i hunmarked
          exact .granted hactive (pool_eq_some hpool) he (by simpa using hunmarked)
      · exact .waits
    · rename_i hnone
      split
      · rename_i hroom
        exact .created hactive (pool_eq_none hnone) hroom
      · split
        · rename_i victim hvictim
          exact .evicts (List.find?_some hvictim)
        · exact .waits

theorem PoolAccounts.served (h : PoolAccounts maxDestinationPools s)
    (ht : s.requests[t]? = some r) (hphase : r.phase = .waiting)
    (hserved : Served maxDestinationPools s t r s') : PoolAccounts maxDestinationPools s' := by
  cases hserved with
  | refused => exact h.stay ht _ (fun e => by rw [hphase]; rfl) fun e => by rw [hphase]; rfl
  | granted hactive hregistered he hunmarked =>
    exact (h.leased ht hphase he hunmarked).moveToEnd r.destination
  | created hactive hnone hroom => exact h.created ht hphase hnone hroom
  | evicts hidle => exact h.marked ht hphase hidle
  | waits => exact h

/-- What a step can do to the transport. -/
inductive Moved (maxDestinationPools : ℕ) (s : State δ) (t : ℕ) (r : TransportRequest δ) :
    State δ → Prop
  | served {s' : State δ} (was : r.phase = .waiting) (pass : Served maxDestinationPools s t r s') :
      Moved maxDestinationPools s t r s'
  | stopped (was : r.phase = .waiting) : Moved maxDestinationPools s t r (s.setPhase t r .finished)
  | ended {e : ℕ} (was : r.phase = .leased e) :
      Moved maxDestinationPools s t r (s.setPhase t r (.releasing e))
  | victimClosed {victim : δ} {e : ℕ} (was : r.phase = .evicting victim e false) :
      Moved maxDestinationPools s t r ((s.callClose e).setPhase t r (.evicting victim e true))
  | evicted {victim : δ} {e : ℕ} {phase : RequestPhase δ}
      (was : r.phase = .evicting victim e true) (next : phase = .finished ∨ phase = .waiting) :
      Moved maxDestinationPools s t r ((s.forget victim e).setPhase t r phase)
  | released {e : ℕ} {entry : PoolEntry δ} (was : r.phase = .releasing e)
      (found : s.entries[e]? = some entry) :
      Moved maxDestinationPools s t r (s.releasePool t r e entry)

theorem moved_of_advance {event : TransportEvent δ}
    (h : s.advance maxDestinationPools t r event = some s') : Moved maxDestinationPools s t r s' := by
  simp only [State.advance] at h
  split at h
  · split at h
    · cases h
      exact .served ‹_› (served_poolFor maxDestinationPools s t r)
    · cases h
  · split at h
    · cases h
      exact .stopped ‹_›
    · cases h
      exact .ended ‹_›
    · cases h
  · split at h
    · cases h
      exact .victimClosed ‹_›
    · cases h
  · split at h
    · cases h
      apply Moved.evicted ‹_›
      split
      · exact .inl rfl
      · exact .inr rfl
    · cases h
  · split at h
    · obtain ⟨entry, hentry, rfl⟩ := Option.map_eq_some_iff.mp h
      exact .released ‹_› hentry
    · cases h
  · cases h

theorem PoolAccounts.moved (h : PoolAccounts maxDestinationPools s) (ht : s.requests[t]? = some r)
    (hmoved : Moved maxDestinationPools s t r s') : PoolAccounts maxDestinationPools s' := by
  cases hmoved with
  | served hphase hserved => exact h.served ht hphase hserved
  | stopped hphase => exact h.stay ht _ (fun e => by rw [hphase]; rfl) fun e => by rw [hphase]; rfl
  | ended hphase => exact h.stay ht _ (fun e => by rw [hphase]; rfl) fun e => by rw [hphase]; rfl
  | victimClosed hphase => exact h.victimClosed ht hphase
  | @evicted victim e phase hphase hnext =>
    have hrequests : (s.forget victim e).requests[t]? = some r := by
      rw [State.forget]
      split <;> exact ht
    apply (h.forget victim e).stay hrequests
    · intro e'
      rcases hnext with rfl | rfl <;> rw [hphase] <;> rfl
    · intro e'
      rcases hnext with rfl | rfl <;> simp [hphase, RequestPhase.willClose]
  | released hphase he => exact h.releasePool ht hphase he

theorem PoolAccounts.manage {event : TransportEvent δ} (h : PoolAccounts maxDestinationPools s)
    (hstep : s.manage event = some s') : PoolAccounts maxDestinationPools s' := by
  simp only [State.manage] at hstep
  split at hstep
  · cases hstep
    exact h.called _
  · cases hstep
    apply h.setClosePhase
    split
    · rename_i hidle
      rw [hidle]
      rfl
    · rfl
  · split at hstep
    · rename_i hscanning
      cases hstep
      exact h.closeAllPools hscanning
    · cases hstep
  · split at hstep
    · rename_i hclosing
      cases hstep
      exact h.poolClosed hclosing
    · cases hstep
  · split at hstep
    · rename_i destination e rest hclosing
      cases hstep
      apply (h.forget destination e).setClosePhase
      have hphase : (s.forget destination e).closePhase = s.closePhase := by
        rw [State.forget]
        split <;> rfl
      rw [hphase, hclosing]
      split
      · rename_i hrest
        rw [hrest]
        rfl
      · rfl
    · cases hstep
  · split at hstep
    · rename_i hscanning
      cases hstep
      apply h.setClosePhase
      rw [hscanning]
      rfl
    · cases hstep
  · cases hstep

/-- A step that belongs to no request, or that moves one. -/
theorem step_cases {event : TransportEvent δ} (h : s.step maxDestinationPools event = some s') :
    s.manage event = some s' ∨
      ∃ t r, s.requests[t]? = some r ∧ Moved maxDestinationPools s t r s' := by
  rw [State.step] at h
  split at h
  · obtain ⟨r, ht, hr⟩ := Option.bind_eq_some_iff.mp h
    exact .inr ⟨_, r, ht, moved_of_advance hr⟩
  · exact .inl h

theorem PoolAccounts.step {event : TransportEvent δ} (h : PoolAccounts maxDestinationPools s)
    (hstep : s.step maxDestinationPools event = some s') : PoolAccounts maxDestinationPools s' := by
  rcases step_cases hstep with hmanaged | ⟨t, r, ht, hmoved⟩
  · exact h.manage hmanaged
  · exact h.moved ht hmoved

/-- The accounts are right in every run. -/
theorem poolAccounts_of_reaches
    (h : Reaches (State.step maxDestinationPools) (State.init : State δ) s) :
    PoolAccounts maxDestinationPools s :=
  h.induction_on (PoolAccounts maxDestinationPools) (fun _ _ _ hs hstep => hs.step hstep) poolAccounts_init

/-- One pass of `_pool_for` moves the request, and a lease that it grants is on an open pool. -/
theorem Served.requests (h : Served maxDestinationPools s t r s') :
    s'.requests = s.requests ∨
      ∃ phase, s'.requests = s.requests.set t { r with phase := phase } ∧
        ∀ e, phase.holds e = true → s.closed = false ∧
          ∀ entry, s.entries[e]? = some entry → entry.closing = false := by
  cases h with
  | refused =>
    refine .inr ⟨.finished, rfl, ?_⟩
    intro e hholds
    cases hholds
  | @granted e entry hactive hregistered he hunmarked =>
    refine .inr ⟨.leased e, rfl, ?_⟩
    intro e' hholds
    have hsame : e = e' := by simpa [RequestPhase.holds] using hholds
    subst hsame
    refine ⟨hactive, ?_⟩
    intro entry' he'
    cases he.symm.trans he'
    exact hunmarked
  | created hactive hnone hroom =>
    refine .inr ⟨.leased s.entries.length, rfl, ?_⟩
    intro e' hholds
    have hsame : s.entries.length = e' := by simpa [RequestPhase.holds] using hholds
    refine ⟨hactive, ?_⟩
    intro entry he
    rw [← hsame, List.getElem?_eq_none (le_refl _)] at he
    cases he
  | evicts hidle =>
    refine .inr ⟨_, rfl, ?_⟩
    intro e' hholds
    cases hholds
  | waits => exact .inl rfl

theorem Served.sameCloses (h : Served maxDestinationPools s t r s') : SameCloses s s' := by
  cases h with
  | refused => exact .of_eq rfl
  | granted hactive hregistered he hunmarked => exact .of_set he rfl rfl
  | created hactive hnone hroom =>
    intro e entry entry' he he'
    rw [List.getElem?_append_left (List.getElem?_eq_some_iff.mp he).1, he] at he'
    cases he'
    rfl
  | evicts hidle =>
    obtain ⟨entry, he, -, -⟩ := idle_iff.mp hidle
    exact .of_set he (modify_eq_setEntry he) rfl
  | waits => exact .of_eq rfl

theorem Moved.requests (hmoved : Moved maxDestinationPools s t r s') :
    s'.requests = s.requests ∨
      ∃ phase, s'.requests = s.requests.set t { r with phase := phase } ∧
        ∀ e, phase.holds e = true → r.phase.holds e = true ∨ (s.closed = false ∧
          ∀ entry, s.entries[e]? = some entry → entry.closing = false) := by
  cases hmoved with
  | served hphase hserved =>
    rcases hserved.requests with hsame | ⟨phase, hset, hopen⟩
    · exact .inl hsame
    · exact .inr ⟨phase, hset, fun e hholds => .inr (hopen e hholds)⟩
  | stopped hphase =>
    refine .inr ⟨.finished, rfl, ?_⟩
    intro e hholds
    cases hholds
  | ended hphase =>
    refine .inr ⟨_, rfl, ?_⟩
    intro e hholds
    rw [hphase]
    exact .inl hholds
  | victimClosed hphase =>
    refine .inr ⟨_, rfl, ?_⟩
    intro e hholds
    cases hholds
  | @evicted victim e phase hphase hnext =>
    refine .inr ⟨phase, ?_, ?_⟩
    · rw [State.forget]
      split <;> rfl
    · intro e' hholds
      rcases hnext with rfl | rfl <;> cases hholds
  | @released e entry hphase he =>
    refine .inr ⟨.finished, ?_, ?_⟩
    · rw [State.releasePool]
      split <;> rfl
    · intro e' hholds
      cases hholds

theorem GrantedOpen.moved (ht : s.requests[t]? = some r)
    (hmoved : Moved maxDestinationPools s t r s') : GrantedOpen s s' := by
  intro u q q' e hq hq' hbefore hafter
  rcases hmoved.requests with hsame | ⟨phase, hset, hopen⟩
  · rw [hsame, hq] at hq'
    cases hq'
    rw [hbefore] at hafter
    cases hafter
  · rw [hset] at hq'
    rcases getElem?_set_cases hq' with ⟨rfl, rfl⟩ | ⟨-, hq'⟩
    · cases ht.symm.trans hq
      rcases hopen e hafter with hholds | hgranted
      · rw [hbefore] at hholds
        cases hholds
      · exact hgranted
    · cases hq.symm.trans hq'
      rw [hbefore] at hafter
      cases hafter

theorem ClosedUnleased.moved (h : PoolAccounts maxDestinationPools s)
    (ht : s.requests[t]? = some r) (hmoved : Moved maxDestinationPools s t r s') :
    ClosedUnleased s s' := by
  cases hmoved with
  | served hphase hserved => exact hserved.sameCloses.closedUnleased
  | stopped hphase => exact (SameCloses.of_eq rfl).closedUnleased
  | ended hphase => exact (SameCloses.of_eq rfl).closedUnleased
  | @victimClosed victim e hphase =>
    apply ClosedUnleased.of_called h (e := e) _ rfl
    have hpos : 0 < s.requests.countP fun r => r.phase.willClose e :=
      countP_pos_of_getElem? ht (by simp [hphase, RequestPhase.willClose])
    rw [State.pending]
    omega
  | @evicted victim e phase hphase hnext =>
    apply (SameCloses.of_eq _).closedUnleased
    rw [State.forget]
    split <;> rfl
  | @released e entry hphase he =>
    rw [State.releasePool]
    split
    · exact (SameCloses.of_eq rfl).closedUnleased
    · apply SameCloses.closedUnleased
      exact .of_set he rfl rfl

/-- The close task and the requests that are called grant nothing. -/
theorem manage_requests {event : TransportEvent δ} (h : s.manage event = some s') :
    s'.requests = s.requests ∨ ∃ destination, event = .called destination ∧
      s'.requests = s.requests ++ [⟨destination, .waiting⟩] := by
  simp only [State.manage] at h
  split at h
  · cases h
    exact .inr ⟨_, rfl, rfl⟩
  · cases h
    exact .inl rfl
  · split at h
    · cases h
      left
      simp only [State.closeAllPools]
      split
      · split <;> rfl
      · rfl
    · cases h
  · split at h
    · cases h
      exact .inl rfl
    · cases h
  · split at h
    · cases h
      left
      rw [State.forget]
      split <;> rfl
    · cases h
  · split at h
    · cases h
      exact .inl rfl
    · cases h
  · cases h

theorem GrantedOpen.manage {event : TransportEvent δ} (h : s.manage event = some s') :
    GrantedOpen s s' := by
  intro u q q' e hq hq' hbefore hafter
  rcases manage_requests h with hsame | ⟨destination, -, hcalled⟩
  · rw [hsame, hq] at hq'
    cases hq'
    rw [hbefore] at hafter
    cases hafter
  · rw [hcalled] at hq'
    rcases getElem?_append_singleton_cases hq' with ⟨-, rfl⟩ | hq'
    · cases hafter
    · cases hq.symm.trans hq'
      rw [hbefore] at hafter
      cases hafter

theorem ClosedUnleased.manage {event : TransportEvent δ} (h : PoolAccounts maxDestinationPools s)
    (hstep : s.manage event = some s') : ClosedUnleased s s' := by
  simp only [State.manage] at hstep
  split at hstep
  · cases hstep
    exact (SameCloses.of_eq rfl).closedUnleased
  · cases hstep
    exact (SameCloses.of_eq rfl).closedUnleased
  · split at hstep
    · cases hstep
      apply SameCloses.closedUnleased
      simp only [State.closeAllPools]
      split
      · split <;> exact .of_eq rfl
      · intro e entry entry' he he'
        rw [getElem?_marked, he, Option.map_some] at he'
        cases he'
        split <;> rfl
    · cases hstep
  · split at hstep
    · rename_i destination e rest hclosing
      cases hstep
      apply ClosedUnleased.of_called h (e := e) _ rfl
      rw [State.pending, hclosing]
      simp [ClosePhase.pending]
    · cases hstep
  · split at hstep
    · cases hstep
      apply (SameCloses.of_eq _).closedUnleased
      rw [State.forget]
      split <;> rfl
    · cases hstep
  · split at hstep
    · cases hstep
      exact (SameCloses.of_eq rfl).closedUnleased
    · cases hstep
  · cases hstep

/-- In every run of the transport the accounts are right and no assertion fails, every pool is closed at
most once, and every further step grants leases only on open pools and closes only pools that nobody
leases. -/
theorem pool_leases (h : Reaches (State.step maxDestinationPools) (State.init : State δ) s) :
    PoolAccounts maxDestinationPools s ∧
      (∀ (e : ℕ) (entry : PoolEntry δ), s.entries[e]? = some entry → entry.closes ≤ 1) ∧
        ∀ event s', s.step maxDestinationPools event = some s' →
          GrantedOpen s s' ∧ ClosedUnleased s s' := by
  have haccounts := poolAccounts_of_reaches h
  refine ⟨haccounts, ?_, ?_⟩
  · intro e entry he
    have hcloses := (haccounts.entries e entry he).closes
    have hle := Bool.toNat_le entry.closing
    omega
  · intro event s' hstep
    rcases step_cases hstep with hmanaged | ⟨t, r, ht, hmoved⟩
    · exact ⟨.manage hmanaged, .manage haccounts hmanaged⟩
    · exact ⟨.moved ht hmoved, .moved haccounts ht hmoved⟩

/-- Two destinations and room for one pool: the second request evicts the pool of the first one,
after that has given back its lease. -/
def evictingRun : List (TransportEvent ℕ) :=
  [.called 1, .called 2, .poolRequested 0, .poolRequested 1, .interrupted 0, .released 0,
    .poolRequested 1, .victimClosed 1, .evictionEnded 1 false, .poolRequested 1, .closeRequested]

theorem pool_leases_evictingRun : ∃ s, runs (State.step 1) (State.init : State ℕ) evictingRun = some s ∧
    s.entries = [⟨1, 0, true, 1⟩, ⟨2, 1, false, 0⟩] ∧ PoolAccounts 1 s ∧
      (∀ (e : ℕ) (entry : PoolEntry ℕ), s.entries[e]? = some entry → entry.closes ≤ 1) ∧
        ∀ event s', s.step 1 event = some s' → GrantedOpen s s' ∧ ClosedUnleased s s' := by
  have hrun : (runs (State.step 1) (State.init : State ℕ) evictingRun).map State.entries =
      some [⟨1, 0, true, 1⟩, ⟨2, 1, false, 0⟩] := by decide +kernel
  obtain ⟨s, hs, hentries⟩ := Option.map_eq_some_iff.mp hrun
  exact ⟨s, hs, hentries, pool_leases ⟨evictingRun, hs⟩⟩

end Steps

end VeloxRag.Transport
