import VeloxRag.Providers.NetworkPolicy
import VeloxRag.Providers.PoolLeases

/-!
# Pinned connections

The transport resolves the endpoint of a request, and its destination is the whole accepted answer
set with the first address of it.  When the pool of the destination opens a connection,
`PinnedProviderNetworkBackend.connect_tcp` resolves again, refuses unless the answer set is the same,
and connects to the address that was selected.  The resolver may answer differently every time.

What `httpcore` does in a pool is left open: a request that leases the pool may open a connection
through its backend, with whatever host and port, and it may use any connection of the pool.

## Main definitions

* `ProviderDestination` — a destination carries that its address is one of the answers.
* `connectTcp` — `PinnedProviderNetworkBackend.connect_tcp`.
* `Wire`, `Wire.step` — the transport with its resolutions and connections.
* `Pinned` — what every connection, and every use of one, is.
* `pinned_connections` — this holds in every run.
-/

namespace VeloxRag.Transport

open Lib NetworkPolicy

/-- `ProviderDestination`. -/
structure ProviderDestination where
  resolved : ResolvedProviderEndpoint
  selectedAddress : Str
  selected : selectedAddress ∈ resolved.addresses
  deriving DecidableEq

/-- `ProviderDestination(resolved, resolved.addresses[0])`. -/
def providerDestination (resolved : ResolvedProviderEndpoint) : Option ProviderDestination :=
  match h : resolved.addresses with
  | [] => none
  | address :: _ => some ⟨resolved, address, by rw [h]; exact List.mem_cons_self⟩

/-- A connection: the pool it belongs to, the address it goes to, and what was resolved for it. -/
structure Connection where
  entry : ℕ
  address : Str
  answers : Option (List Str)
  resolved : ResolvedProviderEndpoint
  deriving DecidableEq

/-- `PinnedProviderNetworkBackend.connect_tcp`; `answers` is what the resolver answers now. -/
def connectTcp (policy : ProviderEndpointPolicy) (destination : ProviderDestination) (e : ℕ)
    (host : Str) (port : ℕ) (answers : Option (List Str)) : Option Connection :=
  let endpoint := destination.resolved.endpoint
  if host ≠ endpoint.hostname ∨ port ≠ endpoint.port then none
  else
    match resolveAndValidate policy endpoint answers with
    | none => none
    | some current =>
      if current ≠ destination.resolved then none
      else some ⟨e, destination.selectedAddress, answers, current⟩

/-- What a request asked for and what the resolver answered it. -/
structure Resolution where
  endpoint : CanonicalProviderEndpoint
  answers : Option (List Str)
  deriving DecidableEq

/-- The transport with the resolution of each request, the connections that were opened, and which
request used which of them. -/
structure Wire where
  transport : State ProviderDestination
  resolutions : List Resolution
  connections : List Connection
  uses : List (ℕ × ℕ)

namespace Wire

def init : Wire := ⟨State.init, [], [], []⟩

end Wire

inductive WireEvent
  /-- `post_json`, up to the call of `_pool_for` -/
  | posted (endpoint : CanonicalProviderEndpoint) (answers : Option (List Str))
  /-- a step of the registry -/
  | stepped (event : TransportEvent ProviderDestination)
  /-- the request `t` opens a connection -/
  | connected (t : ℕ) (host : Str) (port : ℕ) (answers : Option (List Str))
  /-- the request `t` uses a connection that is open -/
  | reused (t c : ℕ)

/-- The request `t` leases the pool `e`, which was made for a destination. -/
def Wire.leasing (w : Wire) (t : ℕ) : Option (ℕ × ProviderDestination) :=
  match w.transport.requests[t]? with
  | some ⟨_, .leased e⟩ => (w.transport.entries[e]?).map fun entry => (e, entry.destination)
  | _ => none

/-- One step of the transport with its connections. -/
def Wire.step (policy : ProviderEndpointPolicy) (maxDestinationPools : ℕ) (w : Wire) :
    WireEvent → Option Wire
  | .posted endpoint answers =>
    match (resolveAndValidate policy endpoint answers).bind providerDestination with
    | none => some w
    | some destination =>
      (w.transport.step maxDestinationPools (.called destination)).map fun transport =>
        { w with
          transport := transport
          resolutions := w.resolutions ++ [⟨endpoint, answers⟩] }
  | .stepped event =>
    match event with
    | .called _ => none
    | event => (w.transport.step maxDestinationPools event).map fun transport =>
        { w with transport := transport }
  | .connected t host port answers =>
    match w.leasing t with
    | none => none
    | some (e, destination) =>
      match connectTcp policy destination e host port answers with
      | none => some w
      | some connection =>
        some { w with
          connections := w.connections ++ [connection]
          uses := w.uses ++ [(t, w.connections.length)] }
  | .reused t c =>
    match w.leasing t, w.connections[c]? with
    | some (e, _), some connection =>
      if connection.entry = e then some { w with uses := w.uses ++ [(t, c)] } else none
    | _, _ => none

/-- The destinations of the pools that were ever made. -/
def destinations {δ : Type*} (s : State δ) : List δ := s.entries.map PoolEntry.destination

/-- A connection goes to an address of the answers that were resolved for it, every one of these is
permitted, and they are those of the destination of its pool. -/
structure PinnedConnection (policy : ProviderEndpointPolicy) (w : Wire) (c : Connection) : Prop where
  accepted : Accepted policy c.resolved.endpoint c.answers c.resolved
  contained : c.address ∈ c.resolved.addresses
  destination : ∃ destination, (destinations w.transport)[c.entry]? = some destination ∧
    destination.resolved = c.resolved ∧ destination.selectedAddress = c.address

/-- A pool is registered under its own destination, and a request leases the pool of its own. -/
structure Routed {δ : Type*} (s : State δ) : Prop where
  named : ∀ p ∈ s.pools, (destinations s)[p.2]? = some p.1
  leased : ∀ (t : ℕ) (r : TransportRequest δ) (e : ℕ), s.requests[t]? = some r →
    r.phase.holds e = true → (destinations s)[e]? = some r.destination

section Routes

variable {δ : Type*} {maxDestinationPools : ℕ} {s s' : State δ} {t e : ℕ}
  {r : TransportRequest δ} {entry entry' : PoolEntry δ}

theorem destinations_set (he : s.entries[e]? = some entry)
    (hdestination : entry'.destination = entry.destination) :
    (s.entries.set e entry').map PoolEntry.destination = destinations s := by
  obtain ⟨hlt, heq⟩ := List.getElem?_eq_some_iff.mp he
  have hbound : e < (s.entries.map PoolEntry.destination).length := by
    rw [List.length_map]
    exact hlt
  have hget : entry.destination = (s.entries.map PoolEntry.destination)[e] := by
    rw [List.getElem_map, heq]
  rw [List.map_set, hdestination, destinations, hget, List.set_getElem_self]

theorem destinations_modify {f : PoolEntry δ → PoolEntry δ}
    (hf : ∀ entry, (f entry).destination = entry.destination) (entries : List (PoolEntry δ)) (e : ℕ) :
    (entries.modify e f).map PoolEntry.destination = entries.map PoolEntry.destination := by
  apply List.ext_getElem?
  intro i
  rw [List.getElem?_map, List.getElem?_map, List.getElem?_modify]
  cases entries[i]? with
  | none => rfl
  | some entry =>
    by_cases hi : e = i
    · simp [hi, hf]
    · simp [hi]

theorem destinations_marked (marks : List (δ × ℕ)) (entries : List (PoolEntry δ)) :
    (marks.foldl (fun entries p => entries.modify p.2 fun entry => { entry with closing := true })
      entries).map PoolEntry.destination = entries.map PoolEntry.destination := by
  induction marks generalizing entries with
  | nil => rfl
  | cons mark marks ih =>
    rw [List.foldl_cons, ih]
    exact destinations_modify (f := fun entry => { entry with closing := true }) (fun _ => rfl)
      entries mark.2

/-- What a step of a request does to the routes. -/
structure Rerouted (s s' : State δ) (t : ℕ) (r : TransportRequest δ) : Prop where
  made : destinations s <+: destinations s'
  registry : ∀ p ∈ s'.pools, p ∈ s.pools ∨ (destinations s')[p.2]? = some p.1
  requests : s'.requests = s.requests ∨
    ∃ phase, s'.requests = s.requests.set t { r with phase := phase } ∧
      ∀ e, phase.holds e = true → r.phase.holds e = true ∨ (r.destination, e) ∈ s.pools ∨
        (destinations s')[e]? = some r.destination

theorem Rerouted.of_same (phase : RequestPhase δ) (hdestinations : destinations s' = destinations s)
    (hpools : s'.pools ⊆ s.pools)
    (hrequests : s'.requests = s.requests.set t { r with phase := phase })
    (hholds : ∀ e, phase.holds e = true → r.phase.holds e = true) : Rerouted s s' t r where
  made := by rw [hdestinations]
  registry p hp := .inl (hpools hp)
  requests := .inr ⟨phase, hrequests, fun e he => .inl (hholds e he)⟩

theorem getElem?_of_prefix {α : Type*} {xs ys : List α} {x : α} {i : ℕ} (h : xs <+: ys)
    (hx : xs[i]? = some x) : ys[i]? = some x := by
  obtain ⟨zs, rfl⟩ := h
  rw [List.getElem?_append_left (List.getElem?_eq_some_iff.mp hx).1]
  exact hx

theorem Routed.rerouted (h : Routed s) (ht : s.requests[t]? = some r) (hr : Rerouted s s' t r) :
    Routed s' where
  named p hp := by
    rcases hr.registry p hp with hbefore | hnamed
    · exact getElem?_of_prefix hr.made (h.named p hbefore)
    · exact hnamed
  leased u q e hq hholds := by
    rcases hr.requests with hsame | ⟨phase, hset, hgranted⟩
    · rw [hsame] at hq
      exact getElem?_of_prefix hr.made (h.leased u q e hq hholds)
    · rw [hset] at hq
      rcases getElem?_set_cases hq with ⟨rfl, rfl⟩ | ⟨-, hq⟩
      · rcases hgranted e hholds with hheld | hregistered | hnew
        · exact getElem?_of_prefix hr.made (h.leased u r e ht hheld)
        · exact getElem?_of_prefix hr.made (h.named _ hregistered)
        · exact hnew
      · exact getElem?_of_prefix hr.made (h.leased u q e hq hholds)

variable [DecidableEq δ]

theorem Rerouted.served (h : Served maxDestinationPools s t r s') : Rerouted s s' t r := by
  cases h with
  | refused =>
    refine .of_same _ ?_ ?_ rfl ?_
    · rfl
    · exact List.Subset.refl _
    intro e hholds
    cases hholds
  | @granted e entry hactive hregistered he hunmarked =>
    refine ⟨?_, ?_, .inr ⟨.leased e, rfl, ?_⟩⟩
    · have hsame := destinations_set (s := s) he
        (rfl : ({ entry with leases := entry.leases + 1 } : PoolEntry δ).destination = _)
      rw [← hsame]
      exact List.prefix_rfl
    · intro p hp
      left
      rcases List.mem_append.mp hp with hp | hp
      · exact (List.mem_filter.mp hp).1
      · exact (List.mem_filter.mp hp).1
    · intro e' hholds
      have hsame : e = e' := by simpa [RequestPhase.holds] using hholds
      subst hsame
      exact .inr (.inl hregistered)
  | created hactive hnone hroom =>
    have hnew : (s.entries ++ [(⟨r.destination, 1, false, 0⟩ : PoolEntry δ)]).map
        PoolEntry.destination = destinations s ++ [r.destination] := by
      simp [destinations]
    have hlast : (destinations s ++ [r.destination])[s.entries.length]? = some r.destination := by
      have hlength : s.entries.length = (destinations s).length := by simp [destinations]
      rw [hlength, List.getElem?_concat_length]
    refine ⟨?_, ?_, .inr ⟨.leased s.entries.length, rfl, ?_⟩⟩
    · exact ⟨_, hnew.symm⟩
    · intro p hp
      rcases List.mem_append.mp hp with hp | hp
      · exact .inl hp
      · rw [destinations, hnew, List.mem_singleton.mp hp]
        exact .inr hlast
    · intro e' hholds
      have hsame : s.entries.length = e' := by simpa [RequestPhase.holds] using hholds
      subst hsame
      rw [destinations, hnew]
      exact .inr (.inr hlast)
  | evicts hidle =>
    refine .of_same _ ?_ ?_ rfl ?_
    · exact destinations_modify (f := fun entry => { entry with closing := true }) (fun _ => rfl) _ _
    · exact List.Subset.refl _
    intro e hholds
    cases hholds
  | waits => exact ⟨List.prefix_rfl, fun p hp => .inl hp, .inl rfl⟩

theorem Rerouted.moved (h : Moved maxDestinationPools s t r s') : Rerouted s s' t r := by
  cases h with
  | served hphase hserved => exact .served hserved
  | stopped hphase =>
    refine .of_same _ ?_ ?_ rfl ?_
    · rfl
    · exact List.Subset.refl _
    intro e hholds
    cases hholds
  | ended hphase =>
    refine .of_same _ ?_ ?_ rfl ?_
    · rfl
    · exact List.Subset.refl _
    intro e hholds
    rw [hphase]
    exact hholds
  | victimClosed hphase =>
    refine .of_same _ ?_ ?_ rfl ?_
    · exact destinations_modify (f := fun entry => { entry with closes := entry.closes + 1 })
        (fun _ => rfl) _ _
    · exact List.Subset.refl _
    intro e hholds
    cases hholds
  | @evicted victim e phase hphase hnext =>
    have hforget : (s.forget victim e).pools ⊆ s.pools := by
      rw [State.forget]
      split
      · exact List.filter_subset_self _
      · exact List.Subset.refl _
    have hsame : destinations (s.forget victim e) = destinations s ∧
        (s.forget victim e).requests = s.requests := by
      rw [State.forget]
      split <;> exact ⟨rfl, rfl⟩
    refine .of_same phase ?_ ?_ ?_ ?_
    · exact hsame.1
    · exact hforget
    · rw [State.setPhase, hsame.2]
    · intro e' hholds
      rcases hnext with rfl | rfl <;> cases hholds
  | @released e entry hphase he =>
    rw [State.releasePool]
    split
    · refine .of_same _ ?_ ?_ rfl ?_
      · rfl
      · exact List.Subset.refl _
      intro e' hholds
      cases hholds
    · refine .of_same _ ?_ ?_ rfl ?_
      · exact destinations_set he rfl
      · exact List.Subset.refl _
      intro e' hholds
      cases hholds

/-- The close task makes no pools and grants no leases. -/
theorem Routed.manage {event : TransportEvent δ} (h : Routed s) (hstep : s.manage event = some s') :
    Routed s' ∧ destinations s' = destinations s := by
  have hstay : ∀ {s' : State δ}, destinations s' = destinations s → s'.pools ⊆ s.pools →
      s'.requests = s.requests → Routed s' ∧ destinations s' = destinations s := by
    intro s' hdestinations hpools hrequests
    refine ⟨⟨?_, ?_⟩, hdestinations⟩
    · intro p hp
      rw [hdestinations]
      exact h.named p (hpools hp)
    · intro t r e hr hholds
      rw [hrequests] at hr
      rw [hdestinations]
      exact h.leased t r e hr hholds
  have hforget : ∀ d e, (s.forget d e).pools ⊆ s.pools ∧ (s.forget d e).requests = s.requests ∧
      destinations (s.forget d e) = destinations s := by
    intro d e
    rw [State.forget]
    split
    · exact ⟨List.filter_subset_self _, rfl, rfl⟩
    · exact ⟨List.Subset.refl _, rfl, rfl⟩
  simp only [State.manage] at hstep
  split at hstep
  · cases hstep
    refine ⟨⟨h.named, ?_⟩, rfl⟩
    intro t r e hr hholds
    rcases getElem?_append_singleton_cases hr with ⟨-, rfl⟩ | hr
    · cases hholds
    · exact h.leased t r e hr hholds
  · cases hstep
    exact hstay rfl (List.Subset.refl _) rfl
  · split at hstep
    · cases hstep
      simp only [State.closeAllPools]
      split
      · split
        · exact hstay rfl (List.Subset.refl _) rfl
        · exact hstay rfl (List.Subset.refl _) rfl
      · exact hstay (destinations_marked _ _) (List.Subset.refl _) rfl
    · cases hstep
  · split at hstep
    · cases hstep
      exact hstay (destinations_modify (f := fun entry => { entry with closes := entry.closes + 1 })
        (fun _ => rfl) _ _) (List.Subset.refl _) rfl
    · cases hstep
  · split at hstep
    · rename_i destination e rest _
      cases hstep
      obtain ⟨hpools, hrequests, hdestinations⟩ := hforget destination e
      exact hstay hdestinations hpools hrequests
    · cases hstep
  · split at hstep
    · cases hstep
      exact hstay rfl (List.Subset.refl _) rfl
    · cases hstep
  · cases hstep

end Routes

section Wires

variable {policy : ProviderEndpointPolicy} {maxDestinationPools : ℕ} {w w' : Wire} {t c : ℕ}

/-- The resolution of a request: its own answers gave the endpoint and the addresses of `resolved`. -/
def ResolvedTo (policy : ProviderEndpointPolicy) (w : Wire) (t : ℕ)
    (resolved : ResolvedProviderEndpoint) : Prop :=
  ∃ resolution, w.resolutions[t]? = some resolution ∧
    resolveAndValidate policy resolution.endpoint resolution.answers = some resolved

/-- What every connection is, and every use of one. -/
structure Pinned (policy : ProviderEndpointPolicy) (w : Wire) : Prop where
  routed : Routed w.transport
  sizes : w.resolutions.length = w.transport.requests.length
  resolved : ∀ (t : ℕ) (r : TransportRequest ProviderDestination),
    w.transport.requests[t]? = some r → ResolvedTo policy w t r.destination.resolved
  connections : ∀ c ∈ w.connections, PinnedConnection policy w c
  uses : ∀ use ∈ w.uses, ∃ connection, w.connections[use.2]? = some connection ∧
    ResolvedTo policy w use.1 connection.resolved

theorem pinned_init : Pinned policy Wire.init where
  routed := ⟨fun _ hp => (List.not_mem_nil hp).elim, fun _ _ _ hr => by cases hr⟩
  sizes := rfl
  resolved t r hr := by cases hr
  connections c hc := by cases hc
  uses use huse := by cases huse

/-- What was established stays when the transport moves on. -/
theorem Pinned.extend (h : Pinned policy w) (hrouted : Routed w'.transport)
    (hresolutions : w.resolutions <+: w'.resolutions)
    (hsizes : w'.resolutions.length = w'.transport.requests.length)
    (hresolved : ∀ (t : ℕ) (r : TransportRequest ProviderDestination),
      w'.transport.requests[t]? = some r → ResolvedTo policy w' t r.destination.resolved)
    (hmade : destinations w.transport <+: destinations w'.transport)
    (hconnections : w'.connections = w.connections) (huses : w'.uses = w.uses) :
    Pinned policy w' where
  routed := hrouted
  sizes := hsizes
  resolved := hresolved
  connections c hc := by
    rw [hconnections] at hc
    obtain ⟨haccepted, hcontained, destination, hdestination, hsame⟩ := h.connections c hc
    exact ⟨haccepted, hcontained, destination, getElem?_of_prefix hmade hdestination, hsame⟩
  uses use huse := by
    rw [huses] at huse
    obtain ⟨connection, hconnection, resolution, hresolution, hvalid⟩ := h.uses use huse
    rw [hconnections]
    exact ⟨connection, hconnection, resolution, getElem?_of_prefix hresolutions hresolution, hvalid⟩

theorem providerDestination_resolved {resolved : ResolvedProviderEndpoint}
    {destination : ProviderDestination} (h : providerDestination resolved = some destination) :
    destination.resolved = resolved := by
  rw [providerDestination] at h
  split at h
  · cases h
  · cases h
    rfl

theorem Pinned.posted {endpoint : CanonicalProviderEndpoint} {answers : Option (List Str)}
    (h : Pinned policy w)
    (hstep : w.step policy maxDestinationPools (.posted endpoint answers) = some w') :
    Pinned policy w' := by
  simp only [Wire.step] at hstep
  split at hstep
  · cases hstep
    exact h
  · rename_i destination hdestination
    obtain ⟨transport, htransport, rfl⟩ := Option.map_eq_some_iff.mp hstep
    obtain ⟨resolved, hvalid, hresolved⟩ := Option.bind_eq_some_iff.mp hdestination
    have hmanaged : w.transport.manage (.called destination) = some transport := htransport
    have hrouted := h.routed.manage hmanaged
    cases hmanaged
    refine h.extend hrouted.1 ⟨_, rfl⟩ ?_ ?_ (by rw [hrouted.2]) rfl rfl
    · simp [h.sizes]
    · intro t r hr
      rcases getElem?_append_singleton_cases hr with ⟨rfl, rfl⟩ | hr
      · refine ⟨⟨endpoint, answers⟩, ?_, ?_⟩
        · rw [← h.sizes, List.getElem?_concat_length]
        · rw [hvalid, providerDestination_resolved hresolved]
      · obtain ⟨resolution, hresolution, hvalid⟩ := h.resolved t r hr
        exact ⟨resolution, getElem?_of_prefix ⟨_, rfl⟩ hresolution, hvalid⟩

/-- The destinations of the requests do not change. -/
theorem requests_of_moved {s s' : State ProviderDestination} {u : ℕ}
    {r : TransportRequest ProviderDestination} (hu : s.requests[u]? = some r)
    (hr : Rerouted s s' u r) : s'.requests.length = s.requests.length ∧
      ∀ (t : ℕ) (r' : TransportRequest ProviderDestination), s'.requests[t]? = some r' →
        ∃ r₀, s.requests[t]? = some r₀ ∧ r₀.destination = r'.destination := by
  rcases hr.requests with hsame | ⟨phase, hset, -⟩
  · rw [hsame]
    exact ⟨rfl, fun t r' hr' => ⟨r', hr', rfl⟩⟩
  · rw [hset]
    refine ⟨List.length_set, ?_⟩
    intro t r' hr'
    rcases getElem?_set_cases hr' with ⟨rfl, rfl⟩ | ⟨-, hr'⟩
    · exact ⟨r, hu, rfl⟩
    · exact ⟨r', hr', rfl⟩

theorem Pinned.stepped {event : TransportEvent ProviderDestination}
    {transport : State ProviderDestination} (h : Pinned policy w)
    (hcalled : ∀ destination, event ≠ .called destination)
    (htransport : w.transport.step maxDestinationPools event = some transport) :
    Pinned policy { w with transport := transport } := by
  rcases step_cases htransport with hmanaged | ⟨u, r, hu, hmoved⟩
  · obtain ⟨hrouted, hmade⟩ := h.routed.manage hmanaged
    rcases manage_requests hmanaged with hsame | ⟨destination, hevent, -⟩
    · refine h.extend hrouted List.prefix_rfl ?_ ?_ (by rw [hmade]) rfl rfl
      · rw [hsame]
        exact h.sizes
      · intro t r hr
        rw [hsame] at hr
        exact h.resolved t r hr
    · exact absurd hevent (hcalled destination)
  · have hrerouted := Rerouted.moved hmoved
    obtain ⟨hlength, hrequests⟩ := requests_of_moved hu hrerouted
    refine h.extend (h.routed.rerouted hu hrerouted) List.prefix_rfl ?_ ?_ hrerouted.made rfl rfl
    · rw [hlength]
      exact h.sizes
    · intro t r' hr'
      obtain ⟨r₀, hr₀, hsame⟩ := hrequests t r' hr'
      rw [← hsame]
      exact h.resolved t r₀ hr₀

/-- A request leases the pool of the destination that its own resolution gave. -/
theorem Pinned.leasing {e : ℕ} {destination : ProviderDestination} (h : Pinned policy w)
    (hleasing : w.leasing t = some (e, destination)) :
    (destinations w.transport)[e]? = some destination ∧
      ResolvedTo policy w t destination.resolved := by
  rw [Wire.leasing] at hleasing
  split at hleasing
  · rename_i own e' hr
    obtain ⟨entry, hentry, heq⟩ := Option.map_eq_some_iff.mp hleasing
    cases heq
    have hown := h.routed.leased t _ e hr (by simp [RequestPhase.holds])
    have hpool : (destinations w.transport)[e]? = some entry.destination := by
      rw [destinations, List.getElem?_map, hentry]
      rfl
    cases hpool.symm.trans hown
    exact ⟨hpool, h.resolved t _ hr⟩
  · cases hleasing

theorem connectTcp_eq_some {destination : ProviderDestination} {e port : ℕ} {host : Str}
    {answers : Option (List Str)} {connection : Connection}
    (h : connectTcp policy destination e host port answers = some connection) :
    resolveAndValidate policy destination.resolved.endpoint answers = some destination.resolved ∧
      connection = ⟨e, destination.selectedAddress, answers, destination.resolved⟩ := by
  simp only [connectTcp] at h
  split at h
  · cases h
  · split at h
    · cases h
    · rename_i current hcurrent
      split at h
      · cases h
      · rename_i hsame
        have hsame : current = destination.resolved := not_not.mp hsame
        subst hsame
        cases h
        exact ⟨hcurrent, rfl⟩

theorem Pinned.connected {e port : ℕ} {host : Str} {answers : Option (List Str)}
    {destination : ProviderDestination} {connection : Connection} (h : Pinned policy w)
    (hleasing : w.leasing t = some (e, destination))
    (hconnect : connectTcp policy destination e host port answers = some connection) :
    Pinned policy { w with
      connections := w.connections ++ [connection]
      uses := w.uses ++ [(t, w.connections.length)] } := by
  obtain ⟨hpool, hresolved⟩ := h.leasing hleasing
  obtain ⟨hvalid, rfl⟩ := connectTcp_eq_some hconnect
  refine ⟨h.routed, h.sizes, h.resolved, ?_, ?_⟩
  · intro c hc
    rcases List.mem_append.mp hc with hc | hc
    · obtain ⟨haccepted, hcontained, hdestination⟩ := h.connections c hc
      exact ⟨haccepted, hcontained, hdestination⟩
    · rw [List.mem_singleton.mp hc]
      exact ⟨resolveAndValidate_eq_some hvalid, destination.selected, destination, hpool, rfl, rfl⟩
  · intro use huse
    rcases List.mem_append.mp huse with huse | huse
    · obtain ⟨connection, hconnection, hto⟩ := h.uses use huse
      exact ⟨connection, getElem?_of_prefix ⟨_, rfl⟩ hconnection, hto⟩
    · rw [List.mem_singleton.mp huse]
      exact ⟨_, List.getElem?_concat_length, hresolved⟩

theorem Pinned.reused {e : ℕ} {destination : ProviderDestination} {connection : Connection}
    (h : Pinned policy w) (hleasing : w.leasing t = some (e, destination))
    (hconnection : w.connections[c]? = some connection) (hentry : connection.entry = e) :
    Pinned policy { w with uses := w.uses ++ [(t, c)] } := by
  obtain ⟨hpool, hresolved⟩ := h.leasing hleasing
  refine ⟨h.routed, h.sizes, h.resolved, ?_, ?_⟩
  · intro c hc
    obtain ⟨haccepted, hcontained, hdestination⟩ := h.connections c hc
    exact ⟨haccepted, hcontained, hdestination⟩
  · intro use huse
    rcases List.mem_append.mp huse with huse | huse
    · exact h.uses use huse
    · rw [List.mem_singleton.mp huse]
      obtain ⟨-, -, own, hown, hsame, -⟩ := h.connections _ (List.mem_of_getElem? hconnection)
      rw [hentry] at hown
      cases hpool.symm.trans hown
      rw [hsame] at hresolved
      exact ⟨connection, hconnection, hresolved⟩

theorem Pinned.step {event : WireEvent} (h : Pinned policy w)
    (hstep : w.step policy maxDestinationPools event = some w') : Pinned policy w' := by
  cases event with
  | posted endpoint answers => exact h.posted hstep
  | stepped event =>
    cases event with
    | called destination => cases hstep
    | _ =>
      simp only [Wire.step] at hstep
      obtain ⟨transport, htransport, rfl⟩ := Option.map_eq_some_iff.mp hstep
      exact h.stepped (fun destination heq => by cases heq) htransport
  | connected t host port answers =>
    simp only [Wire.step] at hstep
    split at hstep
    · cases hstep
    · rename_i hleasing
      split at hstep
      · cases hstep
        exact h
      · rename_i hconnect
        cases hstep
        exact h.connected hleasing hconnect
  | reused t c =>
    simp only [Wire.step] at hstep
    split at hstep
    · rename_i hleasing hconnection
      split at hstep
      · rename_i hentry
        cases hstep
        exact h.reused hleasing hconnection hentry
      · cases hstep
    · cases hstep

/-- An answer set with an address that is not permitted: nothing is asked for the request, and no
connection is opened. -/
def RefusesForbidden (policy : ProviderEndpointPolicy) (maxDestinationPools : ℕ) (w : Wire) : Prop :=
  ∀ (endpoint : CanonicalProviderEndpoint) (answers : Option (List Str)) (raws : List Str) (raw : Str),
    rawAnswers endpoint answers = some raws → raw ∈ raws →
      (∀ a, ipAddress raw = some a → isPermittedAddress policy.allowPrivateTargets a = false) →
        w.step policy maxDestinationPools (.posted endpoint answers) = some w ∧
          ∀ t host port e destination, w.leasing t = some (e, destination) →
            destination.resolved.endpoint = endpoint →
              w.step policy maxDestinationPools (.connected t host port answers) = some w

theorem refusesForbidden (policy : ProviderEndpointPolicy) (maxDestinationPools : ℕ) (w : Wire) :
    RefusesForbidden policy maxDestinationPools w := by
  intro endpoint answers raws raw hraws hraw hforbidden
  have hnone := resolveAndValidate_of_forbidden hraws hraw hforbidden
  constructor
  · simp [Wire.step, hnone]
  · intro t host port e destination hleasing hendpoint
    have hconnect : connectTcp policy destination e host port answers = none := by
      simp [connectTcp, hendpoint, hnone]
    simp [Wire.step, hleasing, hconnect]

/-- In every run, whatever the resolver answers, every connection is pinned to the answers that were
accepted for it and for the destination of its pool, every use of a connection is by a request whose
own answers gave the same endpoint and addresses, and an answer set with an address that is not
permitted opens nothing. -/
theorem pinned_connections (h : Reaches (Wire.step policy maxDestinationPools) Wire.init w) :
    Pinned policy w ∧ RefusesForbidden policy maxDestinationPools w :=
  ⟨h.induction_on (Pinned policy) (fun _ _ _ hw hstep => hw.step hstep) pinned_init,
    refusesForbidden policy maxDestinationPools w⟩

/-- A provider, and a policy that knows it. -/
def exampleEndpoint : CanonicalProviderEndpoint :=
  ⟨"https://a.example".toList, "a.example".toList, 443, [], providerEndpointPolicyVersion⟩

def examplePolicy : ProviderEndpointPolicy :=
  ⟨false, fun url => if url = exampleEndpoint.url then some exampleEndpoint else none⟩

/-- The name is rebound to a private address while the pool is in use: the connection that was opened
before is used again, and none is opened. -/
def rebindingRun : List WireEvent :=
  let answers := some ["93.184.216.34".toList]
  let rebound := some ["93.184.216.34".toList, "10.0.0.1".toList]
  [.posted exampleEndpoint answers, .stepped (.poolRequested 0),
    .connected 0 "a.example".toList 443 answers, .posted exampleEndpoint answers,
    .stepped (.poolRequested 1), .connected 1 "a.example".toList 443 rebound, .reused 1 0,
    .posted exampleEndpoint rebound]

theorem pinned_connections_rebindingRun : ∃ w,
    runs (Wire.step examplePolicy 4) Wire.init rebindingRun = some w ∧
      w.connections.map Connection.address = ["93.184.216.34".toList] ∧
        w.uses = [(0, 0), (1, 0)] ∧ Pinned examplePolicy w ∧ RefusesForbidden examplePolicy 4 w := by
  have hrun : (runs (Wire.step examplePolicy 4) Wire.init rebindingRun).map
      (fun w => (w.connections.map Connection.address, w.uses)) =
        some (["93.184.216.34".toList], [(0, 0), (1, 0)]) := by
    decide +kernel
  obtain ⟨w, hw, hfacts⟩ := Option.map_eq_some_iff.mp hrun
  obtain ⟨haddresses, huses⟩ := Prod.mk.inj hfacts
  exact ⟨w, hw, haddresses, huses, pinned_connections ⟨rebindingRun, hw⟩⟩

end Wires

end VeloxRag.Transport
