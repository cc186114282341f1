import Ensemble.Proofs.Membership.Senders

/-!
# A sweep removes those who are silent

The signs of life of an endpoint are the instants at which it was entered, or a heartbeat of it was
noted, or one of its address. The registry keeps no more of them than the heartbeat of the entry,
but that is always the last one: a sign of life from before the entry was made is older than the
entry. So what a sweep removes can be said by the run alone, without the heartbeats that the
registry holds.

* `RegistrySession.signs`, `ServiceSession.signs` — the signs of life of an endpoint in a run.
* `Registry.Dated` — each heartbeat is the last sign of life, after every run of either kind.
* `Registry.SweepsOut`, `Service.Purges` — what a sweep does that finds certain entries silent.
* `sweep_removes_silent` — a sweep removes those whose last sign of life is too long ago.
-/

namespace Ensemble

/-- The registration made an entry. -/
def Registration.isNew : Registration → Bool
  | .new _ => true
  | .known _ | .full => false

namespace Registry

variable {r r' : Registry} {earlier : Endpoint → List Nat}

/-! ## The last sign of life -/

/-- The heartbeat of each entry is the last of the signs of life of its endpoint. -/
def Dated (r : Registry) (signs : Endpoint → List Nat) : Prop :=
  ∀ x ∈ r.entries, (signs x.peer.endpoint).getLast? = some x.heartbeat

/-- Entries may go. -/
theorem Dated.of_subset (h : r.Dated earlier) (hentries : r'.entries ⊆ r.entries) :
    r'.Dated earlier := fun y hy => h y (hentries hy)

/-- A sign of life is noted at all entries of the endpoints that give it. -/
theorem Dated.refresh (h : r.Dated earlier) (now : Nat) (p : Endpoint → Bool) :
    (r.refresh now (p ·.peer.endpoint)).Dated fun e =>
      earlier e ++ if p e then [now] else [] := by
  intro y hy
  obtain ⟨x, hx, rfl⟩ := mem_entries_refresh.mp hy
  cases hp : p x.peer.endpoint with
  | true => simp [hp]
  | false => simpa [hp] using h x hx

/-- It is a sign of life to be entered, for an endpoint that has no entry. -/
theorem Dated.register (h : r.Dated earlier) (now : Nat) (draw : Nat → PeerId) (e : Endpoint) :
    (r.register now draw e).1.Dated fun e' =>
      earlier e' ++ if e' == e && (r.register now draw e).2.1.isNew then [now] else [] := by
  obtain ⟨entry, -, heq⟩ | ⟨-, -, heq⟩ | ⟨hnone, -, heq⟩ := r.register_cases now draw e
  · simpa [heq, Registration.isNew] using h
  · simpa [heq, Registration.isNew] using h
  · rw [heq]
    intro y hy
    rcases List.mem_append.mp hy with hold | hnew
    · have hother : y.peer.endpoint ≠ e :=
        find?_eq_none_iff.mp hnone y.peer (List.mem_map_of_mem hold)
      simpa [hother] using h y hold
    · obtain rfl := List.mem_singleton.mp hnew
      simp [Registration.isNew, newEntry]

theorem entries_remove_subset (r : Registry) (e : Endpoint) :
    (r.remove e).1.entries ⊆ r.entries := by
  rw [remove]
  split
  · exact List.Subset.refl _
  · exact List.eraseP_subset

theorem entries_sweep_subset (r : Registry) (now timeout : Nat) :
    (r.sweep now timeout).1.entries ⊆ r.entries := List.filter_subset_self _

end Registry

namespace RegistrySession

variable {s : RegistrySession} {earlier : Endpoint → List Nat}

/-- The step is a sign of life of an endpoint. -/
def hears (s : RegistrySession) (e : Endpoint) : RegistryStep → Bool
  | .register e' draw => e == e' && (s.registry.register s.now draw e').2.1.isNew
  | .heartbeat e' => e == e'
  | .heartbeatFrom a => e.address == a
  | _ => false

/-- The signs of life of an endpoint that a step gives. -/
def heard (s : RegistrySession) (e : Endpoint) (a : RegistryStep) : List Nat :=
  if s.hears e a then [s.now] else []

/-- The signs of life of an endpoint in a run, the last one at the end. -/
def signs (e : Endpoint) : RegistrySession → List RegistryStep → List Nat
  | _, [] => []
  | s, a :: rest => s.heard e a ++ signs e (s.step a).1 rest

/-- Every step notes the signs of life that it gives. -/
theorem dated_step (h : s.registry.Dated earlier) (a : RegistryStep) :
    (s.step a).1.registry.Dated fun e => earlier e ++ s.heard e a := by
  -- The entries that a step without a sign of life leaves were there before.
  have hquiet (hhears : ∀ e, s.hears e a = false)
      (hentries : (s.step a).1.registry.entries ⊆ s.registry.entries) :
      (s.step a).1.registry.Dated fun e => earlier e ++ s.heard e a := by
    simpa [heard, hhears] using h.of_subset hentries
  cases a with
  | register e draw => exact h.register s.now draw e
  | heartbeat e => exact h.refresh s.now (· == e)
  | heartbeatFrom a => exact h.refresh s.now (·.address == a)
  | remove e => exact hquiet (fun _ => rfl) (s.registry.entries_remove_subset e)
  | sweep time timeout =>
    exact hquiet (fun _ => rfl) (s.registry.entries_sweep_subset time timeout)
  | cancelRoot | ensure | start | stopAll | advance =>
    exact hquiet (fun _ => rfl) (List.Subset.refl _)

/-- In every run the heartbeats are the last signs of life, of this run and from before. -/
theorem dated_run (h : s.registry.Dated earlier) (steps : List RegistryStep) :
    (s.run steps).registry.Dated fun e => earlier e ++ s.signs e steps := by
  induction steps generalizing s earlier with
  | nil =>
    simp only [signs, List.append_nil]
    exact h
  | cons a rest ih =>
    simp only [signs, ← List.append_assoc]
    exact ih (dated_step h a)

end RegistrySession

/-! ## The signs of life of a run of the service -/

namespace ServiceSession

variable {s : ServiceSession} {earlier : Endpoint → List Nat}

/-- The registry and the knockers of the service, at its instant. -/
def inner (s : ServiceSession) : RegistrySession :=
  ⟨s.service.registry, s.service.knockers, s.now⟩

/-- What an event does to the entries, if it does anything. -/
def operation? (s : ServiceSession) : ServiceEvent → Option RegistryStep
  | .hear e => some (.heartbeat e)
  | .serve (.receive sender bytes _ draw) =>
    match Message.decode bytes with
    | .ok (.connect port) => some (.register ⟨sender.address, port⟩ draw)
    | .ok (.disconnect port) => some (.remove ⟨sender.address, port⟩)
    | .ok (.sendStatus _) => some (.heartbeatFrom sender.address)
    | _ => none
  | .serve (.enter e draw) => some (.register e draw)
  | .serve .sweep => some (.sweep s.now s.service.config.heartbeatTimeout)
  | .serve (.advance _) | .serve (.reap _) | .serve .close => none

/-- The signs of life of an endpoint that an event gives. -/
def heard (s : ServiceSession) (e : Endpoint) (v : ServiceEvent) : List Nat :=
  match s.operation? v with
  | some a => s.inner.heard e a
  | none => []

/-- The signs of life of an endpoint in a run of events, the last one at the end. -/
def signs (e : Endpoint) : ServiceSession → List ServiceEvent → List Nat
  | _, [] => []
  | s, v :: rest => s.heard e v ++ signs e (s.meet v) rest

/-- An event does to the entries what its operation does. -/
theorem entries_meet (s : ServiceSession) (v : ServiceEvent) :
    (s.meet v).entries =
      match s.operation? v with
      | some a => (s.inner.step a).1.registry.entries
      | none => s.entries := by
  cases v with
  | hear e => rfl
  | serve b =>
    cases b with
    | receive sender bytes running draw =>
      have hregistry := s.registry_step_receive sender bytes running draw
      show (s.step (.receive sender bytes running draw)).1.service.registry.entries = _
      rw [hregistry, operation?]
      rcases Message.decode bytes with _ | m
      · rfl
      · cases m <;> rfl
    | sweep => exact s.entries_sweep
    | enter | advance | reap | close => rfl

theorem config_meetAll (s : ServiceSession) (events : List ServiceEvent) :
    (s.meetAll events).service.config = s.service.config := by
  induction events generalizing s with
  | nil => rfl
  | cons v rest ih => exact (ih (s.meet v)).trans (s.config_meet v)

/-- An event of the service dates the entries as its operation on the registry does, and leaves them
alone if it has none. -/
theorem dated_meet (h : s.service.registry.Dated earlier) (v : ServiceEvent) :
    (s.meet v).service.registry.Dated fun e => earlier e ++ s.heard e v := by
  have hentries := s.entries_meet v
  simp only [heard]
  -- Most events are an operation on the registry, and the others do not touch it.
  cases hop : s.operation? v with
  | none =>
    have hsame : (s.meet v).service.registry.entries = s.service.registry.entries := by
      rwa [hop] at hentries
    simp only [List.append_nil]
    exact h.of_subset (hsame ▸ List.Subset.refl _)
  | some a =>
    have hsame : (s.meet v).service.registry.entries = (s.inner.step a).1.registry.entries := by
      rwa [hop] at hentries
    have hstep : (s.inner.step a).1.registry.Dated fun e => earlier e ++ s.inner.heard e a :=
      RegistrySession.dated_step h a
    exact hstep.of_subset (hsame ▸ List.Subset.refl _)

/-- After any events the heartbeats are the last signs of life. -/
theorem dated_meetAll (h : s.service.registry.Dated earlier) (events : List ServiceEvent) :
    (s.meetAll events).service.registry.Dated fun e => earlier e ++ s.signs e events := by
  induction events generalizing s earlier with
  | nil =>
    simp only [signs, List.append_nil]
    exact h
  | cons v rest ih =>
    simp only [signs, ← List.append_assoc]
    exact ih (dated_meet h v)

end ServiceSession

/-! ## Every entry has a token of its own -/

/-- More tokens may be issued, and any may be cancelled. -/
theorem Registry.Ticketed.withTokens {r : Registry} (h : r.Ticketed) {tokens : TokenPool}
    (hissued : r.tokens.issued ≤ tokens.issued) : ({ r with tokens } : Registry).Ticketed where
  serials_nodup := h.serials_nodup
  issued := fun n hn => Nat.lt_of_lt_of_le (h.issued n hn) hissued

namespace RegistrySession

/-- What every run keeps. -/
structure Tidy (s : RegistrySession) : Prop where
  wellFormed : s.registry.WellFormed
  ticketed : s.registry.Ticketed

/-- A registry is tidy before anything has happened. -/
theorem tidy_start (limit : Nat) : (start limit).Tidy where
  wellFormed := Registry.wellFormed_empty limit
  ticketed := ⟨List.nodup_nil, fun _ hn => absurd hn List.not_mem_nil⟩

variable {s : RegistrySession}

/-- Every operation keeps the registry tidy. -/
theorem Tidy.step (h : s.Tidy) (a : RegistryStep) : (s.step a).1.Tidy := by
  refine ⟨wellFormed_step h.wellFormed a, ?_⟩
  cases a with
  | register e draw => exact h.ticketed.register s.now draw e
  | remove e =>
    have hdrops := h.wellFormed.drops_remove e
    exact h.ticketed.of_sublist hdrops.notes_sublist hdrops.issued_eq
  -- A refresh changes no token.
  | heartbeat e | heartbeatFrom a =>
    exact h.ticketed.of_sublist ((Registry.notes_refresh _ _ _).symm ▸ .refl _) rfl
  | sweep time timeout =>
    have hdrops := s.registry.drops_sweep time timeout
    exact h.ticketed.of_sublist hdrops.notes_sublist hdrops.issued_eq
  | cancelRoot => exact h.ticketed.withTokens (Nat.le_refl _)
  | ensure running e => exact h.ticketed
  | start running e token =>
    cases token with
    -- A token that was handed in is not a new one.
    | some t => exact h.ticketed
    | none => exact h.ticketed.withTokens (Nat.le_succ _)
  | stopAll => exact h.ticketed.withTokens (Nat.le_of_eq (TokenPool.issued_cancelAll _ _).symm)
  | advance ms => exact h.ticketed

/-- The registry is tidy in every run. -/
theorem Tidy.run (h : s.Tidy) (steps : List RegistryStep) : (s.run steps).Tidy := by
  induction steps generalizing s with
  | nil => exact h
  | cons a rest ih => exact ih (h.step a)

end RegistrySession

/-! ## What a sweep does -/

/-- The last sign of life of the entry's endpoint was more than `timeout` before `time`. -/
def RegistryEntry.silent (signs : Endpoint → List Nat) (time timeout : Nat)
    (x : RegistryEntry) : Bool :=
  (signs x.peer.endpoint).getLast?.any fun sign => decide (sign + timeout < time)

namespace Registry

variable {r : Registry} {signs : Endpoint → List Nat} {time timeout : Nat}
  {silent : RegistryEntry → Bool}

/-- A sweep that removes the silent entries and no others. -/
structure SweepsOut (r : Registry) (time timeout : Nat) (silent : RegistryEntry → Bool) :
    Prop where
  /-- The silent ones are removed, and told in the order of their registrations. -/
  removed_eq : (r.sweep time timeout).2 = (r.entries.filter silent).map (·.peer)
  /-- All others stay as they are, in their order. -/
  entries_eq : (r.sweep time timeout).1.entries = r.entries.filter fun x => !silent x
  cancelled : ∀ x ∈ r.entries, silent x = true →
    (r.sweep time timeout).1.tokens.isCancelled x.token = true
  untouched : ∀ x ∈ r.entries, silent x = false →
    (r.sweep time timeout).1.tokens.isCancelled x.token = r.tokens.isCancelled x.token
  /-- A second sweep at the same instant finds nobody. -/
  again_eq : (r.sweep time timeout).1.sweep time timeout = ((r.sweep time timeout).1, [])

/-- A sweep that finds nobody changes nothing. -/
theorem sweep_eq_self (h : ∀ x ∈ r.entries, expired time timeout x = false) :
    r.sweep time timeout = (r, []) := by
  have hgone : r.entries.filter (expired time timeout) = [] :=
    List.filter_eq_nil_iff.mpr fun x hx => by simp [h x hx]
  have hkept : r.entries.filter (fun x => !expired time timeout x) = r.entries :=
    List.filter_eq_self.mpr fun x hx => by simp [h x hx]
  rw [sweep, hgone, hkept]
  rfl

/-- A sweep takes out the entries that have expired. -/
theorem sweepsOut_expired (h : r.Ticketed) (time timeout : Nat) :
    r.SweepsOut time timeout (expired time timeout) := by
  have hdrops := r.drops_sweep time timeout
  refine ⟨rfl, rfl, fun x hx hexpired => ?_, fun x hx hexpired => ?_, sweep_eq_self ?_⟩
  · exact (hdrops.isCancelled_iff x.token).mpr (.inl ⟨x, hx, hexpired, rfl⟩)
  · refine Bool.eq_iff_iff.mpr ((hdrops.isCancelled_iff x.token).trans (or_iff_right ?_))
    rintro ⟨y, hy, hgone, hserial⟩
    rw [h.eq_of_serial_eq hx hy hserial, hgone] at hexpired
    cases hexpired
  · intro x hx
    simpa using (List.mem_filter.mp hx).2

/-- What a sweep does depends on which of the entries are silent. -/
theorem SweepsOut.congr (h : r.SweepsOut time timeout (expired time timeout))
    (hsilent : ∀ x ∈ r.entries, silent x = expired time timeout x) :
    r.SweepsOut time timeout silent where
  removed_eq := by rw [h.removed_eq, List.filter_congr fun x hx => (hsilent x hx).symm]
  entries_eq := by
    rw [h.entries_eq]
    exact List.filter_congr fun x hx => by rw [hsilent x hx]
  cancelled := fun x hx hx' => h.cancelled x hx (hsilent x hx ▸ hx')
  untouched := fun x hx hx' => h.untouched x hx (hsilent x hx ▸ hx')
  again_eq := h.again_eq

/-- An entry has expired exactly if its endpoint was silent for too long. -/
theorem Dated.silent_eq (h : r.Dated signs) {x : RegistryEntry} (hx : x ∈ r.entries) :
    x.silent signs time timeout = expired time timeout x := by
  rw [RegistryEntry.silent, h x hx, Option.any_some, expired]
  exact decide_eq_decide.mpr (by omega)

/-- A sweep removes those whose last sign of life is too long ago. -/
theorem Dated.sweepsOut (h : r.Dated signs) (hticketed : r.Ticketed) (time timeout : Nat) :
    r.SweepsOut time timeout (RegistryEntry.silent signs time timeout) :=
  (sweepsOut_expired hticketed time timeout).congr fun _ hx => h.silent_eq hx

end Registry

namespace Service

variable {s : Service} {now : Nat} {silent : RegistryEntry → Bool}

/-- A sweep of the service that finds certain entries silent. -/
structure Purges (s : Service) (now : Nat) (silent : RegistryEntry → Bool) : Prop where
  /-- It sweeps the registry, and does nothing else to the service. -/
  service_eq : (s.sweep now).1 =
    { s with registry := (s.registry.sweep now s.config.heartbeatTimeout).1 }
  count_eq : (s.sweep now).2.1 = s.registry.entries.countP silent
  sent_of_nobody : (s.sweep now).2.1 = 0 → (s.sweep now).2.2 = []
  /-- Each peer that is left is sent the table of those that are left, once. -/
  sent_of_somebody : 0 < (s.sweep now).2.1 → ∃ bytes,
    Message.decode bytes = .ok (.clientListUpdate (s.sweep now).1.registry.peers) ∧
    (s.sweep now).2.2 = (s.sweep now).1.registry.peers.map fun p => ⟨p.endpoint, bytes⟩
  left_nodup : ((s.sweep now).1.registry.peers.map Peer.endpoint).Nodup

/-- A sweep tells the peers that remain, if it took any. -/
theorem sweep_eq (s : Service) (now : Nat) : s.sweep now =
    ({ s with registry := (s.registry.sweep now s.config.heartbeatTimeout).1 },
      (s.registry.sweep now s.config.heartbeatTimeout).2.length,
      if (s.registry.sweep now s.config.heartbeatTimeout).2 = [] then []
      else broadcast (s.registry.sweep now s.config.heartbeatTimeout).1.peers) := by
  rcases hsweep : s.registry.sweep now s.config.heartbeatTimeout with ⟨registry, _ | ⟨p, gone⟩⟩
  · have hnobody := Registry.sweep_eq_nil_iff.mp (congrArg Prod.snd hsweep)
    have hsame : s.registry.sweep now s.config.heartbeatTimeout = (s.registry, []) :=
      Registry.sweep_eq_self fun x hx => decide_eq_false (Nat.not_lt.mpr (hnobody x hx))
    obtain rfl : registry = s.registry := congrArg Prod.fst (hsweep.symm.trans hsame)
    rw [sweep, hsweep]
    rfl
  · rw [sweep, hsweep]
    rfl

/-- A sweep of the service takes the silent ones out of the table, counts them, and sends the rest
to everybody who is left. -/
theorem purges (h : s.registry.WellFormed)
    (hsweeps : s.registry.SweepsOut now s.config.heartbeatTimeout silent) :
    s.Purges now silent := by
  have hleft : (s.sweep now).1.registry.WellFormed := wellFormed_sweep h now
  obtain ⟨bytes, -, hdecode, hbroadcast⟩ := hleft.exists_broadcast
  -- What is sent is the table of those who are left, which is short enough to be encoded.
  have hsweep := s.sweep_eq now
  exact {
    service_eq := by
      rw [hsweep]
    count_eq := by
      rw [hsweep]
      dsimp only
      rw [hsweeps.removed_eq, List.length_map, List.countP_eq_length_filter]
    sent_of_nobody := by
      intro hnobody
      rw [hsweep] at hnobody ⊢
      exact if_pos (List.eq_nil_of_length_eq_zero hnobody)
    sent_of_somebody := by
      intro hsomebody
      refine ⟨bytes, hdecode, ?_⟩
      rw [← hbroadcast]
      rw [hsweep] at hsomebody ⊢
      exact if_neg (List.ne_nil_of_length_pos hsomebody)
    left_nodup := hleft.nodup }

end Service

/-- In every run of the registry, the heartbeat of each entry is the last sign of life of its
endpoint, and a sweep at any time removes the entries whose last sign of life is longer ago than the
timeout, told in the order of their registrations. All others stay in their order, with their
heartbeats and their tokens; the tokens of those that are removed are cancelled; and a second sweep
at the same time finds nobody. In every run of the service, its sweeps do just that, say how many
were removed, and send one update to each peer that is left if there were any, and nothing
otherwise. -/
theorem sweep_removes_silent :
    (∀ (limit : Nat) (steps : List RegistryStep) (time timeout : Nat),
      let r := ((RegistrySession.start limit).run steps).registry
      let signs := fun e => (RegistrySession.start limit).signs e steps
      r.Dated signs ∧ r.SweepsOut time timeout (RegistryEntry.silent signs time timeout)) ∧
    ∀ (config : ServiceConfig) (events : List ServiceEvent),
      let s := (ServiceSession.start config).meetAll events
      let signs := fun e => (ServiceSession.start config).signs e events
      let silent := RegistryEntry.silent signs s.now config.heartbeatTimeout
      s.service.registry.Dated signs ∧
        s.service.registry.SweepsOut s.now config.heartbeatTimeout silent ∧
        s.service.Purges s.now silent := by
  refine ⟨fun limit steps time timeout => ?_, fun config events => ?_⟩
  · intro r signs
    have htidy := (RegistrySession.tidy_start limit).run steps
    have hempty : (RegistrySession.start limit).registry.Dated fun _ => [] := nofun
    have hdated : r.Dated signs := RegistrySession.dated_run hempty steps
    exact ⟨hdated, hdated.sweepsOut htidy.ticketed time timeout⟩
  · intro s signs silent
    have htidy : s.Tidy := (ServiceSession.tidy_start config).meetAll events
    have hempty : (ServiceSession.start config).service.registry.Dated fun _ => [] := nofun
    have hdated : s.service.registry.Dated signs := ServiceSession.dated_meetAll hempty events
    have hconfig : s.service.config = config := ServiceSession.config_meetAll _ events
    have hsweeps : s.service.registry.SweepsOut s.now config.heartbeatTimeout silent :=
      hdated.sweepsOut htidy.ticketed _ _
    refine ⟨hdated, hsweeps, Service.purges htidy.wellFormed ?_⟩
    rw [hconfig]
    exact hsweeps

/-- Two peers of one host and one of another are entered, a sign of life of the first host comes
after a second, and three seconds later a sweep takes the other peer only; it takes all a
millisecond later. -/
example :
    let host : IpAddress := .v4 ⟨10, 0, 0, 1⟩
    let other : Endpoint := ⟨.v4 ⟨10, 0, 0, 2⟩, 6000⟩
    let r := ((RegistrySession.start 8).run [.register ⟨host, 5000⟩ fun _ => ⟨1⟩,
      .register other fun _ => ⟨2⟩, .register ⟨host, 5001⟩ fun _ => ⟨3⟩, .advance 1000,
      .heartbeatFrom host]).registry
    (r.sweep 4000 3000).2.map (·.id) = [⟨2⟩] ∧
      (r.sweep 4001 3000).2.map (·.id) = [⟨1⟩, ⟨2⟩, ⟨3⟩] := by
  decide

end Ensemble
