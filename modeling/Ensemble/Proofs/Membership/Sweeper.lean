import Ensemble.Membership.Running
import Ensemble.Proofs.Membership.Responsive
import Ensemble.Proofs.Transport.Replies

/-!
# How long the silent stay

The sweeper of a running service is due again at most one period after it fired. Whoever was silent
for longer than the timeout by then is removed, so nobody stays who was silent for the timeout and
one period more. Without a period there is no sweeper: time goes by and everybody stays.

* `Registry.HeardSince` — how old the heartbeats are at most.
* `RunningService.Settled` — between two events the sweeper waits, and the heartbeats are recent.
* `RunningService.settled_meetAll` — so it is in every run.
* `RunningService.advance_of_sweeper_eq_none` — without a sweeper only the clock moves.
-/

namespace Ensemble

/-! ## The age of heartbeats -/

/-- No heartbeat is earlier than `t`. -/
def Registry.HeardSince (r : Registry) (t : Nat) : Prop := ∀ x ∈ r.entries, t ≤ x.heartbeat

namespace ServiceSession

/-- What every run keeps, and no heartbeat is earlier than `t`. -/
structure Recent (config : ServiceConfig) (t : Nat) (s : ServiceSession) : Prop where
  wellFormed : s.service.registry.WellFormed
  past : s.service.registry.Past s.now
  config_eq : s.service.config = config
  heardSince : s.service.registry.HeardSince t
  le_now : t ≤ s.now

variable {config : ServiceConfig} {s : ServiceSession} {t t' : Nat}

/-- At first there is no entry that could be too old. -/
theorem recent_start (config : ServiceConfig) : (start config).Recent config 0 where
  wellFormed := Registry.wellFormed_empty config.maxPeers
  past := fun _ hx => absurd hx List.not_mem_nil
  config_eq := rfl
  heardSince := fun _ hx => absurd hx List.not_mem_nil
  le_now := Nat.zero_le _

namespace Recent

/-- What is recent at one time was so at any time before. -/
theorem mono (h : s.Recent config t) (hle : t' ≤ t) : s.Recent config t' where
  wellFormed := h.wellFormed
  past := h.past
  config_eq := h.config_eq
  heardSince := fun x hx => Nat.le_trans hle (h.heardSince x hx)
  le_now := Nat.le_trans hle h.le_now

/-- No step makes a heartbeat older. -/
theorem step (h : s.Recent config t) (a : ServiceStep) : (s.step a).1.Recent config t where
  wellFormed := wellFormed_step h.wellFormed a
  past := past_step h.wellFormed h.past a
  config_eq := (s.config_step a).trans h.config_eq
  heardSince := fun y hy => by
    obtain ⟨x, hx, hlasts⟩ | ⟨-, hnow⟩ := mem_entries_step h.wellFormed h.past hy
    · exact Nat.le_trans (h.heardSince x hx) hlasts.heartbeat_le
    · rw [hnow]
      exact h.le_now
  le_now := Nat.le_trans h.le_now (s.now_le_step a)

/-- No step makes an entry older than it is. -/
theorem run (h : s.Recent config t) (steps : List ServiceStep) : (s.run steps).Recent config t := by
  induction steps generalizing s with
  | nil => exact h
  | cons a rest ih => exact ih (h.step a)

/-- A sign of life keeps the entries recent. -/
theorem hear (h : s.Recent config t) (e : Endpoint) : (s.hear e).Recent config t where
  wellFormed := h.wellFormed.heartbeat s.now e
  past := past_hear h.past e
  config_eq := h.config_eq
  heardSince := fun y hy => by
    obtain ⟨x, hx, rfl⟩ := Registry.mem_entries_refresh.mp hy
    split
    · exact h.le_now
    · exact h.heardSince x hx
  le_now := h.le_now

/-- A sweep leaves those that were heard within the timeout. -/
theorem sweep (h : s.Recent config t) :
    (s.step .sweep).1.Recent config (s.now - config.heartbeatTimeout) where
  wellFormed := wellFormed_step h.wellFormed .sweep
  past := past_step h.wellFormed h.past .sweep
  config_eq := (s.config_step .sweep).trans h.config_eq
  heardSince := fun y hy => by
    change y ∈ (s.step .sweep).1.entries at hy
    rw [entries_sweep, h.config_eq] at hy
    have hkept := (List.mem_filter.mp hy).2
    simp only [Registry.expired, Bool.not_eq_true', decide_eq_false_iff_not] at hkept
    omega
  le_now := Nat.sub_le ..

end Recent

end ServiceSession

/-- An interval fires unless it is due later. -/
theorem Interval.fire?_eq_none_iff {i : Interval} {now : Nat} :
    i.fire? now = none ↔ now < i.due := by
  rw [fire?]
  split
  · rename_i hlater
    exact iff_of_true rfl hlater
  · rename_i hdue
    refine iff_of_false ?_ hdue
    split <;> exact Option.some_ne_none _

/-! ## Runs -/

/-- What a session hands over is received block by block. -/
theorem Service.after_sessionHandler (moment : Moment) (client : Endpoint)
    (state : Service × List Parcel) (blocks : List Bytes) :
    ServiceSession.mk ((sessionHandler moment client).appending.after state blocks).1 moment.now =
      ServiceSession.run ⟨state.1, moment.now⟩
        (blocks.map fun block => .receive client block moment.running moment.draw) := by
  induction blocks generalizing state with
  | nil => rfl
  | cons block rest ih => exact ih _

/-- Something that happens to a running service. -/
inductive RunningEvent where
  /-- A client connects, sends bytes, and reads the replies. -/
  | exchange (draw : Nat → PeerId) (client : Endpoint) (bytes : Bytes)
  /-- A knocker hears from an endpoint. -/
  | hear (e : Endpoint)
  /-- Time goes by in pieces. -/
  | pass (granule ms : Nat)

namespace RunningService

/-- The service at its instant. -/
def session (r : RunningService) : ServiceSession := ⟨r.service, r.now⟩

/-- Let one thing happen. -/
def meet (r : RunningService) : RunningEvent → RunningService
  | .exchange draw client bytes => (r.exchange draw client bytes).1
  | .hear e => { r with service := (r.session.hear e).service }
  | .pass granule ms => (r.advance granule ms).1

/-- Let things happen one after the other. -/
def meetAll (r : RunningService) (events : List RunningEvent) : RunningService :=
  events.foldl meet r

/-- An exchange is a run of receptions, and nothing else happens. -/
theorem exists_exchange_eq_run {r : RunningService} (hrunning : r.running = true)
    (draw : Nat → PeerId) (client : Endpoint) (bytes : Bytes) :
    ∃ steps service, (r.exchange draw client bytes).1 = { r with service } ∧
      ServiceSession.mk service r.now = r.session.run steps := by
  obtain ⟨_, hserve⟩ := serve_blocks
    (Service.sessionHandler ⟨r.now, true, draw⟩ client).appending (r.service, []) Buffers.empty
    (blocks bytes) [.closed] trivial
  refine ⟨_, _, ?_, Service.after_sessionHandler ⟨r.now, true, draw⟩ client (r.service, [])
    (blocks bytes)⟩
  rw [exchange, if_pos hrunning]
  simp only [converse, hserve]

/-! ## With a sweeper -/

/-- The sweeper fired at most one period before it is due, and whoever was silent by
then has gone. -/
structure Sweeping (config : ServiceConfig) (i : Interval) (r : RunningService) : Prop where
  running : r.running = true
  sweeper_eq : r.sweeper = some i
  period_eq : i.period = config.sweepInterval
  due_le : i.due ≤ r.now + config.sweepInterval
  recent : r.session.Recent config (i.due - config.sweepInterval - config.heartbeatTimeout)

/-- Between two events the sweeper waits. -/
def Settled (config : ServiceConfig) (r : RunningService) : Prop :=
  ∃ i, r.Sweeping config i ∧ r.now < i.due

variable {config : ServiceConfig} {r : RunningService} {i : Interval}

/-- A sweeper that is started first sweeps when its interval is over. -/
theorem settled_start (hperiod : 0 < config.sweepInterval) : (start config).Settled config := by
  refine ⟨⟨config.sweepInterval, 0 + config.sweepInterval⟩,
    ⟨rfl, if_neg (Nat.ne_of_gt hperiod), rfl, Nat.le_refl _, ?_⟩, ?_⟩
  · exact (ServiceSession.recent_start config).mono (by dsimp only; omega)
  · show 0 < 0 + config.sweepInterval
    omega

/-- Whatever else happens while no time goes by, the sweeper stays. -/
theorem Sweeping.withService (h : r.Sweeping config i) {service : Service}
    (hrecent : ServiceSession.Recent config
      (i.due - config.sweepInterval - config.heartbeatTimeout) ⟨service, r.now⟩) :
    ({ r with service } : RunningService).Sweeping config i where
  running := h.running
  sweeper_eq := h.sweeper_eq
  period_eq := h.period_eq
  due_le := h.due_le
  recent := hrecent

/-- A sweep in its time. -/
theorem Sweeping.fire (h : r.Sweeping config i) {j : Interval} (hfire : i.fire? r.now = some j) :
    ({ r with service := (r.service.sweep r.now).1, sweeper := some j } :
      RunningService).Sweeping config j := by
  obtain ⟨hperiod, hdue⟩ := Interval.due_le_of_fire? hfire
  rw [h.period_eq] at hperiod hdue
  exact ⟨h.running, rfl, hperiod, hdue, h.recent.sweep.mono (by
    show _ ≤ r.now - _
    omega)⟩

/-- The sweeper fires until it waits. -/
theorem Sweeping.settled_sweepWithin (h : r.Sweeping config i) (hperiod : 0 < config.sweepInterval)
    {fuel : Nat} (hfuel : r.now < i.due + fuel) : (sweepWithin fuel r).1.Settled config := by
  induction fuel generalizing r i with
  | zero => exact ⟨i, h, hfuel⟩
  | succ fuel ih =>
    rw [sweepWithin, h.sweeper_eq, Option.bind_some]
    cases hfire : i.fire? r.now with
    | none => exact ⟨i, h, Interval.fire?_eq_none_iff.mp hfire⟩
    | some j =>
      have hlater : i.due < j.due := Interval.lt_due_fire? (h.period_eq ▸ hperiod) hfire
      exact ih (h.fire hfire) (by dsimp only; omega)

/-- Within one piece of time the sweeper is never late for longer than the piece. -/
theorem Settled.advancePiece (h : r.Settled config) (hperiod : 0 < config.sweepInterval)
    (ms : Nat) : (r.advancePiece ms).1.Settled config := by
  obtain ⟨i, hsweeping, hwaits⟩ := h
  have hlater : ({ r with now := r.now + ms } : RunningService).Sweeping config i :=
    ⟨hsweeping.running, hsweeping.sweeper_eq, hsweeping.period_eq,
      Nat.le_trans hsweeping.due_le (by dsimp only; omega), hsweeping.recent.step (.advance ms)⟩
  rw [RunningService.advancePiece, if_pos hlater.running]
  refine hlater.settled_sweepWithin hperiod ?_
  simp only [sweepBound, hsweeping.sweeper_eq]
  omega

/-- The sweeper keeps its times, whatever the pieces that time passes in. -/
theorem Settled.advance (h : r.Settled config) (hperiod : 0 < config.sweepInterval)
    (granule ms : Nat) : (r.advance granule ms).1.Settled config := by
  rw [RunningService.advance]
  generalize ([] : List Parcel) = sent
  induction pieces granule ms generalizing r sent with
  | nil => exact h
  | cons piece rest ih => exact ih (h.advancePiece hperiod piece) _

/-- Every event leaves the sweeper in time. -/
theorem Settled.meet (h : r.Settled config) (hperiod : 0 < config.sweepInterval)
    (v : RunningEvent) : (r.meet v).Settled config := by
  cases v with
  | exchange draw client bytes =>
    obtain ⟨i, hsweeping, hwaits⟩ := h
    obtain ⟨steps, service, heq, hrun⟩ :=
      exists_exchange_eq_run hsweeping.running draw client bytes
    show (r.exchange draw client bytes).1.Settled config
    rw [heq]
    exact ⟨i, hsweeping.withService (hrun ▸ hsweeping.recent.run steps), hwaits⟩
  | hear e =>
    obtain ⟨i, hsweeping, hwaits⟩ := h
    exact ⟨i, hsweeping.withService (hsweeping.recent.hear e), hwaits⟩
  | pass granule ms => exact h.advance hperiod granule ms

/-- After any events the sweeper is in time. -/
theorem settled_meetAll (h : r.Settled config) (hperiod : 0 < config.sweepInterval)
    (events : List RunningEvent) : (r.meetAll events).Settled config := by
  induction events generalizing r with
  | nil => exact h
  | cons v rest ih => exact ih (h.meet hperiod v)

/-- Nobody has been silent for the timeout and one period more. -/
theorem Settled.lt_heartbeat_add (h : r.Settled config) {x : RegistryEntry}
    (hx : x ∈ r.service.registry.entries) :
    r.now < x.heartbeat + config.heartbeatTimeout + config.sweepInterval := by
  obtain ⟨i, hsweeping, hwaits⟩ := h
  have hheard := hsweeping.recent.heardSince x hx
  omega

/-! ## Without a sweeper -/

/-- Without a sweeper time just passes. -/
theorem advancePiece_of_sweeper_eq_none (h : r.sweeper = none) (ms : Nat) :
    r.advancePiece ms = ({ r with now := r.now + ms }, []) := by
  rw [advancePiece]
  split
  · simp only [sweepBound, h, sweepWithin]
  · rfl

/-- Without a sweeper only the clock moves. -/
theorem advance_of_sweeper_eq_none (h : r.sweeper = none) (granule ms : Nat) :
    r.advance granule ms = ({ r with now := r.now + ms }, []) := by
  have hsum := foldr_pieces granule ms
  rw [advance]
  generalize pieces granule ms = ps at hsum
  subst hsum
  induction ps generalizing r with
  | nil => rfl
  | cons piece rest ih =>
    simp only [List.foldl_cons, advancePiece_of_sweeper_eq_none h piece, List.append_nil]
    refine (ih (r := { r with now := r.now + piece }) h).trans ?_
    rw [List.foldr_cons, ← Nat.add_assoc]

/-- What happens to a service never begins its sweeper. -/
theorem sweeper_meet_eq_none (h : r.sweeper = none) (v : RunningEvent) :
    (r.meet v).sweeper = none := by
  cases v with
  | exchange draw client bytes =>
    show (r.exchange draw client bytes).1.sweeper = none
    rw [exchange]
    split <;> exact h
  | hear e => exact h
  | pass granule ms =>
    show (r.advance granule ms).1.sweeper = none
    rw [advance_of_sweeper_eq_none h]
    exact h

/-- No event starts a sweeper. -/
theorem sweeper_meetAll_eq_none (h : r.sweeper = none) (events : List RunningEvent) :
    (r.meetAll events).sweeper = none := by
  induction events generalizing r with
  | nil => exact h
  | cons v rest ih => exact ih (sweeper_meet_eq_none h v)

end RunningService

end Ensemble
