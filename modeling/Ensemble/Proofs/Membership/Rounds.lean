import Ensemble.Membership.Knocking
import Ensemble.Proofs.Membership.Entries
import Ensemble.Proofs.Membership.Supervision
import Ensemble.Proofs.Transport.Limit

/-!
# The service and its knockers in time

A `KnockLoop` is what the knocker task of one entry goes through: it waits until its interval is
due, knocks, and waits again once the exchange is over. `Rounds` is the service with all loops that
it ever started. Its steps come in any order, and a loop may be as late as it likes: what is asked
of the time is left to the statements about a run.

* `Remote.givesStatus_iff` — which knocks end with a status.
* `Rounds.lasts_step`, `Rounds.lasts_run` — an entry stays for as long as it may be silent.
* `Rounds.supervises_step`, `Rounds.supervises_run` — every entry has the loop of its own token.
* `Rounds.loops_run_eq_nil` — with a period of zero there is no loop.
-/

namespace Ensemble

/-! ## Loops -/

/-- The loop of one knocker task. -/
structure KnockLoop where
  endpoint : Endpoint
  token : Token
  interval : Interval
  /-- Whether a knock is under way. -/
  asking : Bool
  /-- When the knock began, or the wait for the next one. -/
  since : Nat
  deriving DecidableEq, Repr

namespace KnockLoop

/-- The loop of a task that starts at `now`; a period of zero is refused. -/
def start? (period now : Nat) (task : Endpoint × Token) : Option KnockLoop :=
  (Interval.start? period now).map fun interval => ⟨task.1, task.2, interval, false, now⟩

/-- Knock if the loop waits and its interval is due. -/
def knock? (l : KnockLoop) (now : Nat) : Option KnockLoop :=
  if l.asking then none
  else (l.interval.fire? now).map fun interval => { l with interval, asking := true, since := now }

/-- The knock is over. -/
def rest (l : KnockLoop) (now : Nat) : KnockLoop := { l with asking := false, since := now }

/-- The task of a loop. -/
def task (l : KnockLoop) : Endpoint × Token := (l.endpoint, l.token)

/-- Whoever knocks was not asking, its interval has come up, and it asks from now on. -/
theorem knock?_cases {l l' : KnockLoop} {now : Nat} (h : l.knock? now = some l') :
    l.asking = false ∧ ∃ interval, l.interval.fire? now = some interval ∧
      l' = { l with interval, asking := true, since := now } := by
  unfold knock? at h
  split at h
  · cases h
  · rename_i hwaits
    obtain ⟨interval, hfire, rfl⟩ := Option.map_eq_some_iff.mp h
    exact ⟨Bool.eq_false_iff.mpr hwaits, interval, hfire, rfl⟩

end KnockLoop

/-! ## Knocks -/

/-- Whether a knock at a peer that behaves as `remote` ends with its status. -/
def Remote.givesStatus (limit : Nat) (remote : Remote) : Bool :=
  match Message.queryStatus.encode with
  | .ok request => (Exchange.run (Knocking.knockHandler request) limit false remote).state
  | .error _ => false

/-- A complete reply is taken for a status if it is one, and for nothing else. -/
theorem Exchange.state_finish_knockHandler (request sent reply : Bytes) (elapsed : Nat) :
    (finish (Knocking.knockHandler request) false sent reply elapsed).state = true ↔
      ∃ status, Message.decode reply = .ok (.sendStatus status) := by
  rw [finish]
  split
  · rename_i hnil
    refine iff_of_false Bool.false_ne_true ?_
    rintro ⟨status, hdecode⟩
    rw [Message.take_of_decode hdecode] at hnil
    exact Message.ne_nil_of_decode hdecode hnil
  · rename_i hne
    -- No answer that counts is so long that it is cut off.
    have hread : ∀ m, Message.decode (reply.take maxMessageSize) = .ok m ↔
        Message.decode reply = .ok m := fun m => Message.decode_take_iff
    simp only [Knocking.knockHandler, List.isEmpty_iff, if_neg hne, ← hread]
    split
    · rename_i status hdecode
      exact iff_of_true rfl ⟨status, hdecode⟩
    · rename_i hother
      refine iff_of_false Bool.false_ne_true ?_
      rintro ⟨status, hdecode⟩
      exact hother status hdecode

/-- A knock ends with a status exactly if the other side's whole reply is one. -/
theorem Remote.givesStatus_iff {limit : Nat} {remote : Remote} :
    remote.givesStatus limit = true ↔
      ∃ reply status, remote.reply? = some reply ∧
        Message.decode reply = .ok (.sendStatus status) := by
  obtain ⟨request, hrequest, -⟩ := Message.exists_encode (m := .queryStatus) trivial
  rw [givesStatus, hrequest]
  show (Exchange.run (Knocking.knockHandler request) limit false remote).state = true ↔ _
  cases hreply : remote.reply? with
  | some reply =>
    simp only [Option.some.injEq, exists_and_left, exists_eq_left']
    rw [Exchange.run_of_reply? hreply]
    exact Exchange.state_finish_knockHandler request _ reply 0
  -- No whole answer: nothing came of it, or what was read of it is too long to be a message.
  | none =>
    refine iff_of_false (fun h => ?_) nofun
    rcases Exchange.run_of_no_reply hreply with
      ⟨-, hstate⟩ | ⟨-, hstate⟩ | ⟨_, reply, _, hfull, heq⟩
    · rw [hstate] at h
      cases h
    · rw [hstate] at h
      cases h
    · rw [heq] at h
      obtain ⟨status, hdecode⟩ := (Exchange.state_finish_knockHandler request _ reply _).mp h
      exact Message.not_decode_of_full hfull hdecode

/-! ## Runs -/

/-- The service, and the loops of all knocker tasks that it ever started. -/
structure Rounds where
  session : ServiceSession
  loops : List KnockLoop

/-- Something that happens to the service or to one of its knockers. -/
inductive RoundsStep where
  | serve (a : ServiceStep)
  /-- The loop at a place knocks, if it is time. -/
  | knock (place : Nat)
  /-- The knock of the loop at a place is over; the peer behaved as `remote`. -/
  | finish (place : Nat) (remote : Remote)

/-- Who leaves with the step. -/
def RoundsStep.leaver? : RoundsStep → Option Endpoint
  | .serve a => a.leaver?
  | .knock _ | .finish _ _ => none

/-- A step before the end of the service, in which every message finds a scheduler. -/
def RoundsStep.Attended : RoundsStep → Prop
  | .serve a => a.Attended
  | .knock _ | .finish _ _ => True

/-- Note a sign of life of an endpoint. -/
def ServiceSession.hear (s : ServiceSession) (e : Endpoint) : ServiceSession :=
  { s with service := { s.service with registry := (s.service.registry.heartbeat s.now e).1 } }

/-- A sign of life is noted at its time. -/
theorem ServiceSession.past_hear {s : ServiceSession} (h : s.service.registry.Past s.now)
    (e : Endpoint) : (s.hear e).service.registry.Past s.now := by
  intro y hy
  obtain ⟨x, hx, rfl⟩ := Registry.mem_entries_refresh.mp hy
  split
  · exact Nat.le_refl _
  · exact h x hx

namespace Rounds

/-- The service before any registration, at time zero. -/
def start (config : ServiceConfig) : Rounds := ⟨ServiceSession.start config, []⟩

/-- The time. -/
def now (r : Rounds) : Nat := r.session.now

/-- How the service is set up. -/
def config (r : Rounds) : ServiceConfig := r.session.service.config

/-- The entry of an endpoint. -/
def find? (r : Rounds) (e : Endpoint) : Option RegistryEntry :=
  r.session.service.registry.find? e

/-- A step of the service, which may start loops. -/
def serve (r : Rounds) (a : ServiceStep) : Rounds where
  session := (r.session.step a).1
  loops := r.loops ++
    (r.session.launched a).filterMap (KnockLoop.start? r.config.knockInterval r.now)

/-- The loop at a place knocks, if it is time. A cancelled task may still come this far. -/
def knock (r : Rounds) (place : Nat) : Rounds :=
  match r.loops[place]?.bind (·.knock? r.now) with
  | some l => { r with loops := r.loops.set place l }
  | none => r

/-- The knock of a loop is over: a status is a sign of life. -/
def finish (r : Rounds) (place : Nat) (remote : Remote) : Rounds :=
  match r.loops[place]?.filter (·.asking) with
  | some l =>
    { session := if remote.givesStatus r.config.timeLimit then r.session.hear l.endpoint
        else r.session
      loops := r.loops.set place (l.rest r.now) }
  | none => r

/-- Let one thing happen. -/
def step (r : Rounds) : RoundsStep → Rounds
  | .serve a => r.serve a
  | .knock place => r.knock place
  | .finish place remote => r.finish place remote

/-- Let things happen one after the other. -/
def run (r : Rounds) (steps : List RoundsStep) : Rounds := steps.foldl step r

theorem run_append (r : Rounds) (before after : List RoundsStep) :
    r.run (before ++ after) = (r.run before).run after := List.foldl_append

/-- A loop knocks, or nothing happens. -/
theorem knock_cases (r : Rounds) (place : Nat) :
    r.knock place = r ∨ ∃ l l', r.loops[place]? = some l ∧ l.knock? r.now = some l' ∧
      r.knock place = { r with loops := r.loops.set place l' } := by
  cases hknock : r.loops[place]?.bind (·.knock? r.now) with
  | none => exact .inl (by rw [knock, hknock])
  | some l' =>
    obtain ⟨l, hl, hl'⟩ := Option.bind_eq_some_iff.mp hknock
    exact .inr ⟨l, l', hl, hl', by rw [knock, hknock]⟩

/-- A knock is over, with a status or without, or nothing happens. -/
theorem finish_cases (r : Rounds) (place : Nat) (remote : Remote) :
    r.finish place remote = r ∨ ∃ l, r.loops[place]? = some l ∧ l.asking = true ∧
      (r.finish place remote).loops = r.loops.set place (l.rest r.now) ∧
      (r.finish place remote).session =
        if remote.givesStatus r.config.timeLimit then r.session.hear l.endpoint
        else r.session := by
  cases hasking : r.loops[place]?.filter (·.asking) with
  | none => exact .inl (by rw [finish, hasking])
  | some l =>
    obtain ⟨hl, hask⟩ := Option.filter_eq_some_iff.mp hasking
    exact .inr ⟨l, hl, hask, by rw [finish, hasking], by rw [finish, hasking]⟩

/-- A step is one of the service, or a sign of life, or the service takes no notice of it. -/
theorem session_step_cases (r : Rounds) (a : RoundsStep) :
    (∃ b, a = .serve b ∧ (r.step a).session = (r.session.step b).1) ∨
      a.leaver? = none ∧
        ((r.step a).session = r.session ∨ ∃ e, (r.step a).session = r.session.hear e) := by
  cases a with
  | serve b => exact .inl ⟨b, rfl, rfl⟩
  | knock place =>
    refine .inr ⟨rfl, .inl ?_⟩
    show (r.knock place).session = r.session
    obtain heq | ⟨l, l', -, -, heq⟩ := r.knock_cases place <;> rw [heq]
  -- An answer is noted as a heartbeat, or nothing comes of it.
  | finish place remote =>
    refine .inr ⟨rfl, ?_⟩
    show (r.finish place remote).session = r.session ∨
      ∃ e, (r.finish place remote).session = r.session.hear e
    obtain heq | ⟨l, -, -, -, heq⟩ := r.finish_cases place remote
    · exact .inl (by rw [heq])
    · rw [heq]
      split
      · exact .inr ⟨l.endpoint, rfl⟩
      · exact .inl rfl

/-! ## What becomes of an entry -/

/-- What every run keeps. -/
structure Sound (r : Rounds) (config : ServiceConfig) : Prop where
  wellFormed : r.session.service.registry.WellFormed
  past : r.session.service.registry.Past r.now
  config_eq : r.config = config

/-- The registry is sound before anything has happened. -/
theorem sound_start (config : ServiceConfig) : (start config).Sound config where
  wellFormed := Registry.wellFormed_empty config.maxPeers
  past := fun _ hx => absurd hx List.not_mem_nil
  config_eq := rfl

variable {r : Rounds} {config : ServiceConfig}

/-- What becomes of an entry when a sign of life is noted. -/
theorem Sound.find?_hear (h : r.Sound config) {e e' : Endpoint} {y : RegistryEntry}
    (hy : (r.session.hear e').service.registry.find? e = some y) :
    ∃ x, r.find? e = some x ∧ x.Lasts y ∧ (e' = e → y.heartbeat = r.now) := by
  obtain ⟨hmem, he⟩ := Registry.mem_of_find? hy
  obtain ⟨x, hx, rfl⟩ := Registry.mem_entries_refresh.mp hmem
  have hlasts := RegistryEntry.Lasts.noted (h.past x hx) (·.peer.endpoint == e')
  have hex : x.peer.endpoint = e := hlasts.endpoint_eq.symm.trans he
  refine ⟨x, h.wellFormed.find?_eq_some_iff.mpr ⟨hx, hex⟩, hlasts, fun heq => ?_⟩
  rw [if_pos (by rw [hex, heq, beq_self_eq_true])]
  rfl

/-- Every step keeps the registry sound. -/
theorem Sound.step (h : r.Sound config) (a : RoundsStep) : (r.step a).Sound config := by
  obtain ⟨b, -, heq⟩ | ⟨-, heq | ⟨e, heq⟩⟩ := r.session_step_cases a
  · refine ⟨?_, ?_, ?_⟩
    · rw [heq]
      exact ServiceSession.wellFormed_step h.wellFormed b
    · rw [now, heq]
      exact ServiceSession.past_step h.wellFormed h.past b
    · rw [Rounds.config, heq, ServiceSession.config_step]
      exact h.config_eq
  · refine ⟨?_, ?_, ?_⟩
    · rw [heq]
      exact h.wellFormed
    · rw [now, heq]
      exact h.past
    · rw [Rounds.config, heq]
      exact h.config_eq
  · refine ⟨?_, ?_, ?_⟩
    · rw [heq]
      exact h.wellFormed.heartbeat _ e
    · rw [now, heq]
      exact ServiceSession.past_hear h.past e
    · rw [Rounds.config, heq]
      exact h.config_eq

/-- The registry is sound in every run. -/
theorem Sound.run (h : r.Sound config) (steps : List RoundsStep) :
    (r.run steps).Sound config := by
  induction steps generalizing r with
  | nil => exact h
  | cons a rest ih => exact ih (h.step a)

/-- No step turns the clock back. -/
theorem now_le_step (r : Rounds) (a : RoundsStep) : r.now ≤ (r.step a).now := by
  obtain ⟨b, -, heq⟩ | ⟨-, heq | ⟨e, heq⟩⟩ := r.session_step_cases a
  · rw [now, now, heq]
    exact r.session.now_le_step b
  · rw [now, now, heq]
  · rw [now, now, heq]
    exact Nat.le_refl _

/-- Time does not go back. -/
theorem now_le_run (r : Rounds) (steps : List RoundsStep) : r.now ≤ (r.run steps).now := by
  induction steps generalizing r with
  | nil => exact Nat.le_refl _
  | cons a rest ih => exact Nat.le_trans (r.now_le_step a) (ih (r.step a))

/-- An entry stays, unless its endpoint leaves or a sweep finds it silent for too long. -/
theorem lasts_step (h : r.Sound config) {x : RegistryEntry} (hx : x ∈ r.session.entries)
    (a : RoundsStep) :
    (∃ y ∈ (r.step a).session.entries, x.Lasts y) ∨ a.leaver? = some x.peer.endpoint ∨
      x.heartbeat + config.heartbeatTimeout < r.now := by
  obtain ⟨b, rfl, heq⟩ | ⟨-, heq | ⟨e, heq⟩⟩ := r.session_step_cases a
  · rw [heq]
    obtain hlasts | hleaver | ⟨-, hlt⟩ := ServiceSession.lasts_step h.wellFormed h.past hx b
    · exact .inl hlasts
    · exact .inr (.inl hleaver)
    · rw [← h.config_eq]
      exact .inr (.inr hlt)
  · exact .inl ⟨x, heq ▸ hx, .refl x⟩
  · refine .inl ⟨_, ?_, .noted (h.past x hx) (·.peer.endpoint == e)⟩
    rw [heq]
    exact Registry.mem_entries_refresh.mpr ⟨x, hx, rfl⟩

/-- Up to the end of the timeout an entry stays, unless its endpoint leaves. -/
theorem lasts_run (h : r.Sound config) {x : RegistryEntry} (hx : x ∈ r.session.entries)
    {more : List RoundsStep} (hmore : ∀ a ∈ more, a.leaver? ≠ some x.peer.endpoint)
    (hnow : (r.run more).now ≤ x.heartbeat + config.heartbeatTimeout) :
    ∃ y ∈ (r.run more).session.entries, x.Lasts y := by
  -- Induction on the steps: an entry that lasts through one is at least as fresh before the next.
  induction more generalizing r x with
  | nil => exact ⟨x, hx, .refl x⟩
  | cons a rest ih =>
    have hle : r.now ≤ ((r.step a).run rest).now :=
      Nat.le_trans (r.now_le_step a) ((r.step a).now_le_run rest)
    change ((r.step a).run rest).now ≤ _ at hnow
    obtain ⟨y, hy, hlasts⟩ | hleaver | hlt := lasts_step h hx a
    · have hrest : ∀ b ∈ rest, b.leaver? ≠ some y.peer.endpoint := fun b hb => by
        rw [hlasts.endpoint_eq]
        exact hmore b (List.mem_cons_of_mem a hb)
      have hheard := hlasts.heartbeat_le
      obtain ⟨z, hz, hlasts'⟩ := ih (h.step a) hy hrest (by omega)
      exact ⟨z, hz, hlasts.trans hlasts'⟩
    · exact absurd hleaver (hmore a List.mem_cons_self)
    · omega

/-! ## Every entry has its loop -/

/-- The service and the tasks of all loops. -/
def watch (r : Rounds) : Watch := ⟨r.session, r.loops.map KnockLoop.task⟩

/-- With a period above zero each task that is started begins its loop. -/
theorem map_task_begun {period now : Nat} (h : 0 < period) (tasks : List (Endpoint × Token)) :
    (tasks.filterMap (KnockLoop.start? period now)).map KnockLoop.task = tasks := by
  have hstart : KnockLoop.start? period now =
      some ∘ fun task => ⟨task.1, task.2, ⟨period, now + period⟩, false, now⟩ := by
    funext task
    rw [KnockLoop.start?, Interval.start?, if_neg (by omega)]
    rfl
  rw [hstart, List.filterMap_eq_map, List.map_map]
  exact List.map_id tasks

/-- A loop stays that of its task. -/
theorem map_task_set {loops : List KnockLoop} {place : Nat} {l l' : KnockLoop}
    (hl : loops[place]? = some l) (htask : l'.task = l.task) :
    (loops.set place l').map KnockLoop.task = loops.map KnockLoop.task := by
  obtain ⟨hlt, rfl⟩ := List.getElem?_eq_some_iff.mp hl
  rw [List.map_set, htask, ← List.getElem_map KnockLoop.task, List.set_getElem_self]
  rwa [List.length_map]

/-- No step before the end of the service loses sight of a loop. -/
theorem supervises_step (h : r.watch.Supervises) (hperiod : 0 < r.config.knockInterval)
    {a : RoundsStep} (ha : a.Attended) : (r.step a).watch.Supervises := by
  cases a with
  | serve b =>
    have heq : (r.serve b).watch = r.watch.step b := by
      rw [watch, serve, List.map_append, map_task_begun hperiod]
      rfl
    show (r.serve b).watch.Supervises
    rw [heq]
    exact h.step ha
  -- To knock and to rest change the timing of a knocker, and not what it is for.
  | knock place =>
    show (r.knock place).watch.Supervises
    obtain heq | ⟨l, l', hl, hknock, heq⟩ := r.knock_cases place
    · rwa [heq]
    · have htask : l'.task = l.task := by
        obtain ⟨-, _, -, rfl⟩ := KnockLoop.knock?_cases hknock
        rfl
      rw [heq, watch, map_task_set hl htask]
      exact h
  | finish place remote =>
    show (r.finish place remote).watch.Supervises
    obtain heq | ⟨l, hl, -, hloops, hsession⟩ := r.finish_cases place remote
    · rwa [heq]
    · have htask : (l.rest r.now).task = l.task := rfl
      rw [watch, hloops, map_task_set hl htask, hsession]
      split
      · exact Supervised.keep h (h.wellFormed.heartbeat _ _) (Registry.notes_refresh _ _ _) rfl
      · exact h

/-- With a period above zero no run before the end of the service loses sight of a loop. -/
theorem supervises_run (h : r.watch.Supervises) (hsound : r.Sound config)
    (hperiod : 0 < config.knockInterval) {steps : List RoundsStep}
    (hsteps : ∀ a ∈ steps, a.Attended) : (r.run steps).watch.Supervises := by
  induction steps generalizing r with
  | nil => exact h
  | cons a rest ih =>
    have hstep := supervises_step h (hsound.config_eq ▸ hperiod) (hsteps a List.mem_cons_self)
    exact ih hstep (hsound.step a) fun b hb => hsteps b (List.mem_cons_of_mem a hb)

/-- With a period of zero no loop ever begins. -/
theorem loops_step_eq_nil (h : r.loops = []) (hperiod : r.config.knockInterval = 0)
    (a : RoundsStep) : (r.step a).loops = [] := by
  cases a with
  -- With an interval of zero no knocker is started.
  | serve b =>
    have hnone : KnockLoop.start? r.config.knockInterval r.now = fun _ => none := by
      funext task
      rw [KnockLoop.start?, Interval.start?, if_pos hperiod]
      rfl
    show (r.serve b).loops = []
    rw [serve, h, hnone]
    simp
  | knock place =>
    show (r.knock place).loops = []
    obtain heq | ⟨l, _, hl, -⟩ := r.knock_cases place
    · rw [heq, h]
    · rw [h] at hl
      cases hl
  | finish place remote =>
    show (r.finish place remote).loops = []
    obtain heq | ⟨l, hl, -⟩ := r.finish_cases place remote
    · rw [heq, h]
    · rw [h] at hl
      cases hl

/-- With an interval of zero there is no knocker in any run. -/
theorem loops_run_eq_nil (h : r.loops = []) (hsound : r.Sound config)
    (hperiod : config.knockInterval = 0) (steps : List RoundsStep) : (r.run steps).loops = [] := by
  induction steps generalizing r with
  | nil => exact h
  | cons a rest ih =>
    exact ih (loops_step_eq_nil h (hsound.config_eq ▸ hperiod) a) (hsound.step a)

end Rounds

end Ensemble
