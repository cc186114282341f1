import Ensemble.Proofs.Membership.Rounds

/-!
# A responsive peer is never swept

The first knock at a peer comes one period after its entry was made, and every other one at most one
period after the last was begun, or as soon as that one is over. So the peer is heard again at most
one period and the time of one answer after it was heard last, and no sweep that allows for so long
a silence ever takes its entry away.

The time is not the program's own. `Rounds.Responsive` says what a run has to keep to: no loop of
the endpoint is late at any instant, and every knock of theirs that is over has brought a status.

* `Rounds.Tended` — how far the loop of an entry is behind the entry's heartbeat.
* `Rounds.Tended.serve`, `Rounds.Tended.knock`, `Rounds.Tended.finish` — what a step does to that.
* `Rounds.Tended.now_le` — so the heartbeat is never too old.
* `responsive_never_swept` — and no sweep removes the entry.
-/

namespace Ensemble

/-! ## What a run has to keep to -/

namespace Rounds

/-- No live loop of the endpoint is late: a knock is over after the time `d`, and a loop that waits
knocks once its interval is due, or at once if it was due before the wait began. -/
def Punctual (d : Nat) (e : Endpoint) (r : Rounds) : Prop :=
  ∀ l ∈ r.loops, l.endpoint = e → r.session.tokens.isCancelled l.token = false →
    r.now ≤ if l.asking then l.since + d else max l.interval.due l.since

/-- A live knock at the endpoint that is over has brought a status. -/
def Answered (e : Endpoint) (r : Rounds) : RoundsStep → Prop
  | .serve _ | .knock _ => True
  | .finish place remote =>
    ∀ l ∈ r.loops[place]?, l.endpoint = e → r.session.tokens.isCancelled l.token = false →
      remote.givesStatus r.config.timeLimit = true

/-- At no instant of the run a loop of the endpoint is late, and every knock is answered. -/
def Responsive (d : Nat) (e : Endpoint) : Rounds → List RoundsStep → Prop
  | r, [] => r.Punctual d e
  | r, a :: rest => r.Punctual d e ∧ r.Answered e a ∧ Responsive d e (r.step a) rest

instance (d : Nat) (e : Endpoint) (r : Rounds) : Decidable (r.Punctual d e) :=
  inferInstanceAs (Decidable (∀ l ∈ r.loops, _))

instance (e : Endpoint) (r : Rounds) (a : RoundsStep) : Decidable (r.Answered e a) :=
  match a with
  | .serve _ | .knock _ => isTrue trivial
  | .finish place _ => inferInstanceAs (Decidable (∀ l ∈ r.loops[place]?, _))

instance decidableResponsive (d : Nat) (e : Endpoint) : (r : Rounds) →
    (steps : List RoundsStep) → Decidable (Responsive d e r steps)
  | r, [] => inferInstanceAs (Decidable (r.Punctual d e))
  | r, a :: rest =>
    have := decidableResponsive d e (r.step a) rest
    inferInstanceAs (Decidable (r.Punctual d e ∧ r.Answered e a ∧ Responsive d e (r.step a) rest))

variable {r : Rounds} {config : ServiceConfig} {d : Nat} {e : Endpoint}

/-- In a run that answers in time no knocker is late at the beginning. -/
theorem Responsive.punctual {steps : List RoundsStep} (h : Responsive d e r steps) :
    r.Punctual d e := by
  cases steps with
  | nil => exact h
  | cons a rest => exact h.1

/-- A responsive run is responsive up to every step of it, and from there. -/
theorem responsive_append {before after : List RoundsStep} :
    Responsive d e r (before ++ after) →
      Responsive d e r before ∧ Responsive d e (r.run before) after := by
  induction before generalizing r with
  | nil => exact fun h => ⟨h.punctual, h⟩
  | cons a rest ih =>
    rintro ⟨hpunctual, hanswered, hrest⟩
    obtain ⟨hbefore, hafter⟩ := ih hrest
    exact ⟨⟨hpunctual, hanswered, hbefore⟩, hafter⟩

end Rounds

/-! ## How far a loop is behind -/

/-- A loop that waits has waited since the peer was heard at the latest, and is due one period later
at the latest. A loop that knocks began to one period after the peer was heard at the latest, and is
due again one period from now at the latest. -/
structure KnockLoop.Follows (l : KnockLoop) (period heartbeat now : Nat) : Prop where
  period_eq : l.interval.period = period
  waits : l.asking = false → l.since ≤ heartbeat ∧ l.interval.due ≤ heartbeat + period
  asks : l.asking = true → l.since ≤ heartbeat + period ∧ l.interval.due ≤ now + period

/-- An interval that fires is due again at most one period from now. -/
theorem Interval.due_le_of_fire? {i j : Interval} {now : Nat} (h : i.fire? now = some j) :
    j.period = i.period ∧ j.due ≤ now + i.period := by
  unfold Interval.fire? at h
  split at h
  · cases h
  · split at h
    · obtain rfl := Option.some.inj h
      exact ⟨rfl, Nat.le_refl _⟩
    · obtain rfl := Option.some.inj h
      refine ⟨rfl, ?_⟩
      show i.due + i.period ≤ now + i.period
      omega

namespace KnockLoop

variable {l l' : KnockLoop} {period heartbeat heartbeat' now now' : Nat}

/-- A loop that follows does so later on, and if the peer is heard. -/
theorem Follows.mono (h : l.Follows period heartbeat now) (hheard : heartbeat ≤ heartbeat')
    (hnow : now ≤ now') : l.Follows period heartbeat' now' := by
  refine ⟨h.period_eq, fun hwaits => ?_, fun hasks => ?_⟩
  · obtain ⟨hsince, hdue⟩ := h.waits hwaits
    exact ⟨by omega, by omega⟩
  · obtain ⟨hsince, hdue⟩ := h.asks hasks
    exact ⟨by omega, by omega⟩

/-- A loop follows from its start. -/
theorem Follows.of_start? {task : Endpoint × Token} (h : start? period now task = some l) :
    l.Follows period now now := by
  obtain ⟨interval, hstart, rfl⟩ := Option.map_eq_some_iff.mp h
  unfold Interval.start? at hstart
  split at hstart
  · cases hstart
  · obtain rfl := Option.some.inj hstart
    exact ⟨rfl, fun _ => ⟨Nat.le_refl _, Nat.le_refl _⟩, fun hasks => Bool.noConfusion hasks⟩

/-- A loop that is not late when it knocks follows. -/
theorem Follows.knock (h : l.Follows period heartbeat now) (hknock : l.knock? now = some l')
    (hpunctual : now ≤ max l.interval.due l.since) : l'.Follows period heartbeat now := by
  obtain ⟨hwaits, interval, hfire, rfl⟩ := knock?_cases hknock
  obtain ⟨hsame, hdue⟩ := Interval.due_le_of_fire? hfire
  obtain ⟨hsince, hlast⟩ := h.waits hwaits
  rw [h.period_eq] at hsame hdue
  refine ⟨hsame, fun hwaits' => Bool.noConfusion hwaits', fun _ => ⟨?_, hdue⟩⟩
  show now ≤ heartbeat + period
  omega

/-- A loop whose knock was answered follows. -/
theorem Follows.rest (h : l.Follows period heartbeat now) (hasks : l.asking = true) :
    (l.rest now).Follows period now now where
  period_eq := h.period_eq
  waits := fun _ => ⟨Nat.le_refl _, (h.asks hasks).2⟩
  asks := fun hasks' => Bool.noConfusion hasks'

end KnockLoop

namespace Rounds

variable {r : Rounds} {config : ServiceConfig} {d : Nat} {e : Endpoint} {x : RegistryEntry}

/-- Every entry has its loop, and that of the endpoint's entry follows. -/
structure Tended (e : Endpoint) (r : Rounds) : Prop where
  supervises : r.watch.Supervises
  follows : ∀ x, r.find? e = some x → ∀ l ∈ r.loops, l.task = (e, x.token) →
    l.Follows r.config.knockInterval x.heartbeat r.now

/-- At first there is nobody to knock at. -/
theorem tended_start (config : ServiceConfig) (e : Endpoint) : (start config).Tended e where
  supervises := Watch.supervises_start config
  follows := fun _ _ _ hl => absurd hl List.not_mem_nil

/-- The loop of an entry is live. -/
theorem Tended.isCancelled_eq_false (h : r.Tended e) (hx : r.find? e = some x) {l : KnockLoop}
    (htask : l.task = (e, x.token)) :
    l.endpoint = e ∧ r.session.tokens.isCancelled l.token = false := by
  obtain ⟨he, htoken⟩ := Prod.ext_iff.mp htask
  refine ⟨he, ?_⟩
  rw [show l.token = x.token from htoken]
  exact Supervised.isCancelled_eq_false h.supervises (Registry.mem_notes_of_find? hx)

/-- While no loop is late, the heartbeat is at most one period and one answer ago. -/
theorem Tended.now_le (h : r.Tended e) (hpunctual : r.Punctual d e) (hx : r.find? e = some x) :
    r.now ≤ x.heartbeat + r.config.knockInterval + d := by
  have hnote : (e, x.token) ∈ r.loops.map KnockLoop.task :=
    Supervised.mem_tasks h.supervises (Registry.mem_notes_of_find? hx)
  obtain ⟨l, hl, htask⟩ := List.mem_map.mp hnote
  obtain ⟨he, hlive⟩ := h.isCancelled_eq_false hx htask
  have hfollows := h.follows x hx l hl htask
  have hnow := hpunctual l hl he hlive
  -- Either the answer is still out, or the next round is still to come.
  cases hasking : l.asking with
  | true =>
    obtain ⟨hsince, -⟩ := hfollows.asks hasking
    rw [hasking, if_pos rfl] at hnow
    omega
  | false =>
    obtain ⟨hsince, hdue⟩ := hfollows.waits hasking
    rw [hasking, if_neg Bool.false_ne_true] at hnow
    omega

/-! ## What each step does to that -/

/-- The entry of a known endpoint has no second loop, and that of an unknown one has a new one. -/
theorem Tended.serve (h : r.Tended e) (hsound : r.Sound config)
    (hperiod : 0 < r.config.knockInterval) {a : ServiceStep} (ha : a.Attended) :
    (r.serve a).Tended e := by
  have hsupervises : (r.serve a).watch.Supervises :=
    supervises_step (a := .serve a) h.supervises hperiod ha
  refine ⟨hsupervises, fun y hy l hl htask => ?_⟩
  have hconfig : (r.serve a).config = r.config := r.session.config_step a
  have hnow : r.now ≤ (r.serve a).now := r.session.now_le_step a
  obtain ⟨hmem, he⟩ := Registry.mem_of_find? hy
  rw [hconfig]
  obtain ⟨x, hx, hlasts⟩ | ⟨hunknown, hheartbeat⟩ :=
    ServiceSession.mem_entries_step hsound.wellFormed hsound.past hmem
  · have hfind : r.find? e = some x :=
      hsound.wellFormed.find?_eq_some_iff.mpr ⟨hx, hlasts.endpoint_eq.symm.trans he⟩
    rw [hlasts.token_eq] at htask
    rcases List.mem_append.mp hl with hold | hbegun
    · exact (h.follows x hfind l hold htask).mono hlasts.heartbeat_le hnow
    · -- The entry has its loop already, and no two loops are of the same task.
      have hnodup := hsupervises.tasks_nodup
      rw [watch, Rounds.serve, List.map_append] at hnodup
      have htaken : (e, x.token) ∈ r.loops.map KnockLoop.task :=
        Supervised.mem_tasks h.supervises (Registry.mem_notes_of_find? hfind)
      exact absurd (htask ▸ List.mem_map_of_mem hbegun)
        (List.disjoint_of_nodup_append hnodup htaken)
  · rcases List.mem_append.mp hl with hold | hbegun
    · -- No loop from before has the token of a new entry.
      rw [he] at hunknown
      have htoken : (r.watch.run [a]).token? e = some y.token :=
        Option.map_eq_some_iff.mpr ⟨y, hy, rfl⟩
      have hne := h.supervises.ne_of_entered (by simpa using ha) hunknown htoken
        (List.mem_map_of_mem hold)
      exact absurd (congrArg Prod.snd htask) hne
    · obtain ⟨task, -, hstart⟩ := List.mem_filterMap.mp hbegun
      rw [hheartbeat]
      exact (KnockLoop.Follows.of_start? hstart).mono (Nat.le_refl _) hnow

/-- A loop that knocks is not late. -/
theorem Tended.knock (h : r.Tended e) (hperiod : 0 < r.config.knockInterval)
    (hpunctual : r.Punctual d e) (place : Nat) : (r.knock place).Tended e := by
  refine ⟨supervises_step (a := .knock place) h.supervises hperiod trivial, ?_⟩
  obtain heq | ⟨l, l', hl, hknock, heq⟩ := r.knock_cases place
  · rw [heq]
    exact h.follows
  · rw [heq]
    intro x hx l₀ hl₀ htask
    -- Only the knocker that knocks is another one now.
    rcases List.mem_or_eq_of_mem_set hl₀ with hold | rfl
    · exact h.follows x hx l₀ hold htask
    · have hmem : l ∈ r.loops := List.mem_of_getElem? hl
      obtain ⟨hwaits, interval, -, rfl⟩ := KnockLoop.knock?_cases hknock
      obtain ⟨he, hlive⟩ := h.isCancelled_eq_false hx htask
      have hnow := hpunctual l hmem he hlive
      rw [hwaits, if_neg Bool.false_ne_true] at hnow
      exact (h.follows x hx l hmem htask).knock hknock hnow

/-- Who has answered a knock was heard now. -/
theorem Tended.finish (h : r.Tended e) (hsound : r.Sound config)
    (hperiod : 0 < r.config.knockInterval) {place : Nat} {remote : Remote}
    (hanswered : r.Answered e (.finish place remote)) : (r.finish place remote).Tended e := by
  refine ⟨supervises_step (a := .finish place remote) h.supervises hperiod trivial, ?_⟩
  obtain heq | ⟨l, hl, hasks, hloops, hsession⟩ := r.finish_cases place remote
  · rw [heq]
    exact h.follows
  · intro y hy l₀ hl₀ htask
    have hconfig : (r.finish place remote).config = r.config :=
      ((hsound.step (.finish place remote)).config_eq).trans hsound.config_eq.symm
    have hnow : r.now ≤ (r.finish place remote).now := r.now_le_step (.finish place remote)
    rw [hconfig]
    rw [hloops] at hl₀
    rw [find?, hsession] at hy
    -- Whether the answer was a status decides whether the entry was refreshed.
    split at hy
    · obtain ⟨x, hx, hlasts, hheard⟩ := hsound.find?_hear hy
      rw [hlasts.token_eq] at htask
      rcases List.mem_or_eq_of_mem_set hl₀ with hold | rfl
      · exact (h.follows x hx l₀ hold htask).mono hlasts.heartbeat_le hnow
      · obtain ⟨he, -⟩ := h.isCancelled_eq_false hx htask
        have hfollows := h.follows x hx l (List.mem_of_getElem? hl) htask
        rw [hheard he]
        exact (hfollows.rest hasks).mono (Nat.le_refl _) hnow
    · rename_i hsilent
      rcases List.mem_or_eq_of_mem_set hl₀ with hold | rfl
      · exact (h.follows y hy l₀ hold htask).mono (Nat.le_refl _) hnow
      · obtain ⟨he, hlive⟩ := h.isCancelled_eq_false hy htask
        exact absurd (hanswered l hl he hlive) hsilent

/-- As long as every knock is answered and no loop is late, the endpoint's loop follows. -/
theorem Tended.step (h : r.Tended e) (hsound : r.Sound config)
    (hperiod : 0 < config.knockInterval) (hpunctual : r.Punctual d e) {a : RoundsStep}
    (ha : a.Attended) (hanswered : r.Answered e a) : (r.step a).Tended e := by
  rw [← hsound.config_eq] at hperiod
  cases a with
  | serve b => exact h.serve hsound hperiod ha
  | knock place => exact h.knock hperiod hpunctual place
  | finish place remote => exact h.finish hsound hperiod hanswered

/-- Every entry is tended throughout a run that answers in time. -/
theorem Tended.run (h : r.Tended e) (hsound : r.Sound config) (hperiod : 0 < config.knockInterval)
    {steps : List RoundsStep} (hsteps : ∀ a ∈ steps, a.Attended)
    (hresponsive : Responsive d e r steps) : (r.run steps).Tended e := by
  induction steps generalizing r with
  | nil => exact h
  | cons a rest ih =>
    obtain ⟨hpunctual, hanswered, hrest⟩ := hresponsive
    have hstep := h.step hsound hperiod hpunctual (hsteps a List.mem_cons_self) hanswered
    exact ih hstep (hsound.step a) (fun b hb => hsteps b (List.mem_cons_of_mem a hb)) hrest

/-! ## No sweep removes the entry -/

/-- If the timeout allows for one period and one answer, the entry stays. -/
theorem Tended.lasts_run (h : r.Tended e) (hsound : r.Sound config)
    (hperiod : 0 < config.knockInterval)
    (htimeout : config.knockInterval + d ≤ config.heartbeatTimeout) {steps : List RoundsStep}
    (hsteps : ∀ a ∈ steps, a.Attended) (hstays : ∀ a ∈ steps, a.leaver? ≠ some e)
    (hresponsive : Responsive d e r steps) (hx : r.find? e = some x) :
    ∃ y, (r.run steps).find? e = some y ∧ x.Lasts y := by
  induction steps generalizing r x with
  | nil => exact ⟨x, hx, .refl x⟩
  | cons a rest ih =>
    obtain ⟨hpunctual, hanswered, hrest⟩ := hresponsive
    have hstep := h.step hsound hperiod hpunctual (hsteps a List.mem_cons_self) hanswered
    have hage := h.now_le hpunctual hx
    rw [hsound.config_eq] at hage
    obtain ⟨hmem, he⟩ := Registry.mem_of_find? hx
    obtain ⟨y, hy, hlasts⟩ | hleaver | hlate := Rounds.lasts_step hsound hmem a
    · have hfind : (r.step a).find? e = some y :=
        (hsound.step a).wellFormed.find?_eq_some_iff.mpr ⟨hy, hlasts.endpoint_eq.trans he⟩
      obtain ⟨z, hz, hlasts'⟩ := ih hstep (hsound.step a)
        (fun b hb => hsteps b (List.mem_cons_of_mem a hb))
        (fun b hb => hstays b (List.mem_cons_of_mem a hb)) hrest hfind
      exact ⟨z, hz, hlasts.trans hlasts'⟩
    · exact absurd (he ▸ hleaver) (hstays a List.mem_cons_self)
    · -- It cannot have been silent for too long, as somebody has knocked in the meantime.
      omega

end Rounds

/-- Let every knock at an endpoint be answered with a status at most `d` after it began, and let no
loop of the endpoint be late. If the timeout is at least `d` more than the greater of the period and
`d`, then an entry of the endpoint that is there at any instant is there at every later one, with
its peer and its token, as long as the endpoint does not leave. Whenever a sweep comes, the entry
was not silent for longer than the timeout. -/
theorem responsive_never_swept (config : ServiceConfig) (e : Endpoint) (d : Nat)
    (steps : List RoundsStep) (hperiod : 0 < config.knockInterval)
    (htimeout : max config.knockInterval d + d ≤ config.heartbeatTimeout)
    (hsteps : ∀ a ∈ steps, a.Attended) (hstays : ∀ a ∈ steps, a.leaver? ≠ some e)
    (hresponsive : Rounds.Responsive d e (Rounds.start config) steps) :
    ∀ before between after, steps = before ++ (between ++ after) →
      ∀ x, ((Rounds.start config).run before).find? e = some x →
        ∃ y, ((Rounds.start config).run (before ++ between)).find? e = some y ∧ x.Lasts y ∧
          ((Rounds.start config).run (before ++ between)).now ≤
            y.heartbeat + config.heartbeatTimeout := by
  rintro before between after rfl x hx
  have hsound := (Rounds.sound_start config).run before
  obtain ⟨hbefore, hrest⟩ := Rounds.responsive_append hresponsive
  obtain ⟨hbetween, hafter⟩ := Rounds.responsive_append hrest
  have htended : ((Rounds.start config).run before).Tended e :=
    (Rounds.tended_start config e).run (Rounds.sound_start config) hperiod
      (fun a ha => hsteps a (List.mem_append_left _ ha)) hbefore
  have hmem : ∀ a ∈ between, a ∈ before ++ (between ++ after) :=
    fun a ha => List.mem_append_right _ (List.mem_append_left _ ha)
  obtain ⟨y, hy, hlasts⟩ := htended.lasts_run hsound hperiod (by omega)
    (fun a ha => hsteps a (hmem a ha)) (fun a ha => hstays a (hmem a ha)) hbetween hx
  -- The age at the end: an entry that is tended was heard of within a round and its answer.
  have htended' := htended.run hsound hperiod (fun a ha => hsteps a (hmem a ha)) hbetween
  have hage := htended'.now_le hafter.punctual hy
  rw [(hsound.run between).config_eq] at hage
  rw [Rounds.run_append]
  exact ⟨y, hy, hlasts, by omega⟩

/-- A peer connects. -/
def slowPeerConnects : List RoundsStep :=
  [.serve (.receive ⟨.v4 ⟨10, 0, 0, 1⟩, 50000⟩ [3, 168, 202] true fun _ => ⟨7⟩)]

/-- The first knock comes after one period and is answered 1 s later, just after a sweep. The next
one is due by then, and is answered as late. -/
def slowPeerAnswers : List RoundsStep :=
  [.serve (.advance 1000), .knock 0, .serve (.advance 1000), .serve .sweep,
    .finish 0 (.answers [[5, 0, 0, 0, 1, 0], [0, 0, 17, 0, 0]]), .knock 0, .serve (.advance 1000),
    .serve .sweep, .finish 0 (.answers [[5, 0, 0, 0, 1, 0, 0, 0, 18, 0, 0]])]

/-- The timeout is just long enough: at the first sweep the peer was silent for 2 s. -/
theorem responsive_never_swept_slowPeer :
    Rounds.Responsive 1000 ⟨.v4 ⟨10, 0, 0, 1⟩, 43210⟩ (Rounds.start ⟨1000, 2000, 500, 1000, 16⟩)
        (slowPeerConnects ++ (slowPeerAnswers ++ [])) ∧
      ∃ y, ((Rounds.start ⟨1000, 2000, 500, 1000, 16⟩).run
          (slowPeerConnects ++ slowPeerAnswers)).find? ⟨.v4 ⟨10, 0, 0, 1⟩, 43210⟩ = some y ∧
        y.peer = ⟨.v4 ⟨10, 0, 0, 1⟩, 43210, ⟨7⟩⟩ := by
  have hresponsive : Rounds.Responsive 1000 ⟨.v4 ⟨10, 0, 0, 1⟩, 43210⟩
      (Rounds.start ⟨1000, 2000, 500, 1000, 16⟩) (slowPeerConnects ++ (slowPeerAnswers ++ [])) := by
    decide +kernel
  have hattended : ∀ a ∈ slowPeerConnects ++ (slowPeerAnswers ++ []), a.Attended := by
    simp [slowPeerConnects, slowPeerAnswers, RoundsStep.Attended, ServiceStep.Attended]
  have hstays : ∀ a ∈ slowPeerConnects ++ (slowPeerAnswers ++ []),
      a.leaver? ≠ some ⟨.v4 ⟨10, 0, 0, 1⟩, 43210⟩ := by decide +kernel
  have hconnected : ((Rounds.start ⟨1000, 2000, 500, 1000, 16⟩).run slowPeerConnects).find?
      ⟨.v4 ⟨10, 0, 0, 1⟩, 43210⟩ =
        some ⟨⟨.v4 ⟨10, 0, 0, 1⟩, 43210, ⟨7⟩⟩, 0, ⟨0, true⟩⟩ := by decide +kernel
  obtain ⟨y, hy, hlasts, -⟩ := responsive_never_swept ⟨1000, 2000, 500, 1000, 16⟩ _ 1000 _
    (by decide) (by decide) hattended hstays hresponsive _ _ _ rfl _ hconnected
  exact ⟨hresponsive, y, hy, hlasts.peer_eq⟩

end Ensemble
