import Ensemble.Proofs.Membership.Rounds

/-!
# What a CONNECT is worth as a sign of life

An entry may be silent for the whole timeout from its last heartbeat, and no longer. A CONNECT of an
unknown endpoint makes an entry with a heartbeat of that instant. A CONNECT of a known endpoint is
answered as well, but leaves the heartbeat of its entry as it was: a sweep may take away a peer that
was answered an instant before.

* `Rounds.staysUntil_iff` — until when an endpoint stays.
* `answered_connect_stays_iff` — an answered CONNECT is worth the timeout exactly if the heartbeat
  of the entry is of that instant.
* `answered_connect_swept` — a peer that is answered, and taken away by a sweep within the timeout.
-/

namespace Ensemble

/-- The endpoint is registered up to the time `t`, whatever happens but a DISCONNECT of its own. -/
def Rounds.StaysUntil (r : Rounds) (e : Endpoint) (t : Nat) : Prop :=
  ∀ more : List RoundsStep, (∀ a ∈ more, a.leaver? ≠ some e) → (r.run more).now ≤ t →
    (r.run more).session.Knows e

/-- The step is a CONNECT of an endpoint, and is answered with a table. -/
structure ServiceSession.Welcomes (s : ServiceSession) (a : ServiceStep) (e : Endpoint) : Prop where
  connects : ∃ sender bytes running draw port, a = .receive sender bytes running draw ∧
    Message.decode bytes = .ok (.connect port) ∧ e = ⟨sender.address, port⟩
  answered : ∃ reply own table, (s.step a).2.1 = .reply reply ∧
    Message.decode reply.sent = .ok (.clientList own table)

/-- The entry of who is answered: it was there before, or it begins now. -/
theorem ServiceSession.Welcomes.cases {s : ServiceSession} {a : ServiceStep} {e : Endpoint}
    (h : s.Welcomes a e) :
    (∃ x, s.service.registry.find? e = some x ∧
      (s.step a).1.service.registry.find? e = some x) ∨
    s.service.registry.find? e = none ∧
      ∃ x, (s.step a).1.service.registry.find? e = some x ∧ x.heartbeat = s.now := by
  obtain ⟨⟨sender, bytes, running, draw, port, rfl, hdecode, rfl⟩, reply, own, table, hreply,
    hanswered⟩ := h
  rw [step_connect hdecode] at hreply ⊢
  obtain ⟨x, hfind, hregistry, -⟩ | ⟨-, -, heq⟩ | ⟨hnone, hroom, hregistry, -⟩ :=
    s.service.onConnect_cases ⟨s.now, running, draw⟩ ⟨sender.address, port⟩
  · exact .inl ⟨x, hfind, by rw [hregistry]; exact hfind⟩
  · -- Without room for its endpoint a CONNECT gets no answer.
    rw [heq] at hreply
    obtain rfl : Answer.none = reply := ServiceAnswer.reply.inj hreply
    exact absurd rfl (Message.ne_nil_of_decode hanswered)
  · refine .inr ⟨hnone, s.service.registry.newEntry s.now draw ⟨sender.address, port⟩, ?_, rfl⟩
    show Registry.find? (s.service.onConnect _ _).service.registry _ = _
    rw [hregistry]
    exact Registry.find?_register hnone hroom s.now draw

namespace Rounds

variable {r : Rounds} {config : ServiceConfig} {e : Endpoint} {x : RegistryEntry} {t : Nat}

/-- An endpoint stays up to a time exactly if its entry may be silent for so long. -/
theorem staysUntil_iff (h : r.Sound config) (hx : r.find? e = some x) (ht : r.now ≤ t) :
    r.StaysUntil e t ↔ t ≤ x.heartbeat + config.heartbeatTimeout := by
  obtain ⟨hmem, rfl⟩ := Registry.mem_of_find? hx
  constructor
  · intro hstays
    rw [← Nat.not_lt]
    intro hlate
    -- Wait until the entry has been silent for too long, and sweep.
    let wait : ServiceStep := .advance (x.heartbeat + config.heartbeatTimeout + 1 - r.now)
    have hlong : x.heartbeat + config.heartbeatTimeout < (r.session.step wait).1.now := by
      show _ < r.now + (x.heartbeat + config.heartbeatTimeout + 1 - r.now)
      omega
    have hsoon : (r.session.step wait).1.now ≤ t := by
      show r.now + (x.heartbeat + config.heartbeatTimeout + 1 - r.now) ≤ t
      omega
    have hnobody : ∀ a ∈ [RoundsStep.serve wait, .serve .sweep],
        a.leaver? ≠ some x.peer.endpoint := by
      simp [wait, RoundsStep.leaver?, ServiceStep.leaver?]
    have hknows : ((r.session.step wait).1.step .sweep).1.Knows x.peer.endpoint :=
      hstays [.serve wait, .serve .sweep] hnobody hsoon
    rw [← h.config_eq] at hlong
    exact ServiceSession.not_knows_sweep (s := (r.session.step wait).1) h.wellFormed hmem hlong
      hknows
  · intro hle more hmore hnow
    obtain ⟨y, hy, hlasts⟩ := lasts_run h hmem hmore (Nat.le_trans hnow hle)
    exact ⟨y.peer, List.mem_map_of_mem hy, hlasts.endpoint_eq⟩

end Rounds

/-- A CONNECT that is answered leaves its endpoint with an entry, which stays up to the end of the
timeout from its heartbeat, and no longer unless it is heard. So the CONNECT is worth the whole
timeout exactly if the heartbeat is of that instant. This is so for an endpoint that was unknown.
The entry of a known one is left as it was, with the heartbeat that it had. -/
theorem answered_connect_stays_iff (config : ServiceConfig) (steps : List RoundsStep)
    (connect : ServiceStep) (e : Endpoint)
    (hwelcome : ((Rounds.start config).run steps).session.Welcomes connect e) :
    let r := (Rounds.start config).run steps
    let r' := r.serve connect
    ∃ x, r'.find? e = some x ∧
      (∀ t, r.now ≤ t → (r'.StaysUntil e t ↔ t ≤ x.heartbeat + config.heartbeatTimeout)) ∧
      (r'.StaysUntil e (r.now + config.heartbeatTimeout) ↔ x.heartbeat = r.now) ∧
      (¬ r.session.Knows e → x.heartbeat = r.now) ∧
      ∀ x₀, r.find? e = some x₀ → x = x₀ := by
  intro r r'
  have hsound : r.Sound config := (Rounds.sound_start config).run steps
  have hsound' : r'.Sound config := hsound.step (.serve connect)
  have hnow : r'.now = r.now := by
    obtain ⟨sender, bytes, running, draw, port, rfl, -⟩ := hwelcome.connects
    rfl
  have hexact : ∀ x, r'.find? e = some x → ∀ t, r.now ≤ t →
      (r'.StaysUntil e t ↔ t ≤ x.heartbeat + config.heartbeatTimeout) :=
    fun x hx t ht => Rounds.staysUntil_iff hsound' hx (hnow ▸ ht)
  -- No heartbeat is in the future, so a full timeout is left only of one that is made now.
  have hworth : ∀ x, r'.find? e = some x →
      (r'.StaysUntil e (r.now + config.heartbeatTimeout) ↔ x.heartbeat = r.now) := by
    intro x hx
    have hpast : x.heartbeat ≤ r.now := hnow ▸ hsound'.past x (Registry.mem_of_find? hx).1
    rw [hexact x hx _ (Nat.le_add_right _ _)]
    omega
  -- Known: the entry is found as it was. Unknown: the new entry begins now.
  obtain ⟨x, hbefore, hafter⟩ | ⟨hnone, x, hafter, hbegins⟩ := hwelcome.cases
  · refine ⟨x, hafter, hexact x hafter, hworth x hafter, fun hnot => ?_, fun x₀ hx₀ => ?_⟩
    · exact absurd (ServiceSession.knows_iff_find?.mpr ⟨x, hbefore⟩) hnot
    · exact Option.some.inj (hbefore.symm.trans hx₀)
  · refine ⟨x, hafter, hexact x hafter, hworth x hafter, fun _ => hbegins, fun x₀ hx₀ => ?_⟩
    cases hnone.symm.trans hx₀

/-- Where the peer of the next runs listens. -/
def visitor : Endpoint := ⟨.v4 ⟨10, 0, 0, 1⟩, 43210⟩

/-- A second goes by, and the knock that is due finds nobody. -/
def nobodyHome : List RoundsStep := [.serve (.advance 1000), .knock 0, .finish 0 .refuses]

/-- A peer connects, and two knocks at its door find nobody. -/
def connectedOnce : Rounds :=
  (Rounds.start ⟨1000, 3000, 2000, 1000, 16⟩).run
    (.serve (.receive ⟨.v4 ⟨10, 0, 0, 1⟩, 50000⟩ [3, 168, 202] true fun _ => ⟨7⟩) ::
      nobodyHome ++ nobodyHome)

/-- The peer connects again. -/
def connectsAgain : ServiceStep :=
  .receive ⟨.v4 ⟨10, 0, 0, 1⟩, 50001⟩ [3, 168, 202] true fun _ => ⟨9⟩

/-- The second CONNECT is answered as the first one was. -/
theorem welcomes_connectsAgain : connectedOnce.session.Welcomes connectsAgain visitor where
  connects := ⟨_, _, _, _, 43210, rfl, by decide +kernel, rfl⟩
  answered := ⟨⟨true, [7, 0, 7, 0, 7, 1, 8, 49, 48, 46, 48, 46, 48, 46, 49, 168, 202, 0, 7]⟩, ⟨7⟩,
    ⟨⟨7⟩, [⟨.v4 ⟨10, 0, 0, 1⟩, 43210, ⟨7⟩⟩]⟩, rfl, by decide +kernel⟩

/-- A second CONNECT at 2000 ms is answered, and yet its entry is worth only what the first one was:
it stays until 3000 ms, and is gone at 5000 ms. -/
theorem answered_connect_stays_iff_connectsAgain :
    connectedOnce.session.Welcomes connectsAgain visitor ∧
      (connectedOnce.serve connectsAgain).StaysUntil visitor 3000 ∧
      ¬ (connectedOnce.serve connectsAgain).StaysUntil visitor 5000 := by
  obtain ⟨x, hx, hexact, -⟩ := answered_connect_stays_iff ⟨1000, 3000, 2000, 1000, 16⟩ _
    connectsAgain visitor welcomes_connectsAgain
  have hheartbeat : x.heartbeat = 0 := by
    have hfind : (connectedOnce.serve connectsAgain).find? visitor =
        some ⟨⟨.v4 ⟨10, 0, 0, 1⟩, 43210, ⟨7⟩⟩, 0, ⟨0, true⟩⟩ := by decide +kernel
    rw [← Option.some.inj (hfind.symm.trans hx)]
  refine ⟨welcomes_connectsAgain, (hexact 3000 (by decide +kernel)).mpr ?_, fun hstays => ?_⟩
  · exact Nat.le_add_left _ _
  · have hle := (hexact 5000 (by decide +kernel)).mp hstays
    rw [hheartbeat] at hle
    exact absurd hle (by decide)

/-- With a timeout of 3 s a peer is answered at 2 s, and a sweep at 4 s takes it away, for the time
of its heartbeat is 0 s. There was no DISCONNECT. -/
theorem answered_connect_swept :
    let later := nobodyHome ++ nobodyHome ++ [.serve .sweep]
    connectedOnce.config.heartbeatTimeout = 3000 ∧ connectedOnce.now = 2000 ∧
      connectedOnce.session.Welcomes connectsAgain visitor ∧
      (∀ a ∈ later, a.leaver? ≠ some visitor) ∧
      ((connectedOnce.serve connectsAgain).run later).now = 4000 ∧
      ¬ ((connectedOnce.serve connectsAgain).run later).session.Knows visitor := by
  refine ⟨by decide +kernel, by decide +kernel, welcomes_connectsAgain, ?_, by decide +kernel,
    by decide +kernel⟩
  simp [nobodyHome, RoundsStep.leaver?, ServiceStep.leaver?]

end Ensemble
