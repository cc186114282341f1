import Ensemble.Proofs.Membership.Service
import Ensemble.Proofs.Message.Parcel

/-!
# Every member is sent the latest table

A step of the service is either `Quiet`, and then no peer comes or goes and nothing is sent, or it
ends with one broadcast of the table as it is afterwards. A `Mailing` is the service together with
what it has sent to each endpoint since the endpoint was entered; it is `Fresh` if the last message
to every registered endpoint holds the current table.

* `ServiceSession.step_cases` — the two kinds of step, with all that each one does.
* `Mailing.fresh_step` — no step leaves a member with an old table.
* `broadcast_freshness` — every run is fresh, and every further step tells all or nobody.
-/

namespace Ensemble

/-- Every step but an entry for which no message asked. -/
def ServiceStep.Regular : ServiceStep → Prop
  | .enter _ _ => False
  | _ => True

namespace ServiceSession

/-- The registered peers, in the order of their registrations. -/
def peers (s : ServiceSession) : List Peer := s.service.registry.peers

/-- The endpoint is registered. -/
def Knows (s : ServiceSession) (e : Endpoint) : Prop := ∃ p ∈ s.peers, p.endpoint = e

instance (s : ServiceSession) (e : Endpoint) : Decidable (s.Knows e) :=
  inferInstanceAs (Decidable (∃ p ∈ s.peers, p.endpoint = e))

/-- The step is a CONNECT, and its endpoint is registered afterwards. -/
def Admits (s : ServiceSession) : ServiceStep → Prop
  | .receive sender bytes running draw =>
    ∃ port, Message.decode bytes = .ok (.connect port) ∧
      (s.step (.receive sender bytes running draw)).1.Knows ⟨sender.address, port⟩
  | _ => False

/-- There is nothing to tell: the bytes are no message, or a CONNECT for which there is no room, or
a DISCONNECT from nobody, or of another kind, or a sweep finds nobody silent for too long. -/
def Quiet (s : ServiceSession) : ServiceStep → Prop
  | .receive sender bytes _ _ =>
    match Message.decode bytes with
    | .ok (.connect port) =>
      ¬ s.Knows ⟨sender.address, port⟩ ∧ s.service.registry.limit ≤ s.peers.length
    | .ok (.disconnect port) => ¬ s.Knows ⟨sender.address, port⟩
    | _ => True
  | .sweep =>
    ∀ x ∈ s.service.registry.entries, s.now - x.heartbeat ≤ s.service.config.heartbeatTimeout
  | _ => True

/-- Whoever is not known has no entry. -/
theorem not_knows_iff {s : ServiceSession} {e : Endpoint} :
    ¬ s.Knows e ↔ s.service.registry.find? e = none := by
  rw [Registry.find?_eq_none_iff, Knows, peers]
  simp

/-! ## What a step does -/

/-- A quiet step changes no peers and sends nothing. -/
structure Rests (s : ServiceSession) (a : ServiceStep) : Prop where
  quiet : s.Quiet a
  peers_eq : (s.step a).1.peers = s.peers
  not_admits : ¬ s.Admits a
  sent_eq : (s.step a).2.2 = []

/-- Any other step admits a peer or changes the peers, and ends with a broadcast. -/
structure Tells (s : ServiceSession) (a : ServiceStep) : Prop where
  not_quiet : ¬ s.Quiet a
  cause : s.Admits a ∨ (s.step a).1.peers.length ≠ s.peers.length
  sent_eq : (s.step a).2.2 = broadcast (s.step a).1.peers

/-- A CONNECT offers its endpoint to the service. -/
theorem step_connect {bytes : Bytes} {port : UInt16}
    (hdecode : Message.decode bytes = .ok (.connect port)) (s : ServiceSession)
    (sender : Endpoint) (running : Bool) (draw : Nat → PeerId) :
    s.step (.receive sender bytes running draw) =
      let reaction := s.service.onConnect ⟨s.now, running, draw⟩ ⟨sender.address, port⟩
      ({ s with service := reaction.service }, .reply reaction.answer, reaction.sent) := by
  simp only [step, Service.receive, hdecode, Service.handle]

/-- A CONNECT is quiet if it finds neither its endpoint nor room for it. -/
theorem quiet_connect_iff {s : ServiceSession} {sender : Endpoint} {bytes : Bytes}
    {running : Bool} {draw : Nat → PeerId} {port : UInt16}
    (hdecode : Message.decode bytes = .ok (.connect port)) :
    s.Quiet (.receive sender bytes running draw) ↔
      s.service.registry.find? ⟨sender.address, port⟩ = none ∧
        s.service.registry.limit ≤ s.service.registry.entries.length := by
  simp only [Quiet, hdecode]
  rw [not_knows_iff, peers, Registry.length_peers]

/-- A CONNECT is accepted if its endpoint is registered afterwards. -/
theorem admits_connect_iff {s : ServiceSession} {sender : Endpoint} {bytes : Bytes}
    {running : Bool} {draw : Nat → PeerId} {port : UInt16}
    (hdecode : Message.decode bytes = .ok (.connect port)) :
    s.Admits (.receive sender bytes running draw) ↔
      (s.step (.receive sender bytes running draw)).1.Knows ⟨sender.address, port⟩ := by
  simp only [Admits, hdecode]
  constructor
  · rintro ⟨port', heq, hknows⟩
    cases heq
    exact hknows
  · exact fun hknows => ⟨port, rfl, hknows⟩

/-- A CONNECT rests only if it is refused. -/
theorem connect_cases {s : ServiceSession} {sender : Endpoint} {bytes : Bytes} {running : Bool}
    {draw : Nat → PeerId} {port : UInt16} (hdecode : Message.decode bytes = .ok (.connect port)) :
    s.Rests (.receive sender bytes running draw) ∨
      s.Tells (.receive sender bytes running draw) := by
  have hstep := step_connect hdecode s sender running draw
  have hquiet : s.Quiet (.receive sender bytes running draw) ↔ _ := quiet_connect_iff hdecode
  have hadmits : s.Admits (.receive sender bytes running draw) ↔ _ := admits_connect_iff hdecode
  obtain ⟨entry, hfind, hregistry, -, hsent⟩ | ⟨hnone, hfull, heq⟩ |
      ⟨hnone, hroom, -, hpeers, -, hsent⟩ :=
    s.service.onConnect_cases ⟨s.now, running, draw⟩ ⟨sender.address, port⟩
  · -- Known already: it is told its place again, and with it all are told.
    right
    have hpeers : (s.step (.receive sender bytes running draw)).1.peers = s.peers := by
      rw [hstep, peers, peers, hregistry]
    refine ⟨fun h => ?_, .inl (hadmits.mpr ?_), ?_⟩
    · rw [(hquiet.mp h).1] at hfind
      cases hfind
    · rw [Knows, hpeers]
      exact ⟨entry.peer, Registry.peer_mem_of_find? hfind, (Registry.mem_of_find? hfind).2⟩
    · rw [hpeers, hstep]
      exact hsent
  · -- No room: nothing is answered, and nobody is told.
    left
    have hsame : (s.step (.receive sender bytes running draw)).1 = s := by
      rw [hstep, heq]
    refine ⟨hquiet.mpr ⟨hnone, hfull⟩, by rw [hsame], fun h => ?_, by rw [hstep, heq]⟩
    rw [hadmits, hsame] at h
    exact not_knows_iff.mpr hnone h
  · right
    refine ⟨fun h => ?_, .inr ?_, by rw [hstep]; exact hsent⟩
    · have := (hquiet.mp h).2
      omega
    · rw [hstep, peers, peers, hpeers, List.length_append, List.length_singleton]
      omega

/-- A DISCONNECT rests only if it comes from nobody that is registered. -/
theorem disconnect_cases {s : ServiceSession} {sender : Endpoint} {bytes : Bytes} {running : Bool}
    {draw : Nat → PeerId} {port : UInt16}
    (hdecode : Message.decode bytes = .ok (.disconnect port)) :
    s.Rests (.receive sender bytes running draw) ∨
      s.Tells (.receive sender bytes running draw) := by
  have hstep : s.step (.receive sender bytes running draw) =
      let result := s.service.onDisconnect ⟨sender.address, port⟩
      ({ s with service := result.1 }, .reply Answer.none, result.2) := by
    simp only [step, Service.receive, hdecode, Service.handle]
  have hquiet : s.Quiet (.receive sender bytes running draw) ↔
      s.service.registry.find? ⟨sender.address, port⟩ = none := by
    simp only [Quiet, hdecode]
    exact not_knows_iff
  have hadmits : ¬ s.Admits (.receive sender bytes running draw) := by
    simp only [Admits, hdecode]
    rintro ⟨port', heq, -⟩
    cases heq
  obtain ⟨hnone, heq⟩ | ⟨⟨entry, hfind⟩, -, hlt, hsent⟩ :=
    s.service.onDisconnect_cases ⟨sender.address, port⟩
  · -- Nobody to remove.
    left
    exact ⟨hquiet.mpr hnone, by rw [hstep, heq], hadmits, by rw [hstep, heq]⟩
  · right
    refine ⟨fun h => ?_, .inr ?_, by rw [hstep]; exact hsent⟩
    · rw [hquiet.mp h] at hfind
      cases hfind
    · rw [hstep]
      exact Nat.ne_of_lt hlt

/-- All other bytes rest. -/
theorem receive_cases (s : ServiceSession) (sender : Endpoint) (bytes : Bytes) (running : Bool)
    (draw : Nat → PeerId) :
    s.Rests (.receive sender bytes running draw) ∨
      s.Tells (.receive sender bytes running draw) := by
  cases hdecode : Message.decode bytes with
  | error e =>
    refine .inl ⟨?_, ?_, ?_, ?_⟩ <;> simp [Quiet, Admits, step, Service.receive, hdecode, peers]
  | ok m =>
    cases m with
    | connect port => exact connect_cases hdecode
    | disconnect port => exact disconnect_cases hdecode
    | _ =>
      refine .inl ⟨?_, ?_, ?_, ?_⟩ <;>
        simp [Quiet, Admits, step, Service.receive, hdecode, Service.handle, peers]

/-- A regular step rests or tells. -/
theorem step_cases (s : ServiceSession) {a : ServiceStep} (ha : a.Regular) :
    s.Rests a ∨ s.Tells a := by
  cases a with
  | receive sender bytes running draw => exact s.receive_cases sender bytes running draw
  | enter e draw => exact ha.elim
  | sweep =>
    obtain ⟨hnobody, heq⟩ | ⟨hsomebody, -, hlt, hsent⟩ := s.service.sweep_cases s.now
    · left
      exact ⟨hnobody, by simp only [step, heq], id, by simp only [step, heq]⟩
    · exact .inr ⟨hsomebody, .inr (Nat.ne_of_lt hlt), hsent⟩
  | advance ms => exact .inl ⟨trivial, rfl, id, rfl⟩
  | reap e => exact .inl ⟨trivial, rfl, id, rfl⟩
  | close => exact .inl ⟨trivial, rfl, id, rfl⟩

/-- The quiet steps are those that neither change the set of peers nor admit one. -/
theorem quiet_iff {s : ServiceSession} (h : s.service.registry.WellFormed) {a : ServiceStep}
    (ha : a.Regular) :
    s.Quiet a ↔ (∀ p, p ∈ (s.step a).1.peers ↔ p ∈ s.peers) ∧ ¬ s.Admits a := by
  obtain hrests | htells := s.step_cases ha
  · refine ⟨fun _ => ⟨fun p => ?_, hrests.not_admits⟩, fun _ => hrests.quiet⟩
    rw [hrests.peers_eq]
  · refine ⟨fun hquiet => (htells.not_quiet hquiet).elim, ?_⟩
    rintro ⟨hmem, hadmits⟩
    rcases htells.cause with h' | hlength
    · exact (hadmits h').elim
    · exact (hlength (h.length_eq (wellFormed_step h a) hmem)).elim

end ServiceSession

/-! ## The broadcast -/

/-- A well-formed registry is within the bounds of a message: nothing is dropped. -/
theorem Registry.WellFormed.exists_broadcast {r : Registry} (h : r.WellFormed) :
    ∃ bytes, (Message.clientListUpdate r.peers).encode = .ok bytes ∧
      Message.decode bytes = .ok (.clientListUpdate r.peers) ∧
      broadcast r.peers = r.peers.map fun p => ⟨p.endpoint, bytes⟩ := by
  have hbounds : (Message.clientListUpdate r.peers).WithinBounds :=
    Nat.le_trans h.length_le h.limit_le
  obtain ⟨bytes, hencode, hdecode, hparcels⟩ := exists_parcelsTo hbounds
  exact ⟨bytes, hencode, hdecode, hparcels r.peers⟩

/-! ## What every endpoint was sent -/

/-- The bytes of those parcels that are for an endpoint. -/
def mailFor (e : Endpoint) (sent : List Parcel) : List Bytes :=
  (sent.filter (·.target == e)).map (·.bytes)

/-- The service, and what it has sent to each endpoint since the endpoint was entered. -/
structure Mailing where
  session : ServiceSession
  mail : Endpoint → List Bytes

namespace Mailing

/-- The service before any registration. -/
def start (config : ServiceConfig) : Mailing := ⟨ServiceSession.start config, fun _ => []⟩

/-- Let one thing happen. What was sent to an endpoint is forgotten once it is not registered. -/
def step (m : Mailing) (a : ServiceStep) : Mailing :=
  ⟨(m.session.step a).1, fun e =>
    (if m.session.Knows e then m.mail e else []) ++ mailFor e (m.session.step a).2.2⟩

/-- Let things happen one after the other. -/
def run (m : Mailing) (steps : List ServiceStep) : Mailing := steps.foldl step m

/-- The last message to every registered endpoint holds the current table. -/
def Fresh (m : Mailing) : Prop :=
  ∀ p ∈ m.session.peers, ∃ bytes, (m.mail p.endpoint).getLast? = some bytes ∧
    Message.decode bytes = .ok (.clientListUpdate m.session.peers)

/-- The last of the mail to a peer of a broadcast is the broadcast. -/
theorem getLast?_append_mailFor {ps : List Peer} {p : Peer} (hp : p ∈ ps) (old : List Bytes)
    (bytes : Bytes) :
    (old ++ mailFor p.endpoint (ps.map fun q => ⟨q.endpoint, bytes⟩)).getLast? = some bytes := by
  refine getLast?_append_of_forall_eq old ?_ fun b hb => ?_
  · refine List.mem_map.mpr ⟨⟨p.endpoint, bytes⟩, ?_, rfl⟩
    exact List.mem_filter.mpr ⟨List.mem_map_of_mem hp, by simp⟩
  · obtain ⟨parcel, hparcel, rfl⟩ := List.mem_map.mp hb
    obtain ⟨q, -, rfl⟩ := List.mem_map.mp (List.mem_filter.mp hparcel).1
    rfl

/-- No regular step leaves a member with an old table. -/
theorem fresh_step {m : Mailing} (h : m.session.service.registry.WellFormed) (hfresh : m.Fresh)
    {a : ServiceStep} (ha : a.Regular) : (m.step a).Fresh := by
  intro p hp
  -- Either nothing has changed and nothing was sent, or the present table was sent to all.
  obtain hrests | htells := m.session.step_cases ha
  · have hpeers : (m.step a).session.peers = m.session.peers := hrests.peers_eq
    rw [hpeers] at hp ⊢
    obtain ⟨bytes, hlast, hdecode⟩ := hfresh p hp
    refine ⟨bytes, ?_, hdecode⟩
    have hmail : (m.step a).mail p.endpoint = m.mail p.endpoint := by
      show (if m.session.Knows p.endpoint then m.mail p.endpoint else []) ++
        mailFor p.endpoint (m.session.step a).2.2 = _
      rw [if_pos ⟨p, hp, rfl⟩, hrests.sent_eq]
      exact List.append_nil _
    rw [hmail, hlast]
  · obtain ⟨bytes, -, hdecode, hsent⟩ :=
      (ServiceSession.wellFormed_step h a).exists_broadcast
    refine ⟨bytes, ?_, hdecode⟩
    show ((if m.session.Knows p.endpoint then m.mail p.endpoint else []) ++
      mailFor p.endpoint (m.session.step a).2.2).getLast? = _
    rw [htells.sent_eq, ServiceSession.peers, hsent]
    exact getLast?_append_mailFor hp _ bytes

/-- Every run is a run of the service. -/
theorem session_run (m : Mailing) (steps : List ServiceStep) :
    (m.run steps).session = m.session.run steps := by
  induction steps generalizing m with
  | nil => rfl
  | cons a rest ih => exact ih (m.step a)

/-- Every regular run keeps the mail fresh. -/
theorem fresh_run {m : Mailing} (h : m.session.service.registry.WellFormed) (hfresh : m.Fresh)
    {steps : List ServiceStep} (hsteps : ∀ a ∈ steps, a.Regular) : (m.run steps).Fresh := by
  induction steps generalizing m with
  | nil => exact hfresh
  | cons a rest ih =>
    have ha : a.Regular := hsteps a List.mem_cons_self
    exact ih (ServiceSession.wellFormed_step h a) (fresh_step h hfresh ha)
      fun b hb => hsteps b (List.mem_cons_of_mem _ hb)

end Mailing

/-! ## The whole run -/

/-- How a step tells the endpoints. A step is quiet if no peer comes or goes and no CONNECT is
accepted. Then it sends nothing, and otherwise the table goes to each peer once. -/
structure ServiceSession.Announces (s : ServiceSession) (a : ServiceStep) : Prop where
  encodes : ∃ bytes, (Message.clientListUpdate (s.step a).1.peers).encode = .ok bytes
  at_most_one : ((s.step a).2.2.map (·.target)).Nodup
  members_only : ∀ parcel ∈ (s.step a).2.2, (s.step a).1.Knows parcel.target
  quiet_iff : s.Quiet a ↔ (∀ p, p ∈ (s.step a).1.peers ↔ p ∈ s.peers) ∧ ¬ s.Admits a
  sent_of_quiet : s.Quiet a → (s.step a).2.2 = []
  sent_of_not_quiet : ¬ s.Quiet a → ∀ bytes,
    (Message.clientListUpdate (s.step a).1.peers).encode = .ok bytes →
      (s.step a).2.2 = (s.step a).1.peers.map fun p => ⟨p.endpoint, bytes⟩

/-- Every regular step of a well-formed service tells all or nobody. -/
theorem ServiceSession.announces {s : ServiceSession} (h : s.service.registry.WellFormed)
    {a : ServiceStep} (ha : a.Regular) : s.Announces a := by
  have h' : (s.step a).1.service.registry.WellFormed := wellFormed_step h a
  obtain ⟨bytes, hencode, -, hbroadcast⟩ := h'.exists_broadcast
  obtain hrests | htells := s.step_cases ha
  · refine ⟨⟨bytes, hencode⟩, ?_, ?_, quiet_iff h ha, fun _ => hrests.sent_eq, ?_⟩
    · rw [hrests.sent_eq]
      exact List.nodup_nil
    · rw [hrests.sent_eq]
      exact fun parcel hparcel => absurd hparcel List.not_mem_nil
    · exact fun hloud => (hloud hrests.quiet).elim
  · have hsent : (s.step a).2.2 = (s.step a).1.peers.map fun p => ⟨p.endpoint, bytes⟩ :=
      htells.sent_eq.trans hbroadcast
    refine ⟨⟨bytes, hencode⟩, ?_, ?_, quiet_iff h ha, ?_, ?_⟩
    · rw [hsent, List.map_map]
      exact h'.nodup
    · intro parcel hparcel
      rw [hsent] at hparcel
      obtain ⟨p, hp, rfl⟩ := List.mem_map.mp hparcel
      exact ⟨p, hp, rfl⟩
    · exact fun hquiet => (htells.not_quiet hquiet).elim
    · intro _ bytes' hencode'
      obtain rfl : bytes = bytes' := Except.ok.inj (hencode.symm.trans hencode')
      exact hsent

/-- After every run of the service the last message to each registered endpoint holds the current
table, and the next step tells all or nobody. -/
theorem broadcast_freshness (config : ServiceConfig) (steps : List ServiceStep)
    (hsteps : ∀ a ∈ steps, a.Regular) :
    ((Mailing.start config).run steps).Fresh ∧
      ∀ a : ServiceStep, a.Regular → ((Mailing.start config).run steps).session.Announces a := by
  have hstart : (Mailing.start config).session.service.registry.WellFormed :=
    Registry.wellFormed_empty config.maxPeers
  have hempty : (Mailing.start config).Fresh := fun p hp => absurd hp List.not_mem_nil
  refine ⟨Mailing.fresh_run hstart hempty hsteps, fun a ha => ?_⟩
  rw [Mailing.session_run]
  exact ServiceSession.announces (ServiceSession.wellFormed_run hstart steps) ha

/-- Two peers connect under colliding ids, the first is silent for too long, and the second sends
a byte that is no message. -/
def oneLeaves : List ServiceStep :=
  [.receive ⟨.v4 ⟨10, 0, 0, 1⟩, 5000⟩ [3, 168, 202] true fun _ => ⟨7⟩, .advance 20000,
    .receive ⟨.v4 ⟨10, 0, 0, 2⟩, 6000⟩ [3, 168, 202] true fun _ => ⟨7⟩, .advance 20000, .sweep,
    .receive ⟨.v4 ⟨10, 0, 0, 2⟩, 6000⟩ [255] true fun _ => ⟨7⟩]

/-- The peer that is left was told last of the table without the one that is gone; the sweep that
comes next may empty it. -/
theorem broadcast_freshness_oneLeaves :
    (∀ a ∈ oneLeaves, a.Regular) ∧
      ((Mailing.start ⟨5000, 30000, 5000, 2000, 20⟩).run oneLeaves).session.peers =
        [⟨.v4 ⟨10, 0, 0, 2⟩, 43210, ⟨7⟩⟩] ∧
      ((Mailing.start ⟨5000, 30000, 5000, 2000, 20⟩).run oneLeaves).Fresh ∧
      ((Mailing.start ⟨5000, 30000, 5000, 2000, 20⟩).run oneLeaves).session.Announces .sweep := by
  have hregular : ∀ a ∈ oneLeaves, a.Regular := by simp [oneLeaves, ServiceStep.Regular]
  have h := broadcast_freshness ⟨5000, 30000, 5000, 2000, 20⟩ oneLeaves hregular
  exact ⟨hregular, by decide +kernel, h.1, h.2 .sweep trivial⟩

end Ensemble
