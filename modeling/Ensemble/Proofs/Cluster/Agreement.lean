import Ensemble.Cluster.Basic
import Ensemble.Proofs.Membership.Entries
import Ensemble.Proofs.Node.Registration
import Mathlib.Logic.Function.Basic

/-!
# When the nodes agree on the table

Every parcel of the service carries a whole table, and a node takes over the peers of whatever
parcel reaches it, for none tells how old it is. The parcels are delivered in any order. So once
none is in flight, a registered node holds the peers of the parcel that reached it last, and this
may be an old one. The nodes agree with the registry exactly if everybody was reached last by its
present table.

* `ServiceSession.brings_of_mem_mail` — what a step sends carries the table as it is afterwards.
* `Assembly.Kept.step` — what holds of the parcels sent and delivered throughout.
* `agreed_iff_latest` — when the nodes agree; they do if no parcel overtakes another to one node.
* `not_agreed_overtaken` — a run in which an old table arrives after a new one.
-/

namespace Ensemble

/-! ## Parcels that bring peers -/

/-- The peers that a message brings. -/
def Message.peers? : Message → Option (List Peer)
  | .clientList _ table => some table.peers
  | .clientListUpdate peers => some peers
  | _ => none

/-- The parcel brings its receiver these peers. -/
def Parcel.Brings (p : Parcel) (peers : List Peer) : Prop :=
  ∃ m, Message.decode p.bytes = .ok m ∧ m.peers? = some peers

/-- The bytes of a parcel are one message, and so bring one list of peers. -/
theorem Parcel.Brings.unique {p : Parcel} {peers peers' : List Peer} (h : p.Brings peers)
    (h' : p.Brings peers') : peers = peers' := by
  obtain ⟨m, hdecode, hm⟩ := h
  obtain ⟨m', hdecode', hm'⟩ := h'
  cases Except.ok.inj (hdecode.symm.trans hdecode')
  exact Option.some.inj (hm.symm.trans hm')

/-- Whatever peers a parcel brings, the receiver holds them afterwards. -/
theorem Parcel.Brings.peers_receive {p : Parcel} {peers : List Peer} (h : p.Brings peers)
    (n : Node) (sender : Endpoint) :
    (n.receive p.bytes sender).node.view.table.peers = peers := by
  obtain ⟨m, hdecode, hm⟩ := h
  simp only [Node.receive, hdecode]
  cases m with
  | clientList ownId table => exact Option.some.inj hm
  | clientListUpdate peers' => exact Option.some.inj hm
  | control _ | changeSong _ _ | disconnect _ | connect _ | queryStatus | sendStatus _
  | election _ => cases hm

/-- A table in reply to a registration has the effect that it has in a parcel. -/
theorem Node.register_answers (n : Node) {own : PeerId} {table : PeerTable} {bytes : Bytes}
    (h : (Message.clientList own table).encode = .ok bytes) (sender : Endpoint) :
    (n.register (.answers [bytes])).node = (n.receive bytes sender).node := by
  have hdecode : Message.decode bytes = .ok (.clientList own table) := Message.decode_of_encode h
  have hreply : (Remote.answers [bytes]).reply? = some bytes := by
    rw [Remote.reply?_answers, List.flatten_singleton]
  rw [register_of_clientList hreply hdecode, receive, hdecode]
  rfl

/-- The parcels of a list that are for an endpoint. -/
def parcelsFor (e : Endpoint) (parcels : List Parcel) : List Parcel :=
  parcels.filter (·.target == e)

/-- The last of them. -/
def lastFor (e : Endpoint) (parcels : List Parcel) : Option Parcel :=
  (parcelsFor e parcels).getLast?

theorem parcelsFor_append (e : Endpoint) (old new : List Parcel) :
    parcelsFor e (old ++ new) = parcelsFor e old ++ parcelsFor e new := List.filter_append _ _

theorem parcelsFor_cons_of_eq {e : Endpoint} {p : Parcel} (h : p.target = e)
    (parcels : List Parcel) : parcelsFor e (p :: parcels) = p :: parcelsFor e parcels :=
  List.filter_cons_of_pos (by rw [h, beq_self_eq_true])

theorem parcelsFor_cons_of_ne {e : Endpoint} {p : Parcel} (h : p.target ≠ e)
    (parcels : List Parcel) : parcelsFor e (p :: parcels) = parcelsFor e parcels :=
  List.filter_cons_of_neg (by rwa [beq_iff_eq])

/-- Nothing is for an endpoint exactly if everything is for others. -/
theorem parcelsFor_eq_nil_iff {e : Endpoint} {parcels : List Parcel} :
    parcelsFor e parcels = [] ↔ ∀ p ∈ parcels, p.target ≠ e := by
  rw [parcelsFor, List.filter_eq_nil_iff]
  simp only [beq_iff_eq, ne_eq]

/-- What was sent later counts, if there is any of it. -/
theorem lastFor_append (e : Endpoint) (old new : List Parcel) :
    lastFor e (old ++ new) = (lastFor e new).or (lastFor e old) := by
  rw [lastFor, parcelsFor_append, List.getLast?_append]
  rfl

/-- The last parcel for an endpoint is one of those that were sent. -/
theorem mem_of_lastFor {e : Endpoint} {parcels : List Parcel} {p : Parcel}
    (h : lastFor e parcels = some p) : p ∈ parcels :=
  (List.mem_filter.mp (List.mem_of_getLast? h)).1

/-- Without a last parcel there is none. -/
theorem lastFor_eq_none_iff {e : Endpoint} {parcels : List Parcel} :
    lastFor e parcels = none ↔ ∀ p ∈ parcels, p.target ≠ e := by
  rw [lastFor, List.getLast?_eq_none_iff, parcelsFor_eq_nil_iff]

/-! ## What the service sends -/

namespace ServiceSession

/-- The reply to a CONNECT, as a parcel for the endpoint that connects. -/
def replies (s : ServiceSession) : ServiceStep → List Parcel
  | .receive sender bytes running draw =>
    match Message.decode bytes with
    | .ok (.connect port) =>
      let answer := (s.service.receive ⟨s.now, running, draw⟩ bytes sender).answer
      if answer.wanted then [⟨⟨sender.address, port⟩, answer.bytes⟩] else []
    | _ => []
  | _ => []

/-- All that a step sends: the reply, and the broadcast. -/
def mail (s : ServiceSession) (a : ServiceStep) : List Parcel := s.replies a ++ (s.step a).2.2

/-- An answer that welcomes a peer carries the table. -/
theorem brings_welcome {own : PeerId} {table : PeerTable} {e : Endpoint}
    (h : (Service.welcome own table).wanted = true) :
    Parcel.Brings ⟨e, (Service.welcome own table).bytes⟩ table.peers := by
  rw [Service.welcome] at h ⊢
  split at h
  · rename_i bytes hencode
    exact ⟨.clientList own table, Message.decode_of_encode hencode, rfl⟩
  · cases h

/-- A reply carries the table as it is after the step. -/
theorem brings_of_mem_replies {s : ServiceSession} {a : ServiceStep} {parcel : Parcel}
    (h : parcel ∈ s.replies a) : parcel.Brings (s.step a).1.peers := by
  cases a with
  | receive sender bytes running draw =>
    rw [replies] at h
    split at h
    · -- Only a CONNECT is answered, and only if its endpoint is registered then.
      rename_i port hdecode
      have hreceive : s.service.receive ⟨s.now, running, draw⟩ bytes sender =
          s.service.onConnect ⟨s.now, running, draw⟩ ⟨sender.address, port⟩ := by
        rw [Service.receive, hdecode]
        rfl
      have hpeers : (s.step (.receive sender bytes running draw)).1.peers =
          (s.service.onConnect ⟨s.now, running, draw⟩
            ⟨sender.address, port⟩).service.registry.peers := by
        rw [← hreceive]
        rfl
      rw [hreceive] at h
      rw [hpeers]
      simp only at h
      split at h
      · rename_i hwanted
        obtain rfl := List.mem_singleton.mp h
        obtain ⟨entry, -, hregistry, hanswer, -⟩ | ⟨-, -, heq⟩ | ⟨-, -, -, -, hanswer, -⟩ :=
          s.service.onConnect_cases ⟨s.now, running, draw⟩ ⟨sender.address, port⟩
        · rw [hanswer] at hwanted ⊢
          rw [hregistry]
          exact brings_welcome hwanted
        · rw [heq] at hwanted
          cases hwanted
        · rw [hanswer] at hwanted ⊢
          exact brings_welcome hwanted
      · exact absurd h List.not_mem_nil
    · exact absurd h List.not_mem_nil
  | enter _ _ | sweep | advance _ | reap _ | close => exact absurd h List.not_mem_nil

/-- Whatever a step sends carries the table as it is after the step. -/
theorem brings_of_mem_mail {s : ServiceSession} {a : ServiceStep} (ha : a.Regular)
    {parcel : Parcel} (h : parcel ∈ s.mail a) : parcel.Brings (s.step a).1.peers := by
  rcases List.mem_append.mp h with hreply | hsent
  · exact brings_of_mem_replies hreply
  · obtain hrests | htells := s.step_cases ha
    · rw [hrests.sent_eq] at hsent
      exact absurd hsent List.not_mem_nil
    · rw [htells.sent_eq] at hsent
      obtain ⟨_, -, -, hdecode⟩ := mem_parcelsTo hsent
      exact ⟨_, hdecode, rfl⟩

/-- A step changes no peers, or tells all that are registered afterwards. -/
theorem peers_eq_or_told {s : ServiceSession} (h : s.service.registry.WellFormed)
    {a : ServiceStep} (ha : a.Regular) :
    (s.step a).1.peers = s.peers ∨
      ∀ p ∈ (s.step a).1.peers, ∃ parcel ∈ s.mail a, parcel.target = p.endpoint := by
  obtain hrests | htells := s.step_cases ha
  · exact .inl hrests.peers_eq
  · obtain ⟨bytes, -, -, hsent⟩ := (wellFormed_step h a).exists_broadcast
    refine .inr fun p hp => ⟨⟨p.endpoint, bytes⟩, List.mem_append_right _ ?_, rfl⟩
    rw [htells.sent_eq, peers, hsent]
    exact List.mem_map_of_mem hp

/-- Who leaves is not registered afterwards. -/
theorem not_knows_of_leaver {s : ServiceSession} (h : s.service.registry.WellFormed)
    {a : ServiceStep} {e : Endpoint} (ha : a.leaver? = some e) : ¬ (s.step a).1.Knows e := by
  cases a with
  | receive sender bytes running draw =>
    rw [ServiceStep.leaver?] at ha
    split at ha
    · rename_i port hdecode
      obtain rfl := Option.some.inj ha
      have hstep : (s.step (.receive sender bytes running draw)).1.service =
          (s.service.onDisconnect ⟨sender.address, port⟩).1 := by
        show (s.service.receive ⟨s.now, running, draw⟩ bytes sender).service = _
        rw [Service.receive, hdecode]
        rfl
      rw [not_knows_iff, hstep]
      obtain ⟨hnone, heq⟩ | ⟨-, heq, -⟩ := s.service.onDisconnect_cases ⟨sender.address, port⟩
      · rw [heq]
        exact hnone
      · rw [heq, Registry.find?, (h.drops_remove ⟨sender.address, port⟩).entries_eq]
        refine List.find?_eq_none.mpr fun x hx => ?_
        simpa using (List.mem_filter.mp hx).2
    · cases ha
  | enter _ _ | sweep | advance _ | reap _ | close => cases ha

end ServiceSession

/-! ## The service and its nodes -/

/-- The service, the nodes, the parcels on their way to them, and those that were sent and delivered
so far. -/
structure Assembly where
  session : ServiceSession
  /-- The node at an endpoint. -/
  node : Endpoint → Node
  inFlight : List Parcel
  sent : List Parcel
  delivered : List Parcel

/-- Something that happens to an assembly. -/
inductive AssemblyStep where
  | serve (a : ServiceStep)
  /-- The parcel at a place of those in flight is delivered. -/
  | deliver (place : Nat)

/-- The service enters nobody for whom no message asked. -/
def AssemblyStep.Regular : AssemblyStep → Prop
  | .serve a => a.Regular
  | .deliver _ => True

namespace Assembly

/-- The service before any registration, and whatever nodes there are. -/
def start (config : ServiceConfig) (node : Endpoint → Node) : Assembly :=
  ⟨ServiceSession.start config, node, [], [], []⟩

/-- A step of the service; a node that leaves with it forgets its table. -/
def serve (c : Assembly) (a : ServiceStep) : Assembly where
  session := (c.session.step a).1
  node := match a.leaver? with
    | some e => Function.update c.node e (c.node e).forget
    | none => c.node
  inFlight := c.inFlight ++ c.session.mail a
  sent := c.sent ++ c.session.mail a
  delivered := c.delivered

/-- The node to which a parcel is addressed receives it. -/
def receive (c : Assembly) (place : Nat) (parcel : Parcel) : Assembly :=
  { c with
    node := Function.update c.node parcel.target
      ((c.node parcel.target).receive parcel.bytes Cluster.serviceEndpoint).node
    inFlight := c.inFlight.eraseIdx place
    delivered := c.delivered ++ [parcel] }

/-- Let one thing happen. -/
def step (c : Assembly) : AssemblyStep → Assembly
  | .serve a => c.serve a
  | .deliver place =>
    match c.inFlight[place]? with
    | some parcel => c.receive place parcel
    | none => c

/-- Let things happen one after the other. -/
def run (c : Assembly) (steps : List AssemblyStep) : Assembly := steps.foldl step c

/-- Every registered node holds the registry's peers, and hence derives its coordinator. -/
def Agreed (c : Assembly) : Prop :=
  ∀ p ∈ c.session.peers, (c.node p.endpoint).view.table.peers = c.session.peers ∧
    (c.node p.endpoint).view.coordinator = c.session.service.registry.table.coordinator

instance (c : Assembly) : Decidable c.Agreed :=
  inferInstanceAs (Decidable (∀ p ∈ c.session.peers, _ ∧ _))

/-- A delivery leaves no earlier parcel to the same node behind. -/
def InOrder (c : Assembly) : AssemblyStep → Prop
  | .serve _ => True
  | .deliver place => ∀ parcel ∈ c.inFlight[place]?, ∀ earlier ∈ c.inFlight.take place,
    earlier.target ≠ parcel.target

instance (c : Assembly) (a : AssemblyStep) : Decidable (c.InOrder a) :=
  match a with
  | .serve _ => isTrue trivial
  | .deliver place => inferInstanceAs (Decidable (∀ parcel ∈ c.inFlight[place]?,
    ∀ earlier ∈ c.inFlight.take place, earlier.target ≠ parcel.target))

/-- No delivery of the run does. -/
def Orderly : Assembly → List AssemblyStep → Prop
  | _, [] => True
  | c, a :: rest => c.InOrder a ∧ (c.step a).Orderly rest

instance decidableOrderly : (c : Assembly) → (steps : List AssemblyStep) →
    Decidable (c.Orderly steps)
  | _, [] => isTrue trivial
  | c, a :: rest =>
    have := decidableOrderly (c.step a) rest
    inferInstanceAs (Decidable (c.InOrder a ∧ (c.step a).Orderly rest))

/-- Serving changes a node only if its endpoint leaves, and then it is not registered afterwards. -/
theorem node_serve_of_knows {c : Assembly} (h : c.session.service.registry.WellFormed)
    {a : ServiceStep} {e : Endpoint} (he : (c.session.step a).1.Knows e) :
    (c.serve a).node e = c.node e := by
  rcases hleaver : a.leaver? with _ | e'
  · simp only [serve, hleaver]
  · have hne : e ≠ e' := by
      rintro rfl
      exact ServiceSession.not_knows_of_leaver h hleaver he
    simp only [serve, hleaver]
    exact Function.update_of_ne hne _ _

/-- A delivery finds no parcel, or takes out the parcel at its place. -/
theorem step_deliver_cases (c : Assembly) (place : Nat) :
    c.step (.deliver place) = c ∨
    ∃ before parcel after, c.inFlight = before ++ parcel :: after ∧ before.length = place ∧
      c.step (.deliver place) = c.receive place parcel ∧
      (c.receive place parcel).inFlight = before ++ after := by
  by_cases h : place < c.inFlight.length
  · obtain ⟨before, parcel, after, hsplit, hlength, hget, herase⟩ := exists_split_of_lt h
    exact .inr ⟨before, parcel, after, hsplit, hlength, by simp only [step, hget], herase⟩
  · have hnone : c.inFlight[place]? = none := List.getElem?_eq_none (Nat.le_of_not_lt h)
    exact .inl (by simp only [step, hnone])

/-! ## What holds throughout -/

/-- All parcels in flight bring peers. To every registered node one is on its way, or the node holds
the peers of the parcel that was delivered to it last; and the parcel that was sent to it last
brings the peers that are registered now. -/
structure Kept (c : Assembly) : Prop where
  wellFormed : c.session.service.registry.WellFormed
  bring : ∀ parcel ∈ c.inFlight, ∃ peers, parcel.Brings peers
  reached : ∀ p ∈ c.session.peers, (∃ parcel ∈ c.inFlight, parcel.target = p.endpoint) ∨
    ∃ parcel, lastFor p.endpoint c.delivered = some parcel ∧
      parcel.Brings (c.node p.endpoint).view.table.peers
  latest : ∀ p ∈ c.session.peers, ∃ parcel, lastFor p.endpoint c.sent = some parcel ∧
    parcel.Brings c.session.peers

/-- What the service does sends a fresh table to all it concerns, so the last parcel for each is
right. -/
theorem Kept.serve {c : Assembly} (h : c.Kept) {a : ServiceStep} (ha : a.Regular) :
    (c.serve a).Kept := by
  have hbring : ∀ parcel ∈ c.session.mail a, parcel.Brings (c.session.step a).1.peers :=
    fun parcel hparcel => ServiceSession.brings_of_mem_mail ha hparcel
  have htold := ServiceSession.peers_eq_or_told h.wellFormed ha
  refine ⟨ServiceSession.wellFormed_step h.wellFormed a, fun parcel hparcel => ?_,
    fun p hp => ?_, fun p hp => ?_⟩
  · rcases List.mem_append.mp hparcel with hold | hnew
    · exact h.bring parcel hold
    · exact ⟨_, hbring parcel hnew⟩
  · rcases htold with hsame | hall
    · have hbefore : p ∈ c.session.peers := by
        rw [← hsame]
        exact hp
      rw [node_serve_of_knows h.wellFormed ⟨p, hp, rfl⟩]
      refine (h.reached p hbefore).imp_left ?_
      rintro ⟨parcel, hparcel, htarget⟩
      exact ⟨parcel, List.mem_append_left _ hparcel, htarget⟩
    · obtain ⟨parcel, hparcel, htarget⟩ := hall p hp
      exact .inl ⟨parcel, List.mem_append_right _ hparcel, htarget⟩
  · show ∃ parcel, lastFor p.endpoint (c.sent ++ c.session.mail a) = some parcel ∧
      parcel.Brings (c.session.step a).1.peers
    rw [lastFor_append]
    rcases hlast : lastFor p.endpoint (c.session.mail a) with _ | parcel
    · -- Nothing was sent to the node, so no peers have changed.
      rcases htold with hsame | hall
      · rw [hsame]
        refine h.latest p ?_
        rw [← hsame]
        exact hp
      · obtain ⟨parcel, hparcel, htarget⟩ := hall p hp
        exact absurd htarget (lastFor_eq_none_iff.mp hlast parcel hparcel)
    · exact ⟨parcel, rfl, hbring parcel (mem_of_lastFor hlast)⟩

/-- A delivery moves one parcel from those in flight to those delivered. It becomes the last one for
its endpoint, which then holds what it brings. -/
theorem Kept.receive {c : Assembly} (h : c.Kept) {place : Nat} {parcel : Parcel}
    {before after : List Parcel} (hsplit : c.inFlight = before ++ parcel :: after)
    (htake : (c.receive place parcel).inFlight = before ++ after) :
    (c.receive place parcel).Kept := by
  have hin : parcel ∈ c.inFlight := hsplit ▸ List.mem_append_cons_self
  refine ⟨h.wellFormed, fun q hq => h.bring q (List.mem_of_mem_eraseIdx hq), fun p hp => ?_,
    h.latest⟩
  show _ ∨ ∃ q, lastFor p.endpoint (c.delivered ++ [parcel]) = some q ∧ _
  rw [lastFor_append]
  -- The receiver now holds what the parcel brings; for all others the same parcels are last.
  by_cases htarget : parcel.target = p.endpoint
  · obtain ⟨peers, hpeers⟩ := h.bring parcel hin
    have hlast : lastFor p.endpoint [parcel] = some parcel := by
      rw [lastFor, parcelsFor_cons_of_eq htarget]
      rfl
    have hnode : ((c.receive place parcel).node p.endpoint).view.table.peers = peers := by
      rw [← htarget]
      show (Function.update c.node parcel.target _ parcel.target).view.table.peers = peers
      rw [Function.update_self]
      exact hpeers.peers_receive _ _
    rw [hlast, hnode]
    exact .inr ⟨parcel, rfl, hpeers⟩
  · have hlast : lastFor p.endpoint [parcel] = none :=
      lastFor_eq_none_iff.mpr fun q hq => List.mem_singleton.mp hq ▸ htarget
    have hnode : (c.receive place parcel).node p.endpoint = c.node p.endpoint :=
      Function.update_of_ne (Ne.symm htarget) _ _
    rw [hlast, hnode, Option.none_or, htake]
    refine (h.reached p hp).imp_left ?_
    rintro ⟨q, hq, hqtarget⟩
    rw [hsplit, List.mem_append, List.mem_cons] at hq
    rcases hq with hbefore | rfl | hafter
    · exact ⟨q, List.mem_append_left _ hbefore, hqtarget⟩
    · exact absurd hqtarget htarget
    · exact ⟨q, List.mem_append_right _ hafter, hqtarget⟩

/-- Neither a step of the service nor a delivery breaks it. -/
theorem Kept.step {c : Assembly} (h : c.Kept) {a : AssemblyStep} (ha : a.Regular) :
    (c.step a).Kept := by
  cases a with
  | serve a => exact h.serve ha
  | deliver place =>
    obtain hnone | ⟨before, parcel, after, hsplit, -, hstep, htake⟩ := c.step_deliver_cases place
    · rw [hnone]
      exact h
    · rw [hstep]
      exact h.receive hsplit htake

/-- What a step preserves a run preserves. -/
theorem Kept.run {c : Assembly} (h : c.Kept) {steps : List AssemblyStep}
    (hsteps : ∀ a ∈ steps, a.Regular) : (c.run steps).Kept := by
  induction steps generalizing c with
  | nil => exact h
  | cons a rest ih =>
    exact ih (h.step (hsteps a List.mem_cons_self)) fun b hb => hsteps b (List.mem_cons_of_mem _ hb)

/-- Before anything happens nobody is registered. -/
theorem kept_start (config : ServiceConfig) (node : Endpoint → Node) :
    (start config node).Kept where
  wellFormed := Registry.wellFormed_empty config.maxPeers
  bring := fun _ h => absurd h List.not_mem_nil
  reached := fun _ h => absurd h List.not_mem_nil
  latest := fun _ h => absurd h List.not_mem_nil

/-- Once nothing is in flight, the nodes agree exactly if each was reached last by the present
table. -/
theorem Kept.agreed_iff {c : Assembly} (h : c.Kept) (hquiet : c.inFlight = []) :
    (∀ p ∈ c.session.peers, ∃ parcel, lastFor p.endpoint c.delivered = some parcel ∧
      parcel.Brings (c.node p.endpoint).view.table.peers) ∧
    (c.Agreed ↔ ∀ p ∈ c.session.peers, ∃ parcel,
      lastFor p.endpoint c.delivered = some parcel ∧ parcel.Brings c.session.peers) := by
  -- With nothing in flight, everybody holds what came last.
  have hreached : ∀ p ∈ c.session.peers, ∃ parcel,
      lastFor p.endpoint c.delivered = some parcel ∧
        parcel.Brings (c.node p.endpoint).view.table.peers := by
    intro p hp
    refine (h.reached p hp).resolve_left ?_
    rintro ⟨parcel, hparcel, -⟩
    rw [hquiet] at hparcel
    exact absurd hparcel List.not_mem_nil
  refine ⟨hreached, fun hagreed p hp => ?_, fun hlast p hp => ?_⟩
  · obtain ⟨parcel, hlast, hbrings⟩ := hreached p hp
    rw [(hagreed p hp).1] at hbrings
    exact ⟨parcel, hlast, hbrings⟩
  · obtain ⟨parcel, heq, hbrings⟩ := hreached p hp
    obtain ⟨parcel', heq', hpresent⟩ := hlast p hp
    obtain rfl : parcel = parcel' := Option.some.inj (heq.symm.trans heq')
    have hpeers := hbrings.unique hpresent
    refine ⟨hpeers, ?_⟩
    show highest (c.node p.endpoint).view.table.peers = highest c.session.peers
    rw [hpeers]

/-! ## Parcels that do not overtake one another -/

/-- What was sent to each endpoint is what was delivered to it and what is on its way, in this
order. -/
def Queued (c : Assembly) : Prop :=
  ∀ e, parcelsFor e c.sent = parcelsFor e c.delivered ++ parcelsFor e c.inFlight

/-- A delivery in order takes the first parcel for its endpoint. -/
theorem Queued.step {c : Assembly} (h : c.Queued) {a : AssemblyStep} (ha : c.InOrder a) :
    (c.step a).Queued := by
  cases a with
  | serve a =>
    intro e
    show parcelsFor e (c.sent ++ c.session.mail a) =
      parcelsFor e c.delivered ++ parcelsFor e (c.inFlight ++ c.session.mail a)
    rw [parcelsFor_append, parcelsFor_append, h e, List.append_assoc]
  | deliver place =>
    obtain hnone | ⟨before, parcel, after, hsplit, hplace, hstep, htake⟩ :=
      c.step_deliver_cases place
    · rw [hnone]
      exact h
    · intro e
      -- No earlier parcel in flight is for the same endpoint, so the order of its parcels stays.
      have hfirst : ∀ q ∈ before, q.target ≠ parcel.target := by
        have horder := ha parcel (getElem?_of_split hsplit hplace)
        rwa [take_of_split hsplit hplace] at horder
      have hsent := h e
      rw [hsplit, parcelsFor_append] at hsent
      rw [hstep, htake, parcelsFor_append]
      show parcelsFor e c.sent = parcelsFor e (c.delivered ++ [parcel]) ++ _
      rw [hsent, parcelsFor_append]
      by_cases htarget : parcel.target = e
      · have hnil : parcelsFor e before = [] :=
          parcelsFor_eq_nil_iff.mpr fun q hq => htarget ▸ hfirst q hq
        rw [hnil, parcelsFor_cons_of_eq htarget, parcelsFor_cons_of_eq htarget, List.nil_append,
          List.nil_append, List.append_assoc]
        rfl
      · rw [parcelsFor_cons_of_ne htarget, parcelsFor_cons_of_ne htarget]
        show _ = parcelsFor e c.delivered ++ [] ++ _
        rw [List.append_nil]

/-- As long as all deliveries are in order, so are the parcels of every endpoint. -/
theorem Queued.run {c : Assembly} (h : c.Queued) {steps : List AssemblyStep}
    (hsteps : c.Orderly steps) : (c.run steps).Queued := by
  induction steps generalizing c with
  | nil => exact h
  | cons a rest ih => exact ih (h.step hsteps.1) hsteps.2

/-- If no parcel overtakes another to the same node, all end with the present table. -/
theorem Kept.agreed_of_queued {c : Assembly} (h : c.Kept) (hqueued : c.Queued)
    (hquiet : c.inFlight = []) : c.Agreed := by
  refine (h.agreed_iff hquiet).2.mpr fun p hp => ?_
  have hsent := hqueued p.endpoint
  rw [hquiet] at hsent
  change _ = parcelsFor p.endpoint c.delivered ++ [] at hsent
  rw [List.append_nil] at hsent
  obtain ⟨parcel, hlast, hbrings⟩ := h.latest p hp
  rw [lastFor, hsent] at hlast
  exact ⟨parcel, hlast, hbrings⟩

end Assembly

/-- Let nodes connect and leave, sweeps happen, and the parcels be delivered in any order. Once none
is in flight, every registered node holds the peers of the parcel that reached it last. So all hold
the registry's peers, and derive its coordinator, exactly if the parcel that reached each of them
last brought these peers; and so it is if no parcel overtook another to the same node. -/
theorem agreed_iff_latest (config : ServiceConfig) (node : Endpoint → Node)
    (steps : List AssemblyStep) (hsteps : ∀ a ∈ steps, a.Regular)
    (hquiet : ((Assembly.start config node).run steps).inFlight = []) :
    let c := (Assembly.start config node).run steps
    (∀ p ∈ c.session.peers, ∃ parcel, lastFor p.endpoint c.delivered = some parcel ∧
      parcel.Brings (c.node p.endpoint).view.table.peers) ∧
    (c.Agreed ↔ ∀ p ∈ c.session.peers, ∃ parcel,
      lastFor p.endpoint c.delivered = some parcel ∧ parcel.Brings c.session.peers) ∧
    ((Assembly.start config node).Orderly steps → c.Agreed) := by
  intro c
  have hkept : c.Kept := (Assembly.kept_start config node).run hsteps
  obtain ⟨hreached, hiff⟩ := hkept.agreed_iff hquiet
  have hstart : (Assembly.start config node).Queued := fun _ => rfl
  exact ⟨hreached, hiff, fun horder => hkept.agreed_of_queued (hstart.run horder) hquiet⟩

/-- A node that has not registered. -/
def newcomer : Node := Node.start ⟨43210, 2000, 2, false⟩ (Player.start 1)

/-- Two nodes connect, one after the other. -/
def twoConnect : List AssemblyStep :=
  [.serve (.receive ⟨.v4 ⟨10, 0, 0, 1⟩, 5000⟩ [3, 168, 202] true fun _ => ⟨3⟩),
    .serve (.receive ⟨.v4 ⟨10, 0, 0, 2⟩, 5000⟩ [3, 168, 202] true fun _ => ⟨9⟩)]

/-- The parcels arrive as they were sent. -/
def inTurn : List AssemblyStep := twoConnect ++ List.replicate 5 (.deliver 0)

/-- Two peers connect, and their parcels come in the order in which they were sent. -/
theorem agreed_iff_latest_inTurn :
    ((Assembly.start ⟨5000, 30000, 5000, 2000, 16⟩ fun _ => newcomer).run inTurn).session.peers =
        [⟨.v4 ⟨10, 0, 0, 1⟩, 43210, ⟨3⟩⟩, ⟨.v4 ⟨10, 0, 0, 2⟩, 43210, ⟨9⟩⟩] ∧
      ((Assembly.start ⟨5000, 30000, 5000, 2000, 16⟩ fun _ => newcomer).run inTurn).Agreed := by
  have hregular : ∀ a ∈ inTurn, a.Regular := by
    simp [inTurn, twoConnect, AssemblyStep.Regular, ServiceStep.Regular]
  obtain ⟨-, -, hagreed⟩ := agreed_iff_latest ⟨5000, 30000, 5000, 2000, 16⟩ (fun _ => newcomer)
    inTurn hregular (by decide +kernel)
  exact ⟨by decide +kernel, hagreed (by decide +kernel)⟩

/-- The first node receives the table of one peer after the table of both. -/
def overtaken : List AssemblyStep :=
  twoConnect ++ [.deliver 0, .deliver 2, .deliver 0, .deliver 0, .deliver 0]

/-- The first node is left with an old table, and derives another coordinator. -/
theorem not_agreed_overtaken :
    (∀ a ∈ overtaken, a.Regular) ∧
      ((Assembly.start ⟨5000, 30000, 5000, 2000, 16⟩ fun _ => newcomer).run overtaken).inFlight =
        [] ∧
      (((Assembly.start ⟨5000, 30000, 5000, 2000, 16⟩ fun _ => newcomer).run overtaken).node
        ⟨.v4 ⟨10, 0, 0, 1⟩, 43210⟩).view.coordinator = some ⟨.v4 ⟨10, 0, 0, 1⟩, 43210, ⟨3⟩⟩ ∧
      ((Assembly.start ⟨5000, 30000, 5000, 2000, 16⟩ fun _ => newcomer).run
        overtaken).session.service.registry.table.coordinator =
          some ⟨.v4 ⟨10, 0, 0, 2⟩, 43210, ⟨9⟩⟩ ∧
      ¬ ((Assembly.start ⟨5000, 30000, 5000, 2000, 16⟩ fun _ => newcomer).run
        overtaken).Agreed := by
  refine ⟨?_, by decide +kernel, by decide +kernel, by decide +kernel, by decide +kernel⟩
  simp [overtaken, twoConnect, AssemblyStep.Regular, ServiceStep.Regular]

end Ensemble
