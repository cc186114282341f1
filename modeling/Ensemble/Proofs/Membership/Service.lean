import Ensemble.Membership.Run
import Ensemble.Proofs.Membership.Registry

/-!
# What the service does with each kind of message

One lemma for each operation of the membership service says all that the operation does to the
registry and all that it sends: a CONNECT is answered or finds no room, a DISCONNECT and a sweep
remove somebody or nobody. Proofs about runs of the service cite these lemmas and open no operation.

* `Service.onConnect_cases`, `Service.onDisconnect_cases`, `Service.sweep_cases` — the outcomes.
* `ServiceSession.wellFormed_run` — every run of the service keeps its registry well formed.
-/

namespace Ensemble

namespace Service

/-- A CONNECT comes from a registered endpoint, or finds no room, or registers its endpoint. Unless
it finds no room, it is answered with its peer's id, and the table goes to all. -/
theorem onConnect_cases (s : Service) (moment : Moment) (e : Endpoint) :
    (∃ entry, s.registry.find? e = some entry ∧
      (s.onConnect moment e).service.registry = s.registry ∧
      (s.onConnect moment e).answer = welcome entry.peer.id s.registry.table ∧
      (s.onConnect moment e).sent = broadcast s.registry.peers) ∨
    (s.registry.find? e = none ∧ s.registry.limit ≤ s.registry.entries.length ∧
      s.onConnect moment e = ⟨s, Answer.none, []⟩) ∨
    (s.registry.find? e = none ∧ s.registry.entries.length < s.registry.limit ∧
      (s.onConnect moment e).service.registry = (s.registry.register moment.now moment.draw e).1 ∧
      (s.onConnect moment e).service.registry.peers =
        s.registry.peers ++ [(s.registry.newEntry moment.now moment.draw e).peer] ∧
      (s.onConnect moment e).answer =
        welcome (s.registry.newEntry moment.now moment.draw e).peer.id
          (s.onConnect moment e).service.registry.table ∧
      (s.onConnect moment e).sent = broadcast (s.onConnect moment e).service.registry.peers) := by
  obtain ⟨entry, hfind, heq⟩ | ⟨hnone, hfull, heq⟩ | ⟨hnone, hroom, heq⟩ :=
    s.registry.register_cases moment.now moment.draw e
  · have hconnect : s.onConnect moment e =
        ⟨{ s with knockers := (s.knockers.ensure s.registry moment.running e).1 },
          welcome entry.peer.id s.registry.table, broadcast s.registry.peers⟩ := by
      simp only [onConnect, heq, Registration.peer?]
    rw [hconnect]
    exact .inl ⟨entry, hfind, rfl, rfl, rfl⟩
  · refine .inr (.inl ⟨hnone, hfull, ?_⟩)
    simp only [onConnect, heq, Registration.peer?]
  · refine .inr (.inr ⟨hnone, hroom, ?_⟩)
    simp only [onConnect, heq, Registration.peer?, Registry.peers, List.map_append, List.map_cons,
      List.map_nil, and_self]

/-- A DISCONNECT comes from nobody, or removes its endpoint and tells all that remain. -/
theorem onDisconnect_cases (s : Service) (e : Endpoint) :
    (s.registry.find? e = none ∧ s.onDisconnect e = (s, [])) ∨
    ((∃ entry, s.registry.find? e = some entry) ∧
      (s.onDisconnect e).1.registry = (s.registry.remove e).1 ∧
      (s.onDisconnect e).1.registry.peers.length < s.registry.peers.length ∧
      (s.onDisconnect e).2 = broadcast (s.onDisconnect e).1.registry.peers) := by
  obtain ⟨hnone, heq⟩ | ⟨entry, hfind, hgone, hlt⟩ := s.registry.remove_cases e
  · exact .inl ⟨hnone, by simp only [onDisconnect, heq]⟩
  · have hpair : s.registry.remove e = ((s.registry.remove e).1, some entry.peer) :=
      Prod.ext rfl hgone
    have hdisconnect : s.onDisconnect e =
        ({ s with registry := (s.registry.remove e).1 },
          broadcast (s.registry.remove e).1.peers) := by
      rw [onDisconnect, hpair]
    rw [hdisconnect]
    exact .inr ⟨⟨entry, hfind⟩, rfl, hlt, rfl⟩

/-- A sweep finds nobody silent for too long, or removes some peers and tells all that remain. -/
theorem sweep_cases (s : Service) (now : Nat) :
    ((∀ x ∈ s.registry.entries, now - x.heartbeat ≤ s.config.heartbeatTimeout) ∧
      s.sweep now = (s, 0, [])) ∨
    (¬ (∀ x ∈ s.registry.entries, now - x.heartbeat ≤ s.config.heartbeatTimeout) ∧
      (s.sweep now).1.registry = (s.registry.sweep now s.config.heartbeatTimeout).1 ∧
      (s.sweep now).1.registry.peers.length < s.registry.peers.length ∧
      (s.sweep now).2.2 = broadcast (s.sweep now).1.registry.peers) := by
  -- Nobody was silent exactly if the sweep takes nobody.
  rw [← Registry.sweep_eq_nil_iff]
  cases hgone : (s.registry.sweep now s.config.heartbeatTimeout).2 with
  | nil =>
    refine .inl ⟨rfl, ?_⟩
    rw [sweep, show s.registry.sweep now s.config.heartbeatTimeout =
      ((s.registry.sweep now s.config.heartbeatTimeout).1, []) from Prod.ext rfl hgone]
  | cons p gone =>
    have hsweep : s.sweep now =
        ({ s with registry := (s.registry.sweep now s.config.heartbeatTimeout).1 },
          (p :: gone).length,
          broadcast (s.registry.sweep now s.config.heartbeatTimeout).1.peers) := by
      rw [sweep, show s.registry.sweep now s.config.heartbeatTimeout =
        ((s.registry.sweep now s.config.heartbeatTimeout).1, p :: gone) from Prod.ext rfl hgone]
    rw [hsweep]
    exact .inr ⟨List.cons_ne_nil _ _, rfl,
      Registry.length_peers_sweep_lt (by rw [hgone]; exact List.cons_ne_nil _ _), rfl⟩

/-! ## The registry stays well formed -/

/-- A CONNECT keeps the registry well-formed. -/
theorem wellFormed_onConnect {s : Service} (h : s.registry.WellFormed) (moment : Moment)
    (e : Endpoint) : (s.onConnect moment e).service.registry.WellFormed := by
  obtain ⟨_, -, heq, -⟩ | ⟨-, -, heq⟩ | ⟨-, -, heq, -⟩ := s.onConnect_cases moment e
  · rw [heq]
    exact h
  · rw [heq]
    exact h
  · rw [heq]
    exact h.register _ _ _

/-- A DISCONNECT keeps the registry well-formed. -/
theorem wellFormed_onDisconnect {s : Service} (h : s.registry.WellFormed) (e : Endpoint) :
    (s.onDisconnect e).1.registry.WellFormed := by
  obtain ⟨-, heq⟩ | ⟨-, heq, -⟩ := s.onDisconnect_cases e
  · rw [heq]
    exact h
  · rw [heq]
    exact h.remove e

/-- A sweep keeps the registry well-formed. -/
theorem wellFormed_sweep {s : Service} (h : s.registry.WellFormed) (now : Nat) :
    (s.sweep now).1.registry.WellFormed := by
  obtain ⟨-, heq⟩ | ⟨-, heq, -⟩ := s.sweep_cases now
  · rw [heq]
    exact h
  · rw [heq]
    exact h.sweep now _

/-- No message whatever makes the registry ill-formed. -/
theorem wellFormed_receive {s : Service} (h : s.registry.WellFormed) (moment : Moment)
    (bytes : Bytes) (sender : Endpoint) :
    (s.receive moment bytes sender).service.registry.WellFormed := by
  rw [receive]
  split
  · rename_i m _
    cases m with
    | connect port => exact wellFormed_onConnect h moment _
    | disconnect port => exact wellFormed_onDisconnect h _
    | sendStatus status => exact h.heartbeatFrom _ _
    | _ => exact h
  · exact h

end Service

namespace ServiceSession

/-- No step of the service breaks the registry's bounds. -/
theorem wellFormed_step {s : ServiceSession} (h : s.service.registry.WellFormed)
    (a : ServiceStep) : (s.step a).1.service.registry.WellFormed := by
  cases a with
  | receive sender bytes running draw => exact Service.wellFormed_receive h _ bytes sender
  | enter e draw => exact h.register _ _ _
  | sweep => exact Service.wellFormed_sweep h s.now
  | advance ms => exact h
  | reap e => exact h
  | close => exact h.withTokens _

/-- Every run of the service keeps its registry well formed. -/
theorem wellFormed_run {s : ServiceSession} (h : s.service.registry.WellFormed)
    (steps : List ServiceStep) : (s.run steps).service.registry.WellFormed := by
  induction steps generalizing s with
  | nil => exact h
  | cons a rest ih => exact ih (wellFormed_step h a)

end ServiceSession

end Ensemble
