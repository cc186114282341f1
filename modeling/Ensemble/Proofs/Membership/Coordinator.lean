import Ensemble.Node.Basic
import Ensemble.Proofs.Membership.Ids

/-!
# How many nodes take themselves for the coordinator

The coordinator is the highest peer by id, address and port, but a node asks only whether the
coordinator has its own id. So the coordinator's node always leads, and it leads alone exactly if no
other entry holds its id.

* `Registry.leads_iff` — who leads in a group that holds the registry's table.
* `one_leader_iff` — when there is one leader, after every run of the registry.
* `not_oneLeader_collidingIds` — two nodes lead after two registrations with the same id.
-/

namespace Ensemble

namespace Registry

/-- The node of the entry, with its id and the registry's table, takes itself
for the coordinator. -/
def Leads (r : Registry) (p : Peer) : Prop :=
  p ∈ r.peers ∧ (View.adopt p.id r.table).isCoordinator = true

/-- At most one node leads, and it listens where the coordinator does. -/
structure OneLeader (r : Registry) : Prop where
  unique : ∀ p q, r.Leads p → r.Leads q → p = q
  endpoint_eq : ∀ p c, r.Leads p → r.table.coordinator = some c → p.endpoint = c.endpoint

/-- Only a registered peer is the coordinator. -/
theorem coordinator_mem {r : Registry} {c : Peer} (h : r.table.coordinator = some c) :
    c ∈ r.peers := mem_of_highest_eq_some h

/-- Those entries lead that hold the coordinator's id. -/
theorem leads_iff {r : Registry} {c : Peer} (h : r.table.coordinator = some c) (p : Peer) :
    r.Leads p ↔ p ∈ r.peers ∧ p.id = c.id :=
  and_congr_right fun _ => PeerTable.isCoordinator_iff h p.id

/-- Where there is no coordinator nobody leads. -/
theorem not_leads {r : Registry} (h : r.table.coordinator = none) (p : Peer) : ¬ r.Leads p := by
  rintro ⟨-, hleads⟩
  have hnone : (View.adopt p.id r.table).isCoordinator = false := by
    show r.table.isCoordinator p.id = false
    rw [PeerTable.isCoordinator, h]
  rw [hnone] at hleads
  cases hleads

/-- There is one leader if and only if no other entry holds the coordinator's id. -/
theorem oneLeader_iff {r : Registry} :
    r.OneLeader ↔
      ∀ c, r.table.coordinator = some c → ∀ p ∈ r.peers, p.id = c.id → p = c := by
  constructor
  · intro h c hc p hp hid
    have hleads : r.Leads c := (leads_iff hc c).mpr ⟨coordinator_mem hc, rfl⟩
    exact h.unique p c ((leads_iff hc p).mpr ⟨hp, hid⟩) hleads
  · intro h
    have heq : ∀ p c, r.Leads p → r.table.coordinator = some c → p = c := by
      intro p c hp hc
      obtain ⟨hmem, hid⟩ := (leads_iff hc p).mp hp
      exact h c hc p hmem hid
    refine ⟨fun p q hp hq => ?_, fun p c hp hc => congrArg Peer.endpoint (heq p c hp hc)⟩
    cases hc : r.table.coordinator with
    | none => exact (not_leads hc p hp).elim
    | some c => exact (heq p c hp hc).trans (heq q c hq hc).symm

/-- Entries with pairwise different ids have one leader. -/
theorem oneLeader_of_nodup_ids {r : Registry} (h : r.ids.Nodup) : r.OneLeader := by
  rw [oneLeader_iff]
  intro c hc p hp hid
  exact List.inj_on_of_nodup_map h hp (coordinator_mem hc) hid

end Registry

/-- After every run of the registry the coordinator's node leads, and it leads alone if and only if
no other entry holds its id. It does so in particular if no registration ever came upon eight held
ids in a row. -/
theorem one_leader_iff (limit : Nat) (steps : List RegistryStep) :
    let r := ((RegistrySession.start limit).run steps).registry
    (∀ c, r.table.coordinator = some c → r.Leads c) ∧
      (r.OneLeader ↔
        ∀ c, r.table.coordinator = some c → ∀ p ∈ r.peers, p.id = c.id → p = c) ∧
      ((RegistrySession.start limit).DrawsFree steps → r.OneLeader) := by
  intro r
  refine ⟨fun c hc => ?_, Registry.oneLeader_iff, fun hdraws => ?_⟩
  · exact (Registry.leads_iff hc c).mpr ⟨Registry.coordinator_mem hc, rfl⟩
  · refine Registry.oneLeader_of_nodup_ids (RegistrySession.nodup_ids_run ?_ hdraws)
    exact List.nodup_nil

/-- The second registration draws the id of the first once and then another. -/
def redrawnId : List RegistryStep :=
  [.register ⟨.v4 ⟨10, 0, 0, 1⟩, 43210⟩ fun _ => ⟨7⟩,
    .register ⟨.v4 ⟨10, 0, 0, 2⟩, 43210⟩ fun i => if i = 0 then ⟨7⟩ else ⟨3⟩]

/-- The second peer draws the id of the first, and another one after that. -/
theorem one_leader_iff_redrawnId :
    (RegistrySession.start 16).DrawsFree redrawnId ∧
      ((RegistrySession.start 16).run redrawnId).registry.peers =
        [⟨.v4 ⟨10, 0, 0, 1⟩, 43210, ⟨7⟩⟩, ⟨.v4 ⟨10, 0, 0, 2⟩, 43210, ⟨3⟩⟩] ∧
      ((RegistrySession.start 16).run redrawnId).registry.OneLeader := by
  have hdraws : (RegistrySession.start 16).DrawsFree redrawnId := by
    refine ⟨fun e draw ha _ _ => ?_, fun e draw ha _ _ => ?_, trivial⟩
    · cases ha
      exact ⟨0, by decide, by decide⟩
    · cases ha
      exact ⟨1, by decide, by decide⟩
  exact ⟨hdraws, by decide, (one_leader_iff 16 redrawnId).2.2 hdraws⟩

/-- Both registrations draw the same id at every draw. -/
def collidingIds : List RegistryStep :=
  [.register ⟨.v4 ⟨10, 0, 0, 1⟩, 43210⟩ fun _ => ⟨7⟩,
    .register ⟨.v4 ⟨10, 0, 0, 2⟩, 43210⟩ fun _ => ⟨7⟩]

/-- Two nodes lead after a collision of ids, though only one of them is the coordinator. -/
theorem not_oneLeader_collidingIds :
    ¬ ((RegistrySession.start 16).run collidingIds).registry.OneLeader := by
  intro h
  have hfirst : ((RegistrySession.start 16).run collidingIds).registry.Leads
      ⟨.v4 ⟨10, 0, 0, 1⟩, 43210, ⟨7⟩⟩ := ⟨by decide, by decide⟩
  have hsecond : ((RegistrySession.start 16).run collidingIds).registry.Leads
      ⟨.v4 ⟨10, 0, 0, 2⟩, 43210, ⟨7⟩⟩ := ⟨by decide, by decide⟩
  exact absurd (h.unique _ _ hfirst hsecond) (by decide)

end Ensemble
