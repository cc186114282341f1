import Ensemble.Peer.Basic

/-!
# The membership table

A `PeerTable` is a member's view of the group: an ordered list of peers, and the coordinator's id as
the sender of the table computed it. Nobody relies on that hint. The coordinator is derived from the
peers alone: it is the highest peer by id, address and port.

* `mem_of_highest_eq_some` — the coordinator is a member.
* `below_of_highest_eq_some` — every member stands below the coordinator.
* `highest_eq_none_iff` — only the empty table has no coordinator.
-/

namespace Ensemble

/-- The highest of a list of peers. -/
def highest : List Peer → Option Peer
  | [] => none
  | p :: rest => some (rest.foldl (fun best q => if best.Below q then q else best) p)

/-- A view of the group: its peers, and the id that was stated for the coordinator. -/
structure PeerTable where
  hint : PeerId
  peers : List Peer
  deriving DecidableEq, Repr, Inhabited

namespace PeerTable

/-- The table before any membership is known. -/
def empty : PeerTable := ⟨⟨0⟩, []⟩

/-- The member that all others follow. -/
def coordinator (t : PeerTable) : Option Peer := highest t.peers

/-- The table that states its own coordinator, or zero if there is none. -/
def ofPeers (peers : List Peer) : PeerTable :=
  ⟨((highest peers).map (·.id)).getD ⟨0⟩, peers⟩

/-- Whether the coordinator has the id `id`. -/
def isCoordinator (t : PeerTable) (id : PeerId) : Bool :=
  match t.coordinator with
  | some p => p.id == id
  | none => false

/-- The first peer that listens at `e`. -/
def find? (t : PeerTable) (e : Endpoint) : Option Peer := t.peers.find? (·.endpoint == e)

/-- The peers whose id is not `id`. -/
def except (t : PeerTable) (id : PeerId) : List Peer := t.peers.filter (·.id != id)

/-- In a table with a coordinator, a peer's id decides whether it leads. -/
theorem isCoordinator_iff {t : PeerTable} {c : Peer} (h : t.coordinator = some c) (id : PeerId) :
    t.isCoordinator id = true ↔ id = c.id := by
  rw [isCoordinator, h]
  exact beq_iff_eq.trans eq_comm

end PeerTable

/-! ## The highest peer -/

theorem foldl_highest_mem (p : Peer) (rest : List Peer) :
    rest.foldl (fun best q => if best.Below q then q else best) p ∈ p :: rest := by
  induction rest generalizing p with
  | nil => simp
  | cons q rest ih =>
    simp only [List.foldl_cons]
    split
    · exact List.mem_cons_of_mem _ (ih q)
    · rcases List.mem_cons.mp (ih p) with h | h
      · exact List.mem_cons.mpr (.inl h)
      · exact List.mem_cons_of_mem _ (List.mem_cons_of_mem _ h)

theorem below_foldl_highest (p : Peer) (rest : List Peer) {x : Peer} (hx : x ∈ p :: rest) :
    x.Below (rest.foldl (fun best q => if best.Below q then q else best) p) := by
  induction rest generalizing p x with
  | nil =>
    simp only [List.mem_singleton] at hx
    exact hx ▸ Peer.below_refl p
  | cons q rest ih =>
    simp only [List.foldl_cons]
    have start := fun r => ih r (List.mem_cons_self (a := r) (l := rest))
    rcases List.mem_cons.mp hx with rfl | hx
    · split
      · exact Peer.below_trans (by assumption) (start q)
      · exact start x
    · rcases List.mem_cons.mp hx with rfl | hx
      · split
        · exact start x
        · exact Peer.below_trans ((Peer.below_or_below p x).resolve_left (by assumption)) (start p)
      · split
        · exact ih q (List.mem_cons_of_mem _ hx)
        · exact ih p (List.mem_cons_of_mem _ hx)

/-- The highest peer is one of the list. -/
theorem mem_of_highest_eq_some {peers : List Peer} {p : Peer} (h : highest peers = some p) :
    p ∈ peers := by
  cases peers with
  | nil => simp [highest] at h
  | cons q rest =>
    simp only [highest, Option.some.injEq] at h
    exact h ▸ foldl_highest_mem q rest

/-- Every peer of the list stands below the highest. -/
theorem below_of_highest_eq_some {peers : List Peer} {p x : Peer} (h : highest peers = some p)
    (hx : x ∈ peers) : x.Below p := by
  cases peers with
  | nil => simp [highest] at h
  | cons q rest =>
    simp only [highest, Option.some.injEq] at h
    exact h ▸ below_foldl_highest q rest hx

/-- Only the empty list has no highest peer. -/
theorem highest_eq_none_iff {peers : List Peer} : highest peers = none ↔ peers = [] := by
  cases peers <;> simp [highest]

/-- A table with a peer has a coordinator. -/
theorem PeerTable.exists_coordinator {t : PeerTable} {p : Peer} (h : p ∈ t.peers) :
    ∃ leader, t.coordinator = some leader := by
  refine Option.ne_none_iff_exists'.mp fun hnone => ?_
  rw [coordinator, highest_eq_none_iff] at hnone
  rw [hnone] at h
  exact absurd h List.not_mem_nil

end Ensemble
