import Ensemble.Membership.Run
import Mathlib.Data.List.Nodup

/-!
# The registry keeps its bounds

A registry is `WellFormed` if it holds no more entries than its limit, its limit is at most what a
message can carry, and no endpoint has two entries. Every operation either leaves the peers a
sublist of what they were or appends one peer with a new endpoint, and both keep the registry well
formed.

* `Registry.register_cases` — the three outcomes of a registration, with all that each one does.
* `RegistrySession.wellFormed_run` — every run of the registry keeps it well formed.
-/

namespace Ensemble

/-! ## Lists with a key -/

section Keys

variable {α κ : Type} [DecidableEq κ] {key : α → κ} {xs : List α}

/-- Where no two elements have the same key, the one that is found under a key is the one that is
there. -/
theorem find?_key_eq_some_iff (h : (xs.map key).Nodup) {k : κ} {x : α} :
    xs.find? (key · == k) = some x ↔ x ∈ xs ∧ key x = k := by
  refine ⟨fun hfind => ⟨List.mem_of_find?_eq_some hfind, by simpa using List.find?_some hfind⟩, ?_⟩
  rintro ⟨hmem, rfl⟩
  obtain ⟨y, hfind⟩ : ∃ y, xs.find? (key · == key x) = some y :=
    Option.isSome_iff_exists.mp (List.find?_isSome.mpr ⟨x, hmem, beq_self_eq_true _⟩)
  have hkey : key y = key x := by simpa using List.find?_some hfind
  rw [hfind, List.inj_on_of_nodup_map h (List.mem_of_find?_eq_some hfind) hmem hkey]

/-- Where no two elements have the same key, erasing one with a key takes out all that have it. -/
theorem eraseP_eq_filter (h : (xs.map key).Nodup) (k : κ) :
    xs.eraseP (key · == k) = xs.filter fun x => !(key x == k) := by
  induction xs with
  | nil => rfl
  | cons x xs ih =>
    obtain ⟨hx, hxs⟩ := List.nodup_cons.mp h
    by_cases hkey : key x = k
    · have hfirst : (key x == k) = true := beq_iff_eq.mpr hkey
      -- The first that fits is the only one.
      have hrest : xs.filter (fun y => !(key y == k)) = xs := by
        refine List.filter_eq_self.mpr fun y hy => ?_
        have hne : key y ≠ k := fun heq => hx (hkey ▸ heq ▸ List.mem_map_of_mem hy)
        simp [hne]
      rw [List.eraseP_cons_of_pos (p := (key · == k)) hfirst,
        List.filter_cons_of_neg (by simp [hfirst]), hrest]
    · have hfirst : ¬ (key x == k) = true := fun heq => hkey (beq_iff_eq.mp heq)
      rw [List.eraseP_cons_of_neg (p := (key · == k)) hfirst,
        List.filter_cons_of_pos (by simp [hfirst]), ih hxs]

end Keys

namespace Registry

/-- No more entries than the limit, a limit that messages can carry, and one entry an endpoint. -/
structure WellFormed (r : Registry) : Prop where
  limit_le : r.limit ≤ maxPeers
  length_le : r.peers.length ≤ r.limit
  nodup : (r.peers.map Peer.endpoint).Nodup

/-- No two entries have the same endpoint. -/
theorem WellFormed.endpoints_nodup {r : Registry} (h : r.WellFormed) :
    (r.entries.map (·.peer.endpoint)).Nodup := by
  have hnodup := h.nodup
  rwa [peers, List.map_map] at hnodup

@[simp] theorem length_peers (r : Registry) : r.peers.length = r.entries.length := by
  simp [peers]

/-! ## Looking up -/

/-- Nothing is found at an endpoint exactly if no peer has it. -/
theorem find?_eq_none_iff {r : Registry} {e : Endpoint} :
    r.find? e = none ↔ ∀ p ∈ r.peers, p.endpoint ≠ e := by
  simp [find?, peers]

/-- An entry that is found is an entry of the endpoint. -/
theorem mem_of_find? {r : Registry} {e : Endpoint} {entry : RegistryEntry}
    (h : r.find? e = some entry) : entry ∈ r.entries ∧ entry.peer.endpoint = e :=
  ⟨List.mem_of_find?_eq_some h, by simpa using List.find?_some h⟩

/-- What is found is one of the peers. -/
theorem peer_mem_of_find? {r : Registry} {e : Endpoint} {entry : RegistryEntry}
    (h : r.find? e = some entry) : entry.peer ∈ r.peers :=
  List.mem_map_of_mem (mem_of_find? h).1

/-! ## Registrations -/

/-- The entry that a registration makes. -/
def newEntry (r : Registry) (now : Nat) (draw : Nat → PeerId) (e : Endpoint) : RegistryEntry :=
  ⟨Peer.ofEndpoint e (drawId (r.peers.map (·.id)) draw (maxDraws - 1) 0).1, now, r.tokens.issue.2⟩

/-- A registration finds the endpoint, or finds the table full, or appends one entry. -/
theorem register_cases (r : Registry) (now : Nat) (draw : Nat → PeerId) (e : Endpoint) :
    (∃ entry, r.find? e = some entry ∧ r.register now draw e = (r, .known entry.peer, 0)) ∨
    (r.find? e = none ∧ r.limit ≤ r.entries.length ∧ r.register now draw e = (r, .full, 0)) ∨
    (r.find? e = none ∧ r.entries.length < r.limit ∧
      r.register now draw e =
        ({ r with entries := r.entries ++ [r.newEntry now draw e], tokens := r.tokens.issue.1 },
          .new (r.newEntry now draw e).peer,
          (drawId (r.peers.map (·.id)) draw (maxDraws - 1) 0).2)) := by
  cases h : r.find? e with
  | some entry => exact .inl ⟨entry, rfl, by simp only [register, h]⟩
  | none =>
    by_cases hfull : r.limit ≤ r.entries.length
    · exact .inr (.inl ⟨rfl, hfull, by simp only [register, h, if_pos hfull]⟩)
    · refine .inr (.inr ⟨rfl, by omega, ?_⟩)
      simp only [register, h, if_neg hfull]
      rfl

@[simp] theorem endpoint_newEntry (r : Registry) (now : Nat) (draw : Nat → PeerId) (e : Endpoint) :
    (r.newEntry now draw e).peer.endpoint = e := rfl

/-! ## The other operations leave a sublist -/

/-- To remove an entry adds no peer, and keeps the order of the others. -/
theorem peers_remove_sublist (r : Registry) (e : Endpoint) :
    (r.remove e).1.peers.Sublist r.peers := by
  rw [remove]
  split
  · exact List.Sublist.refl _
  · exact List.eraseP_sublist.map _

/-- A refresh changes times only. -/
@[simp] theorem peers_refresh (r : Registry) (now : Nat) (p : RegistryEntry → Bool) :
    (r.refresh now p).peers = r.peers := by
  simp only [refresh, peers, List.map_map]
  refine List.map_congr_left fun x _ => ?_
  by_cases h : p x <;> simp [h]

@[simp] theorem peers_heartbeat (r : Registry) (now : Nat) (e : Endpoint) :
    (r.heartbeat now e).1.peers = r.peers := peers_refresh r now _

@[simp] theorem peers_heartbeatFrom (r : Registry) (now : Nat) (a : IpAddress) :
    (r.heartbeatFrom now a).1.peers = r.peers := peers_refresh r now _

/-- A sweep adds no peer, and keeps the order of those that remain. -/
theorem peers_sweep_sublist (r : Registry) (now timeout : Nat) :
    (r.sweep now timeout).1.peers.Sublist r.peers :=
  List.filter_sublist.map _

/-- A removal finds no entry of the endpoint, or takes one entry away. -/
theorem remove_cases (r : Registry) (e : Endpoint) :
    (r.find? e = none ∧ r.remove e = (r, none)) ∨
    ∃ entry, r.find? e = some entry ∧ (r.remove e).2 = some entry.peer ∧
      (r.remove e).1.peers.length < r.peers.length := by
  cases h : r.find? e with
  | none => exact .inl ⟨rfl, by simp only [remove, h]⟩
  | some entry =>
    obtain ⟨hmem, he⟩ := mem_of_find? h
    refine .inr ⟨entry, rfl, by simp only [remove, h], ?_⟩
    have herase : (r.entries.eraseP (·.peer.endpoint == e)).length = r.entries.length - 1 :=
      List.length_eraseP_of_mem hmem (by simpa using he)
    have hpos : 0 < r.entries.length := List.length_pos_of_mem hmem
    simp only [remove, h, length_peers]
    omega

/-- A sweep that removes somebody leaves fewer peers. -/
theorem length_peers_sweep_lt {r : Registry} {now timeout : Nat}
    (h : (r.sweep now timeout).2 ≠ []) :
    (r.sweep now timeout).1.peers.length < r.peers.length := by
  have hgone : r.entries.filter (expired now timeout) ≠ [] :=
    fun hnil => h (by simp only [sweep, hnil, List.map_nil])
  obtain ⟨x, hx⟩ := List.exists_mem_of_ne_nil _ hgone
  obtain ⟨hmem, hexp⟩ := List.mem_filter.mp hx
  simp only [length_peers, sweep]
  exact List.length_filter_lt_length_iff_exists.mpr ⟨x, hmem, by simp [hexp]⟩

/-- A sweep removes nobody if and only if nobody was silent for too long. -/
theorem sweep_eq_nil_iff {r : Registry} {now timeout : Nat} :
    (r.sweep now timeout).2 = [] ↔ ∀ x ∈ r.entries, now - x.heartbeat ≤ timeout := by
  simp [sweep, expired]

/-! ## Well-formedness is kept -/

/-- The registry without entries is well-formed, whatever the bound it is given. -/
theorem wellFormed_empty (limit : Nat) : (empty limit).WellFormed where
  limit_le := Nat.min_le_right limit maxPeers
  length_le := Nat.zero_le _
  nodup := List.nodup_nil

/-- Whatever leaves a sublist of the peers keeps a registry well formed. -/
theorem WellFormed.of_sublist {r r' : Registry} (h : r.WellFormed) (hlimit : r'.limit = r.limit)
    (hpeers : r'.peers.Sublist r.peers) : r'.WellFormed where
  limit_le := hlimit ▸ h.limit_le
  length_le := hlimit ▸ Nat.le_trans hpeers.length_le h.length_le
  nodup := h.nodup.sublist (hpeers.map _)

/-- Two well-formed registries with the same set of peers have equally many. -/
theorem WellFormed.length_eq {r r' : Registry} (h : r.WellFormed) (h' : r'.WellFormed)
    (hmem : ∀ p, p ∈ r'.peers ↔ p ∈ r.peers) : r'.peers.length = r.peers.length := by
  have hperm : r'.peers.Perm r.peers :=
    (List.perm_ext_iff_of_nodup h'.nodup.of_map h.nodup.of_map).mpr hmem
  exact hperm.length_eq

/-- Only an endpoint without an entry is entered, and only while there is room. -/
theorem WellFormed.register {r : Registry} (h : r.WellFormed) (now : Nat) (draw : Nat → PeerId)
    (e : Endpoint) : (r.register now draw e).1.WellFormed := by
  obtain ⟨entry, -, heq⟩ | ⟨-, -, heq⟩ | ⟨hnone, hroom, heq⟩ := r.register_cases now draw e
  · rw [heq]
    exact h
  · rw [heq]
    exact h
  · rw [heq]
    refine ⟨h.limit_le, ?_, ?_⟩
    · -- There was room for one more.
      simp only [length_peers, List.length_append, List.length_singleton]
      exact hroom
    · -- Nobody has this endpoint yet.
      have hnew : e ∉ r.peers.map Peer.endpoint := by
        intro hmem
        obtain ⟨p, hp, he⟩ := List.mem_map.mp hmem
        exact find?_eq_none_iff.mp hnone p hp he
      simp only [peers, List.map_append, List.map_cons, List.map_nil, endpoint_newEntry]
      rw [← List.concat_eq_append]
      exact List.Nodup.concat hnew h.nodup

/-- To remove an entry keeps a registry well-formed. -/
theorem WellFormed.remove {r : Registry} (h : r.WellFormed) (e : Endpoint) :
    (r.remove e).1.WellFormed := by
  refine h.of_sublist ?_ (r.peers_remove_sublist e)
  rw [Registry.remove]
  split <;> rfl

theorem WellFormed.heartbeat {r : Registry} (h : r.WellFormed) (now : Nat) (e : Endpoint) :
    (r.heartbeat now e).1.WellFormed :=
  h.of_sublist rfl (by simp)

theorem WellFormed.heartbeatFrom {r : Registry} (h : r.WellFormed) (now : Nat) (a : IpAddress) :
    (r.heartbeatFrom now a).1.WellFormed :=
  h.of_sublist rfl (by simp)

/-- A sweep keeps a registry well-formed. -/
theorem WellFormed.sweep {r : Registry} (h : r.WellFormed) (now timeout : Nat) :
    (r.sweep now timeout).1.WellFormed :=
  h.of_sublist rfl (r.peers_sweep_sublist now timeout)

/-- Tokens have no part in it. -/
theorem WellFormed.withTokens {r : Registry} (h : r.WellFormed) (tokens : TokenPool) :
    ({ r with tokens } : Registry).WellFormed :=
  h.of_sublist rfl (List.Sublist.refl _)

end Registry

namespace RegistrySession

/-- No step of the registry breaks its bounds. -/
theorem wellFormed_step {s : RegistrySession} (h : s.registry.WellFormed) (a : RegistryStep) :
    (s.step a).1.registry.WellFormed := by
  cases a with
  | register e draw => exact h.register s.now draw e
  | remove e => exact h.remove e
  | heartbeat e => exact h.heartbeat s.now e
  | heartbeatFrom a => exact h.heartbeatFrom s.now a
  | sweep time timeout => exact h.sweep time timeout
  | cancelRoot => exact h.withTokens _
  | ensure running e => exact h
  | start running e token => exact h.withTokens _
  | stopAll => exact h.withTokens _
  | advance ms => exact h

/-- Every run of the registry keeps it well formed. -/
theorem wellFormed_run {s : RegistrySession} (h : s.registry.WellFormed)
    (steps : List RegistryStep) : (s.run steps).registry.WellFormed := by
  induction steps generalizing s with
  | nil => exact h
  | cons a rest ih => exact ih (wellFormed_step h a)

end RegistrySession

end Ensemble
