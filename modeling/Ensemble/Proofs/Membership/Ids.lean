import Ensemble.Proofs.Membership.Registry

/-!
# Drawn ids

A registration takes the first of its drawn ids that no entry holds, unless all of the first eight
are held. So the ids of the entries stay pairwise different as long as no registration comes upon
eight held ids in a row; a collision is accepted then, and only then.

* `Registry.drawId_spec` — which draw is taken, and that no draw before it was free.
* `RegistrySession.nodup_ids_run` — without eight held ids in a row the ids stay different.
-/

namespace Ensemble

namespace Registry

/-- The ids of the entries, in the order of their registrations. -/
def ids (r : Registry) : List PeerId := r.peers.map (·.id)

/-- The draw that is taken comes after held ones only, and is free unless it is the last. -/
theorem drawId_spec (held : List PeerId) (draw : Nat → PeerId) (left first : Nat) :
    ∃ k ≤ left, drawId held draw left first = (draw (first + k), first + k + 1) ∧
      (∀ j < k, draw (first + j) ∈ held) ∧ (draw (first + k) ∉ held ∨ k = left) := by
  -- Induction on the draws that are left: each draw that is held shifts the rest by one.
  induction left generalizing first with
  | zero => exact ⟨0, Nat.le_refl 0, rfl, fun j hj => absurd hj (Nat.not_lt_zero j), .inr rfl⟩
  | succ left ih =>
    by_cases hheld : draw first ∈ held
    · obtain ⟨k, hk, heq, hbefore, hlast⟩ := ih (first + 1)
      have hshift : first + 1 + k = first + (k + 1) := by omega
      rw [hshift] at heq hlast
      refine ⟨k + 1, by omega, ?_, ?_, hlast.imp_right (congrArg (· + 1))⟩
      · rw [drawId, if_pos (List.contains_iff_mem.mpr hheld)]
        exact heq
      · intro j hj
        cases j with
        | zero => exact hheld
        | succ j =>
          have h := hbefore j (by omega)
          rwa [show first + 1 + j = first + (j + 1) by omega] at h
    · refine ⟨0, Nat.zero_le _, ?_, fun j hj => absurd hj (Nat.not_lt_zero j), .inl hheld⟩
      rw [drawId, if_neg (by rwa [List.contains_iff_mem])]
      rfl

/-- Some of the ids that a registration would draw is free. -/
def HasFreeDraw (r : Registry) (draw : Nat → PeerId) : Prop := ∃ i < maxDraws, draw i ∉ r.ids

/-- With a free draw a new entry gets an id that no other entry holds. -/
theorem id_newEntry_not_mem {r : Registry} {draw : Nat → PeerId} (h : r.HasFreeDraw draw)
    (now : Nat) (e : Endpoint) : (r.newEntry now draw e).peer.id ∉ r.ids := by
  obtain ⟨k, hk, heq, hbefore, hlast⟩ := drawId_spec r.ids draw (maxDraws - 1) 0
  have hid : (r.newEntry now draw e).peer.id = draw k := by
    show (drawId r.ids draw (maxDraws - 1) 0).1 = draw k
    rw [heq, Nat.zero_add]
  rw [Nat.zero_add] at hlast
  rw [hid]
  rcases hlast with hfree | hk'
  · exact hfree
  · -- The last draw is taken only if all before it are held; then it is the free one.
    obtain ⟨i, hi, hfree⟩ := h
    have hik : i = k := by
      by_contra hne
      have hheld := hbefore i (by omega)
      rw [Nat.zero_add] at hheld
      exact hfree hheld
    exact hik ▸ hfree

end Registry

namespace RegistrySession

/-- A step leaves a sublist of the peers, or it registers one more. -/
theorem peers_step_cases (s : RegistrySession) (a : RegistryStep) :
    (s.step a).1.registry.peers.Sublist s.registry.peers ∨
    ∃ e draw, a = .register e draw ∧ s.registry.find? e = none ∧
      s.registry.entries.length < s.registry.limit ∧
      (s.step a).1.registry.peers =
        s.registry.peers ++ [(s.registry.newEntry s.now draw e).peer] := by
  cases a with
  | register e draw =>
    have hstep : (s.step (.register e draw)).1.registry =
        (s.registry.register s.now draw e).1 := rfl
    rw [hstep]
    obtain ⟨entry, -, heq⟩ | ⟨-, -, heq⟩ | ⟨hnone, hroom, heq⟩ :=
      s.registry.register_cases s.now draw e
    · rw [heq]
      exact .inl (List.Sublist.refl _)
    · rw [heq]
      exact .inl (List.Sublist.refl _)
    · refine .inr ⟨e, draw, rfl, hnone, hroom, ?_⟩
      rw [heq]
      simp only [Registry.peers, List.map_append, List.map_cons, List.map_nil]
  | remove e => exact .inl (s.registry.peers_remove_sublist e)
  | heartbeat e => exact .inl (by rw [step, Registry.peers_heartbeat])
  | heartbeatFrom a => exact .inl (by rw [step, Registry.peers_heartbeatFrom])
  | sweep time timeout => exact .inl (s.registry.peers_sweep_sublist time timeout)
  -- Nothing else touches the entries.
  | cancelRoot => exact .inl (List.Sublist.refl _)
  | ensure running e => exact .inl (List.Sublist.refl _)
  | start running e token => exact .inl (List.Sublist.refl _)
  | stopAll => exact .inl (List.Sublist.refl _)
  | advance ms => exact .inl (List.Sublist.refl _)

/-- No registration that makes an entry comes upon held ids only. -/
def DrawsFree : RegistrySession → List RegistryStep → Prop
  | _, [] => True
  | s, a :: rest =>
    (∀ e draw, a = .register e draw → s.registry.find? e = none →
      s.registry.entries.length < s.registry.limit → s.registry.HasFreeDraw draw) ∧
    (s.step a).1.DrawsFree rest

/-- As long as no registration comes upon held ids only, the ids stay pairwise different. -/
theorem nodup_ids_run {s : RegistrySession} (h : s.registry.ids.Nodup)
    {steps : List RegistryStep} (hdraws : s.DrawsFree steps) :
    (s.run steps).registry.ids.Nodup := by
  induction steps generalizing s with
  | nil => exact h
  | cons a rest ih =>
    obtain ⟨hdraw, hrest⟩ := hdraws
    refine ih ?_ hrest
    obtain hsub | ⟨e, draw, ha, hnone, hroom, hpeers⟩ := s.peers_step_cases a
    · exact h.sublist (hsub.map _)
    · have hnew := Registry.id_newEntry_not_mem (hdraw e draw ha hnone hroom) s.now e
      rw [Registry.ids, hpeers, List.map_append, List.map_cons, List.map_nil,
        ← List.concat_eq_append]
      exact List.Nodup.concat hnew h

end RegistrySession

end Ensemble
