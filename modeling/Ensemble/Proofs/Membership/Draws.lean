import Ensemble.Proofs.Membership.Ids

/-!
# Which ids are drawn, and which are assigned

A registration that makes an entry draws ids until one is free, and the eighth whatever it is. The
one drawn last is assigned. So it reads no more of the sequence of draws than it has to, and where
the sequences agree so far the registrations are the same. Over a run every id that is held was
drawn, and two entries come to the same id only where a registration drew eight held ones in a row.

* `Registry.Assigns` — the id that a registration assigns, and how many ids it draws.
* `Registry.register_congr` — a registration reads only the ids that it draws.
* `RegistrySession.nodup_ids_step_iff` — a step repeats an id if and only if it exhausts its draws.
* `ids_assigned` — what a single registration does, and what holds of every run.
-/

namespace Ensemble

namespace Registry

/-- Of a sequence of draws the id that was drawn last is assigned. All those before it are held, and
so may it be itself if it is the eighth. -/
structure Assigns (held : List PeerId) (draw : Nat → PeerId) (id : PeerId) (draws : Nat) : Prop where
  pos : 0 < draws
  le_eight : draws ≤ 8
  id_eq : id = draw (draws - 1)
  held_before : ∀ i, i + 1 < draws → draw i ∈ held
  free : draws < 8 → id ∉ held

variable {r : Registry} {draw draw' : Nat → PeerId} {e : Endpoint} {held : List PeerId}

/-- The draw that is taken is the one that is to be assigned. -/
theorem assigns_drawId (held : List PeerId) (draw : Nat → PeerId) :
    Assigns held draw (drawId held draw (maxDraws - 1) 0).1 (drawId held draw (maxDraws - 1) 0).2 := by
  obtain ⟨k, hk, heq, hbefore, hlast⟩ := drawId_spec held draw (maxDraws - 1) 0
  rw [heq]
  simp only [Nat.zero_add] at hbefore hlast ⊢
  have hseven : maxDraws - 1 = 7 := rfl
  refine ⟨by omega, by omega, rfl, fun i hi => hbefore i (by omega), fun hlt => ?_⟩
  exact hlast.resolve_right (by omega)

/-- At least one id is drawn. -/
theorem lt_drawId (held : List PeerId) (draw : Nat → PeerId) (left first : Nat) :
    first < (drawId held draw left first).2 := by
  obtain ⟨k, -, heq, -, -⟩ := drawId_spec held draw left first
  rw [heq]
  show first < first + k + 1
  omega

/-- Draws that agree up to the one that is taken lead to the same. -/
theorem drawId_congr {left first : Nat}
    (h : ∀ i < (drawId held draw left first).2, draw' i = draw i) :
    drawId held draw' left first = drawId held draw left first := by
  have hfirst : draw' first = draw first := h first (lt_drawId held draw left first)
  induction left generalizing first with
  | zero => rw [drawId, drawId, hfirst]
  | succ left ih =>
    rw [drawId] at h ⊢
    rw [drawId, hfirst]
    split
    · rename_i hheld
      rw [if_pos hheld] at h
      exact ih h (h _ (lt_drawId held draw left (first + 1)))
    · rfl

/-- A registration reads only the ids that it draws. -/
theorem register_congr (now : Nat) (h : ∀ i < (r.register now draw e).2.2, draw' i = draw i) :
    r.register now draw' e = r.register now draw e := by
  rw [register] at h ⊢
  rw [register]
  cases hfind : r.find? e with
  | some entry => rfl
  | none =>
    rw [hfind] at h
    dsimp only at h ⊢
    split
    · rfl
    · rename_i hroom
      rw [if_neg hroom] at h
      rw [drawId_congr h]

end Registry

/-! ## Steps -/

namespace RegistrySession

/-- The ids that a step draws, in order. -/
def drawn (s : RegistrySession) : RegistryStep → List PeerId
  | .register e draw => (List.range (s.registry.register s.now draw e).2.2).map draw
  | _ => []

/-- A step draws eight ids in a row, and all of them are held. -/
def Exhausts (s : RegistrySession) (a : RegistryStep) : Prop :=
  (s.drawn a).length = 8 ∧ ∀ id ∈ s.drawn a, id ∈ s.registry.ids

variable {s : RegistrySession} {a : RegistryStep}

/-- A step keeps the ids or some of them, or it assigns one of those that it draws. -/
theorem ids_step_cases (s : RegistrySession) (a : RegistryStep) :
    ((s.step a).1.registry.ids.Sublist s.registry.ids ∧ s.drawn a = []) ∨
    ∃ draw id draws, Registry.Assigns s.registry.ids draw id draws ∧
      s.drawn a = (List.range draws).map draw ∧
      (s.step a).1.registry.ids = s.registry.ids ++ [id] := by
  cases a with
  | register e draw =>
    have hdrawn : s.drawn (.register e draw) =
        (List.range (s.registry.register s.now draw e).2.2).map draw := rfl
    have hstep : (s.step (.register e draw)).1.registry =
        (s.registry.register s.now draw e).1 := rfl
    rw [hdrawn, hstep]
    obtain ⟨entry, -, heq⟩ | ⟨-, -, heq⟩ | ⟨-, -, heq⟩ := s.registry.register_cases s.now draw e
    · rw [heq]
      exact .inl ⟨List.Sublist.refl _, rfl⟩
    · rw [heq]
      exact .inl ⟨List.Sublist.refl _, rfl⟩
    · rw [heq]
      refine .inr ⟨draw, _, _, Registry.assigns_drawId s.registry.ids draw, rfl, ?_⟩
      simp only [Registry.ids, Registry.peers, List.map_append, List.map_cons, List.map_nil]
      rfl
  -- No other step adds a peer.
  | remove | heartbeat | heartbeatFrom | sweep | cancelRoot | ensure | start | stopAll | advance =>
    obtain hsub | ⟨_, _, ha, -⟩ := s.peers_step_cases _
    · exact .inl ⟨hsub.map _, rfl⟩
    · cases ha

/-- From pairwise different ids a step leads to pairwise different ones, unless it exhausts its
draws: then it does repeat one. -/
theorem nodup_ids_step_iff (h : s.registry.ids.Nodup) (a : RegistryStep) :
    (s.step a).1.registry.ids.Nodup ↔ ¬s.Exhausts a := by
  obtain ⟨hsub, hnone⟩ | ⟨draw, id, draws, hassigns, hdrawn, hids⟩ := s.ids_step_cases a
  · refine iff_of_true (h.sublist hsub) ?_
    rintro ⟨hlength, -⟩
    rw [hnone] at hlength
    cases hlength
  · have hnew : (s.step a).1.registry.ids.Nodup ↔ id ∉ s.registry.ids := by
      rw [hids, ← List.concat_eq_append, List.nodup_concat, and_iff_left h]
    rw [hnew, not_iff_not, Exhausts, hdrawn, List.length_map, List.length_range]
    simp only [List.forall_mem_map, List.mem_range]
    have hpos := hassigns.pos
    constructor
    · intro hheld
      -- An id that is held already is assigned only after eight draws.
      have height : draws = 8 := by
        by_contra hne
        exact hassigns.free (Nat.lt_of_le_of_ne hassigns.le_eight hne) hheld
      refine ⟨height, fun i hi => ?_⟩
      by_cases hlast : i + 1 < draws
      · exact hassigns.held_before i hlast
      · have hi' : i = draws - 1 := by omega
        rwa [hi', ← hassigns.id_eq]
    · rintro ⟨-, hheld⟩
      rw [hassigns.id_eq]
      exact hheld _ (by omega)

/-- The ids after a step were held before, or were drawn in it. -/
theorem mem_ids_step {id : PeerId} (h : id ∈ (s.step a).1.registry.ids) :
    id ∈ s.registry.ids ∨ id ∈ s.drawn a := by
  obtain ⟨hsub, -⟩ | ⟨draw, new, draws, hassigns, hdrawn, hids⟩ := s.ids_step_cases a
  · exact .inl (hsub.subset h)
  · rw [hids, List.mem_append, List.mem_singleton] at h
    refine h.imp_right ?_
    rintro rfl
    have hpos := hassigns.pos
    rw [hdrawn, hassigns.id_eq]
    exact List.mem_map_of_mem (List.mem_range.mpr (by omega))

/-! ## Runs -/

/-- The ids that steps one after the other draw. -/
def drawnIn : RegistrySession → List RegistryStep → List PeerId
  | _, [] => []
  | s, a :: rest => s.drawn a ++ (s.step a).1.drawnIn rest

/-- Pairwise different ids stay so until a step exhausts its draws. -/
theorem nodup_ids_run_or (h : s.registry.ids.Nodup) (steps : List RegistryStep) :
    (s.run steps).registry.ids.Nodup ∨
      ∃ before a after, steps = before ++ a :: after ∧ (s.run before).Exhausts a := by
  induction steps generalizing s with
  | nil => exact .inl h
  | cons a rest ih =>
    by_cases hexhausts : s.Exhausts a
    · exact .inr ⟨[], a, rest, rfl, hexhausts⟩
    · refine (ih ((nodup_ids_step_iff h a).mpr hexhausts)).imp_right ?_
      rintro ⟨before, b, after, rfl, hb⟩
      exact ⟨a :: before, b, after, rfl, hb⟩

/-- Every id that is held was held at first, or was drawn at some time. -/
theorem mem_ids_run {id : PeerId} {steps : List RegistryStep}
    (h : id ∈ (s.run steps).registry.ids) : id ∈ s.registry.ids ∨ id ∈ s.drawnIn steps := by
  induction steps generalizing s with
  | nil => exact .inl h
  | cons a rest ih =>
    rw [drawnIn, List.mem_append, ← or_assoc]
    exact (ih h).imp_left mem_ids_step

end RegistrySession

/-- Which ids are assigned. A registration of a known endpoint or with a full table draws none. Any
other draws ids until one is free, at most eight of them, and assigns the one drawn last, without a
look at those that would have followed. So over every run all ids that are held were drawn. They are
pairwise different unless some registration drew eight held ones in a row, which is also the only
way in which a registration repeats an id. If zero was never drawn then nobody has it. -/
theorem ids_assigned :
    (∀ (r : Registry) (now : Nat) (draw : Nat → PeerId) (e : Endpoint),
      (∀ entry, r.find? e = some entry → r.register now draw e = (r, .known entry.peer, 0)) ∧
      (r.find? e = none → r.limit ≤ r.entries.length → r.register now draw e = (r, .full, 0)) ∧
      (r.find? e = none → r.entries.length < r.limit →
        ∃ id draws, Registry.Assigns r.ids draw id draws ∧
          r.register now draw e =
            ({ r with
                entries := r.entries ++ [⟨Peer.ofEndpoint e id, now, r.tokens.issue.2⟩]
                tokens := r.tokens.issue.1 },
              .new (Peer.ofEndpoint e id), draws)) ∧
      ∀ draw' : Nat → PeerId, (∀ i < (r.register now draw e).2.2, draw' i = draw i) →
        r.register now draw' e = r.register now draw e) ∧
    ∀ (limit : Nat) (steps : List RegistryStep),
      let start := RegistrySession.start limit
      let s := start.run steps
      (s.registry.ids.Nodup ∨
        ∃ before a after, steps = before ++ a :: after ∧ (start.run before).Exhausts a) ∧
      (s.registry.ids.Nodup → ∀ a, (s.step a).1.registry.ids.Nodup ↔ ¬s.Exhausts a) ∧
      (∀ id ∈ s.registry.ids, id ∈ start.drawnIn steps) ∧
      (⟨0⟩ ∉ start.drawnIn steps → ⟨0⟩ ∉ s.registry.ids) := by
  refine ⟨fun r now draw e => ⟨fun entry hfind => ?_, fun hnone hfull => ?_,
    fun hnone hroom => ?_, fun draw' => Registry.register_congr now⟩, fun limit steps => ?_⟩
  · simp only [Registry.register, hfind]
  · simp only [Registry.register, hnone, if_pos hfull]
  · refine ⟨_, _, Registry.assigns_drawId r.ids draw, ?_⟩
    simp only [Registry.register, hnone, if_neg (Nat.not_le.mpr hroom)]
    rfl
  · -- In a run that begins with nobody every id that is held was drawn.
    intro start s
    have hmem : ∀ id ∈ s.registry.ids, id ∈ start.drawnIn steps := fun id hid =>
      (RegistrySession.mem_ids_run hid).resolve_left List.not_mem_nil
    exact ⟨RegistrySession.nodup_ids_run_or (s := start) List.nodup_nil steps,
      fun h a => RegistrySession.nodup_ids_step_iff h a, hmem, fun hzero h => hzero (hmem _ h)⟩

/-- The third draw is free for the second peer; the third peer draws nothing but held ids. -/
example :
    let s := (RegistrySession.start 16).run
      [.register ⟨.v4 ⟨10, 0, 0, 1⟩, 4001⟩ fun _ => ⟨7⟩,
        .register ⟨.v4 ⟨10, 0, 0, 2⟩, 4001⟩ fun i => if i < 2 then ⟨7⟩ else ⟨9⟩,
        .register ⟨.v4 ⟨10, 0, 0, 3⟩, 4001⟩ fun i => if i < 8 then ⟨7⟩ else ⟨8⟩]
    s.registry.ids = [⟨7⟩, ⟨9⟩, ⟨7⟩] := by
  decide

end Ensemble
