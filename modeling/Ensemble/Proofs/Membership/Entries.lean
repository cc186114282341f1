import Ensemble.Proofs.Membership.Broadcast
import Ensemble.Proofs.Membership.Tokens

/-!
# What becomes of an entry

A step of the service adds one entry, takes entries away, or notes signs of life. An entry that
stays keeps its peer and its token, and its heartbeat never goes back. It is taken away only by a
DISCONNECT of its own endpoint, or by a sweep that finds it silent for longer than the timeout.

* `ServiceSession.turns` — what a step does to the entries.
* `ServiceSession.lasts_step` — what becomes of an entry.
* `ServiceSession.mem_entries_step` — where an entry comes from.
-/

namespace Ensemble

/-- Who leaves with the step. -/
def ServiceStep.leaver? : ServiceStep → Option Endpoint
  | .receive sender bytes _ _ =>
    match Message.decode bytes with
    | .ok (.disconnect port) => some ⟨sender.address, port⟩
    | _ => none
  | _ => none

/-- The second entry is what became of the first. -/
structure RegistryEntry.Lasts (x y : RegistryEntry) : Prop where
  peer_eq : y.peer = x.peer
  token_eq : y.token = x.token
  heartbeat_le : x.heartbeat ≤ y.heartbeat

namespace RegistryEntry.Lasts

variable {x y z : RegistryEntry}

theorem refl (x : RegistryEntry) : x.Lasts x := ⟨rfl, rfl, Nat.le_refl _⟩

/-- An entry that lasts twice lasts. -/
theorem trans (h : x.Lasts y) (h' : y.Lasts z) : x.Lasts z :=
  ⟨h'.peer_eq.trans h.peer_eq, h'.token_eq.trans h.token_eq,
    Nat.le_trans h.heartbeat_le h'.heartbeat_le⟩

/-- An entry that lasts stays at its endpoint. -/
theorem endpoint_eq (h : x.Lasts y) : y.peer.endpoint = x.peer.endpoint :=
  congrArg Peer.endpoint h.peer_eq

/-- A sign of life is noted, or not. -/
theorem noted {now : Nat} (h : x.heartbeat ≤ now) (p : RegistryEntry → Bool) :
    x.Lasts (if p x then { x with heartbeat := now } else x) := by
  split
  · exact ⟨rfl, rfl, h⟩
  · exact refl x

end RegistryEntry.Lasts

namespace Registry

/-- Where no two entries have the same endpoint, the one that is found is the one that is there. -/
theorem WellFormed.find?_eq_some_iff {r : Registry} (h : r.WellFormed) {e : Endpoint}
    {x : RegistryEntry} : r.find? e = some x ↔ x ∈ r.entries ∧ x.peer.endpoint = e :=
  find?_key_eq_some_iff h.endpoints_nodup

/-- Where there is room for it, an unknown endpoint is found under its new entry. -/
theorem find?_register {r : Registry} {e : Endpoint} (hnone : r.find? e = none)
    (hroom : r.entries.length < r.limit) (now : Nat) (draw : Nat → PeerId) :
    (r.register now draw e).1.find? e = some (r.newEntry now draw e) := by
  obtain ⟨x, hfind, -⟩ | ⟨-, hfull, -⟩ | ⟨-, -, heq⟩ := r.register_cases now draw e
  · rw [hnone] at hfind
    cases hfind
  · omega
  · rw [heq]
    show (r.entries ++ [_]).find? _ = _
    rw [List.find?_append, show r.entries.find? _ = none from hnone, Option.none_or]
    exact List.find?_cons_of_pos (beq_self_eq_true _)

/-- No heartbeat is later than `now`. -/
def Past (r : Registry) (now : Nat) : Prop := ∀ x ∈ r.entries, x.heartbeat ≤ now

/-- Every entry after a refresh was there before, with another heartbeat if it fits. -/
theorem mem_entries_refresh {r : Registry} {now : Nat} {p : RegistryEntry → Bool}
    {y : RegistryEntry} :
    y ∈ (r.refresh now p).entries ↔
      ∃ x ∈ r.entries, (if p x then { x with heartbeat := now } else x) = y := List.mem_map

end Registry

namespace ServiceSession

/-- The entries at an instant. -/
def entries (s : ServiceSession) : List RegistryEntry := s.service.registry.entries

/-- Whoever is known has an entry. -/
theorem knows_iff_find? {s : ServiceSession} {e : Endpoint} :
    s.Knows e ↔ ∃ x, s.service.registry.find? e = some x := by
  rw [← not_iff_not, not_knows_iff, ← Option.ne_none_iff_exists', not_not]

/-! ## What a step does to the entries -/

/-- Those entries are left that were not silent for too long. -/
theorem entries_sweep (s : ServiceSession) :
    (s.step .sweep).1.entries =
      s.entries.filter fun x => !Registry.expired s.now s.service.config.heartbeatTimeout x := by
  show (s.service.sweep s.now).1.registry.entries = _
  obtain ⟨hnobody, heq⟩ | ⟨-, heq, -⟩ := s.service.sweep_cases s.now
  · rw [heq]
    refine (List.filter_eq_self.mpr fun x hx => ?_).symm
    rw [Registry.expired, decide_eq_false (Nat.not_lt.mpr (hnobody x hx))]
    rfl
  · rw [heq]
    rfl

/-- A step leaves the entries as they are, adds one of an unknown endpoint, takes away that of who
leaves, notes signs of life, or takes away those that were silent for too long. -/
inductive Turns (s : ServiceSession) (a : ServiceStep) : Prop where
  | keeps (entries_eq : (s.step a).1.entries = s.entries)
  | enters (e : Endpoint) (draw : Nat → PeerId) (not_knows : ¬ s.Knows e)
      (entries_eq : (s.step a).1.entries =
        s.entries ++ [s.service.registry.newEntry s.now draw e])
  | leaves (e : Endpoint) (leaver_eq : a.leaver? = some e)
      (entries_eq : (s.step a).1.entries = s.entries.filter fun x => !(x.peer.endpoint == e))
  | refreshes (p : RegistryEntry → Bool)
      (entries_eq : (s.step a).1.entries = (s.service.registry.refresh s.now p).entries)
  | sweeps (step_eq : a = .sweep)
      (entries_eq : (s.step a).1.entries =
        s.entries.filter fun x => !Registry.expired s.now s.service.config.heartbeatTimeout x)

/-- Who registers is entered, or was known, or finds no room. -/
theorem turns_of_register {s : ServiceSession} {a : ServiceStep} (draw : Nat → PeerId)
    (e : Endpoint)
    (h : (s.step a).1.service.registry = (s.service.registry.register s.now draw e).1) :
    s.Turns a := by
  obtain ⟨entry, -, heq⟩ | ⟨-, -, heq⟩ | ⟨hnone, -, heq⟩ :=
    s.service.registry.register_cases s.now draw e
  · exact .keeps (by rw [entries, h, heq, entries])
  · exact .keeps (by rw [entries, h, heq, entries])
  · exact .enters e draw (not_knows_iff.mpr hnone) (by rw [entries, h, heq, entries])

/-- A message adds its sender's entry, takes it away, or notes that its sender is alive. -/
theorem turns_receive {s : ServiceSession} (h : s.service.registry.WellFormed)
    (sender : Endpoint) (bytes : Bytes) (running : Bool) (draw : Nat → PeerId) :
    s.Turns (.receive sender bytes running draw) := by
  cases hdecode : Message.decode bytes with
  | error e =>
    refine .keeps ?_
    show (s.service.receive ⟨s.now, running, draw⟩ bytes sender).service.registry.entries = _
    rw [Service.receive, hdecode]
    rfl
  | ok m =>
    have hhandle : (s.step (.receive sender bytes running draw)).1.service =
        (s.service.handle ⟨s.now, running, draw⟩ m sender).service := service_step_receive hdecode
    cases m with
    | connect port =>
      refine turns_of_register draw ⟨sender.address, port⟩ ?_
      rw [hhandle]
      exact (s.service.onConnect_changes ⟨s.now, running, draw⟩ ⟨sender.address, port⟩).1
    | disconnect port =>
      refine .leaves ⟨sender.address, port⟩ (by rw [ServiceStep.leaver?, hdecode]) ?_
      have hdrops := (h.drops_remove ⟨sender.address, port⟩).entries_eq
      show (s.step (.receive sender bytes running draw)).1.service.registry.entries = _
      rw [hhandle]
      show (s.service.onDisconnect ⟨sender.address, port⟩).1.registry.entries = _
      obtain ⟨hnone, heq⟩ | ⟨-, heq, -⟩ := s.service.onDisconnect_cases ⟨sender.address, port⟩
      · rw [heq]
        rwa [Registry.remove, hnone] at hdrops
      · rwa [heq]
    | sendStatus status =>
      refine .refreshes (·.peer.address == sender.address) ?_
      rw [entries, hhandle]
      rfl
    | _ =>
      refine .keeps ?_
      rw [entries, hhandle]
      rfl

/-- Every step of the service turns the entries over in one of these ways. -/
theorem turns {s : ServiceSession} (h : s.service.registry.WellFormed) (a : ServiceStep) :
    s.Turns a := by
  cases a with
  | receive sender bytes running draw => exact turns_receive h sender bytes running draw
  | enter e draw => exact turns_of_register draw e rfl
  | sweep => exact .sweeps rfl s.entries_sweep
  | advance _ | reap _ | close => exact .keeps rfl

/-! ## What becomes of an entry -/

/-- No step notes a heartbeat before its time. -/
theorem past_step {s : ServiceSession} (h : s.service.registry.WellFormed)
    (hpast : s.service.registry.Past s.now) (a : ServiceStep) :
    (s.step a).1.service.registry.Past (s.step a).1.now := by
  intro y hy
  refine Nat.le_trans ?_ (s.now_le_step a)
  change y ∈ (s.step a).1.entries at hy
  -- Only a new entry and a refresh write a heartbeat, and they write the present.
  cases turns h a with
  | keeps heq =>
    rw [heq] at hy
    exact hpast y hy
  | enters e draw _ heq =>
    rw [heq] at hy
    rcases List.mem_append.mp hy with hold | hnew
    · exact hpast y hold
    · obtain rfl := List.mem_singleton.mp hnew
      exact Nat.le_refl _
  | leaves e _ heq | sweeps _ heq =>
    rw [heq] at hy
    exact hpast y (List.mem_filter.mp hy).1
  | refreshes p heq =>
    rw [heq] at hy
    obtain ⟨x, hx, rfl⟩ := Registry.mem_entries_refresh.mp hy
    split
    · exact Nat.le_refl _
    · exact hpast x hx

/-- No heartbeat is ever in the future. -/
theorem past_run {s : ServiceSession} (h : s.service.registry.WellFormed)
    (hpast : s.service.registry.Past s.now) (steps : List ServiceStep) :
    (s.run steps).service.registry.Past (s.run steps).now := by
  induction steps generalizing s with
  | nil => exact hpast
  | cons a rest ih => exact ih (wellFormed_step h a) (past_step h hpast a)

/-- An entry stays, unless its endpoint leaves or a sweep finds it silent for too long. -/
theorem lasts_step {s : ServiceSession} (h : s.service.registry.WellFormed)
    (hpast : s.service.registry.Past s.now) {x : RegistryEntry} (hx : x ∈ s.entries)
    (a : ServiceStep) :
    (∃ y ∈ (s.step a).1.entries, x.Lasts y) ∨ a.leaver? = some x.peer.endpoint ∨
      a = .sweep ∧ x.heartbeat + s.service.config.heartbeatTimeout < s.now := by
  cases turns h a with
  | keeps heq => exact .inl ⟨x, heq ▸ hx, .refl x⟩
  | enters e draw _ heq => exact .inl ⟨x, heq ▸ List.mem_append_left _ hx, .refl x⟩
  | leaves e hleaver heq =>
    by_cases he : x.peer.endpoint = e
    · exact .inr (.inl (he ▸ hleaver))
    · refine .inl ⟨x, ?_, .refl x⟩
      rw [heq]
      exact List.mem_filter.mpr ⟨hx, by simpa using he⟩
  | refreshes p heq =>
    refine .inl ⟨_, ?_, .noted (hpast x hx) p⟩
    rw [heq]
    exact Registry.mem_entries_refresh.mpr ⟨x, hx, rfl⟩
  | sweeps hsweep heq =>
    -- A sweep takes the entry only if it was silent for too long.
    cases hexpired : Registry.expired s.now s.service.config.heartbeatTimeout x with
    | true =>
      have hlt := of_decide_eq_true hexpired
      exact .inr (.inr ⟨hsweep, by omega⟩)
    | false =>
      refine .inl ⟨x, ?_, .refl x⟩
      rw [heq]
      exact List.mem_filter.mpr ⟨hx, by rw [hexpired]; rfl⟩

/-- A sweep takes away whoever was silent for too long. -/
theorem not_knows_sweep {s : ServiceSession} (h : s.service.registry.WellFormed)
    {x : RegistryEntry} (hx : x ∈ s.entries)
    (hlt : x.heartbeat + s.service.config.heartbeatTimeout < s.now) :
    ¬ (s.step .sweep).1.Knows x.peer.endpoint := by
  rintro ⟨p, hp, he⟩
  obtain ⟨y, hy, rfl⟩ := List.mem_map.mp hp
  change y ∈ (s.step .sweep).1.entries at hy
  rw [entries_sweep] at hy
  obtain ⟨hmem, hkept⟩ := List.mem_filter.mp hy
  have hsame : some x = some y :=
    (h.find?_eq_some_iff.mpr ⟨hx, rfl⟩).symm.trans (h.find?_eq_some_iff.mpr ⟨hmem, he⟩)
  rw [← Option.some.inj hsame, Registry.expired, decide_eq_true (by omega)] at hkept
  cases hkept

/-- An entry was there before, or its endpoint was unknown and it begins now. -/
theorem mem_entries_step {s : ServiceSession} (h : s.service.registry.WellFormed)
    (hpast : s.service.registry.Past s.now) {a : ServiceStep} {y : RegistryEntry}
    (hy : y ∈ (s.step a).1.entries) :
    (∃ x ∈ s.entries, x.Lasts y) ∨ ¬ s.Knows y.peer.endpoint ∧ y.heartbeat = s.now := by
  cases turns h a with
  | keeps heq =>
    rw [heq] at hy
    exact .inl ⟨y, hy, .refl y⟩
  | enters e draw hnot heq =>
    rw [heq] at hy
    rcases List.mem_append.mp hy with hold | hnew
    · exact .inl ⟨y, hold, .refl y⟩
    · -- The entry is new.
      obtain rfl := List.mem_singleton.mp hnew
      exact .inr ⟨hnot, rfl⟩
  | leaves e _ heq | sweeps _ heq =>
    rw [heq] at hy
    exact .inl ⟨y, (List.mem_filter.mp hy).1, .refl y⟩
  | refreshes p heq =>
    rw [heq] at hy
    obtain ⟨x, hx, rfl⟩ := Registry.mem_entries_refresh.mp hy
    exact .inl ⟨x, hx, .noted (hpast x hx) p⟩

/-- No step changes how the service is set up. -/
theorem config_step (s : ServiceSession) (a : ServiceStep) :
    (s.step a).1.service.config = s.service.config := by
  cases a with
  | receive sender bytes running draw =>
    show (s.service.receive ⟨s.now, running, draw⟩ bytes sender).service.config = _
    rw [Service.receive]
    split
    · rename_i m _
      cases m with
      | connect port =>
        simp only [Service.handle, Service.onConnect]
        split <;> rfl
      | disconnect port =>
        simp only [Service.handle, Service.onDisconnect]
        split <;> rfl
      | _ => rfl
    · rfl
  | sweep =>
    show (s.service.sweep s.now).1.config = _
    rw [Service.sweep]
    split <;> rfl
  | enter _ _ | advance _ | reap _ | close => rfl

end ServiceSession

end Ensemble
