import Ensemble.Proofs.Membership.Entries
import Ensemble.Proofs.Membership.Ids
import Mathlib.Data.Set.Card

/-!
# The registry is an ordered map

A `Directory` is what the registry stands for: a finite map from endpoints to records, each with the
number of the registration that made it. `Directory.Step` says what each operation does to the map
and what it answers; of the id of a new endpoint it says only that it was drawn. The registry keeps
a list instead. This list is at all times the map's listing by number, and all its answers are
those of the map.

* `Registry.Shows` — the entries list the records of a directory in the order of registrations.
* `RegistrySession.shows_step` — every step of the registry is a step of the directory.
* `registry_refines_directory` — so is every run, and the list may be used as a map throughout.
-/

namespace Ensemble

/-! ## Directories -/

/-- What a directory holds of an endpoint. -/
structure Enrolment where
  /-- How many registrations had made a record before. -/
  number : Nat
  id : PeerId
  /-- When the endpoint last gave a sign of life. -/
  heartbeat : Nat

/-- A finite map from endpoints to records, with a clock. -/
structure Directory where
  limit : Nat
  now : Nat
  /-- How many registrations have made a record so far. -/
  made : Nat
  record : Endpoint → Option Enrolment

namespace Directory

/-- The directory before any registration. -/
def empty (limit : Nat) : Directory := ⟨limit, 0, 0, fun _ => none⟩

/-- How many endpoints with a property have a record. -/
noncomputable def count (d : Directory) (p : Endpoint → Bool) : Nat :=
  {e | (d.record e).isSome ∧ p e = true}.ncard

/-- How many endpoints have a record. -/
noncomputable def size (d : Directory) : Nat := d.count fun _ => true

/-- Make a record of an endpoint. -/
def enter (d : Directory) (e : Endpoint) (id : PeerId) : Directory :=
  { d with
    made := d.made + 1
    record := Function.update d.record e (some ⟨d.made, id, d.now⟩) }

/-- Drop the record of an endpoint. -/
def erase (d : Directory) (e : Endpoint) : Directory :=
  { d with record := Function.update d.record e none }

/-- Note a sign of life of all endpoints with a property. -/
def note (d : Directory) (p : Endpoint → Bool) : Directory :=
  { d with
    record := fun e => (d.record e).map fun x => if p e then { x with heartbeat := d.now } else x }

/-- Keep the records with a property. -/
def keep (d : Directory) (p : Enrolment → Bool) : Directory :=
  { d with record := fun e => (d.record e).filter p }

/-- Whoever enters is recorded under the next number. -/
@[simp] theorem record_enter_self (d : Directory) (e : Endpoint) (id : PeerId) :
    (d.enter e id).record e = some ⟨d.made, id, d.now⟩ := Function.update_self e _ _

@[simp] theorem record_enter_of_ne (d : Directory) {e e' : Endpoint} (h : e' ≠ e) (id : PeerId) :
    (d.enter e id).record e' = d.record e' := Function.update_of_ne h _ _

/-- Whoever leaves is not recorded any more. -/
@[simp] theorem record_erase_self (d : Directory) (e : Endpoint) : (d.erase e).record e = none :=
  Function.update_self e _ _

@[simp] theorem record_erase_of_ne (d : Directory) {e e' : Endpoint} (h : e' ≠ e) :
    (d.erase e).record e' = d.record e' := Function.update_of_ne h _ _

/-- The listing of the directory in the order of registrations. -/
structure Lists (d : Directory) (xs : List (Endpoint × Enrolment)) : Prop where
  mem_iff : ∀ e x, (e, x) ∈ xs ↔ d.record e = some x
  sorted : xs.Pairwise fun a b => a.2.number < b.2.number

end Directory

/-- The peer of a record. -/
def Enrolment.peer (a : Endpoint × Enrolment) : Peer := Peer.ofEndpoint a.1 a.2.id

/-- The step has to do with knockers and their tokens alone. -/
def RegistryStep.IsAside : RegistryStep → Prop
  | .cancelRoot | .ensure _ _ | .start _ _ _ | .stopAll => True
  | _ => False

/-- What each step does to a directory, and what it answers. -/
inductive Directory.Step (d : Directory) : RegistryStep → RegistryAnswer → Directory → Prop
  /-- An endpoint with a record is known, whether the directory is full or not. -/
  | known {e : Endpoint} {draw : Nat → PeerId} {x : Enrolment} (h : d.record e = some x) :
      Step d (.register e draw) (.registration (.known (Enrolment.peer (e, x))) 0) d
  | full {e : Endpoint} {draw : Nat → PeerId} (h : d.record e = none) (hfull : d.size = d.limit) :
      Step d (.register e draw) (.registration .full 0) d
  /-- A new record is the last one, under an id that was drawn. -/
  | enters {e : Endpoint} {draw : Nat → PeerId} {i : Nat} (h : d.record e = none)
      (hroom : d.size < d.limit) (hi : i < maxDraws) :
      Step d (.register e draw) (.registration (.new (Peer.ofEndpoint e (draw i))) (i + 1))
        (d.enter e (draw i))
  | removes (e : Endpoint) :
      Step d (.remove e) (.peer ((d.record e).map fun x => Enrolment.peer (e, x))) (d.erase e)
  | hears (e : Endpoint) : Step d (.heartbeat e) (.flag (d.record e).isSome) (d.note (· == e))
  | hearsFrom (a : IpAddress) :
      Step d (.heartbeatFrom a) (.count (d.count (·.address == a))) (d.note (·.address == a))
  /-- The records that were silent for too long go, and are listed. -/
  | sweeps {time timeout : Nat} {gone : List (Endpoint × Enrolment)}
      (h : (d.keep fun x => decide (timeout < time - x.heartbeat)).Lists gone) :
      Step d (.sweep time timeout) (.peers (gone.map Enrolment.peer))
        (d.keep fun x => !decide (timeout < time - x.heartbeat))
  | waits (ms : Nat) : Step d (.advance ms) .none { d with now := d.now + ms }
  | aside {a : RegistryStep} {answer : RegistryAnswer} (h : a.IsAside) : Step d a answer d

/-- What steps do one after the other, and what they answer. -/
inductive Directory.Run :
    Directory → List RegistryStep → List RegistryAnswer → Directory → Prop
  | nil (d : Directory) : Run d [] [] d
  | cons {d d' d'' : Directory} {a : RegistryStep} {answer : RegistryAnswer}
      {rest : List RegistryStep} {answers : List RegistryAnswer} (hstep : d.Step a answer d')
      (hrest : Run d' rest answers d'') : Run d (a :: rest) (answer :: answers) d''

/-- What the registry answers to steps one after the other. -/
def RegistrySession.answers : RegistrySession → List RegistryStep → List RegistryAnswer
  | _, [] => []
  | s, a :: rest => (s.step a).2 :: (s.step a).1.answers rest

/-! ## Listings -/

namespace Directory.Lists

variable {d : Directory} {xs : List (Endpoint × Enrolment)}

/-- No endpoint is listed twice. -/
theorem nodup (h : d.Lists xs) : (xs.map Prod.fst).Nodup := by
  rw [List.nodup_iff_pairwise_ne, List.pairwise_map]
  refine h.sorted.imp_of_mem fun {a b} ha hb hlt heq => ?_
  have hsome : some a.2 = some b.2 :=
    ((h.mem_iff a.1 a.2).mp ha).symm.trans (heq ▸ (h.mem_iff b.1 b.2).mp hb)
  rw [Option.some.inj hsome] at hlt
  exact Nat.lt_irrefl _ hlt

/-- No endpoint is listed twice, so counting in the list counts in the map. -/
theorem count_eq (h : d.Lists xs) (p : Endpoint → Bool) : d.count p = xs.countP (p ·.1) := by
  have hset : {e | (d.record e).isSome ∧ p e = true} =
      ((xs.map Prod.fst).filter p).toFinset := by
    ext e
    simp only [Set.mem_ofPred_eq, List.coe_toFinset, List.mem_filter, List.mem_map, Prod.exists,
      exists_and_right, exists_eq_right, Option.isSome_iff_exists, h.mem_iff]
  rw [count, hset, Set.ncard_coe_finset, List.toFinset_card_of_nodup (h.nodup.filter p),
    List.filter_map, List.length_map, List.countP_eq_length_filter]
  rfl

/-- A new endpoint has the greatest number so far, and so stands at the end of the listing. -/
theorem enter (h : d.Lists xs) {e : Endpoint} (hnone : d.record e = none)
    (hmade : ∀ a ∈ xs, a.2.number < d.made) (id : PeerId) :
    (d.enter e id).Lists (xs ++ [(e, ⟨d.made, id, d.now⟩)]) where
  mem_iff e' x := by
    rw [List.mem_append, List.mem_singleton]
    by_cases he : e' = e
    · subst he
      have hold : (e', x) ∉ xs := fun hmem => by
        cases hnone.symm.trans ((h.mem_iff e' x).mp hmem)
      simp [hold, eq_comm]
    · simp [he, h.mem_iff]
  sorted := by
    refine List.pairwise_append.mpr ⟨h.sorted, List.pairwise_singleton _ _, fun a ha b hb => ?_⟩
    rw [List.mem_singleton.mp hb]
    exact hmade a ha

/-- Without one endpoint the listing is that of the others, in their order. -/
theorem erase (h : d.Lists xs) (e : Endpoint) :
    (d.erase e).Lists (xs.filter fun a => !(a.1 == e)) where
  mem_iff e' x := by
    rw [List.mem_filter]
    by_cases he : e' = e
    · simp [he]
    · simp [he, h.mem_iff]
  sorted := h.sorted.filter _

/-- A heartbeat changes neither the endpoints nor their numbers. -/
theorem note (h : d.Lists xs) (p : Endpoint → Bool) :
    (d.note p).Lists
      (xs.map fun a => (a.1, if p a.1 then { a.2 with heartbeat := d.now } else a.2)) where
  mem_iff e x := by
    simp only [List.mem_map, Prod.exists, Prod.mk.injEq, Directory.note, Option.map_eq_some_iff,
      h.mem_iff]
    constructor
    · rintro ⟨e', x', hrecord, rfl, rfl⟩
      exact ⟨x', hrecord, rfl⟩
    · rintro ⟨x', hrecord, rfl⟩
      exact ⟨e, x', hrecord, rfl, rfl⟩
  sorted := by
    have hnumber : ∀ a : Endpoint × Enrolment,
        (if p a.1 then { a.2 with heartbeat := d.now } else a.2).number = a.2.number := by
      intro a
      split <;> rfl
    rw [List.pairwise_map]
    simpa only [hnumber] using h.sorted

/-- What is kept is listed in its order. -/
theorem keep (h : d.Lists xs) (p : Enrolment → Bool) : (d.keep p).Lists (xs.filter (p ·.2)) where
  mem_iff e x := by
    rw [List.mem_filter, h.mem_iff, Directory.keep, Option.filter_eq_some_iff]
  sorted := h.sorted.filter _

end Directory.Lists

/-! ## What a registry shows -/

/-- An entry without its token. -/
def RegistryEntry.outline (x : RegistryEntry) : Peer × Nat := (x.peer, x.heartbeat)

/-- A record without its number. -/
def Enrolment.outline (a : Endpoint × Enrolment) : Peer × Nat := (Enrolment.peer a, a.2.heartbeat)

/-- The entries of the registry are the records of the directory, in the order of registrations. -/
structure Registry.Shows (r : Registry) (d : Directory) : Prop where
  limit_eq : d.limit = r.limit
  number_lt : ∀ e x, d.record e = some x → x.number < d.made
  lists : ∃ xs, d.Lists xs ∧ r.entries.map RegistryEntry.outline = xs.map Enrolment.outline

namespace Registry.Shows

variable {r : Registry} {d : Directory} {e : Endpoint}

/-- An empty registry shows an empty directory. -/
theorem empty (limit : Nat) :
    (Registry.empty limit).Shows (Directory.empty (min limit maxPeers)) where
  limit_eq := rfl
  number_lt e x h := by cases h
  lists := ⟨[], ⟨fun e x => iff_of_false List.not_mem_nil nofun, .nil⟩, rfl⟩

/-- An endpoint has a record as what it is registered as. -/
theorem record_of_find? (h : r.Shows d) {entry : RegistryEntry} (hfind : r.find? e = some entry) :
    ∃ x, d.record e = some x ∧ Enrolment.peer (e, x) = entry.peer := by
  obtain ⟨xs, hlists, houtlines⟩ := h.lists
  obtain ⟨hmem, rfl⟩ := mem_of_find? hfind
  have hmem' : entry.outline ∈ xs.map Enrolment.outline :=
    houtlines ▸ List.mem_map_of_mem hmem
  obtain ⟨⟨e, x⟩, hx, houtline⟩ := List.mem_map.mp hmem'
  have hpeer : Enrolment.peer (e, x) = entry.peer := congrArg Prod.fst houtline
  have hendpoint : e = entry.peer.endpoint := by rw [← hpeer]; rfl
  subst hendpoint
  exact ⟨x, (hlists.mem_iff _ x).mp hx, hpeer⟩

/-- An endpoint without an entry is not recorded. -/
theorem record_eq_none (h : r.Shows d) (hnone : r.find? e = none) : d.record e = none := by
  obtain ⟨xs, hlists, houtlines⟩ := h.lists
  cases hrecord : d.record e with
  | none => rfl
  | some x =>
    have hmem : Enrolment.outline (e, x) ∈ r.entries.map RegistryEntry.outline :=
      houtlines ▸ List.mem_map_of_mem ((hlists.mem_iff e x).mpr hrecord)
    obtain ⟨entry, hentry, houtline⟩ := List.mem_map.mp hmem
    have hpeer : entry.peer = Enrolment.peer (e, x) := congrArg Prod.fst houtline
    refine absurd ?_ (find?_eq_none_iff.mp hnone entry.peer (List.mem_map_of_mem hentry))
    rw [hpeer]
    rfl

/-- What a lookup finds is what the record says. -/
theorem map_record (h : r.Shows d) (e : Endpoint) :
    (d.record e).map (fun x => Enrolment.peer (e, x)) = (r.find? e).map (·.peer) := by
  cases hfind : r.find? e with
  | none => rw [h.record_eq_none hfind, Option.map_none, Option.map_none]
  | some entry =>
    obtain ⟨x, hrecord, hpeer⟩ := h.record_of_find? hfind
    rw [hrecord, Option.map_some, Option.map_some, hpeer]

/-- To count entries is to count records. -/
theorem count_eq (h : r.Shows d) (p : Endpoint → Bool) :
    d.count p = r.entries.countP (p ·.peer.endpoint) := by
  obtain ⟨xs, hlists, houtlines⟩ := h.lists
  have hcounts := congrArg (List.countP fun o : Peer × Nat => p o.1.endpoint) houtlines
  rw [List.countP_map, List.countP_map] at hcounts
  rw [hlists.count_eq]
  exact hcounts.symm

/-- There are as many records as entries. -/
theorem size_eq (h : r.Shows d) : d.size = r.entries.length := by
  rw [Directory.size, h.count_eq, List.countP_true]

/-- Tokens are no part of what is shown. -/
theorem withTokens (h : r.Shows d) (tokens : TokenPool) : ({ r with tokens } : Registry).Shows d :=
  ⟨h.limit_eq, h.number_lt, h.lists⟩

/-- Time has no part in it. -/
theorem wait (h : r.Shows d) (now : Nat) : r.Shows { d with now } :=
  ⟨h.limit_eq, h.number_lt, h.lists.imp fun _ ⟨hlists, houtlines⟩ =>
    ⟨⟨hlists.mem_iff, hlists.sorted⟩, houtlines⟩⟩

/-! ## What the operations show -/

/-- A new entry stands last, as a new record has the greatest number. -/
theorem enter (h : r.Shows d) (hnone : r.find? e = none) (draw : Nat → PeerId)
    (tokens : TokenPool) :
    Registry.Shows { r with entries := r.entries ++ [r.newEntry d.now draw e], tokens }
      (d.enter e (r.newEntry d.now draw e).peer.id) where
  limit_eq := h.limit_eq
  number_lt e' x hrecord := by
    show x.number < d.made + 1
    by_cases he : e' = e
    · subst he
      rw [Directory.record_enter_self] at hrecord
      cases hrecord
      exact Nat.lt_succ_self _
    · rw [Directory.record_enter_of_ne d he] at hrecord
      exact Nat.lt_succ_of_lt (h.number_lt e' x hrecord)
  lists := by
    obtain ⟨xs, hlists, houtlines⟩ := h.lists
    have hmade : ∀ a ∈ xs, a.2.number < d.made := fun a ha =>
      h.number_lt a.1 a.2 ((hlists.mem_iff a.1 a.2).mp ha)
    refine ⟨_, hlists.enter (h.record_eq_none hnone) hmade _, ?_⟩
    rw [List.map_append, List.map_append, houtlines]
    rfl

/-- To remove an entry is to erase the record of its endpoint. -/
theorem remove (h : r.Shows d) (hform : r.WellFormed) (e : Endpoint) :
    (r.remove e).1.Shows (d.erase e) where
  limit_eq := by
    rw [Registry.remove]
    split <;> exact h.limit_eq
  number_lt e' x hrecord := by
    by_cases he : e' = e
    · subst he
      rw [Directory.record_erase_self] at hrecord
      cases hrecord
    · rw [Directory.record_erase_of_ne d he] at hrecord
      exact h.number_lt e' x hrecord
  lists := by
    obtain ⟨xs, hlists, houtlines⟩ := h.lists
    refine ⟨_, hlists.erase e, ?_⟩
    have hfilter := congrArg (List.filter fun o : Peer × Nat => !(o.1.endpoint == e)) houtlines
    rw [List.filter_map, List.filter_map] at hfilter
    rw [(hform.drops_remove e).entries_eq]
    exact hfilter

/-- To refresh the entries that fit is to note the time at their records. -/
theorem refresh (h : r.Shows d) (p : Endpoint → Bool) :
    (r.refresh d.now (p ·.peer.endpoint)).Shows (d.note p) where
  limit_eq := h.limit_eq
  number_lt e x hrecord := by
    obtain ⟨x', hrecord', rfl⟩ := Option.map_eq_some_iff.mp hrecord
    have hlt := h.number_lt e x' hrecord'
    show (if p e then { x' with heartbeat := d.now } else x').number < d.made
    split <;> exact hlt
  lists := by
    obtain ⟨xs, hlists, houtlines⟩ := h.lists
    refine ⟨_, hlists.note p, ?_⟩
    -- What a refresh does to an entry, in terms of what the entry shows.
    let hear : Peer × Nat → Peer × Nat := fun o => if p o.1.endpoint then (o.1, d.now) else o
    have hentry : ∀ x : RegistryEntry,
        (if p x.peer.endpoint then { x with heartbeat := d.now } else x).outline =
          hear x.outline := by
      intro x
      by_cases hp : p x.peer.endpoint <;> simp [hear, RegistryEntry.outline, hp]
    have hrecord : ∀ a : Endpoint × Enrolment,
        Enrolment.outline (a.1, if p a.1 then { a.2 with heartbeat := d.now } else a.2) =
          hear (Enrolment.outline a) := by
      intro a
      have hendpoint : (Enrolment.outline a).1.endpoint = a.1 := rfl
      by_cases hp : p a.1 <;> simp [hear, Enrolment.outline, Enrolment.peer, hp]
    have hmap := congrArg (List.map hear) houtlines
    rw [List.map_map, List.map_map] at hmap
    rw [Registry.refresh, List.map_map, List.map_map]
    simpa only [Function.comp_def, hentry, hrecord] using hmap

/-- The entries with a property of their heartbeat are the records with this property. -/
theorem lists_filter (h : r.Shows d) (q : Nat → Bool) :
    ∃ xs, (d.keep (q ·.heartbeat)).Lists xs ∧
      (r.entries.filter (q ·.heartbeat)).map RegistryEntry.outline = xs.map Enrolment.outline := by
  obtain ⟨xs, hlists, houtlines⟩ := h.lists
  refine ⟨_, hlists.keep _, ?_⟩
  have hfilter := congrArg (List.filter fun o : Peer × Nat => q o.2) houtlines
  rwa [List.filter_map, List.filter_map] at hfilter

/-- A sweep keeps the records that are recent enough. -/
theorem sweep (h : r.Shows d) (time timeout : Nat) :
    (r.sweep time timeout).1.Shows (d.keep fun x => !decide (timeout < time - x.heartbeat)) where
  limit_eq := h.limit_eq
  number_lt e x hrecord := h.number_lt e x (Option.filter_eq_some_iff.mp hrecord).1
  lists := h.lists_filter fun t => !decide (timeout < time - t)

end Registry.Shows

/-! ## Steps and runs -/

namespace RegistrySession

variable {s : RegistrySession} {d : Directory}

/-- A CONNECT finds its record, or a full directory, or enters with the id that was drawn for it. -/
theorem shows_register (h : s.registry.Shows d) (hform : s.registry.WellFormed)
    (hnow : d.now = s.now) (e : Endpoint) (draw : Nat → PeerId) :
    ∃ d', d.Step (.register e draw) (s.step (.register e draw)).2 d' ∧
      (s.step (.register e draw)).1.registry.Shows d' ∧
      d'.now = (s.step (.register e draw)).1.now := by
  have hregistry : (s.step (.register e draw)).1.registry =
      (s.registry.register s.now draw e).1 := rfl
  have hanswer : (s.step (.register e draw)).2 =
      .registration (s.registry.register s.now draw e).2.1
        (s.registry.register s.now draw e).2.2 := rfl
  rw [hregistry, hanswer]
  obtain ⟨entry, hfind, heq⟩ | ⟨hnone, hfull, heq⟩ | ⟨hnone, hroom, heq⟩ :=
    s.registry.register_cases s.now draw e
  · obtain ⟨x, hrecord, hpeer⟩ := h.record_of_find? hfind
    rw [heq, ← hpeer]
    exact ⟨d, .known hrecord, h, hnow⟩
  · -- A well-formed registry is full exactly at its bound.
    have hsize : d.size = d.limit := by
      have hle := hform.length_le
      rw [Registry.length_peers] at hle
      rw [h.size_eq, h.limit_eq]
      omega
    rw [heq]
    exact ⟨d, .full (h.record_eq_none hnone) hsize, h, hnow⟩
  · have hroom' : d.size < d.limit := by rwa [h.size_eq, h.limit_eq]
    obtain ⟨k, hk, hdraw, -⟩ :=
      Registry.drawId_spec (s.registry.peers.map (·.id)) draw (maxDraws - 1) 0
    rw [Nat.zero_add] at hdraw
    -- The id is one of the eight that may be drawn.
    have hid : (s.registry.newEntry s.now draw e).peer.id = draw k := congrArg Prod.fst hdraw
    have hpeer : (s.registry.newEntry s.now draw e).peer = Peer.ofEndpoint e (draw k) :=
      congrArg (Peer.ofEndpoint e) hid
    have hshows := h.enter hnone draw s.registry.tokens.issue.1
    rw [hnow, hid] at hshows
    rw [heq, hpeer, hdraw]
    refine ⟨d.enter e (draw k), .enters (h.record_eq_none hnone) hroom' ?_, hshows, hnow⟩
    exact Nat.lt_of_le_of_lt hk (by decide)

/-- The answer to a removal is the peer that was recorded. -/
theorem shows_remove (h : s.registry.Shows d) (hform : s.registry.WellFormed)
    (hnow : d.now = s.now) (e : Endpoint) :
    ∃ d', d.Step (.remove e) (s.step (.remove e)).2 d' ∧
      (s.step (.remove e)).1.registry.Shows d' ∧ d'.now = (s.step (.remove e)).1.now := by
  refine ⟨d.erase e, ?_, h.remove hform e, hnow⟩
  have hanswer : (s.step (.remove e)).2 =
      .peer ((d.record e).map fun x => Enrolment.peer (e, x)) := by
    rw [h.map_record]
    show RegistryAnswer.peer (s.registry.remove e).2 = _
    rw [Registry.remove]
    cases s.registry.find? e <;> rfl
  rw [hanswer]
  exact .removes e

/-- The answer to a heartbeat says whether there was a record. -/
theorem shows_heartbeat (h : s.registry.Shows d) (hnow : d.now = s.now) (e : Endpoint) :
    ∃ d', d.Step (.heartbeat e) (s.step (.heartbeat e)).2 d' ∧
      (s.step (.heartbeat e)).1.registry.Shows d' ∧
      d'.now = (s.step (.heartbeat e)).1.now := by
  have hshows := h.refresh (· == e)
  rw [hnow] at hshows
  refine ⟨d.note (· == e), ?_, hshows, hnow⟩
  have hanswer : (s.step (.heartbeat e)).2 = .flag (d.record e).isSome := by
    have hsome := congrArg Option.isSome (h.map_record e)
    rw [Option.isSome_map, Option.isSome_map] at hsome
    rw [hsome]
    rfl
  rw [hanswer]
  exact .hears e

/-- The answer to the heartbeat of an address says how many records have it. -/
theorem shows_heartbeatFrom (h : s.registry.Shows d) (hnow : d.now = s.now) (a : IpAddress) :
    ∃ d', d.Step (.heartbeatFrom a) (s.step (.heartbeatFrom a)).2 d' ∧
      (s.step (.heartbeatFrom a)).1.registry.Shows d' ∧
      d'.now = (s.step (.heartbeatFrom a)).1.now := by
  have hshows := h.refresh (·.address == a)
  rw [hnow] at hshows
  refine ⟨d.note (·.address == a), ?_, hshows, hnow⟩
  have hanswer : (s.step (.heartbeatFrom a)).2 = .count (d.count (·.address == a)) := by
    rw [h.count_eq]
    rfl
  rw [hanswer]
  exact .hearsFrom a

/-- The answer to a sweep are the peers that are gone, in the order of their numbers. -/
theorem shows_sweep (h : s.registry.Shows d) (hnow : d.now = s.now) (time timeout : Nat) :
    ∃ d', d.Step (.sweep time timeout) (s.step (.sweep time timeout)).2 d' ∧
      (s.step (.sweep time timeout)).1.registry.Shows d' ∧
      d'.now = (s.step (.sweep time timeout)).1.now := by
  obtain ⟨gone, hlists, houtlines⟩ := h.lists_filter fun t => decide (timeout < time - t)
  refine ⟨_, ?_, h.sweep time timeout, hnow⟩
  have hanswer : (s.step (.sweep time timeout)).2 = .peers (gone.map Enrolment.peer) := by
    have hpeers := congrArg (List.map Prod.fst) houtlines
    rw [List.map_map, List.map_map] at hpeers
    exact congrArg RegistryAnswer.peers hpeers
  rw [hanswer]
  exact .sweeps hlists

/-- Every step of the registry is a step of the directory that it shows. -/
theorem shows_step (h : s.registry.Shows d) (hform : s.registry.WellFormed) (hnow : d.now = s.now)
    (a : RegistryStep) :
    ∃ d', d.Step a (s.step a).2 d' ∧ (s.step a).1.registry.Shows d' ∧
      d'.now = (s.step a).1.now := by
  cases a with
  | register e draw => exact shows_register h hform hnow e draw
  | remove e => exact shows_remove h hform hnow e
  | heartbeat e => exact shows_heartbeat h hnow e
  | heartbeatFrom a => exact shows_heartbeatFrom h hnow a
  | sweep time timeout => exact shows_sweep h hnow time timeout
  -- Everything else has to do with tokens or with time.
  | cancelRoot => exact ⟨d, .aside trivial, h.withTokens _, hnow⟩
  | ensure running e => exact ⟨d, .aside trivial, h, hnow⟩
  | start running e token => exact ⟨d, .aside trivial, h.withTokens _, hnow⟩
  | stopAll => exact ⟨d, .aside trivial, h.withTokens _, hnow⟩
  | advance ms =>
    refine ⟨{ d with now := d.now + ms }, .waits ms, h.wait _, ?_⟩
    show d.now + ms = s.now + ms
    rw [hnow]

/-- Every run of the registry is a run of the directory that it shows. -/
theorem shows_run (h : s.registry.Shows d) (hform : s.registry.WellFormed) (hnow : d.now = s.now)
    (steps : List RegistryStep) :
    ∃ d', d.Run steps (s.answers steps) d' ∧ (s.run steps).registry.Shows d' := by
  induction steps generalizing s d with
  | nil => exact ⟨d, .nil d, h⟩
  | cons a rest ih =>
    obtain ⟨d', hstep, hshows, hnow'⟩ := shows_step h hform hnow a
    obtain ⟨d'', hrun, hshows'⟩ := ih hshows (wellFormed_step hform a) hnow'
    exact ⟨d'', .cons hstep hrun, hshows'⟩

end RegistrySession

/-! ## The registry as a map -/

/-- A registry may be used as a map with endpoints as its keys, of at most `bound` peers. -/
structure Registry.IsKeyed (r : Registry) (bound : Nat) : Prop where
  nodup : (r.peers.map Peer.endpoint).Nodup
  length_le : r.peers.length ≤ bound
  known_iff : ∀ now draw e p,
    (r.register now draw e).2.1 = .known p ↔ p ∈ r.peers ∧ p.endpoint = e
  full_iff : ∀ now draw e,
    (r.register now draw e).2.1 = .full ↔
      (∀ p ∈ r.peers, p.endpoint ≠ e) ∧ r.peers.length = bound
  register_new : ∀ now draw e p, (r.register now draw e).2.1 = .new p →
    p.endpoint = e ∧ ∃ x, x.peer = p ∧ (r.register now draw e).1.entries = r.entries ++ [x]
  register_not_new : ∀ now draw e,
    (∀ p, (r.register now draw e).2.1 ≠ .new p) → (r.register now draw e).1 = r
  removed_iff : ∀ e p, (r.remove e).2 = some p ↔ p ∈ r.peers ∧ p.endpoint = e
  entries_remove : ∀ e,
    (r.remove e).1.entries = r.entries.filter fun x => !(x.peer.endpoint == e)

namespace Registry

variable {r : Registry}

/-- The peer that is found under an endpoint is the one that is there. -/
theorem WellFormed.map_find?_eq_some_iff (h : r.WellFormed) {e : Endpoint} {p : Peer} :
    (r.find? e).map (·.peer) = some p ↔ p ∈ r.peers ∧ p.endpoint = e := by
  rw [Option.map_eq_some_iff, peers, List.mem_map]
  constructor
  · rintro ⟨x, hfind, rfl⟩
    obtain ⟨hmem, he⟩ := mem_of_find? hfind
    exact ⟨⟨x, hmem, rfl⟩, he⟩
  · rintro ⟨⟨x, hmem, rfl⟩, he⟩
    exact ⟨x, h.find?_eq_some_iff.mpr ⟨hmem, he⟩, rfl⟩

/-- A well-formed list of entries may be used as a map from endpoints. -/
theorem WellFormed.isKeyed (h : r.WellFormed) : r.IsKeyed r.limit where
  nodup := h.nodup
  length_le := h.length_le
  known_iff now draw e p := by
    rw [← h.map_find?_eq_some_iff]
    obtain ⟨x, hfind, heq⟩ | ⟨hnone, -, heq⟩ | ⟨hnone, -, heq⟩ := r.register_cases now draw e
    · simp [hfind, heq]
    · simp [hnone, heq]
    · simp [hnone, heq]
  full_iff now draw e := by
    rw [← find?_eq_none_iff]
    obtain ⟨x, hfind, heq⟩ | ⟨hnone, hfull, heq⟩ | ⟨hnone, hroom, heq⟩ :=
      r.register_cases now draw e
    · simp [hfind, heq]
    · have hlength : r.peers.length = r.limit :=
        Nat.le_antisymm h.length_le (r.length_peers ▸ hfull)
      simp [hnone, heq, hlength]
    · have hlength : r.entries.length ≠ r.limit := Nat.ne_of_lt hroom
      simp [hnone, heq, hlength]
  register_new now draw e p hnew := by
    obtain ⟨x, -, heq⟩ | ⟨-, -, heq⟩ | ⟨-, -, heq⟩ := r.register_cases now draw e
    · rw [heq] at hnew
      cases hnew
    · rw [heq] at hnew
      cases hnew
    · rw [heq] at hnew ⊢
      cases hnew
      exact ⟨rfl, _, rfl, rfl⟩
  register_not_new now draw e hold := by
    obtain ⟨x, -, heq⟩ | ⟨-, -, heq⟩ | ⟨-, -, heq⟩ := r.register_cases now draw e
    · rw [heq]
    · rw [heq]
    · exact absurd (by rw [heq]) (hold (r.newEntry now draw e).peer)
  removed_iff e p := by
    rw [← h.map_find?_eq_some_iff, Registry.remove]
    cases r.find? e <;> rfl
  entries_remove e := (h.drops_remove e).entries_eq

end Registry

namespace RegistrySession

/-- No step changes the limit. -/
theorem limit_step (s : RegistrySession) (a : RegistryStep) :
    (s.step a).1.registry.limit = s.registry.limit := by
  cases a with
  | register e draw =>
    show (s.registry.register s.now draw e).1.limit = _
    obtain ⟨x, -, heq⟩ | ⟨-, -, heq⟩ | ⟨-, -, heq⟩ := s.registry.register_cases s.now draw e <;>
      rw [heq]
  | remove e =>
    show (s.registry.remove e).1.limit = _
    rw [Registry.remove]
    split <;> rfl
  | heartbeat _ | heartbeatFrom _ | sweep _ _ | cancelRoot | ensure _ _ | start _ _ _ | stopAll
  | advance _ => rfl

/-- The bound stays what it was. -/
theorem limit_run (s : RegistrySession) (steps : List RegistryStep) :
    (s.run steps).registry.limit = s.registry.limit := by
  induction steps generalizing s with
  | nil => rfl
  | cons a rest ih => exact (ih (s.step a).1).trans (s.limit_step a)

/-- An endpoint that is registered before and after a step is so as the same peer. -/
theorem peer_step {s : RegistrySession} (h : s.registry.WellFormed) (a : RegistryStep)
    {e : Endpoint} {p q : Peer} (hp : p ∈ s.registry.peers) (hpe : p.endpoint = e)
    (hq : q ∈ (s.step a).1.registry.peers) (hqe : q.endpoint = e) : q = p := by
  have hold : q ∈ s.registry.peers := by
    obtain hsub | ⟨e', draw, -, hnone, -, hpeers⟩ := s.peers_step_cases a
    · exact hsub.subset hq
    · rw [hpeers] at hq
      rcases List.mem_append.mp hq with hold | hnew
      · exact hold
      · -- The new entry is not of this endpoint, which was registered before.
        obtain rfl := List.mem_singleton.mp hnew
        rw [Registry.endpoint_newEntry] at hqe
        exact absurd (hpe.trans hqe.symm) (Registry.find?_eq_none_iff.mp hnone p hp)
  exact List.inj_on_of_nodup_map h.nodup hold hp (hqe.trans hpe.symm)

/-- An endpoint stays registered as the same peer for as long as it stays registered. -/
theorem peer_run {s : RegistrySession} (h : s.registry.WellFormed) {more : List RegistryStep}
    {e : Endpoint} (hstays : ∀ pre, pre <+: more → ((s.run pre).registry.find? e).isSome) :
    ((s.run more).registry.find? e).map (·.peer) = (s.registry.find? e).map (·.peer) := by
  induction more generalizing s with
  | nil => rfl
  | cons a rest ih =>
    have hform := wellFormed_step h a
    have hrest : ∀ pre, pre <+: rest → (((s.step a).1.run pre).registry.find? e).isSome :=
      fun pre hpre => hstays (a :: pre) (List.cons_prefix_cons.mpr ⟨rfl, hpre⟩)
    -- While an endpoint stays registered no step gives it another peer.
    have hfirst : ((s.step a).1.registry.find? e).map (·.peer) =
        (s.registry.find? e).map (·.peer) := by
      obtain ⟨x, hx⟩ := Option.isSome_iff_exists.mp (hstays [] (List.nil_prefix))
      obtain ⟨y, hy⟩ := Option.isSome_iff_exists.mp (hrest [] (List.nil_prefix))
      change s.registry.find? e = some x at hx
      change (s.step a).1.registry.find? e = some y at hy
      obtain ⟨hxmem, hxe⟩ := Registry.mem_of_find? hx
      obtain ⟨hymem, hye⟩ := Registry.mem_of_find? hy
      rw [hx, hy, Option.map_some, Option.map_some,
        peer_step h a (List.mem_map_of_mem hxmem) hxe (List.mem_map_of_mem hymem) hye]
    exact (ih hform hrest).trans hfirst

end RegistrySession

/-- Whatever happens to a registry, in what it answers and in what it holds it is an ordered map
from endpoints to peers. Its entries are the map's records in the order of registrations, no two of
one endpoint and no more than the bound. A registration finds the endpoint, or else finds the table
full, or else appends one entry; a removal takes away the one entry of its endpoint; and an endpoint
is the same peer for as long as it is registered. -/
theorem registry_refines_directory (limit : Nat) (steps : List RegistryStep) :
    let s := (RegistrySession.start limit).run steps
    (∃ d, (Directory.empty (min limit maxPeers)).Run steps
        ((RegistrySession.start limit).answers steps) d ∧ s.registry.Shows d) ∧
      s.registry.IsKeyed (min limit maxPeers) ∧
      ∀ e more, (∀ pre, pre <+: more → ((s.run pre).registry.find? e).isSome) →
        ((s.run more).registry.find? e).map (·.peer) = (s.registry.find? e).map (·.peer) := by
  intro s
  have hform : s.registry.WellFormed :=
    RegistrySession.wellFormed_run (Registry.wellFormed_empty limit) steps
  have hlimit : s.registry.limit = min limit maxPeers :=
    RegistrySession.limit_run (RegistrySession.start limit) steps
  refine ⟨?_, hlimit ▸ hform.isKeyed, fun e more hstays => RegistrySession.peer_run hform hstays⟩
  exact RegistrySession.shows_run (s := RegistrySession.start limit) (Registry.Shows.empty limit)
    (Registry.wellFormed_empty limit) rfl steps

end Ensemble
