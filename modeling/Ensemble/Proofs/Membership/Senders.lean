import Ensemble.Proofs.Membership.Rounds

/-!
# A sender reaches only its own address

The service takes the address of an entry from where the message came, never from the message. So a
message leaves the entries of all other addresses as they are, in their order and under their
tokens, and what becomes of an entry in a run of events depends on nobody's messages but those of
its own address.

* `Rounds.exists_meetAll_eq_session_run` — the service with its knockers does nothing but such
  events.
* `ServiceSession.Tidy` — no two entries have one token, in every run.
* `ServiceSession.touches_receive` — what each kind of message does to the sender's own entries.
* `ServiceSession.exists_entries_meet` — an event acts on each entry by itself.
* `RegistryEntry.fate`, `RegistryEntry.fates` — what becomes of an entry, in one event and in a run.
* `sender_reaches_own_address` — all other entries stay, and no run of messages of another address
  removes an entry or keeps it alive.
-/

namespace Ensemble

/-- Something that happens to the service: a step of its own, or a peer that answers a knock. -/
inductive ServiceEvent where
  | serve (a : ServiceStep)
  | hear (e : Endpoint)

namespace ServiceEvent

/-- A message that comes from the address. -/
def isFrom (a : IpAddress) : ServiceEvent → Bool
  | .serve (.receive sender _ _ _) => sender.address == a
  | _ => false

/-- How much time goes by. -/
def duration : ServiceEvent → Nat
  | .serve (.advance ms) => ms
  | _ => 0

end ServiceEvent

namespace ServiceSession

/-- Let one event happen. -/
def meet (s : ServiceSession) : ServiceEvent → ServiceSession
  | .serve a => (s.step a).1
  | .hear e => s.hear e

/-- Let events happen one after the other. -/
def meetAll (s : ServiceSession) (events : List ServiceEvent) : ServiceSession := events.foldl meet s

/-- Only the passing of time moves the clock. -/
theorem now_meet (s : ServiceSession) (v : ServiceEvent) : (s.meet v).now = s.now + v.duration := by
  cases v with
  | serve a => cases a <;> rfl
  | hear e => rfl

theorem config_meet (s : ServiceSession) (v : ServiceEvent) :
    (s.meet v).service.config = s.service.config := by
  cases v with
  | serve a => exact s.config_step a
  | hear e => rfl

end ServiceSession

/-- Whatever happens to the service and its knockers, the service is as after a run of events. -/
theorem Rounds.exists_meetAll_eq_session_run (r : Rounds) (steps : List RoundsStep) :
    ∃ events, r.session.meetAll events = (r.run steps).session := by
  induction steps generalizing r with
  | nil => exact ⟨[], rfl⟩
  | cons a rest ih =>
    obtain ⟨events, hevents⟩ := ih (r.step a)
    obtain ⟨b, -, heq⟩ | ⟨-, heq | ⟨e, heq⟩⟩ := r.session_step_cases a
    · exact ⟨.serve b :: events, by rw [heq] at hevents; exact hevents⟩
    · exact ⟨events, by rw [heq] at hevents; exact hevents⟩
    · exact ⟨.hear e :: events, by rw [heq] at hevents; exact hevents⟩

/-! ## Every entry has a token of its own -/

/-- No two entries have one token, and no entry has one that is still to be issued. -/
structure Registry.Ticketed (r : Registry) : Prop where
  serials_nodup : (r.notes.map (·.2.serial)).Nodup
  issued : ∀ n ∈ r.notes, n.2.serial < r.tokens.issued

/-- The numbers of the tokens only grow. -/
theorem Registry.issued_le_register (r : Registry) (now : Nat) (draw : Nat → PeerId)
    (e : Endpoint) : r.tokens.issued ≤ (r.register now draw e).1.tokens.issued := by
  obtain hsame | ⟨-, htokens⟩ := r.register_notes_cases now draw e
  · rw [hsame]
  · rw [htokens]
    exact Nat.le_succ _

namespace Registry.Ticketed

variable {r r' : Registry}

/-- A new entry gets a token whose number nobody has had. -/
theorem register (h : r.Ticketed) (now : Nat) (draw : Nat → PeerId) (e : Endpoint) :
    (r.register now draw e).1.Ticketed := by
  obtain hsame | ⟨hnotes, htokens⟩ := r.register_notes_cases now draw e
  · rw [hsame]
    exact h
  · refine ⟨?_, fun n hn => ?_⟩
    · rw [hnotes, List.map_append, List.map_singleton, ← List.concat_eq_append]
      refine h.serials_nodup.concat fun hmem => ?_
      obtain ⟨n, hn, hserial⟩ := List.mem_map.mp hmem
      exact Nat.ne_of_lt (h.issued n hn) hserial
    · rw [htokens]
      rw [hnotes] at hn
      rcases List.mem_append.mp hn with hold | hnew
      · exact Nat.lt_succ_of_lt (h.issued n hold)
      · obtain rfl := List.mem_singleton.mp hnew
        exact Nat.lt_succ_self _

/-- Entries may go. -/
theorem of_sublist (h : r.Ticketed) (hnotes : r'.notes.Sublist r.notes)
    (hissued : r'.tokens.issued = r.tokens.issued) : r'.Ticketed where
  serials_nodup := h.serials_nodup.sublist (hnotes.map _)
  issued := fun n hn => hissued ▸ h.issued n (hnotes.mem hn)

/-- The serial of its token tells an entry apart. -/
theorem eq_of_serial_eq (h : r.Ticketed) {x y : RegistryEntry} (hx : x ∈ r.entries)
    (hy : y ∈ r.entries) (heq : x.token.serial = y.token.serial) : x = y := by
  have hnodup := h.serials_nodup
  rw [notes, List.map_map] at hnodup
  exact List.inj_on_of_nodup_map hnodup hx hy heq

/-- Whatever is entered has a token that was issued. -/
theorem serial_lt (h : r.Ticketed) {x : RegistryEntry} (hx : x ∈ r.entries) :
    x.token.serial < r.tokens.issued :=
  h.issued (x.peer.endpoint, x.token) (List.mem_map_of_mem hx)

end Registry.Ticketed

namespace ServiceSession

/-- What every run keeps. -/
structure Tidy (s : ServiceSession) : Prop where
  wellFormed : s.service.registry.WellFormed
  ticketed : s.service.registry.Ticketed

/-- A session is tidy before anything has happened. -/
theorem tidy_start (config : ServiceConfig) : (start config).Tidy where
  wellFormed := Registry.wellFormed_empty config.maxPeers
  ticketed := ⟨List.nodup_nil, fun _ hn => absurd hn List.not_mem_nil⟩

variable {s : ServiceSession}

/-- Every step keeps a session tidy. -/
theorem Tidy.step (h : s.Tidy) (a : ServiceStep) : (s.step a).1.Tidy := by
  refine ⟨wellFormed_step h.wellFormed a, ?_⟩
  cases changes h.wellFormed a with
  | connects _ _ _ draw e _ hregistry =>
    rw [hregistry]
    exact h.ticketed.register s.now draw e
  | enters e draw heq =>
    rw [heq]
    exact h.ticketed.register s.now draw e
  | drops gone hdrops => exact h.ticketed.of_sublist hdrops.notes_sublist hdrops.issued_eq
  | keeps hnotes htokens =>
    exact h.ticketed.of_sublist (hnotes ▸ .refl _) (congrArg TokenPool.issued htokens)
  | reaps e heq =>
    rw [heq]
    exact h.ticketed
  | closes heq =>
    rw [heq]
    refine h.ticketed.of_sublist (.refl _) ?_
    exact (congrArg TokenPool.issued s.tokens_step_close).trans (TokenPool.issued_cancelAll _ _)

/-- Every event keeps a session tidy. -/
theorem Tidy.meet (h : s.Tidy) (v : ServiceEvent) : (s.meet v).Tidy := by
  cases v with
  | serve a => exact h.step a
  | hear e =>
    refine ⟨h.wellFormed.heartbeat s.now e, h.ticketed.of_sublist ?_ rfl⟩
    exact (Registry.notes_refresh _ _ _).symm ▸ .refl _

/-- A session is tidy after any events. -/
theorem Tidy.meetAll (h : s.Tidy) (events : List ServiceEvent) : (s.meetAll events).Tidy := by
  induction events generalizing s with
  | nil => exact h
  | cons v rest ih => exact ih (h.meet v)

end ServiceSession

/-! ## What a message does to the registry -/

/-- A removal finds no entry, or takes one away and cancels its token. -/
theorem Registry.exists_split_remove (r : Registry) (e : Endpoint) :
    (∀ x ∈ r.entries, x.peer.endpoint ≠ e) ∧ (r.remove e).1 = r ∨
    ∃ before x after, x.peer.endpoint = e ∧ r.entries = before ++ x :: after ∧
      (r.remove e).1.entries = before ++ after ∧
      (r.remove e).1.tokens = r.tokens.cancel x.token := by
  cases hfind : r.find? e with
  | none =>
    refine .inl ⟨fun x hx => ?_, by rw [remove, hfind]⟩
    exact find?_eq_none_iff.mp hfind x.peer (List.mem_map_of_mem hx)
  | some x =>
    obtain ⟨hx, before, after, hsplit, hbefore⟩ := List.find?_eq_some_iff_append.mp hfind
    refine .inr ⟨before, x, after, beq_iff_eq.mp hx, hsplit, ?_, by rw [remove, hfind]⟩
    have hnot : ∀ y ∈ before, ¬ (y.peer.endpoint == e) = true := fun y hy => by
      simpa using hbefore y hy
    rw [remove, hfind]
    show r.entries.eraseP _ = _
    rw [hsplit, List.eraseP_append_right _ hnot]
    exact congrArg (before ++ ·)
      (List.eraseP_cons_of_pos (p := fun y : RegistryEntry => y.peer.endpoint == e) hx)

namespace ServiceSession

variable {s : ServiceSession}

/-- What a message makes of the registry. -/
theorem registry_step_receive (s : ServiceSession) (sender : Endpoint) (bytes : Bytes)
    (running : Bool) (draw : Nat → PeerId) :
    (s.step (.receive sender bytes running draw)).1.service.registry =
      match Message.decode bytes with
      | .ok (.connect port) =>
        (s.service.registry.register s.now draw ⟨sender.address, port⟩).1
      | .ok (.disconnect port) => (s.service.registry.remove ⟨sender.address, port⟩).1
      | .ok (.sendStatus _) => (s.service.registry.heartbeatFrom s.now sender.address).1
      | _ => s.service.registry := by
  show (s.service.receive ⟨s.now, running, draw⟩ bytes sender).service.registry = _
  rw [Service.receive]
  rcases Message.decode bytes with _ | m
  · rfl
  · cases m with
    | connect port => exact (s.service.onConnect_changes _ _).1
    | disconnect port =>
      show (s.service.onDisconnect ⟨sender.address, port⟩).1.registry = _
      obtain ⟨hnone, heq⟩ | ⟨-, heq, -⟩ := s.service.onDisconnect_cases ⟨sender.address, port⟩
      · rw [heq]
        simp only [Registry.remove, hnone]
      · exact heq
    | _ => rfl

/-- What a message of `sender` does to the entries and their tokens. A CONNECT appends at most one
entry of the sender, a DISCONNECT takes away the one that it names and cancels its token, and a
status is noted at all entries of the sender's address. -/
def Touches (s s' : ServiceSession) (sender : Endpoint) : Except DecodeError Message → Prop
  | .ok (.connect port) =>
    s'.entries = s.entries ∧ s'.tokens = s.tokens ∨
    ∃ x, x.peer.endpoint = ⟨sender.address, port⟩ ∧ s'.entries = s.entries ++ [x] ∧
      ∀ t, s'.tokens.isCancelled t = s.tokens.isCancelled t
  | .ok (.disconnect port) =>
    (∀ x ∈ s.entries, x.peer.endpoint ≠ ⟨sender.address, port⟩) ∧
      s'.entries = s.entries ∧ s'.tokens = s.tokens ∨
    ∃ before x after, x.peer.endpoint = ⟨sender.address, port⟩ ∧
      s.entries = before ++ x :: after ∧ s'.entries = before ++ after ∧
      ∀ t, s'.tokens.isCancelled t = true ↔
        t.serial = x.token.serial ∨ s.tokens.isCancelled t = true
  | .ok (.sendStatus _) =>
    s'.entries = s.entries.map (fun x =>
      if x.peer.address = sender.address then { x with heartbeat := s.now } else x) ∧
      s'.tokens = s.tokens
  | _ => s'.entries = s.entries ∧ s'.tokens = s.tokens

/-- What one message does to the entries and the tokens: a CONNECT may add an entry of its sender, a
DISCONNECT may take one, a status refreshes those of its address, and nothing else does anything. -/
theorem touches_receive (s : ServiceSession) (sender : Endpoint) (bytes : Bytes)
    (running : Bool) (draw : Nat → PeerId) :
    s.Touches (s.step (.receive sender bytes running draw)).1 sender (Message.decode bytes) := by
  have hregistry := s.registry_step_receive sender bytes running draw
  have hsame : (s.step (.receive sender bytes running draw)).1.service.registry =
      s.service.registry → (s.step (.receive sender bytes running draw)).1.entries = s.entries ∧
        (s.step (.receive sender bytes running draw)).1.tokens = s.tokens :=
    fun heq => ⟨congrArg Registry.entries heq, congrArg Registry.tokens heq⟩
  -- One case per kind of message; most of them leave the registry alone.
  rcases hdecode : Message.decode bytes with _ | m
  · simp only [hdecode] at hregistry
    exact hsame hregistry
  · cases m with
    | connect port =>
      simp only [hdecode] at hregistry
      obtain ⟨_, -, heq⟩ | ⟨-, -, heq⟩ | ⟨-, -, heq⟩ :=
        s.service.registry.register_cases s.now draw ⟨sender.address, port⟩
      · rw [heq] at hregistry
        exact .inl (hsame hregistry)
      · rw [heq] at hregistry
        exact .inl (hsame hregistry)
      · rw [heq] at hregistry
        refine .inr ⟨s.service.registry.newEntry s.now draw ⟨sender.address, port⟩, rfl,
          congrArg Registry.entries hregistry, fun t => ?_⟩
        rw [tokens, hregistry]
        rfl
    | disconnect port =>
      simp only [hdecode] at hregistry
      obtain ⟨hnone, heq⟩ | ⟨before, x, after, hx, hsplit, hentries, htokens⟩ :=
        s.service.registry.exists_split_remove ⟨sender.address, port⟩
      · exact .inl ⟨hnone, hsame (hregistry.trans heq)⟩
      · refine .inr ⟨before, x, after, hx, hsplit,
          (congrArg Registry.entries hregistry).trans hentries, fun t => ?_⟩
        rw [tokens, hregistry, htokens]
        exact TokenPool.isCancelled_cancel_iff
    | sendStatus status =>
      simp only [hdecode] at hregistry
      refine ⟨(congrArg Registry.entries hregistry).trans ?_,
        (congrArg Registry.tokens hregistry).trans rfl⟩
      refine List.map_congr_left fun x _ => ?_
      simp only [beq_iff_eq]
    | _ =>
      simp only [hdecode] at hregistry
      exact hsame hregistry

/-- The entries of all other addresses are the same and in the same order, and none of their tokens
is cancelled. -/
structure Spares (s s' : ServiceSession) (a : IpAddress) : Prop where
  entries_eq : s'.entries.filter (·.peer.address != a) = s.entries.filter (·.peer.address != a)
  isCancelled_eq : ∀ x ∈ s.entries, x.peer.address ≠ a →
    s'.tokens.isCancelled x.token = s.tokens.isCancelled x.token

/-- A message leaves the entries of every other address as they are, with their tokens. -/
theorem Tidy.spares_receive (h : s.Tidy) (sender : Endpoint) (bytes : Bytes) (running : Bool)
    (draw : Nat → PeerId) :
    s.Spares (s.step (.receive sender bytes running draw)).1 sender.address := by
  have htouches := s.touches_receive sender bytes running draw
  have hsame : ∀ {s' : ServiceSession}, s'.entries = s.entries ∧ s'.tokens = s.tokens →
      s.Spares s' sender.address := fun ⟨hentries, htokens⟩ =>
    ⟨by rw [hentries], fun x _ _ => by rw [htokens]⟩
  rcases hdecode : Message.decode bytes with _ | m
  · rw [hdecode] at htouches
    exact hsame htouches
  · rw [hdecode] at htouches
    cases m with
    | connect port =>
      obtain hsame' | ⟨x, hx, hentries, hcancelled⟩ := htouches
      · exact hsame hsame'
      · -- The entry that comes or goes is one of the sender itself.
        have hown : x.peer.address = sender.address := congrArg Endpoint.address hx
        refine ⟨?_, fun y _ _ => hcancelled y.token⟩
        rw [hentries, List.filter_append, List.filter_singleton, hown, bne_self_eq_false]
        exact List.append_nil _
    | disconnect port =>
      obtain ⟨-, hsame'⟩ | ⟨before, x, after, hx, hsplit, hentries, hcancelled⟩ := htouches
      · exact hsame hsame'
      · have hown : x.peer.address = sender.address := congrArg Endpoint.address hx
        refine ⟨?_, fun y hy hother => Bool.eq_iff_iff.mpr ((hcancelled y.token).trans ?_)⟩
        · rw [hentries, hsplit, List.filter_append, List.filter_append, List.filter_cons_of_neg]
          simp [hown]
        · -- No other entry has the token that is cancelled, as no two have the same.
          refine or_iff_right fun hserial => hother ?_
          have hx' : x ∈ s.entries := hsplit ▸ List.mem_append_right _ List.mem_cons_self
          rw [h.ticketed.eq_of_serial_eq hy hx' hserial]
          exact hown
    | sendStatus status =>
      obtain ⟨hentries, htokens⟩ := htouches
      refine ⟨?_, fun x _ _ => by rw [htokens]⟩
      rw [hentries, List.filter_map]
      -- To refresh entries of this address does not change which ones are of another.
      have hpicks : ((·.peer.address != sender.address) : RegistryEntry → Bool) ∘ (fun x =>
          if x.peer.address = sender.address then { x with heartbeat := s.now } else x) =
          (·.peer.address != sender.address) := by
        funext x
        simp only [Function.comp_apply, apply_ite RegistryEntry.peer, ite_self]
      rw [hpicks]
      refine (List.map_congr_left fun x hx => if_neg ?_).trans (List.map_id _)
      exact bne_iff_ne.mp (List.mem_filter.mp hx).2
    | _ => exact hsame htouches

end ServiceSession

/-! ## What becomes of an entry -/

namespace RegistryEntry

/-- What becomes of an entry in an event at the time `now`. -/
def fate (timeout now : Nat) (x : RegistryEntry) : ServiceEvent → Option RegistryEntry
  | .serve (.receive sender bytes _ _) =>
    match Message.decode bytes with
    | .ok (.disconnect port) =>
      if x.peer.endpoint == ⟨sender.address, port⟩ then none else some x
    | .ok (.sendStatus _) =>
      some (if x.peer.address == sender.address then { x with heartbeat := now } else x)
    | _ => some x
  | .serve .sweep => if Registry.expired now timeout x then none else some x
  | .serve _ => some x
  | .hear e => some (if x.peer.endpoint == e then { x with heartbeat := now } else x)

/-- What becomes of an entry in events from the time `now` on. -/
def fates (timeout : Nat) : Nat → RegistryEntry → List ServiceEvent → Option RegistryEntry
  | _, x, [] => some x
  | now, x, v :: rest => (x.fate timeout now v).bind fun y => fates timeout (now + v.duration) y rest

variable {timeout now : Nat} {x y : RegistryEntry} {v : ServiceEvent} {a : IpAddress}

/-- An entry keeps its peer and its token as long as it is there. -/
theorem eq_of_fate (h : x.fate timeout now v = some y) : y.peer = x.peer ∧ y.token = x.token := by
  have hnoted : ∀ c : Prop, [Decidable c] → (if c then { x with heartbeat := now } else x) = y →
      y.peer = x.peer ∧ y.token = x.token := by
    rintro c _ rfl
    split <;> exact ⟨rfl, rfl⟩
  have hsame : some x = some y → y.peer = x.peer ∧ y.token = x.token := by
    rintro ⟨⟩
    exact ⟨rfl, rfl⟩
  -- Whatever an entry meets, at most its heartbeat is written.
  cases v with
  | hear e => exact hnoted _ (Option.some.inj h)
  | serve b =>
    cases b with
    | receive sender bytes running draw =>
      simp only [fate] at h
      split at h
      · split at h
        · cases h
        · exact hsame h
      · exact hnoted _ (Option.some.inj h)
      · exact hsame h
    | sweep =>
      simp only [fate] at h
      split at h
      · cases h
      · exact hsame h
    | enter _ _ | advance _ | reap _ | close => exact hsame h

/-- A message of another address leaves an entry as it is, and no time goes by. -/
theorem fate_of_isFrom (hv : v.isFrom a = true) (hx : x.peer.address ≠ a) :
    x.fate timeout now v = some x ∧ v.duration = 0 := by
  cases v with
  | hear e => cases hv
  | serve b =>
    cases b with
    | receive sender bytes running draw =>
      obtain rfl : sender.address = a := beq_iff_eq.mp hv
      refine ⟨?_, rfl⟩
      simp only [fate]
      split
      · exact if_neg fun heq => hx (congrArg Endpoint.address (beq_iff_eq.mp heq))
      · rw [if_neg fun heq => hx (beq_iff_eq.mp heq)]
      · rfl
    | enter _ _ | sweep | advance _ | reap _ | close => cases hv

/-- Messages of another address have no part in what becomes of an entry. -/
theorem fates_filter (hx : x.peer.address ≠ a) (events : List ServiceEvent) :
    x.fates timeout now (events.filter (!·.isFrom a)) = x.fates timeout now events := by
  -- Induction on the events, with the entry that each of them leaves.
  induction events generalizing now x with
  | nil => rfl
  | cons v rest ih =>
    cases hv : v.isFrom a with
    -- An event of the other address leaves the entry alone and takes no time.
    | true =>
      obtain ⟨hfate, hduration⟩ : x.fate timeout now v = some x ∧ v.duration = 0 :=
        fate_of_isFrom hv hx
      rw [List.filter_cons_of_neg (by simp [hv]), fates, hfate, hduration]
      exact ih hx
    | false =>
      rw [List.filter_cons_of_pos (by simp [hv]), fates, fates]
      cases hfate : x.fate timeout now v with
      | none => rfl
      | some y => exact ih ((eq_of_fate hfate).1 ▸ hx)

end RegistryEntry

/-- A CONNECT adds at most an entry, whose token is a new one. -/
theorem Registry.exists_entries_register (r : Registry) (now : Nat) (draw : Nat → PeerId)
    (e : Endpoint) :
    ∃ new, (r.register now draw e).1.entries = r.entries ++ new ∧
      ∀ y ∈ new, y.token.serial = r.tokens.issued := by
  obtain ⟨_, -, heq⟩ | ⟨-, -, heq⟩ | ⟨-, -, heq⟩ := r.register_cases now draw e
  · exact ⟨[], by rw [heq, List.append_nil], nofun⟩
  · exact ⟨[], by rw [heq, List.append_nil], nofun⟩
  · refine ⟨[r.newEntry now draw e], by rw [heq], fun y hy => ?_⟩
    rw [List.mem_singleton.mp hy]
    rfl

/-- Taking away what has a property, one by one or all at once. -/
theorem filterMap_ite_none {α : Type} (p : α → Bool) (xs : List α) :
    xs.filterMap (fun x => if p x then none else some x) = xs.filter fun x => !p x := by
  rw [← List.filterMap_eq_filter]
  congr 1
  funext x
  cases h : p x <;> simp [Option.guard, h]

namespace ServiceSession

variable {s : ServiceSession}

/-- An event acts on each entry by itself, and what it adds has a fresh token. -/
theorem exists_entries_meet (h : s.Tidy) (v : ServiceEvent) :
    ∃ new, (s.meet v).entries =
        s.entries.filterMap (·.fate s.service.config.heartbeatTimeout s.now v) ++ new ∧
      ∀ y ∈ new, y.token.serial = s.tokens.issued := by
  have hall : s.entries.filterMap some = s.entries := List.filterMap_some
  -- All events but registrations only take away entries or note signs of life.
  have hnone : ∀ f : RegistryEntry → Option RegistryEntry,
      (s.meet v).entries = s.entries.filterMap f →
      ∃ new, (s.meet v).entries = s.entries.filterMap f ++ new ∧
        ∀ y ∈ new, y.token.serial = s.tokens.issued :=
    fun f heq => ⟨[], heq.trans (List.append_nil _).symm, nofun⟩
  cases v with
  | hear e => exact hnone _ (congrFun List.filterMap_eq_map s.entries).symm
  | serve b =>
    cases b with
    | receive sender bytes running draw =>
      have hregistry := congrArg Registry.entries
        (s.registry_step_receive sender bytes running draw)
      simp only [RegistryEntry.fate]
      rcases hdecode : Message.decode bytes with _ | m
      · simp only [hdecode] at hregistry
        exact hnone some (hregistry.trans hall.symm)
      · cases m with
        | connect port =>
          simp only [hdecode] at hregistry
          obtain ⟨new, hentries, hfresh⟩ :=
            s.service.registry.exists_entries_register s.now draw ⟨sender.address, port⟩
          exact ⟨new, (hregistry.trans hentries).trans (congrArg (· ++ new) hall.symm), hfresh⟩
        | disconnect port =>
          simp only [hdecode] at hregistry
          have hentries := (h.wellFormed.drops_remove ⟨sender.address, port⟩).entries_eq
          exact hnone _ ((hregistry.trans hentries).trans (filterMap_ite_none _ s.entries).symm)
        | sendStatus status =>
          simp only [hdecode] at hregistry
          exact hnone _ (hregistry.trans (congrFun List.filterMap_eq_map s.entries).symm)
        | _ =>
          simp only [hdecode] at hregistry
          exact hnone some (hregistry.trans hall.symm)
    | enter e draw =>
      obtain ⟨new, hentries, hfresh⟩ := s.service.registry.exists_entries_register s.now draw e
      exact ⟨new, hentries.trans (congrArg (· ++ new) hall.symm), hfresh⟩
    | sweep => exact hnone _ (s.entries_sweep.trans (filterMap_ite_none _ s.entries).symm)
    | advance _ | reap _ | close => exact hnone some hall.symm

/-- No token is issued twice. -/
theorem issued_le_meet (h : s.Tidy) (v : ServiceEvent) :
    s.tokens.issued ≤ (s.meet v).tokens.issued := by
  cases v with
  | hear e => exact Nat.le_refl _
  | serve a =>
    show s.tokens.issued ≤ (s.step a).1.service.registry.tokens.issued
    cases changes h.wellFormed a with
    | connects _ _ _ draw e _ hregistry =>
      rw [hregistry]
      exact s.service.registry.issued_le_register s.now draw e
    | enters e draw heq =>
      rw [heq]
      exact s.service.registry.issued_le_register s.now draw e
    | drops gone hdrops => exact Nat.le_of_eq hdrops.issued_eq.symm
    | keeps _ htokens => exact Nat.le_of_eq (congrArg TokenPool.issued htokens).symm
    | reaps e heq =>
      rw [heq]
      exact Nat.le_refl _
    | closes heq =>
      rw [heq]
      exact Nat.le_of_eq ((congrArg TokenPool.issued s.tokens_step_close).trans
        (TokenPool.issued_cancelAll _ _)).symm

/-- Under an entry's token stands afterwards what became of the entry, and nothing else. -/
theorem Tidy.mem_meet_iff (h : s.Tidy) {x y : RegistryEntry} (hx : x ∈ s.entries)
    (htoken : y.token = x.token) (v : ServiceEvent) :
    y ∈ (s.meet v).entries ↔ x.fate s.service.config.heartbeatTimeout s.now v = some y := by
  obtain ⟨new, hentries, hfresh⟩ := exists_entries_meet h v
  rw [hentries, List.mem_append, List.mem_filterMap]
  refine ⟨?_, fun hfate => .inl ⟨x, hx, hfate⟩⟩
  rintro (⟨x', hx', hfate⟩ | hnew)
  · have hsame : x'.token = x.token := (RegistryEntry.eq_of_fate hfate).2.symm.trans htoken
    rwa [h.ticketed.eq_of_serial_eq hx' hx (congrArg Token.serial hsame)] at hfate
  · have hlt : x.token.serial < s.tokens.issued := h.ticketed.serial_lt hx
    rw [← htoken, hfresh y hnew] at hlt
    exact absurd hlt (Nat.lt_irrefl _)

/-- No entry comes under a token whose entry is gone. -/
theorem Tidy.token_ne_meetAll (h : s.Tidy) {t : Token} (ht : t.serial < s.tokens.issued)
    (hgone : ∀ y ∈ s.entries, y.token ≠ t) (events : List ServiceEvent) :
    ∀ y ∈ (s.meetAll events).entries, y.token ≠ t := by
  induction events generalizing s with
  | nil => exact hgone
  | cons v rest ih =>
    refine ih (h.meet v) (Nat.lt_of_lt_of_le ht (issued_le_meet h v)) fun y hy => ?_
    obtain ⟨new, hentries, hfresh⟩ := exists_entries_meet h v
    rw [hentries, List.mem_append, List.mem_filterMap] at hy
    rcases hy with ⟨x, hx, hfate⟩ | hnew
    · rw [(RegistryEntry.eq_of_fate hfate).2]
      exact hgone x hx
    · rintro rfl
      exact Nat.ne_of_lt ht (hfresh y hnew)

/-- What becomes of an entry in a run depends on the entry and the events alone. -/
theorem Tidy.mem_meetAll_iff (h : s.Tidy) {x y : RegistryEntry} (hx : x ∈ s.entries)
    (htoken : y.token = x.token) (events : List ServiceEvent) :
    y ∈ (s.meetAll events).entries ↔
      x.fates s.service.config.heartbeatTimeout s.now events = some y := by
  -- Induction on the events: entries are told apart by their tokens, which nobody gets twice.
  induction events generalizing s x with
  | nil =>
    rw [RegistryEntry.fates, Option.some.injEq]
    refine ⟨fun hy => ?_, fun heq => heq ▸ hx⟩
    exact (h.ticketed.eq_of_serial_eq hy hx (congrArg Token.serial htoken)).symm
  | cons v rest ih =>
    rw [RegistryEntry.fates]
    cases hfate : x.fate s.service.config.heartbeatTimeout s.now v with
    | none =>
      -- Once gone, the token never comes back.
      refine iff_of_false (fun hy => ?_) nofun
      have hgone : ∀ z ∈ (s.meet v).entries, z.token ≠ x.token := by
        intro z hz heq
        rw [h.mem_meet_iff hx heq, hfate] at hz
        cases hz
      have hissued := Nat.lt_of_lt_of_le (h.ticketed.serial_lt hx) (issued_le_meet h v)
      exact (h.meet v).token_ne_meetAll hissued hgone rest y hy htoken
    | some z =>
      have hz : z.token = x.token := (RegistryEntry.eq_of_fate hfate).2
      have hmem : z ∈ (s.meet v).entries := (h.mem_meet_iff hx hz v).mpr hfate
      have hrest := ih (h.meet v) hmem (htoken.trans hz.symm)
      rw [config_meet, now_meet] at hrest
      exact hrest

end ServiceSession

/-- In every state of the service, with its knocks and whatever came before, a message of `sender`
leaves the entries of all other addresses as they are, in their order, and cancels none of their
tokens; what it does to the sender's own entries is what its kind says. From there on, whatever
happens, each entry of another address is there with its peer, its heartbeat and its token exactly
if it were so without all messages of the address. -/
theorem sender_reaches_own_address (config : ServiceConfig) (events : List ServiceEvent) :
    let s := (ServiceSession.start config).meetAll events
    (∀ sender bytes running draw,
      let s' := (s.step (.receive sender bytes running draw)).1
      s.Spares s' sender.address ∧ s.Touches s' sender (Message.decode bytes)) ∧
    ∀ x ∈ s.entries, ∀ a : IpAddress, x.peer.address ≠ a → ∀ more y, y.token = x.token →
      (y ∈ (s.meetAll more).entries ↔ y ∈ (s.meetAll (more.filter (!·.isFrom a))).entries) := by
  intro s
  have h : s.Tidy := (ServiceSession.tidy_start config).meetAll events
  refine ⟨fun sender bytes running draw => ⟨h.spares_receive sender bytes running draw,
    s.touches_receive sender bytes running draw⟩, fun x hx a hother more y htoken => ?_⟩
  rw [h.mem_meetAll_iff hx htoken more, h.mem_meetAll_iff hx htoken (more.filter _),
    RegistryEntry.fates_filter hother]

/-- A host of version 4. -/
def plainHost : IpAddress := .v4 ⟨10, 0, 0, 1⟩

/-- The same number, embedded in version 6. -/
def mappedHost : IpAddress := .v6 ⟨[0, 0, 0, 0, 0, 0xffff, 0x0a00, 1], rfl⟩

/-- A message of a host. -/
def saying (host : IpAddress) (bytes : Bytes) : ServiceEvent :=
  .serve (.receive ⟨host, 50000⟩ bytes true fun _ => ⟨7⟩)

/-- The mapped host connects. -/
def mappedConnects : List ServiceEvent := [saying mappedHost [3, 168, 202]]

/-- The plain host leaves with the port of the mapped one, and states its status after a while. -/
def plainMeddles : List ServiceEvent :=
  [saying plainHost [2, 168, 202], .serve (.advance 4000),
   saying plainHost [5, 0, 0, 0, 1, 0, 0, 0, 0, 0, 0]]

/-- The plain host does not remove the mapped one's entry, and does not save it from a sweep. -/
theorem sender_reaches_own_address_mapped :
    let s := (ServiceSession.start ⟨5000, 3000, 5000, 2000, 16⟩).meetAll mappedConnects
    let x : RegistryEntry := ⟨⟨mappedHost, 43210, ⟨7⟩⟩, 0, ⟨0, true⟩⟩
    x ∈ s.entries ∧ x.peer.address ≠ plainHost ∧ x ∈ (s.meetAll plainMeddles).entries ∧
      x ∉ (s.meetAll (plainMeddles ++ [.serve .sweep])).entries := by
  intro s x
  have hx : x ∈ s.entries := by decide +kernel
  have hother : x.peer.address ≠ plainHost := by decide
  obtain ⟨-, hrun⟩ :=
    sender_reaches_own_address ⟨5000, 3000, 5000, 2000, 16⟩ mappedConnects
  refine ⟨hx, hother, (hrun x hx plainHost hother _ x rfl).mpr (by decide +kernel), ?_⟩
  rw [hrun x hx plainHost hother _ x rfl]
  decide +kernel

end Ensemble
