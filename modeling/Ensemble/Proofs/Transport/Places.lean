import Ensemble.Proofs.Transport.Limit
import Ensemble.Transport.Sessions
import Mathlib.Data.List.Nodup

/-!
# Places and silence

A server has a bounded number of places for sessions. Each connection has a number of its own, by
the order in which connections were attempted. A session holds one place as long as it is open, and
ends when its client closes it, when the connection breaks, and when nothing came for too long. So a
connection is turned away exactly if all places are held by clients that were heard lately.

* `LastHeard` — how long ago the last sign of life of a client was.
* `Sessions.Orderly` — no session is over that is still open, and no place is lost.
* `Serving.follows_step`, `Serving.follows_run` — each open session was last heard when it says.
* `sessions_bounded` — what holds after whatever happened to a server.
-/

namespace Ensemble

/-! ## What happens to a server -/

/-- Something that happens to a server from outside. -/
inductive SessionEvent where
  /-- A client tries to connect. -/
  | connect
  /-- Data comes over a connection. -/
  | data (client : Nat) (bytes : Bytes)
  /-- The client closes its side, or the connection breaks. -/
  | close (client : Nat)
  /-- Milliseconds go by. -/
  | pass (ms : Nat)
  deriving DecidableEq, Repr

/-- The milliseconds that go by. -/
def SessionEvent.duration : SessionEvent → Nat
  | .pass ms => ms
  | .connect | .data _ _ | .close _ => 0

/-- How many connections were attempted. -/
def attemptsIn (events : List SessionEvent) : Nat := events.count .connect

/-- The event is a sign of life of a client, after some connections were attempted. -/
def SessionEvent.IsSignOf (client tried : Nat) : SessionEvent → Prop
  | .connect => client = tried
  | .data c bytes => client = c ∧ bytes ≠ []
  | .close _ | .pass _ => False

/-- The last of the signs of life of a client that counts here was so many milliseconds ago. -/
def Heard (client age : Nat) (events : List SessionEvent) : Prop :=
  ∃ before a after, events = before ++ a :: after ∧ a.IsSignOf client (attemptsIn before) ∧
    (after.map (·.duration)).sum = age

/-- A client was heard of just now, or before. -/
theorem heard_concat_iff {client age : Nat} {events : List SessionEvent} {a : SessionEvent} :
    Heard client age (events ++ [a]) ↔
      a.IsSignOf client (attemptsIn events) ∧ age = 0 ∨
        ∃ age', Heard client age' events ∧ age = age' + a.duration := by
  constructor
  · rintro ⟨before, b, after, hsplit, hsign, rfl⟩
    -- The sign was the new event, or one of those before it.
    rcases List.eq_nil_or_concat after with rfl | ⟨after, c, rfl⟩
    · obtain ⟨rfl, hb⟩ := List.append_inj' hsplit rfl
      cases hb
      exact .inl ⟨hsign, rfl⟩
    · rw [List.concat_eq_append, ← List.cons_append, ← List.append_assoc] at hsplit
      obtain ⟨rfl, hc⟩ := List.append_inj' hsplit rfl
      cases hc
      refine .inr ⟨_, ⟨before, b, after, rfl, hsign, rfl⟩, ?_⟩
      rw [List.concat_eq_append, List.map_append, List.sum_append]
      rfl
  · rintro (⟨hsign, rfl⟩ | ⟨_, ⟨before, b, after, rfl, hsign, rfl⟩, rfl⟩)
    · exact ⟨events, a, [], rfl, hsign, rfl⟩
    · refine ⟨before, b, after ++ [a], by simp, hsign, ?_⟩
      rw [List.map_append, List.sum_append]
      rfl

/-- How long ago the last sign of life of a client was. -/
structure LastHeard (client age : Nat) (events : List SessionEvent) : Prop where
  heard : Heard client age events
  latest : ∀ {age'}, Heard client age' events → age ≤ age'

section LastHeard

variable {client age age' : Nat} {events : List SessionEvent} {a : SessionEvent}

/-- A client was last heard of at one time only. -/
theorem LastHeard.unique (h : LastHeard client age events) (h' : LastHeard client age' events) :
    age = age' :=
  Nat.le_antisymm (h.latest h'.heard) (h'.latest h.heard)

/-- A sign of life is the last one when it comes. -/
theorem lastHeard_of_isSignOf (h : a.IsSignOf client (attemptsIn events)) :
    LastHeard client 0 (events ++ [a]) where
  heard := heard_concat_iff.mpr (.inl ⟨h, rfl⟩)
  latest := fun _ => Nat.zero_le _

/-- Otherwise only time goes by. -/
theorem LastHeard.concat (h : LastHeard client age events)
    (ha : ¬ a.IsSignOf client (attemptsIn events)) :
    LastHeard client (age + a.duration) (events ++ [a]) where
  heard := heard_concat_iff.mpr (.inr ⟨age, h.heard, rfl⟩)
  latest := fun hheard => by
    rcases heard_concat_iff.mp hheard with ⟨hsign, -⟩ | ⟨age', hbefore, rfl⟩
    · exact absurd hsign ha
    · exact Nat.add_le_add_right (h.latest hbefore) _

end LastHeard

/-! ## Sessions -/

namespace Sessions

/-- The clients with an open session. -/
def clients (s : Sessions) : List Nat := s.active.map (·.client)

/-- A new connection is turned away. -/
def Refuses (s : Sessions) : Prop := ¬(s.accepting = true ∧ 0 < s.free)

/-- No session is over that is still open, and no place is lost. -/
structure Orderly (limit idle : Nat) (s : Sessions) : Prop where
  idle_eq : s.idle = idle
  accepting_eq : s.accepting = true
  places_eq : s.free + s.active.length = limit
  recent : ∀ x ∈ s.active, x.lastData ≤ s.now ∧ s.now < x.lastData + idle

variable {limit idle : Nat} {s : Sessions}

/-- In the beginning every place is free. -/
theorem orderly_start? (h : start? limit idle = some s) : s.Orderly limit idle := by
  rw [start?] at h
  split at h
  · cases h
    exact ⟨rfl, rfl, rfl, nofun⟩
  · cases h

/-- A connection that is turned away changes nothing. -/
theorem accept_of_refuses (h : s.Refuses) (client : Nat) : s.accept client = s := if_neg h

theorem now_accept (s : Sessions) (client : Nat) : (s.accept client).now = s.now := by
  rw [accept]
  split <;> rfl

theorem clients_touch (s : Sessions) (client : Nat) (buffers : Buffers) :
    (s.touch client buffers).clients = s.clients := by
  rw [clients, touch, List.map_map]
  refine List.map_congr_left fun x _ => ?_
  dsimp only [Function.comp]
  split <;> rfl

/-- Who closes is no client any more. -/
theorem clients_close (s : Sessions) (client : Nat) :
    (s.close client).clients = s.clients.filter (· != client) := by
  rw [clients, clients, List.filter_map]
  rfl

namespace Orderly

/-- A connection is refused exactly if every place is taken. -/
theorem refuses_iff (h : s.Orderly limit idle) : s.Refuses ↔ s.active.length = limit := by
  have hplaces := h.places_eq
  simp only [Refuses, h.accepting_eq, true_and]
  omega

/-- Every place is free or has a client. -/
theorem places_clients (h : s.Orderly limit idle) : s.free + s.clients.length = limit := by
  rw [clients, List.length_map]
  exact h.places_eq

/-- To close a session gives its place back. -/
theorem close (h : s.Orderly limit idle) (client : Nat) : (s.close client).Orderly limit idle where
  idle_eq := h.idle_eq
  accepting_eq := h.accepting_eq
  places_eq := (s.places_endAll _).trans h.places_eq
  recent := fun x hx => h.recent x (List.mem_of_mem_filter hx)

/-- A sign of life changes no place. -/
theorem touch (h : s.Orderly limit idle) (client : Nat) (buffers : Buffers) :
    (s.touch client buffers).Orderly limit idle where
  idle_eq := h.idle_eq
  accepting_eq := h.accepting_eq
  places_eq := by
    simp only [Sessions.touch, List.length_map]
    exact h.places_eq
  recent := fun x hx => by
    obtain ⟨y, hy, rfl⟩ := List.mem_map.mp hx
    have hrecent := h.recent y hy
    show _ ≤ s.now ∧ s.now < _
    split
    · exact ⟨Nat.le_refl _, by dsimp only; omega⟩
    · exact hrecent

/-- As time goes by sessions without a sign of life give their places back. -/
theorem advance (h : s.Orderly limit idle) (ms : Nat) : (s.advance ms).Orderly limit idle where
  idle_eq := h.idle_eq
  accepting_eq := h.accepting_eq
  places_eq := (places_expire _).trans h.places_eq
  recent := fun x hx => by
    obtain ⟨hmem, hkept⟩ := List.mem_filter.mp hx
    have hrecent := h.recent x hmem
    simp only [isIdle, Bool.not_eq_true', decide_eq_false_iff_not, h.idle_eq] at hkept
    show _ ≤ s.now + ms ∧ s.now + ms < _
    omega

/-- A connection that is not turned away takes a place and is open, unless there is no idle time. -/
theorem active_accept (h : s.Orderly limit idle) (hroom : ¬ s.Refuses) (client : Nat) :
    (s.accept client).active =
      if 0 < idle then s.active ++ [⟨client, s.now, Buffers.empty⟩] else s.active := by
  have hkept : ∀ x ∈ s.active, (!decide (x.lastData + idle ≤ s.now)) = true := fun x hx => by
    have hrecent := h.recent x hx
    simpa using hrecent.2
  rw [accept, if_pos (not_not.mp hroom)]
  simp only [expire, endAll, isIdle, h.idle_eq, List.filter_append, List.filter_eq_self.mpr hkept]
  split
  · rename_i hidle
    rw [List.filter_eq_self.mpr (by simpa using hidle)]
  · rename_i hidle
    simp [Nat.eq_zero_of_not_pos hidle]

/-- Who is accepted is a client from then on, unless sessions may not be idle at all. -/
theorem clients_accept (h : s.Orderly limit idle) (hroom : ¬ s.Refuses) (client : Nat) :
    (s.accept client).clients = if 0 < idle then s.clients ++ [client] else s.clients := by
  rw [clients, h.active_accept hroom]
  split
  · exact List.map_append
  · rfl

/-- To accept a connection takes one place, if there is one. -/
theorem accept (h : s.Orderly limit idle) (client : Nat) :
    (s.accept client).Orderly limit idle := by
  by_cases hroom : s.Refuses
  · rw [accept_of_refuses hroom]
    exact h
  · have hopen : s.accepting = true ∧ 0 < s.free := not_not.mp hroom
    have hplaces := h.places_eq
    exact {
      idle_eq := by
        rw [Sessions.accept, if_pos hopen]
        exact h.idle_eq
      accepting_eq := by
        rw [Sessions.accept, if_pos hopen]
        exact h.accepting_eq
      places_eq := by
        rw [Sessions.accept, if_pos hopen, places_expire, List.length_append, List.length_singleton]
        dsimp only
        omega
      recent := by
        intro x hx
        rw [h.active_accept hroom] at hx
        rw [now_accept]
        split at hx
        · rename_i hidle
          rcases List.mem_append.mp hx with hx | hx
          · exact h.recent x hx
          · rw [List.mem_singleton.mp hx]
            exact ⟨Nat.le_refl _, by dsimp only; omega⟩
        · exact h.recent x hx }

end Orderly

end Sessions

/-- Data is noted as a sign of life at the session of its client, if there is one. -/
theorem Sessions.exists_send_eq_touch {σ : Type} (s : Sessions) (handler : Handler σ) (state : σ)
    (client : Nat) {bytes : Bytes} (hne : bytes ≠ []) :
    ∃ buffers, (s.send handler state client bytes).1 = s.touch client buffers := by
  rw [send]
  cases hfind : s.active.find? (·.client == client) with
  -- Bytes from somebody who is no client touch nobody.
  | none =>
    refine ⟨Buffers.empty, ?_⟩
    have hsame : s.active.map (fun x => if x.client == client then
        { x with lastData := s.now, buffers := Buffers.empty } else x) = s.active := by
      refine List.map_congr_left (g := id) (fun x hx => ?_) |>.trans (List.map_id _)
      rw [if_neg (List.find?_eq_none.mp hfind x hx)]
      rfl
    rw [touch, hsame]
  -- Whatever is served, the session was heard of now.
  | some x =>
    obtain ⟨buffers', hserve⟩ := serve_blocks handler.appending state x.buffers (blocks bytes)
      [] trivial
    rw [List.append_nil] at hserve
    refine ⟨buffers', ?_⟩
    simp only [hserve]
    rw [blocks_eq_cons hne]
    rfl

/-- No bytes are no sign of life. -/
theorem Sessions.send_nil {σ : Type} (s : Sessions) (handler : Handler σ) (state : σ)
    (client : Nat) : (s.send handler state client []).1 = s := by
  rw [send]
  split
  · rw [show blocks [] = [] by rw [blocks]; rfl]
    rfl
  · rfl

/-- Bytes leave the clients as they are. -/
theorem Sessions.clients_send {σ : Type} (s : Sessions) (handler : Handler σ) (state : σ)
    (client : Nat) (bytes : Bytes) : (s.send handler state client bytes).1.clients = s.clients := by
  rcases eq_or_ne bytes [] with rfl | hne
  · rw [send_nil]
  · obtain ⟨buffers, hsend⟩ := s.exists_send_eq_touch handler state client hne
    rw [hsend, clients_touch]

/-! ## Runs -/

/-- A server, the state of its handler, and how many connections were attempted. -/
structure Serving (σ : Type) where
  sessions : Sessions
  state : σ
  tried : Nat

namespace Serving

variable {σ : Type}

/-- Let one thing happen. -/
def step (handler : Handler σ) (s : Serving σ) : SessionEvent → Serving σ
  | .connect => { s with sessions := s.sessions.accept s.tried, tried := s.tried + 1 }
  | .data client bytes =>
    let (sessions, state, _) := s.sessions.send handler s.state client bytes
    { s with sessions, state }
  | .close client => { s with sessions := s.sessions.close client }
  | .pass ms => { s with sessions := s.sessions.advance ms }

/-- Let things happen one after the other. -/
def run (handler : Handler σ) (s : Serving σ) (events : List SessionEvent) : Serving σ :=
  events.foldl (step handler) s

/-- What happened to a server shows in its sessions: each has its own number, among the attempted
ones, and was last heard when it says. -/
structure Follows (limit idle : Nat) (events : List SessionEvent) (s : Serving σ) : Prop where
  orderly : s.sessions.Orderly limit idle
  tried_eq : s.tried = attemptsIn events
  numbered : ∀ x ∈ s.sessions.active, x.client < s.tried
  nodup : s.sessions.clients.Nodup
  lastHeard : ∀ x ∈ s.sessions.active, LastHeard x.client (s.sessions.now - x.lastData) events

namespace Follows

variable {limit idle : Nat} {events : List SessionEvent} {a : SessionEvent} {s : Serving σ}

/-- Sessions may end while something happens that is no sign of life of any open session. -/
theorem keep (h : s.Follows limit idle events) {s' : Serving σ}
    (hsign : ∀ client < s.tried, ¬ a.IsSignOf client (attemptsIn events))
    (horderly : s'.sessions.Orderly limit idle)
    (hactive : s'.sessions.active.Sublist s.sessions.active)
    (hnow : s'.sessions.now = s.sessions.now + a.duration)
    (htried : s'.tried = attemptsIn (events ++ [a])) : s'.Follows limit idle (events ++ [a]) where
  orderly := horderly
  tried_eq := htried
  numbered := fun x hx => by
    have hnumber := h.numbered x (hactive.mem hx)
    rw [h.tried_eq] at hnumber
    rw [htried, attemptsIn, List.count_append]
    exact Nat.lt_add_right _ hnumber
  nodup := h.nodup.sublist (hactive.map _)
  -- Nobody who stays was heard of, so all of them are older by the time that went by.
  lastHeard := fun x hx => by
    have hmem := hactive.mem hx
    have hrecent := h.orderly.recent x hmem
    have hlater : s'.sessions.now - x.lastData = s.sessions.now - x.lastData + a.duration := by omega
    rw [hlater]
    exact (h.lastHeard x hmem).concat (hsign _ (h.numbered x hmem))

/-- A connection that is open afterwards is new and was heard just now. -/
theorem connect (h : s.Follows limit idle events) (handler : Handler σ) :
    (s.step handler .connect).Follows limit idle (events ++ [.connect]) := by
  have htried : (s.step handler .connect).tried = attemptsIn (events ++ [.connect]) := by
    simp [step, attemptsIn, h.tried_eq]
  -- A new connection is no sign of those before it.
  have hother : ∀ client < s.tried, ¬ SessionEvent.connect.IsSignOf client (attemptsIn events) :=
    fun client hclient heq => by
      rw [SessionEvent.IsSignOf, ← h.tried_eq] at heq
      omega
  have horderly := h.orderly.accept s.tried
  by_cases hnew : ¬ s.sessions.Refuses ∧ 0 < idle
  · have hactive := h.orderly.active_accept hnew.1 s.tried
    have hclients := h.orderly.clients_accept hnew.1 s.tried
    rw [if_pos hnew.2] at hactive hclients
    have hfresh : s.tried ∉ s.sessions.clients := fun hmem => by
      obtain ⟨x, hx, heq⟩ := List.mem_map.mp hmem
      exact absurd heq (Nat.ne_of_lt (h.numbered x hx))
    refine ⟨horderly, htried, fun x hx => ?numbered, ?nodup, fun x hx => ?lastHeard⟩
    case numbered =>
      rcases List.mem_append.mp (hactive ▸ hx) with hx | hx
      · exact Nat.lt_succ_of_lt (h.numbered x hx)
      · rw [List.mem_singleton.mp hx]
        exact Nat.lt_succ_self _
    case nodup =>
      show (s.sessions.accept s.tried).clients.Nodup
      rw [hclients, ← List.concat_eq_append]
      exact h.nodup.concat hfresh
    case lastHeard =>
      show LastHeard x.client ((s.sessions.accept s.tried).now - x.lastData) _
      rw [Sessions.now_accept]
      rcases List.mem_append.mp (hactive ▸ hx) with hx | hx
      · exact (h.lastHeard x hx).concat (hother _ (h.numbered x hx))
      · rw [List.mem_singleton.mp hx, Nat.sub_self]
        exact lastHeard_of_isSignOf h.tried_eq
  · refine h.keep hother horderly ?_ (Sessions.now_accept ..) htried
    -- Refused, or gone at once because sessions may not be idle.
    by_cases hroom : s.sessions.Refuses
    · show (s.sessions.accept s.tried).active.Sublist _
      rw [Sessions.accept_of_refuses hroom]
    · have hidle : ¬ 0 < idle := fun hidle => hnew ⟨hroom, hidle⟩
      have hactive := h.orderly.active_accept hroom s.tried
      rw [if_neg hidle] at hactive
      exact hactive ▸ List.Sublist.refl _

/-- Data is a sign of life of its client, and of no other. -/
theorem data (h : s.Follows limit idle events) (handler : Handler σ) (client : Nat)
    (bytes : Bytes) :
    (s.step handler (.data client bytes)).Follows limit idle (events ++ [.data client bytes]) := by
  have htried : s.tried = attemptsIn (events ++ [.data client bytes]) := by
    simp [attemptsIn, h.tried_eq]
  -- No bytes are no sign of life.
  rcases eq_or_ne bytes [] with rfl | hne
  · have hsend : (s.step handler (.data client [])).sessions = s.sessions := s.sessions.send_nil ..
    exact h.keep (fun _ _ hsign => hsign.2 rfl) (hsend ▸ h.orderly) (hsend ▸ List.Sublist.refl _)
      (hsend ▸ rfl) htried
  · obtain ⟨buffers, hsend⟩ := s.sessions.exists_send_eq_touch handler s.state client hne
    have hsessions : (s.step handler (.data client bytes)).sessions =
      s.sessions.touch client buffers := hsend
    have hactive : ∀ x' ∈ (s.sessions.touch client buffers).active, ∃ x ∈ s.sessions.active,
        x'.client = x.client ∧
          x'.lastData = if x.client = client then s.sessions.now else x.lastData := by
      intro x' hx'
      obtain ⟨x, hx, rfl⟩ := List.mem_map.mp hx'
      refine ⟨x, hx, ?_⟩
      by_cases heq : x.client = client <;> simp [heq]
    refine ⟨?_, htried, fun x' hx' => ?numbered, ?nodup, fun x' hx' => ?lastHeard⟩
    · exact hsessions ▸ h.orderly.touch client buffers
    case numbered =>
      obtain ⟨x, hx, hsame, -⟩ := hactive x' (hsessions ▸ hx')
      exact hsame ▸ h.numbered x hx
    case nodup =>
      rw [hsessions, Sessions.clients_touch]
      exact h.nodup
    case lastHeard =>
      obtain ⟨x, hx, hsame, hlast⟩ := hactive x' (hsessions ▸ hx')
      rw [hsessions, hsame, hlast]
      show LastHeard _ (s.sessions.now - _) _
      split
      · rename_i heq
        rw [Nat.sub_self]
        exact lastHeard_of_isSignOf ⟨heq, hne⟩
      · rename_i hother
        exact (h.lastHeard x hx).concat (a := .data client bytes) fun hsign => hother hsign.1

/-- To close one session changes nothing about the others. -/
theorem close (h : s.Follows limit idle events) (handler : Handler σ) (client : Nat) :
    (s.step handler (.close client)).Follows limit idle (events ++ [.close client]) :=
  h.keep (fun _ _ => id) (h.orderly.close client) List.filter_sublist rfl
    (by simp [step, attemptsIn, h.tried_eq])

/-- As time goes by the clients that are left were last heard of longer ago. -/
theorem pass (h : s.Follows limit idle events) (handler : Handler σ) (ms : Nat) :
    (s.step handler (.pass ms)).Follows limit idle (events ++ [.pass ms]) :=
  h.keep (fun _ _ => id) (h.orderly.advance ms) List.filter_sublist rfl
    (by simp [step, attemptsIn, h.tried_eq])

end Follows

variable {limit idle : Nat} {events : List SessionEvent} {s : Serving σ}

/-- The sessions follow every event. -/
theorem follows_step (handler : Handler σ) (h : s.Follows limit idle events) (a : SessionEvent) :
    (s.step handler a).Follows limit idle (events ++ [a]) :=
  match a with
  | .connect => h.connect handler
  | .data client bytes => h.data handler client bytes
  | .close client => h.close handler client
  | .pass ms => h.pass handler ms

/-- The sessions follow all events. -/
theorem follows_run (handler : Handler σ) (h : s.Follows limit idle events)
    (more : List SessionEvent) : (s.run handler more).Follows limit idle (events ++ more) := by
  induction more generalizing s events with
  | nil =>
    rw [List.append_nil]
    exact h
  | cons a more ih =>
    have hrest := ih (follows_step handler h a)
    rwa [List.append_assoc] at hrest

/-- The client of an open session was heard less than the idle time ago. -/
theorem Follows.exists_lastHeard (h : s.Follows limit idle events) {client : Nat}
    (hclient : client ∈ s.sessions.clients) : ∃ age < idle, LastHeard client age events := by
  obtain ⟨x, hx, rfl⟩ := List.mem_map.mp hclient
  have hrecent := h.orderly.recent x hx
  exact ⟨s.sessions.now - x.lastData, by omega, h.lastHeard x hx⟩

/-- While time goes by, the sessions of those clients end that were not heard for too long. -/
theorem Follows.mem_clients_advance_iff (h : s.Follows limit idle events) {client age : Nat}
    (hclient : client ∈ s.sessions.clients) (hage : LastHeard client age events) (ms : Nat) :
    client ∈ (s.sessions.advance ms).clients ↔ age + ms < idle := by
  -- A session is kept exactly as long as it is not idle for too long.
  have hkept : ∀ x ∈ s.sessions.active, x.client = client →
      (x ∈ (s.sessions.advance ms).active ↔ age + ms < idle) := by
    rintro x hx rfl
    have hrecent := h.orderly.recent x hx
    rw [hage.unique (h.lastHeard x hx)]
    simp only [Sessions.advance, Sessions.expire, Sessions.endAll, Sessions.isIdle,
      List.mem_filter, h.orderly.idle_eq, Bool.not_eq_true', decide_eq_false_iff_not, hx, true_and]
    omega
  constructor
  · intro hmem
    obtain ⟨x, hx, hsame⟩ := List.mem_map.mp hmem
    exact (hkept x (List.mem_of_mem_filter hx) hsame).mp hx
  · intro hless
    obtain ⟨x, hx, hsame⟩ := List.mem_map.mp hclient
    exact List.mem_map.mpr ⟨x, (hkept x hx hsame).mpr hless, hsame⟩

/-- A session ends if its client closes it, or was not heard for too long, and not otherwise. -/
theorem Follows.not_mem_clients_step_iff (h : s.Follows limit idle events) (handler : Handler σ)
    {client : Nat} (hclient : client ∈ s.sessions.clients) (a : SessionEvent) :
    client ∉ (s.step handler a).sessions.clients ↔ a = .close client ∨
      ∃ ms age, a = .pass ms ∧ LastHeard client age events ∧ idle ≤ age + ms := by
  -- Only a close and the passing of time end a session.
  cases a with
  | connect =>
    have hstays : client ∈ (s.step handler .connect).sessions.clients := by
      show client ∈ (s.sessions.accept s.tried).clients
      by_cases hroom : s.sessions.Refuses
      · rwa [Sessions.accept_of_refuses hroom]
      · rw [h.orderly.clients_accept hroom]
        split
        · exact List.mem_append_left _ hclient
        · exact hclient
    simp [hstays]
  | data other bytes =>
    have hsame : (s.step handler (.data other bytes)).sessions.clients = s.sessions.clients :=
      s.sessions.clients_send handler s.state other bytes
    simp [hsame, hclient]
  | close other =>
    have hends : (s.step handler (.close other)).sessions.clients =
      s.sessions.clients.filter (· != other) := s.sessions.clients_close other
    simp [hends, hclient, eq_comm (a := client)]
  | pass ms =>
    obtain ⟨age, -, hage⟩ := h.exists_lastHeard hclient
    have hends := h.mem_clients_advance_iff hclient hage ms
    show client ∉ (s.sessions.advance ms).clients ↔ _
    rw [hends, Nat.not_lt]
    constructor
    · exact fun hlong => .inr ⟨ms, age, rfl, hage, hlong⟩
    · rintro (hclose | ⟨_, age', hpass, hage', hlong⟩)
      · cases hclose
      · cases hpass
        rwa [hage.unique hage']

end Serving

/-! ## The bound -/

/-- Two lists without repetitions differ in length by what only one of them has. -/
theorem length_filter_not_mem_add {l l' : List Nat} (h : l.Nodup) (h' : l'.Nodup) :
    (l.filter (· ∉ l')).length + l'.length = (l'.filter (· ∉ l)).length + l.length := by
  have hshared : (l.filter (· ∈ l')).Perm (l'.filter (· ∈ l)) :=
    (List.perm_ext_iff_of_nodup (h.filter _) (h'.filter _)).mpr fun c => by
      simp only [List.mem_filter, decide_eq_true_eq]
      exact and_comm
  have hcount := List.length_eq_length_filter_add (l := l) (· ∈ l')
  have hcount' := List.length_eq_length_filter_add (l := l') (· ∈ l)
  have hlen := hshared.length_eq
  simp only [← decide_not] at hcount hcount'
  omega

/-- What holds of a server after whatever happened to it. -/
structure Serving.Bounded {σ : Type} (limit idle : Nat) (events : List SessionEvent)
    (handler : Handler σ) (s : Serving σ) : Prop where
  /-- No more sessions are open than there are places, and each client has at most one. -/
  bounded : s.sessions.clients.length ≤ limit ∧ s.sessions.clients.Nodup
  /-- A connection is turned away exactly if all places are held. -/
  refuses_iff : s.sessions.Refuses ↔ s.sessions.clients.length = limit
  /-- A connection that is turned away changes no session and no state. -/
  refused : s.sessions.Refuses → s.step handler .connect = { s with tried := s.tried + 1 }
  /-- Any other takes a place, unless sessions may not be idle at all. -/
  accepted : ¬ s.sessions.Refuses → (s.step handler .connect).sessions.clients =
    if 0 < idle then s.sessions.clients ++ [s.tried] else s.sessions.clients
  /-- Each session that begins takes one place, and each that ends gives one back. -/
  freed : ∀ a, let s' := s.step handler a
    (s'.sessions.clients.filter (· ∉ s.sessions.clients)).length + s'.sessions.free =
      (s.sessions.clients.filter (· ∉ s'.sessions.clients)).length + s.sessions.free
  /-- A session ends if its client closes it, or was not heard for too long, and not otherwise. -/
  ends_iff : ∀ client ∈ s.sessions.clients, ∀ a,
    client ∉ (s.step handler a).sessions.clients ↔ a = .close client ∨
      ∃ ms age, a = .pass ms ∧ LastHeard client age events ∧ idle ≤ age + ms
  /-- Every client with an open session connected or sent data within the idle time. -/
  heard : ∀ client ∈ s.sessions.clients, ∃ age < idle, LastHeard client age events

/-- Sessions that follow the events are bounded as stated. -/
theorem Serving.Follows.bounded {σ : Type} {limit idle : Nat} {events : List SessionEvent}
    {s : Serving σ} (h : s.Follows limit idle events) (handler : Handler σ) :
    s.Bounded limit idle events handler where
  bounded := ⟨by have := h.orderly.places_clients; omega, h.nodup⟩
  refuses_iff := by
    rw [h.orderly.refuses_iff, Sessions.clients, List.length_map]
  refused := fun hrefuses => by
    rw [step, Sessions.accept_of_refuses hrefuses]
  accepted := fun hroom => h.orderly.clients_accept hroom s.tried
  freed := fun a => by
    have hnext := follows_step handler h a
    have hplaces := h.orderly.places_clients
    have hplaces' := hnext.orderly.places_clients
    have hcount := length_filter_not_mem_add h.nodup hnext.nodup
    dsimp only
    omega
  ends_iff := fun _ hclient a => h.not_mem_clients_step_iff handler hclient a
  heard := fun _ hclient => h.exists_lastHeard hclient

/-- Whatever happens to a server with a number of places that it can have, no more sessions are open
than there are places. A connection is turned away exactly if that many are open, which changes
nothing for them. Each session gives its place back once, when its client closes it or was not heard
for too long, and so no client keeps its place that was silent for the idle time. -/
theorem sessions_bounded {σ : Type} (handler : Handler σ) (state : σ) (limit idle : Nat)
    (hlimit : limit ≤ Sessions.maxPlaces) (events : List SessionEvent) :
    ∃ sessions, Sessions.start? limit idle = some sessions ∧
      (Serving.run handler ⟨sessions, state, 0⟩ events).Bounded limit idle events handler := by
  have hstart : Sessions.start? limit idle = some ⟨idle, 0, true, limit, []⟩ := if_pos hlimit
  have hbegin : Serving.Follows limit idle [] ⟨⟨idle, 0, true, limit, []⟩, state, 0⟩ :=
    ⟨Sessions.orderly_start? hstart, rfl, nofun, .nil, nofun⟩
  exact ⟨_, hstart, (Serving.follows_run handler hbegin events).bounded handler⟩

/-- Two clients hold the two places, and the second one sends something after a while. A third is
turned away. The first one then loses its place when it was silent for a second, which the third may
take. -/
theorem sessions_bounded_third : 2 ≤ Sessions.maxPlaces ∧ ∃ sessions,
    Sessions.start? 2 1000 = some sessions ∧
      let handler : Handler Unit := fun _ _ => ((), ⟨false, []⟩)
      let events := [.connect, .connect, .pass 600, .data 1 [9], .pass 300]
      let s := Serving.run handler ⟨sessions, (), 0⟩ events
      let s' := s.run handler [.connect, .pass 100]
      s.sessions.Refuses ∧ s'.sessions.clients = [1] ∧ LastHeard 1 300 events ∧
        (s'.step handler .connect).sessions.clients = [1, 3] := by
  have hbounded := sessions_bounded (fun _ _ => ((), ⟨false, []⟩)) () 2 1000 (by decide)
  obtain ⟨sessions, hstart, h⟩ :=
    hbounded [.connect, .connect, .pass 600, .data 1 [9], .pass 300]
  obtain ⟨_, hstart', h'⟩ :=
    hbounded [.connect, .connect, .pass 600, .data 1 [9], .pass 300, .connect, .pass 100]
  cases hstart
  cases hstart'
  refine ⟨by decide, _, rfl, h.refuses_iff.mpr ?_, ?_, ?_, ?_⟩
  · decide +kernel
  · decide +kernel
  · have hdata : LastHeard 1 0 ([.connect, .connect, .pass 600] ++ [.data 1 [9]]) :=
      lastHeard_of_isSignOf ⟨rfl, by decide⟩
    exact hdata.concat (a := .pass 300) id
  · refine (h'.accepted (mt h'.refuses_iff.mp ?_)).trans ?_
    · decide +kernel
    · decide +kernel

end Ensemble
