import Ensemble.Proofs.Membership.Service

/-!
# The tokens of the entries

`Registry.notes` lists the token of each registered endpoint. A registration adds a note with a
fresh token. A removal or a sweep takes notes away and cancels their tokens and no others. Nothing
takes a cancellation back, and every token of an entry belongs to the root.

* `Registry.WellFormed.drops_remove`, `Registry.drops_sweep` — what the two take away and cancel.
* `ServiceSession.changes` — what a step does to entries, knockers and tasks.
* `ServiceSession.keptBy_run` — a cancellation is for good.
-/

namespace Ensemble

namespace TokenPool

/-- To cancel a token cancels it, and no other one. -/
theorem isCancelled_cancel_iff {pool : TokenPool} {t u : Token} :
    (pool.cancel u).isCancelled t = true ↔ t.serial = u.serial ∨ pool.isCancelled t = true := by
  simp only [isCancelled, cancel, List.contains_cons, Bool.or_eq_true, beq_iff_eq, or_assoc]

/-- Of the tokens that were not cancelled, exactly those with a serial of the list are now. -/
theorem isCancelled_cancelAll_iff {pool : TokenPool} {t : Token} {us : List Token} :
    (pool.cancelAll us).isCancelled t = true ↔
      (∃ u ∈ us, t.serial = u.serial) ∨ pool.isCancelled t = true := by
  induction us generalizing pool with
  | nil => simp [cancelAll]
  | cons u us ih =>
    show ((pool.cancel u).cancelAll us).isCancelled t = true ↔ _
    rw [ih, isCancelled_cancel_iff, List.exists_mem_cons_iff]
    exact or_left_comm.trans or_assoc.symm

@[simp] theorem issued_cancelAll (pool : TokenPool) (us : List Token) :
    (pool.cancelAll us).issued = pool.issued := by
  induction us generalizing pool with
  | nil => rfl
  | cons u us ih => exact ih (pool.cancel u)

@[simp] theorem rootCancelled_cancelAll (pool : TokenPool) (us : List Token) :
    (pool.cancelAll us).rootCancelled = pool.rootCancelled := by
  induction us generalizing pool with
  | nil => rfl
  | cons u us ih => exact ih (pool.cancel u)

/-- Whatever is cancelled in the one pool, be it the root or a token, is cancelled in the other. -/
structure KeptBy (pool pool' : TokenPool) : Prop where
  token : ∀ t, pool.isCancelled t = true → pool'.isCancelled t = true
  root : pool.rootCancelled = true → pool'.rootCancelled = true

theorem KeptBy.refl (pool : TokenPool) : pool.KeptBy pool := ⟨fun _ => id, id⟩

/-- What is kept twice is kept. -/
theorem KeptBy.trans {pool pool' pool'' : TokenPool} (h : pool.KeptBy pool')
    (h' : pool'.KeptBy pool'') : pool.KeptBy pool'' :=
  ⟨fun t ht => h'.token t (h.token t ht), fun hroot => h'.root (h.root hroot)⟩

/-- What is cancelled stays so when others are cancelled too. -/
theorem keptBy_cancelAll (pool : TokenPool) (us : List Token) :
    pool.KeptBy (pool.cancelAll us) where
  token := fun _ ht => isCancelled_mono_cancelAll us ht
  root := fun hroot => (rootCancelled_cancelAll pool us).trans hroot

/-- The end of the root takes no token back to life. -/
theorem keptBy_cancelRoot (pool : TokenPool) : pool.KeptBy pool.cancelRoot where
  token := fun t ht => by
    rw [isCancelled, Bool.or_eq_true, Bool.and_eq_true] at ht ⊢
    exact ht.imp_right fun hroot => ⟨hroot.1, rfl⟩
  root := fun _ => rfl

/-- With the root all its tokens are cancelled. -/
theorem isCancelled_of_rooted {pool : TokenPool} {t : Token} (hroot : pool.rootCancelled = true)
    (ht : t.rooted = true) : pool.isCancelled t = true := by
  rw [isCancelled, hroot, ht]
  exact Bool.or_true _

end TokenPool

/-- In a list with one note an endpoint, the note that is found is the one that is there. -/
theorem find?_note_eq_some_iff {notes : List (Endpoint × Token)}
    (h : (notes.map Prod.fst).Nodup) {e : Endpoint} {t : Token} :
    (notes.find? (·.1 == e)).map (·.2) = some t ↔ (e, t) ∈ notes := by
  constructor
  · intro hfind
    obtain ⟨⟨e', t'⟩, hnote, rfl⟩ := Option.map_eq_some_iff.mp hfind
    obtain ⟨hmem, rfl⟩ := (find?_key_eq_some_iff h).mp hnote
    exact hmem
  · intro hmem
    rw [(find?_key_eq_some_iff h).mpr ⟨hmem, rfl⟩]
    rfl

namespace Registry

/-- The token of each registered endpoint. -/
def notes (r : Registry) : List (Endpoint × Token) :=
  r.entries.map fun x => (x.peer.endpoint, x.token)

/-- The entries are noted under the endpoints of the peers. -/
theorem map_fst_notes (r : Registry) : r.notes.map Prod.fst = r.peers.map Peer.endpoint := by
  rw [notes, peers, List.map_map, List.map_map]
  rfl

/-- The token of an endpoint is the one it is noted with. -/
theorem token?_eq_find? (r : Registry) (e : Endpoint) :
    r.token? e = (r.notes.find? (·.1 == e)).map (·.2) := by
  rw [notes, List.find?_map, Option.map_map]
  rfl

/-- In a well-formed registry an endpoint has a token exactly if it is noted with it. -/
theorem WellFormed.token?_eq_some_iff {r : Registry} (h : r.WellFormed) {e : Endpoint}
    {t : Token} : r.token? e = some t ↔ (e, t) ∈ r.notes := by
  rw [token?_eq_find?, find?_note_eq_some_iff]
  rw [map_fst_notes]
  exact h.nodup

/-- No entry, no token. -/
theorem token?_eq_none_iff {r : Registry} {e : Endpoint} :
    r.token? e = none ↔ r.find? e = none := Option.map_eq_none_iff

/-- An entry that is found is noted with its token. -/
theorem mem_notes_of_find? {r : Registry} {e : Endpoint} {entry : RegistryEntry}
    (h : r.find? e = some entry) : (e, entry.token) ∈ r.notes := by
  obtain ⟨hmem, rfl⟩ := mem_of_find? h
  exact List.mem_map_of_mem (f := fun x : RegistryEntry => (x.peer.endpoint, x.token)) hmem

/-- Whoever has a token is noted with it. -/
theorem mem_notes_of_token? {r : Registry} {e : Endpoint} {t : Token} (h : r.token? e = some t) :
    (e, t) ∈ r.notes := by
  obtain ⟨entry, hfind, rfl⟩ := Option.map_eq_some_iff.mp h
  exact mem_notes_of_find? hfind

/-- An endpoint without an entry has no note. -/
theorem ne_of_find?_eq_none {r : Registry} {e : Endpoint} (h : r.find? e = none)
    {n : Endpoint × Token} (hn : n ∈ r.notes) : n.1 ≠ e := by
  obtain ⟨x, hx, rfl⟩ := List.mem_map.mp hn
  exact find?_eq_none_iff.mp h x.peer (List.mem_map_of_mem hx)

/-! ## What the operations do to the notes -/

/-- A refresh leaves endpoints and tokens as they are. -/
@[simp] theorem notes_refresh (r : Registry) (now : Nat) (p : RegistryEntry → Bool) :
    (r.refresh now p).notes = r.notes := by
  simp only [refresh, notes, List.map_map]
  refine List.map_congr_left fun x _ => ?_
  by_cases h : p x <;> simp [h]

/-- The second registry is the first without some entries, and of the tokens that were not cancelled
exactly theirs are. -/
structure Drops (r r' : Registry) (gone : RegistryEntry → Bool) : Prop where
  entries_eq : r'.entries = r.entries.filter fun x => !gone x
  isCancelled_iff : ∀ t, r'.tokens.isCancelled t = true ↔
    (∃ x ∈ r.entries, gone x = true ∧ t.serial = x.token.serial) ∨ r.tokens.isCancelled t = true
  issued_eq : r'.tokens.issued = r.tokens.issued
  rootCancelled_eq : r'.tokens.rootCancelled = r.tokens.rootCancelled

/-- Who is dropped leaves the others in their order. -/
theorem Drops.notes_sublist {r r' : Registry} {gone : RegistryEntry → Bool}
    (h : r.Drops r' gone) : r'.notes.Sublist r.notes := by
  rw [notes, h.entries_eq]
  exact List.filter_sublist.map _

/-- Who is dropped has the token cancelled, and no token is given back. -/
theorem Drops.keptBy {r r' : Registry} {gone : RegistryEntry → Bool} (h : r.Drops r' gone) :
    r.tokens.KeptBy r'.tokens where
  token := fun t ht => (h.isCancelled_iff t).mpr (.inr ht)
  root := h.rootCancelled_eq.trans

/-- A sweep drops the entries that were silent for too long. -/
theorem drops_sweep (r : Registry) (now timeout : Nat) :
    r.Drops (r.sweep now timeout).1 (expired now timeout) := by
  refine ⟨rfl, fun t => ?_, TokenPool.issued_cancelAll _ _, TokenPool.rootCancelled_cancelAll _ _⟩
  rw [sweep, TokenPool.isCancelled_cancelAll_iff]
  refine or_congr_left ⟨?_, ?_⟩
  · rintro ⟨u, hu, hserial⟩
    obtain ⟨x, hx, rfl⟩ := List.mem_map.mp hu
    exact ⟨x, (List.mem_filter.mp hx).1, (List.mem_filter.mp hx).2, hserial⟩
  · rintro ⟨x, hx, hgone, hserial⟩
    exact ⟨x.token, List.mem_map_of_mem (List.mem_filter.mpr ⟨hx, hgone⟩), hserial⟩

/-- A removal drops the entry of the endpoint, if there is one. -/
theorem WellFormed.drops_remove {r : Registry} (h : r.WellFormed) (e : Endpoint) :
    r.Drops (r.remove e).1 (·.peer.endpoint == e) := by
  have hkeys := h.endpoints_nodup
  cases hfind : r.find? e with
  -- Nobody to remove: nothing is dropped.
  | none =>
    have hne : ∀ x ∈ r.entries, ¬ (x.peer.endpoint == e) = true := List.find?_eq_none.mp hfind
    have hsame : (r.remove e).1 = r := by rw [Registry.remove, hfind]
    rw [hsame]
    refine ⟨(List.filter_eq_self.mpr fun x hx => ?_).symm, fun t => ?_, rfl, rfl⟩
    · simpa using hne x hx
    · refine ⟨.inr, fun hcancelled => hcancelled.resolve_left ?_⟩
      rintro ⟨x, hx, hgone, -⟩
      exact hne x hx hgone
  -- The first entry of the endpoint is the only one.
  | some entry =>
    obtain ⟨hmem, he⟩ := mem_of_find? hfind
    have hremove : (r.remove e).1 = { r with
        entries := r.entries.eraseP (·.peer.endpoint == e)
        tokens := r.tokens.cancel entry.token } := by rw [Registry.remove, hfind]
    rw [hremove]
    refine ⟨eraseP_eq_filter hkeys e, fun t => ?_, rfl, rfl⟩
    rw [TokenPool.isCancelled_cancel_iff]
    refine or_congr_left ⟨fun hserial => ⟨entry, hmem, beq_iff_eq.mpr he, hserial⟩, ?_⟩
    rintro ⟨x, hx, hgone, hserial⟩
    rwa [List.inj_on_of_nodup_map hkeys hx hmem ((beq_iff_eq.mp hgone).trans he.symm)] at hserial

/-- A registration leaves the registry as it is or adds a note with a fresh token. -/
theorem register_notes_cases (r : Registry) (now : Nat) (draw : Nat → PeerId) (e : Endpoint) :
    (r.register now draw e).1 = r ∨
    (r.register now draw e).1.notes = r.notes ++ [(e, r.tokens.issue.2)] ∧
      (r.register now draw e).1.tokens = r.tokens.issue.1 := by
  obtain ⟨entry, -, heq⟩ | ⟨-, -, heq⟩ | ⟨-, -, heq⟩ := r.register_cases now draw e
  · exact .inl (by rw [heq])
  · exact .inl (by rw [heq])
  · rw [heq]
    exact .inr ⟨List.map_append, rfl⟩

/-- A CONNECT cancels nothing and takes nothing back. -/
theorem keptBy_register (r : Registry) (now : Nat) (draw : Nat → PeerId) (e : Endpoint) :
    r.tokens.KeptBy (r.register now draw e).1.tokens := by
  obtain hsame | ⟨-, hissue⟩ := r.register_notes_cases now draw e
  · rw [hsame]
    exact TokenPool.KeptBy.refl _
  · rw [hissue]
    exact ⟨fun _ => id, id⟩

end Registry

/-! ## What a step does to entries, knockers and tasks -/

/-- The task that is started for the entry of an endpoint, if one is. -/
def Knockers.launched (k : Knockers) (r : Registry) (running : Bool) (e : Endpoint) :
    List (Endpoint × Token) :=
  if (k.ensure r running e).2 then (r.token? e).toList.map fun t => (e, t) else []

/-- A CONNECT offers its endpoint to the registry and then to the knockers. -/
theorem Service.onConnect_changes (s : Service) (moment : Moment) (e : Endpoint) :
    (s.onConnect moment e).service.registry =
        (s.registry.register moment.now moment.draw e).1 ∧
      (s.onConnect moment e).service.knockers =
        (s.knockers.ensure (s.registry.register moment.now moment.draw e).1
          moment.running e).1 := by
  obtain ⟨entry, -, heq⟩ | ⟨hnone, -, heq⟩ | ⟨-, -, heq⟩ :=
    s.registry.register_cases moment.now moment.draw e
  · simp only [onConnect, heq, Registration.peer?, and_self]
  · have htoken : s.registry.token? e = none := Registry.token?_eq_none_iff.mpr hnone
    simp only [onConnect, heq, Registration.peer?, Knockers.ensure, htoken, and_self]
  · simp only [onConnect, heq, Registration.peer?, and_self]

namespace ServiceSession

/-- The tasks that a step starts. -/
def launched (s : ServiceSession) : ServiceStep → List (Endpoint × Token)
  | .receive sender bytes running draw =>
    match Message.decode bytes with
    | .ok (.connect port) =>
      s.service.knockers.launched
        (s.service.registry.register s.now draw ⟨sender.address, port⟩).1 running
        ⟨sender.address, port⟩
    | _ => []
  | _ => []

/-- The tokens at an instant. -/
def tokens (s : ServiceSession) : TokenPool := s.service.registry.tokens

/-- What a step does to the entries, the knockers and the tasks. -/
inductive Changes (s : ServiceSession) (a : ServiceStep) : Prop where
  | connects (sender : Endpoint) (bytes : Bytes) (running : Bool) (draw : Nat → PeerId)
      (e : Endpoint) (step_eq : a = .receive sender bytes running draw)
      (registry_eq : (s.step a).1.service.registry = (s.service.registry.register s.now draw e).1)
      (knockers_eq : (s.step a).1.service.knockers =
        (s.service.knockers.ensure (s.step a).1.service.registry running e).1)
      (launched_eq : s.launched a =
        s.service.knockers.launched (s.step a).1.service.registry running e)
  | enters (e : Endpoint) (draw : Nat → PeerId) (step_eq : a = .enter e draw)
  | drops (gone : RegistryEntry → Bool)
      (entries_drop : s.service.registry.Drops (s.step a).1.service.registry gone)
      (knockers_eq : (s.step a).1.service.knockers = s.service.knockers)
      (launched_eq : s.launched a = [])
  | keeps (notes_eq : (s.step a).1.service.registry.notes = s.service.registry.notes)
      (tokens_eq : (s.step a).1.tokens = s.tokens)
      (knockers_eq : (s.step a).1.service.knockers = s.service.knockers)
      (launched_eq : s.launched a = [])
  | reaps (e : Endpoint) (step_eq : a = .reap e)
  | closes (step_eq : a = .close)

section Receive

variable {s : ServiceSession} {sender : Endpoint} {bytes : Bytes} {running : Bool}
  {draw : Nat → PeerId}

/-- A message does to the service what its handler does. -/
theorem service_step_receive {m : Message} (hdecode : Message.decode bytes = .ok m) :
    (s.step (.receive sender bytes running draw)).1.service =
      (s.service.handle ⟨s.now, running, draw⟩ m sender).service := by
  show (s.service.receive ⟨s.now, running, draw⟩ bytes sender).service = _
  rw [Service.receive, hdecode]

/-- If the service stays as it is, so do the entries and the knockers. -/
theorem changes_of_service_eq {a : ServiceStep} (hservice : (s.step a).1.service = s.service)
    (hlaunched : s.launched a = []) : s.Changes a := by
  refine .keeps ?_ ?_ ?_ hlaunched
  · rw [hservice]
  · rw [tokens, hservice, tokens]
  · rw [hservice]

/-- A CONNECT, whoever sends it, is one of the changes. -/
theorem changes_connect {port : UInt16} (hdecode : Message.decode bytes = .ok (.connect port)) :
    s.Changes (.receive sender bytes running draw) := by
  have hhandle : (s.step (.receive sender bytes running draw)).1.service =
      (s.service.onConnect ⟨s.now, running, draw⟩ ⟨sender.address, port⟩).service :=
    service_step_receive hdecode
  obtain ⟨hregistry, hknockers⟩ :=
    s.service.onConnect_changes ⟨s.now, running, draw⟩ ⟨sender.address, port⟩
  rw [← hregistry] at hknockers
  refine .connects sender bytes running draw ⟨sender.address, port⟩ rfl ?_ ?_ ?_
  · rw [hhandle]
    exact hregistry
  · rw [hhandle]
    exact hknockers
  · rw [hhandle]
    simp only [launched, hdecode, hregistry]

/-- A DISCONNECT drops the entry of its endpoint, if there is one. -/
theorem changes_disconnect (h : s.service.registry.WellFormed) {port : UInt16}
    (hdecode : Message.decode bytes = .ok (.disconnect port)) :
    s.Changes (.receive sender bytes running draw) := by
  have hhandle : (s.step (.receive sender bytes running draw)).1.service =
      (s.service.onDisconnect ⟨sender.address, port⟩).1 := service_step_receive hdecode
  have hremove := h.drops_remove ⟨sender.address, port⟩
  refine .drops (·.peer.endpoint == ⟨sender.address, port⟩) ?_ ?_
    (by simp only [launched, hdecode])
  · rw [hhandle]
    obtain ⟨hnone, heq⟩ | ⟨-, heq, -⟩ := s.service.onDisconnect_cases ⟨sender.address, port⟩
    · rw [heq]
      rwa [Registry.remove, hnone] at hremove
    · rwa [heq]
  · rw [hhandle, Service.onDisconnect]
    split <;> rfl

/-- A status refreshes heartbeats, and tokens have no part in that. -/
theorem changes_sendStatus {status : PlaybackStatus}
    (hdecode : Message.decode bytes = .ok (.sendStatus status)) :
    s.Changes (.receive sender bytes running draw) := by
  refine .keeps ?_ ?_ ?_ (by simp only [launched, hdecode])
  · rw [service_step_receive hdecode]
    exact Registry.notes_refresh _ _ _
  · rw [tokens, service_step_receive hdecode]
    rfl
  · rw [service_step_receive hdecode]
    rfl

end Receive

/-- A message registers its sender, or drops it, or keeps all as it is. -/
theorem changes_receive {s : ServiceSession} (h : s.service.registry.WellFormed)
    (sender : Endpoint) (bytes : Bytes) (running : Bool) (draw : Nat → PeerId) :
    s.Changes (.receive sender bytes running draw) := by
  cases hdecode : Message.decode bytes with
  | error e =>
    refine changes_of_service_eq ?_ (by simp only [launched, hdecode])
    show (s.service.receive ⟨s.now, running, draw⟩ bytes sender).service = s.service
    rw [Service.receive, hdecode]
  | ok m =>
    cases m with
    | connect port => exact changes_connect hdecode
    | disconnect port => exact changes_disconnect h hdecode
    | sendStatus status => exact changes_sendStatus hdecode
    | _ =>
      exact changes_of_service_eq (service_step_receive hdecode) (by simp only [launched, hdecode])

/-- Every step of the service is one of the changes. -/
theorem changes {s : ServiceSession} (h : s.service.registry.WellFormed) (a : ServiceStep) :
    s.Changes a := by
  cases a with
  | receive sender bytes running draw => exact changes_receive h sender bytes running draw
  | enter e draw => exact .enters e draw rfl
  | sweep =>
    have hknockers : (s.service.sweep s.now).1.knockers = s.service.knockers := by
      rw [Service.sweep]
      split <;> rfl
    obtain ⟨-, heq⟩ | ⟨-, heq, -⟩ := s.service.sweep_cases s.now
    · -- Nobody was silent for too long.
      have hrest : (s.step .sweep).1.service = s.service := by
        rw [step, heq]
      refine .keeps ?_ ?_ hknockers rfl
      · rw [hrest]
      · rw [tokens, hrest, tokens]
    · refine .drops (Registry.expired s.now s.service.config.heartbeatTimeout) ?_ hknockers rfl
      show s.service.registry.Drops (s.service.sweep s.now).1.registry _
      rw [heq]
      exact Registry.drops_sweep _ _ _
  | advance ms => exact .keeps rfl rfl rfl rfl
  | reap e => exact .reaps e rfl
  | close => exact .closes rfl

/-! ## Cancellations are for good -/

/-- The end of the service cancels the root and the tokens of all tasks. -/
theorem tokens_step_close (s : ServiceSession) :
    (s.step .close).1.tokens =
      s.tokens.cancelRoot.cancelAll (s.service.knockers.started.map (·.2)) := rfl

/-- The end cancels the root. -/
theorem rootCancelled_step_close (s : ServiceSession) :
    (s.step .close).1.tokens.rootCancelled = true := by
  rw [s.tokens_step_close, TokenPool.rootCancelled_cancelAll]
  rfl

/-- No step takes a cancellation back. -/
theorem keptBy_step {s : ServiceSession} (h : s.service.registry.WellFormed) (a : ServiceStep) :
    s.tokens.KeptBy (s.step a).1.tokens := by
  cases changes h a with
  | connects sender bytes running draw e _ hregistry =>
    rw [tokens, tokens, hregistry]
    exact s.service.registry.keptBy_register s.now draw e
  | enters e draw heq =>
    rw [heq]
    exact s.service.registry.keptBy_register s.now draw e
  | drops gone hdrops => exact hdrops.keptBy
  | keeps _ htokens =>
    rw [htokens]
    exact TokenPool.KeptBy.refl _
  | reaps e heq =>
    rw [heq]
    exact TokenPool.KeptBy.refl _
  -- The end cancels more, and takes nothing back.
  | closes heq =>
    rw [heq, s.tokens_step_close]
    exact s.tokens.keptBy_cancelRoot.trans (TokenPool.keptBy_cancelAll _ _)

/-- What is cancelled stays so throughout a run. -/
theorem keptBy_run {s : ServiceSession} (h : s.service.registry.WellFormed)
    (steps : List ServiceStep) : s.tokens.KeptBy (s.run steps).tokens := by
  induction steps generalizing s with
  | nil => exact TokenPool.KeptBy.refl _
  | cons a rest ih => exact (keptBy_step h a).trans (ih (wellFormed_step h a))

end ServiceSession

end Ensemble
