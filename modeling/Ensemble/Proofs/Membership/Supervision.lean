import Ensemble.Proofs.Membership.Broadcast
import Ensemble.Proofs.Membership.Tokens

/-!
# Every entry has one knocker

A knocker task is live as long as its token is not cancelled. The notes of the knockers lag behind:
a cancelled task clears its note at any later time, perhaps after its endpoint was registered again.
A `Watch` is the service together with all tasks that it ever started. Throughout, the live tasks
are those of the entries, each under its entry's token.

* `Supervised` — the invariant of registry, knockers and tasks.
* `Supervised.connect`, `Supervised.drop`, `Supervised.reap` — what preserves it.
* `Watch.Supervises.run` — so every run does.
* `Watch.Rooted.ended` — no task outlives the root, for all their tokens belong to it.
* `knockers_follow_entries` — one live task for each entry, late clean-ups included, and none for
  others; what is cancelled stays so, and the end of the service ends them all.
-/

namespace Ensemble

/-! ## Tasks -/

/-- A step before the service is closed, in which every message finds a scheduler. -/
def ServiceStep.Attended : ServiceStep → Prop
  | .receive _ _ running _ => running = true
  | .enter _ _ | .close => False
  | _ => True

/-- The service, and all knocker tasks that it ever started. -/
structure Watch where
  session : ServiceSession
  tasks : List (Endpoint × Token)

namespace Watch

/-- The service before any registration. -/
def start (config : ServiceConfig) : Watch := ⟨ServiceSession.start config, []⟩

/-- Let one thing happen. -/
def step (w : Watch) (a : ServiceStep) : Watch :=
  ⟨(w.session.step a).1, w.tasks ++ w.session.launched a⟩

/-- Let things happen one after the other. -/
def run (w : Watch) (steps : List ServiceStep) : Watch := steps.foldl step w

/-- The tokens of those tasks of an endpoint that are live. -/
def liveTasks (w : Watch) (e : Endpoint) : List Token :=
  (w.tasks.filter fun n => n.1 == e && !w.session.tokens.isCancelled n.2).map (·.2)

/-- Every run is a run of the service. -/
theorem session_run (w : Watch) (steps : List ServiceStep) :
    (w.run steps).session = w.session.run steps := by
  induction steps generalizing w with
  | nil => rfl
  | cons a rest ih => exact ih (w.step a)

/-- A task that was begun is remembered for good. -/
theorem mem_tasks_run {w : Watch} (steps : List ServiceStep) {n : Endpoint × Token}
    (h : n ∈ w.tasks) : n ∈ (w.run steps).tasks := by
  induction steps generalizing w with
  | nil => exact h
  | cons a rest ih => exact ih (List.mem_append_left _ h)

end Watch

/-! ## Knockers -/

namespace Knockers

variable {k : Knockers} {r : Registry} {e : Endpoint} {t : Token}

/-- A knocker is live as long as its token is not cancelled. -/
theorem isLive_of_token? (tokens : TokenPool) (h : k.token? e = some t) :
    k.isLive tokens e = !tokens.isCancelled t := by
  rw [isLive, h]

/-- Where a task is live, none is started. -/
theorem ensure_of_isLive (running : Bool) (h : k.isLive r.tokens e = true) :
    k.ensure r running e = (k, false) := by
  rw [ensure]
  split
  · rw [start, h, Bool.or_true, if_pos rfl]
  · rfl

/-- Without an entry no knocker is begun. -/
theorem ensure_of_token?_eq_none (running : Bool) (h : r.token? e = none) :
    k.ensure r running e = (k, false) := by
  rw [ensure, h]

/-- A task is started under the entry's token where none is live. -/
theorem ensure_of_not_isLive (htoken : r.token? e = some t)
    (ht : r.tokens.isCancelled t = false) (h : k.isLive r.tokens e = false) :
    k.ensure r true e = (k.note e t, true) := by
  simp only [ensure, htoken, start, ht, h, Bool.not_true, Bool.or_false, Bool.false_eq_true,
    if_false]

/-- If no knocker was begun there is no new task. -/
theorem launched_of_not_started {running : Bool} (h : k.ensure r running e = (k, false)) :
    k.launched r running e = [] := by
  rw [launched, h]
  rfl

/-- Whatever is noted or started by ensuring a knocker has the token of an entry. -/
theorem mem_ensure {running : Bool} {n : Endpoint × Token}
    (hn : n ∈ (k.ensure r running e).1.started ∨ n ∈ k.launched r running e) :
    n ∈ k.started ∨ n ∈ r.notes := by
  rcases htoken : r.token? e with _ | t
  · rw [launched_of_not_started (ensure_of_token?_eq_none running htoken),
      ensure_of_token?_eq_none running htoken] at hn
    exact hn.imp_right fun hnil => absurd hnil List.not_mem_nil
  · have hnote : (e, t) ∈ r.notes := Registry.mem_notes_of_token? htoken
    rcases hn with hstarted | hlaunched
    · simp only [ensure, htoken, start] at hstarted
      split at hstarted
      · exact .inl hstarted
      · rcases List.mem_append.mp hstarted with hold | hnew
        · exact .inl (List.mem_filter.mp hold).1
        · obtain rfl := List.mem_singleton.mp hnew
          exact .inr hnote
    · rw [launched, htoken] at hlaunched
      split at hlaunched
      · obtain rfl := List.mem_singleton.mp hlaunched
        exact .inr hnote
      · exact absurd hlaunched List.not_mem_nil

end Knockers

/-! ## The invariant -/

/-- The live tasks are those of the entries, every one of them is noted, and notes are of tasks. -/
structure Supervised (r : Registry) (k : Knockers) (tasks : List (Endpoint × Token)) : Prop where
  wellFormed : r.WellFormed
  serials_nodup : (r.notes.map (·.2.serial)).Nodup
  /-- No token that is still to be issued is cancelled. -/
  unissued_live : ∀ t : Token, r.tokens.issued ≤ t.serial → r.tokens.isCancelled t = false
  tasks_issued : ∀ n ∈ tasks, n.2.serial < r.tokens.issued
  tasks_nodup : tasks.Nodup
  live_iff : ∀ n ∈ tasks, r.tokens.isCancelled n.2 = false ↔ n ∈ r.notes
  started_nodup : (k.started.map Prod.fst).Nodup
  started_tasks : ∀ n ∈ k.started, n ∈ tasks
  noted : ∀ n ∈ r.notes, n ∈ k.started

namespace Supervised

variable {r : Registry} {k : Knockers} {tasks : List (Endpoint × Token)}

/-- Every entry has a task under its token. -/
theorem mem_tasks (h : Supervised r k tasks) {n : Endpoint × Token} (hn : n ∈ r.notes) :
    n ∈ tasks := h.started_tasks n (h.noted n hn)

/-- The token of an entry is not cancelled. -/
theorem isCancelled_eq_false (h : Supervised r k tasks) {n : Endpoint × Token}
    (hn : n ∈ r.notes) : r.tokens.isCancelled n.2 = false :=
  (h.live_iff n (h.mem_tasks hn)).mpr hn

/-- The note of a registered endpoint has its entry's token. -/
theorem knockers_token? (h : Supervised r k tasks) {e : Endpoint} {t : Token}
    (ht : r.token? e = some t) : k.token? e = some t := by
  rw [Knockers.token?, find?_note_eq_some_iff h.started_nodup]
  exact h.noted _ (h.wellFormed.token?_eq_some_iff.mp ht)

/-- A knocker is live exactly at the registered endpoints. -/
theorem isLive_eq (h : Supervised r k tasks) (e : Endpoint) :
    k.isLive r.tokens e = (r.token? e).isSome := by
  rcases ht : r.token? e with _ | t
  · rcases hk : k.token? e with _ | u
    · rw [Knockers.isLive, hk]
      rfl
    · have hmem : (e, u) ∈ k.started := by
        rwa [Knockers.token?, find?_note_eq_some_iff h.started_nodup] at hk
      -- A knocker without an entry runs under a token that is cancelled.
      have hcancelled : r.tokens.isCancelled u = true := by
        rw [← Bool.not_eq_false]
        intro hlive
        have hnote : (e, u) ∈ r.notes := (h.live_iff _ (h.started_tasks _ hmem)).mp hlive
        rw [h.wellFormed.token?_eq_some_iff.mpr hnote] at ht
        cases ht
      rw [Knockers.isLive_of_token? _ hk, hcancelled]
      rfl
  · have hlive : r.tokens.isCancelled t = false :=
      h.isCancelled_eq_false (h.wellFormed.token?_eq_some_iff.mp ht)
    rw [Knockers.isLive_of_token? _ (h.knockers_token? ht), hlive]
    rfl

/-- A registered endpoint has one live task, that of its entry, and no other endpoint has any. -/
theorem filter_live_eq (h : Supervised r k tasks) (e : Endpoint) :
    (tasks.filter fun n => n.1 == e && !r.tokens.isCancelled n.2).map (·.2) =
      (r.token? e).toList := by
  -- The live tasks of an endpoint are those under its own token, of which there is one.
  have hmem : ∀ n, n ∈ (tasks.filter fun n => n.1 == e && !r.tokens.isCancelled n.2) ↔
      n.1 = e ∧ r.token? e = some n.2 := by
    rintro ⟨e', t⟩
    rw [List.mem_filter, Bool.and_eq_true, beq_iff_eq, Bool.not_eq_true']
    constructor
    · rintro ⟨htask, rfl, hlive⟩
      exact ⟨rfl, h.wellFormed.token?_eq_some_iff.mpr ((h.live_iff _ htask).mp hlive)⟩
    · rintro ⟨rfl, htoken⟩
      have hnote : (e', t) ∈ r.notes := h.wellFormed.token?_eq_some_iff.mp htoken
      exact ⟨h.mem_tasks hnote, rfl, h.isCancelled_eq_false hnote⟩
  rcases ht : r.token? e with _ | t
  · have hnil : (tasks.filter fun n => n.1 == e && !r.tokens.isCancelled n.2) = [] := by
      refine List.eq_nil_iff_forall_not_mem.mpr fun n hn => ?_
      rw [hmem, ht] at hn
      cases hn.2
    rw [hnil]
    rfl
  · have hone : (tasks.filter fun n => n.1 == e && !r.tokens.isCancelled n.2) = [(e, t)] := by
      refine List.perm_singleton.mp ?_
      refine (List.perm_ext_iff_of_nodup (h.tasks_nodup.filter _) (List.nodup_singleton _)).mpr ?_
      intro n
      rw [hmem, ht, List.mem_singleton, Option.some_inj, Prod.ext_iff]
      exact and_congr_right fun _ => eq_comm
    rw [hone]
    rfl

/-! ## What preserves it -/

/-- An entry comes under a fresh token, and a task is started under it. -/
theorem enter (h : Supervised r k tasks) {r' : Registry} (h' : r'.WellFormed) {e : Endpoint}
    (hnone : r.find? e = none) (hnotes : r'.notes = r.notes ++ [(e, r.tokens.issue.2)])
    (htokens : r'.tokens = r.tokens.issue.1) :
    Supervised r' (k.note e r.tokens.issue.2) (tasks ++ [(e, r.tokens.issue.2)]) := by
  have hissued : r'.tokens.issued = r.tokens.issued + 1 := by
    rw [htokens]
    rfl
  have hcancelled : r'.tokens.isCancelled = r.tokens.isCancelled := by
    rw [htokens]
    rfl
  -- The new token has a number that no task has.
  have hfresh : ∀ n ∈ tasks, n.2.serial ≠ r.tokens.issued :=
    fun n hn => Nat.ne_of_lt (h.tasks_issued n hn)
  exact {
    wellFormed := h'
    serials_nodup := by
      rw [hnotes, List.map_append, List.map_singleton, ← List.concat_eq_append]
      refine h.serials_nodup.concat fun hmem => ?_
      obtain ⟨n, hn, hserial⟩ := List.mem_map.mp hmem
      exact hfresh n (h.mem_tasks hn) hserial
    unissued_live := by
      intro t ht
      rw [hcancelled]
      exact h.unissued_live t (by omega)
    tasks_issued := by
      intro n hn
      rw [hissued]
      rcases List.mem_append.mp hn with hold | hnew
      · exact Nat.lt_succ_of_lt (h.tasks_issued n hold)
      · obtain rfl := List.mem_singleton.mp hnew
        exact Nat.lt_succ_self _
    tasks_nodup := by
      rw [← List.concat_eq_append]
      exact h.tasks_nodup.concat fun hmem => hfresh _ hmem rfl
    live_iff := by
      intro n hn
      rw [hcancelled, hnotes, List.mem_append, List.mem_singleton]
      rcases List.mem_append.mp hn with hold | hnew
      · rw [h.live_iff n hold]
        refine ⟨.inl, fun hnote => hnote.resolve_right fun heq => ?_⟩
        exact hfresh n hold (by rw [heq]; rfl)
      · obtain rfl := List.mem_singleton.mp hnew
        exact ⟨fun _ => .inr rfl, fun _ => h.unissued_live _ (Nat.le_refl _)⟩
    started_nodup := by
      rw [Knockers.note, List.map_append, List.map_singleton, ← List.concat_eq_append]
      refine (h.started_nodup.sublist (List.filter_sublist.map _)).concat fun hmem => ?_
      obtain ⟨n, hn, heq⟩ := List.mem_map.mp hmem
      have hother := (List.mem_filter.mp hn).2
      rw [heq] at hother
      simp at hother
    started_tasks := by
      intro n hn
      rcases List.mem_append.mp hn with hold | hnew
      · exact List.mem_append_left _ (h.started_tasks n (List.mem_filter.mp hold).1)
      · exact List.mem_append_right _ hnew
    noted := by
      intro n hn
      rw [hnotes] at hn
      rcases List.mem_append.mp hn with hold | hnew
      · refine List.mem_append_left _ (List.mem_filter.mpr ⟨h.noted n hold, ?_⟩)
        exact bne_iff_ne.mpr (Registry.ne_of_find?_eq_none hnone hold)
      · exact List.mem_append_right _ hnew }

/-- A CONNECT finds the knocker of its entry live, or finds no room, or starts one. -/
theorem connect (h : Supervised r k tasks) (now : Nat) (draw : Nat → PeerId) (e : Endpoint) :
    Supervised (r.register now draw e).1 (k.ensure (r.register now draw e).1 true e).1
      (tasks ++ k.launched (r.register now draw e).1 true e) := by
  -- Where nothing is begun all stays as it is.
  have hstays : k.ensure r true e = (k, false) →
      Supervised r (k.ensure r true e).1 (tasks ++ k.launched r true e) := by
    intro hensure
    rw [Knockers.launched_of_not_started hensure, hensure, List.append_nil]
    exact h
  have h' : (r.register now draw e).1.WellFormed := h.wellFormed.register now draw e
  obtain ⟨entry, hfind, heq⟩ | ⟨hnone, -, heq⟩ | ⟨hnone, -, heq⟩ := r.register_cases now draw e
  · rw [heq]
    refine hstays (Knockers.ensure_of_isLive true ?_)
    rw [h.isLive_eq, Registry.token?, hfind]
    rfl
  · rw [heq]
    exact hstays (Knockers.ensure_of_token?_eq_none true (Registry.token?_eq_none_iff.mpr hnone))
  · have hnotes : (r.register now draw e).1.notes = r.notes ++ [(e, r.tokens.issue.2)] := by
      rw [heq]
      exact List.map_append
    have htokens : (r.register now draw e).1.tokens = r.tokens.issue.1 := by
      rw [heq]
    have htoken : (r.register now draw e).1.token? e = some r.tokens.issue.2 := by
      rw [h'.token?_eq_some_iff, hnotes]
      exact List.mem_append_right _ List.mem_cons_self
    have hlive : (r.register now draw e).1.tokens.isCancelled r.tokens.issue.2 = false := by
      rw [htokens]
      exact h.unissued_live _ (Nat.le_refl _)
    -- There may be an old knocker of this endpoint, but it is not live.
    have hidle : k.isLive (r.register now draw e).1.tokens e = false := by
      have heq' := h.isLive_eq e
      rw [Registry.token?_eq_none_iff.mpr hnone] at heq'
      rw [htokens]
      exact heq'
    have hensure := Knockers.ensure_of_not_isLive htoken hlive hidle
    have hlaunched : k.launched (r.register now draw e).1 true e = [(e, r.tokens.issue.2)] := by
      rw [Knockers.launched, hensure, htoken]
      rfl
    rw [hensure, hlaunched]
    exact h.enter h' hnone hnotes htokens

/-- Entries go, and their tokens are cancelled. -/
theorem drop (h : Supervised r k tasks) {r' : Registry} {gone : RegistryEntry → Bool}
    (hdrops : r.Drops r' gone) (h' : r'.WellFormed) : Supervised r' k tasks := by
  have hserials : (r.entries.map (·.token.serial)).Nodup := by
    have hnodup := h.serials_nodup
    rwa [Registry.notes, List.map_map] at hnodup
  -- What is noted is what was noted and is not dropped.
  have hmem : ∀ n, n ∈ r'.notes ↔
      ∃ x ∈ r.entries, gone x = false ∧ (x.peer.endpoint, x.token) = n := by
    intro n
    rw [Registry.notes, hdrops.entries_eq, List.mem_map]
    simp only [List.mem_filter, Bool.not_eq_true', and_assoc]
  have hsub := hdrops.notes_sublist
  exact {
    wellFormed := h'
    serials_nodup := h.serials_nodup.sublist (hsub.map _)
    unissued_live := by
      intro t ht
      rw [hdrops.issued_eq] at ht
      rw [← Bool.not_eq_true, hdrops.isCancelled_iff]
      rintro (⟨x, hx, -, hserial⟩ | hcancelled)
      · have hlt := h.tasks_issued _ (h.mem_tasks (List.mem_map_of_mem hx))
        simp only at hlt
        omega
      · rw [h.unissued_live t ht] at hcancelled
        cases hcancelled
    tasks_issued := by
      intro n hn
      rw [hdrops.issued_eq]
      exact h.tasks_issued n hn
    tasks_nodup := h.tasks_nodup
    live_iff := by
      intro n hn
      rw [hmem, ← Bool.not_eq_true, hdrops.isCancelled_iff, not_or]
      constructor
      · rintro ⟨hkept, hlive⟩
        rw [Bool.not_eq_true] at hlive
        obtain ⟨x, hx, rfl⟩ := List.mem_map.mp ((h.live_iff n hn).mp hlive)
        refine ⟨x, hx, ?_, rfl⟩
        rw [← Bool.not_eq_true]
        exact fun hgone => hkept ⟨x, hx, hgone, rfl⟩
      · rintro ⟨x, hx, hgone, rfl⟩
        refine ⟨?_, ?_⟩
        · -- No entry that stays shares its token with one that goes.
          rintro ⟨y, hy, hgone', hserial⟩
          rw [List.inj_on_of_nodup_map hserials hx hy hserial, hgone'] at hgone
          cases hgone
        · rw [Bool.not_eq_true]
          exact h.isCancelled_eq_false (List.mem_map_of_mem hx)
    started_nodup := h.started_nodup
    started_tasks := h.started_tasks
    noted := fun n hn => h.noted n (hsub.mem hn) }

/-- What leaves notes and tokens as they are leaves the knockers in order. -/
theorem keep (h : Supervised r k tasks) {r' : Registry} (h' : r'.WellFormed)
    (hnotes : r'.notes = r.notes) (htokens : r'.tokens = r.tokens) : Supervised r' k tasks := by
  exact {
    wellFormed := h'
    serials_nodup := by
      rw [hnotes]
      exact h.serials_nodup
    unissued_live := by
      rw [htokens]
      exact h.unissued_live
    tasks_issued := by
      rw [htokens]
      exact h.tasks_issued
    tasks_nodup := h.tasks_nodup
    live_iff := by
      rw [htokens, hnotes]
      exact h.live_iff
    started_nodup := h.started_nodup
    started_tasks := h.started_tasks
    noted := by
      rw [hnotes]
      exact h.noted }

/-- A cancelled task clears its note, whoever is registered at its endpoint by then. -/
theorem reap (h : Supervised r k tasks) (e : Endpoint) :
    Supervised r (k.reap r.tokens e) tasks := by
  have hsub : (k.reap r.tokens e).started.Sublist k.started := List.filter_sublist
  refine ⟨h.wellFormed, h.serials_nodup, h.unissued_live, h.tasks_issued, h.tasks_nodup,
    h.live_iff, h.started_nodup.sublist (hsub.map _), fun n hn => h.started_tasks n (hsub.mem hn),
    fun n hn => List.mem_filter.mpr ⟨h.noted n hn, ?_⟩⟩
  rw [h.isCancelled_eq_false hn, Bool.and_false]
  rfl

end Supervised

/-! ## Runs -/

namespace Watch

/-- The token of an endpoint's entry. -/
def token? (w : Watch) (e : Endpoint) : Option Token := w.session.service.registry.token? e

/-- The invariant of a run. -/
def Supervises (w : Watch) : Prop :=
  Supervised w.session.service.registry w.session.service.knockers w.tasks

/-- At first there are neither entries nor tasks. -/
theorem supervises_start (config : ServiceConfig) : (start config).Supervises where
  wellFormed := Registry.wellFormed_empty config.maxPeers
  serials_nodup := List.nodup_nil
  unissued_live := fun t _ => Bool.and_false t.rooted
  tasks_issued := fun _ hn => absurd hn List.not_mem_nil
  tasks_nodup := List.nodup_nil
  live_iff := fun _ hn => absurd hn List.not_mem_nil
  started_nodup := List.nodup_nil
  started_tasks := fun _ hn => absurd hn List.not_mem_nil
  noted := fun _ hn => absurd hn List.not_mem_nil

/-- No step before the end of the service loses sight of a task. -/
theorem Supervises.step {w : Watch} (h : w.Supervises) {a : ServiceStep} (ha : a.Attended) :
    (w.step a).Supervises := by
  have h' : (w.session.step a).1.service.registry.WellFormed :=
    ServiceSession.wellFormed_step h.wellFormed a
  show Supervised (w.session.step a).1.service.registry (w.session.step a).1.service.knockers
    (w.tasks ++ w.session.launched a)
  cases ServiceSession.changes h.wellFormed a with
  | connects sender bytes running draw e heq hregistry hknockers hlaunched =>
    obtain rfl : running = true := by
      rw [heq] at ha
      exact ha
    rw [hknockers, hlaunched, hregistry]
    exact h.connect w.session.now draw e
  -- Nobody enters behind the back of the service.
  | enters e draw heq =>
    rw [heq] at ha
    exact ha.elim
  | drops gone hdrops hknockers hlaunched =>
    rw [hknockers, hlaunched, List.append_nil]
    exact h.drop hdrops h'
  | keeps hnotes htokens hknockers hlaunched =>
    rw [hknockers, hlaunched, List.append_nil]
    exact h.keep h' hnotes htokens
  | reaps e heq =>
    subst heq
    show Supervised _ _ (w.tasks ++ [])
    rw [List.append_nil]
    exact h.reap e
  | closes heq =>
    rw [heq] at ha
    exact ha.elim

/-- No run before the end of the service does. -/
theorem Supervises.run {w : Watch} (h : w.Supervises) {steps : List ServiceStep}
    (hsteps : ∀ a ∈ steps, a.Attended) : (w.run steps).Supervises := by
  induction steps generalizing w with
  | nil => exact h
  | cons a rest ih =>
    exact ih (h.step (hsteps a List.mem_cons_self))
      fun b hb => hsteps b (List.mem_cons_of_mem _ hb)

/-- Each registered endpoint has one live task, under its entry's token, and no other has any. -/
structure InStep (w : Watch) : Prop where
  isKnocking_iff : ∀ e, w.session.service.isKnocking e = true ↔ w.session.Knows e
  liveTasks_eq : ∀ e, w.liveTasks e = (w.token? e).toList
  noted : ∀ e t, w.token? e = some t → w.session.service.knockers.token? e = some t
  count_eq : w.session.service.knockerCount = w.session.peers.length

/-- Whoever is known has a token. -/
theorem knows_iff {w : Watch} {e : Endpoint} : w.session.Knows e ↔ (w.token? e).isSome = true := by
  rw [← not_iff_not, ServiceSession.not_knows_iff, Option.not_isSome_iff_eq_none]
  exact Registry.token?_eq_none_iff.symm

/-- Under supervision the live knockers are those of the entries, each with the token of its own. -/
theorem Supervises.inStep {w : Watch} (h : w.Supervises) : w.InStep := by
  refine ⟨fun e => ?_, h.filter_live_eq, fun e t ht => h.knockers_token? ht, ?_⟩
  · rw [knows_iff, Service.isKnocking, h.isLive_eq]
    rfl
  · -- The live knockers are the entries, in some order.
    have hperm : (w.session.service.knockers.started.filter fun n =>
        !w.session.service.registry.tokens.isCancelled n.2).Perm
          w.session.service.registry.notes := by
      refine (List.perm_ext_iff_of_nodup (h.started_nodup.of_map.filter _)
        h.serials_nodup.of_map).mpr fun n => ?_
      rw [List.mem_filter, Bool.not_eq_true']
      constructor
      · rintro ⟨hn, hlive⟩
        exact (h.live_iff n (h.started_tasks n hn)).mp hlive
      · exact fun hn => ⟨h.noted n hn, h.isCancelled_eq_false hn⟩
    rw [Service.knockerCount, Knockers.count, List.countP_eq_length_filter, hperm.length_eq,
      ServiceSession.peers, Registry.notes, List.length_map, Registry.length_peers]

/-- A token is cancelled once it is no longer the token of its entry. -/
theorem Supervises.isCancelled_of_ne {w : Watch} (h : w.Supervises) {steps : List ServiceStep}
    (hsteps : ∀ a ∈ steps, a.Attended) {e : Endpoint} {t : Token} (ht : w.token? e = some t)
    (hne : (w.run steps).token? e ≠ some t) :
    (w.run steps).session.tokens.isCancelled t = true := by
  have hrun := h.run hsteps
  have htask : (e, t) ∈ (w.run steps).tasks :=
    mem_tasks_run steps (h.mem_tasks (Registry.mem_notes_of_token? ht))
  rw [← Bool.not_eq_false]
  intro hlive
  exact hne (hrun.wellFormed.token?_eq_some_iff.mpr ((hrun.live_iff _ htask).mp hlive))

/-- An endpoint that is entered has a token that no task had before. -/
theorem Supervises.ne_of_entered {w : Watch} (h : w.Supervises) {steps : List ServiceStep}
    (hsteps : ∀ a ∈ steps, a.Attended) {e : Endpoint} {t : Token} (hnew : ¬ w.session.Knows e)
    (ht : (w.run steps).token? e = some t) {n : Endpoint × Token} (hn : n ∈ w.tasks) :
    n.2 ≠ t := by
  rintro rfl
  have hrun := h.run hsteps
  have hnote : (e, n.2) ∈ (w.run steps).session.service.registry.notes :=
    Registry.mem_notes_of_token? ht
  have hlive : (w.run steps).session.tokens.isCancelled n.2 = false :=
    hrun.isCancelled_eq_false (n := (e, n.2)) hnote
  -- The task is live in the end, so it is that of the entry, and it was live before.
  have hself : n ∈ (w.run steps).session.service.registry.notes :=
    (hrun.live_iff n (mem_tasks_run steps hn)).mp hlive
  have heq : n = (e, n.2) := List.inj_on_of_nodup_map hrun.serials_nodup hself hnote rfl
  have hbefore : w.session.tokens.isCancelled n.2 = false := by
    rw [← Bool.not_eq_true]
    intro hcancelled
    have hstays := (ServiceSession.keptBy_run h.wellFormed steps).token _ hcancelled
    rw [← session_run, hlive] at hstays
    cases hstays
  have hentry : n ∈ w.session.service.registry.notes := (h.live_iff n hn).mp hbefore
  rw [heq] at hentry
  refine hnew (knows_iff.mpr ?_)
  rw [token?, h.wellFormed.token?_eq_some_iff.mpr hentry]
  rfl

/-- Clean-ups concern no entry. -/
theorem token?_run_reap (w : Watch) (late : List Endpoint) (e : Endpoint) :
    (w.run (late.map .reap)).token? e = w.token? e := by
  induction late generalizing w with
  | nil => rfl
  | cons e' rest ih => exact ih (w.step (.reap e'))

/-! ## The end of the service -/

/-- Every token that is in use belongs to the root. -/
structure Rooted (w : Watch) : Prop where
  wellFormed : w.session.service.registry.WellFormed
  entries : ∀ n ∈ w.session.service.registry.notes, n.2.rooted = true
  started : ∀ n ∈ w.session.service.knockers.started, n.2.rooted = true
  tasks : ∀ n ∈ w.tasks, n.2.rooted = true

/-- At first there is no token at all. -/
theorem rooted_start (config : ServiceConfig) : (start config).Rooted where
  wellFormed := Registry.wellFormed_empty config.maxPeers
  entries := fun _ hn => absurd hn List.not_mem_nil
  started := fun _ hn => absurd hn List.not_mem_nil
  tasks := fun _ hn => absurd hn List.not_mem_nil

/-- A new token hangs from the root, as all the others do. -/
theorem Rooted.entries_register {w : Watch} (h : w.Rooted) (draw : Nat → PeerId) (e : Endpoint) :
    ∀ n ∈ (w.session.service.registry.register w.session.now draw e).1.notes,
      n.2.rooted = true := by
  intro n hn
  obtain hsame | ⟨hnotes, -⟩ :=
    w.session.service.registry.register_notes_cases w.session.now draw e
  · rw [hsame] at hn
    exact h.entries n hn
  · rw [hnotes] at hn
    rcases List.mem_append.mp hn with hold | hnew
    · exact h.entries n hold
    · obtain rfl := List.mem_singleton.mp hnew
      rfl

/-- Whatever happens, no other token comes into use. -/
theorem Rooted.step {w : Watch} (h : w.Rooted) (a : ServiceStep) : (w.step a).Rooted := by
  have h' := ServiceSession.wellFormed_step h.wellFormed a
  -- Where no task is begun the tasks are as before.
  have hkept : w.session.launched a = [] → ∀ n ∈ (w.step a).tasks, n.2.rooted = true := by
    intro hnil n hn
    refine h.tasks n ?_
    rw [Watch.step, hnil, List.append_nil] at hn
    exact hn
  cases ServiceSession.changes h.wellFormed a with
  | connects sender bytes running draw e heq hregistry hknockers hlaunched =>
    have hentries : ∀ n ∈ (w.session.step a).1.service.registry.notes, n.2.rooted = true := by
      rw [hregistry]
      exact h.entries_register draw e
    refine ⟨h', hentries, fun n hn => ?_, fun n hn => ?_⟩
    · have hn' : n ∈ (w.session.step a).1.service.knockers.started := hn
      rw [hknockers] at hn'
      exact (Knockers.mem_ensure (.inl hn')).elim (h.started n) (hentries n)
    · rcases List.mem_append.mp hn with hold | hnew
      · exact h.tasks n hold
      · rw [hlaunched] at hnew
        exact (Knockers.mem_ensure (.inr hnew)).elim (h.started n) (hentries n)
  | enters e draw heq =>
    subst heq
    exact ⟨h', h.entries_register draw e, h.started, hkept rfl⟩
  | drops gone hdrops hknockers hlaunched =>
    refine ⟨h', fun n hn => h.entries n (hdrops.notes_sublist.mem hn), ?_, hkept hlaunched⟩
    show ∀ n ∈ (w.session.step a).1.service.knockers.started, _
    rw [hknockers]
    exact h.started
  | keeps hnotes htokens hknockers hlaunched =>
    refine ⟨h', ?_, ?_, hkept hlaunched⟩
    · show ∀ n ∈ (w.session.step a).1.service.registry.notes, _
      rw [hnotes]
      exact h.entries
    · show ∀ n ∈ (w.session.step a).1.service.knockers.started, _
      rw [hknockers]
      exact h.started
  | reaps e heq =>
    subst heq
    exact ⟨h', h.entries, fun n hn => h.started n (List.mem_filter.mp hn).1, hkept rfl⟩
  | closes heq =>
    subst heq
    exact ⟨h', h.entries, fun n hn => absurd hn List.not_mem_nil, hkept rfl⟩

/-- In every run all tokens hang from the root. -/
theorem Rooted.run {w : Watch} (h : w.Rooted) (steps : List ServiceStep) :
    (w.run steps).Rooted := by
  induction steps generalizing w with
  | nil => exact h
  | cons a rest ih => exact ih (h.step a)

/-- No knocker and no task is live. -/
structure Ended (w : Watch) : Prop where
  count_eq : w.session.service.knockerCount = 0
  not_knocking : ∀ e, w.session.service.isKnocking e = false
  liveTasks_eq : ∀ e, w.liveTasks e = []

/-- Once the root is cancelled, all has ended. -/
theorem Rooted.ended {w : Watch} (h : w.Rooted) (hroot : w.session.tokens.rootCancelled = true) :
    w.Ended := by
  -- With the root every token that hangs from it is cancelled.
  refine ⟨List.countP_eq_zero.mpr fun n hn => ?_, fun e => ?_, fun e => ?_⟩
  · have hcancelled : w.session.tokens.isCancelled n.2 = true :=
      TokenPool.isCancelled_of_rooted hroot (h.started n hn)
    rw [Bool.not_eq_true, Bool.not_eq_false']
    exact hcancelled
  · rcases hk : w.session.service.knockers.token? e with _ | t
    · rw [Service.isKnocking, Knockers.isLive, hk]
    · obtain ⟨n, hfind, rfl⟩ := Option.map_eq_some_iff.mp hk
      have hcancelled : w.session.tokens.isCancelled n.2 = true :=
        TokenPool.isCancelled_of_rooted hroot (h.started n (List.mem_of_find?_eq_some hfind))
      rw [Service.isKnocking, Knockers.isLive_of_token? _ hk]
      exact congrArg not hcancelled
  · have hnil : (w.tasks.filter fun n => n.1 == e && !w.session.tokens.isCancelled n.2) = [] := by
      refine List.filter_eq_nil_iff.mpr fun n hn => ?_
      rw [TokenPool.isCancelled_of_rooted hroot (h.tasks n hn), Bool.not_true, Bool.and_false]
      exact Bool.false_ne_true
    rw [liveTasks, hnil]
    rfl

end Watch

/-- Let messages, sweeps and late clean-ups come in any order. Then each registered endpoint has one
live task, under its entry's token, and no other endpoint has any. A token that is no longer its
entry's is cancelled for good. An endpoint that is entered has a token that no task had before, and
no late clean-up takes its knocker away. After the end of the service no task is live any more. -/
theorem knockers_follow_entries (config : ServiceConfig) (steps later : List ServiceStep)
    (hsteps : ∀ a ∈ steps, a.Attended) (hlater : ∀ a ∈ later, a.Attended) :
    let w := (Watch.start config).run steps
    let w' := w.run later
    w.InStep ∧
      (∀ e t, w.token? e = some t → w'.token? e ≠ some t →
        ∀ more, (w'.run more).session.tokens.isCancelled t = true) ∧
      (∀ e t, ¬ w.session.Knows e → w'.token? e = some t →
        (∀ n ∈ w.tasks, n.2 ≠ t) ∧ w'.session.tokens.isCancelled t = false ∧
        ∀ late : List Endpoint,
          (w'.run (late.map .reap)).session.service.knockers.token? e = some t ∧
          (w'.run (late.map .reap)).session.service.isKnocking e = true) ∧
      ∀ more, (w.run (.close :: more)).Ended := by
  intro w w'
  have hw : w.Supervises := (Watch.supervises_start config).run hsteps
  have hw' : w'.Supervises := hw.run hlater
  refine ⟨hw.inStep, fun e t ht hne more => ?_, fun e t hnew ht => ⟨?_, ?_, fun late => ?_⟩,
    fun more => ?_⟩
  · rw [Watch.session_run]
    exact (ServiceSession.keptBy_run hw'.wellFormed more).token t
      (hw.isCancelled_of_ne hlater ht hne)
  · exact fun n hn => hw.ne_of_entered hlater hnew ht hn
  · exact hw'.isCancelled_eq_false (n := (e, t)) (Registry.mem_notes_of_token? ht)
  · -- Reaping late is one more run of the service.
    have hlate : ∀ a ∈ late.map ServiceStep.reap, a.Attended := by
      intro a ha
      obtain ⟨_, -, rfl⟩ := List.mem_map.mp ha
      trivial
    have hreaped : (w'.run (late.map .reap)).InStep := (hw'.run hlate).inStep
    have htoken : (w'.run (late.map .reap)).token? e = some t := by
      rw [Watch.token?_run_reap]
      exact ht
    refine ⟨hreaped.noted e t htoken, (hreaped.isKnocking_iff e).mpr (Watch.knows_iff.mpr ?_)⟩
    rw [htoken]
    rfl
  · -- After the end the root stays cancelled, and nothing is live under it.
    have hrooted : (w.step .close).Rooted := ((Watch.rooted_start config).run steps).step .close
    have hkept := ServiceSession.keptBy_run hrooted.wellFormed more
    refine (hrooted.run more).ended ?_
    rw [Watch.session_run]
    exact hkept.root w.session.rootCancelled_step_close

/-- A peer connects, leaves, and connects again before the task of its first entry has cleared its
note. -/
def returns : List ServiceStep :=
  [.receive ⟨.v4 ⟨10, 0, 0, 1⟩, 5000⟩ [3, 168, 202] true fun _ => ⟨7⟩,
    .receive ⟨.v4 ⟨10, 0, 0, 1⟩, 5000⟩ [2, 168, 202] true fun _ => ⟨7⟩]

/-- The second CONNECT, and then the late clean-up of the first task. -/
def returned : List ServiceStep :=
  [.receive ⟨.v4 ⟨10, 0, 0, 1⟩, 5000⟩ [3, 168, 202] true fun _ => ⟨9⟩,
    .reap ⟨.v4 ⟨10, 0, 0, 1⟩, 43210⟩]

/-- A peer that leaves and returns is knocked at under a new token, and after the end nobody is. -/
theorem knockers_follow_entries_returned :
    ((Watch.start ⟨5000, 30000, 5000, 2000, 16⟩).run returns).tasks =
        [(⟨.v4 ⟨10, 0, 0, 1⟩, 43210⟩, ⟨0, true⟩)] ∧
      (((Watch.start ⟨5000, 30000, 5000, 2000, 16⟩).run returns).run returned).token?
        ⟨.v4 ⟨10, 0, 0, 1⟩, 43210⟩ = some ⟨1, true⟩ ∧
      (((Watch.start ⟨5000, 30000, 5000, 2000, 16⟩).run returns).run
        returned).session.tokens.isCancelled ⟨1, true⟩ = false ∧
      (((Watch.start ⟨5000, 30000, 5000, 2000, 16⟩).run returns).run [.close]).Ended := by
  have hreturns : ∀ a ∈ returns, a.Attended := by simp [returns, ServiceStep.Attended]
  have hreturned : ∀ a ∈ returned, a.Attended := by simp [returned, ServiceStep.Attended]
  have htoken : (((Watch.start ⟨5000, 30000, 5000, 2000, 16⟩).run returns).run returned).token?
      ⟨.v4 ⟨10, 0, 0, 1⟩, 43210⟩ = some ⟨1, true⟩ := by decide +kernel
  obtain ⟨-, -, hnew, hend⟩ := knockers_follow_entries ⟨5000, 30000, 5000, 2000, 16⟩ returns
    returned hreturns hreturned
  exact ⟨by decide +kernel, htoken, (hnew _ _ (by decide +kernel) htoken).2.1, hend []⟩

end Ensemble
