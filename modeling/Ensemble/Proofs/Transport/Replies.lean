import Ensemble.Transport.Session

/-!
# What a session answers

A session keeps one buffer for what it reads and one for its replies. A short block leaves the end
of a longer one in the first, and a handler may leave in the second what it does not want to be
sent, or find it wanted and leave it empty. None of this is ever seen: every block is handed over
once, alone and with an empty buffer for the reply, and what goes back are the wanted replies, one
after the other. A reply that cannot be written ends the session: some first bytes of it may have
gone out, and nothing that comes afterwards is handed over.

* `ReplyHandler.answers`, `ReplyHandler.after` — a handler that is given one block after the other.
* `ReplyHandler.Lasts` — all the replies can be written.
* `serve_received`, `serve_stopped` — one block whose reply is written, and one whose reply is not.
* `serve_append` — a run of blocks whose replies are written.
* `ReplyHandler.lasts_or_stops` — otherwise there is a first reply that is not.
* `session_replies` — the blocks that are handed over, and the bytes that go back.
-/

namespace Ensemble

/-- A block that comes, and where writing the reply to it fails, if it does. -/
structure Turn where
  block : Bytes
  cut : Option Cut

/-- What the session finds when the block comes. -/
def Turn.reading (t : Turn) : Reading := .received t.block t.cut

/-- The reply can be written whole. -/
def Turn.Admits (t : Turn) (reply : Bytes) : Prop := ∀ cut ∈ t.cut, ¬ cut.Stops reply

namespace ReplyHandler

variable {σ : Type}

/-- What a handler makes of blocks one after the other, each with an empty buffer for its reply. -/
def answers (handler : ReplyHandler σ) (state : σ) : List Bytes → List Answer
  | [] => []
  | block :: rest => (handler state block []).2 :: answers handler (handler state block []).1 rest

/-- The state of a handler after blocks one after the other. -/
def after (handler : ReplyHandler σ) (state : σ) (blocks : List Bytes) : σ :=
  blocks.foldl (fun state block => (handler state block []).1) state

/-- What the handler has left in the buffer each time it wanted it to be sent, one
after the other. -/
def replies (handler : ReplyHandler σ) (state : σ) (blocks : List Bytes) : Bytes :=
  ((handler.answers state blocks).filter (·.wanted)).flatMap (·.bytes)

/-- All the replies can be written whole. -/
def Lasts (handler : ReplyHandler σ) (state : σ) : List Turn → Prop
  | [] => True
  | t :: rest =>
    t.Admits (handler state t.block []).2.sent ∧ Lasts handler (handler state t.block []).1 rest

variable {handler : ReplyHandler σ} {state : σ}

/-- While the connection is whole all the replies can be written. -/
theorem lasts_of_uncut (blocks : List Bytes) :
    handler.Lasts state (blocks.map fun block => ⟨block, none⟩) := by
  induction blocks generalizing state with
  | nil => trivial
  | cons block blocks ih => exact ⟨nofun, ih⟩

/-- Either all the replies can be written whole, or there is a first one that cannot. -/
theorem lasts_or_stops (handler : ReplyHandler σ) (state : σ) (turns : List Turn) :
    handler.Lasts state turns ∨
      ∃ earlier block cut later, turns = earlier ++ ⟨block, some cut⟩ :: later ∧
        handler.Lasts state earlier ∧
        cut.Stops (handler (handler.after state (earlier.map (·.block))) block []).2.sent := by
  induction turns generalizing state with
  | nil => exact .inl trivial
  | cons t turns ih =>
    by_cases hstops : ∃ cut ∈ t.cut, cut.Stops (handler state t.block []).2.sent
    · obtain ⟨block, _⟩ := t
      obtain ⟨cut, rfl, hstops⟩ := hstops
      exact .inr ⟨[], block, cut, turns, rfl, trivial, hstops⟩
    · have hadmits : t.Admits (handler state t.block []).2.sent :=
        fun cut hcut h => hstops ⟨cut, hcut, h⟩
      rcases ih (handler state t.block []).1 with hlasts | ⟨earlier, block, cut, later, rfl, h⟩
      · exact .inl ⟨hadmits, hlasts⟩
      · exact .inr ⟨t :: earlier, block, cut, later, rfl, ⟨hadmits, h.1⟩, h.2⟩

/-- What is sent are the replies that are wanted. -/
theorem flatMap_sent_answers (handler : ReplyHandler σ) (state : σ) (blocks : List Bytes) :
    (handler.answers state blocks).flatMap Answer.sent = handler.replies state blocks := by
  rw [replies]
  induction handler.answers state blocks with
  | nil => rfl
  | cons a rest ih =>
    obtain ⟨wanted, bytes⟩ := a
    cases wanted with
    | true => simp [Answer.sent, ih]
    | false => simp [Answer.sent, ih]

end ReplyHandler

/-- Nothing more is handed over: there is nothing to read yet, or the session ends here. -/
def Reading.Over : List Reading → Prop
  | .received _ _ :: _ => False
  | _ => True

/-- A block that fits leaves the buffer as large as it is. -/
theorem Buffers.length_input_fill {b : Buffers} {block : Bytes}
    (h : block.length ≤ b.input.length) : (b.fill block).input.length = b.input.length := by
  rw [fill, List.length_append, List.length_drop]
  omega

/-- The same conversation after some calls, and bytes that were written. -/
def Conversation.precede {σ : Type} (c : Conversation σ) (calls : List (Bytes × Bytes))
    (written : Bytes) : Conversation σ :=
  { c with calls := calls ++ c.calls, written := written ++ c.written }

section Serve

variable {σ : Type} (handler : ReplyHandler σ) (state : σ) (buffers : Buffers)

/-- Where the reading is over nothing more is served. -/
theorem serve_of_over {rest : List Reading} (h : Reading.Over rest) :
    serve handler state buffers rest = ⟨state, buffers, [], [], .ofReadings rest⟩ := by
  match rest, h with
  | [], _ | .closed :: _, _ | .broken _ :: _, _ | .idle :: _, _ => rfl

/-- A block is handed over alone, whatever stood in the buffers. If the reply can be written, the
session goes on. -/
theorem serve_received {t : Turn} (h : t.Admits (handler state t.block []).2.sent)
    (rest : List Reading) :
    serve handler state buffers (t.reading :: rest) =
      (serve handler (handler state t.block []).1
        ⟨(buffers.fill t.block).input, (handler state t.block []).2.bytes⟩ rest).precede
          [(t.block, [])] (handler state t.block []).2.sent := by
  have hwhole : t.cut.filter (·.Stops (handler state t.block []).2.sent) = none := by
    rw [Option.filter_eq_none_iff]
    exact fun cut hcut => by simpa using h cut hcut
  have hreply : (buffers.fill t.block).reply = [] := rfl
  simp only [Turn.reading, serve, Buffers.take_input_fill, hreply, hwhole]
  rfl

/-- While the connection is whole the session goes on. -/
theorem serve_block (block : Bytes) (rest : List Reading) :
    serve handler state buffers (.block block :: rest) =
      (serve handler (handler state block []).1
        ⟨(buffers.fill block).input, (handler state block []).2.bytes⟩ rest).precede
          [(block, [])] (handler state block []).2.sent :=
  serve_received handler state buffers (show Turn.Admits ⟨block, none⟩ _ from nofun) rest

/-- If the reply cannot be written whole, it is the last thing the session does. -/
theorem serve_stopped {block : Bytes} {cut : Cut}
    (h : cut.Stops (handler state block []).2.sent) (rest : List Reading) :
    serve handler state buffers (.received block (some cut) :: rest) =
      ⟨(handler state block []).1,
        ⟨(buffers.fill block).input, (handler state block []).2.bytes⟩, [(block, [])],
        (handler state block []).2.sent.take cut.taken, .ofError cut.cause⟩ := by
  have hcut : (some cut).filter (·.Stops (handler state block []).2.sent) = some cut := by
    rw [Option.filter_some, if_pos (by simpa using h)]
  have hreply : (buffers.fill block).reply = [] := rfl
  simp only [serve, Buffers.take_input_fill, hreply, hcut]

/-- Along blocks whose replies are written the buffers are carried on, and nothing
depends on them. -/
theorem serve_append {turns : List Turn} (h : handler.Lasts state turns) (rest : List Reading) :
    ∃ buffers', serve handler state buffers (turns.map (·.reading) ++ rest) =
        (serve handler (handler.after state (turns.map (·.block))) buffers' rest).precede
          (turns.map (·.block, [])) (handler.replies state (turns.map (·.block))) ∧
      ((∀ t ∈ turns, t.block.length ≤ buffers.input.length) →
        buffers'.input.length = buffers.input.length) := by
  rw [← handler.flatMap_sent_answers]
  -- Induction on the turns: each reply is written whole, and the rest is served from where it left.
  induction turns generalizing state buffers with
  | nil => exact ⟨buffers, rfl, fun _ => rfl⟩
  | cons t turns ih =>
    obtain ⟨hadmits, hlasts⟩ := h
    obtain ⟨buffers', hserve, hlen⟩ := ih (handler state t.block []).1
      ⟨(buffers.fill t.block).input, (handler state t.block []).2.bytes⟩ hlasts
    refine ⟨buffers', ?_, fun hfit => ?_⟩
    · rw [List.map_cons, List.cons_append, serve_received handler state buffers hadmits, hserve]
      simp only [Conversation.precede, List.map_cons, ReplyHandler.answers, List.flatMap_cons,
        List.cons_append, List.nil_append, List.append_assoc]
      rfl
    · have hfill := Buffers.length_input_fill (hfit t List.mem_cons_self)
      rw [hlen fun t' ht' => ?_, hfill]
      rw [hfill]
      exact hfit t' (List.mem_cons_of_mem t ht')

/-- If all the replies can be written, a session comes to its end after all the blocks. -/
theorem serve_of_lasts {turns : List Turn} (h : handler.Lasts state turns) {rest : List Reading}
    (hover : Reading.Over rest) :
    ∃ buffers', serve handler state buffers (turns.map (·.reading) ++ rest) =
        ⟨handler.after state (turns.map (·.block)), buffers', turns.map (·.block, []),
          handler.replies state (turns.map (·.block)), .ofReadings rest⟩ ∧
      ((∀ t ∈ turns, t.block.length ≤ buffers.input.length) →
        buffers'.input.length = buffers.input.length) := by
  obtain ⟨buffers', hserve, hlen⟩ := serve_append handler state buffers h rest
  rw [serve_of_over _ _ _ hover, Conversation.precede, List.append_nil, List.append_nil] at hserve
  exact ⟨buffers', hserve, hlen⟩

/-- While the connection is whole they can. -/
theorem serve_blocks (blocks : List Bytes) (rest : List Reading) (hover : Reading.Over rest) :
    ∃ buffers', serve handler state buffers (blocks.map .block ++ rest) =
      ⟨handler.after state blocks, buffers', blocks.map (·, []), handler.replies state blocks,
        .ofReadings rest⟩ := by
  obtain ⟨buffers', hserve, -⟩ :=
    serve_of_lasts handler state buffers (ReplyHandler.lasts_of_uncut blocks) hover
  have hblocks : (blocks.map fun block => (⟨block, none⟩ : Turn)).map (·.block) = blocks := by
    rw [List.map_map]
    exact List.map_id _
  rw [hblocks, List.map_map, List.map_map] at hserve
  exact ⟨buffers', hserve⟩

/-- The first reply that cannot be written whole is the last thing a session does. -/
theorem serve_of_stops {earlier : List Turn} (h : handler.Lasts state earlier) {block : Bytes}
    {cut : Cut}
    (hstops : cut.Stops (handler (handler.after state (earlier.map (·.block))) block []).2.sent)
    (later : List Turn) (rest : List Reading) :
    let last := handler (handler.after state (earlier.map (·.block))) block []
    let heard := earlier ++ [⟨block, some cut⟩]
    ∃ buffers',
      serve handler state buffers ((heard ++ later).map (·.reading) ++ rest) =
        ⟨last.1, buffers', heard.map (·.block, []),
          handler.replies state (earlier.map (·.block)) ++ last.2.sent.take cut.taken,
          .ofError cut.cause⟩ ∧
      ((∀ t ∈ heard, t.block.length ≤ buffers.input.length) →
        buffers'.input.length = buffers.input.length) := by
  intro last heard
  obtain ⟨buffers', hserve, hlen⟩ := serve_append handler state buffers h
    ((⟨block, some cut⟩ : Turn).reading :: (later.map (·.reading) ++ rest))
  rw [Turn.reading, serve_stopped _ _ _ hstops] at hserve
  -- What comes after the turn that fails is never read.
  have hreadings : (heard ++ later).map (·.reading) ++ rest =
      earlier.map (·.reading) ++
        .received block (some cut) :: (later.map (·.reading) ++ rest) := by
    simp [heard, Turn.reading]
  refine ⟨⟨(buffers'.fill block).input, last.2.bytes⟩, ?_, fun hfit => ?_⟩
  · rw [hreadings, hserve, Conversation.precede, List.map_append]
    rfl
  · have hearlier := hlen fun t ht => hfit t (List.mem_append_left _ ht)
    refine (Buffers.length_input_fill ?_).trans hearlier
    rw [hearlier]
    exact hfit ⟨block, some cut⟩ (by simp [heard])

end Serve

/-- However long a handler is given blocks that fit in the buffer, up to any end of the session, or
as far as it has got: it is called once for each block, in their order, with that block and an empty
buffer for the reply. What goes back is what it has left in that buffer each time it wanted it to be
sent, one after the other, and nothing else. This goes on to the end of the blocks or up to the
first reply that cannot be written whole: of that one some first bytes go back, the session ends,
and the blocks behind it are lost. Whatever the buffers hold at first, and whatever stands after the
end, makes no difference. -/
theorem session_replies {σ : Type} (handler : ReplyHandler σ) (state : σ) (buffers : Buffers)
    (turns : List Turn) (rest : List Reading) (hbuffer : buffers.input.length = maxMessageSize)
    (hturns : ∀ t ∈ turns, t.block.length ≤ maxMessageSize) (hover : Reading.Over rest) :
    let talk := serve handler state buffers (turns.map (·.reading) ++ rest)
    ∃ heard lost, turns = heard ++ lost ∧
      talk.calls = heard.map (·.block, []) ∧
      talk.state = handler.after state (heard.map (·.block)) ∧
      talk.buffers.input.length = maxMessageSize ∧
      (lost = [] ∧ handler.Lasts state heard ∧
          talk.written = handler.replies state (heard.map (·.block)) ∧
          talk.ending = .ofReadings rest ∨
        ∃ earlier block cut, heard = earlier ++ [⟨block, some cut⟩] ∧
          handler.Lasts state earlier ∧
          let reply := (handler (handler.after state (earlier.map (·.block))) block []).2.sent
          cut.Stops reply ∧
          talk.written = handler.replies state (earlier.map (·.block)) ++ reply.take cut.taken ∧
          talk.ending = .ofError cut.cause) := by
  -- Every reply goes out, or there is a first one that does not.
  rcases handler.lasts_or_stops state turns with
    hlasts | ⟨earlier, block, cut, later, hsplit, hlasts, hstops⟩
  · obtain ⟨buffers', hserve, hlen⟩ := serve_of_lasts handler state buffers hlasts hover
    intro talk
    have htalk : talk = _ := hserve
    rw [htalk]
    refine ⟨turns, [], (List.append_nil _).symm, rfl, rfl, ?_, .inl ⟨rfl, hlasts, rfl, rfl⟩⟩
    rw [hlen fun t ht => hbuffer ▸ hturns t ht, hbuffer]
  · have hturns_eq : turns = earlier ++ [⟨block, some cut⟩] ++ later := by simp [hsplit]
    obtain ⟨buffers', hserve, hlen⟩ :=
      serve_of_stops handler state buffers hlasts hstops later rest
    rw [← hturns_eq] at hserve
    intro talk
    have htalk : talk = _ := hserve
    rw [htalk]
    refine ⟨_, later, hturns_eq, rfl, ?_, ?_,
      .inr ⟨earlier, block, cut, rfl, hlasts, hstops, rfl, rfl⟩⟩
    · simp only [ReplyHandler.after, List.map_append, List.foldl_append]
      rfl
    · rw [hlen fun t ht => hbuffer ▸ hturns t (hturns_eq ▸ List.mem_append_left _ ht), hbuffer]

/-- A handler that leaves every block in the buffer, behind what it finds there. It wants the reply
to be sent unless the block begins with zero, and counts its calls. -/
def hoarder : ReplyHandler Nat := fun count block reply =>
  (count + 1, ⟨block.head? != some 0, reply ++ block⟩)

/-- A long block, one whose reply is not wanted, so that its cut is not reached, and a short one, of
whose reply one byte goes out. -/
def hoarderTurns : List Turn :=
  [⟨[1, 2, 3], none⟩, ⟨[0, 9], some ⟨1, .brokenPipe⟩⟩, ⟨[7, 8], some ⟨1, .brokenPipe⟩⟩,
    ⟨[5], none⟩]

/-- The replies to the first block and the first byte of the one to the third are sent, and the last
block is lost. -/
theorem session_replies_hoarder :
    let talk := serve hoarder 0 Buffers.empty (hoarderTurns.map (·.reading) ++ [.closed])
    talk.calls = [([1, 2, 3], []), ([0, 9], []), ([7, 8], [])] ∧ talk.written = [1, 2, 3, 7] ∧
      talk.state = 3 ∧ talk.ending = .over := by
  obtain ⟨heard, lost, hsplit, hcalls, hstate, -, hend⟩ := session_replies hoarder 0 Buffers.empty
    hoarderTurns [.closed] (List.length_replicate ..) (by decide) trivial
  rcases hend with ⟨rfl, hlasts, -, -⟩ |
    ⟨earlier, block, cut, rfl, hlasts, hstops, hwritten, hending⟩
  · -- The reply to the third block cannot be written.
    rw [List.append_nil] at hsplit
    subst hsplit
    exact absurd (by decide) (hlasts.2.2.1 ⟨1, .brokenPipe⟩ rfl)
  · match earlier, hsplit with
    | [], hsplit => cases hsplit
    | [first], hsplit =>
      -- Of a reply that is not wanted nothing is written, so the cut is not reached.
      cases hsplit
      exact absurd hstops (by decide)
    | [first, second], hsplit =>
      cases hsplit
      exact ⟨hcalls, hwritten, hstate, hending⟩
    | [first, second, third], hsplit => cases hsplit
    | first :: second :: third :: fourth :: rest, hsplit => simp [hoarderTurns] at hsplit

end Ensemble
