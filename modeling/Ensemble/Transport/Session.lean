import Ensemble.Transport.Exchange

/-!
# One incoming session

A session reads blocks of at most `maxMessageSize` bytes and hands each of them to a handler as
one message; whatever the handler wants to send goes back before the next block is read. The
session ends when the client closes its side, when the connection breaks, when a reply cannot be
written, and when nothing comes for too long.

There is one buffer for the blocks and one for the replies, and both are used again for every block.
A `ReplyHandler` writes into the second one; whether it finds something there is up to the session.

* `take_input_fill` — the front of the buffer is the block that was read last.
-/

namespace Ensemble

/-- The blocks in which bytes are read. -/
def blocks (bytes : Bytes) : List Bytes :=
  if bytes.isEmpty then []
  else bytes.take maxMessageSize :: blocks (bytes.drop maxMessageSize)
termination_by bytes.length
decreasing_by
  cases bytes with
  | nil => simp_all
  | cons b rest => simp only [List.length_drop, List.length_cons, maxMessageSize]; omega

/-- What a session finds when it reads. -/
inductive Reading where
  /-- A block has come. If there is a cut, the reply to it gets no further. -/
  | received (bytes : Bytes) (cut : Option Cut)
  /-- The client has closed its side. -/
  | closed
  /-- Reading fails. -/
  | broken (cause : SystemError)
  /-- Nothing came for too long. -/
  | idle
  deriving DecidableEq, Repr

/-- A block has come, and the reply to it can be written. -/
@[match_pattern] abbrev Reading.block (bytes : Bytes) : Reading := .received bytes none

/-- How a session has ended, if it has. -/
inductive SessionEnd where
  /-- It goes on with the next block. -/
  | waiting
  | over
  | failed (error : TransportError)
  deriving DecidableEq, Repr

namespace SessionEnd

/-- An error by which the other side has ended the connection is no failure of the session. -/
def ofError (cause : SystemError) : SessionEnd :=
  if cause.endsConnection then .over else .failed (.unreachable cause)

/-- What a session comes to that finds no block to read. -/
def ofReadings : List Reading → SessionEnd
  | .closed :: _ | .idle :: _ => .over
  | .broken cause :: _ => ofError cause
  | .received _ _ :: _ | [] => .waiting

end SessionEnd

/-- The buffers of a session. -/
structure Buffers where
  /-- The last block, followed by what longer ones before it have left. -/
  input : Bytes
  /-- What the handler has written. -/
  reply : Bytes
  deriving DecidableEq, Repr

namespace Buffers

/-- The buffers at the beginning of a session. -/
def empty : Buffers := ⟨List.replicate maxMessageSize 0, []⟩

/-- Read a block into the front of one buffer, and clear the other one. -/
def fill (b : Buffers) (block : Bytes) : Buffers := ⟨block ++ b.input.drop block.length, []⟩

/-- The front of the buffer is the block that was read last. -/
@[simp] theorem take_input_fill (b : Buffers) (block : Bytes) :
    (b.fill block).input.take block.length = block := by
  simp [fill]

end Buffers

/-- A handler that is given a block and the content of the reply buffer; the answer holds the
content afterwards. -/
abbrev ReplyHandler (σ : Type) := σ → Bytes → Bytes → σ × Answer

/-- A handler that writes its answer at the end of the reply buffer. -/
def Handler.appending {σ : Type} (handler : Handler σ) : ReplyHandler σ := fun state block reply =>
  let (state, answer) := handler state block
  (state, { answer with bytes := reply ++ answer.bytes })

/-- What a session did. -/
structure Conversation (σ : Type) where
  /-- The state of the handler afterwards. -/
  state : σ
  buffers : Buffers
  /-- What the handler was given, call by call: a block and the content of the reply buffer. -/
  calls : List (Bytes × Bytes)
  /-- What went back to the client. -/
  written : Bytes
  ending : SessionEnd

/-- Handle what is read, up to the end of the session. -/
def serve {σ : Type} (handler : ReplyHandler σ) (state : σ) (buffers : Buffers) :
    List Reading → Conversation σ
  | .received bytes cut :: rest =>
    let buffers := buffers.fill bytes
    let block := buffers.input.take bytes.length
    let (next, answer) := handler state block buffers.reply
    let left := { buffers with reply := answer.bytes }
    match cut.filter (·.Stops answer.sent) with
    | some cut =>
      ⟨next, left, [(block, buffers.reply)], answer.sent.take cut.taken, .ofError cut.cause⟩
    | none =>
      let others := serve handler next left rest
      { others with
        calls := (block, buffers.reply) :: others.calls
        written := answer.sent ++ others.written }
  -- Nothing to read, or the end of the session.
  | rest => ⟨state, buffers, [], [], .ofReadings rest⟩

/-- One whole session: a client connects, sends bytes, and reads the replies to their end. -/
def converse {σ : Type} (handler : Handler σ) (state : σ) (bytes : Bytes) : Conversation σ :=
  serve handler.appending state Buffers.empty ((blocks bytes).map .block ++ [.closed])

end Ensemble
