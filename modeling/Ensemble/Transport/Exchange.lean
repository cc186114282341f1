import Ensemble.Address.Printer
import Ensemble.Message.Encode
import Ensemble.Text.Duration

/-!
# Outgoing exchanges

An exchange connects to a target, lets a handler write a request, closes its own side, reads the
reply to its end, and hands it to the same handler once. A `Remote` is the way in which the other
side behaves, and any of these stages may fail: connecting, writing the request, closing, reading.

At most `maxMessageSize` bytes of a reply are read. When the other side ends the connection, that is
the end of the reply and no failure; but a request that cannot be written is one, and a reply that
is not over in time is thrown away.
-/

namespace Ensemble

/-- What a handler makes of the bytes it was given: bytes to send back, and whether to send them. -/
structure Answer where
  wanted : Bool
  bytes : Bytes
  deriving DecidableEq, Repr

/-- No answer at all. -/
def Answer.none : Answer := ⟨false, []⟩

/-- The bytes that go out. -/
def Answer.sent (a : Answer) : Bytes := if a.wanted then a.bytes else []

/-- A handler over a state: what it makes of received bytes, and the state afterwards. -/
abbrev Handler (σ : Type) := σ → Bytes → σ × Answer

/-- Why the operating system did not do what was asked. -/
inductive SystemError where
  | connectionRefused
  | addressNotAvailable
  | isDirectory
  | unexpectedEof
  | connectionReset
  | connectionAborted
  | brokenPipe
  /-- Anything else, in the system's own words. -/
  | other (text : String)
  deriving DecidableEq, Repr

namespace SystemError

/-- The wording of a system error. -/
def message : SystemError → String
  | .connectionRefused => "Connection refused (os error 111)"
  | .addressNotAvailable => "Cannot assign requested address (os error 99)"
  | .isDirectory => "Is a directory (os error 21)"
  | .unexpectedEof => "unexpected end of file"
  | .connectionReset => "Connection reset by peer (os error 104)"
  | .connectionAborted => "Software caused connection abort (os error 103)"
  | .brokenPipe => "Broken pipe (os error 32)"
  | .other text => text

/-- Whether the error says no more than that the other side has ended the connection. -/
def endsConnection : SystemError → Bool
  | .unexpectedEof | .connectionReset | .connectionAborted | .brokenPipe => true
  | .connectionRefused | .addressNotAvailable | .isDirectory | .other _ => false

end SystemError

/-- Where writing to a connection fails: it takes so many more bytes, and then there is an error. -/
structure Cut where
  taken : Nat
  cause : SystemError
  deriving DecidableEq, Repr

/-- The bytes cannot be written whole. Where nothing is written, nothing fails. -/
def Cut.Stops (cut : Cut) (bytes : Bytes) : Prop := cut.taken < bytes.length

instance (cut : Cut) (bytes : Bytes) : Decidable (cut.Stops bytes) :=
  inferInstanceAs (Decidable (_ < _))

/-- How the other side replies once it has read the request. -/
inductive Reply where
  /-- It sends pieces and closes, within the time limit. -/
  | whole (pieces : List Bytes)
  /-- It sends some bytes within the time limit, and then there is an error. -/
  | broken (bytes : Bytes) (cause : SystemError)
  /-- It sends some bytes within the time limit, and is not done after `ms` milliseconds. -/
  | stalled (bytes : Bytes) (ms : Nat)
  deriving DecidableEq, Repr

/-- How the other side of an exchange behaves. -/
inductive Remote where
  /-- No connection can be made. -/
  | fails (cause : SystemError)
  /-- For `ms` milliseconds no connection comes about. -/
  | unreachable (ms : Nat)
  /-- The connection fails after some bytes of the request, or right behind it. -/
  | cutsOff (cut : Cut)
  /-- It reads the request to its end and replies. There may be an error in closing our side. -/
  | replies (closing : Option SystemError) (reply : Reply)
  deriving DecidableEq, Repr

namespace Remote

/-- It reads the request to its end, sends pieces, and closes. -/
def answers (pieces : List Bytes) : Remote := .replies none (.whole pieces)

/-- It reads the request, sends some bytes, and then neither sends nor closes for `ms`
milliseconds. -/
def stalls (bytes : Bytes) (ms : Nat) : Remote := .replies none (.stalled bytes ms)

/-- It reads the request, sends some bytes, and breaks the connection. -/
def resets (bytes : Bytes) : Remote := .replies none (.broken bytes .connectionReset)

/-- Nobody listens. -/
def refuses : Remote := .fails .connectionRefused

end Remote

/-- Why an exchange failed. -/
inductive TransportError where
  /-- Connecting or the reply took longer than `limit` milliseconds. -/
  | timeout (limit : Nat)
  | unreachable (cause : SystemError)
  deriving DecidableEq, Repr

/-- The wording of a failed exchange with `target`. -/
def TransportError.message (target : String) : TransportError → String
  | .timeout limit => s!"Zeitlimit ({Duration.render limit}) bei {target} ueberschritten"
  | .unreachable cause => s!"Peer {target} nicht erreichbar: {cause.message}"

/-- What an exchange did. -/
structure Exchange (σ : Type) where
  /-- The state of the handler afterwards. -/
  state : σ
  /-- What the handler was given, call by call. -/
  calls : List Bytes
  /-- What the other side read, if a connection came about. -/
  request : Option Bytes
  /-- How often the time limit for connecting was reported. -/
  timeouts : Nat
  /-- The milliseconds that went by. -/
  elapsed : Nat
  error : Option TransportError

namespace Exchange

/-- The reply is complete: its first bytes go to the handler, whose second answer goes nowhere. -/
def finish {σ : Type} (handler : Handler σ) (state : σ) (request reply : Bytes) (elapsed : Nat) :
    Exchange σ :=
  match reply.take maxMessageSize with
  | [] => ⟨state, [[]], some request, 0, elapsed, none⟩
  | bytes => ⟨(handler state bytes).1, [[], bytes], some request, 0, elapsed, none⟩

/-- The reply is lost. -/
def fail {σ : Type} (state : σ) (request : Bytes) (elapsed : Nat) (error : TransportError) :
    Exchange σ :=
  ⟨state, [[]], some request, 0, elapsed, some error⟩

/-- The request is written: read the reply. Once the buffer is full the reply is complete, however
long the other side stays and whatever becomes of the connection. -/
def receive {σ : Type} (handler : Handler σ) (limit : Nat) (state : σ) (request : Bytes) :
    Reply → Exchange σ
  | .whole pieces => finish handler state request pieces.flatten 0
  | .broken bytes cause =>
    if maxMessageSize ≤ bytes.length ∨ cause.endsConnection then
      finish handler state request bytes 0
    else fail state request 0 (.unreachable cause)
  | .stalled bytes ms =>
    if maxMessageSize ≤ bytes.length then finish handler state request bytes ms
    else fail state request ms (.timeout limit)

/-- Carry out an exchange with a time limit in milliseconds. -/
def run {σ : Type} (handler : Handler σ) (limit : Nat) (state : σ) : Remote → Exchange σ
  | .fails cause => ⟨state, [], none, 0, 0, some (.unreachable cause)⟩
  | .unreachable ms => ⟨state, [], none, 1, ms, some (.timeout limit)⟩
  | .cutsOff cut =>
    let (state, answer) := handler state []
    -- Whatever stops the request is a failure, an end of the connection as well.
    if cut.Stops answer.sent then
      fail state (answer.sent.take cut.taken) 0 (.unreachable cut.cause)
    else receive handler limit state answer.sent (.broken [] cut.cause)
  | .replies closing reply =>
    let (state, answer) := handler state []
    match closing.filter (!·.endsConnection) with
    | some cause => fail state answer.sent 0 (.unreachable cause)
    | none => receive handler limit state answer.sent reply

/-- Send bytes and take no notice of the reply. -/
def post (bytes : Bytes) (limit : Nat) (remote : Remote) : Exchange Unit :=
  let handler : Handler Unit := fun _ received =>
    ((), if received.isEmpty then ⟨true, bytes⟩ else Answer.none)
  run handler limit () remote

end Exchange

/-- Send bytes without waiting for a reply: what the other side reads. A failure is only logged, and
without a running scheduler nothing is sent at all. -/
def deliver (running : Bool) (bytes : Bytes) (limit : Nat) (remote : Remote) : Option Bytes :=
  if running then (Exchange.post bytes limit remote).request else none

end Ensemble
