import Superpose.Bus.Message
import Superpose.Fault.Basic
import Superpose.Time

/-!
# The message bus

A bounded queue on which qubits leave messages for each other. Whoever asks gets the oldest message
that somebody else sent and that is not too old. Beside the queue, and independently of it, the bus
remembers the best solution that was ever announced, and it counts what happened to its messages, in
counters that wrap around in every build.
-/

namespace Superpose

namespace Bus

/-- How a bus behaves. -/
structure Settings where
  /-- Whether messages are taken in and handed out at all. -/
  enabled : Bool := true
  /-- Whether announcements and knowledge are queued as messages. -/
  broadcast : Bool := true
  priority : UInt32 := 50
  /-- The age above which a message is thrown away; 0 keeps messages for ever. -/
  maxAge : UInt64 := 0
  capacity : UInt64 := 64
  deriving DecidableEq

/-- What happened to the messages of a bus. -/
structure Counters where
  sent : UInt64 := 0
  received : UInt64 := 0
  dropped : UInt64 := 0
  expired : UInt64 := 0
  helpful : UInt64 := 0
  ignored : UInt64 := 0
  deriving DecidableEq

/-- A solution that somebody announced. -/
structure Solution where
  qubit : UInt32
  quality : UInt32
  data : List UInt8
  deriving DecidableEq

def relevance : UInt32 := 75

def everybody : Int32 := -1

end Bus

/-- A queue of messages, the best solution announced, and counts of what happened. -/
structure Bus where
  settings : Bus.Settings := {}
  /-- The messages that nobody has taken yet, oldest first. -/
  queue : List Bus.Message := []
  best : Option Bus.Solution := none
  counters : Bus.Counters := {}
  nextSerial : Nat := 0
  deriving DecidableEq

namespace Bus

/-- Queues a message, and answers its serial number. A bus that is switched off refuses it, and so
does a full one, which counts it as dropped. -/
def send (b : Bus) (now : UInt64) (sender : UInt32) (topic : Topic) (payload : List UInt8)
    (target : Int32) : Except BusFault Nat × Bus :=
  if !b.settings.enabled then (.error .disabled, b)
  else if b.settings.capacity.toNat ≤ b.queue.length then
    (.error (.queueFull b.settings.capacity.toNat),
      { b with counters := { b.counters with dropped := b.counters.dropped + 1 } })
  else
    let message : Message :=
      { serial := b.nextSerial, topic, sender, target, time := now
        priority := b.settings.priority, relevance, payload }
    (.ok b.nextSerial,
      { b with
        queue := b.queue ++ [message]
        counters := { b.counters with sent := b.counters.sent + 1 }
        nextSerial := b.nextSerial + 1 })

/-- Whether a message is young enough to be kept. -/
def isLive (s : Settings) (now : UInt64) (m : Message) : Bool :=
  s.maxAge == 0 || decide (elapsed m.time now ≤ s.maxAge)

/-- Throws away the messages that are too old. -/
def expire (b : Bus) (now : UInt64) : Bus :=
  let live := b.queue.filter (isLive b.settings now)
  let expired := UInt64.ofNat (b.queue.length - live.length)
  { b with
    queue := live
    counters := { b.counters with expired := b.counters.expired + expired } }

/-- The first message of a queue that somebody else than the receiver sent, and the queue without
it. -/
def takeForeign (receiver : UInt32) : List Message → Option (Message × List Message)
  | [] => none
  | m :: ms =>
    if m.sender = receiver then
      (takeForeign receiver ms).map fun (found, rest) => (found, m :: rest)
    else some (m, ms)

/-- Hands out the oldest live message that the receiver did not send. -/
def receive (b : Bus) (now : UInt64) (receiver : UInt32) : Option Message × Bus :=
  if !b.settings.enabled then (none, b)
  else
    let b := b.expire now
    match takeForeign receiver b.queue with
    | none => (none, b)
    | some (message, rest) =>
      (some message,
        { b with
          queue := rest
          counters := { b.counters with received := b.counters.received + 1 } })

/-- Whether an announced solution of this quality is better than the best one so far. -/
def improves (best : Option Solution) (quality : UInt32) : Bool :=
  match best with
  | none => true
  | some s => decide (s.quality < quality)

/-- Remembers an announced solution if it is better than the best one so far. -/
def remember (b : Bus) (s : Solution) : Bus :=
  if improves b.best s.quality then { b with best := some s } else b

/-- Announces a solution: it is remembered if it is the best, and then queued for everybody. -/
def announce (b : Bus) (now : UInt64) (sender : UInt32) (data : List UInt8) (quality : UInt32) :
    Except BusFault Unit × Bus :=
  let b := b.remember ⟨sender, quality, data⟩
  if !b.settings.broadcast then (.ok (), b)
  else
    match b.send now sender .bestFound data everybody with
    | (.ok _, b) => (.ok (), b)
    | (.error fault, b) => (.error fault, b)

/-- Queues a piece of knowledge for everybody. -/
def share (b : Bus) (now : UInt64) (sender tag : UInt32) (data : List UInt8) :
    Except BusFault Unit × Bus :=
  if !b.settings.broadcast then (.ok (), b)
  else
    match b.send now sender .hint (knowledgePayload tag data) everybody with
    | (.ok _, b) => (.ok (), b)
    | (.error fault, b) => (.error fault, b)

/-- Who announced the best solution. -/
def converged (b : Bus) : Option UInt32 := b.best.map Solution.qubit

/-- Gives the bus new settings. -/
def configure (b : Bus) (s : Settings) : Bus := { b with settings := s }

/-- Counts a message as helpful. -/
def markHelpful (b : Bus) : Bus :=
  { b with counters := { b.counters with helpful := b.counters.helpful + 1 } }

/-- Counts a message as ignored. -/
def markIgnored (b : Bus) : Bus :=
  { b with counters := { b.counters with ignored := b.counters.ignored + 1 } }

/-- Throws away the queue and the best solution; the counts stay. -/
def clear (b : Bus) : Bus := { b with queue := [], best := none }

/-- Throws away the queue and the best solution and counts from 0 again. -/
def reset (b : Bus) : Bus := { b.clear with counters := {} }

end Bus

end Superpose
