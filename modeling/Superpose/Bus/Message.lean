/-!
# Messages

What qubits tell each other while they run. Every message that a bus takes in gets a serial number,
the sender's number and the time. A `hint` may carry a piece of knowledge: a tag in four bytes,
least significant byte first, and a block of fixed size behind it (`knowledgePayload`,
`knowledge?`).
-/

namespace Superpose.Bus

/-- What a message is about. -/
inductive Topic where
  | partialResult
  | bestFound
  | hint
  | convergence
  | abortBranch
  deriving DecidableEq, Inhabited

namespace Topic

def all : List Topic := [partialResult, bestFound, hint, convergence, abortBranch]

def name : Topic → String
  | partialResult => "PartialResult"
  | bestFound => "BestFound"
  | hint => "Hint"
  | convergence => "Convergence"
  | abortBranch => "AbortBranch"

def ofName? (s : String) : Option Topic := all.find? fun t => t.name == s

end Topic

/-- A message on a bus. -/
structure Message where
  /-- The number under which the bus took the message in. -/
  serial : Nat
  topic : Topic
  sender : UInt32
  /-- Whom it is meant for; delivery takes no notice of it. -/
  target : Int32
  time : UInt64
  priority : UInt32
  relevance : UInt32
  payload : List UInt8
  deriving DecidableEq

/-- The size of the block behind the tag of a piece of knowledge. -/
def knowledgeBlock : Nat := 256

/-- A tag as four bytes, least significant byte first. -/
def tagBytes (tag : UInt32) : List UInt8 :=
  [UInt8.ofNat tag.toNat, UInt8.ofNat (tag.toNat / 256), UInt8.ofNat (tag.toNat / 65536),
    UInt8.ofNat (tag.toNat / 16777216)]

def tagOfBytes (a b c d : UInt8) : UInt32 :=
  UInt32.ofNat (a.toNat + 256 * b.toNat + 65536 * c.toNat + 16777216 * d.toNat)

/-- The payload of a piece of knowledge: its tag and its first bytes, filled up with zeros to the
size of a block. -/
def knowledgePayload (tag : UInt32) (data : List UInt8) : List UInt8 :=
  tagBytes tag ++ data.take knowledgeBlock
    ++ List.replicate (knowledgeBlock - data.length) 0

def Message.knowledge? (m : Message) : Option (UInt32 × List UInt8) :=
  match m.topic, m.payload with
  | .hint, a :: b :: c :: d :: block => some (tagOfBytes a b c d, block)
  | _, _ => none

end Superpose.Bus
