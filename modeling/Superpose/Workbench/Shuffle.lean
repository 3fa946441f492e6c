import Superpose.Forecast.Basic

/-!
# Shuffling on the workbench

The workbench shuffles with a stream of 32-bit words that a key of eight words determines. The
stream is cut into blocks of sixteen words; a block comes from mixing the key with the number of the
block in twelve rounds of additions, exclusive ors and rotations (ChaCha). Keys are spread out from
a seed of 64 bits by a congruential generator with permuted output.

`draw` gives every number below a bound the same chance, and `shuffle` exchanges every element of a
list, from the last one down, with one drawn among those that are not behind it. Nothing in the
library depends on this source of chance in particular.
-/

namespace Superpose.Workbench

namespace Shuffle

abbrev Key := Vector UInt32 8

/-- Sixteen words that are mixed with each other. -/
abbrev Block := Vector UInt32 16

def rotateLeft (x : UInt32) (n : UInt32) : UInt32 := (x <<< n) ||| (x >>> (32 - n))

/-- Adds one word of a block to another one, and mixes the sum into a third one by exclusive or and
rotation. -/
def mixStep (v : Block) (target addend mixed : Fin 16) (turn : UInt32) : Block :=
  let v := v.set target (v.get target + v.get addend)
  v.set mixed (rotateLeft (v.get mixed ^^^ v.get target) turn)

/-- Mixes four words of a block. -/
def quarterRound (v : Block) (a b c d : Fin 16) : Block :=
  let v := mixStep v a b d 16
  let v := mixStep v c d b 12
  let v := mixStep v a b d 8
  mixStep v c d b 7

/-- Mixes all words of a block, first by columns and then by diagonals. -/
def doubleRound (v : Block) : Block :=
  let v := quarterRound v 0 4 8 12
  let v := quarterRound v 1 5 9 13
  let v := quarterRound v 2 6 10 14
  let v := quarterRound v 3 7 11 15
  let v := quarterRound v 0 5 10 15
  let v := quarterRound v 1 6 11 12
  let v := quarterRound v 2 7 8 13
  quarterRound v 3 4 9 14

/-- The block before mixing: four constants, the key, and the number of the block in two words. -/
def seedBlock (key : Key) (number : Nat) : Block :=
  #v[0x61707865, 0x3320646e, 0x79622d32, 0x6b206574, key.get 0, key.get 1, key.get 2, key.get 3,
    key.get 4, key.get 5, key.get 6, key.get 7, UInt32.ofNat number,
    UInt32.ofNat (number / UInt32.size), 0, 0]

/-- How often a block is mixed by columns and diagonals. -/
def doubleRounds : Nat := 6

def block (key : Key) (number : Nat) : Block :=
  let seed := seedBlock key number
  Vector.zipWith (· + ·) (doubleRounds.repeat doubleRound seed) seed

def word (key : Key) (position : Nat) : UInt32 :=
  (block key (position / 16)).get (Fin.ofNat 16 position)

/-- One step of the congruential generator that spreads seeds. -/
def spreadStep (state : UInt64) : UInt64 := state * 6364136223846793005 + 11634580027462260723

/-- The word that a state of that generator gives: high bits, rotated by the highest ones. -/
def spreadWord (state : UInt64) : UInt32 :=
  let high := (((state >>> 18) ^^^ state) >>> 27).toUInt32
  let turn := (state >>> 59).toUInt32
  if turn = 0 then high else rotateLeft high (32 - turn)

/-- The state of that generator after a number of steps. -/
def spreadState (seed : UInt64) (steps : Nat) : UInt64 := steps.repeat spreadStep seed

def keyOfSeed (seed : UInt64) : Key :=
  Vector.ofFn fun i => spreadWord (spreadState seed (i + 1))

end Shuffle

/-- A stream of random words, and how far it was read. -/
structure Stream where
  key : Shuffle.Key
  position : Nat := 0
  deriving DecidableEq

namespace Stream

def ofSeed (seed : UInt64) : Stream := { key := Shuffle.keyOfSeed seed }

def next (s : Stream) : UInt32 × Stream :=
  (Shuffle.word s.key s.position, { s with position := s.position + 1 })

/-- The greatest low half of a product that is accepted: the bound, shifted up as far as it goes. -/
def zone (bound : Nat) : Nat := (bound <<< (31 - bound.log2)) - 1

/-- How many words the workbench tries before it takes one as it is. Each is accepted with a chance
of at least one half. -/
def tries : Nat := 64

/-- A number below a positive bound: the high half of the product of the bound and a random word, of
which those are tried again whose low half lies above the zone. -/
def drawBelow (bound : Nat) : (tries : Nat) → Stream → Nat × Stream
  | 0, s => (s.next.1.toNat * bound / UInt32.size, s.next.2)
  | tries + 1, s =>
    let product := s.next.1.toNat * bound
    if product % UInt32.size ≤ zone bound then (product / UInt32.size, s.next.2)
    else drawBelow bound tries s.next.2

/-- A number below a positive bound. -/
def draw (bound : Nat) (s : Stream) : Nat × Stream := drawBelow bound tries s

/-- Exchanges two elements, if both are there. -/
def exchange {β : Type} (xs : Array β) (i j : Nat) : Array β :=
  if h : i < xs.size ∧ j < xs.size then xs.swap i j h.1 h.2 else xs

/-- Exchanges each of the first elements, from `last` down, with one drawn among those that are not
behind it. -/
def shuffleFrom {β : Type} : (last : Nat) → Array β → Stream → Array β × Stream
  | 0, xs, s => (xs, s)
  | last + 1, xs, s =>
    let drawn := s.draw (last + 2)
    shuffleFrom last (exchange xs (last + 1) drawn.1) drawn.2

def shuffle {β : Type} (xs : List β) (s : Stream) : List β × Stream :=
  let shuffled := shuffleFrom (xs.length - 1) xs.toArray s
  (shuffled.1.toList, shuffled.2)

instance : Shuffler Stream := ⟨ofSeed, shuffle⟩

end Stream

end Superpose.Workbench
