import Mathlib.Algebra.Ring.Nat
import Superpose.Proofs.Bus.Traffic

/-!
# Conservation

The counters of a bus agree with its traffic (`Tallied`), and what was sent since the bus was made
or counts from 0 again is what was received, what expired, what was cleared and what is still
queued. Counters are words that wrap around, so each is first shown to be a count as a word; up to
2^64 calls the words are the counts.
-/

namespace Superpose.Bus

/-- Where counting begins. -/
inductive Beginning : Bus → Prop
  | new (s : Settings) : Beginning (.new s)
  | reset (b : Bus) : Beginning b.reset

theorem Beginning.queue_eq {b : Bus} (h : Beginning b) : b.queue = [] := by
  cases h <;> rfl

theorem Beginning.counters_eq {b : Bus} (h : Beginning b) : b.counters = {} := by
  cases h <;> rfl

/-- Whether somebody was refused because the queue was full. -/
def Answer.isOverflow : Answer → Bool
  | .refused (.queueFull _) => true
  | _ => false

/-! ## Counters -/

/-- The counters have moved on by what was moved. -/
structure Tallied (b : Bus) (f : Flow) (b' : Bus) : Prop where
  sent : b'.counters.sent = b.counters.sent + UInt64.ofNat f.posted.length
  received : b'.counters.received = b.counters.received + UInt64.ofNat f.received.length
  dropped : b'.counters.dropped = b.counters.dropped + UInt64.ofNat f.dropped
  expired : b'.counters.expired = b.counters.expired + UInt64.ofNat f.expired.length

theorem Tallied.refl (b : Bus) : Tallied b {} b := by
  constructor <;> simp [Flow.received]

theorem Tallied.trans {a b c : Bus} {f g : Flow} (hfirst : Tallied a f b)
    (hsecond : Tallied b g c) :
    Tallied a (f ++ g) c where
  sent := by
    rw [hsecond.sent, hfirst.sent, Flow.posted_append, List.length_append, UInt64.ofNat_add,
      UInt64.add_assoc]
  received := by
    rw [hsecond.received, hfirst.received, Flow.received_append, List.length_append,
      UInt64.ofNat_add, UInt64.add_assoc]
  dropped := by
    rw [hsecond.dropped, hfirst.dropped, Flow.dropped_append, UInt64.ofNat_add, UInt64.add_assoc]
  expired := by
    rw [hsecond.expired, hfirst.expired, Flow.expired_append, List.length_append, UInt64.ofNat_add,
      UInt64.add_assoc]

section Effect

variable {b b' : Bus} {c : Call} {answer : Answer} {f : Flow} (h : Effect b c answer f b')

include h

theorem Effect.tallied (hcounting : c.operation ≠ .reset) : Tallied b f b' := by
  cases h with
  | searched => constructor <;> simp [Flow.received]
  | reset hasked => exact absurd hasked hcounting
  | _ => constructor <;> simp [Flow.received, Bus.clear]

theorem Effect.dropped_eq : f.dropped = if answer.isOverflow then 1 else 0 := by
  cases h with
  | posted _ _ _ haccepted => rcases haccepted with rfl | rfl <;> rfl
  | _ => rfl

/-- A call moves at most one letter. -/
theorem Effect.posted_le_one : f.posted.length + f.dropped ≤ 1 := by
  cases h <;> simp

theorem Effect.queue_of_refused {fault : BusFault} (hrefused : answer = .refused fault) :
    b'.queue = b.queue := by
  cases h with
  | posted _ _ _ haccepted => rcases haccepted with rfl | rfl <;> cases hrefused
  | full | off => rfl
  | _ => cases hrefused

/-- A letter that is not refused stands at the end of the queue, for which there was room. -/
theorem Effect.queue_of_accepted {letter : Letter}
    (hasked : c.operation.letter? b.settings = some letter)
    (haccepted : ∀ fault, answer ≠ .refused fault) :
    b'.queue = b.queue ++ [letter.stamp b c.now] ∧
      b'.queue.length ≤ b.settings.capacity.toNat := by
  cases h with
  | @posted letter' _ _ hasked' _ hroom =>
    obtain rfl : letter = letter' := Option.some.inj (hasked.symm.trans hasked')
    refine ⟨rfl, ?_⟩
    simpa using Nat.succ_le_of_lt hroom
  | full | off => exact absurd rfl (haccepted _)
  | searched hother | unheard hother | aside hother | cleared hother | reset hother =>
    rw [hother] at hasked
    cases hasked

end Effect

/-! ## Sequences of calls -/

theorem tallied_traffic (b : Bus) {calls : List Call}
    (hcounting : ∀ c ∈ calls, c.operation ≠ .reset) :
    Tallied b (b.traffic calls) (b.performAll calls) :=
  traffic_induction Tallied.refl Tallied.trans fun c hc b => (c.effect b).tallied (hcounting c hc)

theorem dropped_traffic (b : Bus) (calls : List Call) :
    (b.traffic calls).dropped = (b.answers calls).countP Answer.isOverflow := by
  induction calls generalizing b with
  | nil => rfl
  | cons c calls ih =>
    rw [traffic, answers, Flow.dropped_append, List.countP_cons, ih, (c.effect b).dropped_eq,
      Nat.add_comm]

theorem posted_traffic_le (b : Bus) (calls : List Call) :
    (b.traffic calls).posted.length + (b.traffic calls).dropped ≤ calls.length := by
  induction calls generalizing b with
  | nil => exact Nat.le_refl 0
  | cons c calls ih =>
    have hfirst := (c.effect b).posted_le_one
    have hrest := ih (c.perform b).2
    simp only [traffic, Flow.posted_append, Flow.dropped_append, List.length_append,
      List.length_cons]
    omega

/-! ## The law of conservation -/

/-- What the counters and the queue show of a flow. -/
structure Balanced (f : Flow) (b : Bus) : Prop where
  sent : b.counters.sent.toNat = f.posted.length
  received : b.counters.received.toNat = f.received.length
  expired : b.counters.expired.toNat = f.expired.length
  dropped : b.counters.dropped.toNat = f.dropped
  perm : f.posted.Perm (f.received ++ f.expired ++ f.cleared ++ b.queue)

theorem balanced_traffic {start : Bus} (hbeginning : Beginning start) {calls : List Call}
    (hfew : calls.length < 2 ^ 64) (hcounting : ∀ c ∈ calls, c.operation ≠ .reset) :
    Balanced (start.traffic calls) (start.performAll calls) := by
  have htallied := tallied_traffic start hcounting
  have hperm := (carried_traffic start calls).perm
  have hmost := posted_traffic_le start calls
  rw [hbeginning.queue_eq, List.nil_append] at hperm
  have hlengths := hperm.length_eq
  simp only [Flow.gone, List.length_append] at hlengths
  have hword : ∀ n, n < 2 ^ 64 → (UInt64.ofNat n).toNat = n := fun n hn =>
    UInt64.toNat_ofNat_of_lt' hn
  obtain ⟨hsent, hreceived, hdropped, hexpired⟩ := htallied
  simp only [hbeginning.counters_eq, UInt64.zero_add] at hsent hreceived hdropped hexpired
  exact
    { sent := by rw [hsent, hword _ (by omega)]
      received := by rw [hreceived, hword _ (by omega)]
      expired := by rw [hexpired, hword _ (by omega)]
      dropped := by rw [hdropped, hword _ (by omega)]
      perm := hperm.symm }

/-- What holds after any calls since the bus was made or counts from 0 again, and of the next call:
what was sent is accounted for, what the full queue turned away was counted, a refusal leaves the
queue as it is, and a letter is only taken in if the queue stays within the capacity of that moment.
-/
theorem conservation {start : Bus} (hbeginning : Beginning start) {calls : List Call}
    (hfew : calls.length < 2 ^ 64) (hcounting : ∀ c ∈ calls, c.operation ≠ .reset) :
    let f := start.traffic calls
    let b := start.performAll calls
    Balanced f b ∧
      b.counters.sent.toNat =
        b.counters.received.toNat + b.counters.expired.toNat + b.queue.length + f.cleared.length ∧
      b.counters.dropped.toNat = (start.answers calls).countP Answer.isOverflow ∧
      (∀ (c : Call) (fault : BusFault), (c.perform b).1 = .refused fault →
        (c.perform b).2.queue = b.queue) ∧
      ∀ (c : Call) (letter : Letter), c.operation.letter? b.settings = some letter →
        (∀ fault, (c.perform b).1 ≠ .refused fault) →
        (c.perform b).2.queue = b.queue ++ [letter.stamp b c.now] ∧
          (c.perform b).2.queue.length ≤ b.settings.capacity.toNat := by
  intro f b
  have hbalanced : Balanced f b := balanced_traffic hbeginning hfew hcounting
  refine ⟨hbalanced, ?_, ?_, ?_, ?_⟩
  · have hlengths := hbalanced.perm.length_eq
    simp only [List.length_append] at hlengths
    have := hbalanced.sent
    have := hbalanced.received
    have := hbalanced.expired
    omega
  · rw [hbalanced.dropped, dropped_traffic]
  · exact fun c fault hrefused => (c.effect b).queue_of_refused hrefused
  · exact fun c letter hasked haccepted => (c.effect b).queue_of_accepted hasked haccepted

/-- The queue is full twice, the second time as the capacity was lowered below its length; one
message expires, one is cleared, and nothing is taken in while the bus is switched off. -/
def shortage : List Call :=
  [⟨0, .send 1 .hint [10] everybody⟩, ⟨0, .send 2 .hint [20] everybody⟩, ⟨1, .announce 3 [30] 7⟩,
    ⟨1, .configure { capacity := 1, maxAge := 5 }⟩, ⟨2, .send 1 .hint [11] 2⟩, ⟨2, .receive 1⟩,
    ⟨3, .configure { enabled := false }⟩, ⟨3, .send 3 .hint [31] 1⟩,
    ⟨4, .configure { capacity := 2, maxAge := 5 }⟩, ⟨9, .receive 2⟩, ⟨9, .announce 2 [21] 8⟩,
    ⟨9, .clear⟩, ⟨10, .send 1 .convergence [12] everybody⟩]

def short : Bus := (new { capacity := 2 }).performAll shortage

theorem conservation_shortage :
    shortage.length < 2 ^ 64 ∧ (∀ c ∈ shortage, c.operation ≠ .reset) ∧
      Balanced ((new { capacity := 2 }).traffic shortage) short ∧
      short.counters = { sent := 4, received := 1, dropped := 2, expired := 1 } ∧
      short.queue.length = 1 ∧ ((new { capacity := 2 }).traffic shortage).cleared.length = 1 ∧
      ((new { capacity := 2 }).answers shortage).countP Answer.isOverflow = 2 := by
  have hfew : shortage.length < 2 ^ 64 := by decide
  have hcounting : ∀ c ∈ shortage, c.operation ≠ .reset := by simp [shortage]
  have hlaw := conservation (.new { capacity := 2 }) hfew hcounting
  have hcounters : short.counters = { sent := 4, received := 1, dropped := 2, expired := 1 } := by
    decide +kernel
  have hoverflows : short.counters.dropped.toNat = 2 := by rw [hcounters]; rfl
  exact ⟨hfew, hcounting, hlaw.1, hcounters, by decide +kernel, by decide +kernel,
    hlaw.2.2.1.symm.trans hoverflows⟩

end Superpose.Bus
