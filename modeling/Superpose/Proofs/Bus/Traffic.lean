import Superpose.Proofs.Bus.Operation

/-!
# The traffic of a message bus

`Call.flow` tells which messages a call moves. It is read off the request and its answer, and the
queue is consulted only for what is thrown away. `Effect` is the one inversion of `Call.perform`,
and `Carried` says how the queues before and after a sequence of calls are related to its `traffic`:
nothing is lost or doubled, and what one sender posted stays in order.
-/

namespace Superpose.Bus

/-! ## What moves -/

/-- The messages that enter a queue and those that leave it. -/
structure Flow where
  posted : List Message := []
  /-- With their receivers. -/
  delivered : List (UInt32 × Message) := []
  expired : List Message := []
  cleared : List Message := []
  /-- How many letters found the queue full. -/
  dropped : Nat := 0

namespace Flow

instance : Append Flow where
  append f g :=
    { posted := f.posted ++ g.posted
      delivered := f.delivered ++ g.delivered
      expired := f.expired ++ g.expired
      cleared := f.cleared ++ g.cleared
      dropped := f.dropped + g.dropped }

@[simp] theorem posted_append (f g : Flow) : (f ++ g).posted = f.posted ++ g.posted := rfl

@[simp] theorem delivered_append (f g : Flow) :
    (f ++ g).delivered = f.delivered ++ g.delivered := rfl

@[simp] theorem expired_append (f g : Flow) : (f ++ g).expired = f.expired ++ g.expired := rfl

@[simp] theorem cleared_append (f g : Flow) : (f ++ g).cleared = f.cleared ++ g.cleared := rfl

@[simp] theorem dropped_append (f g : Flow) : (f ++ g).dropped = f.dropped + g.dropped := rfl

def received (f : Flow) : List Message := f.delivered.map Prod.snd

@[simp] theorem received_append (f g : Flow) : (f ++ g).received = f.received ++ g.received :=
  List.map_append

/-- The messages that left the queue. -/
def gone (f : Flow) : List Message := f.received ++ f.expired ++ f.cleared

end Flow

/-- What a call moves. Only clearing, and a search on a bus that is switched on, throw messages
away. -/
def Call.flow (c : Call) (b : Bus) : Flow :=
  match c.operation, (c.perform b).1 with
  | _, .refused .disabled => {}
  | _, .refused (.queueFull _) => { dropped := 1 }
  | .receive receiver, .handed message =>
    { delivered := message.toList.map (receiver, ·)
      expired := if b.settings.enabled then b.stale c.now else [] }
  | .clear, _ => { cleared := b.queue }
  | .reset, _ => { cleared := b.queue }
  | operation, _ => { posted := (operation.letter? b.settings).toList.map (·.stamp b c.now) }

/-- What a sequence of calls moves. -/
def traffic (b : Bus) : List Call → Flow
  | [] => {}
  | c :: calls => c.flow b ++ (c.perform b).2.traffic calls

/-! ## What a call can do -/

/-- All that a call can do: the answer, the flow and the bus it leaves. -/
inductive Effect (b : Bus) (c : Call) : Answer → Flow → Bus → Prop
  | posted {letter answer best} (hasked : c.operation.letter? b.settings = some letter)
      (hon : b.settings.enabled = true) (hroom : b.queue.length < b.settings.capacity.toNat)
      (haccepted : answer = .taken b.nextSerial ∨ answer = .done) :
      Effect b c answer { posted := [letter.stamp b c.now] }
        { b with
          queue := b.queue ++ [letter.stamp b c.now]
          best
          counters := { b.counters with sent := b.counters.sent + 1 }
          nextSerial := b.nextSerial + 1 }
  | full {letter best} (hasked : c.operation.letter? b.settings = some letter)
      (hon : b.settings.enabled = true) (hfull : b.settings.capacity.toNat ≤ b.queue.length) :
      Effect b c (.refused (.queueFull b.settings.capacity.toNat)) { dropped := 1 }
        { b with best, counters := { b.counters with dropped := b.counters.dropped + 1 } }
  | off {letter best} (hasked : c.operation.letter? b.settings = some letter)
      (hoff : b.settings.enabled = false) :
      Effect b c (.refused .disabled) {} { b with best }
  | searched {receiver message rest} (hasked : c.operation = .receive receiver)
      (hon : b.settings.enabled = true) (hhanded : Handed receiver (b.fresh c.now) message rest) :
      Effect b c (.handed message)
        { delivered := message.toList.map (receiver, ·), expired := b.stale c.now }
        { b with
          queue := rest
          counters :=
            { b.counters with
              received := b.counters.received + UInt64.ofNat message.toList.length
              expired := b.counters.expired + UInt64.ofNat (b.stale c.now).length } }
  | unheard {receiver} (hasked : c.operation = .receive receiver)
      (hoff : b.settings.enabled = false) : Effect b c (.handed none) {} b
  | aside {settings best helpful ignored} (hasked : c.operation.letter? b.settings = none) :
      Effect b c .done {}
        { b with settings, best, counters := { b.counters with helpful, ignored } }
  | cleared (hasked : c.operation = .clear) : Effect b c .done { cleared := b.queue } b.clear
  | reset (hasked : c.operation = .reset) : Effect b c .done { cleared := b.queue } b.reset

/-- The flow of a call that wants a letter queued shows in its answer. -/
theorem flow_of_asked {c : Call} {b : Bus} {letter : Letter}
    (hasked : c.operation.letter? b.settings = some letter) :
    c.flow b =
      match (c.perform b).1 with
      | .refused .disabled => {}
      | .refused (.queueFull _) => { dropped := 1 }
      | _ => { posted := [letter.stamp b c.now] } := by
  unfold Call.flow
  obtain ⟨now, operation⟩ := c
  cases operation with
  | send | announce | share =>
    cases (Call.perform _ b).1 with
    | refused fault => cases fault <;> rfl
    | _ => simp [hasked]
  | _ => cases hasked

theorem effect_of_sending {c : Call} {b : Bus} {letter : Letter} {best : Option Solution}
    {result : Except BusFault Nat × Bus} {accept : Nat → Answer}
    (hasked : c.operation.letter? b.settings = some letter)
    (hsending : Sending { b with best } c.now letter result)
    (hperformed : c.perform b = reply accept result)
    (haccepts : accept b.nextSerial = .taken b.nextSerial ∨ accept b.nextSerial = .done) :
    Effect b c (c.perform b).1 (c.flow b) (c.perform b).2 := by
  rw [flow_of_asked hasked, hperformed]
  cases hsending with
  | taken hon hroom =>
    rcases haccepts with haccepted | haccepted
    · simp only [reply, haccepted]
      exact .posted hasked hon hroom (.inl rfl)
    · simp only [reply, haccepted]
      exact .posted hasked hon hroom (.inr rfl)
  | full hon hfull => exact .full hasked hon hfull
  | off hoff => exact .off hasked hoff

section Performed

variable (b : Bus) (now : UInt64)

theorem effect_receive (receiver : UInt32) :
    let c : Call := ⟨now, .receive receiver⟩
    Effect b c (c.perform b).1 (c.flow b) (c.perform b).2 := by
  intro c
  have hasked : c.operation = .receive receiver := rfl
  have hreceiving := receiving b now receiver
  simp only [c, Call.flow, Call.perform]
  generalize b.receive now receiver = result at hreceiving ⊢
  cases hreceiving with
  | off hoff =>
    simp only [hoff, Bool.false_eq_true, ↓reduceIte]
    exact .unheard hasked hoff
  | searched hon hhanded =>
    simp only [hon, ↓reduceIte]
    exact .searched hasked hon hhanded

theorem effect_announce (sender : UInt32) (data : List UInt8) (quality : UInt32) :
    let c : Call := ⟨now, .announce sender data quality⟩
    Effect b c (c.perform b).1 (c.flow b) (c.perform b).2 := by
  intro c
  obtain ⟨best, hremembered⟩ := b.exists_remember_eq ⟨sender, quality, data⟩
  cases hbroadcast : b.settings.broadcast with
  | false =>
    have hasked : (Operation.announce sender data quality).letter? b.settings = none := by
      simp [Operation.letter?, hbroadcast]
    have hperformed : b.announce now sender data quality = (.ok (), { b with best }) := by
      simp [announce, hremembered, hbroadcast]
    simp only [c, Call.flow, Call.perform, hperformed, reply, hasked, Option.toList_none,
      List.map_nil]
    exact .aside hasked
  | true =>
    let letter : Letter := { sender, topic := .bestFound, payload := data, target := everybody }
    have hasked : c.operation.letter? b.settings = some letter := by
      simp [c, Operation.letter?, hbroadcast, letter]
    have hperformed := b.reply_announce now sender data quality hbroadcast
    rw [hremembered] at hperformed
    exact effect_of_sending hasked (sending _ now letter) hperformed (.inr rfl)

theorem effect_share (sender tag : UInt32) (data : List UInt8) :
    let c : Call := ⟨now, .share sender tag data⟩
    Effect b c (c.perform b).1 (c.flow b) (c.perform b).2 := by
  intro c
  cases hbroadcast : b.settings.broadcast with
  | false =>
    have hasked : (Operation.share sender tag data).letter? b.settings = none := by
      simp [Operation.letter?, hbroadcast]
    have hperformed : b.share now sender tag data = (.ok (), b) := by
      simp [share, hbroadcast]
    simp only [c, Call.flow, Call.perform, hperformed, reply, hasked, Option.toList_none,
      List.map_nil]
    exact .aside hasked
  | true =>
    let letter : Letter :=
      { sender, topic := .hint, payload := knowledgePayload tag data, target := everybody }
    have hasked : c.operation.letter? b.settings = some letter := by
      simp [c, Operation.letter?, hbroadcast, letter]
    have hperformed := b.reply_share now sender tag data hbroadcast
    exact effect_of_sending hasked (sending b now letter) hperformed (.inr rfl)

end Performed

theorem Call.effect (c : Call) (b : Bus) :
    Effect b c (c.perform b).1 (c.flow b) (c.perform b).2 := by
  obtain ⟨now, operation⟩ := c
  cases operation with
  | send sender topic payload target =>
    let letter : Letter := { sender, topic, payload, target }
    exact effect_of_sending rfl (sending b now letter) rfl (.inl rfl)
  | receive receiver => exact effect_receive b now receiver
  | announce sender data quality => exact effect_announce b now sender data quality
  | share sender tag data => exact effect_share b now sender tag data
  | configure | markHelpful | markIgnored => exact .aside rfl
  | clear => exact .cleared rfl
  | reset => exact .reset rfl

/-! ## What is carried over -/

/-- The messages of one sender. -/
def bySender (sender : UInt32) (messages : List Message) : List Message :=
  messages.filter fun m => m.sender = sender

@[simp] theorem bySender_nil (sender : UInt32) : bySender sender [] = [] := rfl

@[simp] theorem bySender_cons (sender : UInt32) (m : Message) (messages : List Message) :
    bySender sender (m :: messages) =
      if m.sender = sender then m :: bySender sender messages else bySender sender messages := by
  simp [bySender, List.filter_cons]

@[simp] theorem bySender_append (sender : UInt32) (first second : List Message) :
    bySender sender (first ++ second) = bySender sender first ++ bySender sender second :=
  List.filter_append first second

namespace Handed

variable {receiver : UInt32} {queue rest : List Message} {message : Option Message}

theorem perm (h : Handed receiver queue message rest) :
    (message.toList ++ rest).Perm queue := by
  cases h with
  | nothing => exact .refl _
  | message => simpa using List.perm_middle.symm

/-- With what expires, all of the queue is accounted for. -/
theorem perm_queue {b : Bus} {now : UInt64} (h : Handed receiver (b.fresh now) message rest) :
    (message.toList ++ b.stale now ++ rest).Perm b.queue := by
  have hsorted := perm_stale_fresh b now
  refine List.perm_iff_count.mpr fun m => ?_
  have htaken := h.perm.count_eq m
  have hparted := hsorted.count_eq m
  simp only [List.count_append] at htaken hparted ⊢
  omega

theorem sublist (h : Handed receiver queue message rest) : rest.Sublist queue := by
  cases h with
  | nothing => exact .refl _
  | message => exact (List.Sublist.refl _).append (List.sublist_cons_self _ _)

theorem foreign (h : Handed receiver queue message rest) :
    ∀ m ∈ message.toList, m.sender ≠ receiver := by
  cases h with
  | nothing => simp
  | message _ hforeign => simpa using hforeign

/-- Whom the receiver passed over is the receiver itself, so the message taken comes before all
others of its sender. -/
theorem bySender_eq (h : Handed receiver queue message rest) (sender : UInt32) :
    bySender sender (message.toList ++ rest) = bySender sender queue := by
  cases h with
  | nothing => simp
  | @message front m back hown hforeign =>
    by_cases hsent : m.sender = sender
    · have habsent : bySender sender front = [] := by
        refine List.filter_eq_nil_iff.mpr fun x hx => ?_
        simp only [decide_eq_true_eq, hown x hx]
        exact fun h => hforeign (hsent.trans h.symm)
      simp [habsent, hsent]
    · simp [hsent]

end Handed

/-- How a bus, what moves, and the bus thereafter are related. -/
structure Carried (b : Bus) (f : Flow) (b' : Bus) : Prop where
  /-- Nothing is lost and nothing is doubled. -/
  perm : (f.gone ++ b'.queue).Perm (b.queue ++ f.posted)
  kept : b'.queue.Sublist (b.queue ++ f.posted)
  ordered : ∀ sender, (bySender sender (f.received ++ b'.queue)).Sublist
    (bySender sender (b.queue ++ f.posted))
  foreign : ∀ x ∈ f.delivered, x.2.sender ≠ x.1
  increasing : f.posted.Pairwise fun m n => m.serial < n.serial
  numbers : ∀ m ∈ f.posted, b.nextSerial ≤ m.serial ∧ m.serial < b'.nextSerial
  next_le : b.nextSerial ≤ b'.nextSerial

namespace Carried

theorem refl (b : Bus) : Carried b {} b where
  perm := by simp [Flow.gone, Flow.received]
  kept := by simp
  ordered := by simp [Flow.received]
  foreign := by simp
  increasing := .nil
  numbers := by simp
  next_le := Nat.le_refl _

theorem trans {a b c : Bus} {f g : Flow} (hfirst : Carried a f b) (hsecond : Carried b g c) :
    Carried a (f ++ g) c where
  perm := by
    refine List.perm_iff_count.mpr fun m => ?_
    have hbefore := hfirst.perm.count_eq m
    have hafter := hsecond.perm.count_eq m
    simp only [Flow.gone, Flow.received_append, Flow.expired_append, Flow.cleared_append,
      Flow.posted_append, List.count_append] at hbefore hafter ⊢
    omega
  kept := by
    rw [Flow.posted_append, ← List.append_assoc]
    exact hsecond.kept.trans (hfirst.kept.append_right _)
  ordered sender := by
    have hbefore := hfirst.ordered sender
    have hafter := hsecond.ordered sender
    simp only [Flow.received_append, Flow.posted_append, bySender_append, List.append_assoc]
      at hbefore hafter ⊢
    rw [← List.append_assoc (bySender sender a.queue)]
    refine (hafter.append_left _).trans ?_
    rw [← List.append_assoc]
    exact hbefore.append_right _
  foreign x hx := by
    rw [Flow.delivered_append] at hx
    rcases List.mem_append.mp hx with hx | hx
    · exact hfirst.foreign x hx
    · exact hsecond.foreign x hx
  increasing := by
    refine List.pairwise_append.mpr ⟨hfirst.increasing, hsecond.increasing, fun m hm n hn => ?_⟩
    have := (hfirst.numbers m hm).2
    have := (hsecond.numbers n hn).1
    omega
  numbers m hm := by
    have := hfirst.next_le
    have := hsecond.next_le
    rw [Flow.posted_append] at hm
    rcases List.mem_append.mp hm with hm | hm
    · have := hfirst.numbers m hm
      omega
    · have := hsecond.numbers m hm
      omega
  next_le := Nat.le_trans hfirst.next_le hsecond.next_le

end Carried

theorem Effect.carried {b b' : Bus} {c : Call} {answer : Answer} {f : Flow}
    (h : Effect b c answer f b') : Carried b f b' := by
  cases h with
  | posted =>
    exact
      { Carried.refl b with
        perm := by simp [Flow.gone, Flow.received]
        kept := by simp
        ordered := by simp [Flow.received]
        increasing := List.pairwise_singleton ..
        numbers := by simp [Letter.stamp]
        next_le := Nat.le_succ _ }
  | full | off | unheard | aside => exact { Carried.refl b with }
  | @searched receiver message rest _ _ hhanded =>
    have hreceived : (message.toList.map (receiver, ·)).map Prod.snd = message.toList := by
      cases message <;> rfl
    exact
      { Carried.refl b with
        perm := by simpa [Flow.gone, Flow.received, hreceived] using hhanded.perm_queue
        kept := by simpa using hhanded.sublist.trans (b.fresh_sublist c.now)
        ordered := fun sender => by
          have hsame := hhanded.bySender_eq sender
          simp only [Flow.received, hreceived, hsame, List.append_nil]
          exact (b.fresh_sublist c.now).filter _
        foreign := by simpa using hhanded.foreign }
  | cleared | reset =>
    exact
      { Carried.refl b with
        perm := by simp [Flow.gone, Flow.received, Bus.clear, Bus.reset]
        kept := List.nil_sublist _
        ordered := fun sender => List.nil_sublist _ }

/-- What each call does, and two after each other if each of them does, a sequence of calls does. -/
theorem traffic_induction {R : Bus → Flow → Bus → Prop} (hstill : ∀ b, R b {} b)
    (hjoin : ∀ {a b c f g}, R a f b → R b g c → R a (f ++ g) c) {b : Bus} {calls : List Call}
    (hstep : ∀ c ∈ calls, ∀ b, R b (c.flow b) (c.perform b).2) :
    R b (b.traffic calls) (b.performAll calls) := by
  induction calls generalizing b with
  | nil => exact hstill b
  | cons c calls ih =>
    have hfirst := hstep c List.mem_cons_self b
    have hrest : R (c.perform b).2 _ _ := ih fun d hd => hstep d (List.mem_cons_of_mem c hd)
    exact hjoin hfirst hrest

theorem carried_traffic (b : Bus) (calls : List Call) :
    Carried b (b.traffic calls) (b.performAll calls) :=
  traffic_induction Carried.refl Carried.trans fun c _ b => (c.effect b).carried

end Superpose.Bus
