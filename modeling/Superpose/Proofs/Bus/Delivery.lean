import Superpose.Proofs.Bus.Traffic

/-!
# Delivery

Each message that a bus takes in is delivered once at most, to somebody else than its sender and as
it was posted, and the messages of one sender come out in the order in which it posted them
(`Orderly`), whoever makes which calls at which times. A search finds the oldest message that the
receiver may have, throws away the stale ones and leaves the others as they are (`Served`).
-/

namespace Superpose.Bus

/-! ## Histories -/

/-- What can be seen of the deliveries of a bus from its traffic and from what is still queued. -/
structure Orderly (f : Flow) (b : Bus) : Prop where
  /-- No two messages are taken in under one number. -/
  numbered : f.posted.Pairwise fun m n => m.serial < n.serial
  /-- A message is delivered once at most, and is then no longer queued. -/
  once : (f.received ++ b.queue).Pairwise fun m n => m.serial ≠ n.serial
  foreign : ∀ x ∈ f.delivered, x.2.sender ≠ x.1
  /-- What is delivered was posted, with all its fields. -/
  unchanged : ∀ m ∈ f.received, m ∈ f.posted
  inOrder : ∀ sender, (bySender sender f.received).Sublist (bySender sender f.posted)

theorem Carried.orderly {b b' : Bus} {f : Flow} (h : Carried b f b') (hempty : b.queue = []) :
    Orderly f b' where
  numbered := h.increasing
  once := by
    have hperm := h.perm
    rw [hempty, List.nil_append] at hperm
    have hdistinct : f.posted.Pairwise fun m n => m.serial ≠ n.serial :=
      h.increasing.imp fun hless => Nat.ne_of_lt hless
    have hgone : (f.gone ++ b'.queue).Pairwise fun m n => m.serial ≠ n.serial :=
      hperm.symm.pairwise hdistinct fun hdiffer => Ne.symm hdiffer
    refine hgone.sublist (List.Sublist.append_right ?_ _)
    rw [Flow.gone, List.append_assoc]
    exact List.sublist_append_left _ _
  foreign := h.foreign
  unchanged m hm := by
    have hperm := h.perm
    rw [hempty, List.nil_append] at hperm
    exact hperm.subset (by simp [Flow.gone, hm])
  inOrder sender := by
    have hordered := h.ordered sender
    rw [hempty, List.nil_append, bySender_append] at hordered
    exact (List.sublist_append_left _ _).trans hordered

theorem increasing_queue (s : Settings) (calls : List Call) :
    ((new s).performAll calls).queue.Pairwise fun m n => m.serial < n.serial := by
  have hcarried := carried_traffic (new s) calls
  exact hcarried.increasing.sublist (by simpa [new] using hcarried.kept)

/-! ## Searches -/

/-- Whether a receiver may have a message. -/
def Eligible (b : Bus) (now : UInt64) (receiver : UInt32) (m : Message) : Prop :=
  m ∈ b.queue ∧ ¬ Stale b.settings now m ∧ m.sender ≠ receiver

/-- What a search finds and leaves. -/
structure Served (b : Bus) (now : UInt64) (receiver : UInt32) (message : Option Message)
    (b' : Bus) : Prop where
  none_iff : message = none ↔ ∀ m, ¬ b.Eligible now receiver m
  some_iff : ∀ m, message = some m ↔
    b.Eligible now receiver m ∧ ∀ n, b.Eligible now receiver n → m.serial ≤ n.serial
  rest : b'.queue = b.queue.filter fun m => ¬ Stale b.settings now m ∧ some m ≠ message

namespace Handed

variable {receiver : UInt32} {queue rest : List Message} {message : Option Message}

theorem none_iff (h : Handed receiver queue message rest) :
    message = none ↔ ∀ m ∈ queue, m.sender = receiver := by
  cases h with
  | nothing hown => simpa using hown
  | @message front m back _ hforeign =>
    simp only [reduceCtorEq, false_iff]
    exact fun hown => hforeign (hown m (by simp))

theorem mem {m : Message} (h : Handed receiver queue (some m) rest) :
    m ∈ queue ∧ m.sender ≠ receiver := by
  cases h with
  | message _ hforeign => exact ⟨by simp, hforeign⟩

theorem oldest {m n : Message} (h : Handed receiver queue (some m) rest)
    (hincreasing : queue.Pairwise fun m n => m.serial < n.serial) (hn : n ∈ queue)
    (hforeign : n.sender ≠ receiver) : n = m ∨ m.serial < n.serial := by
  cases h with
  | @message front _ back hown _ =>
    rcases List.mem_append.mp hn with hn | hn
    · exact absurd (hown n hn) hforeign
    · rcases List.mem_cons.mp hn with rfl | hn
      · exact .inl rfl
      · have hlater := (List.pairwise_append.mp hincreasing).2.1
        exact .inr ((List.pairwise_cons.mp hlater).1 n hn)

theorem some_iff (h : Handed receiver queue message rest)
    (hincreasing : queue.Pairwise fun m n => m.serial < n.serial) (m : Message) :
    message = some m ↔ (m ∈ queue ∧ m.sender ≠ receiver) ∧
      ∀ n, n ∈ queue ∧ n.sender ≠ receiver → m.serial ≤ n.serial := by
  cases message with
  | none =>
    have hown := h.none_iff.mp rfl
    simp only [reduceCtorEq, false_iff]
    rintro ⟨⟨hm, hforeign⟩, _⟩
    exact hforeign (hown m hm)
  | some found =>
    have hmem := h.mem
    simp only [Option.some.injEq]
    constructor
    · rintro rfl
      refine ⟨hmem, fun n hn => ?_⟩
      rcases h.oldest hincreasing hn.1 hn.2 with rfl | hless
      · exact Nat.le_refl _
      · exact Nat.le_of_lt hless
    · rintro ⟨hm, hleast⟩
      rcases h.oldest hincreasing hm.1 hm.2 with hsame | hless
      · exact hsame.symm
      · exact absurd (hleast found hmem) (Nat.not_le.mpr hless)

/-- As no two messages of a queue are the same, the rest is what differs from the message taken. -/
theorem rest_eq (h : Handed receiver queue message rest)
    (hincreasing : queue.Pairwise fun m n => m.serial < n.serial) :
    rest = queue.filter fun m => some m ≠ message := by
  cases h with
  | nothing => exact (List.filter_eq_self.mpr (by simp)).symm
  | @message front m back =>
    obtain ⟨_, hlater, hacross⟩ := List.pairwise_append.mp hincreasing
    have hbefore : m ∉ front := fun hm => Nat.lt_irrefl _ (hacross m hm m List.mem_cons_self)
    have hafter : m ∉ back := fun hm => Nat.lt_irrefl _ ((List.pairwise_cons.mp hlater).1 m hm)
    have hothers : ∀ messages : List Message, m ∉ messages →
        messages.filter (fun x => some x ≠ some m) = messages := fun messages habsent => by
      refine List.filter_eq_self.mpr fun x hx => ?_
      simpa using fun hsame : x = m => habsent (hsame ▸ hx)
    rw [List.filter_append, List.filter_cons_of_neg (by simp), hothers front hbefore,
      hothers back hafter]

end Handed

theorem mem_fresh {b : Bus} {now : UInt64} {m : Message} :
    m ∈ b.fresh now ↔ m ∈ b.queue ∧ ¬ Stale b.settings now m := by
  simp [fresh]

theorem served_receive {b : Bus} {now : UInt64} {receiver : UInt32}
    (hon : b.settings.enabled = true)
    (hincreasing : b.queue.Pairwise fun m n => m.serial < n.serial) :
    Served b now receiver (b.receive now receiver).1 (b.receive now receiver).2 := by
  have hreceiving := receiving b now receiver
  generalize b.receive now receiver = result at hreceiving ⊢
  cases hreceiving with
  | off hoff => rw [hon] at hoff; cases hoff
  | @searched message rest _ hhanded =>
    have hstill : (b.fresh now).Pairwise fun m n => m.serial < n.serial :=
      hincreasing.sublist (b.fresh_sublist now)
    have heligible : ∀ m, b.Eligible now receiver m ↔ m ∈ b.fresh now ∧ m.sender ≠ receiver :=
      fun m => by rw [mem_fresh, Eligible, and_assoc]
    refine ⟨?_, fun m => ?_, ?_⟩
    · rw [hhanded.none_iff]
      simp [heligible]
    · simp only [heligible]
      exact hhanded.some_iff hstill m
    · rw [hhanded.rest_eq hstill, fresh, List.filter_filter]
      simp [Bool.and_comm]

/-! ## A bus that is switched off -/

theorem receive_of_off {b : Bus} {now : UInt64} {receiver : UInt32}
    (hoff : b.settings.enabled = false) : b.receive now receiver = (none, b) := by
  have hreceiving := receiving b now receiver
  generalize b.receive now receiver = result at hreceiving ⊢
  cases hreceiving with
  | off => rfl
  | searched hon => rw [hoff] at hon; cases hon

/-- A bus that is switched off takes nothing in and loses only what is cleared. -/
theorem Effect.queue_of_off {b b' : Bus} {c : Call} {answer : Answer} {f : Flow}
    (h : Effect b c answer f b') (hoff : b.settings.enabled = false) :
    f.posted = [] ∧ b'.queue ++ f.cleared = b.queue := by
  cases h with
  | posted _ hon | full _ hon | searched _ hon => rw [hoff] at hon; cases hon
  | off | unheard | aside => exact ⟨rfl, List.append_nil _⟩
  | cleared | reset => exact ⟨rfl, List.nil_append _⟩

/-! ## The law of delivery -/

/-- What holds of a bus after any calls at any times, and of the next call: the deliveries so far
are orderly, a search is served with the oldest message that the receiver may have, and a bus that
is switched off delivers and throws away nothing. -/
theorem delivery (s : Settings) (calls : List Call) :
    let b := (new s).performAll calls
    Orderly ((new s).traffic calls) b ∧
      (∀ now receiver, b.settings.enabled = true →
        Served b now receiver (b.receive now receiver).1 (b.receive now receiver).2) ∧
      (∀ now receiver, b.settings.enabled = false → b.receive now receiver = (none, b)) ∧
      ∀ c : Call, b.settings.enabled = false →
        (c.flow b).posted = [] ∧ (c.perform b).2.queue ++ (c.flow b).cleared = b.queue := by
  intro b
  have horderly : Orderly ((new s).traffic calls) b :=
    (carried_traffic (new s) calls).orderly rfl
  have hincreasing : b.queue.Pairwise fun m n => m.serial < n.serial := increasing_queue s calls
  exact ⟨horderly, fun _ _ hon => served_receive hon hincreasing,
    fun _ _ hoff => receive_of_off hoff,
    fun c hoff => (c.effect b).queue_of_off hoff⟩

/-- Both receivers pass over what they sent themselves, nobody gets anything while the bus is
switched off, and the message of time 2 has become stale at time 14. -/
def interleaving : List Call :=
  [⟨0, .send 1 .hint [10] everybody⟩, ⟨1, .send 2 .convergence [20] 1⟩,
    ⟨2, .send 1 .abortBranch [11] everybody⟩, ⟨3, .receive 1⟩, ⟨4, .receive 2⟩,
    ⟨5, .configure { enabled := false, maxAge := 10 }⟩, ⟨6, .receive 2⟩,
    ⟨7, .configure { maxAge := 10 }⟩, ⟨13, .announce 3 [30] 7⟩, ⟨14, .receive 1⟩,
    ⟨14, .send 1 .partialResult [12] 2⟩, ⟨12, .send 2 .partialResult [21] 1⟩]

def interleaved : Bus := (new { maxAge := 10 }).performAll interleaving

def silenced : Bus :=
  (new { maxAge := 10 }).performAll (interleaving ++ [⟨16, .configure { enabled := false }⟩])

theorem delivery_interleaved :
    (((new { maxAge := 10 }).traffic interleaving).delivered.map fun x => (x.1, x.2.payload)) =
        [(1, [20]), (2, [10]), (1, [30])] ∧
      Orderly ((new { maxAge := 10 }).traffic interleaving) interleaved ∧
      (interleaved.settings.enabled = true ∧
        (interleaved.receive 15 1).1.map Message.payload = some [21] ∧
        Served interleaved 15 1 (interleaved.receive 15 1).1 (interleaved.receive 15 1).2) ∧
      silenced.settings.enabled = false ∧ silenced.queue.length = 2 ∧
        silenced.receive 17 2 = (none, silenced) :=
  have hlaw := delivery { maxAge := 10 } interleaving
  have hon : interleaved.settings.enabled = true := by decide +kernel
  have hoff : silenced.settings.enabled = false := by decide +kernel
  ⟨by decide +kernel, hlaw.1, ⟨hon, by decide +kernel, hlaw.2.1 15 1 hon⟩,
    hoff, by decide +kernel, (delivery { maxAge := 10 } _).2.2.1 17 2 hoff⟩

end Superpose.Bus
