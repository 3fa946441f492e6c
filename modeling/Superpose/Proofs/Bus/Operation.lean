import Superpose.Bus.Basic

/-!
# Calls of a message bus

What can be asked of a bus, as data. A `Call` carries the time that the clock shows when it is made,
so that nothing is assumed of the clock, which may stand still or be set back between two calls.
`Sending` and `Receiving` list what becomes of a letter that somebody wants to have queued and of a
search for a message; the other operations leave the queue alone or empty it.
-/

namespace Superpose.Bus

inductive Operation where
  | send (sender : UInt32) (topic : Topic) (payload : List UInt8) (target : Int32)
  | receive (receiver : UInt32)
  | announce (sender : UInt32) (data : List UInt8) (quality : UInt32)
  | share (sender tag : UInt32) (data : List UInt8)
  | configure (s : Settings)
  | markHelpful
  | markIgnored
  | clear
  | reset

/-- An operation and the time at which it is performed. -/
structure Call where
  now : UInt64
  operation : Operation

inductive Answer where
  | done
  /-- A message was taken in under this number. -/
  | taken (serial : Nat)
  | refused (fault : BusFault)
  | handed (message : Option Message)
  deriving DecidableEq

def reply {α : Type} (accept : α → Answer) : Except BusFault α × Bus → Answer × Bus
  | (.ok a, b) => (accept a, b)
  | (.error fault, b) => (.refused fault, b)

def Call.perform (c : Call) (b : Bus) : Answer × Bus :=
  match c.operation with
  | .send sender topic payload target => reply .taken (b.send c.now sender topic payload target)
  | .receive receiver =>
    let (message, b) := b.receive c.now receiver
    (.handed message, b)
  | .announce sender data quality => reply (fun _ => .done) (b.announce c.now sender data quality)
  | .share sender tag data => reply (fun _ => .done) (b.share c.now sender tag data)
  | .configure s => (.done, b.configure s)
  | .markHelpful => (.done, b.markHelpful)
  | .markIgnored => (.done, b.markIgnored)
  | .clear => (.done, b.clear)
  | .reset => (.done, b.reset)

/-- A bus that nobody has called yet. -/
def new (s : Settings) : Bus := { settings := s }

/-- The bus after a number of calls. -/
def performAll (b : Bus) : List Call → Bus
  | [] => b
  | c :: calls => (c.perform b).2.performAll calls

/-- What the callers are answered. -/
def answers (b : Bus) : List Call → List Answer
  | [] => []
  | c :: calls => (c.perform b).1 :: (c.perform b).2.answers calls

/-! ## Letters -/

/-- What a caller wants to have queued. -/
structure Letter where
  sender : UInt32
  topic : Topic
  payload : List UInt8
  target : Int32

/-- The letter that an operation tries to queue under these settings. -/
def Operation.letter? (s : Settings) : Operation → Option Letter
  | .send sender topic payload target => some { sender, topic, payload, target }
  | .announce sender data _ =>
    if s.broadcast then some { sender, topic := .bestFound, payload := data, target := everybody }
    else none
  | .share sender tag data =>
    if s.broadcast then
      some { sender, topic := .hint, payload := knowledgePayload tag data, target := everybody }
    else none
  | _ => none

/-- The message that a bus makes of a letter. -/
def Letter.stamp (l : Letter) (b : Bus) (now : UInt64) : Message where
  serial := b.nextSerial
  topic := l.topic
  sender := l.sender
  target := l.target
  time := now
  priority := b.settings.priority
  relevance := relevance
  payload := l.payload

/-- What becomes of a letter. -/
inductive Sending (b : Bus) (now : UInt64) (l : Letter) : Except BusFault Nat × Bus → Prop
  | taken (hon : b.settings.enabled = true)
      (hroom : b.queue.length < b.settings.capacity.toNat) :
      Sending b now l (.ok b.nextSerial,
        { b with
          queue := b.queue ++ [l.stamp b now]
          counters := { b.counters with sent := b.counters.sent + 1 }
          nextSerial := b.nextSerial + 1 })
  | full (hon : b.settings.enabled = true)
      (hfull : b.settings.capacity.toNat ≤ b.queue.length) :
      Sending b now l (.error (.queueFull b.settings.capacity.toNat),
        { b with counters := { b.counters with dropped := b.counters.dropped + 1 } })
  | off (hoff : b.settings.enabled = false) : Sending b now l (.error .disabled, b)

theorem sending (b : Bus) (now : UInt64) (l : Letter) :
    Sending b now l (b.send now l.sender l.topic l.payload l.target) := by
  unfold send
  cases hon : b.settings.enabled with
  | false => exact .off hon
  | true =>
    by_cases hfull : b.settings.capacity.toNat ≤ b.queue.length
    · simpa [hfull] using Sending.full hon hfull
    · have htaken : Sending b now l _ := .taken hon (Nat.not_le.mp hfull)
      simpa [hfull, Letter.stamp] using htaken

theorem reply_announce (b : Bus) (now : UInt64) (sender : UInt32) (data : List UInt8)
    (quality : UInt32) (hbroadcast : b.settings.broadcast = true) :
    reply (fun _ => .done) (b.announce now sender data quality) =
      reply (fun _ => .done)
        ((b.remember ⟨sender, quality, data⟩).send now sender .bestFound data everybody) := by
  have hkept : (b.remember ⟨sender, quality, data⟩).settings.broadcast = true := by
    unfold remember
    split <;> exact hbroadcast
  simp only [announce, hkept, Bool.not_true, Bool.false_eq_true, ↓reduceIte]
  split <;> simp [reply, *]

theorem reply_share (b : Bus) (now : UInt64) (sender tag : UInt32) (data : List UInt8)
    (hbroadcast : b.settings.broadcast = true) :
    reply (fun _ => .done) (b.share now sender tag data) =
      reply (fun _ => .done) (b.send now sender .hint (knowledgePayload tag data) everybody) := by
  simp only [share, hbroadcast, Bool.not_true, Bool.false_eq_true, ↓reduceIte]
  split <;> simp [reply, *]

theorem snd_reply {α : Type} (accept : α → Answer) (result : Except BusFault α × Bus) :
    (reply accept result).2 = result.2 := by
  obtain ⟨outcome, b⟩ := result
  cases outcome <;> rfl

theorem snd_announce (b : Bus) (now : UInt64) (sender : UInt32) (data : List UInt8)
    (quality : UInt32) (hbroadcast : b.settings.broadcast = true) :
    (b.announce now sender data quality).2 =
      ((b.remember ⟨sender, quality, data⟩).send now sender .bestFound data everybody).2 := by
  simpa only [snd_reply] using
    congrArg Prod.snd (b.reply_announce now sender data quality hbroadcast)

theorem snd_share (b : Bus) (now : UInt64) (sender tag : UInt32) (data : List UInt8)
    (hbroadcast : b.settings.broadcast = true) :
    (b.share now sender tag data).2 =
      (b.send now sender .hint (knowledgePayload tag data) everybody).2 := by
  simpa only [snd_reply] using congrArg Prod.snd (b.reply_share now sender tag data hbroadcast)

theorem exists_remember_eq (b : Bus) (s : Solution) : ∃ best, b.remember s = { b with best } := by
  unfold remember
  split
  · exact ⟨_, rfl⟩
  · exact ⟨b.best, rfl⟩

/-! ## Handing out -/

/-- Whether a message has reached an age at which the settings throw it away. -/
def Stale (s : Settings) (now : UInt64) (m : Message) : Prop :=
  0 < s.maxAge.toNat ∧ s.maxAge.toNat < now.toNat - m.time.toNat

instance (s : Settings) (now : UInt64) : DecidablePred (Stale s now) := fun _ =>
  inferInstanceAs (Decidable (_ ∧ _))

/-- The messages that a search throws away. -/
def stale (b : Bus) (now : UInt64) : List Message := b.queue.filter fun m => Stale b.settings now m

/-- The messages that a search looks through. -/
def fresh (b : Bus) (now : UInt64) : List Message :=
  b.queue.filter fun m => ¬ Stale b.settings now m

theorem toNat_elapsed (since now : UInt64) :
    (elapsed since now).toNat = now.toNat - since.toNat := by
  unfold elapsed
  split
  · next h => exact UInt64.toNat_sub_of_le _ _ h
  · next h =>
    rw [UInt64.le_iff_toNat_le] at h
    simp only [UInt64.toNat_zero]
    omega

theorem isLive_eq (s : Settings) (now : UInt64) (m : Message) :
    isLive s now m = decide (¬ Stale s now m) := by
  have hzero : s.maxAge = 0 ↔ s.maxAge.toNat = 0 := by
    simp [← UInt64.toNat_inj]
  rw [Bool.eq_iff_iff, decide_eq_true_eq]
  simp only [isLive, Bool.or_eq_true, beq_iff_eq, decide_eq_true_eq, hzero,
    UInt64.le_iff_toNat_le, toNat_elapsed]
  unfold Stale
  omega

theorem perm_stale_fresh (b : Bus) (now : UInt64) :
    (b.stale now ++ b.fresh now).Perm b.queue := by
  simpa [stale, fresh] using List.filter_append_perm (fun m => Stale b.settings now m) b.queue

theorem fresh_sublist (b : Bus) (now : UInt64) : (b.fresh now).Sublist b.queue :=
  List.filter_sublist

theorem expire_eq (b : Bus) (now : UInt64) :
    b.expire now =
      { b with
        queue := b.fresh now
        counters :=
          { b.counters with
            expired := b.counters.expired + UInt64.ofNat (b.stale now).length } } := by
  have hlive : b.queue.filter (isLive b.settings now) = b.fresh now :=
    List.filter_congr fun m _ => isLive_eq b.settings now m
  have hlengths : (b.stale now).length + (b.fresh now).length = b.queue.length := by
    simpa using (b.perm_stale_fresh now).length_eq
  have hdead : b.queue.length - (b.fresh now).length = (b.stale now).length := by omega
  simp only [expire, hlive, hdead]

/-- How a receiver takes from a queue: it passes over its own messages and takes the first one that
somebody else sent; the rest stay as they are. -/
inductive Handed (receiver : UInt32) : List Message → Option Message → List Message → Prop
  | nothing {queue} (hown : ∀ m ∈ queue, m.sender = receiver) : Handed receiver queue none queue
  | message {front m back} (hown : ∀ m ∈ front, m.sender = receiver)
      (hforeign : m.sender ≠ receiver) :
      Handed receiver (front ++ m :: back) (some m) (front ++ back)

theorem Handed.pass {receiver : UInt32} {m : Message} {queue rest : List Message}
    {message : Option Message} (hown : m.sender = receiver)
    (h : Handed receiver queue message rest) :
    Handed receiver (m :: queue) message (m :: rest) := by
  cases h with
  | nothing hall => exact .nothing (List.forall_mem_cons.mpr ⟨hown, hall⟩)
  | @message front first back hbefore hforeign =>
    have hpassed : ∀ x ∈ m :: front, x.sender = receiver := List.forall_mem_cons.mpr ⟨hown, hbefore⟩
    exact .message hpassed hforeign

/-- What `takeForeign` takes and leaves. -/
theorem handed_takeForeign (receiver : UInt32) (queue : List Message) :
    Handed receiver queue ((takeForeign receiver queue).map Prod.fst)
      (((takeForeign receiver queue).map Prod.snd).getD queue) := by
  induction queue with
  | nil => exact .nothing (by simp)
  | cons m queue ih =>
    by_cases hown : m.sender = receiver
    · have hpassed := ih.pass hown
      cases hfound : takeForeign receiver queue with
      | none => simpa [takeForeign, hown, hfound] using hpassed
      | some found => simpa [takeForeign, hown, hfound] using hpassed
    · have hfirst : Handed receiver ([] ++ m :: queue) (some m) ([] ++ queue) :=
        .message (by simp) hown
      simpa [takeForeign, hown] using hfirst

/-- What becomes of a search. -/
inductive Receiving (b : Bus) (now : UInt64) (receiver : UInt32) : Option Message × Bus → Prop
  | off (hoff : b.settings.enabled = false) : Receiving b now receiver (none, b)
  | searched {message rest} (hon : b.settings.enabled = true)
      (hhanded : Handed receiver (b.fresh now) message rest) :
      Receiving b now receiver (message,
        { b with
          queue := rest
          counters :=
            { b.counters with
              received := b.counters.received + UInt64.ofNat message.toList.length
              expired := b.counters.expired + UInt64.ofNat (b.stale now).length } })

theorem receiving (b : Bus) (now : UInt64) (receiver : UInt32) :
    Receiving b now receiver (b.receive now receiver) := by
  cases hon : b.settings.enabled with
  | false =>
    have hidle : b.receive now receiver = (none, b) := by simp [receive, hon]
    rw [hidle]
    exact .off hon
  | true =>
    have hhanded := handed_takeForeign receiver (b.fresh now)
    cases hfound : takeForeign receiver (b.fresh now) with
    | none =>
      rw [hfound] at hhanded
      simpa [receive, hon, expire_eq, hfound] using Receiving.searched hon hhanded
    | some found' =>
      obtain ⟨message, rest⟩ := found'
      rw [hfound] at hhanded
      simpa [receive, hon, expire_eq, hfound] using Receiving.searched hon hhanded

end Superpose.Bus
