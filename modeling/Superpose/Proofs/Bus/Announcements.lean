import Superpose.Proofs.Bus.Operation
import Superpose.Proofs.Choice.Greatest

/-!
# The best solution announced

A bus remembers one solution beside its queue. What a call makes of it depends on nothing but the
operation and the solution remembered so far (`Call.best_perform`): neither the settings nor the
queue, nor what becomes of the message, have a say in it. So the solution that is remembered after
any calls is known from the announcements alone, of which it is the first of greatest quality
(`holds_performAll`).
-/

namespace Superpose.Bus

open Choice

/-! ## What is announced -/

/-- The solution that an operation announces. -/
def Operation.solution? : Operation → Option Solution
  | .announce sender data quality => some ⟨sender, quality, data⟩
  | _ => none

/-- Whether an operation makes the bus forget the best solution. -/
def Operation.forgets : Operation → Bool
  | .clear | .reset => true
  | _ => false

/-- The solutions announced since the last one was forgotten, after an operation. -/
def Operation.hear (op : Operation) (heard : List Solution) : List Solution :=
  if op.forgets then [] else heard ++ op.solution?.toList

/-- The solutions announced since a bus was made, or since it was last cleared or reset. -/
def announced (calls : List Call) : List Solution :=
  calls.foldl (fun heard c => c.operation.hear heard) []

/-- Of some solutions announced one after the other, the first of greatest quality. -/
def Winner (heard : List Solution) (s : Solution) : Prop :=
  ∃ i, Foremost (fun _ s => (s.quality.toNat : Int)) heard i s

/-- The solution that a bus should remember of those that it has heard. -/
inductive Holds (heard : List Solution) : Option Solution → Prop
  | nothing (hsilent : heard = []) : Holds heard none
  | solution {s : Solution} (hwinner : Winner heard s) : Holds heard (some s)

theorem Winner.eq {heard : List Solution} {s t : Solution} (h : Winner heard s)
    (h' : Winner heard t) : s = t := by
  obtain ⟨i, hfirst⟩ := h
  obtain ⟨j, hfirst'⟩ := h'
  have hhere := hfirst.here
  rw [hfirst.index_eq hfirst', hfirst'.here] at hhere
  exact (Option.some.inj hhere).symm

theorem Winner.ne_nil {heard : List Solution} {s : Solution} (h : Winner heard s) : heard ≠ [] := by
  obtain ⟨i, hfirst⟩ := h
  exact List.ne_nil_of_mem (List.mem_of_getElem? hfirst.here)

theorem Holds.eq_none_iff {heard : List Solution} {best : Option Solution} (h : Holds heard best) :
    best = none ↔ heard = [] := by
  cases h with
  | nothing hsilent => simpa using hsilent
  | solution hwinner => simpa using hwinner.ne_nil

theorem Holds.eq_some_iff {heard : List Solution} {best : Option Solution} (h : Holds heard best)
    {s : Solution} : best = some s ↔ Winner heard s := by
  cases h with
  | nothing hsilent => simpa using fun hwinner : Winner heard s => hwinner.ne_nil hsilent
  | solution hwinner =>
    rw [Option.some.injEq]
    exact ⟨fun hsame => hsame ▸ hwinner, fun hwinner' => hwinner.eq hwinner'⟩

theorem Holds.unique {heard : List Solution} {best best' : Option Solution} (h : Holds heard best)
    (h' : Holds heard best') : best = best' := by
  refine Option.ext fun s => ?_
  rw [h.eq_some_iff, h'.eq_some_iff]

/-! ## What is remembered -/

/-- The better one of a solution that is remembered and one that is announced. -/
def better (best : Option Solution) (s : Solution) : Option Solution :=
  if improves best s.quality then some s else best

/-- What an operation makes of the solution that is remembered. -/
def Operation.revise (op : Operation) (best : Option Solution) : Option Solution :=
  if op.forgets then none else (op.solution?.map (better best)).getD best

theorem best_remember (b : Bus) (s : Solution) : (b.remember s).best = better b.best s := by
  unfold remember better
  split <;> rfl

theorem best_send (b : Bus) (now : UInt64) (l : Letter) :
    (b.send now l.sender l.topic l.payload l.target).2.best = b.best := by
  have hsending := sending b now l
  generalize b.send now l.sender l.topic l.payload l.target = result at hsending ⊢
  cases hsending <;> rfl

theorem best_receive (b : Bus) (now : UInt64) (receiver : UInt32) :
    (b.receive now receiver).2.best = b.best := by
  have hreceiving := receiving b now receiver
  generalize b.receive now receiver = result at hreceiving ⊢
  cases hreceiving <;> rfl

/-- Whether or not a broadcast is suppressed or its message taken in, the best solution stays. -/
theorem best_share (b : Bus) (now : UInt64) (sender tag : UInt32) (data : List UInt8) :
    (b.share now sender tag data).2.best = b.best := by
  cases hbroadcast : b.settings.broadcast with
  | false => simp [share, hbroadcast]
  | true =>
    rw [b.snd_share now sender tag data hbroadcast]
    exact b.best_send now ⟨sender, .hint, knowledgePayload tag data, everybody⟩

theorem best_announce (b : Bus) (now : UInt64) (sender : UInt32) (data : List UInt8)
    (quality : UInt32) :
    (b.announce now sender data quality).2.best = better b.best ⟨sender, quality, data⟩ := by
  rw [← best_remember]
  cases hbroadcast : b.settings.broadcast with
  | false =>
    obtain ⟨best, hkept⟩ := b.exists_remember_eq ⟨sender, quality, data⟩
    simp [announce, hkept, hbroadcast]
  | true =>
    rw [b.snd_announce now sender data quality hbroadcast]
    exact (b.remember _).best_send now ⟨sender, .bestFound, data, everybody⟩

/-- **What is remembered after a call** depends on the operation and on what was remembered before,
and on nothing else. -/
theorem Call.best_perform (c : Call) (b : Bus) :
    (c.perform b).2.best = c.operation.revise b.best := by
  obtain ⟨now, operation⟩ := c
  cases operation with
  | send sender topic payload target =>
    rw [perform, snd_reply]
    exact b.best_send now ⟨sender, topic, payload, target⟩
  | receive receiver => exact b.best_receive now receiver
  | announce sender data quality =>
    rw [perform, snd_reply]
    exact b.best_announce now sender data quality
  | share sender tag data =>
    rw [perform, snd_reply]
    exact b.best_share now sender tag data
  | configure | markHelpful | markIgnored | clear | reset => rfl

/-! ## Sequences of calls -/

theorem Holds.better {heard : List Solution} {best : Option Solution} (h : Holds heard best)
    (s : Solution) : Holds (heard ++ [s]) (better best s) := by
  cases h with
  | nothing hsilent =>
    subst hsilent
    exact .solution ⟨0, foremost_singleton s⟩
  | @solution t hwinner =>
    obtain ⟨i, hfirst⟩ := hwinner
    have hnext := hfirst.concat s
    have horder : ((t.quality.toNat : Int) < s.quality.toNat) ↔ t.quality < s.quality := by
      rw [UInt32.lt_iff_toNat_lt, Int.ofNat_lt]
    simp only [Bus.better, improves, decide_eq_true_eq]
    by_cases hmore : t.quality < s.quality
    · rw [if_pos (horder.mpr hmore)] at hnext
      rw [if_pos hmore]
      exact .solution ⟨_, hnext⟩
    · rw [if_neg (mt horder.mp hmore)] at hnext
      rw [if_neg hmore]
      exact .solution ⟨i, hnext⟩

theorem Holds.revise {heard : List Solution} {best : Option Solution} (h : Holds heard best)
    (op : Operation) : Holds (op.hear heard) (op.revise best) := by
  unfold Operation.hear Operation.revise
  split
  · exact .nothing rfl
  · cases op.solution? with
    | none => simpa using h
    | some s => exact h.better s

/-- **What a bus remembers stays the best of what it has heard**, whatever is asked of it. -/
theorem holds_performAll {b : Bus} {heard : List Solution} (h : Holds heard b.best)
    (calls : List Call) :
    Holds (calls.foldl (fun heard c => c.operation.hear heard) heard)
      (b.performAll calls).best := by
  induction calls generalizing b heard with
  | nil => exact h
  | cons c calls ih =>
    have hstep : Holds (c.operation.hear heard) (c.perform b).2.best := by
      rw [c.best_perform]
      exact h.revise c.operation
    exact ih hstep

theorem holds_announced (s : Settings) (calls : List Call) :
    Holds (announced calls) ((new s).performAll calls).best :=
  holds_performAll (.nothing rfl) calls

/-! ## The best solution -/

/-- What a bus remembers after any calls: nothing if nothing was announced, else the first of the
solutions of greatest quality; and two buses that heard the same announcements remember the same,
whatever else was asked of them, at whatever times and under whatever settings. -/
theorem best_announced (s : Settings) (calls : List Call) :
    let b := (new s).performAll calls
    (b.best = none ↔ announced calls = []) ∧
      (∀ x, b.best = some x ↔ Winner (announced calls) x) ∧
      (b.converged = none ↔ announced calls = []) ∧
      (∀ qubit, b.converged = some qubit ↔ ∃ x, Winner (announced calls) x ∧ x.qubit = qubit) ∧
      ∀ s' calls', announced calls' = announced calls →
        ((new s').performAll calls').best = b.best := by
  intro b
  have hholds : Holds (announced calls) b.best := holds_announced s calls
  refine ⟨hholds.eq_none_iff, fun x => hholds.eq_some_iff, ?_, fun qubit => ?_, ?_⟩
  · rw [← hholds.eq_none_iff]
    exact Option.map_eq_none_iff
  · simp only [← hholds.eq_some_iff]
    exact Option.map_eq_some_iff
  · intro s' calls' hsame
    have hholds' := holds_announced s' calls'
    rw [hsame] at hholds'
    exact hholds'.unique hholds

/-- The best solution announced is refused by a bus that is switched off, the tie by a full queue,
and no message is made of the last one; an earlier and better one was forgotten. -/
def hindered : List Call :=
  [⟨0, .announce 9 [90] 50⟩, ⟨1, .clear⟩, ⟨2, .announce 1 [10] 7⟩, ⟨3, .receive 2⟩,
    ⟨4, .configure { enabled := false }⟩, ⟨5, .announce 2 [20] 9⟩,
    ⟨6, .configure { capacity := 0 }⟩, ⟨7, .announce 3 [30] 9⟩,
    ⟨8, .configure { broadcast := false }⟩, ⟨9, .announce 4 [40] 8⟩, ⟨9, .share 4 0 [41]⟩]

def unhindered : List Call :=
  [⟨0, .announce 1 [10] 7⟩, ⟨0, .announce 2 [20] 9⟩, ⟨0, .announce 3 [30] 9⟩,
    ⟨0, .announce 4 [40] 8⟩]

theorem best_announced_hindered :
    ((new {}).answers hindered)[5]? = some (.refused .disabled) ∧
      ((new {}).answers hindered)[7]? = some (.refused (.queueFull 0)) ∧
      announced unhindered = announced hindered ∧
      ((new {}).performAll hindered).best = some ⟨2, 9, [20]⟩ ∧
      ((new {}).performAll hindered).converged = some 2 ∧
      Winner (announced hindered) ⟨2, 9, [20]⟩ ∧
      ((new {}).performAll unhindered).best = ((new {}).performAll hindered).best := by
  have hsame : announced unhindered = announced hindered := by decide
  have hbest : ((new {}).performAll hindered).best = some ⟨2, 9, [20]⟩ := by decide +kernel
  obtain ⟨_, hwinner, _, _, hindependent⟩ := best_announced {} hindered
  exact ⟨by decide +kernel, by decide +kernel, hsame, hbest, by decide +kernel,
    (hwinner _).mp hbest, hindependent {} unhindered hsame⟩

end Superpose.Bus
