import Mathlib.Algebra.BigOperators.Group.List.Basic
import Mathlib.Algebra.GroupWithZero.Nat
import Mathlib.Data.List.Nodup
import Superpose.Proofs.Experience.Operation

/-!
# Accounts of an experience

Three levels of counters are kept by separate steps: the uses of a strategy in an entry, the
observations of an entry, and the observations of the experience. `Accounted` says that they agree,
and `Accounted.observe` that an observation keeps them in step as long as no counter runs over.
`Retains` says that entries stay where they are and only grow, and `Reworks` that an observation
changes one record of one entry.
-/

namespace Superpose.Experience

/-! ## Counting -/

section Counting

theorem toNat_add_one {n : UInt32} (hfew : n.toNat + 1 < 2 ^ 32) : (n + 1).toNat = n.toNat + 1 := by
  rw [UInt32.toNat_add]
  exact Nat.mod_eq_of_lt hfew

theorem lt_add_one {m n : UInt64} (hfew : n.toNat + 1 < 2 ^ 32) (h : m ≤ n) : m < n + 1 := by
  rw [UInt64.le_iff_toNat_le] at h
  rw [UInt64.lt_iff_toNat_lt, UInt64.toNat_add]
  simp only [UInt64.toNat_one]
  omega

theorem nodup_strategies : Strategy.all.Nodup := by decide

theorem sum_map_add_one {ι : Type} [DecidableEq ι] {l : List ι} (hnodup : l.Nodup) {a : ι}
    (hmem : a ∈ l) {f g : ι → Nat} (hone : g a = f a + 1) (hothers : ∀ b, b ≠ a → g b = f b) :
    (l.map g).sum = (l.map f).sum + 1 := by
  have hfront := List.perm_cons_erase hmem
  have hrest : (l.erase a).map g = (l.erase a).map f :=
    List.map_congr_left fun b hb => hothers b (hnodup.mem_erase_iff.mp hb).1
  calc
    (l.map g).sum = g a + ((l.erase a).map g).sum := by rw [(hfront.map g).sum_eq]; rfl
    _ = f a + ((l.erase a).map f).sum + 1 := by rw [hone, hrest]; omega
    _ = (l.map f).sum + 1 := by rw [(hfront.map f).sum_eq]; rfl

end Counting

/-! ## Entries -/

variable {K : Type}

namespace Entry

/-- The uses of all strategies together. -/
def totalUses (e : Entry K) : Nat := (Strategy.all.map fun s => (e.record s).uses.toNat).sum

theorem uses_le_totalUses (e : Entry K) (s : Strategy) :
    (e.record s).uses.toNat ≤ e.totalUses := by
  rw [totalUses, ((List.perm_cons_erase (Strategy.mem_all s)).map _).sum_eq]
  exact Nat.le_add_right _ _

/-- An entry that came from another one by observations. -/
structure Grown (e e' : Entry K) : Prop where
  workload : e'.workload = e.workload
  uses : ∀ s, (e.record s).uses ≤ (e'.record s).uses

theorem Grown.refl (e : Entry K) : Grown e e := ⟨rfl, fun _ => UInt32.le_refl _⟩

theorem Grown.trans {a b c : Entry K} (hfirst : Grown a b) (hsecond : Grown b c) : Grown a c :=
  ⟨hsecond.workload.trans hfirst.workload,
    fun s => UInt32.le_trans (hfirst.uses s) (hsecond.uses s)⟩

/-- The counters of an entry agree, and none of its records is of an observation still to come. -/
structure Tallied (e : Entry K) (serial : UInt64) : Prop where
  observations_eq : e.observations.toNat = e.totalUses
  successes_le : ∀ s, (e.record s).successes ≤ (e.record s).uses
  lastUsed_lt : ∀ s, 0 < (e.record s).uses → (e.record s).lastUsed < serial

theorem Tallied.uses_lt {e : Entry K} {serial : UInt64} (h : e.Tallied serial)
    (hfew : e.observations.toNat + 1 < 2 ^ 32) (s : Strategy) :
    (e.record s).uses.toNat + 1 < 2 ^ 32 := by
  have := e.uses_le_totalUses s
  have := h.observations_eq
  omega

end Entry

/-- Every entry is still in its place, with the same workload and no use less. -/
def Retains (x y : Experience K) : Prop :=
  ∀ (i : Nat) (e : Entry K), x.entries[i]? = some e → ∃ e', y.entries[i]? = some e' ∧ e.Grown e'

theorem Retains.refl (x : Experience K) : x.Retains x := fun _ e h => ⟨e, h, .refl e⟩

theorem Retains.trans {x y z : Experience K} (hfirst : x.Retains y) (hsecond : y.Retains z) :
    x.Retains z := by
  intro i e h
  obtain ⟨e', h', hgrown⟩ := hfirst i e h
  obtain ⟨e'', h'', hgrown'⟩ := hsecond i e' h'
  exact ⟨e'', h'', hgrown.trans hgrown'⟩

variable [Scale K]

namespace Entry

theorem record_update (e : Entry K) (s t : Strategy) (r : Record K) :
    (e.update s r).record t = if t = s then r else e.record t := by
  have hapart : s.index = t.index → t = s := fun hsame => by
    have hfound := Strategy.ofIndex?_index t
    rw [← hsame, Strategy.ofIndex?_index] at hfound
    exact (Option.some.inj hfound).symm
  have hbound := t.index_lt
  have hset : (e.update s r).record t = (e.records.set s.index r s.index_lt)[t.index] := rfl
  have hold : e.record t = e.records[t.index] := rfl
  rw [hset, hold, Vector.getElem_set]
  by_cases hsame : t = s
  · rw [if_pos hsame, if_pos (congrArg Strategy.index hsame.symm)]
  · rw [if_neg hsame, if_neg fun h => hsame (hapart h)]

theorem record_ofWorkload (w : Workload) (s : Strategy) :
    (ofWorkload w : Entry K).record s = .empty :=
  Vector.getElem_replicate ..

theorem tallied_ofWorkload (w : Workload) (serial : UInt64) :
    (ofWorkload w : Entry K).Tallied serial where
  observations_eq := by
    simp only [totalUses, record_ofWorkload]
    rfl
  successes_le s := by
    rw [record_ofWorkload]
    exact UInt32.le_refl 0
  lastUsed_lt s hused := by
    rw [record_ofWorkload] at hused
    exact absurd hused (UInt32.lt_irrefl 0)

/-- A tallied entry that is as reliable as its number of observations makes it. -/
structure Accounted (e : Entry K) (serial : UInt64) : Prop extends Tallied e serial where
  confidence_eq : e.confidence = confidenceAfter e.observations

end Entry

/-! ## One observation -/

section Fold

variable {x : Experience K} {o : Observation K} {e : Entry K}

theorem record_fold (s : Strategy) :
    (x.fold o e).record s =
      if s = o.strategy then
        (e.record s).add x.settings.learningRate o.collapsed o.time o.quality x.observations
      else e.record s := by
  rw [fold, Entry.record_update]
  split
  · next hsame => rw [hsame]
  · rfl

variable (h : e.Tallied x.observations) (hfew : e.observations.toNat + 1 < 2 ^ 32)

include h hfew

theorem toNat_uses_fold : ((x.fold o e).record o.strategy).uses.toNat =
    (e.record o.strategy).uses.toNat + 1 := by
  rw [record_fold, if_pos rfl]
  exact toNat_add_one (h.uses_lt hfew o.strategy)

theorem grown_fold : e.Grown (x.fold o e) where
  workload := rfl
  uses s := by
    by_cases hsame : s = o.strategy
    · subst hsame
      rw [UInt32.le_iff_toNat_le, toNat_uses_fold h hfew]
      omega
    · rw [record_fold, if_neg hsame]
      exact UInt32.le_refl _

theorem accounted_fold (hfewer : x.observations.toNat + 1 < 2 ^ 32) :
    (x.fold o e).Accounted (x.observations + 1) where
  observations_eq := by
    calc
      (x.fold o e).observations.toNat = e.observations.toNat + 1 := toNat_add_one hfew
      _ = e.totalUses + 1 := by rw [h.observations_eq]
      _ = (x.fold o e).totalUses := by
        refine (sum_map_add_one nodup_strategies (Strategy.mem_all o.strategy)
          (toNat_uses_fold h hfew) fun s hother => ?_).symm
        rw [record_fold, if_neg hother]
  successes_le s := by
    by_cases hsame : s = o.strategy
    · subst hsame
      have hbefore := h.successes_le o.strategy
      have hroom := h.uses_lt hfew o.strategy
      rw [UInt32.le_iff_toNat_le] at hbefore ⊢
      rw [toNat_uses_fold h hfew, record_fold, if_pos rfl]
      simp only [Record.add]
      split
      · rw [toNat_add_one (by omega)]
        omega
      · omega
    · rw [record_fold, if_neg hsame]
      exact h.successes_le s
  lastUsed_lt s hused := by
    by_cases hsame : s = o.strategy
    · rw [record_fold, if_pos hsame]
      exact lt_add_one hfewer (UInt64.le_refl _)
    · rw [record_fold, if_neg hsame] at hused ⊢
      exact lt_add_one hfewer (UInt64.le_of_lt (h.lastUsed_lt s hused))
  confidence_eq := rfl

end Fold

/-! ## The whole experience -/

/-- The counters of an experience agree on all three levels. -/
structure Accounted (x : Experience K) : Prop where
  entry : ∀ e ∈ x.entries, e.Accounted x.observations
  total : (x.entries.map fun e => e.observations.toNat).sum = x.observations.toNat

/-- One observation has changed the record of its strategy in one entry, or in a new last one, and
nothing else in any entry. -/
def Reworks (x : Experience K) (o : Observation K) (y : Experience K) : Prop :=
  ∃ (i : Nat) (e' : Entry K), y.entries[i]? = some e' ∧
    (∀ j, j ≠ i → y.entries[j]? = x.entries[j]?) ∧
    let e : Entry K := (x.entries[i]?).getD (.ofWorkload o.workload)
    e'.workload = e.workload ∧ (∀ s, s ≠ o.strategy → e'.record s = e.record s) ∧
      (e'.record o.strategy).uses = (e.record o.strategy).uses + 1

theorem Entry.Accounted.later {e : Entry K} {serial : UInt64} (h : e.Accounted serial)
    (hfew : serial.toNat + 1 < 2 ^ 32) : e.Accounted (serial + 1) where
  toTallied :=
    { h.toTallied with
      lastUsed_lt := fun s hused => lt_add_one hfew (UInt64.le_of_lt (h.lastUsed_lt s hused)) }
  confidence_eq := h.confidence_eq

theorem accounted_of_entries_eq_nil {x : Experience K} (h : x.entries = [])
    (hzero : x.observations = 0) : x.Accounted where
  entry e he := by
    rw [h] at he
    cases he
  total := by
    rw [h, hzero]
    rfl

theorem getElem?_replaced {β : Type} {front back : List β} {a b : β} {j : Nat}
    (h : j ≠ front.length) : (front ++ a :: back)[j]? = (front ++ b :: back)[j]? := by
  have hreplaced : front ++ a :: back = (front ++ b :: back).set front.length a := by simp
  rw [hreplaced, List.getElem?_set_ne h.symm]

section Step

variable {x : Experience K} (o : Observation K)

theorem reworks_observe (hon : x.enabled = true)
    (hroom : x.matching o.workload = none → x.room o.memory ≠ none) :
    x.Reworks o (x.observe o) := by
  have hone : ∀ e : Entry K, ((x.fold o e).record o.strategy).uses =
      (e.record o.strategy).uses + 1 := fun e => by rw [record_fold, if_pos rfl]; rfl
  have hothers : ∀ (e : Entry K) (s), s ≠ o.strategy → (x.fold o e).record s = e.record s :=
    fun e s hother => by rw [record_fold, if_neg hother]
  have hseen := observing x o
  generalize x.observe o = y at hseen
  cases hseen with
  | off hoff =>
    rw [hon] at hoff
    cases hoff
  | lost _ hnew hfull => exact absurd hfull (hroom hnew)
  | @folded front e back _ hwhole =>
    have hfound : x.entries[front.length]? = some e := by simp [hwhole]
    refine ⟨front.length, x.fold o e, by simp, fun j hother => ?_, ?_⟩
    · rw [hwhole]
      exact getElem?_replaced hother
    · rw [hfound]
      exact ⟨rfl, hothers e, hone e⟩
  | opened =>
    refine ⟨x.entries.length, _, List.getElem?_concat_length, fun j hother => ?_, ?_⟩
    · rw [List.getElem?_append]
      split
      · rfl
      · rw [List.getElem?_eq_none (by simp; omega), List.getElem?_eq_none (by omega)]
    · rw [List.getElem?_eq_none (Nat.le_refl _)]
      exact ⟨rfl, hothers _, hone _⟩

variable (h : x.Accounted) (hfew : x.observations.toNat + 1 < 2 ^ 32)

include h hfew

theorem Accounted.observe : (x.observe o).Accounted := by
  have htotal := h.total
  have hnext : (x.observations + 1).toNat = x.observations.toNat + 1 := by
    rw [UInt64.toNat_add]
    exact Nat.mod_eq_of_lt (by simp only [UInt64.toNat_one]; omega)
  have hseen := observing x o
  generalize x.observe o = y at hseen ⊢
  cases hseen with
  | off | lost => exact h
  | @folded front e back _ hwhole =>
    simp only [hwhole, List.map_append, List.map_cons, List.sum_append, List.sum_cons] at htotal
    have hold : ∀ e' ∈ front ++ e :: back, e'.Accounted x.observations := hwhole ▸ h.entry
    have hfewer : e.observations.toNat + 1 < 2 ^ 32 := by omega
    have hone : (x.fold o e).observations.toNat = e.observations.toNat + 1 := toNat_add_one hfewer
    have hfolded := accounted_fold (o := o) (hold e (by simp)).toTallied hfewer hfew
    refine ⟨fun e' he' => ?_, ?_⟩
    · rcases List.mem_append.mp he' with hbefore | hafter
      · exact (hold e' (List.mem_append_left _ hbefore)).later hfew
      · rcases List.mem_cons.mp hafter with rfl | hafter
        · exact hfolded
        · exact (hold e' (by simp [hafter])).later hfew
    · simp only [List.map_append, List.map_cons, List.sum_append, List.sum_cons, hone, hnext]
      omega
  | opened =>
    have hfolded := accounted_fold (o := o) (Entry.tallied_ofWorkload o.workload x.observations)
      (Nat.lt_of_sub_pos (by decide : 0 < 2 ^ 32 - 1)) hfew
    refine ⟨fun e' he' => ?_, ?_⟩
    · rcases List.mem_append.mp he' with hold | hnew
      · exact (h.entry e' hold).later hfew
      · rw [List.mem_singleton.mp hnew]
        exact hfolded
    · have hone : (x.fold o (.ofWorkload o.workload)).observations.toNat = 1 := rfl
      simp only [List.map_append, List.map_cons, List.map_nil, List.sum_append, List.sum_cons,
        List.sum_nil, hone, hnext]
      omega

theorem retains_observe : x.Retains (x.observe o) := by
  have htotal := h.total
  have hseen := observing x o
  generalize x.observe o = y at hseen
  cases hseen with
  | off | lost => exact .refl x
  | @folded front e back _ hwhole =>
    simp only [hwhole, List.map_append, List.map_cons, List.sum_append, List.sum_cons] at htotal
    have hold : e ∈ x.entries := by simp [hwhole]
    have hgrown := grown_fold (o := o) (h.entry e hold).toTallied (by omega)
    intro i e' hfound
    by_cases hhere : i = front.length
    · have hsame : e' = e := by simpa [hwhole, hhere, eq_comm] using hfound
      exact ⟨x.fold o e, by simp [hhere], hsame ▸ hgrown⟩
    · rw [hwhole, getElem?_replaced hhere] at hfound
      exact ⟨e', hfound, .refl e'⟩
  | opened =>
    intro i e' hfound
    have hlt := (List.getElem?_eq_some_iff.mp hfound).1
    exact ⟨e', by rw [List.getElem?_append_left hlt, hfound], .refl e'⟩

end Step

theorem observations_observe (x : Experience K) (o : Observation K) :
    (x.observe o).observations = x.observations ∨
      (x.observe o).observations = x.observations + 1 := by
  have hseen := observing x o
  generalize x.observe o = y at hseen
  cases hseen with
  | off | lost => exact .inl rfl
  | folded | opened => exact .inr rfl

/-! ## Calls -/

section Calls

variable {x : Experience K}

theorem accounted_ofSettings (s : Settings K) : (ofSettings s).Accounted :=
  accounted_of_entries_eq_nil rfl rfl

/-- A call keeps the accounts, and counts at most one observation. -/
theorem Accounted.perform (h : x.Accounted) (c : Operation K)
    (hfew : x.observations.toNat + (if c.reports then 1 else 0) < 2 ^ 32) :
    (c.perform x).2.Accounted ∧
      (c.perform x).2.observations.toNat ≤ x.observations.toNat + (if c.reports then 1 else 0) := by
  have hdone := c.effect x
  generalize (c.perform x).2 = y at hdone ⊢
  cases hdone with
  | @observed o htold =>
    rw [if_pos (Operation.reports_of_observation? htold)] at hfew ⊢
    refine ⟨h.observe o hfew, ?_⟩
    rcases observations_observe x o with hsame | hmore
    · rw [hsame]
      exact Nat.le_add_right _ _
    · rw [hmore, UInt64.toNat_add]
      exact Nat.mod_le _ _
  | reset => exact ⟨accounted_of_entries_eq_nil rfl rfl, Nat.zero_le _⟩
  | aside => exact ⟨⟨h.entry, h.total⟩, Nat.le_add_right _ _⟩

theorem retains_perform (h : x.Accounted) {c : Operation K} (hkept : c.isReset = false)
    (hfew : x.observations.toNat + (if c.reports then 1 else 0) < 2 ^ 32) :
    x.Retains (c.perform x).2 := by
  have hdone := c.effect x
  generalize (c.perform x).2 = y at hdone ⊢
  cases hdone with
  | @observed o htold =>
    rw [if_pos (Operation.reports_of_observation? htold)] at hfew
    exact retains_observe o h hfew
  | reset hasked =>
    rw [hkept] at hasked
    cases hasked
  | aside => exact .refl x

theorem Accounted.performAll (h : x.Accounted) (calls : List (Operation K))
    (hfew : x.observations.toNat + calls.countP Operation.reports < 2 ^ 32) :
    (x.performAll calls).Accounted ∧ (x.performAll calls).observations.toNat ≤
      x.observations.toNat + calls.countP Operation.reports := by
  induction calls generalizing x with
  | nil => exact ⟨h, Nat.le_refl _⟩
  | cons c calls ih =>
    rw [List.countP_cons] at hfew ⊢
    obtain ⟨haccounted, hbound⟩ := h.perform c (by omega)
    obtain ⟨hall, hmost⟩ := ih haccounted (by omega)
    refine ⟨hall, ?_⟩
    rw [Experience.performAll]
    omega

theorem retains_performAll (h : x.Accounted) {calls : List (Operation K)}
    (hfew : x.observations.toNat + calls.countP Operation.reports < 2 ^ 32)
    (hkept : ∀ c ∈ calls, c.isReset = false) : x.Retains (x.performAll calls) := by
  induction calls generalizing x with
  | nil => exact .refl x
  | cons c calls ih =>
    rw [List.countP_cons] at hfew
    obtain ⟨hkeep, hkeeps⟩ := List.forall_mem_cons.mp hkept
    obtain ⟨haccounted, hbound⟩ := h.perform c (by omega)
    exact (retains_perform h hkeep (by omega)).trans (ih haccounted (by omega) hkeeps)

end Calls

/-- After any calls with fewer than 2^32 reports among them the counters agree on all three levels;
until the next reset all entries stay in their places with their workloads; a report on an
experience that is switched on changes one record of one entry if there is room, and a report on one
that is switched off changes nothing. -/
theorem accounting (s : Settings K) {calls : List (Operation K)}
    (hfew : calls.countP Operation.reports < 2 ^ 32) :
    let x := (ofSettings s).performAll calls
    x.Accounted ∧
      (∀ later : List (Operation K), (calls ++ later).countP Operation.reports < 2 ^ 32 →
        (∀ c ∈ later, c.isReset = false) → x.Retains (x.performAll later)) ∧
      ∀ (c : Operation K) (o : Observation K), c.observation? = some o →
        (x.enabled = true → (x.matching o.workload = none → x.room o.memory ≠ none) →
          x.Reworks o (c.perform x).2) ∧
        (x.enabled = false → (c.perform x).2 = x) := by
  intro x
  have hzero : (ofSettings s).observations.toNat = 0 := rfl
  obtain ⟨haccounted, hmost⟩ := (accounted_ofSettings s).performAll calls (by omega)
  refine ⟨haccounted, fun later hfewer hkept => ?_,
    fun c o htold => ⟨fun hon hroom => ?_, fun hoff => ?_⟩⟩
  · rw [List.countP_append] at hfewer
    exact retains_performAll haccounted (by omega) hkept
  · rw [Operation.perform_of_observation? htold]
    exact reworks_observe o hon hroom
  · rw [Operation.perform_of_observation? htold, observe, hoff]
    rfl

/-- What came before the reset is forgotten, one report comes while the experience is switched off,
and the other three are of two workloads that are not alike. -/
def lessons : List (Operation Float) :=
  [tell (idle 5 .best) 3 0.5, .reset, tell (idle 2 .firstWins) 5 0.9,
    tell (idle 20 .firstWins) 7 0.5, .setEnabled false, tell (idle 2 .best) 1 1,
    .setEnabled true, .recommend (idle 2 .vote).workload,
    .close ⟨10, .vote, (idle 2 .vote).workload⟩ 14 { idle 2 .vote with collapsed := true } 0.8
      addressable]

def learned : Experience Float := (ofSettings .standard).performAll lessons

theorem accounting_lessons :
    lessons.countP Operation.reports < 2 ^ 32 ∧ learned.Accounted ∧ learned.observations = 3 ∧
      (learned.entries.map fun e =>
        (e.observations, (e.record .firstWins).uses, (e.record .vote).successes)) =
          [(2, 1, 1), (1, 1, 0)] := by
  have hfew : lessons.countP Operation.reports < 2 ^ 32 := by decide
  exact ⟨hfew, (accounting .standard hfew).1, by decide +kernel, by decide +kernel⟩

end Superpose.Experience
