import Superpose.Proofs.Choice.Range

/-!
# Choices by position

The choices and the reduction once more, as walks over positions make them: lists are read and
written at positions, and a position that a list does not have, like a division by 0, leaves no
result at all. `reduce_eq` says that this never happens. Among one result or more every look-up
hits, and what comes out is what the reduction says.
-/

namespace Superpose.ByPosition

open Choice

variable {α : Type}

/-! ## Access -/

/-- Writes a value at a position. -/
def write {β : Type} (xs : List β) (i : Nat) (v : β) : Option (List β) :=
  if i < xs.length then some (xs.set i v) else none

/-- Changes what stands at a position. -/
def modify {β : Type} (xs : List β) (i : Nat) (f : β → β) : Option (List β) := do
  let x ← xs[i]?
  write xs i (f x)

/-- Writes values over a list, the first of them at `next`. -/
def overwrite {β : Type} (xs : List β) : (next : Nat) → List β → Option (List β)
  | _, [] => some xs
  | next, v :: vs => do
    let xs ← write xs next v
    overwrite xs (next + 1) vs

def predecessor : Nat → Option Nat
  | 0 => none
  | n + 1 => some n

def remainder (n d : Nat) : Option Nat := if d = 0 then none else some (n % d)

/-! ## Choices -/

/-- Walks over keys, the first of which stands at `next`, and looks up the key of the leader at each
one. -/
def lead (keys : List Int) : (leader next : Nat) → List Int → Option Nat
  | leader, _, [] => some leader
  | leader, next, k :: ks => do
    let top ← keys[leader]?
    lead keys (if top < k then next else leader) (next + 1) ks

/-- The first result of greatest key. -/
def greatest (key : α → Int) (results : List α) : Option Nat := do
  let first ← results[0]?
  return (scan ⟨0, key first⟩ 1 ((results.drop 1).map key)).index

def best (score : α → Int32) (results : List α) : Option Nat :=
  greatest (fun r => (score r).toInt) results

def weighted (criteria : Criteria α) (results : List α) : Option Nat :=
  greatest (fun r => (criteria.aggregate r).toInt) results

def drawn (draw : Nat) (scores : List Int32) : Option Nat := do
  let top ← lead (scores.map Int32.toInt) 0 1 ((scores.drop 1).map Int32.toInt)
  if draw < exploitBelow then return top
  else if 0 < total scores then
    return (reach? (Int64.ofNat draw * total scores / 100) 0 0 scores).getD 0
  else remainder draw scores.length

def fuzzy (score : α → Int32) (results : List α) : Option Nat := do
  let scores := results.map score
  let seed ← scores[0]?
  drawn (percentage seed) scores

def progressive (score? : Option (α → Int32)) (results : List α) : Option Nat :=
  match score? with
  | none => some 0
  | some score => do
    let first ← results[0]?
    let others := (results.drop 1).map fun r => (score r).toInt
    return (progressiveWalks.repeat (fun top => scan top 1 others) ⟨0, (score first).toInt⟩).index

def speculative (score : α → Int32) (results : List α) : Option Nat :=
  if results.length < 2 then some 0
  else do
    let guess ← results[0]?
    return speculate (score guess) ((results.drop 1).map score)

/-! ## Trends -/

def blend (t : Trend) (index : Nat) (current : Int32) : Option Int64 :=
  if t.recorded ≤ index ∨ t.scores.length ≤ index then some current.toInt64
  else do
    let past ← t.scores[index]?
    let now := current.toInt64
    let change := now - past.toInt64
    return (now * (100 - t.weight.toInt64) + (now + change) * t.weight.toInt64) / 100

def blendAll (t : Trend) : (next : Nat) → List Int32 → Option (List Int)
  | _, [] => some []
  | next, s :: ss => do
    let blended ← blend t next s
    let rest ← blendAll t (next + 1) ss
    return blended.toInt :: rest

def choose (t : Trend) (scores : List Int32) : Option Nat := do
  let first ← scores[0]?
  let top ← blend t 0 first
  let others ← blendAll t 1 (scores.drop 1)
  return (scan ⟨0, top.toInt⟩ 1 others).index

def record (t : Trend) (scores : List Int32) (now : UInt64) : Option Trend := do
  let stored := min scores.length t.window
  let recordedScores ← overwrite t.scores 0 (scores.take stored)
  let recordedTimes ← overwrite t.times 0 (List.replicate stored now)
  return { t with
    scores := recordedScores
    times := recordedTimes
    recorded := if t.recorded < stored then stored else t.recorded }

/-! ## Agreement -/

section Agreement

variable [BEq α]

/-- Adds a result to the first bloc whose first member, looked up by its place, equals it. -/
def enrol (results : List α) (index : Nat) (result : α) :
    List (Nat × Nat) → Option (List (Nat × Nat))
  | [] => some [(index, 1)]
  | (place, votes) :: blocs => do
    let member ← results[place]?
    if member == result then return (place, votes + 1) :: blocs
    else
      let rest ← enrol results index result blocs
      return (place, votes) :: rest

def enrolAll (results : List α) :
    List (Nat × Nat) → (next : Nat) → List α → Option (List (Nat × Nat))
  | blocs, _, [] => some blocs
  | blocs, next, r :: rs => do
    let blocs ← enrol results next r blocs
    enrolAll results blocs (next + 1) rs

/-- The larger of two blocs, the first one if they are equal. -/
def larger (winner bloc : Nat × Nat) : Nat × Nat := if winner.2 < bloc.2 then bloc else winner

def vote (results : List α) : Option (Except CollapseFault Nat) := do
  let blocs ← enrolAll results [] 0 results
  let first ← blocs[0]?
  let winner := (blocs.drop 1).foldl larger first
  if 1 < results.length ∧ winner.2 < 2 then
    return .error (.noConsensus winner.2 results.length)
  else return .ok winner.1

def deviation (results : List α) : (next : Nat) → List α → Option (Option Nat)
  | _, [] => some none
  | next, r :: rs => do
    let first ← results[0]?
    if r == first then deviation results (next + 1) rs else return some next

def validate (results : List α) : Option (Except CollapseFault Unit) := do
  match ← deviation results 1 (results.drop 1) with
  | none => return .ok ()
  | some index => return .error (.mismatch index)

end Agreement

/-! ## Panels -/

/-- The best result for a low draw, else the draw modulo the number of results. -/
def explore (draw top count : Nat) : Option Nat :=
  if exploitBelow ≤ draw then remainder draw count else some top

def simpleDraw (score : α → Int32) (results : List α) : Option Nat := do
  let top ← best score results
  let r ← results[top]?
  explore ((congruential (score r)).toNat % 100) top results.length

def nominee (tools : Toolkit α) (results : List α) : Strategy → Option Nat
  | .lastWins => predecessor results.length
  | .best =>
    match tools.evaluator with
    | some score => best score results
    | none => some 0
  | .fuzzy =>
    match tools.evaluator with
    | some score => simpleDraw score results
    | none => some 0
  | .multiDim =>
    match tools.criteria with
    | some criteria => weighted criteria results
    | none => some 0
  | .temporal =>
    match tools.evaluator, tools.trend with
    | some score, some trend => choose trend (results.map score)
    | _, _ => some 0
  | _ => some 0

/-- Adds the votes of members to a table of votes. -/
def count (tools : Toolkit α) (results : List α) : List Int → List Member → Option (List Int)
  | votes, [] => some votes
  | votes, m :: ms => do
    let choice ← nominee tools results m.strategy
    let votes ← modify votes choice (· + m.weight.toInt)
    count tools results votes ms

def elected (tools : Toolkit α) (panel : Panel) (results : List α) : Option Nat := do
  let votes ← count tools results (List.replicate results.length 0) panel.members
  lead votes 0 1 (votes.drop 1)

/-! ## Reduction -/

section Reduction

variable [BEq α]

def ruling (strategy : Strategy) (results : List α) (output : α) (tools : Toolkit α)
    (now : UInt64) : Option (Ruling α) :=
  match strategy with
  | .firstWins => some (.select 0)
  | .lastWins => (predecessor results.length).map .select
  | .best =>
    match tools.evaluator with
    | none => some (.refuse (.missing strategy .evaluator))
    | some score => (best score results).map .select
  | .vote => do
    match ← vote results with
    | .error fault => return .refuse fault
    | .ok index => return .select index
  | .combine =>
    match tools.combiner with
    | none => some (.refuse (.missing strategy .combiner))
    | some combine => some (.compute (combine results output))
  | .validate => do
    match ← validate results with
    | .error fault => return .refuse fault
    | .ok () => return .select 0
  | .custom =>
    match tools.custom with
    | none => some (.refuse (.missing strategy .customCollapse))
    | some custom => some (.compute (custom results output))
  | .fuzzy =>
    match tools.evaluator with
    | none => some (.refuse (.missing strategy .evaluator))
    | some score => (fuzzy score results).map .select
  | .progressive => (progressive tools.evaluator results).map .select
  | .speculative =>
    match tools.evaluator with
    | none => some (.refuse (.missing strategy .evaluator))
    | some score => (speculative score results).map .select
  | .multiDim =>
    match tools.criteria with
    | none => some (.refuse (.missing strategy .criteria))
    | some criteria => (weighted criteria results).map .select
  | .temporal =>
    match tools.evaluator with
    | none => some (.refuse (.missing strategy .evaluator))
    | some score =>
      match tools.trend with
      | none => some (.refuse (.missing strategy .trend))
      | some trend => do
        let index ← choose trend (results.map score)
        let trend ← record trend (results.map score) now
        return .selectRecording index trend
  | .ensemble =>
    match tools.panel with
    | none => some (.refuse (.missing strategy .panel))
    | some panel => (elected tools panel results).map .select

/-- Runs a strategy over results; the selected result is read at its position. -/
def reduce (strategy : Strategy) (results : List α) (output : α) (tools : Toolkit α)
    (now : UInt64) : Option (Reduced α) :=
  if results.isEmpty then some ⟨.error .noResults, output, tools.trend⟩
  else do
    match ← ruling strategy results output tools now with
    | .refuse fault => return ⟨.error fault, output, tools.trend⟩
    | .select index => return ⟨.ok (some index), ← results[index]?, tools.trend⟩
    | .selectRecording index trend => return ⟨.ok (some index), ← results[index]?, some trend⟩
    | .compute value => return ⟨.ok none, value, tools.trend⟩

end Reduction

/-! ## Every look-up hits -/

theorem modify_eq {β : Type} {xs : List β} {i : Nat} (h : i < xs.length) (f : β → β) :
    modify xs i f = some (xs.modify i f) := by
  have hset : xs.set i (f xs[i]) = xs.modify i f := by
    apply List.ext_getElem?
    intro j
    rw [List.getElem?_set, List.getElem?_modify]
    by_cases hij : i = j
    · subst hij
      simp [h]
    · simp [hij]
  rw [modify, List.getElem?_eq_getElem h]
  show write xs i (f xs[i]) = _
  rw [write, if_pos h, hset]

theorem overwrite_eq {β : Type} (vs : List β) : ∀ {xs : List β} {next : Nat},
    next + vs.length ≤ xs.length →
      overwrite xs next vs = some (xs.take next ++ vs ++ xs.drop (next + vs.length)) := by
  induction vs with
  | nil =>
    intro xs next _
    simp [overwrite]
  | cons v vs ih =>
    intro xs next h
    rw [List.length_cons] at h
    have hlt : next < xs.length := by omega
    have hrest : next + 1 + vs.length ≤ (xs.set next v).length := by
      rw [List.length_set]
      omega
    have htake : (xs.set next v).take (next + 1) = xs.take next ++ [v] := by
      rw [List.take_add_one, List.take_set_of_le (Nat.le_refl next), List.getElem?_set_self hlt,
        Option.toList_some]
    have hdrop : (xs.set next v).drop (next + 1 + vs.length) =
        xs.drop (next + (v :: vs).length) := by
      rw [List.drop_set_of_lt (by omega), List.length_cons]
      congr 1
      omega
    rw [overwrite, write, if_pos hlt]
    show overwrite (xs.set next v) (next + 1) vs = _
    rw [ih hrest, htake, hdrop, List.append_assoc (xs.take next)]
    rfl

/-- A walk that looks its leader up leads to where one goes that remembers the leader's key. -/
theorem lead_eq {keys : List Int} (ks : List Int) : ∀ {p : Peak} {next : Nat},
    keys[p.index]? = some p.key → keys.drop next = ks →
      lead keys p.index next ks = some (scan p next ks).index := by
  induction ks with
  | nil => intro p next _ _; rfl
  | cons k ks ih =>
    intro p next hp hdrop
    have hnext : keys[next]? = some k := by
      rw [← List.head?_drop, hdrop, List.head?_cons]
    have htail : keys.drop (next + 1) = ks := by
      rw [← List.tail_drop, hdrop, List.tail_cons]
    have hindex : (if p.key < k then next else p.index) =
        (if p.key < k then ⟨next, k⟩ else p : Peak).index := by
      split <;> rfl
    have hlead : keys[(if p.key < k then ⟨next, k⟩ else p : Peak).index]? =
        some (if p.key < k then ⟨next, k⟩ else p : Peak).key := by
      split
      · exact hnext
      · exact hp
    rw [lead, hp]
    show lead keys (if p.key < k then next else p.index) (next + 1) ks = _
    rw [hindex, ih hlead htail]
    rfl

theorem lead_eq_firstGreatest {keys : List Int} (h : keys ≠ []) :
    lead keys 0 1 (keys.drop 1) = some (firstGreatest keys) := by
  cases keys with
  | nil => exact absurd rfl h
  | cons k ks => exact @lead_eq (k :: ks) ks ⟨0, k⟩ 1 rfl rfl

theorem greatest_eq (key : α → Int) {results : List α} (h : results ≠ []) :
    greatest key results = some (firstGreatest (results.map key)) := by
  cases results with
  | nil => exact absurd rfl h
  | cons r rs => rfl

theorem best_eq (score : α → Int32) {results : List α} (h : results ≠ []) :
    best score results = some (Choice.best score results) := greatest_eq _ h

theorem weighted_eq (criteria : Criteria α) {results : List α} (h : results ≠ []) :
    weighted criteria results = some (Choice.weighted criteria results) := greatest_eq _ h

theorem remainder_eq {n d : Nat} (h : 0 < d) : remainder n d = some (n % d) :=
  if_neg (Nat.ne_of_gt h)

theorem drawn_eq (draw : Nat) {scores : List Int32} (h : scores ≠ []) :
    drawn draw scores = some (Choice.drawn draw scores) := by
  have hne : scores.map Int32.toInt ≠ [] := by simpa using h
  have hlead := lead_eq_firstGreatest hne
  rw [← List.map_drop] at hlead
  rw [drawn, hlead, remainder_eq (List.length_pos_iff.mpr h), Choice.drawn]
  simp only [Option.bind_eq_bind, Option.bind_some, Option.pure_def]
  split
  · rfl
  · split <;> rfl

theorem fuzzy_eq (score : α → Int32) {results : List α} (h : results ≠ []) :
    fuzzy score results = some (Choice.fuzzy score results) := by
  cases results with
  | nil => exact absurd rfl h
  | cons r rs => exact drawn_eq (percentage (score r)) (List.cons_ne_nil _ _)

theorem progressive_eq (score? : Option (α → Int32)) {results : List α} (h : results ≠ []) :
    progressive score? results = some (Choice.progressive score? results) := by
  cases score? with
  | none => rfl
  | some score =>
    cases results with
    | nil => exact absurd rfl h
    | cons r rs => rfl

theorem speculative_eq (score : α → Int32) {results : List α} (h : results ≠ []) :
    speculative score results = some (Choice.speculative score results) := by
  cases results with
  | nil => exact absurd rfl h
  | cons r rs =>
    cases rs with
    | nil => rfl
    | cons r' rs => rfl

/-! ### Trends -/

theorem blend_eq (t : Trend) (index : Nat) (current : Int32) :
    blend t index current = some (t.blend index current) := by
  unfold blend Trend.blend
  by_cases hlt : index < t.scores.length
  · rw [List.getElem?_eq_getElem hlt]
    by_cases hrecorded : t.recorded ≤ index
    · simp [hrecorded]
    · simp [hrecorded, Nat.not_le.mpr hlt]
  · have hle : t.scores.length ≤ index := by omega
    rw [List.getElem?_eq_none hle]
    simp [hle]

theorem blendAll_eq (t : Trend) (scores : List Int32) : ∀ next,
    blendAll t next scores = some (t.blendAll next scores) := by
  induction scores with
  | nil => intro next; rfl
  | cons s ss ih =>
    intro next
    rw [blendAll, blend_eq, ih]
    rfl

theorem choose_eq (t : Trend) {scores : List Int32} (h : scores ≠ []) :
    choose t scores = some (t.choose scores) := by
  cases scores with
  | nil => exact absurd rfl h
  | cons s ss =>
    simp only [choose, List.getElem?_cons_zero, Option.bind_eq_bind, Option.bind_some, blend_eq,
      blendAll_eq, Option.pure_def]
    rfl

theorem record_eq {t : Trend} (h : t.Kept) (scores : List Int32) (now : UInt64) :
    record t scores now = some (t.record scores now) := by
  obtain ⟨hscores, htimes, -⟩ := h.lengths
  have hlength : (scores.take (min scores.length t.window)).length =
      min scores.length t.window := by
    rw [List.length_take]
    omega
  have hmax : max t.recorded (min scores.length t.window) =
      if t.recorded < min scores.length t.window then min scores.length t.window
      else t.recorded := by
    split <;> omega
  have hfirst : 0 + (scores.take (min scores.length t.window)).length ≤ t.scores.length := by
    omega
  have hsecond : 0 + (List.replicate (min scores.length t.window) now).length ≤
      t.times.length := by
    rw [List.length_replicate]
    omega
  have hscores' := overwrite_eq _ hfirst
  have htimes' := overwrite_eq _ hsecond
  rw [hlength, Nat.zero_add] at hscores'
  rw [List.length_replicate, Nat.zero_add] at htimes'
  simp only [record, hscores', htimes', Trend.record, hmax, List.take_zero, List.nil_append,
    Option.bind_eq_bind, Option.bind_some, Option.pure_def]

/-! ### Agreement -/

section Agreement

variable [BEq α]

/-- What the blocs of a vote keep of themselves: the place of the first member and the votes. -/
def bare (blocs : List (Bloc α)) : List (Nat × Nat) := blocs.map fun b => (b.index, b.votes)

theorem enrol_eq {results : List α} (index : Nat) (result : α) :
    ∀ {blocs : List (Bloc α)}, KnownIn results blocs →
      enrol results index result (bare blocs) = some (bare (Choice.enrol index result blocs)) := by
  intro blocs
  induction blocs with
  | nil => intro _; rfl
  | cons b bs ih =>
    intro h
    obtain ⟨hb, hbs⟩ := List.forall_mem_cons.mp h
    have hrest := ih hbs
    simp only [bare, List.map_cons, enrol, Choice.enrol, hb, Option.bind_eq_bind,
      Option.bind_some] at hrest ⊢
    split
    · rfl
    · rw [hrest]
      rfl

theorem enrolAll_eq {results rest : List α} : ∀ {blocs : List (Bloc α)} {next : Nat},
    KnownIn results blocs → results.drop next = rest →
      enrolAll results (bare blocs) next rest = some (bare (Choice.enrolAll blocs next rest)) := by
  induction rest with
  | nil => intro blocs next _ _; rfl
  | cons r rs ih =>
    intro blocs next h hrest
    have hnext : results[next]? = some r := by
      rw [← List.head?_drop, hrest, List.head?_cons]
    have htail : results.drop (next + 1) = rs := by
      rw [← List.tail_drop, hrest, List.tail_cons]
    rw [enrolAll, enrol_eq next r h]
    exact ih (h.enrol hnext).1 htail

/-- A walk that carries the leader itself ends at the place where one ends that carries its key. -/
theorem getElem?_scan {β : Type} (key : β → Nat) {xs : List β} (rest : List β) :
    ∀ {i next : Nat} {x : β}, xs[i]? = some x → xs.drop next = rest →
      xs[(scan ⟨i, key x⟩ next (rest.map fun b => (key b : Int))).index]? =
        some (rest.foldl (fun w b => if key w < key b then b else w) x) := by
  induction rest with
  | nil => intro i next x hx _; exact hx
  | cons r rs ih =>
    intro i next x hx hrest
    have hnext : xs[next]? = some r := by
      rw [← List.head?_drop, hrest, List.head?_cons]
    have htail : xs.drop (next + 1) = rs := by
      rw [← List.tail_drop, hrest, List.tail_cons]
    rw [List.map_cons, scan, List.foldl_cons]
    by_cases hkey : key x < key r
    · rw [if_pos (Int.ofNat_lt.mpr hkey), if_pos hkey]
      exact ih hnext htail
    · rw [if_neg (fun hlt => hkey (Int.ofNat_lt.mp hlt)), if_neg hkey]
      exact ih hx htail

omit [BEq α] in
theorem foldl_larger (bs : List (Bloc α)) : ∀ w : Bloc α,
    (bare bs).foldl larger (w.index, w.votes) =
      let winner := bs.foldl (fun w b => if w.votes < b.votes then b else w) w
      (winner.index, winner.votes) := by
  induction bs with
  | nil => intro w; rfl
  | cons b bs ih =>
    intro w
    have hlarger : larger (w.index, w.votes) (b.index, b.votes) =
        ((if w.votes < b.votes then b else w).index,
          (if w.votes < b.votes then b else w).votes) := by
      unfold larger
      split <;> rfl
    rw [bare, List.map_cons, List.foldl_cons, hlarger]
    exact ih _

theorem vote_eq {results : List α} (h : results ≠ []) :
    vote results = some (Choice.vote results) := by
  have hnone : KnownIn results [] := fun _ hb => absurd hb List.not_mem_nil
  have henrol := enrolAll_eq hnone List.drop_zero
  cases hblocs : Choice.enrolAll [] 0 results with
  | nil => exact absurd hblocs (enrolAll_ne_nil h)
  | cons b bs =>
    have hfirst : (b :: bs)[0]? = some b := rfl
    have hwinner : (b :: bs)[firstGreatest ((b :: bs).map fun c => (c.votes : Int))]? = _ :=
      getElem?_scan Bloc.votes bs hfirst List.drop_one
    have hlarger := foldl_larger bs b
    rw [hblocs] at henrol
    simp only [bare, List.map_nil, List.map_cons] at henrol hlarger
    simp only [vote, henrol, List.getElem?_cons_zero, List.drop_one, List.tail_cons, hlarger,
      Choice.vote, hblocs, hwinner, Option.bind_eq_bind, Option.bind_some, Option.pure_def]
    split <;> rfl

theorem deviation_eq {results : List α} {first : α} (hfirst : results[0]? = some first)
    (rest : List α) : ∀ next,
      deviation results next rest = some (firstDeviation first next rest) := by
  induction rest with
  | nil => intro next; rfl
  | cons r rs ih =>
    intro next
    simp only [deviation, hfirst, firstDeviation, Option.bind_eq_bind, Option.bind_some]
    split
    · exact ih (next + 1)
    · rfl

theorem validate_eq {results : List α} (h : results ≠ []) :
    validate results = some (Choice.validate results) := by
  cases results with
  | nil => exact absurd rfl h
  | cons r rs =>
    have hfirst : (r :: rs)[0]? = some r := rfl
    simp only [validate, List.drop_one, List.tail_cons, deviation_eq hfirst, Choice.validate,
      Option.bind_eq_bind, Option.bind_some]
    split <;> simp_all

end Agreement

/-! ### Panels -/

theorem explore_eq (draw top : Nat) {count : Nat} (h : 0 < count) :
    explore draw top count = some (if exploitBelow ≤ draw then draw % count else top) := by
  rw [explore, remainder_eq h]
  split <;> rfl

theorem simpleDraw_eq (score : α → Int32) {results : List α} (h : results ≠ []) :
    simpleDraw score results = some (Choice.simpleDraw score results) := by
  have htop := List.getElem?_eq_getElem (best_lt score h)
  have hpos : 0 < results.length := List.length_pos_iff.mpr h
  rw [simpleDraw, best_eq score h, Option.bind_eq_bind, Option.bind_some, htop,
    Option.bind_eq_bind, Option.bind_some, explore_eq _ _ hpos]
  simp only [Choice.simpleDraw, htop]

theorem predecessor_eq {n : Nat} (h : 0 < n) : predecessor n = some (n - 1) := by
  cases n with
  | zero => exact absurd h (Nat.lt_irrefl 0)
  | succ n => rfl

theorem nominee_eq (tools : Toolkit α) {results : List α} (h : results ≠ []) (s : Strategy) :
    nominee tools results s = some (Choice.nominee tools results s) := by
  have hpos : 0 < results.length := List.length_pos_iff.mpr h
  cases s with
  | lastWins => exact predecessor_eq hpos
  | best =>
    cases hscore : tools.evaluator with
    | none => simp only [nominee, Choice.nominee, hscore]
    | some score => simp only [nominee, Choice.nominee, hscore, best_eq score h]
  | fuzzy =>
    cases hscore : tools.evaluator with
    | none => simp only [nominee, Choice.nominee, hscore]
    | some score => simp only [nominee, Choice.nominee, hscore, simpleDraw_eq score h]
  | multiDim =>
    cases hcriteria : tools.criteria with
    | none => simp only [nominee, Choice.nominee, hcriteria]
    | some criteria => simp only [nominee, Choice.nominee, hcriteria, weighted_eq criteria h]
  | temporal =>
    cases hscore : tools.evaluator with
    | none => simp only [nominee, Choice.nominee, hscore]
    | some score =>
      cases htrend : tools.trend with
      | none => simp only [nominee, Choice.nominee, hscore, htrend]
      | some trend =>
        have hne : results.map score ≠ [] := by simpa using h
        simp only [nominee, Choice.nominee, hscore, htrend, choose_eq trend hne]
  | firstWins | vote | combine | validate | custom | progressive | speculative | ensemble => rfl

theorem count_eq (tools : Toolkit α) {results : List α} (h : results ≠ []) (ms : List Member) :
    ∀ {votes : List Int}, votes.length = results.length →
      count tools results votes ms = some
        ((ms.map fun m => (Choice.nominee tools results m.strategy, m.weight)).foldl
          (fun votes b => votes.modify b.1 (· + b.2.toInt)) votes) := by
  induction ms with
  | nil => intro votes _; rfl
  | cons m ms ih =>
    intro votes hvotes
    have hlt : Choice.nominee tools results m.strategy < votes.length := by
      rw [hvotes]
      exact nominee_lt tools h m.strategy
    have hlength : (votes.modify (Choice.nominee tools results m.strategy)
        (· + m.weight.toInt)).length = results.length := by
      rw [List.length_modify, hvotes]
    rw [count, nominee_eq tools h, List.map_cons, List.foldl_cons, ← ih hlength]
    show (modify votes (Choice.nominee tools results m.strategy) _ >>= _) = _
    rw [modify_eq hlt]
    rfl

theorem elected_eq (tools : Toolkit α) (panel : Panel) {results : List α} (h : results ≠ []) :
    elected tools panel results = some (Choice.elected tools panel results) := by
  have hzeros : (List.replicate results.length (0 : Int)).length = results.length :=
    List.length_replicate
  have hcount := count_eq tools h panel.members hzeros
  have hne : tally results.length (ballots tools panel results) ≠ [] := by
    rw [← List.length_pos_iff, length_tally]
    exact List.length_pos_iff.mpr h
  rw [elected, hcount]
  exact lead_eq_firstGreatest hne

/-! ### Reduction -/

section Reduction

variable [BEq α]

theorem ruling_eq {s : Strategy} {results : List α} {tools : Toolkit α} (h : results ≠ [])
    (htrend : ∀ t ∈ tools.trend, t.Kept) (output : α) (now : UInt64) :
    ruling s results output tools now = some (Superpose.ruling s results output tools now) := by
  cases s with
  | firstWins => rfl
  | lastWins =>
    rw [ruling, predecessor_eq (List.length_pos_iff.mpr h)]
    rfl
  | best =>
    cases hscore : tools.evaluator with
    | none => simp only [ruling, Superpose.ruling, hscore]
    | some score =>
      simp only [ruling, Superpose.ruling, hscore, best_eq score h, Option.map_some]
  | vote =>
    simp only [ruling, Superpose.ruling, vote_eq h, Option.bind_eq_bind, Option.bind_some]
    cases Choice.vote results <;> rfl
  | combine =>
    cases hcombine : tools.combiner with
    | none => simp only [ruling, Superpose.ruling, hcombine]
    | some combine => simp only [ruling, Superpose.ruling, hcombine]
  | validate =>
    simp only [ruling, Superpose.ruling, validate_eq h, Option.bind_eq_bind, Option.bind_some]
    cases Choice.validate results <;> rfl
  | custom =>
    cases hcustom : tools.custom with
    | none => simp only [ruling, Superpose.ruling, hcustom]
    | some custom => simp only [ruling, Superpose.ruling, hcustom]
  | fuzzy =>
    cases hscore : tools.evaluator with
    | none => simp only [ruling, Superpose.ruling, hscore]
    | some score =>
      simp only [ruling, Superpose.ruling, hscore, fuzzy_eq score h, Option.map_some]
  | progressive =>
    rw [ruling, progressive_eq tools.evaluator h]
    rfl
  | speculative =>
    cases hscore : tools.evaluator with
    | none => simp only [ruling, Superpose.ruling, hscore]
    | some score =>
      simp only [ruling, Superpose.ruling, hscore, speculative_eq score h, Option.map_some]
  | multiDim =>
    cases hcriteria : tools.criteria with
    | none => simp only [ruling, Superpose.ruling, hcriteria]
    | some criteria =>
      simp only [ruling, Superpose.ruling, hcriteria, weighted_eq criteria h, Option.map_some]
  | temporal =>
    cases hscore : tools.evaluator with
    | none => simp only [ruling, Superpose.ruling, hscore]
    | some score =>
      cases hkept : tools.trend with
      | none => simp only [ruling, Superpose.ruling, hscore, hkept]
      | some trend =>
        have hne : results.map score ≠ [] := by simpa using h
        have hrecord := record_eq (htrend trend hkept) (results.map score) now
        simp only [ruling, Superpose.ruling, hscore, hkept, choose_eq trend hne, hrecord,
          Option.bind_eq_bind, Option.bind_some, Option.pure_def]
  | ensemble =>
    cases hpanel : tools.panel with
    | none => simp only [ruling, Superpose.ruling, hpanel]
    | some panel =>
      simp only [ruling, Superpose.ruling, hpanel, elected_eq tools panel h, Option.map_some]

end Reduction

end Superpose.ByPosition
