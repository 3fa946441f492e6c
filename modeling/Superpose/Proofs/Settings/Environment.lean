import Superpose.Settings.Environment

/-!
# Settings under an environment

What the value of a variable asks for is said by `Variable.Asks`, without the functions that read
it: a word in capitals or not, or a decimal numeral in the range of a word. Values are read just so
(`change_eq_ok_iff`), and a value that asks for nothing is the only kind of fault.

Settings are the seven that a variable overrides (`setting?`) and the others (`others`). A change
touches the setting of its own variable and nothing else (`setting?_apply_of_ne`, `others_apply`),
which carries over to a run through some variables (`overriding`): all of them are read, or the run
stops at the first that makes no sense, and those that were read have their settings overridden
(`Overridden`). Settings that are overridden already stay as they are
(`Overridden.overrideBy_append`), so a second run through the same variables ends like the first.
-/

namespace Superpose.Settings

/-! ## What a value asks for -/

/-- A text that writes a word in decimal digits, perhaps behind a plus sign. -/
def Numeral (text : String) (n : UInt64) : Prop :=
  ∃ sign digits, text.toList = sign ++ digits ∧ (sign = [] ∨ sign = ['+']) ∧ digits ≠ [] ∧
    (∀ c ∈ digits, c.isDigit) ∧ Nat.ofDigitChars 10 digits 0 = n.toNat

/-- The words that stand for a truth value. -/
def flagWords : Bool → List String
  | true => ["1", "true", "yes", "on"]
  | false => ["0", "false", "no", "off"]

/-- Whether a text asks for a change, as the value of a variable. -/
def Variable.Asks (text : String) (c : Change) : Variable → Prop
  | logLevel => .logLevel text = c
  | logFile => ∃ keeps, text.toLower ∈ flagWords keeps ∧ .logFile keeps = c
  | logDirectory => .logDirectory text = c
  | dispatch => ∃ mode : DispatchMode, text.toLower = mode.name ∧ .dispatch mode = c
  | waveSize => ∃ size, Numeral text size ∧ .waveSize size = c
  | busCapacity => ∃ capacity, Numeral text capacity ∧ .busCapacity capacity = c
  | seed => ∃ seed, Numeral text seed ∧ .seed seed = c

theorem le_ofDigitChars (n : Nat) (cs : List Char) : n ≤ Nat.ofDigitChars 10 cs n := by
  induction cs generalizing n with
  | nil => exact Nat.le_refl n
  | cons c cs ih =>
    rw [Nat.ofDigitChars_cons]
    exact Nat.le_trans (by omega) (ih _)

/-- Digits are read as the number that they write, as long as it is in the range of a word. -/
theorem appendDigits_eq_ok_iff {n m : Nat} {cs : List Char} (hn : n < UInt64.size) :
    appendDigits n cs = .ok m ↔
      (∀ c ∈ cs, c.isDigit) ∧ Nat.ofDigitChars 10 cs n = m ∧ m < UInt64.size := by
  induction cs generalizing n with
  | nil =>
    rw [appendDigits, Except.ok.injEq]
    exact ⟨fun h => ⟨nofun, h, h ▸ hn⟩, fun h => h.2.1⟩
  | cons c cs ih =>
    rw [appendDigits, Nat.ofDigitChars_cons, List.forall_mem_cons]
    by_cases hdigit : c.isDigit
    · simp only [hdigit, Bool.not_true, Bool.false_eq_true, if_false, true_and]
      split
      · next hsmall => exact ih hsmall
      · next hlarge =>
        -- The number only grows with the digits that follow.
        refine ⟨nofun, fun ⟨_, hsame, hsmall⟩ => absurd hsmall ?_⟩
        have hgrows := le_ofDigitChars (10 * n + (c.toNat - '0'.toNat)) cs
        omega
    · simp [hdigit]

theorem readDigits_eq_ok_iff {cs : List Char} {n : UInt64} :
    (appendDigits 0 cs).map UInt64.ofNat = .ok n ↔
      (∀ c ∈ cs, c.isDigit) ∧ Nat.ofDigitChars 10 cs 0 = n.toNat := by
  have hdigits {m : Nat} : appendDigits 0 cs = .ok m ↔
      (∀ c ∈ cs, c.isDigit) ∧ Nat.ofDigitChars 10 cs 0 = m ∧ m < UInt64.size :=
    appendDigits_eq_ok_iff (by decide)
  constructor
  · intro h
    cases hfound : appendDigits 0 cs with
    | error cause => rw [hfound] at h; cases h
    | ok m =>
      obtain ⟨hall, hsame, hsmall⟩ := hdigits.mp hfound
      rw [hfound] at h
      cases h
      exact ⟨hall, by rw [hsame, UInt64.toNat_ofNat_of_lt' hsmall]⟩
  · rintro ⟨hall, hsame⟩
    rw [hdigits.mpr ⟨hall, hsame, n.toNat_lt⟩, Except.map, UInt64.ofNat_toNat]

theorem numeral_plus {text : String} {n : UInt64} {cs : List Char}
    (h : text.toList = '+' :: cs) :
    Numeral text n ↔
      cs ≠ [] ∧ (∀ c ∈ cs, c.isDigit) ∧ Nat.ofDigitChars 10 cs 0 = n.toNat := by
  constructor
  · rintro ⟨sign, digits, hparts, rfl | rfl, hnonempty, hall, hsame⟩
    · rw [h, List.nil_append] at hparts
      exact absurd (hall '+' (by simp [← hparts])) (by decide)
    · rw [h] at hparts
      obtain rfl := List.cons.inj hparts |>.2
      exact ⟨hnonempty, hall, hsame⟩
  · rintro ⟨hnonempty, hall, hsame⟩
    exact ⟨['+'], cs, h, .inr rfl, hnonempty, hall, hsame⟩

theorem numeral_bare {text : String} {n : UInt64} (h : ∀ cs, text.toList ≠ '+' :: cs) :
    Numeral text n ↔ text.toList ≠ [] ∧ (∀ c ∈ text.toList, c.isDigit) ∧
      Nat.ofDigitChars 10 text.toList 0 = n.toNat := by
  constructor
  · rintro ⟨sign, digits, hparts, rfl | rfl, hnonempty, hall, hsame⟩
    · rw [List.nil_append] at hparts
      rw [hparts]
      exact ⟨hnonempty, hall, hsame⟩
    · exact absurd hparts (h digits)
  · rintro ⟨hnonempty, hall, hsame⟩
    exact ⟨[], text.toList, rfl, .inl rfl, hnonempty, hall, hsame⟩

theorem wordOf_eq_ok_iff {text : String} {n : UInt64} : wordOf text = .ok n ↔ Numeral text n := by
  unfold wordOf
  split
  · next hempty =>
    rw [numeral_bare (by simp [hempty])]
    exact ⟨nofun, fun h => absurd hempty h.1⟩
  · next hplus =>
    rw [numeral_plus hplus]
    exact ⟨nofun, fun h => absurd rfl h.1⟩
  · next cs hnonempty hplus =>
    rw [numeral_plus hplus, readDigits_eq_ok_iff]
    exact ⟨fun h => ⟨fun hempty => hnonempty hempty, h⟩, fun h => h.2⟩
  · next hnonempty _ hbare =>
    rw [numeral_bare hbare, readDigits_eq_ok_iff]
    exact ⟨fun h => ⟨hnonempty, h⟩, fun h => h.2⟩

theorem not_mem_flagWords_false {word : String} (h : word ∈ flagWords true) :
    word ∉ flagWords false := by
  simp only [flagWords, List.mem_cons, List.not_mem_nil, or_false] at h
  rcases h with rfl | rfl | rfl | rfl <;> decide

theorem flagOf_eq_ok_iff {text : String} {keeps : Bool} :
    flagOf text = .ok keeps ↔ text.toLower ∈ flagWords keeps := by
  change (if text.toLower ∈ flagWords true then Except.ok true
    else if text.toLower ∈ flagWords false then .ok false
    else .error (ValueFault.notFlag text.toLower)) = .ok keeps ↔ _
  by_cases hyes : text.toLower ∈ flagWords true
  · cases keeps <;> simp [hyes, not_mem_flagWords_false hyes]
  · by_cases hno : text.toLower ∈ flagWords false
    · cases keeps <;> simp [hyes, hno]
    · cases keeps <;> simp [hyes, hno]

theorem dispatchOf_eq_ok_iff {text : String} {mode : DispatchMode} :
    dispatchOf text = .ok mode ↔ text.toLower = mode.name := by
  unfold dispatchOf
  split
  · next h => cases mode <;> simp [DispatchMode.name, h]
  · next h => cases mode <;> simp [DispatchMode.name, h]
  · next hinline hparallel =>
    cases mode with
    | inline => exact ⟨nofun, fun h => absurd h hinline⟩
    | parallel => exact ⟨nofun, fun h => absurd h hparallel⟩

theorem map_eq_ok_iff {β γ : Type} {x : Except ValueFault β} {f : β → γ} {y : γ} :
    x.map f = .ok y ↔ ∃ b, x = .ok b ∧ f b = y := by
  cases x <;> simp [Except.map]

/-- **Values are read as what they ask for.** -/
theorem change_eq_ok_iff {v : Variable} {text : String} {c : Change} :
    v.change text = .ok c ↔ v.Asks text c := by
  cases v with
  | logLevel | logDirectory => simp only [Variable.change, Variable.Asks, Except.ok.injEq]
  | logFile => simp only [Variable.change, Variable.Asks, map_eq_ok_iff, flagOf_eq_ok_iff]
  | dispatch => simp only [Variable.change, Variable.Asks, map_eq_ok_iff, dispatchOf_eq_ok_iff]
  | waveSize | busCapacity | seed =>
    simp only [Variable.change, Variable.Asks, map_eq_ok_iff, wordOf_eq_ok_iff]

theorem change_eq_error_iff {v : Variable} {text : String} :
    (∃ cause, v.change text = .error cause) ↔ ¬ ∃ c, v.Asks text c := by
  simp only [← change_eq_ok_iff]
  cases v.change text <;> simp

/-! ## Settings and changes -/

/-- The setting that a variable overrides, as the change to it, if it has a value. -/
def setting? (s : Settings) : Variable → Option Change
  | .logLevel => some (.logLevel s.logging.level)
  | .logFile => some (.logFile s.logging.keepsFile)
  | .logDirectory => some (.logDirectory s.logging.directory)
  | .dispatch => some (.dispatch s.register.dispatch)
  | .waveSize => some (.waveSize s.register.waveSize)
  | .busCapacity => some (.busCapacity s.bus.capacity)
  | .seed => s.forecast.seed.map .seed

/-- The settings that no variable overrides; those that one does are blotted out. -/
def others (s : Settings) : Settings :=
  { s with
    logging := {}
    register := { s.register with dispatch := .inline, waveSize := 0 }
    bus.capacity := 0
    forecast.seed := none }

/-- There is nothing else to settings. -/
theorem eq_of_setting?_eq {s t : Settings} (hothers : t.others = s.others)
    (hnamed : ∀ v, t.setting? v = s.setting? v) : t = s := by
  have hlevel : t.logging.level = s.logging.level := by simpa [setting?] using hnamed .logLevel
  have hfile : t.logging.keepsFile = s.logging.keepsFile := by
    simpa [setting?] using hnamed .logFile
  have hdirectory : t.logging.directory = s.logging.directory := by
    simpa [setting?] using hnamed .logDirectory
  have hdispatch : t.register.dispatch = s.register.dispatch := by
    simpa [setting?] using hnamed .dispatch
  have hsize : t.register.waveSize = s.register.waveSize := by
    simpa [setting?] using hnamed .waveSize
  have hcapacity : t.bus.capacity = s.bus.capacity := by simpa [setting?] using hnamed .busCapacity
  have hseed : t.forecast.seed = s.forecast.seed :=
    Option.map_injective (fun _ _ => Change.seed.inj) (hnamed .seed)
  obtain ⟨⟨_, _, _⟩, ⟨_, _, _, _⟩, _, ⟨_, _, _, _, _, _, _, _, _⟩, ⟨_, _, _, _, _⟩, _⟩ := s
  obtain ⟨⟨_, _, _⟩, ⟨_, _, _, _⟩, _, ⟨_, _, _, _, _, _, _, _, _⟩, ⟨_, _, _, _, _⟩, _⟩ := t
  simp_all [Settings.others]

/-- The variable whose setting a change touches. -/
def Change.variable : Change → Variable
  | .logLevel _ => .logLevel
  | .logFile _ => .logFile
  | .logDirectory _ => .logDirectory
  | .dispatch _ => .dispatch
  | .waveSize _ => .waveSize
  | .busCapacity _ => .busCapacity
  | .seed _ => .seed

theorem variable_of_asks {v : Variable} {text : String} {c : Change} (h : v.Asks text c) :
    c.variable = v := by
  cases v with
  | logLevel | logDirectory => exact h ▸ rfl
  | logFile | dispatch | waveSize | busCapacity | seed =>
    obtain ⟨_, -, rfl⟩ := h
    rfl

theorem others_apply (s : Settings) (c : Change) : (s.apply c).others = s.others := by
  cases c <;> rfl

theorem setting?_apply_self (s : Settings) (c : Change) :
    (s.apply c).setting? c.variable = some c := by
  cases c <;> rfl

theorem setting?_apply_of_ne (s : Settings) {c : Change} {v : Variable} (h : c.variable ≠ v) :
    (s.apply c).setting? v = s.setting? v := by
  cases c <;> cases v <;> first | rfl | exact absurd rfl h

/-- A change to what is there changes nothing. -/
theorem apply_eq_self {s : Settings} {c : Change} (h : s.setting? c.variable = some c) :
    s.apply c = s := by
  refine eq_of_setting?_eq (s.others_apply c) fun v => ?_
  by_cases hown : c.variable = v
  · rw [← hown, setting?_apply_self, h]
  · exact s.setting?_apply_of_ne hown

/-! ## Runs through variables -/

variable {environment : String → Option String} {vs : List Variable} {s t : Settings}

/-- Settings `t` are settings `s` as some variables override them: the value of each that is present
asks for a change, which its setting in `t` has undergone, and all else is as in `s`. -/
structure Overridden (environment : String → Option String) (vs : List Variable)
    (s t : Settings) : Prop where
  present : ∀ v ∈ vs, ∀ text, environment v.name = some text →
    ∃ c, v.Asks text c ∧ t.setting? v = some c
  absent : ∀ v, (v ∈ vs → environment v.name = none) → t.setting? v = s.setting? v
  others : t.others = s.others

namespace Overridden

theorem nil (s : Settings) : Overridden environment [] s s := ⟨nofun, fun _ _ => rfl, rfl⟩

theorem cons_absent {v : Variable} (h : Overridden environment vs s t)
    (hmissing : environment v.name = none) : Overridden environment (v :: vs) s t where
  present w hw text hheld := by
    rcases List.mem_cons.mp hw with rfl | hw
    · rw [hmissing] at hheld
      cases hheld
    · exact h.present w hw text hheld
  absent w hw := h.absent w fun hmem => hw (List.mem_cons_of_mem _ hmem)
  others := h.others

/-- A variable that is present overrides its setting, whatever the settings are that the others
override. -/
theorem cons_present {v : Variable} {text : String} {c : Change}
    (h : Overridden environment vs (s.apply c) t) (hheld : environment v.name = some text)
    (hasks : v.Asks text c) : Overridden environment (v :: vs) s t where
  present w hw text' hheld' := by
    by_cases hlater : w ∈ vs
    · exact h.present w hlater text' hheld'
    · -- No later variable touches the setting again.
      obtain rfl := (List.mem_cons.mp hw).resolve_right hlater
      obtain rfl : text = text' := Option.some.inj (hheld.symm.trans hheld')
      refine ⟨c, hasks, ?_⟩
      rw [h.absent w fun hmem => absurd hmem hlater, ← variable_of_asks hasks, setting?_apply_self]
  absent w hw := by
    have hother : c.variable ≠ w := by
      rintro rfl
      have hmissing := hw (variable_of_asks hasks ▸ List.mem_cons_self)
      rw [variable_of_asks hasks, hheld] at hmissing
      cases hmissing
    rw [h.absent w fun hmem => hw (List.mem_cons_of_mem _ hmem), setting?_apply_of_ne s hother]
  others := h.others.trans (others_apply s c)

/-- Variables whose settings are overridden already are passed over. -/
theorem overrideBy_append (h : Overridden environment vs s t) (rest : List Variable) :
    overrideBy environment (vs ++ rest) t = overrideBy environment rest t := by
  have hpresent := h.present
  clear h
  induction vs with
  | nil => rfl
  | cons v vs ih =>
    have hlater := ih fun w hw => hpresent w (List.mem_cons_of_mem _ hw)
    rw [List.cons_append, overrideBy]
    cases hread : environment v.name with
    | none => exact hlater
    | some text =>
      obtain ⟨c, hasks, hsame⟩ := hpresent v List.mem_cons_self text hread
      have hsame : t.apply c = t := apply_eq_self (variable_of_asks hasks ▸ hsame)
      simp only [change_eq_ok_iff.mpr hasks, hsame, hlater]

end Overridden

/-- How a run through variables ends: all of them are read, or it stops at the first one whose value
asks for nothing. -/
inductive Overriding (environment : String → Option String) (vs : List Variable) (s : Settings) :
    Option EnvironmentFault × Settings → Prop
  | finished {t : Settings} (hread : Overridden environment vs s t) :
    Overriding environment vs s (none, t)
  | stopped {before after : List Variable} {v : Variable} {text : String} {cause : ValueFault}
    {t : Settings} (horder : vs = before ++ v :: after) (hread : Overridden environment before s t)
    (hheld : environment v.name = some text) (hfaulty : v.change text = .error cause) :
    Overriding environment vs s (some ⟨v, cause⟩, t)

/-- One more variable in front, with what it does to the settings. -/
theorem Overriding.cons {v : Variable} {s' : Settings}
    {outcome : Option EnvironmentFault × Settings} (h : Overriding environment vs s' outcome)
    (hstep : ∀ {vs t}, Overridden environment vs s' t → Overridden environment (v :: vs) s t) :
    Overriding environment (v :: vs) s outcome := by
  cases h with
  | finished hread => exact .finished (hstep hread)
  | stopped horder hread hheld hfaulty =>
    exact .stopped (congrArg (v :: ·) horder) (hstep hread) hheld hfaulty

/-- **A run through variables** ends in one of two ways. -/
theorem overriding (environment : String → Option String) (vs : List Variable) (s : Settings) :
    Overriding environment vs s (overrideBy environment vs s) := by
  induction vs generalizing s with
  | nil => exact .finished (.nil s)
  | cons v vs ih =>
    rw [overrideBy]
    cases hheld : environment v.name with
    | none => exact (ih s).cons fun hread => hread.cons_absent hheld
    | some text =>
      cases hchange : v.change text with
      | error cause =>
        simp only [hchange]
        exact .stopped (List.nil_append _).symm (.nil s) hheld hchange
      | ok c =>
        simp only [hchange]
        exact (ih _).cons fun hread => hread.cons_present hheld (change_eq_ok_iff.mp hchange)

/-- A run that starts where one has ended ends there as well, and in the same way. -/
theorem overrideBy_again {outcome : Option EnvironmentFault × Settings}
    (h : Overriding environment vs s outcome) :
    overrideBy environment vs outcome.2 = outcome := by
  cases h with
  | finished hread => simpa [overrideBy] using hread.overrideBy_append []
  | @stopped before after v text cause t horder hread hheld hfaulty =>
    subst horder
    rw [hread.overrideBy_append, overrideBy]
    simp only [hheld, hfaulty]

theorem Variable.mem_all (v : Variable) : v ∈ all := by cases v <;> decide

/-- **Settings under an environment.** No fault is found just if the value of every variable that is
present asks for a change. Then the setting of each such variable has undergone its change, and all
other settings are as before. A fault is that of the first variable whose value asks for nothing:
the variables in front of it, and they alone, have overridden their settings. A second time changes
nothing more and finds the same. -/
theorem environment_overlay (s : Settings) (environment : String → Option String) :
    let outcome := s.override environment
    (outcome.1 = none ↔
      ∀ (v : Variable) (text : String), environment v.name = some text → ∃ c, v.Asks text c) ∧
    (outcome.1 = none → Overridden environment Variable.all s outcome.2) ∧
    (∀ fault, outcome.1 = some fault → ∃ before after text,
      Variable.all = before ++ fault.culprit :: after ∧
        environment fault.culprit.name = some text ∧ (¬ ∃ c, fault.culprit.Asks text c) ∧
        fault.culprit.change text = .error fault.cause ∧
        Overridden environment before s outcome.2) ∧
    outcome.2.override environment = outcome := by
  intro outcome
  have hends : Overriding environment Variable.all s outcome := overriding ..
  have hagain : outcome.2.override environment = outcome := overrideBy_again hends
  clear_value outcome
  cases hends with
  | finished hread =>
    exact ⟨⟨fun _ v text hheld => (hread.present v v.mem_all text hheld).imp fun _ h => h.1,
      fun _ => rfl⟩, fun _ => hread, nofun, hagain⟩
  | @stopped before after v text cause t horder hread hheld hfaulty =>
    have hnothing := change_eq_error_iff.mp ⟨cause, hfaulty⟩
    refine ⟨⟨nofun, fun hall => absurd (hall v text hheld) hnothing⟩, nofun, ?_, hagain⟩
    rintro _ ⟨⟩
    exact ⟨before, after, text, horder, hheld, hnothing, hfaulty, hread⟩

section Samples

/-- The variables of an environment by name. -/
def environmentOf (values : List (Variable × String)) (name : String) : Option String :=
  (values.find? fun v => v.1.name == name).map Prod.snd

/-- Two variables that make sense, one that does not, and behind it one that would. -/
def spoiled : String → Option String :=
  environmentOf [(.logFile, "YES"), (.dispatch, "Parallel"), (.waveSize, "-1"), (.seed, "+42")]

/-- The wave size stops the run; what is in front of it stays overridden, a second time as well. -/
theorem environment_overlay_spoiled :
    (override {} spoiled).1 = some ⟨.waveSize, .notDigit⟩ ∧
      (∃ before after, Variable.all = before ++ .waveSize :: after ∧
        Overridden spoiled before {} (override {} spoiled).2) ∧
      (override {} spoiled).2.setting? .logFile = some (.logFile true) ∧
      (override {} spoiled).2.setting? .dispatch = some (.dispatch .parallel) ∧
      (override {} spoiled).2.setting? .waveSize = some (.waveSize 0) ∧
      (override {} spoiled).2.setting? .seed = none ∧
      (override {} spoiled).2.override spoiled = override {} spoiled := by
  obtain ⟨-, -, hfault, hagain⟩ := environment_overlay {} spoiled
  have hstop : (override {} spoiled).1 = some ⟨.waveSize, .notDigit⟩ := by decide +kernel
  obtain ⟨before, after, -, horder, -, -, -, hread⟩ := hfault _ hstop
  exact ⟨hstop, ⟨before, after, horder, hread⟩, by decide +kernel, by decide +kernel,
    by decide +kernel, by decide +kernel, hagain⟩

end Samples

end Superpose.Settings
