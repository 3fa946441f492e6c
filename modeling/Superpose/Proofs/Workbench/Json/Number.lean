import Superpose.Workbench.Json.Number

/-!
# Numbers come back

A number ends where nothing follows that could go on with it (`Breaks`), and what follows then
makes no difference to the number (`Local`). In front of such a text, a whole number that fits into
64 bits is read as it was written.
-/

namespace Superpose.Workbench.Json

/-- A text that goes on with no number in front of it. -/
def Breaks (rest : List Char) : Prop :=
  ∀ c ∈ rest.head?, c.isDigit = false ∧ c ≠ '.' ∧ c ≠ 'e' ∧ c ≠ 'E'

theorem breaks_nil : Breaks [] := by simp [Breaks]

theorem breaks_cons {c : Char} {cs : List Char} :
    Breaks (c :: cs) ↔ c.isDigit = false ∧ c ≠ '.' ∧ c ≠ 'e' ∧ c ≠ 'E' := by
  simp [Breaks]

/-! ## What follows makes no difference -/

/-- A reader finds the same, whatever it is that breaks a number off behind a text. -/
def Local {β : Type} (read : List Char → Reading β) : Prop :=
  ∀ ⦃cs left rest : List Char⦄ ⦃x : β⦄, Breaks rest → read cs = .ok (x, left) →
    read (cs ++ rest) = .ok (x, left ++ rest)

namespace Local

variable {β γ : Type} {read : List Char → Reading β}

/-- A reader that goes on with what a first one found. -/
theorem bind {both : List Char → Reading γ} (hfirst : Local read) (next : β → List Char → Reading γ)
    (hsecond : ∀ x, Local (next x))
    (hsplit : ∀ cs, both cs = (read cs).bind fun found => next found.1 found.2) : Local both := by
  intro cs left rest y hbreaks h
  rw [hsplit] at h ⊢
  cases hfound : read cs with
  | error e => rw [hfound] at h; cases h
  | ok p =>
    rw [hfound] at h
    rw [hfirst hbreaks hfound]
    exact hsecond p.1 hbreaks h

theorem ok (x : β) : Local fun cs => .ok (x, cs) := by
  rintro cs left rest y - h
  cases h
  rfl

theorem error (e : Failure) : Local fun _ => (.error e : Reading β) := by
  rintro cs left rest y - h
  cases h

theorem map (hfirst : Local read) (f : β → γ) :
    Local fun cs => (read cs).map fun (x, cs) => (f x, cs) :=
  hfirst.bind (fun x cs => .ok (f x, cs)) (fun x => ok (f x)) fun cs => by
    cases read cs <;> rfl

end Local

namespace Literal

theorem takeWhile_isDigit_append {rest : List Char} (hbreaks : Breaks rest) (cs : List Char) :
    (cs ++ rest).takeWhile Char.isDigit = cs.takeWhile Char.isDigit := by
  induction cs with
  | nil =>
    cases rest with
    | nil => rfl
    | cons c rest => simp [(breaks_cons.mp hbreaks).1]
  | cons c cs ih => simp [List.takeWhile_cons, ih]

theorem dropWhile_isDigit_append {rest : List Char} (hbreaks : Breaks rest) (cs : List Char) :
    (cs ++ rest).dropWhile Char.isDigit = cs.dropWhile Char.isDigit ++ rest := by
  induction cs with
  | nil =>
    cases rest with
    | nil => rfl
    | cons c rest => simp [(breaks_cons.mp hbreaks).1]
  | cons c cs ih =>
    by_cases hdigit : c.isDigit
    · simp [hdigit, ih]
    · simp [hdigit]

theorem local_readDigits : Local readDigits := by
  intro cs left rest ds hbreaks h
  cases cs with
  | nil => cases h
  | cons c cs =>
    by_cases hdigit : c.isDigit
    · rw [readDigits, if_pos hdigit] at h
      cases h
      rw [List.cons_append, readDigits, if_pos hdigit, ← List.cons_append,
        takeWhile_isDigit_append hbreaks, dropWhile_isDigit_append hbreaks]
    · rw [readDigits, if_neg hdigit] at h
      cases h

/-- Takes no digits for a whole number that begin with a zero in vain. -/
def wholeOf (ds : List Nat) (cs : List Char) : Reading (List Nat) :=
  match ds with
  | 0 :: _ :: _ => .error .malformed
  | ds => .ok (ds, cs)

theorem local_readWhole : Local readWhole := by
  refine local_readDigits.bind wholeOf (fun ds => ?_) fun cs => ?_
  · unfold wholeOf
    split
    · exact .error _
    · exact .ok _
  · unfold readWhole
    cases readDigits cs with
    | error e => rfl
    | ok p => obtain ⟨_ | ⟨_ | d, _ | ⟨_, ds⟩⟩, left⟩ := p <;> rfl

theorem local_readFraction : Local readFraction := by
  intro cs left rest ds hbreaks h
  cases cs with
  | nil =>
    cases h
    cases rest with
    | nil => rfl
    | cons c rest => simp [readFraction, (breaks_cons.mp hbreaks).2.1]
  | cons c cs =>
    by_cases hpoint : c = '.'
    · subst hpoint
      exact local_readDigits.map some hbreaks h
    · have hnone (cs : List Char) : readFraction (c :: cs) = .ok (.none, c :: cs) := by
        simp [readFraction, hpoint]
      rw [hnone] at h
      cases h
      exact hnone _

theorem local_readExponent : Local readExponent := by
  intro cs left rest e hbreaks h
  cases cs with
  | nil =>
    cases h
    cases rest with
    | nil => rfl
    | cons c rest => simp [readExponent, (breaks_cons.mp hbreaks).2.2]
  | cons c cs =>
    by_cases hmark : c = 'e' ∨ c = 'E'
    · simp only [readExponent, if_pos hmark] at h
      cases cs with
      | nil => cases h
      | cons d cs =>
        -- The digits come behind a sign, if there is one.
        have hsign : (readSign (d :: cs ++ rest)) =
            ((readSign (d :: cs)).1, (readSign (d :: cs)).2 ++ rest) := by
          unfold readSign
          split <;> simp_all
        simp only [List.cons_append, readExponent, if_pos hmark]
        rw [← List.cons_append, hsign]
        exact local_readDigits.map (fun ds => some ((readSign (d :: cs)).1, ds)) hbreaks h
    · have hnone (cs : List Char) : readExponent (c :: cs) = .ok (.none, c :: cs) := by
        simp [readExponent, hmark]
      rw [hnone] at h
      cases h
      exact hnone _

theorem local_readUnsigned (negative : Bool) : Local (readUnsigned negative) :=
  local_readWhole.bind _ (fun whole =>
    local_readFraction.bind _ (fun fraction =>
      local_readExponent.bind
        (fun exponent cs =>
          let isPlain := fraction.isNone && exponent.isNone
          .ok ({ negative, whole, fraction := fraction.getD [], exponent, isPlain }, cs))
        (fun _ => .ok _) fun _ => rfl) fun _ => rfl) fun _ => rfl

theorem local_read : Local read := by
  intro cs left rest l hbreaks h
  cases cs with
  | nil => cases h
  | cons c cs =>
    by_cases hminus : c = '-'
    · subst hminus
      exact local_readUnsigned true hbreaks h
    · have hunsigned (cs : List Char) : read (c :: cs) = readUnsigned false (c :: cs) := by
        simp [read, hminus]
      rw [hunsigned] at h
      exact (hunsigned _).trans (local_readUnsigned false hbreaks h)

/-! ## Whole numbers -/

theorem le_foldl (ds : List Nat) (n : Nat) : n ≤ ds.foldl (fun n d => 10 * n + d) n := by
  induction ds generalizing n with
  | nil => exact Nat.le_refl n
  | cons d ds ih => exact Nat.le_trans (by omega) (ih (10 * n + d))

theorem gather_of_lt {ds : List Nat} {n : Nat}
    (h : ds.foldl (fun n d => 10 * n + d) n < UInt64.size) :
    gather n ds = (ds.foldl (fun n d => 10 * n + d) n, []) := by
  induction ds generalizing n with
  | nil => rfl
  | cons d ds ih =>
    have hfits : 10 * n + d < UInt64.size := Nat.lt_of_le_of_lt (le_foldl ds _) h
    rw [gather, if_pos hfits]
    exact ih h

theorem foldl_digitValue_toDigits (n : Nat) :
    ((Nat.toDigits 10 n).map digitValue).foldl (fun n d => 10 * n + d) 0 = n := by
  rw [List.foldl_map]
  exact Nat.ofDigitChars_ten_toDigits

theorem isDigit_of_mem_toDigits {n : Nat} : ∀ c ∈ Nat.toDigits 10 n, c.isDigit = true :=
  fun _ h => Nat.isDigit_of_mem_toDigits (by decide) (by decide) h

/-- No number but zero begins with a zero. -/
theorem digitValue_head_toDigits {n : Nat} (h : 0 < n) :
    ∀ c ∈ (Nat.toDigits 10 n).head?, digitValue c ≠ 0 := by
  induction n using Nat.strongRecOn with
  | _ n ih =>
    by_cases hsmall : n < 10
    · rw [Nat.toDigits_of_lt_base hsmall]
      rintro c ⟨⟩
      have hvalue : digitValue (Nat.digitChar n) = n := Nat.toNat_digitChar_sub_48_of_lt_ten hsmall
      exact hvalue.symm ▸ Nat.ne_of_gt h
    · have hfront : (Nat.toDigits 10 n).head? = (Nat.toDigits 10 (n / 10)).head? := by
        rw [Nat.toDigits_of_base_le (by decide) (by omega), List.head?_append,
          List.head?_eq_some_head Nat.toDigits_ne_nil, Option.some_or]
      rw [hfront]
      exact ih (n / 10) (by omega) (by omega)

theorem readDigits_toDigits (n : Nat) :
    readDigits (Nat.toDigits 10 n) = .ok ((Nat.toDigits 10 n).map digitValue, []) := by
  have hall := isDigit_of_mem_toDigits (n := n)
  have hnone : (Nat.toDigits 10 n ++ []).dropWhile Char.isDigit = [] :=
    List.dropWhile_append_of_pos hall
  have hwhole : (Nat.toDigits 10 n ++ []).takeWhile Char.isDigit = Nat.toDigits 10 n ++ [] :=
    List.takeWhile_append_of_pos hall
  rw [List.append_nil] at hnone hwhole
  cases hwritten : Nat.toDigits 10 n with
  | nil => exact absurd hwritten Nat.toDigits_ne_nil
  | cons c cs =>
    rw [hwritten] at hall hnone hwhole
    rw [readDigits, if_pos (hall c List.mem_cons_self), hwhole, hnone]

theorem readWhole_toDigits (n : Nat) :
    readWhole (Nat.toDigits 10 n) = .ok ((Nat.toDigits 10 n).map digitValue, []) := by
  rw [readWhole, readDigits_toDigits]
  split
  case h_1 hfailed => cases hfailed
  case h_2 hleading =>
    -- Two digits of which the first is a zero: no number is written like that.
    obtain ⟨hdigits, -⟩ := Prod.mk.inj (Except.ok.inj hleading)
    obtain ⟨c, cs, hwritten, hzero, hmore⟩ := List.map_eq_cons_iff.mp hdigits
    obtain rfl | hpositive := Nat.eq_zero_or_pos n
    · cases hwritten
      cases hmore
    · exact (digitValue_head_toDigits hpositive c (by simp [hwritten]) hzero).elim
  case h_3 hsame => exact hsame.symm

theorem read_toDigits (n : Nat) :
    read (Nat.toDigits 10 n) =
      .ok (⟨false, (Nat.toDigits 10 n).map digitValue, [], none, true⟩, []) := by
  have hunsigned : read (Nat.toDigits 10 n) = readUnsigned false (Nat.toDigits 10 n) := by
    have hall := isDigit_of_mem_toDigits (n := n)
    unfold read
    split
    · rename_i hminus
      exact absurd (hall '-' (by simp [hminus])) (by decide)
    · rfl
  rw [hunsigned, readUnsigned, readWhole_toDigits]
  rfl

end Literal

theorem Number.local_read : Local Number.read := by
  refine Literal.local_read.bind
    (fun l cs => l.value?.elim (.error .malformed) fun n => .ok (n, cs)) (fun l => ?_) fun cs => ?_
  · cases l.value? with
    | some n => exact .ok _
    | none => exact .error _
  · unfold Number.read
    cases Literal.read cs with
    | error e => rfl
    | ok p =>
      obtain ⟨l, left⟩ := p
      simp only [bind, Except.bind]
      cases l.value? <;> rfl

theorem Number.read_toDigits {n : Nat} (h : n < UInt64.size) :
    Number.read (Nat.toDigits 10 n) = .ok (.whole (.ofNat n), []) := by
  have hvalue :
      (⟨false, (Nat.toDigits 10 n).map Literal.digitValue, [], none, true⟩ : Literal).value? =
        some (.whole (.ofNat n)) := by
    have hdigits := Literal.foldl_digitValue_toDigits n
    have hfits := Literal.gather_of_lt (n := 0) (hdigits.symm ▸ h)
    rw [hdigits] at hfits
    simp [Literal.value?, hfits, Literal.integer]
  rw [Number.read, Literal.read_toDigits]
  simp only [bind, Except.bind, hvalue]
  rfl

end Superpose.Workbench.Json
