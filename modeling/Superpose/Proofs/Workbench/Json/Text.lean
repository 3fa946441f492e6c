import Superpose.Workbench.Json.Text

/-!
# Quoted texts come back

Whatever follows a text in writing, the reader takes exactly the text. Between quotation marks it is
one character at a time: behind what a character is written as, the reader is where it was, with
that character found.
-/

namespace Superpose.Workbench.Json.Text

theorem hexValue?_digitChar : ∀ d < 16, hexValue? (Nat.digitChar d) = some d := by decide

theorem meaning_of_lt {n : Nat} (h : n < 32) : meaning true none n = .char (Char.ofNat n) := by
  have hhigh : isHigh n = false := by simp only [isHigh, decide_eq_false_iff_not]; omega
  have hlow : isLow n = false := by simp only [isLow, decide_eq_false_iff_not]; omega
  simp [meaning, hhigh, hlow]

theorem readFrom_unit (c : Char) (h : c < ' ') (cs : List Char) :
    readFrom true .escaped ('u' :: '0' :: '0' :: Nat.digitChar (c.toNat / 16) ::
      Nat.digitChar (c.toNat % 16) :: cs) = push c (readFrom true .plain cs) := by
  -- The number of a control character has two digits, and is no half of another character.
  have hsmall : c.toNat < 32 := h
  have hzero : hexValue? '0' = some 0 := rfl
  have hfirst := hexValue?_digitChar (c.toNat / 16) (by omega)
  have hsecond := hexValue?_digitChar (c.toNat % 16) (by omega)
  have hvalue : 16 * (c.toNat / 16) + c.toNat % 16 = c.toNat := Nat.div_add_mod _ _
  simp [readFrom, hzero, hfirst, hsecond, hvalue, meaning_of_lt hsmall]

theorem readFrom_escape (c : Char) (cs : List Char) :
    readFrom true .plain (escape c ++ cs) = push c (readFrom true .plain cs) := by
  have hescaped (e : Char) (h : e ≠ 'u') (hknown : unescape? e = some c) :
      readFrom true .plain ('\\' :: e :: cs) = push c (readFrom true .plain cs) := by
    simp [readFrom, h, hknown]
  unfold escape
  split
  case isTrue h => subst h; exact hescaped '"' (by decide) rfl
  split
  case isTrue h => subst h; exact hescaped '\\' (by decide) rfl
  split
  case isTrue h => subst h; exact hescaped 'n' (by decide) rfl
  split
  case isTrue h => subst h; exact hescaped 'r' (by decide) rfl
  split
  case isTrue h => subst h; exact hescaped 't' (by decide) rfl
  split
  case isTrue h => subst h; exact hescaped 'b' (by decide) rfl
  split
  case isTrue h => subst h; exact hescaped 'f' (by decide) rfl
  split
  case isTrue h =>
    have hbehind (rest : List Char) :
        readFrom true .plain ('\\' :: rest) = readFrom true .escaped rest := by
      simp [readFrom]
    exact (hbehind _).trans (readFrom_unit c h cs)
  case isFalse hquote hbackslash _ _ _ _ _ hcontrol =>
    simp [readFrom, hquote, hbackslash, hcontrol]

theorem readFrom_flatMap_escape (s rest : List Char) :
    readFrom true .plain (s.flatMap escape ++ '"' :: rest) = .ok (s, rest) := by
  induction s with
  | nil => simp [readFrom]
  | cons c s ih =>
    rw [List.flatMap_cons, List.append_assoc, readFrom_escape, ih]
    rfl

/-- The opening mark is for the one who calls the reader to take. -/
theorem read_of_write {s : String} {cs rest : List Char} (h : write s ++ rest = '"' :: cs) :
    read cs = .ok (s, rest) := by
  have : s.toList.flatMap escape ++ '"' :: rest = cs := by simpa [write] using h
  rw [← this, read, readFrom_flatMap_escape]
  simp [Except.map]

end Superpose.Workbench.Json.Text
