import Superpose.Workbench.Json.Codec
import Superpose.Proofs.Workbench.Json.Number
import Superpose.Proofs.Workbench.Json.Text

/-!
# Values come back

A codec restores a value if it reads it from where it wrote it, whatever blanks stand before and
whatever follows, as long as that breaks a number off (`Codec.Restores`). The codecs of truth
values, words, texts, names and optional values restore all that they may have to write. That of
real numbers restores a number as soon as its digits alone are read back as that number
(`Number.ReadsBack`).
-/

namespace Superpose.Workbench.Json

theorem dropBlanks_append_cons {pad : List Char} {c : Char} (hblank : pad.all isBlank)
    (h : isBlank c = false) (cs : List Char) : dropBlanks (pad ++ c :: cs) = c :: cs := by
  rw [dropBlanks, List.dropWhile_append_of_pos (List.all_eq_true.mp hblank)]
  exact List.dropWhile_cons_of_neg (by simp [h])

namespace Number

/-- The digits of a real number, with nothing around them, are read as that number. -/
def ReadsBack (x : Float) : Prop := ∃ n, read (writeFloat x) = .ok (n, []) ∧ n.toFloat = x

instance (x : Float) : Decidable (ReadsBack x) :=
  match hfound : read (writeFloat x) with
  | .ok (n, []) => decidable_of_iff (n.toFloat = x) (by simp [ReadsBack, hfound])
  | .ok (_, _ :: _) => .isFalse (by simp [ReadsBack, hfound])
  | .error _ => .isFalse (by simp [ReadsBack, hfound])

/-- A number begins with a minus sign or a digit. -/
def Begins (c : Char) : Prop := c = '-' ∨ c.isDigit = true

theorem Begins.ne {c d : Char} (h : Begins c) (hminus : d ≠ '-') (hdigit : d.isDigit = false) :
    c ≠ d := by
  rintro rfl
  rcases h with hsame | hsame
  · exact hminus hsame
  · rw [hdigit] at hsame
    cases hsame

theorem Begins.not_isBlank {c : Char} (h : Begins c) : isBlank c = false := by
  have hspace : c ≠ ' ' := h.ne (by decide) rfl
  have hline : c ≠ '\n' := h.ne (by decide) rfl
  have htab : c ≠ '\t' := h.ne (by decide) rfl
  have hcarriage : c ≠ '\r' := h.ne (by decide) rfl
  simp [isBlank, hspace, hline, htab, hcarriage]

theorem begins_of_read {c : Char} {cs left : List Char} {n : Number}
    (h : read (c :: cs) = .ok (n, left)) : Begins c := by
  refine Classical.byContradiction fun hother => ?_
  obtain ⟨hminus, hdigit⟩ := not_or.mp hother
  simp [read, Literal.read, hminus, Literal.readUnsigned, Literal.readWhole, Literal.readDigits,
    hdigit, bind, Except.bind] at h

end Number

namespace Codec

variable {β γ : Type}

/-- A codec reads a value from where it wrote it. -/
def Restores (c : Codec β) (x : β) : Prop :=
  ∀ depth (pad rest : List Char), pad.all isBlank → Breaks rest →
    c.read (pad ++ (c.write depth x ++ rest)) = .ok (x, rest)

theorem readNumber_append {pad cs rest : List Char} {n : Number} (h : Number.read cs = .ok (n, []))
    (hblank : pad.all isBlank) (hbreaks : Breaks rest) :
    readNumber (pad ++ (cs ++ rest)) = .ok (n, rest) := by
  cases cs with
  | nil => cases h
  | cons c cs =>
    have hbegins := Number.begins_of_read h
    rw [readNumber, List.cons_append, dropBlanks_append_cons hblank hbegins.not_isBlank]
    exact (if_pos hbegins).trans (Number.local_read hbreaks h)

theorem restores_flag (b : Bool) : flag.Restores b := by
  intro depth pad rest hblank _
  cases b with
  | false =>
    have hopens := dropBlanks_append_cons hblank (c := 'f') rfl ("alse".toList ++ rest)
    simp only [flag]
    exact hopens ▸ rfl
  | true =>
    have hopens := dropBlanks_append_cons hblank (c := 't') rfl ("rue".toList ++ rest)
    simp only [flag]
    exact hopens ▸ rfl

theorem restores_wholeBelow {bound n : Nat} (h : n < bound) (hword : bound ≤ UInt64.size) :
    (wholeBelow bound).Restores n := by
  intro depth pad rest hblank hbreaks
  have hfits : n < UInt64.size := Nat.lt_of_lt_of_le h hword
  have hvalue : (UInt64.ofNat n).toNat = n := UInt64.toNat_ofNat_of_lt hfits
  simp [wholeBelow, readNumber_append (Number.read_toDigits hfits) hblank hbreaks, hvalue, h]

theorem Restores.via {c : Codec β} {read : β → γ} {write : γ → β} {x : γ}
    (h : c.Restores (write x)) (hinverse : read (write x) = x) : (c.via read write).Restores x := by
  intro depth pad rest hblank hbreaks
  simp only [Codec.via, h depth pad rest hblank hbreaks, Except.map, hinverse]

theorem restores_word (n : UInt64) : word.Restores n :=
  (restores_wholeBelow n.toNat_lt (Nat.le_refl _)).via UInt64.ofNat_toNat

theorem restores_shortWord (n : UInt32) : shortWord.Restores n :=
  (restores_wholeBelow n.toNat_lt (by decide)).via UInt32.ofNat_toNat

theorem restores_real {x : Float} (h : Number.ReadsBack x) : real.Restores x := by
  intro depth pad rest hblank hbreaks
  obtain ⟨n, hread, hvalue⟩ := h
  simp [real, readNumber_append hread hblank hbreaks, Except.map, hvalue]

theorem restores_text (s : String) : text.Restores s := by
  intro depth pad rest hblank _
  have hwritten : Text.write s ++ rest =
    '"' :: (s.toList.flatMap Text.escape ++ ['"'] ++ rest) := rfl
  simp only [text, readText]
  rw [hwritten, dropBlanks_append_cons hblank rfl]
  exact Text.read_of_write hwritten

theorem restores_choice {all : List β} {name : β → String} {x : β}
    (hknown : (all.find? fun y => name y == name x) = some x) : (choice all name).Restores x := by
  intro depth pad rest hblank _
  have hwritten : Text.write (name x) ++ rest =
    '"' :: ((name x).toList.flatMap Text.escape ++ ['"'] ++ rest) := rfl
  simp only [choice]
  rw [hwritten, dropBlanks_append_cons hblank rfl]
  simp only [readName, Text.read_of_write hwritten, hknown]

/-- What is there must not look like a void value. -/
theorem Restores.optional {c : Codec β} {x : Option β} (h : ∀ y ∈ x, c.Restores y)
    (hstart : ∀ y ∈ x, ∀ depth, ∃ d tail, c.write depth y = d :: tail ∧ Number.Begins d) :
    c.optional.Restores x := by
  intro depth pad rest hblank hbreaks
  cases x with
  | none =>
    have hopens := dropBlanks_append_cons hblank (c := 'n') rfl ("ull".toList ++ rest)
    simp only [Codec.optional]
    exact hopens ▸ rfl
  | some y =>
    have hread := h y rfl depth [] rest rfl hbreaks
    obtain ⟨d, tail, hwritten, hbegins⟩ := hstart y rfl depth
    have hopens := dropBlanks_append_cons hblank hbegins.not_isBlank (tail ++ rest)
    have hvoid : d ≠ 'n' := hbegins.ne (by decide) rfl
    rw [List.nil_append, hwritten, List.cons_append] at hread
    simp [Codec.optional, hwritten, hopens, hvoid, hread, Except.map]

theorem restores_optional_word (n : Option UInt64) : word.optional.Restores n := by
  refine Restores.optional (fun y _ => restores_word y) fun y _ _ => ?_
  obtain ⟨c, tail, hwritten⟩ := List.exists_cons_of_ne_nil
    (Nat.toDigits_ne_nil (n := y.toNat) (b := 10))
  have hdigit := Literal.isDigit_of_mem_toDigits c (hwritten ▸ List.mem_cons_self)
  exact ⟨c, tail, hwritten, .inr hdigit⟩

end Codec

end Superpose.Workbench.Json
