import Mathlib.Data.List.Forall2
import Superpose.Workbench.Json.Record
import Superpose.Proofs.Workbench.Json.Codec

/-!
# Records come back

What a record has in a field is read from where it was written as a change of a record
(`Field.Brings`). If the keys are different, an object in writing is read field after field: each
step takes one of those that are still to come (`Awaits`) and makes its change. If all changes
together make of the record that is read into the one that was written, it comes back.
-/

namespace Superpose.Workbench.Json

variable {β σ : Type}

/-- What a record has in a field is read as a change of records. -/
def Field.Brings (f : Field σ) (s : σ) (change : σ → σ) : Prop :=
  ∀ depth (pad rest : List Char), pad.all isBlank → Breaks rest →
    f.read (pad ++ (f.write depth s ++ rest)) = .ok (change, rest)

theorem Codec.Restores.brings {c : Codec β} {get : σ → β} {s : σ} (h : c.Restores (get s))
    (key : String) (required : Bool) (set : σ → β → σ) :
    (c.field key required get set).Brings s fun r => set r (get s) := by
  intro depth pad rest hblank hbreaks
  simp only [Codec.field, h depth pad rest hblank hbreaks, Except.map]

/-- Where no two values have the same name, each of them is found by its name. -/
theorem find?_name {all : List β} {name : β → String} (hdistinct : (all.map name).Nodup) {x : β}
    (hx : x ∈ all) : (all.find? fun y => name y == name x) = some x := by
  induction all with
  | nil => cases hx
  | cons y all ih =>
    rw [List.map_cons, List.nodup_cons] at hdistinct
    by_cases hsame : name y = name x
    · rw [List.find?_cons_of_pos (by simp [hsame])]
      rcases List.mem_cons.mp hx with rfl | hlater
      · rfl
      · exact (hdistinct.1 (hsame ▸ List.mem_map_of_mem hlater)).elim
    · rw [List.find?_cons_of_neg (by simp [hsame])]
      exact ih hdistinct.2 ((List.mem_cons.mp hx).resolve_left fun h => hsame (h ▸ rfl))

namespace Record

variable {fields todo : List (Field σ)}

/-- The fields of a record in writing, of which the first one follows others or not. -/
def members (depth : Nat) (s : σ) : (isFresh : Bool) → List (Field σ) → List Char
  | _, [] => []
  | isFresh, f :: fields =>
    (if isFresh then [] else [',']) ++ (writeField depth s f ++ members depth s false fields)

theorem intercalate_writeField (depth : Nat) (s : σ) (fields : List (Field σ)) :
    [','].intercalate (fields.map (writeField depth s)) = members depth s true fields := by
  induction fields with
  | nil => rfl
  | cons f fields ih =>
    cases fields with
    | nil => simp [members]
    | cons g fields =>
      rw [List.map_cons, List.map_cons, List.intercalate_cons_cons, ← List.map_cons, ih]
      simp [members]

theorem write_append (fields : List (Field σ)) (depth : Nat) (s : σ) (rest : List Char) :
    write fields depth s ++ rest =
      '{' :: (members depth s true fields ++ (newLine depth ++ '}' :: rest)) := by
  simp [write, intercalate_writeField]

theorem all_isBlank_newLine (depth : Nat) : (newLine depth).all isBlank = true := by
  simp [newLine, isBlank]

theorem breaks_members (depth : Nat) (s : σ) (fields : List (Field σ)) (rest : List Char) :
    Breaks (members depth s false fields ++ (newLine depth ++ rest)) := by
  cases fields with
  | nil => exact breaks_cons.mpr (by decide)
  | cons f fields => exact breaks_cons.mpr (by decide)

/-- There are enough characters for one step for each field and one more. -/
theorem length_le_length_members (depth : Nat) (s : σ) (isFresh : Bool) (fields : List (Field σ)) :
    fields.length ≤ (members depth s isFresh fields).length := by
  induction fields generalizing isFresh with
  | nil => exact Nat.le_refl _
  | cons f fields ih =>
    have := ih false
    simp [members, writeField, newLine]
    omega

/-! ## One field -/

theorem find?_key (hdistinct : (fields.map Field.key).Nodup) {f : Field σ} (hf : f ∈ fields) :
    (fields.find? fun g => g.key == f.key) = some f :=
  find?_name hdistinct hf

theorem readMember_write {p : Partial σ} {s : σ} {f : Field σ} {change : σ → σ} {depth : Nat}
    {cs rest : List Char} (hknown : (fields.find? fun g => g.key == f.key) = some f)
    (hunseen : f.key ∉ p.seen) (hbrings : f.Brings s change) (hbreaks : Breaks rest)
    (hwritten : Text.write f.key ++ (':' :: ' ' :: (f.write depth s ++ rest)) = '"' :: cs) :
    readMember fields p cs =
      .ok (.more ⟨change p.record, f.key :: p.seen, false⟩, rest) := by
  have hvalue := hbrings depth [' '] rest rfl hbreaks
  have hmark : dropMark ':' (':' :: ' ' :: (f.write depth s ++ rest)) =
      .ok (' ' :: (f.write depth s ++ rest)) := rfl
  simp only [readMember, Text.read_of_write hwritten, Except.bind, hknown, if_neg hunseen, hmark]
  exact hvalue ▸ rfl

theorem objectStep_member {p : Partial σ} {s : σ} {f : Field σ} {change : σ → σ} {rest : List Char}
    (hknown : (fields.find? fun g => g.key == f.key) = some f) (hunseen : f.key ∉ p.seen)
    (hbrings : f.Brings s change) (depth : Nat) (hbreaks : Breaks rest) :
    objectStep fields p ((if p.isFresh then [] else [',']) ++ (writeField depth s f ++ rest)) =
      .ok (.more ⟨change p.record, f.key :: p.seen, false⟩, rest) := by
  obtain ⟨cs, hwritten⟩ : ∃ cs,
      Text.write f.key ++ (':' :: ' ' :: (f.write (depth + 1) s ++ rest)) = '"' :: cs := ⟨_, rfl⟩
  have hlayout : writeField depth s f ++ rest = newLine (depth + 1) ++ '"' :: cs := by
    simp [writeField, ← hwritten]
  have hopens := dropBlanks_append_cons (all_isBlank_newLine (depth + 1)) (c := '"') rfl cs
  have hmember := readMember_write hknown hunseen hbrings hbreaks hwritten
  rw [hlayout]
  obtain ⟨record, seen, isFresh⟩ := p
  cases isFresh with
  | true =>
    simp only [objectStep, if_pos, List.nil_append, hopens]
    exact hmember
  | false =>
    have hcomma : dropBlanks (',' :: (newLine (depth + 1) ++ '"' :: cs)) =
        ',' :: (newLine (depth + 1) ++ '"' :: cs) := rfl
    have hmark : dropMark '"' (newLine (depth + 1) ++ '"' :: cs) = .ok cs := by
      simp [dropMark, hopens]
    simp [objectStep, hcomma, hmark, Except.bind, hmember]

theorem objectStep_end {p : Partial σ} (hcomplete : ∀ f ∈ fields, f.key ∈ p.seen) (depth : Nat)
    (rest : List Char) :
    objectStep fields p (newLine depth ++ '}' :: rest) = .ok (.done p.record, rest) := by
  have hopens := dropBlanks_append_cons (all_isBlank_newLine depth) (c := '}') rfl rest
  have hnothing_missing : (fields.all fun f => !f.required || p.seen.contains f.key) = true := by
    simp +contextual [hcomplete]
  simp only [objectStep, hopens, finish, if_pos hnothing_missing]

/-! ## All fields -/

/-- The fields of an object that are still to come, after those that have been read. -/
structure Awaits (fields todo : List (Field σ)) (p : Partial σ) : Prop where
  known : ∀ f ∈ todo, f ∈ fields
  distinct : (todo.map Field.key).Nodup
  unseen : ∀ f ∈ todo, f.key ∉ p.seen
  others : ∀ f ∈ fields, f ∈ todo ∨ f.key ∈ p.seen

theorem awaits_all (hdistinct : (fields.map Field.key).Nodup) (s : σ) :
    Awaits fields fields { record := s } where
  known _ h := h
  distinct := hdistinct
  unseen _ _ := List.not_mem_nil
  others _ h := .inl h

theorem Awaits.next {p : Partial σ} {f : Field σ} (h : Awaits fields (f :: todo) p) (s : σ) :
    Awaits fields todo ⟨s, f.key :: p.seen, false⟩ where
  known g hg := h.known g (List.mem_cons_of_mem _ hg)
  distinct := (List.nodup_cons.mp h.distinct).2
  unseen g hg := by
    have hother : g.key ≠ f.key := fun hsame =>
      (List.nodup_cons.mp h.distinct).1 (hsame ▸ List.mem_map_of_mem hg)
    simp [hother, h.unseen g (List.mem_cons_of_mem _ hg)]
  others g hg := by
    rcases h.others g hg with hlater | hseen
    · rcases List.mem_cons.mp hlater with rfl | hlater
      · exact .inr List.mem_cons_self
      · exact .inl hlater
    · exact .inr (List.mem_cons_of_mem _ hseen)

theorem repeatAtMost_objectStep {s : σ} {changes : List (σ → σ)} {p : Partial σ} {n : Nat}
    (hdistinct : (fields.map Field.key).Nodup)
    (hbrings : List.Forall₂ (fun f change => f.Brings s change) todo changes)
    (hawaits : Awaits fields todo p) (depth : Nat) (rest : List Char) (henough : todo.length < n) :
    repeatAtMost (objectStep fields) n p
        (members depth s p.isFresh todo ++ (newLine depth ++ '}' :: rest)) =
      .ok (changes.foldl (fun r change => change r) p.record, rest) := by
  induction hbrings generalizing p n with
  | nil =>
    obtain ⟨n, rfl⟩ := Nat.exists_eq_succ_of_ne_zero (Nat.ne_of_gt henough)
    have hcomplete : ∀ f ∈ fields, f.key ∈ p.seen := fun f hf =>
      (hawaits.others f hf).resolve_left List.not_mem_nil
    simp [members, repeatAtMost, objectStep_end hcomplete]
  | @cons f change todo changes hfirst _ ih =>
    obtain ⟨n, rfl⟩ := Nat.exists_eq_succ_of_ne_zero (Nat.ne_of_gt (Nat.zero_lt_of_lt henough))
    have hstep := objectStep_member (find?_key hdistinct (hawaits.known f List.mem_cons_self))
      (hawaits.unseen f List.mem_cons_self) hfirst depth (breaks_members depth s todo ('}' :: rest))
    rw [members, List.append_assoc, List.append_assoc, repeatAtMost, hstep]
    exact ih (hawaits.next _) (Nat.lt_of_succ_lt_succ henough)

end Record

theorem Record.restores {fields : List (Field σ)} {default s : σ} {changes : List (σ → σ)}
    (hdistinct : (fields.map Field.key).Nodup)
    (hbrings : List.Forall₂ (fun f change => f.Brings s change) fields changes)
    (hwhole : changes.foldl (fun r change => change r) default = s) :
    (Record.codec fields default).Restores s := by
  intro depth pad rest hblank _
  have henough := length_le_length_members depth s true fields
  have hobject :=
    repeatAtMost_objectStep hdistinct hbrings (awaits_all hdistinct default) depth rest
    (n := 2 * (members depth s true fields ++ (newLine depth ++ '}' :: rest)).length + 2)
    (by rw [List.length_append]; omega)
  simp only [codec, Record.read]
  rw [write_append, dropBlanks_append_cons hblank rfl]
  exact hwhole ▸ hobject

/-- A text of a value and nothing else. -/
theorem Codec.Restores.readAll {c : Codec β} {x : β} (h : c.Restores x) (depth : Nat) :
    c.readAll (c.write depth x) = .ok x := by
  have hread := h depth [] [] rfl breaks_nil
  rw [List.nil_append, List.append_nil] at hread
  simp [Codec.readAll, hread, dropBlanks]

end Superpose.Workbench.Json
