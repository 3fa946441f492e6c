/-!
# Formats for texts

Settings are kept in a text, the format of which the library does not define. What it takes from a
`Format` are codecs for a few kinds of data, and ways to put codecs together: for optional values,
for values that have names, and for records. What it relies on is that each of these gives back what
it wrote, provided that the codecs it is put together from do (`Format.Lawful`).
-/

namespace Superpose

/-- A part of a record. -/
structure Part (Codec : Type → Type) (σ : Type) where
  {β : Type}
  key : String
  /-- Whether a record in a text has to have it. -/
  required : Bool
  codec : Codec β
  get : σ → β
  set : σ → β → σ

/-- A format in which data are written into a text, and read from one. -/
structure Format where
  /-- How values of a type stand in a text. -/
  Codec : Type → Type
  /-- What can be wrong with a text. -/
  Failure : Type
  flag : Codec Bool
  word : Codec UInt64
  /-- Words of 32 bits. -/
  shortWord : Codec UInt32
  real : Codec Float
  text : Codec String
  /-- A value, or none. -/
  optional {β : Type} : Codec β → Codec (Option β)
  /-- One of the given values, by its name. -/
  choice {β : Type} (all : List β) (name : β → String) : Codec β
  /-- Records of given parts. What a record in a text lacks is as in a given record. -/
  record {σ : Type} (parts : List (Part Codec σ)) (default : σ) : Codec σ
  write {β : Type} : Codec β → β → String
  read {β : Type} : Codec β → String → Except Failure β

/-- What is relied on in a format, of which it is said what its codecs restore: the values that they
read from where they wrote them. Of real numbers nothing is asked here, as there are formats that do
not keep all of their digits. -/
structure Format.Lawful (F : Format) (Restores : {β : Type} → F.Codec β → β → Prop) : Prop where
  flag (b : Bool) : Restores F.flag b
  word (n : UInt64) : Restores F.word n
  shortWord (n : UInt32) : Restores F.shortWord n
  text (s : String) : Restores F.text s
  /-- No word is taken for none, and none for no word. -/
  optional_word (n : Option UInt64) : Restores (F.optional F.word) n
  /-- A value is known by its name if no other one has that name. -/
  choice {β : Type} {all : List β} {name : β → String} (hdistinct : (all.map name).Nodup) {x : β}
    (hknown : x ∈ all) : Restores (F.choice all name) x
  /-- A record is restored if its parts are, if no two of them have the same key, and if there is
  nothing more to it than these parts. -/
  record {σ : Type} {parts : List (Part F.Codec σ)} {default s : σ}
    (hdistinct : (parts.map Part.key).Nodup) (hparts : ∀ p ∈ parts, Restores p.codec (p.get s))
    (hwhole : parts.foldl (fun r p => p.set r (p.get s)) default = s) :
    Restores (F.record parts default) s
  read_write {β : Type} {c : F.Codec β} {x : β} (hrestored : Restores c x) :
    F.read c (F.write c x) = .ok x

end Superpose
