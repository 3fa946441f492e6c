import Superpose.Proofs.Workbench.Json.Record
import Superpose.Workbench.Json.Format

/-!
# The format of the workbench keeps its values

What is relied on in a format holds of the one of the workbench, whose codecs restore what they read
from where they wrote it, whatever stands around it.
-/

namespace Superpose.Workbench.Json

theorem Record.restores_ofPart {σ : Type} {parts : List (Part Codec σ)} {default s : σ}
    (hdistinct : (parts.map Part.key).Nodup) (hparts : ∀ p ∈ parts, p.codec.Restores (p.get s))
    (hwhole : parts.foldl (fun r p => p.set r (p.get s)) default = s) :
    (Record.codec (parts.map .ofPart) default).Restores s := by
  have hkeys : (parts.map Field.ofPart).map Field.key = parts.map Part.key := by
    rw [List.map_map]
    rfl
  have hbrings : List.Forall₂ (fun f change => f.Brings s change) (parts.map Field.ofPart)
      (parts.map fun p r => p.set r (p.get s)) := by
    rw [List.forall₂_map_left_iff, List.forall₂_map_right_iff, List.forall₂_same]
    exact fun p hp => (hparts p hp).brings p.key p.required p.set
  refine Record.restores (hkeys ▸ hdistinct) hbrings ?_
  rw [List.foldl_map]
  exact hwhole

/-- **The format of the workbench can be relied on.** -/
theorem format_lawful : format.Lawful Codec.Restores where
  flag := Codec.restores_flag
  word := Codec.restores_word
  shortWord := Codec.restores_shortWord
  text := Codec.restores_text
  optional_word := Codec.restores_optional_word
  choice hdistinct _ hknown := Codec.restores_choice (find?_name hdistinct hknown)
  record := Record.restores_ofPart
  read_write {_ c x} hrestored := by
    have hread : c.readAll (c.write 0 x) = .ok x := hrestored.readAll 0
    simpa only [format, String.toList_ofList] using hread

end Superpose.Workbench.Json
