import Mathlib.Data.Nat.Digits.Defs
import Superpose.Proofs.Bus.Operation

/-!
# Knowledge that is shared

A piece of knowledge is written as the payload of a hint, four bytes of tag and a block behind them,
and read back from it. The tag is read from just those four bytes that it is written as
(`tagBytes_eq_iff`), so that a message shows a tag and a block if and only if its payload is the one
followed by the other (`Message.knowledge?_eq_some_iff`); of a message that a bus queued for
somebody who shares his knowledge it shows what was shared.
-/

namespace Superpose.Bus

/-! ## Tags -/

theorem length_tagBytes (tag : UInt32) : (tagBytes tag).length = 4 := rfl

/-- The four bytes are the digits of the tag, least significant first. -/
theorem ofDigits_tagBytes (tag : UInt32) :
    Nat.ofDigits 256 ((tagBytes tag).map UInt8.toNat) = tag.toNat := by
  have := tag.toNat_lt
  simp only [tagBytes, List.map, Nat.ofDigits_cons, Nat.ofDigits_nil, UInt8.toNat_ofNat']
  omega

theorem toNat_tagOfBytes (a b c d : UInt8) :
    (tagOfBytes a b c d).toNat =
      a.toNat + 256 * b.toNat + 65536 * c.toNat + 16777216 * d.toNat := by
  have := a.toNat_lt
  have := b.toNat_lt
  have := c.toNat_lt
  have := d.toNat_lt
  rw [tagOfBytes, UInt32.toNat_ofNat_of_lt']
  simp only [UInt32.size]
  omega

theorem tagBytes_tagOfBytes (a b c d : UInt8) : tagBytes (tagOfBytes a b c d) = [a, b, c, d] := by
  have := a.toNat_lt
  have := b.toNat_lt
  have := c.toNat_lt
  have := d.toNat_lt
  simp only [tagBytes, toNat_tagOfBytes, List.cons.injEq, and_true, ← UInt8.toNat_inj,
    UInt8.toNat_ofNat']
  omega

theorem tagBytes_injective {tag tag' : UInt32} (hsame : tagBytes tag = tagBytes tag') :
    tag = tag' := by
  rw [← UInt32.toNat_inj, ← ofDigits_tagBytes tag, ← ofDigits_tagBytes tag', hsame]

theorem tagBytes_eq_iff {tag : UInt32} {a b c d : UInt8} :
    tagBytes tag = [a, b, c, d] ↔ tagOfBytes a b c d = tag := by
  refine ⟨fun hsame => ?_, fun hsame => ?_⟩
  · exact tagBytes_injective ((tagBytes_tagOfBytes a b c d).trans hsame.symm)
  · rw [← hsame, tagBytes_tagOfBytes]

/-! ## Messages -/

theorem Message.knowledge?_eq_some_iff {m : Message} {tag : UInt32} {block : List UInt8} :
    m.knowledge? = some (tag, block) ↔ m.topic = .hint ∧ m.payload = tagBytes tag ++ block := by
  constructor
  · intro hshown
    unfold knowledge? at hshown
    split at hshown
    · next a b c d block' htopic hpayload =>
      obtain ⟨hsame, rfl⟩ := Prod.mk.inj (Option.some.inj hshown)
      rw [hpayload, tagBytes_eq_iff.mpr hsame]
      exact ⟨htopic, rfl⟩
    · cases hshown
  · rintro ⟨htopic, hpayload⟩
    have hsame := tagBytes_eq_iff.mp (rfl : tagBytes tag = _)
    simp only [tagBytes, List.cons_append, List.nil_append] at hpayload
    simp only [knowledge?, htopic, hpayload, hsame]

/-! ## Blocks -/

/-- A block holds the first bytes of some data, and zeros behind them. -/
structure IsBlock (data block : List UInt8) : Prop where
  size : block.length = knowledgeBlock
  content : ∀ i < knowledgeBlock, block[i]? = some (data[i]?.getD 0)

/-- The block that is sent of some data. -/
def block (data : List UInt8) : List UInt8 :=
  data.take knowledgeBlock ++ List.replicate (knowledgeBlock - data.length) 0

theorem isBlock_block (data : List UInt8) : IsBlock data (block data) where
  size := by
    simp only [block, List.length_append, List.length_take, List.length_replicate]
    omega
  content i hi := by
    by_cases hinside : i < data.length
    · have hfront : i < (data.take knowledgeBlock).length := by simp [hi, hinside]
      rw [block, List.getElem?_append_left hfront, List.getElem?_take_of_lt hi,
        List.getElem?_eq_getElem hinside, Option.getD_some]
    · have hbehind : (data.take knowledgeBlock).length = data.length := by
        rw [List.take_of_length_le (by omega)]
      rw [block, List.getElem?_append_right (by omega), hbehind, List.getElem?_replicate_of_lt
        (by omega), List.getElem?_eq_none (by omega), Option.getD_none]

theorem knowledgePayload_eq (tag : UInt32) (data : List UInt8) :
    knowledgePayload tag data = tagBytes tag ++ block data :=
  List.append_assoc ..

/-! ## Sharing -/

/-- The hint in which somebody shares his knowledge. -/
def hint (sender tag : UInt32) (data : List UInt8) : Letter :=
  ⟨sender, .hint, knowledgePayload tag data, everybody⟩

theorem knowledge?_stamp_hint (b : Bus) (now : UInt64) (sender tag : UInt32) (data : List UInt8) :
    ((hint sender tag data).stamp b now).knowledge? = some (tag, block data) :=
  Message.knowledge?_eq_some_iff.mpr ⟨rfl, knowledgePayload_eq tag data⟩

/-- Whether a bus queues what somebody announces or shares. -/
def Listening (b : Bus) : Prop :=
  b.settings.broadcast = true ∧ b.settings.enabled = true ∧
    b.queue.length < b.settings.capacity.toNat

instance (b : Bus) : Decidable b.Listening := inferInstanceAs (Decidable (_ ∧ _))

theorem queue_share (b : Bus) (now : UInt64) (sender tag : UInt32) (data : List UInt8) :
    (b.share now sender tag data).2.queue =
      b.queue ++ if b.Listening then [(hint sender tag data).stamp b now] else [] := by
  cases hbroadcast : b.settings.broadcast with
  | false => simp [share, Listening, hbroadcast]
  | true =>
    have hsending := sending b now (hint sender tag data)
    rw [b.snd_share now sender tag data hbroadcast]
    simp only [hint] at hsending ⊢
    generalize b.send now sender .hint (knowledgePayload tag data) everybody = result at hsending ⊢
    cases hsending with
    | taken hon hroom => simp [Listening, hbroadcast, hon, hroom]
    | full hon hfull => simp [Listening, Nat.not_lt.mpr hfull]
    | off hoff => simp [Listening, hoff]

/-! ## Reading and writing -/

/-- What a bus queues of some knowledge shows the tag and the first bytes of the data, filled up
with zeros; and of all messages just the hints whose payload is a tag with a block behind it show
that tag and that block, the tag being written as its four digits in base 256. -/
theorem knowledge_roundtrip :
    (∀ (b : Bus) (now : UInt64) (sender tag : UInt32) (data : List UInt8),
      let queue := (b.share now sender tag data).2.queue
      (b.Listening ↔ ∃ m, queue = b.queue ++ [m]) ∧
        ∀ m, queue = b.queue ++ [m] →
          ∃ block, m.knowledge? = some (tag, block) ∧ IsBlock data block) ∧
      (∀ (m : Message) (tag : UInt32) (block : List UInt8),
        m.knowledge? = some (tag, block) ↔
          m.topic = .hint ∧ m.payload = tagBytes tag ++ block) ∧
      ∀ tag, (tagBytes tag).length = 4 ∧
        Nat.ofDigits 256 ((tagBytes tag).map UInt8.toNat) = tag.toNat := by
  refine ⟨fun b now sender tag data => ?_, fun m tag block => m.knowledge?_eq_some_iff,
    fun tag => ⟨length_tagBytes tag, ofDigits_tagBytes tag⟩⟩
  have hqueued := b.queue_share now sender tag data
  generalize (b.share now sender tag data).2.queue = queue at hqueued ⊢
  subst hqueued
  by_cases hlistening : b.Listening
  · rw [if_pos hlistening]
    refine ⟨⟨fun _ => ⟨_, rfl⟩, fun _ => hlistening⟩, fun m hsame => ?_⟩
    obtain rfl := List.singleton_inj.mp (List.append_cancel_left hsame)
    exact ⟨block data, knowledge?_stamp_hint b now sender tag data, isBlock_block data⟩
  · simp [hlistening]

theorem knowledge_roundtrip_short_long :
    (∃ m block, ((new {}).share 5 7 42 [1, 2, 3]).2.queue = [m] ∧
        m.knowledge? = some (42, block) ∧ block.length = 256 ∧
        block[2]? = some 3 ∧ block[3]? = some 0) ∧
      ∃ m block, ((new {}).share 5 7 0x01020304 (List.replicate 300 9)).2.queue = [m] ∧
        m.payload = [4, 3, 2, 1] ++ block ∧ block.length = 256 ∧ block[255]? = some 9 := by
  obtain ⟨hshared, hshown, _⟩ := knowledge_roundtrip
  have hlistening : (new {}).Listening := by decide
  refine ⟨?_, ?_⟩
  · obtain ⟨m, hqueued⟩ := (hshared (new {}) 5 7 42 [1, 2, 3]).1.mp hlistening
    obtain ⟨block, hread, hsize, hcontent⟩ := (hshared _ 5 7 42 _).2 m hqueued
    exact ⟨m, block, hqueued, hread, hsize, hcontent 2 (by decide), hcontent 3 (by decide)⟩
  · obtain ⟨m, hqueued⟩ := (hshared (new {}) 5 7 0x01020304 (List.replicate 300 9)).1.mp hlistening
    obtain ⟨block, hread, hsize, hcontent⟩ := (hshared _ 5 7 0x01020304 _).2 m hqueued
    have hlast := hcontent 255 (by decide)
    rw [List.getElem?_replicate_of_lt (by decide)] at hlast
    exact ⟨m, block, hqueued, ((hshown m _ block).mp hread).2, hsize, hlast⟩

end Superpose.Bus
