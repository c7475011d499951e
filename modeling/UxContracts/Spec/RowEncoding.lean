import UxContracts.Native.ProducerRows

/-!
# The encoding of producer rows

The encoder and the decoder of a row treat the signing authority differently: the encoder leaves
it out when there is none, the decoder reads it when bytes remain. They fit together since an
authority is never written as no bytes. `rows_survive` has the round trips of both layouts, and
that the two actions which are not billed for a row do not make it longer.
-/

namespace UxContracts

namespace RowCodecs

variable {F K : Type} {c : RowCodecs F K}

/-- After the fields of every version the extension is read. -/
theorem read_writeFields (t : StoredProducer F K) (rest : List UInt8) :
    c.read (c.writeFields t ++ rest) =
      (c.readExtension rest).map fun p => ({ t with producerAuthority := p.1 }, p.2) := by
  unfold read writeFields
  simp only [List.append_assoc, Codec.read_write, Option.bind_eq_bind, Option.bind_some]
  cases c.readExtension rest with
  | none => rfl
  | some p => rfl

/-- A row without an authority is written as before version 1.9.0. -/
theorem write_of_none {t : StoredProducer F K} (h : t.producerAuthority = none) :
    c.write t = c.writeFields t := by
  unfold write
  rw [h]
  rfl

/-! ## Lengths -/

/-- The length of a row without its authority. -/
theorem length_writeFields (t : StoredProducer F K) :
    (c.writeFields t).length = 8 + (c.double.write t.totalVotes).length +
      (c.publicKey.write t.producerKey).length + 1 + (c.string.write t.url).length + 4 + 8 + 2 := by
  have hname : (nameCodec.write t.owner).length = 8 := Codec.length_uint64 t.owner.value
  have htime : (timePointCodec.write t.lastClaimTime).length = 8 :=
    Codec.length_uint64 t.lastClaimTime.toUInt64
  unfold writeFields
  simp only [List.length_append, hname, htime, Codec.length_bool, Codec.length_uint32,
    Codec.length_uint16]

/-- Counting a block keeps the length of the row. -/
theorem length_countBlock (t : StoredProducer F K) :
    (c.write t.countBlock).length = (c.write t).length := by
  have hfields : (c.writeFields t.countBlock).length = (c.writeFields t).length := by
    rw [length_writeFields, length_writeFields]
    rfl
  unfold write
  show (if t.producerAuthority.isNone then _ else _ : List UInt8).length = _
  split
  · exact hfields
  · rw [List.length_append, List.length_append, hfields]
    rfl

/-! ## Stored rows -/

/-- The bytes of a row, in the layout of this version or of one before 1.9.0. -/
def Stored (c : RowCodecs F K) (bytes : List UInt8) : Prop :=
  ∃ t, bytes = c.write t ∨ bytes = c.writeFields t

/-- Every stored row is one that this version writes. -/
theorem Stored.exists_write {bytes : List UInt8} (h : Stored c bytes) :
    ∃ t, bytes = c.write t := by
  obtain ⟨t, h | h⟩ := h
  · exact ⟨t, h⟩
  · exact ⟨{ t with producerAuthority := none }, h⟩

/-! ## Round trips -/

variable [Inhabited K]

/-- An authority is written after the older fields. -/
theorem write_of_some (law : c.Documented) {t : StoredProducer F K}
    {a : BlockSigningAuthority K} (h : t.producerAuthority = some a) :
    c.write t = c.writeFields t ++ c.blockSigningAuthority.write a := by
  unfold write
  rw [h, law.write_some]
  rfl

/-- An old row is read as one without an authority. -/
theorem read_legacy (law : c.Documented) (t : StoredProducer F K) :
    c.read (c.writeFields t) = some ({ t with producerAuthority := none }, []) := by
  have h := read_writeFields (c := c) t []
  rw [List.append_nil, law.read_nil] at h
  exact h

/-- What has been written is read back. -/
theorem read_write (law : c.Documented) (t : StoredProducer F K) :
    c.read (c.write t) = some (t, []) := by
  cases h : t.producerAuthority with
  | none =>
    rw [write_of_none h, read_legacy law, ← h]
  | some a =>
    rw [write_of_some law h, read_writeFields, law.read_of_remaining _ (law.authority_ne_nil a),
      Codec.read_write_nil]
    show some ({ t with producerAuthority := some a }, []) = _
    rw [← h]

/-- The key becomes the shortest one, and the authority goes. -/
theorem length_deactivate_le (law : c.Documented) (t : StoredProducer F K) :
    (c.write t.deactivate).length ≤ (c.write t).length := by
  have hfields : (c.writeFields t.deactivate).length ≤ (c.writeFields t).length := by
    have hkey := law.default_key t.producerKey
    rw [length_writeFields, length_writeFields]
    show 8 + (c.double.write t.totalVotes).length + (c.publicKey.write default).length + 1 +
      (c.string.write t.url).length + 4 + 8 + 2 ≤ _
    omega
  rw [write_of_none (t := t.deactivate) rfl]
  apply hfields.trans
  unfold write
  split
  · exact le_refl _
  · rw [List.length_append]
    exact Nat.le_add_right _ _

/-- A modification that does not make rows longer does not make a stored one longer. -/
theorem modify_stored (law : c.Documented) {f : StoredProducer F K → StoredProducer F K}
    (hf : ∀ t, (c.write (f t)).length ≤ (c.write t).length) {bytes : List UInt8}
    (h : Stored c bytes) :
    ∃ bytes', c.modify f bytes = some bytes' ∧ Stored c bytes' ∧ bytes'.length ≤ bytes.length := by
  obtain ⟨t, rfl⟩ := h.exists_write
  refine ⟨c.write (f t), ?_, ⟨f t, .inl rfl⟩, hf t⟩
  unfold modify
  rw [read_write law]
  rfl

/-- Rows survive their encoding in both layouts, and the actions that are not billed for a row do
    not make it longer. -/
theorem rows_survive (law : c.Documented) :
    (∀ t, c.read (c.write t) = some (t, [])) ∧
    (∀ t, ∃ u, c.read (c.writeFields t) = some (u, []) ∧ u.producerAuthority = none ∧
      c.write u = c.writeFields t) ∧
    ∀ bytes, Stored c bytes →
      (∃ bytes', c.modify StoredProducer.countBlock bytes = some bytes' ∧ Stored c bytes' ∧
        bytes'.length ≤ bytes.length) ∧
      (∃ bytes', c.modify StoredProducer.deactivate bytes = some bytes' ∧ Stored c bytes' ∧
        bytes'.length ≤ bytes.length) := by
  refine ⟨read_write law, fun t => ⟨_, read_legacy law t, rfl, rfl⟩, fun bytes h => ⟨?_, ?_⟩⟩
  · exact modify_stored law (fun t => (length_countBlock t).le) h
  · exact modify_stored law (length_deactivate_le law) h

namespace Sample

/-- A key on one of two curves: 33 bytes, which are read as a number here. -/
abbrev Key := Bool × Fin (256 ^ 33)

instance : Inhabited Key := ⟨(false, 0)⟩

def keyCodec : Codec Key :=
  Codec.bool.pair (Codec.fixed 33 Fin.val (Fin.ofNat (256 ^ 33)) fun a =>
    ⟨a.isLt, Fin.ofNat_val_eq_self a⟩)

/-- The first alternative of a variant, the threshold and the keys. -/
def authorityCodec : Codec (BlockSigningAuthority Key) :=
  (Codec.uint8.pair (Codec.uint32.pair (Codec.list (keyCodec.pair Codec.uint16)))).map
    (fun a => (0, a.threshold, a.keys.map fun k => (k.key, k.weight)))
    (fun p => if p.1 = 0 then some ⟨p.2.1, p.2.2.map fun k => ⟨k.1, k.2⟩⟩ else none)
    fun a => by simp [Function.comp_def]

/-- The codecs of the library; a `double` is written as its bits. -/
def codecs : RowCodecs UInt64 Key where
  double := Codec.uint64
  publicKey := keyCodec
  string := Codec.string
  blockSigningAuthority := authorityCodec
  writeExtension a := authorityCodec.write (a.getD ⟨0, []⟩)
  readExtension bytes :=
    if bytes.isEmpty then some (none, bytes)
    else (authorityCodec.read bytes).map fun p => (some p.1, p.2)

theorem length_keyCodec (k : Key) : (keyCodec.write k).length = 34 := by
  show (Codec.bool.write k.1 ++ _).length = 34
  rw [List.length_append]
  have hpoint : (Codec.writeFixed 33 k.2.val).length = 33 := Codec.length_writeFixed 33 _
  rw [Codec.length_bool]
  exact congrArg (1 + ·) hpoint

/-- The codecs of the sample are as the library documents them. -/
theorem codecs_documented : codecs.Documented where
  write_some _ := rfl
  read_nil := rfl
  read_of_remaining bytes h := by
    show (if bytes.isEmpty then _ else _) = _
    rw [if_neg]
    · rfl
    · rwa [List.isEmpty_iff]
  authority_ne_nil a := by
    intro h
    cases h
  default_key k := by
    show (keyCodec.write default).length ≤ (keyCodec.write k).length
    rw [length_keyCodec, length_keyCodec]

/-- A row of this version. -/
def row : StoredProducer UInt64 Key :=
  ⟨Name.ofString "producer", 0, (false, 1), true, "https://producer", 3, 0, 0,
    some ⟨1, [⟨(false, 1), 1⟩]⟩⟩

end Sample

open Sample in
/-- The row is read back, and it does not grow when it is deactivated. -/
theorem rows_survive_sample :
    codecs.read (codecs.write row) = some (row, []) ∧
    ∃ bytes, codecs.modify StoredProducer.deactivate (codecs.write row) = some bytes ∧
      Stored codecs bytes ∧ bytes.length ≤ (codecs.write row).length := by
  obtain ⟨hread, -, hmodify⟩ := rows_survive codecs_documented
  exact ⟨hread row, (hmodify (codecs.write row) ⟨row, .inl rfl⟩).2⟩

end RowCodecs

end UxContracts
