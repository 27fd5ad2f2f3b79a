import Mathlib.Data.List.Basic

namespace Utf8

/-!
# Byte strings that are UTF-8

Texts as lists of bytes, and what may be done to one without leaving UTF-8.

* `Valid` — the bytes encode a list of characters (`valid_iff_isValidUTF8`);
* `Valid.append`, `Ascii.valid`, `valid_split_ascii` — putting texts together, and taking them apart
  at an ASCII byte;
* `valid_take_iff` — a cut is a text again exactly when it does not fall inside a character.
-/

/-- The bytes are the encoding of some characters. -/
def Valid (bytes : List UInt8) : Prop :=
  ∃ text : List Char, bytes = text.flatMap String.utf8EncodeChar

/-- The `n`-th byte starts a character, or there are no more than `n` bytes. -/
def Boundary (n : Nat) (bytes : List UInt8) : Prop := ∀ b ∈ bytes[n]?, b.IsUTF8FirstByte

instance (n : Nat) (bytes : List UInt8) : Decidable (Boundary n bytes) :=
  Option.decidableForallMem bytes[n]?

/-- All bytes are below 128. -/
def Ascii (bytes : List UInt8) : Prop := ∀ b ∈ bytes, b < 128

instance (bytes : List UInt8) : Decidable (Ascii bytes) := List.decidableBAll (· < 128) bytes

/-- The bytes as an array. -/
theorem valid_iff_isValidUTF8 {bytes : List UInt8} :
    Valid bytes ↔ bytes.toByteArray.IsValidUTF8 := by
  constructor
  · rintro ⟨text, rfl⟩
    exact ⟨text, rfl⟩
  · rintro ⟨text, htext⟩
    exact ⟨text, List.toByteArray_inj.mp htext⟩

/-! ### Putting together -/

@[simp] theorem valid_nil : Valid [] := ⟨[], rfl⟩

theorem Valid.append {as bs : List UInt8} (ha : Valid as) (hb : Valid bs) : Valid (as ++ bs) := by
  obtain ⟨text, rfl⟩ := ha
  obtain ⟨text', rfl⟩ := hb
  exact ⟨text ++ text', List.flatMap_append.symm⟩

/-- A byte below 128 is a character. -/
theorem encodeChar_ascii {b : UInt8} (h : b < 128) :
    String.utf8EncodeChar (Char.ofUInt8 b) = [b] := by
  have hsize : (Char.ofUInt8 b).utf8Size = 1 := by
    unfold Char.utf8Size
    rw [if_pos]
    show b.toUInt32 ≤ 127
    rw [UInt32.le_iff_toNat_le, UInt8.toNat_toUInt32]
    exact Nat.lt_succ_iff.mp h
  rw [String.utf8EncodeChar_eq_singleton hsize]
  show [b.toUInt32.toUInt8] = [b]
  rw [UInt8.toUInt8_toUInt32]

theorem Ascii.append {as bs : List UInt8} (ha : Ascii as) (hb : Ascii bs) : Ascii (as ++ bs) := by
  intro b hmem
  rcases List.mem_append.mp hmem with hmem | hmem
  · exact ha b hmem
  · exact hb b hmem

theorem Ascii.tail {b : UInt8} {bytes : List UInt8} (h : Ascii (b :: bytes)) : Ascii bytes :=
  fun c hc => h c (List.mem_cons_of_mem b hc)

theorem Ascii.take {bytes : List UInt8} (h : Ascii bytes) (n : Nat) : Ascii (bytes.take n) :=
  fun b hb => h b (List.mem_of_mem_take hb)

/-- A text in ASCII. -/
theorem Ascii.valid {bytes : List UInt8} (h : Ascii bytes) : Valid bytes := by
  refine ⟨bytes.map Char.ofUInt8, ?_⟩
  induction bytes with
  | nil => rfl
  | cons b bytes ih =>
    rw [List.map_cons, List.flatMap_cons, encodeChar_ascii (h b List.mem_cons_self),
      ← ih fun c hc => h c (List.mem_cons_of_mem b hc)]
    rfl

/-! ### Taking apart -/

/-- Behind a character, what follows is a text exactly when the whole is. -/
theorem valid_encodeChar_append_iff {c : Char} {bytes : List UInt8} :
    Valid (String.utf8EncodeChar c ++ bytes) ↔ Valid bytes := by
  rw [valid_iff_isValidUTF8, valid_iff_isValidUTF8, List.toByteArray_append,
    ← List.utf8Encode_singleton]
  exact ByteArray.isValidUTF8_utf8Encode_singleton_append_iff

/-- Behind a text, what follows is a text exactly when the whole is. -/
theorem valid_append_iff {as bs : List UInt8} (h : Valid as) : Valid (as ++ bs) ↔ Valid bs := by
  obtain ⟨text, rfl⟩ := h
  induction text with
  | nil => rfl
  | cons c text ih =>
    rw [List.flatMap_cons, List.append_assoc, valid_encodeChar_append_iff]
    exact ih

/-- Cutting a list of bytes, and the array of them. -/
theorem extract_toByteArray (bytes : List UInt8) (n : Nat) :
    bytes.toByteArray.extract 0 n = (bytes.take n).toByteArray := by
  apply ByteArray.ext
  rw [ByteArray.data_extract, List.data_toByteArray, List.data_toByteArray]
  simp

/-- **Cutting a text** gives a text exactly when the cut is between two characters. -/
theorem valid_take_iff {bytes : List UInt8} (h : Valid bytes) (n : Nat) :
    Valid (bytes.take n) ↔ Boundary n bytes := by
  by_cases hn : n < bytes.length
  · -- the bytes as a string, for which this is known
    let s : String := ⟨bytes.toByteArray, valid_iff_isValidUTF8.mp h⟩
    have hsize : s.utf8ByteSize = bytes.length := List.size_toByteArray
    have hlt : (⟨n⟩ : String.Pos.Raw) < s.rawEndPos := by
      rw [String.Pos.Raw.lt_iff, String.byteIdx_rawEndPos, hsize]
      exact hn
    have hcut : (⟨n⟩ : String.Pos.Raw).IsValid s ↔ Valid (bytes.take n) := by
      rw [String.Pos.Raw.isValid_iff_isValidUTF8_extract_zero, valid_iff_isValidUTF8,
        ← extract_toByteArray]
      exact and_iff_right (String.Pos.Raw.le_of_lt hlt)
    have hbyte : s.getUTF8Byte ⟨n⟩ hlt = bytes[n] := List.getElem_toByteArray
    rw [← hcut, String.Pos.Raw.isValid_iff_isUTF8FirstByte, Boundary,
      List.getElem?_eq_getElem hn]
    constructor
    · rintro (hend | ⟨_, hfirst⟩) b hb
      · exact absurd hend (String.Pos.Raw.ne_of_lt hlt)
      · obtain rfl := Option.some.inj hb
        rw [← hbyte]
        exact hfirst
    · intro hfirst
      exact Or.inr ⟨hlt, hbyte ▸ hfirst _ rfl⟩
  -- nothing is cut off
  · rw [List.take_of_length_le (Nat.le_of_not_lt hn), Boundary,
      List.getElem?_eq_none (Nat.le_of_not_lt hn)]
    simpa using h

/-- An ASCII byte begins a character. -/
theorem isUTF8FirstByte_ascii {b : UInt8} (h : b < 128) : b.IsUTF8FirstByte := by
  have htable : ∀ x : Fin 256, x.val < 128 → (UInt8.ofNat x.val).IsUTF8FirstByte := by
    decide +kernel
  have hb := htable ⟨b.toNat, b.toNat_lt⟩ h
  rwa [UInt8.ofNat_toNat] at hb

/-- **A text falls apart at an ASCII byte.** -/
theorem valid_split_ascii {as bs : List UInt8} {c : UInt8} (hc : c < 128)
    (h : Valid (as ++ c :: bs)) : Valid as ∧ Valid bs := by
  have hboundary : Boundary as.length (as ++ c :: bs) := by
    intro b hb
    rw [List.getElem?_append_right (Nat.le_refl _), Nat.sub_self] at hb
    obtain rfl : c = b := Option.some.inj hb
    exact isUTF8FirstByte_ascii hc
  have has : Valid as := by
    have htake := (valid_take_iff h as.length).mpr hboundary
    rwa [List.take_left] at htake
  have hrest : Valid ([c] ++ bs) := (valid_append_iff has).mp h
  have hsingle : Ascii [c] := fun b hb => by
    obtain rfl := List.mem_singleton.mp hb
    exact hc
  exact ⟨has, (valid_append_iff hsingle.valid).mp hrest⟩

end Utf8
