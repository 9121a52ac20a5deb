/-
# Reading what has been encoded

Reading the UTF-8 bytes of a text gives the text back (`decodeUtf8_encodeUtf8`): the first
byte of a character tells how many bytes are owed and lets the next one be what it is
(`firstByte_two`, `firstByte_three`, `firstByte_four`), and the bytes after it add six bits each
(`decodeFrom_tailBytes`).

Key definitions: `encodeUtf8`, `tailBytes`.
Key theorems: `decodeFrom_tailBytes`, `decodeFrom_encodeChar`, `decodeUtf8_encodeUtf8`.
-/
import DocTypes.Text.Utf8
import Mathlib.Tactic.SplitIfs

namespace DocTypes

/-- The bytes of a text in UTF-8. -/
def encodeUtf8 (s : Text) : List UInt8 := s.flatMap String.utf8EncodeChar

/-- The bytes after the first one of a character: `count` of them hold the last bits of its
code point, six each. -/
def tailBytes (v : Nat) : (count : Nat) → List UInt8
  | 0 => []
  | count + 1 => UInt8.ofNat (v / Nat.pow 64 count % 64 + 128) :: tailBytes v count

theorem toNat_byte {n : Nat} (h : n < 256) : (UInt8.ofNat n).toNat = n := by
  rw [UInt8.toNat_ofNat']
  exact Nat.mod_eq_of_lt h

section Owed

variable {owed : Owed} {b : UInt8} (hlow : owed.low ≤ b.toNat) (hhigh : b.toNat ≤ owed.high)
  (bs : List UInt8)
include hlow hhigh

theorem decodeFrom_last (hlast : owed.count = 1) : decodeFrom (some owed) (b :: bs) =
    Char.ofNat (owed.value * 64 + (b.toNat - 0x80)) :: decodeFrom none bs := by
  rw [decodeFrom, readByte, if_pos ⟨hlow, hhigh⟩, if_pos hlast]
  rfl

theorem decodeFrom_more (hmore : owed.count ≠ 1) : decodeFrom (some owed) (b :: bs) =
    decodeFrom (some ⟨owed.count - 1, owed.value * 64 + (b.toNat - 0x80), 0x80, 0xBF⟩) bs := by
  rw [decodeFrom, readByte, if_pos ⟨hlow, hhigh⟩, if_neg hmore]
  rfl

end Owed

/-- **The bytes that are owed complete the character**, when the first of them lies in the
bounds; the bounds of the others hold all of them. -/
theorem decodeFrom_tailBytes (v : Nat) (bs : List UInt8) : ∀ (count low high : Nat),
    low ≤ v / Nat.pow 64 count % 64 + 128 → v / Nat.pow 64 count % 64 + 128 ≤ high →
    decodeFrom (some ⟨count + 1, v / Nat.pow 64 (count + 1), low, high⟩)
        (tailBytes v (count + 1) ++ bs) =
      Char.ofNat v :: decodeFrom none bs := by
  intro count
  induction count with
  | zero =>
    intro low high hlow hhigh
    have hbyte := toNat_byte (n := v / Nat.pow 64 0 % 64 + 128) (by omega)
    have hvalue : v / Nat.pow 64 (0 + 1) * 64 + (v / Nat.pow 64 0 % 64 + 128 - 0x80) = v := by
      show v / 64 * 64 + (v / 1 % 64 + 128 - 0x80) = v
      omega
    rw [← hbyte] at hlow hhigh
    rw [tailBytes, List.cons_append, decodeFrom_last hlow hhigh _ rfl, hbyte, hvalue]
    rfl
  | succ count ih =>
    intro low high hlow hhigh
    have hbyte := toNat_byte (n := v / Nat.pow 64 (count + 1) % 64 + 128) (by omega)
    have hvalue : v / Nat.pow 64 (count + 1 + 1) * 64 +
        (v / Nat.pow 64 (count + 1) % 64 + 128 - 0x80) = v / Nat.pow 64 (count + 1) := by
      have hpow : Nat.pow 64 (count + 1 + 1) = Nat.pow 64 (count + 1) * 64 := rfl
      rw [hpow, ← Nat.div_div_eq_div_mul]
      omega
    have hmore : count + 1 + 1 ≠ 1 := by omega
    rw [← hbyte] at hlow hhigh
    rw [tailBytes, List.cons_append, decodeFrom_more hlow hhigh _ hmore, hbyte, hvalue,
      Nat.add_sub_cancel]
    exact ih 0x80 0xBF (Nat.le_add_left _ _) (by omega)

/-! ### First bytes -/

section FirstBytes

variable {v : Nat}

theorem firstByte_two (h : 0x80 ≤ v) (h' : v < 0x800) :
    firstByte (v / 64 % 32 + 192) = .longer ⟨1, v / 64, 0x80, 0xBF⟩ := by
  have hvalue : v / 64 % 32 + 192 - 0xC0 = v / 64 := by omega
  rw [firstByte, if_neg (by omega), if_neg (by omega), if_pos (by omega), hvalue]

/-- After a first byte of three the next one may be what it is in the code points of this
size, of which the surrogates are none. -/
theorem firstByte_three (h : 0x800 ≤ v) (h' : v < 0x10000) (hs : v < 0xD800 ∨ 0xDFFF < v) :
    ∃ low high, firstByte (v / 4096 % 16 + 224) = .longer ⟨2, v / 4096, low, high⟩ ∧
      low ≤ v / 64 % 64 + 128 ∧ v / 64 % 64 + 128 ≤ high := by
  have hvalue : v / 4096 % 16 + 224 - 0xE0 = v / 4096 := by omega
  rw [firstByte, if_neg (by omega), if_neg (by omega), if_neg (by omega), hvalue]
  split_ifs
  · have hzero : v / 4096 = 0 := by omega
    exact ⟨0xA0, 0xBF, by rw [hzero], by omega, by omega⟩
  · exact ⟨0x80, 0x9F, rfl, by omega, by omega⟩
  · exact ⟨0x80, 0xBF, rfl, by omega, by omega⟩
  all_goals omega

/-- The same for a first byte of four. -/
theorem firstByte_four (h : 0x10000 ≤ v) (h' : v < 0x110000) :
    ∃ low high, firstByte (v / 262144 % 8 + 240) = .longer ⟨3, v / 262144, low, high⟩ ∧
      low ≤ v / 4096 % 64 + 128 ∧ v / 4096 % 64 + 128 ≤ high := by
  have hvalue : v / 262144 % 8 + 240 - 0xF0 = v / 262144 := by omega
  rw [firstByte, if_neg (by omega), if_neg (by omega), if_neg (by omega), if_neg (by omega),
    if_neg (by omega), if_neg (by omega), hvalue]
  split_ifs
  · have hzero : v / 262144 = 0 := by omega
    exact ⟨0x90, 0xBF, by rw [hzero], by omega, by omega⟩
  · exact ⟨0x80, 0xBF, rfl, by omega, by omega⟩
  · exact ⟨0x80, 0x8F, rfl, by omega, by omega⟩
  · omega

end FirstBytes

theorem decodeFrom_whole {b : UInt8} {c : Char} (h : firstByte b.toNat = .whole c)
    (bs : List UInt8) : decodeFrom none (b :: bs) = c :: decodeFrom none bs := by
  rw [decodeFrom, readByte, startChar, h]
  rfl

theorem decodeFrom_longer {b : UInt8} {owed : Owed} (h : firstByte b.toNat = .longer owed)
    (bs : List UInt8) : decodeFrom none (b :: bs) = decodeFrom (some owed) bs := by
  rw [decodeFrom, readByte, startChar, h]
  rfl

/-- The bytes of a character, by the size of its code point. -/
theorem encodeChar_eq {c : Char} {v : Nat} (hv : c.toNat = v) : String.utf8EncodeChar c =
    if v ≤ 127 then [UInt8.ofNat v] else
    if v ≤ 2047 then UInt8.ofNat (v / 64 % 32 + 192) :: tailBytes v 1 else
    if v ≤ 65535 then UInt8.ofNat (v / 4096 % 16 + 224) :: tailBytes v 2 else
      UInt8.ofNat (v / 262144 % 8 + 240) :: tailBytes v 3 := by
  have hpow : Nat.pow 64 0 = 1 ∧ Nat.pow 64 1 = 64 ∧ Nat.pow 64 2 = 4096 := ⟨rfl, rfl, rfl⟩
  simp only [tailBytes, hpow, Nat.div_one, ← hv]
  rfl

/-- **A character is read from its bytes.** -/
theorem decodeFrom_encodeChar (c : Char) (bs : List UInt8) :
    decodeFrom none (String.utf8EncodeChar c ++ bs) = c :: decodeFrom none bs := by
  obtain ⟨v, hv⟩ : ∃ v, c.toNat = v := ⟨_, rfl⟩
  have hchar : Char.ofNat v = c := by rw [← hv, Char.ofNat_toNat]
  have hvalid : v < 0xD800 ∨ 0xDFFF < v ∧ v < 0x110000 := hv ▸ c.valid
  rw [encodeChar_eq hv]
  split_ifs with h1 h2 h3
  · have hfirst : firstByte (UInt8.ofNat v).toNat = .whole c := by
      rw [toNat_byte (by omega), firstByte, if_pos (by omega), hchar]
    exact decodeFrom_whole hfirst bs
  · have hfirst := firstByte_two (v := v) (by omega) (by omega)
    rw [← toNat_byte (n := v / 64 % 32 + 192) (by omega)] at hfirst
    rw [List.cons_append, decodeFrom_longer hfirst, ← hchar]
    exact decodeFrom_tailBytes v bs 0 _ _ (by omega) (by omega)
  · obtain ⟨low, high, hfirst, hlow, hhigh⟩ :=
      firstByte_three (v := v) (by omega) (by omega) (by omega)
    rw [← toNat_byte (n := v / 4096 % 16 + 224) (by omega)] at hfirst
    rw [List.cons_append, decodeFrom_longer hfirst, ← hchar]
    exact decodeFrom_tailBytes v bs 1 _ _ hlow hhigh
  · obtain ⟨low, high, hfirst, hlow, hhigh⟩ := firstByte_four (v := v) (by omega) (by omega)
    rw [← toNat_byte (n := v / 262144 % 8 + 240) (by omega)] at hfirst
    rw [List.cons_append, decodeFrom_longer hfirst, ← hchar]
    exact decodeFrom_tailBytes v bs 2 _ _ hlow hhigh

/-- **Reading the bytes of a text gives the text.** -/
theorem decodeUtf8_encodeUtf8 : ∀ s : Text, decodeUtf8 (encodeUtf8 s) = s
  | [] => rfl
  | c :: s => by
    have ih := decodeUtf8_encodeUtf8 s
    rw [decodeUtf8, encodeUtf8] at ih ⊢
    rw [List.flatMap_cons, decodeFrom_encodeChar, ih]

end DocTypes
