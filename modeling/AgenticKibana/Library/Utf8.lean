import AgenticKibana.Library.TextLines
import Mathlib.Tactic

/-!
# UTF-8

What a character is encoded as, and that the lenient decoder reads back what was encoded.
-/

namespace AgenticKibana.Library.TextLines

open List

def encodeChar (c : Char) : List UInt8 :=
  let n := c.toNat
  if n < 0x80 then [UInt8.ofNat n]
  else if n < 0x800 then [UInt8.ofNat (0xC0 + n / 64), UInt8.ofNat (0x80 + n % 64)]
  else if n < 0x10000 then
    [UInt8.ofNat (0xE0 + n / 4096), UInt8.ofNat (0x80 + n / 64 % 64), UInt8.ofNat (0x80 + n % 64)]
  else
    [UInt8.ofNat (0xF0 + n / 262144), UInt8.ofNat (0x80 + n / 4096 % 64),
      UInt8.ofNat (0x80 + n / 64 % 64), UInt8.ofNat (0x80 + n % 64)]

/-- `text.encode("utf-8")`. -/
def encode (text : List Char) : List UInt8 := text.flatMap encodeChar

theorem toNat_ofNat_lt {n : Nat} (h : n < 256) : (UInt8.ofNat n).toNat = n := by
  rw [UInt8.toNat_ofNat']
  omega

variable {text : List Char}

theorem feed_more {code more low high n : Nat} (hmore : 1 < more) (hn : n < 64)
    (hlow : low ≤ 0x80 + n) (hhigh : 0x80 + n ≤ high) :
    Decoder.feed ⟨text, some ⟨code, more, low, high⟩⟩ (UInt8.ofNat (0x80 + n)) =
      ⟨text, some ⟨code * 64 + n, more - 1, 0x80, 0xBF⟩⟩ := by
  unfold Decoder.feed
  dsimp only
  rw [toNat_ofNat_lt (by omega), if_pos ⟨hlow, hhigh⟩, if_neg (by omega), Nat.add_sub_cancel_left]

theorem feed_last {code low high n : Nat} (hn : n < 64) (hlow : low ≤ 0x80 + n)
    (hhigh : 0x80 + n ≤ high) :
    Decoder.feed ⟨text, some ⟨code, 1, low, high⟩⟩ (UInt8.ofNat (0x80 + n)) =
      ⟨text ++ [Char.ofNat (code * 64 + n)], none⟩ := by
  unfold Decoder.feed
  dsimp only
  rw [toNat_ofNat_lt (by omega), if_pos ⟨hlow, hhigh⟩, if_pos le_rfl, Nat.add_sub_cancel_left]

/-- **A character is read back from its bytes.** -/
theorem feed_encodeChar (c : Char) (text : List Char) :
    (encodeChar c).foldl Decoder.feed ⟨text, none⟩ = ⟨text ++ [c], none⟩ := by
  have hvalid : c.toNat < 0xD800 ∨ (0xDFFF < c.toNat ∧ c.toNat < 0x110000) := c.valid
  have hself : Char.ofNat c.toNat = c := Char.ofNat_toNat c
  unfold encodeChar
  dsimp only
  generalize c.toNat = n at hvalid hself ⊢
  split
  · next h1 =>
      simp only [foldl_cons, foldl_nil, Decoder.feed, Decoder.lead]
      rw [toNat_ofNat_lt (by omega), if_pos h1, hself]
  split
  · next h1 h2 =>
      have hlead : Decoder.feed ⟨text, none⟩ (UInt8.ofNat (0xC0 + n / 64)) =
          ⟨text, some ⟨n / 64, 1, 0x80, 0xBF⟩⟩ := by
        simp only [Decoder.feed, Decoder.lead]
        rw [toNat_ofNat_lt (by omega), if_neg (by omega), if_pos (by omega),
          Nat.add_sub_cancel_left]
      rw [foldl_cons, hlead, foldl_cons, feed_last (by omega) (by omega) (by omega),
        foldl_nil, show n / 64 * 64 + n % 64 = n by omega, hself]
  split
  · next h1 h2 h3 =>
      obtain ⟨low, high, hlead, hlow, hhigh⟩ : ∃ low high,
          Decoder.feed ⟨text, none⟩ (UInt8.ofNat (0xE0 + n / 4096)) =
            ⟨text, some ⟨n / 4096, 2, low, high⟩⟩ ∧ low ≤ 0x80 + n / 64 % 64 ∧
            0x80 + n / 64 % 64 ≤ high := by
        simp only [Decoder.feed, Decoder.lead]
        rw [toNat_ofNat_lt (by omega), if_neg (by omega), if_neg (by omega)]
        by_cases hE0 : n / 4096 = 0
        · exact ⟨0xA0, 0xBF, by rw [if_pos (by omega), hE0], by omega, by omega⟩
        by_cases hED : n / 4096 = 13
        · exact ⟨0x80, 0x9F, by rw [if_neg (by omega), if_pos (by omega), hED], by omega, by omega⟩
        · refine ⟨0x80, 0xBF, ?_, by omega, by omega⟩
          rw [if_neg (by omega), if_neg (by omega), if_pos (by omega), Nat.add_sub_cancel_left]
      rw [foldl_cons, hlead, foldl_cons, feed_more (by omega) (by omega) hlow hhigh,
        foldl_cons, feed_last (by omega) (by omega) (by omega), foldl_nil,
        show (n / 4096 * 64 + n / 64 % 64) * 64 + n % 64 = n by omega, hself]
  · next h1 h2 h3 =>
      obtain ⟨low, high, hlead, hlow, hhigh⟩ : ∃ low high,
          Decoder.feed ⟨text, none⟩ (UInt8.ofNat (0xF0 + n / 262144)) =
            ⟨text, some ⟨n / 262144, 3, low, high⟩⟩ ∧ low ≤ 0x80 + n / 4096 % 64 ∧
            0x80 + n / 4096 % 64 ≤ high := by
        simp only [Decoder.feed, Decoder.lead]
        rw [toNat_ofNat_lt (by omega), if_neg (by omega), if_neg (by omega), if_neg (by omega),
          if_neg (by omega), if_neg (by omega)]
        by_cases hF0 : n / 262144 = 0
        · exact ⟨0x90, 0xBF, by rw [if_pos (by omega), hF0], by omega, by omega⟩
        by_cases hF4 : n / 262144 = 4
        · refine ⟨0x80, 0x8F, ?_, by omega, by omega⟩
          rw [if_neg (by omega), if_neg (by omega), if_pos (by omega), hF4]
        · refine ⟨0x80, 0xBF, ?_, by omega, by omega⟩
          rw [if_neg (by omega), if_pos (by omega), Nat.add_sub_cancel_left]
      rw [foldl_cons, hlead, foldl_cons, feed_more (by omega) (by omega) hlow hhigh,
        foldl_cons, feed_more (by omega) (by omega) (by omega) (by omega), foldl_cons,
        feed_last (by omega) (by omega) (by omega), foldl_nil,
        show ((n / 262144 * 64 + n / 4096 % 64) * 64 + n / 64 % 64) * 64 + n % 64 = n by omega,
        hself]

theorem decoder_encode (text : List Char) : decoder (encode text) = ⟨text, none⟩ := by
  have hfold : ∀ before, (encode text).foldl Decoder.feed ⟨before, none⟩ =
      ⟨before ++ text, none⟩ := by
    induction text with
    | nil => exact fun before => by rw [append_nil]; rfl
    | cons c text ih =>
      intro before
      have hcons : encode (c :: text) = encodeChar c ++ encode text := rfl
      rw [hcons, foldl_append, feed_encodeChar, ih, append_assoc,
        singleton_append]
  exact hfold []

/-- **What was encoded is decoded.** -/
theorem decode_encode (text : List Char) : decode (encode text) = text := by
  unfold decode
  rw [decoder_encode]
  rfl

end AgenticKibana.Library.TextLines
