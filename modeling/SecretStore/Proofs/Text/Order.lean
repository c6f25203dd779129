import Mathlib.Data.List.Lex
import SecretStore.Proofs.Text.Utf8

namespace SecretStore.Utf8

def Apart (first second : Bytes) : Prop :=
  ∃ front a b rest left, first = front ++ a :: rest ∧ second = front ++ b :: left ∧ a < b

theorem apart_head {m n : Nat} (less : m < n) (small : n < 256) (rest left : Bytes) :
    Apart (UInt8.ofNat m :: rest) (UInt8.ofNat n :: left) := by
  refine ⟨[], _, _, rest, left, rfl, rfl, ?_⟩
  rw [lt_iff, toNat_ofNat (by omega), toNat_ofNat small]
  exact less

theorem Apart.behind {first second : Bytes} (apart : Apart first second) (front : Bytes) :
    Apart (front ++ first) (front ++ second) := by
  obtain ⟨more, a, b, rest, left, rfl, rfl, less⟩ := apart
  exact ⟨front ++ more, a, b, rest, left, (List.append_assoc ..).symm, (List.append_assoc ..).symm, less⟩

theorem Apart.append {first second : Bytes} (apart : Apart first second) (more others : Bytes) :
    Apart (first ++ more) (second ++ others) := by
  obtain ⟨front, a, b, rest, left, rfl, rfl, less⟩ := apart
  exact ⟨front, a, b, rest ++ more, left ++ others, List.append_assoc .., List.append_assoc .., less⟩

theorem Apart.lt {first second : Bytes} (apart : Apart first second) (rest left : Bytes) :
    first ++ rest < second ++ left := by
  obtain ⟨front, a, b, rest', left', rfl, rfl, less⟩ := apart
  rw [List.append_assoc, List.append_assoc]
  exact List.Lex.append_left _ (List.Lex.rel less) front

def continued (octets : Nat → Bytes) (n : Nat) : Bytes := octets (n / 64) ++ [UInt8.ofNat (n % 64 + 0x80)]

theorem apart_continued {octets : Nat → Bytes} {bound : Nat}
    (apart : ∀ {m n}, m < n → n < bound → Apart (octets m) (octets n)) {m n : Nat} (less : m < n)
    (small : n < bound * 64) : Apart (continued octets m) (continued octets n) := by
  rcases Nat.lt_or_ge (m / 64) (n / 64) with high | high
  · exact (apart high (by omega)).append _ _
  · rw [continued, continued, show n / 64 = m / 64 by omega]
    exact (apart_head (by omega) (by omega) [] []).behind _

theorem apart_lead (lead : Nat) {m n : Nat} (less : m < n) (small : n < 256 - lead) :
    Apart [UInt8.ofNat (m + lead)] [UInt8.ofNat (n + lead)] :=
  apart_head (by omega) (by omega) [] []

theorem encodeChar_apart {c d : Char} (less : c.toNat < d.toNat) :
    Apart (String.utf8EncodeChar c) (String.utf8EncodeChar d) := by
  have bound := (char_lt d).1
  have two := apart_continued (apart_lead 0xC0) less
  have three := apart_continued (apart_continued (apart_lead 0xE0)) less
  have four := apart_continued (apart_continued (apart_continued (apart_lead 0xF0))) less
  rw [encodeChar_eq c, encodeChar_eq d]
  -- Of two characters with different numbers of octets, the one with fewer has the lesser first octet.
  split_ifs
  · exact apart_head less (by omega) _ _
  · exact apart_head (by omega) (by omega) _ _
  · exact apart_head (by omega) (by omega) _ _
  · exact apart_head (by omega) (by omega) _ _
  · omega
  · exact two (by omega)
  · exact apart_head (by omega) (by omega) _ _
  · exact apart_head (by omega) (by omega) _ _
  · omega
  · omega
  · exact three (by omega)
  · exact apart_head (by omega) (by omega) _ _
  · omega
  · omega
  · omega
  · exact four (by omega)

theorem encode_lt_encode {first second : List Char} (less : first < second) : encode first < encode second := by
  induction less with
  | @nil c rest =>
      obtain ⟨a, octets, encoded, -⟩ := encodeChar_cases c
      rw [encode, encode, List.flatMap_nil, List.flatMap_cons, encoded]
      exact List.Lex.nil
  | cons less ih =>
      rw [encode, encode, List.flatMap_cons, List.flatMap_cons]
      exact List.Lex.append_left _ ih _
  | rel less =>
      rw [encode, encode, List.flatMap_cons, List.flatMap_cons]
      exact (encodeChar_apart less).lt _ _

end SecretStore.Utf8
