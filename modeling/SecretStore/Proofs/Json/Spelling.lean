import Mathlib.Data.List.Basic
import SecretStore.Json.Text
import SecretStore.Proofs.Text.Utf8

namespace SecretStore.Json

open Utf8

inductive HexUnit : Bytes → Nat → Prop where
  | digits {first second third fourth : UInt8} {a b c d : Nat} :
      hexValue? first = some a → hexValue? second = some b → hexValue? third = some c →
      hexValue? fourth = some d →
      HexUnit [first, second, third, fourth] (((a * 16 + b) * 16 + c) * 16 + d)

inductive SpellsChar : Char → Bytes → Prop where
  | raw {c : Char} : c ≠ '"' → c ≠ '\\' → 0x20 ≤ c.toNat → SpellsChar c (String.utf8EncodeChar c)
  | short {c : Char} {a : UInt8} : shortEscape? a = some c → SpellsChar c [backslash, a]
  | unit {c : Char} {digits : Bytes} :
      HexUnit digits c.toNat → SpellsChar c (backslash :: octet 'u' :: digits)
  | pair {c : Char} {high low : Nat} {first second : Bytes} :
      HexUnit first high → HexUnit second low → 0xD800 ≤ high → high ≤ 0xDBFF → 0xDC00 ≤ low →
      low ≤ 0xDFFF → c.toNat = 0x10000 + (high - 0xD800) * 0x400 + (low - 0xDC00) →
      SpellsChar c (backslash :: octet 'u' :: first ++ backslash :: octet 'u' :: second)

inductive Spells : List Char → Bytes → Prop where
  | nil : Spells [] []
  | cons {c : Char} {chars : List Char} {first rest : Bytes} :
      SpellsChar c first → Spells chars rest → Spells (c :: chars) (first ++ rest)

theorem hexUnit_append {digits : Bytes} {unit : Nat} (written : HexUnit digits unit) (rest : Bytes) :
    hexUnit (digits ++ rest) = .ok (unit, rest) := by
  cases written with
  | digits first second third fourth =>
      simp only [List.cons_append, List.nil_append, hexUnit, first, second, third, fourth]

theorem escape_unit {digits : Bytes} {c : Char} (written : HexUnit digits c.toNat) (rest : Bytes) :
    escape (octet 'u' :: digits ++ rest) = .ok (c, rest) := by
  have valid := (char_lt c).2
  have notLow : isLow c.toNat = false := by
    simp only [isLow, Bool.and_eq_false_iff, decide_eq_false_iff_not]
    omega
  have notHigh : isHigh c.toNat = false := by
    simp only [isHigh, Bool.and_eq_false_iff, decide_eq_false_iff_not]
    omega
  simp only [List.cons_append, escape, ↓reduceIte, unicodeEscape, hexUnit_append written, notLow,
    notHigh, Bool.false_eq_true, Char.ofNat_toNat]

theorem escape_pair {c : Char} {high low : Nat} {first second : Bytes} (firstUnit : HexUnit first high)
    (secondUnit : HexUnit second low) (highLeast : 0xD800 ≤ high) (highMost : high ≤ 0xDBFF)
    (lowLeast : 0xDC00 ≤ low) (lowMost : low ≤ 0xDFFF)
    (number : c.toNat = 0x10000 + (high - 0xD800) * 0x400 + (low - 0xDC00)) (rest : Bytes) :
    escape (octet 'u' :: first ++ backslash :: octet 'u' :: second ++ rest) = .ok (c, rest) := by
  have notLow : isLow high = false := by
    simp only [isLow, Bool.and_eq_false_iff, decide_eq_false_iff_not]
    omega
  have isHigh : isHigh high = true := by
    simp only [isHigh, Bool.and_eq_true, decide_eq_true_eq]
    exact ⟨highLeast, highMost⟩
  have isLow : isLow low = true := by
    simp only [isLow, Bool.and_eq_true, decide_eq_true_eq]
    exact ⟨lowLeast, lowMost⟩
  have same : paired high low = c := by rw [paired, ← number, Char.ofNat_toNat]
  simp only [List.cons_append, List.append_assoc, escape, ↓reduceIte, unicodeEscape,
    hexUnit_append firstUnit, notLow, isHigh, Bool.false_eq_true, lowHalf, ne_eq, not_true_eq_false,
    hexUnit_append secondUnit, isLow, same]

theorem escape_short {a : UInt8} {c : Char} (known : shortEscape? a = some c) (rest : Bytes) :
    escape (a :: rest) = .ok (c, rest) := by
  have notUnit : a ≠ octet 'u' := by
    rintro rfl
    have unknown : shortEscape? (octet 'u') = none := by decide
    rw [unknown] at known
    cases known
  simp only [escape, notUnit, ↓reduceIte, known]

theorem spellings_escape {s after left : Bytes} {c : Char} {more : List Spelled}
    (escaped : escape s = .ok (c, after)) (read : spellings after = .ok (more, left)) :
    spellings (backslash :: s) = .ok (.escaped c :: more, left) := by
  rw [spellings, if_neg (by decide), if_pos rfl]
  split
  · rename_i fault failed
    rw [escaped] at failed
    cases failed
  · rename_i other after found
    rw [escaped] at found
    cases found
    rw [read]

theorem spellings_raw {s rest left : Bytes} {more : List Spelled}
    (plain : ∀ a ∈ s, a ≠ quote ∧ a ≠ backslash ∧ ¬ a < 0x20)
    (read : spellings rest = .ok (more, left)) :
    spellings (s ++ rest) = .ok (s.map .raw ++ more, left) := by
  induction s with
  | nil => exact read
  | cons a s ih =>
      obtain ⟨notQuote, notBackslash, notControl⟩ := plain a (by simp)
      have others := ih fun b member => plain b (by simp [member])
      rw [List.cons_append, spellings, if_neg notQuote, if_neg notBackslash, if_neg notControl, others]
      rfl

theorem spelledOctets_raw (octets : Bytes) (more : List Spelled) :
    spelledOctets (octets.map .raw ++ more) = octets ++ spelledOctets more := by
  induction octets with
  | nil => rfl
  | cons a octets ih => exact congrArg (a :: ·) ih

theorem encodeChar_plain {c : Char} (notQuote : c ≠ '"') (notBackslash : c ≠ '\\')
    (notControl : 0x20 ≤ c.toNat) {a : UInt8} (member : a ∈ String.utf8EncodeChar c) :
    a ≠ quote ∧ a ≠ backslash ∧ ¬ a < 0x20 := by
  have bound := (char_lt c).1
  have ascii (different : ¬ c.toNat ≤ 0x7F → 0x80 ≤ a.toNat) (same : c.toNat ≤ 0x7F → a.toNat = c.toNat) :
      a ≠ quote ∧ a ≠ backslash ∧ ¬ a < 0x20 := by
    have numbers : c.toNat ≠ 34 ∧ c.toNat ≠ 92 :=
      ⟨fun number => notQuote (Char.toNat_inj.mp number),
        fun number => notBackslash (Char.toNat_inj.mp number)⟩
    have quoteNumber : quote.toNat = 34 := rfl
    have backslashNumber : backslash.toNat = 92 := rfl
    have space : (0x20 : UInt8).toNat = 0x20 := rfl
    rw [lt_iff, space]
    refine ⟨?_, ?_, by omega⟩
    · rintro rfl
      omega
    · rintro rfl
      omega
  rw [encodeChar_eq] at member
  split_ifs at member with one two three
  · simp only [List.mem_singleton] at member
    exact ascii (by omega) fun _ => by rw [member, toNat_ofNat (by omega)]
  · refine ascii (fun _ => ?_) (fun small => absurd small one)
    simp only [List.mem_cons, List.not_mem_nil, or_false] at member
    rcases member with rfl | rfl <;> rw [toNat_ofNat (by omega)] <;> omega
  · refine ascii (fun _ => ?_) (fun small => absurd small one)
    simp only [List.mem_cons, List.not_mem_nil, or_false] at member
    rcases member with rfl | rfl | rfl <;> rw [toNat_ofNat (by omega)] <;> omega
  · refine ascii (fun _ => ?_) (fun small => absurd small one)
    simp only [List.mem_cons, List.not_mem_nil, or_false] at member
    rcases member with rfl | rfl | rfl | rfl <;> rw [toNat_ofNat (by omega)] <;> omega

theorem spellings_spellsChar {c : Char} {s rest left : Bytes} {more : List Spelled}
    (spelled : SpellsChar c s) (read : spellings rest = .ok (more, left)) :
    ∃ found, spellings (s ++ rest) = .ok (found ++ more, left) ∧
      spelledOctets (found ++ more) = String.utf8EncodeChar c ++ spelledOctets more := by
  cases spelled with
  | raw notQuote notBackslash notControl =>
      exact ⟨_, spellings_raw (fun a => encodeChar_plain notQuote notBackslash notControl) read,
        spelledOctets_raw _ _⟩
  | short known => exact ⟨[.escaped c], spellings_escape (escape_short known rest) read, rfl⟩
  | unit written => exact ⟨[.escaped c], spellings_escape (escape_unit written rest) read, rfl⟩
  | pair first second highLeast highMost lowLeast lowMost number =>
      have escaped := escape_pair first second highLeast highMost lowLeast lowMost number rest
      exact ⟨[.escaped c], spellings_escape escaped read, rfl⟩

theorem spellings_spells {chars : List Char} {s : Bytes} (spelled : Spells chars s) (rest : Bytes) :
    ∃ found, spellings (s ++ quote :: rest) = .ok (found, rest) ∧ spelledOctets found = encode chars := by
  induction spelled with
  | nil =>
      refine ⟨[], ?_, rfl⟩
      rw [List.nil_append, spellings, if_pos rfl]
  | cons first others ih =>
      obtain ⟨more, read, octets⟩ := ih
      obtain ⟨found, whole, same⟩ := spellings_spellsChar first read
      rw [octets] at same
      rw [List.append_assoc]
      exact ⟨_, whole, same⟩

theorem readText_spells {chars : List Char} {s : Bytes} (spelled : Spells chars s) (rest : Bytes) :
    readText (s ++ quote :: rest) = .ok (String.ofList chars, rest) := by
  obtain ⟨found, read, octets⟩ := spellings_spells spelled rest
  simp only [readText, read, octets, text?, decode?_encode, Option.map_some]

theorem hexLetter_lt : ∀ value < 16, (hexLetter value).toNat < 0x80 := by
  decide

theorem hexValue?_hexLetter : ∀ value < 16, hexValue? (octet (hexLetter value)) = some value := by
  decide

theorem encode_ascii_cons {c : Char} (ascii : c.toNat < 0x80) (rest : List Char) :
    encode (c :: rest) = octet c :: encode rest := by
  rw [encode, List.flatMap_cons, encodeChar_ascii ascii]
  rfl

theorem spellsChar_control {c : Char} (control : c.toNat < 0x20) :
    SpellsChar c
      (encode ['\\', 'u', '0', '0', hexLetter (c.toNat / 16), hexLetter (c.toNat % 16)]) := by
  have high : c.toNat / 16 < 16 := by omega
  have low : c.toNat % 16 < 16 := by omega
  have number : ((0 * 16 + 0) * 16 + c.toNat / 16) * 16 + c.toNat % 16 = c.toNat := by omega
  have zero : hexValue? (octet '0') = some 0 := by decide
  have digits := HexUnit.digits zero zero (hexValue?_hexLetter _ high) (hexValue?_hexLetter _ low)
  rw [number] at digits
  rw [encode_ascii_cons (by decide), encode_ascii_cons (by decide), encode_ascii_cons (by decide),
    encode_ascii_cons (by decide), encode_ascii_cons (hexLetter_lt _ high),
    encode_ascii_cons (hexLetter_lt _ low)]
  exact .unit digits

theorem spellsChar_writeChar (c : Char) : SpellsChar c (encode (writeChar c)) := by
  unfold writeChar
  split
  case h_8 notQuote notBackslash _ _ _ _ _ =>
      split_ifs with control
      · exact spellsChar_control control
      · rw [encode, List.flatMap_cons, List.flatMap_nil, List.append_nil]
        exact .raw notQuote notBackslash (by omega)
  all_goals exact .short (a := octet _) rfl

theorem spells_write (chars : List Char) : Spells chars (encode (chars.flatMap writeChar)) := by
  induction chars with
  | nil => exact .nil
  | cons c chars ih =>
      rw [List.flatMap_cons, encode_append]
      exact .cons (spellsChar_writeChar c) ih

theorem bytes_writeText (text : String) :
    bytes (writeText text) = quote :: (encode (text.toList.flatMap writeChar) ++ [quote]) := by
  rw [bytes, writeText, String.toList_ofList, encode_append, encode_ascii_cons (by decide)]
  rfl

end SecretStore.Json
