import Mathlib.Data.List.Infix
import SecretStore.Http.Url.Parse
import SecretStore.Proofs.Text.Utf8

namespace SecretStore.Http.Url

open Utf8

def plusAsBlank (c : Char) : Char := if c = '+' then ' ' else c

def unescaped (text : List Char) : Bytes := percentDecode (encode (text.map plusAsBlank))

def parameter (part : List Char) : Bytes × Bytes :=
  (unescaped (cutAt '=' part).1, unescaped ((cutAt '=' part).2.getD []))

def partsOf (target : String) : List (List Char) :=
  splitAtSign '&' ((cutAt '?' target.toList).2.getD [])

def valuesIn (name : String) (parts : List (List Char)) : List Bytes :=
  ((parts.map parameter).filter (·.1 = bytes name)).map (·.2)

def valuesOf (name target : String) : List Bytes := valuesIn name (partsOf target)

theorem valuesIn_cons_of_eq {name : String} {part : List Char} (parts : List (List Char))
    (same : (parameter part).1 = bytes name) :
    valuesIn name (part :: parts) = (parameter part).2 :: valuesIn name parts := by
  simp [valuesIn, same]

theorem valuesIn_cons_of_ne {name : String} {part : List Char} (parts : List (List Char))
    (other : (parameter part).1 ≠ bytes name) : valuesIn name (part :: parts) = valuesIn name parts := by
  simp [valuesIn, other]

theorem percentDecode_cons {a : UInt8} (other : a ≠ 37) (rest : Bytes) :
    percentDecode (a :: rest) = a :: percentDecode rest := by
  match rest with
  | [] => rfl
  | [b] => rfl
  | b :: c :: rest => rw [percentDecode, if_neg other]

theorem percentDecode_octet {high low : UInt8} {first second : Nat} (rest : Bytes)
    (isHigh : hexValue? high = some first) (isLow : hexValue? low = some second) :
    percentDecode (37 :: high :: low :: rest) = UInt8.ofNat (first * 16 + second) :: percentDecode rest := by
  simp only [percentDecode, ↓reduceIte, isHigh, isLow]

theorem percentDecode_sign {rest : Bytes}
    (lone : ∀ high low, [high, low] <+: rest → hexValue? high = none ∨ hexValue? low = none) :
    percentDecode (37 :: rest) = 37 :: percentDecode rest := by
  match rest, lone with
  | [], _ => rfl
  | [b], _ => rfl
  | b :: c :: rest, lone =>
      rw [percentDecode, if_pos rfl]
      have one := lone b c (by simp)
      cases isHigh : hexValue? b with
      | none => rfl
      | some high =>
          cases isLow : hexValue? c with
          | none => rfl
          | some low => simp [isHigh, isLow] at one

theorem length_percentDecode_le (octets : Bytes) : (percentDecode octets).length ≤ octets.length := by
  fun_induction percentDecode octets with
  | case1 b c rest high low isHigh isLow ih => simp only [List.length_cons]; omega
  | case2 b c rest lone ih => simpa using ih
  | case3 a b c rest other ih => simpa using ih
  | case4 rest short => exact Nat.le_refl _

theorem percentDecode_eq_self_iff {octets : Bytes} :
    percentDecode octets = octets ↔
      ∀ high low, [37, high, low] <:+: octets → hexValue? high = none ∨ hexValue? low = none := by
  fun_induction percentDecode octets with
  | case1 b c rest high low isHigh isLow ih =>
      -- Decoding a triple makes the octets fewer, so they cannot stay the same.
      constructor
      · intro same
        have shorter := length_percentDecode_le rest
        have lengths := congrArg List.length same
        simp only [List.length_cons] at lengths
        omega
      · intro lone
        have here := lone b c (List.IsPrefix.isInfix (by simp))
        simp [isHigh, isLow] at here
  | case2 b c rest lone ih =>
      rw [List.cons.injEq, ih]
      simp only [true_and, @List.infix_cons_iff _ _ _ (b :: c :: rest), List.cons_prefix_cons]
      constructor
      · rintro others high low (⟨rfl, rfl, -⟩ | later)
        · cases isHigh : hexValue? high with
          | none => exact Or.inl rfl
          | some value =>
              cases isLow : hexValue? low with
              | none => exact Or.inr rfl
              | some digit => exact (lone value digit isHigh isLow).elim
        · exact others high low later
      · exact fun all high low later => all high low (Or.inr later)
  | case3 a b c rest other ih =>
      rw [List.cons.injEq, ih]
      simp only [true_and, @List.infix_cons_iff _ _ _ (b :: c :: rest), List.cons_prefix_cons,
        Ne.symm other, false_and, false_or]
  | case4 rest short =>
      simp only [true_iff]
      intro high low inside
      match rest, short, inside.length_le with
      | a :: b :: c :: rest, short, _ => exact (short a b c rest rfl).elim

theorem percentDecode_eq_self_of_length {octets : Bytes}
    (same : (percentDecode octets).length = octets.length) : percentDecode octets = octets := by
  fun_induction percentDecode octets with
  | case1 b c rest high low isHigh isLow ih =>
      have shorter := length_percentDecode_le rest
      simp only [List.length_cons] at same
      omega
  | case2 b c rest lone ih => rw [ih (by simpa using same)]
  | case3 a b c rest other ih => rw [ih (by simpa using same)]
  | case4 rest short => rfl

/-- Some of the octets are percent encoded. -/
inductive Spells : Bytes → Bytes → Prop where
  | nil : Spells [] []
  | plain {written octets : Bytes} (a : UInt8) : Spells written octets → Spells (a :: written) (a :: octets)
  | sign {written octets : Bytes} (a : UInt8) : a ≠ 37 → hexValue? a = none → Spells written octets →
      Spells (encode (percentOctet a) ++ written) (a :: octets)

theorem hexValue?_hexLetter : ∀ value < 16,
    hexValue? (UInt8.ofNat (hexLetter value).toNat) = some value ∧ (hexLetter value).toNat < 128 ∧
      hexLetter value ≠ '+' := by
  decide +kernel

theorem encode_percentOctet (a : UInt8) :
    encode (percentOctet a) = [37, UInt8.ofNat (hexLetter (a.toNat / 16)).toNat,
      UInt8.ofNat (hexLetter (a.toNat % 16)).toNat] := by
  have high := hexValue?_hexLetter (a.toNat / 16) (by have := a.toNat_lt; omega)
  have low := hexValue?_hexLetter (a.toNat % 16) (by omega)
  simp only [percentOctet, encode, List.flatMap_cons, List.flatMap_nil, encodeChar_ascii high.2.1,
    encodeChar_ascii low.2.1, List.append_nil]
  rfl

theorem percentDecode_percentOctet (a : UInt8) (rest : Bytes) :
    percentDecode (encode (percentOctet a) ++ rest) = a :: percentDecode rest := by
  have bound := a.toNat_lt
  have high := (hexValue?_hexLetter (a.toNat / 16) (by omega)).1
  have low := (hexValue?_hexLetter (a.toNat % 16) (by omega)).1
  rw [encode_percentOctet]
  simp only [List.cons_append, List.nil_append, percentDecode_octet rest high low]
  rw [show a.toNat / 16 * 16 + a.toNat % 16 = a.toNat by omega, UInt8.ofNat_toNat]

theorem Spells.append {written octets more rest : Bytes} (first : Spells written octets)
    (second : Spells more rest) : Spells (written ++ more) (octets ++ rest) := by
  induction first with
  | nil => exact second
  | plain a spells ih => exact .plain a ih
  | sign a notSign notDigit spells ih =>
      rw [List.append_assoc]
      exact .sign a notSign notDigit ih

theorem Spells.refl (octets : Bytes) : Spells octets octets := by
  induction octets with
  | nil => exact .nil
  | cons a octets ih => exact .plain a ih

theorem Spells.of_digit {written rest : Bytes} {a : UInt8} {value : Nat}
    (spells : Spells written (a :: rest)) (digit : hexValue? a = some value) :
    ∃ more, written = a :: more ∧ Spells more rest := by
  cases spells with
  | plain a spells => exact ⟨_, rfl, spells⟩
  | sign a notSign notDigit spells =>
      rw [notDigit] at digit
      cases digit

theorem Spells.to_digit {more octets : Bytes} {a : UInt8} {value : Nat}
    (spells : Spells (a :: more) octets) (digit : hexValue? a = some value) :
    ∃ rest, octets = a :: rest ∧ Spells more rest := by
  generalize same : a :: more = written at spells
  cases spells with
  | nil => cases same
  | plain b spells =>
      cases same
      exact ⟨_, rfl, spells⟩
  | sign b notSign notDigit spells =>
      -- What is written here begins with a percent sign, which is no digit.
      rw [encode_percentOctet] at same
      cases same
      cases digit

def Lone (octets : Bytes) : Prop :=
  ∀ high low, [high, low] <+: octets → hexValue? high = none ∨ hexValue? low = none

theorem not_lone {octets : Bytes} (digits : ¬ Lone octets) :
    ∃ high low first second rest, octets = high :: low :: rest ∧ hexValue? high = some first ∧
      hexValue? low = some second := by
  simp only [Lone, not_forall, not_or] at digits
  obtain ⟨high, low, ⟨rest, rfl⟩, isHigh, isLow⟩ := digits
  obtain ⟨first, isHigh⟩ := Option.ne_none_iff_exists'.1 isHigh
  obtain ⟨second, isLow⟩ := Option.ne_none_iff_exists'.1 isLow
  exact ⟨high, low, first, second, rest, rfl, isHigh, isLow⟩

theorem Spells.lone {written octets : Bytes} (spells : Spells written octets) (lone : Lone octets) :
    Lone written := by
  by_contra digits
  obtain ⟨high, low, first, second, more, rfl, isHigh, isLow⟩ := not_lone digits
  obtain ⟨behind, rfl, others⟩ := spells.to_digit isHigh
  obtain ⟨rest, rfl, -⟩ := others.to_digit isLow
  have here := lone high low (by simp)
  simp [isHigh, isLow] at here

theorem percentDecode_of_spells {written octets : Bytes} (spells : Spells written octets) :
    percentDecode written = percentDecode octets := by
  match spells with
  | .nil => rfl
  | .sign a notSign notDigit spells =>
      rw [percentDecode_percentOctet, percentDecode_cons notSign, percentDecode_of_spells spells]
  | @Spells.plain written octets a spells =>
      by_cases isSign : a = 37
      · subst isSign
        by_cases lone : Lone octets
        · rw [percentDecode_sign (spells.lone lone), percentDecode_sign lone, percentDecode_of_spells spells]
        · obtain ⟨high, low, first, second, rest, rfl, isHigh, isLow⟩ := not_lone lone
          obtain ⟨behind, rfl, others⟩ := spells.of_digit isHigh
          obtain ⟨more, rfl, behindThem⟩ := others.of_digit isLow
          rw [percentDecode_octet _ isHigh isLow, percentDecode_octet _ isHigh isLow,
            percentDecode_of_spells behindThem]
      · rw [percentDecode_cons isSign, percentDecode_cons isSign, percentDecode_of_spells spells]
termination_by octets.length

structure HidesApart (hides : Char → Bool) : Prop where
  plus : hides '+' = false
  octets : ∀ c, hides c = true → ∀ a ∈ String.utf8EncodeChar c, a ≠ 37 ∧ hexValue? a = none

theorem spells_percentOctets {octets : Bytes} (hidden : ∀ a ∈ octets, a ≠ 37 ∧ hexValue? a = none) :
    Spells (encode (octets.flatMap percentOctet)) octets := by
  induction octets with
  | nil => exact .nil
  | cons a octets ih =>
      obtain ⟨notSign, notDigit⟩ := hidden a (by simp)
      rw [List.flatMap_cons, encode_append]
      exact .sign a notSign notDigit (ih fun b member => hidden b (by simp [member]))

theorem map_plusAsBlank_percentOctets (octets : Bytes) :
    (octets.flatMap percentOctet).map plusAsBlank = octets.flatMap percentOctet := by
  have letter (value : Nat) (small : value < 16) : plusAsBlank (hexLetter value) = hexLetter value :=
    if_neg (hexValue?_hexLetter value small).2.2
  induction octets with
  | nil => rfl
  | cons a octets ih =>
      have bound := a.toNat_lt
      rw [List.flatMap_cons, List.map_append, ih, percentOctet]
      simp only [List.map_cons, List.map_nil, letter (a.toNat / 16) (by omega),
        letter (a.toNat % 16) (by omega)]
      rfl

theorem spells_percentEncode {hides : Char → Bool} (apart : HidesApart hides) (text : List Char) :
    Spells (encode ((percentEncode hides text).map plusAsBlank)) (encode (text.map plusAsBlank)) := by
  induction text with
  | nil => exact .nil
  | cons c text ih =>
      rw [percentEncode, List.flatMap_cons, List.map_append, encode_append]
      refine Spells.append ?_ ih
      cases hidden : hides c with
      | false =>
          simp only [Bool.false_eq_true, ↓reduceIte, List.map_cons, List.map_nil, encode, List.flatMap_cons,
            List.flatMap_nil, List.append_nil]
          exact .refl _
      | true =>
          have notPlus : plusAsBlank c = c := by
            rw [plusAsBlank, if_neg]
            rintro rfl
            rw [apart.plus] at hidden
            cases hidden
          simp only [↓reduceIte, map_plusAsBlank_percentOctets, notPlus]
          exact spells_percentOctets (apart.octets c hidden)

theorem unescaped_percentEncode {hides : Char → Bool} (apart : HidesApart hides) (text : List Char) :
    unescaped (percentEncode hides text) = unescaped text :=
  percentDecode_of_spells (spells_percentEncode apart text)

theorem hidesInSpecialQuery_apart : HidesApart hidesInSpecialQuery where
  plus := by decide
  octets c hidden a member := by
    rcases Nat.lt_or_ge c.toNat 0x80 with ascii | beyond
    · have all : ∀ n < 0x80, hidesInSpecialQuery (Char.ofNat n) = true →
          UInt8.ofNat n ≠ 37 ∧ hexValue? (UInt8.ofNat n) = none := by
        decide +kernel
      rw [encodeChar_ascii ascii, List.mem_singleton] at member
      subst member
      exact all c.toNat ascii (by rwa [Char.ofNat_toNat])
    · have high := encodeChar_beyond beyond member
      constructor
      · rintro rfl
        exact absurd high (by decide)
      · simp only [hexValue?]
        rw [if_neg (by omega), if_neg (by omega), if_neg (by omega)]

theorem splitAtSign_append {sign : Char} {front text head : List Char} {tail : List (List Char)}
    (without : sign ∉ front) (split : splitAtSign sign text = head :: tail) :
    splitAtSign sign (front ++ text) = (front ++ head) :: tail := by
  induction front with
  | nil => exact split
  | cons c front ih =>
      rw [List.mem_cons, not_or] at without
      rw [List.cons_append, splitAtSign, if_neg (Ne.symm without.1), ih without.2]
      rfl

theorem splitAtSign_head (sign : Char) (text : List Char) :
    ∃ tail, splitAtSign sign text = text.takeWhile (· ≠ sign) :: tail := by
  induction text with
  | nil => exact ⟨[], rfl⟩
  | cons c text ih =>
      obtain ⟨tail, split⟩ := ih
      by_cases isSign : c = sign
      · simp [splitAtSign, isSign]
      · simp [splitAtSign, isSign, split]

theorem splitAtSign_eq_singleton {sign : Char} {text : List Char} (without : sign ∉ text) :
    splitAtSign sign text = [text] := by
  have split : splitAtSign sign (text ++ []) = [text ++ []] := splitAtSign_append without rfl
  simpa using split

theorem takeWhile_percentEncode {hides : Char → Bool} {sign : Char} (text : List Char)
    (shown : hides sign = false) (apart : ∀ a : UInt8, sign ∉ percentOctet a) :
    (percentEncode hides text).takeWhile (· ≠ sign) = percentEncode hides (text.takeWhile (· ≠ sign)) := by
  induction text with
  | nil => rfl
  | cons c text ih =>
      rw [percentEncode, List.flatMap_cons]
      change (_ ++ percentEncode hides text).takeWhile (· ≠ sign) = _
      by_cases isSign : c = sign
      · subst isSign
        simp [shown, percentEncode]
      · have passed : ∀ d ∈ (if hides c = true then (String.utf8EncodeChar c).flatMap percentOctet else [c]),
            decide (d ≠ sign) = true := by
          intro d member
          rw [decide_eq_true_eq]
          rintro rfl
          split at member
          · obtain ⟨a, -, written⟩ := List.mem_flatMap.1 member
            exact apart a written
          · exact isSign (List.mem_singleton.1 member).symm
        rw [List.takeWhile_append_of_pos passed, ih, List.takeWhile_cons_of_pos (by simpa using isSign),
          percentEncode, percentEncode, List.flatMap_cons]

end SecretStore.Http.Url
