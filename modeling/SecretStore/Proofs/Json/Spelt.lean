import SecretStore.Proofs.Json.Spelling

namespace SecretStore.Json

open Utf8

theorem hexValue?_lt {a : UInt8} {value : Nat} (known : hexValue? a = some value) : value < 16 := by
  simp only [hexValue?] at known
  split_ifs at known <;> cases known <;> omega

theorem HexUnit.lt {digits : Bytes} {unit : Nat} (written : HexUnit digits unit) : unit < 0x10000 := by
  cases written with
  | digits first second third fourth =>
      have := hexValue?_lt first
      have := hexValue?_lt second
      have := hexValue?_lt third
      have := hexValue?_lt fourth
      omega

theorem hexUnit_eq_ok {s rest : Bytes} {unit : Nat} (read : hexUnit s = .ok (unit, rest)) :
    ∃ digits, s = digits ++ rest ∧ HexUnit digits unit := by
  rw [hexUnit.eq_def] at read
  split at read
  · split at read
    · rename_i first second third fourth
      cases read
      exact ⟨_, rfl, .digits first second third fourth⟩
    · cases read
  · cases read

theorem lowHalf_eq_ok {high : Nat} {s rest : Bytes} {c : Char} (read : lowHalf high s = .ok (c, rest)) :
    ∃ digits low, s = backslash :: octet 'u' :: (digits ++ rest) ∧ HexUnit digits low ∧ isLow low = true ∧
      c = paired high low := by
  rw [lowHalf.eq_def] at read
  split at read
  · cases read
  · split at read
    · cases read
    · rename_i slash
      split at read
      · cases read
      · split at read
        · cases read
        · rename_i unit
          split at read
          · cases read
          · rename_i low after found
            split at read
            · rename_i isLow
              simp only [Except.ok.injEq, Prod.mk.injEq] at read
              obtain ⟨rfl, rfl⟩ := read
              obtain ⟨digits, rfl, written⟩ := hexUnit_eq_ok found
              exact ⟨digits, low, by rw [not_not.1 slash, not_not.1 unit], written, isLow, rfl⟩
            · cases read

theorem escape_eq_ok {s rest : Bytes} {c : Char} (read : escape s = .ok (c, rest)) :
    ∃ escaped, s = escaped ++ rest ∧ SpellsChar c (backslash :: escaped) := by
  rw [escape.eq_def] at read
  split at read
  · cases read
  · split at read
    · rename_i isUnit
      rw [unicodeEscape] at read
      split at read
      · cases read
      · rename_i unit after found
        obtain ⟨digits, rfl, written⟩ := hexUnit_eq_ok found
        have bound := written.lt
        split at read
        · cases read
        · rename_i notLow
          simp only [isLow, Bool.not_eq_true, Bool.and_eq_false_iff, decide_eq_false_iff_not] at notLow
          split at read
          · rename_i isHigh
            obtain ⟨second, low, rfl, written', isLow, same⟩ := lowHalf_eq_ok read
            simp only [Json.isHigh, Json.isLow, Bool.and_eq_true, decide_eq_true_eq] at isHigh isLow
            refine ⟨octet 'u' :: digits ++ backslash :: octet 'u' :: second, by simp [isUnit], ?_⟩
            refine .pair written written' isHigh.1 isHigh.2 isLow.1 isLow.2 ?_
            rw [same, paired, toNat_charOfNat (by omega) (by omega)]
          · rename_i notHigh
            simp only [isHigh, Bool.not_eq_true, Bool.and_eq_false_iff, decide_eq_false_iff_not] at notHigh
            cases read
            refine ⟨octet 'u' :: digits, by simp [isUnit], .unit ?_⟩
            rwa [toNat_charOfNat (by omega) (by omega)]
    · split at read
      · rename_i known
        cases read
        exact ⟨_, rfl, .short known⟩
      · cases read

inductive SpeltAs : List Spelled → Bytes → Prop where
  | nil : SpeltAs [] []
  | raw {a : UInt8} {more : List Spelled} {s : Bytes} : a ≠ quote → a ≠ backslash → ¬ a < 0x20 →
      SpeltAs more s → SpeltAs (.raw a :: more) (a :: s)
  | escaped {c : Char} {escaped s : Bytes} {more : List Spelled} : SpellsChar c (backslash :: escaped) →
      SpeltAs more s → SpeltAs (.escaped c :: more) (backslash :: escaped ++ s)

theorem spellings_eq_ok {s rest : Bytes} {found : List Spelled} (read : spellings s = .ok (found, rest)) :
    ∃ spelling, s = spelling ++ quote :: rest ∧ SpeltAs found spelling := by
  induction length : s.length using Nat.strongRecOn generalizing s found with
  | ind n ih =>
      subst length
      rw [spellings.eq_def] at read
      split at read
      · cases read
      · rename_i a tail
        split at read
        · rename_i isQuote
          cases read
          exact ⟨[], by rw [isQuote]; rfl, .nil⟩
        · rename_i notQuote
          split at read
          · rename_i isBackslash
            split at read
            · cases read
            · rename_i c after escaped
              dsimp only at read
              split at read
              · cases read
              · rename_i more left again
                cases read
                have shorter := escape_length escaped
                obtain ⟨written, rfl, spells⟩ := escape_eq_ok escaped
                obtain ⟨others, rfl, spelt⟩ := ih after.length (by simp only [List.length_cons]; omega) again rfl
                exact ⟨backslash :: written ++ others, by simp [isBackslash], .escaped spells spelt⟩
          · rename_i notBackslash
            split at read
            · cases read
            · rename_i shown
              split at read
              · cases read
              · rename_i more left again
                cases read
                obtain ⟨others, rfl, spelt⟩ := ih tail.length (by simp) again rfl
                exact ⟨a :: others, rfl, .raw notQuote notBackslash shown spelt⟩

theorem SpeltAs.inner {found : List Spelled} {s : Bytes} (spelt : SpeltAs found s) {inner tail : Bytes}
    (inside : ∀ a ∈ inner, IsInner a) (octets : spelledOctets found = inner ++ tail) :
    ∃ more left, s = inner ++ left ∧ SpeltAs more left ∧ spelledOctets more = tail := by
  induction inner generalizing found s with
  | nil => exact ⟨found, s, rfl, spelt, octets⟩
  | cons a inner ih =>
      obtain ⟨first, others⟩ := List.forall_mem_cons.1 inside
      cases spelt with
      | nil => cases octets
      | raw _ _ _ spelt =>
          rw [spelledOctets, List.cons_append, List.cons.injEq] at octets
          obtain ⟨rfl, octets⟩ := octets
          obtain ⟨more, left, rfl, spelt, same⟩ := ih spelt others octets
          exact ⟨more, left, rfl, spelt, same⟩
      | @escaped c _ _ _ _ _ =>
          obtain ⟨b, rest, encoded, starts, -⟩ := encodeChar_cases c
          rw [spelledOctets, encoded, List.cons_append, List.cons_append, List.cons.injEq] at octets
          exact absurd (octets.1 ▸ first) starts

theorem SpeltAs.spells {chars : List Char} {found : List Spelled} {s : Bytes} (spelt : SpeltAs found s)
    (octets : spelledOctets found = encode chars) : Spells chars s := by
  induction chars generalizing found s with
  | nil =>
      cases spelt with
      | nil => exact .nil
      | raw _ _ _ _ => cases octets
      | @escaped c _ _ _ _ _ =>
          obtain ⟨first, inner, encoded, -⟩ := encodeChar_cases c
          rw [spelledOctets, encoded] at octets
          cases octets
  | cons d chars ih =>
      obtain ⟨first, inner, encoded, -, inside, ascii⟩ := encodeChar_cases d
      cases spelt with
      | nil =>
          rw [encode, List.flatMap_cons, encoded] at octets
          cases octets
      | @escaped c _ _ _ spells spelt =>
          obtain ⟨rfl, others⟩ := encodeChar_append_inj octets
          exact .cons spells (ih spelt others)
      | @raw a _ _ notQuote notBackslash shown spelt =>
          rw [encode, List.flatMap_cons, encoded, spelledOctets, List.cons_append, List.cons.injEq] at octets
          obtain ⟨rfl, octets⟩ := octets
          obtain ⟨more, left, rfl, spelt, same⟩ := spelt.inner inside octets
          have plain : SpellsChar d (String.utf8EncodeChar d) := by
            have code (n : Nat) (small : n < 0x80) (is : d.toNat = n) : a = UInt8.ofNat n := by
              rw [← UInt8.toNat_inj, ascii (is ▸ small), toNat_ofNat (by omega), is]
            refine .raw ?_ ?_ (Nat.le_of_not_lt fun control => shown ?_)
            · rintro rfl
              exact notQuote (code 34 (by decide) rfl)
            · rintro rfl
              exact notBackslash (code 92 (by decide) rfl)
            · rw [lt_iff, ascii (by omega)]
              exact control
          rw [encoded] at plain
          exact .cons plain (ih spelt same)

theorem readText_eq_ok_iff {s rest : Bytes} {text : String} :
    readText s = .ok (text, rest) ↔ ∃ spelling, s = spelling ++ quote :: rest ∧ Spells text.toList spelling := by
  constructor
  · intro read
    rw [readText] at read
    split at read
    · cases read
    · rename_i found left spelled
      dsimp only at read
      split at read
      · rename_i decoded
        cases read
        obtain ⟨spelling, rfl, spelt⟩ := spellings_eq_ok spelled
        exact ⟨spelling, rfl, spelt.spells (bytes_of_text? decoded).symm⟩
      · cases read
  · rintro ⟨spelling, rfl, spells⟩
    rw [readText_spells spells, String.ofList_toList]

end SecretStore.Json
