import Mathlib.Data.List.Basic
import SecretStore.Text.Utf8

namespace SecretStore.Utf8

theorem run_cons (state : State) (a : UInt8) (rest : Bytes) :
    run state (a :: rest) = (feed state a).1 ++ run (feed state a).2 rest := by
  cases state <;> rfl

/-! ## Octets as numbers -/

theorem toNat_ofNat {n : Nat} (small : n < 256) : (UInt8.ofNat n).toNat = n := by
  rw [UInt8.toNat_ofNat']
  exact Nat.mod_eq_of_lt small

theorem le_iff (a b : UInt8) : a ≤ b ↔ a.toNat ≤ b.toNat := UInt8.le_iff_toNat_le

theorem lt_iff (a b : UInt8) : a < b ↔ a.toNat < b.toNat := UInt8.lt_iff_toNat_lt

theorem char_lt (c : Char) : c.toNat < 0x110000 ∧ (c.toNat < 0xD800 ∨ 0xDFFF < c.toNat) := by
  have := c.valid
  simp only [UInt32.isValidChar, Nat.isValidChar] at this
  change c.val.toNat < _ ∧ (c.val.toNat < _ ∨ _ < c.val.toNat)
  omega

theorem toNat_charOfNat {n : Nat} (bound : n < 0x110000) (valid : n < 0xD800 ∨ 0xDFFF < n) :
    (Char.ofNat n).toNat = n := by
  have good : n.isValidChar := by
    simp only [Nat.isValidChar]
    omega
  rw [Char.ofNat, dif_pos good]
  exact UInt32.toNat_ofNatLT ..

theorem encodeChar_eq (c : Char) :
    String.utf8EncodeChar c =
      if c.toNat ≤ 0x7F then [UInt8.ofNat c.toNat]
      else if c.toNat ≤ 0x7FF then
        [UInt8.ofNat (c.toNat / 64 + 0xC0), UInt8.ofNat (c.toNat % 64 + 0x80)]
      else if c.toNat ≤ 0xFFFF then
        [UInt8.ofNat (c.toNat / 64 / 64 + 0xE0), UInt8.ofNat (c.toNat / 64 % 64 + 0x80),
          UInt8.ofNat (c.toNat % 64 + 0x80)]
      else
        [UInt8.ofNat (c.toNat / 64 / 64 / 64 + 0xF0), UInt8.ofNat (c.toNat / 64 / 64 % 64 + 0x80),
          UInt8.ofNat (c.toNat / 64 % 64 + 0x80), UInt8.ofNat (c.toNat % 64 + 0x80)] := by
  have bound := (char_lt c).1
  unfold String.utf8EncodeChar
  change (if c.toNat ≤ 0x7F then [UInt8.ofNat c.toNat] else if c.toNat ≤ 0x7FF then
    [UInt8.ofNat (c.toNat / 64 % 0x20 + 0xC0), _] else if c.toNat ≤ 0xFFFF then
    [UInt8.ofNat (c.toNat / 4096 % 0x10 + 0xE0), UInt8.ofNat (c.toNat / 64 % 0x40 + 0x80), _] else
    [UInt8.ofNat (c.toNat / 262144 % 0x08 + 0xF0), UInt8.ofNat (c.toNat / 4096 % 0x40 + 0x80),
      UInt8.ofNat (c.toNat / 64 % 0x40 + 0x80), _]) = _
  rw [show c.toNat / 64 / 64 / 64 = c.toNat / 262144 by omega,
    show c.toNat / 64 / 64 = c.toNat / 4096 by omega]
  split
  · rfl
  split
  · rw [Nat.mod_eq_of_lt (show c.toNat / 64 < 0x20 by omega)]
    rfl
  split
  · rw [Nat.mod_eq_of_lt (show c.toNat / 4096 < 0x10 by omega)]
    rfl
  · rw [Nat.mod_eq_of_lt (show c.toNat / 262144 < 0x08 by omega)]
    rfl

/-! ## Inside a character -/

/-- The octets of an incomplete character and the range of the next one. The code point lacks six bits for each octet
that is missing. -/
inductive Pending : Bytes → Lead → Prop where
  | two (n : Nat) : 2 ≤ n → n < 32 → Pending [UInt8.ofNat (n + 0xC0)] ⟨1, 0x80, 0xBF, n⟩
  | three (n : Nat) : n < 16 → Pending [UInt8.ofNat (n + 0xE0)]
      ⟨2, if n = 0 then 0xA0 else 0x80, if n = 13 then 0x9F else 0xBF, n⟩
  | threeTaken (n : Nat) : 32 ≤ n → n < 1024 → n < 864 ∨ 895 < n →
      Pending [UInt8.ofNat (n / 64 + 0xE0), UInt8.ofNat (n % 64 + 0x80)] ⟨1, 0x80, 0xBF, n⟩
  | four (n : Nat) : n < 5 → Pending [UInt8.ofNat (n + 0xF0)]
      ⟨3, if n = 0 then 0x90 else 0x80, if n = 4 then 0x8F else 0xBF, n⟩
  | fourTaken (n : Nat) : 16 ≤ n → n < 272 →
      Pending [UInt8.ofNat (n / 64 + 0xF0), UInt8.ofNat (n % 64 + 0x80)] ⟨2, 0x80, 0xBF, n⟩
  | fourTwice (n : Nat) : 1024 ≤ n → n < 17408 →
      Pending [UInt8.ofNat (n / 64 / 64 + 0xF0), UInt8.ofNat (n / 64 % 64 + 0x80),
        UInt8.ofNat (n % 64 + 0x80)] ⟨1, 0x80, 0xBF, n⟩

theorem lead?_eq (a : UInt8) :
    lead? a =
      if a.toNat < 0xC2 then none
      else if a.toNat < 0xE0 then some ⟨1, 0x80, 0xBF, a.toNat - 0xC0⟩
      else if a.toNat = 0xE0 then some ⟨2, 0xA0, 0xBF, 0⟩
      else if a.toNat = 0xED then some ⟨2, 0x80, 0x9F, 0xD⟩
      else if a.toNat < 0xF0 then some ⟨2, 0x80, 0xBF, a.toNat - 0xE0⟩
      else if a.toNat = 0xF0 then some ⟨3, 0x90, 0xBF, 0⟩
      else if a.toNat < 0xF4 then some ⟨3, 0x80, 0xBF, a.toNat - 0xF0⟩
      else if a.toNat = 0xF4 then some ⟨3, 0x80, 0x8F, 4⟩
      else none := by
  simp only [lead?, lt_iff, ← UInt8.toNat_inj]
  rfl

theorem lead?_pending {a : UInt8} {want : Lead} (led : lead? a = some want) : Pending [a] want := by
  have shift {n k : Nat} (same : a.toNat = n + k) : [UInt8.ofNat (n + k)] = [a] := by
    rw [← same, UInt8.ofNat_toNat]
  rw [lead?_eq] at led
  split at led
  · cases led
  split at led
  · cases led
    have taken := Pending.two (a.toNat - 0xC0) (by omega) (by omega)
    rwa [shift (by omega)] at taken
  split at led
  · cases led
    have taken := Pending.three 0 (by omega)
    rwa [shift (by omega)] at taken
  split at led
  · cases led
    have taken := Pending.three 13 (by omega)
    rwa [shift (by omega)] at taken
  split at led
  · cases led
    have taken := Pending.three (a.toNat - 0xE0) (by omega)
    rwa [if_neg (by omega), if_neg (by omega), shift (by omega)] at taken
  split at led
  · cases led
    have taken := Pending.four 0 (by omega)
    rwa [shift (by omega)] at taken
  split at led
  · cases led
    have taken := Pending.four (a.toNat - 0xF0) (by omega)
    rwa [if_neg (by omega), if_neg (by omega), shift (by omega)] at taken
  split at led
  · cases led
    have taken := Pending.four 4 (by omega)
    rwa [shift (by omega)] at taken
  · cases led

theorem eq_ofNat_bits {n : Nat} {a : UInt8} (low : 0x80 ≤ a.toNat) (high : a.toNat ≤ 0xBF) :
    UInt8.ofNat ((n * 64 + (a.toNat - 0x80)) % 64 + 0x80) = a := by
  rw [show (n * 64 + (a.toNat - 0x80)) % 64 + 0x80 = a.toNat by omega, UInt8.ofNat_toNat]

theorem Pending.feed {taken : Bytes} {want : Lead} (pending : Pending taken want) {a : UInt8}
    (low : want.low ≤ a) (high : a ≤ want.high) :
    if want.owed ≤ 1 then
      String.utf8EncodeChar (Char.ofNat (want.bits * 64 + (a.toNat - 0x80))) = taken ++ [a]
    else Pending (taken ++ [a])
      ⟨want.owed - 1, 0x80, 0xBF, want.bits * 64 + (a.toNat - 0x80)⟩ := by
  rw [le_iff] at low high
  cases pending with
  | two n least most =>
      change 0x80 ≤ a.toNat at low
      change a.toNat ≤ 0xBF at high
      dsimp only
      rw [if_pos (Nat.le_refl 1), encodeChar_eq, toNat_charOfNat (by omega) (by omega),
        if_neg (by omega), if_pos (by omega), eq_ofNat_bits low high,
        show (n * 64 + (a.toNat - 0x80)) / 64 = n by omega]
      rfl
  | three n most =>
      -- The range excludes overlong forms and surrogates.
      have bounds : 0x80 ≤ a.toNat ∧ a.toNat ≤ 0xBF ∧ (n = 0 → 0xA0 ≤ a.toNat) ∧
          (n = 13 → a.toNat ≤ 0x9F) := by
        dsimp only at low high
        split at low <;> split at high <;> simp at low high <;> omega
      have taken := Pending.threeTaken (n * 64 + (a.toNat - 0x80)) (by omega) (by omega) (by omega)
      rwa [eq_ofNat_bits bounds.1 bounds.2.1,
        show (n * 64 + (a.toNat - 0x80)) / 64 = n by omega] at taken
  | threeTaken n least most valid =>
      change 0x80 ≤ a.toNat at low
      change a.toNat ≤ 0xBF at high
      dsimp only
      rw [if_pos (Nat.le_refl 1), encodeChar_eq, toNat_charOfNat (by omega) (by omega),
        if_neg (by omega), if_neg (by omega), if_pos (by omega), eq_ofNat_bits low high,
        show (n * 64 + (a.toNat - 0x80)) / 64 = n by omega]
      rfl
  | four n most =>
      have bounds : 0x80 ≤ a.toNat ∧ a.toNat ≤ 0xBF ∧ (n = 0 → 0x90 ≤ a.toNat) ∧
          (n = 4 → a.toNat ≤ 0x8F) := by
        dsimp only at low high
        split at low <;> split at high <;> simp at low high <;> omega
      have taken := Pending.fourTaken (n * 64 + (a.toNat - 0x80)) (by omega) (by omega)
      rwa [eq_ofNat_bits bounds.1 bounds.2.1,
        show (n * 64 + (a.toNat - 0x80)) / 64 = n by omega] at taken
  | fourTaken n least most =>
      change 0x80 ≤ a.toNat at low
      change a.toNat ≤ 0xBF at high
      have taken := Pending.fourTwice (n * 64 + (a.toNat - 0x80)) (by omega) (by omega)
      rwa [eq_ofNat_bits low high, show (n * 64 + (a.toNat - 0x80)) / 64 = n by omega] at taken
  | fourTwice n least most =>
      change 0x80 ≤ a.toNat at low
      change a.toNat ≤ 0xBF at high
      dsimp only
      rw [if_pos (Nat.le_refl 1), encodeChar_eq, toNat_charOfNat (by omega) (by omega),
        if_neg (by omega), if_neg (by omega), if_neg (by omega), eq_ofNat_bits low high,
        show (n * 64 + (a.toNat - 0x80)) / 64 = n by omega]
      rfl

/-! ## No octet is lost -/

def Piece.octets : Piece → Bytes
  | .char c => String.utf8EncodeChar c
  | .stray octets => octets

def State.taken : State → Bytes
  | .between => []
  | .inside taken _ => taken

def State.Sound : State → Prop
  | .between => True
  | .inside taken want => Pending taken want

theorem start_octets (a : UInt8) :
    (start a).1.flatMap Piece.octets ++ (start a).2.taken = [a] ∧ (start a).2.Sound := by
  unfold start
  split
  · rename_i small
    have bound : a.toNat < 0x80 := (lt_iff _ _).1 small
    refine ⟨?_, trivial⟩
    simp only [List.flatMap_cons, List.flatMap_nil, Piece.octets, State.taken, List.append_nil]
    rw [encodeChar_eq, toNat_charOfNat (by omega) (by omega), if_pos (by omega), UInt8.ofNat_toNat]
  · split
    · rename_i want led
      exact ⟨rfl, lead?_pending led⟩
    · exact ⟨rfl, trivial⟩

theorem feed_octets (state : State) (sound : state.Sound) (a : UInt8) :
    (feed state a).1.flatMap Piece.octets ++ (feed state a).2.taken = state.taken ++ [a] ∧
      (feed state a).2.Sound := by
  cases state with
  | between => exact start_octets a
  | inside taken want =>
      simp only [feed]
      split
      · rename_i wanted
        have next := Pending.feed sound wanted.1 wanted.2
        split
        · rename_i last
          rw [if_pos last] at next
          exact ⟨by simpa [Piece.octets, State.taken] using next, trivial⟩
        · rename_i more
          rw [if_neg more] at next
          exact ⟨rfl, next⟩
      · obtain ⟨octets, sound⟩ := start_octets a
        refine ⟨?_, sound⟩
        simp only [List.flatMap_cons, Piece.octets, List.append_assoc, octets]
        rfl

theorem run_octets (state : State) (sound : state.Sound) (octets : Bytes) :
    (run state octets).flatMap Piece.octets = state.taken ++ octets := by
  induction octets generalizing state with
  | nil =>
      cases state with
      | between => rfl
      | inside taken want => simp [run, Piece.octets, State.taken]
  | cons a rest ih =>
      obtain ⟨octets, next⟩ := feed_octets state sound a
      rw [run_cons, List.flatMap_append, ih _ next, ← List.append_assoc, octets]
      simp

theorem pieces_octets (octets : Bytes) : (pieces octets).flatMap Piece.octets = octets :=
  run_octets .between trivial octets

/-! ## Reading what was written -/

theorem lead?_two {n : Nat} (least : 2 ≤ n) (most : n < 32) :
    lead? (UInt8.ofNat (n + 0xC0)) = some ⟨1, 0x80, 0xBF, n⟩ := by
  rw [lead?_eq, toNat_ofNat (by omega), if_neg (by omega), if_pos (by omega), Nat.add_sub_cancel]

theorem lead?_three {n : Nat} (most : n < 16) :
    lead? (UInt8.ofNat (n + 0xE0)) =
      some ⟨2, if n = 0 then 0xA0 else 0x80, if n = 13 then 0x9F else 0xBF, n⟩ := by
  rw [lead?_eq, toNat_ofNat (by omega), if_neg (by omega), if_neg (by omega)]
  by_cases zero : n = 0
  · subst zero
    rfl
  by_cases surrogates : n = 13
  · subst surrogates
    rfl
  rw [if_neg (by omega), if_neg (by omega), if_pos (by omega), if_neg zero, if_neg surrogates,
    Nat.add_sub_cancel]

theorem lead?_four {n : Nat} (most : n < 5) :
    lead? (UInt8.ofNat (n + 0xF0)) =
      some ⟨3, if n = 0 then 0x90 else 0x80, if n = 4 then 0x8F else 0xBF, n⟩ := by
  rw [lead?_eq, toNat_ofNat (by omega), if_neg (by omega), if_neg (by omega), if_neg (by omega),
    if_neg (by omega), if_neg (by omega)]
  by_cases zero : n = 0
  · subst zero
    rfl
  by_cases most : n = 4
  · subst most
    rfl
  rw [if_neg (by omega), if_pos (by omega), if_neg zero, if_neg most, Nat.add_sub_cancel]

theorem start_lead {n k : Nat} {want : Lead} (big : 0x80 ≤ n + k) (small : n + k < 256)
    (led : lead? (UInt8.ofNat (n + k)) = some want) :
    start (UInt8.ofNat (n + k)) = ([], .inside [UInt8.ofNat (n + k)] want) := by
  have : ¬ UInt8.ofNat (n + k) < 0x80 := by
    rw [lt_iff, toNat_ofNat small]
    exact Nat.not_lt.2 big
  rw [start, if_neg this, led]

theorem feed_wanted {taken : Bytes} {want : Lead} {m : Nat} (six : m < 64)
    (low : want.low.toNat ≤ m + 0x80) (high : m + 0x80 ≤ want.high.toNat) :
    feed (.inside taken want) (UInt8.ofNat (m + 0x80)) =
      if want.owed ≤ 1 then ([.char (Char.ofNat (want.bits * 64 + m))], .between)
      else ([], .inside (taken ++ [UInt8.ofNat (m + 0x80)])
        ⟨want.owed - 1, 0x80, 0xBF, want.bits * 64 + m⟩) := by
  have number := toNat_ofNat (n := m + 0x80) (by omega)
  simp only [feed]
  rw [if_pos ⟨by rw [le_iff, number]; exact low, by rw [le_iff, number]; exact high⟩, number,
    Nat.add_sub_cancel]

theorem run_last {taken : Bytes} {c : Char} (rest : Bytes) :
    run (.inside taken ⟨1, 0x80, 0xBF, c.toNat / 64⟩) (UInt8.ofNat (c.toNat % 64 + 0x80) :: rest) =
      .char c :: run .between rest := by
  have least : 0x80 ≤ c.toNat % 64 + 0x80 := by omega
  have most : c.toNat % 64 + 0x80 ≤ 0xBF := by omega
  rw [run_cons, feed_wanted (by omega) least most, if_pos (Nat.le_refl 1)]
  dsimp only
  rw [show c.toNat / 64 * 64 + c.toNat % 64 = c.toNat by omega, Char.ofNat_toNat]
  rfl

theorem run_secondToLast {taken : Bytes} {c : Char} {low high : UInt8} (rest : Bytes)
    (least : low.toNat ≤ c.toNat / 64 % 64 + 0x80) (most : c.toNat / 64 % 64 + 0x80 ≤ high.toNat) :
    run (.inside taken ⟨2, low, high, c.toNat / 64 / 64⟩)
      (UInt8.ofNat (c.toNat / 64 % 64 + 0x80) :: UInt8.ofNat (c.toNat % 64 + 0x80) :: rest) =
      .char c :: run .between rest := by
  rw [run_cons, feed_wanted (by omega) least most, if_neg (show ¬ 2 ≤ 1 by decide)]
  dsimp only
  rw [show c.toNat / 64 / 64 * 64 + c.toNat / 64 % 64 = c.toNat / 64 by omega]
  exact run_last rest

theorem run_thirdToLast {taken : Bytes} {c : Char} {low high : UInt8} (rest : Bytes)
    (least : low.toNat ≤ c.toNat / 64 / 64 % 64 + 0x80)
    (most : c.toNat / 64 / 64 % 64 + 0x80 ≤ high.toNat) :
    run (.inside taken ⟨3, low, high, c.toNat / 64 / 64 / 64⟩)
      (UInt8.ofNat (c.toNat / 64 / 64 % 64 + 0x80) :: UInt8.ofNat (c.toNat / 64 % 64 + 0x80) ::
        UInt8.ofNat (c.toNat % 64 + 0x80) :: rest) =
      .char c :: run .between rest := by
  have low : 0x80 ≤ c.toNat / 64 % 64 + 0x80 := by omega
  have high : c.toNat / 64 % 64 + 0x80 ≤ 0xBF := by omega
  rw [run_cons, feed_wanted (by omega) least most, if_neg (show ¬ 3 ≤ 1 by decide)]
  dsimp only
  rw [show c.toNat / 64 / 64 / 64 * 64 + c.toNat / 64 / 64 % 64 = c.toNat / 64 / 64 by omega]
  exact run_secondToLast rest low high

theorem run_encodeChar (c : Char) (rest : Bytes) :
    run .between (String.utf8EncodeChar c ++ rest) = .char c :: run .between rest := by
  have valid := char_lt c
  have begin {n k : Nat} {want : Lead} (rest : Bytes) (big : 0x80 ≤ n + k) (small : n + k < 256)
      (led : lead? (UInt8.ofNat (n + k)) = some want) :
      run .between (UInt8.ofNat (n + k) :: rest) = run (.inside [UInt8.ofNat (n + k)] want) rest := by
    rw [run_cons, feed, start_lead big small led]
    rfl
  rw [encodeChar_eq]
  split
  · rename_i small
    have ascii : UInt8.ofNat c.toNat < 0x80 := by
      rw [lt_iff, toNat_ofNat (by omega)]
      exact Nat.lt_succ_of_le small
    have plain : start (UInt8.ofNat c.toNat) = ([.char c], .between) := by
      rw [start, if_pos ascii, toNat_ofNat (by omega), Char.ofNat_toNat]
    rw [List.singleton_append, run_cons, feed, plain]
    rfl
  split
  · rw [List.cons_append, begin _ (by omega) (by omega) (lead?_two (by omega) (by omega))]
    exact run_last rest
  split
  · rw [List.cons_append, begin _ (by omega) (by omega) (lead?_three (by omega))]
    refine run_secondToLast rest ?_ ?_
    · split
      · change 0xA0 ≤ _
        omega
      · change 0x80 ≤ _
        omega
    · split
      · change _ ≤ 0x9F
        omega
      · change _ ≤ 0xBF
        omega
  · rw [List.cons_append, begin _ (by omega) (by omega) (lead?_four (by omega))]
    refine run_thirdToLast rest ?_ ?_
    · split
      · change 0x90 ≤ _
        omega
      · change 0x80 ≤ _
        omega
    · split
      · change _ ≤ 0x8F
        omega
      · change _ ≤ 0xBF
        omega

theorem pieces_encode (chars : List Char) : pieces (encode chars) = chars.map .char := by
  induction chars with
  | nil => rfl
  | cons c chars ih =>
      rw [pieces, encode, List.flatMap_cons, run_encodeChar]
      exact congrArg (.char c :: ·) ih

theorem pieces_encode_append (chars : List Char) (rest : Bytes) :
    pieces (encode chars ++ rest) = chars.map .char ++ pieces rest := by
  induction chars with
  | nil => rfl
  | cons c chars ih =>
      rw [pieces, encode, List.flatMap_cons, List.append_assoc, run_encodeChar]
      exact congrArg (.char c :: ·) ih

theorem decode?_encode (chars : List Char) : decode? (encode chars) = some chars := by
  rw [decode?, pieces_encode]
  induction chars with
  | nil => rfl
  | cons c chars ih => simp [Piece.char?, ih]

theorem encode_of_decode? {octets : Bytes} {chars : List Char} (read : decode? octets = some chars) :
    encode chars = octets := by
  have spelled (pieces : List Piece) (chars : List Char)
      (read : pieces.mapM Piece.char? = some chars) :
      encode chars = pieces.flatMap Piece.octets := by
    induction pieces generalizing chars with
    | nil =>
        cases read
        rfl
    | cons piece pieces ih =>
        cases piece with
        | stray octets => simp [Piece.char?] at read
        | char c =>
            simp only [List.mapM_cons, Piece.char?, Option.pure_def, Option.bind_eq_bind,
              Option.bind_some, Option.bind_eq_some_iff, Option.some.injEq] at read
            obtain ⟨more, read, rfl⟩ := read
            rw [List.flatMap_cons, ← ih more read]
            rfl
  rw [spelled _ _ read, pieces_octets]

theorem lossyChars_encode (chars : List Char) : lossyChars (encode chars) = chars := by
  rw [lossyChars, pieces_encode, List.map_map]
  exact List.map_id chars

theorem lossy_of_text? {octets : Bytes} {text : String} (read : text? octets = some text) : lossy octets = text := by
  obtain ⟨chars, decoded, rfl⟩ := Option.map_eq_some_iff.1 read
  rw [lossy, ← encode_of_decode? decoded, lossyChars_encode]

theorem lossy_bytes (text : String) : lossy (bytes text) = text := by
  rw [lossy, bytes, lossyChars_encode, String.ofList_toList]

theorem text?_bytes (text : String) : text? (bytes text) = some text := by
  rw [text?, bytes, decode?_encode, Option.map_some, String.ofList_toList]

theorem bytes_of_text? {octets : Bytes} {text : String} (read : text? octets = some text) :
    bytes text = octets := by
  obtain ⟨chars, found, rfl⟩ := Option.map_eq_some_iff.1 read
  rw [bytes, String.toList_ofList]
  exact encode_of_decode? found

theorem encode_append (front rest : List Char) : encode (front ++ rest) = encode front ++ encode rest :=
  List.flatMap_append

theorem bytes_append (front rest : String) : bytes (front ++ rest) = bytes front ++ bytes rest := by
  rw [bytes, String.toList_append, encode_append]
  rfl

/-- UTF-8 is prefix free. -/
theorem encode_isPrefix_iff {front chars : List Char} : encode front <+: encode chars ↔ front <+: chars := by
  constructor
  · rintro ⟨rest, same⟩
    have pieces := congrArg pieces same
    rw [pieces_encode_append, pieces_encode] at pieces
    obtain ⟨first, others, rfl, begins, -⟩ := List.append_eq_map_iff.1 pieces
    obtain rfl := (List.map_inj_right fun _ _ => Piece.char.inj).1 begins
    exact List.prefix_append _ others
  · rintro ⟨rest, rfl⟩
    rw [encode_append]
    exact List.prefix_append _ _

theorem encodeChar_ascii {c : Char} (ascii : c.toNat < 0x80) :
    String.utf8EncodeChar c = [UInt8.ofNat c.toNat] := by
  rw [encodeChar_eq, if_pos (by omega)]

theorem encodeChar_beyond {c : Char} (beyond : 0x80 ≤ c.toNat) {a : UInt8}
    (member : a ∈ String.utf8EncodeChar c) : 0x80 ≤ a.toNat := by
  have bound := (char_lt c).1
  rw [encodeChar_eq, if_neg (by omega)] at member
  split at member
  · simp only [List.mem_cons, List.not_mem_nil, or_false] at member
    rcases member with rfl | rfl <;> rw [toNat_ofNat (by omega)] <;> omega
  split at member
  · simp only [List.mem_cons, List.not_mem_nil, or_false] at member
    rcases member with rfl | rfl | rfl <;> rw [toNat_ofNat (by omega)] <;> omega
  · simp only [List.mem_cons, List.not_mem_nil, or_false] at member
    rcases member with rfl | rfl | rfl | rfl <;> rw [toNat_ofNat (by omega)] <;> omega

theorem encode_ascii {octets : Bytes} (ascii : ∀ a ∈ octets, a < 0x80) :
    encode (octets.map fun a => Char.ofNat a.toNat) = octets := by
  induction octets with
  | nil => rfl
  | cons a octets ih =>
      have bound : a.toNat < 0x80 := (lt_iff a 0x80).mp (ascii a (by simp))
      have number : (Char.ofNat a.toNat).toNat = a.toNat := toNat_charOfNat (by omega) (by omega)
      have others := ih fun b member => ascii b (by simp [member])
      rw [List.map_cons, encode, List.flatMap_cons, encodeChar_ascii (by omega), number,
        UInt8.ofNat_toNat]
      exact congrArg (a :: ·) others

theorem encode_injective {first second : List Char} (same : encode first = encode second) :
    first = second := by
  have read := decode?_encode first
  rw [same, decode?_encode] at read
  exact (Option.some.inj read).symm

theorem bytes_injective {first second : String} (same : bytes first = bytes second) :
    first = second :=
  String.toList_injective (encode_injective same)

/-! ## One character after another -/

def IsInner (a : UInt8) : Prop := 0x80 ≤ a.toNat ∧ a.toNat < 0xC0

theorem encodeChar_cases (c : Char) :
    ∃ first inner, String.utf8EncodeChar c = first :: inner ∧ ¬ IsInner first ∧ (∀ a ∈ inner, IsInner a) ∧
      (c.toNat < 0x80 → first.toNat = c.toNat) := by
  have bound := (char_lt c).1
  have inside {n : Nat} {inner : Bytes} (others : ∀ a ∈ inner, IsInner a) :
      ∀ a ∈ UInt8.ofNat (n % 64 + 0x80) :: inner, IsInner a := by
    refine List.forall_mem_cons.2 ⟨?_, others⟩
    rw [IsInner, toNat_ofNat (by omega)]
    omega
  have none : ∀ a ∈ ([] : Bytes), IsInner a := List.forall_mem_nil _
  have outside {n : Nat} (small : n < 256) (large : 0xC0 ≤ n) : ¬ IsInner (UInt8.ofNat n) := by
    rw [IsInner, toNat_ofNat small]
    omega
  rw [encodeChar_eq]
  split_ifs with one two three
  · have number := toNat_ofNat (n := c.toNat) (by omega)
    refine ⟨_, [], rfl, ?_, none, fun _ => number⟩
    rw [IsInner, number]
    omega
  · exact ⟨_, _, rfl, outside (by omega) (by omega), inside none, fun ascii => absurd ascii (by omega)⟩
  · exact ⟨_, _, rfl, outside (by omega) (by omega), inside (inside none), fun ascii => absurd ascii (by omega)⟩
  · exact ⟨_, _, rfl, outside (by omega) (by omega), inside (inside (inside none)),
      fun ascii => absurd ascii (by omega)⟩

theorem encodeChar_append_inj {c d : Char} {rest left : Bytes}
    (same : String.utf8EncodeChar c ++ rest = String.utf8EncodeChar d ++ left) : c = d ∧ rest = left := by
  have pieces := congrArg (run .between) same
  rw [run_encodeChar, run_encodeChar] at pieces
  obtain rfl : c = d := by simpa using (List.cons.inj pieces).1
  exact ⟨rfl, List.append_cancel_left same⟩

end SecretStore.Utf8
