import Mathlib.Data.List.Basic
import SecretStore.Base64

namespace SecretStore.Base64

theorem value?_symbol : ∀ value < 64, value? (symbol value) = some value := by
  decide +kernel

theorem symbol_ne_pad : ∀ value < 64, symbol value ≠ pad := by
  decide +kernel

theorem symbol_lt : ∀ value < 64, symbol value < 0x80 := by
  decide +kernel

theorem valueAt_symbol (offset : Nat) {value : Nat} (small : value < 64) :
    valueAt offset (symbol value) = .ok value := by
  rw [valueAt, value?_symbol value small]

theorem lastSymbols_symbols (offset place : Nat) (values : List Nat) (padding : Nat)
    (small : ∀ value ∈ values, value < 64) (late : padding ≠ 0 → 2 ≤ place + values.length) :
    lastSymbols offset place (values.map symbol ++ List.replicate padding pad) =
      .ok (values, padding) := by
  induction values generalizing place with
  | nil =>
      cases padding with
      | zero => rfl
      | succ padding =>
          have placed : ¬ place < 2 := by
            have enough := late (Nat.succ_ne_zero padding)
            simp only [List.length_nil] at enough
            omega
          have all : (List.replicate padding pad).all (· = pad) = true := by simp
          simp [lastSymbols, List.replicate_succ, placed, all, Nat.add_comm]
  | cons value values ih =>
      have first := small value (by simp)
      have rest := ih (place + 1) (fun other member => small other (by simp [member]))
        (fun some => by have := late some; simp only [List.length_cons] at this; omega)
      simp only [List.map_cons, List.cons_append, lastSymbols, symbol_ne_pad value first, ↓reduceIte,
        valueAt_symbol _ first, rest]
      rfl

theorem decodeLast_symbols (offset : Nat) (values : List Nat) (padding : Nat)
    (small : ∀ value ∈ values, value < 64) (several : 2 ≤ values.length)
    (full : values.length + padding = 4) (clean : (lastOctets values).2 = 0) :
    decodeLast offset (values.map symbol ++ List.replicate padding pad) =
      .ok (lastOctets values).1 := by
  have found := lastSymbols_symbols offset 0 values padding small (fun _ => by omega)
  have enough : ¬ values.length < 2 := by omega
  simp only [decodeLast, found, bind, Except.bind, enough, and_false, ↓reduceIte, full, clean,
    ne_eq, not_true_eq_false, pure, Except.pure]

theorem encode_eq_nil {octets : Bytes} : encode octets = [] ↔ octets = [] := by
  fun_cases encode octets <;> simp

theorem length_encode (octets : Bytes) : (encode octets).length % 4 = 0 := by
  fun_induction encode octets with
  | case4 a b c rest n ih => simp only [List.length_cons]; omega
  | _ => simp

theorem ofNat_eq {n : Nat} {a : UInt8} (same : n = a.toNat) : UInt8.ofNat n = a := by
  rw [same, UInt8.ofNat_toNat]

theorem lastOctets_four (a b c : UInt8) :
    let n := (a.toNat * 256 + b.toNat) * 256 + c.toNat
    lastOctets [n / 262144, n / 4096 % 64, n / 64 % 64, n % 64] = ([a, b, c], 0) := by
  have first := a.toNat_lt
  have second := b.toNat_lt
  have third := c.toNat_lt
  simp only [lastOctets, Prod.mk.injEq, List.cons.injEq, and_true]
  exact ⟨ofNat_eq (by omega), ofNat_eq (by omega), ofNat_eq (by omega)⟩

theorem decodeGroups_encode (offset : Nat) (octets : Bytes) :
    decodeGroups offset (encode octets) = .ok octets := by
  fun_induction encode octets generalizing offset with
  | case1 => rfl
  | case2 a n =>
      have bound := a.toNat_lt
      have last := decodeLast_symbols offset [n / 4, n % 4 * 16] 2
        (by simp only [List.mem_cons, List.not_mem_nil, or_false, forall_eq_or_imp, forall_eq]; omega)
        (by simp) (by simp) (by simp only [lastOctets]; omega)
      have octet : UInt8.ofNat (n / 4 * 4 + n % 4 * 16 / 16) = a := ofNat_eq (by omega)
      rw [lastOctets, octet] at last
      exact last
  | case3 a b n =>
      have first := a.toNat_lt
      have second := b.toNat_lt
      have last := decodeLast_symbols offset [n / 1024, n / 16 % 64, n % 16 * 4] 1
        (by simp only [List.mem_cons, List.not_mem_nil, or_false, forall_eq_or_imp, forall_eq]; omega)
        (by simp) (by simp) (by simp only [lastOctets]; omega)
      have high : UInt8.ofNat (((n / 1024 * 64 + n / 16 % 64) * 64 + n % 16 * 4) / 1024) = a :=
        ofNat_eq (by omega)
      have low : UInt8.ofNat (((n / 1024 * 64 + n / 16 % 64) * 64 + n % 16 * 4) / 4 % 256) = b :=
        ofNat_eq (by omega)
      rw [lastOctets, high, low] at last
      exact last
  | case4 a b c rest n ih =>
      have first := a.toNat_lt
      have second := b.toNat_lt
      have third := c.toNat_lt
      have bounds : n / 262144 < 64 ∧ n / 4096 % 64 < 64 ∧ n / 64 % 64 < 64 ∧ n % 64 < 64 := by omega
      have group : lastOctets [n / 262144, n / 4096 % 64, n / 64 % 64, n % 64] = ([a, b, c], 0) :=
        lastOctets_four a b c
      cases tail : encode rest with
      | nil =>
          have last := decodeLast_symbols offset [n / 262144, n / 4096 % 64, n / 64 % 64, n % 64] 0
            (by simpa using bounds) (by simp) (by simp) (by rw [group])
          rw [encode_eq_nil.mp tail]
          simpa [decodeGroups, group] using last
      | cons e more =>
          have others := ih (offset + 4)
          rw [tail] at others
          simp [decodeGroups, valueAt_symbol, bounds, others, group, bind, Except.bind, pure,
            Except.pure]

theorem decode_encode (octets : Bytes) : decode (encode octets) = .ok octets := by
  have length := length_encode octets
  simp only [decode, length]
  exact decodeGroups_encode 0 octets

theorem encode_ascii {octets : Bytes} {a : UInt8} (written : a ∈ encode octets) : a < 0x80 := by
  fun_induction encode octets with
  | case1 => simp at written
  | case2 b n =>
      have bound := b.toNat_lt
      simp only [List.mem_cons, List.not_mem_nil, or_false] at written
      rcases written with rfl | rfl | rfl | rfl
      · exact symbol_lt _ (by omega)
      · exact symbol_lt _ (by omega)
      · decide
      · decide
  | case3 b c n =>
      have first := b.toNat_lt
      have second := c.toNat_lt
      simp only [List.mem_cons, List.not_mem_nil, or_false] at written
      rcases written with rfl | rfl | rfl | rfl
      · exact symbol_lt _ (by omega)
      · exact symbol_lt _ (by omega)
      · exact symbol_lt _ (by omega)
      · decide
  | case4 b c d rest n ih =>
      have first := b.toNat_lt
      have second := c.toNat_lt
      have third := d.toNat_lt
      simp only [List.mem_cons] at written
      rcases written with rfl | rfl | rfl | rfl | later
      · exact symbol_lt _ (by omega)
      · exact symbol_lt _ (by omega)
      · exact symbol_lt _ (by omega)
      · exact symbol_lt _ (by omega)
      · exact ih later

end SecretStore.Base64
