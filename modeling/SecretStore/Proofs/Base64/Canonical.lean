import Mathlib.Algebra.Group.Nat.Defs
import SecretStore.Proofs.Base64

namespace SecretStore.Base64

/-- The bits of the last symbol that belong to no octet are zero. -/
def Canonical (text : Bytes) : Prop :=
  ∃ (values : List Nat) (padding : Nat),
    text = values.map symbol ++ List.replicate padding pad ∧ (∀ value ∈ values, value < 64) ∧
      padding ≤ 2 ∧ text.length % 4 = 0 ∧
      ∀ last, values.getLast? = some last → last % 4 ^ padding = 0

theorem encode_four {a b c d : Nat} (first : a < 64) (second : b < 64) (third : c < 64) (fourth : d < 64)
    (octets : Bytes) :
    encode ((lastOctets [a, b, c, d]).1 ++ octets) =
      symbol a :: symbol b :: symbol c :: symbol d :: encode octets := by
  simp only [lastOctets, List.cons_append, List.nil_append, encode, UInt8.toNat_ofNat']
  congr 2
  · omega
  congr 2
  · omega
  congr 2
  · omega
  congr 2
  omega

theorem encode_three {a b c : Nat} (first : a < 64) (second : b < 64) (third : c < 64)
    (clean : c % 4 = 0) :
    encode (lastOctets [a, b, c]).1 = [symbol a, symbol b, symbol c, pad] := by
  simp only [lastOctets, encode, UInt8.toNat_ofNat']
  congr 2
  · omega
  congr 2
  · omega
  congr 2
  omega

theorem encode_two {a b : Nat} (first : a < 64) (second : b < 64) (clean : b % 16 = 0) :
    encode (lastOctets [a, b]).1 = [symbol a, symbol b, pad, pad] := by
  simp only [lastOctets, encode, UInt8.toNat_ofNat']
  congr 2
  · omega
  congr 2
  omega

theorem value?_eq_some {octet : UInt8} {value : Nat} (found : value? octet = some value) :
    value < 64 ∧ symbol value = octet := by
  have all : ∀ n < 256, (value? (UInt8.ofNat n)).all
      fun value => decide (value < 64 ∧ symbol value = UInt8.ofNat n) := by
    decide +kernel
  have here := all octet.toNat octet.toNat_lt
  rw [UInt8.ofNat_toNat, found] at here
  simpa using here

theorem valueAt_eq_ok {offset value : Nat} {octet : UInt8} (read : valueAt offset octet = .ok value) :
    value < 64 ∧ symbol value = octet := by
  rw [valueAt] at read
  split at read
  · cases read
    exact value?_eq_some ‹_›
  · cases read

theorem lastSymbols_eq_ok {offset place padding : Nat} {group : Bytes} {values : List Nat}
    (read : lastSymbols offset place group = .ok (values, padding)) :
    group = values.map symbol ++ List.replicate padding pad ∧ ∀ value ∈ values, value < 64 := by
  induction group generalizing place values with
  | nil =>
      cases read
      simp
  | cons octet rest ih =>
      rw [lastSymbols] at read
      split at read
      · rename_i padded
        split at read
        · cases read
        split at read
        · rename_i all
          cases read
          have same : rest = List.replicate rest.length pad := by
            rw [List.eq_replicate_iff]
            exact ⟨rfl, by simpa using all⟩
          rw [padded, Nat.add_comm, List.replicate_succ, ← same]
          simp
        · cases read
      · cases first : valueAt (offset + place) octet with
        | error fault => simp [first, bind, Except.bind] at read
        | ok value =>
            obtain ⟨small, rfl⟩ := valueAt_eq_ok first
            cases others : lastSymbols offset (place + 1) rest with
            | error fault => simp [first, others, bind, Except.bind] at read
            | ok found =>
                obtain ⟨values', padding'⟩ := found
                simp only [first, others, bind, Except.bind, pure, Except.pure] at read
                cases read
                obtain ⟨rfl, smaller⟩ := ih others
                exact ⟨rfl, by simpa using ⟨small, smaller⟩⟩

theorem encode_of_decodeLast {offset : Nat} {group octets : Bytes} (short : group.length ≤ 4)
    (read : decodeLast offset group = .ok octets) : encode octets = group := by
  cases found : lastSymbols offset 0 group with
  | error fault => simp [decodeLast, found, bind, Except.bind] at read
  | ok symbols =>
      obtain ⟨values, padding⟩ := symbols
      obtain ⟨spelled, small⟩ := lastSymbols_eq_ok found
      simp only [decodeLast, found, bind, Except.bind] at read
      split at read
      · cases read
      rename_i several
      split at read
      · cases read
      rename_i full
      split at read
      · cases read
      rename_i clean
      cases read
      have length : group.length = values.length + padding := by rw [spelled]; simp
      rw [not_and_or, Nat.not_lt, not_not] at several
      rw [not_not] at full clean
      rcases values with _ | ⟨a, _ | ⟨b, _ | ⟨c, _ | ⟨d, _ | ⟨e, rest⟩⟩⟩⟩⟩
      · rcases several with rfl | several
        · rfl
        · simp at several
      · rcases several with rfl | several
        · simp at length
          omega
        · simp at several
      · have two : padding = 2 := by simp at full length; omega
        rw [spelled, two, encode_two (small a (by simp)) (small b (by simp)) clean]
        rfl
      · have one : padding = 1 := by simp at full length; omega
        have spare : c % 4 = 0 := by simp only [lastOctets] at clean; omega
        rw [spelled, one, encode_three (small a (by simp)) (small b (by simp)) (small c (by simp)) spare]
        rfl
      · have none : padding = 0 := by simp at length; omega
        have group := encode_four (small a (by simp)) (small b (by simp)) (small c (by simp))
          (small d (by simp)) []
        rw [List.append_nil] at group
        rw [spelled, none, group]
        rfl
      · simp at length
        omega

theorem encode_of_decodeGroups {offset : Nat} {text octets : Bytes}
    (read : decodeGroups offset text = .ok octets) : encode octets = text := by
  fun_induction decodeGroups offset text generalizing octets with
  | case1 offset a b c d e rest ih =>
      cases first : valueAt offset a with
      | error fault => simp [first, bind, Except.bind] at read
      | ok a' =>
      cases second : valueAt (offset + 1) b with
      | error fault => simp [first, second, bind, Except.bind] at read
      | ok b' =>
      cases third : valueAt (offset + 2) c with
      | error fault => simp [first, second, third, bind, Except.bind] at read
      | ok c' =>
      cases fourth : valueAt (offset + 3) d with
      | error fault => simp [first, second, third, fourth, bind, Except.bind] at read
      | ok d' =>
      cases others : decodeGroups (offset + 4) (e :: rest) with
      | error fault => simp [first, second, third, fourth, others, bind, Except.bind] at read
      | ok more =>
          simp only [first, second, third, fourth, others, bind, Except.bind, pure, Except.pure,
            Except.ok.injEq] at read
          obtain ⟨small₁, rfl⟩ := valueAt_eq_ok first
          obtain ⟨small₂, rfl⟩ := valueAt_eq_ok second
          obtain ⟨small₃, rfl⟩ := valueAt_eq_ok third
          obtain ⟨small₄, rfl⟩ := valueAt_eq_ok fourth
          rw [← read, encode_four small₁ small₂ small₃ small₄, ih others]
  | case2 offset group short =>
      refine encode_of_decodeLast ?_ read
      match group, short with
      | [], _ | [_], _ | [_, _], _ | [_, _, _], _ | [_, _, _, _], _ => simp
      | a :: b :: c :: d :: e :: rest, short => exact (short a b c d e rest rfl).elim

theorem decode_eq_ok_iff {text octets : Bytes} : decode text = .ok octets ↔ text = encode octets := by
  constructor
  · intro read
    rw [decode] at read
    split at read
    · split at read
      · cases read
      · exact (encode_of_decodeGroups read).symm
    · exact (encode_of_decodeGroups read).symm
  · rintro rfl
    exact decode_encode octets

theorem canonical_encode (octets : Bytes) : Canonical (encode octets) := by
  fun_induction encode octets with
  | case1 => exact ⟨[], 0, rfl, by simp, by omega, rfl, by simp⟩
  | case2 a n =>
      have bound := a.toNat_lt
      refine ⟨[n / 4, n % 4 * 16], 2, rfl, ?_, Nat.le_refl 2, by simp, ?_⟩
      · simp only [List.mem_cons, List.not_mem_nil, or_false, forall_eq_or_imp, forall_eq]
        omega
      · simp only [List.getLast?_cons_cons, List.getLast?_singleton, Option.some.injEq, forall_eq']
        omega
  | case3 a b n =>
      have first := a.toNat_lt
      have second := b.toNat_lt
      refine ⟨[n / 1024, n / 16 % 64, n % 16 * 4], 1, rfl, ?_, by omega, by simp, ?_⟩
      · simp only [List.mem_cons, List.not_mem_nil, or_false, forall_eq_or_imp, forall_eq]
        omega
      · simp only [List.getLast?_cons_cons, List.getLast?_singleton, Option.some.injEq, forall_eq']
        omega
  | case4 a b c rest n ih =>
      have first := a.toNat_lt
      have second := b.toNat_lt
      have third := c.toNat_lt
      obtain ⟨values, padding, spelled, small, few, whole, clean⟩ := ih
      refine ⟨n / 262144 :: n / 4096 % 64 :: n / 64 % 64 :: n % 64 :: values, padding, ?_, ?_, few, ?_, ?_⟩
      · rw [spelled]
        rfl
      · simp only [List.mem_cons, forall_eq_or_imp]
        exact ⟨by omega, by omega, by omega, by omega, small⟩
      · simp only [List.length_cons]
        omega
      · intro last found
        cases values with
        | nil =>
            have none : padding = 0 := by
              rw [spelled] at whole
              simp at whole
              omega
            rw [none, Nat.pow_zero, Nat.mod_one]
        | cons value values => exact clean last (by simpa only [List.getLast?_cons_cons] using found)

theorem Canonical.tail {a b c d : Nat} {values : List Nat} {padding : Nat}
    (clean : ∀ last, (a :: b :: c :: d :: values).getLast? = some last → last % 4 ^ padding = 0) :
    ∀ last, values.getLast? = some last → last % 4 ^ padding = 0 := by
  intro last found
  cases values with
  | nil => cases found
  | cons value values => exact clean last (by simpa only [List.getLast?_cons_cons] using found)

theorem exists_encode (values : List Nat) {padding : Nat} (small : ∀ value ∈ values, value < 64)
    (few : padding ≤ 2) (whole : (values.length + padding) % 4 = 0)
    (clean : ∀ last, values.getLast? = some last → last % 4 ^ padding = 0) :
    ∃ octets, encode octets = values.map symbol ++ List.replicate padding pad := by
  match values with
  | [] =>
      have none : padding = 0 := by simp at whole; omega
      exact ⟨[], by rw [none]; rfl⟩
  | [a] => simp at whole; omega
  | [a, b] =>
      have two : padding = 2 := by simp at whole; omega
      subst two
      exact ⟨_, encode_two (small a (by simp)) (small b (by simp)) (clean b rfl)⟩
  | [a, b, c] =>
      have one : padding = 1 := by simp at whole; omega
      subst one
      exact ⟨_, encode_three (small a (by simp)) (small b (by simp)) (small c (by simp)) (clean c rfl)⟩
  | a :: b :: c :: d :: values =>
      obtain ⟨octets, spelled⟩ := exists_encode values (fun value member => small value (by simp [member]))
        few (by simp only [List.length_cons] at whole; omega) (Canonical.tail clean)
      have group := encode_four (small a (by simp)) (small b (by simp)) (small c (by simp))
        (small d (by simp)) octets
      exact ⟨_, by rw [group, spelled]; rfl⟩

theorem canonical_iff {text : Bytes} : Canonical text ↔ ∃ octets, text = encode octets := by
  constructor
  · rintro ⟨values, padding, spelled, small, few, whole, clean⟩
    have length : (values.length + padding) % 4 = 0 := by simpa [spelled] using whole
    obtain ⟨octets, same⟩ := exists_encode values small few length clean
    exact ⟨octets, spelled.trans same.symm⟩
  · rintro ⟨octets, rfl⟩
    exact canonical_encode octets

theorem decode_isOk_iff {text : Bytes} : (∃ octets, decode text = .ok octets) ↔ Canonical text := by
  simp only [decode_eq_ok_iff, canonical_iff]

end SecretStore.Base64
