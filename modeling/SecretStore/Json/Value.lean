import SecretStore.Json.Reader

namespace SecretStore.Json

inductive Value where
  | null
  | boolean (value : Bool)
  | number (value : Number)
  | text (value : String)
  | list (items : List Value)
  | object (members : List (String × Value))

def put (name : String) (value : Value) : List (String × Value) → List (String × Value)
  | [] => [(name, value)]
  | member :: rest => if member.1 = name then (name, value) :: rest else member :: put name value rest

namespace Value

def readScalar (first : Opening) (s rest : Bytes) : Step Value :=
  match first with
  | .null => (skipWord ['u', 'l', 'l'] rest).map fun after => (null, after)
  | .yes => (skipWord ['r', 'u', 'e'] rest).map fun after => (boolean true, after)
  | .no => (skipWord ['a', 'l', 's', 'e'] rest).map fun after => (boolean false, after)
  | .minus => (readNumber true rest).map fun (value, after) => (number value, after)
  | .digit => (readNumber false s).map fun (value, after) => (number value, after)
  | .text => (readText rest).map fun (value, after) => (text value, after)
  | .list | .object => .error (ahead .tooDeep s)

def readMemberValue (value : Reader Value) (seen : List (String × Value)) (name : String)
    (s : Bytes) : Step (List (String × Value)) :=
  match readValueAfterColon value s with
  | .error fault => .error fault
  | .ok (a, rest) => .ok (put name a seen, rest)

theorem readMemberValue_length {value : Reader Value} {seen next : List (String × Value)}
    {name : String} {s rest : Bytes}
    (h : readMemberValue value seen name s = .ok (next, rest)) : rest.length < s.length := by
  unfold readMemberValue at h
  split at h
  · simp at h
  · rename_i read
    have := readValueAfterColon_length read
    simp only [Except.ok.injEq, Prod.mk.injEq] at h
    rw [← h.2]; exact this

/-- `inner` reads the values inside brackets. Without it brackets are refused. -/
def read (inner : Option (Reader Value)) (s : Bytes) : Step Value :=
  match skipBlank s with
  | [] => .error ⟨.endOfValue, 0⟩
  | a :: rest =>
    match opening? a, inner with
    | none, _ => .error (ahead .valueExpected (a :: rest))
    | some .list, some inner =>
      match items inner rest with
      | .error fault => .error fault
      | .ok (values, rest) => .ok (list values, rest)
    | some .object, some inner =>
      match members ⟨readMemberValue inner, readMemberValue_length⟩ [] rest with
      | .error fault => .error fault
      | .ok (found, rest) => .ok (object found, rest)
    | some first, _ => readScalar first (a :: rest) rest

theorem map_length {α β : Type} {f : α → β} {g : β → Bytes} {result : Except Fault α} {b : β}
    (h : result.map f = .ok b) : ∃ a, result = .ok a ∧ g (f a) = g b := by
  cases result with
  | error => simp [Except.map] at h
  | ok a => simp only [Except.map, Except.ok.injEq] at h; exact ⟨a, rfl, by rw [h]⟩

theorem readScalar_length {first : Opening} {s rest left : Bytes} {value : Value}
    (shorter : rest.length < s.length) (h : readScalar first s rest = .ok (value, left)) :
    left.length < s.length := by
  unfold readScalar at h
  split at h
  · obtain ⟨after, word, same⟩ := map_length (g := Prod.snd) h
    have := skipWord_length word
    simp only at same; rw [← same]; omega
  · obtain ⟨after, word, same⟩ := map_length (g := Prod.snd) h
    have := skipWord_length word
    simp only at same; rw [← same]; omega
  · obtain ⟨after, word, same⟩ := map_length (g := Prod.snd) h
    have := skipWord_length word
    simp only at same; rw [← same]; omega
  · obtain ⟨found, number, same⟩ := map_length (g := Prod.snd) h
    have := @readNumber_length _ _ found.2 found.1 number
    simp only at same; rw [← same]; omega
  · obtain ⟨found, number, same⟩ := map_length (g := Prod.snd) h
    have := @readNumber_length _ _ found.2 found.1 number
    simp only at same; rw [← same]; omega
  · obtain ⟨found, text, same⟩ := map_length (g := Prod.snd) h
    have := @readText_length _ found.2 found.1 text
    simp only at same; rw [← same]; omega
  · simp at h
  · simp at h

theorem read_length {inner : Option (Reader Value)} {s rest : Bytes} {value : Value}
    (h : read inner s = .ok (value, rest)) : rest.length < s.length := by
  unfold read at h
  have := skipBlank_length s
  split at h
  · simp at h
  · rename_i a tail eq
    rw [eq] at this
    simp only [List.length_cons] at this
    split at h
    · simp at h
    · split at h
      · simp at h
      · rename_i found
        have := items_length found
        simp only [Except.ok.injEq, Prod.mk.injEq] at h
        rw [← h.2]; omega
    · split at h
      · simp at h
      · rename_i found
        have := members_length found
        simp only [Except.ok.injEq, Prod.mk.injEq] at h
        rw [← h.2]; omega
    · have := readScalar_length (by simp) h
      simp only [List.length_cons] at this
      omega

def reader : (depth : Nat) → Reader Value
  | 0 => ⟨read none, read_length⟩
  | depth + 1 => ⟨read (some (reader depth)), read_length⟩

def deepest : Nat := 127

end Value

def Reader.value : Reader Value := Value.reader Value.deepest

end SecretStore.Json
