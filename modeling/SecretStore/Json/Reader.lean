import SecretStore.Json.Skip

namespace SecretStore.Json

structure Reader (α : Type) where
  read : Bytes → Step α
  shrinks : ∀ {s rest : Bytes} {a : α}, read s = .ok (a, rest) → rest.length < s.length

def Reader.whole {α : Type} (reader : Reader α) (s : Bytes) : Except Error α :=
  match reader.read s with
  | .error fault => .error (fault.locate s)
  | .ok (a, rest) =>
    match skipBlank rest with
    | [] => .ok a
    | more => .error ((ahead .trailingCharacters more).locate s)

/-! ## Values of the wrong kind -/

def identify (first : Opening) (s rest : Bytes) : Step Found :=
  match first with
  | .null => (skipWord ['u', 'l', 'l'] rest).map fun after => (.null, after)
  | .yes => (skipWord ['r', 'u', 'e'] rest).map fun after => (.boolean true, after)
  | .no => (skipWord ['a', 'l', 's', 'e'] rest).map fun after => (.boolean false, after)
  | .minus => (readNumber true rest).map fun (number, after) => (number.found, after)
  | .digit => (readNumber false s).map fun (number, after) => (number.found, after)
  | .text => (readText rest).map fun (text, after) => (.text text, after)
  | .list => .ok (.sequence, s)
  | .object => .ok (.map, s)

def mismatch (wanted : String) (a : UInt8) (rest : Bytes) : Fault :=
  match opening? a with
  | none => ahead .valueExpected (a :: rest)
  | some first =>
    match identify first (a :: rest) rest with
    | .ok (found, after) => behind (.mismatch found wanted) after
    | .error fault => fault

/-! ## Strings -/

def readString (s : Bytes) : Step String :=
  match skipBlank s with
  | [] => .error ⟨.endOfValue, 0⟩
  | a :: rest => if a = quote then readText rest else .error (mismatch "a string" a rest)

theorem readString_length {s rest : Bytes} {text : String} (h : readString s = .ok (text, rest)) :
    rest.length < s.length := by
  unfold readString at h
  have := skipBlank_length s
  split at h
  · simp at h
  · rename_i eq
    rw [eq] at this
    simp only [List.length_cons] at this
    split at h
    · have := readText_length h; omega
    · simp at h

def Reader.text : Reader String := ⟨readString, readString_length⟩

/-! ## Lists -/

variable {α : Type}

def moreItems (item : Reader α) (s : Bytes) : Step (List α) :=
  match _hs : skipBlank s with
  | [] => .error ⟨.endOfList, 0⟩
  | a :: rest =>
    have := skipBlank_length s
    if a = octet ']' then .ok ([], rest)
    else if a = comma then
      match _hr : skipBlank rest with
      | [] => .error ⟨.endOfValue, 0⟩
      | b :: after =>
        have := skipBlank_length rest
        if b = octet ']' then .error (ahead .trailingComma (b :: after))
        else match h : item.read (b :: after) with
          | .error fault => .error fault
          | .ok (value, left) =>
            have := item.shrinks h
            match moreItems item left with
            | .error fault => .error fault
            | .ok (values, left) => .ok (value :: values, left)
    else .error (ahead .listEndExpected (a :: rest))
termination_by s.length
decreasing_by simp_all only [List.length_cons]; omega

def items (item : Reader α) (s : Bytes) : Step (List α) :=
  match skipBlank s with
  | [] => .error ⟨.endOfList, 0⟩
  | a :: rest =>
    if a = octet ']' then .ok ([], rest)
    else match item.read (a :: rest) with
      | .error fault => .error fault
      | .ok (value, left) =>
        match moreItems item left with
        | .error fault => .error fault
        | .ok (values, left) => .ok (value :: values, left)

theorem moreItems_length {item : Reader α} {s rest : Bytes} {values : List α}
    (h : moreItems item s = .ok (values, rest)) : rest.length < s.length := by
  induction hn : s.length using Nat.strongRecOn generalizing s rest values with
  | _ n ih =>
    subst hn
    rw [moreItems.eq_def] at h
    have blank := skipBlank_length s
    split at h
    · simp at h
    · rename_i a tail eq
      rw [eq] at blank
      simp only [List.length_cons] at blank
      have inner := skipBlank_length tail
      dsimp only at h
      split at h
      · simp only [Except.ok.injEq, Prod.mk.injEq] at h; rw [← h.2]; omega
      split at h
      · split at h
        · simp at h
        · rename_i eq
          rw [eq] at inner
          split at h
          · simp at h
          split at h
          · simp at h
          · rename_i read
            have short := item.shrinks read
            split at h
            · simp at h
            · rename_i more
              have := ih _ (by omega) more rfl
              simp only [Except.ok.injEq, Prod.mk.injEq] at h
              rw [← h.2]; omega
      · simp at h

theorem items_length {item : Reader α} {s rest : Bytes} {values : List α}
    (h : items item s = .ok (values, rest)) : rest.length < s.length := by
  unfold items at h
  have blank := skipBlank_length s
  split at h
  · simp at h
  · rename_i eq
    rw [eq] at blank
    simp only [List.length_cons] at blank
    split at h
    · simp only [Except.ok.injEq, Prod.mk.injEq] at h; rw [← h.2]; omega
    split at h
    · simp at h
    · rename_i read
      have := item.shrinks read
      split at h
      · simp at h
      · rename_i more
        have := moreItems_length more
        simp only [Except.ok.injEq, Prod.mk.injEq] at h
        simp only [List.length_cons] at *
        rw [← h.2]; omega

def readList (item : Reader α) (s : Bytes) : Step (List α) :=
  match skipBlank s with
  | [] => .error ⟨.endOfValue, 0⟩
  | a :: rest => if a = octet '[' then items item rest else .error (mismatch "a sequence" a rest)

theorem readList_length {item : Reader α} {s rest : Bytes} {values : List α}
    (h : readList item s = .ok (values, rest)) : rest.length < s.length := by
  unfold readList at h
  have := skipBlank_length s
  split at h
  · simp at h
  · rename_i eq
    rw [eq] at this
    simp only [List.length_cons] at this
    split at h
    · have := items_length h; omega
    · simp at h

def Reader.list (item : Reader α) : Reader (List α) := ⟨readList item, readList_length⟩

/-! ## Members -/

structure Member (σ : Type) where
  read : σ → String → Bytes → Step σ
  shrinks : ∀ {seen next : σ} {name : String} {s rest : Bytes},
    read seen name s = .ok (next, rest) → rest.length < s.length

variable {σ : Type}

def readMember (member : Member σ) (seen : σ) (s : Bytes) : Step σ :=
  match readText s with
  | .error fault => .error fault
  | .ok (name, rest) => member.read seen name rest

theorem readMember_length {member : Member σ} {seen next : σ} {s rest : Bytes}
    (h : readMember member seen s = .ok (next, rest)) : rest.length < s.length := by
  unfold readMember at h
  split at h
  · simp at h
  · rename_i text
    have := readText_length text
    have := member.shrinks h
    omega

def moreMembers (member : Member σ) (seen : σ) (s : Bytes) : Step σ :=
  match _hs : skipBlank s with
  | [] => .error ⟨.endOfObject, 0⟩
  | a :: rest =>
    have := skipBlank_length s
    if a = octet '\x7d' then .ok (seen, rest)
    else if a = comma then
      match _hr : skipBlank rest with
      | [] => .error ⟨.endOfValue, 0⟩
      | b :: after =>
        have := skipBlank_length rest
        if b = quote then
          match h : readMember member seen after with
          | .error fault => .error fault
          | .ok (next, left) =>
            have := readMember_length h
            moreMembers member next left
        else if b = octet '\x7d' then .error (ahead .trailingComma (b :: after))
        else .error (ahead .keyExpected (b :: after))
    else .error (ahead .objectEndExpected (a :: rest))
termination_by s.length
decreasing_by simp_all only [List.length_cons]; omega

def members (member : Member σ) (seen : σ) (s : Bytes) : Step σ :=
  match skipBlank s with
  | [] => .error ⟨.endOfObject, 0⟩
  | a :: rest =>
    if a = octet '\x7d' then .ok (seen, rest)
    else if a = quote then
      match readMember member seen rest with
      | .error fault => .error fault
      | .ok (next, left) => moreMembers member next left
    else .error (ahead .keyExpected (a :: rest))

theorem moreMembers_length {member : Member σ} {seen next : σ} {s rest : Bytes}
    (h : moreMembers member seen s = .ok (next, rest)) : rest.length < s.length := by
  induction hn : s.length using Nat.strongRecOn generalizing s seen with
  | _ n ih =>
    subst hn
    rw [moreMembers.eq_def] at h
    have blank := skipBlank_length s
    split at h
    · simp at h
    · rename_i a tail eq
      rw [eq] at blank
      simp only [List.length_cons] at blank
      have inner := skipBlank_length tail
      dsimp only at h
      split at h
      · simp only [Except.ok.injEq, Prod.mk.injEq] at h; rw [← h.2]; omega
      split at h
      · split at h
        · simp at h
        · rename_i eq
          rw [eq] at inner
          simp only [List.length_cons] at inner
          split at h
          · split at h
            · simp at h
            · rename_i read
              have := readMember_length read
              have := ih _ (by omega) h rfl
              omega
          split at h
          · simp at h
          · simp at h
      · simp at h

theorem members_length {member : Member σ} {seen next : σ} {s rest : Bytes}
    (h : members member seen s = .ok (next, rest)) : rest.length < s.length := by
  unfold members at h
  have blank := skipBlank_length s
  split at h
  · simp at h
  · rename_i eq
    rw [eq] at blank
    simp only [List.length_cons] at blank
    split at h
    · simp only [Except.ok.injEq, Prod.mk.injEq] at h; rw [← h.2]; omega
    split at h
    · split at h
      · simp at h
      · rename_i read
        have := readMember_length read
        have := moreMembers_length h
        omega
    · simp at h

/-! ## Records -/

def leaveObject (s : Bytes) : Bytes :=
  match skipBlank s with
  | [] => []
  | a :: rest => if a = octet '\x7d' then rest else a :: rest

def readValueAfterColon (value : Reader α) (s : Bytes) : Step α :=
  match skipColon s with
  | .error fault => .error fault
  | .ok rest => value.read rest

theorem readValueAfterColon_length {value : Reader α} {s rest : Bytes} {a : α}
    (h : readValueAfterColon value s = .ok (a, rest)) : rest.length < s.length := by
  unfold readValueAfterColon at h
  split at h
  · simp at h
  · rename_i colon
    have := skipColon_length colon
    have := value.shrinks h
    omega

def pick (name : String) (value : Reader α) (seen : Option α) (key : String) (s : Bytes) :
    Step (Option α) :=
  if key = name then
    if seen.isSome then .error (behind (.duplicate name) (leaveObject s))
    else match readValueAfterColon value s with
      | .error fault => .error fault
      | .ok (a, rest) => .ok (some a, rest)
  else match skipColon s with
    | .error fault => .error fault
    | .ok rest =>
      match skipValue rest with
      | .error fault => .error fault
      | .ok rest => .ok (seen, rest)

theorem pick_length {name : String} {value : Reader α} {seen next : Option α} {key : String}
    {s rest : Bytes} (h : pick name value seen key s = .ok (next, rest)) :
    rest.length < s.length := by
  unfold pick at h
  split at h
  · split at h
    · simp at h
    · split at h
      · simp at h
      · rename_i read
        have := readValueAfterColon_length read
        simp only [Except.ok.injEq, Prod.mk.injEq] at h
        rw [← h.2]; exact this
  · split at h
    · simp at h
    · rename_i colon
      have := skipColon_length colon
      split at h
      · simp at h
      · rename_i skip
        have := skipValue_length skip
        simp only [Except.ok.injEq, Prod.mk.injEq] at h
        rw [← h.2]; omega

structure Field (α : Type) where
  title : String
  name : String
  absent : Option α

def Field.read (field : Field α) (value : Reader α) (s : Bytes) : Step α :=
  match members ⟨pick field.name value, pick_length⟩ none s with
  | .error fault => .error fault
  | .ok (some a, rest) => .ok (a, rest)
  | .ok (none, rest) =>
    match field.absent with
    | some a => .ok (a, rest)
    | none => .error (behind (.missing field.name) rest)

def closeList (s : Bytes) : Except Fault Bytes :=
  match skipBlank s with
  | [] => .error ⟨.endOfList, 0⟩
  | a :: rest =>
    if a = octet ']' then .ok rest
    else if a = comma then
      match skipBlank rest with
      | [] => .error ⟨.trailingCharacters, 0⟩
      | b :: after =>
        if b = octet ']' then .error (ahead .trailingComma (b :: after))
        else .error (ahead .trailingCharacters (b :: after))
    else .error (ahead .trailingCharacters (a :: rest))

def Field.readBare (field : Field α) (value : Reader α) (s : Bytes) : Step α :=
  match skipBlank s with
  | [] => .error ⟨.endOfList, 0⟩
  | a :: rest =>
    if a = octet ']' then
      match field.absent with
      | some value => .ok (value, rest)
      | none => .error (behind (.badLength 0 (field.title ++ " with 1 element")) rest)
    else match value.read (a :: rest) with
      | .error fault => .error fault
      | .ok (value, rest) =>
        match closeList rest with
        | .error fault => .error fault
        | .ok rest => .ok (value, rest)

/-- A record is an object, or a list of the values of its members in order. -/
def readRecord (field : Field α) (value : Reader α) (s : Bytes) : Step α :=
  match skipBlank s with
  | [] => .error ⟨.endOfValue, 0⟩
  | a :: rest =>
    if a = octet '\x7b' then field.read value rest
    else if a = octet '[' then field.readBare value rest
    else .error (mismatch field.title a rest)

theorem Field.read_length {field : Field α} {value : Reader α} {s rest : Bytes} {a : α}
    (h : field.read value s = .ok (a, rest)) : rest.length < s.length := by
  unfold Field.read at h
  split at h
  · simp at h
  · rename_i found
    have := members_length found
    simp only [Except.ok.injEq, Prod.mk.injEq] at h
    rw [← h.2]; exact this
  · rename_i found
    have := members_length found
    split at h
    · simp only [Except.ok.injEq, Prod.mk.injEq] at h
      rw [← h.2]; exact this
    · simp at h

theorem closeList_length {s rest : Bytes} (h : closeList s = .ok rest) :
    rest.length < s.length := by
  unfold closeList at h
  have := skipBlank_length s
  split at h
  · simp at h
  · rename_i eq
    rw [eq] at this
    simp only [List.length_cons] at this
    split at h
    · simp only [Except.ok.injEq] at h; rw [← h]; omega
    split at h
    · split at h
      · simp at h
      · split at h <;> simp at h
    · simp at h

theorem Field.readBare_length {field : Field α} {value : Reader α} {s rest : Bytes} {a : α}
    (h : field.readBare value s = .ok (a, rest)) : rest.length < s.length := by
  unfold Field.readBare at h
  have := skipBlank_length s
  split at h
  · simp at h
  · rename_i eq
    rw [eq] at this
    simp only [List.length_cons] at this
    split at h
    · split at h
      · simp only [Except.ok.injEq, Prod.mk.injEq] at h
        rw [← h.2]; omega
      · simp at h
    · split at h
      · simp at h
      · rename_i read
        have := value.shrinks read
        split at h
        · simp at h
        · rename_i close
          have := closeList_length close
          simp only [Except.ok.injEq, Prod.mk.injEq] at h
          simp only [List.length_cons] at *
          rw [← h.2]; omega

theorem readRecord_length {field : Field α} {value : Reader α} {s rest : Bytes} {a : α}
    (h : readRecord field value s = .ok (a, rest)) : rest.length < s.length := by
  unfold readRecord at h
  have := skipBlank_length s
  split at h
  · simp at h
  · rename_i eq
    rw [eq] at this
    simp only [List.length_cons] at this
    split at h
    · have := Field.read_length h; omega
    split at h
    · have := Field.readBare_length h; omega
    · simp at h

def Reader.record (field : Field α) (value : Reader α) : Reader α :=
  ⟨readRecord field value, readRecord_length⟩

end SecretStore.Json
