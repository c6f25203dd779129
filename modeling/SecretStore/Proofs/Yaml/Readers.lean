import SecretStore.Proofs.Yaml.Events
import SecretStore.Yaml.Reader

namespace SecretStore.Yaml

def Event.isAnchorless : Event → Bool
  | .scalar anchor _ _ _ => anchor.isNone
  | .mapStart anchor _ => anchor.isNone
  | .mapEnd => true
  | _ => false

def Event.part : Event → Part
  | .scalar _ tag text style => .scalar tag text style
  | .mapStart _ tag => .mapStart tag
  | _ => .mapEnd

def valueParts (value : Writable) : List Part := (valueEvents value).map Event.part

def membersParts (members : List (String × Writable)) : List Part := (membersEvents members).map Event.part

theorem valueParts_map (members : List (String × Writable)) :
    valueParts (.map members) = .mapStart none :: (membersParts members ++ [.mapEnd]) := by
  simp [valueParts, membersParts, valueEvents, Event.part]

theorem membersParts_cons (key : String) (value : Writable) (members : List (String × Writable)) :
    membersParts ((key, value) :: members) =
      .scalar none key (styleOf key) :: (valueParts value ++ membersParts members) := by
  simp [valueParts, membersParts, membersEvents, Event.part]

mutual

theorem valueEvents_anchorless : (value : Writable) → (valueEvents value).all Event.isAnchorless = true
  | .flag _ => rfl
  | .text _ => rfl
  | .map members => by simp [valueEvents, Event.isAnchorless, membersEvents_anchorless members]

theorem membersEvents_anchorless : (members : List (String × Writable)) →
    (membersEvents members).all Event.isAnchorless = true
  | [] => rfl
  | (key, value) :: members => by
      simp [membersEvents, Event.isAnchorless, valueEvents_anchorless value, membersEvents_anchorless members]

end

namespace Document

variable {stream : EventStream} {mark : Mark} {rest found : List (Event × Mark)}

theorem complete_event {event : Event} (anchorless : event.isAnchorless = true) (parts : Parts) (count : Nat) :
    complete stream ⟨parts, count, [], []⟩ ((event, mark) :: rest) =
      complete stream ⟨(event.part, mark) :: parts, count + 1, [], []⟩ rest := by
  cases event with
  | scalar anchor =>
      obtain rfl := Option.isNone_iff_eq_none.1 anchorless
      rfl
  | mapStart anchor =>
      obtain rfl := Option.isNone_iff_eq_none.1 anchorless
      rfl
  | mapEnd => rfl
  | documentStart => cases anchorless
  | documentEnd => cases anchorless
  | «alias» => cases anchorless
  | listStart => cases anchorless
  | listEnd => cases anchorless

theorem complete_events (anchorless : ∀ event ∈ found, event.1.isAnchorless = true) (parts : Parts)
    (count : Nat) : complete stream ⟨parts, count, [], []⟩ (found ++ rest) =
      complete stream ⟨(found.map fun event => (event.1.part, event.2)).reverse ++ parts,
        count + found.length, [], []⟩ rest := by
  induction found generalizing parts count with
  | nil => rfl
  | cons event found ih =>
      rw [List.cons_append, complete_event (anchorless event (by simp)),
        ih fun other mem => anchorless other (by simp [mem])]
      simp [Nat.add_assoc, Nat.add_comm 1]

end Document

theorem ofText_writeMap {members : List (String × Writable)} (given : members ≠ []) :
    ∃ parts, Document.ofText (writeMap members).toList = { parts } ∧
      parts.map Prod.fst = valueParts (.map members) := by
  obtain ⟨tokens, read, kinds⟩ := ofText_membersText given
  obtain ⟨events, stop, parsed, same⟩ := ofTokens_value (.map members) kinds
  obtain ⟨⟨_, first⟩, others, rfl, rfl, tail⟩ := List.map_eq_cons_iff.1 same
  obtain ⟨inner, last, rfl, inside, final⟩ := List.map_eq_append_iff.1 tail
  obtain ⟨⟨_, second⟩, others, rfl, rfl, none⟩ := List.map_eq_cons_iff.1 final
  obtain rfl := List.map_eq_nil_iff.1 none
  have anchorless : ∀ event ∈ inner, event.1.isAnchorless = true := fun event mem =>
    List.all_eq_true.1 (valueEvents_anchorless (.map members)) event.1
      (inside ▸ List.mem_map_of_mem mem)
  have text : (writeMap members).toList = membersText 0 members := String.toList_ofList
  refine ⟨inner.map fun event => (event.1.part, event.2), ?_, ?_⟩
  · rw [text, Document.ofText, EventStream.ofText, read, parsed]
    change Document.complete _ ⟨[], 0, [], []⟩ (inner ++ [(Event.documentEnd, second)]) = _
    rw [Document.complete_events anchorless]
    simp [Document.complete, Document.Draft.finish]
  · rw [valueParts, ← inside]
    simp

variable {α σ : Type}

/-- The reader takes these parts in any place and returns the value. -/
def Reads (reader : Reader α) (parts : List Part) (a : α) : Prop :=
  ∀ (place : Place) (found rest : Parts), found.map Prod.fst = parts →
    reader place (found ++ rest) = .ok (a, rest)

theorem exists_part {found : Parts} {part : Part} {parts : List Part}
    (same : found.map Prod.fst = part :: parts) :
    ∃ mark rest, found = (part, mark) :: rest ∧ rest.map Prod.fst = parts := by
  obtain ⟨⟨_, mark⟩, rest, rfl, rfl, others⟩ := List.map_eq_cons_iff.1 same
  exact ⟨mark, rest, rfl, others⟩

theorem textWanted_scalar (wanted : String) (place : Place) (tag : Option Tag) (text : String) (style : Style)
    (mark : Mark) (rest : Parts) :
    textWanted wanted place ((.scalar tag text style, mark) :: rest) = .ok (text, rest) := rfl

theorem reads_text (value : String) : Reads text (valueParts (.text value)) value := by
  intro place found rest same
  obtain ⟨mark, others, rfl, none⟩ := exists_part same
  obtain rfl := List.map_eq_nil_iff.1 none
  rfl

theorem reads_flag (value : Bool) : Reads boolean (valueParts (.flag value)) value := by
  intro place found rest same
  obtain ⟨mark, others, rfl, none⟩ := exists_part same
  obtain rfl := List.map_eq_nil_iff.1 none
  cases value <;> rfl

theorem Reads.map_ok {reader : Reader α} {parts : List Part} {a : α} {β : Type} (reads : Reads reader parts a)
    (f : α → β) :
    Reads (fun place rest => (reader place rest).map fun (a, rest) => (f a, rest)) parts (f a) := by
  intro place found rest same
  simp only [reads place found rest same]
  rfl

inductive Steps (step : σ → Place → Part → Parts → Except Fault (σ × Parts)) :
    σ → List (String × Writable) → σ → Prop where
  | nil {state : σ} : Steps step state [] state
  | cons {state next last : σ} {key : String} {value : Writable} {members : List (String × Writable)}
      (one : ∀ (place : Place) (mark : Mark) (found rest : Parts), found.map Prod.fst = valueParts value →
        step state place (.scalar none key (styleOf key))
          ((.scalar none key (styleOf key), mark) :: (found ++ rest)) = .ok (next, rest))
      (others : Steps step next members last) : Steps step state ((key, value) :: members) last

theorem members_steps {step : σ → Place → Part → Parts → Except Fault (σ × Parts)} {state last : σ}
    {members : List (String × Writable)} (steps : Steps step state members last) (place : Place) (mark : Mark)
    {found : Parts} (rest : Parts) (same : found.map Prod.fst = membersParts members) {fuel : Nat}
    (enough : found.length < fuel) :
    Yaml.members step place fuel state (found ++ (.mapEnd, mark) :: rest) = .ok (last, rest) := by
  induction steps generalizing found fuel with
  | nil =>
      obtain rfl := List.map_eq_nil_iff.1 same
      obtain ⟨fuel, rfl⟩ := Nat.exists_eq_add_of_lt enough
      simp [Yaml.members]
  | cons one _ ih =>
      rw [membersParts_cons] at same
      obtain ⟨here, tail, rfl, both⟩ := exists_part same
      obtain ⟨value, others, rfl, first, later⟩ := List.map_eq_append_iff.1 both
      obtain ⟨fuel, rfl⟩ := Nat.exists_eq_add_of_lt enough
      have read := one place here value (others ++ (.mapEnd, mark) :: rest) first
      rw [List.cons_append, List.append_assoc, List.length_cons, Nat.add_right_comm _ 1 fuel]
      simp only [Yaml.members, reduceCtorEq, if_false, read, bind, Except.bind]
      exact ih later (by simp only [List.length_append]; omega)

theorem reads_map {wanted : String} {start last : σ}
    {step : Mark → σ → Place → Part → Parts → Except Fault (σ × Parts)} {finish : σ → Except Cause α} {a : α}
    {members : List (String × Writable)} (steps : ∀ mark, Steps (step mark) start members last)
    (finished : finish last = .ok a) : Reads (map wanted start step finish) (valueParts (.map members)) a := by
  intro place found rest same
  rw [valueParts_map] at same
  obtain ⟨mark, tail, rfl, both⟩ := exists_part same
  obtain ⟨inner, ending, rfl, inside, final⟩ := List.map_eq_append_iff.1 both
  obtain ⟨stop, others, rfl, none⟩ := exists_part final
  obtain rfl := List.map_eq_nil_iff.1 none
  have enough : inner.length < (inner ++ (Part.mapEnd, stop) :: rest).length + 1 := by
    simp only [List.length_append]
    omega
  rw [List.cons_append, List.append_assoc, List.singleton_append]
  simp only [map, node, bind, Except.bind, members_steps (steps mark) place stop rest inside enough, finished]
  rfl

def fieldStep (field : σ → String → Slot σ) (mark : Mark) (state : σ) (place : Place) (key : Part)
    (rest : Parts) : Except Fault (σ × Parts) := do
  let (name, rest) ← textWanted "field identifier" place rest
  match field state name with
  | .unknown => return (state, ← ignore (place.under key) rest)
  | .repeated => place.fault (.duplicate name) mark
  | .known read => read (place.under key) rest

theorem steps_field {field : σ → String → Slot σ} {state next last : σ} {mark : Mark} {key : String}
    {value : Writable} {members : List (String × Writable)} {read : Reader σ}
    (known : field state key = .known read) (reads : Reads read (valueParts value) next)
    (others : Steps (fieldStep field mark) next members last) :
    Steps (fieldStep field mark) state ((key, value) :: members) last := by
  refine .cons (fun place here found rest same => ?_) others
  simp only [fieldStep, textWanted_scalar, bind, Except.bind, known]
  exact reads _ found rest same

theorem reads_record {wanted : String} {start last : σ} {field : σ → String → Slot σ}
    {finish : σ → Except Cause α} {a : α} {members : List (String × Writable)}
    (steps : ∀ mark, Steps (fieldStep field mark) start members last) (finished : finish last = .ok a) :
    Reads (record wanted start field finish) (valueParts (.map members)) a :=
  reads_map steps finished

theorem steps_pairs (pairs before : List (String × String)) :
    Steps (fun (pairs : List (String × String)) place key rest => do
        let (name, rest) ← text place rest
        let (value, rest) ← text (place.under key) rest
        return ((name, value) :: pairs, rest))
      before (pairs.map fun pair => (pair.1, .text pair.2)) (pairs.reverse ++ before) := by
  induction pairs generalizing before with
  | nil => exact .nil
  | cons pair pairs ih =>
      rw [List.map_cons, List.reverse_cons, List.append_assoc]
      refine .cons (fun place here found rest same => ?_) (ih (pair :: before))
      have read := reads_text pair.2 (place.under (.scalar none pair.1 (styleOf pair.1))) found rest same
      simp only [text, textWanted_scalar, bind, Except.bind] at read ⊢
      rw [read]
      rfl

theorem reads_textMap (pairs : List (String × String)) :
    Reads textMap (valueParts (.map (pairs.map fun pair => (pair.1, .text pair.2)))) pairs := by
  refine reads_map (fun _ => steps_pairs pairs []) ?_
  rw [List.append_nil, List.reverse_reverse]

theorem reads_choice {wanted key : String} {kinds : List (String × Reader α)} {read : Reader α}
    {value : Writable} {a : α} (named : kinds.find? (·.1 = key) = some (key, read))
    (reads : Reads read (valueParts value) a) :
    Reads (choice wanted kinds) (valueParts (.map [(key, value)])) a := by
  intro place found rest same
  rw [valueParts_map, membersParts_cons] at same
  obtain ⟨mark, tail, rfl, member⟩ := exists_part same
  obtain ⟨here, tail, rfl, both⟩ := exists_part member
  rw [show membersParts [] = [] from rfl, List.append_nil] at both
  obtain ⟨inner, ending, rfl, inside, final⟩ := List.map_eq_append_iff.1 both
  obtain ⟨stop, others, rfl, empty⟩ := exists_part final
  obtain rfl := List.map_eq_nil_iff.1 empty
  have taken := reads (place.under (.scalar none key (styleOf key))) inner ((.mapEnd, stop) :: rest) inside
  simp only [choice, List.cons_append, List.append_assoc, List.nil_append, node, bind, Except.bind,
    textWanted_scalar, named, taken]
  rfl

theorem whole_writeMap {reader : Reader α} {a : α} {members : List (String × Writable)}
    (given : members ≠ []) (reads : Reads reader (valueParts (.map members)) a) :
    reader.whole (writeMap members) = .ok a := by
  obtain ⟨parts, read, same⟩ := ofText_writeMap given
  have taken := reads ⟨{ parts }, []⟩ parts [] same
  rw [List.append_nil] at taken
  simp only [Reader.whole, read, taken, bind, Except.bind]
  rfl

end SecretStore.Yaml
