import SecretStore.Yaml.Event.Stream
import SecretStore.Proofs.Yaml.Members

namespace SecretStore.Yaml

mutual

def valueEvents : Writable → List Event
  | .flag value => [.scalar none none (if value then "true" else "false") .plain]
  | .text value => [.scalar none none value (styleOf value)]
  | .map members => .mapStart none none :: (membersEvents members ++ [.mapEnd])

def membersEvents : List (String × Writable) → List Event
  | [] => []
  | (key, value) :: rest =>
    .scalar none none key (styleOf key) :: (valueEvents value ++ membersEvents rest)

end

namespace Reading

inductive Attains : Nat → Reading → List (Event × Mark) → Reading → Prop where
  | done {left : Reading} : Attains 0 left [] left
  | step {tokens : List Token} {handles : List (List Char × Tag)} {goal : Goal} {goals : List Goal}
      {starved : GrammarFault} {event : Option (Event × Mark)} {next last : Reading}
      {events : List (Event × Mark)} {count : Nat}
      (move : attain ⟨tokens, handles, goals, starved⟩ goal = .ok (event, next))
      (rest : Attains count next events last) :
      Attains (count + 1) ⟨tokens, handles, goal :: goals, starved⟩ (event.toList ++ events) last

theorem Attains.trans {first middle last : Reading} {events others : List (Event × Mark)} {count more : Nat}
    (attains : Attains count first events middle) (rest : Attains more middle others last) :
    Attains (count + more) first (events ++ others) last := by
  induction attains with
  | done => rwa [Nat.zero_add]
  | step move _ ih =>
      rw [Nat.add_right_comm, List.append_assoc]
      exact .step move (ih rest)

theorem run_attains {left last : Reading} {events : List (Event × Mark)} {count : Nat}
    (attains : Attains count left events last) (fuel : Nat) (before : List (Event × Mark)) :
    run (count + fuel) before left = run fuel (events.reverse ++ before) last := by
  induction attains generalizing before with
  | done => rw [Nat.zero_add]; rfl
  | @step _ _ _ _ _ event _ _ events _ move _ ih =>
      rw [Nat.add_right_comm, run]
      simp only [move, ih, List.reverse_append]
      cases event <;> simp

theorem run_finished (fuel : Nat) (before : List (Event × Mark)) (tokens : List Token)
    (handles : List (List Char × Tag)) (starved : GrammarFault) :
    run (fuel + 1) before ⟨tokens, handles, [], starved⟩ =
      ⟨before.reverse, (tokens.head?.map Token.start).getD {}, none⟩ := rfl

variable {rest : List Token} {handles : List (List Char × Tag)} {goals : List Goal} {starved : GrammarFault}
  {start stop : Mark} {token : Token}

theorem attain_scalar (text : String) (style : Style) (inBlock besideKey : Bool) :
    attain ⟨⟨.scalar text style, start, stop⟩ :: rest, handles, goals, starved⟩ (.node inBlock besideKey) =
      .ok (some (.scalar none none text style, start), ⟨rest, handles, goals, starved⟩) := rfl

theorem attain_flowMap (inBlock besideKey : Bool) :
    attain ⟨⟨.flowMapStart, start, stop⟩ :: rest, handles, goals, starved⟩ (.node inBlock besideKey) =
      .ok (some (.mapStart none none, start), ⟨rest, handles, .flowKeys start true :: goals, starved⟩) := rfl

theorem attain_flowMapEnd {first : Mark} :
    attain ⟨⟨.flowMapEnd, start, stop⟩ :: rest, handles, goals, starved⟩ (.flowKeys first true) =
      .ok (some (.mapEnd, start), ⟨rest, handles, goals, starved⟩) := rfl

theorem attain_blockMap (besideKey : Bool) :
    attain ⟨⟨.blockMapStart, start, stop⟩ :: rest, handles, goals, starved⟩ (.node true besideKey) =
      .ok (some (.mapStart none none, start), ⟨rest, handles, .blockKeys start :: goals, starved⟩) := by
  cases besideKey <;> rfl

theorem attain_key {first : Mark} (goesOn : endsMember token.kind = false) :
    attain ⟨⟨.key, start, stop⟩ :: token :: rest, handles, goals, starved⟩ (.blockKeys first) =
      .ok (none, ⟨token :: rest, handles, .node true true :: .blockValue first :: goals, starved⟩) := by
  change nodeOrEmpty (.node true true) endsMember stop (.blockValue first)
    ⟨token :: rest, handles, goals, starved⟩ = _
  simp only [nodeOrEmpty, peek, bind, Except.bind, goesOn]
  rfl

theorem attain_value {first : Mark} (goesOn : endsMember token.kind = false) :
    attain ⟨⟨.value, start, stop⟩ :: token :: rest, handles, goals, starved⟩ (.blockValue first) =
      .ok (none, ⟨token :: rest, handles, .node true true :: .blockKeys first :: goals, starved⟩) := by
  change nodeOrEmpty (.node true true) endsMember stop (.blockKeys first)
    ⟨token :: rest, handles, goals, starved⟩ = _
  simp only [nodeOrEmpty, peek, bind, Except.bind, goesOn]
  rfl

theorem attain_blockEnd {first : Mark} :
    attain ⟨⟨.blockEnd, start, stop⟩ :: rest, handles, goals, starved⟩ (.blockKeys first) =
      .ok (some (.mapEnd, start), ⟨rest, handles, goals, starved⟩) := rfl

theorem valueTokens_starts (value : Writable) :
    ∃ kind kinds, valueTokens value = kind :: kinds ∧ endsMember kind = false ∧ endsContent kind = false := by
  cases value with
  | flag value => exact ⟨_, _, rfl, rfl, rfl⟩
  | text value => exact ⟨_, _, rfl, rfl, rfl⟩
  | map members =>
      cases members with
      | nil => exact ⟨_, _, rfl, rfl, rfl⟩
      | cons member members =>
          rw [valueTokens]
          · exact ⟨_, _, rfl, rfl, rfl⟩
          · simp

def Gives (kinds : List TokenKind) (events : List Event) : Prop :=
  ∀ (tokens rest : List Token) (handles : List (List Char × Tag)) (goals : List Goal) (starved : GrammarFault)
    (besideKey : Bool), tokens.map Token.kind = kinds →
    ∃ found, found.map Prod.fst = events ∧
      Attains tokens.length ⟨tokens ++ rest, handles, .node true besideKey :: goals, starved⟩ found
        ⟨rest, handles, goals, starved⟩

def GivesMembers (kinds : List TokenKind) (events : List Event) : Prop :=
  ∀ (tokens rest : List Token) (handles : List (List Char × Tag)) (goals : List Goal) (starved : GrammarFault)
    (start : Mark), tokens.map Token.kind = kinds →
    ∃ found, found.map Prod.fst = events ∧
      Attains tokens.length ⟨tokens ++ rest, handles, .blockKeys start :: goals, starved⟩ found
        ⟨rest, handles, .blockKeys start :: goals, starved⟩

theorem exists_token {tokens : List Token} {kind : TokenKind} {kinds : List TokenKind}
    (found : tokens.map Token.kind = kind :: kinds) :
    ∃ start stop rest, tokens = ⟨kind, start, stop⟩ :: rest ∧ rest.map Token.kind = kinds := by
  obtain ⟨⟨_, start, stop⟩, rest, rfl, rfl, others⟩ := List.map_eq_cons_iff.1 found
  exact ⟨start, stop, rest, rfl, others⟩

theorem gives_scalar (text : String) (style : Style) :
    Gives [.scalar text style] [.scalar none none text style] := by
  intro tokens rest handles goals starved besideKey kinds
  obtain ⟨start, stop, others, rfl, empty⟩ := exists_token kinds
  obtain rfl := List.map_eq_nil_iff.1 empty
  exact ⟨[(_, start)], rfl, .step (attain_scalar text style true besideKey) .done⟩

theorem gives_empty : Gives [.flowMapStart, .flowMapEnd] [.mapStart none none, .mapEnd] := by
  intro tokens rest handles goals starved besideKey kinds
  obtain ⟨start, stop, others, rfl, tail⟩ := exists_token kinds
  obtain ⟨second, third, others, rfl, empty⟩ := exists_token tail
  obtain rfl := List.map_eq_nil_iff.1 empty
  exact ⟨[(_, start), (_, second)], rfl, .step (attain_flowMap true besideKey) (.step attain_flowMapEnd .done)⟩

theorem gives_map {kinds : List TokenKind} {events : List Event} (members : GivesMembers kinds events) :
    Gives (.blockMapStart :: (kinds ++ [.blockEnd])) (.mapStart none none :: (events ++ [.mapEnd])) := by
  intro tokens rest handles goals starved besideKey all
  obtain ⟨start, stop, others, rfl, tail⟩ := exists_token all
  obtain ⟨inner, last, rfl, inside, final⟩ := List.map_eq_append_iff.1 tail
  obtain ⟨first, second, others, rfl, empty⟩ := exists_token final
  obtain rfl := List.map_eq_nil_iff.1 empty
  obtain ⟨found, same, attains⟩ := members inner (⟨.blockEnd, first, second⟩ :: rest) handles goals starved
    start inside
  refine ⟨(.mapStart none none, start) :: (found ++ [(.mapEnd, first)]), by simp [same], ?_⟩
  have ends := attains.trans (.step attain_blockEnd .done)
  simp only [List.cons_append, List.append_assoc, List.length_cons, List.length_append]
  exact .step (attain_blockMap besideKey) ends

theorem gives_members_nil : GivesMembers [] [] := by
  intro tokens rest handles goals starved start empty
  obtain rfl := List.map_eq_nil_iff.1 empty
  exact ⟨[], rfl, .done⟩

theorem gives_members_cons {key : String} {style : Style} {kind : TokenKind} {kinds others : List TokenKind}
    {events more : List Event} (goesOn : endsMember kind = false) (value : Gives (kind :: kinds) events)
    (members : GivesMembers others more) :
    GivesMembers (.key :: .scalar key style :: .value :: (kind :: kinds ++ others))
      (.scalar none none key style :: (events ++ more)) := by
  intro tokens rest handles goals starved start all
  obtain ⟨a, b, tail, rfl, named⟩ := exists_token all
  obtain ⟨c, d, tail, rfl, valued⟩ := exists_token named
  obtain ⟨e, f, tail, rfl, both⟩ := exists_token valued
  obtain ⟨inner, last, rfl, inside, further⟩ := List.map_eq_append_iff.1 both
  obtain ⟨found, same, attains⟩ := value inner (last ++ rest) handles (.blockKeys start :: goals) starved
    true inside
  obtain ⟨found', same', attains'⟩ := members last rest handles goals starved start further
  obtain ⟨g, h, inner, rfl, -⟩ := exists_token inside
  refine ⟨(.scalar none none key style, c) :: (found ++ found'), by simp [same, same'], ?_⟩
  have onward := attains.trans attains'
  rw [List.cons_append] at onward
  simp only [List.cons_append, List.append_assoc, List.length_cons, List.length_append] at onward ⊢
  refine Eq.mp (congrArg (Attains · _ _ _) ?_) (.step (attain_key rfl)
    (.step (attain_scalar key style true true) (.step (attain_value goesOn) onward)))
  omega

mutual

theorem gives_value : (value : Writable) → Gives (valueTokens value) (valueEvents value)
  | .flag value => gives_scalar _ _
  | .text value => gives_scalar value (styleOf value)
  | .map [] => gives_empty
  | .map (member :: members) => by
      rw [valueTokens, valueEvents]
      · exact gives_map (gives_members (member :: members))
      · simp

theorem gives_members : (members : List (String × Writable)) →
    GivesMembers (membersTokens members) (membersEvents members)
  | [] => gives_members_nil
  | (key, value) :: members => by
      obtain ⟨kind, kinds, eq, goesOn, -⟩ := valueTokens_starts value
      have given := gives_value value
      rw [eq] at given
      rw [membersTokens, membersEvents, eq]
      exact gives_members_cons goesOn given (gives_members members)

end

theorem attain_documents {kind : TokenKind} (starts : endsContent kind = false) :
    attain ⟨⟨kind, start, stop⟩ :: rest, handles, goals, starved⟩ (.documents true) =
      .ok (some (.documentStart, start), ⟨⟨kind, start, stop⟩ :: rest, defaultHandles,
        .node true false :: .documentEnd :: .documents false :: goals, starved⟩) := by
  simp only [endsContent, Bool.or_eq_false_iff, decide_eq_false_iff_not] at starts
  obtain ⟨⟨⟨directive, begins⟩, -⟩, ends⟩ := starts
  simp [attain, documents, peek, bind, Except.bind, ends, begins, directive, emit]

theorem attain_documentEnd :
    attain ⟨[⟨.streamEnd, start, stop⟩], handles, goals, starved⟩ .documentEnd =
      .ok (some (.documentEnd, start), ⟨[⟨.streamEnd, start, stop⟩], handles, goals, starved⟩) := rfl

theorem attain_noDocument :
    attain ⟨[⟨.streamEnd, start, stop⟩], handles, goals, starved⟩ (.documents false) =
      .ok (none, ⟨[⟨.streamEnd, start, stop⟩], handles, goals, starved⟩) := rfl

end Reading

theorem ofTokens_value (value : Writable) {tokens : List Token}
    (kinds : tokens.map Token.kind = valueTokens value ++ [.streamEnd]) :
    ∃ events stop, EventStream.ofTokens ⟨tokens, none⟩ = ⟨events, stop, none⟩ ∧
      events.map Prod.fst = .documentStart :: (valueEvents value ++ [.documentEnd]) := by
  obtain ⟨inner, last, rfl, inside, final⟩ := List.map_eq_append_iff.1 kinds
  obtain ⟨first, second, others, rfl, empty⟩ := Reading.exists_token final
  obtain rfl := List.map_eq_nil_iff.1 empty
  let starved : GrammarFault := ⟨.endOfStream, {}, 0, none⟩
  obtain ⟨found, same, attains⟩ := Reading.gives_value value inner [⟨.streamEnd, first, second⟩]
    defaultHandles [.documentEnd, .documents false] starved false inside
  obtain ⟨kind, kinds', eq, -, starts⟩ := Reading.valueTokens_starts value
  rw [eq] at inside
  obtain ⟨start, stop, inner, rfl, -⟩ := Reading.exists_token inside
  have ends := attains.trans (.step Reading.attain_documentEnd (.step Reading.attain_noDocument .done))
  have whole : Reading.Attains _ ⟨_, [], [.documents true], starved⟩ _ _ :=
    .step (Reading.attain_documents starts) ends
  -- One goal for each token, and three for the document around them.
  obtain ⟨spare, enough⟩ : ∃ spare, 8 * (⟨kind, start, stop⟩ :: inner ++ [⟨.streamEnd, first, second⟩] :
      List Token).length + 16 = (⟨kind, start, stop⟩ :: inner : List Token).length + (0 + 1 + 1) + 1 +
        (spare + 1) := by
    refine ⟨8 * (inner.length + 2) + 16 - (inner.length + 5), ?_⟩
    simp only [List.cons_append, List.length_cons, List.length_append, List.length_nil]
    omega
  have runs := Reading.run_attains whole (spare + 1) []
  rw [EventStream.ofTokens, enough]
  exact ⟨_, _, runs.trans (Reading.run_finished spare _ _ _ _), by simp [same]⟩

end SecretStore.Yaml
