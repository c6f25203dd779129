import SecretStore.Flight.Caller
import SecretStore.Proofs.Related

namespace SecretStore.Flight

variable {W V σ : Type} {values : V → V → Prop} {works : W → W → Prop}

structure Channel.Alike (values : V → V → Prop) (channel channel' : Channel V) : Prop where
  value : Option.Rel values channel.value channel'.value
  live : channel.live = channel'.live

structure Table.Alike (values : V → V → Prop) (table table' : Table V) : Prop where
  entries : table.entries = table'.entries
  channels : List.Forall₂ (Channel.Alike values) table.channels table'.channels

inductive Sight.Alike (values : V → V → Prop) : Sight V → Sight V → Prop where
  | value {value value' : V} : values value value' → Alike values (.value value) (.value value')
  | gone : Alike values .gone .gone
  | pending : Alike values .pending .pending

namespace Table.Alike

variable {table table' : Table V}

theorem empty : (Table.empty : Table V).Alike values .empty := ⟨rfl, .nil⟩

theorem inFlight (alike : table.Alike values table') : table.inFlight = table'.inFlight :=
  congrArg List.length alike.entries

theorem join (alike : table.Alike values table') (key : String) :
    (table.join key).1 = (table'.join key).1 ∧ (table.join key).2.Alike values (table'.join key).2 := by
  have length := alike.channels.length_eq
  rw [Table.join, Table.join, Table.flight?, Table.flight?, alike.entries, length]
  split
  · exact ⟨rfl, alike⟩
  · exact ⟨rfl, rfl, List.rel_append alike.channels (.cons ⟨.none, rfl⟩ .nil)⟩

theorem update (alike : table.Alike values table') (flight : Nat) {change change' : Channel V → Channel V}
    (onward : ∀ channel channel', channel.Alike values channel' → (change channel).Alike values (change' channel')) :
    (table.update flight change).Alike values (table'.update flight change') :=
  ⟨alike.entries, modify_related alike.channels onward flight⟩

theorem publish (alike : table.Alike values table') (flight : Nat) {value value' : V} (pair : values value value') :
    (table.publish flight value).Alike values (table'.publish flight value') :=
  alike.update flight fun _ _ same => ⟨.some pair, same.live⟩

theorem leave (alike : table.Alike values table') (key : String) :
    (table.leave key).Alike values (table'.leave key) :=
  ⟨congrArg (List.filter _) alike.entries, alike.channels⟩

theorem close (alike : table.Alike values table') (flight : Nat) :
    (table.close flight).Alike values (table'.close flight) :=
  alike.update flight fun _ _ same => ⟨same.value, rfl⟩

theorem look (alike : table.Alike values table') (flight : Nat) :
    (table.look flight).Alike values (table'.look flight) := by
  have same := getElem?_related alike.channels flight
  rw [Table.look, Table.look]
  generalize table.channels[flight]? = channel at same ⊢
  generalize table'.channels[flight]? = channel' at same ⊢
  cases same with
  | none => exact .gone
  | @some channel channel' same =>
      obtain ⟨value, live⟩ := channel
      obtain ⟨value', live'⟩ := channel'
      obtain ⟨value, live⟩ := same
      dsimp only at value live
      subst live
      cases value with
      | some pair => exact .value pair
      | none =>
          cases live with
          | true => exact .pending
          | false => exact .gone

end Table.Alike

inductive Point.Alike (works : W → W → Prop) (values : V → V → Prop) : Point W V → Point W V → Prop where
  | joining : Alike works values .joining .joining
  | working (flight : Nat) {work work' : W} : works work work' →
      Alike works values (.working flight work) (.working flight work')
  | publishing (flight : Nat) {value value' : V} : values value value' →
      Alike works values (.publishing flight value) (.publishing flight value')
  | leaving (flight : Nat) {value value' : V} : values value value' →
      Alike works values (.leaving flight value) (.leaving flight value')
  | closing (flight : Nat) {value value' : V} : values value value' →
      Alike works values (.closing flight value) (.closing flight value')
  | following (flight : Nat) : Alike works values (.following flight) (.following flight)
  | returned (shared : Bool) {value value' : V} : values value value' →
      Alike works values (.returned value shared) (.returned value' shared)
  | quitting (flight : Nat) : Alike works values (.quitting flight) (.quitting flight)
  | hangingUp (flight : Nat) : Alike works values (.hangingUp flight) (.hangingUp flight)
  | gone : Alike works values .gone .gone

structure Caller.Alike (works : W → W → Prop) (values : V → V → Prop) (caller caller' : Caller W V) : Prop where
  key : caller.key = caller'.key
  work : works caller.work caller'.work
  point : caller.point.Alike works values caller'.point

inductive Progress.Alike (works : W → W → Prop) (values : V → V → Prop) : Progress W V → Progress W V → Prop where
  | waiting {work work' : W} : works work work' → Alike works values (.waiting work) (.waiting work')
  | finished {value value' : V} : values value value' → Alike works values (.finished value) (.finished value')

namespace Caller.Alike

variable {caller caller' : Caller W V} {table table' : Table V}

theorem arrive (key : String) {work work' : W} (pair : works work work') :
    (Caller.arrive key work).Alike works values (.arrive key work') := ⟨rfl, pair, .joining⟩

theorem act (alike : caller.Alike works values caller') (tables : table.Alike values table') :
    (caller.act table).1.Alike works values (caller'.act table').1 ∧
      (caller.act table).2.Alike values (caller'.act table').2 := by
  obtain ⟨key, work, point⟩ := caller
  obtain ⟨key', work', point'⟩ := caller'
  obtain ⟨rfl, pair, points⟩ := alike
  dsimp only at pair points
  cases points with
  | joining =>
      obtain ⟨role, joined⟩ := tables.join key
      simp only [Caller.act]
      generalize table.join key = first at role joined ⊢
      generalize table'.join key = second at role joined ⊢
      obtain ⟨role, after⟩ := first
      obtain ⟨role', after'⟩ := second
      dsimp only at role joined
      subst role
      cases role with
      | leader flight => exact ⟨⟨rfl, pair, .working flight pair⟩, joined⟩
      | follower flight => exact ⟨⟨rfl, pair, .following flight⟩, joined⟩
  | publishing flight value => exact ⟨⟨rfl, pair, .leaving flight value⟩, tables.publish flight value⟩
  | leaving flight value => exact ⟨⟨rfl, pair, .closing flight value⟩, tables.leave key⟩
  | closing flight value => exact ⟨⟨rfl, pair, .returned false value⟩, tables.close flight⟩
  | following flight =>
      have seen := tables.look flight
      simp only [Caller.act]
      generalize table.look flight = sight at seen ⊢
      generalize table'.look flight = sight' at seen ⊢
      cases seen with
      | value value => exact ⟨⟨rfl, pair, .returned true value⟩, tables⟩
      | gone => exact ⟨⟨rfl, pair, .joining⟩, tables⟩
      | pending => exact ⟨⟨rfl, pair, .following flight⟩, tables⟩
  | quitting flight => exact ⟨⟨rfl, pair, .hangingUp flight⟩, tables.leave key⟩
  | hangingUp flight => exact ⟨⟨rfl, pair, .gone⟩, tables.close flight⟩
  | working flight work => exact ⟨⟨rfl, pair, .working flight work⟩, tables⟩
  | returned shared value => exact ⟨⟨rfl, pair, .returned shared value⟩, tables⟩
  | gone => exact ⟨⟨rfl, pair, .gone⟩, tables⟩

theorem abandon (alike : caller.Alike works values caller') :
    caller.abandon.Alike works values caller'.abandon := by
  obtain ⟨key, work, point⟩ := caller
  obtain ⟨key', work', point'⟩ := caller'
  obtain ⟨rfl, pair, points⟩ := alike
  dsimp only at pair points
  cases points with
  | working flight => exact ⟨rfl, pair, .quitting flight⟩
  | joining => exact ⟨rfl, pair, .gone⟩
  | following => exact ⟨rfl, pair, .gone⟩
  | _ => exact ⟨rfl, pair, by constructor <;> assumption⟩

theorem drop (alike : caller.Alike works values caller') (tables : table.Alike values table') :
    (caller.drop table).Alike values (caller'.drop table') := by
  obtain ⟨callers, tables⟩ := alike.abandon.act tables
  exact (callers.act tables).2

theorem result? (alike : caller.Alike works values caller') :
    Option.Rel (fun found found' => values found.1 found'.1 ∧ found.2 = found'.2) caller.result? caller'.result? := by
  obtain ⟨key, work, point⟩ := caller
  obtain ⟨key', work', point'⟩ := caller'
  obtain ⟨-, -, points⟩ := alike
  dsimp only at points
  cases points with
  | returned shared value => exact .some ⟨value, rfl⟩
  | _ => exact .none

variable {states : σ → σ → Prop} {advance : W → σ → Progress W V × σ}
  (advances : ∀ work work' state state', works work work' → states state state' →
    (advance work state).1.Alike works values (advance work' state').1 ∧
      states (advance work state).2 (advance work' state').2)

include advances

theorem run (alike : caller.Alike works values caller') (tables : table.Alike values table') {state state' : σ}
    (same : states state state') (steps : Nat) :
    (caller.run advance steps table state).1.Alike works values (caller'.run advance steps table' state').1 ∧
      (caller.run advance steps table state).2.1.Alike values (caller'.run advance steps table' state').2.1 ∧
      states (caller.run advance steps table state).2.2 (caller'.run advance steps table' state').2.2 := by
  induction steps generalizing caller caller' table table' state state' with
  | zero => exact ⟨alike, tables, same⟩
  | succ steps ih =>
      have acted := alike.act tables
      obtain ⟨key, work, point⟩ := caller
      obtain ⟨key', work', point'⟩ := caller'
      obtain ⟨rfl, pair, points⟩ := alike
      dsimp only at pair points
      cases points with
      | @working flight left left' related =>
          obtain ⟨progress, after⟩ := advances left left' state state' related same
          simp only [Caller.run]
          generalize advance left state = first at progress after ⊢
          generalize advance left' state' = second at progress after ⊢
          obtain ⟨gone, last⟩ := first
          obtain ⟨gone', last'⟩ := second
          dsimp only at progress after
          cases progress with
          | waiting related => exact ⟨⟨rfl, pair, .working flight related⟩, tables, after⟩
          | @finished value value' values =>
              have publishing : Caller.Alike works _ ⟨key, work, .publishing flight value⟩
                  ⟨key, work', .publishing flight value'⟩ := ⟨rfl, pair, .publishing flight values⟩
              exact ih publishing tables after
      | following flight =>
          have seen := tables.look flight
          simp only [Caller.run]
          generalize table.look flight = sight at seen ⊢
          generalize table'.look flight = sight' at seen ⊢
          cases seen with
          | pending => exact ⟨⟨rfl, pair, .following flight⟩, tables, same⟩
          | _ => exact ih acted.1 acted.2 same
      | returned shared value => exact ⟨⟨rfl, pair, .returned shared value⟩, tables, same⟩
      | gone => exact ⟨⟨rfl, pair, .gone⟩, tables, same⟩
      | _ => exact ih acted.1 acted.2 same

theorem poll (alike : caller.Alike works values caller') (tables : table.Alike values table') {state state' : σ}
    (same : states state state') :
    (caller.poll advance table state).1.Alike works values (caller'.poll advance table' state').1 ∧
      (caller.poll advance table state).2.1.Alike values (caller'.poll advance table' state').2.1 ∧
      states (caller.poll advance table state).2.2 (caller'.poll advance table' state').2.2 :=
  alike.run advances tables same mostSteps

end Caller.Alike

end SecretStore.Flight
