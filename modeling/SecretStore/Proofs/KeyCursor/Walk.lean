import SecretStore.Proofs.Cancellation.Waiters
import SecretStore.Proofs.KeyCursor

namespace SecretStore.KeyCursor

open Cancellation (Family)

inductive Step where
  | call (call : Call)
  | cancel (family : Family)
  deriving DecidableEq

structure Walk where
  cursor : KeyCursor
  owner : Family
  tokens : Cancellation.State

def Reply.handed : Reply → List String
  | .next key _ => [key]
  | .item key => key.toList
  | .keys all => all
  | .remaining _ | .sizeHint .. | .closed _ | .shown _ => []

namespace Walk

def start (keys : List String) (owner : Family) (tokens : Cancellation.State) : Walk :=
  ⟨ofKeys keys, owner, tokens⟩

def answer (walk : Walk) (call : Call) : Reply × KeyCursor :=
  walk.cursor.answer (walk.tokens.isCancelled walk.owner) call

def take (walk : Walk) : Step → Walk
  | .call call => { walk with cursor := (walk.answer call).2 }
  | .cancel family => { walk with tokens := walk.tokens.cancel family }

def follow (walk : Walk) (steps : List Step) : Walk := steps.foldl take walk

def given (walk : Walk) : Step → List String
  | .call call => if 0 < walk.cursor.remaining then (walk.answer call).1.handed else []
  | .cancel _ => []

def handedOut (walk : Walk) : List Step → List String
  | [] => []
  | step :: steps => walk.given step ++ (walk.take step).handedOut steps

end Walk

section Calls

variable {cursor : KeyCursor} {key : String} {keys : List String}

theorem remaining_eq_length (cursor : KeyCursor) : cursor.remaining = cursor.left.length := by
  rw [remaining, left, List.length_drop]

theorem remaining_eq_zero : cursor.remaining = 0 ↔ cursor.left = [] := by
  rw [remaining_eq_length, List.length_eq_zero_iff]

theorem nextKey_of_left_nil (none : cursor.left = []) : cursor.nextKey = (("", false), cursor) := by
  have spent : cursor.keys.length ≤ cursor.index := List.drop_eq_nil_iff.1 none
  simp only [nextKey, next_of_left_nil none, Option.getD_none, Nat.not_lt.2 spent, decide_false]

theorem nextKey_of_left_cons (more : cursor.left = key :: keys) :
    ∃ after, cursor.nextKey = ((key, decide (0 < after.remaining)), after) ∧ after.left = keys := by
  obtain ⟨after, next, rest⟩ := next_of_left_cons more
  refine ⟨after, ?_, rest⟩
  simp only [nextKey, next, Option.getD_some, remaining, Nat.sub_pos_iff_lt]

theorem left_collect (cursor : KeyCursor) : cursor.collect.2.left = [] := List.drop_length

theorem answers_of_left_nil (cancelled : Bool) (none : cursor.left = []) {calls : List Call}
    (asks : ∀ call ∈ calls, call = .next ∨ call = .nextItem) :
    cursor.answers cancelled calls =
      (calls.map fun call => if call = .next then .next "" false else .item .none, cursor) := by
  induction calls with
  | nil => rfl
  | cons call calls ih =>
      obtain ⟨first, others⟩ := List.forall_mem_cons.1 asks
      rcases first with rfl | rfl
      · simp only [answers, answer, nextKey_of_left_nil none, ih others, List.map_cons, if_true]
      · simp only [answers, answer, next_of_left_nil none, ih others, List.map_cons, reduceCtorEq, if_false]

end Calls

namespace Walk

variable {walk : Walk} {step : Step} {steps : List Step}

theorem take_close (walk : Walk) : (walk.take (.call .close)).cursor = ofKeys [] := rfl

theorem answer_close (walk : Walk) :
    ∃ result, walk.answer .close = (.closed result, ofKeys []) ∧
      (result = .error .cancelled ↔ walk.tokens.isCancelled walk.owner = true) ∧
      (result = .ok () ∨ result = .error .cancelled) := by
  simp only [answer, KeyCursor.answer, close]
  split
  · rename_i cancelled
    exact ⟨_, rfl, iff_of_true rfl cancelled, .inr rfl⟩
  · rename_i live
    exact ⟨_, rfl, iff_of_false nofun live, .inl rfl⟩

theorem given_close (walk : Walk) : walk.given (.call .close) = [] := ite_self []

theorem given_of_left_nil (none : walk.cursor.left = []) (step : Step) : walk.given step = [] := by
  cases step with
  | call call => rw [given, remaining_eq_zero.2 none, if_neg (Nat.lt_irrefl 0)]
  | cancel family => rfl

theorem given_append_left (stays : step ≠ .call .close) :
    walk.given step ++ (walk.take step).cursor.left = walk.cursor.left := by
  cases step with
  | cancel family => rfl
  | call call =>
      cases left : walk.cursor.left with
      | nil =>
          rw [given_of_left_nil left, List.nil_append]
          cases call with
          | next => simp only [take, answer, KeyCursor.answer, nextKey_of_left_nil left, left]
          | nextItem => simp only [take, answer, KeyCursor.answer, next_of_left_nil left, left]
          | collect => exact left_collect walk.cursor
          | close => exact absurd rfl stays
          | remaining | sizeHint | shown => exact left
      | cons key keys =>
          have some : 0 < walk.cursor.remaining := by
            rw [remaining_eq_length, left]
            exact Nat.succ_pos _
          rw [given, if_pos some]
          cases call with
          | next =>
              obtain ⟨after, next, rest⟩ := nextKey_of_left_cons left
              simp only [take, answer, KeyCursor.answer, next, Reply.handed, rest, List.singleton_append]
          | nextItem =>
              obtain ⟨after, next, rest⟩ := next_of_left_cons left
              simp only [take, answer, KeyCursor.answer, next, Reply.handed, rest, Option.toList_some,
                List.singleton_append]
          | collect =>
              have whole : walk.cursor.left ++ walk.cursor.collect.2.left = key :: keys := by
                rw [left_collect, List.append_nil, left]
              exact whole
          | close => exact absurd rfl stays
          | remaining | sizeHint | shown => exact left

theorem left_take_of_nil (none : walk.cursor.left = []) (step : Step) : (walk.take step).cursor.left = [] := by
  by_cases closes : step = .call .close
  · rw [closes]
    exact left_ofKeys []
  · have kept := @given_append_left walk step closes
    rw [none] at kept
    exact (List.append_eq_nil_iff.1 kept).2

theorem follow_cons (walk : Walk) (step : Step) (steps : List Step) :
    walk.follow (step :: steps) = (walk.take step).follow steps := rfl

theorem handedOut_append_left (stays : .call .close ∉ steps) :
    walk.handedOut steps ++ (walk.follow steps).cursor.left = walk.cursor.left := by
  induction steps generalizing walk with
  | nil => rfl
  | cons step steps ih =>
      obtain ⟨first, others⟩ := not_or.1 fun closed => stays (List.mem_cons.2 closed)
      rw [handedOut, follow_cons, List.append_assoc, ih others]
      exact given_append_left (Ne.symm first)

theorem handedOut_isPrefix (walk : Walk) (steps : List Step) : walk.handedOut steps <+: walk.cursor.left := by
  induction steps generalizing walk with
  | nil => exact List.nil_prefix
  | cons step steps ih =>
      have rest := ih (walk.take step)
      rw [handedOut]
      by_cases closes : step = .call .close
      · subst closes
        rw [take_close, left_ofKeys, List.prefix_nil] at rest
        rw [rest, given_close]
        exact List.nil_prefix
      · rw [← given_append_left closes]
        exact (List.prefix_append_right_inj _).2 rest

theorem left_follow_of_nil (none : walk.cursor.left = []) (steps : List Step) :
    (walk.follow steps).cursor.left = [] := by
  induction steps generalizing walk with
  | nil => exact none
  | cons step steps ih => exact ih (left_take_of_nil none step)

theorem left_follow_closed (closed : .call .close ∈ steps) : (walk.follow steps).cursor.left = [] := by
  induction steps generalizing walk with
  | nil => cases closed
  | cons step steps ih =>
      rcases List.mem_cons.1 closed with rfl | later
      · exact left_follow_of_nil (left_ofKeys []) steps
      · exact ih later

theorem owner_follow (walk : Walk) (steps : List Step) : (walk.follow steps).owner = walk.owner := by
  induction steps generalizing walk with
  | nil => rfl
  | cons step steps ih => cases step <;> exact ih _

theorem isCancelled_follow {family : Family} :
    (walk.follow steps).tokens.isCancelled family = true ↔
      walk.tokens.isCancelled family = true ∨ .cancel family ∈ steps := by
  induction steps generalizing walk with
  | nil => simp [follow]
  | cons step steps ih =>
      rw [follow_cons, ih, List.mem_cons]
      cases step with
      | call call => simp [take]
      | cancel other =>
          have raised : Cancellation.Step.raise other = .raise family ↔ Step.cancel family = .cancel other := by
            simp [eq_comm]
          simp only [take, Cancellation.State.cancel, Cancellation.State.isCancelled_act, reduceCtorEq, or_false,
            raised, or_assoc]

end Walk

structure Coming (walk : Walk) (keys : List String) : Prop where
  yields : walk.cursor.Yields keys
  hands_out : ∀ steps, walk.handedOut steps <+: keys
  next : ∃ more after, walk.answer .next = (.next (keys.headD "") more, after) ∧
    (more = true ↔ 0 < after.remaining)
  item : ∃ after, walk.answer .nextItem = (.item keys.head?, after)
  collect : ∃ after, walk.answer .collect = (.keys keys, after) ∧ after.remaining = 0
  remaining : walk.answer .remaining = (.remaining keys.length, walk.cursor)
  sizeHint : walk.answer .sizeHint = (.sizeHint keys.length keys.length, walk.cursor)

theorem coming_left (walk : Walk) : Coming walk walk.cursor.left where
  yields := yields_left rfl
  hands_out := walk.handedOut_isPrefix
  next := by
    simp only [Walk.answer, answer]
    cases left : walk.cursor.left with
    | nil =>
        rw [nextKey_of_left_nil left]
        exact ⟨_, _, rfl, by simp [remaining_eq_zero.2 left]⟩
    | cons key keys =>
        obtain ⟨after, next, -⟩ := nextKey_of_left_cons left
        rw [next]
        exact ⟨_, _, rfl, decide_eq_true_iff⟩
  item := by
    simp only [Walk.answer, answer]
    cases left : walk.cursor.left with
    | nil =>
        rw [next_of_left_nil left]
        exact ⟨_, rfl⟩
    | cons key keys =>
        obtain ⟨after, next, -⟩ := next_of_left_cons left
        rw [next]
        exact ⟨_, rfl⟩
  collect := ⟨_, rfl, remaining_eq_zero.2 (left_collect walk.cursor)⟩
  remaining := by rw [← remaining_eq_length]; rfl
  sizeHint := by rw [← remaining_eq_length]; rfl

structure OneWay (keys : List String) (owner : Family) (tokens : Cancellation.State) (steps : List Step)
    (handed : List String) (walk : Walk) : Prop where
  in_order : handed <+: keys
  /-- Every position has been handed out once or is still to come. -/
  each_once : .call .close ∉ steps → ∃ coming, Coming walk coming ∧ handed ++ coming = keys
  closed : .call .close ∈ steps → Coming walk []
  spent : walk.cursor.remaining = 0 → ∀ cancelled calls, (∀ call ∈ calls, call = .next ∨ call = .nextItem) →
    walk.cursor.answers cancelled calls =
      (calls.map fun call => if call = .next then .next "" false else .item none, walk.cursor)
  closes : ∃ result, walk.answer .close = (.closed result, ofKeys []) ∧
    (result = .error .cancelled ↔ tokens.isCancelled owner = true ∨ .cancel owner ∈ steps) ∧
    (result = .ok () ∨ result = .error .cancelled)

/-- The keys that are handed out are the first ones of the listing, in order and each once, whatever is called and
whether or not the token is cancelled. -/
theorem one_way (keys : List String) (owner : Family) (tokens : Cancellation.State) (steps : List Step) :
    OneWay keys owner tokens steps ((Walk.start keys owner tokens).handedOut steps)
      ((Walk.start keys owner tokens).follow steps) where
  in_order := Walk.handedOut_isPrefix _ steps
  each_once stays := ⟨_, coming_left _, Walk.handedOut_append_left stays⟩
  closed closed := by
    rw [← Walk.left_follow_closed closed]
    exact coming_left _
  spent none cancelled calls asks := answers_of_left_nil cancelled (remaining_eq_zero.1 none) asks
  closes := by
    obtain ⟨result, closes, cancelled, other⟩ := ((Walk.start keys owner tokens).follow steps).answer_close
    rw [Walk.owner_follow, Walk.isCancelled_follow] at cancelled
    exact ⟨result, closes, cancelled, other⟩

example : (Walk.start ["a", "", "a"] 0 .initial).handedOut [.call .next, .cancel 0, .call .collect, .call .next] =
    ["a", "", "a"] := rfl

end SecretStore.KeyCursor
