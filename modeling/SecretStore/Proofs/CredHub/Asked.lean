import Mathlib.Data.List.Infix
import SecretStore.CredHub.Client
import SecretStore.Proofs.Http.Program

namespace SecretStore

namespace Http

def Network.recording (redirects : Redirects) (answer : List Sent → Sent → Option Received) :
    Network (List Sent) where
  exchange sent asked := (answer asked sent, asked ++ [sent])
  redirects := redirects

theorem fetchWithin_asks (redirects : Redirects) (answer : List Sent → Sent → Option Received) (left : Nat)
    (sent : Sent) (asked : List Sent) :
    ∃ more, (fetchWithin (.recording redirects answer) left sent asked).2 = asked ++ sent :: more := by
  induction left generalizing sent asked with
  | zero =>
      rw [fetchWithin.eq_def]
      simp only [Network.recording]
      cases answer asked sent with
      | none => exact ⟨[], rfl⟩
      | some received =>
          dsimp only
          cases redirects.next? sent received <;> exact ⟨[], rfl⟩
  | succ left ih =>
      rw [fetchWithin.eq_def]
      simp only [Network.recording]
      cases answer asked sent with
      | none => exact ⟨[], rfl⟩
      | some received =>
          dsimp only
          cases redirects.next? sent received with
          | none => exact ⟨[], rfl⟩
          | some next =>
              dsimp only
              split
              · obtain ⟨more, asks⟩ := ih next (asked ++ [sent])
                exact ⟨next :: more, by rw [Network.recording] at asks; rw [asks]; simp⟩
              · exact ⟨[], rfl⟩

end Http

namespace CredHub

open Http

namespace Client

variable {α : Type} (client : Client) (redirects : Redirects) (answer : List Sent → Sent → Option Received)
  (token : Token)

def asked (program : Program α) : List Sent :=
  (Program.run (client.host (.recording redirects answer)) token program { network := [] }).2.network

theorem receive_awake {token : Token} (network : Network (List Sent)) (request : Request)
    {world : World (List Sent)}
    (awake : world.isCancelled token = false) :
    ∃ result after, client.receive network token request world = some (result, after) ∧
      after.network = (client.ask network request world.network).2 ∧
      ∀ fault, (client.ask network request world.network).1 = .error fault →
        result = .error (.transport fault) := by
  simp only [receive, awake, Bool.false_eq_true, ↓reduceIte]
  cases asks : client.ask network request world.network with
  | mk answered left =>
      cases answered with
      | error fault =>
          refine ⟨_, _, rfl, rfl, ?_⟩
          rintro fault' same
          cases same
          rfl
      | ok received =>
          refine ⟨_, _, rfl, rfl, ?_⟩
          rintro fault same
          cases same

theorem ask_sent {request : Request} {sent : Sent} (asked : List Sent)
    (made : Sent.ofText request.method (client.addressOf request) request.body = .ok sent) :
    ∃ more, (client.ask (.recording redirects answer) request asked).2 = asked ++ sent :: more := by
  simp only [ask, made]
  exact fetchWithin_asks redirects answer redirects.limit sent asked

theorem ask_refused {client : Client} {request : Request} {fault : Transport} (network : Network (List Sent))
    (asked : List Sent)
    (made : Sent.ofText request.method (client.addressOf request) request.body = .error fault) :
    client.ask network request asked = (.error fault, asked) := by
  simp only [ask, made]

theorem ask_grows (request : Request) (asked : List Sent) :
    asked <+: (client.ask (.recording redirects answer) request asked).2 := by
  cases made : Sent.ofText request.method (client.addressOf request) request.body with
  | error fault =>
      rw [ask_refused _ _ made]
  | ok sent =>
      obtain ⟨more, asks⟩ := ask_sent client redirects answer asked made
      rw [asks]
      exact List.prefix_append _ _

theorem receive_grows {client : Client} {redirects : Redirects}
    {answer : List Sent → Sent → Option Received} {token : Token} {request : Request} {world after : World (List Sent)}
    {result : Except Failure Response}
    (received : client.receive (.recording redirects answer) token request world = some (result, after)) :
    world.network <+: after.network := by
  cases awake : world.isCancelled token with
  | true =>
      simp only [receive, awake, ↓reduceIte, Option.some.injEq, Prod.mk.injEq] at received
      rw [received.2]
  | false =>
      obtain ⟨result', after', same, network, -⟩ :=
        receive_awake client (.recording redirects answer) request awake
      rw [same] at received
      cases received
      rw [network]
      exact ask_grows client redirects answer request world.network

theorem run_grows (program : Program α) (world : World (List Sent)) :
    world.network <+: (Program.run (client.host (.recording redirects answer)) token program world).2.network := by
  refine Program.run_keeps (fun later : World (List Sent) => world.network <+: later.network)
    ?logs ?sends ?receives program List.prefix_rfl
  case logs => exact fun line later grown => grown
  case sends =>
      intro request later grown
      simp only [host, send]
      split <;> exact grown
  case receives => exact fun request later result after received grown => grown.trans (receive_grows received)

/-- What is asked first by a program that stops when its request fails. -/
theorem head?_asked {token : Token} {request : Request} {next : Except Failure Response → Program α}
    {world : World (List Sent)} (awake : world.isCancelled token = false) (fresh : world.network = [])
    (stops : ∀ failure, ∃ value, next (.error failure) = .done value) :
    (Program.run (client.host (.recording redirects answer)) token (.send request next) world).2.network.head? =
      (Sent.ofText request.method (client.addressOf request) request.body).toOption := by
  have still : (world.log (client.requestLine request)).isCancelled token = false := awake
  obtain ⟨result, after, received, network, refused⟩ :=
    receive_awake client (.recording redirects answer) request still
  have ran : Program.run (client.host (.recording redirects answer)) token (.send request next) world =
      Program.run (client.host (.recording redirects answer)) token (next result) after := by
    simp only [Program.run, host, send, awake, Bool.false_eq_true, ↓reduceIte, received]
  change after.network = (client.ask (.recording redirects answer) request world.network).2 at network
  rw [fresh] at network
  rw [ran]
  cases made : Sent.ofText request.method (client.addressOf request) request.body with
  | ok sent =>
      obtain ⟨more, asks⟩ := ask_sent client redirects answer [] made
      obtain ⟨rest, same⟩ := run_grows client redirects answer token (next result) after
      rw [← same, network, asks]
      rfl
  | error fault =>
      have given := ask_refused (.recording redirects answer) world.network made
      have failed : result = .error (.transport fault) := refused fault (congrArg Prod.fst given)
      obtain ⟨value, done⟩ := stops (.transport fault)
      rw [fresh] at given
      rw [failed, done, Program.run, network, given]
      rfl

end Client

end CredHub

end SecretStore
