import Mathlib.Logic.Relation
import Mathlib.Tactic.Common

namespace BozOS.Data

/-! Programs that make calls of a server which others use too. Before each call the
others may have changed the server's state, so a program is right when it is
right after every such change. -/

/-- `stuck` ends a loop whose fuel has run out. -/
inductive Client (Call Answer Result : Type) where
  | done (result : Result)
  | call (request : Call) (resume : Answer → Client Call Answer Result)
  | stuck

/-- What one call does, what the others may do, and when it is the client's turn. -/
structure Server (State Call Answer : Type) where
  serves : State → Call → Answer → State → Prop
  others : State → State → Prop
  turn : State → Prop

variable {State Call Answer Result Next Loop : Type}

namespace Client

def bind : Client Call Answer Result → (Result → Client Call Answer Next) → Client Call Answer Next
  | done result, next => next result
  | call request resume, next => call request fun answer => (resume answer).bind next
  | stuck, _ => stuck

instance : Monad (Client Call Answer) where
  pure := done
  bind := bind

def request (c : Call) : Client Call Answer Answer := call c done

/-- A loop whose body goes round again with a new value of its locals, or ends
with a result. -/
def loop (body : Loop → Client Call Answer (Loop ⊕ Result)) : Nat → Loop → Client Call Answer Result
  | 0, _ => stuck
  | fuel + 1, locals => (body locals).bind fun
      | .inl locals => loop body fuel locals
      | .inr result => done result

variable {server : Server State Call Answer} {client : Client Call Answer Result} {state middle after : State}

@[simp] theorem bind_eq {next : Result → Client Call Answer Next} : client >>= next = client.bind next := rfl

@[simp] theorem pure_eq {result : Result} : (pure result : Client Call Answer Result) = done result := rfl

/-- The same program where its calls are some of those of a larger server. -/
def translate {Other : Type} (into : Call → Other) : Client Call Answer Result → Client Other Answer Result
  | done result => done result
  | call c resume => call (into c) fun answer => (resume answer).translate into
  | stuck => stuck

/-- What the others do before a call, and the call. -/
inductive Step (server : Server State Call Answer) :
    Client Call Answer Result × State → Client Call Answer Result × State → Prop where
  | call {c : Call} {resume : Answer → Client Call Answer Result} {answer : Answer} {state middle after : State}
      (waited : Relation.ReflTransGen server.others state middle) (turn : server.turn middle)
      (served : server.serves middle c answer after) : Step server (.call c resume, state) (resume answer, after)

/-- From `state` on the client only makes calls that are answered, and it ends, with
`post` of its result. -/
def Meets (server : Server State Call Answer) :
    Client Call Answer Result → (Result → State → Prop) → State → Prop
  | done result, post, state => post result state
  | call c resume, post, state => ∀ middle, Relation.ReflTransGen server.others state middle → server.turn middle →
      (∃ answer after, server.serves middle c answer after) ∧
        ∀ answer after, server.serves middle c answer after → (resume answer).Meets server post after
  | stuck, _, _ => False

variable {post : Result → State → Prop}

theorem Meets.mono {weaker : Result → State → Prop} (meets : client.Meets server post state)
    (implies : ∀ result state, post result state → weaker result state) : client.Meets server weaker state := by
  induction client generalizing state with
  | done result => exact implies result state meets
  | call c resume ih =>
      intro middle waited turn
      obtain ⟨answered, later⟩ := meets middle waited turn
      exact ⟨answered, fun answer after served => ih answer (later answer after served)⟩
  | stuck => exact meets

theorem Meets.bind {next : Result → Client Call Answer Next} {post : Next → State → Prop}
    (meets : client.Meets server (fun result state => (next result).Meets server post state) state) :
    (client.bind next).Meets server post state := by
  induction client generalizing state with
  | done result => exact meets
  | call c resume ih =>
      intro middle waited turn
      obtain ⟨answered, later⟩ := meets middle waited turn
      exact ⟨answered, fun answer after served => ih answer (later answer after served)⟩
  | stuck => exact meets

/-- What the others keep still holds when the client's turn comes. -/
theorem kept_of_waited {kept : State → Prop}
    (stable : ∀ state after, kept state → server.others state after → kept after)
    (waited : Relation.ReflTransGen server.others state after) (holds : kept state) : kept after := by
  induction waited with
  | refl => exact holds
  | tail _ last ih => exact stable _ _ ih last

/-- The rule of a call: all that is known of the state is what the others keep. -/
theorem Meets.request {kept : State → Prop} {c : Call} {resume : Answer → Client Call Answer Result}
    (stable : ∀ state after, kept state → server.others state after → kept after) (holds : kept state)
    (answered : ∀ state, kept state → server.turn state → ∃ answer after, server.serves state c answer after)
    (later : ∀ state answer after, kept state → server.turn state → server.serves state c answer after →
      (resume answer).Meets server post after) : (Client.call c resume).Meets server post state := by
  intro middle waited turn
  have holds := kept_of_waited stable waited holds
  exact ⟨answered middle holds turn, fun answer after served => later middle answer after holds turn served⟩

/-- The rule of a loop: each round of its body leaves fewer of them to go. -/
theorem Meets.loop {body : Loop → Client Call Answer (Loop ⊕ Result)} {fuel left : Nat} {locals : Loop}
    (invariant : Nat → Loop → State → Prop)
    (round : ∀ left locals state, invariant left locals state → (body locals).Meets server (fun outcome after =>
      match outcome with
      | .inl again => ∃ fewer < left, invariant fewer again after
      | .inr result => post result after) state)
    (holds : invariant left locals state) (enough : left < fuel) :
    (loop body fuel locals).Meets server post state := by
  induction fuel generalizing left locals state with
  | zero => exact absurd enough (Nat.not_lt_zero _)
  | succ fuel ih =>
      refine Meets.bind ((round left locals state holds).mono fun outcome after reached => ?_)
      cases outcome with
      | inl again =>
          obtain ⟨fewer, smaller, holds⟩ := reached
          exact ih holds (by omega)
      | inr result => exact reached

theorem Meets.step {start next : Client Call Answer Result × State} (meets : start.1.Meets server post start.2)
    (step : Step server start next) : next.1.Meets server post next.2 := by
  cases step with
  | call waited turn served => exact (meets _ waited turn).2 _ _ served

/-- A client that meets its specification does so in every run. -/
theorem Meets.run {start last : Client Call Answer Result × State} (meets : start.1.Meets server post start.2)
    (run : Relation.ReflTransGen (Step server) start last) : last.1.Meets server post last.2 := by
  induction run with
  | refl => exact meets
  | tail _ step ih => exact ih.step step

/-- What a run of a client shows at any time. -/
structure Safe (server : Server State Call Answer) (post : Result → State → Prop)
    (client : Client Call Answer Result) (state : State) : Prop where
  moving : client ≠ .stuck
  result : ∀ result, client = .done result → post result state
  answered : ∀ c resume middle, client = .call c resume → Relation.ReflTransGen server.others state middle →
    server.turn middle → ∃ answer after, server.serves middle c answer after

theorem Meets.safe (meets : client.Meets server post state) : Safe server post client state := by
  cases client with
  | done result => exact ⟨nofun, fun given same => (by cases same; exact meets), nofun⟩
  | call c resume =>
      refine ⟨nofun, nofun, fun given next middle same waited turn => ?_⟩
      cases same
      exact (meets middle waited turn).1
  | stuck => exact meets.elim

end Client

end BozOS.Data
