import GatewayPoc.Core.Decimal
import GatewayPoc.Core.Machine

/-!
# Accepting connections

`gwfront/src/http/server.cpp`: `HttpServer` keeps one `async_accept` outstanding; its completion
handler `onAccept` makes a session and calls `accept` again.  The constructor of the session asks
for the remote endpoint, which throws if the peer has gone; nothing catches the exception on its way
out of the `ioContext_.run()` of the worker.

* `HttpServer.machine` : the completions of `async_accept`, in order, and `stop`.
* `HttpServer.outstanding_le_one` : there is never more than one `async_accept` outstanding.
* `HttpServer.accepting_iff` : before `stop`, the server is still accepting exactly if every
  completion was a success with a live peer.  `stops_accepting` has the two other completions.
-/

namespace GatewayPoc

/-- `boost::asio::ip::tcp::endpoint`. -/
structure Endpoint where
  address : Bytes
  port : UInt16
  deriving DecidableEq, Repr

/-- How an `async_accept` completes. -/
inductive Completion where
  /-- With an error code. -/
  | failed (message : Bytes)
  /-- With a socket; `none` if its peer has gone, so that `remote_endpoint()` throws. -/
  | accepted (peer : Option Endpoint)
  deriving DecidableEq, Repr

/-- A success with a live peer. -/
def Completion.isLive : Completion → Bool
  | .accepted (some _) => true
  | _ => false

/-- `HttpServer`. -/
structure HttpServer where
  stopping : Bool
  /-- The `async_accept` operations outstanding. -/
  outstanding : ℕ
  /-- An exception has escaped `ioContext_.run()` of a worker. -/
  escaped : Bool
  /-- The sessions made, by their endpoints. -/
  sessions : List Endpoint
  /-- The completions so far. -/
  completions : List Completion
  deriving DecidableEq, Repr

namespace HttpServer

/-- `HttpServer::accept`. -/
def accept (s : HttpServer) : HttpServer := { s with outstanding := s.outstanding + 1 }

/-- `HttpServer::start`. -/
def start : HttpServer := accept ⟨false, 0, false, [], []⟩

/-- `HttpServer::onAccept`. -/
def onAccept (s : HttpServer) : Completion → HttpServer
  -- the error is logged, and the handler returns without `accept`
  | .failed _ => s
  -- `HttpSession` asks for the remote endpoint in its constructor
  | .accepted none => { s with escaped := true }
  | .accepted (some peer) =>
    let s := { s with sessions := s.sessions ++ [peer] }
    if s.stopping then s else s.accept

/-- What happens to the server. -/
inductive Event where
  /-- An outstanding `async_accept` completes and its handler runs. -/
  | complete (completion : Completion)
  | stop
  deriving DecidableEq, Repr

/-- The state an event leads to.  An exception that escapes a worker ends the process. -/
def next (s : HttpServer) : Event → Option HttpServer
  | .complete completion =>
    if s.escaped = false ∧ 0 < s.outstanding then
      some (onAccept { s with
        outstanding := s.outstanding - 1
        completions := s.completions ++ [completion] } completion)
    else none
  | .stop => if s.escaped = false then some { s with stopping := true } else none

/-- The server as a state machine. -/
def machine : Machine HttpServer Event where
  init s := s = start
  next := next

/-- No exception has escaped, and exactly one `async_accept` is outstanding. -/
def Accepting (s : HttpServer) : Prop := s.escaped = false ∧ s.outstanding = 1

instance (s : HttpServer) : Decidable s.Accepting := inferInstanceAs (Decidable (_ ∧ _))

/-- `stop` is not called. -/
def BeforeStop (_ : HttpServer) (e : Event) : Prop := e ≠ .stop

instance (s : HttpServer) (e : Event) : Decidable (s.BeforeStop e) :=
  inferInstanceAs (Decidable (e ≠ _))

variable {s s' : HttpServer} {e : Event}

theorem onAccept_outstanding (s : HttpServer) (completion : Completion) :
    (s.onAccept completion).outstanding ≤ s.outstanding + 1 := by
  cases completion with
  | failed message => simp [onAccept]
  | accepted peer =>
    cases peer with
    | none => simp [onAccept]
    | some peer =>
      simp only [onAccept]
      split_ifs
      · exact Nat.le_succ _
      · exact Nat.le_refl _

/-- There is never more than one `async_accept` outstanding. -/
theorem outstanding_le_one {G : HttpServer → Event → Prop} (h : machine.Reachable G s) :
    s.outstanding ≤ 1 := by
  refine h.invariant (I := fun s => s.outstanding ≤ 1) ?_ ?_
  · rintro _ rfl
    exact Nat.le_refl 1
  · intro s e s' _ hle _ hn
    change s.next e = some s' at hn
    cases e with
    | complete completion =>
      simp only [next] at hn
      split_ifs at hn with hpos
      obtain rfl := Option.some.inj hn
      refine (onAccept_outstanding _ _).trans ?_
      simp only
      omega
    | stop =>
      simp only [next] at hn
      split_ifs at hn
      obtain rfl := Option.some.inj hn
      exact hle

/-- Before `stop`, either every completion was live and the server accepts, or one was not and
nothing can complete any more. -/
structure Inv (s : HttpServer) : Prop where
  running : s.stopping = false
  state : ((∀ c ∈ s.completions, c.isLive = true) ∧ s.Accepting) ∨
    ((∃ c ∈ s.completions, c.isLive = false) ∧ (s.escaped = true ∨ s.outstanding = 0))

theorem Inv.complete {completion : Completion} (h : s.Inv)
    (hn : s.next (.complete completion) = some s') : s'.Inv := by
  simp only [next] at hn
  split_ifs at hn with hpos
  obtain rfl := Option.some.inj hn
  have hrunning := h.running
  rcases h.state with ⟨hlive, -, hone⟩ | ⟨-, hescaped | hzero⟩
  · cases completion with
    | failed message =>
      have hlast : Completion.failed message ∈ s.completions ++ [.failed message] := by simp
      exact ⟨hrunning, Or.inr ⟨⟨_, hlast, rfl⟩, Or.inr (by simp [onAccept, hone])⟩⟩
    | accepted peer =>
      cases peer with
      | none =>
        have hlast : Completion.accepted none ∈ s.completions ++ [.accepted none] := by simp
        exact ⟨hrunning, Or.inr ⟨⟨_, hlast, rfl⟩, Or.inl rfl⟩⟩
      | some peer =>
        have hall : ∀ c ∈ s.completions ++ [.accepted (some peer)], c.isLive = true := by
          intro c hc
          rcases List.mem_append.1 hc with hc | hc
          · exact hlive c hc
          · rw [List.mem_singleton.1 hc]
            rfl
        -- the handler re-arms itself
        have hnext : onAccept { s with
            outstanding := s.outstanding - 1
            completions := s.completions ++ [.accepted (some peer)] } (.accepted (some peer)) =
            { s with
              outstanding := s.outstanding - 1 + 1
              sessions := s.sessions ++ [peer]
              completions := s.completions ++ [.accepted (some peer)] } := by
          simp [onAccept, accept, hrunning]
        rw [hnext]
        exact ⟨hrunning, Or.inl ⟨hall, hpos.1, by simp [hone]⟩⟩
  -- once it stopped accepting, no completion can run
  · rw [hescaped] at hpos
    exact absurd hpos.1 (by simp)
  · exact absurd hpos.2 (by omega)

theorem inv_of_reachable (h : machine.Reachable BeforeStop s) : s.Inv := by
  refine h.invariant ?_ ?_
  · rintro _ rfl
    exact ⟨rfl, Or.inl ⟨by simp [start, accept], rfl, rfl⟩⟩
  · intro s e s' _ hs hg hn
    cases e with
    | complete completion => exact hs.complete hn
    | stop => exact absurd rfl hg

/-- **The server keeps accepting**, in every run before `stop`, exactly as long as every completion
is a success with a live peer. -/
theorem accepting_iff (h : machine.Reachable BeforeStop s) :
    s.Accepting ↔ ∀ c ∈ s.completions, c.isLive = true := by
  rcases (inv_of_reachable h).state with ⟨hlive, hacc⟩ | ⟨⟨c, hc, hdead⟩, hbad⟩
  · exact ⟨fun _ => hlive, fun _ => hacc⟩
  · constructor
    · rintro ⟨hescaped, hone⟩
      rcases hbad with hbad | hbad
      · rw [hescaped] at hbad
        cases hbad
      · omega
    · intro hlive
      rw [hlive c hc] at hdead
      cases hdead

/-- Two clients. -/
theorem accepting_iff_sample : ∃ s : HttpServer, s.completions.length = 2 ∧
    (s.Accepting ↔ ∀ c ∈ s.completions, c.isLive = true) := by
  let run : List Event := [.complete (.accepted (some ⟨[49], 80⟩)),
    .complete (.accepted (some ⟨[50], 81⟩))]
  obtain ⟨s, hr, hlen⟩ := Machine.exists_of_runIf (M := machine) (G := BeforeStop)
    (P := fun s => s.completions.length = 2) rfl run (by decide)
  exact ⟨s, hlen, accepting_iff hr⟩

/-- After an `async_accept` that failed none is outstanding; a peer that has gone lets an exception
escape the worker. -/
theorem stops_accepting :
    (∃ s, machine.Reachable BeforeStop s ∧ s.outstanding = 0) ∧
      ∃ s, machine.Reachable BeforeStop s ∧ s.escaped = true := by
  refine ⟨?_, ?_⟩
  · exact Machine.exists_of_runIf (M := machine) (G := BeforeStop) (P := fun s => s.outstanding = 0)
      rfl [.complete (.failed [])] (by decide)
  · exact Machine.exists_of_runIf (M := machine) (G := BeforeStop) (P := fun s => s.escaped = true)
      rfl [.complete (.accepted none)] (by decide)

end HttpServer

end GatewayPoc
