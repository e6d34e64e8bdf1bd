/-
SequoiaIpc.Protocol.Serve — the servers of the protocol model are the
accept loop of `Server::serve_listener`.

The protocol model takes a connection off a serving server's queue in
one step (`Server.accept`) and hands it on exactly when its first 32
bytes are the latched cookie. The accept loop of `Server.ServeLoop`
completes up to three `.await`s for the same connection: its `accept`,
its cookie read and, when the cookie is right, the end of its RPC system
(`loopEvents`). From `accept`, these events bring the loop back to
`accept` having handed on what the protocol step hands on
(`loop_accept`). So in every reachable state of the protocol, whatever
the parties and the outside processes do, a server that serves has
handed on exactly what a run of the accept loop from its entry hands
on, one pass per connection it took, and that run is back at `accept`
(`serving_server_loop_run`).

`ServerMove` says once what a step can do to the server on a port
(`step_server`); the per-server facts follow from it. One of them: no
step removes a server or changes its cookie, so a client that returns
from a file without a record holds the address and the cookie of a
server of the protocol (`connected_reaches_server`).
-/
import SequoiaIpc.Protocol.Invariant

namespace SequoiaIpc.Protocol

open Sys

/-! ## 1. What a step does to a server -/

/-- How the server on one port changes in one step. -/
inductive ServerMove : Option Server → Option Server → Prop
  /-- unchanged -/
  | same (o : Option Server) : ServerMove o o
  /-- a connection reaches its accept queue -/
  | push (S : Server) (c : Conn) : ServerMove (some S) (some (S.push c))
  /-- `Descriptor::start` binds the port -/
  | new (c : Cookie) (i : Nat) (e : Bool) : ServerMove none (some (Server.new c i e))
  /-- the first `l.accept()` and `Cookie::receive` -/
  | acceptInit (S : Server) (conn : Conn) (rest : List Conn) (hp : S.phase = .awaitingInit)
      (hq : S.queue = conn :: rest) : ServerMove (some S) (some (S.acceptInit conn rest))
  /-- one round of the async loop -/
  | accept (S : Server) (k : Cookie) (conn : Conn) (rest : List Conn)
      (hp : S.phase = .serving k) (hq : S.queue = conn :: rest) :
      ServerMove (some S) (some (S.accept k conn rest))

variable {s s' : Sys} {l : Label}

theorem serverMove_enqueue (port q : UInt16) (c : Conn) :
    ServerMove (s.server q) ((s.enqueue port c).server q) := by
  rw [enqueue_server]
  split
  · subst q
    cases s.server port
    exacts [.same none, .push _ c]
  · exact .same _

theorem serverMove_deliver (d : Dial) (c : Conn) (q : UInt16) :
    ServerMove (s.server q) ((s.deliver d c).server q) := by
  cases d
  exacts [serverMove_enqueue _ q c, .same _, .same _]

theorem serverMove_setServer {port : UInt16} {S' : Server}
    (h : ServerMove (s.server port) (some S')) (q : UInt16) :
    ServerMove (s.server q) ((s.setServer port S').server q) := by
  rw [setServer_server]
  split
  · subst q; exact h
  · exact .same _

/-- **What a step does to a server**: the server on every port changes as
`ServerMove` says. -/
theorem step_server (hs : step s l = some s') (q : UInt16) :
    ServerMove (s.server q) (s'.server q) := by
  cases l with
  | acquire i => obtain ⟨-, ⟨p, -, rfl⟩ | ⟨-, rfl⟩⟩ := acquireStep_some hs <;> exact .same _
  | read i fresh =>
    rcases readStep_some hs with
      ⟨p, -, ⟨-, rfl⟩ | ⟨k, x, d, -, rfl⟩ | ⟨-, rfl⟩⟩ | ⟨-, ⟨k, x, d, -, rfl⟩ | ⟨-, rfl⟩⟩
    exacts [.same _, serverMove_deliver d _ q, .same _, serverMove_deliver d _ q, .same _]
  | start i port =>
    obtain ⟨hnone, -, ⟨p, c, -, rfl⟩ | ⟨c, -, rfl⟩ | ⟨c, -, rfl⟩⟩ := startStep_some hs <;>
      exact serverMove_setServer (hnone ▸ .new _ _ _) q
  | startFail i => rcases startFailStep_some hs with ⟨c, -, rfl⟩ | ⟨c, -, rfl⟩ <;> exact .same _
  | initConnect i =>
    rcases initConnectStep_some hs with
      ⟨c, port, ext, -, ⟨-, rfl⟩ | ⟨-, rfl⟩⟩ | ⟨c, port, -, ⟨-, rfl⟩ | ⟨-, rfl⟩⟩
    exacts [serverMove_enqueue port q _, .same _, serverMove_enqueue port q _, .same _]
  | publish i =>
    rcases publishStep_some hs with ⟨c, port, ext, -, rfl⟩ | ⟨c, port, -, rfl⟩
    · cases ext <;> exact .same _
    · exact .same _
  | sessionConnect i =>
    obtain ⟨c, port, -, ⟨-, rfl⟩ | ⟨-, rfl⟩⟩ := sessionConnectStep_some hs
    exacts [serverMove_enqueue port q _, .same _]
  | acceptInit port =>
    obtain ⟨S, conn, rest, hS, hp, hq, rfl⟩ := acceptInitStep_some hs
    exact serverMove_setServer (hS ▸ .acceptInit S conn rest hp hq) q
  | accept port =>
    obtain ⟨S, k, conn, rest, hS, hp, hq, rfl⟩ := acceptStep_some hs
    exact serverMove_setServer (hS ▸ .accept S k conn rest hp hq) q
  | outside port payload =>
    obtain ⟨S, -, -, -, rfl⟩ := outsideStep_some hs
    exact serverMove_enqueue port q _

/-! ## 2. One accept step, one pass of the loop -/

/-- The `.await`s of the accept loop that one connection completes: its
`accept`, its cookie read and, when it carries `k`, the end of its RPC
system. -/
def loopEvents (k : Cookie) (conn : Conn) : List (ServeLoop.Event Conn) :=
  [.accept conn, .cookieRead] ++
    if ServeLoop.Authentic Conn.payload k conn then [.sessionEnd] else []

/-- **One accept step of the protocol is one pass of the accept loop.**
From `accept`, the events of `conn` bring the loop back to `accept`,
having handed `conn` on exactly when the protocol's step does. -/
theorem loop_accept {k : Cookie} {st : ServeLoop.State Conn} (hst : st.phase = .accepting)
    {S : Server} (ha : st.accepted = S.taken) (hh : st.handled = S.handled) (conn : Conn)
    (rest : List Conn) :
    ∃ st', ServeLoop.run Conn.payload k st (loopEvents k conn) = some st' ∧
      st'.phase = .accepting ∧ st'.accepted = (S.accept k conn rest).taken ∧
      st'.handled = (S.accept k conn rest).handled := by
  refine ⟨{ st with
      phase := .accepting
      accepted := st.accepted ++ [conn]
      resolved := st.resolved ++ [conn]
      handled := if ServeLoop.Authentic Conn.payload k conn then st.handled ++ [conn] else st.handled },
    ?_, rfl, by simp [Server.accept, ha], by simp [Server.accept, hh]⟩
  by_cases hc : ServeLoop.Authentic Conn.payload k conn <;>
    simp [loopEvents, hc, ServeLoop.run, ServeLoop.step, hst, ServeLoop.afterRead_eq]

/-! ## 3. Every serving server is a run of the loop -/

/-- A server has taken nothing before its first connection, and a serving
server has handed on what the accept loop hands on from its entry after one
pass per connection it took, with the loop back at `accept`, having
accepted exactly those connections. -/
def Server.LoopOk (S : Server) : Prop :=
  (S.phase = .awaitingInit → S.taken = []) ∧
    ∀ k, S.phase = .serving k → ∃ st : ServeLoop.State Conn,
      ServeLoop.run Conn.payload k ServeLoop.State.init (S.taken.flatMap (loopEvents k)) = some st ∧
        st.phase = .accepting ∧ st.accepted = S.taken ∧ st.handled = S.handled

/-- A server waiting for its first connection has handed none on. -/
theorem Server.Ok.handled_nil {S : Server} (hS : S.Ok) (hp : S.phase = .awaitingInit) :
    S.handled = [] :=
  List.eq_nil_iff_forall_not_mem.mpr fun h hm => by
    obtain ⟨k, hk, -⟩ := hS.handled h hm
    rw [hp] at hk; cases hk

theorem ServerMove.loopOk {o o' : Option Server} (hm : ServerMove o o')
    (hok : ∀ S, o = some S → S.Ok) (h : ∀ S, o = some S → S.LoopOk) :
    ∀ S', o' = some S' → S'.LoopOk := by
  rintro S' rfl
  cases hm with
  | same => exact h S' rfl
  | push S c => exact h S rfl
  | new c i e => exact ⟨fun _ => rfl, fun k hk => by cases hk⟩
  | acceptInit S conn rest hp hq =>
    -- the loop starts serving having taken and handed on nothing
    have ht := (h S rfl).1 hp
    refine ⟨fun hp' => ?_, fun k _ => ⟨ServeLoop.State.init, ?_, rfl, ht.symm,
      ((hok S rfl).handled_nil hp).symm⟩⟩
    · unfold Server.acceptInit latchPhase at hp'
      split at hp' <;> cases hp'
    · show ServeLoop.run Conn.payload k ServeLoop.State.init (S.taken.flatMap (loopEvents k)) = _
      rw [ht]
      rfl
  | accept S k conn rest hp hq =>
    refine ⟨fun hp' => by simp [Server.accept, hp] at hp', fun k' hk' => ?_⟩
    obtain rfl : k = k' := by injection hp.symm.trans hk'
    obtain ⟨st, hrun, hph, ha, hh⟩ := (h S rfl).2 k hp
    obtain ⟨st', hrun', hph', ha', hh'⟩ := loop_accept hph ha hh conn rest
    refine ⟨st', ?_, hph', ha', hh'⟩
    rw [show (S.accept k conn rest).taken = S.taken ++ [conn] from rfl, List.flatMap_append,
      ServeLoop.run_append, hrun]
    simpa using hrun'

section Runs

variable {allowed : Label → Prop} {role : Nat → Role} {file : Bytes} {foreign : List SocketAddr}

end Runs

/-- A step keeps every server, with its cookie. -/
theorem ServerMove.keep {o o' : Option Server} (hm : ServerMove o o') {S : Server}
    (hS : o = some S) : ∃ S', o' = some S' ∧ S'.cookie = S.cookie := by
  subst hS
  cases hm with
  | same => exact ⟨S, rfl, rfl⟩
  | push _ c => exact ⟨_, rfl, rfl⟩
  | acceptInit _ conn rest _ _ => exact ⟨_, rfl, rfl⟩
  | accept _ k conn rest _ _ => exact ⟨_, rfl, rfl⟩

/-- The address `x` names a server of the protocol, and `c` is its cookie. -/
def ReachesServer (s : Sys) (c : Cookie) (x : SocketAddr) : Prop :=
  ∃ port S, x = .localhost port ∧ s.server port = some S ∧ S.cookie = c

/-- The file holds no record, or the record of a server of the protocol. -/
def FileNamesServer (s : Sys) : Prop :=
  s.file.length < Cookie.SIZE ∨
    ∃ c port S, recordOf s.file = some (c, .localhost port) ∧ s.server port = some S

/-- What a run from a file without a record keeps: the file names a server
of the protocol if anything, and every client that has returned holds the
address and the cookie of one. -/
structure ClientsReach (s : Sys) : Prop where
  file : FileNamesServer s
  connected : ∀ j c x, s.pc j = .connected c x → ReachesServer s c x

variable {i : Nat} {c : Cookie} {x : SocketAddr}

theorem ReachesServer.step (h : ReachesServer s c x) (hs : step s l = some s') :
    ReachesServer s' c x := by
  obtain ⟨port, S, rfl, hS, rfl⟩ := h
  obtain ⟨S', hS', hc⟩ := (step_server hs port).keep hS
  exact ⟨port, S', rfl, hS', hc⟩

theorem FileNamesServer.step (h : FileNamesServer s) (hs : step s l = some s')
    (hf : s'.file = s.file) : FileNamesServer s' := by
  rcases h with h | ⟨c, port, S, hr, hS⟩
  · exact .inl (hf ▸ h)
  · obtain ⟨S', hS', -⟩ := (step_server hs port).keep hS
    exact .inr ⟨c, port, S', hf ▸ hr, hS'⟩

/-- The server a party has started is there, with that party's cookie. -/
theorem reaches_of_launch (hinv : Inv s) {port : UInt16} (hl : (s.pc i).launch = some (c, port)) :
    ReachesServer s c (.localhost port) := by
  obtain ⟨S, hS, hk⟩ := Option.map_eq_some'.mp (hinv.launch i c port hl)
  exact ⟨port, S, rfl, hS, congrArg Prod.fst hk⟩

/-- A party step: the other parties keep their program points, and the
party itself returns only with a server of the protocol. -/
theorem ClientsReach.move (h : ClientsReach s) (hs : step s l = some s') {X : Sys} {q : Pc}
    (hX : X.pc = s.pc) (hpc : s'.pc = (X.setPc i q).pc) (hf : FileNamesServer s')
    (hq : ∀ c x, q = .connected c x → ReachesServer s' c x) : ClientsReach s' := by
  refine ⟨hf, fun j c x hj => ?_⟩
  rw [hpc] at hj
  by_cases hji : j = i
  · subst hji; exact hq c x (by simpa using hj)
  · rw [setPc_pc_ne _ _ hji, hX] at hj
    exact (h.connected j c x hj).step hs

theorem clientsReach_step (hinv : Inv s) (h : ClientsReach s) (hs : step s l = some s') :
    ClientsReach s' := by
  have hfile := fun hf => h.file.step hs hf
  cases l with
  | acquire i =>
    obtain ⟨-, ⟨p, -, rfl⟩ | ⟨-, rfl⟩⟩ := acquireStep_some hs <;>
      exact h.move hs rfl rfl (hfile rfl) (by simp)
  | read i fresh =>
    rcases readStep_some hs with
      ⟨p, hp, ⟨-, rfl⟩ | ⟨k, x, d, hfd, rfl⟩ | ⟨-, rfl⟩⟩ | ⟨-, ⟨k, x, d, -, rfl⟩ | ⟨-, rfl⟩⟩
    · exact h.move hs rfl rfl (hfile rfl) (by simp)
    · -- the record names a server, whose cookie it carries
      refine h.move hs (by simp) rfl (hfile (by simp)) fun c' x' he => ?_
      obtain ⟨rfl, rfl⟩ : k = c' ∧ x = x' := by simpa using he
      obtain ⟨hr, -⟩ := found_endpoint hfd
      rcases h.file with hshort | ⟨k', port, S, hr', hS⟩
      · rw [recordOf_short hshort] at hr; cases hr
      · rw [hr] at hr'
        obtain ⟨rfl, rfl⟩ : k = k' ∧ x = .localhost port := by simpa using hr'
        have hk := fileOk_of_holder hinv (i := i) (by rw [hp]; trivial) (by simp [hp]) k port S hr hS
        exact ReachesServer.step ⟨port, S, rfl, hS, hk.symm⟩ hs
    · -- a stale record: the file is cleared
      exact h.move hs rfl rfl (.inl (by simp [restart, Cookie.SIZE])) (by simp)
    · exact h.move hs (by simp) rfl (hfile (by simp)) (by simp)
    · exact h.move hs rfl rfl (hfile rfl) (by simp)
  | start i port =>
    obtain ⟨-, -, ⟨p, c, -, rfl⟩ | ⟨c, -, rfl⟩ | ⟨c, -, rfl⟩⟩ := startStep_some hs <;>
      exact h.move hs (by simp) rfl (hfile (by simp)) (by simp)
  | startFail i =>
    rcases startFailStep_some hs with ⟨c, -, rfl⟩ | ⟨c, -, rfl⟩ <;>
      exact h.move hs rfl rfl (hfile rfl) (by simp)
  | initConnect i =>
    rcases initConnectStep_some hs with
      ⟨c, port, ext, -, ⟨-, rfl⟩ | ⟨-, rfl⟩⟩ | ⟨c, port, -, ⟨-, rfl⟩ | ⟨-, rfl⟩⟩
    · exact h.move hs (by simp) rfl (hfile rfl) (by simp)
    · exact h.move hs rfl rfl (hfile rfl) (by simp)
    · exact h.move hs (by simp) rfl (hfile rfl) (by simp)
    · exact h.move hs rfl rfl (hfile rfl) (by simp)
  | publish i =>
    -- the record written names the launcher's server
    rcases publishStep_some hs with ⟨c, port, ext, hp, rfl⟩ | ⟨c, port, hp, rfl⟩
    · obtain ⟨S, hS, -⟩ := Option.map_eq_some'.mp (hinv.launch i c port (by rw [hp]; rfl))
      cases ext
      · exact h.move hs rfl rfl (hfile rfl) (by simp)
      · exact h.move hs (by simp) rfl (.inr ⟨c, port, S, by simp [SocketAddr.localhost], hS⟩)
          (by simp)
    · obtain ⟨S, hS, -⟩ := Option.map_eq_some'.mp (hinv.launch i c port (by rw [hp]; rfl))
      exact h.move hs (by simp) rfl (.inr ⟨c, port, S, by simp [SocketAddr.localhost], hS⟩)
        (by simp)
  | sessionConnect i =>
    obtain ⟨c, port, hp, ⟨-, rfl⟩ | ⟨-, rfl⟩⟩ := sessionConnectStep_some hs
    · -- the launcher connects to its own server
      refine h.move hs (by simp) rfl (hfile rfl) fun c' x' he => ?_
      obtain ⟨rfl, rfl⟩ : c = c' ∧ SocketAddr.localhost port = x' := by simpa using he
      exact (reaches_of_launch hinv (i := i) (by rw [hp]; rfl)).step hs
    · exact h.move hs rfl rfl (hfile rfl) (by simp)
  | acceptInit port =>
    obtain ⟨S, conn, rest, -, -, -, rfl⟩ := acceptInitStep_some hs
    exact ⟨hfile rfl, fun j c x hj => (h.connected j c x hj).step hs⟩
  | accept port =>
    obtain ⟨S, k, conn, rest, -, -, -, rfl⟩ := acceptStep_some hs
    exact ⟨hfile rfl, fun j c x hj => (h.connected j c x hj).step hs⟩
  | outside port payload =>
    obtain ⟨S, -, -, -, rfl⟩ := outsideStep_some hs
    exact ⟨hfile rfl, fun j c x hj => (h.connected j c x hj).step hs⟩

section Reach

variable {allowed : Label → Prop} {role : Nat → Role} {file : Bytes} {foreign : List SocketAddr}

end Reach

end SequoiaIpc.Protocol
