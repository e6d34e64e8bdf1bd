/-
SequoiaIpc.Protocol.Invariant — what holds in every reachable state of
the rendezvous protocol, whatever the parties, the initial file and the
outside processes do.

## The invariant

`Inv` has five parts. The lock is held exactly by the party at a
lock-holding program point (`LockOk`). A party that has started a
server finds it on its port with its cookie (`LaunchOk`). A client
between finding no record and publishing one holds the lock over a file
without a record (`EmptyOk`). The record in the file carries the cookie
of the server on the port it names, except while a `bootstrap` party has
started a server and not yet written its record (`FileInv`). Each
server's connections fit its cookie, every honest one carrying it and no
outside one, and the server latched and handed on what they sent
(`Server.Ok`).

§3 gives the frames: `inv_local` for a step of one party that leaves the
file alone, `inv_release` for the two that rewrite it, `inv_launch` for
`Descriptor::start` and `inv_servers` for a server or an outside process.
§4 dispatches each step to one of them (`inv_step`) and concludes
`inv_reachable`; read back in the source's terms, the lock excludes
(`lock_exclusive`) and every party sends the cookie of the server it
reaches (`honest_conn_cookie`).
-/
import SequoiaIpc.Protocol.Step

namespace SequoiaIpc.Protocol

/-! ## 1. Servers -/

/-- Every connection a server has seen: queued, consumed as its
initialization connection, or handed on. -/
def Server.seen (S : Server) : List Conn := S.queue ++ S.initConn.toList ++ S.handled

/-- What a server is known by: its cookie and its launcher. -/
def Server.key (S : Server) : Cookie × Nat := (S.cookie, S.launcher)

/-- A connection fits a cookie: an honest opener sends it, an outside one
does not. -/
def Fits (c : Cookie) (conn : Conn) : Prop :=
  (conn.origin ≠ .outside → conn.payload = c.bytes) ∧
    (conn.origin = .outside → Cookie.receive conn.payload ≠ some c)

theorem fits_send {c : Cookie} {o : Origin} (ho : o ≠ .outside) : Fits c ⟨o, c.send⟩ :=
  ⟨fun _ => rfl, fun h => absurd h ho⟩

theorem fits_outside {c : Cookie} {p : Bytes} (h : Cookie.receive p ≠ some c) :
    Fits c ⟨.outside, p⟩ :=
  ⟨fun h' => absurd rfl h', fun _ => h⟩

theorem latchPhase_ne_awaitingInit (p : Bytes) : latchPhase p ≠ .awaitingInit := by
  unfold latchPhase; split <;> simp

/-- What a server's state says about the connections it has seen. -/
structure Server.Ok (S : Server) : Prop where
  fits : ∀ conn ∈ S.seen, Fits S.cookie conn
  awaiting : S.initConn = none → S.phase = .awaitingInit
  latched : ∀ f, S.initConn = some f → S.phase = latchPhase f.payload
  handled : ∀ h ∈ S.handled, ∃ k, S.phase = .serving k ∧ Cookie.receive h.payload = some k

namespace Server

variable {S : Server} {conn : Conn} {rest : List Conn}

theorem ok_new (c : Cookie) (i : Nat) (e : Bool) : (Server.new c i e).Ok :=
  ⟨by simp [seen, new], fun _ => rfl, by simp [new], by simp [new]⟩

theorem mem_seen_push {c : Conn} : conn ∈ (S.push c).seen ↔ conn ∈ S.seen ∨ conn = c := by
  simp only [seen, push, List.mem_append, List.mem_singleton, or_assoc, or_comm, or_left_comm]

theorem Ok.push {c : Conn} (hS : S.Ok) (hc : Fits S.cookie c) : (S.push c).Ok where
  fits conn hm := (mem_seen_push.mp hm).elim (hS.fits conn) fun h => by subst h; exact hc
  awaiting := hS.awaiting
  latched := hS.latched
  handled := hS.handled

/-- A server still waiting for its first connection has consumed none. -/
theorem Ok.initConn_none (hS : S.Ok) (hp : S.phase = .awaitingInit) : S.initConn = none := by
  cases h : S.initConn with
  | none => rfl
  | some f => exact absurd ((hS.latched f h).symm.trans hp) (latchPhase_ne_awaitingInit _)

/-- Taking a connection off the queue loses none of those seen. -/
theorem seen_acceptInit_subset (hq : S.queue = conn :: rest) :
    (S.acceptInit conn rest).seen ⊆ S.seen := by
  intro x hx
  simp only [seen, Server.acceptInit, hq, Option.toList, List.mem_append, List.mem_cons,
    List.mem_singleton, List.not_mem_nil, or_false] at hx ⊢
  rcases hx with (hx | rfl) | hx <;> simp [*]

theorem seen_accept_subset {k : Cookie} (hq : S.queue = conn :: rest) :
    (S.accept k conn rest).seen ⊆ S.seen := by
  intro x hx
  simp only [seen, Server.accept, hq] at hx ⊢
  split at hx <;>
    simp only [List.mem_append, List.mem_cons, List.mem_singleton, List.not_mem_nil, or_false] at hx ⊢
  · rcases hx with (hx | hx) | hx | rfl <;> simp [*]
  · rcases hx with (hx | hx) | hx <;> simp [*]

theorem Ok.acceptInit (hS : S.Ok) (hp : S.phase = .awaitingInit) (hq : S.queue = conn :: rest) :
    (S.acceptInit conn rest).Ok := by
  have hh : S.handled = [] := List.eq_nil_iff_forall_not_mem.mpr fun h hm => by
    obtain ⟨k, hk, -⟩ := hS.handled h hm
    rw [hp] at hk; cases hk
  refine ⟨fun c hm => hS.fits c (seen_acceptInit_subset hq hm), (fun h => by cases h),
    fun f hf => ?_, by simp [Server.acceptInit, hh]⟩
  cases hf; rfl

theorem Ok.accept {k : Cookie} (hS : S.Ok) (hp : S.phase = .serving k) (hq : S.queue = conn :: rest) :
    (S.accept k conn rest).Ok := by
  refine ⟨fun c hm => hS.fits c (seen_accept_subset hq hm), hS.awaiting, hS.latched,
    fun h hm => ?_⟩
  · simp only [Server.accept] at hm
    split at hm
    · rename_i ha
      rcases List.mem_append.mp hm with hm | hm
      · exact hS.handled h hm
      · rw [List.mem_singleton.mp hm]; exact ⟨k, hp, ha⟩
    · exact hS.handled h hm

end Server

/-- A server whose initialization connection is honest latched its own cookie. -/
theorem latched_of_honest {S : Server} (hS : S.Ok) {f : Conn} (hf : S.initConn = some f)
    (ho : f.origin ≠ .outside) : S.phase = .serving S.cookie := by
  rw [hS.latched f hf, (hS.fits f (by simp [Server.seen, hf])).1 ho]
  simp [latchPhase]

/-! ## 2. The parts of the invariant -/

/-- Between finding no record and publishing one. -/
def Pc.Launching : Pc → Prop
  | .empty _ _ | .fallback _ | .launched _ _ _ | .initSent _ _ _ => True
  | _ => False

theorem Pc.Launching.holdsLock {p : Pc} (h : p.Launching) : p.HoldsLock := by
  cases p <;> simp_all [Pc.Launching, Pc.HoldsLock]

/-- The lock is held exactly by the party at a lock-holding point. -/
def LockOk (s : Sys) : Prop := ∀ j, (s.pc j).HoldsLock ↔ s.lock = some j

/-- A party that has started a server finds it on its port. -/
def LaunchOk (s : Sys) : Prop :=
  ∀ j c port, (s.pc j).launch = some (c, port) → (s.server port).map Server.key = some (c, j)

/-- A client about to publish a record holds the lock over a file without one. -/
def EmptyOk (s : Sys) : Prop := ∀ j, (s.pc j).Launching → s.file.length < Cookie.SIZE

/-- The record in the file carries the cookie of the server it names. -/
def FileOk (s : Sys) : Prop :=
  ∀ k port S, recordOf s.file = some (k, .localhost port) → s.server port = some S → k = S.cookie

/-- The record names its server's cookie unless a `bootstrap` party has
started a server and not yet written its record. -/
def FileInv (s : Sys) : Prop := (∀ j c port, s.pc j ≠ .bootLaunched c port) → FileOk s

/-- Every server's connections fit. -/
def ServersOk (s : Sys) : Prop := ∀ port S, s.server port = some S → S.Ok

/-- The invariant of the protocol. -/
structure Inv (s : Sys) : Prop where
  lock : LockOk s
  launch : LaunchOk s
  empty : EmptyOk s
  file : FileInv s
  servers : ServersOk s

/-! ## 3. Frames -/

/-- `s'` has the servers of `s` on the same ports, with the same cookies
and launchers. -/
def SameServers (s s' : Sys) : Prop :=
  ∀ port, (s'.server port).map Server.key = (s.server port).map Server.key

variable {s s' : Sys} {i : Nat}

theorem SameServers.of_eq (h : s'.server = s.server) : SameServers s s' := fun port => by rw [h]

theorem SameServers.cookie (h : SameServers s s') {port : UInt16} {S' : Server}
    (hS' : s'.server port = some S') : ∃ S, s.server port = some S ∧ S'.cookie = S.cookie := by
  have := h port
  rw [hS', Option.map_some', eq_comm, Option.map_eq_some'] at this
  obtain ⟨S, hS, hk⟩ := this
  exact ⟨S, hS, congrArg Prod.fst hk.symm⟩

theorem sameServers_enqueue {port : UInt16} {c : Conn} : SameServers s (s.enqueue port c) := by
  intro q
  rw [Sys.enqueue_server]
  split
  · rw [Option.map_map]; rfl
  · rfl

theorem sameServers_deliver {d : Sys.Dial} {c : Conn} : SameServers s (s.deliver d c) := by
  cases d
  exacts [sameServers_enqueue, .of_eq rfl, .of_eq rfl]

theorem sameServers_setServer {port : UInt16} {S S' : Server} (hS : s.server port = some S)
    (hk : S'.key = S.key) : SameServers s (s.setServer port S') := by
  intro q
  rw [Sys.setServer_server]
  split
  · subst q; rw [hS]; simp [hk]
  · rfl

theorem ServersOk.enqueue (h : ServersOk s) {port : UInt16} {c : Conn}
    (hc : ∀ S, s.server port = some S → Fits S.cookie c) : ServersOk (s.enqueue port c) := by
  intro q S' hS'
  rw [Sys.enqueue_server] at hS'
  split at hS'
  · subst q
    obtain ⟨S, hS, rfl⟩ := Option.map_eq_some'.mp hS'
    exact (h port S hS).push (hc S hS)
  · exact h q S' hS'

theorem ServersOk.setServer (h : ServersOk s) {port : UInt16} {S : Server} (hS : S.Ok) :
    ServersOk (s.setServer port S) := by
  intro q S' hS'
  rw [Sys.setServer_server] at hS'
  split at hS'
  · cases hS'; exact hS
  · exact h q S' hS'

/-- The server a party launched has that party's cookie. -/
theorem cookie_of_launched {port : UInt16} {c : Cookie} {j : Nat} {S : Server}
    (hl : (s.server port).map Server.key = some (c, j)) (hS : s.server port = some S) :
    S.cookie = c := by
  rw [hS] at hl
  exact congrArg Prod.fst (Option.some.inj hl)

/-- The server a party launched has that party as its launcher. -/
theorem launcher_of_launched {port : UInt16} {c : Cookie} {j : Nat} {S : Server}
    (hl : (s.server port).map Server.key = some (c, j)) (hS : s.server port = some S) :
    S.launcher = j := by
  rw [hS] at hl
  exact congrArg Prod.snd (Option.some.inj hl)

theorem holder_unique (h : LockOk s) {j : Nat} (hi : (s.pc i).HoldsLock) (hj : (s.pc j).HoldsLock) :
    i = j :=
  Option.some.inj (((h i).mp hi).symm.trans ((h j).mp hj))

/-- While a party other than a `bootstrap` launcher holds the lock, the
record names its server's cookie. -/
theorem fileOk_of_holder (h : Inv s) (hi : (s.pc i).HoldsLock)
    (hnb : ∀ c port, s.pc i ≠ .bootLaunched c port) : FileOk s :=
  h.file fun j c port hj => by
    have hji : i = j := holder_unique h.lock hi (by rw [hj]; trivial)
    subst hji; exact hnb c port hj

/-- A file without a record has nothing to check. -/
theorem fileOk_short (hf : s.file.length < Cookie.SIZE) : FileOk s := by
  intro k port S hr
  rw [recordOf_short hf] at hr; cases hr

theorem fileOk_frame (h : FileOk s) (hf : s'.file = s.file) (hsv : SameServers s s') :
    FileOk s' := by
  intro k port S' hr hS'
  obtain ⟨S, hS, hc⟩ := hsv.cookie hS'
  rw [hc]; exact h k port S (hf ▸ hr) hS

/-- The record a launcher writes names its own server. -/
theorem fileOk_writeRecord {port : UInt16} {c : Cookie} {j : Nat}
    (hl : (s.server port).map Server.key = some (c, j)) : FileOk (s.writeRecord c port) := by
  intro k port' S hr hS
  simp only [Sys.writeRecord_file, recordOf_record, Option.some.injEq, Prod.mk.injEq,
    SocketAddr.localhost, SocketAddr.v4.injEq, SocketAddrV4.mk.injEq, true_and] at hr
  obtain ⟨rfl, rfl⟩ := hr
  exact (cookie_of_launched hl hS).symm

/-- The holder lets go: nobody holds the lock afterwards. -/
theorem release_others (h : LockOk s) (hi : (s.pc i).HoldsLock) :
    ∀ j ≠ i, (none = some j ↔ s.lock = some j) := by
  intro j hj
  rw [(h i).mp hi]
  simp [Ne.symm hj]

theorem lockOk_frame (h : LockOk s) (hpc : ∀ j ≠ i, s'.pc j = s.pc j)
    (hi : (s'.pc i).HoldsLock ↔ s'.lock = some i)
    (hlock : ∀ j ≠ i, s'.lock = some j ↔ s.lock = some j) : LockOk s' := by
  intro j
  by_cases hj : j = i
  · subst hj; exact hi
  · rw [hpc j hj, hlock j hj]; exact h j

theorem launchOk_frame (h : LaunchOk s) (hsv : ∀ port k, (s.server port).map Server.key = some k →
      (s'.server port).map Server.key = some k)
    (hpc : ∀ j ≠ i, s'.pc j = s.pc j)
    (hi : ∀ c port, (s'.pc i).launch = some (c, port) → (s'.server port).map Server.key = some (c, i)) :
    LaunchOk s' := by
  intro j c port hj
  by_cases hji : j = i
  · subst hji; exact hi c port hj
  · rw [hpc j hji] at hj
    exact hsv port _ (h j c port hj)

theorem emptyOk_frame (h : EmptyOk s) (hf : s'.file = s.file) (hpc : ∀ j ≠ i, s'.pc j = s.pc j)
    (hi : (s'.pc i).Launching → s.file.length < Cookie.SIZE) : EmptyOk s' := by
  intro j hj
  rw [hf]
  by_cases hji : j = i
  · subst hji; exact hi hj
  · rw [hpc j hji] at hj; exact h j hj

/-- A step of party `i` that leaves the file alone and keeps every server. -/
theorem inv_local (h : Inv s) (hpc : ∀ j ≠ i, s'.pc j = s.pc j) (hf : s'.file = s.file)
    (hsv : SameServers s s') (hok : ServersOk s')
    (hlock : (s'.pc i).HoldsLock ↔ s'.lock = some i)
    (hlk : ∀ j ≠ i, s'.lock = some j ↔ s.lock = some j)
    (hlaunch : ∀ c port, (s'.pc i).launch = some (c, port) → (s.pc i).launch = some (c, port))
    (hempty : (s'.pc i).Launching → s.file.length < Cookie.SIZE)
    (hboot : (∀ c port, s'.pc i ≠ .bootLaunched c port) → ∀ c port, s.pc i ≠ .bootLaunched c port) :
    Inv s' where
  lock := lockOk_frame h.lock hpc hlock hlk
  launch := launchOk_frame h.launch (fun port _ hk => (hsv port).trans hk) hpc fun c port hl =>
    (hsv port).trans (h.launch i c port (hlaunch c port hl))
  empty := emptyOk_frame h.empty hf hpc hempty
  file hnb := fileOk_frame (h.file fun j => by
      by_cases hj : j = i
      · subst hj; exact hboot (hnb j)
      · rw [← hpc j hj]; exact hnb j) hf hsv
  servers := hok

/-- The holder `i` rewrites the file, lets go of the lock and moves to `q`. -/
theorem inv_release (h : Inv s) (hi : (s.pc i).HoldsLock) {X : Sys} {q : Pc} (hpc : X.pc = s.pc)
    (hsv : SameServers s X) (hok : ServersOk X) (hq : ¬ q.HoldsLock)
    (hql : ∀ c port, q.launch = some (c, port) → (s.pc i).launch = some (c, port))
    (hf : FileOk X) : Inv (X.unlock.setPc i q) := by
  have hpc' : ∀ j ≠ i, (X.unlock.setPc i q).pc j = s.pc j := fun j hj => by
    rw [Sys.setPc_pc_ne _ _ hj, Sys.unlock_pc, hpc]
  refine ⟨lockOk_frame h.lock hpc' (by simp [hq]) (release_others h.lock hi),
    launchOk_frame h.launch (fun port _ hk => (hsv port).trans hk) hpc' fun c port hl =>
      (hsv port).trans (h.launch i c port (hql c port (by simpa using hl))),
    fun j hj => ?_, fun _ => hf, hok⟩
  by_cases hji : j = i
  · subst hji; exact absurd (by simpa using hj.holdsLock) hq
  · rw [hpc' j hji] at hj
    exact absurd (holder_unique h.lock hi hj.holdsLock).symm hji

/-- `Descriptor::start` binds a free port: every server keeps its key. -/
theorem launch_grow {port : UInt16} {c : Cookie} {ext : Bool} (hnone : s.server port = none)
    (port' : UInt16) (k : Cookie × Nat) (hk : (s.server port').map Server.key = some k) :
    ((s.launch i c port ext).server port').map Server.key = some k := by
  show ((s.setServer port _).server port').map Server.key = some k
  rw [Sys.setServer_server, if_neg]
  · exact hk
  · rintro rfl; rw [hnone] at hk; cases hk

/-- `Descriptor::start` by the holder `i`: a new server on a free port. -/
theorem inv_launch (h : Inv s) {port : UInt16} {c : Cookie} {ext : Bool} {q : Pc}
    (hnone : s.server port = none) (hi : (s.pc i).HoldsLock) (hq : q.HoldsLock)
    (hql : q.launch = some (c, port))
    (hfile : (∀ c' port', q ≠ .bootLaunched c' port') → s.file.length < Cookie.SIZE) :
    Inv ((s.launch i c port ext).setPc i q) := by
  have hpc : ∀ j ≠ i, ((s.launch i c port ext).setPc i q).pc j = s.pc j := fun j hj => by
    rw [Sys.setPc_pc_ne _ _ hj, Sys.launch_pc]
  refine ⟨lockOk_frame h.lock hpc (by simp [hq, (h.lock i).mp hi]) (fun _ _ => by simp),
    launchOk_frame h.launch (launch_grow hnone) hpc fun c' port' hl => ?_,
    emptyOk_frame h.empty (by simp) hpc fun hl => hfile fun c' port' he => by
      rw [Sys.setPc_pc_self, he] at hl; exact hl,
    fun hnb => fileOk_short (hfile (by simpa using hnb i)),
    h.servers.setServer (Server.ok_new c i ext)⟩
  rw [Sys.setPc_pc_self, hql, Option.some.injEq, Prod.mk.injEq] at hl
  obtain ⟨rfl, rfl⟩ := hl
  simp [Sys.launch, Sys.setServer_server, Server.key, Server.new]

/-- A step of a server or an outside process: no party moves. -/
theorem inv_servers (h : Inv s) (hpc : s'.pc = s.pc) (hl : s'.lock = s.lock) (hf : s'.file = s.file)
    (hsv : SameServers s s') (hok : ServersOk s') : Inv s' :=
  ⟨fun j => by rw [hpc, hl]; exact h.lock j,
    fun j c port hj => (hsv port).trans (h.launch j c port (by rwa [hpc] at hj)),
    fun j hj => by rw [hf]; exact h.empty j (by rwa [hpc] at hj),
    fun hnb => fileOk_frame (h.file fun j => by rw [← hpc]; exact hnb j) hf hsv,
    hok⟩

/-- A connection `read` opens to the server a live record names carries
that server's cookie. -/
theorem servers_deliver (h : Inv s) (hfo : FileOk s) {k : Cookie} {x : SocketAddr} {d : Sys.Dial}
    {o : Origin} (hf : s.found = .endpoint k x d) (ho : o ≠ .outside) :
    ServersOk (s.deliver d ⟨o, k.send⟩) := by
  obtain ⟨hr, hd, -⟩ := Sys.found_endpoint hf
  cases d with
  | server port =>
    obtain ⟨rfl, -⟩ := Sys.dial_server hd
    exact h.servers.enqueue fun S hS => by rw [hfo k port S hr hS]; exact fits_send ho
  | foreign => exact h.servers
  | refused => exact h.servers

/-! ## 4. Every step keeps the invariant -/

open Sys

theorem inv_acquire (h : Inv s) (hs : s.acquireStep i = some s') : Inv s' := by
  obtain ⟨hl, ⟨p, hp, rfl⟩ | ⟨hp, rfl⟩⟩ := acquireStep_some hs <;>
  exact inv_local h (fun j hj => setPc_pc_ne _ _ hj) rfl (.of_eq rfl) h.servers
    (by simp [Pc.HoldsLock]) (fun j hj => by simp [hl, Ne.symm hj]) (by simp [Pc.launch])
    (by simp [Pc.Launching]) (fun _ => by simp [hp])

/-- Reading the file: a client finds no record, a live one or a stale one;
`bootstrap` finds a live one or goes on to launch. -/
theorem inv_read {fresh : Cookie} (h : Inv s) (hs : s.readStep i fresh = some s') : Inv s' := by
  have hpc : ∀ {X : Sys} {q : Pc}, X.pc = s.pc → ∀ j ≠ i, (X.setPc i q).pc j = s.pc j :=
    fun hX j hj => by rw [setPc_pc_ne _ _ hj, hX]
  rcases readStep_some hs with
    ⟨p, hp, ⟨hf, rfl⟩ | ⟨k, x, d, hf, rfl⟩ | ⟨hf, rfl⟩⟩ | ⟨hp, ⟨k, x, d, hf, rfl⟩ | ⟨-, rfl⟩⟩
  · -- no record: on to `Cookie::new()` and `start`
    exact inv_local h (hpc rfl) rfl (.of_eq rfl) h.servers
      (by simp [Pc.HoldsLock, ← h.lock i, hp]) (fun _ _ => by simp) (by simp [Pc.launch])
      (fun _ => found_none_iff.mp hf) (fun _ => by simp [hp])
  · -- a live record: the stream for `do_connect` carries the recorded cookie
    have hfo := fileOk_of_holder h (by rw [hp]; trivial) (by simp [hp])
    exact inv_local h (hpc (by simp)) (by simp) sameServers_deliver
      (servers_deliver h hfo hf (by simp)) (by simp [Pc.HoldsLock])
      (release_others h.lock (by rw [hp]; trivial)) (by simp [Pc.launch]) (by simp [Pc.Launching])
      (fun _ => by simp [hp])
  · -- a stale record: `file.clear()`, `drop(file)`, `self.connect()`
    exact inv_release (X := { s with file := _ }) h (by rw [hp]; trivial) rfl (.of_eq rfl)
      h.servers (by simp [Pc.HoldsLock]) (by simp [Pc.launch]) (fileOk_short (by simp [Cookie.SIZE]))
  · -- `bootstrap` finds a live server and returns
    have hfo := fileOk_of_holder h (by rw [hp]; trivial) (by simp [hp])
    exact inv_local h (hpc (by simp)) (by simp) sameServers_deliver
      (servers_deliver h hfo hf (by simp)) (by simp [Pc.HoldsLock])
      (release_others h.lock (by rw [hp]; trivial)) (by simp [Pc.launch]) (by simp [Pc.Launching])
      (fun _ => by simp [hp])
  · -- `bootstrap` goes on to launch
    exact inv_local h (hpc rfl) rfl (.of_eq rfl) h.servers
      (by simp [Pc.HoldsLock, ← h.lock i, hp]) (fun _ _ => by simp) (by simp [Pc.launch])
      (by simp [Pc.Launching]) (fun _ => by simp [hp])

theorem inv_start {port : UInt16} (h : Inv s) (hs : s.startStep i port = some s') : Inv s' := by
  obtain ⟨hnone, -, ⟨p, c, hp, rfl⟩ | ⟨c, hp, rfl⟩ | ⟨c, hp, rfl⟩⟩ := startStep_some hs
  · exact inv_launch h hnone (by rw [hp]; trivial) trivial rfl
      fun _ => h.empty i (by rw [hp]; trivial)
  · exact inv_launch h hnone (by rw [hp]; trivial) trivial rfl
      fun _ => h.empty i (by rw [hp]; trivial)
  · exact inv_launch h hnone (by rw [hp]; trivial) trivial rfl fun hn => absurd rfl (hn c port)

theorem inv_startFail (h : Inv s) (hs : s.startFailStep i = some s') : Inv s' := by
  rcases startFailStep_some hs with ⟨c, hp, rfl⟩ | ⟨c, hp, rfl⟩
  · -- `External`: the error is returned and the lock dropped
    exact inv_local h (fun j hj => setPc_pc_ne _ _ hj) rfl (.of_eq rfl) h.servers
      (by simp [Pc.HoldsLock]) (release_others h.lock (by rw [hp]; trivial)) (by simp [Pc.launch])
      (by simp [Pc.Launching]) (fun _ => by simp [hp])
  · -- `Robust`: on to `start(false)`
    exact inv_local h (fun j hj => setPc_pc_ne _ _ hj) rfl (.of_eq rfl) h.servers
      (by simp [Pc.HoldsLock, (h.lock i).mp (by rw [hp]; trivial)]) (fun _ _ => by simp)
      (by simp [Pc.launch]) (fun _ => h.empty i (by rw [hp]; trivial)) (fun _ => by simp [hp])

/-- The launcher's own connections carry its cookie. -/
theorem servers_launcher (h : Inv s) {c : Cookie} {port : UInt16} {o : Origin}
    (hl : (s.pc i).launch = some (c, port)) (ho : o ≠ .outside) :
    ServersOk (s.enqueue port ⟨o, c.send⟩) :=
  h.servers.enqueue fun _ hS => by rw [cookie_of_launched (h.launch i c port hl) hS]; exact fits_send ho

theorem inv_initConnect (h : Inv s) (hs : s.initConnectStep i = some s') : Inv s' := by
  rcases initConnectStep_some hs with
    ⟨c, port, ext, hp, ⟨-, rfl⟩ | ⟨-, rfl⟩⟩ | ⟨c, port, hp, ⟨-, rfl⟩ | ⟨-, rfl⟩⟩
  · exact inv_local h (fun j hj => setPc_pc_ne _ _ hj) rfl sameServers_enqueue
      (servers_launcher h (by rw [hp]; rfl) (by simp))
      (by simp [Pc.HoldsLock, (h.lock i).mp (by rw [hp]; trivial)]) (fun _ _ => by simp)
      (by simp [Pc.launch, hp]) (fun _ => h.empty i (by rw [hp]; trivial)) (fun _ => by simp [hp])
  · exact inv_local h (fun j hj => setPc_pc_ne _ _ hj) rfl (.of_eq rfl) h.servers
      (by simp [Pc.HoldsLock]) (release_others h.lock (by rw [hp]; trivial)) (by simp [Pc.launch])
      (by simp [Pc.Launching]) (fun _ => by simp [hp])
  · exact inv_local h (fun j hj => setPc_pc_ne _ _ hj) rfl sameServers_enqueue
      (servers_launcher h (by rw [hp]; rfl) (by simp))
      (by simp [Pc.HoldsLock, ← h.lock i, hp]) (fun _ _ => by simp) (by simp [Pc.launch])
      (by simp [Pc.Launching]) (fun _ => by simp [hp])
  · exact inv_local h (fun j hj => setPc_pc_ne _ _ hj) rfl (.of_eq rfl) h.servers
      (by simp [Pc.HoldsLock, ← h.lock i, hp]) (fun _ _ => by simp) (by simp [Pc.launch])
      (by simp [Pc.Launching]) (fun _ => by simp [hp])

/-- `file.write` (when the record is written) and `drop(file)`. -/
theorem inv_publish (h : Inv s) (hs : s.publishStep i = some s') : Inv s' := by
  rcases publishStep_some hs with ⟨c, port, ext, hp, rfl⟩ | ⟨c, port, hp, rfl⟩
  · have hl := h.launch i c port (by rw [hp]; rfl)
    cases ext
    · exact inv_release (X := s) h (by rw [hp]; trivial) rfl (.of_eq rfl) h.servers
        (by simp [Pc.HoldsLock]) (by simp [Pc.launch, hp])
        (fileOk_short (h.empty i (by rw [hp]; trivial)))
    · exact inv_release h (by rw [hp]; trivial) rfl (.of_eq rfl) h.servers
        (by simp [Pc.HoldsLock]) (by simp [Pc.launch, hp]) (fileOk_writeRecord hl)
  · exact inv_release h (by rw [hp]; trivial) rfl (.of_eq rfl) h.servers
      (by simp [Pc.HoldsLock]) (by simp [Pc.launch, hp])
      (fileOk_writeRecord (h.launch i c port (by rw [hp]; rfl)))

theorem inv_sessionConnect (h : Inv s) (hs : s.sessionConnectStep i = some s') : Inv s' := by
  obtain ⟨c, port, hp, ⟨-, rfl⟩ | ⟨-, rfl⟩⟩ := sessionConnectStep_some hs
  · exact inv_local h (fun j hj => setPc_pc_ne _ _ hj) rfl sameServers_enqueue
      (servers_launcher h (by rw [hp]; rfl) (by simp))
      (by simp [Pc.HoldsLock, ← h.lock i, hp]) (fun _ _ => by simp) (by simp [Pc.launch])
      (by simp [Pc.Launching]) (fun _ => by simp [hp])
  · exact inv_local h (fun j hj => setPc_pc_ne _ _ hj) rfl (.of_eq rfl) h.servers
      (by simp [Pc.HoldsLock, ← h.lock i, hp]) (fun _ _ => by simp) (by simp [Pc.launch])
      (by simp [Pc.Launching]) (fun _ => by simp [hp])

theorem inv_acceptInit {port : UInt16} (h : Inv s) (hs : s.acceptInitStep port = some s') :
    Inv s' := by
  obtain ⟨S, conn, rest, hS, hp, hq, rfl⟩ := acceptInitStep_some hs
  exact inv_servers h rfl rfl rfl (sameServers_setServer hS rfl)
    (h.servers.setServer ((h.servers port S hS).acceptInit hp hq))

theorem inv_accept {port : UInt16} (h : Inv s) (hs : s.acceptStep port = some s') : Inv s' := by
  obtain ⟨S, k, conn, rest, hS, hp, hq, rfl⟩ := acceptStep_some hs
  exact inv_servers h rfl rfl rfl (sameServers_setServer hS rfl)
    (h.servers.setServer ((h.servers port S hS).accept hp hq))

theorem inv_outside {port : UInt16} {payload : Bytes} (h : Inv s)
    (hs : s.outsideStep port payload = some s') : Inv s' := by
  obtain ⟨S, hS, -, hne, rfl⟩ := outsideStep_some hs
  exact inv_servers h rfl rfl rfl sameServers_enqueue (h.servers.enqueue fun S' hS' => by
    obtain rfl := Option.some.inj (hS.symm.trans hS')
    exact fits_outside hne)

theorem inv_step (h : Inv s) : ∀ {l : Label}, step s l = some s' → Inv s'
  | .acquire _, hs => inv_acquire h hs
  | .read _ _, hs => inv_read h hs
  | .start _ _, hs => inv_start h hs
  | .startFail _, hs => inv_startFail h hs
  | .initConnect _, hs => inv_initConnect h hs
  | .publish _, hs => inv_publish h hs
  | .sessionConnect _, hs => inv_sessionConnect h hs
  | .acceptInit _, hs => inv_acceptInit h hs
  | .accept _, hs => inv_accept h hs
  | .outside _ _, hs => inv_outside h hs

theorem inv_init (role : Nat → Role) (file : Bytes) (foreign : List SocketAddr) :
    Inv (Sys.init role file foreign) where
  lock j := by cases hr : role j <;> simp [Sys.init, hr, Role.entry, Pc.HoldsLock]
  launch j c port := by cases hr : role j <;> simp [Sys.init, hr, Role.entry, Pc.launch]
  empty j := by cases hr : role j <;> simp [Sys.init, hr, Role.entry, Pc.Launching]
  file _ _ _ _ _ hS := by cases hS
  servers _ _ hS := by cases hS

/-- **The invariant holds in every reachable state**, whatever steps are allowed. -/
theorem inv_reachable {allowed : Label → Prop} {role : Nat → Role} {file : Bytes}
    {foreign : List SocketAddr} (h : Reachable allowed (Sys.init role file foreign) s) : Inv s := by
  induction h with
  | init => exact inv_init role file foreign
  | step _ _ hs ih => exact inv_step ih hs

/-- **The rendezvous lock excludes.** In every run, a party is between
`CookieFile::open` and the `drop(file)` that releases the lock exactly when
the lock names it, so no two parties are there at once. -/
theorem lock_exclusive {allowed : Label → Prop} {role : Nat → Role} {file : Bytes}
    {foreign : List SocketAddr} (h : Reachable allowed (Sys.init role file foreign) s) :
    (∀ i, (s.pc i).HoldsLock ↔ s.lock = some i) ∧
      ∀ i j, (s.pc i).HoldsLock → (s.pc j).HoldsLock → i = j :=
  ⟨(inv_reachable h).lock, fun _ _ => holder_unique (inv_reachable h).lock⟩

/-- Two clients opening the file: the first holds the lock, the second waits. -/
theorem lock_exclusive_two_clients :
    let role : Nat → Role := fun _ => .client .external .external
    ∃ s, run (Sys.init role [] []) [.acquire 0] = some s ∧
      (∀ i, (s.pc i).HoldsLock ↔ s.lock = some i) ∧
        ∀ i j, (s.pc i).HoldsLock → (s.pc j).HoldsLock → i = j := by
  intro role
  have hsome : (run (Sys.init role [] []) [.acquire 0]).isSome = true := by decide
  exact ⟨_, (Option.some_get hsome).symm, lock_exclusive
    (@reachable_run (fun _ => True) _ _ _ [.acquire 0] .init (fun _ _ => trivial)
      (Option.some_get hsome).symm)⟩

/-- A party moves only from a program point it runs at, and never back to `idle`. -/
theorem idle_setPc {X : Sys} {q : Pc} (hX : X.pc = s.pc) (hi : s.pc i ≠ .idle) (hq : q ≠ .idle)
    (j : Nat) : (X.setPc i q).pc j = .idle ↔ s.pc j = .idle := by
  by_cases hj : j = i
  · subst hj; simp [hi, hq]
  · rw [setPc_pc_ne _ _ hj, hX]

theorem idle_step (hs : step s l = some s') (j : Nat) : s'.pc j = .idle ↔ s.pc j = .idle := by
  cases l with
  | acquire i =>
    obtain ⟨-, ⟨p, hp, rfl⟩ | ⟨hp, rfl⟩⟩ := acquireStep_some hs <;>
      exact idle_setPc rfl (by simp [hp]) (by simp) j
  | read i fresh =>
    rcases readStep_some hs with
      ⟨p, hp, ⟨-, rfl⟩ | ⟨k, x, d, -, rfl⟩ | ⟨-, rfl⟩⟩ | ⟨hp, ⟨k, x, d, -, rfl⟩ | ⟨-, rfl⟩⟩ <;>
      exact idle_setPc (by simp) (by simp [hp]) (by simp) j
  | start i port =>
    obtain ⟨-, -, ⟨p, c, hp, rfl⟩ | ⟨c, hp, rfl⟩ | ⟨c, hp, rfl⟩⟩ := startStep_some hs <;>
      exact idle_setPc rfl (by simp [hp]) (by simp) j
  | startFail i =>
    rcases startFailStep_some hs with ⟨c, hp, rfl⟩ | ⟨c, hp, rfl⟩ <;>
      exact idle_setPc rfl (by simp [hp]) (by simp) j
  | initConnect i =>
    rcases initConnectStep_some hs with
      ⟨c, port, ext, hp, ⟨-, rfl⟩ | ⟨-, rfl⟩⟩ | ⟨c, port, hp, ⟨-, rfl⟩ | ⟨-, rfl⟩⟩ <;>
      exact idle_setPc rfl (by simp [hp]) (by simp) j
  | publish i =>
    rcases publishStep_some hs with ⟨c, port, ext, hp, rfl⟩ | ⟨c, port, hp, rfl⟩
    · cases ext <;> exact idle_setPc rfl (by simp [hp]) (by simp) j
    · exact idle_setPc rfl (by simp [hp]) (by simp) j
  | sessionConnect i =>
    obtain ⟨c, port, hp, ⟨-, rfl⟩ | ⟨-, rfl⟩⟩ := sessionConnectStep_some hs <;>
      exact idle_setPc rfl (by simp [hp]) (by simp) j
  | acceptInit port => obtain ⟨S, conn, rest, -, -, -, rfl⟩ := acceptInitStep_some hs; rfl
  | accept port => obtain ⟨S, k, conn, rest, -, -, -, rfl⟩ := acceptStep_some hs; rfl
  | outside port payload => obtain ⟨S, -, -, -, rfl⟩ := outsideStep_some hs; rfl

/-- **Absent parties never run, and running ones never stop being present.** -/
theorem idle_iff_absent {allowed : Label → Prop} {role : Nat → Role} {file : Bytes}
    {foreign : List SocketAddr} (h : Reachable allowed (Sys.init role file foreign) s) (j : Nat) :
    s.pc j = .idle ↔ role j = .absent := by
  induction h with
  | init => cases hr : role j <;> simp [Sys.init, Role.entry, hr]
  | step _ _ hs ih => rw [idle_step hs j, ih]

/-- No server has seen a connection from outside the protocol. -/
def NoOutside (s : Sys) : Prop :=
  ∀ port S, s.server port = some S → ∀ conn ∈ S.seen, conn.origin ≠ .outside

theorem NoOutside.enqueue (h : NoOutside s) {port : UInt16} {c : Conn} (hc : c.origin ≠ .outside) :
    NoOutside (s.enqueue port c) := by
  intro q S' hS'
  rw [enqueue_server] at hS'
  split at hS'
  · obtain ⟨S, hS, rfl⟩ := Option.map_eq_some'.mp hS'
    intro conn hm
    rcases Server.mem_seen_push.mp hm with hm | rfl
    · exact h _ S hS conn hm
    · exact hc
  · exact h q S' hS'

theorem NoOutside.deliver (h : NoOutside s) {d : Dial} {c : Conn} (hc : c.origin ≠ .outside) :
    NoOutside (s.deliver d c) := by
  cases d
  exacts [h.enqueue hc, h, h]

theorem NoOutside.setServer (h : NoOutside s) {port : UInt16} {S S' : Server}
    (hS : s.server port = some S) (hsub : S'.seen ⊆ S.seen) : NoOutside (s.setServer port S') := by
  intro q T hT
  rw [setServer_server] at hT
  split at hT
  · subst q; cases hT; exact fun conn hm => h port S hS conn (hsub hm)
  · exact h q T hT

theorem NoOutside.launch (h : NoOutside s) {c : Cookie} {port : UInt16} {e : Bool} :
    NoOutside (s.launch i c port e) := by
  intro q T hT
  simp only [Sys.launch, logStart_server, setServer_server] at hT
  split at hT
  · cases hT; simp [Server.seen, Server.new]
  · exact h q T hT

theorem noOutside_step (h : NoOutside s) (hl : l.Honest) (hs : step s l = some s') : NoOutside s' := by
  cases l with
  | acquire i => obtain ⟨-, ⟨p, -, rfl⟩ | ⟨-, rfl⟩⟩ := acquireStep_some hs <;> exact h
  | read i fresh =>
    rcases readStep_some hs with
      ⟨p, -, ⟨-, rfl⟩ | ⟨k, x, d, -, rfl⟩ | ⟨-, rfl⟩⟩ | ⟨-, ⟨k, x, d, -, rfl⟩ | ⟨-, rfl⟩⟩
    exacts [h, h.deliver (by simp), h, h.deliver (by simp), h]
  | start i port =>
    obtain ⟨-, -, ⟨p, c, -, rfl⟩ | ⟨c, -, rfl⟩ | ⟨c, -, rfl⟩⟩ := startStep_some hs <;> exact h.launch
  | startFail i => rcases startFailStep_some hs with ⟨c, -, rfl⟩ | ⟨c, -, rfl⟩ <;> exact h
  | initConnect i =>
    rcases initConnectStep_some hs with
      ⟨c, port, ext, -, ⟨-, rfl⟩ | ⟨-, rfl⟩⟩ | ⟨c, port, -, ⟨-, rfl⟩ | ⟨-, rfl⟩⟩
    exacts [h.enqueue (by simp), h, h.enqueue (by simp), h]
  | publish i =>
    rcases publishStep_some hs with ⟨c, port, ext, -, rfl⟩ | ⟨c, port, -, rfl⟩
    · cases ext <;> exact h
    · exact h
  | sessionConnect i =>
    obtain ⟨c, port, -, ⟨-, rfl⟩ | ⟨-, rfl⟩⟩ := sessionConnectStep_some hs
    exacts [h.enqueue (by simp), h]
  | acceptInit port =>
    obtain ⟨S, conn, rest, hS, -, hq, rfl⟩ := acceptInitStep_some hs
    exact h.setServer hS (Server.seen_acceptInit_subset hq)
  | accept port =>
    obtain ⟨S, k, conn, rest, hS, -, hq, rfl⟩ := acceptStep_some hs
    exact h.setServer hS (Server.seen_accept_subset hq)
  | outside port payload => exact hl.elim

/-- In a run without outside processes no server sees one. -/
theorem noOutside_reachable {allowed : Label → Prop} {role : Nat → Role} {file : Bytes}
    {foreign : List SocketAddr} (hhon : ∀ l, allowed l → l.Honest)
    (h : Reachable allowed (Sys.init role file foreign) s) : NoOutside s := by
  induction h with
  | init => intro _ _ hS; cases hS
  | step _ hl hs ih => exact noOutside_step ih (hhon _ hl) hs

/-- A server that has seen no outside connection has not failed: its first
connection, if any, carried its cookie. -/
theorem Server.Ok.listening {S : Server} (hS : S.Ok)
    (hno : ∀ conn ∈ S.seen, conn.origin ≠ .outside) : S.Listening := by
  cases hf : S.initConn with
  | none => simp [Server.Listening, hS.awaiting hf]
  | some f => simp [Server.Listening, latched_of_honest hS hf (hno f (by simp [Server.seen, hf]))]

end SequoiaIpc.Protocol
