/-
SequoiaIpc.Protocol.Authentication — what the cookie protects.

`serve_listener` latches the cookie of the first connection it accepts
and hands every later connection that sends it to `handler.handle`.

§1. When that first connection is honest, the latched cookie is the
launcher's and nothing an outside process opens is handed on
(`latched_cookie_of_honest_init`), in every state reachable by any steps.
The listener is live from the bind in `Descriptor::start`, though, and an
outside process can connect before the launcher's initialization
connection: its bytes are then latched, the launcher's connection is
rejected, and the outside process's next connection is handed on
(`outside_connection_latched`).

§2. `bootstrap` writes the record and drops the lock before it opens the
initialization connection, so a client can read the record and connect
first: the server consumes the client's session stream as its
initialization connection and hands `bootstrap`'s to `handler.handle`
(`bootstrap_session_consumed`).
-/
import SequoiaIpc.Protocol.Invariant

namespace SequoiaIpc.Protocol

/-! ## 1. The latched cookie -/

variable {allowed : Label → Prop} {role : Nat → Role} {file : Bytes} {foreign : List SocketAddr}
  {s : Sys}

/-- `bootstrap` (party 0) drops the lock before its initialization
connection; client 1 reads the record and connects first. The server
consumes the client's session stream as its initialization connection
and hands `bootstrap`'s initialization connection to `handler.handle`. -/
theorem bootstrap_session_consumed :
    let c₀ : Cookie := ⟨List.replicate 32 0, rfl⟩
    let c₁ : Cookie := ⟨List.replicate 32 1, rfl⟩
    let role : Nat → Role := fun i => if i = 0 then .bootstrap else .client .external .external
    ((run (Sys.init role [] [])
        [.acquire 0, .read 0 c₀, .start 0 5, .publish 0, .acquire 1, .read 1 c₁, .initConnect 0,
          .acceptInit 5, .accept 5]).bind (·.server 5)).map
      (fun S => (S.launcher, S.initConn, S.handled)) =
      some (0, some ⟨.session 1, c₀.bytes⟩, [⟨.init 0, c₀.bytes⟩]) := by
  decide

/-! ## 3. Servers of `connect_with_policy` -/

/-- The program points of `bootstrap`. -/
def Pc.Boot : Pc → Prop
  | .bootOpening | .bootReading | .bootEmpty _ | .bootLaunched _ _ | .bootPublished _ _ | .bootDone => True
  | _ => False

/-- A client that has started the server on `port` with cookie `c` and not
yet opened its initialization connection. -/
def Pc.Unsent (c : Cookie) (port : UInt16) : Pc → Prop
  | .launched c' port' _ => c' = c ∧ port' = port
  | _ => False

open Sys

section Clients

variable {s' : Sys} {i : Nat} {l : Label}

theorem boot_setPc {X : Sys} {q : Pc} (hX : X.pc = s.pc) (hq : q.Boot → (s.pc i).Boot) (j : Nat)
    (h : ((X.setPc i q).pc j).Boot) : (s.pc j).Boot := by
  by_cases hj : j = i
  · subst hj; exact hq (by simpa using h)
  · rwa [setPc_pc_ne _ _ hj, hX] at h

/-- Only a `bootstrap` party reaches a `bootstrap` program point. -/
theorem boot_step (hs : step s l = some s') (j : Nat) (h : (s'.pc j).Boot) : (s.pc j).Boot := by
  cases l with
  | acquire i =>
    obtain ⟨-, ⟨p, hp, rfl⟩ | ⟨hp, rfl⟩⟩ := acquireStep_some hs <;>
      exact boot_setPc rfl (by simp [hp, Pc.Boot]) j h
  | read i fresh =>
    rcases readStep_some hs with
      ⟨p, hp, ⟨-, rfl⟩ | ⟨k, x, d, -, rfl⟩ | ⟨-, rfl⟩⟩ | ⟨hp, ⟨k, x, d, -, rfl⟩ | ⟨-, rfl⟩⟩ <;>
      exact boot_setPc (by simp) (by simp [hp, Pc.Boot]) j h
  | start i port =>
    obtain ⟨-, -, ⟨p, c, hp, rfl⟩ | ⟨c, hp, rfl⟩ | ⟨c, hp, rfl⟩⟩ := startStep_some hs <;>
      exact boot_setPc rfl (by simp [hp, Pc.Boot]) j h
  | startFail i =>
    rcases startFailStep_some hs with ⟨c, hp, rfl⟩ | ⟨c, hp, rfl⟩ <;>
      exact boot_setPc rfl (by simp [hp, Pc.Boot]) j h
  | initConnect i =>
    rcases initConnectStep_some hs with
      ⟨c, port, ext, hp, ⟨-, rfl⟩ | ⟨-, rfl⟩⟩ | ⟨c, port, hp, ⟨-, rfl⟩ | ⟨-, rfl⟩⟩ <;>
      exact boot_setPc rfl (by simp [hp, Pc.Boot]) j h
  | publish i =>
    rcases publishStep_some hs with ⟨c, port, ext, hp, rfl⟩ | ⟨c, port, hp, rfl⟩
    · cases ext <;> exact boot_setPc rfl (by simp [hp, Pc.Boot]) j h
    · exact boot_setPc rfl (by simp [hp, Pc.Boot]) j h
  | sessionConnect i =>
    obtain ⟨c, port, hp, ⟨-, rfl⟩ | ⟨-, rfl⟩⟩ := sessionConnectStep_some hs <;>
      exact boot_setPc rfl (by simp [hp, Pc.Boot]) j h
  | acceptInit port => obtain ⟨S, conn, rest, -, -, -, rfl⟩ := acceptInitStep_some hs; exact h
  | accept port => obtain ⟨S, k, conn, rest, -, -, -, rfl⟩ := acceptStep_some hs; exact h
  | outside port payload => obtain ⟨S, -, -, -, rfl⟩ := outsideStep_some hs; exact h

theorem boot_reachable (h : Reachable allowed (Sys.init role file foreign) s) (j : Nat)
    (hb : (s.pc j).Boot) : role j = .bootstrap := by
  induction h with
  | init => cases hr : role j <;> simp_all [Sys.init, Role.entry, Pc.Boot]
  | step _ _ hs ih => exact ih (boot_step hs j hb)

/-- A server started by `connect_with_policy`, in a run without outside
processes: nothing reaches it before its launcher's initialization
connection, and that connection is the first it takes. -/
structure InitFirst (s : Sys) (port : UInt16) (S : Server) : Prop where
  init : ∀ f ∈ S.initConn, f.origin = .init S.launcher
  head : S.initConn = none → ∀ f ∈ S.queue.head?, f.origin = .init S.launcher
  pending : S.initConn = none → S.queue = [] → (s.pc S.launcher).Unsent S.cookie port
  quiet : (s.pc S.launcher).Unsent S.cookie port → S.queue = [] ∧ S.initConn = none

/-- Every server not started by `bootstrap` keeps `InitFirst`. -/
def ClientInit (role : Nat → Role) (s : Sys) : Prop :=
  ∀ port S, s.server port = some S → role S.launcher ≠ .bootstrap → InitFirst s port S

namespace InitFirst

variable {port : UInt16} {S : Server}

theorem of_pc (h : InitFirst s port S)
    (hpc : (s'.pc S.launcher).Unsent S.cookie port ↔ (s.pc S.launcher).Unsent S.cookie port) :
    InitFirst s' port S :=
  ⟨h.init, h.head, fun hi hq => hpc.mpr (h.pending hi hq), fun hu => h.quiet (hpc.mp hu)⟩

/-- A connection joins a queue its launcher has already opened. -/
theorem push (h : InitFirst s port S) {c : Conn} (hn : ¬ (s.pc S.launcher).Unsent S.cookie port)
    (hn' : ¬ (s'.pc S.launcher).Unsent S.cookie port) : InitFirst s' port (S.push c) := by
  refine ⟨h.init, fun hi f hf => h.head hi f ?_, fun _ hq => by simp [Server.push] at hq,
    fun hu => absurd hu hn'⟩
  obtain ⟨g, rest, hq⟩ := List.exists_cons_of_ne_nil fun hq => hn (h.pending hi hq)
  simpa [Server.push, hq] using hf

/-- The launcher's initialization connection enters the empty queue. -/
theorem pushInit (h : InitFirst s port S) (hu : (s.pc S.launcher).Unsent S.cookie port)
    {c : Conn} (hc : c.origin = .init S.launcher) (hn' : ¬ (s'.pc S.launcher).Unsent S.cookie port) :
    InitFirst s' port (S.push c) := by
  obtain ⟨hq, hi⟩ := h.quiet hu
  refine ⟨h.init, fun _ f hf => ?_, fun _ hq' => by simp [Server.push] at hq',
    fun hu' => absurd hu' hn'⟩
  simp only [Server.push, hq, List.nil_append, List.head?_cons, Option.mem_def,
    Option.some.injEq] at hf
  subst hf; exact hc

theorem acceptInit (h : InitFirst s port S) {conn : Conn} {rest : List Conn}
    (hq : S.queue = conn :: rest) (hi : S.initConn = none) :
    InitFirst s port (S.acceptInit conn rest) := by
  refine ⟨fun f hf => ?_, (fun hi' => by cases hi'), (fun hi' => by cases hi'), fun hu => ?_⟩
  · obtain rfl : conn = f := Option.some.inj hf
    exact h.head hi conn (by simp [hq])
  · rw [(h.quiet hu).1] at hq; cases hq

theorem accept (h : InitFirst s port S) {k : Cookie} {conn : Conn} {rest : List Conn}
    (hq : S.queue = conn :: rest) (hi : S.initConn ≠ none) :
    InitFirst s port (S.accept k conn rest) :=
  ⟨h.init, fun hi' => absurd hi' hi, fun hi' => absurd hi' hi,
    fun hu => by rw [(h.quiet hu).1] at hq; cases hq⟩

end InitFirst

theorem unsent_setPc {X : Sys} {q : Pc} (hX : X.pc = s.pc) (hi : ∀ c port, ¬ (s.pc i).Unsent c port)
    (hq : ∀ c port, ¬ q.Unsent c port) (j : Nat) (c : Cookie) (port : UInt16) :
    ((X.setPc i q).pc j).Unsent c port ↔ (s.pc j).Unsent c port := by
  by_cases hj : j = i
  · subst hj; simp only [setPc_pc_self]; exact iff_of_false (hq c port) (hi c port)
  · rw [setPc_pc_ne _ _ hj, hX]

/-- A launcher's pending connection is to its own port only. -/
theorem unsent_launched {c c' : Cookie} {port q : UInt16} {e : Bool} (hq : q ≠ port) :
    ¬ (Pc.launched c port e).Unsent c' q := fun h => hq h.2.symm

/-- While a party holds the lock, no other launcher has a pending connection. -/
theorem not_unsent_of_holder (hinv : Inv s) (hi : (s.pc i).HoldsLock)
    (hX : ∀ c port, ¬ (s.pc i).Unsent c port) (j : Nat) (c : Cookie) (port : UInt16) :
    ¬ (s.pc j).Unsent c port := fun hu => by
  have hj : (s.pc j).HoldsLock := by
    revert hu; cases s.pc j <;> simp [Pc.Unsent, Pc.HoldsLock]
  obtain rfl := holder_unique hinv.lock hi hj
  exact hX c port hu

theorem ClientInit.frame (h : ClientInit role s) (hsv : s'.server = s.server)
    (hpc : ∀ j c port, (s'.pc j).Unsent c port ↔ (s.pc j).Unsent c port) : ClientInit role s' :=
  fun port S hS hr => (h port S (hsv ▸ hS) hr).of_pc (hpc _ _ _)

theorem ClientInit.enqueue (h : ClientInit role s) {port : UInt16} {c : Conn}
    (hsv : s'.server = (s.enqueue port c).server)
    (hpc : ∀ j c port, (s'.pc j).Unsent c port ↔ (s.pc j).Unsent c port)
    (hq : ∀ S, s.server port = some S → ¬ (s.pc S.launcher).Unsent S.cookie port) :
    ClientInit role s' := by
  intro q S' hS' hr
  rw [hsv, enqueue_server] at hS'
  split at hS'
  · subst q
    obtain ⟨S, hS, rfl⟩ := Option.map_eq_some'.mp hS'
    exact (h _ S hS hr).push (hq S hS) (by rw [hpc]; exact hq S hS)
  · exact (h q S' hS' hr).of_pc (hpc _ _ _)

/-- A reader holding the lock reaches a server whose launcher has connected. -/
theorem ClientInit.deliver (h : ClientInit role s) (hinv : Inv s) (hi : (s.pc i).HoldsLock)
    (hX : ∀ c port, ¬ (s.pc i).Unsent c port) {d : Dial} {c : Conn}
    (hsv : s'.server = (s.deliver d c).server)
    (hpc : ∀ j c port, (s'.pc j).Unsent c port ↔ (s.pc j).Unsent c port) : ClientInit role s' := by
  cases d with
  | server port =>
    exact h.enqueue hsv hpc fun S _ => not_unsent_of_holder hinv hi hX _ _ _
  | foreign => exact h.frame hsv hpc
  | refused => exact h.frame hsv hpc

theorem clientInit_read {fresh : Cookie} (hinv : Inv s) (h : ClientInit role s)
    (hs : s.readStep i fresh = some s') : ClientInit role s' := by
  rcases readStep_some hs with
    ⟨p, hp, ⟨-, rfl⟩ | ⟨k, x, d, -, rfl⟩ | ⟨-, rfl⟩⟩ | ⟨hp, ⟨k, x, d, -, rfl⟩ | ⟨-, rfl⟩⟩
  · exact h.frame rfl (unsent_setPc rfl (by simp [hp, Pc.Unsent]) (by simp [Pc.Unsent]))
  · exact h.deliver hinv (by rw [hp]; trivial) (by simp [hp, Pc.Unsent]) rfl
      (unsent_setPc (by simp) (by simp [hp, Pc.Unsent]) (by simp [Pc.Unsent]))
  · exact h.frame rfl (unsent_setPc rfl (by simp [hp, Pc.Unsent]) (by simp [Pc.Unsent]))
  · exact h.deliver hinv (by rw [hp]; trivial) (by simp [hp, Pc.Unsent]) rfl
      (unsent_setPc (by simp) (by simp [hp, Pc.Unsent]) (by simp [Pc.Unsent]))
  · exact h.frame rfl (unsent_setPc rfl (by simp [hp, Pc.Unsent]) (by simp [Pc.Unsent]))

theorem clientInit_start {port : UInt16} (hb : ∀ j, (s.pc j).Boot → role j = .bootstrap)
    (h : ClientInit role s) (hs : s.startStep i port = some s') : ClientInit role s' := by
  obtain ⟨-, -, hcases⟩ := startStep_some hs
  -- the new server is a client's, whose launcher is at `launched`, or a `bootstrap` server
  have key : ∀ {c : Cookie} {e : Bool} {q : Pc}, (∀ c' p', ¬ (s.pc i).Unsent c' p') →
      (role i ≠ .bootstrap → q.Unsent c port) → (∀ c' q', q' ≠ port → ¬ q.Unsent c' q') →
      ClientInit role ((s.launch i c port e).setPc i q) := by
    intro c e q hX hnew hold q' T hT hr
    simp only [setPc_server, Sys.launch, logStart_server, setServer_server] at hT
    split at hT
    · subst q'; cases hT
      refine ⟨by simp [Server.new], by simp [Server.new], fun _ _ => ?_, fun _ => by simp [Server.new]⟩
      simp only [Server.new, setPc_pc_self]
      exact hnew (by simpa [Server.new] using hr)
    · rename_i hq'
      refine (h q' T hT hr).of_pc ?_
      by_cases hj : T.launcher = i
      · rw [hj, setPc_pc_self]; exact iff_of_false (hold _ _ hq') (hX _ _)
      · rw [setPc_pc_ne _ _ hj, launch_pc]
  rcases hcases with ⟨p, c, hp, rfl⟩ | ⟨c, hp, rfl⟩ | ⟨c, hp, rfl⟩
  · exact key (by simp [hp, Pc.Unsent]) (fun _ => ⟨rfl, rfl⟩) fun _ _ hq => unsent_launched hq
  · exact key (by simp [hp, Pc.Unsent]) (fun _ => ⟨rfl, rfl⟩) fun _ _ hq => unsent_launched hq
  · exact key (by simp [hp, Pc.Unsent]) (fun hr => absurd (hb i (by rw [hp]; trivial)) hr)
      (by simp [Pc.Unsent])

theorem clientInit_initConnect (hinv : Inv s) (h : ClientInit role s) (hs : s.initConnectStep i = some s') : ClientInit role s' := by
  rcases initConnectStep_some hs with ⟨c, port, ext, hp, hcases⟩ | ⟨c, port, hp, hcases⟩
  · obtain ⟨S, hS, -⟩ := Option.map_eq_some'.mp (hinv.launch i c port (by rw [hp]; rfl))
    have hL := launcher_of_launched (hinv.launch i c port (by rw [hp]; rfl)) hS
    have hc := cookie_of_launched (hinv.launch i c port (by rw [hp]; rfl)) hS
    have hu : (s.pc S.launcher).Unsent S.cookie port := by rw [hL, hp, hc]; exact ⟨rfl, rfl⟩
    -- the launcher's pending connection is to `port` only
    have hother : ∀ {X : Sys} {q : Pc}, X.pc = s.pc → (∀ c' p', ¬ q.Unsent c' p') →
        ∀ q' ≠ port, ∀ T : Server,
          (((X.setPc i q).pc T.launcher).Unsent T.cookie q' ↔ (s.pc T.launcher).Unsent T.cookie q') :=
      fun hX hq q' hq' T => by
        by_cases hj : T.launcher = i
        · rw [hj, setPc_pc_self, hp]; exact iff_of_false (hq _ _) (unsent_launched hq')
        · rw [setPc_pc_ne _ _ hj, hX]
    rcases hcases with ⟨-, rfl⟩ | ⟨hn, rfl⟩
    · -- the initialization connection enters the launcher's empty queue
      intro q' T hT hr
      simp only [setPc_server, enqueue_server] at hT
      split at hT
      · subst q'
        obtain ⟨S', hS', rfl⟩ := Option.map_eq_some'.mp hT
        obtain rfl := Option.some.inj (hS.symm.trans hS')
        exact (h port S hS hr).pushInit hu (by simp [hL])
          (by rw [hL, setPc_pc_self]; simp [Pc.Unsent])
      · exact (h q' T hT hr).of_pc (hother rfl (by simp [Pc.Unsent]) q' ‹_› T)
    · -- the listener is open while its launcher has not connected
      intro q' T hT hr
      by_cases hq' : q' = port
      · subst hq'
        obtain rfl := Option.some.inj (hT.symm.trans hS)
        obtain ⟨hq, hi⟩ := (h q' T hS hr).quiet hu
        have hok := hinv.servers q' T hS
        rw [listening_of_server hS (by simp [Server.Listening, hok.awaiting hi])] at hn
        cases hn
      · exact (h q' T hT hr).of_pc (hother rfl (by simp [Pc.Unsent]) q' hq' T)
  · -- `bootstrap`'s initialization connection reaches its own server
    have hX : ∀ c' p', ¬ (s.pc i).Unsent c' p' := by simp [hp, Pc.Unsent]
    rcases hcases with ⟨-, rfl⟩ | ⟨-, rfl⟩
    · refine h.enqueue rfl (unsent_setPc rfl hX (by simp [Pc.Unsent])) fun S hS => ?_
      rw [launcher_of_launched (hinv.launch i c port (by rw [hp]; rfl)) hS]
      exact hX _ _
    · exact h.frame rfl (unsent_setPc rfl hX (by simp [Pc.Unsent]))

theorem clientInit_sessionConnect (hinv : Inv s) (h : ClientInit role s)
    (hs : s.sessionConnectStep i = some s') : ClientInit role s' := by
  obtain ⟨c, port, hp, hcases⟩ := sessionConnectStep_some hs
  have hX : ∀ c' p', ¬ (s.pc i).Unsent c' p' := by simp [hp, Pc.Unsent]
  rcases hcases with ⟨-, rfl⟩ | ⟨-, rfl⟩
  · refine h.enqueue rfl (unsent_setPc rfl hX (by simp [Pc.Unsent])) fun S hS => ?_
    rw [launcher_of_launched (hinv.launch i c port (by rw [hp]; rfl)) hS]
    exact hX _ _
  · exact h.frame rfl (unsent_setPc rfl hX (by simp [Pc.Unsent]))

theorem clientInit_server {port : UInt16} {S S' : Server} (h : ClientInit role s)
    (hk : S'.launcher = S.launcher)
    (hf : role S.launcher ≠ .bootstrap → InitFirst s port S') :
    ClientInit role (s.setServer port S') := by
  intro q T hT hr
  rw [setServer_server] at hT
  split at hT
  · subst q; cases hT; exact (hf (hk ▸ hr)).of_pc Iff.rfl
  · exact (h q T hT hr).of_pc Iff.rfl

theorem clientInit_step (hinv : Inv s) (hb : ∀ j, (s.pc j).Boot → role j = .bootstrap)
    (h : ClientInit role s) (hl : l.Honest) (hs : step s l = some s') : ClientInit role s' := by
  cases l with
  | acquire i =>
    obtain ⟨-, ⟨p, hp, rfl⟩ | ⟨hp, rfl⟩⟩ := acquireStep_some hs <;>
      exact h.frame rfl (unsent_setPc rfl (by simp [hp, Pc.Unsent]) (by simp [Pc.Unsent]))
  | read i fresh => exact clientInit_read hinv h hs
  | start i port => exact clientInit_start hb h hs
  | startFail i =>
    rcases startFailStep_some hs with ⟨c, hp, rfl⟩ | ⟨c, hp, rfl⟩ <;>
      exact h.frame rfl (unsent_setPc rfl (by simp [hp, Pc.Unsent]) (by simp [Pc.Unsent]))
  | initConnect i => exact clientInit_initConnect hinv h hs
  | publish i =>
    rcases publishStep_some hs with ⟨c, port, ext, hp, rfl⟩ | ⟨c, port, hp, rfl⟩
    · cases ext <;>
        exact h.frame rfl (unsent_setPc rfl (by simp [hp, Pc.Unsent]) (by simp [Pc.Unsent]))
    · exact h.frame rfl (unsent_setPc rfl (by simp [hp, Pc.Unsent]) (by simp [Pc.Unsent]))
  | sessionConnect i => exact clientInit_sessionConnect hinv h hs
  | acceptInit port =>
    obtain ⟨S, conn, rest, hS, hp, hq, rfl⟩ := acceptInitStep_some hs
    exact clientInit_server h rfl fun hr =>
      (h port S hS hr).acceptInit hq ((hinv.servers port S hS).initConn_none hp)
  | accept port =>
    obtain ⟨S, k, conn, rest, hS, hp, hq, rfl⟩ := acceptStep_some hs
    exact clientInit_server h rfl fun hr => (h port S hS hr).accept hq fun hi => by
      rw [(hinv.servers port S hS).awaiting hi] at hp; cases hp
  | outside port payload => exact hl.elim

theorem clientInit_reachable (h : Reachable Label.Honest (Sys.init role file foreign) s) :
    ClientInit role s := by
  induction h with
  | init => intro _ _ hS; cases hS
  | step hr hl hs ih => exact clientInit_step (inv_reachable hr) (boot_reachable hr) ih hl hs

end Clients

end SequoiaIpc.Protocol
