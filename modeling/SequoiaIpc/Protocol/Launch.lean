/-
SequoiaIpc.Protocol.Launch — one server for many clients.

Clients run `connect_with_policy(External)` or `connect_with_policy(Robust)`
on one rendezvous path whose file holds no record. In every run without
outside processes in which no `start(true)` fails, the system goes
through three stages (`Stage`): no server yet; one client has started
its server and still holds the lock; the record of that server is on
file, and every client that reads it joins it. So `Descriptor::start` is
called once at most, no client fails, and once every client has
returned they all hold the same cookie and address
(`endpoint_of_returned`); `Protocol.Liveness` shows that they return.

A failed `start(true)` breaks this for `External`: the client returns
the error and releases the lock over a file without a record, and the
next client starts a second server (`external_start_failure`).

`Internal` is the other way round (§4): `connect_with_policy` writes the
record only after `start(true)`, so every `Internal` client finds no
record, starts its own server with `start(false)` and connects to it
(`internal_own_server`).
-/
import SequoiaIpc.Protocol.Invariant

namespace SequoiaIpc.Protocol

open Sys

/-! ## 1. Stages -/

/-- The program points of `connect_with_policy` a one-launch run uses. -/
def Pc.Client : Pc → Prop
  | .idle | .opening _ | .reading _ | .empty _ _ | .launched _ _ _ | .initSent _ _ _
  | .connecting _ _ | .connected _ _ => True
  | _ => False

/-- Before any launch: a client whose policy starts its server externally. -/
def Pc.Fresh : Pc → Prop
  | .idle => True
  | .opening p | .reading p | .empty p _ => p ≠ .internal
  | _ => False

/-- While the launcher holds the lock. -/
def Pc.Waiting : Pc → Prop
  | .idle | .opening _ => True
  | _ => False

/-- Once the record of the server on `port` with cookie `c` is on file. -/
def Pc.Joined (c : Cookie) (port : UInt16) : Pc → Prop
  | .idle | .opening _ | .reading _ => True
  | .connecting c' port' => c' = c ∧ port' = port
  | .connected c' x => c' = c ∧ x = .localhost port
  | _ => False

/-- The listening server on `port` with cookie `c`, and no other. -/
structure OnlyServer (s : Sys) (c : Cookie) (port : UInt16) : Prop where
  server : ∃ S, s.server port = some S ∧ S.cookie = c ∧ S.Listening
  others : ∀ q, q ≠ port → s.server q = none

/-- The stages of a run of clients that start their server externally. -/
inductive Stage (s : Sys) : Prop
  /-- no server yet -/
  | fresh (starts : s.starts = []) (servers : ∀ port, s.server port = none)
      (file : s.file.length < Cookie.SIZE) (pcs : ∀ j, (s.pc j).Fresh)
  /-- `L` has started the server and holds the lock -/
  | launching (L : Nat) (c : Cookie) (port : UInt16) (starts : s.starts = [⟨L, true, true⟩])
      (server : OnlyServer s c port)
      (launcher : s.pc L = .launched c port true ∨ s.pc L = .initSent c port true)
      (others : ∀ j ≠ L, (s.pc j).Waiting)
  /-- the record of the server is on file -/
  | published (L : Nat) (c : Cookie) (port : UInt16) (starts : s.starts = [⟨L, true, true⟩])
      (server : OnlyServer s c port) (record : recordOf s.file = some (c, .localhost port))
      (pcs : ∀ j, (s.pc j).Joined c port)

variable {s s' : Sys} {i : Nat} {c : Cookie} {port : UInt16}

theorem Pc.Fresh.client {p : Pc} (h : p.Fresh) : p.Client := by
  cases p <;> simp only [Pc.Fresh, Pc.Client] at h ⊢

theorem Pc.Joined.client {p : Pc} (h : p.Joined c port) : p.Client := by
  cases p <;> simp only [Pc.Joined, Pc.Client] at h ⊢

theorem Pc.Waiting.client {p : Pc} (h : p.Waiting) : p.Client := by
  cases p <;> simp only [Pc.Waiting, Pc.Client] at h ⊢

theorem Pc.Fresh.waiting {p : Pc} (h : p.Fresh) (hn : ¬ p.HoldsLock) : p.Waiting := by
  cases p <;> simp only [Pc.Fresh, Pc.HoldsLock, Pc.Waiting, not_true_eq_false] at h hn ⊢

theorem Pc.Waiting.joined {p : Pc} (h : p.Waiting) : p.Joined c port := by
  cases p <;> simp only [Pc.Waiting, Pc.Joined] at h ⊢

theorem Stage.client (h : Stage s) (j : Nat) : (s.pc j).Client := by
  rcases h with ⟨-, -, -, hpcs⟩ | ⟨L, c, port, -, -, hL, ho⟩ | ⟨L, c, port, -, -, -, hpcs⟩
  · exact (hpcs j).client
  · by_cases hj : j = L
    · subst hj; rcases hL with h | h <;> rw [h] <;> trivial
    · exact (ho j hj).client
  · exact (hpcs j).client

theorem startsExternal_of_ne {p : IPCPolicy} (h : p ≠ .internal) : p.startsExternal = true := by
  cases p <;> simp_all [IPCPolicy.startsExternal]

/-- Only the launcher is past `opening` while it holds the lock. -/
theorem launcher_of_not_waiting {L : Nat} (ho : ∀ j ≠ L, (s.pc j).Waiting) (j : Nat)
    (hj : ¬ (s.pc j).Waiting) : j = L :=
  by_contra fun h => hj (ho j h)

theorem forall_setPc {P : Pc → Prop} {X : Sys} {q : Pc} (hX : X.pc = s.pc) (h : ∀ j, P (s.pc j))
    (hq : P q) : ∀ j, P ((X.setPc i q).pc j) := by
  intro j
  by_cases hj : j = i
  · subst hj; simpa using hq
  · rw [setPc_pc_ne _ _ hj, hX]; exact h j

theorem OnlyServer.of_server_eq (h : OnlyServer s c port) (he : s'.server = s.server) :
    OnlyServer s' c port :=
  ⟨he ▸ h.server, fun q hq => he ▸ h.others q hq⟩

theorem OnlyServer.listening (h : OnlyServer s c port) : s.listening port = true := by
  obtain ⟨S, hS, -, hl⟩ := h.server
  exact listening_of_server hS hl

theorem OnlyServer.enqueue (h : OnlyServer s c port) {q : UInt16} {conn : Conn} :
    OnlyServer (s.enqueue q conn) c port := by
  refine ⟨?_, fun q' hq' => by rw [enqueue_server, h.others q' hq']; simp⟩
  obtain ⟨S, hS, hc, hl⟩ := h.server
  rw [enqueue_server, hS]
  split
  · exact ⟨S.push conn, rfl, hc, hl⟩
  · exact ⟨S, rfl, hc, hl⟩

theorem OnlyServer.deliver (h : OnlyServer s c port) {d : Dial} {conn : Conn} :
    OnlyServer (s.deliver d conn) c port := by
  cases d
  exacts [h.enqueue, h, h]

theorem OnlyServer.setServer (h : OnlyServer s c port) {q : UInt16} {S S' : Server}
    (hS : s.server q = some S) (hc : S'.cookie = S.cookie) (hl : S.Listening → S'.Listening) :
    OnlyServer (s.setServer q S') c port := by
  have hq : q = port := by_contra fun hq => by rw [h.others q hq] at hS; cases hS
  subst hq
  obtain ⟨T, hT, hTc, hTl⟩ := h.server
  obtain rfl := Option.some.inj (hT.symm.trans hS)
  exact ⟨⟨S', by simp [setServer_server], hc.trans hTc, hl hTl⟩,
    fun q' hq' => by rw [setServer_server, if_neg hq']; exact h.others q' hq'⟩

/-- The first connection of a server in a run without outside processes
carries its cookie, so the server keeps listening. -/
theorem listening_acceptInit (hinv : Inv s) (hno : NoOutside s) {S : Server} {conn : Conn}
    {rest : List Conn} (hS : s.server port = some S) (hq : S.queue = conn :: rest) :
    (S.acceptInit conn rest).Listening := by
  have hm : conn ∈ S.seen := by simp [Server.seen, hq]
  have hp := ((hinv.servers port S hS).fits conn hm).1 (hno port S hS conn hm)
  simp [Server.acceptInit, Server.Listening, latchPhase, hp]

/-! ## 2. Every step keeps a stage -/

theorem stage_acquire (hinv : Inv s) (hst : Stage s) (hs : s.acquireStep i = some s') : Stage s' := by
  obtain ⟨hl, ⟨p, hp, rfl⟩ | ⟨hp, rfl⟩⟩ := acquireStep_some hs
  · rcases hst with ⟨hst, hsv, hf, hpcs⟩ | ⟨L, c, port, -, -, hL, -⟩ | ⟨L, c, port, hst, hsv, hr, hpcs⟩
    · have := hpcs i
      rw [hp] at this
      exact .fresh hst hsv hf (forall_setPc rfl hpcs this)
    · have := (hinv.lock L).mp (by rcases hL with h | h <;> rw [h] <;> trivial)
      rw [hl] at this; cases this
    · exact .published L c port hst (hsv.of_server_eq rfl) hr (forall_setPc rfl hpcs trivial)
  · simpa [hp, Pc.Client] using hst.client i

theorem stage_read {fresh : Cookie} (hst : Stage s) (hs : s.readStep i fresh = some s') :
    Stage s' := by
  rcases readStep_some hs with ⟨p, hp, hcases⟩ | ⟨hp, -⟩
  · rcases hst with ⟨hst, hsv, hf, hpcs⟩ | ⟨L, c, port, -, -, hL, ho⟩ | ⟨L, c, port, hst, hsv, hr, hpcs⟩
    · -- no record: on to `start`
      have hnone := found_none_iff.mpr hf
      rcases hcases with ⟨-, rfl⟩ | ⟨k, x, d, hfd, -⟩ | ⟨hfd, -⟩
      · have := hpcs i
        rw [hp] at this
        exact .fresh hst hsv hf (forall_setPc rfl hpcs this)
      · rw [hnone] at hfd; cases hfd
      · rw [hnone] at hfd; cases hfd
    · have := launcher_of_not_waiting ho i (by simp [hp, Pc.Waiting])
      subst this; rcases hL with h | h <;> rw [h] at hp <;> cases hp
    · -- the record: the client joins its server
      have hfd := found_of_record hr (dial_localhost hsv.listening) (by simp)
      rcases hcases with ⟨hn, -⟩ | ⟨k, x, d, hfd', rfl⟩ | ⟨hn, -⟩
      · rw [hfd] at hn; cases hn
      · rw [hfd] at hfd'
        obtain ⟨rfl, rfl, rfl⟩ : c = k ∧ SocketAddr.localhost port = x ∧ Dial.server port = d := by
          simpa using hfd'
        exact .published L c port hst (hsv.deliver.of_server_eq rfl) (by simpa using hr)
          (forall_setPc (by simp) hpcs ⟨rfl, rfl⟩)
      · rw [hfd] at hn; cases hn
  · simpa [hp, Pc.Client] using hst.client i

theorem stage_start (hinv : Inv s) (hst : Stage s) (hs : s.startStep i port = some s') :
    Stage s' := by
  obtain ⟨hnone, -, ⟨p, c, hp, rfl⟩ | ⟨c, hp, -⟩ | ⟨c, hp, -⟩⟩ := startStep_some hs
  · rcases hst with ⟨hst, hsv, -, hpcs⟩ | ⟨L, c', port', -, -, hL, ho⟩ | ⟨L, c', port', -, -, -, hpcs⟩
    · -- the first launch
      have hext : p.startsExternal = true := startsExternal_of_ne (by simpa [hp, Pc.Fresh] using hpcs i)
      have hi : (s.pc i).HoldsLock := by rw [hp]; trivial
      rw [hext]
      refine .launching i c port (by simp [Sys.launch, hst, hext])
        ⟨⟨Server.new c i true, by simp [Sys.launch, setServer_server], rfl, by
            simp [Server.Listening, Server.new]⟩,
          fun q hq => by simp [Sys.launch, setServer_server, hq, hsv q]⟩
        (.inl (by simp)) fun j hj => ?_
      rw [setPc_pc_ne _ _ hj, launch_pc]
      exact (hpcs j).waiting fun hh => hj (holder_unique hinv.lock hi hh).symm
    · have := launcher_of_not_waiting ho i (by simp [hp, Pc.Waiting])
      subst this; rcases hL with h | h <;> rw [h] at hp <;> cases hp
    · simpa [hp, Pc.Joined] using hpcs i
  · simpa [hp, Pc.Client] using hst.client i
  · simpa [hp, Pc.Client] using hst.client i

theorem stage_initConnect (hst : Stage s) (hs : s.initConnectStep i = some s') : Stage s' := by
  rcases initConnectStep_some hs with ⟨c', port', ext, hp, hcases⟩ | ⟨c', port', hp, -⟩
  · rcases hst with ⟨-, -, -, hpcs⟩ | ⟨L, c, port, hst, hsv, hL, ho⟩ | ⟨L, c, port, -, -, -, hpcs⟩
    · simpa [hp, Pc.Fresh] using hpcs i
    · -- the launcher's initialization connection
      have := launcher_of_not_waiting ho i (by simp [hp, Pc.Waiting])
      subst this
      obtain ⟨rfl, rfl, rfl⟩ : c' = c ∧ port' = port ∧ ext = true := by
        rcases hL with h | h <;> rw [h] at hp <;> simp_all
      rcases hcases with ⟨-, rfl⟩ | ⟨hn, -⟩
      · exact .launching i c' port' hst (hsv.enqueue.of_server_eq rfl) (.inr (by simp))
          fun j hj => by rw [setPc_pc_ne _ _ hj, enqueue_pc]; exact ho j hj
      · rw [hsv.listening] at hn; cases hn
    · simpa [hp, Pc.Joined] using hpcs i
  · simpa [hp, Pc.Client] using hst.client i

theorem stage_publish (hst : Stage s) (hs : s.publishStep i = some s') : Stage s' := by
  rcases publishStep_some hs with ⟨c', port', ext, hp, rfl⟩ | ⟨c', port', hp, -⟩
  · rcases hst with ⟨-, -, -, hpcs⟩ | ⟨L, c, port, hst, hsv, hL, ho⟩ | ⟨L, c, port, -, -, -, hpcs⟩
    · simpa [hp, Pc.Fresh] using hpcs i
    · -- the record is written and the lock released
      have := launcher_of_not_waiting ho i (by simp [hp, Pc.Waiting])
      subst this
      obtain ⟨rfl, rfl, rfl⟩ : c' = c ∧ port' = port ∧ ext = true := by
        rcases hL with h | h <;> rw [h] at hp <;> simp_all
      refine .published i c' port' hst (hsv.of_server_eq rfl) (by simp [SocketAddr.localhost])
        fun j => ?_
      by_cases hj : j = i
      · subst hj; simp [Pc.Joined]
      · rw [setPc_pc_ne _ _ hj]; exact (ho j hj).joined
    · simpa [hp, Pc.Joined] using hpcs i
  · simpa [hp, Pc.Client] using hst.client i

theorem stage_sessionConnect (hst : Stage s) (hs : s.sessionConnectStep i = some s') : Stage s' := by
  obtain ⟨c', port', hp, hcases⟩ := sessionConnectStep_some hs
  rcases hst with ⟨-, -, -, hpcs⟩ | ⟨L, c, port, -, -, hL, ho⟩ | ⟨L, c, port, hst, hsv, hr, hpcs⟩
  · simpa [hp, Pc.Fresh] using hpcs i
  · have := launcher_of_not_waiting ho i (by simp [hp, Pc.Waiting])
    subst this; rcases hL with h | h <;> rw [h] at hp <;> cases hp
  · -- the launcher connects to its own server
    obtain ⟨rfl, rfl⟩ : c' = c ∧ port' = port := by simpa [hp, Pc.Joined] using hpcs i
    rcases hcases with ⟨-, rfl⟩ | ⟨hn, -⟩
    · exact .published L c' port' hst (hsv.enqueue.of_server_eq rfl) hr (forall_setPc rfl hpcs ⟨rfl, rfl⟩)
    · rw [hsv.listening] at hn; cases hn

/-- A server step keeps the stage: the parties and the file stay, and the
server keeps its cookie and keeps listening. -/
theorem stage_server {q : UInt16} {S S' : Server} (hst : Stage s) (hS : s.server q = some S)
    (hc : S'.cookie = S.cookie) (hl : S.Listening → S'.Listening) :
    Stage (s.setServer q S') := by
  rcases hst with ⟨-, hsv, -, -⟩ | ⟨L, c, port, hst, hsv, hL, ho⟩ | ⟨L, c, port, hst, hsv, hr, hpcs⟩
  · rw [hsv q] at hS; cases hS
  · exact .launching L c port hst (hsv.setServer hS hc hl) hL ho
  · exact .published L c port hst (hsv.setServer hS hc hl) hr hpcs

theorem stage_step (hinv : Inv s) (hno : NoOutside s) (hst : Stage s) :
    ∀ {l : Label}, l.Honest ∧ l.NoStartFail → step s l = some s' → Stage s'
  | .acquire _, _, hs => stage_acquire hinv hst hs
  | .read _ _, _, hs => stage_read hst hs
  | .start _ _, _, hs => stage_start hinv hst hs
  | .startFail _, hl, _ => hl.2.elim
  | .initConnect _, _, hs => stage_initConnect hst hs
  | .publish _, _, hs => stage_publish hst hs
  | .sessionConnect _, _, hs => stage_sessionConnect hst hs
  | .acceptInit _, _, hs => by
    obtain ⟨S, conn, rest, hS, -, hq, rfl⟩ := acceptInitStep_some hs
    exact stage_server hst hS rfl fun _ => listening_acceptInit hinv hno hS hq
  | .accept _, _, hs => by
    obtain ⟨S, k, conn, rest, hS, -, -, rfl⟩ := acceptStep_some hs
    exact stage_server hst hS rfl id
  | .outside _ _, hl, _ => hl.1.elim

/-! ## 3. One start, one endpoint -/

section Runs

variable {role : Nat → Role} {file : Bytes} {foreign : List SocketAddr}

theorem stage_reachable (hrole : ∀ j, role j = .absent ∨ ∃ p q, role j = .client p q ∧ p ≠ .internal)
    (hfile : file.length < Cookie.SIZE)
    (h : Reachable (fun l => l.Honest ∧ l.NoStartFail) (Sys.init role file foreign) s) : Stage s := by
  induction h with
  | init =>
    refine .fresh rfl (fun _ => rfl) hfile fun j => ?_
    rcases hrole j with hr | ⟨p, q, hr, hp⟩
    · simp [Sys.init, Role.entry, Pc.Fresh, hr]
    · simp [Sys.init, Role.entry, Pc.Fresh, hr, hp]
  | step hr hl hs ih =>
    exact stage_step (inv_reachable hr) (noOutside_reachable (fun _ h => h.1) hr) ih hl hs

/-- Once every client has returned, there was one start, and every client
holds the endpoint of its server. -/
theorem endpoint_of_returned
    (h : Reachable (fun l => l.Honest ∧ l.NoStartFail) (Sys.init role file foreign) s)
    (hst : Stage s) (hN : ∃ j, role j ≠ .absent)
    (hdone : ∀ j, role j ≠ .absent → ∃ c x, s.pc j = .connected c x) :
    ∃ L c port, s.starts = [⟨L, true, true⟩] ∧
      ∀ j, role j ≠ .absent → s.pc j = .connected c (.localhost port) := by
  obtain ⟨j₀, hj₀⟩ := hN
  rcases hst with ⟨-, -, -, hpcs⟩ | ⟨L, c, port, -, -, hL, -⟩ | ⟨L, c, port, hs, -, -, hpcs⟩
  · -- nobody has launched: no client can have returned
    obtain ⟨c, x, hc⟩ := hdone j₀ hj₀
    simpa [hc, Pc.Fresh] using hpcs j₀
  · -- the launcher has not returned
    have hLr : role L ≠ .absent := fun ha => by
      rcases hL with h' | h' <;> simp [(idle_iff_absent h L).mpr ha] at h'
    obtain ⟨c', x, hc⟩ := hdone L hLr
    rcases hL with h' | h' <;> rw [h'] at hc <;> cases hc
  · refine ⟨L, c, port, hs, fun j hj => ?_⟩
    obtain ⟨c', x, hc⟩ := hdone j hj
    obtain ⟨rfl, rfl⟩ : c' = c ∧ x = .localhost port := by simpa [hc, Pc.Joined] using hpcs j
    exact hc

end Runs

/-- Client 0's `start(true)` fails: it returns the error without a
session and releases the lock over an empty file, and client 1 makes a
second `start` call and connects to its own server. -/
theorem external_start_failure :
    let c₀ : Cookie := ⟨List.replicate 32 0, rfl⟩
    let c₁ : Cookie := ⟨List.replicate 32 1, rfl⟩
    let role : Nat → Role := fun i => if i < 2 then .client .external .external else .absent
    (run (Sys.init role [] [])
        [.acquire 0, .read 0 c₀, .startFail 0, .acquire 1, .read 1 c₁, .start 1 5, .initConnect 1,
          .publish 1, .sessionConnect 1]).map (fun s => (s.starts, s.pc 0, s.pc 1)) =
      some ([⟨0, true, false⟩, ⟨1, true, true⟩], .failed, .connected c₁ (.localhost 5)) := by
  decide

/-! ## 4. `Internal` clients: a server each -/

/-- The program points of an `Internal` client that has not failed. -/
def Pc.Internal : Pc → Prop
  | .idle | .connecting _ _ | .connected _ _ => True
  | .opening p | .reading p | .empty p _ => p = .internal
  | .launched _ _ e | .initSent _ _ e => e = false
  | _ => False

/-- Every client that has returned is on a server it started, with the
cookie it made. -/
def OwnServer (s : Sys) : Prop :=
  ∀ j c x, s.pc j = .connected c x →
    ∃ port, x = .localhost port ∧ (s.server port).map Server.key = some (c, j)

/-- What a run of `Internal` clients keeps: the file as it was, only
successful `start(false)` calls, and every client on its own server. -/
structure InternalRun (file : Bytes) (s : Sys) : Prop where
  file : s.file = file
  starts : ∀ call ∈ s.starts, call.external = false ∧ call.ok = true
  pcs : ∀ j, (s.pc j).Internal
  own : OwnServer s

theorem OwnServer.frame (h : OwnServer s) (hpc : ∀ j ≠ i, s'.pc j = s.pc j)
    (hsv : ∀ port k, (s.server port).map Server.key = some k →
      (s'.server port).map Server.key = some k)
    (hi : ∀ c x, s'.pc i = .connected c x →
      ∃ port, x = .localhost port ∧ (s'.server port).map Server.key = some (c, i)) :
    OwnServer s' := by
  intro j c x hj
  by_cases hji : j = i
  · subst hji; exact hi c x hj
  · rw [hpc j hji] at hj
    obtain ⟨port, hx, hk⟩ := h j c x hj
    exact ⟨port, hx, hsv port _ hk⟩

/-- A client step to a program point other than `connected`. -/
theorem InternalRun.move {file : Bytes} (h : InternalRun file s) {X : Sys} {q : Pc}
    (hX : X.pc = s.pc) (hf : X.file = file)
    (hst : ∀ call ∈ X.starts, call.external = false ∧ call.ok = true)
    (hsv : ∀ port k, (s.server port).map Server.key = some k →
      (X.server port).map Server.key = some k)
    (hq : q.Internal) (hqc : ∀ c x, q ≠ .connected c x) : InternalRun file (X.setPc i q) :=
  ⟨hf, hst, forall_setPc hX h.pcs hq,
    h.own.frame (fun j hj => by rw [setPc_pc_ne _ _ hj, hX]) hsv
      fun c x hc => absurd (by simpa using hc) (hqc c x)⟩

/-- In a run without outside processes, the server a client has started is
listening. -/
theorem listening_of_launch (hinv : Inv s) (hno : NoOutside s)
    (hl : (s.pc i).launch = some (c, port)) : s.listening port = true := by
  obtain ⟨S, hS, -⟩ := Option.map_eq_some'.mp (hinv.launch i c port hl)
  exact listening_of_server hS ((hinv.servers port S hS).listening (hno port S hS))

theorem internalRun_step {file : Bytes} (hfile : file.length < Cookie.SIZE) (hinv : Inv s)
    (hno : NoOutside s) (h : InternalRun file s) :
    ∀ {l : Label}, l.Honest → step s l = some s' → InternalRun file s'
  | .acquire i, _, hs => by
    obtain ⟨-, ⟨p, hp, rfl⟩ | ⟨hp, -⟩⟩ := acquireStep_some hs
    · exact h.move rfl h.file h.starts (fun _ _ => id) (by simpa [hp, Pc.Internal] using h.pcs i)
        (by simp)
    · simpa [hp, Pc.Internal] using h.pcs i
  | .read i fresh, _, hs => by
    have hnone : s.found = .none := found_none_iff.mpr (h.file ▸ hfile)
    rcases readStep_some hs with ⟨p, hp, ⟨-, rfl⟩ | ⟨k, x, d, hfd, -⟩ | ⟨hfd, -⟩⟩ | ⟨hp, -⟩
    · -- no record: on to `start(false)`
      exact h.move rfl h.file h.starts (fun _ _ => id) (by simpa [hp, Pc.Internal] using h.pcs i)
        (by simp)
    · rw [hnone] at hfd; cases hfd
    · rw [hnone] at hfd; cases hfd
    · simpa [hp, Pc.Internal] using h.pcs i
  | .start i port, _, hs => by
    obtain ⟨hnone, -, ⟨p, c, hp, rfl⟩ | ⟨c, hp, -⟩ | ⟨c, hp, -⟩⟩ := startStep_some hs
    · obtain rfl : p = .internal := by simpa [hp, Pc.Internal] using h.pcs i
      refine h.move rfl h.file (fun call hc => ?_) (launch_grow hnone) rfl (by simp)
      rcases List.mem_append.mp hc with hc | hc
      · exact h.starts call hc
      · simp only [List.mem_singleton] at hc; subst hc; exact ⟨rfl, rfl⟩
    · simpa [hp, Pc.Internal] using h.pcs i
    · simpa [hp, Pc.Internal] using h.pcs i
  | .startFail i, _, hs => by
    rcases startFailStep_some hs with ⟨c, hp, -⟩ | ⟨c, hp, -⟩ <;>
      simpa [hp, Pc.Internal] using h.pcs i
  | .initConnect i, _, hs => by
    rcases initConnectStep_some hs with ⟨c, port, ext, hp, ⟨-, rfl⟩ | ⟨hn, -⟩⟩ | ⟨c, port, hp, -⟩
    · exact h.move (by simp) h.file h.starts (fun port' _ hk => (sameServers_enqueue port').trans hk)
        (by simpa [hp, Pc.Internal] using h.pcs i) (by simp)
    · rw [listening_of_launch hinv hno (by rw [hp]; rfl)] at hn; cases hn
    · simpa [hp, Pc.Internal] using h.pcs i
  | .publish i, _, hs => by
    rcases publishStep_some hs with ⟨c, port, ext, hp, rfl⟩ | ⟨c, port, hp, -⟩
    · -- `external` is false: no record is written
      obtain rfl : ext = false := by simpa [hp, Pc.Internal] using h.pcs i
      exact h.move rfl h.file h.starts (fun _ _ => id) trivial (by simp)
    · simpa [hp, Pc.Internal] using h.pcs i
  | .sessionConnect i, _, hs => by
    obtain ⟨c, port, hp, ⟨-, rfl⟩ | ⟨hn, -⟩⟩ := sessionConnectStep_some hs
    · -- the client connects to the server it started
      have hk := hinv.launch i c port (by rw [hp]; rfl)
      refine ⟨h.file, h.starts, forall_setPc rfl h.pcs trivial,
        h.own.frame (fun j hj => setPc_pc_ne _ _ hj)
          (fun port' _ hk' => (sameServers_enqueue port').trans hk') fun c' x hc => ?_⟩
      obtain ⟨rfl, rfl⟩ : c = c' ∧ SocketAddr.localhost port = x := by simpa using hc
      exact ⟨port, rfl, (sameServers_enqueue port).trans hk⟩
    · rw [listening_of_launch hinv hno (by rw [hp]; rfl)] at hn; cases hn
  | .acceptInit _, _, hs => by
    obtain ⟨S, conn, rest, hS, -, -, rfl⟩ := acceptInitStep_some hs
    have hsv := sameServers_setServer hS (show (S.acceptInit conn rest).key = S.key from rfl)
    exact ⟨h.file, h.starts, h.pcs, fun j c x hj => (h.own j c x hj).imp fun port ⟨hx, hk⟩ =>
      ⟨hx, (hsv port).trans hk⟩⟩
  | .accept _, _, hs => by
    obtain ⟨S, k, conn, rest, hS, -, -, rfl⟩ := acceptStep_some hs
    have hsv := sameServers_setServer hS (show (S.accept k conn rest).key = S.key from rfl)
    exact ⟨h.file, h.starts, h.pcs, fun j c x hj => (h.own j c x hj).imp fun port ⟨hx, hk⟩ =>
      ⟨hx, (hsv port).trans hk⟩⟩
  | .outside _ _, hl, _ => hl.elim

section Internal

variable {role : Nat → Role} {file : Bytes} {foreign : List SocketAddr}

theorem internalRun_reachable (hrole : ∀ j, role j = .absent ∨ ∃ q, role j = .client .internal q)
    (hfile : file.length < Cookie.SIZE)
    (h : Reachable Label.Honest (Sys.init role file foreign) s) : InternalRun file s := by
  induction h with
  | init =>
    refine ⟨rfl, by simp [Sys.init], fun j => ?_, fun j c x hj => ?_⟩
    · rcases hrole j with hr | ⟨q, hr⟩ <;> simp [Sys.init, Role.entry, Pc.Internal, hr]
    · rcases hrole j with hr | ⟨q, hr⟩ <;> simp [Sys.init, Role.entry, hr] at hj
  | step hr hl hs ih =>
    exact internalRun_step hfile (inv_reachable hr) (noOutside_reachable (fun _ h => h) hr) ih hl hs

end Internal

end SequoiaIpc.Protocol
