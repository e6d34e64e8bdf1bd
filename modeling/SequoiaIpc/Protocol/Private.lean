/-
SequoiaIpc.Protocol.Private — a server that `connect_with_policy` starts
with `start(false)` serves its launcher alone.

`connect_with_policy` writes the rendezvous record only `if external`: a
server it starts in a thread of the client's own process (`Internal`, or
`Robust` after `start(true)` failed) is never recorded, and it goes away
with that process. This module shows what follows for the whole system,
with any parties, any initial file and any outside processes: no record
ever names such a server, and every connection it is sent is its
launcher's initialization or session connection or comes from outside the
protocol (`private_server_alone`).

§1 says once where a connection that a step brings to a server comes from
(`seen_step`): it was there before, or it is a connection of the party
that started the server, or of a reader that found the server's port in
the record, or of an outside process; and what a new server looks like
(`new_server_step`).
§2 carries the flag `start` was called with from the launcher's program
point to its server (`ExtOk`, `extOk_step`).
§3 is the invariant (`PrivateOk`) and its preservation.
-/
import SequoiaIpc.Protocol.Authentication
import SequoiaIpc.Protocol.Recovery

namespace SequoiaIpc.Protocol

open Sys

variable {s s' : Sys} {l : Label} {i : Nat}

/-! ## 1. Where a server's connections come from -/

/-- Where a connection on the server on `port` after a step comes from. -/
def ConnFrom (s : Sys) (port : UInt16) (conn : Conn) : Prop :=
  (∃ S, s.server port = some S ∧ conn ∈ S.seen) ∨
    (∃ j c, (s.pc j).launch = some (c, port) ∧
      (conn.origin = .init j ∨ conn.origin = .session j)) ∨
    (∃ j k x, s.found = .endpoint k x (.server port) ∧
      (conn.origin = .session j ∨ conn.origin = .probe j)) ∨
    conn.origin = .outside

theorem seen_enqueue {p port : UInt16} {c conn : Conn} {S' : Server}
    (hS' : (s.enqueue p c).server port = some S') (hc : conn ∈ S'.seen) :
    (∃ S, s.server port = some S ∧ conn ∈ S.seen) ∨ (p = port ∧ conn = c) := by
  rw [Sys.enqueue_server] at hS'
  split at hS'
  · subst port
    obtain ⟨S, hS, rfl⟩ := Option.map_eq_some'.mp hS'
    exact (Server.mem_seen_push.mp hc).imp (fun h => ⟨S, hS, h⟩) fun h => ⟨rfl, h⟩
  · exact .inl ⟨S', hS', hc⟩

/-- **Where a server's connections come from.** -/
theorem seen_step (hs : step s l = some s') {port : UInt16} {S' : Server}
    (hS' : s'.server port = some S') {conn : Conn} (hc : conn ∈ S'.seen) : ConnFrom s port conn := by
  have old : s.server port = some S' → ConnFrom s port conn := fun h => .inl ⟨S', h, hc⟩
  have pushed : ∀ {p : UInt16} {c : Conn}, (s.enqueue p c).server port = some S' →
      (p = port → conn = c → ConnFrom s port conn) → ConnFrom s port conn := fun h hnew =>
    (seen_enqueue h hc).elim .inl fun ⟨hp, hc'⟩ => hnew hp hc'
  have launcher : ∀ {j : Nat} {c : Cookie} {o : Origin}, (s.pc j).launch = some (c, port) →
      (o = .init j ∨ o = .session j) → conn = ⟨o, c.send⟩ → ConnFrom s port conn :=
    fun hl ho hc' => .inr (.inl ⟨_, _, hl, by rw [hc']; exact ho⟩)
  cases l with
  | acquire i =>
    obtain ⟨-, ⟨p, -, rfl⟩ | ⟨-, rfl⟩⟩ := acquireStep_some hs <;> exact old (by simpa using hS')
  | read i fresh =>
    rcases readStep_some hs with
      ⟨p, -, ⟨-, rfl⟩ | ⟨k, x, d, hfd, rfl⟩ | ⟨-, rfl⟩⟩ | ⟨-, ⟨k, x, d, hfd, rfl⟩ | ⟨-, rfl⟩⟩
    · exact old (by simpa using hS')
    · -- the session of a reader that found the port in the record
      cases d with
      | server p =>
        exact pushed (by simpa [deliver] using hS') fun hp hc' => by
          subst hp hc'; exact .inr (.inr (.inl ⟨i, k, x, hfd, .inl rfl⟩))
      | foreign => exact old (by simpa [deliver] using hS')
      | refused => exact old (by simpa [deliver] using hS')
    · exact old (by simpa [restart] using hS')
    · -- the probe of a `bootstrap` party
      cases d with
      | server p =>
        exact pushed (by simpa [deliver] using hS') fun hp hc' => by
          subst hp hc'; exact .inr (.inr (.inl ⟨i, k, x, hfd, .inr rfl⟩))
      | foreign => exact old (by simpa [deliver] using hS')
      | refused => exact old (by simpa [deliver] using hS')
    · exact old (by simpa using hS')
  | start i p =>
    -- a new server has seen nothing
    obtain ⟨-, -, ⟨q, c, -, rfl⟩ | ⟨c, -, rfl⟩ | ⟨c, -, rfl⟩⟩ := startStep_some hs <;>
    · simp only [setPc_server, launch, logStart_server, setServer_server] at hS'
      split at hS'
      · cases hS'; simp [Server.seen, Server.new] at hc
      · exact old hS'
  | startFail i =>
    rcases startFailStep_some hs with ⟨c, -, rfl⟩ | ⟨c, -, rfl⟩ <;> exact old (by simpa using hS')
  | initConnect i =>
    rcases initConnectStep_some hs with
      ⟨c, p, ext, hp, ⟨-, rfl⟩ | ⟨-, rfl⟩⟩ | ⟨c, p, hp, ⟨-, rfl⟩ | ⟨-, rfl⟩⟩
    · exact pushed (by simpa using hS') fun hq hc' =>
        launcher (by rw [hp, ← hq]; rfl) (.inl rfl) hc'
    · exact old (by simpa using hS')
    · exact pushed (by simpa using hS') fun hq hc' =>
        launcher (by rw [hp, ← hq]; rfl) (.inl rfl) hc'
    · exact old (by simpa using hS')
  | publish i =>
    rcases publishStep_some hs with ⟨c, p, ext, -, rfl⟩ | ⟨c, p, -, rfl⟩
    · cases ext <;> exact old (by simpa using hS')
    · exact old (by simpa using hS')
  | sessionConnect i =>
    obtain ⟨c, p, hp, ⟨-, rfl⟩ | ⟨-, rfl⟩⟩ := sessionConnectStep_some hs
    · exact pushed (by simpa using hS') fun hq hc' =>
        launcher (by rw [hp, ← hq]; rfl) (.inr rfl) hc'
    · exact old (by simpa using hS')
  | acceptInit p =>
    obtain ⟨S, c, rest, hS, -, hq, rfl⟩ := acceptInitStep_some hs
    rw [setServer_server] at hS'
    split at hS'
    · subst p; cases hS'; exact .inl ⟨S, hS, Server.seen_acceptInit_subset hq hc⟩
    · exact old hS'
  | accept p =>
    obtain ⟨S, k, c, rest, hS, -, hq, rfl⟩ := acceptStep_some hs
    rw [setServer_server] at hS'
    split at hS'
    · subst p; cases hS'; exact .inl ⟨S, hS, Server.seen_accept_subset hq hc⟩
    · exact old hS'
  | outside p payload =>
    obtain ⟨S, -, -, -, rfl⟩ := outsideStep_some hs
    exact pushed hS' fun _ hc' => .inr (.inr (.inr (by rw [hc'])))

theorem enqueue_server_none {p port : UInt16} {c : Conn} (hn : s.server port = none) :
    (s.enqueue p c).server port = none := by
  rw [Sys.enqueue_server]; split <;> simp [hn]

/-- A server that a step brings up is `Descriptor::start`'s: the step is
its launcher's `start` on that port, the server is a new one, the file is
as it was, and the launcher was about to start it, as a client holding the
lock over a file without a record or as a `bootstrap` party. -/
theorem new_server_step (hs : step s l = some s') {port : UInt16} (hn : s.server port = none)
    {S' : Server} (hS' : s'.server port = some S') :
    l = .start S'.launcher port ∧ (∃ c ext, S' = Server.new c S'.launcher ext) ∧ s'.file = s.file ∧
      ((s.pc S'.launcher).Launching ∨ (s.pc S'.launcher).Boot) := by
  have none_of : s'.server port = none → False := fun h => by rw [hS'] at h; cases h
  cases l with
  | start i p =>
    obtain ⟨-, -, ⟨q, c, hp, rfl⟩ | ⟨c, hp, rfl⟩ | ⟨c, hp, rfl⟩⟩ := startStep_some hs <;>
    · simp only [setPc_server, launch, logStart_server, setServer_server] at hS'
      split at hS'
      · subst port; cases hS'; simp [launch, Server.new, hp, Pc.Launching, Pc.Boot]
      · rw [hn] at hS'; cases hS'
  | acceptInit p =>
    obtain ⟨S, c, rest, hS, -, -, rfl⟩ := acceptInitStep_some hs
    rw [setServer_server] at hS'
    split at hS'
    · subst p; rw [hn] at hS; cases hS
    · rw [hn] at hS'; cases hS'
  | accept p =>
    obtain ⟨S, k, c, rest, hS, -, -, rfl⟩ := acceptStep_some hs
    rw [setServer_server] at hS'
    split at hS'
    · subst p; rw [hn] at hS; cases hS
    · rw [hn] at hS'; cases hS'
  | acquire i =>
    obtain ⟨-, ⟨p, -, rfl⟩ | ⟨-, rfl⟩⟩ := acquireStep_some hs <;> exact (none_of (by simp [hn])).elim
  | read i fresh =>
    rcases readStep_some hs with
      ⟨p, -, ⟨-, rfl⟩ | ⟨k, x, d, -, rfl⟩ | ⟨-, rfl⟩⟩ | ⟨-, ⟨k, x, d, -, rfl⟩ | ⟨-, rfl⟩⟩ <;>
      (try cases d) <;> exact (none_of (by simp [restart, deliver, enqueue_server_none hn, hn])).elim
  | startFail i =>
    rcases startFailStep_some hs with ⟨c, -, rfl⟩ | ⟨c, -, rfl⟩ <;>
      exact (none_of (by simp [hn])).elim
  | initConnect i =>
    rcases initConnectStep_some hs with
      ⟨c, p, ext, -, ⟨-, rfl⟩ | ⟨-, rfl⟩⟩ | ⟨c, p, -, ⟨-, rfl⟩ | ⟨-, rfl⟩⟩ <;>
      exact (none_of (by simp [enqueue_server_none hn, hn])).elim
  | publish i =>
    rcases publishStep_some hs with ⟨c, p, ext, -, rfl⟩ | ⟨c, p, -, rfl⟩ <;> (try cases ext) <;>
      exact (none_of (by simp [hn])).elim
  | sessionConnect i =>
    obtain ⟨c, p, -, ⟨-, rfl⟩ | ⟨-, rfl⟩⟩ := sessionConnectStep_some hs <;>
      exact (none_of (by simp [enqueue_server_none hn, hn])).elim
  | outside p payload =>
    obtain ⟨S, -, -, -, rfl⟩ := outsideStep_some hs
    exact (none_of (enqueue_server_none hn)).elim

/-! ## 2. The flag of `start` -/

/-- A launcher that has not yet written or skipped its record remembers the
flag it called `start` with, and its server carries the same. -/
def ExtOk (s : Sys) : Prop :=
  ∀ j c port ext, (s.pc j = .launched c port ext ∨ s.pc j = .initSent c port ext) →
    (s.server port).map Server.external = some ext

/-- A step keeps every server, with its launcher and its flag. -/
theorem ServerMove.keep_flag {o o' : Option Server} (hm : ServerMove o o') {S : Server}
    (hS : o = some S) :
    ∃ S', o' = some S' ∧ S'.launcher = S.launcher ∧ S'.external = S.external := by
  subst hS
  cases hm with
  | same => exact ⟨S, rfl, rfl, rfl⟩
  | push _ c => exact ⟨_, rfl, rfl, rfl⟩
  | acceptInit _ conn rest _ _ => exact ⟨_, rfl, rfl, rfl⟩
  | accept _ k conn rest _ _ => exact ⟨_, rfl, rfl, rfl⟩

/-- The server on a port before and after a step: same launcher, same flag. -/
theorem launcher_external_step (hs : step s l = some s') {port : UInt16} {S S' : Server}
    (hS : s.server port = some S) (hS' : s'.server port = some S') :
    S'.launcher = S.launcher ∧ S'.external = S.external := by
  obtain ⟨S'', hS'', hL, hE⟩ := (step_server hs port).keep_flag hS
  rw [hS'] at hS''
  cases hS''
  exact ⟨hL, hE⟩

/-- A party is at `launched` or `initSent` after a step only if it was at
one of them, on the same server, before, or the step was its `start`. -/
theorem launched_step {j : Nat} {c : Cookie} {port : UInt16} {ext : Bool}
    (hs : step s l = some s')
    (hj : s'.pc j = .launched c port ext ∨ s'.pc j = .initSent c port ext) :
    (s.pc j = .launched c port ext ∨ s.pc j = .initSent c port ext) ∨
      s'.server port = some (Server.new c j ext) := by
  by_cases hl : l.party = some j
  swap
  · exact .inl (pc_step_ne hs hl ▸ hj)
  cases l with
  | acquire i =>
    obtain rfl : i = j := Option.some.inj hl
    obtain ⟨-, ⟨p, -, rfl⟩ | ⟨-, rfl⟩⟩ := acquireStep_some hs <;> simp at hj
  | read i fresh =>
    obtain rfl : i = j := Option.some.inj hl
    rcases readStep_some hs with
      ⟨p, -, ⟨-, rfl⟩ | ⟨k, x, d, -, rfl⟩ | ⟨-, rfl⟩⟩ | ⟨-, ⟨k, x, d, -, rfl⟩ | ⟨-, rfl⟩⟩ <;>
      simp [restart] at hj
  | start i p =>
    obtain rfl : i = j := Option.some.inj hl
    -- the new server carries the flag of the call
    obtain ⟨-, -, ⟨q, c', -, rfl⟩ | ⟨c', -, rfl⟩ | ⟨c', -, rfl⟩⟩ := startStep_some hs
    · obtain ⟨rfl, rfl, rfl⟩ : c' = c ∧ p = port ∧ q.startsExternal = ext := by simpa using hj
      exact .inr (by simp [launch, setServer_server])
    · obtain ⟨rfl, rfl, rfl⟩ : c' = c ∧ p = port ∧ false = ext := by simpa using hj
      exact .inr (by simp [launch, setServer_server])
    · simp at hj
  | startFail i =>
    obtain rfl : i = j := Option.some.inj hl
    rcases startFailStep_some hs with ⟨c', -, rfl⟩ | ⟨c', -, rfl⟩ <;> simp at hj
  | initConnect i =>
    obtain rfl : i = j := Option.some.inj hl
    rcases initConnectStep_some hs with
      ⟨c', p, e, hp, ⟨-, rfl⟩ | ⟨-, rfl⟩⟩ | ⟨c', p, -, ⟨-, rfl⟩ | ⟨-, rfl⟩⟩
    · obtain ⟨rfl, rfl, rfl⟩ : c' = c ∧ p = port ∧ e = ext := by simpa using hj
      exact .inl (.inl hp)
    all_goals simp at hj
  | publish i =>
    obtain rfl : i = j := Option.some.inj hl
    rcases publishStep_some hs with ⟨c', p, e, -, rfl⟩ | ⟨c', p, -, rfl⟩ <;> simp at hj
  | sessionConnect i =>
    obtain rfl : i = j := Option.some.inj hl
    obtain ⟨c', p, -, ⟨-, rfl⟩ | ⟨-, rfl⟩⟩ := sessionConnectStep_some hs <;> simp at hj
  | acceptInit _ => cases hl
  | accept _ => cases hl
  | outside _ _ => cases hl

theorem extOk_step (h : ExtOk s) (hs : step s l = some s') : ExtOk s' := by
  intro j c port ext hj
  rcases launched_step hs hj with hold | hnew
  · obtain ⟨S, hS, he⟩ := Option.map_eq_some'.mp (h j c port ext hold)
    obtain ⟨S', hS', -, he'⟩ := (step_server hs port).keep_flag hS
    simp [hS', he', he]
  · simp [hnew, Server.new]

/-! ## 3. Private servers -/

/-- A server a client started with `start(false)`, in its own process:
`connect_with_policy` writes no record for it. -/
def Server.Private (role : Nat → Role) (S : Server) : Prop :=
  S.external = false ∧ ∃ p q, role S.launcher = .client p q

/-- What a run keeps of private servers: the launcher's flag is its
server's, no record names a private server, and every connection a
private server has been sent is its launcher's or an outside process's. -/
structure PrivateOk (role : Nat → Role) (s : Sys) : Prop where
  ext : ExtOk s
  unnamed : ∀ port S, s.server port = some S → S.Private role →
    ∀ k, recordOf s.file ≠ some (k, .localhost port)
  conns : ∀ port S, s.server port = some S → S.Private role → ∀ conn ∈ S.seen,
    conn.origin = .init S.launcher ∨ conn.origin = .session S.launcher ∨ conn.origin = .outside

section Step

variable {role : Nat → Role}

theorem Server.Private.of_step (hs : step s l = some s') {port : UInt16} {S S' : Server}
    (hS : s.server port = some S) (hS' : s'.server port = some S') (h : S'.Private role) :
    S.Private role := by
  obtain ⟨hL, hE⟩ := launcher_external_step hs hS hS'
  exact ⟨hE ▸ h.1, hL ▸ h.2⟩

theorem unnamed_step (hinv : Inv s) (hboot : ∀ j, (s.pc j).Boot → role j = .bootstrap)
    (h : PrivateOk role s) (hs : step s l = some s') {port : UInt16} {S' : Server}
    (hS' : s'.server port = some S') (hpriv : S'.Private role) (k : Cookie) :
    recordOf s'.file ≠ some (k, .localhost port) := by
  intro hr
  cases hS : s.server port with
  | none =>
    -- a new server: its launcher held the lock over a file without a record
    obtain ⟨-, -, hf, hl | hb⟩ := new_server_step hs hS hS'
    · rw [hf, recordOf_short (hinv.empty _ hl)] at hr; cases hr
    · obtain ⟨-, p, q, hc⟩ := hpriv
      rw [hboot _ hb] at hc; cases hc
  | some S =>
    have hpS := hpriv.of_step hs hS hS'
    rcases file_step hs with hf | hf | ⟨j, c, q, hp, -, hf⟩
    · exact h.unnamed port S hS hpS k (hf ▸ hr)
    · rw [hf, recordOf_short (by simp [Cookie.SIZE])] at hr; cases hr
    · -- a record is written for the writer's own server, which is not private
      rw [hf, recordOf_record] at hr
      obtain ⟨-, rfl⟩ : c = k ∧ q = port := by simpa [SocketAddr.localhost] using hr
      have hj := launcher_of_launched (hinv.launch j c q (by rcases hp with hp | hp <;> rw [hp] <;> rfl)) hS
      rcases hp with hp | hp
      · have he := h.ext j c q true (.inr hp)
        simp [hS, hpS.1] at he
      · obtain ⟨-, p', q', hc⟩ := hpS
        rw [hj, hboot j (by rw [hp]; trivial)] at hc; cases hc

theorem conns_step (hinv : Inv s) (h : PrivateOk role s) (hs : step s l = some s') {port : UInt16}
    {S' : Server} (hS' : s'.server port = some S') (hpriv : S'.Private role) :
    ∀ conn ∈ S'.seen, conn.origin = .init S'.launcher ∨ conn.origin = .session S'.launcher ∨
      conn.origin = .outside := by
  intro conn hc
  rcases seen_step hs hS' hc with ⟨S, hS, hc⟩ | ⟨j, c, hl, ho⟩ | ⟨j, k, x, hfd, -⟩ | ho
  · -- the connection was there
    rw [(launcher_external_step hs hS hS').1]
    exact h.conns port S hS (hpriv.of_step hs hS hS') conn hc
  · -- a connection of the server's launcher
    obtain ⟨S, hS, -⟩ := Option.map_eq_some'.mp (hinv.launch j c port hl)
    rw [(launcher_external_step hs hS hS').1, launcher_of_launched (hinv.launch j c port hl) hS]
    exact ho.elim .inl (.inr ∘ .inl)
  · -- a reader found the port in the record: no record names a private server
    obtain ⟨hr, hd, -⟩ := found_endpoint hfd
    obtain ⟨rfl, hl⟩ := dial_server hd
    obtain ⟨S, hS⟩ := server_of_listening hl
    exact absurd hr (h.unnamed port S hS (hpriv.of_step hs hS hS') k)
  · exact .inr (.inr ho)

theorem privateOk_step (hinv : Inv s) (hboot : ∀ j, (s.pc j).Boot → role j = .bootstrap)
    (h : PrivateOk role s) (hs : step s l = some s') : PrivateOk role s' :=
  ⟨extOk_step h.ext hs, fun _ _ hS' hpriv => unnamed_step hinv hboot h hs hS' hpriv,
    fun _ _ hS' hpriv => conns_step hinv h hs hS' hpriv⟩

end Step

section Reach

variable {allowed : Label → Prop} {role : Nat → Role} {file : Bytes} {foreign : List SocketAddr}

theorem privateOk_reachable (h : Reachable allowed (Sys.init role file foreign) s) :
    PrivateOk role s := by
  induction h with
  | init =>
    refine ⟨fun j c port ext hj => ?_, (fun port S hS => by cases hS), (fun port S hS => by cases hS)⟩
    cases hr : role j <;> simp [Sys.init, Role.entry, hr] at hj
  | step hr _ hs ih => exact privateOk_step (inv_reachable hr) (boot_reachable hr) ih hs

end Reach

end SequoiaIpc.Protocol
