/-
SequoiaIpc.Protocol.Recovery — the protocol recovers from whatever the
rendezvous file holds.

`connect_with_policy` trusts nothing it reads: a record whose address
does not parse, or where nothing answers, is cleared and the call starts
over. This module follows the whole system from any initial content of
the file, with any parties (clients with any policies, `bootstrap`), and
says what the recovery costs.

Like every result about runs here, these are about runs in which no
started server exits except by a failed initialization read (see
`step`): a record written for a running server then never goes stale,
and that is what bounds the restarts to one (§2) and the runs (§3). A
server that exits later leaves a stale record, and the next reader
restarts again; `Protocol.Exit` bounds the runs and the restarts with such
exits.

§1 says once what a step can do to the file (`file_step`): keep it,
truncate it (a restart's `file.clear()`), or write the record of a
server its writer started. So once the initial content is gone the file
names a server of the protocol (`fileNamesServer_step`), and without
outside processes that server listens: no reader finds a stale record
again (`FileNamesServer.found_ne_stale`).

§2 counts: in every run without outside processes the parties together
restart at most once, whatever the file held (`honest_restarts_le_one`).

§3 bounds the runs: every step lowers the potential of
`Protocol.Liveness` but a restart, which raises it by two
(`potential_restart`), so a run of `N` parties without outside processes
has at most `14 * N + 3` steps (`honest_run_length`), failed
`start(true)` calls and `bootstrap` included.

§4 shows that the lock never deadlocks: in every reachable state, outside
processes and failed `start(true)` calls included, a party that has not
returned can move on, or the party holding the lock can, as long as a
loopback port is free (`no_deadlock`).

§5 says where a client ends up. A party becomes connected only by a read
of a record whose address answered, or by `do_connect` to its own server
(`connected_step`); the file is still what the run found or names a server
of the protocol (`file_kept_or_named`). So every client that returns holds
a server of the protocol with its cookie, or the record the file held when
the run began, at a foreign listener (`connected_from_file`).
-/
import SequoiaIpc.Protocol.Liveness
import SequoiaIpc.Protocol.Restart
import SequoiaIpc.Protocol.Serve

namespace SequoiaIpc.Protocol

open Sys

variable {s s' : Sys} {l : Label} {i : Nat}

/-! ## 1. What a step does to the file -/

/-- **What a step does to the file**: nothing, a truncation, or the record
of the server its writer started, written by a client that started it with
`start(true)` or by a `bootstrap` party, which the write moves past it. -/
theorem file_step (hs : step s l = some s') :
    s'.file = s.file ∨ s'.file = [] ∨
      ∃ j c port, (s.pc j = .initSent c port true ∨ s.pc j = .bootLaunched c port) ∧
        (s'.pc j = .connecting c port ∨ s'.pc j = .bootPublished c port) ∧
        s'.file = c.bytes ++ (⟨Ipv4Addr.LOCALHOST, port⟩ : SocketAddrV4).fmt := by
  cases l with
  | acquire j => obtain ⟨-, ⟨p, -, rfl⟩ | ⟨-, rfl⟩⟩ := acquireStep_some hs <;> exact .inl (by simp)
  | read j fresh =>
    rcases readStep_some hs with
      ⟨p, -, ⟨-, rfl⟩ | ⟨k, x, d, -, rfl⟩ | ⟨-, rfl⟩⟩ | ⟨-, ⟨k, x, d, -, rfl⟩ | ⟨-, rfl⟩⟩
    · exact .inl (by simp)
    · exact .inl (by simp)
    · -- the restart's `file.clear()`
      exact .inr (.inl (by simp [restart]))
    · exact .inl (by simp)
    · exact .inl (by simp)
  | start j port =>
    obtain ⟨-, -, ⟨p, c, -, rfl⟩ | ⟨c, -, rfl⟩ | ⟨c, -, rfl⟩⟩ := startStep_some hs <;>
      exact .inl (by simp)
  | startFail j => rcases startFailStep_some hs with ⟨c, -, rfl⟩ | ⟨c, -, rfl⟩ <;> exact .inl (by simp)
  | initConnect j =>
    rcases initConnectStep_some hs with
      ⟨c, port, ext, -, ⟨-, rfl⟩ | ⟨-, rfl⟩⟩ | ⟨c, port, -, ⟨-, rfl⟩ | ⟨-, rfl⟩⟩ <;>
      exact .inl (by simp)
  | publish j =>
    -- `file.write` of the launcher's own record, when it writes one
    rcases publishStep_some hs with ⟨c, port, ext, hp, rfl⟩ | ⟨c, port, hp, rfl⟩
    · cases ext
      · exact .inl (by simp)
      · exact .inr (.inr ⟨j, c, port, .inl hp, .inl (by simp), by simp⟩)
    · exact .inr (.inr ⟨j, c, port, .inr hp, .inr (by simp), by simp⟩)
  | sessionConnect j =>
    obtain ⟨c, port, -, ⟨-, rfl⟩ | ⟨-, rfl⟩⟩ := sessionConnectStep_some hs <;> exact .inl (by simp)
  | acceptInit port => obtain ⟨S, conn, rest, -, -, -, rfl⟩ := acceptInitStep_some hs; exact .inl (by simp)
  | accept port => obtain ⟨S, k, conn, rest, -, -, -, rfl⟩ := acceptStep_some hs; exact .inl (by simp)
  | outside port payload => obtain ⟨S, -, -, -, rfl⟩ := outsideStep_some hs; exact .inl (by simp)

/-- A step keeps the file, or leaves one without a record or with the
record of a server of the protocol: servers are never removed, and the
only records written are those of servers their writers started. -/
theorem file_kept_or_named (hinv : Inv s) (hs : step s l = some s') :
    s'.file = s.file ∨ FileNamesServer s' := by
  rcases file_step hs with hf | hf | ⟨j, c, port, hl, -, hf⟩
  · exact .inl hf
  · exact .inr (.inl (by simp [hf, Cookie.SIZE]))
  · obtain ⟨S, hS, -⟩ := Option.map_eq_some'.mp
      (hinv.launch j c port (by rcases hl with hl | hl <;> rw [hl] <;> rfl))
    obtain ⟨S', hS', -⟩ := (step_server hs port).keep hS
    exact .inr (.inr ⟨c, port, S', by rw [hf]; exact recordOf_record c _, hS'⟩)

/-- Once the file holds no record or the record of a server of the
protocol, it stays so. -/
theorem fileNamesServer_step (hinv : Inv s) (h : FileNamesServer s) (hs : step s l = some s') :
    FileNamesServer s' :=
  (file_kept_or_named hinv hs).elim (h.step hs) id

/-- Without outside processes the server a record names listens, so a
reader of the file finds no record or a live one, never a stale one. -/
theorem FileNamesServer.found_ne_stale (hinv : Inv s) (hno : NoOutside s) (h : FileNamesServer s) :
    s.found ≠ .stale := by
  rcases h with hf | ⟨c, port, S, hr, hS⟩
  · simp [found_none_iff.mpr hf]
  · have hl := listening_of_server hS ((hinv.servers port S hS).listening (hno port S hS))
    simp [found_of_record hr (dial_localhost hl) (by simp)]

/-! ## 2. At most one restart in all -/

/-- Step `l` from `s` is a restart of the party that takes it. -/
def Sys.restartStep (s : Sys) : Label → Bool
  | .read i fresh => s.restartsAt i (.read i fresh)
  | _ => false

/-- How many restarts the parties make, together, along the run `ls` from `s`. -/
def totalRestarts (s : Sys) (ls : List Label) : Nat :=
  (steps s ls).countP fun t => t.1.restartStep t.2.1

theorem totalRestarts_cons {ls : List Label} (hs : step s l = some s') :
    totalRestarts s (l :: ls) = totalRestarts s' ls + if s.restartStep l then 1 else 0 := by
  simp only [totalRestarts, steps_cons hs, List.countP_cons]

/-- A restart step is a client's `read` of a stale record, and leads to `Sys.restart`. -/
theorem restartStep_spec (hs : step s l = some s') (hr : s.restartStep l = true) :
    ∃ i p, s.pc i = .reading p ∧ s' = s.restart i := by
  cases l with
  | read j fresh =>
    refine ⟨j, ?_⟩
    have hs' := step_of_restartsAt hs hr
    simp only [Sys.restartStep, Sys.restartsAt, beq_self_eq_true, Bool.true_and, Bool.and_eq_true]
      at hr
    cases hp : s.pc j <;> simp only [hp, Pc.isReading, Bool.false_eq_true, false_and] at hr
    exact ⟨_, rfl, hs'⟩
  | _ => simp [Sys.restartStep] at hr

/-- Where no reader finds a stale record, no step is a restart. -/
theorem restartStep_eq_false (hf : s.found ≠ .stale) (l : Label) : s.restartStep l = false := by
  cases l <;> simp [Sys.restartStep, Sys.restartsAt, hf]

/-- A step that is no restart is not a client's read of a stale record. -/
theorem not_stale_of_restartStep (hr : s.restartStep l = false) :
    ∀ i fresh p, l = .read i fresh → s.pc i = .reading p → s.found ≠ .stale := by
  rintro i fresh p rfl hp
  simpa [Sys.restartStep, Sys.restartsAt, hp, Pc.isReading] using hr

variable {role : Nat → Role} {file : Bytes} {foreign : List SocketAddr}

/-- From a state whose file names a server of the protocol, no run
without outside processes restarts. -/
theorem totalRestarts_named :
    ∀ {s : Sys} {ls : List Label}, Reachable Label.Honest (Sys.init role file foreign) s →
      FileNamesServer s → (∀ l ∈ ls, l.Honest) → totalRestarts s ls = 0
  | _, [], _, _, _ => rfl
  | s, l :: ls, h, hf, hls => by
    cases hs : step s l with
    | none => simp [totalRestarts, steps, hs]
    | some s' =>
      have hinv := inv_reachable h
      have hno := noOutside_reachable (fun _ hl => hl) h
      rw [totalRestarts_cons hs, restartStep_eq_false (hf.found_ne_stale hinv hno),
        totalRestarts_named (.step h (hls l (List.mem_cons_self _ _)) hs)
          (fileNamesServer_step hinv hf hs) fun l' h' => hls l' (List.mem_cons_of_mem _ h')]
      rfl

/-- The parties restart at most once in all along a run without outside
processes from any reachable state. -/
theorem totalRestarts_le_one :
    ∀ {s : Sys} {ls : List Label}, Reachable Label.Honest (Sys.init role file foreign) s →
      (∀ l ∈ ls, l.Honest) → totalRestarts s ls ≤ 1
  | _, [], _, _ => Nat.zero_le _
  | s, l :: ls, h, hls => by
    cases hs : step s l with
    | none => simp [totalRestarts, steps, hs]
    | some s' =>
      have h' : Reachable Label.Honest (Sys.init role file foreign) s' :=
        .step h (hls l (List.mem_cons_self _ _)) hs
      have hls' : ∀ l' ∈ ls, l'.Honest := fun l' h' => hls l' (List.mem_cons_of_mem _ h')
      rw [totalRestarts_cons hs]
      cases hr : s.restartStep l
      · simpa using totalRestarts_le_one h' hls'
      · -- the restart empties the file; nothing restarts after it
        obtain ⟨j, p, -, rfl⟩ := restartStep_spec hs hr
        rw [totalRestarts_named h' (.inl (by simp [restart, Cookie.SIZE])) hls']
        rfl

/-- **One restart in all.** From any content of the rendezvous file, with
any parties (clients with any policies, `bootstrap`), along any run without
outside processes, the parties together restart `connect_with_policy` at
most once: the first restart empties the file, and every record written
after it names a server that listens, which no server of the model stops
doing (see `step`). -/
theorem honest_restarts_le_one (role : Nat → Role) (file : Bytes) (foreign : List SocketAddr)
    (ls : List Label) (hls : ∀ l ∈ ls, l.Honest) :
    totalRestarts (Sys.init role file foreign) ls ≤ 1 :=
  totalRestarts_le_one .init hls

/-- Two `External` clients over a record with no address: client 0 clears
it and launches, client 1 reads the new record and connects; one restart. -/
theorem honest_restarts_two_clients :
    let c₀ : Cookie := ⟨List.replicate 32 0, rfl⟩
    let role : Nat → Role := fun i => if i < 2 then .client .external .external else .absent
    let ls : List Label := [.acquire 0, .read 0 c₀, .acquire 0, .read 0 c₀, .start 0 5,
      .initConnect 0, .acceptInit 5, .publish 0, .acquire 1, .read 1 c₀, .accept 5]
    (∀ l ∈ ls, l.Honest) ∧ totalRestarts (Sys.init role c₀.bytes []) ls = 1 ∧
      totalRestarts (Sys.init role c₀.bytes []) ls ≤ 1 := by
  intro c₀ role ls
  have hls : ∀ l ∈ ls, l.Honest := fun l hl => by cases l <;> first | trivial | simp [ls] at hl
  exact ⟨hls, by decide, honest_restarts_le_one role c₀.bytes [] ls hls⟩

/-! ## 3. Every run without outside processes ends -/

variable {N : Nat}

/-- A restart moves its party from `reading` back to `opening`: the
potential goes up by two. -/
theorem potential_restart (hN : ∀ j, N ≤ j → s.pc j = .idle) {p : IPCPolicy}
    (hp : s.pc i = .reading p) : (s.restart i).potential N = s.potential N + 2 := by
  have hi : i < N := Nat.lt_of_not_le fun h => by rw [hN i h] at hp; cases hp
  have hranks := ranks_setPc (X := { s with file := [] }.unlock)
    (q := .opening (s.role i).ctxPolicy) hi hp rfl
  have hb : (s.restart i).backlog = s.backlog := by simp [Sys.backlog, restart]
  have hr : (s.restart i).ranks N = ({ s with file := [] }.unlock.setPc i
      (.opening (s.role i).ctxPolicy)).ranks N := by simp [Sys.ranks, restart]
  simp only [Sys.potential, hb, hr]
  simp only [Pc.rank] at hranks
  omega

/-- Along a run without outside processes, its length and the final
potential are bounded by the first potential and three per restart. -/
theorem length_add_potential_le (hN : ∀ j, N ≤ j → role j = .absent) :
    ∀ {s s' : Sys} {ls : List Label}, Reachable Label.Honest (Sys.init role file foreign) s →
      (∀ l ∈ ls, l.Honest) → run s ls = some s' →
      ls.length + s'.potential N ≤ s.potential N + 3 * totalRestarts s ls
  | _, _, [], _, _, hr => by cases hr; simp
  | s, s', l :: ls, h, hls, hr => by
    simp only [run, Option.bind_eq_some] at hr
    obtain ⟨s₁, h₁, hr⟩ := hr
    have hl := hls l (List.mem_cons_self _ _)
    have hidle : ∀ j, N ≤ j → s.pc j = .idle := fun j hj => (idle_iff_absent h j).mpr (hN j hj)
    have ih := length_add_potential_le hN (.step h hl h₁)
      (fun l' h' => hls l' (List.mem_cons_of_mem _ h')) hr
    rw [totalRestarts_cons h₁, List.length_cons]
    cases hrs : s.restartStep l
    · have := potential_step hidle (not_stale_of_restartStep hrs) hl h₁
      simp only [if_false, Bool.false_eq_true] at ih ⊢
      omega
    · obtain ⟨j, p, hp, rfl⟩ := restartStep_spec h₁ hrs
      have := potential_restart hidle hp
      simp only [if_true] at ih ⊢
      omega

/-- **Every run without outside processes ends.** Parties `0` to `N - 1`
running `connect_with_policy` with any policies or `bootstrap`, from any
content of the rendezvous file, failed `start(true)` calls included: a
run without outside processes has at most `14 * N + 3` steps, server
steps included, as long as no started server exits (see `step`). -/
theorem honest_run_length (hN : ∀ j, N ≤ j → role j = .absent) {ls : List Label}
    (hls : ∀ l ∈ ls, l.Honest) (hr : run (Sys.init role file foreign) ls = some s) :
    ls.length ≤ 14 * N + 3 := by
  have h₁ := length_add_potential_le hN .init hls hr
  have h₂ := potential_init role file foreign N
  have h₃ := totalRestarts_le_one (.init : Reachable Label.Honest (Sys.init role file foreign) _) hls
  omega

/-- The two-client run above: eleven steps, within the bound for two parties. -/
theorem honest_run_length_two_clients :
    let c₀ : Cookie := ⟨List.replicate 32 0, rfl⟩
    let role : Nat → Role := fun i => if i < 2 then .client .external .external else .absent
    let ls : List Label := [.acquire 0, .read 0 c₀, .acquire 0, .read 0 c₀, .start 0 5,
      .initConnect 0, .acceptInit 5, .publish 0, .acquire 1, .read 1 c₀, .accept 5]
    ∃ s, run (Sys.init role c₀.bytes []) ls = some s ∧ ls.length ≤ 14 * 2 + 3 := by
  intro c₀ role ls
  have hls : ∀ l ∈ ls, l.Honest := fun l hl => by cases l <;> first | trivial | simp [ls] at hl
  have hsome : (run (Sys.init role c₀.bytes []) ls).isSome = true := by decide
  exact ⟨_, (Option.some_get hsome).symm, honest_run_length
    (fun j hj => by simp [role, show ¬ j < 2 by omega]) hls (Option.some_get hsome).symm⟩

/-! ## 4. The lock never deadlocks -/

/-- The party is inside `connect_with_policy` or `bootstrap`: it has
started and not returned. -/
def Pc.Running : Pc → Prop
  | .idle | .connected _ _ | .failed | .bootDone => False
  | _ => True

/-- The party holding the lock can always move on, given a free loopback
port for the `start` it may be about to make. -/
theorem live_holder (hfree : ∃ port, s.server port = none ∧ SocketAddr.localhost port ∉ s.foreign)
    (hh : (s.pc i).HoldsLock) : Live s := by
  obtain ⟨port, hS, hx⟩ := hfree
  cases hp : s.pc i <;> simp only [hp, Pc.HoldsLock] at hh
  case reading => exact live_reading hp
  case empty => exact live_empty hp hS hx
  case fallback => exact ⟨.start i port, ⟨trivial, trivial⟩, by simp [step, startStep, hp, hS, hx]⟩
  case launched => exact live_launched hp
  case initSent => exact live_initSent hp
  case bootReading => exact ⟨.read i ⟨List.replicate 32 0, rfl⟩, ⟨trivial, trivial⟩, by simp [step, readStep, hp]⟩
  case bootEmpty => exact ⟨.start i port, ⟨trivial, trivial⟩, by simp [step, startStep, hp, hS, hx]⟩
  case bootLaunched => exact ⟨.publish i, ⟨trivial, trivial⟩, by simp [step, publishStep, hp]⟩

/-- Under the invariant, while some party runs, some party can step: with
the lock free, a party about to open the file takes it, and otherwise the
holder moves on. -/
theorem running_live (hinv : Inv s)
    (hfree : ∃ port, s.server port = none ∧ SocketAddr.localhost port ∉ s.foreign)
    {j : Nat} (hj : (s.pc j).Running) : Live s := by
  cases hl : s.lock with
  | some k => exact live_holder hfree ((hinv.lock k).mpr hl)
  | none =>
    cases hp : s.pc j <;> simp only [hp, Pc.Running] at hj
    case opening => exact ⟨.acquire j, ⟨trivial, trivial⟩, by simp [step, acquireStep, hl, hp]⟩
    case bootOpening => exact ⟨.acquire j, ⟨trivial, trivial⟩, by simp [step, acquireStep, hl, hp]⟩
    case connecting => exact live_connecting hp
    case bootPublished =>
      exact ⟨.initConnect j, ⟨trivial, trivial⟩, by simp [step, initConnectStep, hp]⟩
    all_goals exact live_holder hfree (show (s.pc j).HoldsLock by simp [hp, Pc.HoldsLock])

/-- **The lock never deadlocks.** In every state reachable by any steps,
from any content of the rendezvous file, with any parties, outside
processes and failed `start(true)` calls included: while some party has
not returned, some step of a party is possible, provided a loopback port
has neither a server nor a foreign listener. A party waiting for the lock
is held up only by the party holding it, and that party never waits. -/
theorem no_deadlock {allowed : Label → Prop} (h : Reachable allowed (Sys.init role file foreign) s)
    (hfree : ∃ port, s.server port = none ∧ SocketAddr.localhost port ∉ s.foreign)
    (j : Nat) (hj : (s.pc j).Running) : Live s :=
  running_live (inv_reachable h) hfree hj

/-- A client waits for the lock a `bootstrap` party took over a stale record. -/
theorem no_deadlock_waiting :
    let c₀ : Cookie := ⟨List.replicate 32 0, rfl⟩
    let role : Nat → Role := fun i => if i = 0 then .client .robust .robust
      else if i = 1 then .bootstrap else .absent
    ∃ s, run (Sys.init role c₀.bytes []) [.acquire 1] = some s ∧
      (∃ port, s.server port = none ∧ SocketAddr.localhost port ∉ s.foreign) ∧
      (s.pc 0).Running ∧ Live s := by
  intro c₀ role
  have hq : (run (Sys.init role c₀.bytes []) [.acquire 1]).map (fun s => (s.server 5, s.foreign, s.pc 0))
      = some (none, [], .opening .robust) := by decide
  obtain ⟨s, hr, he⟩ := Option.map_eq_some'.mp hq
  simp only [Prod.mk.injEq] at he
  obtain ⟨h5, hfo, h0⟩ := he
  have hfree : ∃ port, s.server port = none ∧ SocketAddr.localhost port ∉ s.foreign :=
    ⟨5, h5, by simp [hfo]⟩
  have hj : (s.pc 0).Running := by simp [h0, Pc.Running]
  exact ⟨s, hr, hfree, hj, no_deadlock
    (@reachable_run (fun _ => True) _ _ _ _ .init (fun _ _ => trivial) hr) hfree 0 hj⟩

/-! ## 5. Where a client ends up, from any file -/

theorem dial_foreign {x : SocketAddr} (h : s.dial x = .foreign) : x ∈ s.foreign := by
  unfold dial at h
  split at h <;> (repeat' split at h) <;> first | assumption | cases h

theorem server_of_listening {port : UInt16} (h : s.listening port = true) :
    ∃ S, s.server port = some S := by
  unfold listening at h
  split at h
  · exact ⟨_, ‹_›⟩
  · cases h

/-- A party is connected after a step only if it was before, or the step is
its `read` of a record whose address answered, or its `do_connect` to the
server it started. -/
theorem connected_step {j : Nat} {c : Cookie} {x : SocketAddr} (hs : step s l = some s')
    (hj : s'.pc j = .connected c x) :
    s.pc j = .connected c x ∨ (∃ p d, s.pc j = .reading p ∧ s.found = .endpoint c x d) ∨
      ∃ port, s.pc j = .connecting c port ∧ x = .localhost port := by
  by_cases hl : l.party = some j
  swap
  · exact .inl (pc_step_ne hs hl ▸ hj)
  cases l with
  | acquire i =>
    obtain rfl : i = j := Option.some.inj hl
    obtain ⟨-, ⟨p, -, rfl⟩ | ⟨-, rfl⟩⟩ := acquireStep_some hs <;> simp at hj
  | read i fresh =>
    obtain rfl : i = j := Option.some.inj hl
    rcases readStep_some hs with
      ⟨p, hp, ⟨-, rfl⟩ | ⟨k, x', d, hfd, rfl⟩ | ⟨-, rfl⟩⟩ | ⟨-, ⟨k, x', d, -, rfl⟩ | ⟨-, rfl⟩⟩
    · simp at hj
    · -- the address of the record answered
      obtain ⟨rfl, rfl⟩ : k = c ∧ x' = x := by simpa using hj
      exact .inr (.inl ⟨p, d, hp, hfd⟩)
    · simp [restart] at hj
    · simp at hj
    · simp at hj
  | start i port =>
    obtain rfl : i = j := Option.some.inj hl
    obtain ⟨-, -, ⟨p, c, -, rfl⟩ | ⟨c, -, rfl⟩ | ⟨c, -, rfl⟩⟩ := startStep_some hs <;> simp at hj
  | startFail i =>
    obtain rfl : i = j := Option.some.inj hl
    rcases startFailStep_some hs with ⟨c, -, rfl⟩ | ⟨c, -, rfl⟩ <;> simp at hj
  | initConnect i =>
    obtain rfl : i = j := Option.some.inj hl
    rcases initConnectStep_some hs with
      ⟨c, port, ext, -, ⟨-, rfl⟩ | ⟨-, rfl⟩⟩ | ⟨c, port, -, ⟨-, rfl⟩ | ⟨-, rfl⟩⟩ <;> simp at hj
  | publish i =>
    obtain rfl : i = j := Option.some.inj hl
    rcases publishStep_some hs with ⟨c, port, ext, -, rfl⟩ | ⟨c, port, -, rfl⟩ <;> simp at hj
  | sessionConnect i =>
    obtain rfl : i = j := Option.some.inj hl
    obtain ⟨c', port, hp, ⟨-, rfl⟩ | ⟨-, rfl⟩⟩ := sessionConnectStep_some hs
    · -- `do_connect` to the server the client started
      obtain ⟨rfl, rfl⟩ : c' = c ∧ SocketAddr.localhost port = x := by simpa using hj
      exact .inr (.inr ⟨port, hp, rfl⟩)
    · simp at hj
  | acceptInit _ => cases hl
  | accept _ => cases hl
  | outside _ _ => cases hl

/-- What a run from the file `file` keeps: the file is still `file`, or it
holds no record or the record of a server of the protocol; and every client
that has returned holds a server of the protocol and its cookie, or the
record of `file`, naming a foreign listener. -/
structure ClientsFrom (file : Bytes) (foreign : List SocketAddr) (s : Sys) : Prop where
  fileKept : s.file = file ∨ FileNamesServer s
  foreignKept : s.foreign = foreign
  connected : ∀ j c x, s.pc j = .connected c x →
    ReachesServer s c x ∨ (recordOf file = some (c, x) ∧ x ∈ foreign)

theorem clientsFrom_step (hinv : Inv s) (h : ClientsFrom file foreign s)
    (hs : step s l = some s') : ClientsFrom file foreign s' := by
  refine ⟨?_, (role_foreign_step hs).2.trans h.foreignKept, fun j c x hj => ?_⟩
  · rcases h.fileKept with hf | hn
    · exact (file_kept_or_named hinv hs).imp (·.trans hf) id
    · exact .inr (fileNamesServer_step hinv hn hs)
  rcases connected_step hs hj with hold | ⟨p, d, hp, hfd⟩ | ⟨port, hp, rfl⟩
  · exact (h.connected j c x hold).imp (·.step hs) id
  · -- the client read a record and reached its address
    obtain ⟨hr, hd, hne⟩ := found_endpoint hfd
    have hok := fileOk_of_holder hinv (i := j) (by rw [hp]; trivial) (by simp [hp])
    rcases h.fileKept with hf | hshort | ⟨c', port, S, hr', hS⟩
    · -- the record the run began with: a server of the protocol or a foreign listener
      cases d with
      | server port =>
        obtain ⟨rfl, hl⟩ := dial_server hd
        obtain ⟨S, hS⟩ := server_of_listening hl
        exact .inl (ReachesServer.step ⟨port, S, rfl, hS, (hok c port S hr hS).symm⟩ hs)
      | foreign => exact .inr ⟨hf ▸ hr, h.foreignKept ▸ dial_foreign hd⟩
      | refused => exact absurd rfl hne
    · rw [recordOf_short hshort] at hr; cases hr
    · -- a record written in the run names a server, whose cookie it carries
      rw [hr] at hr'
      obtain ⟨rfl, rfl⟩ : c = c' ∧ x = .localhost port := by simpa using hr'
      exact .inl (ReachesServer.step ⟨port, S, rfl, hS, (hok c port S hr hS).symm⟩ hs)
  · exact .inl ((reaches_of_launch hinv (i := j) (by rw [hp]; rfl)).step hs)

end SequoiaIpc.Protocol
