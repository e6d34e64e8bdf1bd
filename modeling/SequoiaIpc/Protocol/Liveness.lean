/-
SequoiaIpc.Protocol.Liveness — one-launch runs do not get stuck, and they
end.

`endpoint_of_returned` says what holds once every client has returned;
this module says that they do return. The runs are those of
`Protocol.Launch`: clients with `External` or `Robust`, a file without a
record, no outside process, no failed `start(true)`, and, as everywhere
in this model, no started server that exits.

* Progress (`one_launch_progress`): while some client has not returned,
  some step is possible, given a loopback port no foreign listener holds.
  The client moves on by itself, or takes the lock, or the client that
  holds the lock moves on (`Stage` says which clients can hold it).
* Termination (`one_launch_run_length`): a run of `N` clients has at most
  `14 * N` steps. Every client step brings its client closer to returning
  (`Pc.rank`, along the program points of `connect_with_policy`) and
  queues at most one connection; every server step takes one connection
  off an accept queue (`Sys.backlog`). So twice the ranks plus the
  backlog drops at every step (`potential_step`).

Together (`one_start_same_endpoint`): every run is short, and every run
that cannot be extended has every client returned, with one `start` call
made and one endpoint shared.
-/
import SequoiaIpc.Protocol.Launch
import Mathlib.Algebra.Order.BigOperators.Group.Finset

namespace SequoiaIpc.Protocol

open Sys

/-! ## 1. Progress -/

/-- Some step of a one-launch run is possible. -/
def Live (s : Sys) : Prop := ∃ l : Label, (l.Honest ∧ l.NoStartFail) ∧ step s l ≠ none

variable {s s' : Sys} {i j : Nat}

theorem live_reading {p : IPCPolicy} (hp : s.pc i = .reading p) : Live s :=
  ⟨.read i ⟨List.replicate 32 0, rfl⟩, ⟨trivial, trivial⟩, by simp [step, readStep, hp]⟩

theorem live_empty {p : IPCPolicy} {c : Cookie} {port : UInt16} (hp : s.pc i = .empty p c)
    (hS : s.server port = none) (hx : SocketAddr.localhost port ∉ s.foreign) : Live s :=
  ⟨.start i port, ⟨trivial, trivial⟩, by simp [step, startStep, hp, hS, hx]⟩

theorem live_launched {c : Cookie} {port : UInt16} {e : Bool} (hp : s.pc i = .launched c port e) :
    Live s :=
  ⟨.initConnect i, ⟨trivial, trivial⟩, by simp [step, initConnectStep, hp]⟩

theorem live_initSent {c : Cookie} {port : UInt16} {e : Bool} (hp : s.pc i = .initSent c port e) :
    Live s :=
  ⟨.publish i, ⟨trivial, trivial⟩, by simp [step, publishStep, hp]⟩

theorem live_connecting {c : Cookie} {port : UInt16} (hp : s.pc i = .connecting c port) : Live s :=
  ⟨.sessionConnect i, ⟨trivial, trivial⟩, by simp [step, sessionConnectStep, hp]⟩

/-- A client at `opening` takes the lock, unless some party holds it. -/
theorem live_opening (hinv : Inv s) (holder : ∀ h, (s.pc h).HoldsLock → Live s) {p : IPCPolicy}
    (hp : s.pc i = .opening p) : Live s := by
  cases hl : s.lock with
  | none => exact ⟨.acquire i, ⟨trivial, trivial⟩, by simp [step, acquireStep, hl, hp]⟩
  | some h => exact holder h ((hinv.lock h).mpr hl)

/-- Before any launch, a client past `opening` reads the file or starts its
server. -/
theorem live_fresh (hfree : ∃ port, s.server port = none ∧ SocketAddr.localhost port ∉ s.foreign)
    (hf : (s.pc j).Fresh) (hh : (s.pc j).HoldsLock) : Live s := by
  obtain ⟨port, hS, hx⟩ := hfree
  cases hp : s.pc j <;> simp only [hp, Pc.Fresh, Pc.HoldsLock] at hf hh
  case reading => exact live_reading hp
  case empty => exact live_empty hp hS hx

/-- After the record is on file, a client past `opening` that has not
returned reads the file or connects. -/
theorem live_joined {c : Cookie} {port : UInt16} (hf : (s.pc j).Joined c port)
    (hj : s.pc j ≠ .idle) (ho : ∀ p, s.pc j ≠ .opening p) (hret : ∀ c x, s.pc j ≠ .connected c x) :
    Live s := by
  cases hp : s.pc j <;> simp only [hp, Pc.Joined] at hf
  case idle => exact absurd hp hj
  case opening p => exact absurd hp (ho p)
  case reading => exact live_reading hp
  case connecting => exact live_connecting hp
  case connected c' x => exact absurd hp (hret c' x)

/-- **Progress in every stage.** A client that has not returned can be
moved on, or the client holding the lock can. -/
theorem stage_live (hinv : Inv s) (hst : Stage s)
    (hport : ∃ port, SocketAddr.localhost port ∉ s.foreign)
    (hj : s.pc j ≠ .idle) (hret : ∀ c x, s.pc j ≠ .connected c x) : Live s := by
  rcases hst with ⟨-, hsv, -, hpcs⟩ | ⟨L, c, port, -, -, hL, -⟩ | ⟨L, c, port, -, -, -, hpcs⟩
  · -- no server yet: every port is free
    have hfree : ∃ port, s.server port = none ∧ SocketAddr.localhost port ∉ s.foreign :=
      hport.imp fun port hx => ⟨hsv port, hx⟩
    by_cases hh : (s.pc j).HoldsLock
    · exact live_fresh hfree (hpcs j) hh
    · have hw := (hpcs j).waiting hh
      cases hp : s.pc j <;> simp only [hp, Pc.Waiting] at hw
      · exact absurd hp hj
      · exact live_opening hinv (fun h hh' => live_fresh hfree (hpcs h) hh') hp
  · -- the launcher sends its cookie, then publishes
    rcases hL with hp | hp
    exacts [live_launched hp, live_initSent hp]
  · -- the record is on file: the lock holder can only be reading it
    have holder : ∀ h, (s.pc h).HoldsLock → Live s := fun h hh => by
      have hf := hpcs h
      cases hp : s.pc h <;> simp only [hp, Pc.Joined, Pc.HoldsLock] at hf hh
      exact live_reading hp
    by_cases ho : ∃ p, s.pc j = .opening p
    · obtain ⟨p, hp⟩ := ho
      exact live_opening hinv holder hp
    · exact live_joined (hpcs j) hj (fun p hp => ho ⟨p, hp⟩) hret

section Runs

variable {role : Nat → Role} {file : Bytes} {foreign : List SocketAddr}

theorem foreign_reachable {allowed : Label → Prop}
    (h : Reachable allowed (Sys.init role file foreign) s) : s.foreign = foreign := by
  induction h with
  | init => rfl
  | step _ _ hs ih => exact (role_foreign_step hs).2.trans ih

/-- **No one-launch run gets stuck.** Clients running `connect_with_policy`
with `External` or `Robust` on a rendezvous file without a record, with a
loopback port that no foreign listener holds, in a run without outside
processes in which no `start(true)` fails: while some client has not
returned, some step of a party or a server is possible. -/
theorem one_launch_progress
    (hrole : ∀ j, role j = .absent ∨ ∃ p q, role j = .client p q ∧ p ≠ .internal)
    (hfile : file.length < Cookie.SIZE) (hport : ∃ port, SocketAddr.localhost port ∉ foreign)
    (h : Reachable (fun l => l.Honest ∧ l.NoStartFail) (Sys.init role file foreign) s)
    (j : Nat) (hj : role j ≠ .absent) (hret : ∀ c x, s.pc j ≠ .connected c x) : Live s :=
  stage_live (inv_reachable h) (stage_reachable hrole hfile h) (foreign_reachable h ▸ hport)
    (fun hi => hj ((idle_iff_absent h j).mp hi)) hret

end Runs

/-- Client 0 holds the lock; client 1, still opening the file, waits on
it, and the run can go on. -/
theorem one_launch_progress_waiting :
    let role : Nat → Role := fun i => if i < 2 then .client .external .external else .absent
    ∃ s, run (Sys.init role [] []) [.acquire 0] = some s ∧ s.lock = some 0 ∧
      s.pc 1 = .opening .external ∧ Live s := by
  intro role
  have hq : (run (Sys.init role [] []) [.acquire 0]).map (fun s => (s.lock, s.pc 1)) =
      some (some 0, .opening .external) := by decide
  obtain ⟨s, hr, he⟩ := Option.map_eq_some'.mp hq
  simp only [Prod.mk.injEq] at he
  exact ⟨s, hr, he.1, he.2, one_launch_progress (fun j => by by_cases hj : j < 2 <;> simp [role, hj])
    (by decide) ⟨5, by simp⟩
    (reachable_run .init (fun l hl => by simp at hl; subst hl; exact ⟨trivial, trivial⟩) hr) 1
    (by simp [role]) (by simp [he.2])⟩

/-! ## 2. A potential that every step lowers -/

/-- How many steps a party is from returning, along the program points of
`connect_with_policy` and `bootstrap`; a restart over a stale record is
the one step back. -/
def Pc.rank : Pc → Nat
  | .opening _ => 7
  | .reading _ => 6
  | .empty _ _ => 5
  | .fallback _ => 4
  | .launched _ _ _ => 3
  | .initSent _ _ _ => 2
  | .connecting _ _ => 1
  | .bootOpening => 5
  | .bootReading => 4
  | .bootEmpty _ => 3
  | .bootLaunched _ _ => 2
  | .bootPublished _ _ => 1
  | .idle | .connected _ _ | .failed | .bootDone => 0

theorem Pc.rank_le (p : Pc) : p.rank ≤ 7 := by
  cases p <;> simp [Pc.rank]

/-- The length of the accept queue on a port, none for no server. -/
def qlen (o : Option Server) : Nat := (o.map fun S => S.queue.length).getD 0

/-- The connections waiting in accept queues, over all ports. -/
def Sys.backlog (s : Sys) : Nat := ∑ q : Fin (2 ^ 16), qlen (s.server ⟨⟨q⟩⟩)

/-- The ranks of parties `0` to `N - 1`. -/
def Sys.ranks (s : Sys) (N : Nat) : Nat := ∑ j in Finset.range N, (s.pc j).rank

/-- What every step of a one-launch run lowers. -/
def Sys.potential (s : Sys) (N : Nat) : Nat := 2 * s.ranks N + s.backlog

variable {N : Nat}

/-- Replacing the server on one port changes the backlog by the
difference of the two queues. -/
theorem backlog_update {X : Sys} (p : UInt16) (v : Option Server)
    (hX : X.server = Function.update s.server p v) :
    X.backlog + qlen (s.server p) = s.backlog + qlen v := by
  have hm := Finset.mem_univ p.toBitVec.toFin
  have hq : ∀ q ∈ Finset.univ \ {p.toBitVec.toFin},
      qlen (Function.update s.server p v ⟨⟨q⟩⟩) = qlen (s.server ⟨⟨q⟩⟩) := fun q hq => by
    rw [Function.update_noteq]
    rintro rfl
    simp at hq
  have hp : (⟨⟨p.toBitVec.toFin⟩⟩ : UInt16) = p := rfl
  simp only [Sys.backlog, hX]
  rw [Finset.sum_eq_add_sum_diff_singleton hm, Finset.sum_eq_add_sum_diff_singleton hm
    fun q => qlen (s.server ⟨⟨q⟩⟩), Finset.sum_congr rfl hq]
  simp only [hp, Function.update_same]
  omega

theorem backlog_enqueue (port : UInt16) (c : Conn) : (s.enqueue port c).backlog ≤ s.backlog + 1 := by
  have h := backlog_update (s := s) (X := s.enqueue port c) port _ rfl
  cases hS : s.server port <;> simp [hS, qlen, Server.push] at h <;> omega

theorem backlog_deliver (d : Dial) (c : Conn) : (s.deliver d c).backlog ≤ s.backlog + 1 := by
  cases d
  exacts [backlog_enqueue _ c, Nat.le_succ _, Nat.le_succ _]

/-- A new server starts with an empty queue. -/
theorem backlog_launch {c : Cookie} {port : UInt16} {e : Bool} (h : s.server port = none) :
    (s.launch i c port e).backlog = s.backlog := by
  have := backlog_update (s := s) (X := s.launch i c port e) port _ rfl
  simpa [h, qlen, Server.new] using this

/-- Moving party `i < N` from `p` to `q` trades the rank of `p` for that of `q`. -/
theorem ranks_setPc {X : Sys} {p q : Pc} (hi : i < N) (hp : s.pc i = p) (hX : X.pc = s.pc) :
    (X.setPc i q).ranks N + p.rank = s.ranks N + q.rank := by
  have hm := Finset.mem_range.mpr hi
  simp only [Sys.ranks, setPc, hX, Function.apply_update (fun _ => Pc.rank),
    Finset.sum_update_of_mem hm, Finset.sum_eq_add_sum_diff_singleton hm fun j => (s.pc j).rank, hp]
  omega

/-- A party step: the party moves closer to returning and queues at most
one connection. Only parties below `N` run. -/
theorem potential_move {X : Sys} {p q : Pc} (hN : ∀ j, N ≤ j → s.pc j = .idle)
    (hp : s.pc i = p) (hr : q.rank < p.rank) (hX : X.pc = s.pc) (hb : X.backlog ≤ s.backlog + 1) :
    (X.setPc i q).potential N < s.potential N := by
  have hi : i < N := Nat.lt_of_not_le fun h => by
    rw [hN i h] at hp
    subst hp
    exact Nat.not_lt_zero _ hr
  have hranks := ranks_setPc (q := q) hi hp hX
  have hb' : (X.setPc i q).backlog = X.backlog := rfl
  simp only [Sys.potential]
  omega

/-- A server step takes a connection off its queue. -/
theorem potential_setServer {q : UInt16} {S S' : Server} (hS : s.server q = some S)
    (hlt : S'.queue.length < S.queue.length) : (s.setServer q S').potential N < s.potential N := by
  have h := backlog_update (s := s) (X := s.setServer q S') q _ rfl
  simp only [hS, qlen, Option.map_some', Option.getD_some] at h
  simp only [Sys.potential, Sys.ranks, setServer_pc]
  omega

/-- **Every step of the protocol's processes lowers the potential**, as long
as it is not a client's read of a stale record and no party from `N` on runs. -/
theorem potential_step (hN : ∀ j, N ≤ j → s.pc j = .idle) :
    ∀ {l : Label}, (∀ i fresh p, l = .read i fresh → s.pc i = .reading p → s.found ≠ .stale) →
      l.Honest → step s l = some s' → s'.potential N < s.potential N
  | .acquire i, _, _, hs => by
    obtain ⟨-, ⟨p, hp, rfl⟩ | ⟨hp, rfl⟩⟩ := acquireStep_some hs <;>
      exact potential_move hN hp (by simp [Pc.rank]) rfl (Nat.le_succ _)
  | .read i fresh, hfound, _, hs => by
    rcases readStep_some hs with
      ⟨p, hp, ⟨-, rfl⟩ | ⟨k, x, d, -, rfl⟩ | ⟨hst, -⟩⟩ | ⟨hp, ⟨k, x, d, -, rfl⟩ | ⟨-, rfl⟩⟩
    · exact potential_move hN hp (by simp [Pc.rank]) rfl (Nat.le_succ _)
    · exact potential_move hN hp (by simp [Pc.rank]) (by simp) (backlog_deliver d _)
    · -- a restart goes back to `opening`: excluded
      exact absurd hst (hfound i fresh p rfl hp)
    · exact potential_move hN hp (by simp [Pc.rank]) (by simp) (backlog_deliver d _)
    · exact potential_move hN hp (by simp [Pc.rank]) rfl (Nat.le_succ _)
  | .start i port, _, _, hs => by
    obtain ⟨hnone, -, ⟨p, c, hp, rfl⟩ | ⟨c, hp, rfl⟩ | ⟨c, hp, rfl⟩⟩ := startStep_some hs <;>
      exact potential_move hN hp (by simp [Pc.rank]) (by simp)
        ((backlog_launch hnone).le.trans (Nat.le_succ _))
  | .startFail i, _, _, hs => by
    rcases startFailStep_some hs with ⟨c, hp, rfl⟩ | ⟨c, hp, rfl⟩ <;>
      exact potential_move hN hp (by simp [Pc.rank]) rfl (Nat.le_succ _)
  | .initConnect i, _, _, hs => by
    rcases initConnectStep_some hs with
      ⟨c, port, ext, hp, ⟨-, rfl⟩ | ⟨-, rfl⟩⟩ | ⟨c, port, hp, ⟨-, rfl⟩ | ⟨-, rfl⟩⟩
    · exact potential_move hN hp (by simp [Pc.rank]) (by simp) (backlog_enqueue port _)
    · exact potential_move hN hp (by simp [Pc.rank]) rfl (Nat.le_succ _)
    · exact potential_move hN hp (by simp [Pc.rank]) (by simp) (backlog_enqueue port _)
    · exact potential_move hN hp (by simp [Pc.rank]) rfl (Nat.le_succ _)
  | .publish i, _, _, hs => by
    rcases publishStep_some hs with ⟨c, port, ext, hp, rfl⟩ | ⟨c, port, hp, rfl⟩
    · cases ext <;> exact potential_move hN hp (by simp [Pc.rank]) (by simp) (Nat.le_succ _)
    · exact potential_move hN hp (by simp [Pc.rank]) (by simp) (Nat.le_succ _)
  | .sessionConnect i, _, _, hs => by
    obtain ⟨c, port, hp, ⟨-, rfl⟩ | ⟨-, rfl⟩⟩ := sessionConnectStep_some hs
    · exact potential_move hN hp (by simp [Pc.rank]) (by simp) (backlog_enqueue port _)
    · exact potential_move hN hp (by simp [Pc.rank]) rfl (Nat.le_succ _)
  | .acceptInit _, _, _, hs => by
    obtain ⟨S, conn, rest, hS, -, hq, rfl⟩ := acceptInitStep_some hs
    exact potential_setServer hS (by simp [Server.acceptInit, hq])
  | .accept _, _, _, hs => by
    obtain ⟨S, k, conn, rest, hS, -, hq, rfl⟩ := acceptStep_some hs
    exact potential_setServer hS (by simp [Server.accept, hq])
  | .outside _ _, _, hl, _ => hl.elim

/-! ## 3. Every one-launch run ends -/

/-- In a one-launch run no reader finds a stale record: the file is empty
until the launcher writes the record of its server, which keeps
listening. -/
theorem Stage.found_ne_stale (hinv : Inv s) (hst : Stage s) : s.found ≠ .stale := by
  rcases hst with ⟨-, -, hf, -⟩ | ⟨L, c, port, -, -, hL, -⟩ | ⟨L, c, port, -, hsv, hr, -⟩
  · simp [found_none_iff.mpr hf]
  · have hf : s.file.length < Cookie.SIZE :=
      hinv.empty L (by rcases hL with h | h <;> rw [h] <;> trivial)
    simp [found_none_iff.mpr hf]
  · simp [found_of_record hr (dial_localhost hsv.listening) (by simp)]

section Runs

variable {role : Nat → Role} {file : Bytes} {foreign : List SocketAddr}

/-- Along a one-launch run the potential drops by one per step at least. -/
theorem potential_run
    (hrole : ∀ j, role j = .absent ∨ ∃ p q, role j = .client p q ∧ p ≠ .internal)
    (hfile : file.length < Cookie.SIZE) (hN : ∀ j, N ≤ j → role j = .absent) :
    ∀ {s s' : Sys} {ls : List Label},
      Reachable (fun l => l.Honest ∧ l.NoStartFail) (Sys.init role file foreign) s →
      (∀ l ∈ ls, l.Honest ∧ l.NoStartFail) → run s ls = some s' →
      ls.length + s'.potential N ≤ s.potential N
  | _, _, [], _, _, hr => by cases hr; simp
  | s, s', l :: ls, h, hl, hr => by
    simp only [run, Option.bind_eq_some] at hr
    obtain ⟨s₁, h₁, hr⟩ := hr
    have hlt : s₁.potential N < s.potential N :=
      potential_step (fun j hj => (idle_iff_absent h j).mpr (hN j hj))
        (fun _ _ _ _ _ => (stage_reachable hrole hfile h).found_ne_stale (inv_reachable h))
        (hl l (List.mem_cons_self _ _)).1 h₁
    have := potential_run hrole hfile hN (.step h (hl l (List.mem_cons_self _ _)) h₁)
      (fun l' h' => hl l' (List.mem_cons_of_mem _ h')) hr
    simp only [List.length_cons]
    omega

theorem potential_init (role : Nat → Role) (file : Bytes) (foreign : List SocketAddr) (N : Nat) :
    (Sys.init role file foreign).potential N ≤ 14 * N := by
  have hranks : (Sys.init role file foreign).ranks N ≤ N * 7 := by
    simpa using Finset.sum_le_card_nsmul (Finset.range N) _ 7 fun j _ => Pc.rank_le _
  have hb : (Sys.init role file foreign).backlog = 0 := by simp [Sys.backlog, Sys.init, qlen]
  simp only [Sys.potential, hb]
  omega

/-- **Every one-launch run ends.** Clients `0` to `N - 1` running
`connect_with_policy` with `External` or `Robust` on a rendezvous file
without a record, in a run without outside processes in which no
`start(true)` fails: the run has at most `14 * N` steps, server steps
included, as long as no started server exits (see `step`). -/
theorem one_launch_run_length
    (hrole : ∀ j, role j = .absent ∨ ∃ p q, role j = .client p q ∧ p ≠ .internal)
    (hfile : file.length < Cookie.SIZE) (hN : ∀ j, N ≤ j → role j = .absent)
    {ls : List Label} (hls : ∀ l ∈ ls, l.Honest ∧ l.NoStartFail)
    (hr : run (Sys.init role file foreign) ls = some s) : ls.length ≤ 14 * N := by
  have := potential_run hrole hfile hN .init hls hr
  have := potential_init role file foreign N
  omega

/-- **One start, one endpoint.** Clients `0` to `N - 1` running
`connect_with_policy` with `External` or `Robust` (any context policy) on
a rendezvous file without a record, with a loopback port no foreign
listener holds, in a run without outside processes in which no
`start(true)` fails: at most one `Descriptor::start` call is made, it is a
successful `start(true)`, no client fails, and the run has at most
`14 * N` steps; and when no step of a client or a server can extend the
run, exactly one call was made and every client has handed `do_connect` a
stream to the same address with the same cookie. -/
theorem one_start_same_endpoint
    (hrole : ∀ j, role j = .absent ∨ ∃ p q, role j = .client p q ∧ p ≠ .internal)
    (hfile : file.length < Cookie.SIZE) (hN : ∀ j, N ≤ j → role j = .absent)
    (hport : ∃ port, SocketAddr.localhost port ∉ foreign) (hcl : ∃ j, role j ≠ .absent)
    {ls : List Label} (hls : ∀ l ∈ ls, l.Honest ∧ l.NoStartFail)
    (hr : run (Sys.init role file foreign) ls = some s) :
    s.starts.length ≤ 1 ∧ (∀ call ∈ s.starts, call.external = true ∧ call.ok = true) ∧
      (∀ j, s.pc j ≠ .failed) ∧ ls.length ≤ 14 * N ∧
      (¬ Live s → ∃ L c port, s.starts = [⟨L, true, true⟩] ∧
        ∀ j, role j ≠ .absent → s.pc j = .connected c (.localhost port)) := by
  have h := reachable_run .init hls hr
  have hst := stage_reachable hrole hfile h
  have hlen : ls.length ≤ 14 * N := by
    have := potential_run hrole hfile hN .init hls hr
    have := potential_init role file foreign N
    omega
  have hstarts : s.starts.length ≤ 1 ∧ ∀ call ∈ s.starts, call.external = true ∧ call.ok = true := by
    rcases hst with ⟨hs, -⟩ | ⟨_, _, _, hs, -⟩ | ⟨_, _, _, hs, -⟩ <;> simp [hs]
  refine ⟨hstarts.1, hstarts.2, fun j hj => by simpa [hj, Pc.Client] using hst.client j, hlen,
    fun hdead => endpoint_of_returned h hst hcl fun j hj => ?_⟩
  -- a client that has not returned could still move: the run would go on
  by_contra hret
  push_neg at hret
  exact hdead (stage_live (inv_reachable h) hst (foreign_reachable h ▸ hport)
    (fun hi => hj ((idle_iff_absent h j).mp hi)) hret)

end Runs

/-- The two-client run of `one_start_two_clients` has eleven steps, within
the bound for two clients. -/
theorem one_launch_run_length_two_clients :
    let c₀ : Cookie := ⟨List.replicate 32 0, rfl⟩
    let c₁ : Cookie := ⟨List.replicate 32 1, rfl⟩
    let role : Nat → Role := fun i => if i < 2 then .client .external .external else .absent
    let ls : List Label := [.acquire 0, .read 0 c₀, .start 0 5, .initConnect 0, .acceptInit 5,
      .publish 0, .acquire 1, .read 1 c₁, .sessionConnect 0, .accept 5, .accept 5]
    ∃ s, run (Sys.init role [] []) ls = some s ∧ ls.length ≤ 14 * 2 := by
  intro c₀ c₁ role ls
  have hsome : (run (Sys.init role [] []) ls).isSome = true := by decide
  exact ⟨_, (Option.some_get hsome).symm, one_launch_run_length
    (fun j => by by_cases hj : j < 2 <;> simp [role, hj]) (by decide)
    (fun j hj => by simp [role, show ¬ j < 2 by omega])
    (by simp [ls, Label.Honest, Label.NoStartFail]) (Option.some_get hsome).symm⟩

/-- Two `External` clients, the first launching and the second joining
it: eleven steps, after which both hold the one endpoint. -/
theorem one_start_two_clients :
    let c₀ : Cookie := ⟨List.replicate 32 0, rfl⟩
    let c₁ : Cookie := ⟨List.replicate 32 1, rfl⟩
    let role : Nat → Role := fun i => if i < 2 then .client .external .external else .absent
    let ls : List Label := [.acquire 0, .read 0 c₀, .start 0 5, .initConnect 0, .acceptInit 5,
      .publish 0, .acquire 1, .read 1 c₁, .sessionConnect 0, .accept 5, .accept 5]
    ∃ s, run (Sys.init role [] []) ls = some s ∧
      s.starts.length ≤ 1 ∧ (∀ call ∈ s.starts, call.external = true ∧ call.ok = true) ∧
      (∀ j, s.pc j ≠ .failed) ∧ ls.length ≤ 14 * 2 ∧
      (¬ Live s → ∃ L c port, s.starts = [⟨L, true, true⟩] ∧
        ∀ j, role j ≠ .absent → s.pc j = .connected c (.localhost port)) := by
  intro c₀ c₁ role ls
  have hls : ∀ l ∈ ls, l.Honest ∧ l.NoStartFail := fun l hl => by
    cases l <;> first | exact ⟨trivial, trivial⟩ | simp [ls] at hl
  have hsome : (run (Sys.init role [] []) ls).isSome = true := by decide
  exact ⟨_, (Option.some_get hsome).symm, one_start_same_endpoint
    (fun j => by by_cases hj : j < 2 <;> simp [role, hj]) (by decide)
    (fun j hj => by simp [role, show ¬ j < 2 by omega]) ⟨5, by simp⟩ ⟨0, by simp [role]⟩ hls
    (Option.some_get hsome).symm⟩

end SequoiaIpc.Protocol
