/-
SequoiaIpc.Protocol.Completion — every run of the protocol can be
completed.

As everywhere in this model, no started server exits except by a failed
initialization read (see `step`); the bound on the length of a run rests
on that (`Protocol.Exit` gives the bound with exits).

Under the invariant a party can move on whenever a loopback port is free
for the `start` it may be about to make (`running_live`): `Descriptor::start` binds
`127.0.0.1:0`, and the operating system picks a port no server and no
other process listens on. This module counts the servers instead of
assuming such a port. A party calls `start` at most once along a run (a
restart comes before it, never after), so `N` parties run at most `N`
servers; with fewer than `65536 - N` foreign listeners a port is always
free. Then, since every run without outside processes is short
(`length_add_potential_le`), every such run can be carried on, by steps
of the parties and their servers, until every `connect_with_policy` and
`bootstrap` call has returned (`honest_run_completes`).

§1 says what a step does to a party that has not started its server yet
(`preLaunch_step`) and where a server comes from (`server_step_cases`).
§2 is the invariant that each party has started at most one server, and
only once it has left the points before `start` (`LaunchersOk`).
§3 counts the ports (`exists_free_port`).
§4 carries a run on to its end.
-/
import SequoiaIpc.Protocol.Private

namespace SequoiaIpc.Protocol

open Sys

variable {s s' : Sys} {l : Label} {j : Nat}

/-! ## 1. Before `start` -/

/-- The party has not yet called `start` in this call of
`connect_with_policy` or `bootstrap`. -/
def Pc.PreLaunch : Pc → Prop
  | .idle | .opening _ | .reading _ | .empty _ _ | .fallback _
  | .bootOpening | .bootReading | .bootEmpty _ => True
  | _ => False

/-- A party is before `start` after a step only if it was before. -/
theorem preLaunch_step (hs : step s l = some s') (h : (s'.pc j).PreLaunch) : (s.pc j).PreLaunch := by
  by_cases hl : l.party = some j
  swap
  · exact pc_step_ne hs hl ▸ h
  cases l with
  | acquire i =>
    obtain rfl : i = j := Option.some.inj hl
    obtain ⟨-, ⟨p, hp, -⟩ | ⟨hp, -⟩⟩ := acquireStep_some hs <;> simp [hp, Pc.PreLaunch]
  | read i fresh =>
    obtain rfl : i = j := Option.some.inj hl
    rcases readStep_some hs with ⟨p, hp, -⟩ | ⟨hp, -⟩ <;> simp [hp, Pc.PreLaunch]
  | start i p =>
    obtain rfl : i = j := Option.some.inj hl
    obtain ⟨-, -, ⟨q, c, hp, -⟩ | ⟨c, hp, -⟩ | ⟨c, hp, -⟩⟩ := startStep_some hs <;>
      simp [hp, Pc.PreLaunch]
  | startFail i =>
    obtain rfl : i = j := Option.some.inj hl
    rcases startFailStep_some hs with ⟨c, hp, -⟩ | ⟨c, hp, -⟩ <;> simp [hp, Pc.PreLaunch]
  | initConnect i =>
    obtain rfl : i = j := Option.some.inj hl
    rcases initConnectStep_some hs with
      ⟨c, p, ext, -, ⟨-, rfl⟩ | ⟨-, rfl⟩⟩ | ⟨c, p, -, ⟨-, rfl⟩ | ⟨-, rfl⟩⟩ <;>
      simp [Pc.PreLaunch] at h
  | publish i =>
    obtain rfl : i = j := Option.some.inj hl
    rcases publishStep_some hs with ⟨c, p, ext, -, rfl⟩ | ⟨c, p, -, rfl⟩ <;> simp [Pc.PreLaunch] at h
  | sessionConnect i =>
    obtain rfl : i = j := Option.some.inj hl
    obtain ⟨c, p, -, ⟨-, rfl⟩ | ⟨-, rfl⟩⟩ := sessionConnectStep_some hs <;> simp [Pc.PreLaunch] at h
  | acceptInit _ => cases hl
  | accept _ => cases hl
  | outside _ _ => cases hl

/-- A server after a step was there before, with the same launcher, or
the step is its launcher's `start` on that port, which takes the launcher
past the points before `start`. -/
theorem server_step_cases (hs : step s l = some s') {port : UInt16} {S' : Server}
    (hS' : s'.server port = some S') :
    (∃ S, s.server port = some S ∧ S'.launcher = S.launcher) ∨
      (l = .start S'.launcher port ∧ (s.pc S'.launcher).PreLaunch ∧
        ¬ (s'.pc S'.launcher).PreLaunch) := by
  cases hS : s.server port with
  | some S => exact .inl ⟨S, rfl, (launcher_external_step hs hS hS').1⟩
  | none =>
    obtain ⟨rfl, -⟩ := new_server_step hs hS hS'
    refine .inr ⟨rfl, ?_⟩
    obtain ⟨-, -, ⟨q, c, hp, rfl⟩ | ⟨c, hp, rfl⟩ | ⟨c, hp, rfl⟩⟩ := startStep_some hs <;>
      simp [hp, Pc.PreLaunch]

/-! ## 2. One server per party -/

/-- Every server's launcher is past the points before `start`, and no
party has started two servers. -/
structure LaunchersOk (s : Sys) : Prop where
  started : ∀ port S, s.server port = some S → ¬ (s.pc S.launcher).PreLaunch
  unique : ∀ port port' S S', s.server port = some S → s.server port' = some S' →
    S.launcher = S'.launcher → port = port'

theorem launchersOk_step (h : LaunchersOk s) (hs : step s l = some s') : LaunchersOk s' := by
  refine ⟨fun port S' hS' => ?_, fun p p' S₁ S₂ h₁ h₂ hL => ?_⟩
  · rcases server_step_cases hs hS' with ⟨S, hS, hL⟩ | ⟨-, -, hnew⟩
    · exact fun hp => h.started port S hS (hL ▸ preLaunch_step hs hp)
    · exact hnew
  · rcases server_step_cases hs h₁ with ⟨S, hS, hL₁⟩ | ⟨hl₁, hp₁, -⟩ <;>
      rcases server_step_cases hs h₂ with ⟨S', hS', hL₂⟩ | ⟨hl₂, hp₂, -⟩
    · exact h.unique p p' S S' hS hS' (by rw [← hL₁, ← hL₂, hL])
    · -- a new server's launcher had no server before
      exact (h.started p S hS (by rwa [← hL₁, hL])).elim
    · exact (h.started p' S' hS' (by rwa [← hL₂, ← hL])).elim
    · -- one step starts one server
      rw [hl₁, hL] at hl₂
      exact (Label.start.inj hl₂).2

theorem launchersOk_reachable {allowed : Label → Prop} {role : Nat → Role} {file : Bytes}
    {foreign : List SocketAddr} (h : Reachable allowed (Sys.init role file foreign) s) :
    LaunchersOk s := by
  induction h with
  | init => exact ⟨fun _ _ h => (by cases h), fun _ _ _ _ h => (by cases h)⟩
  | step _ _ hs ih => exact launchersOk_step ih hs

/-! ## 3. A free port -/

/-- With parties `0` to `N - 1` and fewer than `65536 - N` foreign
listeners, some loopback port has neither a server nor a foreign listener:
the ports with a server have distinct launchers, all below `N`. -/
theorem exists_free_port {N : Nat} (h : LaunchersOk s) (hidle : ∀ j, N ≤ j → s.pc j = .idle)
    (hports : N + s.foreign.length < 65536) :
    ∃ port, s.server port = none ∧ SocketAddr.localhost port ∉ s.foreign := by
  classical
  by_contra hno
  push_neg at hno
  let used := (Finset.range 65536).filter fun n => (s.server n.toUInt16).isSome
  let taken := (Finset.range 65536).filter fun n => SocketAddr.localhost n.toUInt16 ∈ s.foreign
  have hinj : ∀ {n m}, n ∈ Finset.range 65536 → m ∈ Finset.range 65536 →
      n.toUInt16 = m.toUInt16 → n = m := fun hn hm he =>
    (UInt16.toNat_ofNat_of_lt (Finset.mem_range.mp hn)).symm.trans
      ((congrArg UInt16.toNat he).trans (UInt16.toNat_ofNat_of_lt (Finset.mem_range.mp hm)))
  -- the ports with a server, by their launchers
  have hused : used.card ≤ N := by
    have launcher : ∀ {n}, n ∈ used → ∃ S, s.server n.toUInt16 = some S ∧ S.launcher < N :=
      fun hn => by
        obtain ⟨S, hS⟩ := Option.isSome_iff_exists.mp (Finset.mem_filter.mp hn).2
        refine ⟨S, hS, Nat.lt_of_not_le fun hge => h.started _ S hS ?_⟩
        rw [hidle _ hge]; trivial
    calc used.card
        ≤ (Finset.range N).card := Finset.card_le_card_of_injOn
          (fun n => ((s.server n.toUInt16).map Server.launcher).getD 0)
          (fun n hn => by
            obtain ⟨S, hS, hlt⟩ := launcher hn
            simpa [hS] using hlt)
          (fun n hn m hm he => by
            obtain ⟨S, hS, -⟩ := launcher hn
            obtain ⟨S', hS', -⟩ := launcher hm
            simp only [hS, hS', Option.map_some', Option.getD_some] at he
            exact hinj (Finset.mem_filter.mp hn).1 (Finset.mem_filter.mp hm).1
              (h.unique _ _ S S' hS hS' he))
      _ = N := Finset.card_range N
  -- the ports with a foreign listener, by their addresses
  have htaken : taken.card ≤ s.foreign.length :=
    calc taken.card
        ≤ s.foreign.toFinset.card := Finset.card_le_card_of_injOn
          (fun n => SocketAddr.localhost n.toUInt16)
          (fun n hn => List.mem_toFinset.mpr (Finset.mem_filter.mp hn).2)
          (fun n hn m hm he => hinj (Finset.mem_filter.mp hn).1 (Finset.mem_filter.mp hm).1
            (by simpa [SocketAddr.localhost] using he))
      _ ≤ s.foreign.length := List.toFinset_card_le _
  -- every port is one or the other
  have hcover : Finset.range 65536 ⊆ used ∪ taken := fun n hn => by
    cases hS : s.server n.toUInt16 with
    | none => exact Finset.mem_union_right _ (Finset.mem_filter.mpr ⟨hn, hno _ hS⟩)
    | some S => exact Finset.mem_union_left _ (Finset.mem_filter.mpr ⟨hn, by simp [hS]⟩)
  have := (Finset.card_le_card hcover).trans (Finset.card_union_le used taken)
  rw [Finset.card_range] at this
  omega

/-! ## 4. Every run can be completed -/

theorem run_append (s : Sys) (ls₁ ls₂ : List Label) :
    run s (ls₁ ++ ls₂) = (run s ls₁).bind fun s' => run s' ls₂ := by
  induction ls₁ generalizing s with
  | nil => rfl
  | cons l ls ih =>
    rw [List.cons_append]
    simp only [run, ih, Option.bind_assoc]

section Runs

variable {role : Nat → Role} {file : Bytes} {foreign : List SocketAddr} {N : Nat}

/-- Every party has returned, or some step of a party or a server is
possible, without outside processes and failed `start(true)` calls. -/
theorem done_or_step (hN : ∀ j, N ≤ j → role j = .absent) (hports : N + foreign.length < 65536)
    {allowed : Label → Prop} (h : Reachable allowed (Sys.init role file foreign) s) :
    (∀ j, ¬ (s.pc j).Running) ∨ ∃ l s₁, (l.Honest ∧ l.NoStartFail) ∧ step s l = some s₁ := by
  by_cases hdone : ∀ j, ¬ (s.pc j).Running
  · exact .inl hdone
  push_neg at hdone
  obtain ⟨j, hj⟩ := hdone
  have hidle : ∀ j, N ≤ j → s.pc j = .idle := fun j hj => (idle_iff_absent h j).mpr (hN j hj)
  have hfree := exists_free_port (launchersOk_reachable h) hidle (by rwa [foreign_reachable h])
  obtain ⟨l, hl, hs⟩ := running_live (inv_reachable h) hfree hj
  obtain ⟨s₁, hs₁⟩ := Option.ne_none_iff_exists'.mp hs
  exact .inr ⟨l, s₁, hl, hs₁⟩

/-- From a state whose runs have at most `k` steps, steps of the parties
and their servers lead to a state where every party has returned. -/
theorem exists_completion (hN : ∀ j, N ≤ j → role j = .absent) (hports : N + foreign.length < 65536)
    (k : Nat) :
    ∀ {s : Sys}, Reachable Label.Honest (Sys.init role file foreign) s →
      (∀ ls s', (∀ l ∈ ls, l.Honest) → run s ls = some s' → ls.length ≤ k) →
      ∃ ls s', (∀ l ∈ ls, l.Honest ∧ l.NoStartFail) ∧ run s ls = some s' ∧
        ∀ j, ¬ (s'.pc j).Running := by
  induction k with
  | zero =>
    intro s h hk
    rcases done_or_step hN hports h with hdone | ⟨l, s₁, hl, hs₁⟩
    · exact ⟨[], s, nofun, rfl, hdone⟩
    · -- a step would make a run longer than any
      have := hk [l] s₁ (by simpa using hl.1) (by simp [run, hs₁])
      simp at this
  | succ k ih =>
    intro s h hk
    rcases done_or_step hN hports h with hdone | ⟨l, s₁, hl, hs₁⟩
    · exact ⟨[], s, nofun, rfl, hdone⟩
    have hrun : ∀ {ls s'}, run s₁ ls = some s' → run s (l :: ls) = some s' := fun hr => by
      simp [run, hs₁, hr]
    obtain ⟨ls, s', hls, hr, hdone⟩ := ih (.step h hl.1 hs₁) fun ls s' hls hr => by
      have := hk (l :: ls) s' (List.forall_mem_cons.mpr ⟨hl.1, hls⟩) (hrun hr)
      simpa using this
    exact ⟨l :: ls, s', List.forall_mem_cons.mpr ⟨hl, hls⟩, hrun hr, hdone⟩

/-- **Every run can be completed.** Parties `0` to `N - 1` running
`connect_with_policy` with any policies or `bootstrap`, from any content
of the rendezvous file, with fewer than `65536 - N` foreign listeners on
loopback ports: whatever steps without outside processes have been taken,
failed `start(true)` calls included, further steps of the parties and
their servers bring every party back from its call, and the whole run has
at most `14 * N + 3` steps; as long as no started server exits (see
`step`). -/
theorem honest_run_completes (hN : ∀ j, N ≤ j → role j = .absent)
    (hports : N + foreign.length < 65536) {ls : List Label} (hls : ∀ l ∈ ls, l.Honest)
    (hr : run (Sys.init role file foreign) ls = some s) :
    ∃ ls' s', (∀ l ∈ ls', l.Honest ∧ l.NoStartFail) ∧ run s ls' = some s' ∧
      ls.length + ls'.length ≤ 14 * N + 3 ∧ ∀ j, ¬ (s'.pc j).Running := by
  have h := reachable_run .init hls hr
  obtain ⟨ls', s', hls', hr', hdone⟩ := exists_completion hN hports (s.potential N + 3) h
    fun ls₁ s₁ hls₁ hr₁ => by
      have := length_add_potential_le hN h hls₁ hr₁
      have := totalRestarts_le_one h hls₁
      omega
  refine ⟨ls', s', hls', hr', ?_, hdone⟩
  have hall : ∀ l ∈ ls ++ ls', l.Honest := fun l hl =>
    (List.mem_append.mp hl).elim (hls l) fun hl' => (hls' l hl').1
  have h₁ := length_add_potential_le hN .init hall (by rw [run_append, hr]; exact hr')
  have h₂ := potential_init role file foreign N
  have h₃ := totalRestarts_le_one (.init : Reachable Label.Honest (Sys.init role file foreign) _) hall
  rw [List.length_append] at h₁
  omega

/-- Client 0 has taken the lock over a record without an address; the
run goes on until both clients have returned. -/
theorem honest_run_completes_two_clients :
    let c₀ : Cookie := ⟨List.replicate 32 0, rfl⟩
    let role : Nat → Role := fun i => if i < 2 then .client .external .external else .absent
    ∃ s, run (Sys.init role c₀.bytes []) [.acquire 0] = some s ∧
      ∃ ls' s', (∀ l ∈ ls', l.Honest ∧ l.NoStartFail) ∧ run s ls' = some s' ∧
        [Label.acquire 0].length + ls'.length ≤ 14 * 2 + 3 ∧ ∀ j, ¬ (s'.pc j).Running := by
  intro c₀ role
  have hls : ∀ l ∈ [Label.acquire 0], l.Honest := by simp [Label.Honest]
  have hsome : (run (Sys.init role c₀.bytes []) [.acquire 0]).isSome = true := by decide
  exact ⟨_, (Option.some_get hsome).symm, honest_run_completes
    (fun j hj => by simp [role, show ¬ j < 2 by omega]) (by decide) hls (Option.some_get hsome).symm⟩

end Runs

end SequoiaIpc.Protocol
