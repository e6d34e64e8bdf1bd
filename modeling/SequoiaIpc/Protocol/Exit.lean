/-
SequoiaIpc.Protocol.Exit — servers that stop, and runs that still end.

`step` has one way for a started server to stop: `Cookie::receive` on its
first connection fails. `serve_listener` has others. An error of
`l.accept()`, of the handler factory, of `set_nonblocking` or of the
async `accept` returns through `?`, and the process a server runs in can
end (a forked server's own, or the launcher's for a server in a thread).
The port is then free, and a record that names it is stale: the next
reader takes the restart branch of `connect_with_policy`, clears the file,
starts over and may start a server of its own, whose record can go stale
in turn. The runs of `step` never take that branch twice; the runs here
take it as often as servers stop.

This module adds those exits (`Action.exit`, `Sys.exitStep`) to the steps
of the parties and their servers, and shows that every run still ends,
restarts included: parties `0` to `N - 1`, from any content of the file,
take at most `34 * N + 6` steps and exits together
(`run_length_with_exits`).

## How the proof goes

`Sys.potential` drops at every step but a restart, which raises it by two
(`potential_step`, `potential_restart`). A restart needs a record on file
and leaves none, and a record is written at most once per party, by the
party's own `publish`. So the parties that have yet to write, plus one
for a record on file, never grow and drop at every restart
(`writes_record_step`). A `start` adds one server and an exit removes one
(`serverCount_step`, `serverCount_exit`). Twice the potential, six times
those writes and the number of servers drop together at every action
(`bound_action`).
-/
import SequoiaIpc.Protocol.Private

namespace SequoiaIpc.Protocol

open Sys

variable {s s' : Sys} {l : Label} {N : Nat}

/-! ## 1. Exits -/

/-- A started server stops: `serve_listener` returns through `?`, or its
process ends. Its port is released, and what waited in its queue is lost. -/
def Sys.exitStep (s : Sys) (port : UInt16) : Option Sys :=
  if (s.server port).isSome then some { s with server := Function.update s.server port none }
  else none

/-- What happens next: a step of a party or a server, or the exit of a
server. -/
inductive Action where
  | step (l : Label)
  | exit (port : UInt16)
deriving DecidableEq, Repr

/-- No outside process acts. -/
def Action.Honest : Action → Prop
  | .step l => l.Honest
  | .exit _ => True

/-- One action of the system with exits. -/
def stepA (s : Sys) : Action → Option Sys
  | .step l => step s l
  | .exit port => s.exitStep port

/-- A run with exits. -/
def runA (s : Sys) : List Action → Option Sys
  | [] => some s
  | a :: as => (stepA s a).bind fun s' => runA s' as

/-- Every run of `step` is a run with exits, none of them taken. -/
theorem runA_map_step : ∀ (s : Sys) (ls : List Label), runA s (ls.map .step) = run s ls
  | _, [] => rfl
  | s, l :: ls => by
    simp only [List.map_cons, runA, run, stepA]
    cases step s l <;> simp [runA_map_step]

theorem exitStep_some {port : UInt16} (h : s.exitStep port = some s') :
    (s.server port).isSome ∧ s' = { s with server := Function.update s.server port none } := by
  unfold exitStep at h
  split at h
  · exact ⟨‹_›, (Option.some.inj h).symm⟩
  · cases h

theorem idle_action {a : Action} (hs : stepA s a = some s') (j : Nat) :
    s'.pc j = .idle ↔ s.pc j = .idle := by
  cases a with
  | step l => exact idle_step hs j
  | exit port => obtain ⟨-, rfl⟩ := exitStep_some hs; rfl

/-! ## 2. The servers -/

/-- How many ports have a server. -/
def Sys.serverCount (s : Sys) : Nat :=
  ((Finset.range 65536).filter fun n => (s.server n.toUInt16).isSome).card

theorem toUInt16_eq_iff {n : Nat} (hn : n ∈ Finset.range 65536) {p : UInt16} :
    n.toUInt16 = p ↔ n = p.toNat := by
  constructor
  · rintro rfl
    exact (UInt16.toNat_ofNat_of_lt (Finset.mem_range.mp hn)).symm
  · rintro rfl
    exact uint16_toNat_toUInt16 p

/-- A step brings up a server on one port at most: its label's `start`. -/
theorem server_isSome_step (hs : step s l = some s') :
    ∃ p, ∀ q, (s'.server q).isSome → (s.server q).isSome ∨ q = p := by
  refine ⟨match l with | .start _ p => p | _ => 0, fun q hq => ?_⟩
  cases h : s.server q with
  | some _ => exact .inl rfl
  | none =>
    obtain ⟨S', hS'⟩ := Option.isSome_iff_exists.mp hq
    obtain ⟨rfl, -⟩ := new_server_step hs h hS'
    exact .inr rfl

theorem serverCount_step (hs : step s l = some s') : s'.serverCount ≤ s.serverCount + 1 := by
  obtain ⟨p, hp⟩ := server_isSome_step hs
  calc s'.serverCount
      ≤ (insert p.toNat ((Finset.range 65536).filter fun n => (s.server n.toUInt16).isSome)).card :=
        Finset.card_le_card fun n hn => by
          obtain ⟨hr, hn⟩ := Finset.mem_filter.mp hn
          rcases hp _ hn with h | h
          · exact Finset.mem_insert_of_mem (Finset.mem_filter.mpr ⟨hr, h⟩)
          · exact Finset.mem_insert.mpr (.inl ((toUInt16_eq_iff hr).mp h))
    _ ≤ s.serverCount + 1 := Finset.card_insert_le _ _

theorem serverCount_exit {port : UInt16} (h : s.exitStep port = some s') :
    s'.serverCount < s.serverCount := by
  obtain ⟨hS, rfl⟩ := exitStep_some h
  have hp : port.toNat ∈ Finset.range 65536 := Finset.mem_range.mpr port.toNat_lt_size
  apply Finset.card_lt_card
  refine (Finset.ssubset_iff_of_subset fun n hn => ?_).mpr ⟨port.toNat, ?_, ?_⟩
  · obtain ⟨hr, hn⟩ := Finset.mem_filter.mp hn
    refine Finset.mem_filter.mpr ⟨hr, ?_⟩
    dsimp only at hn
    by_cases he : n.toUInt16 = port
    · rw [he, Function.update_same] at hn
      cases hn
    · rwa [Function.update_noteq he] at hn
  · exact Finset.mem_filter.mpr ⟨hp, by rwa [uint16_toNat_toUInt16]⟩
  · intro hmem
    obtain ⟨-, hn⟩ := Finset.mem_filter.mp hmem
    dsimp only at hn
    rw [uint16_toNat_toUInt16, Function.update_same] at hn
    cases hn

/-! ## 3. Writes left -/

/-- Whether the party may still write a record in this call: it has not
passed its `publish` yet. -/
def Pc.writesLeft : Pc → Nat
  | .opening _ | .reading _ | .empty _ _ | .fallback _ | .launched _ _ _ | .initSent _ _ _
  | .bootOpening | .bootReading | .bootEmpty _ | .bootLaunched _ _ => 1
  | _ => 0

theorem Pc.writesLeft_le_one (p : Pc) : p.writesLeft ≤ 1 := by
  cases p <;> simp [Pc.writesLeft]

/-- The parties below `N` that may still write a record. -/
def Sys.writes (s : Sys) (N : Nat) : Nat := ∑ j in Finset.range N, (s.pc j).writesLeft

/-- One for a record on file, as far as its length goes. -/
def Sys.recordTerm (s : Sys) : Nat := if Cookie.SIZE ≤ s.file.length then 1 else 0

theorem writes_le (s : Sys) (N : Nat) : s.writes N ≤ N := by
  simpa [Sys.writes] using Finset.sum_le_card_nsmul (Finset.range N)
    (fun j => (s.pc j).writesLeft) 1 fun j _ => Pc.writesLeft_le_one _

theorem recordTerm_le_one (s : Sys) : s.recordTerm ≤ 1 := by
  unfold recordTerm; split <;> omega

/-- No step takes a party back before its `publish`. -/
theorem writesLeft_step (hs : step s l = some s') (j : Nat) :
    (s'.pc j).writesLeft ≤ (s.pc j).writesLeft := by
  by_cases hl : l.party = some j
  swap
  · rw [pc_step_ne hs hl]
  cases l with
  | acquire i =>
    obtain rfl : i = j := Option.some.inj hl
    obtain ⟨-, ⟨p, hp, rfl⟩ | ⟨hp, rfl⟩⟩ := acquireStep_some hs <;> simp [hp, Pc.writesLeft]
  | read i fresh =>
    obtain rfl : i = j := Option.some.inj hl
    rcases readStep_some hs with
      ⟨p, hp, ⟨-, rfl⟩ | ⟨k, x, d, -, rfl⟩ | ⟨-, rfl⟩⟩ | ⟨hp, ⟨k, x, d, -, rfl⟩ | ⟨-, rfl⟩⟩ <;>
      simp [hp, Pc.writesLeft, restart]
  | start i p =>
    obtain rfl : i = j := Option.some.inj hl
    obtain ⟨-, -, ⟨q, c, hp, rfl⟩ | ⟨c, hp, rfl⟩ | ⟨c, hp, rfl⟩⟩ := startStep_some hs <;>
      simp [hp, Pc.writesLeft]
  | startFail i =>
    obtain rfl : i = j := Option.some.inj hl
    rcases startFailStep_some hs with ⟨c, hp, rfl⟩ | ⟨c, hp, rfl⟩ <;> simp [hp, Pc.writesLeft]
  | initConnect i =>
    obtain rfl : i = j := Option.some.inj hl
    rcases initConnectStep_some hs with
      ⟨c, p, ext, hp, ⟨-, rfl⟩ | ⟨-, rfl⟩⟩ | ⟨c, p, hp, ⟨-, rfl⟩ | ⟨-, rfl⟩⟩ <;>
      simp [hp, Pc.writesLeft]
  | publish i =>
    obtain rfl : i = j := Option.some.inj hl
    rcases publishStep_some hs with ⟨c, p, ext, hp, rfl⟩ | ⟨c, p, hp, rfl⟩ <;>
      simp [hp, Pc.writesLeft]
  | sessionConnect i =>
    obtain rfl : i = j := Option.some.inj hl
    obtain ⟨c, p, hp, ⟨-, rfl⟩ | ⟨-, rfl⟩⟩ := sessionConnectStep_some hs <;>
      simp [hp, Pc.writesLeft]
  | acceptInit _ => cases hl
  | accept _ => cases hl
  | outside _ _ => cases hl

theorem writes_step (hs : step s l = some s') : s'.writes N ≤ s.writes N :=
  Finset.sum_le_sum fun j _ => writesLeft_step hs j

/-- **A record is written at most once per party.** The parties that may
still write, and a record on file, never grow together: a write fills the
file and moves its writer past its `publish`. -/
theorem writes_record_step (hN : ∀ j, N ≤ j → s.pc j = .idle) (hs : step s l = some s') :
    s'.writes N + s'.recordTerm ≤ s.writes N + s.recordTerm := by
  have hw := writes_step (N := N) hs
  have hle := recordTerm_le_one s'
  rcases file_step hs with hf | hf | ⟨j, c, port, hp, hp', -⟩
  · simp only [recordTerm, hf]
    omega
  · have : s'.recordTerm = 0 := by simp [recordTerm, hf, Cookie.SIZE]
    omega
  · -- the writer leaves the parties that may still write
    have hj : j < N := Nat.lt_of_not_le fun h => by rcases hp with hp | hp <;> simp [hN j h] at hp
    have hlt : s'.writes N < s.writes N :=
      Finset.sum_lt_sum (fun i _ => writesLeft_step hs i)
        ⟨j, Finset.mem_range.mpr hj, by rcases hp with hp | hp <;> rcases hp' with hp' | hp' <;>
          simp [hp, hp', Pc.writesLeft]⟩
    omega

/-- A restart needs a record on file, and clears the file. -/
theorem recordTerm_restart (hs : step s l = some s') (hr : s.restartStep l = true) :
    s.recordTerm = 1 ∧ s'.recordTerm = 0 := by
  have hst : s.found = .stale := by
    cases l <;> simp_all [Sys.restartStep, Sys.restartsAt]
  have hlen : ¬ s.file.length < Cookie.SIZE := fun h => by rw [found_none_iff.mpr h] at hst; cases hst
  obtain ⟨i, p, -, rfl⟩ := restartStep_spec hs hr
  exact ⟨if_pos (by omega), by simp [recordTerm, restart, Cookie.SIZE]⟩

/-- One when the action is a client's restart over a stale record. -/
def Sys.restartOf (s : Sys) : Action → Nat
  | .step l => if s.restartStep l then 1 else 0
  | .exit _ => 0

/-- The restarts along a run with exits, up to its first action that cannot
be taken. -/
def restartsA : Sys → List Action → Nat
  | _, [] => 0
  | s, a :: as => ((stepA s a).map fun s' => s.restartOf a + restartsA s' as).getD 0

/-- An action takes one restart at most out of the writes left and the
record on file. -/
theorem writes_record_action (hN : ∀ j, N ≤ j → s.pc j = .idle) {a : Action}
    (hs : stepA s a = some s') :
    s'.writes N + s'.recordTerm + s.restartOf a ≤ s.writes N + s.recordTerm := by
  cases a with
  | step l =>
    cases hr : s.restartStep l
    · simpa [Sys.restartOf, hr] using writes_record_step hN hs
    · obtain ⟨h₁, h₂⟩ := recordTerm_restart hs hr
      have := writes_step (N := N) hs
      simp only [Sys.restartOf, hr, if_true]
      omega
  | exit port => obtain ⟨-, rfl⟩ := exitStep_some hs; rfl

theorem restartsA_le :
    ∀ {s : Sys} (as : List Action), (∀ j, N ≤ j → s.pc j = .idle) →
      restartsA s as ≤ s.writes N + s.recordTerm
  | _, [], _ => Nat.zero_le _
  | s, a :: as, hN => by
    cases hs : stepA s a with
    | none => simp [restartsA, hs]
    | some s' =>
      have h₁ := writes_record_action hN hs
      have h₂ := restartsA_le as fun j hj => (idle_action hs j).mpr (hN j hj)
      simp only [restartsA, hs, Option.map_some', Option.getD_some]
      omega

/-! ## 4. Every run with exits ends -/

/-- What every action of the parties, their servers and the exits lowers. -/
def Sys.bound (s : Sys) (N : Nat) : Nat :=
  2 * s.potential N + 6 * (s.writes N + s.recordTerm) + s.serverCount

/-- **Every action lowers the bound**: a step of a party or a server, a
restart included, or the exit of a server. -/
theorem bound_action (hN : ∀ j, N ≤ j → s.pc j = .idle) {a : Action} (ha : a.Honest)
    (hs : stepA s a = some s') : s'.bound N < s.bound N := by
  cases a with
  | step l =>
    have hw := writes_record_step hN hs
    have hc := serverCount_step hs
    simp only [Sys.bound]
    cases hr : s.restartStep l
    · have := potential_step hN (not_stale_of_restartStep hr) ha hs
      omega
    · -- a restart: two units of potential, paid by the record it clears
      obtain ⟨h₁, h₂⟩ := recordTerm_restart hs hr
      have hw' := writes_step (N := N) hs
      obtain ⟨i, p, hp, rfl⟩ := restartStep_spec hs hr
      have := potential_restart hN hp
      omega
  | exit port =>
    have hc := serverCount_exit hs
    obtain ⟨-, rfl⟩ := exitStep_some hs
    have hb := backlog_update (s := s) (X := { s with server := Function.update s.server port none })
      port none rfl
    simp only [Sys.bound, Sys.potential, Sys.ranks, Sys.writes, recordTerm, qlen, Option.map_none',
      Option.getD_none] at hb ⊢
    omega

theorem length_add_bound_le :
    ∀ {s s' : Sys} {as : List Action}, (∀ j, N ≤ j → s.pc j = .idle) → (∀ a ∈ as, a.Honest) →
      runA s as = some s' → as.length + s'.bound N ≤ s.bound N
  | _, _, [], _, _, hr => by cases hr; simp
  | s, s', a :: as, hN, ha, hr => by
    simp only [runA, Option.bind_eq_some] at hr
    obtain ⟨s₁, h₁, hr⟩ := hr
    have hlt := bound_action hN (ha a (List.mem_cons_self _ _)) h₁
    have := length_add_bound_le (fun j hj => (idle_action h₁ j).mpr (hN j hj))
      (fun a' h' => ha a' (List.mem_cons_of_mem _ h')) hr
    simp only [List.length_cons]
    omega

theorem bound_init (role : Nat → Role) (file : Bytes) (foreign : List SocketAddr) (N : Nat) :
    (Sys.init role file foreign).bound N ≤ 34 * N + 6 := by
  have hp := potential_init role file foreign N
  have hw := writes_le (Sys.init role file foreign) N
  have hr := recordTerm_le_one (Sys.init role file foreign)
  have hc : (Sys.init role file foreign).serverCount = 0 := by simp [serverCount, Sys.init]
  simp only [Sys.bound]
  omega

/-- **Every run ends, with servers that stop.** Parties `0` to `N - 1`
running `connect_with_policy` with any policies or `bootstrap`, from any
content of the rendezvous file, failed `start(true)` calls included, and
any started server stopping at any point: a run without outside
processes has at most `34 * N + 6` steps and exits together. Every exit
of a recorded server can send the next reader through another restart
and another `start`; the restarts are paid for by the records written. -/
theorem run_length_with_exits {role : Nat → Role} {file : Bytes} {foreign : List SocketAddr}
    (hN : ∀ j, N ≤ j → role j = .absent) {as : List Action} (has : ∀ a ∈ as, a.Honest)
    (hr : runA (Sys.init role file foreign) as = some s) : as.length ≤ 34 * N + 6 := by
  have h₁ := length_add_bound_le
    (fun j hj => (idle_iff_absent (.init : Reachable Label.Honest _ _) j).mpr (hN j hj)) has hr
  have h₂ := bound_init role file foreign N
  omega

/-- **One restart per record written.** Parties `0` to `N - 1` running
`connect_with_policy` with any policies or `bootstrap`, from any content
of the rendezvous file, with any started server stopping at any point:
along a run without outside processes the parties take the stale-record
branch of `connect_with_policy` at most `N + 1` times in all. A restart
needs a record on file and clears it, and each party writes one record at
most. -/
theorem restarts_with_exits {role : Nat → Role} {file : Bytes} {foreign : List SocketAddr}
    (hN : ∀ j, N ≤ j → role j = .absent) (as : List Action) :
    restartsA (Sys.init role file foreign) as ≤ N + 1 := by
  have h₁ := restartsA_le (N := N) as
    fun j hj => (idle_iff_absent (.init : Reachable Label.Honest (Sys.init role file foreign) _) j).mpr
      (hN j hj)
  have h₂ := writes_le (Sys.init role file foreign) N
  have h₃ := recordTerm_le_one (Sys.init role file foreign)
  omega

/-- Client 0 launches over a stale record and connects; its server then
stops, client 1 finds the record stale in turn, restarts and launches a
server of its own: two restarts, two starts, twenty-one actions. -/
theorem run_length_with_exits_restart_twice :
    let c₀ : Cookie := ⟨List.replicate 32 0, rfl⟩
    let role : Nat → Role := fun i => if i < 2 then .client .external .external else .absent
    let as : List Action := [.step (.acquire 0), .step (.read 0 c₀), .step (.acquire 0),
      .step (.read 0 c₀), .step (.start 0 5), .step (.initConnect 0), .step (.acceptInit 5),
      .step (.publish 0), .step (.sessionConnect 0), .step (.accept 5), .exit 5,
      .step (.acquire 1), .step (.read 1 c₀), .step (.acquire 1), .step (.read 1 c₀),
      .step (.start 1 6), .step (.initConnect 1), .step (.acceptInit 6), .step (.publish 1),
      .step (.sessionConnect 1), .step (.accept 6)]
    ∃ s, runA (Sys.init role c₀.bytes []) as = some s ∧
      s.pc 0 = .connected c₀ (.localhost 5) ∧ s.pc 1 = .connected c₀ (.localhost 6) ∧
      as.length ≤ 34 * 2 + 6 := by
  intro c₀ role as
  have has : ∀ a ∈ as, a.Honest := fun a ha => by
    cases a with
    | step l => cases l <;> first | trivial | simp [as] at ha
    | exit _ => trivial
  have hq : (runA (Sys.init role c₀.bytes []) as).map (fun s => (s.pc 0, s.pc 1)) =
      some (.connected c₀ (.localhost 5), .connected c₀ (.localhost 6)) := by decide
  obtain ⟨s, hr, he⟩ := Option.map_eq_some'.mp hq
  simp only [Prod.mk.injEq] at he
  exact ⟨s, hr, he.1, he.2, run_length_with_exits
    (fun j hj => by simp [role, show ¬ j < 2 by omega]) has hr⟩

/-- The run above takes the restart branch twice, within the bound for two
parties: once over the record with no address, once over the record of
the server that stopped. -/
theorem restarts_with_exits_twice :
    let c₀ : Cookie := ⟨List.replicate 32 0, rfl⟩
    let role : Nat → Role := fun i => if i < 2 then .client .external .external else .absent
    let as : List Action := [.step (.acquire 0), .step (.read 0 c₀), .step (.acquire 0),
      .step (.read 0 c₀), .step (.start 0 5), .step (.initConnect 0), .step (.acceptInit 5),
      .step (.publish 0), .step (.sessionConnect 0), .step (.accept 5), .exit 5,
      .step (.acquire 1), .step (.read 1 c₀), .step (.acquire 1), .step (.read 1 c₀),
      .step (.start 1 6), .step (.initConnect 1), .step (.acceptInit 6), .step (.publish 1),
      .step (.sessionConnect 1), .step (.accept 6)]
    restartsA (Sys.init role c₀.bytes []) as = 2 ∧ restartsA (Sys.init role c₀.bytes []) as ≤ 2 + 1 := by
  intro c₀ role as
  exact ⟨by decide, restarts_with_exits (fun j hj => by simp [role, show ¬ j < 2 by omega]) as⟩

end SequoiaIpc.Protocol
