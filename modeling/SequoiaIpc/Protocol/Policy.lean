/-
SequoiaIpc.Protocol.Policy — which `start` calls a policy makes.

`connect_with_policy(policy)` starts its server as `policy` says
(`IPCPolicy.Permits`): `start(false)` for `Internal`, `start(true)` for
`External`, and for `Robust` `start(true)`, then `start(false)` only when
that fails. When the record it reads is stale it clears the file, drops
the lock and calls `self.connect()`, which is `connect_with_policy` with
the context's policy: the restarted call follows the context's policy
and not `policy` (`restart_uses_context_policy`). When the two agree, as
in `Descriptor::connect`, every call is permitted, restarts included
(`connect_starts_permitted`).
-/
import SequoiaIpc.Protocol.Step

namespace SequoiaIpc

/-! ## 1. What a policy permits -/

/-- Whether `connect_with_policy(policy)` may make the `start` call `call`
after its previous call `prev`, as the policy is documented. -/
def IPCPolicy.Permits : IPCPolicy → Option Protocol.StartCall → Protocol.StartCall → Prop
  | .internal, _, call => call.external = false
  | .external, _, call => call.external = true
  | .robust, prev, call => call.external = true ∨ ∃ j, prev = some ⟨j, true, false⟩

/-- Every call of a sequence is permitted after the one before it. -/
def IPCPolicy.PermitsAll (policy : IPCPolicy) :
    Option Protocol.StartCall → List Protocol.StartCall → Prop
  | _, [] => True
  | prev, call :: rest => policy.Permits prev call ∧ policy.PermitsAll (some call) rest

namespace Protocol

/-- The last call of a sequence that follows `prev`. -/
def lastOr : Option StartCall → List StartCall → Option StartCall
  | prev, [] => prev
  | _, call :: rest => lastOr (some call) rest

/-- The `start` calls party `i` has made, in order. -/
def Sys.calls (s : Sys) (i : Nat) : List StartCall := s.starts.filter fun c => c.party = i

variable {s s' : Sys}

theorem permitsAll_concat (p : IPCPolicy) (c : StartCall) :
    ∀ (prev : Option StartCall) (l : List StartCall),
      p.PermitsAll prev (l ++ [c]) ↔ p.PermitsAll prev l ∧ p.Permits (lastOr prev l) c
  | prev, [] => by simp [IPCPolicy.PermitsAll, lastOr]
  | prev, a :: l => by
    rw [List.cons_append, IPCPolicy.PermitsAll, permitsAll_concat p c (some a) l,
      IPCPolicy.PermitsAll, lastOr, and_assoc]

@[simp] theorem lastOr_concat (c : StartCall) :
    ∀ (prev : Option StartCall) (l : List StartCall), lastOr prev (l ++ [c]) = some c
  | _, [] => rfl
  | _, a :: l => lastOr_concat c (some a) l

theorem calls_of_starts {j : Nat} (h : s'.starts = s.starts) : s'.calls j = s.calls j := by
  simp [Sys.calls, h]

theorem calls_logStart (s : Sys) (j i : Nat) (e o : Bool) :
    (s.logStart j e o).calls i = if j = i then s.calls i ++ [⟨j, e, o⟩] else s.calls i := by
  by_cases h : j = i <;> simp [Sys.calls, h]

/-! ## 2. `connect()` keeps to its policy -/

/-- Where a party running `connect_with_policy(p)` with context policy `p`
can be, given the last `start` call it made. -/
def Pc.ConnectOk (p : IPCPolicy) (last : Option StartCall) : Pc → Prop
  | .opening q | .reading q | .empty q _ => q = p
  | .fallback _ => p = .robust ∧ ∃ j, last = some ⟨j, true, false⟩
  | .launched _ _ _ | .initSent _ _ _ | .connecting _ _ | .connected _ _ | .failed => True
  | _ => False

/-- What party `i` has done, when it runs `connect()`. -/
def PartyOk (role : Nat → Role) (s : Sys) (i : Nat) : Prop :=
  ∀ p, role i = .client p p → p.PermitsAll none (s.calls i) ∧
    (s.pc i).ConnectOk p (lastOr none (s.calls i))

variable {role : Nat → Role} {i : Nat}

open Sys

/-- A party that does not move keeps its program point and its calls. -/
theorem PartyOk.frame {j : Nat} (h : PartyOk role s j) (hpc : s'.pc j = s.pc j)
    (hc : s'.calls j = s.calls j) : PartyOk role s' j := by
  intro p hr
  rw [hpc, hc]
  exact h p hr

/-- A step of party `i` that makes no `start` call. -/
theorem partyOk_move (h : ∀ j, PartyOk role s j) (i : Nat) (hstarts : s'.starts = s.starts)
    (hpc : ∀ j ≠ i, s'.pc j = s.pc j)
    (hq : ∀ p, role i = .client p p → (s.pc i).ConnectOk p (lastOr none (s.calls i)) →
      (s'.pc i).ConnectOk p (lastOr none (s.calls i))) (j : Nat) : PartyOk role s' j := by
  by_cases hj : j = i
  · subst hj
    intro p hr
    rw [calls_of_starts hstarts]
    exact ⟨(h j p hr).1, hq p hr (h j p hr).2⟩
  · exact (h j).frame (hpc j hj) (calls_of_starts hstarts)

/-- A step of party `i` that makes the `start` call `⟨i, e, o⟩`. -/
theorem partyOk_log (h : ∀ j, PartyOk role s j) (i : Nat) {e o : Bool}
    (hstarts : s'.starts = s.starts ++ [⟨i, e, o⟩]) (hpc : ∀ j ≠ i, s'.pc j = s.pc j)
    (hq : ∀ p, role i = .client p p → (s.pc i).ConnectOk p (lastOr none (s.calls i)) →
      p.Permits (lastOr none (s.calls i)) ⟨i, e, o⟩ ∧ (s'.pc i).ConnectOk p (some ⟨i, e, o⟩))
    (j : Nat) : PartyOk role s' j := by
  have hc : s'.calls j = if i = j then s.calls j ++ [⟨i, e, o⟩] else s.calls j := by
    rw [← calls_logStart]; exact calls_of_starts hstarts
  by_cases hj : j = i
  · subst hj
    intro p hr
    obtain ⟨hp1, hq1⟩ := hq p hr (h j p hr).2
    rw [hc, if_pos rfl, permitsAll_concat, lastOr_concat]
    exact ⟨⟨(h j p hr).1, hp1⟩, hq1⟩
  · exact (h j).frame (hpc j hj) (by rw [hc, if_neg (Ne.symm hj)])

theorem partyOk_step {l : Label} (hrole : s.role = role) (h : ∀ j, PartyOk role s j)
    (hs : step s l = some s') (j : Nat) : PartyOk role s' j := by
  cases l with
  | acquire i =>
    obtain ⟨-, ⟨p, hp, rfl⟩ | ⟨hp, rfl⟩⟩ := acquireStep_some hs <;>
      exact partyOk_move h i (by rfl) (fun j hj => by simp [setPc_pc_ne _ _ hj])
        (fun _ _ hc => by rw [setPc_pc_self]; rw [hp] at hc; exact hc) j
  | read i fresh =>
    have hpc : ∀ {X : Sys} {q : Pc}, X.pc = s.pc → ∀ j ≠ i, (X.setPc i q).pc j = s.pc j :=
      fun hX j hj => by rw [setPc_pc_ne _ _ hj, hX]
    rcases readStep_some hs with
      ⟨p, hp, ⟨-, rfl⟩ | ⟨k, x, d, -, rfl⟩ | ⟨-, rfl⟩⟩ | ⟨hp, ⟨k, x, d, -, rfl⟩ | ⟨-, rfl⟩⟩
    · exact partyOk_move h i (by rfl) (hpc rfl)
        (fun _ _ hc => by rw [hp] at hc; simpa [Pc.ConnectOk] using hc) j
    · exact partyOk_move h i (by simp) (fun j hj => by simp [setPc_pc_ne _ _ hj])
        (fun _ _ _ => by simp [Pc.ConnectOk]) j
    · -- the restart follows the context's policy, here the same
      exact partyOk_move h i (by rfl) (hpc rfl)
        (fun _ hr _ => by simp [Sys.restart, Pc.ConnectOk, hrole, hr, Role.ctxPolicy]) j
    · exact partyOk_move h i (by simp) (fun j hj => by simp [setPc_pc_ne _ _ hj])
        (fun _ _ hc => by rw [hp] at hc; exact hc.elim) j
    · exact partyOk_move h i (by rfl) (hpc rfl) (fun _ _ hc => by rw [hp] at hc; exact hc.elim) j
  | start i port =>
    obtain ⟨-, -, ⟨q, c, hp, rfl⟩ | ⟨c, hp, rfl⟩ | ⟨c, hp, rfl⟩⟩ := startStep_some hs
    · -- `start(policy == External or Robust)`
      refine partyOk_log h i (by rfl) (fun j hj => by simp [setPc_pc_ne _ _ hj]) (fun p _ hc => ?_) j
      rw [hp] at hc
      cases hc
      cases q <;> simp [IPCPolicy.Permits, IPCPolicy.startsExternal, Pc.ConnectOk]
    · -- `Robust` falls back to `start(false)` after a failed `start(true)`
      refine partyOk_log h i (by rfl) (fun j hj => by simp [setPc_pc_ne _ _ hj]) (fun p _ hc => ?_) j
      rw [hp] at hc
      obtain ⟨rfl, hl⟩ := hc
      exact ⟨.inr hl, by simp [Pc.ConnectOk]⟩
    · exact partyOk_log h i (by rfl) (fun j hj => by simp [setPc_pc_ne _ _ hj])
        (fun _ _ hc => by rw [hp] at hc; exact hc.elim) j
  | startFail i =>
    rcases startFailStep_some hs with ⟨c, hp, rfl⟩ | ⟨c, hp, rfl⟩
    · refine partyOk_log h i (by rfl) (fun j hj => by simp [setPc_pc_ne _ _ hj]) (fun p _ hc => ?_) j
      rw [hp] at hc; cases hc
      exact ⟨rfl, by simp [Pc.ConnectOk]⟩
    · refine partyOk_log h i (by rfl) (fun j hj => by simp [setPc_pc_ne _ _ hj]) (fun p _ hc => ?_) j
      rw [hp] at hc; cases hc
      exact ⟨.inl rfl, by simp [Pc.ConnectOk]⟩
  | initConnect i =>
    rcases initConnectStep_some hs with
      ⟨c, port, ext, hp, ⟨-, rfl⟩ | ⟨-, rfl⟩⟩ | ⟨c, port, hp, ⟨-, rfl⟩ | ⟨-, rfl⟩⟩ <;>
    exact partyOk_move h i (by rfl) (fun j hj => by simp [setPc_pc_ne _ _ hj])
      (fun _ _ hc => by rw [hp] at hc; simp_all [Pc.ConnectOk]) j
  | publish i =>
    rcases publishStep_some hs with ⟨c, port, ext, hp, rfl⟩ | ⟨c, port, hp, rfl⟩
    · cases ext <;> exact partyOk_move h i (by rfl) (fun j hj => by simp [setPc_pc_ne _ _ hj])
        (fun _ _ _ => by simp [Pc.ConnectOk]) j
    · exact partyOk_move h i (by rfl) (fun j hj => by simp [setPc_pc_ne _ _ hj])
        (fun _ _ hc => by rw [hp] at hc; exact hc.elim) j
  | sessionConnect i =>
    obtain ⟨c, port, hp, ⟨-, rfl⟩ | ⟨-, rfl⟩⟩ := sessionConnectStep_some hs <;>
    exact partyOk_move h i (by rfl) (fun j hj => by simp [setPc_pc_ne _ _ hj])
      (fun _ _ _ => by simp [Pc.ConnectOk]) j
  | acceptInit port =>
    obtain ⟨S, conn, rest, -, -, -, rfl⟩ := acceptInitStep_some hs; exact h j
  | accept port => obtain ⟨S, k, conn, rest, -, -, -, rfl⟩ := acceptStep_some hs; exact h j
  | outside port payload => obtain ⟨S, -, -, -, rfl⟩ := outsideStep_some hs; exact h j

/-- **`connect()` keeps to its policy.** A party running
`connect_with_policy(p)` on a descriptor whose context policy is `p`, as
`Descriptor::connect` does, makes only `start` calls `p` permits, through
every restart, in every run of any parties and outside processes. -/
theorem connect_starts_permitted {allowed : Label → Prop} {file : Bytes}
    {foreign : List SocketAddr} (h : Reachable allowed (Sys.init role file foreign) s)
    {p : IPCPolicy} (hi : role i = .client p p) :
    p.PermitsAll none (s.starts.filter fun c => c.party = i) := by
  suffices hinv : s.role = role ∧ ∀ j, PartyOk role s j from (hinv.2 i p hi).1
  induction h with
  | init =>
    refine ⟨rfl, fun j q hj => ?_⟩
    simp [Sys.calls, Sys.init, hj, Role.entry, Pc.ConnectOk, IPCPolicy.PermitsAll, lastOr]
  | step _ _ hs ih => exact ⟨(role_foreign_step hs).1.trans ih.1, partyOk_step ih.1 ih.2 hs⟩

/-- A `Robust` caller of `connect()` whose `start(true)` fails falls back
to `start(false)`. -/
theorem connect_starts_permitted_robust :
    let c₀ : Cookie := ⟨List.replicate 32 0, rfl⟩
    let role : Nat → Role := fun _ => .client .robust .robust
    let ls : List Label := [.acquire 0, .read 0 c₀, .startFail 0, .start 0 5]
    ∃ s, run (Sys.init role [] []) ls = some s ∧
      IPCPolicy.robust.PermitsAll none (s.starts.filter fun c => c.party = 0) := by
  intro c₀ role ls
  have hsome : (run (Sys.init role [] []) ls).isSome = true := by decide
  exact ⟨_, (Option.some_get hsome).symm, connect_starts_permitted
    (@reachable_run (fun _ => True) _ _ _ ls .init (fun _ _ => trivial) (Option.some_get hsome).symm)
    rfl⟩

/-! ## 3. A restart that changes the policy -/

/-- `connect_with_policy(Internal)` (party 0) on a descriptor whose context
policy is `External`, over a file holding a cookie and no address: the
record is stale, the call restarts through `self.connect()` and the
restarted call makes a `start(true)`. -/
theorem restart_uses_context_policy :
    let c₀ : Cookie := ⟨List.replicate 32 0, rfl⟩
    let role : Nat → Role := fun i => if i = 0 then .client .internal .external else .absent
    (run (Sys.init role c₀.bytes [])
        [.acquire 0, .read 0 c₀, .acquire 0, .read 0 c₀, .start 0 5]).map
      (fun s => (s.pc 0, s.starts)) = some (.launched c₀ 5 true, [⟨0, true, true⟩]) := by
  decide

end Protocol

end SequoiaIpc
