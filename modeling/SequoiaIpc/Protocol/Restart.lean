/-
SequoiaIpc.Protocol.Restart — how often `connect_with_policy` restarts.

When the record `file.read()` returns is stale (its address does not
parse, or nothing answers there), `connect_with_policy` clears the file,
drops the lock and calls `self.connect()`. The recursion has no
structural measure: what bounds it is the file. `CookieFile::clear`
truncates it, so unless another party writes it in between, the
restarted call's `read` on the reopened file finds no cookie, and the
call takes the launch branch, which never reads again.

§1 lists the steps of a run (`steps`), counts a party's restarts along
them (`restarts`) and names the runs in which no other party writes the
file while the call runs (`OthersKeepFile`). §2 says where a restart
leaves its party (`Cleared`, `cleared_restart`): every step keeps that
(`cleared_step`: the party's own steps by its program, the others'
because they leave the party where it is, `pc_step_ne`, and the file as
it is), and no restart starts there (`Cleared.restartsAt`). §3 counts:
no restart follows a `Cleared` state (`restarts_cleared`), so a party
restarts at most once along any run from any state
(`connect_restarts_at_most_once`).
-/
import SequoiaIpc.Protocol.Step

namespace SequoiaIpc.Protocol

/-! ## 1. Steps, restarts and writers -/

/-- The party a step belongs to; the steps of servers and outside processes
belong to none. -/
def Label.party : Label → Option Nat
  | .acquire i | .read i _ | .start i _ | .startFail i | .initConnect i | .publish i
  | .sessionConnect i => some i
  | .acceptInit _ | .accept _ | .outside _ _ => none

/-- The steps of a run: the state each label is taken from, the label and
the state it leads to, up to the first label that cannot be taken. -/
def steps : Sys → List Label → List (Sys × Label × Sys)
  | _, [] => []
  | s, l :: ls =>
    match step s l with
    | some s' => (s, l, s') :: steps s' ls
    | none => []

/-- The client is about to call `file.read()`. -/
def Pc.isReading : Pc → Bool
  | .reading _ => true
  | _ => false

/-- The call has returned, with a session or with an error. -/
def Pc.returned : Pc → Bool
  | .connected _ _ | .failed => true
  | _ => false

/-- Step `l` from `s` is a restart of party `i`: its `read` finds a stale
record, so it clears the file, drops the lock and calls `self.connect()`. -/
def Sys.restartsAt (s : Sys) (i : Nat) : Label → Bool
  | .read j _ => j == i && (s.pc i).isReading && s.found == .stale
  | _ => false

/-- How many times party `i` restarts along the run `ls` from `s`. -/
def restarts (i : Nat) (s : Sys) (ls : List Label) : Nat :=
  (steps s ls).countP fun t => t.1.restartsAt i t.2.1

/-- Along the run `ls` from `s`, no step but those of party `i` changes the
rendezvous file while the call of `i` has not returned. -/
def OthersKeepFile (i : Nat) (s : Sys) (ls : List Label) : Prop :=
  ∀ t ∈ steps s ls, t.2.1.party ≠ some i → (t.1.pc i).returned = false → t.2.2.file = t.1.file

instance (i : Nat) (s : Sys) (ls : List Label) : Decidable (OthersKeepFile i s ls) :=
  inferInstanceAs (Decidable (∀ t ∈ steps s ls, _))

variable {s s' : Sys} {l : Label} {ls : List Label} {i : Nat}

theorem steps_cons (hs : step s l = some s') : steps s (l :: ls) = (s, l, s') :: steps s' ls := by
  simp [steps, hs]

theorem restarts_cons (hs : step s l = some s') :
    restarts i s (l :: ls) = restarts i s' ls + if s.restartsAt i l then 1 else 0 := by
  simp only [restarts, steps_cons hs, List.countP_cons]

theorem OthersKeepFile.cons (h : OthersKeepFile i s (l :: ls)) (hs : step s l = some s') :
    (l.party ≠ some i → (s.pc i).returned = false → s'.file = s.file) ∧ OthersKeepFile i s' ls := by
  rw [OthersKeepFile, steps_cons hs, List.forall_mem_cons] at h
  exact h

/-! ## 2. After a restart -/

open Sys

/-- A step leaves every party but its own where it is. -/
theorem pc_step_ne (hs : step s l = some s') (hl : l.party ≠ some i) : s'.pc i = s.pc i := by
  have hne : ∀ {j : Nat}, some j ≠ some i → i ≠ j := fun h e => h (e ▸ rfl)
  cases l with
  | acquire j =>
    obtain ⟨-, ⟨p, -, rfl⟩ | ⟨-, rfl⟩⟩ := acquireStep_some hs <;> exact setPc_pc_ne _ _ (hne hl)
  | read j fresh =>
    rcases readStep_some hs with
      ⟨p, -, ⟨-, rfl⟩ | ⟨k, x, d, -, rfl⟩ | ⟨-, rfl⟩⟩ | ⟨-, ⟨k, x, d, -, rfl⟩ | ⟨-, rfl⟩⟩ <;>
      simp [restart, setPc_pc_ne _ _ (hne hl)]
  | start j port =>
    obtain ⟨-, -, ⟨p, c, -, rfl⟩ | ⟨c, -, rfl⟩ | ⟨c, -, rfl⟩⟩ := startStep_some hs <;>
      exact setPc_pc_ne _ _ (hne hl)
  | startFail j =>
    rcases startFailStep_some hs with ⟨c, -, rfl⟩ | ⟨c, -, rfl⟩ <;> exact setPc_pc_ne _ _ (hne hl)
  | initConnect j =>
    rcases initConnectStep_some hs with
      ⟨c, port, ext, -, ⟨-, rfl⟩ | ⟨-, rfl⟩⟩ | ⟨c, port, -, ⟨-, rfl⟩ | ⟨-, rfl⟩⟩ <;>
      exact setPc_pc_ne _ _ (hne hl)
  | publish j =>
    rcases publishStep_some hs with ⟨c, port, ext, -, rfl⟩ | ⟨c, port, -, rfl⟩ <;>
      (try cases ext) <;> exact setPc_pc_ne _ _ (hne hl)
  | sessionConnect j =>
    obtain ⟨c, port, -, ⟨-, rfl⟩ | ⟨-, rfl⟩⟩ := sessionConnectStep_some hs <;>
      exact setPc_pc_ne _ _ (hne hl)
  | acceptInit port => obtain ⟨S, conn, rest, -, -, -, rfl⟩ := acceptInitStep_some hs; rfl
  | accept port => obtain ⟨S, k, conn, rest, -, -, -, rfl⟩ := acceptStep_some hs; rfl
  | outside port payload => obtain ⟨S, -, -, -, rfl⟩ := outsideStep_some hs; rfl

/-- Where a party can be after its restart while nobody else writes the
file: about to open or read the file, which is empty, or on the launch
branch, past the `read` that found it empty. -/
def Pc.AfterClear (file : Bytes) : Pc → Prop
  | .opening _ | .reading _ => file = []
  | .empty _ _ | .fallback _ | .launched _ _ _ | .initSent _ _ _ | .connecting _ _
  | .connected _ _ | .failed => True
  | _ => False

/-- Party `i` is where its restart leaves it. -/
def Cleared (i : Nat) (s : Sys) : Prop := (s.pc i).AfterClear s.file

/-- `file.clear()` empties the file and `self.connect()` opens it again. -/
theorem cleared_restart (s : Sys) (i : Nat) : Cleared i (s.restart i) := by
  simp only [Cleared, restart, setPc_pc_self, setPc_file, unlock_file, CookieFile.clear_contents,
    Pc.AfterClear]

theorem found_of_nil (h : s.file = []) : s.found = .none :=
  found_none_iff.mpr (by simp [h, Cookie.SIZE])

/-- No restart starts where a restart leaves its party: a `read` there
finds the file empty. -/
theorem Cleared.restartsAt (h : Cleared i s) (l : Label) : s.restartsAt i l = false := by
  cases l with
  | read j fresh =>
    cases hp : s.pc i
    case reading p =>
      simp only [Cleared, hp, Pc.AfterClear] at h
      simp [Sys.restartsAt, found_of_nil h]
    all_goals simp only [Sys.restartsAt, hp, Pc.isReading, Bool.and_false, Bool.false_and]
  | _ => rfl

/-- The steps of party `i` from where its restart leaves it: reading the
empty file takes the launch branch, which the party never leaves. -/
theorem cleared_own (h : Cleared i s) (hs : step s l = some s') (hl : l.party = some i) :
    Cleared i s' := by
  have hj : ∀ {j : Nat}, some j = some i → j = i := Option.some.inj
  cases l with
  | acquire j =>
    obtain rfl := hj hl
    obtain ⟨-, ⟨p, hp, rfl⟩ | ⟨hp, rfl⟩⟩ := acquireStep_some hs <;>
      simp_all [Cleared, Pc.AfterClear]
  | read j fresh =>
    obtain rfl := hj hl
    rcases readStep_some hs with
      ⟨p, hp, ⟨-, rfl⟩ | ⟨k, x, d, hf, -⟩ | ⟨hf, -⟩⟩ | ⟨hp, -⟩
    · simp [Cleared, Pc.AfterClear]
    -- the file is empty: the read finds no record
    all_goals simp only [Cleared, hp, Pc.AfterClear] at h
    all_goals simp [found_of_nil h] at hf
  | start j port =>
    obtain rfl := hj hl
    obtain ⟨-, -, ⟨p, c, hp, rfl⟩ | ⟨c, hp, rfl⟩ | ⟨c, hp, rfl⟩⟩ := startStep_some hs <;>
      simp_all [Cleared, Pc.AfterClear]
  | startFail j =>
    obtain rfl := hj hl
    rcases startFailStep_some hs with ⟨c, hp, rfl⟩ | ⟨c, hp, rfl⟩ <;> simp [Cleared, Pc.AfterClear]
  | initConnect j =>
    obtain rfl := hj hl
    rcases initConnectStep_some hs with
      ⟨c, port, ext, hp, ⟨-, rfl⟩ | ⟨-, rfl⟩⟩ | ⟨c, port, hp, -⟩
    · simp [Cleared, Pc.AfterClear]
    · simp [Cleared, Pc.AfterClear]
    · simp [Cleared, hp, Pc.AfterClear] at h
  | publish j =>
    obtain rfl := hj hl
    rcases publishStep_some hs with ⟨c, port, ext, hp, rfl⟩ | ⟨c, port, hp, -⟩
    · cases ext <;> simp [Cleared, Pc.AfterClear]
    · simp [Cleared, hp, Pc.AfterClear] at h
  | sessionConnect j =>
    obtain rfl := hj hl
    obtain ⟨c, port, hp, ⟨-, rfl⟩ | ⟨-, rfl⟩⟩ := sessionConnectStep_some hs <;>
      simp [Cleared, Pc.AfterClear]
  | acceptInit port => cases hl
  | accept port => cases hl
  | outside port payload => cases hl

/-- Every step keeps party `i` where its restart left it, when a step of
another party leaves the file as it is while the call of `i` runs. -/
theorem cleared_step (h : Cleared i s) (hs : step s l = some s')
    (hkeep : l.party ≠ some i → (s.pc i).returned = false → s'.file = s.file) : Cleared i s' := by
  by_cases hl : l.party = some i
  · exact cleared_own h hs hl
  · unfold Cleared at h ⊢
    rw [pc_step_ne hs hl]
    cases hp : s.pc i with
    | opening p | reading p =>
      simp only [hp, Pc.AfterClear] at h ⊢
      exact (hkeep hl (by rw [hp]; rfl)).trans h
    | _ => simp only [hp, Pc.AfterClear] at h ⊢

/-! ## 3. At most one restart -/

/-- A restart step is `Sys.restart`. -/
theorem step_of_restartsAt (hs : step s l = some s') (hr : s.restartsAt i l = true) :
    s' = s.restart i := by
  cases l with
  | read j fresh =>
    simp only [Sys.restartsAt, Bool.and_eq_true, beq_iff_eq] at hr
    obtain ⟨⟨rfl, hp⟩, hf⟩ := hr
    rcases readStep_some hs with
      ⟨p, -, ⟨hf', -⟩ | ⟨k, x, d, hf', -⟩ | ⟨-, rfl⟩⟩ | ⟨hp', -⟩
    · simp [hf] at hf'
    · simp [hf] at hf'
    · rfl
    · simp [hp', Pc.isReading] at hp
  | _ => simp [Sys.restartsAt] at hr

/-- From where a restart leaves its party, no restart follows. -/
theorem restarts_cleared : ∀ {s : Sys} {ls : List Label}, Cleared i s → OthersKeepFile i s ls →
    restarts i s ls = 0
  | _, [], _, _ => rfl
  | s, l :: ls, h, hkeep => by
    cases hs : step s l with
    | none => simp [restarts, steps, hs]
    | some s' =>
      obtain ⟨hk, hkeep'⟩ := hkeep.cons hs
      rw [restarts_cons hs, h.restartsAt, restarts_cleared (cleared_step h hs hk) hkeep']
      rfl

/-- **`connect_with_policy` restarts at most once.** From any state (any
content of the rendezvous file, any policies), along any run in which no
step of another party changes the file while the call of party `i` runs,
`i` restarts at most once: the restart empties the file, so the restarted
call finds no record and launches. -/
theorem connect_restarts_at_most_once (s : Sys) (i : Nat) (ls : List Label)
    (hkeep : OthersKeepFile i s ls) : restarts i s ls ≤ 1 := by
  induction ls generalizing s with
  | nil => simp [restarts, steps]
  | cons l ls ih =>
    cases hs : step s l with
    | none => simp [restarts, steps, hs]
    | some s' =>
      obtain ⟨-, hkeep'⟩ := hkeep.cons hs
      rw [restarts_cons hs]
      cases hr : s.restartsAt i l
      · simpa using ih s' hkeep'
      · obtain rfl := step_of_restartsAt hs hr
        rw [restarts_cleared (cleared_restart s i) hkeep']
        rfl

/-- `connect_with_policy(External)` over a record with no address restarts
once, then launches a server and connects to it. -/
theorem connect_restarts_once_stale :
    let c₀ : Cookie := ⟨List.replicate 32 0, rfl⟩
    let s₀ := Sys.init (fun i => if i = 0 then .client .external .external else .absent) c₀.bytes []
    let ls : List Label := [.acquire 0, .read 0 c₀, .acquire 0, .read 0 c₀, .start 0 5,
      .initConnect 0, .publish 0, .sessionConnect 0]
    OthersKeepFile 0 s₀ ls ∧ restarts 0 s₀ ls = 1 ∧
      (run s₀ ls).map (·.pc 0) = some (.connected c₀ (.localhost 5)) ∧ restarts 0 s₀ ls ≤ 1 := by
  intro c₀ s₀ ls
  have hkeep : OthersKeepFile 0 s₀ ls := by decide
  exact ⟨hkeep, by decide, by decide, connect_restarts_at_most_once s₀ 0 ls hkeep⟩

end SequoiaIpc.Protocol
