/-
SequoiaIpc.Protocol.Agreement — one server and one endpoint, whatever the
rendezvous file held.

As everywhere in this model, no started server exits except by a failed
initialization read (see `step`); a recorded server that exits would send
the next reader through another restart and another `start`.

`Protocol.Launch` follows clients running `connect_with_policy` with
`External` or `Robust` from a file without a record. A file left by an
earlier run may hold anything: a record whose address answers (a foreign
listener), or one whose rest does not parse or whose address refuses.
This module adds the stage before the first launch over such a file
(`Recovering`). Until some reader restarts, every reader finds the same
thing, since the file, the servers and the foreign listeners do not
change (`found_congr`): a record of a foreign listener sends every client
there, and a stale one is cleared by its first reader, which leads to the
first stage of `Protocol.Launch` (`recovering_step`). The restart calls
`self.connect()`, so the context policy must start its server externally
too.

So from any file, at most one `start` call is made, a successful
`start(true)`, no client fails, and all clients that have returned hold
the same address and the same cookie (`one_start_any_file`).
-/
import SequoiaIpc.Protocol.Launch

namespace SequoiaIpc.Protocol

open Sys

variable {s s' : Sys} {l : Label} {i : Nat}

/-! ## 1. Before the first launch over a record -/

/-- What a reader finds depends on the file, the servers and the foreign
listeners only. -/
theorem found_congr (hf : s'.file = s.file) (hsv : s'.server = s.server)
    (hfo : s'.foreign = s.foreign) : s'.found = s.found := by
  unfold found dial listening
  rw [hf, hsv, hfo]

/-- A client before the first launch over a record that readers find as
`F`: waiting, about to read, or returned to the foreign listener the
record names. -/
def Pc.Recovering (F : Found) : Pc → Prop
  | .idle => True
  | .opening p | .reading p => p ≠ .internal
  | .connected k x => F = .endpoint k x .foreign
  | _ => False

/-- Before the first launch over a file whose record is stale or names a
foreign listener: no server, no `start` call, every reader finds the same. -/
structure Recovering (s : Sys) : Prop where
  servers : ∀ port, s.server port = none
  starts : s.starts = []
  found : s.found = .stale ∨ ∃ k x, s.found = .endpoint k x .foreign
  pcs : ∀ j, (s.pc j).Recovering s.found

theorem Pc.Recovering.fresh {p : Pc} (h : p.Recovering .stale) : p.Fresh := by
  cases p <;> simp_all [Pc.Recovering, Pc.Fresh]

/-- A party step that keeps the file, the servers and the foreign listeners. -/
theorem Recovering.move (h : Recovering s) {X : Sys} {q : Pc} (hX : X.pc = s.pc)
    (hf : X.file = s.file) (hsv : X.server = s.server) (hfo : X.foreign = s.foreign)
    (hst : X.starts = s.starts) (hq : q.Recovering s.found) : Recovering (X.setPc i q) := by
  have hfd : (X.setPc i q).found = s.found := found_congr (by simpa using hf) (by simpa using hsv)
    (by simpa using hfo)
  refine ⟨fun port => by simp [hsv, h.servers port], by simp [hst, h.starts], hfd ▸ h.found, ?_⟩
  rw [hfd]
  exact forall_setPc hX h.pcs hq

/-- Before the first launch over a record, a step keeps the stage, or it is
the restart of a reader of a stale record, which starts the first stage of
a launch over the emptied file. -/
theorem recovering_step (hctx : ∀ j, (s.role j).ctxPolicy ≠ .internal) (h : Recovering s)
    (hl : l.Honest ∧ l.NoStartFail) (hs : step s l = some s') : Recovering s' ∨ Stage s' := by
  have stuck : ∀ {j : Nat} {p : Pc}, s.pc j = p → ¬ p.Recovering s.found →
      Recovering s' ∨ Stage s' :=
    fun hp hn => (hn (hp ▸ h.pcs _)).elim
  have noServer : ∀ {port : UInt16} {S : Server}, s.server port = some S → Recovering s' ∨ Stage s' :=
    fun hS => by rw [h.servers] at hS; cases hS
  cases l with
  | acquire i =>
    obtain ⟨-, ⟨p, hp, rfl⟩ | ⟨hp, -⟩⟩ := acquireStep_some hs
    · exact .inl (h.move rfl rfl rfl rfl rfl (by simpa [hp, Pc.Recovering] using h.pcs i))
    · exact stuck hp (by simp [Pc.Recovering])
  | read i fresh =>
    rcases readStep_some hs with ⟨p, hp, ⟨hfd, -⟩ | ⟨k, x, d, hfd, rfl⟩ | ⟨hfd, rfl⟩⟩ | ⟨hp, -⟩
    · rcases h.found with h' | ⟨k, x, h'⟩ <;> rw [h'] at hfd <;> cases hfd
    · -- the record names a foreign listener: the client returns to it
      obtain rfl : d = .foreign := by
        rcases h.found with h' | ⟨k', x', h'⟩ <;> rw [h'] at hfd <;> cases hfd; rfl
      exact .inl (h.move (X := (s.deliver .foreign ⟨.session i, k.send⟩).unlock) rfl rfl rfl rfl rfl
        hfd)
    · -- a stale record: cleared, and the launch starts over an empty file
      refine .inr (.fresh h.starts h.servers (by simp [restart, Cookie.SIZE]) ?_)
      simp only [restart]
      exact forall_setPc rfl (fun j => (hfd ▸ h.pcs j).fresh) (hctx i)
    · exact stuck hp (by simp [Pc.Recovering])
  | start i port =>
    obtain ⟨-, -, ⟨p, c, hp, -⟩ | ⟨c, hp, -⟩ | ⟨c, hp, -⟩⟩ := startStep_some hs <;>
      exact stuck hp (by simp [Pc.Recovering])
  | startFail i => exact hl.2.elim
  | initConnect i =>
    rcases initConnectStep_some hs with ⟨c, port, ext, hp, -⟩ | ⟨c, port, hp, -⟩ <;>
      exact stuck hp (by simp [Pc.Recovering])
  | publish i =>
    rcases publishStep_some hs with ⟨c, port, ext, hp, -⟩ | ⟨c, port, hp, -⟩ <;>
      exact stuck hp (by simp [Pc.Recovering])
  | sessionConnect i =>
    obtain ⟨c, port, hp, -⟩ := sessionConnectStep_some hs
    exact stuck hp (by simp [Pc.Recovering])
  | acceptInit port =>
    obtain ⟨S, conn, rest, hS, -⟩ := acceptInitStep_some hs
    exact noServer hS
  | accept port =>
    obtain ⟨S, k, conn, rest, hS, -⟩ := acceptStep_some hs
    exact noServer hS
  | outside port payload => exact hl.1.elim

/-! ## 2. From any file -/

/-- All clients that have returned in a stage of a launch hold the same
address and cookie. -/
theorem Stage.connected_eq (hst : Stage s) {j j' : Nat} {c c' : Cookie} {x x' : SocketAddr}
    (hj : s.pc j = .connected c x) (hj' : s.pc j' = .connected c' x') : c = c' ∧ x = x' := by
  rcases hst with ⟨-, -, -, hpcs⟩ | ⟨L, k, port, -, -, hL, ho⟩ | ⟨L, k, port, -, -, -, hpcs⟩
  · simpa [hj, Pc.Fresh] using hpcs j
  · -- only the launcher is past `opening`, and it has not returned
    by_cases hjL : j = L
    · subst hjL; rcases hL with h | h <;> rw [h] at hj <;> cases hj
    · simpa [hj, Pc.Waiting] using ho j hjL
  · have h₁ := hpcs j
    have h₂ := hpcs j'
    rw [hj] at h₁
    rw [hj'] at h₂
    exact ⟨h₁.1.trans h₂.1.symm, h₁.2.trans h₂.2.symm⟩

section Reach

variable {role : Nat → Role} {file : Bytes} {foreign : List SocketAddr}

theorem role_reachable {allowed : Label → Prop} (h : Reachable allowed (Sys.init role file foreign) s) :
    s.role = role := by
  induction h with
  | init => rfl
  | step _ _ hs ih => exact (role_foreign_step hs).1.trans ih

theorem recovering_or_stage
    (hrole : ∀ j, role j = .absent ∨ ∃ p q, role j = .client p q ∧ p ≠ .internal ∧ q ≠ .internal)
    (h : Reachable (fun l => l.Honest ∧ l.NoStartFail) (Sys.init role file foreign) s) :
    Recovering s ∨ Stage s := by
  induction h with
  | init =>
    by_cases hf : file.length < Cookie.SIZE
    · refine .inr (.fresh rfl (fun _ => rfl) hf fun j => ?_)
      rcases hrole j with hr | ⟨p, q, hr, hp, -⟩
      · simp [Sys.init, Role.entry, Pc.Fresh, hr]
      · simp [Sys.init, Role.entry, Pc.Fresh, hr, hp]
    · -- a record: what it names answers as a foreign listener, or it is stale
      have hfd : (Sys.init role file foreign).found = .stale ∨
          ∃ k x, (Sys.init role file foreign).found = .endpoint k x .foreign := by
        cases hfd : (Sys.init role file foreign).found with
        | none => exact absurd (found_none_iff.mp hfd) hf
        | stale => exact .inl rfl
        | endpoint k x d =>
          obtain ⟨-, hd, hne⟩ := found_endpoint hfd
          cases d with
          | server port =>
            obtain ⟨-, hl⟩ := dial_server hd
            simp [listening, Sys.init] at hl
          | foreign => exact .inr ⟨k, x, rfl⟩
          | refused => exact absurd rfl hne
      refine .inl ⟨fun _ => rfl, rfl, hfd, fun j => ?_⟩
      rcases hrole j with hr | ⟨p, q, hr, hp, -⟩
      · simp [Sys.init, Role.entry, Pc.Recovering, hr]
      · simp [Sys.init, Role.entry, Pc.Recovering, hr, hp]
  | step hr hl hs ih =>
    rcases ih with ih | ih
    · refine recovering_step (fun j => ?_) ih hl hs
      rw [role_reachable hr]
      rcases hrole j with hr' | ⟨p, q, hr', -, hq⟩
      · simp [Role.ctxPolicy, hr']
      · simp [Role.ctxPolicy, hr', hq]
    · exact .inr (stage_step (inv_reachable hr) (noOutside_reachable (fun _ h => h.1) hr) ih hl hs)

/-- **One start, one endpoint, from any file.** Clients running
`connect_with_policy` with `External` or `Robust` and a context policy of
the same kind, from any content of the rendezvous file, in a run without
outside processes in which no `start(true)` fails: at most one
`Descriptor::start` call is made, a successful `start(true)`, no client
fails, and all clients that have returned hold the same address and the
same cookie, those of the one server, or those of the foreign listener
the file named; as long as no started server exits (see `step`). -/
theorem one_start_any_file
    (hrole : ∀ j, role j = .absent ∨ ∃ p q, role j = .client p q ∧ p ≠ .internal ∧ q ≠ .internal)
    (h : Reachable (fun l => l.Honest ∧ l.NoStartFail) (Sys.init role file foreign) s) :
    s.starts.length ≤ 1 ∧ (∀ call ∈ s.starts, call.external = true ∧ call.ok = true) ∧
      (∀ j, s.pc j ≠ .failed) ∧
      ∀ j j' c c' x x', s.pc j = .connected c x → s.pc j' = .connected c' x' → c = c' ∧ x = x' := by
  rcases recovering_or_stage hrole h with hr | hst
  · refine ⟨by simp [hr.starts], by simp [hr.starts],
      fun j hj => by simpa [hj, Pc.Recovering] using hr.pcs j, fun j j' c c' x x' hj hj' => ?_⟩
    have h₁ := hr.pcs j
    have h₂ := hr.pcs j'
    rw [hj] at h₁
    rw [hj'] at h₂
    simp only [Pc.Recovering] at h₁ h₂
    simpa using h₁.symm.trans h₂
  · refine ⟨?_, ?_, fun j hj => by simpa [hj, Pc.Client] using hst.client j,
      fun j j' c c' x x' => hst.connected_eq⟩ <;>
      rcases hst with ⟨hs, -⟩ | ⟨_, _, _, hs, -⟩ | ⟨_, _, _, hs, -⟩ <;> simp [hs]

end Reach

/-- Two `External` clients over a record with no address: client 0 clears
it and launches server 5, client 1 joins; both hold its address and cookie. -/
theorem one_start_any_file_stale :
    let c₀ : Cookie := ⟨List.replicate 32 0, rfl⟩
    let c₁ : Cookie := ⟨List.replicate 32 1, rfl⟩
    let role : Nat → Role := fun i => if i < 2 then .client .external .external else .absent
    let ls : List Label := [.acquire 0, .read 0 c₀, .acquire 0, .read 0 c₀, .start 0 5,
      .initConnect 0, .publish 0, .acquire 1, .read 1 c₁, .sessionConnect 0]
    ∃ s, run (Sys.init role c₀.bytes []) ls = some s ∧
      s.pc 0 = .connected c₀ (.localhost 5) ∧ s.pc 1 = .connected c₀ (.localhost 5) ∧
      s.starts.length ≤ 1 ∧ (∀ call ∈ s.starts, call.external = true ∧ call.ok = true) ∧
      (∀ j, s.pc j ≠ .failed) ∧
      ∀ j j' c c' x x', s.pc j = .connected c x → s.pc j' = .connected c' x' → c = c' ∧ x = x' := by
  intro c₀ c₁ role ls
  have hpc : (run (Sys.init role c₀.bytes []) ls).map (fun s => (s.pc 0, s.pc 1)) =
      some (.connected c₀ (.localhost 5), .connected c₀ (.localhost 5)) := by
    decide
  obtain ⟨s, hs, he⟩ := Option.map_eq_some'.mp hpc
  simp only [Prod.mk.injEq] at he
  have hrole : ∀ j, role j = .absent ∨ ∃ p q, role j = .client p q ∧ p ≠ .internal ∧ q ≠ .internal :=
    fun j => by
      by_cases hj : j < 2
      · exact .inr ⟨.external, .external, by simp [role, hj], by decide, by decide⟩
      · exact .inl (by simp [role, hj])
  have hls : ∀ l ∈ ls, l.Honest ∧ l.NoStartFail := fun l hl => by
    cases l <;> first | exact ⟨trivial, trivial⟩ | simp [ls] at hl
  exact ⟨s, hs, he.1, he.2, one_start_any_file hrole (reachable_run .init hls hs)⟩

end SequoiaIpc.Protocol
