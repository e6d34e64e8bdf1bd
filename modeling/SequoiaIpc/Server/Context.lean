/-
SequoiaIpc.Server.Context — the command line between a launcher and the
external server it forks: the vector `Descriptor::fork` builds, and
`Server::context`, which turns `env::args()` back into a configuration.

`Server::context` is translated branch for branch: a vector of any
length other than seven gets the usage error, which formats `args[0]`
and so panics on an empty vector; a seven-element vector with the
wrong flags gets the usage error; a bad `--ephemeral` value gets its
own error; otherwise the builder gets `home`, `lib` and, when the value
is `true`, `set_ephemeral`.

The two do not agree: `fork` appends `--socket 0` after the three flags
`Server::context` reads, so every vector it builds has nine elements and
is refused (`context_forkArgs`).

Over every vector (`context_outcome`): `Server::context` panics exactly
on the empty one (`context_eq_panic_iff`), returns a configuration
exactly on `[p, --home, H, --lib, L, --ephemeral, b]` with `b` one of
`true` and `false`, holding `H`, `L` and the flag (`context_eq_ok_iff`),
and returns an error on every other vector.

Arguments are `String`s here, as `env::args()` yields them: the model
covers the vectors of valid UTF-8 arguments only. On a process whose
argument is not UTF-8, `env::args()` itself panics before
`Server::context` looks at the vector, and a home or lib path that is not
UTF-8 cannot be expressed; these results say nothing about such inputs.
-/
import SequoiaIpc.Core

namespace SequoiaIpc

/-- `struct Descriptor`. The handler factory is left out: what a server
does with a connection is modelled in `Protocol.System`. -/
structure Descriptor where
  ctx : Context
  rendezvous : String
  executable : String
deriving DecidableEq, Repr

/-- `bool::to_string`. -/
def boolToString (b : Bool) : String := if b then "true" else "false"

/-- `str::parse::<bool>`: exactly `true` or `false`. -/
def parseBool (s : String) : Option Bool :=
  if s = "true" then some true else if s = "false" then some false else none

/-- The argument vector of the child `Descriptor::fork` spawns: the
program, then its `.arg` calls in order. -/
def Descriptor.forkArgs (d : Descriptor) : List String :=
  [d.executable, "--home", d.ctx.home, "--lib", d.ctx.lib, "--ephemeral",
    boolToString d.ctx.ephemeral, "--socket", "0"]

/-- The usage error of `Server::context`, naming the program. -/
def Server.usage (prog : String) : String :=
  "Usage: " ++ prog ++ " --home <HOMEDIR> --lib <LIBDIR> --ephemeral true|false"

/-- The error of `Server::context` for a bad `--ephemeral` value. -/
def Server.ephemeralError (value : String) : String :=
  "Expected \x27true\x27 or \x27false\x27 for --ephemeral, got: " ++ value

/-- `Server::context`, on the vector `env::args()` collects, for arguments
that are valid UTF-8 (on any other, `env::args()` panics first). `ok cfg`
is the builder that `cfg.build()` is called on. -/
def Server.context (args : List String) : Outcome Config :=
  match args with
  | [a0, a1, a2, a3, a4, a5, a6] =>
    if a1 ≠ "--home" ∨ a3 ≠ "--lib" ∨ a5 ≠ "--ephemeral" then .err (usage a0)
    else
      let cfg := (Context.configure.setHome a2).setLib a4
      match parseBool a6 with
      | some ephemeral => .ok (if ephemeral then cfg.setEphemeral else cfg)
      | none => .err (ephemeralError a6)
  | a0 :: _ => .err (usage a0)
  | [] => .panic

/-- `str::parse::<bool>` inverts `bool::to_string` and accepts nothing else. -/
theorem parseBool_eq_some {s : String} {b : Bool} : parseBool s = some b ↔ s = boolToString b := by
  unfold parseBool
  split_ifs <;> cases b <;> simp_all [boolToString]

/-! ## Every argument vector -/

/-- The usage error formats `args[0]`, so the empty vector panics; no other does. -/
theorem context_eq_panic_iff (v : List String) : Server.context v = .panic ↔ v = [] := by
  unfold Server.context
  split
  · split
    · simp
    · split <;> simp
  · simp
  · simp

/-- The vectors `Server::context` accepts, and the builder it returns for each. -/
theorem context_eq_ok_iff {v : List String} {cfg : Config} :
    Server.context v = .ok cfg ↔
      ∃ p H L b, v = [p, "--home", H, "--lib", L, "--ephemeral", boolToString b] ∧
        cfg = ⟨some H, some L, b⟩ := by
  constructor
  · intro h
    unfold Server.context at h
    split at h
    · rename_i p a1 H a3 L a5 a6
      split at h
      · cases h
      · rename_i hflags
        simp only [not_or, ne_eq, not_not] at hflags
        obtain ⟨rfl, rfl, rfl⟩ := hflags
        split at h
        · rename_i b hb
          cases h
          exact ⟨p, H, L, b, by rw [parseBool_eq_some.mp hb], by cases b <;> rfl⟩
        · cases h
    · cases h
    · cases h
  · rintro ⟨p, H, L, b, rfl, rfl⟩
    cases b <;> rfl

theorem Outcome.exists_err_iff {α : Type} (x : Outcome α) :
    (∃ e, x = .err e) ↔ x ≠ .panic ∧ ¬ ∃ a, x = .ok a := by
  cases x <;> simp

/-- What `Server::context` does with every argument vector: it panics on
the empty one, returns an error exactly on the nonempty vectors that are
not `[p, --home, H, --lib, L, --ephemeral, b]` with `b` one of `true` and
`false`, and on those hands `H`, `L` and the flag to the builder. -/
theorem context_outcome (v : List String) :
    (Server.context v = .panic ↔ v = []) ∧
    ((∃ e, Server.context v = .err e) ↔ v ≠ [] ∧
      ¬ ∃ p H L b, v = [p, "--home", H, "--lib", L, "--ephemeral", b] ∧ (b = "true" ∨ b = "false")) ∧
    ∀ p H L b, b = "true" ∨ b = "false" →
      Server.context [p, "--home", H, "--lib", L, "--ephemeral", b] =
        .ok ⟨some H, some L, b = "true"⟩ := by
  have hok : ∀ p H L b, b = "true" ∨ b = "false" →
      Server.context [p, "--home", H, "--lib", L, "--ephemeral", b] =
        .ok ⟨some H, some L, b = "true"⟩ := by
    rintro p H L b (rfl | rfl) <;> rfl
  refine ⟨context_eq_panic_iff v, ?_, hok⟩
  rw [Outcome.exists_err_iff]
  refine and_congr (not_congr (context_eq_panic_iff v)) (not_congr ⟨?_, ?_⟩)
  · rintro ⟨cfg, h⟩
    obtain ⟨p, H, L, b, rfl, -⟩ := context_eq_ok_iff.mp h
    exact ⟨p, H, L, _, rfl, by cases b <;> simp [boolToString]⟩
  · rintro ⟨p, H, L, b, rfl, hb⟩
    exact ⟨_, hok p H L b hb⟩

/-! ## The vector `fork` builds -/

/-- `Server::context` refuses every vector `Descriptor::fork` builds, with
its usage error. -/
theorem context_forkArgs (d : Descriptor) :
    Server.context d.forkArgs = .err (Server.usage d.executable) := rfl

end SequoiaIpc
