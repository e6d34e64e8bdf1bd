/-
SequoiaIpc.Core — the pieces of the crate's `core` module that `lib.rs`
reads: the IPC policy, the context a descriptor carries, the
configuration builder `Server::context` drives, and what a Rust call
can end in.

`core` is not among the sources (`lib.rs` only imports it with
`pub use crate::core::{Config, Context, IPCPolicy}`), so the three types
are modelled from the specification (§3 "Descriptor" and "Policy", §4.7)
and from the calls `lib.rs` makes on them: `ctx.home()`, `ctx.lib()`,
`ctx.ephemeral()`, `ctx.ipc_policy()`, `Context::configure()`,
`.home(_)`, `.lib(_)` and `set_ephemeral()`. `Config::build` is left
out: `Server::context` ends by calling it, and the model returns the
configuration it would be called on.
-/
import Mathlib.Data.List.Basic

namespace SequoiaIpc

/-- A byte string, as `Vec<u8>` and `&[u8]` are in the source. -/
abbrev Bytes := List UInt8

/-- How a call of the source ends: with a value, with an `anyhow`
error carrying its message, or with a panic (an out-of-range index or
a failed `expect`). -/
inductive Outcome (α : Type) where
  | ok (a : α)
  | err (msg : String)
  | panic
deriving DecidableEq, Repr

/-- Modelled from the spec: `core::IPCPolicy`, the launch strategy of
§4.7. `robust` tries an external server first and falls back to a
thread. -/
inductive IPCPolicy where
  | internal
  | external
  | robust
deriving DecidableEq, Repr

/-- Whether `connect_with_policy`'s first `start` under the policy is
`start(true)` (the `match policy` of `lib.rs`). -/
def IPCPolicy.startsExternal : IPCPolicy → Bool
  | .internal => false
  | _ => true

/-- Modelled from the spec: the fields of `core::Context` that `lib.rs`
reads. The home and lib paths are kept as their text, so only paths that
are valid UTF-8 are covered; `fork` passes any path, and `env::args()` in
the child panics on one that is not UTF-8. -/
structure Context where
  home : String
  lib : String
  ephemeral : Bool
  ipcPolicy : IPCPolicy
deriving DecidableEq, Repr

/-- Modelled from the spec: the state of the `core::Config` builder that
`Server::context` fills in before calling `build`. -/
structure Config where
  home : Option String
  lib : Option String
  ephemeral : Bool
deriving DecidableEq, Repr

/-- Modelled from the spec: `Context::configure()`, a builder with
nothing set. -/
def Context.configure : Config := ⟨none, none, false⟩

/-- Modelled from the spec: the builder's `home`. -/
def Config.setHome (cfg : Config) (home : String) : Config := { cfg with home := some home }

/-- Modelled from the spec: the builder's `lib`. -/
def Config.setLib (cfg : Config) (lib : String) : Config := { cfg with lib := some lib }

/-- Modelled from the spec: the builder's `set_ephemeral`. -/
def Config.setEphemeral (cfg : Config) : Config := { cfg with ephemeral := true }

end SequoiaIpc
