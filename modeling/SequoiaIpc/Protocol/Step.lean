/-
SequoiaIpc.Protocol.Step — the steps of the rendezvous protocol, one
function per shared action, and `step`, which dispatches a `Label`.

Each step function returns `none` when its actor is not at the program
point the action belongs to (or the lock is taken, or the queue is
empty): that is how blocking is modelled. `Found` is what a reader of
the file learns in `read`, computed from the file model
(`CookieFile.read` on a fresh handle), the decoding of
`connect_with_policy` (`recordAddr`) and the outcome of the dial.

§2 gives each step function its inversion lemma: everything a step can
do, so that the invariant proofs never unfold a step.
-/
import SequoiaIpc.Protocol.System

namespace SequoiaIpc.Protocol

/-- The party or listener that moves, and the environment's choices. -/
inductive Label where
  | acquire (i : Nat)
  /-- `fresh` is what `Cookie::new()` returns if no record is found. -/
  | read (i : Nat) (fresh : Cookie)
  /-- `port` is what the kernel assigns to the bind in `Descriptor::start`. -/
  | start (i : Nat) (port : UInt16)
  /-- `start(true)` fails: `cmd.spawn()` returned an error. -/
  | startFail (i : Nat)
  | initConnect (i : Nat)
  | publish (i : Nat)
  | sessionConnect (i : Nat)
  | acceptInit (port : UInt16)
  | accept (port : UInt16)
  /-- A process outside the protocol connects to `port` and sends `payload`. -/
  | outside (port : UInt16) (payload : Bytes)
deriving DecidableEq, Repr

/-- What a reader of the rendezvous file finds. -/
inductive Found where
  /-- no cookie: the file is shorter than one -/
  | none
  /-- a record whose address answers: `k` is sent there -/
  | endpoint (k : Cookie) (x : SocketAddr) (d : Sys.Dial)
  /-- a record whose rest does not parse, or whose address refuses -/
  | stale
deriving DecidableEq, Repr

namespace Sys

/-- `file.read()` on the fresh handle, the decoding of the rest and the dial. -/
def found (s : Sys) : Found :=
  match (CookieFile.open s.file).read.1 with
  | none => .none
  | some (k, rest) =>
    match recordAddr rest with
    | none => .stale
    | some x =>
      match s.dial x with
      | .refused => .stale
      | d => .endpoint k x d

/-- Party `i` takes the lock. -/
def lockBy (s : Sys) (i : Nat) : Sys := { s with lock := some i }

/-- `file.clear()`, `drop(file)`, `self.connect()`. -/
def restart (s : Sys) (i : Nat) : Sys :=
  ({ s with file := (CookieFile.clear ⟨⟨s.file, s.file.length⟩⟩).file.contents }.unlock).setPc i
    (.opening (s.role i).ctxPolicy)

/-- `file.write(&cookie, format!("{}", addr).as_bytes())` for the server on `port`,
on the handle `read` left at the end of the file. -/
def writeRecord (s : Sys) (c : Cookie) (port : UInt16) : Sys :=
  { s with file := (CookieFile.write ⟨⟨s.file, s.file.length⟩⟩ c
      (⟨Ipv4Addr.LOCALHOST, port⟩ : SocketAddrV4).fmt).file.contents }

/-- `Descriptor::start` succeeds: the listener on `port` and its server. -/
def launch (s : Sys) (i : Nat) (c : Cookie) (port : UInt16) (external : Bool) : Sys :=
  (s.setServer port (Server.new c i external)).logStart i external true

/-- A connection reaches what `d` says: queued at a server, or taken by a
foreign listener. -/
def deliver (s : Sys) (d : Dial) (c : Conn) : Sys :=
  match d with
  | .server port => s.enqueue port c
  | _ => s

@[simp] theorem lockBy_pc (s : Sys) (i : Nat) : (s.lockBy i).pc = s.pc := rfl
@[simp] theorem lockBy_lock (s : Sys) (i : Nat) : (s.lockBy i).lock = some i := rfl
@[simp] theorem lockBy_file (s : Sys) (i : Nat) : (s.lockBy i).file = s.file := rfl
@[simp] theorem lockBy_server (s : Sys) (i : Nat) : (s.lockBy i).server = s.server := rfl
@[simp] theorem deliver_pc (s : Sys) (d : Dial) (c : Conn) : (s.deliver d c).pc = s.pc := by
  cases d <;> rfl
@[simp] theorem deliver_lock (s : Sys) (d : Dial) (c : Conn) : (s.deliver d c).lock = s.lock := by
  cases d <;> rfl
@[simp] theorem deliver_file (s : Sys) (d : Dial) (c : Conn) : (s.deliver d c).file = s.file := by
  cases d <;> rfl
@[simp] theorem deliver_role (s : Sys) (d : Dial) (c : Conn) : (s.deliver d c).role = s.role := by
  cases d <;> rfl
@[simp] theorem deliver_starts (s : Sys) (d : Dial) (c : Conn) :
    (s.deliver d c).starts = s.starts := by
  cases d <;> rfl
@[simp] theorem writeRecord_pc (s : Sys) (c : Cookie) (port : UInt16) :
    (s.writeRecord c port).pc = s.pc := rfl
@[simp] theorem writeRecord_server (s : Sys) (c : Cookie) (port : UInt16) :
    (s.writeRecord c port).server = s.server := rfl
@[simp] theorem writeRecord_file (s : Sys) (c : Cookie) (port : UInt16) :
    (s.writeRecord c port).file = c.bytes ++ (⟨Ipv4Addr.LOCALHOST, port⟩ : SocketAddrV4).fmt := by
  simp [writeRecord]
@[simp] theorem launch_pc (s : Sys) (i : Nat) (c : Cookie) (port : UInt16) (e : Bool) :
    (s.launch i c port e).pc = s.pc := rfl
@[simp] theorem launch_lock (s : Sys) (i : Nat) (c : Cookie) (port : UInt16) (e : Bool) :
    (s.launch i c port e).lock = s.lock := rfl
@[simp] theorem launch_file (s : Sys) (i : Nat) (c : Cookie) (port : UInt16) (e : Bool) :
    (s.launch i c port e).file = s.file := rfl

/-! ## 1. The steps -/

def acquireStep (s : Sys) (i : Nat) : Option Sys :=
  match s.lock, s.pc i with
  | none, .opening p => some ((s.lockBy i).setPc i (.reading p))
  | none, .bootOpening => some ((s.lockBy i).setPc i .bootReading)
  | _, _ => none

def readStep (s : Sys) (i : Nat) (fresh : Cookie) : Option Sys :=
  match s.pc i with
  | .reading p =>
    some <| match s.found with
      | .none => s.setPc i (.empty p fresh)
      | .endpoint k x d => ((s.deliver d ⟨.session i, k.send⟩).setPc i (.connected k x)).unlock
      | .stale => s.restart i
  | .bootReading =>
    some <| match s.found with
      | .endpoint k _ d => ((s.deliver d ⟨.probe i, k.send⟩).setPc i .bootDone).unlock
      | _ => s.setPc i (.bootEmpty fresh)
  | _ => none

def startStep (s : Sys) (i : Nat) (port : UInt16) : Option Sys :=
  if s.server port = none ∧ SocketAddr.localhost port ∉ s.foreign then
    match s.pc i with
    | .empty p c =>
      some ((s.launch i c port p.startsExternal).setPc i (.launched c port p.startsExternal))
    | .fallback c => some ((s.launch i c port false).setPc i (.launched c port false))
    | .bootEmpty c => some ((s.launch i c port false).setPc i (.bootLaunched c port))
    | _ => none
  else none

def startFailStep (s : Sys) (i : Nat) : Option Sys :=
  match s.pc i with
  | .empty .external _ => some (((s.logStart i true false).unlock).setPc i .failed)
  | .empty .robust c => some ((s.logStart i true false).setPc i (.fallback c))
  | _ => none

def initConnectStep (s : Sys) (i : Nat) : Option Sys :=
  match s.pc i with
  | .launched c port ext =>
    some <| if s.listening port then (s.enqueue port ⟨.init i, c.send⟩).setPc i (.initSent c port ext)
      else (s.setPc i .failed).unlock
  | .bootPublished c port =>
    some <| if s.listening port then (s.enqueue port ⟨.init i, c.send⟩).setPc i .bootDone
      else s.setPc i .failed
  | _ => none

def publishStep (s : Sys) (i : Nat) : Option Sys :=
  match s.pc i with
  | .initSent c port ext =>
    some (((if ext then s.writeRecord c port else s).unlock).setPc i (.connecting c port))
  | .bootLaunched c port => some (((s.writeRecord c port).unlock).setPc i (.bootPublished c port))
  | _ => none

def sessionConnectStep (s : Sys) (i : Nat) : Option Sys :=
  match s.pc i with
  | .connecting c port =>
    some <| if s.listening port then
        (s.enqueue port ⟨.session i, c.send⟩).setPc i (.connected c (.localhost port))
      else s.setPc i .failed
  | _ => none

/-- The first `l.accept()` of `serve_listener` and `Cookie::receive` on it. -/
def acceptInitStep (s : Sys) (port : UInt16) : Option Sys :=
  match s.server port with
  | some S =>
    match S.phase, S.queue with
    | .awaitingInit, conn :: rest => some (s.setServer port (S.acceptInit conn rest))
    | _, _ => none
  | none => none

/-- One round of the async loop: the connection is handed to
`handler.handle` exactly when it is authentic. -/
def acceptStep (s : Sys) (port : UInt16) : Option Sys :=
  match s.server port with
  | some S =>
    match S.phase, S.queue with
    | .serving k, conn :: rest => some (s.setServer port (S.accept k conn rest))
    | _, _ => none
  | none => none

/-- An outside process connects; it cannot send the cookie of the server
it reaches, which it can read neither from the file nor from memory. -/
def outsideStep (s : Sys) (port : UInt16) (payload : Bytes) : Option Sys :=
  match s.server port with
  | some S =>
    if S.Listening ∧ Cookie.receive payload ≠ some S.cookie then
      some (s.enqueue port ⟨.outside, payload⟩)
    else none
  | none => none

end Sys

/-! ## 2. What a step can do -/

namespace Sys

variable {s s' : Sys} {i : Nat}

theorem found_none_iff : s.found = .none ↔ s.file.length < Cookie.SIZE := by
  unfold found
  rw [CookieFile.read_open]
  cases he : Cookie.extract s.file with
  | none =>
    simp only [true_iff]
    by_contra hl
    simp [Cookie.extract, show Cookie.SIZE ≤ s.file.length by omega] at he
  | some r =>
    have : ¬ s.file.length < Cookie.SIZE := fun hl => by simp [Cookie.extract_short hl] at he
    simp only [this, iff_false]
    split <;> (try split) <;> simp

theorem found_endpoint {k : Cookie} {x : SocketAddr} {d : Dial} (h : s.found = .endpoint k x d) :
    recordOf s.file = some (k, x) ∧ s.dial x = d ∧ d ≠ .refused := by
  unfold found at h
  rw [recordOf_eq]
  rw [CookieFile.read_open] at h
  cases he : Cookie.extract s.file with
  | none => simp [he] at h
  | some r =>
    obtain ⟨k', rest⟩ := r
    simp only [he] at h ⊢
    cases hx : recordAddr rest with
    | none => simp [hx] at h
    | some x' =>
      simp only [hx] at h
      cases hd : s.dial x' <;> simp [hd] at h <;> obtain ⟨rfl, rfl, rfl⟩ := h <;> simp [hx, hd]

theorem dial_server {x : SocketAddr} {port : UInt16} (h : s.dial x = .server port) :
    x = .localhost port ∧ s.listening port = true := by
  unfold dial at h
  split at h
  · rename_i a
    split at h
    · rename_i hc
      cases h
      obtain ⟨hip, hl⟩ := hc
      exact ⟨by cases a; simp_all [SocketAddr.localhost], hl⟩
    · split at h <;> cases h
  · split at h <;> cases h

theorem found_of_record {k : Cookie} {x : SocketAddr} {d : Dial}
    (hr : recordOf s.file = some (k, x)) (hd : s.dial x = d) (hne : d ≠ .refused) :
    s.found = .endpoint k x d := by
  unfold found
  rw [CookieFile.read_open]
  rw [recordOf_eq] at hr
  cases he : Cookie.extract s.file with
  | none => simp [he] at hr
  | some r =>
    obtain ⟨k', rest⟩ := r
    simp only [he, Option.some_bind, Option.map_eq_some', Prod.mk.injEq] at hr
    obtain ⟨x', hx, rfl, rfl⟩ := hr
    cases d <;> simp_all

theorem dial_localhost {port : UInt16} (h : s.listening port = true) :
    s.dial (.localhost port) = .server port := by
  simp [dial, SocketAddr.localhost, h]

theorem listening_of_server {port : UInt16} {S : Server} (hS : s.server port = some S)
    (hl : S.Listening) : s.listening port = true := by
  simp [listening, hS, hl]

theorem acquireStep_some (h : s.acquireStep i = some s') :
    s.lock = none ∧
      ((∃ p, s.pc i = .opening p ∧ s' = (s.lockBy i).setPc i (.reading p)) ∨
        (s.pc i = .bootOpening ∧ s' = (s.lockBy i).setPc i .bootReading)) := by
  unfold acquireStep at h
  split at h <;> simp only [Option.some.injEq, reduceCtorEq] at h
  · exact ⟨‹_›, .inl ⟨_, ‹_›, h.symm⟩⟩
  · exact ⟨‹_›, .inr ⟨‹_›, h.symm⟩⟩

theorem readStep_some {fresh : Cookie} (h : s.readStep i fresh = some s') :
    (∃ p, s.pc i = .reading p ∧
      ((s.found = .none ∧ s' = s.setPc i (.empty p fresh)) ∨
        (∃ k x d, s.found = .endpoint k x d ∧
          s' = ((s.deliver d ⟨.session i, k.send⟩).setPc i (.connected k x)).unlock) ∨
        (s.found = .stale ∧ s' = s.restart i))) ∨
    (s.pc i = .bootReading ∧
      ((∃ k x d, s.found = .endpoint k x d ∧
          s' = ((s.deliver d ⟨.probe i, k.send⟩).setPc i .bootDone).unlock) ∨
        ((∀ k x d, s.found ≠ .endpoint k x d) ∧ s' = s.setPc i (.bootEmpty fresh)))) := by
  unfold readStep at h
  split at h <;> simp only [Option.some.injEq, reduceCtorEq] at h
  · rename_i p hp
    refine .inl ⟨p, hp, ?_⟩
    cases hf : s.found <;> simp only [hf] at h
    · exact .inl ⟨rfl, h.symm⟩
    · exact .inr (.inl ⟨_, _, _, rfl, h.symm⟩)
    · exact .inr (.inr ⟨rfl, h.symm⟩)
  · rename_i hp
    refine .inr ⟨hp, ?_⟩
    cases hf : s.found <;> simp only [hf] at h
    · exact .inr ⟨by simp, h.symm⟩
    · exact .inl ⟨_, _, _, rfl, h.symm⟩
    · exact .inr ⟨by simp, h.symm⟩

theorem startStep_some {port : UInt16} (h : s.startStep i port = some s') :
    s.server port = none ∧ SocketAddr.localhost port ∉ s.foreign ∧
      ((∃ p c, s.pc i = .empty p c ∧
          s' = (s.launch i c port p.startsExternal).setPc i (.launched c port p.startsExternal)) ∨
        (∃ c, s.pc i = .fallback c ∧ s' = (s.launch i c port false).setPc i (.launched c port false)) ∨
        (∃ c, s.pc i = .bootEmpty c ∧ s' = (s.launch i c port false).setPc i (.bootLaunched c port))) := by
  unfold startStep at h
  split at h
  · rename_i hg
    refine ⟨hg.1, hg.2, ?_⟩
    split at h <;> simp only [Option.some.injEq, reduceCtorEq] at h
    · exact .inl ⟨_, _, ‹_›, h.symm⟩
    · exact .inr (.inl ⟨_, ‹_›, h.symm⟩)
    · exact .inr (.inr ⟨_, ‹_›, h.symm⟩)
  · cases h

theorem startFailStep_some (h : s.startFailStep i = some s') :
    (∃ c, s.pc i = .empty .external c ∧ s' = ((s.logStart i true false).unlock).setPc i .failed) ∨
      (∃ c, s.pc i = .empty .robust c ∧ s' = (s.logStart i true false).setPc i (.fallback c)) := by
  unfold startFailStep at h
  split at h <;> simp only [Option.some.injEq, reduceCtorEq] at h
  · exact .inl ⟨_, ‹_›, h.symm⟩
  · exact .inr ⟨_, ‹_›, h.symm⟩

theorem initConnectStep_some (h : s.initConnectStep i = some s') :
    (∃ c port ext, s.pc i = .launched c port ext ∧
      ((s.listening port = true ∧
          s' = (s.enqueue port ⟨.init i, c.send⟩).setPc i (.initSent c port ext)) ∨
        (s.listening port = false ∧ s' = (s.setPc i .failed).unlock))) ∨
    (∃ c port, s.pc i = .bootPublished c port ∧
      ((s.listening port = true ∧ s' = (s.enqueue port ⟨.init i, c.send⟩).setPc i .bootDone) ∨
        (s.listening port = false ∧ s' = s.setPc i .failed))) := by
  unfold initConnectStep at h
  split at h <;> simp only [Option.some.injEq, reduceCtorEq] at h
  · refine .inl ⟨_, _, _, ‹_›, ?_⟩
    cases hl : s.listening _ <;> simp only [hl, if_true, if_false, Bool.false_eq_true] at h
    · exact .inr ⟨rfl, h.symm⟩
    · exact .inl ⟨rfl, h.symm⟩
  · refine .inr ⟨_, _, ‹_›, ?_⟩
    cases hl : s.listening _ <;> simp only [hl, if_true, if_false, Bool.false_eq_true] at h
    · exact .inr ⟨rfl, h.symm⟩
    · exact .inl ⟨rfl, h.symm⟩

theorem publishStep_some (h : s.publishStep i = some s') :
    (∃ c port ext, s.pc i = .initSent c port ext ∧
      s' = ((if ext then s.writeRecord c port else s).unlock).setPc i (.connecting c port)) ∨
    (∃ c port, s.pc i = .bootLaunched c port ∧
      s' = ((s.writeRecord c port).unlock).setPc i (.bootPublished c port)) := by
  unfold publishStep at h
  split at h <;> simp only [Option.some.injEq, reduceCtorEq] at h
  · exact .inl ⟨_, _, _, ‹_›, h.symm⟩
  · exact .inr ⟨_, _, ‹_›, h.symm⟩

theorem sessionConnectStep_some (h : s.sessionConnectStep i = some s') :
    ∃ c port, s.pc i = .connecting c port ∧
      ((s.listening port = true ∧
          s' = (s.enqueue port ⟨.session i, c.send⟩).setPc i (.connected c (.localhost port))) ∨
        (s.listening port = false ∧ s' = s.setPc i .failed)) := by
  unfold sessionConnectStep at h
  split at h <;> simp only [Option.some.injEq, reduceCtorEq] at h
  refine ⟨_, _, ‹_›, ?_⟩
  cases hl : s.listening _ <;> simp only [hl, if_true, if_false, Bool.false_eq_true] at h
  · exact .inr ⟨rfl, h.symm⟩
  · exact .inl ⟨rfl, h.symm⟩

theorem acceptInitStep_some {port : UInt16} (h : s.acceptInitStep port = some s') :
    ∃ S conn rest, s.server port = some S ∧ S.phase = .awaitingInit ∧ S.queue = conn :: rest ∧
      s' = s.setServer port (S.acceptInit conn rest) := by
  unfold acceptInitStep at h
  split at h
  · split at h <;> simp only [Option.some.injEq, reduceCtorEq] at h
    exact ⟨_, _, _, ‹_›, ‹_›, ‹_›, h.symm⟩
  · cases h

theorem acceptStep_some {port : UInt16} (h : s.acceptStep port = some s') :
    ∃ S k conn rest, s.server port = some S ∧ S.phase = .serving k ∧ S.queue = conn :: rest ∧
      s' = s.setServer port (S.accept k conn rest) := by
  unfold acceptStep at h
  split at h
  · split at h <;> simp only [Option.some.injEq, reduceCtorEq] at h
    exact ⟨_, _, _, _, ‹_›, ‹_›, ‹_›, h.symm⟩
  · cases h

theorem outsideStep_some {port : UInt16} {payload : Bytes} (h : s.outsideStep port payload = some s') :
    ∃ S, s.server port = some S ∧ S.Listening ∧ Cookie.receive payload ≠ some S.cookie ∧
      s' = s.enqueue port ⟨.outside, payload⟩ := by
  unfold outsideStep at h
  split at h
  · split at h
    · cases h; exact ⟨_, ‹_›, (‹_ ∧ _›).1, (‹_ ∧ _›).2, rfl⟩
    · cases h
  · cases h

end Sys

/-- One step of the system. A started server leaves its accept loop only
when `Cookie::receive` on its first connection fails (`acceptInitStep`);
the other ways `serve_listener` returns (an error from `l.accept()`, the
handler factory, `set_nonblocking` or the async `accept`, through `?`),
the end of a server's process and the release of its port are left out,
so every result about runs of `step` is about runs in which no server
exits so. `Protocol.Exit` adds those exits as steps of their own. -/
def step (s : Sys) : Label → Option Sys
  | .acquire i => s.acquireStep i
  | .read i fresh => s.readStep i fresh
  | .start i port => s.startStep i port
  | .startFail i => s.startFailStep i
  | .initConnect i => s.initConnectStep i
  | .publish i => s.publishStep i
  | .sessionConnect i => s.sessionConnectStep i
  | .acceptInit port => s.acceptInitStep port
  | .accept port => s.acceptStep port
  | .outside port payload => s.outsideStep port payload

/-- A run: the labels in the order their steps happen. -/
def run (s : Sys) : List Label → Option Sys
  | [] => some s
  | l :: ls => (step s l).bind fun s' => run s' ls

/-- The states reachable from `s₀` by steps whose labels satisfy `allowed`. -/
inductive Reachable (allowed : Label → Prop) (s₀ : Sys) : Sys → Prop where
  | init : Reachable allowed s₀ s₀
  | step {s s' : Sys} {l : Label} :
      Reachable allowed s₀ s → allowed l → step s l = some s' → Reachable allowed s₀ s'

/-- A step by a process inside the protocol. -/
def Label.Honest : Label → Prop
  | .outside _ _ => False
  | _ => True

/-- A step that is not a failed `start(true)`. -/
def Label.NoStartFail : Label → Prop
  | .startFail _ => False
  | _ => True

theorem reachable_run {P : Label → Prop} {s₀ : Sys} :
    ∀ {s s' : Sys} {ls : List Label}, Reachable P s₀ s → (∀ l ∈ ls, P l) →
      run s ls = some s' → Reachable P s₀ s'
  | _, _, [], h, _, hr => by cases hr; exact h
  | s, s', l :: ls, h, hl, hr => by
    simp only [run, Option.bind_eq_some] at hr
    obtain ⟨s₁, h₁, hr⟩ := hr
    exact reachable_run (.step h (hl l (List.mem_cons_self _ _)) h₁)
      (fun l' h' => hl l' (List.mem_cons_of_mem _ h')) hr

/-- No step changes what the parties run or where the foreign listeners are. -/
theorem role_foreign_step {s s' : Sys} {l : Label} (hs : step s l = some s') :
    s'.role = s.role ∧ s'.foreign = s.foreign := by
  open Sys in
  cases l with
  | acquire i => obtain ⟨-, ⟨p, -, rfl⟩ | ⟨-, rfl⟩⟩ := acquireStep_some hs <;> simp [lockBy]
  | read i fresh =>
    rcases readStep_some hs with
      ⟨p, -, ⟨-, rfl⟩ | ⟨k, x, d, -, rfl⟩ | ⟨-, rfl⟩⟩ | ⟨-, ⟨k, x, d, -, rfl⟩ | ⟨-, rfl⟩⟩ <;>
      (try cases d) <;> simp [restart, deliver]
  | start i port =>
    obtain ⟨-, -, ⟨p, c, -, rfl⟩ | ⟨c, -, rfl⟩ | ⟨c, -, rfl⟩⟩ := startStep_some hs <;> simp [launch]
  | startFail i => rcases startFailStep_some hs with ⟨c, -, rfl⟩ | ⟨c, -, rfl⟩ <;> simp
  | initConnect i =>
    rcases initConnectStep_some hs with
      ⟨c, port, ext, -, ⟨-, rfl⟩ | ⟨-, rfl⟩⟩ | ⟨c, port, -, ⟨-, rfl⟩ | ⟨-, rfl⟩⟩ <;> simp
  | publish i =>
    rcases publishStep_some hs with ⟨c, port, ext, -, rfl⟩ | ⟨c, port, -, rfl⟩ <;>
      (try cases ext) <;> simp [writeRecord]
  | sessionConnect i => obtain ⟨c, port, -, ⟨-, rfl⟩ | ⟨-, rfl⟩⟩ := sessionConnectStep_some hs <;> simp
  | acceptInit port => obtain ⟨S, conn, rest, -, -, -, rfl⟩ := acceptInitStep_some hs; simp
  | accept port => obtain ⟨S, k, conn, rest, -, -, -, rfl⟩ := acceptStep_some hs; simp
  | outside port payload => obtain ⟨S, -, -, -, rfl⟩ := outsideStep_some hs; simp

end SequoiaIpc.Protocol
