/-
SequoiaIpc.Server.ServeLoop — the async accept loop of
`Server::serve_listener`, after the initialization connection has given
it the latched cookie `k`:

    loop {
        let (mut socket, _) = socket.accept().await?;
        let _ = socket.set_nodelay(true);
        let received_cookie = match Cookie::receive_async(&mut socket).await {
            Err(_) => continue,
            Ok(received_cookie) => received_cookie,
        };
        if received_cookie != cookie { continue; }
        ...
        let rpc_system = handler.handle(network);
        let _ = tokio::task::spawn_local(rpc_system).await;
    }

as a state machine. A phase is the `.await` the loop is suspended at;
an event is the completion of that `.await`, which the network and the
RPC system decide, so a run is a list of events. The loop is generic in
the connections `C` it accepts; `data c` is what the peer of `c` sends
before it closes. `accepted` and `resolved` are ghost lists: the
connections accepted so far, and those whose cookie read has finished.

## What the invariant says

`Inv` holds in every reachable state (`inv_reachable`). The connections
handed to `handler.handle` are exactly the resolved ones that delivered
`k` (`handled_eq`); every accepted connection is resolved except the one
whose read is pending (`accepted_eq`); the `expect` in `receive_async`
never fires. Because both the cookie read and the RPC system are
awaited in the loop body, at most one connection is in progress at a
time, and `accept` is enabled exactly when none is
(`accept_enabled_iff`).
-/
import SequoiaIpc.Cookie

namespace SequoiaIpc.ServeLoop

/-- The `.await` the loop is suspended at. -/
inductive Phase (C : Type) where
  /-- `socket.accept().await` -/
  | accepting
  /-- `Cookie::receive_async(&mut socket).await` on `c` -/
  | receiving (c : C)
  /-- `spawn_local(rpc_system).await` for `c`'s RPC system -/
  | serving (c : C)
  /-- `accept` failed: `?` has returned its error -/
  | exited
  /-- `expect("enough bytes read")` failed -/
  | panicked
deriving DecidableEq, Repr

/-- The connection the loop is busy with: its cookie read, or its RPC system. -/
def Phase.current {C : Type} : Phase C → Option C
  | .receiving c => some c
  | .serving c => some c
  | _ => none

/-- The connection whose cookie read is pending. -/
def Phase.reading {C : Type} : Phase C → List C
  | .receiving c => [c]
  | _ => []

structure State (C : Type) where
  phase : Phase C
  accepted : List C
  resolved : List C
  handled : List C
deriving Repr

/-- The loop as it enters `loop`. -/
def State.init {C : Type} : State C := ⟨.accepting, [], [], []⟩

/-- The completion of the `.await` the loop is suspended at. -/
inductive Event (C : Type) where
  | accept (c : C)
  | acceptError
  | cookieRead
  | sessionEnd
deriving DecidableEq, Repr

section Loop

variable {C : Type} (data : C → Bytes) (k : Cookie)

/-- `c` delivers the latched cookie as its first 32 bytes. -/
def Authentic (c : C) : Prop := Cookie.receive (data c) = some k

instance (c : C) : Decidable (Authentic data k c) := inferInstanceAs (Decidable (_ = _))

/-- The loop body after `receive_async` on `c` returns. -/
def afterRead (st : State C) (c : C) : State C :=
  let st := { st with resolved := st.resolved ++ [c] }
  match Cookie.receiveAsync (data c) with
  | .err _ => { st with phase := .accepting }
  | .panic => { st with phase := .panicked }
  | .ok received =>
    if !(Cookie.eq received k) then { st with phase := .accepting }
    else { st with phase := .serving c, handled := st.handled ++ [c] }

/-- One completed `.await`; `none` when the loop is not suspended at it. -/
def step (st : State C) : Event C → Option (State C)
  | .accept c =>
    match st.phase with
    | .accepting => some { st with phase := .receiving c, accepted := st.accepted ++ [c] }
    | _ => none
  | .acceptError =>
    match st.phase with
    | .accepting => some { st with phase := .exited }
    | _ => none
  | .cookieRead =>
    match st.phase with
    | .receiving c => some (afterRead data k st c)
    | _ => none
  | .sessionEnd =>
    match st.phase with
    | .serving _ => some { st with phase := .accepting }
    | _ => none

/-- A run: the events in the order the `.await`s complete. -/
def run (st : State C) : List (Event C) → Option (State C)
  | [] => some st
  | e :: es => (step data k st e).bind fun st' => run st' es

theorem run_append (st : State C) :
    ∀ (es₁ es₂ : List (Event C)),
      run data k st (es₁ ++ es₂) = (run data k st es₁).bind fun st' => run data k st' es₂
  | [], _ => rfl
  | e :: es₁, es₂ => by
    simp only [List.cons_append, run, Option.bind_assoc]
    congr 1
    funext st₁
    exact run_append st₁ es₁ es₂

inductive Reachable : State C → Prop where
  | init : Reachable State.init
  | step {st st' : State C} {e : Event C} :
      Reachable st → step data k st e = some st' → Reachable st'

theorem reachable_run {st st' : State C} (h : Reachable data k st) :
    ∀ {es : List (Event C)}, run data k st es = some st' → Reachable data k st'
  | [], hr => by cases hr; exact h
  | e :: es, hr => by
    simp only [run, Option.bind_eq_some] at hr
    obtain ⟨st₁, h₁, hr⟩ := hr
    exact reachable_run (.step h h₁) hr

/-- What a finished cookie read leads to: back to `accept` unless the cookie
was `k`, in which case the connection is handed on and served. -/
theorem afterRead_eq (st : State C) (c : C) :
    afterRead data k st c =
      if Authentic data k c then
        { st with phase := .serving c, resolved := st.resolved ++ [c], handled := st.handled ++ [c] }
      else { st with phase := .accepting, resolved := st.resolved ++ [c] } := by
  unfold afterRead
  rw [Cookie.receiveAsync_eq]
  by_cases ha : Authentic data k c
  · rw [if_pos ha, show Cookie.receive (data c) = some k from ha]
    simp [(Cookie.cookieEq_iff k k).mpr rfl]
  · rw [if_neg ha]
    cases h : Cookie.receive (data c) with
    | none => rfl
    | some r =>
      have hr : r ≠ k := fun e => ha (by rw [Authentic, h, e])
      have : Cookie.eq r k = false :=
        Bool.eq_false_iff.mpr fun he => hr ((Cookie.cookieEq_iff r k).mp he)
      simp [this]

/-- Everything one step can do. -/
theorem step_cases {st st' : State C} {e : Event C} (hs : step data k st e = some st') :
    (∃ c, e = .accept c ∧ st.phase = .accepting ∧
      st' = { st with phase := .receiving c, accepted := st.accepted ++ [c] }) ∨
    (e = .acceptError ∧ st.phase = .accepting ∧ st' = { st with phase := .exited }) ∨
    (∃ c, e = .cookieRead ∧ st.phase = .receiving c ∧ st' = afterRead data k st c) ∨
    (∃ c, e = .sessionEnd ∧ st.phase = .serving c ∧ st' = { st with phase := .accepting }) := by
  cases e <;> cases hph : st.phase <;> simp only [step, hph, Option.some.injEq, reduceCtorEq] at hs
  all_goals subst hs; simp

/-- The invariant of the loop. -/
structure Inv (st : State C) : Prop where
  handled_eq : st.handled = st.resolved.filter fun c => decide (Authentic data k c)
  accepted_eq : st.accepted = st.resolved ++ st.phase.reading
  serving_last : ∀ c, st.phase = .serving c → st.handled.getLast? = some c
  not_panicked : st.phase ≠ .panicked

theorem inv_init : Inv data k (State.init : State C) :=
  ⟨rfl, rfl, (fun _ h => by cases h), (fun h => by cases h)⟩

theorem inv_step {st st' : State C} {e : Event C} (hi : Inv data k st)
    (hs : step data k st e = some st') : Inv data k st' := by
  obtain ⟨hh, ha, -, -⟩ := hi
  rcases step_cases data k hs with ⟨c, -, hph, rfl⟩ | ⟨-, hph, rfl⟩ | ⟨c, -, hph, rfl⟩ |
    ⟨c, -, hph, rfl⟩
  · exact ⟨hh, by simp [ha, hph, Phase.reading], (fun _ h => by cases h), (fun h => by cases h)⟩
  · exact ⟨hh, by simp [ha, hph, Phase.reading], (fun _ h => by cases h), (fun h => by cases h)⟩
  · rw [afterRead_eq]
    split
    · exact ⟨by simp [hh, List.filter_append, *], by simp [ha, hph, Phase.reading],
        (fun _ h => by cases h; simp), (fun h => by cases h)⟩
    · exact ⟨by simp [hh, List.filter_append, *], by simp [ha, hph, Phase.reading],
        (fun _ h => by cases h), (fun h => by cases h)⟩
  · exact ⟨hh, by simp [ha, hph, Phase.reading], (fun _ h => by cases h), (fun h => by cases h)⟩

theorem inv_reachable {st : State C} (h : Reachable data k st) : Inv data k st := by
  induction h with
  | init => exact inv_init data k
  | step _ hs ih => exact inv_step data k ih hs

/-- The loop leaves only through a failed `accept`: a step reaches `exited`
exactly on `acceptError`. -/
theorem step_exited {st st' : State C} {e : Event C} (hs : step data k st e = some st') :
    st'.phase = .exited ↔ e = .acceptError := by
  rcases step_cases data k hs with ⟨c, rfl, -, rfl⟩ | ⟨rfl, -, rfl⟩ | ⟨c, rfl, -, rfl⟩ |
    ⟨c, rfl, -, rfl⟩
  · simp
  · simp
  · rw [afterRead_eq]; split <;> simp
  · simp

theorem run_exited : ∀ {st st' : State C} {es : List (Event C)}, st.phase ≠ .exited →
    run data k st es = some st' → (st'.phase = .exited ↔ Event.acceptError ∈ es)
  | _, _, [], h, hr => by cases hr; simpa using h
  | st, st', e :: es, h, hr => by
    simp only [run, Option.bind_eq_some] at hr
    obtain ⟨st₁, h₁, hr⟩ := hr
    by_cases he : e = .acceptError
    · subst he
      have hx : st₁.phase = .exited := (step_exited data k h₁).mpr rfl
      cases es with
      | nil => cases hr; simpa using hx
      | cons e' es' =>
        simp only [run, Option.bind_eq_some] at hr
        obtain ⟨_, h₂, _⟩ := hr
        cases e' <;> simp [step, hx] at h₂
    · have hx : st₁.phase ≠ .exited := fun hx => he ((step_exited data k h₁).mp hx)
      rw [run_exited hx hr]
      simp [he, Ne.symm he]

/-- **One connection at a time.** In every reachable state, `accept` is
enabled exactly when no accepted connection is in progress and the loop
has not left; a connection is in progress while its cookie read is
pending (it is then the last one accepted) and, once authenticated,
while its RPC system runs. The read's end sends the loop back to
`accept` unless the cookie was `k`; the RPC system's end always does. -/
theorem one_connection_at_a_time {st : State C} (h : Reachable data k st) :
    (∀ c', (step data k st (.accept c')).isSome ↔ st.phase.current = none ∧ st.phase ≠ .exited) ∧
    st.accepted = st.resolved ++ st.phase.reading ∧
    (∀ c, st.phase = .receiving c →
      (step data k st .cookieRead).map State.phase =
        some (if Authentic data k c then .serving c else .accepting)) ∧
    (∀ c, st.phase = .serving c → (step data k st .sessionEnd).map State.phase = some .accepting) := by
  have hi := inv_reachable data k h
  refine ⟨fun c' => ?_, hi.accepted_eq, fun c hc => ?_, fun c hc => by simp [step, hc]⟩
  · cases hph : st.phase <;> simp [step, hph, Phase.current]
    exact hi.not_panicked hph
  · simp only [step, hc, Option.map_some', afterRead_eq]
    split <;> rfl

/-- An authenticated connection whose RPC system runs: the loop is at its
`sessionEnd`, and `accept` waits. -/
theorem one_connection_at_a_time_serving :
    let k : Cookie := ⟨List.replicate 32 0, rfl⟩
    ∃ st : State Bytes, run id k State.init [.accept k.bytes, .cookieRead] = some st ∧
      st.phase = .serving k.bytes ∧
      (∀ c', (step id k st (.accept c')).isSome ↔ st.phase.current = none ∧ st.phase ≠ .exited) ∧
      st.accepted = st.resolved ++ st.phase.reading ∧
      (∀ c, st.phase = .receiving c →
        (step id k st .cookieRead).map State.phase =
          some (if Authentic id k c then .serving c else .accepting)) ∧
      (∀ c, st.phase = .serving c → (step id k st .sessionEnd).map State.phase = some .accepting) :=
  ⟨_, rfl, rfl, one_connection_at_a_time id _
    (@reachable_run _ id _ _ _ .init [.accept (List.replicate 32 0), .cookieRead] rfl)⟩

/-- A connection that has not sent its cookie, and an authenticated one
whose RPC system is still running, each keep the loop from accepting. -/
theorem pending_connection_blocks_accept :
    let k : Cookie := ⟨List.replicate 32 0, rfl⟩
    (∃ st, run id k State.init [.accept ([] : Bytes)] = some st ∧ st.phase.current = some [] ∧
      step id k st (.accept [1]) = none) ∧
    (∃ st, run id k State.init [.accept k.bytes, .cookieRead] = some st ∧
      st.phase.current = some k.bytes ∧ step id k st (.accept [1]) = none) :=
  ⟨⟨_, rfl, rfl, rfl⟩, ⟨_, rfl, rfl, rfl⟩⟩

end Loop

end SequoiaIpc.ServeLoop
