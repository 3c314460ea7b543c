import TreeSync.Proofs.Session.Dormant

/-!
# TreeSync.Proofs.Session.Stages

Opening a session step by step, so that other calls can come between the steps.

1. A call looks for a session, clears a stale one away, writes the files, launches the
   engine and asks for its process, one step each (`Call.step`).
2. Every step brings the end nearer (`left_step`), and a call that nobody comes
   between does what `startBy` does (`alone_eq_startBy`).
-/

namespace TreeSync.Session

open TreeSync.Action

/-! ## the steps -/

/-- What a call that opens a session of a tree has of its own. -/
structure Call where
  index : IgnoreIndex
  /-- What the script for transfers runs. -/
  executable : Text
  /-- What tells its temporary files from those of others. -/
  tag : Text
  /-- How the engine is launched. -/
  engine : Action SessionError Unit

/-- What a call does next. -/
inductive Stage
  /-- Look for a session. -/
  | checking
  /-- Remove the file of a session whose process is gone. -/
  | clearing
  /-- Write all files that a session starts with. -/
  | preparing
  /-- Launch the engine. -/
  | launching
  /-- Ask for the process of the engine, so many times at most. -/
  | waiting (deadline calls : Nat)
  | ended (outcome : Except SessionError Nat)
  deriving DecidableEq

/-- The stage after something that may have failed. -/
def Stage.after (next : Machine → Stage) : Except SessionError Unit × Machine → Stage × Machine
  | (.ok (), machine) => (next machine, machine)
  | (.error error, machine) => (.ended (.error error), machine)

/-- Look for a session: an open one is the end. -/
def check (config : SessionConfig) (machine : Machine) : Stage × Machine :=
  match (status config).on machine with
  | (.ok (.running pid), machine) => (.ended (.error (.alreadyOpen config.root pid)), machine)
  | (.ok (.stale _), machine) => (.clearing, machine)
  | (.ok .closed, machine) => (.preparing, machine)
  | (.error error, machine) => (.ended (.error error), machine)

/-- Ask once for the process of the engine, and sleep if there is time left. -/
def ask (config : SessionConfig) (deadline : Nat) : Nat → Machine → Stage × Machine
  | 0, machine => (.ended (.error (.engine (.silent config.logPath))), machine)
  | calls + 1, machine =>
      match ((reportedProcess config).run machine).run with
      | (some pid, machine) => (.ended (.ok pid), machine.reporting [.info])
      | (none, machine) =>
          if deadline ≤ machine.clock then
            (.ended (.error (.engine (.silent config.logPath))), machine)
          else (.waiting deadline calls, ((clock.sleep pollInterval).run machine).run.2)

namespace Call

/-- The wait for an engine that has been launched. -/
def awaiting (machine : Machine) : Stage :=
  .waiting (machine.clock + startTimeout) (Clock.maxCalls startTimeout pollInterval)

/-- **One step of a call** that opens a session. -/
def step (call : Call) (config : SessionConfig) : Stage → Machine → Stage × Machine
  | .checking, machine => check config machine
  | .clearing, machine => Stage.after (fun _ => .preparing) ((clearStale config).on machine)
  | .preparing, machine =>
      Stage.after (fun _ => .launching) ((prepare config call.index call.executable).on machine)
  | .launching, machine => Stage.after awaiting (call.engine.on machine)
  | .waiting deadline calls, machine => ask config deadline calls machine
  | .ended outcome, machine => (.ended outcome, machine)

end Call

variable {config : SessionConfig} {call : Call} {stage : Stage} {machine : Machine}

/-- What is next does not change what was left. -/
theorem machine_after (next : Machine → Stage) (result : Except SessionError Unit × Machine) :
    (Stage.after next result).2 = result.2 := by
  obtain ⟨outcome, machine⟩ := result
  cases outcome <;> rfl

/-- A check leaves the machine as asking for the status does. -/
theorem machine_check (config : SessionConfig) (machine : Machine) :
    (check config machine).2 = ((status config).on machine).2 := by
  rw [check]
  split <;> next hon => rw [hon]

/-- **Asking once**: the engine has told of a live process, the time is up, or the call
sleeps and will ask again. -/
theorem ask_cases (config : SessionConfig) (deadline calls : Nat) (machine : Machine) :
    (∃ pid, ask config deadline calls machine = (.ended (.ok pid), machine.reporting [.info])) ∨
    (∃ reports, ask config deadline calls machine =
      (.ended (.error (.engine (.silent config.logPath))), machine.reporting reports)) ∨
    ∃ reports time fewer, calls = fewer + 1 ∧ ask config deadline calls machine =
      (.waiting deadline fewer, atTime (machine.reporting reports) time) := by
  cases calls with
  | zero => exact .inr (.inl ⟨[], by rw [ask, Machine.reporting_nil]⟩)
  | succ fewer =>
      rw [ask]
      obtain ⟨pid, -, -, hrun⟩ | ⟨reports, hrun⟩ := reportedProcess_cases config machine
      · exact .inl ⟨pid, by rw [hrun]⟩
      · rw [hrun]
        by_cases htime : deadline ≤ (machine.reporting reports).clock
        · exact .inr (.inl ⟨reports, if_pos htime⟩)
        · exact .inr (.inr ⟨reports, _, fewer, rfl, if_neg htime⟩)

/-! ## towards the end -/

/-- Most steps that are left. -/
def Stage.left : Stage → Nat
  | .checking => Clock.maxCalls startTimeout pollInterval + 5
  | .clearing => Clock.maxCalls startTimeout pollInterval + 4
  | .preparing => Clock.maxCalls startTimeout pollInterval + 3
  | .launching => Clock.maxCalls startTimeout pollInterval + 2
  | .waiting _ calls => calls + 1
  | .ended _ => 0

/-- Nothing is left to do once a call has ended. -/
theorem Stage.left_eq_zero : stage.left = 0 ↔ ∃ outcome, stage = .ended outcome := by
  cases stage <;> simp [left]

/-- One step is done, so no more is left than the next stage has. -/
theorem left_after_le {next : Machine → Stage} {bound : Nat} (h : ∀ machine, (next machine).left ≤ bound)
    (result : Except SessionError Unit × Machine) : (Stage.after next result).1.left ≤ bound := by
  obtain ⟨outcome, machine⟩ := result
  cases outcome with
  | ok => exact h machine
  | error error => exact Nat.zero_le bound

/-- **Every step brings the end nearer.** -/
theorem left_step (call : Call) (config : SessionConfig) (stage : Stage) (machine : Machine) :
    (call.step config stage machine).1.left ≤ stage.left - 1 := by
  cases stage with
  | checking =>
      rw [Call.step, check]
      split <;> simp [Stage.left]
  | clearing => exact left_after_le (fun _ => Nat.le_refl _) _
  | preparing => exact left_after_le (fun _ => Nat.le_refl _) _
  | launching => exact left_after_le (fun machine => Nat.le_refl (Call.awaiting machine).left) _
  | waiting deadline calls =>
      rw [Call.step]
      obtain ⟨pid, hask⟩ | ⟨reports, hask⟩ | ⟨reports, time, fewer, rfl, hask⟩ :=
        ask_cases config deadline calls machine <;> rw [hask]
      · exact Nat.zero_le _
      · exact Nat.zero_le _
      · exact Nat.le_refl _
  | ended outcome => exact Nat.zero_le _

/-- No step leads back to the first look. -/
theorem step_ne_checking (call : Call) (config : SessionConfig) (stage : Stage) (machine : Machine) :
    (call.step config stage machine).1 ≠ .checking := by
  intro h
  have hleft := left_step call config stage machine
  rw [h] at hleft
  cases stage with
  | waiting deadline calls =>
      rw [Call.step] at h
      obtain ⟨pid, hask⟩ | ⟨reports, hask⟩ | ⟨reports, time, fewer, -, hask⟩ :=
        ask_cases config deadline calls machine <;> rw [hask] at h <;> cases h
  | _ => simp [Stage.left] at hleft

/-! ## a call that is refused -/

/-- What goes wrong with the files of a session is no open session. -/
def NotRefusal (error : SessionError) : Prop := ∀ root pid, error ≠ .alreadyOpen root pid

/-- Clearing a stale file never fails because a session is open. -/
theorem failsOnly_clearStale (config : SessionConfig) :
    (clearStale config).FailsOnly NotRefusal :=
  (failsOnly_report .warn).bind fun _ => (failsOnly_mapError _ fun _ _ _ => nofun).bind
    fun _ => failsOnly_pure ()

/-- Nor does preparing. -/
theorem failsOnly_prepare (config : SessionConfig) (index : IgnoreIndex) (executable : Text) :
    (prepare config index executable).FailsOnly NotRefusal :=
  FailsOnly.bind (failsOnly_mapError _ fun _ _ _ => nofun) fun _ =>
    FailsOnly.bind (failsOnly_mapError _ fun _ _ _ => nofun) fun _ =>
      failsOnly_mapError _ fun _ _ _ => nofun

/-- Only the check refuses because a session is open. -/
theorem not_refused_after {next : Machine → Stage} {action : Action SessionError Unit} {root : Text}
    {pid : Nat} (haction : action.FailsOnly NotRefusal)
    (hnext : ∀ machine, next machine ≠ .ended (.error (.alreadyOpen root pid))) :
    (Stage.after next (action.on machine)).1 ≠ .ended (.error (.alreadyOpen root pid)) := by
  have hfails := haction machine
  generalize action.on machine = result at hfails ⊢
  obtain ⟨outcome, after⟩ := result
  cases outcome with
  | ok => exact hnext after
  | error error =>
      intro h
      cases h
      exact hfails _ rfl root pid rfl

/-- **A call is refused** by a look that finds an open session. -/
theorem refused_step {root : Text} {pid : Nat} (hstage : stage ≠ .launching)
    (h : (call.step config stage machine).1 = .ended (.error (.alreadyOpen root pid))) :
    stage = .ended (.error (.alreadyOpen root pid)) ∨
      stage = .checking ∧ ((status config).on machine).1 = .ok (.running pid) := by
  cases stage with
  | checking =>
      rw [Call.step, check] at h
      split at h
      · next hon =>
          cases h
          exact .inr ⟨rfl, by rw [hon]⟩
      · cases h
      · cases h
      · next error after hon =>
          cases h
          obtain ⟨fault, hstatus⟩ | ⟨reports, hstatus⟩ | ⟨pid', htells⟩ := status_cases config machine
          · cases hon.symm.trans hstatus
          · cases hon.symm.trans hstatus
          · cases hon.symm.trans (on_status_of_tells htells)
  | clearing => exact absurd h (not_refused_after (failsOnly_clearStale config) nofun)
  | preparing => exact absurd h (not_refused_after (failsOnly_prepare config _ _) nofun)
  | launching => exact absurd rfl hstage
  | waiting deadline calls =>
      rw [Call.step] at h
      obtain ⟨pid', hask⟩ | ⟨reports, hask⟩ | ⟨reports, time, fewer, -, hask⟩ :=
        ask_cases config deadline calls machine <;> rw [hask] at h <;> cases h
  | ended outcome => exact .inl h

/-! ## while a session is open -/

/-- The process file tells of a live process. -/
def IsOpen (config : SessionConfig) (machine : Machine) : Prop :=
  ∃ pid, Tells config machine pid ∧ machine.answers pid = true

/-- A call that has launched the engine. -/
def Stage.Launched (stage : Stage) : Prop :=
  (∃ deadline calls, stage = .waiting deadline calls) ∨ ∃ outcome, stage = .ended outcome

/-- A call that has not looked for a session yet, or was refused. -/
def Stage.Late (root : Text) (stage : Stage) : Prop :=
  stage = .checking ∨ ∃ pid, stage = .ended (.error (.alreadyOpen root pid))

/-- A look that finds an open session. -/
theorem check_of_tells {pid : Nat} (htells : Tells config machine pid)
    (halive : machine.answers pid = true) :
    check config machine = (.ended (.error (.alreadyOpen config.root pid)), machine) := by
  rw [check, on_status_of_tells htells, stateOf, if_pos halive]

/-- A call that has launched an engine stays so, and the session stays open. -/
theorem launched_step (call : Call) (hstage : stage.Launched) (hopen : IsOpen config machine) :
    (call.step config stage machine).1.Launched ∧
      IsOpen config (call.step config stage machine).2 := by
  obtain ⟨deadline, calls, rfl⟩ | ⟨outcome, rfl⟩ := hstage
  · rw [Call.step]
    obtain ⟨pid, hask⟩ | ⟨reports, hask⟩ | ⟨reports, time, fewer, -, hask⟩ :=
      ask_cases config deadline calls machine <;> rw [hask]
    · exact ⟨.inr ⟨_, rfl⟩, hopen⟩
    · exact ⟨.inr ⟨_, rfl⟩, hopen⟩
    · exact ⟨.inl ⟨_, _, rfl⟩, hopen⟩
  · exact ⟨.inr ⟨outcome, rfl⟩, hopen⟩

/-- A call that came late stays late. -/
theorem late_step (call : Call) (hstage : stage.Late config.root) (hopen : IsOpen config machine) :
    (call.step config stage machine).1.Late config.root ∧
      IsOpen config (call.step config stage machine).2 := by
  obtain rfl | ⟨pid, rfl⟩ := hstage
  · obtain ⟨pid, htells, halive⟩ := hopen
    rw [Call.step, check_of_tells htells halive]
    exact ⟨.inr ⟨pid, rfl⟩, pid, htells, halive⟩
  · exact ⟨.inr ⟨pid, rfl⟩, hopen⟩

/-! ## a call that nobody comes between -/

namespace Call

/-- The steps of a call, one after the other. -/
def alone (call : Call) (config : SessionConfig) : Nat → Stage × Machine → Stage × Machine
  | 0, state => state
  | n + 1, state => call.alone config n (call.step config state.1 state.2)

/-- What is left to do from the launch on. -/
def fromLaunch (call : Call) (config : SessionConfig) : Action SessionError Nat := do
  call.engine
  let pid ← awaitEngine clock config
  report .info
  pure pid

/-- What is left to do once there is no session in the way. -/
def fromPreparation (call : Call) (config : SessionConfig) : Action SessionError Nat := do
  prepare config call.index call.executable
  call.fromLaunch config

/-- What is left to do at a stage. -/
def rest (call : Call) (config : SessionConfig) : Stage → Action SessionError Nat
  | .checking => startBy call.engine clock config call.index call.executable
  | .clearing => do
      clearStale config
      call.fromPreparation config
  | .preparing => call.fromPreparation config
  | .launching => call.fromLaunch config
  | .waiting deadline calls => do
      match ← (clock.pollWithin deadline pollInterval (reportedProcess config) calls :
          StateM Machine (Option Nat)) with
      | some pid =>
          report .info
          pure pid
      | none => throw (.engine (.silent config.logPath))
  | .ended (.ok pid) => pure pid
  | .ended (.error error) => throw error

end Call

/-- **The rest after a step** is the rest of the action that the step began. -/
theorem rest_after {next : Machine → Stage} {action : Action SessionError Unit}
    {more : Action SessionError Nat}
    (h : ∀ machine, (call.rest config (next machine)).on machine = more.on machine) :
    (call.rest config (Stage.after next (action.on machine)).1).on
      (Stage.after next (action.on machine)).2 = (action >>= fun _ => more).on machine := by
  rw [on_bind]
  obtain ⟨outcome, after⟩ := action.on machine
  cases outcome with
  | ok => exact h after
  | error error => rfl

/-- After the check there is what there is to do with it. -/
theorem rest_check (call : Call) (config : SessionConfig) (machine : Machine) :
    (call.rest config (check config machine).1).on (check config machine).2 =
      (call.rest config .checking).on machine := by
  have hrest : call.rest config .checking =
      makeWay config >>= fun _ => call.fromPreparation config := rfl
  rw [hrest, on_bind, makeWay, on_bind, check]
  obtain ⟨outcome, after⟩ := (status config).on machine
  cases outcome with
  | error error => rfl
  | ok state =>
      cases state with
      | running pid => rfl
      | stale pid => exact on_bind (clearStale config) _ after
      | closed => rfl

/-- How the wait for the engine ends. -/
theorem on_rest_waiting (call : Call) (config : SessionConfig) (deadline calls : Nat)
    (machine : Machine) :
    (call.rest config (.waiting deadline calls)).on machine =
      match ((clock.pollWithin deadline pollInterval (reportedProcess config) calls).run
          machine).run with
      | (some pid, after) => (.ok pid, after.reporting [.info])
      | (none, after) => (.error (.engine (.silent config.logPath)), after) := by
  rw [Call.rest, on_bind, on_liftM]
  obtain ⟨answer, after⟩ :=
    ((clock.pollWithin deadline pollInterval (reportedProcess config) calls).run machine).run
  cases answer <;> rfl

theorem run_waitFor (timeout interval : Nat) (check : StateM Machine (Option Nat))
    (machine : Machine) :
    ((clock.waitFor timeout interval check).run machine).run =
      ((clock.pollWithin (machine.clock + timeout) interval check
        (Clock.maxCalls timeout interval)).run machine).run := rfl

/-- While it waits a call has the answer still to come. -/
theorem rest_awaiting (call : Call) (config : SessionConfig) (machine : Machine) :
    (call.rest config (Call.awaiting machine)).on machine =
      (awaitEngine clock config >>= fun pid => report .info >>= fun _ => pure pid).on machine := by
  rw [Call.awaiting, on_rest_waiting, on_bind, awaitEngine, on_bind, on_liftM, run_waitFor]
  generalize ((clock.pollWithin (machine.clock + startTimeout) pollInterval
    (reportedProcess config) (Clock.maxCalls startTimeout pollInterval)).run machine).run = answered
  obtain ⟨answer, after⟩ := answered
  cases answer <;> rfl

/-- Asking once more is the first step of the rest. -/
theorem rest_ask (call : Call) (config : SessionConfig) (deadline calls : Nat)
    (machine : Machine) :
    (call.rest config (ask config deadline calls machine).1).on (ask config deadline calls machine).2 =
      (call.rest config (.waiting deadline calls)).on machine := by
  cases calls with
  | zero => rfl
  | succ calls =>
      rw [on_rest_waiting, Clock.run_pollWithin, ask]
      obtain ⟨answer, after⟩ := ((reportedProcess config).run machine).run
      cases answer with
      | some pid => rfl
      | none =>
          have hnow : (clock.now.run after).run = (after.clock, after) := rfl
          by_cases htime : deadline ≤ after.clock
          · simp only [hnow, if_pos htime]
            rfl
          · simp only [hnow, if_neg htime]
            exact on_rest_waiting call config deadline calls _

/-- **A step leaves the rest to do.** -/
theorem rest_step (call : Call) (config : SessionConfig) (stage : Stage) (machine : Machine) :
    (call.rest config (call.step config stage machine).1).on (call.step config stage machine).2 =
      (call.rest config stage).on machine := by
  cases stage with
  | checking => exact rest_check call config machine
  | clearing => exact rest_after fun _ => rfl
  | preparing => exact rest_after fun _ => rfl
  | launching => exact rest_after (rest_awaiting call config)
  | waiting deadline calls => exact rest_ask call config deadline calls machine
  | ended outcome => rfl

/-- A call that is left alone ends. -/
theorem alone_eq (h : stage.left ≤ n) :
    call.alone config n (stage, machine) =
      (.ended ((call.rest config stage).on machine).1, ((call.rest config stage).on machine).2) := by
  induction n generalizing stage machine with
  | zero =>
      obtain ⟨outcome, rfl⟩ := Stage.left_eq_zero.mp (Nat.le_zero.mp h)
      cases outcome <;> rfl
  | succ n ih =>
      have hleft := left_step call config stage machine
      have hless : (call.step config stage machine).1.left ≤ n := by omega
      rw [Call.alone, ih hless, rest_step]

/-- **A call that nobody comes between** opens the session in one go. -/
theorem alone_eq_startBy (call : Call) (config : SessionConfig) (machine : Machine) :
    call.alone config (Stage.left .checking) (.checking, machine) =
      let result := (startBy call.engine clock config call.index call.executable).on machine
      (.ended result.1, result.2) :=
  alone_eq (Nat.le_refl _)

end TreeSync.Session
