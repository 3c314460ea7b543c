import Mathlib.Control.Monad.Basic
import TreeSync.Machine

/-!
# TreeSync.Proofs.Machine.Action

What an action does on a machine, step by step.

`Action.on` gives the outcome of an action and the machine it leaves; each lemma
here says what it is for one way of building actions, so a whole action is
unfolded by rewriting.

Many actions change nothing but what has been reported.  `Reads` says so, together
with the outcome, and is put together in the same way, over lists as well
(`reads_mapM`).
-/

namespace TreeSync

/-- An outcome that holds a value is that value. -/
theorem eq_ok_of_toOption {outcome : Except ε α} {a : α} (h : outcome.toOption = some a) :
    outcome = .ok a := by
  cases outcome <;> simp_all [Except.toOption]

/-- A machine after some more reports. -/
def Machine.reporting (machine : Machine) (reports : List Level) : Machine :=
  { machine with reports := machine.reports ++ reports }

@[simp] theorem Machine.reporting_nil (machine : Machine) : machine.reporting [] = machine := by
  simp [reporting]

/-- Reports go behind the ones that are there. -/
theorem Machine.reporting_reporting (machine : Machine) (reports more : List Level) :
    (machine.reporting reports).reporting more = machine.reporting (reports ++ more) := by
  simp [reporting]

@[simp] theorem Machine.disk_reporting (machine : Machine) (reports : List Level) :
    (machine.reporting reports).disk = machine.disk := rfl

@[simp] theorem Machine.environment_reporting (machine : Machine) (reports : List Level) :
    (machine.reporting reports).environment = machine.environment := rfl

/-- A machine with another disk. -/
def Machine.withDisk (machine : Machine) (disk : Disk) : Machine := { machine with disk }

@[simp] theorem Machine.disk_withDisk (machine : Machine) (disk : Disk) :
    (machine.withDisk disk).disk = disk := rfl

@[simp] theorem Machine.environment_withDisk (machine : Machine) (disk : Disk) :
    (machine.withDisk disk).environment = machine.environment := rfl

@[simp] theorem Machine.programs_withDisk (machine : Machine) (disk : Disk) :
    (machine.withDisk disk).programs = machine.programs := rfl

@[simp] theorem Machine.processes_withDisk (machine : Machine) (disk : Disk) :
    (machine.withDisk disk).processes = machine.processes := rfl

@[simp] theorem Machine.withDisk_withDisk (machine : Machine) (disk disk' : Disk) :
    (machine.withDisk disk).withDisk disk' = machine.withDisk disk' := rfl

@[simp] theorem Machine.device_withDisk (machine : Machine) (disk : Disk) :
    (machine.withDisk disk).device = machine.device := rfl

namespace Action

variable {ε ε' α β : Type}

/-- The outcome of an action on a machine, and the machine after it. -/
def on (action : Action ε α) (machine : Machine) : Except ε α × Machine :=
  Id.run (StateT.run action.run machine)

theorem on_eq_of_fst {action : Action ε α} {machine : Machine} {outcome : Except ε α}
    (h : (on action machine).1 = outcome) : on action machine = (outcome, (on action machine).2) := by
  rw [← h]

@[simp] theorem on_pure (a : α) (machine : Machine) :
    on (pure a : Action ε α) machine = (.ok a, machine) := rfl

@[simp] theorem on_throw (fault : ε) (machine : Machine) :
    on (throw fault : Action ε α) machine = (.error fault, machine) := rfl

@[simp] theorem on_get (machine : Machine) :
    on (get : Action ε Machine) machine = (.ok machine, machine) := rfl

@[simp] theorem on_set (machine machine' : Machine) :
    on (set machine' : Action ε PUnit) machine = (.ok ⟨⟩, machine') := rfl

@[simp] theorem on_modify (f : Machine → Machine) (machine : Machine) :
    on (modify f : Action ε PUnit) machine = (.ok ⟨⟩, f machine) := rfl

/-- What follows a failure is not done. -/
@[simp] theorem on_bind (action : Action ε α) (next : α → Action ε β) (machine : Machine) :
    on (action >>= next) machine =
      match on action machine with
      | (.ok a, machine) => on (next a) machine
      | (.error fault, machine) => (.error fault, machine) := by
  show Id.run (StateT.run (action.run >>= ExceptT.bindCont next) machine) = _
  rw [StateT.run_bind]
  show Id.run (StateT.run (ExceptT.bindCont next (on action machine).1) (on action machine).2) = _
  obtain ⟨outcome, after⟩ := on action machine
  cases outcome <;> rfl

@[simp] theorem on_map (f : α → β) (action : Action ε α) (machine : Machine) :
    on (f <$> action) machine = ((on action machine).1.map f, (on action machine).2) := by
  rw [← bind_pure_comp, on_bind]
  obtain ⟨outcome, after⟩ := on action machine
  cases outcome <;> rfl

/-- What cannot fail does not. -/
@[simp] theorem on_liftM (action : StateM Machine α) (machine : Machine) :
    on (liftM action : Action ε α) machine =
      (.ok (action.run machine).run.1, (action.run machine).run.2) := rfl

@[simp] theorem mapError_ok (f : ε → ε') (a : α) :
    (Except.ok a : Except ε α).mapError f = .ok a := rfl

@[simp] theorem mapError_error (f : ε → ε') (fault : ε) :
    (Except.error fault : Except ε α).mapError f = .error (f fault) := rfl

/-- Another wording of the fault, and the same machine afterwards. -/
@[simp] theorem on_mapError (f : ε → ε') (action : Action ε α) (machine : Machine) :
    on (action.mapError f) machine =
      ((on action machine).1.mapError f, (on action machine).2) := by
  have hrun : (action.run.run machine).run = on action machine := rfl
  simp only [mapError, on_bind, on_liftM, hrun]
  cases (on action machine).1 <;> simp

/-- Looking at the disk leaves the machine alone. -/
@[simp] theorem on_seeDisk (f : Disk → Option Location → Except DiskFault α)
    (machine : Machine) :
    on (seeDisk f) machine = (f machine.disk machine.environment.cwd, machine) := by
  simp only [seeDisk, on_bind, on_get]
  cases f machine.disk machine.environment.cwd <;> simp

/-- A change of the disk that is refused leaves the machine alone. -/
theorem on_onDisk (f : Disk → Option Location → Except DiskFault Disk) (machine : Machine) :
    on (onDisk f) machine =
      match f machine.disk machine.environment.cwd with
      | .ok disk => (.ok (), machine.withDisk disk)
      | .error fault => (.error fault, machine) := by
  simp only [onDisk, on_bind, on_get]
  cases f machine.disk machine.environment.cwd <;> rfl

/-! ## actions that succeed -/

/-- What succeeds as a whole has succeeded in every part. -/
theorem on_bind_eq_ok {action : Action ε α} {next : α → Action ε β} {machine after : Machine}
    {b : β} : on (action >>= next) machine = (.ok b, after) ↔
      ∃ a middle, on action machine = (.ok a, middle) ∧ on (next a) middle = (.ok b, after) := by
  rw [on_bind]
  obtain ⟨outcome, middle⟩ := on action machine
  constructor
  · intro h
    cases outcome with
    | error fault => cases h
    | ok a => exact ⟨a, middle, rfl, h⟩
  · rintro ⟨_, _, ⟨⟩, h⟩
    exact h

/-- Wording a fault otherwise changes no success. -/
theorem on_mapError_eq_ok {f : ε → ε'} {action : Action ε α} {machine after : Machine} {a : α} :
    on (action.mapError f) machine = (.ok a, after) ↔ on action machine = (.ok a, after) := by
  rw [on_mapError]
  obtain ⟨outcome, middle⟩ := on action machine
  cases outcome with
  | error fault => simp
  | ok a => simp

/-- A change of the disk that succeeds has put the changed disk in place. -/
theorem on_onDisk_eq_ok {f : Disk → Option Location → Except DiskFault Disk}
    {machine after : Machine} {u : Unit} :
    on (onDisk f) machine = (.ok u, after) ↔
      ∃ disk, f machine.disk machine.environment.cwd = .ok disk ∧
        after = machine.withDisk disk := by
  rw [on_onDisk]
  cases f machine.disk machine.environment.cwd with
  | error fault => simp
  | ok disk => simp [eq_comm]

/-! ## actions that fail -/

/-- An action fails with some errors only. -/
def FailsOnly (action : Action ε α) (allowed : ε → Prop) : Prop :=
  ∀ machine error, (on action machine).1 = .error error → allowed error

section
variable {allowed : ε → Prop}

theorem failsOnly_pure (a : α) : FailsOnly (pure a : Action ε α) allowed := by
  intro machine error h
  cases h

theorem failsOnly_throw {fault : ε} (h : allowed fault) :
    FailsOnly (throw fault : Action ε α) allowed := by
  rintro machine error ⟨⟩
  exact h

theorem failsOnly_liftM (action : StateM Machine α) :
    FailsOnly (liftM action : Action ε α) allowed := nofun

theorem failsOnly_report (level : Level) :
    FailsOnly (report level : Action ε PUnit) allowed := by
  intro machine error h
  cases h

/-- What the steps of an action fail with is all that it fails with. -/
theorem FailsOnly.bind {action : Action ε α} {next : α → Action ε β}
    (h : FailsOnly action allowed) (hnext : ∀ a, FailsOnly (next a) allowed) :
    FailsOnly (action >>= next) allowed := by
  intro machine error herror
  rw [on_bind] at herror
  split at herror
  · next a after _ => exact hnext a after error herror
  · next fault after hon =>
      cases herror
      exact h machine error (by rw [hon])

/-- An action whose faults are put into other words fails in those words. -/
theorem failsOnly_mapError {f : ε' → ε} (action : Action ε' α) (h : ∀ fault, allowed (f fault)) :
    FailsOnly (action.mapError f) allowed := by
  intro machine error herror
  rw [on_mapError] at herror
  cases houtcome : (on action machine).1 with
  | error fault =>
      rw [houtcome] at herror
      cases herror
      exact h fault
  | ok a =>
      rw [houtcome] at herror
      cases herror

end

/-! ## actions that keep something -/

/-- Whatever comes of an action, what held on the machine still does. -/
def Preserves (action : Action ε α) (holds : Machine → Prop) : Prop :=
  ∀ machine, holds machine → holds (on action machine).2

section
variable {holds : Machine → Prop}

theorem preserves_pure (a : α) : Preserves (pure a : Action ε α) holds := fun _ h => h

theorem preserves_throw (fault : ε) : Preserves (throw fault : Action ε α) holds := fun _ h => h

/-- What every step of an action keeps, the action keeps. -/
theorem Preserves.bind {action : Action ε α} {next : α → Action ε β}
    (h : Preserves action holds) (hnext : ∀ a, Preserves (next a) holds) :
    Preserves (action >>= next) holds := by
  intro machine hmachine
  have hafter := h machine hmachine
  rw [on_bind]
  split
  · next a after hon =>
      rw [hon] at hafter
      exact hnext a after hafter
  · next fault after hon =>
      rw [hon] at hafter
      exact hafter

/-- Looking at the machine first. -/
theorem preserves_get_bind {next : Machine → Action ε α}
    (h : ∀ machine, holds machine → holds (on (next machine) machine).2) :
    Preserves (get >>= next) holds := by
  intro machine hmachine
  rw [on_bind, on_get]
  exact h machine hmachine

theorem preserves_liftM {action : StateM Machine α}
    (h : ∀ machine, holds machine → holds (action.run machine).run.2) :
    Preserves (liftM action : Action ε α) holds := fun machine hmachine => h machine hmachine

theorem Preserves.mapError {action : Action ε α} (h : Preserves action holds) (f : ε → ε') :
    Preserves (action.mapError f) holds := by
  intro machine hmachine
  rw [on_mapError]
  exact h machine hmachine

/-- A change of the disk keeps what every disk that can come of it has. -/
theorem preserves_onDisk {f : Disk → Option Location → Except DiskFault Disk}
    (h : ∀ machine disk, holds machine → f machine.disk machine.environment.cwd = .ok disk →
      holds (machine.withDisk disk)) : Preserves (onDisk f) holds := by
  intro machine hmachine
  rw [on_onDisk]
  split
  · next disk hdisk => exact h machine disk hmachine hdisk
  · exact hmachine

end

/-! ## actions that read -/

/-- An action has an outcome on a machine, whatever was reported before, and leaves
nothing but reports. -/
def Reads (action : Action ε α) (machine : Machine) (outcome : Except ε α) : Prop :=
  ∀ reports, ∃ more,
    on action (machine.reporting reports) = (outcome, machine.reporting (reports ++ more))

section
variable {machine : Machine}

/-- An action that leaves a machine as it is. -/
theorem reads_of_on {action : Action ε α} {outcome : Except ε α}
    (h : ∀ reports, on action (machine.reporting reports) =
      (outcome, machine.reporting reports)) : Reads action machine outcome :=
  fun reports => ⟨[], by rw [List.append_nil, h]⟩

theorem reads_pure (a : α) : Reads (pure a : Action ε α) machine (.ok a) :=
  reads_of_on fun _ => on_pure a _

theorem reads_report (level : Level) :
    Reads (report level : Action ε PUnit) machine (.ok ⟨⟩) := by
  intro reports
  exact ⟨[level], by simp [report, Machine.reporting]⟩

/-- Reading and then reading: the outcome is the second one's. -/
theorem Reads.bind {action : Action ε α} {next : α → Action ε β} {a : α} {outcome : Except ε β}
    (h : Reads action machine (.ok a)) (hnext : Reads (next a) machine outcome) :
    Reads (action >>= next) machine outcome := by
  intro reports
  obtain ⟨more, hmore⟩ := h reports
  obtain ⟨rest, hrest⟩ := hnext (reports ++ more)
  exact ⟨more ++ rest, by rw [on_bind, hmore, ← List.append_assoc, ← hrest]⟩

/-- After a failure nothing more is read. -/
theorem Reads.bind_error {action : Action ε α} {fault : ε}
    (h : Reads action machine (.error fault)) (next : α → Action ε β) :
    Reads (action >>= next) machine (.error fault) := by
  intro reports
  obtain ⟨more, hmore⟩ := h reports
  exact ⟨more, by rw [on_bind, hmore]⟩

theorem Reads.map {action : Action ε α} {outcome : Except ε α}
    (h : Reads action machine outcome) (f : α → β) :
    Reads (action >>= fun a => pure (f a)) machine (outcome.map f) := by
  cases outcome with
  | error fault => exact h.bind_error _
  | ok a => exact h.bind (reads_pure (f a))

theorem Reads.mapError {action : Action ε α} {outcome : Except ε α}
    (h : Reads action machine outcome) (f : ε → ε') :
    Reads (action.mapError f) machine (outcome.mapError f) := by
  intro reports
  obtain ⟨more, hmore⟩ := h reports
  exact ⟨more, by rw [on_mapError, hmore]⟩

/-- Over a list, one after the other, up to the first failure. -/
theorem reads_mapM {f : α → Action ε β} {g : α → Except ε β} {xs : List α}
    (h : ∀ x ∈ xs, Reads (f x) machine (g x)) : Reads (xs.mapM f) machine (xs.mapM g) := by
  induction xs with
  | nil => exact reads_pure []
  | cons x xs ih =>
      have hx := h x List.mem_cons_self
      have hrest := ih fun y hy => h y (List.mem_cons_of_mem x hy)
      rw [List.mapM_cons, List.mapM_cons]
      cases hg : g x with
      | error fault =>
          rw [hg] at hx
          exact hx.bind_error _
      | ok y =>
          rw [hg] at hx
          refine hx.bind ?_
          cases hys : xs.mapM g with
          | error fault =>
              rw [hys] at hrest
              exact hrest.bind_error _
          | ok ys =>
              rw [hys] at hrest
              exact hrest.bind (reads_pure (y :: ys))

/-- The outcome of an action that reads is the one it has on the machine itself. -/
theorem Reads.on_eq {action : Action ε α} {outcome : Except ε α}
    (h : Reads action machine outcome) :
    ∃ reports, on action machine = (outcome, machine.reporting reports) := by
  simpa using h []

/-- The outcome is that of a run on the machine. -/
theorem Reads.on_fst {action : Action ε α} {outcome : Except ε α}
    (h : Reads action machine outcome) : (on action machine).1 = outcome := by
  obtain ⟨reports, hon⟩ := h.on_eq
  rw [hon]

/-- An action that only looks at a machine, whatever comes of it. -/
def OnlyReads (action : Action ε α) (machine : Machine) : Prop :=
  Reads action machine (on action machine).1

/-- An action that reads with some outcome only looks. -/
theorem Reads.onlyReads {action : Action ε α} {outcome : Except ε α}
    (h : Reads action machine outcome) : OnlyReads action machine := by
  obtain ⟨reports, hon⟩ := h.on_eq
  rw [OnlyReads, hon]
  exact h

theorem onlyReads_pure (a : α) : OnlyReads (pure a : Action ε α) machine :=
  (reads_pure a).onlyReads

theorem onlyReads_throw (fault : ε) : OnlyReads (throw fault : Action ε α) machine :=
  (reads_of_on fun _ => on_throw fault _).onlyReads

/-- Looking at the machine for something else than what was reported. -/
theorem onlyReads_get_bind {next : Machine → Action ε α}
    (hsame : ∀ reports, next (machine.reporting reports) = next machine)
    (h : OnlyReads (next machine) machine) : OnlyReads (get >>= next) machine := by
  have hreads : Reads (get >>= next) machine (on (next machine) machine).1 := by
    intro reports
    simp only [on_bind, on_get, hsame]
    exact h reports
  exact hreads.onlyReads

/-- Looking, and then looking at what was seen. -/
theorem OnlyReads.bind {action : Action ε α} {next : α → Action ε β}
    (h : OnlyReads action machine) (hnext : ∀ a, OnlyReads (next a) machine) :
    OnlyReads (action >>= next) machine := by
  rw [OnlyReads] at h
  cases hout : (on action machine).1 with
  | error fault =>
      rw [hout] at h
      exact (h.bind_error next).onlyReads
  | ok a =>
      rw [hout] at h
      exact (h.bind (hnext a)).onlyReads

theorem OnlyReads.mapError {action : Action ε α} (h : OnlyReads action machine) (f : ε → ε') :
    OnlyReads (action.mapError f) machine :=
  (Reads.mapError h f).onlyReads

/-- What does not depend on reports is kept by looking. -/
theorem preserves_of_onlyReads {action : Action ε α} {holds : Machine → Prop}
    (h : ∀ machine, OnlyReads action machine)
    (hreports : ∀ machine reports, holds machine → holds (machine.reporting reports)) :
    Preserves action holds := by
  intro machine hmachine
  obtain ⟨reports, hon⟩ := (h machine).on_eq
  rw [hon]
  exact hreports machine reports hmachine

end

end Action

end TreeSync
