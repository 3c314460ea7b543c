import TreeSync.Session
import TreeSync.Proofs.Machine.Action
import TreeSync.Proofs.Disk.Operation

/-!
# TreeSync.Proofs.Session.Status

What the status of a session depends on: the text in its process file, and whether
`kill` finds the process that it tells of.  Looking changes nothing.
-/

namespace TreeSync

/-! ## session files -/

theorem SessionFile.isName (file : SessionFile) : IsName file.name := by
  cases file <;> exact ⟨by decide, by decide, by decide, by decide, by decide⟩

theorem SessionFile.isTooLong_name (file : SessionFile) : Disk.isTooLong file.name = false := by
  cases file <;> decide

namespace Session

variable {config : SessionConfig} {machine after : Machine} {pid : Nat}

/-! ## what the process file tells -/

/-- The process file spells a process number. -/
def Tells (config : SessionConfig) (machine : Machine) (pid : Nat) : Prop :=
  ∃ text, machine.disk.readText machine.environment.cwd config.pidPath = .ok text ∧
    PidFile.ofText? text = some pid

/-- What a process number says of the session. -/
def stateOf (machine : Machine) (pid : Nat) : SessionState :=
  if machine.answers pid then .running pid else .stale pid

/-- What is read from a process file, from the text in it. -/
theorem on_readPid (path : Text) (machine : Machine) :
    (PidFile.read path).on machine =
      match machine.disk.readText machine.environment.cwd path with
      | .error .notFound => (.ok none, machine)
      | .error fault => (.error (.io path fault), machine)
      | .ok text =>
          match PidFile.ofText? text with
          | none => (.ok none, machine.reporting [.warn])
          | some pid => (.ok (some pid), machine) := by
  simp only [PidFile.read, Files.readOptionalText, Action.on_bind, Action.on_get]
  cases machine.disk.readText machine.environment.cwd path with
  | error fault => cases fault <;> rfl
  | ok text =>
      simp only [Action.on_pure]
      cases PidFile.ofText? text with
      | none => rfl
      | some pid => rfl

/-- The status of a session, from the text of its process file. -/
theorem on_status (config : SessionConfig) (machine : Machine) :
    (status config).on machine =
      match machine.disk.readText machine.environment.cwd config.pidPath with
      | .error .notFound => (.ok .closed, machine)
      | .error fault => (.error (.file (.io config.pidPath fault)), machine)
      | .ok text =>
          match PidFile.ofText? text with
          | none => (.ok .closed, machine.reporting [.warn])
          | some pid => (.ok (stateOf machine pid), machine) := by
  simp only [status, Action.on_bind, Action.on_mapError, on_readPid]
  cases machine.disk.readText machine.environment.cwd config.pidPath with
  | error fault => cases fault <;> rfl
  | ok text =>
      cases hpid : PidFile.ofText? text with
      | none => simp only [hpid]; rfl
      | some pid => simp only [hpid]; rfl

/-- Looking for a session only looks. -/
theorem reads_status (config : SessionConfig) (machine : Machine) :
    (status config).OnlyReads machine := by
  have hreads : (status config).Reads machine ((status config).on machine).1 := by
    intro reports
    rw [on_status config machine, on_status config (machine.reporting reports)]
    simp only [Machine.disk_reporting, Machine.environment_reporting]
    cases machine.disk.readText machine.environment.cwd config.pidPath with
    | error fault => cases fault <;> exact ⟨[], by rw [List.append_nil]⟩
    | ok text =>
        cases hpid : PidFile.ofText? text with
        | none => exact ⟨[.warn], by simp only [hpid, Machine.reporting_reporting]⟩
        | some pid => exact ⟨[], by simp only [hpid, List.append_nil]; rfl⟩
  exact hreads

theorem on_status_of_tells (h : Tells config machine pid) :
    (status config).on machine = (.ok (stateOf machine pid), machine) := by
  obtain ⟨text, hread, hpid⟩ := h
  simp only [on_status, hread, hpid]

/-- The process file cannot be read, tells of no process, or tells of one. -/
theorem status_cases (config : SessionConfig) (machine : Machine) :
    (∃ fault, (status config).on machine = (.error (.file (.io config.pidPath fault)), machine)) ∨
      (∃ reports, (status config).on machine = (.ok .closed, machine.reporting reports)) ∨
      ∃ pid, Tells config machine pid := by
  rw [on_status]
  cases hread : machine.disk.readText machine.environment.cwd config.pidPath with
  | error fault =>
      by_cases hmissing : fault = .notFound
      · subst hmissing
        exact Or.inr (Or.inl ⟨[], by rw [Machine.reporting_nil]⟩)
      · exact Or.inl ⟨fault, by simp⟩
  | ok text =>
      cases hpid : PidFile.ofText? text with
      | none => exact Or.inr (Or.inl ⟨[.warn], by simp only [hpid]⟩)
      | some pid => exact Or.inr (Or.inr ⟨pid, text, hread, hpid⟩)

/-- A session that is not closed is the one that the process file tells of. -/
theorem tells_of_status {state : SessionState}
    (h : (status config).on machine = (.ok state, after)) (hstate : state ≠ .closed) :
    ∃ pid, Tells config machine pid ∧ state = stateOf machine pid ∧ after = machine := by
  obtain ⟨fault, hon⟩ | ⟨reports, hon⟩ | ⟨pid, htells⟩ := status_cases config machine
  · rw [hon] at h
    cases h
  · rw [hon] at h
    cases h
    exact absurd rfl hstate
  · rw [on_status_of_tells htells] at h
    cases h
    exact ⟨pid, htells, rfl, rfl⟩

/-- **A session is open** if its process file tells of a process that is found. -/
theorem status_running_iff :
    (status config).on machine = (.ok (.running pid), after) ↔
      Tells config machine pid ∧ machine.answers pid = true ∧ after = machine := by
  constructor
  · intro h
    obtain ⟨pid', htells, hstate, rfl⟩ := tells_of_status h nofun
    rw [stateOf] at hstate
    split at hstate
    · next halive =>
        cases hstate
        exact ⟨htells, halive, rfl⟩
    · contradiction
  · rintro ⟨htells, halive, rfl⟩
    rw [on_status_of_tells htells, stateOf, if_pos halive]

theorem on_status_of_fst (h : ((status config).on machine).1 = .ok (.running pid)) :
    (status config).on machine = (.ok (.running pid), machine) := by
  obtain ⟨htells, halive, -⟩ := status_running_iff.mp (Action.on_eq_of_fst h)
  exact status_running_iff.mpr ⟨htells, halive, rfl⟩

end Session

end TreeSync
