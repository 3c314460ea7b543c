import TreeSync.Proofs.Session.Status
import TreeSync.Proofs.Machine.Deadline

/-!
# TreeSync.Proofs.Session.Closing

Closing a session, and clearing a stale one away, come to rest: what they report is
what the next look finds (`close_and_refresh_settle`).

1. A process file that tells of a process can be removed, and then the session is
   closed (`exists_clears`).
2. The engine is asked to exit, and is gone or goes on running when the time is up
   (`on_stopEngine`).  While the timer sleeps, processes may come and go (`OnlyWaits`).
-/

namespace TreeSync.Session

open TreeSync.Action Disk

variable {config : SessionConfig} {machine after : Machine} {pid : Nat}
  {timer : Clock (StateM Machine)}

/-! ## removing the process file -/

/-- The process file is removed, and nothing else is changed on the disk. -/
structure Clears (config : SessionConfig) (before after : Machine) : Prop where
  place : ∃ place, before.disk.placeOf? before.environment.cwd config.pidPath = some place ∧
    after.disk.get? place = none ∧ AgreesOff [place] before.disk after.disk
  missing : after.disk.readText after.environment.cwd config.pidPath = .error .notFound

/-- A cleared session is closed. -/
theorem Clears.on_status (h : Clears config machine after) :
    (status config).on after = (.ok .closed, after) := by
  rw [Session.on_status, h.missing]

/-- What tells of a process can be removed. -/
theorem exists_clears (h : Tells config machine pid) :
    ∃ disk, (Files.removeIfExists config.pidPath).on machine = (.ok true, machine.withDisk disk) ∧
      Clears config machine (machine.withDisk disk) := by
  obtain ⟨text, hread, -⟩ := h
  obtain ⟨place, hplace, hne, hremove, hmissing⟩ :=
    remove_of_readText SessionFile.pid.isName SessionFile.pid.isTooLong_name hread
  refine ⟨machine.disk.erase place, ?_, ⟨place, hplace, ?_, fun other hother => ?_⟩, hmissing⟩
  · have hremove : machine.disk.remove machine.environment.cwd config.pidPath = _ := hremove
    simp only [Files.removeIfExists, on_bind, on_get, hremove, on_set, on_pure]
    rfl
  · rw [Machine.disk_withDisk, get?_erase _ hne, if_pos rfl]
  · rw [Machine.disk_withDisk, get?_erase _ hne, if_neg (by simpa using hother)]

/-! ## the engine -/

/-- A machine at some time. -/
def atTime (machine : Machine) (time : Nat) : Machine := { machine with clock := time }

/-- A machine after a while, with other processes. -/
def later (machine : Machine) (time : Nat) (processes : List Process) : Machine :=
  { machine with clock := time, processes }

/-- Nothing but time has passed, and processes have come and gone. -/
def IsLater (machine after : Machine) : Prop :=
  ∃ time processes, after = later machine time processes

/-- A timer that shows the time and sleeps as long as it has to, or longer.  Meanwhile
processes may come and go, but nothing else happens. -/
structure OnlyWaits (timer : Clock (StateM Machine)) : Prop where
  now : ∀ machine, (timer.now.run machine).run = (machine.clock, machine)
  sleep : ∀ ms machine, machine.clock + ms ≤ ((timer.sleep ms).run machine).run.2.clock ∧
    IsLater machine ((timer.sleep ms).run machine).run.2

/-- The clock that sessions have does nothing but wait. -/
theorem onlyWaits_clock : OnlyWaits clock where
  now _ := rfl
  sleep ms machine := ⟨Nat.add_le_add_left (Nat.le_max_right 1 ms) _, _, machine.processes, rfl⟩

/-- Asking for a process leaves the machine as it is. -/
theorem run_gone (pid : Nat) (machine : Machine) :
    ((gone pid).run machine).run = (if machine.answers pid then none else some (), machine) := rfl

/-- Its time passes with the sleeps, and not while it is asked. -/
theorem OnlyWaits.flows (h : OnlyWaits timer) (pid : Nat) :
    timer.Flows pollInterval (gone pid) Machine.clock where
  check _ := Nat.le_refl _
  now machine := by simp [h.now machine]
  sleep machine := (h.sleep pollInterval machine).1

/-- **Asking the engine to exit**: it is gone, or it is still there when the time is
up.  Nothing but time has passed. -/
theorem on_stopEngine (htimer : OnlyWaits timer) (pid : Nat) (machine : Machine) :
    ∃ time processes, (stopEngine timer pid).on machine =
      (if (later machine time processes).answers pid then .error (.engine (.keptRunning pid))
        else .ok (), later machine time processes) := by
  obtain ⟨calls, ending, -, hpolled, hwait⟩ := Clock.exists_polled_waitFor (by decide)
    (htimer.flows pid) stopTimeout (htimer.now (machine.terminate pid))
  obtain ⟨k, -, hcloses⟩ := hpolled.closed
  have hlater : IsLater machine
      (timer.asked pollInterval (gone pid) (machine.terminate pid) k) := by
    refine Clock.asked_of_keeps (fun m h => h) (fun m h => ?_) (fun m h => ?_)
      ⟨machine.clock, machine.kill.signal machine.processes pid, rfl⟩ k
    · rwa [htimer.now m]
    · obtain ⟨time, processes, hslept⟩ := (htimer.sleep pollInterval m).2
      obtain ⟨before, earlier, rfl⟩ := h
      exact ⟨time, processes, hslept⟩
  obtain ⟨time, processes, hlast⟩ := hlater
  rw [hlast] at hcloses
  refine ⟨time, processes, ?_⟩
  simp only [stopEngine, on_bind, on_modify, on_liftM, hwait]
  cases hcloses with
  | answered hanswer =>
      rw [run_gone] at hanswer
      obtain ⟨hvalue, rfl⟩ := Prod.mk.inj hanswer
      split at hvalue
      · contradiction
      · next hgone => rw [if_neg hgone]; rfl
  | expired hrefused =>
      have hlook : (timer.look (gone pid) (later machine time processes)).2 =
          later machine time processes := by
        rw [Clock.look, run_gone, htimer.now]
      rw [run_gone] at hrefused
      split at hrefused
      · next hfound => rw [if_pos hfound, hlook]; rfl
      · contradiction

/-! ## whole operations -/

section
variable (htells : Tells config machine pid)
include htells

/-- A session whose process is gone is cleared away. -/
theorem on_clearStale : ∃ disk,
    (clearStale config).on machine = (.ok (), (machine.reporting [.warn]).withDisk disk) ∧
      Clears config machine ((machine.reporting [.warn]).withDisk disk) := by
  have hwarned : Tells config (machine.reporting [.warn]) pid := htells
  obtain ⟨disk, hremove, hclears⟩ := exists_clears hwarned
  refine ⟨disk, ?_, hclears.place, hclears.missing⟩
  have hreport : (report .warn : Action SessionError PUnit).on machine =
    (.ok ⟨⟩, machine.reporting [.warn]) := rfl
  simp only [clearStale, on_bind, hreport, on_mapError, hremove, mapError_ok, on_pure]

/-- A session whose process is gone was stale, and is cleared. -/
theorem on_refresh_of_gone (hgone : machine.answers pid = false) :
    ∃ cleared, (refresh config).on machine = (.ok (.stale pid), cleared) ∧
      Clears config machine cleared := by
  obtain ⟨disk, hclear, hclears⟩ := on_clearStale htells
  refine ⟨_, ?_, hclears⟩
  simp only [refresh, on_bind, on_status_of_tells htells, stateOf, hgone, hclear, on_pure,
    Bool.false_eq_true, if_false]

/-- A session whose process answers is running, and left alone. -/
theorem on_refresh_of_alive (halive : machine.answers pid = true) :
    (refresh config).on machine = (.ok (.running pid), machine) := by
  simp only [refresh, on_bind, on_status_of_tells htells, stateOf, halive, if_true, on_pure]

/-- There is nothing to end in a stale session; its file is cleared. -/
theorem on_closeBy_of_gone (hgone : machine.answers pid = false) :
    ∃ cleared, (closeBy timer config).on machine = (.ok none, cleared) ∧
      Clears config machine cleared := by
  obtain ⟨disk, hclear, hclears⟩ := on_clearStale htells
  refine ⟨_, ?_, hclears⟩
  simp only [closeBy, on_bind, on_status_of_tells htells, stateOf, hgone, hclear, on_pure,
    Bool.false_eq_true, if_false]

/-- Closing an open session: the engine keeps running and nothing is lost, or it is
gone and so is the process file. -/
theorem on_closeBy_of_alive (htimer : OnlyWaits timer) (halive : machine.answers pid = true) :
    (∃ time processes, (later machine time processes).answers pid = true ∧
      (closeBy timer config).on machine =
        (.error (.engine (.keptRunning pid)), later machine time processes)) ∨
      ∃ cleared, (closeBy timer config).on machine = (.ok (some pid), cleared) ∧
        cleared.kill = machine.kill ∧ cleared.answers pid = false ∧
        Clears config machine cleared := by
  obtain ⟨time, processes, hstop⟩ := on_stopEngine htimer pid machine
  cases hkept : (later machine time processes).answers pid with
  | true =>
      rw [hkept] at hstop
      refine Or.inl ⟨time, processes, hkept, ?_⟩
      simp only [closeBy, on_bind, on_status_of_tells htells, stateOf, halive, if_true, hstop]
  | false =>
      rw [hkept] at hstop
      have hstopped : Tells config (later machine time processes) pid := htells
      obtain ⟨disk, hremove, hclears⟩ := exists_clears hstopped
      refine Or.inr ⟨((later machine time processes).withDisk disk).reporting [.info], ?_, rfl,
        hkept, hclears.place, hclears.missing⟩
      have hreport : ∀ stopped, (report .info : Action SessionError PUnit).on stopped =
        (.ok ⟨⟩, stopped.reporting [.info]) := fun _ => rfl
      simp only [closeBy, on_bind, on_status_of_tells htells, stateOf, halive, if_true, hstop,
        Bool.false_eq_true, if_false, on_mapError, hremove, mapError_ok, hreport, on_pure]

end

/-- Without an open or stale session nothing is done. -/
theorem on_closeBy_of_closed (h : (status config).on machine = (.ok .closed, after)) :
    (closeBy timer config).on machine = (.ok none, after) := by
  simp only [closeBy, on_bind, h, on_pure]

theorem on_refresh_of_closed (h : (status config).on machine = (.ok .closed, after)) :
    (refresh config).on machine = (.ok .closed, after) := by
  simp only [refresh, on_bind, h, on_pure]

theorem on_closeBy_of_error {error : SessionError}
    (h : (status config).on machine = (.error error, after)) :
    (closeBy timer config).on machine = (.error error, after) := by
  simp only [closeBy, on_bind, h]

theorem on_refresh_of_error {error : SessionError}
    (h : (status config).on machine = (.error error, after)) :
    (refresh config).on machine = (.error error, after) := by
  simp only [refresh, on_bind, h]

/-- What is closed stays so, however often one looks. -/
theorem on_status_of_closed (h : (status config).on machine = (.ok .closed, after)) :
    ∃ reports, (status config).on after = (.ok .closed, after.reporting reports) := by
  obtain ⟨fault, hon⟩ | ⟨reports, hon⟩ | ⟨pid, htells⟩ := status_cases config machine
  · rw [hon] at h
    cases h
  · obtain ⟨more, hmore⟩ := reads_status config machine reports
    rw [hon] at h hmore
    cases h
    exact ⟨more, by rw [hmore, Machine.reporting_reporting]⟩
  · rw [on_status_of_tells htells, stateOf] at h
    split at h <;> cases h

/-! ## coming to rest -/

/-- `kill` finds exactly the live processes. -/
def FindsLive (kill : Kill) : Prop :=
  ∀ processes pid, kill.probe processes pid = processes.any (·.pid == pid)

/-- `kill` does not find a process, and so it is dead if `kill` finds the live ones. -/
structure Gone (kill : Kill) (machine : Machine) (pid : Nat) : Prop where
  lost : kill.probe machine.processes pid = false
  dead : FindsLive kill → machine.isAlive pid = false

/-- A process that does not answer is gone, with no time to wait. -/
theorem gone_of_answers (h : machine.answers pid = false) : Gone machine.kill machine pid :=
  ⟨h, fun hfinds => (hfinds _ _).symm.trans h⟩

/-- After a close there is no session, and a process that it names was the one in the
process file, is gone, and so is the file. -/
theorem closed_of_closeBy (htimer : OnlyWaits timer) {result : Option Nat}
    (h : (closeBy timer config).on machine = (.ok result, after)) :
    (∃ reports, (status config).on after = (.ok .closed, after.reporting reports)) ∧
      ∀ pid, result = some pid →
        Tells config machine pid ∧ Gone machine.kill after pid ∧ Clears config machine after := by
  obtain ⟨fault, hon⟩ | ⟨reports, hon⟩ | ⟨pid, htells⟩ := status_cases config machine
  · rw [on_closeBy_of_error hon] at h
    cases h
  · rw [on_closeBy_of_closed hon] at h
    cases h
    exact ⟨on_status_of_closed hon, nofun⟩
  cases halive : machine.answers pid with
  | false =>
      obtain ⟨cleared, hclose, hclears⟩ := on_closeBy_of_gone htells halive
      rw [hclose] at h
      cases h
      exact ⟨⟨[], by rw [hclears.on_status, Machine.reporting_nil]⟩, nofun⟩
  | true =>
      obtain ⟨time, processes, -, hclose⟩ | ⟨cleared, hclose, hkill, hgone, hclears⟩ :=
        on_closeBy_of_alive htells htimer halive
      · rw [hclose] at h
        cases h
      · rw [hclose] at h
        cases h
        refine ⟨⟨[], by rw [hclears.on_status, Machine.reporting_nil]⟩, fun other hother => ?_⟩
        obtain rfl : pid = other := Option.some.inj hother
        exact ⟨htells, hkill ▸ gone_of_answers hgone, hclears⟩

/-- A close that fails leaves the disk and the status as they were, and when it was
the engine that did not exit the session is open. -/
theorem kept_of_closeBy (htimer : OnlyWaits timer) {error : SessionError}
    (h : (closeBy timer config).on machine = (.error error, after)) :
    after.disk = machine.disk ∧ ((status config).on after).1 = ((status config).on machine).1 ∧
      ∀ pid, error = .engine (.keptRunning pid) →
        (status config).on machine = (.ok (.running pid), machine) := by
  obtain ⟨fault, hon⟩ | ⟨reports, hon⟩ | ⟨pid, htells⟩ := status_cases config machine
  · rw [on_closeBy_of_error hon] at h
    cases h
    exact ⟨rfl, rfl, nofun⟩
  · rw [on_closeBy_of_closed hon] at h
    cases h
  cases halive : machine.answers pid with
  | false =>
      obtain ⟨cleared, hclose, -⟩ := on_closeBy_of_gone htells halive
      rw [hclose] at h
      cases h
  | true =>
      obtain ⟨time, processes, hkept, hclose⟩ | ⟨cleared, hclose, -⟩ :=
        on_closeBy_of_alive htells htimer halive
      · rw [hclose] at h
        cases h
        have hafter : Tells config (later machine time processes) pid := htells
        refine ⟨rfl, ?_, ?_⟩
        · rw [on_status_of_tells hafter, on_status_of_tells htells, stateOf, stateOf, hkept, halive]
        · rintro _ ⟨⟩
          rw [on_status_of_tells htells, stateOf, if_pos halive]
      · rw [hclose] at h
        cases h

/-- After a refresh there is no stale session. -/
theorem not_stale_of_refresh {state : SessionState}
    (h : (refresh config).on machine = (.ok state, after)) (pid : Nat) :
    ((status config).on after).1 ≠ .ok (.stale pid) := by
  obtain ⟨fault, hon⟩ | ⟨reports, hon⟩ | ⟨pid', htells⟩ := status_cases config machine
  · rw [on_refresh_of_error hon] at h
    cases h
  · rw [on_refresh_of_closed hon] at h
    cases h
    obtain ⟨more, hmore⟩ := on_status_of_closed hon
    rw [hmore]
    simp
  cases halive : machine.answers pid' with
  | false =>
      obtain ⟨cleared, hrefresh, hclears⟩ := on_refresh_of_gone htells halive
      rw [hrefresh] at h
      cases h
      rw [hclears.on_status]
      simp
  | true =>
      rw [on_refresh_of_alive htells halive] at h
      cases h
      rw [on_status_of_tells htells, stateOf, if_pos halive]
      simp

/-- A refresh leaves the disk as it is, or removes the file of a dead process. -/
theorem disk_refresh (config : SessionConfig) (machine : Machine) :
    ((refresh config).on machine).2.disk = machine.disk ∨
      ∃ pid, Tells config machine pid ∧ Gone machine.kill machine pid ∧
        Clears config machine ((refresh config).on machine).2 := by
  obtain ⟨fault, hon⟩ | ⟨reports, hon⟩ | ⟨pid, htells⟩ := status_cases config machine
  · exact Or.inl (by rw [on_refresh_of_error hon])
  · exact Or.inl (by rw [on_refresh_of_closed hon, Machine.disk_reporting])
  cases halive : machine.answers pid with
  | false =>
      obtain ⟨cleared, hrefresh, hclears⟩ := on_refresh_of_gone htells halive
      exact Or.inr ⟨pid, htells, gone_of_answers halive, by rw [hrefresh]; exact hclears⟩
  | true => exact Or.inl (by rw [on_refresh_of_alive htells halive])

/-- A close leaves the disk as it is, or removes the process file. -/
theorem disk_closeBy (htimer : OnlyWaits timer) (config : SessionConfig) (machine : Machine) :
    ((closeBy timer config).on machine).2.disk = machine.disk ∨
      Clears config machine ((closeBy timer config).on machine).2 := by
  obtain ⟨fault, hon⟩ | ⟨reports, hon⟩ | ⟨pid, htells⟩ := status_cases config machine
  · exact Or.inl (by rw [on_closeBy_of_error hon])
  · exact Or.inl (by rw [on_closeBy_of_closed hon, Machine.disk_reporting])
  cases halive : machine.answers pid with
  | false =>
      obtain ⟨cleared, hclose, hclears⟩ := on_closeBy_of_gone htells halive
      exact Or.inr (by rw [hclose]; exact hclears)
  | true =>
      obtain ⟨time, processes, -, hclose⟩ | ⟨cleared, hclose, -, -, hclears⟩ :=
        on_closeBy_of_alive htells htimer halive
      · exact Or.inl (by rw [hclose]; rfl)
      · exact Or.inr (by rw [hclose]; exact hclears)

/-- Where the process file of a session stands. -/
def pidPlace (config : SessionConfig) (machine : Machine) : List Location :=
  (machine.disk.placeOf? machine.environment.cwd config.pidPath).toList

/-- Clearing a session touches its process file only. -/
theorem Clears.agreesOff (h : Clears config machine after) :
    AgreesOff (pidPlace config machine) machine.disk after.disk := by
  obtain ⟨place, hplace, -, hoff⟩ := h.place
  rw [pidPlace, hplace]
  exact hoff

/-- **Closing and refreshing come to rest.**  A close that succeeds leaves no session
to close, and has removed the process file of the process it names, which is gone.
A close that fails can be tried again: the disk and the status are as they were, and
the session is open if the engine did not exit.  A refresh that succeeds leaves no
stale session, and a refresh removes the process file of a dead process only.
Nothing else on the disk is changed.

`kill` may answer what it likes, and processes may come and go while the timer sleeps. -/
theorem close_and_refresh_settle (htimer : OnlyWaits timer) (config : SessionConfig)
    (machine : Machine) :
    (∀ result after, (closeBy timer config).on machine = (.ok result, after) →
      (∃ reports, (status config).on after = (.ok .closed, after.reporting reports)) ∧
      (∃ reports, (closeBy timer config).on after = (.ok none, after.reporting reports)) ∧
      ∀ pid, result = some pid →
        Tells config machine pid ∧ Gone machine.kill after pid ∧
        ∃ place, pidPlace config machine = [place] ∧ after.disk.get? place = none) ∧
    (∀ error after, (closeBy timer config).on machine = (.error error, after) →
      after.disk = machine.disk ∧
      ((status config).on after).1 = ((status config).on machine).1 ∧
      ∀ pid, error = .engine (.keptRunning pid) →
        (status config).on machine = (.ok (.running pid), machine)) ∧
    (∀ state after, (refresh config).on machine = (.ok state, after) →
      ∀ pid, ((status config).on after).1 ≠ .ok (.stale pid)) ∧
    (((refresh config).on machine).2.disk ≠ machine.disk →
      ∃ pid, Tells config machine pid ∧ Gone machine.kill machine pid) ∧
    ((status config).on machine).2.disk = machine.disk ∧
    AgreesOff (pidPlace config machine) machine.disk ((refresh config).on machine).2.disk ∧
    AgreesOff (pidPlace config machine) machine.disk ((closeBy timer config).on machine).2.disk := by
  refine ⟨?_, fun error after => kept_of_closeBy htimer, fun state after => not_stale_of_refresh,
    ?_, ?_, ?_, ?_⟩
  · intro result after hclose
    obtain ⟨⟨reports, hclosed⟩, hstopped⟩ := closed_of_closeBy htimer hclose
    refine ⟨⟨reports, hclosed⟩, ⟨reports, on_closeBy_of_closed hclosed⟩, fun pid hpid => ?_⟩
    obtain ⟨htells, hgone, hclears⟩ := hstopped pid hpid
    obtain ⟨place, hplace, hnone, -⟩ := hclears.place
    exact ⟨htells, hgone, place, by rw [pidPlace, hplace]; rfl, hnone⟩
  · intro hchanged
    obtain ⟨pid, htells, hdead, -⟩ := (disk_refresh config machine).resolve_left hchanged
    exact ⟨pid, htells, hdead⟩
  · obtain ⟨reports, hon⟩ := (reads_status config machine).on_eq
    rw [hon, Machine.disk_reporting]
  · obtain hsame | ⟨pid, -, -, hclears⟩ := disk_refresh config machine
    · rw [hsame]
      exact .refl _ _
    · exact hclears.agreesOff
  · obtain hsame | hclears := disk_closeBy htimer config machine
    · rw [hsame]
      exact .refl _ _
    · exact hclears.agreesOff

/-- The session of a tree at `/t`. -/
def plainSession : SessionConfig where
  root := "/t"
  stateDirectory := "/t/s"
  host := "builder"
  remotePath := "app"
  sources := [.root]
  delay := .zero false
  compress := false
  binaries := {}

/-- A machine where the process file of that session tells of process 41. -/
def toldMachine (processes : List Process) : Machine where
  disk :=
    { entries :=
        [(["t"], .directory), (["t", "s"], .directory),
         (["t", "s", SessionFile.pid.name], .file ⟨0, Text.bytes "41\n", 0o644⟩)] }
  processes

/-- A timer during whose sleeps every process exits. -/
def lastingTimer : Clock (StateM Machine) where
  now := do return (← get).clock
  sleep ms := modify fun machine => later machine (machine.clock + ms) []

theorem onlyWaits_lastingTimer : OnlyWaits lastingTimer :=
  ⟨fun _ => rfl, fun _ _ => ⟨Nat.le_refl _, _, [], rfl⟩⟩

/-- The file names process 41: one that ends when told, one that does not, one that
ends late, and none at all. -/
theorem close_and_refresh_settle_told :
    (∃ closed, (close plainSession).on (toldMachine [⟨41, false⟩]) = (.ok (some 41), closed) ∧
      closed.isAlive 41 = false ∧ closed.disk.get? ["t", "s", SessionFile.pid.name] = none ∧
      ∃ reports, (status plainSession).on closed = (.ok .closed, closed.reporting reports)) ∧
    (∃ kept, (close plainSession).on (toldMachine [⟨41, true⟩]) =
        (.error (.engine (.keptRunning 41)), kept) ∧
      ((status plainSession).on kept).1 = .ok (.running 41)) ∧
    (∃ closed, (closeBy lastingTimer plainSession).on (toldMachine [⟨41, true⟩]) =
        (.ok (some 41), closed) ∧ closed.isAlive 41 = false) ∧
    ∃ cleared, (refresh plainSession).on (toldMachine []) = (.ok (.stale 41), cleared) ∧
      ((status plainSession).on cleared).1 ≠ .ok (.stale 41) := by
  have hclose : ((close plainSession).on (toldMachine [⟨41, false⟩])).1 = .ok (some 41) := by
    decide +kernel
  have hkept : ((close plainSession).on (toldMachine [⟨41, true⟩])).1 =
      .error (.engine (.keptRunning 41)) := by decide +kernel
  have hlasts : ((closeBy lastingTimer plainSession).on (toldMachine [⟨41, true⟩])).1 =
      .ok (some 41) := by decide +kernel
  have hrefresh : ((refresh plainSession).on (toldMachine [])).1 = .ok (.stale 41) := by
    decide +kernel
  have hplace : pidPlace plainSession (toldMachine [⟨41, false⟩]) =
      ([["t", "s", SessionFile.pid.name]] : List Location) := by decide +kernel
  refine ⟨⟨_, on_eq_of_fst hclose, ?_⟩, ⟨_, on_eq_of_fst hkept, ?_⟩, ⟨_, on_eq_of_fst hlasts, ?_⟩,
    _, on_eq_of_fst hrefresh, ?_⟩
  · obtain ⟨hclosed, -, hstopped⟩ := (close_and_refresh_settle onlyWaits_clock plainSession
      (toldMachine [⟨41, false⟩])).1 _ _ (on_eq_of_fst hclose)
    obtain ⟨-, hgone, place, hat, hnone⟩ := hstopped 41 rfl
    obtain rfl := List.singleton_inj.mp (hplace.symm.trans hat)
    exact ⟨hgone.dead fun _ _ => rfl, hnone, hclosed⟩
  · obtain ⟨-, hsame, hopen⟩ := (close_and_refresh_settle onlyWaits_clock plainSession
      (toldMachine [⟨41, true⟩])).2.1 _ _ (on_eq_of_fst hkept)
    exact hsame.trans (by rw [hopen 41 rfl])
  · obtain ⟨-, -, hstopped⟩ := (close_and_refresh_settle onlyWaits_lastingTimer plainSession
      (toldMachine [⟨41, true⟩])).1 _ _ (on_eq_of_fst hlasts)
    obtain ⟨-, hgone, -⟩ := hstopped 41 rfl
    exact hgone.dead fun _ _ => rfl
  · exact (close_and_refresh_settle onlyWaits_clock plainSession (toldMachine [])).2.2.1 _ _
      (on_eq_of_fst hrefresh) 41

end TreeSync.Session
