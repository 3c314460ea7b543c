import TreeSync.Proofs.Session.Opening

/-!
# TreeSync.Proofs.Session.Refusing

Openings that fail before anything is written.

1. An opening first looks whether there is a session in the way, and compiles the filter
   set (`examine`).  Both only look, but for the process file of a dead engine, which is
   removed (`examine_changes`).
2. What it does from there on (`enact`) fails neither because a session is open nor
   because of an ignore source (`failsLate_enact`).

So an opening that fails for one of these reasons has not come further, whichever engine
it would have started (`unwritten_of_start`).
-/

namespace TreeSync.Session

open TreeSync.Action Disk

variable {config : SessionConfig} {index : IgnoreIndex} {executable : Text}
  {machine after : Machine} {error : SessionError}

/-! ## two parts of an opening -/

/-- What an opening does before it writes anything: see that there is no session, and
compile the filter set. -/
def examine (config : SessionConfig) (index : IgnoreIndex) : Action SessionError FilterSet := do
  makeWay config
  filters config index

/-- What an opening does from there on. -/
def enact (engine : Action SessionError Unit) (timer : Clock (StateM Machine))
    (config : SessionConfig) (executable : Text) (set : FilterSet) : Action SessionError Nat := do
  writeFiles config set executable
  (TransferLock.ensure config.lockPath).mapError SessionError.file
  engine
  let pid ← awaitEngine timer config
  report .info
  pure pid

theorem startBy_eq (engine : Action SessionError Unit) (timer : Clock (StateM Machine))
    (config : SessionConfig) (index : IgnoreIndex) (executable : Text) :
    startBy engine timer config index executable =
      examine config index >>= enact engine timer config executable := by
  simp only [startBy, prepare, examine, bind_assoc]
  rfl

/-! ## the first part -/

/-- Nothing is changed but that the process file of a dead engine may be removed. -/
def Tidies (config : SessionConfig) (before after : Machine) : Prop :=
  ∃ disk reports, after = (before.withDisk disk).reporting reports ∧
    (disk = before.disk ∨
      ∃ pid, Tells config before pid ∧ Gone before.kill before pid ∧ Clears config before after)

theorem Tidies.of_reporting (reports : List Level) :
    Tidies config machine (machine.reporting reports) :=
  ⟨machine.disk, reports, rfl, .inl rfl⟩

theorem Tidies.refl (config : SessionConfig) (machine : Machine) :
    Tidies config machine machine := by
  have hsame : Tidies config machine (machine.reporting []) := .of_reporting []
  rwa [Machine.reporting_nil] at hsame

theorem Tidies.reporting (h : Tidies config machine after) (reports : List Level) :
    Tidies config machine (after.reporting reports) := by
  obtain ⟨disk, earlier, rfl, hdisk⟩ := h
  refine ⟨disk, earlier ++ reports, Machine.reporting_reporting _ _ _, hdisk.imp_right ?_⟩
  rintro ⟨pid, htells, hgone, hclears⟩
  exact ⟨pid, htells, hgone, hclears.place, hclears.missing⟩

/-- Making way for a session removes a process file at most. -/
theorem tidies_makeWay (config : SessionConfig) (machine : Machine) :
    Tidies config machine ((makeWay config).on machine).2 := by
  obtain ⟨fault, hon⟩ | ⟨reports, hon⟩ | ⟨pid, htells⟩ := status_cases config machine
  · simp only [makeWay, on_bind, hon]
    exact .refl config machine
  · simp only [makeWay, on_bind, hon, on_pure]
    exact .of_reporting reports
  cases halive : machine.answers pid with
  | true =>
      rw [on_makeWay_of_alive htells halive]
      exact .refl config machine
  | false =>
      obtain ⟨disk, hclear, hclears⟩ := on_clearStale htells
      simp only [makeWay, on_bind, on_status_of_tells htells, stateOf, halive, hclear,
        Bool.false_eq_true, if_false]
      exact ⟨disk, [.warn], rfl, .inr ⟨pid, htells, gone_of_answers halive, hclears⟩⟩

theorem examine_changes (hindex : ∀ m, index.OnlyReads m) (config : SessionConfig)
    (machine : Machine) : Tidies config machine ((examine config index).on machine).2 := by
  have htidies := tidies_makeWay config machine
  rw [examine, on_bind]
  split
  · next cleared hon =>
      rw [hon] at htidies
      obtain ⟨reports, hfilters⟩ :=
        ((reads_compile (hindex cleared) config.sources).mapError SessionError.source).on_eq
      rw [← filters] at hfilters
      rw [hfilters]
      exact htidies.reporting reports
  · next fault cleared hon =>
      rw [hon] at htidies
      exact htidies

/-! ## the second part -/

/-- A failure of the second part: no open session, and no ignore source. -/
def Late (error : SessionError) : Prop :=
  (∀ root pid, error ≠ .alreadyOpen root pid) ∧ ∀ cause, error ≠ .source cause

theorem failsLate_startEngine (config : SessionConfig) : (startEngine config).FailsOnly Late := by
  have hrun : (runEngine config).FailsOnly Late := by
    refine FailsOnly.bind (failsOnly_mapError _ fun _ => ⟨nofun, nofun⟩) fun ending => ?_
    split
    · exact failsOnly_throw ⟨nofun, nofun⟩
    · exact failsOnly_pure _
  exact FailsOnly.bind (failsOnly_mapError _ fun _ => ⟨nofun, nofun⟩) fun _ => hrun

/-- Waiting fails only when the engine keeps silent. -/
theorem failsOnly_awaitEngine {allowed : SessionError → Prop}
    (h : allowed (.engine (.silent config.logPath))) (timer : Clock (StateM Machine)) :
    (awaitEngine timer config).FailsOnly allowed := by
  refine (failsOnly_liftM _).bind fun pid? => ?_
  cases pid? with
  | some pid => exact failsOnly_pure pid
  | none => exact failsOnly_throw h

theorem failsLate_enact {engine : Action SessionError Unit} (hengine : engine.FailsOnly Late)
    (timer : Clock (StateM Machine)) (config : SessionConfig) (executable : Text)
    (set : FilterSet) : (enact engine timer config executable set).FailsOnly Late := by
  have hfile : ∀ {α : Type} (action : Action FileError α),
      (action.mapError SessionError.file).FailsOnly Late :=
    fun action => failsOnly_mapError action fun _ => ⟨nofun, nofun⟩
  exact (hfile _).bind fun _ => (hfile _).bind fun _ => hengine.bind fun _ =>
    (failsOnly_awaitEngine ⟨nofun, nofun⟩ timer).bind fun _ => (failsOnly_report .info).bind
      fun _ => failsOnly_pure _

/-! ## the files of a session -/

/-- Where a file of a session stands, it has its name. -/
theorem getLast?_of_placeOf? {disk : Disk} {cwd : Option Location} {file : SessionFile}
    {place : Location} (h : disk.placeOf? cwd (config.pathOf file) = some place) :
    place.getLast? = some file.name := by
  rw [placeOf?, SessionConfig.pathOf, findEnd_join_eq file.isName] at h
  split at h
  · next directory name dotted hend =>
      cases h
      rw [List.getLast?_concat]
      split at hend
      · contradiction
      · split at hend
        · contradiction
        · split at hend <;> cases hend
          rfl
  · contradiction

/-- A file of a session that is not the process file has been left alone. -/
theorem Tidies.get?_placeOf? (h : Tidies config machine after) {file : SessionFile}
    (hfile : file ≠ .pid) {place : Location}
    (hplace : machine.disk.placeOf? machine.environment.cwd (config.pathOf file) = some place) :
    after.disk.get? place = machine.disk.get? place := by
  obtain ⟨disk, reports, rfl, rfl | ⟨pid, -, -, hclears⟩⟩ := h
  · rfl
  · obtain ⟨cleared, hcleared, -, hoff⟩ := hclears.place
    refine hoff place fun hmem => hfile ?_
    obtain rfl := List.mem_singleton.mp hmem
    have hname := (getLast?_of_placeOf? hplace).symm.trans (getLast?_of_placeOf? hcleared)
    exact SessionFile.name_injective (Option.some.inj hname)

/-! ## openings that fail -/

/-- The reasons for which an opening fails before anything is written. -/
inductive FailsEarly (config : SessionConfig) (machine : Machine) : SessionError → Prop
  | alreadyOpen (root : Text) (pid : Nat) : FailsEarly config machine (.alreadyOpen root pid)
  /-- The process file cannot be read. -/
  | unreadable {error : SessionError} (h : ((status config).on machine).1 = .error error) :
      FailsEarly config machine error
  /-- An ignore source cannot be found or read. -/
  | source (cause : SourceError) : FailsEarly config machine (.source cause)

/-- An opening that fails early has done its first part only. -/
theorem on_examine_of_failsEarly
    (h : (start config index executable).on machine = (.error error, after))
    (hearly : FailsEarly config machine error) :
    (examine config index).on machine = (.error error, after) := by
  rw [start, startBy_eq, on_bind] at h
  split at h
  · next set examined hexamine =>
      have hlate : Late error := failsLate_enact (failsLate_startEngine config) _ _ _ _ _ _ (by rw [h])
      cases hearly with
      | alreadyOpen root pid => exact absurd rfl (hlate.1 root pid)
      | source cause => exact absurd rfl (hlate.2 cause)
      | unreadable hstatus =>
          -- The first part has failed already.
          rw [examine, on_bind, makeWay, on_bind, on_eq_of_fst hstatus] at hexamine
          cases hexamine
  · next fault examined hexamine =>
      cases h
      exact hexamine

/-- **An opening that fails early has written nothing.**  Whichever engine it would have
started, it ends in the same way, so no engine was run.  The disk is as it was, but that
the process file of a dead engine may be gone; in particular every other file of a
session is left as it is. -/
theorem unwritten_of_start (hindex : ∀ m, index.OnlyReads m)
    (h : (start config index executable).on machine = (.error error, after))
    (hearly : FailsEarly config machine error) :
    (∀ engine timer, (startBy engine timer config index executable).on machine =
      (.error error, after)) ∧
    after.launches = machine.launches ∧ after.processes = machine.processes ∧
    (after.disk = machine.disk ∨ ∃ pid place, Tells config machine pid ∧
      Gone machine.kill machine pid ∧ pidPlace config machine = [place] ∧
      after.disk.get? place = none ∧ AgreesOff [place] machine.disk after.disk) ∧
    ∀ file, file ≠ .pid → ∀ place,
      machine.disk.placeOf? machine.environment.cwd (config.pathOf file) = some place →
        after.disk.get? place = machine.disk.get? place := by
  have hexamine := on_examine_of_failsEarly h hearly
  have htidies : Tidies config machine after := by
    have hchanges := examine_changes hindex config machine
    rwa [hexamine] at hchanges
  refine ⟨fun engine timer => by rw [startBy_eq, on_bind, hexamine], ?_, ?_, ?_,
    fun file hfile place => htidies.get?_placeOf? hfile⟩
  · obtain ⟨disk, reports, rfl, -⟩ := htidies
    rfl
  · obtain ⟨disk, reports, rfl, -⟩ := htidies
    rfl
  · obtain ⟨disk, reports, hafter, hdisk⟩ := htidies
    refine hdisk.imp (fun hsame => ?_) ?_
    · rw [hafter, Machine.disk_reporting, Machine.disk_withDisk, hsame]
    · rintro ⟨pid, htells, hgone, hclears⟩
      obtain ⟨place, hplace, hnone, hoff⟩ := hclears.place
      exact ⟨pid, place, htells, hgone, by rw [pidPlace, hplace]; rfl, hnone, hoff⟩

/-- A session of the tree at `/t` with an ignore source that is not there. -/
def unresolvedSession : SessionConfig := { plainSession with sources := [.root, .file "missing"] }

/-- A machine with that tree, the process file of a dead engine in it, and what else its
session has left. -/
def leftMachine : Machine :=
  { staleMachine with
    disk :=
      { entries :=
          (["t", "s", SessionFile.engineConfig.name], .file ⟨3, Text.bytes "old\n", 0o644⟩) ::
          (["t", "s", SessionFile.transferShim.name], .file ⟨4, Text.bytes "#!\n", 0o755⟩) ::
          staleMachine.disk.entries
        nextId := 5 } }

theorem unwritten_of_start_unresolved :
    let cause := SourceError.unreadable "literal" "/t/missing" (.io "/t/missing" .notFound)
    ∃ after, (start unresolvedSession plainIndex "/opt/tether").on leftMachine =
        (.error (.source cause), after) ∧
      FailsEarly unresolvedSession leftMachine (.source cause) ∧
      after.launches = [] ∧
      after.disk.get? ["t", "s", SessionFile.pid.name] = none ∧
      after.disk.get? ["t", "s", SessionFile.engineConfig.name] =
        some (.file ⟨3, Text.bytes "old\n", 0o644⟩) ∧
      after.disk.get? ["t", "s", SessionFile.transferShim.name] =
        some (.file ⟨4, Text.bytes "#!\n", 0o755⟩) := by
  intro cause
  have hfails : ((start unresolvedSession plainIndex "/opt/tether").on leftMachine).1 =
      .error (.source cause) := by decide +kernel
  have hearly : FailsEarly unresolvedSession leftMachine (.source cause) := .source cause
  obtain ⟨-, hlaunches, -, -, hfiles⟩ := unwritten_of_start onlyReads_plainIndex
    (on_eq_of_fst hfails) hearly
  refine ⟨_, on_eq_of_fst hfails, hearly, hlaunches, by decide +kernel, ?_, ?_⟩
  · exact hfiles .engineConfig nofun ["t", "s", SessionFile.engineConfig.name]
      (by decide +kernel)
  · exact hfiles .transferShim nofun ["t", "s", SessionFile.transferShim.name]
      (by decide +kernel)

end TreeSync.Session
