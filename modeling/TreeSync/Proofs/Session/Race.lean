import TreeSync.Proofs.Session.Stages

/-!
# TreeSync.Proofs.Session.Race

Sessions of one tree that are opened at the same time.

1. Calls take their steps in any order on one machine (`Race.state`).
2. Before the first launch no session is open, whatever else the calls do
   (`dormant_state`), so no call is refused because of one (`exists_launch_of_refused`).
3. After a launch before which no other call has looked, the session stays open and every
   look finds it (`Held.advance`).
4. So there is one engine exactly if all calls but one look after that one has launched
   it (`oneEngine_iff`).  Nothing in the calls sees to that.
-/

namespace TreeSync.Session

open TreeSync.Action

/-! ## calls at the same time -/

/-- Calls that open a session of one tree at the same time. -/
structure Race (ι : Type) where
  config : SessionConfig
  call : ι → Call
  /-- Whose step is next. -/
  schedule : Nat → ι
  /-- The machine at the beginning. -/
  machine : Machine

/-- How far the calls are, and the machine they share. -/
structure Race.State (ι : Type) where
  stage : ι → Stage
  machine : Machine

/-- A machine as a call finds it. -/
def Call.found (call : Call) (machine : Machine) : Machine :=
  { machine with environment := { machine.environment with processTag := call.tag } }

namespace Race

variable {ι : Type} [DecidableEq ι]

/-- One call takes a step. -/
def advance (race : Race ι) (i : ι) (state : State ι) : State ι :=
  let next := (race.call i).step race.config (state.stage i) ((race.call i).found state.machine)
  { stage := fun j => if j = i then next.1 else state.stage j
    machine := next.2 }

/-- The state after some steps. -/
def state (race : Race ι) : Nat → State ι
  | 0 => ⟨fun _ => .checking, race.machine⟩
  | n + 1 => race.advance (race.schedule n) (race.state n)

/-- The machine that a call finds after some steps. -/
def found (race : Race ι) (n : Nat) (i : ι) : Machine := (race.call i).found (race.state n).machine

/-- A call looks for a session. -/
def Checks (race : Race ι) (n : Nat) (i : ι) : Prop :=
  race.schedule n = i ∧ (race.state n).stage i = .checking

/-- A call launches the engine. -/
def Launches (race : Race ι) (n : Nat) (i : ι) : Prop :=
  race.schedule n = i ∧ (race.state n).stage i = .launching

/-- A call has ended because there was an open session. -/
def Refused (race : Race ι) (n : Nat) (i : ι) : Prop :=
  ∃ pid, (race.state n).stage i = .ended (.error (.alreadyOpen race.config.root pid))

/-- When a launch is over, the process file tells of a live engine. -/
def BehavesWell (race : Race ι) : Prop :=
  ∀ n i, race.Launches n i → ∃ launched pid,
    (race.call i).engine.on (race.found n i) = (.ok (), launched) ∧
      (status race.config).on launched = (.ok (.running pid), launched)

/-- **One engine**: all calls but one end because there is an open session, and do not
launch the engine. -/
def OneEngine (race : Race ι) : Prop :=
  ∃ i, ∀ j, j ≠ i → (∃ n, race.Refused n j) ∧ ∀ n, ¬ race.Launches n j

variable {race : Race ι} {i j : ι} {m n : Nat} {state : State ι}

/-- The call whose turn it is takes its step on the machine it finds. -/
theorem stage_advance_self (race : Race ι) (i : ι) (state : State ι) :
    (race.advance i state).stage i =
      ((race.call i).step race.config (state.stage i) ((race.call i).found state.machine)).1 :=
  if_pos rfl

/-- The others stay where they are. -/
theorem stage_advance_of_ne (race : Race ι) (state : State ι) (h : j ≠ i) :
    (race.advance i state).stage j = state.stage j :=
  if_neg h

/-! ## the order of the stages -/

/-- No step adds to what is left of any call. -/
theorem left_advance (race : Race ι) (i j : ι) (state : State ι) :
    ((race.advance i state).stage j).left ≤ (state.stage j).left := by
  by_cases h : j = i
  · subst h
    rw [stage_advance_self]
    exact Nat.le_trans (left_step _ _ _ _) (Nat.sub_le _ _)
  · exact Nat.le_of_eq (congrArg Stage.left (stage_advance_of_ne race state h))

/-- What is left of a call only falls. -/
theorem left_state (race : Race ι) (j : ι) (h : m ≤ n) :
    ((race.state n).stage j).left ≤ ((race.state m).stage j).left := by
  induction h with
  | refl => exact Nat.le_refl _
  | step _ ih => exact Nat.le_trans (left_advance race _ j _) ih

/-- A call that is to look for a session has not done anything yet. -/
theorem checking_of_le (h : (race.state n).stage j = .checking) (hle : m ≤ n) :
    (race.state m).stage j = .checking := by
  induction hle with
  | refl => exact h
  | @step n _ ih =>
      refine ih ?_
      by_cases hturn : j = race.schedule n
      · rw [state, hturn, stage_advance_self] at h
        exact absurd h (step_ne_checking _ _ _ _)
      · rwa [state, stage_advance_of_ne race _ hturn] at h

/-- A call launches the engine once at most. -/
theorem not_launches_of_lt (h : race.Launches m i) (hlt : m < n) : ¬ race.Launches n i := by
  rintro ⟨-, hn⟩
  obtain ⟨rfl, hm⟩ := h
  have hnext : ((race.state (m + 1)).stage (race.schedule m)).left ≤ Stage.left .launching - 1 := by
    rw [state, stage_advance_self, hm]
    exact left_step _ _ _ _
  have hle : m + 1 ≤ n := hlt
  have hlast := left_state race (race.schedule m) hle
  rw [hn] at hlast
  have hpositive : 0 < Stage.left .launching := Nat.succ_pos _
  omega

/-- A call launches once at most. -/
theorem launches_unique (h : race.Launches m i) (h' : race.Launches n i) : m = n := by
  obtain hlt | heq | hlt := Nat.lt_trichotomy m n
  · exact absurd h' (not_launches_of_lt h hlt)
  · exact heq
  · exact absurd h (not_launches_of_lt h' hlt)

/-- A call that has ended launches no engine. -/
theorem not_launches_of_ended (h : ((race.state m).stage i).left = 0) (hle : m ≤ n) :
    ¬ race.Launches n i := by
  rintro ⟨-, hn⟩
  have hleft := left_state race i hle
  rw [h, hn] at hleft
  exact Nat.not_succ_le_zero _ hleft

/-- It is enough to look at the launches before all calls have ended. -/
theorem behavesWell_of_ended (pids : ι → Nat) (bound : Nat)
    (hended : ∀ i, ((race.state bound).stage i).left = 0)
    (hlaunches : ∀ n < bound, ∀ i, race.Launches n i →
      ((race.call i).engine.on (race.found n i)).1 = .ok () ∧
        ((status race.config).on ((race.call i).engine.on (race.found n i)).2).1 =
          .ok (.running (pids i))) : race.BehavesWell := by
  intro n i hlaunch
  have hbound : n < bound := Nat.lt_of_not_le fun hle =>
    not_launches_of_ended (hended i) hle hlaunch
  obtain ⟨hengine, hrunning⟩ := hlaunches n hbound i hlaunch
  exact ⟨_, pids i, on_eq_of_fst hengine, on_status_of_fst hrunning⟩

/-! ## before the first launch -/

/-- Nothing but the launch opens a session. -/
theorem dormant_step {call : Call} {config : SessionConfig} {stage : Stage} {machine : Machine}
    (hindex : ∀ m, call.index.OnlyReads m) (h : Dormant config machine) (hstage : stage ≠ .launching) :
    Dormant config (call.step config stage machine).2 := by
  cases stage with
  | checking =>
      rw [Call.step, machine_check]
      exact preserves_of_onlyReads (reads_status config) (fun _ reports h => h.reporting reports)
        machine h
  | clearing =>
      rw [Call.step, machine_after]
      exact dormant_clearStale machine h
  | preparing =>
      rw [Call.step, machine_after]
      exact dormant_prepare hindex call.executable machine h
  | launching => exact absurd rfl hstage
  | waiting deadline calls =>
      rw [Call.step]
      obtain ⟨pid, hask⟩ | ⟨reports, hask⟩ | ⟨reports, time, fewer, -, hask⟩ :=
        ask_cases config deadline calls machine <;> rw [hask]
      · exact h.reporting _
      · exact h.reporting _
      · exact ⟨h.tag, h.free, h.quiet⟩
  | ended outcome => exact h

section
variable (htags : ∀ i, IsName (race.call i).tag) (hindex : ∀ i m, (race.call i).index.OnlyReads m)
include htags

/-- A call finds the machine dormant if nobody else has launched. -/
theorem dormant_found (h : Dormant race.config (race.state n).machine) (i : ι) :
    Dormant race.config (race.found n i) := ⟨htags i, h.free, h.quiet⟩

include hindex

/-- **Before the first launch** no session is open. -/
theorem dormant_state (hstart : Dormant race.config race.machine)
    (hnone : ∀ m < n, ∀ i, ¬ race.Launches m i) : Dormant race.config (race.state n).machine := by
  induction n with
  | zero => exact hstart
  | succ n ih =>
      have hn := ih fun m hm => hnone m (Nat.lt_succ_of_lt hm)
      refine dormant_step (hindex _) (dormant_found htags hn _) fun hlaunch => ?_
      exact hnone n (Nat.lt_succ_self n) _ ⟨rfl, hlaunch⟩

/-- **A call that is refused** has looked after a launch. -/
theorem exists_launch_of_refused (hstart : Dormant race.config race.machine)
    (hrefused : race.Refused n j) (hnever : ∀ m, ¬ race.Launches m j) :
    ∃ n, race.Checks n j ∧ ∃ m < n, ∃ i, race.Launches m i := by
  obtain ⟨pid, hended⟩ := hrefused
  induction n with
  | zero => cases hended
  | succ n ih =>
      by_cases hturn : j = race.schedule n
      · have hlaunching : (race.state n).stage j ≠ .launching := fun h => hnever n ⟨hturn.symm, h⟩
        rw [hturn] at hlaunching ⊢
        rw [state, hturn, stage_advance_self] at hended
        obtain hbefore | ⟨hchecking, hrunning⟩ := refused_step hlaunching hended
        · exact hturn ▸ ih (hturn ▸ hbefore)
        · refine ⟨n, ⟨rfl, hchecking⟩, ?_⟩
          -- Were there no launch yet, no session would be open.
          refine Classical.byContradiction fun hnone => ?_
          have hdormant := dormant_state htags hindex hstart fun m hm i hlaunch =>
            hnone ⟨m, hm, i, hlaunch⟩
          exact (dormant_found htags hdormant _).not_running pid hrunning
      · rw [state, stage_advance_of_ne race _ hturn] at hended
        exact ih hended

end

/-! ## after a launch -/

/-- A session is open that one call has opened, and the others come late. -/
structure Held (race : Race ι) (i : ι) (state : State ι) : Prop where
  isOpen : IsOpen race.config state.machine
  opener : (state.stage i).Launched
  others : ∀ j, j ≠ i → (state.stage j).Late race.config.root

/-- **The session stays open**, and who looks for it is refused. -/
theorem Held.advance (h : race.Held i state) (j : ι) : race.Held i (race.advance j state) := by
  have hfound : IsOpen race.config ((race.call j).found state.machine) := h.isOpen
  by_cases hj : j = i
  · subst hj
    obtain ⟨hstage, hopen⟩ := launched_step (race.call j) h.opener hfound
    refine ⟨hopen, ?_, fun j' hj' => ?_⟩
    · rwa [stage_advance_self]
    · rw [stage_advance_of_ne race state hj']
      exact h.others j' hj'
  · obtain ⟨hstage, hopen⟩ := late_step (race.call j) (h.others j hj) hfound
    refine ⟨hopen, ?_, fun j' hj' => ?_⟩
    · rw [stage_advance_of_ne race state (Ne.symm hj)]
      exact h.opener
    · by_cases hturn : j' = j
      · subst hturn
        rwa [stage_advance_self]
      · rw [stage_advance_of_ne race state hturn]
        exact h.others j' hj'

/-- The launch opens a session. -/
theorem held_of_launches (hbehaves : race.BehavesWell) (hlaunch : race.Launches m i)
    (hothers : ∀ j, j ≠ i → (race.state m).stage j = .checking) :
    race.Held i (race.state (m + 1)) := by
  obtain ⟨launched, pid, hengine, hrunning⟩ := hbehaves m i hlaunch
  obtain ⟨htells, halive, -⟩ := status_running_iff.mp hrunning
  obtain ⟨rfl, hlaunching⟩ := hlaunch
  have hstep : (race.call (race.schedule m)).step race.config
      ((race.state m).stage (race.schedule m)) (race.found m (race.schedule m)) =
      (Call.awaiting launched, launched) := by
    rw [hlaunching, Call.step, hengine, Stage.after]
  have hmachine : (race.state (m + 1)).machine = launched := congrArg Prod.snd hstep
  refine ⟨?_, ?_, fun j hj => ?_⟩
  · rw [hmachine]
    exact ⟨pid, htells, halive⟩
  · rw [state, stage_advance_self, ← found, hstep]
    exact .inl ⟨_, _, rfl⟩
  · rw [state, stage_advance_of_ne race _ hj]
    exact .inl (hothers j hj)

/-- What a call holds it keeps. -/
theorem held_state (hheld : race.Held i (race.state m)) (hle : m ≤ n) : race.Held i (race.state n) := by
  induction hle with
  | refl => exact hheld
  | step _ ih => exact ih.advance _

/-- **One engine** is launched, and all other calls are refused, exactly if one call
launches it before the others look. -/
theorem oneEngine_iff (hstart : Dormant race.config race.machine)
    (htags : ∀ i, IsName (race.call i).tag) (hindex : ∀ i m, (race.call i).index.OnlyReads m)
    (hbehaves : race.BehavesWell) :
    race.OneEngine ↔
      ∃ i, ∀ j, j ≠ i → ∃ n, race.Checks n j ∧ ∃ m < n, race.Launches m i := by
  constructor
  · rintro ⟨i, hothers⟩
    refine ⟨i, fun j hj => ?_⟩
    obtain ⟨⟨n, hrefused⟩, hnever⟩ := hothers j hj
    obtain ⟨n, hchecks, m, hm, i', hlaunch⟩ :=
      exists_launch_of_refused htags hindex hstart hrefused hnever
    obtain rfl | hi' := Decidable.em (i' = i)
    · exact ⟨n, hchecks, m, hm, hlaunch⟩
    · exact absurd hlaunch ((hothers i' hi').2 m)
  · rintro ⟨i, hlate⟩
    refine ⟨i, fun j hj => ?_⟩
    obtain ⟨n, ⟨hturn, hchecking⟩, m, hm, hlaunch⟩ := hlate j hj
    have hheld : race.Held i (race.state (m + 1)) := by
      refine held_of_launches hbehaves hlaunch fun j' hj' => ?_
      obtain ⟨n', ⟨-, hchecking'⟩, m', hm', hlaunch'⟩ := hlate j' hj'
      obtain rfl := launches_unique hlaunch hlaunch'
      exact checking_of_le hchecking' (Nat.le_of_lt hm')
    constructor
    · -- Late already, the call looks for a session once more.
      have hopen : IsOpen race.config (race.found n j) := (held_state hheld hm).isOpen
      obtain ⟨pid, htells, halive⟩ := hopen
      refine ⟨n + 1, pid, ?_⟩
      rw [state, hturn, stage_advance_self, hchecking, Call.step, ← found,
        check_of_tells htells halive]
    · rintro n' ⟨-, hlaunching⟩
      obtain hbefore | hafter := Nat.lt_or_ge m n'
      · obtain hlate | ⟨pid, hlate⟩ := (held_state hheld hbefore).others j hj
        · cases hlate.symm.trans hlaunching
        · cases hlate.symm.trans hlaunching
      · cases (checking_of_le hchecking (Nat.le_of_lt (Nat.lt_of_le_of_lt hafter hm))).symm.trans
          hlaunching

end Race

/-! ## two calls -/

/-- A call whose engine tells of some process. -/
def callWith (tag spelled : Text) (pid : Nat) : Call where
  index := plainIndex
  executable := "/opt/tether"
  tag
  engine := do
    modify fun machine => { machine with
      programs := [(["bin", "lsyncd"],
        { writes := some (plainSession.pidPath, spelled), starts := [pid] })] }
    startEngine plainSession

/-- Two calls with an engine each. -/
def callOf (second : Bool) : Call :=
  if second then callWith "101" "42\n" 42 else callWith "100" "41\n" 41

/-- Two calls on a tree with a stale session, their steps in some order. -/
def twoCalls (schedule : Nat → Bool) : Race Bool := ⟨plainSession, callOf, schedule, staleMachine⟩

theorem dormant_staleMachine : Dormant plainSession staleMachine := by
  have hfind : staleMachine.disk.find staleMachine.environment.cwd true
      (Path.join plainSession.stateDirectory SessionFile.pid.name) =
      .ok (.found ["t", "s", SessionFile.pid.name] (.file ⟨1, Text.bytes "7\n", 0o644⟩)) := by
    decide +kernel
  obtain ⟨links, there, henters⟩ := Disk.exists_enters_of_find SessionFile.pid.isName hfind
  have hfree : LinkFree plainSession staleMachine :=
    Disk.linkFree_of_entries (by simp [staleMachine])
  have htag : IsName staleMachine.environment.processTag :=
    ⟨by decide, by decide, by decide, by decide, by decide⟩
  exact .of_settles htag (hfree.settles (.refl _) henters) fun pid _ => rfl

theorem isName_tag_callOf (i : Bool) : IsName (callOf i).tag := by
  cases i <;> exact ⟨by decide, by decide, by decide, by decide, by decide⟩

theorem onlyReads_index_callOf (i : Bool) (m : Machine) : (callOf i).index.OnlyReads m := by
  cases i <;> exact ⟨onlyReads_pure none, onlyReads_pure []⟩

instance (race : Race Bool) (n : Nat) (i : Bool) : Decidable (race.Launches n i) :=
  inferInstanceAs (Decidable (_ ∧ _))

/-- One call opens the session before the other one looks. -/
theorem oneEngine_inTurn : (twoCalls (5 < ·)).OneEngine := by
  have hbehaves : (twoCalls (5 < ·)).BehavesWell :=
    Race.behavesWell_of_ended (fun _ => 41) 7 (by decide +kernel) (by decide +kernel)
  refine (Race.oneEngine_iff dormant_staleMachine isName_tag_callOf onlyReads_index_callOf
    hbehaves).mpr ⟨false, fun j hj => ⟨6, ?_, 3, by decide, by decide +kernel⟩⟩
  obtain rfl : j = true := by simpa using hj
  exact ⟨rfl, by decide +kernel⟩

/-- Both calls look before one launches, so both launch, and an engine runs that no
process file tells of. -/
theorem two_engines_alternating :
    ∃ race : Race Bool, Dormant race.config race.machine ∧ (∀ i, IsName (race.call i).tag) ∧
      (∀ i m, (race.call i).index.OnlyReads m) ∧ race.BehavesWell ∧
      race.Launches 6 false ∧ race.Launches 7 true ∧ ¬ race.OneEngine ∧
      (race.state 8).machine.isAlive 41 = true ∧
      ((status race.config).on (race.state 8).machine).1 = .ok (.running 42) := by
  have hfirst : (twoCalls (· % 2 == 1)).Launches 6 false := by decide +kernel
  have hsecond : (twoCalls (· % 2 == 1)).Launches 7 true := by decide +kernel
  have hbehaves : (twoCalls (· % 2 == 1)).BehavesWell :=
    Race.behavesWell_of_ended (fun second => if second then 42 else 41) 10 (by decide +kernel)
      (by decide +kernel)
  refine ⟨twoCalls (· % 2 == 1), dormant_staleMachine, isName_tag_callOf, onlyReads_index_callOf,
    hbehaves, hfirst, hsecond, ?_, by decide +kernel, by decide +kernel⟩
  rintro ⟨i, hothers⟩
  cases i with
  | false => exact (hothers true nofun).2 7 hsecond
  | true => exact (hothers false nofun).2 6 hfirst

end TreeSync.Session
