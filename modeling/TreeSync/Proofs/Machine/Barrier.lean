import TreeSync.Proofs.Machine.Interleaving

/-!
# TreeSync.Proofs.Machine.Barrier

A remote command never overlaps a transfer that was running when it was asked for,
whatever the parties and the order of their steps (`barrier_of_run`).

1. In every world of a run the locks on the file are those of the parties, and who
   holds it exclusively holds it alone (`World.Accounted`).
2. So a command gets past the barrier only when no transfer holds the lock, and a
   transfer that held it before has given it back (`finished_of_isPast`).
3. How the barrier is passed was settled when the lock was tried, and the user was
   told once or not at all accordingly (`history_of_run`).
-/

namespace TreeSync

variable {ι : Type} {file : Nat}

/-! ## what a party holds -/

namespace Party

/-- A party that holds a file holds it by its handle. -/
theorem hold?_eq_some {p : Party} {hold : Hold} (h : p.hold? file = some hold) :
    hold.file = file ∧ p.handle? = some hold.handle := by
  cases p with
  | transfer program stage =>
      cases stage with
      | running handle => rw [← Option.some.inj h]; exact ⟨rfl, rfl⟩
      | ended handle outcome => rw [← Option.some.inj h]; exact ⟨rfl, rfl⟩
      | starting => contradiction
      | finished handle outcome => contradiction
  | command notice program told stage =>
      cases stage with
      | passing handle pass => rw [← Option.some.inj h]; exact ⟨rfl, rfl⟩
      | starting => contradiction
      | asking => contradiction
      | refused => contradiction
      | waiting => contradiction
      | passed handle pass => contradiction
      | launched handle pass outcome => contradiction

/-- Without a handle there is no hold. -/
theorem hold?_of_handle?_eq_none {p : Party} (h : p.handle? = none) : p.hold? file = none := by
  cases hhold : p.hold? file with
  | none => rfl
  | some hold =>
      rw [(hold?_eq_some hhold).2] at h
      contradiction

/-- Who is starting has no handle yet. -/
theorem handle?_of_isStarting {p : Party} (h : p.isStarting = true) : p.handle? = none := by
  unfold isStarting at h
  split at h
  · rfl
  · rfl
  · contradiction

/-- A granted handle stays with its party. -/
theorem handle?_of_step {p p' : Party} {machine machine' : Machine} {handle : Nat}
    (h : p.step file machine = some (p', machine')) (hhandle : p.handle? = some handle) :
    p'.handle? = some handle := by
  cases lockEffect_of_step h with
  | nothing _ _ hsame => rw [hsame, hhandle]
  | take _ _ _ hnone =>
      rw [hnone] at hhandle
      contradiction
  | give _ _ _ _ hsame => rw [hsame, hhandle]

/-- A transfer stays one, of the same program. -/
theorem transfer_of_step {program : Deed (Except LaunchFault Ending)} {stage : TransferStage}
    {machine machine' : Machine} {p : Party}
    (h : (Party.transfer program stage).step file machine = some (p, machine')) :
    ∃ stage', p = .transfer program stage' := by
  cases stage with
  | starting =>
      rw [step] at h
      split at h
      · exact ⟨_, (Prod.mk.inj (Option.some.inj h)).1.symm⟩
      · contradiction
  | running handle => exact ⟨_, (Prod.mk.inj (Option.some.inj h)).1.symm⟩
  | ended handle outcome => exact ⟨_, (Prod.mk.inj (Option.some.inj h)).1.symm⟩
  | finished handle outcome => contradiction

/-- A transfer that was granted the lock and does not hold it is finished. -/
theorem finished_of_hold?_eq_none {program : Deed (Except LaunchFault Ending)}
    {stage : TransferStage} {handle : Nat}
    (hhandle : (Party.transfer program stage).handle? = some handle)
    (hhold : (Party.transfer program stage).hold? file = none) :
    ∃ outcome, stage = .finished handle outcome := by
  cases stage with
  | finished handle' outcome =>
      rw [← Option.some.inj hhandle]
      exact ⟨outcome, rfl⟩
  | starting => contradiction
  | running handle' => contradiction
  | ended handle' outcome => contradiction

end Party

/-! ## the locks of a world -/

namespace LockTable

variable {table : LockTable}

/-- An exclusive lock is granted where nobody holds the file. -/
theorem grants_exclusive_iff :
    table.grants file .exclusive = true ↔ ∀ hold ∈ table.holds, hold.file ≠ file := by
  simp [grants, bne_iff_ne]

/-- A shared lock is refused only where somebody holds the file alone. -/
theorem not_grants_shared_iff :
    table.grants file .shared = false ↔
      ∃ hold ∈ table.holds, hold.file = file ∧ hold.mode = .exclusive := by
  have hmode : ∀ mode : LockMode, mode ≠ .shared ↔ mode = .exclusive := by
    intro mode
    cases mode <;> simp
  simp only [grants, List.all_eq_false, Bool.or_eq_true, bne_iff_ne, beq_iff_eq, not_or,
    ne_eq, Decidable.not_not, hmode]

/-- Where a lock of either kind is granted, nobody holds the file alone. -/
theorem mode_ne_of_grants {mode : LockMode} {hold : Hold} (h : table.grants file mode = true)
    (hmem : hold ∈ table.holds) (hfile : hold.file = file) : hold.mode ≠ .exclusive := by
  intro hmode
  have hshared : table.grants file .shared = true := by
    cases mode with
    | shared => exact h
    | exclusive => exact grants_shared_of_exclusive h
  have hrefused : table.grants file .shared = false :=
    not_grants_shared_iff.mpr ⟨hold, hmem, hfile, hmode⟩
  rw [hshared] at hrefused
  contradiction

end LockTable

namespace World

/-- **The locks are accounted for**: what is held on the file is what the parties
hold, each under a handle of its own, and an exclusive holder is alone. -/
structure Accounted (file : Nat) (w : World ι) : Prop where
  held : ∀ hold, hold.file = file →
    (hold ∈ w.machine.locks.holds ↔ ∃ i, (w.party i).hold? file = some hold)
  fresh : ∀ i handle, (w.party i).handle? = some handle → handle < w.machine.locks.nextHandle
  apart : ∀ i j handle, (w.party i).handle? = some handle → (w.party j).handle? = some handle →
    i = j
  alone : ∀ i j hold hold', (w.party i).hold? file = some hold → hold.mode = .exclusive →
    (w.party j).hold? file = some hold' → i = j

/-- At the start every hold is accounted for. -/
theorem accounted_of_isStart {w : World ι} (h : w.IsStart file) : Accounted file w := by
  have hhandle : ∀ i, (w.party i).handle? = none := fun i => Party.handle?_of_isStarting (h.1 i)
  have hhold : ∀ i, (w.party i).hold? file = none :=
    fun i => Party.hold?_of_handle?_eq_none (hhandle i)
  refine ⟨?_, ?_, ?_, ?_⟩
  · intro hold hfile
    constructor
    · intro hmem
      exact absurd hfile (LockTable.grants_exclusive_iff.mp h.2 hold hmem)
    · intro hex
      obtain ⟨i, hi⟩ := hex
      rw [hhold i] at hi
      contradiction
  · intro i handle hi
    rw [hhandle i] at hi
    contradiction
  · intro i j handle hi
    rw [hhandle i] at hi
    contradiction
  · intro i j hold hold' hi
    rw [hhold i] at hi
    contradiction

/-- What leaves the locks and the parties' holds alone keeps the accounts. -/
theorem accounted_of_nothing {w w' : World ι} (h : Accounted file w)
    (hlocks : w'.machine.locks = w.machine.locks)
    (hhold : ∀ j, (w'.party j).hold? file = (w.party j).hold? file)
    (hhandle : ∀ j, (w'.party j).handle? = (w.party j).handle?) : Accounted file w' := by
  refine ⟨?_, ?_, ?_, ?_⟩
  · intro hold hfile
    rw [hlocks, h.held hold hfile]
    simp only [hhold]
  · intro i handle hi
    rw [hhandle] at hi
    rw [hlocks]
    exact h.fresh i handle hi
  · intro i j handle hi hj
    rw [hhandle] at hi hj
    exact h.apart i j handle hi hj
  · intro i j hold hold' hi hmode hj
    rw [hhold] at hi hj
    exact h.alone i j hold hold' hi hmode hj

variable [DecidableEq ι]

/-- A lock that is granted is a new hold, and of a kind that goes with the others. -/
theorem accounted_of_take {w : World ι} {i : ι} {p : Party} {machine : Machine}
    {mode : LockMode} (h : Accounted file w)
    (hgrants : w.machine.locks.grants file mode = true)
    (hlocks : machine.locks = w.machine.locks.acquire file mode)
    (hnone : (w.party i).handle? = none)
    (hhold : p.hold? file = some ⟨file, mode, w.machine.locks.nextHandle⟩) :
    Accounted file (w.after i p machine) := by
  have hhandle : p.handle? = some w.machine.locks.nextHandle := (Party.hold?_eq_some hhold).2
  have hholds : (w.after i p machine).machine.locks.holds =
      w.machine.locks.holds ++ [⟨file, mode, w.machine.locks.nextHandle⟩] := by
    show machine.locks.holds = _
    rw [hlocks]
    rfl
  -- The party was without the lock before, so every other hold is another party's.
  have hother : ∀ {j hold}, (w.party j).hold? file = some hold → j ≠ i := by
    intro j hold hj heq
    subst heq
    rw [Party.hold?_of_handle?_eq_none hnone] at hj
    contradiction
  have hcases : ∀ {j handle}, ((w.after i p machine).party j).handle? = some handle →
      (j ≠ i ∧ (w.party j).handle? = some handle ∧ handle < w.machine.locks.nextHandle) ∨
        (j = i ∧ handle = w.machine.locks.nextHandle) := by
    intro j handle hj
    by_cases hji : j = i
    · subst hji
      rw [party_after_self, hhandle] at hj
      exact Or.inr ⟨rfl, (Option.some.inj hj).symm⟩
    · rw [party_after_of_ne w hji] at hj
      exact Or.inl ⟨hji, hj, h.fresh j handle hj⟩
  refine ⟨?_, ?_, ?_, ?_⟩
  · intro hold hfile
    rw [hholds, List.mem_append, List.mem_singleton, h.held hold hfile]
    constructor
    · intro hor
      obtain ⟨j, hj⟩ | rfl := hor
      · exact ⟨j, by rw [party_after_of_ne w (hother hj)]; exact hj⟩
      · exact ⟨i, by rw [party_after_self]; exact hhold⟩
    · intro hex
      obtain ⟨j, hj⟩ := hex
      by_cases hji : j = i
      · subst hji
        rw [party_after_self, hhold] at hj
        exact Or.inr (Option.some.inj hj).symm
      · rw [party_after_of_ne w hji] at hj
        exact Or.inl ⟨j, hj⟩
  · intro j handle hj
    have hnext : (w.after i p machine).machine.locks.nextHandle =
        w.machine.locks.nextHandle + 1 := by
      show machine.locks.nextHandle = _
      rw [hlocks]
      rfl
    rw [hnext]
    obtain ⟨-, -, hlt⟩ | ⟨-, rfl⟩ := hcases hj <;> omega
  · intro j k handle hj hk
    obtain ⟨-, hj, hlt⟩ | ⟨rfl, hj⟩ := hcases hj
    · obtain ⟨-, hk, -⟩ | ⟨-, hk⟩ := hcases hk
      · exact h.apart j k handle hj hk
      · omega
    · obtain ⟨-, -, hlt⟩ | ⟨rfl, -⟩ := hcases hk
      · omega
      · rfl
  · intro j k hold hold' hj hmode hk
    by_cases hji : j = i
    · subst hji
      rw [party_after_self, hhold] at hj
      have hexclusive : mode = .exclusive := by rw [← hmode, ← Option.some.inj hj]
      rw [hexclusive] at hgrants
      by_cases hkj : k = j
      · exact hkj.symm
      · rw [party_after_of_ne w hkj] at hk
        have hfile : hold'.file = file := (Party.hold?_eq_some hk).1
        have hmem : hold' ∈ w.machine.locks.holds := (h.held hold' hfile).mpr ⟨k, hk⟩
        exact absurd hfile (LockTable.grants_exclusive_iff.mp hgrants hold' hmem)
    · rw [party_after_of_ne w hji] at hj
      have hfile : hold.file = file := (Party.hold?_eq_some hj).1
      have hmem : hold ∈ w.machine.locks.holds := (h.held hold hfile).mpr ⟨j, hj⟩
      exact absurd hmode (LockTable.mode_ne_of_grants hgrants hmem hfile)

/-- A lock that is given back is the party's own, and no other goes with it. -/
theorem accounted_of_give {w : World ι} {i : ι} {p : Party} {machine : Machine} {hold : Hold}
    (h : Accounted file w) (hhold : (w.party i).hold? file = some hold)
    (hlocks : machine.locks = w.machine.locks.release hold.handle)
    (hnone : p.hold? file = none) (hhandle : p.handle? = (w.party i).handle?) :
    Accounted file (w.after i p machine) := by
  have hmine : (w.party i).handle? = some hold.handle := (Party.hold?_eq_some hhold).2
  have hhandles := map_party_after Party.handle? w hhandle machine
  have hothers : ∀ {j hold'}, ((w.after i p machine).party j).hold? file = some hold' →
      j ≠ i ∧ (w.party j).hold? file = some hold' := by
    intro j hold' hj
    by_cases hji : j = i
    · subst hji
      rw [party_after_self, hnone] at hj
      contradiction
    · rw [party_after_of_ne w hji] at hj
      exact ⟨hji, hj⟩
  refine ⟨?_, ?_, ?_, ?_⟩
  · intro hold' hfile
    have hmem : hold' ∈ (w.after i p machine).machine.locks.holds ↔
        hold' ∈ w.machine.locks.holds ∧ hold'.handle ≠ hold.handle := by
      show hold' ∈ machine.locks.holds ↔ _
      rw [hlocks, LockTable.release, List.mem_filter, bne_iff_ne]
    rw [hmem, h.held hold' hfile]
    constructor
    · intro hex
      obtain ⟨⟨j, hj⟩, hne⟩ := hex
      have hji : j ≠ i := by
        intro heq
        subst heq
        rw [hhold] at hj
        exact hne (by rw [Option.some.inj hj])
      exact ⟨j, by rw [party_after_of_ne w hji]; exact hj⟩
    · intro hex
      obtain ⟨j, hj⟩ := hex
      obtain ⟨hji, hj⟩ := hothers hj
      refine ⟨⟨j, hj⟩, fun heq => hji ?_⟩
      exact h.apart j i hold.handle (heq ▸ (Party.hold?_eq_some hj).2) hmine
  · intro j handle hj
    rw [hhandles] at hj
    show handle < machine.locks.nextHandle
    rw [hlocks]
    exact h.fresh j handle hj
  · intro j k handle hj hk
    rw [hhandles] at hj hk
    exact h.apart j k handle hj hk
  · intro j k hold₁ hold₂ hj hmode hk
    exact h.alone j k hold₁ hold₂ (hothers hj).2 hmode (hothers hk).2

/-- **Every step keeps the accounts.** -/
theorem accounted_of_next {w w' : World ι} (h : Accounted file w) (hnext : Next file w w') :
    Accounted file w' := by
  cases hnext with
  | act i p machine hstep =>
      cases Party.lockEffect_of_step hstep with
      | nothing hlocks hhold hhandle =>
          apply accounted_of_nothing h hlocks
          · exact map_party_after (Party.hold? file) w hhold machine
          · exact map_party_after Party.handle? w hhandle machine
      | take mode hgrants hlocks hnone hhold => exact accounted_of_take h hgrants hlocks hnone hhold
      | give hold hhold hlocks hnone hhandle =>
          exact accounted_of_give h hhold hlocks hnone hhandle
  | elsewhere machine hlocks => exact accounted_of_nothing h hlocks (fun _ => rfl) fun _ => rfl

/-- **In every world of a run** each hold is that of a party. -/
theorem accounted_of_run {w : Nat → World ι} (h : IsRun file w) (n : Nat) :
    Accounted file (w n) := by
  induction n with
  | zero => exact accounted_of_isStart h.start
  | succ n ih => exact accounted_of_next ih (h.next n)

omit [DecidableEq ι] in
/-- The file would be granted exclusively just when no party holds it. -/
theorem grants_exclusive_iff_hold? {w : World ι} (h : Accounted file w) :
    w.machine.locks.grants file .exclusive = true ↔ ∀ i, (w.party i).hold? file = none := by
  rw [LockTable.grants_exclusive_iff]
  constructor
  · intro hfree i
    cases hi : (w.party i).hold? file with
    | none => rfl
    | some hold =>
        have hfile : hold.file = file := (Party.hold?_eq_some hi).1
        exact absurd hfile (hfree hold ((h.held hold hfile).mpr ⟨i, hi⟩))
  · intro hnone hold hmem hfile
    obtain ⟨i, hi⟩ := (h.held hold hfile).mp hmem
    rw [hnone i] at hi
    contradiction

omit [DecidableEq ι] in
/-- What a party has given back is not in the table. -/
theorem handle_ne_of_hold?_eq_none {w : World ι} (h : Accounted file w) {i : ι} {handle : Nat}
    (hhandle : (w.party i).handle? = some handle) (hnone : (w.party i).hold? file = none) :
    ∀ hold ∈ w.machine.locks.holds, hold.file = file → hold.handle ≠ handle := by
  intro hold hmem hfile heq
  subst heq
  obtain ⟨j, hj⟩ := (h.held hold hfile).mp hmem
  have hij : i = j := h.apart i j hold.handle hhandle (Party.hold?_eq_some hj).2
  rw [hij, hj] at hnone
  contradiction

/-- What happens next to one party: nothing, or its own step. -/
theorem party_of_next {w w' : World ι} (h : Next file w w') (c : ι) :
    w'.party c = w.party c ∨
      ∃ p machine, (w.party c).step file w.machine = some (p, machine) ∧ w'.party c = p := by
  cases h with
  | act i p machine hstep =>
      by_cases hci : c = i
      · subst hci
        exact Or.inr ⟨p, machine, hstep, party_after_self w c p machine⟩
      · exact Or.inl (party_after_of_ne w hci p machine)
  | elsewhere machine hlocks => exact Or.inl rfl

end World

/-! ## the moves of a command -/

namespace CommandStage

/-- How the barrier is passed, settled when the lock was tried. -/
def verdict? : CommandStage → Option BarrierPass
  | .starting => none
  | .asking => none
  | .refused => some .waited
  | .waiting => some .waited
  | .passing _ pass => some pass
  | .passed _ pass => some pass
  | .launched _ pass _ => some pass

/-- How often the user has been told to wait. -/
def tells : CommandStage → Nat
  | .waiting => 1
  | .passing _ .waited => 1
  | .passed _ .waited => 1
  | .launched _ .waited _ => 1
  | _ => 0

/-- True once the lock was granted. -/
def isPast : CommandStage → Bool
  | .passing .. => true
  | .passed .. => true
  | .launched .. => true
  | _ => false

/-- The handle that the lock was granted with and how the barrier was passed, once it
has returned. -/
def returned? : CommandStage → Option (Nat × BarrierPass)
  | .passed handle pass => some (handle, pass)
  | .launched handle pass _ => some (handle, pass)
  | _ => none

/-- A step of a command; `granted` tells whether the exclusive lock would be granted. -/
inductive Move (granted : Bool) : Nat × CommandStage → Nat × CommandStage → Prop
  | call (told : Nat) : Move granted (told, .starting) (told, .asking)
  | get (told handle : Nat) (h : granted = true) :
      Move granted (told, .asking) (told, .passing handle .immediate)
  | miss (told : Nat) (h : granted = false) : Move granted (told, .asking) (told, .refused)
  | tell (told : Nat) : Move granted (told, .refused) (told + 1, .waiting)
  | wait (told handle : Nat) (h : granted = true) :
      Move granted (told, .waiting) (told, .passing handle .waited)
  | pass (told handle : Nat) (pass : BarrierPass) :
      Move granted (told, .passing handle pass) (told, .passed handle pass)
  | launch (told handle : Nat) (pass : BarrierPass) (outcome : Except LaunchFault Ending) :
      Move granted (told, .passed handle pass) (told, .launched handle pass outcome)

/-- A command moves on as the lock table lets it. -/
theorem move_of_step {notice : Deed Unit} {program : Deed (Except LaunchFault Ending)}
    {told : Nat} {stage : CommandStage} {machine machine' : Machine} {p : Party}
    (h : (Party.command notice program told stage).step file machine = some (p, machine')) :
    ∃ told' stage', p = .command notice program told' stage' ∧
      Move (machine.locks.grants file .exclusive) (told, stage) (told', stage') := by
  cases stage with
  | starting =>
      obtain ⟨rfl, -⟩ := Prod.mk.inj (Option.some.inj h)
      exact ⟨_, _, rfl, .call told⟩
  | asking =>
      by_cases hgrants : machine.locks.grants file .exclusive = true
      · rw [Party.step, if_pos hgrants] at h
        obtain ⟨rfl, -⟩ := Prod.mk.inj (Option.some.inj h)
        exact ⟨_, _, rfl, .get told _ hgrants⟩
      · rw [Party.step, if_neg hgrants] at h
        obtain ⟨rfl, -⟩ := Prod.mk.inj (Option.some.inj h)
        exact ⟨_, _, rfl, .miss told (Bool.not_eq_true _ ▸ hgrants)⟩
  | refused =>
      obtain ⟨rfl, -⟩ := Prod.mk.inj (Option.some.inj h)
      exact ⟨_, _, rfl, .tell told⟩
  | waiting =>
      by_cases hgrants : machine.locks.grants file .exclusive = true
      · rw [Party.step, if_pos hgrants] at h
        obtain ⟨rfl, -⟩ := Prod.mk.inj (Option.some.inj h)
        exact ⟨_, _, rfl, .wait told _ hgrants⟩
      · rw [Party.step, if_neg hgrants] at h
        contradiction
  | passing handle pass =>
      obtain ⟨rfl, -⟩ := Prod.mk.inj (Option.some.inj h)
      exact ⟨_, _, rfl, .pass told handle pass⟩
  | passed handle pass =>
      obtain ⟨rfl, -⟩ := Prod.mk.inj (Option.some.inj h)
      exact ⟨_, _, rfl, .launch told handle pass _⟩
  | launched handle pass outcome => contradiction

variable {granted : Bool} {told told' : Nat} {stage stage' : CommandStage}

/-- The user is told on the way from being refused to waiting, and nowhere else. -/
theorem tells_of_move (h : Move granted (told, stage) (told', stage'))
    (htold : told = stage.tells) : told' = stage'.tells := by
  cases h with
  | call => exact htold
  | get => exact htold
  | miss => exact htold
  | tell => rw [htold]; rfl
  | wait => exact htold
  | pass _ handle pass => cases pass <;> exact htold
  | launch _ handle pass outcome => cases pass <;> exact htold

/-- What was settled stays so. -/
theorem verdict?_of_move (h : Move granted (told, stage) (told', stage'))
    (hasking : stage ≠ .asking) : stage'.verdict? = stage.verdict? := by
  cases h with
  | get => exact absurd rfl hasking
  | miss => exact absurd rfl hasking
  | call => rfl
  | tell => rfl
  | wait => rfl
  | pass => rfl
  | launch => rfl

/-- The lock is granted to whom gets past. -/
theorem granted_of_move (h : Move granted (told, stage) (told', stage'))
    (hstage : stage.isPast = false) (hpast : stage'.isPast = true) : granted = true := by
  cases h with
  | get _ _ h => exact h
  | wait _ _ h => exact h
  | call => contradiction
  | miss => contradiction
  | tell => contradiction
  | pass => contradiction
  | launch => contradiction

/-- The try settles how the barrier is passed. -/
theorem verdict?_of_try (h : Move granted (told, .asking) (told', stage')) :
    told' = told ∧ stage' ≠ .asking ∧
      ∃ pass, stage'.verdict? = some pass ∧ (pass = .immediate ↔ granted = true) := by
  cases h with
  | get _ handle h => exact ⟨rfl, by simp, .immediate, rfl, by simp [h]⟩
  | miss _ h => exact ⟨rfl, by simp, .waited, rfl, by simp [h]⟩

/-- A command whose barrier has returned holds nothing. -/
theorem of_returned? {handle : Nat} {pass : BarrierPass}
    (h : stage.returned? = some (handle, pass)) (notice : Deed Unit)
    (program : Deed (Except LaunchFault Ending)) (told : Nat) :
    stage.verdict? = some pass ∧ stage.isPast = true ∧
      stage.tells = (match pass with | .immediate => 0 | .waited => 1) ∧
      (Party.command notice program told stage).handle? = some handle ∧
      (Party.command notice program told stage).hold? file = none := by
  cases stage with
  | passed handle' pass' =>
      obtain ⟨rfl, rfl⟩ := Prod.mk.inj (Option.some.inj h)
      cases pass' <;> exact ⟨rfl, rfl, rfl, rfl, rfl⟩
  | launched handle' pass' outcome =>
      obtain ⟨rfl, rfl⟩ := Prod.mk.inj (Option.some.inj h)
      cases pass' <;> exact ⟨rfl, rfl, rfl, rfl, rfl⟩
  | starting => contradiction
  | asking => contradiction
  | refused => contradiction
  | waiting => contradiction
  | passing handle' pass' => contradiction

end CommandStage

namespace Party

/-- True of a command that was granted the lock. -/
def isPast : Party → Bool
  | .transfer .. => false
  | .command _ _ _ stage => stage.isPast

/-- True of a command inside the barrier that holds the lock. -/
def isPassing : Party → Bool
  | .command _ _ _ (.passing ..) => true
  | _ => false

/-- A command gets past the barrier only where the exclusive lock is granted. -/
theorem grants_of_isPast {p p' : Party} {machine machine' : Machine}
    (h : p.step file machine = some (p', machine')) (hp : p.isPast = false)
    (hp' : p'.isPast = true) : machine.locks.grants file .exclusive = true := by
  cases p with
  | transfer program stage =>
      obtain ⟨stage', rfl⟩ := transfer_of_step h
      contradiction
  | command notice program told stage =>
      obtain ⟨told', stage', rfl, hmove⟩ := CommandStage.move_of_step h
      exact CommandStage.granted_of_move hmove hp hp'

/-- Only a command that is passing holds a file alone. -/
theorem isPassing_of_exclusive {p : Party} {hold : Hold} (h : p.hold? file = some hold)
    (hmode : hold.mode = .exclusive) : p.isPassing = true := by
  unfold hold? at h
  split at h
  · rw [← Option.some.inj h] at hmode
    contradiction
  · rw [← Option.some.inj h] at hmode
    contradiction
  · rfl
  · contradiction

end Party

/-! ## the history of a command -/

variable [DecidableEq ι]

namespace World

/-- The command calls the barrier. -/
def Called (w : Nat → World ι) (c : ι) (n : Nat) : Prop :=
  ∃ notice program, (w n).party c = .command notice program 0 .starting ∧
    (w (n + 1)).party c = .command notice program 0 .asking

/-- The command tries the lock. -/
def Tried (w : Nat → World ι) (c : ι) (n : Nat) : Prop :=
  ∃ notice program stage, (w n).party c = .command notice program 0 .asking ∧
    (w (n + 1)).party c = .command notice program 0 stage ∧ stage ≠ .asking

/-- **The history of a command**: it has called the barrier before it asks for the
lock, and it has tried the lock before anything is settled; and what is settled says
whether the lock was granted then. -/
theorem history_of_run {w : Nat → World ι} (hrun : IsRun file w) (c : ι) (n : Nat) :
    ∀ {notice program told stage}, (w n).party c = .command notice program told stage →
      told = stage.tells ∧
        (stage = .asking → ∃ called, called < n ∧ Called w c called) ∧
        ∀ pass, stage.verdict? = some pass →
          ∃ called tried, called < tried ∧ tried < n ∧ Called w c called ∧ Tried w c tried ∧
            (pass = .immediate ↔ (w tried).machine.locks.grants file .exclusive = true) := by
  induction n with
  | zero =>
      intro notice program told stage hc
      have hstart := hrun.start.1 c
      rw [hc] at hstart
      cases told with
      | zero =>
          cases stage with
          | starting => exact ⟨rfl, fun h => by contradiction, fun pass h => by contradiction⟩
          | asking => contradiction
          | refused => contradiction
          | waiting => contradiction
          | passing handle pass => contradiction
          | passed handle pass => contradiction
          | launched handle pass outcome => contradiction
      | succ told => cases stage <;> contradiction
  | succ n ih =>
      intro notice program told stage hc
      obtain hsame | ⟨p, machine, hstep, hp⟩ := party_of_next (hrun.next n) c
      · rw [hc] at hsame
        obtain ⟨htold, hasking, hverdict⟩ := ih hsame.symm
        refine ⟨htold, fun h => ?_, fun pass h => ?_⟩
        · obtain ⟨called, hlt, hcalled⟩ := hasking h
          exact ⟨called, by omega, hcalled⟩
        · obtain ⟨called, tried, hlt, hlt', hhistory⟩ := hverdict pass h
          exact ⟨called, tried, hlt, by omega, hhistory⟩
      · rw [hc] at hp
        cases hbefore : (w n).party c with
        | transfer transfer before =>
            rw [hbefore] at hstep
            obtain ⟨after, rfl⟩ := Party.transfer_of_step hstep
            contradiction
        | command notice' program' told' before =>
            rw [hbefore] at hstep
            obtain ⟨_, _, rfl, hmove⟩ := CommandStage.move_of_step hstep
            obtain ⟨rfl, rfl, rfl, rfl⟩ := Party.command.inj hp
            obtain ⟨htold, hasking, hverdict⟩ := ih hbefore
            refine ⟨CommandStage.tells_of_move hmove htold, ?_, ?_⟩
            · intro heq
              subst heq
              -- Only the call leads to asking.
              cases hmove with
              | call =>
                  have hzero : told = 0 := htold
                  subst hzero
                  exact ⟨n, Nat.lt_succ_self n, notice, program, hbefore, hc⟩
            · intro pass hpass
              by_cases hask : before = .asking
              · subst hask
                obtain ⟨called, hlt, hcalled⟩ := hasking rfl
                obtain ⟨rfl, hne, pass', hpass', hgranted⟩ := CommandStage.verdict?_of_try hmove
                have hzero : told = 0 := htold
                subst hzero
                rw [hpass] at hpass'
                rw [← Option.some.inj hpass'] at hgranted
                exact ⟨called, n, hlt, Nat.lt_succ_self n, hcalled,
                  ⟨notice, program, stage, hbefore, hc, hne⟩, hgranted⟩
              · rw [CommandStage.verdict?_of_move hmove hask] at hpass
                obtain ⟨called, tried, hlt, hlt', hhistory⟩ := hverdict pass hpass
                exact ⟨called, tried, hlt, by omega, hhistory⟩

/-! ## the transfers before it -/

/-- **A command gets past only after the transfers before it**: one that had the lock
while the command was not past is still itself, and it is finished when the command
is past. -/
theorem finished_of_isPast {w : Nat → World ι} (hrun : IsRun file w) {c r : ι} {m n : Nat}
    (hmn : m ≤ n) {program : Deed (Except LaunchFault Ending)} {stage : TransferStage}
    {handle : Nat} (hr : (w m).party r = .transfer program stage)
    (hhandle : ((w m).party r).handle? = some handle) (hc : ((w m).party c).isPast = false) :
    ∃ stage', (w n).party r = .transfer program stage' ∧
      ((w n).party r).handle? = some handle ∧
      (((w n).party c).isPast = true → ∃ outcome, stage' = .finished handle outcome) := by
  induction hmn with
  | refl => exact ⟨stage, hr, hhandle, fun h => by rw [hc] at h; contradiction⟩
  | @step n hle ih =>
      obtain ⟨before, hbefore, hhandle', hfinished⟩ := ih
      have hdone : ((w (n + 1)).party c).isPast = true →
          ∃ outcome, before = .finished handle outcome := by
        intro hpast
        obtain hsame | ⟨p, machine, hstep, hp⟩ := party_of_next (hrun.next n) c
        · rw [hsame] at hpast
          exact hfinished hpast
        · cases hnow : ((w n).party c).isPast with
          | true => exact hfinished hnow
          | false =>
              rw [hp] at hpast
              have hgrants := Party.grants_of_isPast hstep hnow hpast
              rw [hbefore] at hhandle'
              apply Party.finished_of_hold?_eq_none hhandle'
              rw [← hbefore]
              exact (grants_exclusive_iff_hold? (accounted_of_run hrun n)).mp hgrants r
      obtain hsame | ⟨p, machine, hstep, hp⟩ := party_of_next (hrun.next n) r
      · rw [hsame]
        exact ⟨before, hbefore, hhandle', hdone⟩
      · have hhandle'' := Party.handle?_of_step hstep hhandle'
        rw [hbefore] at hstep
        obtain ⟨after, rfl⟩ := Party.transfer_of_step hstep
        rw [hp]
        refine ⟨after, rfl, hhandle'', fun hpast => ?_⟩
        obtain ⟨outcome, rfl⟩ := hdone hpast
        contradiction

/-! ## the barrier -/

/-- **A remote command never overlaps an earlier transfer**, in any run of any parties
at one lock file.  A command whose barrier has returned has called it and tried the
lock, and

* every transfer that held the lock at the call is finished and has given it back;
* the barrier was passed after waiting, the user told once, if another party held the
  lock at the try, and at once, the user not told, if none did;
* the command holds nothing, and a transfer that has to wait for the lock waits for
  another command, one that is inside its barrier. -/
theorem barrier_of_run {w : Nat → World ι} (hrun : IsRun file w) {n : Nat} {c : ι}
    {notice : Deed Unit} {program : Deed (Except LaunchFault Ending)} {told : Nat}
    {stage : CommandStage} {handle : Nat} {pass : BarrierPass}
    (hc : (w n).party c = .command notice program told stage)
    (hreturned : stage.returned? = some (handle, pass)) :
    ∃ called tried, called < tried ∧ tried < n ∧ Called w c called ∧ Tried w c tried ∧
      (∀ r transfer before hold, (w called).party r = .transfer transfer before →
        ((w called).party r).hold? file = some hold →
          (∃ outcome, (w n).party r = .transfer transfer (.finished hold.handle outcome)) ∧
          hold ∉ (w n).machine.locks.holds) ∧
      (pass = .waited ∧ told = 1 ↔ ∃ j, j ≠ c ∧ ((w tried).party j).hold? file ≠ none) ∧
      (pass = .immediate ∧ told = 0 ↔ ∀ j, j ≠ c → ((w tried).party j).hold? file = none) ∧
      (∀ hold ∈ (w n).machine.locks.holds, hold.file = file → hold.handle ≠ handle) ∧
      ∀ t transfer, (w n).party t = .transfer transfer .starting →
        ((w n).party t).step file (w n).machine = none →
          ∃ d, d ≠ c ∧ ((w n).party d).isPassing = true := by
  obtain ⟨hverdict, hpast, htells, hhandle, hhold⟩ :=
    CommandStage.of_returned? hreturned notice program told
  obtain ⟨htold, -, hsettled⟩ := history_of_run hrun c n hc
  obtain ⟨called, tried, hct, htn, hcalled, htried, hgranted⟩ := hsettled pass hverdict
  rw [← hc] at hhandle hhold
  have haccounted := accounted_of_run hrun n
  have hfree : pass = .immediate ↔ ∀ j, j ≠ c → ((w tried).party j).hold? file = none := by
    obtain ⟨_, _, _, hasking, -, -⟩ := htried
    rw [hgranted, grants_exclusive_iff_hold? (accounted_of_run hrun tried)]
    constructor
    · exact fun h j _ => h j
    · intro h j
      by_cases hjc : j = c
      · rw [hjc, hasking]
        rfl
      · exact h j hjc
  refine ⟨called, tried, hct, htn, hcalled, htried, ?_, ?_, ?_, ?_, ?_⟩
  · intro r transfer before hold hr hheld
    obtain ⟨_, _, hstarting, -⟩ := hcalled
    obtain ⟨hfile, hmine⟩ := Party.hold?_eq_some hheld
    obtain ⟨after, hafter, hstill, hfinished⟩ := finished_of_isPast hrun
      (Nat.le_of_lt (Nat.lt_trans hct htn)) hr hmine (by rw [hstarting]; rfl)
    obtain ⟨outcome, rfl⟩ := hfinished (by rw [hc]; exact hpast)
    refine ⟨⟨outcome, hafter⟩, fun hmem => ?_⟩
    have hgiven : ((w n).party r).hold? file = none := by rw [hafter]; rfl
    exact handle_ne_of_hold?_eq_none haccounted hstill hgiven hold hmem hfile rfl
  · have hsomebody : (∃ j, j ≠ c ∧ ((w tried).party j).hold? file ≠ none) ↔
        ¬ pass = .immediate := by
      rw [hfree]
      simp
    rw [hsomebody, htold, htells]
    cases pass <;> simp
  · rw [← hfree, htold, htells]
    cases pass <;> simp
  · exact handle_ne_of_hold?_eq_none haccounted hhandle hhold
  · intro t transfer ht hblocked
    rw [ht, Party.step] at hblocked
    cases hgrants : (w n).machine.locks.grants file .shared with
    | true =>
        rw [if_pos hgrants] at hblocked
        contradiction
    | false =>
        obtain ⟨hold, hmem, hfile, hmode⟩ := LockTable.not_grants_shared_iff.mp hgrants
        obtain ⟨d, hd⟩ := (haccounted.held hold hfile).mp hmem
        refine ⟨d, ?_, Party.isPassing_of_exclusive hd hmode⟩
        intro heq
        subst heq
        rw [hhold] at hd
        contradiction

/-- A transfer and a command, before their first steps. -/
def transferAndCommand : World Bool where
  machine := {}
  party
    | false => .transfer (.launch none "rsync" []) .starting
    | true => .command (.notice "waiting\n") (.launch none "ssh" []) 0 .starting

/-- The run in which the command calls the barrier while the transfer is running. -/
def waitingRun : Nat → World Bool :=
  play 0 (fun n => [false, true, true, true, false, false, true, true, true][n]?)
    transferAndCommand

/-- A run in which a command waits for a transfer, and is told so once. -/
theorem barrier_of_waitingRun :
    IsRun 0 waitingRun ∧
      (waitingRun 9).party true = .command (.notice "waiting\n") (.launch none "ssh" []) 1
        (.launched 1 .waited (.error (.disk .notFound))) ∧
      CommandStage.returned? (.launched 1 .waited (.error (.disk .notFound))) =
        some (1, .waited) ∧
      ∃ called tried, called < tried ∧ tried < 9 ∧ Called waitingRun true called ∧
        Tried waitingRun true tried ∧
        (∀ r transfer before hold, (waitingRun called).party r = .transfer transfer before →
          ((waitingRun called).party r).hold? 0 = some hold →
            (∃ outcome, (waitingRun 9).party r =
              .transfer transfer (.finished hold.handle outcome)) ∧
            hold ∉ (waitingRun 9).machine.locks.holds) ∧
        (BarrierPass.waited = .waited ∧ 1 = 1 ↔
          ∃ j, j ≠ true ∧ ((waitingRun tried).party j).hold? 0 ≠ none) ∧
        (BarrierPass.waited = .immediate ∧ 1 = 0 ↔
          ∀ j, j ≠ true → ((waitingRun tried).party j).hold? 0 = none) ∧
        (∀ hold ∈ (waitingRun 9).machine.locks.holds, hold.file = 0 → hold.handle ≠ 1) ∧
        ∀ t transfer, (waitingRun 9).party t = .transfer transfer .starting →
          ((waitingRun 9).party t).step 0 (waitingRun 9).machine = none →
            ∃ d, d ≠ true ∧ ((waitingRun 9).party d).isPassing = true :=
  have hrun : IsRun 0 waitingRun := isRun_play ⟨by decide, by decide⟩ _
  ⟨hrun, rfl, rfl, barrier_of_run hrun rfl rfl⟩

end World

end TreeSync
