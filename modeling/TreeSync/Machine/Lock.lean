/-!
# TreeSync.Machine.Lock

Advisory locks on files.

A lock belongs to a file and not to its path, and to one open handle.  Shared
holds of a file coexist; an exclusive hold is granted only when there is no
other hold of that file.
-/

namespace TreeSync

/-- How a file is held. -/
inductive LockMode
  | shared
  | exclusive
  deriving DecidableEq, Repr

/-- One granted lock. -/
structure Hold where
  /-- The identity of the file. -/
  file : Nat
  mode : LockMode
  /-- The handle that the lock was granted to. -/
  handle : Nat
  deriving DecidableEq, Repr

/-- All granted locks. -/
structure LockTable where
  holds : List Hold := []
  nextHandle : Nat := 0
  deriving DecidableEq, Repr

namespace LockTable

/-- True when a lock is granted at once. -/
def grants (table : LockTable) (file : Nat) : LockMode → Bool
  | .shared => table.holds.all fun hold => hold.file != file || hold.mode == .shared
  | .exclusive => table.holds.all fun hold => hold.file != file

/-- Grant a lock to a new handle. -/
def acquire (table : LockTable) (file : Nat) (mode : LockMode) : LockTable :=
  ⟨table.holds ++ [⟨file, mode, table.nextHandle⟩], table.nextHandle + 1⟩

/-- Take the lock of a handle back. -/
def release (table : LockTable) (handle : Nat) : LockTable :=
  { table with holds := table.holds.filter fun hold => hold.handle != handle }

/-- Take every lock of a file back, as when all its holders are waited for. -/
def drain (table : LockTable) (file : Nat) : LockTable :=
  { table with holds := table.holds.filter fun hold => hold.file != file }

/-- A file that was waited for is free. -/
theorem grants_drain (table : LockTable) (file : Nat) (mode : LockMode) :
    (table.drain file).grants file mode = true := by
  cases mode
  · simp only [grants, drain, List.all_filter, List.all_eq_true]
    intro hold _
    by_cases h : hold.file = file <;> simp [h]
  · simp [grants, drain, List.all_filter]

/-- An exclusive lock is granted only where a shared one is. -/
theorem grants_shared_of_exclusive {table : LockTable} {file : Nat}
    (h : table.grants file .exclusive = true) : table.grants file .shared = true := by
  simp only [grants, List.all_eq_true, Bool.or_eq_true] at *
  exact fun hold hm => .inl (h hold hm)

end LockTable

end TreeSync
