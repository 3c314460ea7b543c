import TreeSync.Decimal.Double

/-!
# TreeSync.Settings

One layer of settings, and how layers are put together.

Every field is optional.  A layer put over another replaces the fields that it
sets and leaves the others; a list is replaced as a whole.
-/

namespace TreeSync

/-- One layer of settings. -/
structure Settings where
  host : Option Text := none
  remotePath : Option Text := none
  /-- Names of rule sources; an entry may be a list of its own. -/
  ignore : Option (List Text) := none
  /-- Seconds. -/
  delay : Option Double := none
  compress : Option Bool := none
  lsyncd : Option Text := none
  rsync : Option Text := none
  ssh : Option Text := none
  deriving DecidableEq, Repr

/-- The programs that a session runs. -/
structure Binaries where
  lsyncd : Text := "lsyncd"
  rsync : Text := "rsync"
  ssh : Text := "ssh"
  deriving DecidableEq, Repr

namespace Settings

/-- The layer that sets nothing. -/
def empty : Settings := {}

/-- Put the layer `upper` over the layer `lower`. -/
def merge (lower upper : Settings) : Settings where
  host := upper.host <|> lower.host
  remotePath := upper.remotePath <|> lower.remotePath
  ignore := upper.ignore <|> lower.ignore
  delay := upper.delay <|> lower.delay
  compress := upper.compress <|> lower.compress
  lsyncd := upper.lsyncd <|> lower.lsyncd
  rsync := upper.rsync <|> lower.rsync
  ssh := upper.ssh <|> lower.ssh

/-- The programs that a layer chooses, the usual ones where it sets nothing. -/
def binaries (settings : Settings) : Binaries where
  lsyncd := settings.lsyncd.getD "lsyncd".toList
  rsync := settings.rsync.getD "rsync".toList
  ssh := settings.ssh.getD "ssh".toList

@[simp] theorem empty_merge (s : Settings) : empty.merge s = s := by
  simp [empty, merge]

@[simp] theorem merge_empty (s : Settings) : s.merge empty = s := by
  simp [empty, merge]

@[simp] theorem binaries_empty : empty.binaries = {} := rfl

end Settings

end TreeSync
