import TreeSync.Session.Resolve
import TreeSync.Proofs.Machine.Action

/-!
# TreeSync.Proofs.Session.Layering

Layers of settings, and where each field of a resolved session comes from.

1. Putting a layer over another is associative, and the last layer of a list that sets a
   field decides it (`Settings.foldl_merge_eq`).
2. Entries that name sources name those of their text joined at commas
   (`Resolve.sourcesOf_eq`).
3. A session is resolved from three layers: the settings file of the user, that of the tree
   (`Resolve.FileSays`), and the git configuration (`Resolve.GitSays`).  Every field is
   chosen by itself, and defaults come last (`Resolve.Chosen`).
-/

namespace TreeSync

open TreeSync.Action

/-! ## layers -/

attribute [ext] Settings

namespace Settings

variable {α : Type} {field : Settings → Option α}

/-- Layers can be merged from either end. -/
theorem merge_assoc (a b c : Settings) : (a.merge b).merge c = a.merge (b.merge c) := by
  simp [merge, Option.or_assoc]

/-- A layer over itself is the layer. -/
theorem merge_self (a : Settings) : a.merge a = a := by
  simp [merge]

/-- What the last layer that sets a field sets it to. -/
def lastSet (field : Settings → Option α) (layers : List Settings) : Option α :=
  layers.reverse.findSome? field

/-- The last layer with a value counts, or else the first one. -/
theorem lastSet_cons (layer : Settings) (layers : List Settings) :
    lastSet field (layer :: layers) = (lastSet field layers <|> field layer) := by
  simp [lastSet, List.findSome?_append]

/-- A field in which the upper of two layers wins. -/
def Overrides (field : Settings → Option α) : Prop :=
  ∀ lower upper, field (lower.merge upper) = (field upper <|> field lower)

/-- **The last layer that sets a field** decides it. -/
theorem Overrides.foldl_merge (h : Overrides field) (layers : List Settings) (lowest : Settings) :
    field (layers.foldl merge lowest) = (lastSet field layers <|> field lowest) := by
  induction layers generalizing lowest with
  | nil => rfl
  | cons layer layers ih =>
      rw [List.foldl_cons, ih, h, lastSet_cons]
      simp [Option.or_assoc]

theorem foldl_merge_eq (layers : List Settings) :
    layers.foldl merge empty =
      { host := lastSet host layers
        remotePath := lastSet remotePath layers
        ignore := lastSet ignore layers
        delay := lastSet delay layers
        compress := lastSet compress layers
        lsyncd := lastSet lsyncd layers
        rsync := lastSet rsync layers
        ssh := lastSet ssh layers } := by
  have hfield : ∀ {α : Type} (field : Settings → Option α), Overrides field →
      field empty = none → field (layers.foldl merge empty) = lastSet field layers := by
    intro α field hoverrides hempty
    rw [hoverrides.foldl_merge, hempty]
    simp
  exact Settings.ext (hfield host (fun _ _ => rfl) rfl) (hfield remotePath (fun _ _ => rfl) rfl)
    (hfield ignore (fun _ _ => rfl) rfl) (hfield delay (fun _ _ => rfl) rfl)
    (hfield compress (fun _ _ => rfl) rfl) (hfield lsyncd (fun _ _ => rfl) rfl)
    (hfield rsync (fun _ _ => rfl) rfl) (hfield ssh (fun _ _ => rfl) rfl)

end Settings

/-! ## sources -/

namespace Resolve

/-- **Entries that name sources** name those of their commas: it does not matter how the
list is cut into entries. -/
theorem sourcesOf_eq (entries : List Text) :
    sourcesOf entries = RuleSource.listOfText (Text.joinWith [','] entries) := by
  induction entries with
  | nil => rfl
  | cons entry entries ih =>
      cases entries with
      | nil => simp [sourcesOf, Text.joinWith]
      | cons next rest =>
          have hjoin : Text.joinWith [','] (entry :: next :: rest) =
              entry ++ ',' :: Text.joinWith [','] (next :: rest) := by
            simp [Text.joinWith]
          calc sourcesOf (entry :: next :: rest)
              = RuleSource.listOfText entry ++ sourcesOf (next :: rest) := rfl
            _ = RuleSource.listOfText (Text.joinWith [','] (entry :: next :: rest)) := by
                rw [ih, hjoin]
                simp [RuleSource.listOfText, Text.pieces_append]

end Resolve

/-! ## what the layers say -/

section
variable {workspace : Workspace} {key : Text} {machine after : Machine}
  {files : List (List Git.Variable)}

/-- Asking for a setting is asking the configuration files that were found. -/
theorem Workspace.setting_ok {value : Option Text}
    (hfiles : Git.configOf? machine.disk machine.environment workspace.gitDirectory = some files) :
    (workspace.setting key).on machine = (.ok value, after) ↔
      Git.textSetting files key = .ok value ∧ after = machine := by
  simp only [setting, configFiles, on_bind, on_get, hfiles, on_pure]
  cases Git.textSetting files key with
  | ok text => simp [eq_comm]
  | error fault => simp

/-- So is asking for a flag. -/
theorem Workspace.flag_ok {value : Option Bool}
    (hfiles : Git.configOf? machine.disk machine.environment workspace.gitDirectory = some files) :
    (workspace.flag key).on machine = (.ok value, after) ↔
      Git.boolSetting files key = .ok value ∧ after = machine := by
  simp only [flag, configFiles, on_bind, on_get, hfiles, on_pure]
  cases Git.boolSetting files key with
  | ok text => simp [eq_comm]
  | error fault => simp

/-- A setting is read only where the whole configuration is. -/
theorem Workspace.exists_files_of_setting {value : Option Text}
    (h : (workspace.setting key).on machine = (.ok value, after)) :
    ∃ files,
      Git.configOf? machine.disk machine.environment workspace.gitDirectory = some files := by
  cases hfiles : Git.configOf? machine.disk machine.environment workspace.gitDirectory with
  | none => simp [setting, configFiles, hfiles] at h
  | some files => exact ⟨files, rfl⟩

end

namespace Resolve

/-- What the layer of a settings file holds: nothing where there is no file, what the decoder
of documents finds otherwise. -/
def FileSays (machine : Machine) (path : Text) (layer : Settings) : Prop :=
  match machine.disk.readText machine.environment.cwd path with
  | .ok document =>
      Settings.ofDocument? machine.environment.libraries.toml document = some layer
  | .error fault => fault = .notFound ∧ layer = Settings.empty

/-- A layer that was read is what the file says. -/
theorem fileLayer_ok {path : Text} {layer : Settings} {machine after : Machine}
    (h : (fileLayer path).on machine = (.ok layer, after)) :
    FileSays machine path layer ∧ after = machine := by
  simp only [fileLayer, Files.readOptionalText, on_bind, on_mapError, on_get] at h
  rw [FileSays]
  cases hread : machine.disk.readText machine.environment.cwd path with
  | ok document =>
      simp only [hread, on_pure, mapError_ok] at h
      cases hparse : Settings.ofDocument? machine.environment.libraries.toml document with
      | none => simp [hparse] at h
      | some parsed => simpa [hparse, eq_comm] using h
  | error fault =>
      cases fault <;> simp_all

/-- What the layer in the git configuration holds.  The whole list of sources is one
entry, and the delay is a number in text. -/
structure GitSays (files : List (List Git.Variable)) (layer : Settings) : Prop where
  host : Git.textSetting files "tether.host" = .ok layer.host
  remotePath : Git.textSetting files "tether.remotePath" = .ok layer.remotePath
  ignore : ∃ list, Git.textSetting files "tether.ignore" = .ok list ∧
    layer.ignore = list.map ([·])
  delay : ∃ number, Git.textSetting files "tether.delay" = .ok number ∧
    number.mapM delayOf = .ok layer.delay
  compress : Git.boolSetting files "tether.compress" = .ok layer.compress
  lsyncd : Git.textSetting files "tether.lsyncd" = .ok layer.lsyncd
  rsync : Git.textSetting files "tether.rsync" = .ok layer.rsync
  ssh : Git.textSetting files "tether.ssh" = .ok layer.ssh

/-- A layer of the configuration is what its files say. -/
theorem gitLayer_ok {workspace : Workspace} {layer : Settings} {machine after : Machine}
    (h : (gitLayer workspace).on machine = (.ok layer, after)) :
    (∃ files, Git.configOf? machine.disk machine.environment workspace.gitDirectory = some files ∧
      GitSays files layer) ∧ after = machine := by
  simp only [gitLayer, on_bind_eq_ok, on_mapError_eq_ok] at h
  obtain ⟨files, hfiles⟩ : ∃ files,
      Git.configOf? machine.disk machine.environment workspace.gitDirectory = some files := by
    obtain ⟨_, _, hhost, -⟩ := h
    exact Workspace.exists_files_of_setting hhost
  -- Every part is read on one machine, and from the same files.
  simp only [Workspace.setting_ok hfiles, Workspace.flag_ok hfiles, and_assoc, exists_and_left,
    exists_eq_left] at h
  obtain ⟨host, hhost, remotePath, hremotePath, list, hlist, compress, hcompress, number, hnumber,
    h⟩ := h
  obtain ⟨delay, hdelay, lsyncd, hlsyncd, rsync, hrsync, ssh, hssh, rfl, rfl⟩ :
      ∃ delay, number.mapM delayOf = .ok delay ∧
        ∃ lsyncd, Git.textSetting files "tether.lsyncd" = .ok lsyncd ∧
        ∃ rsync, Git.textSetting files "tether.rsync" = .ok rsync ∧
        ∃ ssh, Git.textSetting files "tether.ssh" = .ok ssh ∧
          { host, remotePath, ignore := list.map ([·]), delay, compress, lsyncd, rsync,
            ssh : Settings } = layer ∧
          machine = after := by
    cases number with
    | none =>
        refine ⟨none, rfl, ?_⟩
        simpa only [pure_bind, on_bind_eq_ok, on_mapError_eq_ok, Workspace.setting_ok hfiles,
          and_assoc, exists_and_left, exists_eq_left, on_pure, Prod.mk.injEq,
          Except.ok.injEq] using h
    | some value =>
        cases hvalue : delayOf value with
        | error fault => simp [hvalue] at h
        | ok delay =>
            refine ⟨some delay, by rw [Option.mapM_some, hvalue]; rfl, ?_⟩
            simpa only [hvalue, pure_bind, on_bind_eq_ok, on_mapError_eq_ok,
              Workspace.setting_ok hfiles, and_assoc, exists_and_left, exists_eq_left, on_pure,
              Prod.mk.injEq, Except.ok.injEq] using h
  exact ⟨⟨files, hfiles, hhost, hremotePath, ⟨list, hlist, rfl⟩, ⟨number, hnumber, hdelay⟩,
    hcompress, hlsyncd, hrsync, hssh⟩, rfl⟩

/-- What passes all checks is put together field by field. -/
theorem finish_eq_ok {workspace : Workspace} {home : Text} {settings : Settings}
    {config : SessionConfig} (h : finish workspace home settings = .ok config) :
    settings.host = some config.host ∧
      config =
        { root := workspace.root
          stateDirectory := workspace.stateDirectory
          host := config.host
          remotePath := settings.remotePath.getD (defaultRemotePath workspace.root home)
          sources := (settings.ignore.map sourcesOf).getD RuleSource.defaults
          delay := settings.delay.getD defaultDelay
          compress := settings.compress.getD true
          binaries := settings.binaries } := by
  unfold finish at h
  cases hhost : settings.host with
  | none => simp [hhost, bind, Except.bind, throw, throwThe, MonadExceptOf.throw] at h
  | some host =>
      simp only [hhost, bind, Except.bind, pure, Except.pure, throw, throwThe,
        MonadExceptOf.throw] at h
      repeat' split at h
      all_goals cases h
      all_goals simp_all

/-- The home directory is only looked up. -/
theorem homeDirectory_ok {places : Places} {home : Text} {machine after : Machine}
    (h : (homeDirectory places).on machine = (.ok home, after)) : after = machine := by
  simp only [homeDirectory, on_bind, on_get] at h
  split at h
  all_goals
    cases h
    rfl

/-- The path of the settings file of the user. -/
def userSettingsPath (machine : Machine) (places : Places) : Text :=
  Path.join (places.settingsDirectory.getD (Path.join machine.environment.configHome "tether"))
    "config.toml"

theorem on_userSettings (places : Places) (machine : Machine) :
    (userSettings places).on machine = (.ok (userSettingsPath machine places), machine) := rfl

/-! ## what is chosen -/

/-- A field in three layers: that of the git configuration, else that of the tree, else that of
the user. -/
def chosen (user tree git : Settings) {α : Type} (field : Settings → Option α) : Option α :=
  field git <|> field tree <|> field user

/-- The value chosen of three layers is the last one set. -/
theorem chosen_eq_lastSet (user tree git : Settings) {α : Type} (field : Settings → Option α) :
    chosen user tree git field = Settings.lastSet field [user, tree, git] := by
  rw [Settings.lastSet_cons, Settings.lastSet_cons, Settings.lastSet_cons]
  simp [chosen, Settings.lastSet, Option.or_assoc]

/-- Three layers put together, field by field. -/
theorem merge_layers (user tree git : Settings) :
    ((Settings.empty.merge user).merge tree).merge git =
      { host := chosen user tree git Settings.host
        remotePath := chosen user tree git Settings.remotePath
        ignore := chosen user tree git Settings.ignore
        delay := chosen user tree git Settings.delay
        compress := chosen user tree git Settings.compress
        lsyncd := chosen user tree git Settings.lsyncd
        rsync := chosen user tree git Settings.rsync
        ssh := chosen user tree git Settings.ssh } := by
  have hfold : ((Settings.empty.merge user).merge tree).merge git =
      [user, tree, git].foldl Settings.merge Settings.empty := rfl
  simp only [hfold, Settings.foldl_merge_eq, chosen_eq_lastSet]

/-- Every field of a session is the one chosen from the layers, or its default where no layer
sets it.  The sources are those that the chosen entries name when they are joined at commas. -/
structure Chosen (workspace : Workspace) (home : Text) (user tree git : Settings)
    (config : SessionConfig) : Prop where
  root : config.root = workspace.root
  stateDirectory : config.stateDirectory = workspace.stateDirectory
  host : chosen user tree git Settings.host = some config.host
  remotePath : config.remotePath =
    (chosen user tree git Settings.remotePath).getD (defaultRemotePath workspace.root home)
  sources : config.sources =
    match chosen user tree git Settings.ignore with
    | none => RuleSource.defaults
    | some entries => RuleSource.listOfText (Text.joinWith [','] entries)
  delay : config.delay = (chosen user tree git Settings.delay).getD defaultDelay
  compress : config.compress = (chosen user tree git Settings.compress).getD true
  lsyncd : config.binaries.lsyncd = (chosen user tree git Settings.lsyncd).getD "lsyncd"
  rsync : config.binaries.rsync = (chosen user tree git Settings.rsync).getD "rsync"
  ssh : config.binaries.ssh = (chosen user tree git Settings.ssh).getD "ssh"

/-- **A finished configuration** has in every field the value that was chosen. -/
theorem chosen_of_finish {workspace : Workspace} {home : Text} {user tree git : Settings}
    {config : SessionConfig}
    (h : finish workspace home (((Settings.empty.merge user).merge tree).merge git) =
      .ok config) : Chosen workspace home user tree git config := by
  rw [merge_layers] at h
  obtain ⟨hhost, hconfig⟩ := finish_eq_ok h
  have hsources : config.sources =
      ((chosen user tree git Settings.ignore).map sourcesOf).getD RuleSource.defaults := by
    rw [hconfig]
  constructor
  case host => exact hhost
  case sources =>
    rw [hsources]
    cases chosen user tree git Settings.ignore with
    | none => rfl
    | some entries => exact sourcesOf_eq entries
  all_goals rw [hconfig, Settings.binaries]

/-- A session is put together from the three layers that a machine holds: the settings file of
the user, that of the tree, and the git configuration. -/
def FromLayers (machine : Machine) (workspace : Workspace) (places : Places)
    (config : SessionConfig) : Prop :=
  ∃ user tree git files home,
    FileSays machine (userSettingsPath machine places) user ∧
      FileSays machine (Path.join workspace.root ".tether.toml") tree ∧
      Git.configOf? machine.disk machine.environment workspace.gitDirectory = some files ∧
      GitSays files git ∧
      (homeDirectory places).on machine = (.ok home, machine) ∧
      Chosen workspace home user tree git config

end Resolve

/-- Resolving only looks, and its result comes from the layers. -/
theorem fromLayers_of_resolve {workspace : Workspace} {places : Resolve.Places}
    {config : SessionConfig} {machine after : Machine}
    (h : (resolve workspace places).on machine = (.ok config, after)) :
    Resolve.FromLayers machine workspace places config ∧ after = machine := by
  simp only [resolve, on_bind_eq_ok] at h
  obtain ⟨path, _, hpath, user, _, huser, tree, _, htree, git, _, hgit, home, _, hhome, h⟩ := h
  rw [Resolve.on_userSettings] at hpath
  cases hpath
  obtain ⟨huserSays, rfl⟩ := Resolve.fileLayer_ok huser
  obtain ⟨htreeSays, rfl⟩ := Resolve.fileLayer_ok htree
  obtain ⟨⟨files, hfiles, hgitSays⟩, rfl⟩ := Resolve.gitLayer_ok hgit
  obtain rfl := Resolve.homeDirectory_ok hhome
  cases hfinish : Resolve.finish workspace home
      (((Settings.empty.merge user).merge tree).merge git) with
  | error error =>
      rw [hfinish] at h
      cases h
  | ok resolved =>
      rw [hfinish] at h
      cases h
      exact ⟨⟨user, tree, git, files, home, huserSays, htreeSays, hfiles, hgitSays, hhome,
        Resolve.chosen_of_finish hfinish⟩, rfl⟩

/-- **Layers override field by field.**  Putting layers over one another is associative and
idempotent, and the layer that sets nothing changes nothing on either side.  In a list of layers
the last one that sets a field decides it, for every field by itself.  Sources are named by
the text of all entries joined at commas, however it is cut into entries.  So each field of
a session that is resolved comes from the git configuration, else from the settings of the
tree, else from those of the user, else from its default. -/
theorem layers_override :
    (∀ a b c : Settings, (a.merge b).merge c = a.merge (b.merge c)) ∧
      (∀ a : Settings, a.merge a = a ∧ Settings.empty.merge a = a ∧ a.merge Settings.empty = a) ∧
      (∀ layers : List Settings, layers.foldl Settings.merge Settings.empty =
        { host := Settings.lastSet Settings.host layers
          remotePath := Settings.lastSet Settings.remotePath layers
          ignore := Settings.lastSet Settings.ignore layers
          delay := Settings.lastSet Settings.delay layers
          compress := Settings.lastSet Settings.compress layers
          lsyncd := Settings.lastSet Settings.lsyncd layers
          rsync := Settings.lastSet Settings.rsync layers
          ssh := Settings.lastSet Settings.ssh layers }) ∧
      (∀ entries : List Text, Resolve.sourcesOf entries =
        RuleSource.listOfText (Text.joinWith [','] entries)) ∧
      ∀ (workspace : Workspace) (places : Resolve.Places) (config : SessionConfig)
        (machine after : Machine),
        (resolve workspace places).on machine = (.ok config, after) →
          Resolve.FromLayers machine workspace places config ∧ after = machine :=
  ⟨Settings.merge_assoc,
    fun a => ⟨a.merge_self, a.empty_merge, a.merge_empty⟩,
    Settings.foldl_merge_eq, Resolve.sourcesOf_eq, fun _ _ _ _ _ => fromLayers_of_resolve⟩

/-- A machine with settings in all three layers. -/
def layeredMachine : Machine where
  environment := { home := "/home", configHome := "/home/.config" }
  disk :=
    { entries :=
        [(["home"], .directory), (["home", ".config"], .directory),
         (["home", ".config", "tether"], .directory),
         (["home", ".config", "tether", "config.toml"],
           .file ⟨0, Text.bytes "host = \"builder\"\nignore = [\"global\"]\ndelay = 3\n", 0o644⟩),
         (["app"], .directory),
         (["app", ".tether.toml"],
           .file ⟨1, Text.bytes "ignore = [\"root, extra\", \"global\"]\ndelay = 2\n", 0o644⟩),
         (["app", ".git"], .directory),
         (["app", ".git", "config"],
           .file ⟨2, Text.bytes "[tether]\n\tdelay = 0.5\n\tcompress = false\n", 0o644⟩)] }

/-- What it is resolved to: the host of the user, the sources of the tree, and the delay that git
was told. -/
def layeredConfig : SessionConfig where
  root := "/app"
  stateDirectory := "/app/.git/tether"
  host := "builder"
  remotePath := "/app"
  sources := [.root, .file "extra", .global]
  delay := .ofDecimal false 5 (-1)
  compress := false
  binaries := {}

/-- A tree whose three layers contradict each other. -/
theorem layers_override_layeredConfig :
    ∃ after, (resolve ⟨"/app", "/app/.git"⟩ {}).on layeredMachine = (.ok layeredConfig, after) ∧
      Resolve.FromLayers layeredMachine ⟨"/app", "/app/.git"⟩ {} layeredConfig ∧
      after = layeredMachine := by
  have hconfig : ((resolve ⟨"/app", "/app/.git"⟩ {}).on layeredMachine).1 = .ok layeredConfig :=
    eq_ok_of_toOption (by decide +kernel)
  have hresolve := on_eq_of_fst hconfig
  exact ⟨_, hresolve, layers_override.2.2.2.2 _ _ _ _ _ hresolve⟩

end TreeSync
