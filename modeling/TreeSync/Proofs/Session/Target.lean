import TreeSync.Session.Remote
import TreeSync.Session.Resolve
import TreeSync.Proofs.Machine.Action
import TreeSync.Proofs.Shell.Reading

/-!
# TreeSync.Proofs.Session.Target

What a resolved session says to the programs that take its target apart.

1. A transfer cuts the target at its first colon.  A host without defects holds
   none, so the cut is where host and path were put together
   (`cutTarget?_target`).
2. `ssh` reads its first argument that is no option as the host, and a host without
   defects is no option (`Host.Usable`).
3. The remote shell changes into the directory that a quoted word names
   (`Remote.readWords_directory_append`), however words are quoted
   (`Shell.Quotes`).

Whatever the layers of settings say, a session is resolved only with a host without
defects, a path that is not empty and a delay that can be waited for
(`resolve_target`).
-/

namespace TreeSync

open TreeSync.Action

/-! ## hosts -/

namespace Host

/-- What a host without defects is like. -/
structure Usable (host : Text) : Prop where
  ne_nil : host ≠ []
  no_blank : ∀ c ∈ host, Text.isBlank c = false
  no_colon : ':' ∉ host
  no_slash : '/' ∉ host
  no_dash : host.head? ≠ some '-'
  no_at : host.getLast? ≠ some '@'

/-- **A host has no defect** exactly where it can be used. -/
theorem defect?_eq_none_iff {host : Text} : defect? host = none ↔ Usable host := by
  have hdefect : defect? host = none ↔
      host ≠ [] ∧ host.head? ≠ some '-' ∧ host.any Text.isBlank = false ∧
        (host.contains ':' || host.contains '/') = false ∧ host.getLast? ≠ some '@' := by
    unfold defect?
    grind
  rw [hdefect]
  simp only [List.any_eq_false, Bool.or_eq_false_iff, List.contains_eq_mem, decide_eq_false_iff_not,
    Bool.not_eq_true]
  constructor
  · rintro ⟨hne, hdash, hblank, ⟨hcolon, hslash⟩, hat⟩
    exact ⟨hne, hblank, hcolon, hslash, hdash, hat⟩
  · rintro ⟨hne, hblank, hcolon, hslash, hdash, hat⟩
    exact ⟨hne, hdash, hblank, ⟨hcolon, hslash⟩, hat⟩

end Host

/-! ## what is resolved -/

namespace Resolve

/-- The default remote path of a tree is never empty. -/
theorem defaultRemotePath_ne_nil {root : Text} (hroot : root ≠ []) (home : Text) :
    defaultRemotePath root home ≠ [] := by
  unfold defaultRemotePath
  split
  · simp
  · next path hne _ => simpa using hne
  · exact hroot

/-- What has passed all checks. -/
theorem finish_ok {workspace : Workspace} {home : Text} {settings : Settings}
    {config : SessionConfig} (h : finish workspace home settings = .ok config) :
    Host.defect? config.host = none ∧
      config.remotePath = settings.remotePath.getD (defaultRemotePath workspace.root home) ∧
      (∀ path ∈ settings.remotePath, Text.trim path ≠ []) ∧
      config.delay.isFinite = true ∧ config.delay.isBelowZero = false := by
  unfold finish at h
  cases hhost : settings.host with
  | none => simp [hhost, bind, Except.bind, throw, throwThe, MonadExceptOf.throw] at h
  | some host =>
      cases hdefect : Host.defect? host with
      | some defect =>
          simp [hhost, hdefect, bind, Except.bind, pure, Except.pure, throw, throwThe,
            MonadExceptOf.throw] at h
      | none =>
          simp only [hhost, hdefect, bind, Except.bind, pure, Except.pure, throw, throwThe,
            MonadExceptOf.throw] at h
          cases hpath : settings.remotePath with
          | none =>
              simp only [hpath] at h
              split at h
              · contradiction
              · next hdelay =>
                  cases h
                  simpa [hdefect] using hdelay
          | some path =>
              simp only [hpath] at h
              by_cases hblank : Text.trim path = []
              · simp [hblank] at h
              · simp only [hblank, if_false] at h
                split at h
                · contradiction
                · next hdelay =>
                    cases h
                    simpa [hdefect, hblank] using hdelay

end Resolve

theorem finish_of_resolve {workspace : Workspace} {places : Resolve.Places}
    {config : SessionConfig} {machine after : Machine}
    (h : (resolve workspace places).on machine = (.ok config, after)) :
    ∃ home settings, Resolve.finish workspace home settings = .ok config := by
  simp only [resolve, on_bind_eq_ok] at h
  obtain ⟨_, _, -, user, _, -, tree, _, -, git, _, -, home, last, -, hfinish⟩ := h
  refine ⟨home, ((Settings.empty.merge user).merge tree).merge git, ?_⟩
  split at hfinish
  · next resolved hresolved =>
      cases hfinish
      exact hresolved
  · simp at hfinish

/-! ## the tree -/

/-- A canonical path is never empty. -/
theorem Workspace.canonical_ne_nil {path root : Text} {machine after : Machine}
    (h : (canonical path).on machine = (.ok root, after)) : root ≠ [] := by
  simp only [canonical, Files.naming, on_mapError_eq_ok, on_seeDisk, Disk.canonical, bind,
    Except.bind] at h
  split at h
  · cases h
  · next location _ =>
      cases h
      cases location.1 <;> simp [Disk.pathOf]

/-- A working tree that was found has a root. -/
theorem Workspace.root_ne_nil {start : Text} {workspace : Workspace} {machine after : Machine}
    (h : (Workspace.discover start).on machine = (.ok workspace, after)) :
    workspace.root ≠ [] := by
  simp only [discover, on_bind, on_get] at h
  -- Every way through but one ends in a failure.
  repeat' split at h
  all_goals try cases h
  obtain ⟨root, middle, hroot, h⟩ := on_bind_eq_ok.mp h
  obtain ⟨gitDirectory, last, -, h⟩ := on_bind_eq_ok.mp h
  cases h
  exact canonical_ne_nil hroot

/-! ## the target -/

/-- Cut a target where a transfer does: at its first colon. -/
def cutTarget? (target : Text) : Option (Text × Text) :=
  match target.dropWhile (· != ':') with
  | [] => none
  | _ :: path => some (target.takeWhile (· != ':'), path)

/-- **The cut is where host and path were put together**: the host holds no colon. -/
theorem cutTarget?_target {config : SessionConfig} (h : ':' ∉ config.host) :
    cutTarget? config.target = some (config.host, config.remotePath) := by
  have hhost : ∀ c ∈ config.host, (c != ':') = true := by
    intro c hc
    simp only [bne_iff_ne, ne_eq]
    rintro rfl
    exact h hc
  have htarget : config.target = config.host ++ ':' :: config.remotePath := by
    simp [SessionConfig.target]
  rw [cutTarget?, htarget, List.dropWhile_append_of_pos hhost, List.takeWhile_append_of_pos hhost]
  simp

/-! ## the command line of the remote shell -/

/-- **The remote shell goes into the remote path**: in front of whatever follows, `cd` and
the quoted word read as two words. -/
theorem Remote.readWords_directory_append {quote : Text → Text} (hquote : Shell.Quotes quote)
    (arguments : List Text) (path rest : Text) :
    Shell.readWords arguments .bare none ("cd " ++ quote path ++ ' ' :: rest) =
      (Shell.readWords arguments .bare none rest).map fun (words, after) =>
        (["cd".toList, path] ++ words, after) := by
  have hwords : (["cd".toList, quote path] : List Text).map (Shell.unquote? .bare none) =
      ["cd".toList, path].map some := by
    have hcd : Shell.unquote? .bare none "cd".toList = some "cd".toList := by decide
    simp only [List.map_cons, List.map_nil, hcd, hquote.unquote?_quote]
  exact Shell.readWords_join_append hwords rest

/-- A quoted word is one word, and its quotes come off. -/
theorem Remote.readWords_quote {quote : Text → Text} (hquote : Shell.Quotes quote)
    (arguments : List Text) (word : Text) :
    Shell.readWords arguments .bare none (quote word) = some ([word], []) := by
  have hread : Shell.readWords arguments .bare none (quote word ++ []) =
      Shell.readWords arguments .bare (some word) [] :=
    Shell.readWords_append_of_unquote? (hquote.unquote?_quote word) []
  rw [List.append_nil] at hread
  rw [hread, Shell.readWords]
  rfl

/-! ## a resolved session -/

/-- A delay that can be waited for is finite and not below zero. -/
theorem Double.finite_of_isFinite {delay : Double} (hfinite : delay.isFinite = true)
    (hzero : delay.isBelowZero = false) :
    ∃ negative significand exponent, delay = .finite negative significand exponent ∧
      (negative = true → significand = 0) := by
  cases delay with
  | finite negative significand exponent =>
      exact ⟨negative, significand, exponent, rfl, by simpa [isBelowZero] using hzero⟩
  | infinite negative => simp [isFinite] at hfinite
  | nan => simp [isFinite] at hfinite

/-- **A resolved target is unambiguous**, whatever the layers of settings say.  It is
cut into its host and its path; the host can be used, the path is not empty, and the
delay is finite and not below zero.  For every command the arguments of `ssh` are the
option for a terminal, the host, and one word that goes into the remote path first,
however words are quoted. -/
theorem resolve_target {quote : Text → Text} (hquote : Shell.Quotes quote) {start : Text}
    {places : Resolve.Places} {workspace : Workspace} {config : SessionConfig}
    {machine found before after : Machine}
    (hfound : (Workspace.discover start).on machine = (.ok workspace, found))
    (h : (resolve workspace places).on before = (.ok config, after)) :
    cutTarget? config.target = some (config.host, config.remotePath) ∧
      Host.Usable config.host ∧ config.remotePath ≠ [] ∧
      (∃ negative significand exponent, config.delay = .finite negative significand exponent ∧
        (negative = true → significand = 0)) ∧
      ∀ words terminal, ∃ word rest,
        Remote.sshArguments config words terminal quote =
          (if terminal then ["-t".toList] else []) ++
            [config.host, "cd " ++ word ++ " && " ++ rest] ∧
        Shell.unquote? .bare none word = some config.remotePath ∧
        ∀ arguments,
          Shell.readWords arguments .bare none word = some ([config.remotePath], []) ∧
          ∀ more, Shell.readWords arguments .bare none ("cd " ++ word ++ ' ' :: more) =
            (Shell.readWords arguments .bare none more).map fun (others, after) =>
              (["cd".toList, config.remotePath] ++ others, after) := by
  obtain ⟨home, settings, hfinish⟩ := finish_of_resolve h
  obtain ⟨hdefect, hpath, hblank, hfinite, hzero⟩ := Resolve.finish_ok hfinish
  have hhost : Host.Usable config.host := Host.defect?_eq_none_iff.mp hdefect
  have hremote : config.remotePath ≠ [] := by
    rw [hpath]
    cases hconfigured : settings.remotePath with
    | none => exact Resolve.defaultRemotePath_ne_nil (Workspace.root_ne_nil hfound) home
    | some path =>
        rintro rfl
        exact hblank [] hconfigured rfl
  refine ⟨cutTarget?_target hhost.no_colon, hhost, hremote,
    Double.finite_of_isFinite hfinite hzero, ?_⟩
  intro words terminal
  refine ⟨quote config.remotePath, Text.joinWith [' '] words, rfl,
    hquote.unquote?_quote config.remotePath, fun arguments => ?_⟩
  exact ⟨Remote.readWords_quote hquote arguments config.remotePath,
    Remote.readWords_directory_append hquote arguments config.remotePath⟩

/-- A machine with a working tree that says in its own settings where its copy is, and
in those of its repository on which host. -/
def targetMachine : Machine where
  disk :=
    { entries :=
        [(["app"], .directory),
         (["app", ".tether.toml"],
           .file ⟨0, Text.bytes "remote_path = \"it's here\"\n", 0o644⟩),
         (["app", ".git"], .directory), (["app", ".git", "objects"], .directory),
         (["app", ".git", "refs"], .directory),
         (["app", ".git", "HEAD"], .file ⟨1, Text.bytes "ref: refs/heads/main\n", 0o644⟩),
         (["app", ".git", "config"],
           .file ⟨2, Text.bytes "[tether]\n\thost = me@builder\n", 0o644⟩)] }

/-- What that tree is resolved to. -/
def targetConfig : SessionConfig where
  root := "/app"
  stateDirectory := "/app/.git/tether"
  host := "me@builder"
  remotePath := "it's here"
  sources := RuleSource.defaults
  delay := Resolve.defaultDelay
  compress := true
  binaries := {}

theorem resolve_target_targetConfig :
    Shell.Quotes Shell.quote ∧ ∃ found after,
      (Workspace.discover "/app").on targetMachine = (.ok ⟨"/app", "/app/.git"⟩, found) ∧
      (resolve ⟨"/app", "/app/.git"⟩ {}).on targetMachine = (.ok targetConfig, after) ∧
      cutTarget? "me@builder:it's here" = some ("me@builder".toList, "it's here".toList) ∧
      Host.Usable "me@builder" ∧ targetConfig.remotePath ≠ [] ∧
      ∃ word rest, Remote.sshArguments targetConfig ["make".toList] true =
          ["-t".toList, "me@builder".toList, "cd " ++ word ++ " && " ++ rest] ∧
        ∀ arguments, Shell.readWords arguments .bare none word = some (["it's here".toList], []) := by
  have hworkspace : ((Workspace.discover "/app").on targetMachine).1 =
      .ok ⟨"/app", "/app/.git"⟩ :=
    eq_ok_of_toOption (by decide +kernel)
  have hconfig : ((resolve ⟨"/app", "/app/.git"⟩ {}).on targetMachine).1 = .ok targetConfig :=
    eq_ok_of_toOption (by decide +kernel)
  have hfound := on_eq_of_fst hworkspace
  have hresolve := on_eq_of_fst hconfig
  obtain ⟨htarget, hhost, hpath, -, hssh⟩ :=
    resolve_target Shell.quotes_quote hfound hresolve
  obtain ⟨word, rest, harguments, hword⟩ := hssh ["make".toList] true
  exact ⟨Shell.quotes_quote, _, _, hfound, hresolve, htarget, hhost, hpath, word, rest,
    harguments, fun arguments => (hword.2 arguments).1⟩

end TreeSync
