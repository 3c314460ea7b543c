import TreeSync.Disk.Walk
import TreeSync.Proofs.Disk.Entries

/-!
# TreeSync.Proofs.Disk.Walk

Ways through a disk.

`Leads` is a walk that has come to a directory, with the links it may still go
through.  What comes after is walked from there (`Leads.walk_append`), every walk
that has an outcome has led to the directory of its last name
(`exists_leads_of_walk`), and a way stays as long as directories and links do
(`Leads.mono`).
-/

namespace TreeSync.Disk

/-- Some names lead from one directory to another; the links are those that may be
gone through before and after. -/
inductive Leads (disk : Disk) : Nat → Location → List Text → Nat → Location → Prop
  | refl (links : Nat) (here : Location) : Leads disk links here [] links here
  | dot {links links' : Nat} {here there : Location} {rest : List Text} :
      Leads disk links here rest links' there →
        Leads disk links here (['.'] :: rest) links' there
  | up {links links' : Nat} {here there : Location} {rest : List Text} :
      Leads disk links here.dropLast rest links' there →
        Leads disk links here (['.', '.'] :: rest) links' there
  | directory {links links' : Nat} {here there : Location} {name : Text} {rest : List Text}
      (hdot : name ≠ ['.']) (hup : name ≠ ['.', '.']) (hshort : isTooLong name = false)
      (hget : disk.get? (here ++ [name]) = some .directory) :
      Leads disk links (here ++ [name]) rest links' there →
        Leads disk links here (name :: rest) links' there
  | link {links links' : Nat} {here there : Location} {name target : Text} {rest : List Text}
      (hdot : name ≠ ['.']) (hup : name ≠ ['.', '.']) (hshort : isTooLong name = false)
      (hget : disk.get? (here ++ [name]) = some (.link target)) :
      Leads disk links (if target.head? = some '/' then [] else here)
          (namesOfPath target ++ rest) links' there →
        Leads disk (links + 1) here (name :: rest) links' there

variable {disk disk' : Disk} {links links' : Nat} {here there : Location}

theorem walk_nil (followLast : Bool) (links : Nat) (here : Location) :
    disk.walk followLast links here [] = .ok (.found here .directory) := by
  cases links <;> rfl

theorem walk_dot (followLast : Bool) (links : Nat) (here : Location) (rest : List Text) :
    disk.walk followLast links here (['.'] :: rest) = disk.walk followLast links here rest := by
  cases links <;> rfl

theorem walk_up (followLast : Bool) (links : Nat) (here : Location) (rest : List Text) :
    disk.walk followLast links here (['.', '.'] :: rest) =
      disk.walk followLast links here.dropLast rest := by
  cases links <;> rfl

/-- What a link leads to. -/
def afterLink (disk : Disk) : Nat → Location → List Text → Except DiskFault Destination
  | 0, _, _ => .error .tooManyLinks
  | links + 1, here, names => disk.walk true links here names

/-- One step of a walk that goes through links at the end as well. -/
theorem walk_cons {name : Text} (hdot : name ≠ ['.']) (hup : name ≠ ['.', '.'])
    (links : Nat) (here : Location) (rest : List Text) :
    disk.walk true links here (name :: rest) =
      if isTooLong name then .error .nameTooLong
      else
        match disk.get? (here ++ [name]) with
        | none => if rest = [] then .ok (.free here name) else .error .notFound
        | some .directory => disk.walk true links (here ++ [name]) rest
        | some (.file file) =>
            if rest = [] then .ok (.found (here ++ [name]) (.file file)) else .error .notDirectory
        | some (.link target) =>
            disk.afterLink links (if target.head? = some '/' then [] else here)
              (namesOfPath target ++ rest) := by
  cases links <;>
    · rw [walk, walkWith, if_neg hdot, if_neg hup]
      split
      · rfl
      · split <;> simp_all [afterLink]

/-- **What comes after a way** is walked from where it leads. -/
theorem Leads.walk_append {names : List Text} (h : disk.Leads links here names links' there)
    (rest : List Text) :
    disk.walk true links here (names ++ rest) = disk.walk true links' there rest := by
  induction h with
  | refl links here => rfl
  | dot _ ih => rw [List.cons_append, walk_dot, ih]
  | up _ ih => rw [List.cons_append, walk_up, ih]
  | directory hdot hup hshort hget _ ih =>
      rw [List.cons_append, walk_cons hdot hup, if_neg (by simp [hshort]), hget]
      exact ih
  | link hdot hup hshort hget _ ih =>
      rw [List.cons_append, walk_cons hdot hup, if_neg (by simp [hshort]), hget]
      rw [List.append_assoc] at ih
      exact ih

/-- One link fewer is enough of a reason for the whole walk. -/
theorem exists_leads_of_links {rest : List Text} {destination : Destination} (hrest : rest ≠ [])
    (hlink : ∀ fewer, links = fewer + 1 → ∀ here names,
      disk.walk true fewer here (names ++ rest) = .ok destination →
        ∃ links' there, disk.Leads fewer here names links' there)
    {names : List Text} (h : disk.walk true links here (names ++ rest) = .ok destination) :
    ∃ links' there, disk.Leads links here names links' there := by
  induction names generalizing here with
  | nil => exact ⟨links, here, .refl links here⟩
  | cons name names ih =>
      have hmore : names ++ rest ≠ [] := fun heq => hrest (List.append_eq_nil_iff.mp heq).2
      rw [List.cons_append] at h
      by_cases hdot : name = ['.']
      · subst hdot
        rw [walk_dot] at h
        obtain ⟨links', there, hleads⟩ := ih h
        exact ⟨links', there, .dot hleads⟩
      by_cases hup : name = ['.', '.']
      · subst hup
        rw [walk_up] at h
        obtain ⟨links', there, hleads⟩ := ih h
        exact ⟨links', there, .up hleads⟩
      rw [walk_cons hdot hup] at h
      cases hshort : isTooLong name with
      | true => rw [hshort, if_pos rfl] at h; contradiction
      | false =>
          rw [hshort, if_neg Bool.false_ne_true] at h
          cases hget : disk.get? (here ++ [name]) with
          | none => simp only [hget, if_neg hmore] at h; contradiction
          | some entry =>
              cases entry with
              | directory =>
                  simp only [hget] at h
                  obtain ⟨links', there, hleads⟩ := ih h
                  exact ⟨links', there, .directory hdot hup hshort hget hleads⟩
              | file file => simp only [hget, if_neg hmore] at h; contradiction
              | link target =>
                  simp only [hget] at h
                  cases links with
                  | zero => contradiction
                  | succ fewer =>
                      rw [afterLink, ← List.append_assoc] at h
                      obtain ⟨links', there, hleads⟩ := hlink fewer rfl _ _ h
                      exact ⟨links', there, .link hdot hup hshort hget hleads⟩

/-- **A walk that has an outcome** has led to the directory of its last name. -/
theorem exists_leads_of_walk {names rest : List Text} {destination : Destination}
    (hrest : rest ≠ []) (h : disk.walk true links here (names ++ rest) = .ok destination) :
    ∃ links' there, disk.Leads links here names links' there := by
  induction links generalizing here names with
  | zero =>
      refine exists_leads_of_links hrest (fun fewer heq => ?_) h
      contradiction
  | succ links ih =>
      refine exists_leads_of_links hrest (fun fewer heq here names hwalk => ?_) h
      cases heq
      exact ih hwalk

/-- Two ways, one after the other. -/
theorem leads_append_iff {first second : List Text} :
    disk.Leads links here (first ++ second) links' there ↔
      ∃ middle between, disk.Leads links here first middle between ∧
        disk.Leads middle between second links' there := by
  constructor
  · intro h
    generalize hnames : first ++ second = names at h
    induction h generalizing first with
    | refl links here =>
        obtain ⟨rfl, rfl⟩ := List.append_eq_nil_iff.mp hnames
        exact ⟨links, here, .refl links here, .refl links here⟩
    | @dot links links' here there rest hleads ih =>
        cases first with
        | nil =>
            obtain rfl : second = _ := hnames
            exact ⟨links, here, .refl links here, .dot hleads⟩
        | cons name first =>
            obtain ⟨rfl, hrest⟩ := List.cons.inj hnames
            obtain ⟨middle, between, hfirst, hsecond⟩ := ih hrest
            exact ⟨middle, between, .dot hfirst, hsecond⟩
    | @up links links' here there rest hleads ih =>
        cases first with
        | nil =>
            obtain rfl : second = _ := hnames
            exact ⟨links, here, .refl links here, .up hleads⟩
        | cons name first =>
            obtain ⟨rfl, hrest⟩ := List.cons.inj hnames
            obtain ⟨middle, between, hfirst, hsecond⟩ := ih hrest
            exact ⟨middle, between, .up hfirst, hsecond⟩
    | @directory links links' here there name rest hdot hup hshort hget hleads ih =>
        cases first with
        | nil =>
            obtain rfl : second = _ := hnames
            exact ⟨links, here, .refl links here, .directory hdot hup hshort hget hleads⟩
        | cons name' first =>
            obtain ⟨rfl, hrest⟩ := List.cons.inj hnames
            obtain ⟨middle, between, hfirst, hsecond⟩ := ih hrest
            exact ⟨middle, between, .directory hdot hup hshort hget hfirst, hsecond⟩
    | @link links links' here there name target rest hdot hup hshort hget hleads ih =>
        cases first with
        | nil =>
            obtain rfl : second = _ := hnames
            exact ⟨links + 1, here, .refl _ here, .link hdot hup hshort hget hleads⟩
        | cons name' first =>
            obtain ⟨rfl, hrest⟩ := List.cons.inj hnames
            have htarget : (namesOfPath target ++ first) ++ second = namesOfPath target ++ rest := by
              rw [List.append_assoc]
              exact congrArg _ hrest
            obtain ⟨middle, between, hfirst, hsecond⟩ := ih htarget
            exact ⟨middle, between, .link hdot hup hshort hget hfirst, hsecond⟩
  · rintro ⟨middle, between, hfirst, hsecond⟩
    induction hfirst with
    | refl => exact hsecond
    | dot _ ih => exact .dot (ih hsecond)
    | up _ ih => exact .up (ih hsecond)
    | directory hdot hup hshort hget _ ih => exact .directory hdot hup hshort hget (ih hsecond)
    | link hdot hup hshort hget _ ih =>
        have hrest := ih hsecond
        rw [List.append_assoc] at hrest
        exact .link hdot hup hshort hget hrest

/-- Dots lead nowhere else. -/
theorem leads_dots_iff {dots : List Text} (h : ∀ name ∈ dots, name = ['.']) :
    disk.Leads links here dots links' there ↔ links' = links ∧ there = here := by
  induction dots with
  | nil =>
      refine ⟨fun hleads => ?_, ?_⟩
      · cases hleads
        exact ⟨rfl, rfl⟩
      · rintro ⟨rfl, rfl⟩
        exact .refl _ _
  | cons name dots ih =>
      have ih := ih fun other hother => h other (List.mem_cons_of_mem name hother)
      have hdot : name = ['.'] := h name List.mem_cons_self
      subst hdot
      rw [← ih]
      refine ⟨fun hleads => ?_, .dot⟩
      cases hleads with
      | dot hleads => exact hleads
      | directory hne => exact absurd rfl hne
      | link hne => exact absurd rfl hne

theorem Leads.links_le {names : List Text} (h : disk.Leads links here names links' there) :
    links' ≤ links := by
  induction h with
  | refl => exact Nat.le_refl _
  | dot _ ih => exact ih
  | up _ ih => exact ih
  | directory _ _ _ _ _ ih => exact ih
  | link _ _ _ _ _ ih => exact Nat.le_succ_of_le ih

/-- What a walk that goes through links at the end says of the disk. -/
def Destination.Stands (disk : Disk) : Destination → Prop
  | .found _ .directory => True
  | .found location (.file file) => location ≠ [] ∧ disk.get? location = some (.file file)
  | .found _ (.link _) => False
  | .free directory name => disk.get? (directory ++ [name]) = none

theorem stands_of_walk {names : List Text} {destination : Destination}
    (h : disk.walk true links here names = .ok destination) :
    Destination.Stands disk destination := by
  induction links using Nat.strongRecOn generalizing here names with
  | _ links ih =>
      obtain rfl | ⟨before, last, rfl⟩ := List.eq_nil_or_concat names
      · rw [walk_nil] at h
        cases h
        trivial
      rw [List.concat_eq_append] at h
      obtain ⟨links', there, hleads⟩ := exists_leads_of_walk (List.cons_ne_nil last []) h
      rw [hleads.walk_append] at h
      by_cases hdot : last = ['.']
      · subst hdot
        rw [walk_dot, walk_nil] at h
        cases h
        trivial
      by_cases hup : last = ['.', '.']
      · subst hup
        rw [walk_up, walk_nil] at h
        cases h
        trivial
      rw [walk_cons hdot hup] at h
      split at h
      · contradiction
      · split at h
        · next hget => cases h; exact hget
        · rw [walk_nil] at h
          cases h
          trivial
        · next file hget => cases h; exact ⟨by simp, hget⟩
        · next target hget =>
            -- A link at the end is gone through, with one link fewer to go.
            have hle := hleads.links_le
            cases links' with
            | zero => contradiction
            | succ fewer => exact ih fewer (by omega) h

/-- What goes further from links goes as far everywhere else. -/
theorem walk_of_afterLink {fewer more : Nat} {destination : Destination}
    (hafter : ∀ here names, disk.afterLink fewer here names = .ok destination →
      disk.afterLink more here names = .ok destination) {names : List Text}
    (h : disk.walk true fewer here names = .ok destination) :
    disk.walk true more here names = .ok destination := by
  induction names generalizing here with
  | nil => rwa [walk_nil] at h ⊢
  | cons name names ih =>
      by_cases hdot : name = ['.']
      · subst hdot
        rw [walk_dot] at h ⊢
        exact ih h
      by_cases hup : name = ['.', '.']
      · subst hup
        rw [walk_up] at h ⊢
        exact ih h
      rw [walk_cons hdot hup] at h ⊢
      split at h
      · contradiction
      · next hshort =>
          rw [if_neg hshort]
          split at h
          · exact h
          · exact ih h
          · exact h
          · exact hafter _ _ h

/-- More links do not spoil a walk. -/
theorem walk_mono {fewer more : Nat} (hle : fewer ≤ more) {names : List Text}
    {destination : Destination} (h : disk.walk true fewer here names = .ok destination) :
    disk.walk true more here names = .ok destination := by
  induction fewer generalizing more here names with
  | zero =>
      refine walk_of_afterLink (fun here names hafter => ?_) h
      rw [afterLink] at hafter
      contradiction
  | succ fewer ih =>
      cases more with
      | zero => exact absurd hle (Nat.not_succ_le_zero fewer)
      | succ more =>
          have hrest := Nat.le_of_succ_le_succ hle
          refine walk_of_afterLink (fun here names hafter => ?_) h
          rw [afterLink] at hafter ⊢
          exact ih hrest hafter

/-- A way that is left when a link is erased, unless it goes through the link. -/
theorem Leads.erase {names : List Text} {directory : Location} {last target : Text}
    (hlink : disk.get? (directory ++ [last]) = some (.link target))
    (h : disk.Leads links here names links' there) :
    (disk.erase (directory ++ [last])).Leads links here names links' there ∨
      ∃ middle links'' between, links' ≤ middle ∧
        disk.Leads middle (if target.head? = some '/' then [] else directory)
          (namesOfPath target) links'' between := by
  have hne : directory ++ [last] ≠ [] := by simp
  induction h with
  | refl links here => exact Or.inl (.refl links here)
  | dot _ ih => exact ih.imp_left .dot
  | up _ ih => exact ih.imp_left .up
  | @directory _ _ here _ name _ hdot hup hshort hget _ ih =>
      refine ih.imp_left (.directory hdot hup hshort ?_)
      rw [get?_erase disk hne, if_neg, hget]
      intro heq
      rw [heq, hlink] at hget
      cases hget
  | @link links links' here there name target' rest hdot hup hshort hget hleads ih =>
      by_cases heq : here ++ [name] = directory ++ [last]
      · obtain ⟨rfl, -⟩ := List.append_inj' heq rfl
        rw [heq, hlink] at hget
        obtain rfl : target = target' := Entry.link.inj (Option.some.inj hget)
        obtain ⟨links'', between, hfirst, -⟩ := leads_append_iff.mp hleads
        exact Or.inr ⟨links, links'', between, hleads.links_le, hfirst⟩
      · refine ih.imp_left (.link hdot hup hshort ?_)
        rw [get?_erase disk hne, if_neg heq, hget]

theorem Leads.mono {names : List Text} (hkeeps : Keeps disk disk')
    (h : disk.Leads links here names links' there) :
    disk'.Leads links here names links' there := by
  induction h with
  | refl links here => exact .refl links here
  | dot _ ih => exact .dot ih
  | up _ ih => exact .up ih
  | directory hdot hup hshort hget _ ih =>
      exact .directory hdot hup hshort (hkeeps _ _ hget rfl) ih
  | link hdot hup hshort hget _ ih => exact .link hdot hup hshort (hkeeps _ _ hget rfl) ih

end TreeSync.Disk
