import TreeSync.Engine.Config

/-!
# TreeSync.Proofs.Engine.Literal

What the engine reads back from its configuration.

The values of a configuration stand between double quotes, and the engine reads
it from the left.  Every literal ends where it was meant to end, so the literals
that are read are the values that were written, each in its place
(`literals?_configText`):

* `readLiteral?_escape_append` — a literal is read back as the text it was made
  of, whatever follows it;
* `Double.quote_not_mem_text` — what stands between the literals holds no double
  quote, and neither does the number among it;
* `literals?_setting` — so a line with a literal adds the value of that literal
  to those of the lines after it.
-/

namespace TreeSync

/-! ## the number -/

namespace Decimal

/-- A decimal is written with digits and a point. -/
theorem of_mem_text {d : Decimal} {c : Char} (hc : c ∈ d.text) : c.isDigit = true ∨ c = '.' := by
  have hdigits : ∀ c ∈ Text.ofNat d.digits, c.isDigit = true :=
    fun _ => Nat.isDigit_of_mem_toDigits (by decide) (by decide)
  have hzeros : ∀ {n : Nat} {c : Char}, c ∈ List.replicate n '0' → c.isDigit = true := by
    intro n c hc
    rw [List.eq_of_mem_replicate hc]
    decide
  simp only [text] at hc
  split at hc
  · obtain hc | hc := List.mem_append.mp hc
    · exact .inl (hdigits c hc)
    · exact .inl (hzeros hc)
  · simp only [List.mem_append, List.mem_singleton] at hc
    have hpadded : ∀ {n : Nat}, c ∈ List.replicate n '0' ++ Text.ofNat d.digits →
        c.isDigit = true := by
      intro n hc
      obtain hc | hc := List.mem_append.mp hc
      · exact hzeros hc
      · exact hdigits c hc
    obtain (hc | hc) | hc := hc
    · exact .inl (hpadded (List.mem_of_mem_take hc))
    · exact .inr hc
    · exact .inl (hpadded (List.mem_of_mem_drop hc))

end Decimal

/-- No double has a quote in its text, infinite ones and those that are no number
included. -/
theorem Double.quote_not_mem_text (d : Double) : '"' ∉ d.text := by
  intro hc
  cases d with
  | finite negative significand exponent =>
      have hdigits : '"' ∉
          if significand = 0 then ['0'] else (shortest significand exponent).text := by
        split
        · decide
        · intro hc
          have := Decimal.of_mem_text hc
          revert this
          decide
      rw [text] at hc
      cases negative <;> simp_all
  | infinite negative =>
      revert hc
      cases negative <;> decide
  | nan =>
      revert hc
      decide

namespace Engine

/-! ## one literal -/

/-- A character is read back from its escape. -/
theorem readLiteral?_escape (c : Char) (r : Text) :
    readLiteral? (escape c ++ r) = (readLiteral? r).map fun (t, rest) => (c :: t, rest) := by
  unfold escape
  split
  case h_6 hslash hquote hfeed hreturn htab =>
    rw [List.singleton_append, readLiteral?, if_neg (by simp_all)]
    · exact hquote
    · exact fun _ _ h => absurd h hslash
  all_goals simp [readLiteral?, unescape?]

/-- **A literal ends where it was meant to**: after its opening quote it reads as
the text it was made of, whatever follows. -/
theorem readLiteral?_escape_append (t rest : Text) :
    readLiteral? (t.flatMap escape ++ '"' :: rest) = some (t, rest) := by
  induction t with
  | nil => simp [readLiteral?]
  | cons c t ih =>
      rw [List.flatMap_cons, List.append_assoc, readLiteral?_escape, ih]
      rfl

/-- Something of the text is used up by a literal. -/
theorem length_lt_of_readLiteral? {r t rest : Text} (h : readLiteral? r = some (t, rest)) :
    rest.length < r.length := by
  induction r using readLiteral?.induct generalizing t rest with
  | case1 => simp [readLiteral?] at h
  | case2 r => simp_all [readLiteral?]
  | case3 c r ih =>
      simp only [readLiteral?, Option.bind_eq_some_iff, Option.map_eq_some_iff] at h
      obtain ⟨_, _, ⟨t', rest'⟩, hread, hpair⟩ := h
      have hlt := ih hread
      simp only [Prod.mk.injEq] at hpair
      simp only [List.length_cons, ← hpair.2]
      omega
  | case4 c r hquote hslash hbad => simp [readLiteral?, *] at h
  | case5 c r hquote hslash hbad ih =>
      simp only [readLiteral?, hbad, if_false, Option.map_eq_some_iff] at h
      obtain ⟨⟨t', rest'⟩, hread, hpair⟩ := h
      have hlt := ih hread
      simp only [Prod.mk.injEq] at hpair
      simp only [List.length_cons, ← hpair.2]
      omega

/-! ## the literals of a text -/

/-- The literals of a text, read from the left; what stands outside of them is
passed over. -/
def literals? : Text → Option (List Text)
  | [] => some []
  | c :: r =>
      if c = '"' then
        match _h : readLiteral? r with
        | some (t, rest) => (literals? rest).map (t :: ·)
        | none => none
      else literals? r
termination_by r => r.length
decreasing_by
  · have := length_lt_of_readLiteral? _h
    simp only [List.length_cons]
    omega
  · simp

/-- Text without quotes has no part in the literals. -/
theorem literals?_append {t : Text} (h : '"' ∉ t) (rest : Text) :
    literals? (t ++ rest) = literals? rest := by
  induction t with
  | nil => rfl
  | cons c t ih =>
      simp only [List.mem_cons, not_or] at h
      rw [List.cons_append, literals?, if_neg (Ne.symm h.1), ih h.2]

theorem literals?_literal_append (t rest : Text) :
    literals? (literal t ++ rest) = (literals? rest).map (t :: ·) := by
  have hread := readLiteral?_escape_append t rest
  rw [literal, List.cons_append, List.append_assoc, List.singleton_append, literals?, if_pos rfl]
  split
  · next t' rest' h =>
      rw [hread] at h
      cases h
      rfl
  · next h =>
      rw [hread] at h
      contradiction

/-! ## the lines of a configuration -/

/-- A line with a literal. -/
theorem literals?_setting {name : Text} (hname : '"' ∉ name) (indent : Nat) (value rest : Text) :
    literals? (setting indent name (literal value) ++ rest) =
      (literals? rest).map (value :: ·) := by
  have hbefore : '"' ∉ List.replicate indent ' ' ++ name ++ " = ".toList := by
    simp [hname]
  simp only [setting, List.append_assoc]
  rw [← List.append_assoc, ← List.append_assoc, literals?_append hbefore,
    literals?_literal_append, literals?_append (by decide)]

/-- A line without a literal. -/
theorem literals?_setting_of_not_mem {name value : Text} (hname : '"' ∉ name)
    (hvalue : '"' ∉ value) (indent : Nat) (rest : Text) :
    literals? (setting indent name value ++ rest) = literals? rest :=
  literals?_append (by simp [setting, hname, hvalue]) rest

/-- The line of a filter rule. -/
theorem literals?_filterLine (rule : FilterRule) (rest : Text) :
    literals? (filterLine rule ++ rest) = (literals? rest).map (rule.line :: ·) := by
  unfold filterLine
  rw [List.append_assoc, List.append_assoc, literals?_append (by simp),
    literals?_literal_append, literals?_append (by simp)]

theorem literals?_filterLines (rules : List FilterRule) (rest : Text) :
    literals? (rules.flatMap filterLine ++ rest) =
      (literals? rest).map (rules.map FilterRule.line ++ ·) := by
  induction rules with
  | nil => simp
  | cons rule rules ih =>
      rw [List.flatMap_cons, List.append_assoc, literals?_filterLine, ih]
      simp [Function.comp_def]

/-! ## the configuration -/

/-- `s` is `t` with exactly one slash at its end. -/
def EndsOnce (t s : Text) : Prop :=
  ∃ base n, t = base ++ List.replicate n '/' ∧ base.getLast? ≠ some '/' ∧ s = base ++ ['/']

theorem endsOnce_withSlash (t : Text) : EndsOnce t (withSlash t) := by
  obtain ⟨n, ht⟩ := Text.eq_dropEndWhile_append '/' t
  exact ⟨Text.dropEndWhile (· == '/') t, n, ht, Text.getLast?_dropEndWhile_ne '/' t, rfl⟩

/-- **The values of a configuration stay in their places.**  Its literals are the
paths of the log and of the process, the root and the target with one slash at
the end, the word for deleting, the filter rules in their order, and the path of
the script, whatever characters these are made of. -/
theorem literals?_configText (config : SessionConfig) (filters : FilterSet) :
    ∃ root target, EndsOnce config.root root ∧
      EndsOnce (config.host ++ ":".toList ++ config.remotePath) target ∧
      literals? (configText config filters) =
        some ([config.logPath, config.pidPath, root, target, "running".toList] ++ filters.lines ++
          [config.shimPath]) := by
  refine ⟨withSlash config.root, withSlash config.target, endsOnce_withSlash _,
    endsOnce_withSlash _, ?_⟩
  have hdelay := config.delay.quote_not_mem_text
  have hflag : '"' ∉ flag config.compress := by cases config.compress <;> decide
  unfold configText
  simp only [List.append_assoc]
  rw [literals?_append (by simp), literals?_setting (by simp), literals?_setting (by simp),
    literals?_setting_of_not_mem (by simp) (by simp), literals?_append (by simp),
    literals?_append (by simp), literals?_setting (by simp), literals?_setting (by simp),
    literals?_setting (by simp), literals?_setting_of_not_mem (by simp) hdelay,
    literals?_append (by simp), literals?_filterLines, literals?_append (by simp),
    literals?_setting (by simp), literals?_setting_of_not_mem (by simp) (by simp),
    literals?_setting_of_not_mem (by simp) hflag]
  simp [literals?, FilterSet.lines]

end Engine

end TreeSync
