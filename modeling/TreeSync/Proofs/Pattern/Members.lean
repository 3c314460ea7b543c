import TreeSync.Proofs.Filter.Reading
import TreeSync.Proofs.Pattern.Parts

/-!
# TreeSync.Proofs.Pattern.Members

Where the members of groups stand for nothing but themselves.

A variant of a pattern has a member in the place of each group, as it is: no backslash is
put before a star, a question mark or a slash.  So a member can come to act as a wildcard
or as a separator, and a backslash, which a range can hold, can quote what follows the
group.

* What a variant has more of than the text outside the groups, its members have brought
  (`count_of_mem_combinations`).
* A wildcard is quoted only where a backslash was put before it
  (`Sign.wildcards_of_not_infix`).
* So the wildcards and slashes of all variants are those outside the groups exactly where
  no group has one as a member, and none with a backslash stands before a wildcard
  (`expandGroups_wildcards_iff`).
-/

namespace TreeSync

/-! ## wildcards -/

/-- How often a character acts as a wildcard in a pattern. -/
def wildcards (c : Char) (pattern : Text) : Nat := (signsOf pattern).count (.wildcard c)

namespace Sign

/-- Only a wildcard itself is read as that wildcard. -/
theorem plain_eq_wildcard_iff {c d : Char} (hc : isWild c = true) :
    plain d = .wildcard c ↔ d = c := by
  unfold plain
  split <;> simp_all
  rintro rfl
  simp_all

/-- In front of the first backslash every character is plain. -/
theorem readQuoted_append {a : Text} (h : '\\' ∉ a) (b : Text) :
    readQuoted (a ++ b) = a.map plain ++ readQuoted b := by
  induction a with
  | nil => rfl
  | cons c a ih =>
      rw [List.mem_cons, not_or] at h
      rw [List.cons_append, readQuoted_cons (Ne.symm h.1), ih h.2, List.map_cons, List.cons_append]

/-- Plain reading keeps the number of wildcards. -/
theorem count_map_plain {c : Char} (hc : isWild c = true) (t : Text) :
    (t.map plain).count (.wildcard c) = t.count c := by
  induction t with
  | nil => rfl
  | cons d t ih => simp [List.count_cons, ih, plain_eq_wildcard_iff hc]

/-- No more characters act as wildcards than there are. -/
theorem count_readQuoted_le {c : Char} (hc : isWild c = true) (t : Text) :
    (readQuoted t).count (.wildcard c) ≤ t.count c := by
  fun_induction readQuoted t with
  | case1 => simp
  | case2 d r ih =>
      rw [List.count_cons_of_ne (by simp), List.count_cons, List.count_cons]
      omega
  | case3 d r hd ih => simpa [List.count_cons, plain_eq_wildcard_iff hc] using ih

/-- All of them do where no backslash stands before one. -/
theorem count_readQuoted {c : Char} (hc : isWild c = true) {t : Text}
    (h : ¬ ['\\', c] <:+: t) : (readQuoted t).count (.wildcard c) = t.count c := by
  fun_induction readQuoted t with
  | case1 => simp
  | case2 d r ih =>
      have hslash : '\\' ≠ c := by
        rintro rfl
        exact absurd hc (by decide)
      have hd : d ≠ c := by
        rintro rfl
        exact h ⟨[], r, rfl⟩
      have hr : ¬ ['\\', c] <:+: r :=
        fun hwithin => h (hwithin.trans (List.suffix_append ['\\', d] r).isInfix)
      rw [List.count_cons_of_ne (by simp), List.count_cons_of_ne hslash, List.count_cons_of_ne hd,
        ih hr]
  | case3 d r hd ih =>
      have hr : ¬ ['\\', c] <:+: r := fun hwithin => h (List.infix_cons hwithin)
      simp [List.count_cons, plain_eq_wildcard_iff hc, ih hr]

/-- **Wildcards of a text** are those that are left when its quotes are read. -/
theorem wildcards_eq_count_readQuoted {c : Char} (hc : isWild c = true) (t : Text) :
    wildcards c t = (readQuoted t).count (.wildcard c) := by
  rw [wildcards, signsOf, read]
  split
  · rfl
  · next hwild =>
      -- Without a wildcard in it, the pattern has no such character at all.
      have hmem : c ∉ t := fun hmem => hwild (List.any_eq_true.mpr ⟨c, hmem, hc⟩)
      have hnone : (readQuoted t).count (.wildcard c) = 0 := by
        have hle := count_readQuoted_le hc t
        rw [List.count_eq_zero.mpr hmem] at hle
        omega
      rw [hnone, List.count_eq_zero]
      simp

/-- **A character acts as a wildcard wherever it stands**, unless after a backslash. -/
theorem wildcards_of_not_infix {c : Char} (hc : isWild c = true) {t : Text}
    (h : ¬ ['\\', c] <:+: t) : wildcards c t = t.count c := by
  rw [wildcards_eq_count_readQuoted hc, count_readQuoted hc h]

/-- Without backslashes they are the wildcard characters. -/
theorem wildcards_of_not_mem {c : Char} (hc : isWild c = true) {t : Text} (h : '\\' ∉ t) :
    wildcards c t = t.count c :=
  wildcards_of_not_infix hc fun hwithin => h (hwithin.subset List.mem_cons_self)

/-- The first backslash of a pattern quotes the wildcard behind it. -/
theorem wildcards_quoted_lt {c : Char} (hc : isWild c = true) {a : Text} (h : '\\' ∉ a)
    (b : Text) : wildcards c (a ++ '\\' :: c :: b) < (a ++ '\\' :: c :: b).count c := by
  have hb := count_readQuoted_le hc b
  have hslash : '\\' ≠ c := by
    rintro rfl
    exact absurd hc (by decide)
  rw [wildcards_eq_count_readQuoted hc, readQuoted_append h, readQuoted, List.count_append,
    List.count_append, count_map_plain hc, List.count_cons_of_ne (by simp),
    List.count_cons_of_ne hslash, List.count_cons_self]
  omega

end Sign

namespace Pattern

namespace Part

/-! ## what the parts are put together to -/

/-- The text outside the groups. -/
def outside (parts : List Part) : Text :=
  parts.filterMap fun
    | .char c => some c
    | .group _ => none

@[simp] theorem outside_char_cons (c : Char) (parts : List Part) :
    outside (.char c :: parts) = c :: outside parts := rfl

@[simp] theorem outside_group_cons (body : Text) (parts : List Part) :
    outside (.group body :: parts) = outside parts := rfl

theorem offers_char_iff {c d : Char} : (Part.char c).Offers d ↔ d = c := by
  simp [Offers, choices]

/-- A group offers its members. -/
theorem offers_group_iff {body : Text} (h : (Part.group body).isNegated = false) {c : Char} :
    (Part.group body).Offers c ↔ c ∈ members body := by
  rw [isNegated] at h
  simp [Offers, choices, h]

/-- A combination holds the text outside the groups. -/
theorem count_outside_le {parts : List Part} {t : Text} (ht : t ∈ combinations parts) (c : Char) :
    (outside parts).count c ≤ t.count c := by
  induction parts generalizing t with
  | nil => simp_all [outside, combinations]
  | cons part parts ih =>
      obtain ⟨d, r, rfl, hd, hr⟩ := mem_combinations_cons.mp ht
      have hle := ih hr
      cases part with
      | char e =>
          obtain rfl := offers_char_iff.mp hd
          rw [outside_char_cons, List.count_cons, List.count_cons]
          omega
      | group body =>
          rw [outside_group_cons, List.count_cons]
          omega

/-- **What no group offers**, a combination has from outside the groups alone. -/
theorem count_of_mem_combinations {parts : List Part} {t : Text} (ht : t ∈ combinations parts)
    {c : Char} (hc : ∀ body, .group body ∈ parts → ¬ (Part.group body).Offers c) :
    t.count c = (outside parts).count c := by
  induction parts generalizing t with
  | nil => simp_all [outside, combinations]
  | cons part parts ih =>
      obtain ⟨d, r, rfl, hd, hr⟩ := mem_combinations_cons.mp ht
      have hrest := ih hr fun body hbody => hc body (List.mem_cons_of_mem part hbody)
      cases part with
      | char e =>
          obtain rfl := offers_char_iff.mp hd
          rw [outside_char_cons, List.count_cons, List.count_cons, hrest]
      | group body =>
          have hne : d ≠ c := by
            rintro rfl
            exact hc body List.mem_cons_self hd
          rw [outside_group_cons, List.count_cons_of_ne hne, hrest]

/-- Characters side by side in a combination are offered by parts side by side. -/
theorem exists_offers_of_infix {parts : List Part} {t : Text} (ht : t ∈ combinations parts)
    {a b : Char} (h : [a, b] <:+: t) :
    ∃ p q, [p, q] <:+: parts ∧ p.Offers a ∧ q.Offers b := by
  induction parts generalizing t with
  | nil => simp_all [combinations]
  | cons part parts ih =>
      obtain ⟨d, r, rfl, hd, hr⟩ := mem_combinations_cons.mp ht
      obtain hhere | hlater := List.infix_cons_iff.mp h
      · obtain ⟨rfl, hprefix⟩ := List.cons_prefix_cons.mp hhere
        cases parts with
        | nil => simp_all [combinations]
        | cons next parts =>
            obtain ⟨e, r', rfl, he, -⟩ := mem_combinations_cons.mp hr
            obtain ⟨rfl, -⟩ := List.cons_prefix_cons.mp hprefix
            exact ⟨part, next, ⟨[], parts, rfl⟩, hd, he⟩
      · obtain ⟨p, q, hwithin, hoffers⟩ := ih hr hlater
        exact ⟨p, q, List.infix_cons hwithin, hoffers⟩

/-- Combinations of two lists of parts, one behind the other. -/
theorem append_mem_combinations {front parts : List Part} {s t : Text}
    (hs : s ∈ combinations front) (ht : t ∈ combinations parts) :
    s ++ t ∈ combinations (front ++ parts) := by
  induction front generalizing s with
  | nil => simp_all [combinations]
  | cons part front ih =>
      obtain ⟨c, r, rfl, hc, hr⟩ := mem_combinations_cons.mp hs
      exact mem_combinations_cons.mpr ⟨c, r ++ t, rfl, hc, ih hr⟩

/-- What stands outside the groups of two lists of parts. -/
theorem outside_append (front parts : List Part) :
    outside (front ++ parts) = outside front ++ outside parts := List.filterMap_append

/-! ## the parts of a pattern without backslashes -/

section
variable {pattern : Text} (hquote : '\\' ∉ pattern)
include hquote

/-- Every part offers something that is no backslash: a body begins with a member. -/
theorem exists_offers_ne {part : Part} (h : part ∈ ofText pattern) :
    ∃ c, part.Offers c ∧ c ≠ '\\' := by
  have hoffers : ∃ c, part.Offers c := exists_offers h
  cases part with
  | char c =>
      refine ⟨c, offers_char_iff.mpr rfl, ?_⟩
      rintro rfl
      exact hquote (mem_of_char_mem h)
  | group body =>
      by_cases hnegated : (negated? body).isSome = true
      · exact ⟨'?', by simp [Offers, choices, hnegated], by decide⟩
      · cases body with
        | nil => simp [Offers, choices, members, ranges, negated?] at hoffers
        | cons b body =>
            refine ⟨b, by simp [Offers, choices, hnegated, mem_members], ?_⟩
            rintro rfl
            have hmem : '\\' ∈ (ofText pattern).flatMap text :=
              List.mem_flatMap.mpr ⟨_, h, by simp [text]⟩
            rw [flatMap_text_ofText] at hmem
            exact hquote hmem

/-- Some parts in a row can be put together without a backslash. -/
theorem exists_plain_combination (parts : List Part) (h : parts ⊆ ofText pattern) :
    ∃ t ∈ combinations parts, '\\' ∉ t := by
  induction parts with
  | nil => exact ⟨[], by simp [combinations], by simp⟩
  | cons part parts ih =>
      rw [List.cons_subset] at h
      obtain ⟨c, hc, hne⟩ := exists_offers_ne hquote h.1
      obtain ⟨t, ht, hplain⟩ := ih h.2
      exact ⟨c :: t, mem_combinations_cons.mpr ⟨c, t, rfl, hc, ht⟩, by simp [hplain, Ne.symm hne]⟩

/-- What a group offers can be put in its place, with no backslash anywhere. -/
theorem exists_count_outside_lt {body : Text} (hbody : .group body ∈ ofText pattern) {c : Char}
    (hoffers : (Part.group body).Offers c) (hc : c ≠ '\\') :
    ∃ t ∈ combinations (ofText pattern), '\\' ∉ t ∧
      (outside (ofText pattern)).count c < t.count c := by
  obtain ⟨front, rest, hparts⟩ := List.append_of_mem hbody
  obtain ⟨s, hs, hfront⟩ := exists_plain_combination hquote front (by simp [hparts])
  obtain ⟨t, ht, hrest⟩ := exists_plain_combination hquote rest (by simp [hparts])
  refine ⟨s ++ c :: t, ?_, ?_, ?_⟩
  · rw [hparts]
    exact append_mem_combinations hs (mem_combinations_cons.mpr ⟨c, t, rfl, hoffers, ht⟩)
  · simp [hfront, hrest, Ne.symm hc]
  · have hle := count_outside_le hs c
    have hle' := count_outside_le ht c
    rw [hparts, outside_append, outside_group_cons, List.count_append, List.count_append,
      List.count_cons_self]
    omega

/-- In a pattern without backslashes they are the wildcard characters outside of groups. -/
theorem wildcards_outside {c : Char} (hc : Sign.isWild c = true) :
    wildcards c (outside (ofText pattern)) = (outside (ofText pattern)).count c := by
  refine Sign.wildcards_of_not_mem hc fun hmem => hquote ?_
  obtain ⟨part, hpart, h⟩ := List.mem_filterMap.mp hmem
  cases part with
  | char d =>
      obtain rfl := Option.some.inj h
      exact mem_of_char_mem hpart
  | group body => contradiction

/-- **Which wildcards the combinations have**: those outside the groups exactly where no
group offers one, and none that offers a backslash stands before one. -/
theorem combinations_wildcards_iff {c : Char} (hc : Sign.isWild c = true) :
    (∀ t ∈ combinations (ofText pattern),
        wildcards c t = wildcards c (outside (ofText pattern))) ↔
      (∀ body, .group body ∈ ofText pattern → ¬ (Part.group body).Offers c) ∧
        ∀ body, [.group body, .char c] <:+: ofText pattern →
          ¬ (Part.group body).Offers '\\' := by
  have hslash : c ≠ '\\' := by
    rintro rfl
    exact absurd hc (by decide)
  rw [wildcards_outside hquote hc]
  constructor
  · intro h
    have hoffers : ∀ body, .group body ∈ ofText pattern → ¬ (Part.group body).Offers c := by
      intro body hbody hoffers
      obtain ⟨t, ht, hplain, hlt⟩ := exists_count_outside_lt hquote hbody hoffers hslash
      have heq := h t ht
      rw [Sign.wildcards_of_not_mem hc hplain] at heq
      omega
    refine ⟨hoffers, fun body hwithin hbackslash => ?_⟩
    obtain ⟨front, rest, hparts⟩ := hwithin
    obtain ⟨s, hs, hfront⟩ := exists_plain_combination hquote front (by simp [← hparts])
    have hrest : rest ⊆ ofText pattern := hparts ▸ List.subset_append_right _ rest
    obtain ⟨t, ht, -⟩ := exists_plain_combination hquote rest hrest
    have hpair : ['\\', c] ∈ combinations [.group body, .char c] :=
      mem_combinations_cons.mpr ⟨_, _, rfl, hbackslash, by simp [combinations, choices]⟩
    have hwhole : s ++ '\\' :: c :: t ∈ combinations (ofText pattern) := by
      rw [← hparts, List.append_assoc]
      exact append_mem_combinations hs (append_mem_combinations hpair ht)
    have hlt := Sign.wildcards_quoted_lt hc hfront t
    rw [h _ hwhole, count_of_mem_combinations hwhole hoffers] at hlt
    exact absurd hlt (Nat.lt_irrefl _)
  · intro h t ht
    obtain ⟨hoffers, hbackslash⟩ := h
    rw [← count_of_mem_combinations ht hoffers]
    refine Sign.wildcards_of_not_infix hc fun hwithin => ?_
    obtain ⟨p, q, hparts, hp, hq⟩ := exists_offers_of_infix ht hwithin
    -- A backslash comes from a group, and what it stands before from outside the groups.
    cases p with
    | char d =>
        obtain rfl := offers_char_iff.mp hp
        exact hquote (mem_of_char_mem (hparts.subset List.mem_cons_self))
    | group body =>
        cases q with
        | char d =>
            obtain rfl := offers_char_iff.mp hq
            exact hbackslash body hparts hp
        | group other => exact hoffers other (hparts.subset (by simp)) hq

/-- The same for slashes, which no backslash keeps from being one. -/
theorem combinations_slashes_iff :
    (∀ t ∈ combinations (ofText pattern), t.count '/' = (outside (ofText pattern)).count '/') ↔
      ∀ body, .group body ∈ ofText pattern → ¬ (Part.group body).Offers '/' := by
  constructor
  · intro h body hbody hoffers
    obtain ⟨t, ht, -, hlt⟩ := exists_count_outside_lt hquote hbody hoffers (by decide)
    rw [h t ht] at hlt
    exact absurd hlt (Nat.lt_irrefl _)
  · exact fun h t ht => count_of_mem_combinations ht h

variable (hplain : ∀ part ∈ ofText pattern, part.isNegated = false)
include hplain

/-- Where no group is negated, what groups offer are their members. -/
theorem members_wildcards_iff {c : Char} (hc : Sign.isWild c = true) :
    (∀ t ∈ combinations (ofText pattern),
        wildcards c t = wildcards c (outside (ofText pattern))) ↔
      (∀ body, .group body ∈ ofText pattern → c ∉ members body) ∧
        ∀ body, [.group body, .char c] <:+: ofText pattern → '\\' ∉ members body := by
  rw [combinations_wildcards_iff hquote hc]
  refine and_congr (forall₂_congr fun body hbody => ?_) (forall₂_congr fun body hwithin => ?_)
  · rw [offers_group_iff (hplain _ hbody)]
  · rw [offers_group_iff (hplain _ (hwithin.subset List.mem_cons_self))]

/-- No variant has other slashes than the pattern where no group has one for a member.
-/
theorem members_slashes_iff :
    (∀ t ∈ combinations (ofText pattern), t.count '/' = (outside (ofText pattern)).count '/') ↔
      ∀ body, .group body ∈ ofText pattern → '/' ∉ members body := by
  rw [combinations_slashes_iff hquote]
  exact forall₂_congr fun body hbody => by rw [offers_group_iff (hplain _ hbody)]

end

end Part

/-! ## the variants -/

/-- The members of the groups of a pattern stand for nothing but themselves. -/
structure MembersLiteral (pattern : Text) : Prop where
  /-- No member is a wildcard or a separator. -/
  plain : ∀ body, .group body ∈ Part.ofText pattern →
    '*' ∉ members body ∧ '?' ∉ members body ∧ '/' ∉ members body
  /-- No member quotes what follows the group. -/
  unquoting : ∀ body c, [.group body, .char c] <:+: Part.ofText pattern →
    '\\' ∈ members body → c ≠ '*' ∧ c ≠ '?'

/-- **The variants of a pattern have its wildcards and slashes**, and no more and no fewer,
exactly where the members of its groups stand for nothing but themselves. -/
theorem expandGroups_wildcards_iff {pattern : Text} (hquote : '\\' ∉ pattern)
    (hplain : ∀ part ∈ Part.ofText pattern, part.isNegated = false)
    (hfits : groupsFit pattern = true) :
    (∀ variant ∈ expandGroups pattern,
        wildcards '*' variant = wildcards '*' (Part.outside (Part.ofText pattern)) ∧
        wildcards '?' variant = wildcards '?' (Part.outside (Part.ofText pattern)) ∧
        variant.count '/' = (Part.outside (Part.ofText pattern)).count '/') ↔
      MembersLiteral pattern := by
  have hstars := Part.members_wildcards_iff hquote hplain (c := '*') (by decide)
  have hquestions := Part.members_wildcards_iff hquote hplain (c := '?') (by decide)
  have hslashes := Part.members_slashes_iff hquote hplain
  rw [expandGroups, if_pos hfits]
  constructor
  · intro h
    obtain ⟨hstar, hstar'⟩ := hstars.mp fun t ht => (h t ht).1
    obtain ⟨hquestion, hquestion'⟩ := hquestions.mp fun t ht => (h t ht).2.1
    have hslash := hslashes.mp fun t ht => (h t ht).2.2
    refine ⟨fun body hbody => ⟨hstar body hbody, hquestion body hbody, hslash body hbody⟩,
      fun body c hwithin hmem => ⟨?_, ?_⟩⟩
    · rintro rfl
      exact hstar' body hwithin hmem
    · rintro rfl
      exact hquestion' body hwithin hmem
  · intro h
    have hstar := hstars.mpr ⟨fun body hbody => (h.plain body hbody).1,
      fun body hwithin hmem => (h.unquoting body '*' hwithin hmem).1 rfl⟩
    have hquestion := hquestions.mpr ⟨fun body hbody => (h.plain body hbody).2.1,
      fun body hwithin hmem => (h.unquoting body '?' hwithin hmem).2 rfl⟩
    have hslash := hslashes.mpr fun body hbody => (h.plain body hbody).2.2
    exact fun t ht => ⟨hstar t ht, hquestion t ht, hslash t ht⟩

/-- A range that holds a backslash, before a character that is no wildcard. -/
theorem expandGroups_wildcards_iff_ranged :
    '\\' ∉ "v[Z-a]x*.[ch]/?".toList ∧
      (∀ part ∈ Part.ofText "v[Z-a]x*.[ch]/?", part.isNegated = false) ∧
      groupsFit "v[Z-a]x*.[ch]/?" = true ∧
      ((∀ variant ∈ expandGroups "v[Z-a]x*.[ch]/?",
          wildcards '*' variant = wildcards '*' (Part.outside (Part.ofText "v[Z-a]x*.[ch]/?")) ∧
          wildcards '?' variant = wildcards '?' (Part.outside (Part.ofText "v[Z-a]x*.[ch]/?")) ∧
          variant.count '/' = (Part.outside (Part.ofText "v[Z-a]x*.[ch]/?")).count '/') ↔
        MembersLiteral "v[Z-a]x*.[ch]/?") :=
  ⟨by decide, by decide, by decide, expandGroups_wildcards_iff (by decide) (by decide) (by decide)⟩

/-- A star as a member acts as a wildcard. -/
theorem member_acts_as_wildcard :
    '\\' ∉ "a[*]b".toList ∧ (∀ part ∈ Part.ofText "a[*]b", part.isNegated = false) ∧
      groupsFit "a[*]b" = true ∧ expandGroups "a[*]b" = ["a*b".toList] ∧
      wildcards '*' "a*b" = 1 ∧ wildcards '*' (Part.outside (Part.ofText "a[*]b")) = 0 := by
  decide

end Pattern

end TreeSync
