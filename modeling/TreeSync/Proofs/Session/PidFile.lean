import TreeSync.Proofs.Session.Status
import TreeSync.Proofs.Text.Trimming
import Mathlib.Algebra.Order.Ring.Nat

/-!
# TreeSync.Proofs.Session.PidFile

The process numbers that are read from process files.

1. A text spells a number by decimal digits, with a plus sign or without, between blanks
   (`Spells`).  It spells one number at most, as all of this can be told from the text
   (`spells_iff`).
2. A process number is read from the texts that spell it (`ofText?_eq_some_iff`).
3. Digits can be read in 32 bits, one after the other, until one does not fit
   (`wordOfDigits`).  More digits make no number smaller, so what is given up on the way
   would have too many bits in the end as well (`toNat_foldlM_pushDigit`).
-/

namespace TreeSync.PidFile

/-! ## spelling a number -/

/-- A text spells a number: it is decimal digits of that value, zeros in front included,
that may have a plus sign, and may stand between blanks. -/
def Spells (text : Text) (n : Nat) : Prop :=
  ∃ before sign digits after : Text, text = before ++ (sign ++ digits) ++ after ∧
    (∀ c ∈ before, Text.isBlank c = true) ∧ (∀ c ∈ after, Text.isBlank c = true) ∧
    (sign = [] ∨ sign = ['+']) ∧ digits ≠ [] ∧ (∀ c ∈ digits, c.isDigit = true) ∧
    Nat.ofDigitChars 10 digits 0 = n

/-- What is behind a plus sign, if there is one. -/
def unsigned : Text → Text
  | '+' :: r => r
  | r => r

theorem isDigit_iff {c : Char} : c.isDigit = true ↔ '0' ≤ c ∧ c ≤ '9' := by
  simp [Char.isDigit, Char.le_def]

/-- No digit is blank. -/
theorem isBlank_of_isDigit {c : Char} (h : c.isDigit = true) : Text.isBlank c = false := by
  have hcode : 48 ≤ c.toNat ∧ c.toNat ≤ 57 := by
    simpa [isDigit_iff, Char.le_def, UInt32.le_iff_toNat_le] using h
  simp only [Text.isBlank, Text.blankRanges, List.any_cons, List.any_nil, Bool.or_false,
    Bool.or_eq_false_iff, Bool.and_eq_false_iff, decide_eq_false_iff_not]
  omega

/-- Digits are what is left without their sign. -/
theorem unsigned_of_digits {sign digits : Text} (hsign : sign = [] ∨ sign = ['+'])
    (hdigits : ∀ c ∈ digits, c.isDigit = true) : unsigned (sign ++ digits) = digits := by
  obtain rfl | rfl := hsign
  · rw [List.nil_append, unsigned.eq_def]
    split
    · exact absurd (hdigits '+' List.mem_cons_self) (by decide)
    · rfl
  · rfl

/-- A word is its sign, if any, and the rest. -/
theorem exists_eq_append_unsigned (word : Text) :
    ∃ sign, word = sign ++ unsigned word ∧ (sign = [] ∨ sign = ['+']) := by
  rw [unsigned.eq_def]
  split
  · exact ⟨['+'], rfl, .inr rfl⟩
  · exact ⟨[], rfl, .inl rfl⟩

/-- What a text spells is told by its digits, without blanks and sign. -/
theorem spells_iff {text : Text} {n : Nat} :
    Spells text n ↔ unsigned (Text.trim text) ≠ [] ∧
      (∀ c ∈ unsigned (Text.trim text), c.isDigit = true) ∧
      Nat.ofDigitChars 10 (unsigned (Text.trim text)) 0 = n := by
  constructor
  · rintro ⟨before, sign, digits, after, rfl, hbefore, hafter, hsign, hne, hdigits, hvalue⟩
    have hword : ∀ c ∈ sign ++ digits, Text.isBlank c = false := by
      intro c hc
      obtain hc | hc := List.mem_append.mp hc
      · obtain rfl | rfl := hsign
        · cases hc
        · rw [List.mem_singleton.mp hc]
          decide
      · exact isBlank_of_isDigit (hdigits c hc)
    rw [Text.trim_append hbefore hword hafter, unsigned_of_digits hsign hdigits]
    exact ⟨hne, hdigits, hvalue⟩
  · rintro ⟨hne, hdigits, hvalue⟩
    obtain ⟨before, after, htext, hbefore, hafter⟩ := Text.exists_eq_append_trim text
    obtain ⟨sign, hword, hsign⟩ := exists_eq_append_unsigned (Text.trim text)
    exact ⟨before, sign, unsigned (Text.trim text), after, by rw [← hword, ← htext], hbefore,
      hafter, hsign, hne, hdigits, hvalue⟩

/-- A text spells at most one number. -/
theorem Spells.unique {text : Text} {m n : Nat} (hm : Spells text m) (hn : Spells text n) :
    m = n :=
  (spells_iff.mp hm).2.2.symm.trans (spells_iff.mp hn).2.2

/-- A number in decimal spells itself, also between blanks. -/
theorem spells_ofNat (n : Nat) {before after : Text}
    (hbefore : ∀ c ∈ before, Text.isBlank c = true)
    (hafter : ∀ c ∈ after, Text.isBlank c = true) :
    Spells (before ++ Text.ofNat n ++ after) n :=
  ⟨before, [], Text.ofNat n, after, by rw [List.nil_append], hbefore, hafter, .inl rfl,
    Nat.toDigits_ne_nil, fun _ => Nat.isDigit_of_mem_toDigits (by decide) (by decide),
    Nat.ofDigitChars_toDigits (by decide) (by decide)⟩

/-! ## reading what is spelled -/

/-- Digits have their values. -/
theorem mapM_digit? {cs : Text} (h : ∀ c ∈ cs, c.isDigit = true) :
    cs.mapM Text.digit? = some (cs.map fun c => c.toNat - '0'.toNat) := by
  induction cs with
  | nil => rfl
  | cons c cs ih =>
      obtain ⟨hc, hcs⟩ := List.forall_mem_cons.mp h
      simp [Text.digit?, if_pos (isDigit_iff.mp hc), ih hcs]

/-- Only digits have values. -/
theorem isDigit_of_mapM_digit? {cs : Text} {ds : List Nat} (h : cs.mapM Text.digit? = some ds) :
    ∀ c ∈ cs, c.isDigit = true := by
  induction cs generalizing ds with
  | nil => simp
  | cons c cs ih =>
      simp only [List.mapM_cons, Option.bind_eq_bind, Option.bind_eq_some_iff] at h
      obtain ⟨d, hd, rest, hrest, -⟩ := h
      refine List.forall_mem_cons.mpr ⟨?_, ih hrest⟩
      rw [isDigit_iff]
      by_contra hc
      rw [Text.digit?, if_neg hc] at hd
      contradiction

/-- Digits are the digits they look like, if there are any and nothing else. -/
theorem digits?_eq_some_iff {cs : Text} {ds : List Nat} :
    digits? cs = some ds ↔ cs ≠ [] ∧ (∀ c ∈ cs, c.isDigit = true) ∧
      ds = cs.map fun c => c.toNat - '0'.toNat := by
  cases cs with
  | nil => simp [digits?]
  | cons c cs =>
      rw [digits?]
      constructor
      · intro h
        have hdigits := isDigit_of_mapM_digit? h
        rw [mapM_digit? hdigits] at h
        exact ⟨List.cons_ne_nil c cs, hdigits, (Option.some.inj h).symm⟩
      · rintro ⟨-, hdigits, rfl⟩
        exact mapM_digit? hdigits
      · nofun

/-- The values of digits, put together, are the number they spell. -/
theorem natOfDigits_map (cs : Text) :
    Text.natOfDigits (cs.map fun c => c.toNat - '0'.toNat) = Nat.ofDigitChars 10 cs 0 := by
  rw [Text.natOfDigits, Nat.ofDigitChars, List.foldl_map]

/-- **What is read without its sign** is the number that is spelled. -/
theorem digits?_unsigned_iff {text : Text} {n : Nat} :
    (∃ ds, digits? (unsigned (Text.trim text)) = some ds ∧ Text.natOfDigits ds = n) ↔
      Spells text n := by
  rw [spells_iff]
  constructor
  · rintro ⟨ds, hds, rfl⟩
    obtain ⟨hne, hdigits, rfl⟩ := digits?_eq_some_iff.mp hds
    exact ⟨hne, hdigits, (natOfDigits_map _).symm⟩
  · rintro ⟨hne, hdigits, rfl⟩
    exact ⟨_, digits?_eq_some_iff.mpr ⟨hne, hdigits, rfl⟩, natOfDigits_map _⟩

/-- A process number is positive and below the limit. -/
theorem ofText?_eq (text : Text) :
    ofText? text =
      match digits? (unsigned (Text.trim text)) with
      | none => none
      | some ds =>
          if 0 < Text.natOfDigits ds ∧ Text.natOfDigits ds < limit then some (Text.natOfDigits ds)
          else none := rfl

/-- **A process number is read** from the texts that spell it. -/
theorem ofText?_eq_some_iff {text : Text} {n : Nat} :
    ofText? text = some n ↔ Spells text n ∧ 1 ≤ n ∧ n < 2 ^ 32 := by
  rw [ofText?_eq, ← digits?_unsigned_iff]
  cases digits? (unsigned (Text.trim text)) with
  | none => simp
  | some ds =>
      simp only [Option.some.injEq, exists_eq_left']
      constructor
      · intro hn
        split at hn
        · next hrange => exact ⟨Option.some.inj hn, Option.some.inj hn ▸ hrange⟩
        · cases hn
      · rintro ⟨rfl, hrange⟩
        exact if_pos hrange

/-! ## reading in 32 bits -/

/-- One more digit behind a number of 32 bits, if neither ten times the number nor the sum
is too large. -/
def pushDigit (word : BitVec 32) (d : Nat) : Option (BitVec 32) :=
  if word.umulOverflow 10 then none
  else if (word * 10).uaddOverflow (BitVec.ofNat 32 d) then none
  else some (word * 10 + BitVec.ofNat 32 d)

/-- The number of 32 bits that some digits stand for, read from the first to the last. -/
def wordOfDigits (ds : List Nat) : Option (BitVec 32) := ds.foldlM pushDigit 0

/-- The process number that a text spells, read in 32 bits. -/
def wordOfText? (text : Text) : Option (BitVec 32) :=
  ((digits? (unsigned (Text.trim text))).bind wordOfDigits).filter (0 < ·)

/-- A digit fits behind a number if what it makes of the number fits. -/
theorem toNat_pushDigit (word : BitVec 32) {d : Nat} (hd : d < 10) :
    (pushDigit word d).map BitVec.toNat =
      if 10 * word.toNat + d < limit then some (10 * word.toNat + d) else none := by
  have hdigit : (BitVec.ofNat 32 d).toNat = d := by
    rw [BitVec.toNat_ofNat, Nat.mod_eq_of_lt (by omega)]
  have hlimit : limit = 2 ^ 32 := rfl
  rw [pushDigit, hlimit]
  split
  · next hmul =>
    have hlarge : 2 ^ 32 ≤ word.toNat * 10 := by simpa [BitVec.umulOverflow] using hmul
    rw [if_neg (by omega), Option.map_none]
  · next hmul =>
    have hten : (word * 10).toNat = word.toNat * 10 := BitVec.toNat_mul_of_not_umulOverflow hmul
    split
    · next hadd =>
      have hlarge : 2 ^ 32 ≤ (word * 10).toNat + (BitVec.ofNat 32 d).toNat := by
        simpa [BitVec.uaddOverflow] using hadd
      rw [if_neg (by omega), Option.map_none]
    · next hadd =>
      have hsum := BitVec.toNat_add_of_not_uaddOverflow hadd
      have hlt := (word * 10 + BitVec.ofNat 32 d).isLt
      rw [if_pos (by omega), Option.map_some, hsum, hten, hdigit, Nat.mul_comm]

/-- More digits make no number smaller. -/
theorem le_foldl_digits (ds : List Nat) (n : Nat) :
    n ≤ ds.foldl (fun n d => 10 * n + d) n := by
  induction ds generalizing n with
  | nil => exact Nat.le_refl n
  | cons d ds ih =>
      calc
        n ≤ 10 * n + d := by omega
        _ ≤ ds.foldl (fun n d => 10 * n + d) (10 * n + d) := ih _

/-- **Digits read in 32 bits** are the number they stand for, if it fits, and are given up
if it does not, however many there are. -/
theorem toNat_foldlM_pushDigit {ds : List Nat} (h : ∀ d ∈ ds, d < 10) (word : BitVec 32) :
    (ds.foldlM pushDigit word).map BitVec.toNat =
      if ds.foldl (fun n d => 10 * n + d) word.toNat < limit then
        some (ds.foldl (fun n d => 10 * n + d) word.toNat)
      else none := by
  induction ds generalizing word with
  | nil => simp [limit, word.isLt]
  | cons d ds ih =>
      obtain ⟨hd, hds⟩ := List.forall_mem_cons.mp h
      have hstep := toNat_pushDigit word hd
      rw [List.foldlM_cons, List.foldl_cons]
      cases hpush : pushDigit word d with
      | none =>
          rw [hpush, Option.map_none] at hstep
          have hlarge : limit ≤ 10 * word.toNat + d := by
            by_contra hsmall
            rw [if_pos (by omega)] at hstep
            contradiction
          have hmore := le_foldl_digits ds (10 * word.toNat + d)
          rw [if_neg (by omega)]
          rfl
      | some next =>
          have hnext : next.toNat = 10 * word.toNat + d := by
            rw [hpush, Option.map_some] at hstep
            split at hstep
            · exact Option.some.inj hstep
            · cases hstep
          rw [← hnext]
          exact ih hds next

/-- Digits are below ten. -/
theorem lt_ten_of_digits? {cs : Text} {ds : List Nat} (h : digits? cs = some ds) :
    ∀ d ∈ ds, d < 10 := by
  obtain ⟨-, hdigits, rfl⟩ := digits?_eq_some_iff.mp h
  refine List.forall_mem_map.mpr fun c hc => ?_
  have hcode : c.toNat ≤ 57 := by
    simpa [Char.le_def, UInt32.le_iff_toNat_le] using (isDigit_iff.mp (hdigits c hc)).2
  have hzero : '0'.toNat = 48 := rfl
  omega

/-- **Checked steps of 32 bits** give the number exactly where it is below the limit.
-/
theorem toNat_wordOfDigits {ds : List Nat} (h : ∀ d ∈ ds, d < 10) :
    (wordOfDigits ds).map BitVec.toNat =
      if Text.natOfDigits ds < limit then some (Text.natOfDigits ds) else none :=
  toNat_foldlM_pushDigit h 0

/-- **Reading in 32 bits** gives the process number that reading without bounds gives. -/
theorem ofText?_eq_map_wordOfText? (text : Text) :
    ofText? text = (wordOfText? text).map BitVec.toNat := by
  rw [ofText?_eq, wordOfText?]
  cases hds : digits? (unsigned (Text.trim text)) with
  | none => rfl
  | some ds =>
      have hread := toNat_wordOfDigits (lt_ten_of_digits? hds)
      have hpositive : (fun word : BitVec 32 => decide (0 < word)) =
          (fun n : Nat => decide (0 < n)) ∘ BitVec.toNat := by
        funext word
        simp [BitVec.lt_def]
      rw [Option.bind_some, hpositive, ← Option.filter_map, hread]
      by_cases hfits : Text.natOfDigits ds < limit
      · simp [hfits, Option.filter_some]
      · simp [hfits]

/-! ## reading the file -/

/-- The text whose bytes a file holds is the text in it. -/
theorem readText_of_readBytes {disk : Disk} {cwd : Option Location} {path content : Text}
    (h : disk.readBytes cwd path = .ok content.bytes) :
    disk.readText cwd path = .ok content := by
  rw [Disk.readText, h]
  simp

section
variable {path content : Text} {machine : Machine}
  (hfile : machine.disk.readBytes machine.environment.cwd path = .ok content.bytes)
include hfile

/-- The number in a file is returned, and nothing else is done. -/
theorem on_read_of_some {n : Nat} (h : ofText? content = some n) :
    (read path).on machine = (.ok (some n), machine) := by
  rw [Session.on_readPid, readText_of_readBytes hfile]
  simp [h]

/-- A file without a number is warned of. -/
theorem on_read_of_none (h : ofText? content = none) :
    (read path).on machine = (.ok none, machine.reporting [.warn]) := by
  rw [Session.on_readPid, readText_of_readBytes hfile]
  simp [h]

theorem fst_on_read : ((read path).on machine).1 = .ok (ofText? content) := by
  cases hpid : ofText? content with
  | none => rw [on_read_of_none hfile hpid]
  | some pid => rw [on_read_of_some hfile hpid]

end

/-- **A process file is read** as the number that it spells.  A file of text gives `n` if
the text spells `n` and `n` is positive and below `2 ^ 32`, and none, with a warning, if
there is no such `n`; nothing else is done.  What is read back is a number that was written
in decimal, between any blanks.  A spelled number that is too large is given up, not
wrapped: what is read in 32 bits is the same. -/
theorem read_spelled {path content : Text} {machine : Machine}
    (hfile : machine.disk.readBytes machine.environment.cwd path = .ok content.bytes) :
    (∀ n, ((read path).on machine).1 = .ok (some n) ↔
        Spells content n ∧ 1 ≤ n ∧ n < 2 ^ 32) ∧
      ((¬ ∃ n, Spells content n ∧ 1 ≤ n ∧ n < 2 ^ 32) →
        (read path).on machine = (.ok none, machine.reporting [.warn])) ∧
      (∀ n before after, 1 ≤ n → n < 2 ^ 32 → (∀ c ∈ before, Text.isBlank c = true) →
        (∀ c ∈ after, Text.isBlank c = true) → content = before ++ Text.ofNat n ++ after →
        (read path).on machine = (.ok (some n), machine)) ∧
      (∀ n, Spells content n → 2 ^ 32 ≤ n → ((read path).on machine).1 = .ok none) ∧
      ((read path).on machine).1 = .ok ((wordOfText? content).map BitVec.toNat) := by
  have hnone : (¬ ∃ n, Spells content n ∧ 1 ≤ n ∧ n < 2 ^ 32) → ofText? content = none :=
    fun hno => Option.eq_none_iff_forall_ne_some.mpr fun n hn =>
      hno ⟨n, ofText?_eq_some_iff.mp hn⟩
  refine ⟨fun n => ?_, fun hno => on_read_of_none hfile (hnone hno), ?_, ?_, ?_⟩
  · rw [fst_on_read hfile, Except.ok.injEq, ofText?_eq_some_iff]
  · rintro n before after hpositive hfits hbefore hafter rfl
    have hspells := spells_ofNat n hbefore hafter
    exact on_read_of_some hfile (ofText?_eq_some_iff.mpr ⟨hspells, hpositive, hfits⟩)
  · intro n hn hlarge
    rw [fst_on_read hfile, hnone]
    rintro ⟨m, hm, -, hsmall⟩
    have hsame : m = n := hm.unique hn
    omega
  · rw [fst_on_read hfile, ofText?_eq_map_wordOfText?]

/-- A machine whose one file is a process file. -/
def numberedMachine (content : Text) : Machine where
  disk := { entries := [([SessionFile.pid.name], .file ⟨0, content.bytes, 0o644⟩)] }

/-- The number in a file is read from between blanks, from behind a plus sign and zeros. -/
theorem read_spelled_padded :
    (numberedMachine "\u3000\t+0004242\n").disk.readBytes
        (numberedMachine "\u3000\t+0004242\n").environment.cwd ('/' :: SessionFile.pid.name) =
          .ok (Text.bytes "\u3000\t+0004242\n".toList) ∧
      ((read ('/' :: SessionFile.pid.name)).on (numberedMachine "\u3000\t+0004242\n")).1 =
        .ok (some 4242) := by
  have hfile : (numberedMachine "\u3000\t+0004242\n").disk.readBytes
      (numberedMachine "\u3000\t+0004242\n").environment.cwd ('/' :: SessionFile.pid.name) =
        .ok (Text.bytes "\u3000\t+0004242\n".toList) := rfl
  refine ⟨hfile, ((read_spelled hfile).1 4242).mpr ⟨?_, by decide, by decide⟩⟩
  have hbefore : ∀ c ∈ "\u3000\t".toList, Text.isBlank c = true :=
    List.all_eq_true.mp (by decide)
  have hdigits : ∀ c ∈ "0004242".toList, c.isDigit = true := List.all_eq_true.mp (by decide)
  have hafter : ∀ c ∈ "\n".toList, Text.isBlank c = true := List.all_eq_true.mp (by decide)
  exact ⟨_, "+".toList, _, _, by decide, hbefore, hafter, .inr rfl, by decide, hdigits,
    by decide⟩

/-- The largest process number, and the number after it. -/
example : ofText? "4294967295" = some 4294967295 ∧ ofText? "4294967296" = none := by
  decide

end TreeSync.PidFile
