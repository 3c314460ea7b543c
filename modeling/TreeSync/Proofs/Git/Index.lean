import TreeSync.Git.Index
import TreeSync.Proofs.Text.Order

/-!
# TreeSync.Proofs.Git.Index

The order of an index, and the hash at the end of its file.

Entries are sorted by the bytes of their paths, and those of one path by stage (`Sorted`).
The order that an entry is put in by is this one (`precedes_iff`), so an index that is made
by adding entries is sorted (`sorted_add`).

A file that is written ends in the hash of what comes before it, so reading it back is
reading the part before the hash (`parse?_encode`).
-/

namespace TreeSync.Git.Index

open Text

/-! ## the order of entries -/

/-- The one entry does not come after the other: its path comes first in bytes, or it is
the same path and no later stage. -/
def Ordered (a b : IndexEntry) : Prop :=
  ByteLt a.path b.path ∨ a.path = b.path ∧ a.stage ≤ b.stage

/-- The entries of an index in their order. -/
def Sorted (entries : List IndexEntry) : Prop := entries.Pairwise Ordered

theorem Ordered.trans {a b c : IndexEntry} (hab : Ordered a b) (hbc : Ordered b c) :
    Ordered a c := by
  obtain hlt | ⟨hpath, hstage⟩ := hab
  · obtain hlt' | ⟨hpath', -⟩ := hbc
    · exact Or.inl (List.lt_trans hlt hlt')
    · exact Or.inl (hpath' ▸ hlt)
  · obtain hlt' | ⟨hpath', hstage'⟩ := hbc
    · exact Or.inl (hpath ▸ hlt')
    · exact Or.inr ⟨hpath.trans hpath', Nat.le_trans hstage hstage'⟩

theorem precedes_iff {a b : IndexEntry} :
    precedes a b = true ↔ ByteLt a.path b.path ∨ a.path = b.path ∧ a.stage < b.stage := by
  simp [precedes, byteLt_iff]

theorem ordered_of_precedes {a b : IndexEntry} (h : precedes a b = true) : Ordered a b := by
  obtain hlt | ⟨hpath, hstage⟩ := precedes_iff.mp h
  · exact Or.inl hlt
  · exact Or.inr ⟨hpath, Nat.le_of_lt hstage⟩

/-- Of two entries one is not after the other. -/
theorem ordered_of_not_precedes {a b : IndexEntry} (h : ¬ precedes a b = true) : Ordered b a := by
  rw [precedes_iff, not_or, not_and] at h
  obtain ⟨hlt, hstage⟩ := h
  by_cases hpath : a.path = b.path
  · exact Or.inr ⟨hpath.symm, Nat.le_of_not_lt (hstage hpath)⟩
  · refine Or.inl (byteLt_iff.mpr ?_)
    by_contra hlt'
    exact hpath (List.le_antisymm hlt' (mt byteLt_iff.mpr hlt))

/-! ## adding entries -/

theorem mem_insertSorted {entry e : IndexEntry} {entries : List IndexEntry} :
    e ∈ insertSorted entry entries ↔ e = entry ∨ e ∈ entries := by
  induction entries with
  | nil => simp [insertSorted]
  | cons first entries ih =>
      rw [insertSorted]
      split
      · simp
      · simp only [List.mem_cons, ih]
        exact or_left_comm

theorem sorted_insertSorted (entry : IndexEntry) {entries : List IndexEntry}
    (h : Sorted entries) : Sorted (insertSorted entry entries) := by
  induction entries with
  | nil => exact List.pairwise_singleton Ordered entry
  | cons first entries ih =>
      obtain ⟨hfirst, hrest⟩ := List.pairwise_cons.mp h
      rw [insertSorted]
      split
      · next hprecedes =>
          have hentry := ordered_of_precedes hprecedes
          refine List.pairwise_cons.mpr ⟨?_, h⟩
          exact List.forall_mem_cons.mpr ⟨hentry, fun e he => hentry.trans (hfirst e he)⟩
      · next hprecedes =>
          refine List.pairwise_cons.mpr ⟨fun e he => ?_, ih hrest⟩
          obtain rfl | hmem := mem_insertSorted.mp he
          · exact ordered_of_not_precedes hprecedes
          · exact hfirst e hmem

/-- **Adding an entry** keeps an index sorted. -/
theorem sorted_add (entry : IndexEntry) {entries : List IndexEntry} (h : Sorted entries) :
    Sorted (add entries entry) :=
  sorted_insertSorted entry (h.filter _)

/-- An index that is made by adding entries is sorted. -/
theorem sorted_foldl_add (news : List IndexEntry) {entries : List IndexEntry}
    (h : Sorted entries) : Sorted (news.foldl add entries) := by
  induction news generalizing entries with
  | nil => exact h
  | cons entry news ih => exact ih (sorted_add entry h)

/-! ## the hash at the end -/

theorem toList_loop (bytes : ByteArray) (i : Nat) (before : List UInt8) :
    ByteArray.toList.loop bytes i before = before.reverse ++ bytes.data.toList.drop i := by
  fun_induction ByteArray.toList.loop bytes i before with
  | case1 i before hi ih =>
      have hlt : i < bytes.data.toList.length := by simpa using hi
      have hget : bytes.get! i = bytes.data.toList[i] := getElem!_pos bytes.data i hi
      rw [ih, hget, List.reverse_cons, List.append_assoc, List.drop_eq_getElem_cons hlt]
      rfl
  | case2 i before hi =>
      have hle : bytes.data.toList.length ≤ i := by simpa using hi
      rw [List.drop_eq_nil_of_le hle, List.append_nil]

/-- The bytes of a file are those that it is made of. -/
theorem toList_mk (bytes : List UInt8) : ByteArray.toList ⟨bytes.toArray⟩ = bytes := by
  simp [ByteArray.toList, toList_loop]

theorem length_bytesOfNat (count n : Nat) : (Sha1.bytesOfNat count n).length = count := by
  simp [Sha1.bytesOfNat]

/-- A hash is 20 bytes. -/
theorem length_hash (message : List UInt8) : (Sha1.hash message).length = 20 := by
  simp [Sha1.hash, length_bytesOfNat]

/-- The entries that the part of a file before its hash lists. -/
def entriesOfBody? (body : List UInt8) : Option (List IndexEntry) := do
  let (head, rest) ← take? 12 body
  let version := natOf ((head.drop 4).take 4)
  if head.take 4 ≠ "DIRC".toUTF8.toList ∨ version < 2 ∨ 3 < version then none
  else
    let (entries, rest) ← readEntries (natOf (head.drop 8)) rest
    let _ ← skipExtensions (rest.length + 1) rest
    some entries

/-- A file with the right hash at its end is read by what comes before the hash. -/
theorem parse?_append_hash (body : List UInt8) :
    parse? ⟨(body ++ Sha1.hash body).toArray⟩ = entriesOfBody? body := by
  have hlength : (body ++ Sha1.hash body).length = body.length + 20 := by
    rw [List.length_append, length_hash]
  rw [parse?, toList_mk, hlength, Nat.add_sub_cancel, List.take_left, List.drop_left]
  by_cases hshort : body.length < 12
  · have hnone : take? 12 body = none := if_neg (Nat.not_le.mpr hshort)
    rw [if_pos (by omega), entriesOfBody?, hnone]
    rfl
  · rw [if_neg (by omega), entriesOfBody?]
    simp only [if_true]

/-- What comes before the hash in the file of an index. -/
def bodyOf (entries : List IndexEntry) : List UInt8 :=
  "DIRC".toUTF8.toList ++ Sha1.bytesOfNat 4 2 ++ Sha1.bytesOfNat 4 entries.length
    ++ entries.flatMap entryBytes

/-- **The file of an index** is read without regard to its hash, which is the right one. -/
theorem parse?_encode (entries : List IndexEntry) :
    parse? (encode entries) = entriesOfBody? (bodyOf entries) :=
  parse?_append_hash (bodyOf entries)

end TreeSync.Git.Index
