import TreeSync.Disk
import Mathlib.Order.Basic
import Mathlib.Tactic.SplitIfs

/-!
# TreeSync.Proofs.Text.Order

The order of texts by their bytes.

Texts are compared character by character, and their UTF-8 bytes byte by byte.  The two
orders are one (`byteLt_iff`): of two characters the smaller one has no more bytes, and
where both have as many, their bytes are the digits of their codes in base 64, the highest
first (`lt_utf8EncodeChar`).
-/

namespace TreeSync.Text

/-- The bytes of the one text come before those of the other. -/
def ByteLt (a b : Text) : Prop := a.bytes.data.toList < b.bytes.data.toList

/-- The bytes of a text are those of its characters. -/
theorem toList_bytes (t : Text) : t.bytes.data.toList = t.flatMap String.utf8EncodeChar := by
  simp [bytes, String.toUTF8_eq_toByteArray, List.utf8Encode]

/-! ## one character -/

/-- Numbers are compared by their digits in base 64. -/
theorem digits_lt {v w : Nat} (h : v < w) :
    v / 262144 < w / 262144 ∨ v / 262144 = w / 262144 ∧
      (v / 4096 % 64 < w / 4096 % 64 ∨ v / 4096 % 64 = w / 4096 % 64 ∧
        (v / 64 % 64 < w / 64 % 64 ∨ v / 64 % 64 = w / 64 % 64 ∧ v % 64 < w % 64)) := by
  have hdigits : ∀ n : Nat, ∃ a b c d, n / 262144 = a ∧ n / 4096 % 64 = b ∧ n / 64 % 64 = c ∧
      n % 64 = d ∧ n = 262144 * a + 4096 * b + 64 * c + d ∧ b < 64 ∧ c < 64 ∧ d < 64 :=
    fun n => ⟨_, _, _, _, rfl, rfl, rfl, rfl, by omega⟩
  obtain ⟨v₃, v₂, v₁, v₀, h3, h2, h1, h0, hv, hv2, hv1, hv0⟩ := hdigits v
  obtain ⟨w₃, w₂, w₁, w₀, h3', h2', h1', h0', hw, hw2, hw1, hw0⟩ := hdigits w
  rw [h3, h2, h1, h0, h3', h2', h1', h0']
  clear h3 h2 h1 h0 h3' h2' h1' h0'
  omega

/-- **The smaller character** has the smaller bytes, whatever follows. -/
theorem lt_utf8EncodeChar {c d : Char} (h : c < d) (s t : List UInt8) :
    String.utf8EncodeChar c ++ s < String.utf8EncodeChar d ++ t := by
  have hlt : c.val.toNat < d.val.toNat := h
  have hd : d.val.toNat < 0x110000 := by
    have hvalid := d.valid
    simp only [UInt32.isValidChar, Nat.isValidChar] at hvalid
    omega
  have hdigits := digits_lt hlt
  -- No byte is cut off.
  have hlow : ∀ n, (n % 64 + 128) % 256 = n % 64 + 128 := by omega
  have htop : ∀ n < 0x110000, (n / 262144 % 8 + 240) % 256 = n / 262144 + 240 := by omega
  simp only [String.utf8EncodeChar]
  generalize c.val.toNat = v at *
  generalize d.val.toNat = w at *
  have hv := htop v (by omega)
  have hw := htop w hd
  -- The two characters have as many bytes, or the first bytes already tell.
  split_ifs
  all_goals
    simp only [List.cons_append, List.nil_append, List.cons_lt_cons_iff, UInt8.lt_iff_toNat_lt,
      ← UInt8.toNat_inj, UInt8.toNat_ofNat', Nat.reducePow, hlow, hv, hw]
  all_goals omega

/-! ## texts -/

theorem byteLt_of_lt {a b : Text} (h : a < b) : ByteLt a b := by
  rw [ByteLt, toList_bytes, toList_bytes]
  induction a generalizing b with
  | nil =>
      cases b with
      | nil => exact absurd h (List.lt_irrefl [])
      | cons d b =>
          obtain ⟨first, rest, hbytes⟩ :=
            List.exists_cons_of_ne_nil (String.utf8EncodeChar_ne_nil (c := d))
          rw [List.flatMap_nil, List.flatMap_cons, hbytes]
          exact List.nil_lt_cons first _
  | cons c a ih =>
      cases b with
      | nil => exact absurd h (List.not_lt_nil _)
      | cons d b =>
          rw [List.flatMap_cons, List.flatMap_cons]
          obtain hlt | ⟨rfl, hrest⟩ := List.cons_lt_cons_iff.mp h
          · exact lt_utf8EncodeChar hlt _ _
          · exact List.append_left_lt (ih hrest)

/-- **The order of texts** is the order of their bytes. -/
theorem byteLt_iff {a b : Text} : ByteLt a b ↔ a < b := by
  refine ⟨fun hbytes => ?_, byteLt_of_lt⟩
  by_contra hab
  by_cases hba : b < a
  · exact List.lt_asymm hbytes (byteLt_of_lt hba)
  · rw [List.le_antisymm hba hab] at hbytes
    exact List.lt_irrefl _ hbytes

theorem ByteLt.asymm {a b : Text} (h : ByteLt a b) : ¬ ByteLt b a := List.lt_asymm h

end TreeSync.Text
