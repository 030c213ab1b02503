import StackScript.Proofs.Token.Tiling

/-!
# Texts and Their Bytes in Order

Texts are compared character by character, and a file system that knows nothing of
characters compares them byte by byte. The outcome is the same, because of how the bytes
of a character are chosen: a character with more bytes has a larger first byte, and
between characters with as many bytes the bytes are digits, the most significant one
first.

That one character is smaller therefore shows in the bytes of these two already, and
what comes behind them has no say.

## Theorems

* `utf8EncodeChar_lt`: The bytes of a smaller character come first.
* `encode_lt`: The bytes of a text that comes first come first.
-/

namespace StackScript

/-- A byte decides unless it is the same. -/
theorem ofNat_cons_lt_iff {m n : Nat} (hm : m < 256) (hn : n < 256) (bytes others : List UInt8) :
    UInt8.ofNat m :: bytes < UInt8.ofNat n :: others ↔ m < n ∨ m = n ∧ bytes < others := by
  have hlt : UInt8.ofNat m < UInt8.ofNat n ↔ m < n := by
    rw [UInt8.lt_iff_toNat_lt, UInt8.toNat_ofNat', UInt8.toNat_ofNat', Nat.mod_eq_of_lt hm,
      Nat.mod_eq_of_lt hn]
  have heq : UInt8.ofNat m = UInt8.ofNat n ↔ m = n := by
    rw [← UInt8.toNat_inj, UInt8.toNat_ofNat', UInt8.toNat_ofNat', Nat.mod_eq_of_lt hm,
      Nat.mod_eq_of_lt hn]
  rw [List.cons_lt_cons_iff, hlt, heq]

/-- Of two numbers of four digits the smaller one is smaller at the first digit that
    differs. -/
theorem four_digits_lt {m n : Nat} (h : m < n) (hn : n < 0x110000) :
    m / 262144 % 8 < n / 262144 % 8 ∨
      m / 262144 % 8 = n / 262144 % 8 ∧ (m / 4096 % 64 < n / 4096 % 64 ∨
        m / 4096 % 64 = n / 4096 % 64 ∧ (m / 64 % 64 < n / 64 % 64 ∨
          m / 64 % 64 = n / 64 % 64 ∧ m % 64 < n % 64)) := by
  rcases Nat.lt_or_ge (m / 4096) (n / 4096) with hfront | hfront
  · omega
  · have hsame : m / 4096 = n / 4096 := by omega
    rw [hsame]
    omega

/-- The bytes of a smaller character come first, whatever follows them. -/
theorem utf8EncodeChar_lt {c d : Char} (h : c < d) (bytes others : List UInt8) :
    String.utf8EncodeChar c ++ bytes < String.utf8EncodeChar d ++ others := by
  have hlt : c.val.toNat < d.val.toNat := h
  have hmax : d.val.toNat < 0x110000 := by
    have := d.valid
    unfold UInt32.isValidChar Nat.isValidChar at this
    omega
  have hdigits := four_digits_lt hlt hmax
  simp only [String.utf8EncodeChar]
  generalize c.val.toNat = m at *
  generalize d.val.toNat = n at *
  -- One case for each number of bytes of the one and of the other character.
  by_cases hrest : bytes < others
  all_goals
    repeat' split
    all_goals
      simp (disch := omega) only [List.cons_append, List.nil_append, ofNat_cons_lt_iff, hrest,
        and_true, and_false, or_false]
      omega

/-- The bytes of a text that comes first come first. -/
theorem encode_lt {cs ds : List Char} (h : cs < ds) : encode cs < encode ds := by
  induction cs generalizing ds with
  | nil =>
      cases ds with
      | nil => exact absurd h (List.lt_irrefl _)
      | cons d ds =>
          -- A character has a byte at least, so a longer text has a byte where the shorter
          -- one ends.
          have hlength := length_encode (d :: ds)
          have hpos := byteLength_pos (List.cons_ne_nil d ds)
          cases hbytes : encode (d :: ds) with
          | nil =>
              rw [hbytes, List.length_nil] at hlength
              omega
          | cons byte bytes => exact List.nil_lt_cons byte bytes
  | cons c cs ih =>
      cases ds with
      | nil => exact absurd h (List.not_lt_nil _)
      | cons d ds =>
          rcases List.cons_lt_cons_iff.mp h with hlt | ⟨rfl, hrest⟩
          · -- The first characters that differ decide.
            exact utf8EncodeChar_lt hlt _ _
          · exact List.append_left_lt (ih hrest)

end StackScript
