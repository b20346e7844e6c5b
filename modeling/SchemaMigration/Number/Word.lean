/-!
# Machine words

An identifier is a signed word of sixty-four bits.  A sum that leaves the range of these
comes round at its other end.
-/

namespace SchemaMigration.Number

/-- The word that a sum comes to. -/
def word (n : Int) : Int := n.bmod 18446744073709551616

theorem word_eq_self {n : Int} (hlow : -9223372036854775808 ≤ n)
    (hhigh : n < 9223372036854775808) : word n = n :=
  Int.bmod_eq_of_le (by omega) (by omega)

theorem word_lt (n : Int) : word n < 9223372036854775808 := by
  have hlt := Int.bmod_lt (x := n) (m := 18446744073709551616) (by decide)
  rw [word]
  omega

/-- A sum that is taken in two steps comes round as one that is taken at once. -/
theorem word_word_sub (n m : Int) : word (word n - m) = word (n - m) := by
  rw [word, word, Int.bmod_sub_bmod]
  rfl

end SchemaMigration.Number
