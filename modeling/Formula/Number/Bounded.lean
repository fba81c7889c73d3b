/-!
# Integers of 64 bits

`int64?` is the one gate between the unbounded integers, on which results are computed exactly, and
the 64-bit integers that values hold:

* `toInt_of_int64?`   what passes the gate is unchanged
* `int64?_toInt`      every 64-bit integer passes it
-/

namespace Formula

/-- The least integer of 64 bits. -/
def minInteger : Int := -9223372036854775808

/-- The greatest integer of 64 bits. -/
def maxInteger : Int := 9223372036854775807

/-- The 64-bit integer equal to `i`, if there is one. -/
def int64? (i : Int) : Option Int64 :=
  if minInteger ≤ i ∧ i ≤ maxInteger then some (Int64.ofInt i) else none

theorem toInt_of_int64? {i : Int} {n : Int64} (h : int64? i = some n) : n.toInt = i := by
  unfold int64? at h
  split at h
  · next hi =>
    cases h
    have hlo := hi.1
    have hhi := hi.2
    simp only [minInteger, maxInteger] at hlo hhi
    exact Int64.toInt_ofInt_of_le (by omega) (by omega)
  · cases h

@[simp] theorem int64?_toInt (n : Int64) : int64? n.toInt = some n := by
  have hlo := n.le_toInt
  have hhi := n.toInt_lt
  have hi : minInteger ≤ n.toInt ∧ n.toInt ≤ maxInteger := by
    simp only [minInteger, maxInteger]
    omega
  simp [int64?, hi]

end Formula
