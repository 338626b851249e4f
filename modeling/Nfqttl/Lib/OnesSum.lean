/-
One's-complement sums: words added with the carry out of the top brought back in
at the bottom. `m` is the word with every bit set, which stands for zero too.

The sum of words in any order of carries is a number the plain sum determines:
zero for zero, else the representative of its class modulo `m` in `1..m`.
-/
import Mathlib.Data.List.Basic
import Nfqttl.Lib.Bytes

namespace OnesSum

variable {m : Nat}

/-- One's-complement addition: a carry out comes back in. -/
def add (m a b : Nat) : Nat := if a + b ≤ m then a + b else a + b - m

def sum (m : Nat) (words : List Nat) : Nat := words.foldl (add m) 0

/-- What a plain sum folds to. -/
def norm (m n : Nat) : Nat := if n = 0 then 0 else (n - 1) % m + 1

@[simp] theorem norm_zero : norm m 0 = 0 := rfl

theorem norm_le (hm : 0 < m) (n : Nat) : norm m n ≤ m := by
  have := Nat.mod_lt (n - 1) hm
  unfold norm
  split <;> omega

theorem norm_of_le {n : Nat} (h : n ≤ m) : norm m n = n := by
  unfold norm
  split
  · omega
  · rw [Nat.mod_eq_of_lt (by omega)]
    omega

/-- A carry brought back in changes nothing. -/
theorem norm_add_self {n : Nat} (h : n ≠ 0) : norm m (n + m) = norm m n := by
  rw [norm, norm, if_neg (by omega), if_neg h, show n + m - 1 = n - 1 + m by omega, Nat.add_mod_right]

theorem norm_add_mul {n : Nat} (h : n ≠ 0) (k : Nat) : norm m (n + m * k) = norm m n := by
  induction k with
  | zero => rfl
  | succ k ih => rw [Nat.mul_succ, ← Nat.add_assoc, norm_add_self (by omega), ih]

theorem add_norm (hm : 0 < m) (n : Nat) {b : Nat} (hb : b ≤ m) : add m (norm m n) b = norm m (n + b) := by
  rcases Nat.eq_zero_or_pos n with rfl | hn
  · rw [norm_zero, add, Nat.zero_add, if_pos hb, norm_of_le hb]
  -- `n` is its representative and a number of full turns.
  have hdiv := Nat.mod_add_div (n - 1) m
  have hnorm : norm m n = (n - 1) % m + 1 := if_neg (by omega)
  have hlt := Nat.mod_lt (n - 1) hm
  have hn' : n + b = norm m n + b + m * ((n - 1) / m) := by omega
  rw [hn', norm_add_mul (by omega), add]
  split
  · next h => exact (norm_of_le h).symm
  · next h =>
    obtain ⟨k, hk⟩ : ∃ k, norm m n + b = k + m := ⟨norm m n + b - m, by omega⟩
    rw [hk, norm_add_self (by omega), norm_of_le (by omega), Nat.add_sub_cancel]

theorem foldl_add (hm : 0 < m) : ∀ (words : List Nat) (n : Nat), (∀ w ∈ words, w ≤ m) →
    words.foldl (add m) (norm m n) = norm m (n + words.sum)
  | [], n, _ => by simp
  | w :: words, n, h => by
    rw [List.foldl_cons, add_norm hm n (h w (by simp)),
      foldl_add hm words (n + w) fun x hx => h x (List.mem_cons_of_mem w hx), List.sum_cons, Nat.add_assoc]

/-- The one's-complement sum is the plain sum folded. -/
theorem sum_eq (hm : 0 < m) {words : List Nat} (h : ∀ w ∈ words, w ≤ m) : sum m words = norm m words.sum := by
  have hfold := foldl_add hm words 0 h
  rwa [norm_zero, Nat.zero_add] at hfold

/-- A sum and its complement make the word with every bit set. -/
theorem norm_add_compl (hm : 0 < m) (n : Nat) : norm m (n + (m - norm m n)) = m := by
  have hle := norm_le hm n
  rw [← add_norm hm n (Nat.sub_le m _), add, if_pos (by omega)]
  omega

theorem sum_le (hm : 0 < m) {words : List Nat} (h : ∀ w ∈ words, w ≤ m) : sum m words ≤ m := by
  rw [sum_eq hm h]
  exact norm_le hm _

/-! ## The words of a byte string -/

open Bytes

/-- The 16-bit words of a byte string, the most significant byte first; an odd last byte is left out. -/
def words : List UInt8 → List Nat
  | a :: b :: l => beNat [a, b] :: words l
  | _ => []

theorem words_le : ∀ (l : List UInt8), ∀ w ∈ words l, w ≤ 65535
  | [], w, h => by cases h
  | [_], w, h => by cases h
  | a :: b :: l, w, h => by
    rcases List.mem_cons.mp h with rfl | h
    · have ha := a.toNat_lt
      have hb := b.toNat_lt
      rw [beNat_pair]
      omega
    · exact words_le l w h

/-- Another word in the place of the `k`-th. -/
theorem words_sum_set (a b : UInt8) : ∀ (k : Nat) (l : List UInt8), 2 * k + 1 < l.length →
    (words ((l.set (2 * k) a).set (2 * k + 1) b)).sum + beNat [l.getD (2 * k) 0, l.getD (2 * k + 1) 0] =
      (words l).sum + beNat [a, b]
  | 0, x :: y :: l, _ => by
    simp only [List.set_cons_zero, List.set_cons_succ, words, List.sum_cons, List.getD_cons_zero, List.getD_cons_succ,
      Nat.mul_zero]
    omega
  | k + 1, x :: y :: l, h => by
    have ih := words_sum_set a b k l (by simp only [List.length_cons] at h; omega)
    rw [show 2 * (k + 1) + 1 = 2 * k + 1 + 1 + 1 by omega, show 2 * (k + 1) = 2 * k + 1 + 1 by omega]
    simp only [List.set_cons_succ, words, List.sum_cons, List.getD_cons_succ]
    omega

end OnesSum
