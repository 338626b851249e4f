/-
Byte strings as a systems program handles them: reads and writes that stop the
program when they are out of range, and integers in the two byte orders.

A computation that may stop is in `Except (Stop ε)`, and one that also changes a
state in `EStateM (Stop ε) σ`, where what was changed before the stop stays changed.
It stops with an error the program reports, or panics, so "no access is out of
range" says that the outcome is never `panic`.
-/
import Mathlib.Data.List.Basic
import Mathlib.Tactic.Ring

namespace Bytes

/-- Why a computation stopped short: an error of its own, or an access out of range. -/
inductive Stop (ε : Type)
  | err (e : ε)
  | panic
  deriving DecidableEq, Repr

variable {ε : Type}

@[simp] theorem ok_bind {α β : Type} (a : α) (f : α → Except ε β) : (Except.ok a >>= f) = f a := rfl

theorem bind_eq_ok {α β : Type} {x : Except ε α} {f : α → Except ε β} {b : β} :
    (x >>= f) = .ok b ↔ ∃ a, x = .ok a ∧ f a = .ok b := by
  cases x with
  | ok a => simp
  | error e => simp [bind, Except.bind]

/-- No read out of range, and none in what follows. -/
theorem bind_ne_panic {α β : Type} {x : Except (Stop ε) α} {f : α → Except (Stop ε) β} (hx : x ≠ .error .panic)
    (hf : ∀ a, x = .ok a → f a ≠ .error .panic) : (x >>= f) ≠ .error .panic := by
  cases x with
  | ok a => exact hf a rfl
  | error e => exact fun h => hx (congrArg Except.error (Except.error.inj h))

theorem ok_ne_panic {α : Type} (a : α) : (Except.ok a : Except (Stop ε) α) ≠ .error .panic := fun h => by cases h

theorem err_ne_panic {α : Type} (e : ε) : (Except.error (.err e) : Except (Stop ε) α) ≠ .error .panic :=
  fun h => by cases h

/-- A computation that changes no state. -/
def lift {σ α : Type} (x : Except ε α) : EStateM ε σ α := fun s =>
  match x with
  | .ok a => .ok a s
  | .error e => .error e s

/-- The state a computation ends in, stopped or not. -/
def final {σ α : Type} : EStateM.Result ε σ α → σ
  | .ok _ s => s
  | .error _ s => s

section run
variable {σ α β : Type} {s s' : σ} {e : ε} {a : α}

theorem bind_ok {x : EStateM ε σ α} (f : α → EStateM ε σ β) (h : x s = .ok a s') : (x >>= f) s = f a s' := by
  simp only [bind, EStateM.bind, h]

theorem bind_error {x : EStateM ε σ α} (f : α → EStateM ε σ β) (h : x s = .error e s') :
    (x >>= f) s = .error e s' := by
  simp only [bind, EStateM.bind, h]

@[simp] theorem get_bind (f : σ → EStateM ε σ β) : (get >>= f) s = f s s := rfl
@[simp] theorem modify_bind (g : σ → σ) (f : Unit → EStateM ε σ β) : (modify g >>= f) s = f () (g s) := rfl
@[simp] theorem modify_run (g : σ → σ) : (modify g : EStateM ε σ Unit) s = .ok () (g s) := rfl
@[simp] theorem lift_ok_bind (f : α → EStateM ε σ β) :
    (lift (.ok a) >>= f) s = f a s := rfl
@[simp] theorem lift_error_bind (f : α → EStateM ε σ β) :
    (lift (.error e) >>= f) s = .error e s := rfl

end run

/-! ## Checked access -/

/-- `b[i]` -/
def index (b : List UInt8) (i : Nat) : Except (Stop ε) UInt8 :=
  if h : i < b.length then .ok b[i] else .error .panic

/-- `b[i..j]` -/
def slice (b : List UInt8) (i j : Nat) : Except (Stop ε) (List UInt8) :=
  if i ≤ j ∧ j ≤ b.length then .ok ((b.drop i).take (j - i)) else .error .panic

/-- `b[i] = x` -/
def store (b : List UInt8) (i : Nat) (x : UInt8) : Except (Stop ε) (List UInt8) :=
  if i < b.length then .ok (b.set i x) else .error .panic

/-- `b` with the bytes from `i` on overwritten by `d`. -/
def splice (b : List UInt8) (i : Nat) (d : List UInt8) : List UInt8 := b.take i ++ d ++ b.drop (i + d.length)

theorem index_ok {b : List UInt8} {i : Nat} (h : i < b.length) : index (ε := ε) b i = .ok b[i] := dif_pos h

theorem slice_ok {b : List UInt8} {i j : Nat} (h : i ≤ j) (hj : j ≤ b.length) :
    slice (ε := ε) b i j = .ok ((b.drop i).take (j - i)) := if_pos ⟨h, hj⟩

theorem store_ok {b : List UInt8} {i : Nat} (x : UInt8) (h : i < b.length) :
    store (ε := ε) b i x = .ok (b.set i x) := if_pos h

theorem length_splice {b : List UInt8} {i : Nat} {d : List UInt8} (h : i + d.length ≤ b.length) :
    (splice b i d).length = b.length := by
  simp only [splice, List.length_append, List.length_take, List.length_drop]
  omega

/-- Outside the overwritten part a splice changes nothing. -/
theorem getElem?_splice_ne {b : List UInt8} {i : Nat} {d : List UInt8} (h : i + d.length ≤ b.length) {k : Nat}
    (hk : k < i ∨ i + d.length ≤ k) : (splice b i d)[k]? = b[k]? := by
  have hi : (b.take i).length = i := by rw [List.length_take]; omega
  rcases hk with hk | hk
  · rw [splice, List.append_assoc, List.getElem?_append_left (by omega), List.getElem?_take_of_lt hk]
  · rw [splice, List.getElem?_append_right (by simp only [List.length_append, hi]; omega)]
    simp only [List.length_append, hi, List.getElem?_drop]
    congr 1
    omega

/-- Inside it reads what was written. -/
theorem getElem?_splice {b : List UInt8} {i : Nat} {d : List UInt8} (h : i ≤ b.length) {k : Nat}
    (hk : k < d.length) : (splice b i d)[i + k]? = d[k]? := by
  have hi : (b.take i).length = i := by rw [List.length_take]; omega
  rw [splice, List.append_assoc, List.getElem?_append_right (by omega), hi, Nat.add_sub_cancel_left,
    List.getElem?_append_left hk]

/-- What begins a string is overwritten. -/
theorem splice_zero (b d : List UInt8) : splice b 0 d = d ++ b.drop d.length := by
  rw [splice, List.take_zero, List.nil_append, Nat.zero_add]

/-- A splice past a prefix is a splice of the rest. -/
theorem splice_append_right {a : List UInt8} (b d : List UInt8) {i : Nat} (h : a.length ≤ i) :
    splice (a ++ b) i d = a ++ splice b (i - a.length) d := by
  have hlen : a.length ≤ i + d.length := by omega
  rw [splice, splice, List.take_append, List.drop_append, List.take_of_length_le h, List.drop_of_length_le hlen,
    List.nil_append, show i + d.length - a.length = i - a.length + d.length by omega, List.append_assoc,
    List.append_assoc, List.append_assoc]

/-! ## Integers -/

/-- The value of bytes, the least significant first. -/
def leNat (b : List UInt8) : Nat := b.foldr (fun x n => x.toNat + 256 * n) 0

/-- The value of bytes, the most significant first. -/
def beNat (b : List UInt8) : Nat := leNat b.reverse

/-- `n` in `k` bytes, the least significant first. -/
def toLe : Nat → Nat → List UInt8
  | 0, _ => []
  | k + 1, n => UInt8.ofNat n :: toLe k (n / 256)

def toBe (k n : Nat) : List UInt8 := (toLe k n).reverse

@[simp] theorem leNat_nil : leNat [] = 0 := rfl
@[simp] theorem leNat_cons (x : UInt8) (b : List UInt8) : leNat (x :: b) = x.toNat + 256 * leNat b := rfl

theorem beNat_pair (a b : UInt8) : beNat [a, b] = a.toNat * 256 + b.toNat := by
  simp only [beNat, List.reverse_cons, List.reverse_nil, List.nil_append, List.cons_append, leNat_cons, leNat_nil]
  omega

@[simp] theorem length_toLe (k n : Nat) : (toLe k n).length = k := by
  induction k generalizing n with
  | zero => rfl
  | succ k ih => simp [toLe, ih]

@[simp] theorem length_toBe (k n : Nat) : (toBe k n).length = k := by simp [toBe]

theorem leNat_lt (b : List UInt8) : leNat b < 256 ^ b.length := by
  induction b with
  | nil => simp
  | cons x b ih =>
    have := x.toNat_lt
    rw [leNat_cons, List.length_cons, Nat.pow_succ]
    omega

theorem leNat_toLe {k n : Nat} (h : n < 256 ^ k) : leNat (toLe k n) = n := by
  induction k generalizing n with
  | zero => simpa [toLe] using (by simpa using h : n = 0).symm
  | succ k ih =>
    have hdiv : n / 256 < 256 ^ k := Nat.div_lt_of_lt_mul (by rwa [Nat.pow_succ, Nat.mul_comm] at h)
    rw [toLe, leNat_cons, ih hdiv, UInt8.toNat_ofNat']
    omega

/-- The bytes of a value are the bytes it was read from. -/
theorem toLe_leNat (b : List UInt8) : toLe b.length (leNat b) = b := by
  induction b with
  | nil => rfl
  | cons x b ih =>
    have hx := x.toNat_lt
    have hfirst : UInt8.ofNat (x.toNat + 256 * leNat b) = x := UInt8.toNat_inj.mp (by rw [UInt8.toNat_ofNat']; omega)
    rw [List.length_cons, leNat_cons, toLe, hfirst, show (x.toNat + 256 * leNat b) / 256 = leNat b by omega, ih]

theorem beNat_toBe {k n : Nat} (h : n < 256 ^ k) : beNat (toBe k n) = n := by
  rw [beNat, toBe, List.reverse_reverse, leNat_toLe h]

/-! ## Parts of a byte string -/

/-- The `n` bytes of `b` from `i` on. -/
def window (b : List UInt8) (i n : Nat) : List UInt8 := (b.drop i).take n

theorem length_window {b : List UInt8} {i n : Nat} (h : i + n ≤ b.length) : (window b i n).length = n := by
  rw [window, List.length_take, List.length_drop]
  omega

theorem slice_window {b : List UInt8} {i n : Nat} (h : i + n ≤ b.length) :
    slice (ε := ε) b i (i + n) = .ok (window b i n) := by
  rw [slice_ok (Nat.le_add_right i n) h, Nat.add_sub_cancel_left, window]

/-- Writing back what was read changes nothing. -/
theorem splice_window {b : List UInt8} {i n : Nat} (h : i + n ≤ b.length) : splice b i (window b i n) = b := by
  rw [splice, length_window h, window, List.append_assoc, ← List.drop_drop, List.take_append_drop,
    List.take_append_drop]

/-- Past the overwritten part a splice changes nothing. -/
theorem drop_splice {b : List UInt8} {i : Nat} (d : List UInt8) (h : i ≤ b.length) :
    (splice b i d).drop (i + d.length) = b.drop (i + d.length) := by
  have hlen : (b.take i ++ d).length = i + d.length := by rw [List.length_append, List.length_take]; omega
  rw [splice, List.drop_left' hlen]

/-- What was written is read back. -/
theorem window_splice {b : List UInt8} {i : Nat} (d : List UInt8) (h : i ≤ b.length) :
    window (splice b i d) i d.length = d := by
  have hi : (b.take i).length = i := by rw [List.length_take]; omega
  rw [window, splice, List.append_assoc, List.drop_left' hi, List.take_left' rfl]

/-- Two checked reads are a window of two. -/
theorem window_two {b : List UInt8} {i : Nat} (h : i + 2 ≤ b.length) :
    window b i 2 = [b[i], b[i + 1]] := by
  rw [window, List.drop_eq_getElem_cons (by omega), List.drop_eq_getElem_cons (by omega)]
  rfl

/-- Two windows side by side are one. -/
theorem window_add (b : List UInt8) (i n m : Nat) : window b i (n + m) = window b i n ++ window b (i + n) m := by
  rw [window, window, window, List.take_add, List.drop_drop]

theorem window_window {b : List UInt8} {i n j m : Nat} (h : j + m ≤ n) :
    window (window b i n) j m = window b (i + j) m := by
  rw [window, window, window, List.drop_take, List.drop_drop, List.take_take, Nat.min_eq_left (by omega)]

theorem window_take (b : List UInt8) {i n k : Nat} (h : i + n ≤ k) : window (b.take k) i n = window b i n := by
  have hwin := window_window (b := b) (i := 0) h
  rwa [Nat.zero_add] at hwin

/-- A window past a prefix is a window of the rest. -/
theorem window_append_right {a : List UInt8} (b : List UInt8) {i : Nat} (n : Nat) (h : a.length ≤ i) :
    window (a ++ b) i n = window b (i - a.length) n := by
  rw [window, window, List.drop_append, List.drop_of_length_le h, List.nil_append]

/-- A window within a prefix is a window of it. -/
theorem window_append_left {a : List UInt8} (b : List UInt8) {i n : Nat} (h : i + n ≤ a.length) :
    window (a ++ b) i n = window a i n := by
  rw [window, window, List.drop_append_of_le_length (by omega), List.take_append_of_le_length (by simp; omega)]

/-- The prefix is its own window. -/
theorem window_prefix (a b : List UInt8) {n : Nat} (h : a.length = n) : window (a ++ b) 0 n = a := by
  rw [window, List.drop_zero, List.take_left' h]

end Bytes
