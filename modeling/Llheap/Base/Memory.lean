import Mathlib.Tactic
import Mathlib.Data.Set.Function

/-!
# Byte memory

Memory is a total map from addresses to bytes, so a word, a fill and a copy can overlap in any way the machine lets them. What an operation leaves alone is said with `Set.EqOn` on half-open intervals, and every reader has one lemma: it depends on the bytes it reads and on nothing else.
-/

abbrev Memory := ℕ → UInt8

namespace Memory

/-- The little-endian number in the `n` bytes from `a`. -/
def load (m : Memory) (a : ℕ) : ℕ → ℕ
  | 0 => 0
  | n + 1 => (m a).toNat + 256 * load m (a + 1) n

/-- Write `v` to the `n` bytes from `a`, least significant byte first. -/
def store (m : Memory) (a n v : ℕ) : Memory :=
  fun x => if a ≤ x ∧ x < a + n then UInt8.ofNat (v / 256 ^ (x - a)) else m x

/-- `memset` -/
def fill (m : Memory) (a n : ℕ) (c : UInt8) : Memory :=
  fun x => if a ≤ x ∧ x < a + n then c else m x

/-- `memcpy` -/
def copy (m : Memory) (dst src n : ℕ) : Memory :=
  fun x => if dst ≤ x ∧ x < dst + n then m (src + (x - dst)) else m x

/-- The 64-bit word at `a`. -/
def word (m : Memory) (a : ℕ) : ℕ := m.load a 8

def setWord (m : Memory) (a v : ℕ) : Memory := m.store a 8 v

/-- The `n` bytes from `a`. -/
def bytes (m : Memory) (a n : ℕ) : List UInt8 := (List.range n).map fun i => m (a + i)

variable {m m' : Memory} {a b n v : ℕ}

theorem load_lt (m : Memory) (a n : ℕ) : m.load a n < 256 ^ n := by
  induction n generalizing a with
  | zero => simp [load]
  | succ n ih =>
    have hbyte : (m a).toNat < 256 := UInt8.toNat_lt _
    have hrest := ih (a + 1)
    rw [load, pow_succ]
    omega

theorem word_lt (m : Memory) (a : ℕ) : m.word a < 2 ^ 64 := m.load_lt a 8

theorem load_congr (h : Set.EqOn m m' (Set.Ico a (a + n))) : m.load a n = m'.load a n := by
  induction n generalizing a with
  | zero => rfl
  | succ n ih =>
    have hhead : m a = m' a := h ⟨le_rfl, by omega⟩
    have htail : m.load (a + 1) n = m'.load (a + 1) n :=
      ih fun x hx => h ⟨by have := hx.1; omega, by have := hx.2; omega⟩
    rw [load, load, hhead, htail]

theorem word_congr (h : Set.EqOn m m' (Set.Ico a (a + 8))) : m.word a = m'.word a := load_congr h

theorem store_apply_of_outside {x : ℕ} (h : x < a ∨ a + n ≤ x) : m.store a n v x = m x :=
  if_neg (by omega)

theorem fill_apply_of_inside {x : ℕ} {c : UInt8} (h : a ≤ x ∧ x < a + n) : m.fill a n c x = c :=
  if_pos h

theorem fill_apply_of_outside {x : ℕ} {c : UInt8} (h : x < a ∨ a + n ≤ x) : m.fill a n c x = m x :=
  if_neg (by omega)

theorem copy_apply_of_outside {x : ℕ} (h : x < a ∨ a + n ≤ x) : m.copy a b n x = m x :=
  if_neg (by omega)

theorem copy_apply_add {i : ℕ} (h : i < n) : m.copy a b n (a + i) = m (b + i) := by
  rw [copy, if_pos (by omega), Nat.add_sub_cancel_left]

theorem setWord_apply_of_outside {x : ℕ} (h : x < a ∨ a + 8 ≤ x) : m.setWord a v x = m x :=
  store_apply_of_outside h

private theorem load_store_tail (j n : ℕ) :
    (m.store a (j + n) v).load (a + j) n = v / 256 ^ j % 256 ^ n := by
  induction n generalizing j with
  | zero => simp [load, Nat.mod_one]
  | succ n ih =>
    have htail := ih (j + 1)
    rw [Nat.add_right_comm, Nat.add_assoc j n 1, ← Nat.add_assoc a j 1] at htail
    have hbyte : (m.store a (j + (n + 1)) v (a + j)).toNat = v / 256 ^ j % 256 := by
      rw [store, if_pos (by omega), Nat.add_sub_cancel_left]
      exact UInt8.toNat_ofNat
    rw [load, htail, hbyte, pow_succ, ← Nat.div_div_eq_div_mul, pow_succ, Nat.mul_comm (256 ^ n),
      Nat.mod_mul]

theorem load_store_self : (m.store a n v).load a n = v % 256 ^ n := by
  have h := load_store_tail (m := m) (a := a) (v := v) 0 n
  simpa using h

theorem word_setWord_self (hv : v < 2 ^ 64) : (m.setWord a v).word a = v := by
  rw [word, setWord, load_store_self]
  exact Nat.mod_eq_of_lt (by omega)

theorem load_byte {i : ℕ} (h : i < n) : m.load a n / 256 ^ i % 256 = (m (a + i)).toNat := by
  induction n generalizing a i with
  | zero => omega
  | succ n ih =>
    have hbyte : (m a).toNat < 256 := UInt8.toNat_lt _
    rw [load]
    cases i with
    | zero =>
      change _ = (m a).toNat
      rw [pow_zero, Nat.div_one]
      omega
    | succ i =>
      have hrest : ((m a).toNat + 256 * m.load (a + 1) n) / 256 = m.load (a + 1) n := by omega
      rw [pow_succ', ← Nat.div_div_eq_div_mul, hrest, ih (by omega), Nat.add_right_comm, Nat.add_assoc]

theorem setWord_word (m : Memory) (a : ℕ) : m.setWord a (m.word a) = m := by
  funext x
  rw [setWord, store]
  split
  · next hx =>
    have hbyte := m.load_byte (a := a) (n := 8) (i := x - a) (by omega)
    rw [Nat.add_sub_cancel' hx.1] at hbyte
    apply UInt8.toNat_inj.mp
    rw [UInt8.toNat_ofNat', ← hbyte]
    rfl
  · rfl

theorem setWord_setWord (m : Memory) (a v w : ℕ) : (m.setWord a v).setWord a w = m.setWord a w := by
  funext x
  by_cases hx : x < a ∨ a + 8 ≤ x
  · rw [setWord_apply_of_outside hx, setWord_apply_of_outside hx, setWord_apply_of_outside hx]
  · have hin : a ≤ x ∧ x < a + 8 := by omega
    exact (if_pos hin).trans (if_pos hin).symm

theorem word_setWord_of_disjoint (h : b + 8 ≤ a ∨ a + 8 ≤ b) :
    (m.setWord a v).word b = m.word b := by
  apply word_congr
  intro x hx
  have := hx.1
  have := hx.2
  exact setWord_apply_of_outside (by omega)

theorem fill_eqOn {s : Set ℕ} {c : UInt8} (h : ∀ x ∈ s, x < a ∨ a + n ≤ x) :
    Set.EqOn (m.fill a n c) m s :=
  fun x hx => fill_apply_of_outside (h x hx)

/-! ### Lists of bytes -/

@[simp] theorem length_bytes : (m.bytes a n).length = n := by simp [bytes]

theorem bytes_congr (h : ∀ i < n, m' (b + i) = m (a + i)) : m'.bytes b n = m.bytes a n :=
  List.map_congr_left fun i hi => h i (List.mem_range.mp hi)

theorem mem_bytes {byte : UInt8} : byte ∈ m.bytes a n ↔ ∃ i < n, m (a + i) = byte := by simp [bytes]

theorem take_bytes (k : ℕ) : (m.bytes a n).take k = m.bytes a (min k n) := by
  rw [bytes, ← List.map_take, List.take_range, bytes]

theorem bytes_isPrefix {k : ℕ} (h : k ≤ n) : m.bytes a k <+: m.bytes a n := by
  have htake := take_bytes (m := m) (a := a) (n := n) k
  rw [min_eq_left h] at htake
  rw [← htake]
  exact List.take_prefix ..

theorem mem_drop_bytes {k : ℕ} {byte : UInt8} (h : byte ∈ (m.bytes a n).drop k) :
    ∃ i, k ≤ i ∧ i < n ∧ m (a + i) = byte := by
  obtain ⟨i, hi, rfl⟩ := List.mem_drop_iff_getElem.mp h
  rw [length_bytes] at hi
  exact ⟨k + i, Nat.le_add_right .., by omega, by simp [bytes]⟩

theorem set_bytes {i : ℕ} {byte : UInt8} :
    (m.bytes a n).set i byte = Memory.bytes (Function.update m (a + i) byte) a n := by
  apply List.ext_getElem
  · simp
  · intro j hj _
    by_cases hij : i = j
    · simp [bytes, hij]
    · have hne : a + j ≠ a + i := by omega
      simp [bytes, hij, Function.update_of_ne hne]

end Memory
