import Mathlib

/-!
# Big-endian byte strings

Byte strings of one length are numbers in base 256, most significant byte
first, and lexicographic comparison is comparison of these numbers. Writing a
number back in a fixed number of bytes inverts `value` below the wrap-around.
-/
namespace AciContainers.Bytes

open Nat

abbrev ByteString := List UInt8

/-- The number a byte string writes in base 256. -/
def value : ByteString → Nat
  | [] => 0
  | b :: bs => b.toNat * 256 ^ bs.length + value bs

@[simp] theorem value_nil : value [] = 0 := rfl
@[simp] theorem value_cons (b : UInt8) (bs : ByteString) :
    value (b :: bs) = b.toNat * 256 ^ bs.length + value bs := rfl

theorem byte_lt (b : UInt8) : b.toNat < 256 := b.toNat_lt

theorem value_lt (a : ByteString) : value a < 256 ^ a.length := by
  induction a with
  | nil => simp
  | cons b bs ih =>
    have hb : b.toNat + 1 ≤ 256 := byte_lt b
    have hmul : (b.toNat + 1) * 256 ^ bs.length ≤ 256 * 256 ^ bs.length :=
      mul_le_mul_right _ hb
    simp only [value_cons, List.length_cons, pow_succ]
    rw [add_mul, one_mul] at hmul
    omega

theorem value_append (a b : ByteString) : value (a ++ b) = value a * 256 ^ b.length + value b := by
  induction a with
  | nil => simp
  | cons x xs ih =>
    simp only [List.cons_append, value_cons, List.length_append, ih, pow_add, add_mul]
    rw [mul_assoc, add_assoc]

/-- Lexicographic order on byte strings, a shorter prefix coming first. -/
def compare : ByteString → ByteString → Ordering
  | [], [] => .eq
  | [], _ :: _ => .lt
  | _ :: _, [] => .gt
  | a :: as, b :: bs => if a < b then .lt else if b < a then .gt else compare as bs

theorem digit_lt {m n p v : Nat} (hmn : m < n) (hv : v < p) (w : Nat) : m * p + v < n * p + w := by
  have h : (m + 1) * p ≤ n * p := mul_le_mul_right p hmn
  rw [add_mul, one_mul] at h
  omega

/-- On strings of one length lexicographic order is the order of the numbers. -/
theorem compare_value (a b : ByteString) (h : a.length = b.length) : compare a b = Ord.compare (value a) (value b) := by
  induction a generalizing b with
  | nil =>
    cases b with
    | nil => simp [compare]
    | cons y ys => simp at h
  | cons x xs ih =>
    cases b with
    | nil => simp at h
    | cons y ys =>
      have hl : xs.length = ys.length := by simpa using h
      have hx := value_lt xs
      have hy := value_lt ys
      rw [hl] at hx
      simp only [compare, value_cons, hl]
      by_cases hxy : x < y
      · have hlt := digit_lt (UInt8.lt_iff_toNat_lt.mp hxy) hx (value ys)
        rw [if_pos hxy, Nat.compare_eq_lt.mpr hlt]
      · by_cases hyx : y < x
        · have hlt := digit_lt (UInt8.lt_iff_toNat_lt.mp hyx) hy (value xs)
          rw [if_neg hxy, if_pos hyx, Nat.compare_eq_gt.mpr hlt]
        · have he : x.toNat = y.toNat := by
            rw [UInt8.lt_iff_toNat_lt] at hxy hyx
            omega
          rw [if_neg hxy, if_neg hyx, ih ys hl, he, compare_eq_ite_lt, compare_eq_ite_lt]
          simp

variable {a b : ByteString} (h : a.length = b.length)
include h

theorem compare_lt : compare a b = .lt ↔ value a < value b := by
  rw [compare_value a b h, Nat.compare_eq_lt]

theorem compare_gt : compare a b = .gt ↔ value b < value a := by
  rw [compare_value a b h, Nat.compare_eq_gt]

theorem compare_eq : compare a b = .eq ↔ value a = value b := by
  rw [compare_value a b h, Nat.compare_eq_eq]

theorem value_inj (hv : value a = value b) : a = b := by
  induction a generalizing b with
  | nil =>
    cases b with
    | nil => rfl
    | cons y ys => simp at h
  | cons x xs ih =>
    cases b with
    | nil => simp at h
    | cons y ys =>
      have hl : xs.length = ys.length := by simpa using h
      have hx := value_lt xs
      have hy := value_lt ys
      rw [hl] at hx
      simp only [value_cons, hl] at hv
      have hxy : x.toNat = y.toNat := by
        rcases lt_trichotomy x.toNat y.toNat with hlt | heq | hgt
        · have := digit_lt hlt hx (value ys); omega
        · exact heq
        · have := digit_lt hgt hy (value xs); omega
      rw [hxy] at hv
      rw [UInt8.toNat_inj.mp hxy, ih hl (by omega)]

omit h

theorem toNat_add_one {b : UInt8} (h : b < 255) : (b + 1).toNat = b.toNat + 1 := by
  have hb : b.toNat < 255 := by simpa using UInt8.lt_iff_toNat_lt.mp h
  rw [UInt8.toNat_add, show (1 : UInt8).toNat = 1 from rfl]
  exact mod_eq_of_lt (by omega)

theorem toNat_sub_one {b : UInt8} (h : b > 0) : (b - 1).toNat + 1 = b.toNat := by
  have hb : 0 < b.toNat := by simpa using UInt8.lt_iff_toNat_lt.mp h
  have hlt := byte_lt b
  rw [UInt8.toNat_sub, show (1 : UInt8).toNat = 1 from rfl]
  omega

/-- The big-endian writing of `v` in exactly `n` bytes. -/
def ofNat : Nat → Nat → ByteString
  | 0, _ => []
  | n + 1, v => ofNat n (v / 256) ++ [UInt8.ofNat v]

@[simp] theorem length_ofNat (n v : Nat) : (ofNat n v).length = n := by
  induction n generalizing v with
  | zero => rfl
  | succ n ih => simp [ofNat, ih]

theorem value_snoc (a : ByteString) (b : UInt8) : value (a ++ [b]) = value a * 256 + b.toNat := by
  rw [value_append]
  simp

theorem value_ofNat (n v : Nat) (h : v < 256 ^ n) : value (ofNat n v) = v := by
  induction n generalizing v with
  | zero => simp at h; simp [ofNat, h]
  | succ n ih =>
    have hd : v / 256 < 256 ^ n := by
      exact Nat.div_lt_of_lt_mul (by omega)
    have hb : (UInt8.ofNat v).toNat = v % 256 := by simp [UInt8.toNat_ofNat']
    rw [ofNat, value_snoc, ih _ hd, hb]
    omega

end AciContainers.Bytes
