/-!
# Byte strings

Keys, field values and encoded rows are byte strings, kept as lists so that their order is the
lexicographic order of lists. The file fixes the little-endian encoding of numbers, the UTF-8 view
of text, and the printable rendering of bytes used in log lines. The two directions of the
little-endian encoding invert each other, and comparing in one pass agrees with the order.
-/

namespace StoreBench

abbrev Bytes := List UInt8

namespace Bytes

/-- The `width` low bytes of `n`, least significant first. -/
def ofNatLE : (width n : Nat) → Bytes
  | 0, _ => []
  | width + 1, n => UInt8.ofNat (n % 256) :: ofNatLE width (n / 256)

/-- The number whose bytes, least significant first, are the given ones. -/
def toNatLE : Bytes → Nat
  | [] => 0
  | b :: rest => b.toNat + 256 * toNatLE rest

@[simp] theorem toNatLE_nil : toNatLE [] = 0 := rfl

@[simp] theorem toNatLE_cons (b : UInt8) (rest : Bytes) :
    toNatLE (b :: rest) = b.toNat + 256 * toNatLE rest := rfl

@[simp] theorem length_ofNatLE (width n : Nat) : (ofNatLE width n).length = width := by
  induction width generalizing n with
  | zero => rfl
  | succ width ih => simp [ofNatLE, ih]

theorem toNatLE_lt (b : Bytes) : toNatLE b < Nat.pow 256 b.length := by
  induction b with
  | nil => simp
  | cons x rest ih =>
    have hx := x.toNat_lt
    simp only [toNatLE_cons, List.length_cons, Nat.pow_eq, Nat.pow_succ] at ih ⊢
    omega

/-- Encoding keeps a number that fits the width. -/
theorem toNatLE_ofNatLE {width n : Nat} (h : n < Nat.pow 256 width) :
    toNatLE (ofNatLE width n) = n := by
  induction width generalizing n with
  | zero => simp at h; simp [ofNatLE, h]
  | succ width ih =>
    have hdiv : n / 256 < Nat.pow 256 width := by
      rw [Nat.pow_eq, Nat.pow_succ] at h
      rw [Nat.pow_eq]
      omega
    simp only [ofNatLE, toNatLE_cons, ih hdiv, UInt8.toNat_ofNat']
    omega

theorem ofNatLE_toNatLE (b : Bytes) : ofNatLE b.length (toNatLE b) = b := by
  induction b with
  | nil => rfl
  | cons x rest ih =>
    have hx := x.toNat_lt
    have hlow : (x.toNat + 256 * toNatLE rest) % 256 = x.toNat := by omega
    have hhigh : (x.toNat + 256 * toNatLE rest) / 256 = toNatLE rest := by omega
    simp [ofNatLE, hlow, hhigh, ih]

/-- How two byte strings compare lexicographically, found in one pass over both. -/
def order : Bytes → Bytes → Ordering
  | [], [] => .eq
  | [], _ :: _ => .lt
  | _ :: _, [] => .gt
  | x :: a, y :: b => if x < y then .lt else if y < x then .gt else order a b

theorem order_eq_lt_iff {a b : Bytes} : order a b = .lt ↔ a < b := by
  fun_induction order a b with
  | case1 => simp
  | case2 => simp
  | case3 => simp
  | case4 x a y b h => simp [List.cons_lt_cons_iff, h]
  | case5 x a y b h h' =>
    have : x ≠ y := fun e => h (e ▸ h')
    simp [List.cons_lt_cons_iff, h, this]
  | case6 x a y b h h' ih =>
    have : x = y := UInt8.le_antisymm (UInt8.not_lt.1 h') (UInt8.not_lt.1 h)
    simp [ih, this]

theorem order_eq_eq_iff {a b : Bytes} : order a b = .eq ↔ a = b := by
  fun_induction order a b with
  | case1 => simp
  | case2 => simp
  | case3 => simp
  | case4 x a y b h => simp [UInt8.ne_of_lt h]
  | case5 x a y b h h' => simp [(UInt8.ne_of_lt h').symm]
  | case6 x a y b h h' ih =>
    have : x = y := UInt8.le_antisymm (UInt8.not_lt.1 h') (UInt8.not_lt.1 h)
    simp [ih, this]

theorem order_eq_gt_iff {a b : Bytes} : order a b = .gt ↔ b < a := by
  fun_induction order a b with
  | case1 => simp
  | case2 => simp
  | case3 => simp
  | case4 x a y b h =>
    simp [List.cons_lt_cons_iff, UInt8.lt_asymm h, (UInt8.ne_of_lt h).symm]
  | case5 x a y b h h' => simp [List.cons_lt_cons_iff, h']
  | case6 x a y b h h' ih =>
    have : x = y := UInt8.le_antisymm (UInt8.not_lt.1 h') (UInt8.not_lt.1 h)
    simp [ih, this]

instance : Std.TransCmp order where
  eq_swap {a b} := by
    cases h : order b a with
    | lt => exact order_eq_gt_iff.2 (order_eq_lt_iff.1 h)
    | eq => exact order_eq_eq_iff.2 (order_eq_eq_iff.1 h).symm
    | gt => exact order_eq_lt_iff.2 (order_eq_gt_iff.1 h)
  isLE_trans {a b c} hab hbc := by
    simp only [Ordering.isLE_iff_ne_gt, order_eq_gt_iff, List.not_lt] at hab hbc ⊢
    exact List.le_trans hab hbc

instance : Std.LawfulEqCmp order where
  compare_self := order_eq_eq_iff.2 rfl
  eq_of_compare := order_eq_eq_iff.1

/-- The UTF-8 encoding of a text. -/
def ofText (s : String) : Bytes := s.toByteArray.data.toList

/-- The text a byte string encodes, when it is well-formed UTF-8. -/
def toText? (b : Bytes) : Option String := String.fromUTF8? ⟨b.toArray⟩

/-- The two lower-case hexadecimal digits of a byte. -/
def hexDigits (b : UInt8) : List Char :=
  [Nat.digitChar (b.toNat / 16), Nat.digitChar (b.toNat % 16)]

/-- A byte as printable text: itself when it is printable ASCII other than a quote or a backslash,
and otherwise a backslash followed by a letter, the character, or `x` and two digits. -/
def escapeByte (b : UInt8) : List Char :=
  if b = 9 then ['\\', 't']
  else if b = 13 then ['\\', 'r']
  else if b = 10 then ['\\', 'n']
  else if b = 39 then ['\\', '\'']
  else if b = 34 then ['\\', '"']
  else if b = 92 then ['\\', '\\']
  else if 32 ≤ b ∧ b ≤ 126 then [Char.ofNat b.toNat]
  else '\\' :: 'x' :: hexDigits b

/-- The printable rendering of a byte string, byte by byte. -/
def escape (b : Bytes) : String := String.ofList (b.flatMap escapeByte)

end Bytes

end StoreBench
