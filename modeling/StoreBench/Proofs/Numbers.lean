import Mathlib.Algebra.Group.Nat.Defs
import StoreBench.Proofs.Columns
import StoreBench.Workload.Record
/-!
# Record numbers and their keys

Numbers are handed out one after another until the last machine word was. Different numbers have
different keys. The keys of numbers with at most ten digits sort like the numbers, since each of
them is spelled with ten digits.
-/

namespace StoreBench

/-! ## Digits as bytes -/

/-- The byte of an ASCII character. -/
def asciiByte (c : Char) : UInt8 := c.val.toUInt8

theorem Bytes.ofText_ofList {cs : List Char} (h : ∀ c ∈ cs, c.toNat ≤ 127) :
    ofText (String.ofList cs) = cs.map asciiByte := by
  have hbytes : cs.flatMap String.utf8EncodeChar = cs.map asciiByte := by
    induction cs with
    | nil => rfl
    | cons c cs ih =>
      obtain ⟨hc, hcs⟩ := List.forall_mem_cons.1 h
      rw [List.flatMap_cons, String.utf8EncodeChar_eq_singleton (Char.utf8Size_eq_one_iff.2 hc),
        ih hcs]
      rfl
  rw [ofText, String.toByteArray_ofList, List.utf8Encode, List.toList_data_toByteArray, hbytes]

namespace Text

/-- The value of a digit. -/
def digitValue (c : Char) : Nat := c.toNat - '0'.toNat

theorem digitValue_lt {c : Char} (h : c.isDigit) : digitValue c < 10 := (digitChar_of_isDigit h).2

theorem toNat_of_isDigit {c : Char} (h : c.isDigit) : c.toNat = 48 + digitValue c := by
  have hrange : 48 ≤ c.toNat ∧ c.toNat ≤ 57 := by
    simpa [Char.isDigit, UInt32.le_iff_toNat_le] using h
  have hzero : '0'.toNat = 48 := rfl
  rw [digitValue, hzero]
  omega

theorem asciiByte_lt_iff {c d : Char} (hc : c.isDigit) (hd : d.isDigit) :
    asciiByte c < asciiByte d ↔ digitValue c < digitValue d := by
  have hbyte : ∀ {c : Char}, c.isDigit → (asciiByte c).toNat = 48 + digitValue c := by
    intro c hc
    rw [← toNat_of_isDigit hc]
    have hlt := digitValue_lt hc
    have hvalue := toNat_of_isDigit hc
    exact Nat.mod_eq_of_lt (by omega : c.toNat < 2 ^ 8)
  rw [UInt8.lt_iff_toNat_lt, hbyte hc, hbyte hd]
  omega

theorem ofDigitChars_cons_zero (c : Char) (cs : List Char) :
    Nat.ofDigitChars 10 (c :: cs) 0 =
      10 ^ cs.length * digitValue c + Nat.ofDigitChars 10 cs 0 := by
  rw [Nat.ofDigitChars_cons, Nat.mul_zero, Nat.zero_add, Nat.ofDigitChars_eq_ofDigitChars_zero]
  rfl

theorem ofDigitChars_lt {cs : List Char} (h : ∀ c ∈ cs, c.isDigit) :
    Nat.ofDigitChars 10 cs 0 < 10 ^ cs.length := by
  induction cs with
  | nil => exact Nat.one_pos
  | cons c cs ih =>
    obtain ⟨hc, hcs⟩ := List.forall_mem_cons.1 h
    have hdigit := digitValue_lt hc
    calc Nat.ofDigitChars 10 (c :: cs) 0
        = 10 ^ cs.length * digitValue c + Nat.ofDigitChars 10 cs 0 := ofDigitChars_cons_zero c cs
      _ < 10 ^ cs.length * digitValue c + 10 ^ cs.length := Nat.add_lt_add_left (ih hcs) _
      _ = 10 ^ cs.length * (digitValue c + 1) := (Nat.mul_succ ..).symm
      _ ≤ 10 ^ cs.length * 10 := Nat.mul_le_mul_left _ hdigit
      _ = 10 ^ (c :: cs).length := (Nat.pow_succ ..).symm

/-- Numbers spelled with equally many digits sort like their spellings. -/
theorem map_asciiByte_lt {cs ds : List Char} (hcs : ∀ c ∈ cs, c.isDigit) (hds : ∀ d ∈ ds, d.isDigit)
    (hlength : cs.length = ds.length)
    (hlt : Nat.ofDigitChars 10 cs 0 < Nat.ofDigitChars 10 ds 0) :
    cs.map asciiByte < ds.map asciiByte := by
  induction cs generalizing ds with
  | nil =>
    rw [List.length_nil] at hlength
    rw [List.length_eq_zero_iff.1 hlength.symm] at hlt
    exact absurd hlt (Nat.lt_irrefl _)
  | cons c cs ih =>
    cases ds with
    | nil => cases hlength
    | cons d ds =>
      obtain ⟨hc, hcs⟩ := List.forall_mem_cons.1 hcs
      obtain ⟨hd, hds'⟩ := List.forall_mem_cons.1 hds
      have htail : cs.length = ds.length := Nat.succ.inj hlength
      rw [ofDigitChars_cons_zero, ofDigitChars_cons_zero, htail] at hlt
      rw [List.map_cons, List.map_cons, List.cons_lt_cons_iff, asciiByte_lt_iff hc hd]
      rcases Nat.lt_trichotomy (digitValue c) (digitValue d) with hless | hsame | hmore
      · exact .inl hless
      · have hchar : c = d := Char.toNat_inj.1 (by
          rw [toNat_of_isDigit hc, toNat_of_isDigit hd, hsame])
        rw [hsame] at hlt
        exact .inr ⟨congrArg asciiByte hchar, ih hcs hds' htail (Nat.lt_of_add_lt_add_left hlt)⟩
      · have hbound := ofDigitChars_lt hds'
        have hstep : 10 ^ ds.length * (digitValue d + 1) ≤ 10 ^ ds.length * digitValue c :=
          Nat.mul_le_mul_left _ hmore
        rw [Nat.mul_succ] at hstep
        omega

end Text

/-! ## Keys -/

section Keys

variable {width m n : Nat}

theorem isDigit_of_mem_paddedDigits {c : Char} (h : c ∈ paddedDigits width n) : c.isDigit := by
  rcases List.mem_append.1 h with hzero | hdigit
  · rw [(List.mem_replicate.1 hzero).2]
    rfl
  · exact Nat.isDigit_of_mem_toDigits (by decide) (by decide) hdigit

/-- Padding keeps the number. -/
theorem ofDigitChars_paddedDigits : Nat.ofDigitChars 10 (paddedDigits width n) 0 = n := by
  rw [paddedDigits, Nat.ofDigitChars_append, Nat.ofDigitChars_replicate_zero, Nat.mul_zero,
    Nat.ofDigitChars_ten_toDigits]

theorem length_paddedDigits (hwidth : 0 < width) (h : n < 10 ^ width) :
    (paddedDigits width n).length = width := by
  have hdigits := (Nat.length_toDigits_le_iff (by decide : 1 < 10) hwidth).2 h
  rw [paddedDigits, List.length_append, List.length_replicate]
  omega

theorem recordKey_injective : Function.Injective recordKey := by
  intro m n h
  have hdigits : paddedDigits 10 m = paddedDigits 10 n :=
    List.append_cancel_left (String.ofList_injective (Bytes.ofText_injective h))
  calc m = Nat.ofDigitChars 10 (paddedDigits 10 m) 0 := ofDigitChars_paddedDigits.symm
    _ = Nat.ofDigitChars 10 (paddedDigits 10 n) 0 := by rw [hdigits]
    _ = n := ofDigitChars_paddedDigits

/-- The keys of numbers with at most ten digits sort like the numbers. -/
theorem recordKey_lt (hlt : m < n) (h : n < 10 ^ 10) : recordKey m < recordKey n := by
  have hkey : ∀ n, recordKey n = "user".toList.map asciiByte ++
      (paddedDigits 10 n).map asciiByte := by
    intro n
    rw [recordKey, Bytes.ofText_ofList, List.map_append]
    intro c hc
    rcases List.mem_append.1 hc with hstem | hdigit
    · exact (by simp : ∀ c ∈ "user".toList, c.toNat ≤ 127) c hstem
    · have hisDigit := isDigit_of_mem_paddedDigits hdigit
      have hvalue := Text.toNat_of_isDigit hisDigit
      have hbound := Text.digitValue_lt hisDigit
      omega
  rw [hkey, hkey]
  refine List.append_left_lt (Text.map_asciiByte_lt (fun _ => isDigit_of_mem_paddedDigits)
    (fun _ => isDigit_of_mem_paddedDigits) ?_ ?_)
  · rw [length_paddedDigits (by decide) (Nat.lt_trans hlt h), length_paddedDigits (by decide) h]
  · rwa [ofDigitChars_paddedDigits, ofDigitChars_paddedDigits]

/-- The keys of numbers with at most ten digits compare as the numbers do, and no two numbers of 64
bits have one key, whatever their digits. -/
theorem keys_ordered :
    (∀ m n, m < 10 ^ 10 → n < 10 ^ 10 → Bytes.order (recordKey m) (recordKey n) = compare m n) ∧
      ∀ m n : UInt64, recordKey m.toNat = recordKey n.toNat → m = n := by
  constructor
  · intro m n hm hn
    rcases Nat.lt_trichotomy m n with hlt | rfl | hgt
    · rw [Nat.compare_eq_lt.2 hlt]
      exact Bytes.order_eq_lt_iff.2 (recordKey_lt hlt hn)
    · rw [Nat.compare_eq_eq.2 rfl]
      exact Bytes.order_eq_eq_iff.2 rfl
    · rw [Nat.compare_eq_gt.2 hgt]
      exact Bytes.order_eq_gt_iff.2 (recordKey_lt hgt hm)
  · intro m n h
    exact UInt64.toNat_inj.1 (recordKey_injective h)

/-- The last numbers of nine and ten digits. -/
theorem keys_ordered_nine_digits :
    (999999999 < 10 ^ 10 ∧ 9999999999 < 10 ^ 10) ∧
      Bytes.order (recordKey 999999999) (recordKey 9999999999) = .lt ∧
      ∀ n : UInt64, recordKey n.toNat = recordKey 10000000000 → n = 10000000000 := by
  refine ⟨by decide, ?_, fun n h => keys_ordered.2 n 10000000000 h⟩
  exact keys_ordered.1 999999999 9999999999 (by decide) (by decide)

end Keys

/-! ## Numberings -/

namespace Numbering

/-- A numbering hands out a number, if any. -/
def Hands (before : Numbering) (number : Option UInt64) (after : Numbering) : Prop :=
  match number with
  | none => after = before
  | some taken => before.take = (taken, after)

theorem toNat_next_take {n : Numbering} (h : n.next.toNat + 1 < UInt64.size) :
    n.take.2.next.toNat = n.next.toNat + 1 := by
  have hone : (1 : UInt64).toNat = 1 := rfl
  rw [take, UInt64.toNat_add, hone]
  exact Nat.mod_eq_of_lt h

theorem next_le_assumeLoaded (n : Numbering) (count : Nat) :
    n.next ≤ (n.assumeLoaded count).next := by
  simp only [assumeLoaded, max]
  split
  · assumption
  · exact UInt64.le_refl _

theorem toNat_next_assumeLoaded_start {count : Nat} (h : count < UInt64.size) :
    (start.assumeLoaded count).next.toNat = count := by
  have hle : start.next ≤ UInt64.ofNat count := UInt64.le_iff_toNat_le.2 (Nat.zero_le _)
  simp only [assumeLoaded, max]
  rw [if_pos hle]
  exact Nat.mod_eq_of_lt h

/-- Going on after records that were numbered already changes nothing. -/
theorem assumeLoaded_of_le {n : Numbering} {count : Nat} (h : UInt64.ofNat count ≤ n.next) :
    n.assumeLoaded count = n := by
  simp only [assumeLoaded, max]
  split
  · next hle => exact congrArg mk (UInt64.le_antisymm h hle)
  · rfl

end Numbering

end StoreBench
