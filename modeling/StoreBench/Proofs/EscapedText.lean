import Mathlib.Data.List.Chain
import StoreBench.Error
import StoreBench.Proofs.UniqueReadings
/-!
# Escaped text

The escape of no byte starts that of another, so an escaped text has one reading; its characters are
printable ASCII, and a quote in it follows a backslash. A message quotes a text once more: among
printable texts that is again a code with one reading, so a message about a row tells its key.
-/

namespace StoreBench

namespace Bytes

/-! ## One byte -/

/-- The value of a hexadecimal digit. -/
def hexValue (c : Char) : Nat := if c.isDigit then c.toNat - 48 else c.toNat - 87

/-- The byte whose escape is a backslash and a letter or sign. -/
def letterByte (c : Char) : UInt8 :=
  if c = 't' then 9 else if c = 'r' then 13 else if c = 'n' then 10 else UInt8.ofNat c.toNat

/-- The byte at the head of an escaped text, and what follows its escape. -/
def readEscape : List Char → Option (UInt8 × List Char)
  | '\\' :: 'x' :: high :: low :: rest =>
    some (UInt8.ofNat (16 * hexValue high + hexValue low), rest)
  | '\\' :: c :: rest => some (letterByte c, rest)
  | c :: rest => some (UInt8.ofNat c.toNat, rest)
  | [] => none

theorem hexValue_digitChar : ∀ n < 16, hexValue n.digitChar = n := by decide

theorem toNat_ofNat_toNat (b : UInt8) : (Char.ofNat b.toNat).toNat = b.toNat := by
  have hvalid : b.toNat.isValidChar := .inl (Nat.lt_trans b.toNat_lt (by decide))
  rw [Char.ofNat, dif_pos hvalid]
  rfl

theorem readEscape_cons {c : Char} (h : c ≠ '\\') (s : List Char) :
    readEscape (c :: s) = some (UInt8.ofNat c.toNat, s) := by
  unfold readEscape
  split <;> simp_all

/-- An escape is read back, whatever follows it. -/
theorem readEscape_escapeByte (b : UInt8) (s : List Char) :
    readEscape (escapeByte b ++ s) = some (b, s) := by
  unfold escapeByte
  split
  · next h => rw [h]; rfl
  split
  · next h => rw [h]; rfl
  split
  · next h => rw [h]; rfl
  split
  · next h => rw [h]; rfl
  split
  · next h => rw [h]; rfl
  split
  · next h => rw [h]; rfl
  next hbackslash =>
    split
    · have hne : Char.ofNat b.toNat ≠ '\\' := by
        intro h
        have hcode := congrArg Char.toNat h
        rw [toNat_ofNat_toNat] at hcode
        exact hbackslash (UInt8.toNat_inj.1 hcode)
      rw [List.singleton_append, readEscape_cons hne, toNat_ofNat_toNat, UInt8.ofNat_toNat]
    · show some (UInt8.ofNat (16 * hexValue (b.toNat / 16).digitChar +
        hexValue (b.toNat % 16).digitChar), s) = some (b, s)
      have hb := b.toNat_lt
      rw [hexValue_digitChar _ (by omega), hexValue_digitChar _ (by omega), Nat.div_add_mod,
        UInt8.ofNat_toNat]

theorem prefixFree_escapeByte : PrefixFree (fun _ => True) escapeByte where
  ne_nil b _ h := by
    have hread := readEscape_escapeByte b []
    rw [h] at hread
    cases hread
  inj x y s t _ _ h := by
    have hread : some (x, s) = some (y, t) := by
      rw [← readEscape_escapeByte, h, readEscape_escapeByte]
    cases hread
    exact ⟨rfl, rfl⟩

/-- A property of bytes is checked on the 256 of them. -/
theorem forall_byte {p : UInt8 → Prop} (h : ∀ n < 256, p (UInt8.ofNat n)) (b : UInt8) : p b := by
  rw [← UInt8.ofNat_toNat (x := b)]
  exact h _ b.toNat_lt

/-! ## Whole texts -/

@[simp] theorem toList_escape (b : Bytes) : (escape b).toList = b.flatMap escapeByte :=
  String.toList_ofList

theorem flatMap_escapeByte_inj {a b : Bytes} (h : a.flatMap escapeByte = b.flatMap escapeByte) :
    a = b :=
  prefixFree_escapeByte.flatMap_inj (fun _ _ => trivial) (fun _ _ => trivial) h

theorem escape_injective : Function.Injective escape := by
  intro a b h
  have htext := congrArg String.toList h
  rw [toList_escape, toList_escape] at htext
  exact flatMap_escapeByte_inj htext

end Bytes

/-- The characters from the space to the tilde. -/
def IsPrintableAscii (c : Char) : Prop := 32 ≤ c.toNat ∧ c.toNat ≤ 126

instance (c : Char) : Decidable (IsPrintableAscii c) := inferInstanceAs (Decidable (_ ∧ _))

/-- A text is checked character by character. -/
theorem isPrintableAscii_of_all {text : List Char}
    (h : text.all (fun c => decide (IsPrintableAscii c)) = true) {c : Char} (hc : c ∈ text) :
    IsPrintableAscii c :=
  of_decide_eq_true (List.all_eq_true.1 h c hc)

namespace Bytes

theorem all_isPrintableAscii_escapeByte :
    ∀ b, (escapeByte b).all (fun c => decide (IsPrintableAscii c)) = true :=
  forall_byte (by decide +kernel)

theorem isPrintableAscii_of_mem_escape {b : Bytes} {c : Char} (h : c ∈ (escape b).toList) :
    IsPrintableAscii c := by
  rw [toList_escape, List.mem_flatMap] at h
  obtain ⟨x, -, hc⟩ := h
  exact isPrintableAscii_of_all (all_isPrintableAscii_escapeByte x) hc

/-! ## Quotes -/

/-- Where two characters of a text stand side by side, a quote follows only a backslash. -/
abbrev QuoteFollows (c d : Char) : Prop := d = '"' → c = '\\'

theorem quotes_of_escapeByte :
    ∀ b, (escapeByte b).head? ≠ some '"' ∧ (escapeByte b).IsChain QuoteFollows :=
  forall_byte (by decide +kernel)

/-- An escaped text starts with no quote, and every quote in it follows a backslash. -/
theorem quotes_of_flatMap_escapeByte (b : Bytes) :
    (b.flatMap escapeByte).head? ≠ some '"' ∧ (b.flatMap escapeByte).IsChain QuoteFollows := by
  induction b with
  | nil => exact ⟨by simp, .nil⟩
  | cons x b ih =>
    obtain ⟨hhead, hchain⟩ := quotes_of_escapeByte x
    have hne := prefixFree_escapeByte.ne_nil x trivial
    rw [List.flatMap_cons]
    refine ⟨?_, List.isChain_append.2 ⟨hchain, ih.2, ?_⟩⟩
    · rwa [List.head?_append_of_ne_nil _ hne]
    · -- Two escapes meet before no quote, since none starts with one.
      rintro c - d hd rfl
      exact absurd hd ih.1

theorem flatMap_escapeByte_ne_opening (b : Bytes) (p s : List Char) :
    b.flatMap escapeByte ≠ p ++ '=' :: '"' :: s := by
  intro h
  have hchain := (quotes_of_flatMap_escapeByte b).2
  rw [h] at hchain
  have hquote := (List.isChain_cons_cons.1 (List.isChain_append.1 hchain).2.1).1
  exact absurd (hquote rfl) (by decide)

theorem eq_nil_of_opening {a b : Bytes} {p : List Char}
    (h : '=' :: '"' :: a.flatMap escapeByte = p ++ '=' :: '"' :: b.flatMap escapeByte) :
    p = [] := by
  match p with
  | [] => rfl
  | [_] => exact absurd (List.cons.inj (List.cons.inj h).2).1 (by decide)
  | _ :: _ :: p =>
    exact absurd (List.cons.inj (List.cons.inj h).2).2 (flatMap_escapeByte_ne_opening a p _)

/-- The quote that opens an escaped text is the last to follow an equals sign. -/
theorem opening_quote_inj {p q : List Char} {a b : Bytes}
    (h : p ++ '=' :: '"' :: a.flatMap escapeByte = q ++ '=' :: '"' :: b.flatMap escapeByte) :
    p = q ∧ a = b := by
  have hpq : p = q := by
    rcases List.append_eq_append_iff.1 h with ⟨s, rfl, hs⟩ | ⟨s, rfl, hs⟩
    · rw [eq_nil_of_opening hs, List.append_nil]
    · rw [eq_nil_of_opening hs, List.append_nil]
  subst hpq
  have htext := List.append_cancel_left h
  simp only [List.cons.injEq, true_and] at htext
  exact ⟨rfl, flatMap_escapeByte_inj htext⟩

end Bytes

/-! ## Quoting once more -/

namespace Text

open Bytes

/-- A printable character is quoted as itself, but for a quote or a backslash. -/
theorem quoteChar_of_isPrintableAscii {c : Char} (h : IsPrintableAscii c) :
    quoteChar c = if c = '\\' ∨ c = '"' then ['\\', c] else [c] := by
  unfold quoteChar
  split
  · exact absurd h (by decide)
  · exact absurd h (by decide)
  · exact absurd h (by decide)
  · exact absurd h (by decide)
  · rfl
  · rfl
  · next hbackslash hquote =>
    have hextends : extendsGrapheme c = false := by
      have := h.2
      simp only [extendsGrapheme, Bool.and_eq_false_iff, decide_eq_false_iff_not]
      exact .inl (by omega)
    have hprintable : isPrintable c = true := by
      rw [isPrintable, if_pos (Nat.lt_succ_of_le h.2), decide_eq_true h.1]
    rw [hextends, hprintable, if_neg (by decide), if_neg (not_or.2 ⟨hbackslash, hquote⟩)]

theorem prefixFree_quoteChar : PrefixFree IsPrintableAscii quoteChar where
  ne_nil c hc := by
    rw [quoteChar_of_isPrintableAscii hc]
    split <;> simp
  inj c d s t hc hd h := by
    rw [quoteChar_of_isPrintableAscii hc, quoteChar_of_isPrintableAscii hd] at h
    split at h <;> split at h <;> grind

/-- Quoting keeps printable texts apart. -/
theorem quote_inj {s t : String} (hs : ∀ c ∈ s.toList, IsPrintableAscii c)
    (ht : ∀ c ∈ t.toList, IsPrintableAscii c) (h : quote s = quote t) : s = t := by
  have htext := congrArg String.toList h
  simp only [quote, String.toList_ofList, List.cons_append, List.cons.injEq, true_and,
    List.append_cancel_right_eq] at htext
  exact String.toList_inj.1 (prefixFree_quoteChar.flatMap_inj hs ht htext)

end Text

/-! ## Messages about a row -/

theorem space_notMem_toDigits (n : Nat) : ' ' ∉ Nat.toDigits 10 n := fun h =>
  absurd (Nat.isDigit_of_mem_toDigits (by decide) (by decide) h) (by decide)

theorem isPrintableAscii_of_isDigit {c : Char} (h : c.isDigit) : IsPrintableAscii c := by
  have hrange := Char.isDigit_iff_toNat.1 h
  exact ⟨Nat.le_trans (by decide) hrange.1, Nat.le_trans hrange.2 (by decide)⟩

/-- A number at the end of a text, after a space, is read from the end. -/
theorem trailing_number_inj {p q : List Char} {m n : Nat}
    (h : p ++ ' ' :: Nat.toDigits 10 m = q ++ ' ' :: Nat.toDigits 10 n) : p = q ∧ m = n := by
  obtain ⟨hpq, hdigits⟩ :=
    append_cons_inj_of_notMem_right (space_notMem_toDigits m) (space_notMem_toDigits n) h
  have hvalue := congrArg (Nat.ofDigitChars 10 · 0) hdigits
  rw [Nat.ofDigitChars_ten_toDigits, Nat.ofDigitChars_ten_toDigits] at hvalue
  exact ⟨hpq, hvalue⟩

namespace Corruption

theorem toList_fieldCount_message (key : Bytes) (found expected : Nat) :
    (fieldCount key found expected).message.toList =
      "row ".toList ++ (Bytes.escape key).toList ++ " has".toList ++ ' ' :: Nat.toDigits 10 found ++
        " fields, expected".toList ++ ' ' :: Nat.toDigits 10 expected := by
  have hmessage : (fieldCount key found expected).message =
      "row " ++ Bytes.escape key ++ (" has " ++ found.repr ++ " fields, expected " ++
        expected.repr) := rfl
  rw [hmessage]
  simp only [String.toList_append, Nat.toList_repr]
  simp

theorem isPrintableAscii_of_mem_fieldCount_message {key : Bytes} {found expected : Nat} {c : Char}
    (h : c ∈ (fieldCount key found expected).message.toList) : IsPrintableAscii c := by
  have hdigit : ∀ n, c ∈ Nat.toDigits 10 n → IsPrintableAscii c := fun n hc =>
    isPrintableAscii_of_isDigit (Nat.isDigit_of_mem_toDigits (by decide) (by decide) hc)
  have hspace : IsPrintableAscii ' ' := by decide
  rw [toList_fieldCount_message] at h
  simp only [List.mem_append, List.mem_cons] at h
  rcases h with ((((h | h) | h) | rfl | h) | h) | rfl | h
  · exact isPrintableAscii_of_all (by decide) h
  · exact Bytes.isPrintableAscii_of_mem_escape h
  · exact isPrintableAscii_of_all (by decide) h
  · exact hspace
  · exact hdigit found h
  · exact isPrintableAscii_of_all (by decide) h
  · exact hspace
  · exact hdigit expected h

/-- The text tells the key of the row and both counts. -/
theorem fieldCount_message_inj {key key' : Bytes} {found found' expected expected' : Nat}
    (h : (fieldCount key found expected).message = (fieldCount key' found' expected').message) :
    key = key' ∧ found = found' ∧ expected = expected' := by
  have htext := congrArg String.toList h
  rw [toList_fieldCount_message, toList_fieldCount_message] at htext
  obtain ⟨htext, hexpected⟩ := trailing_number_inj htext
  obtain ⟨htext, hfound⟩ := trailing_number_inj (List.append_cancel_right htext)
  have hkey := List.append_cancel_left (List.append_cancel_right htext)
  exact ⟨Bytes.escape_injective (String.toList_inj.1 hkey), hfound, hexpected⟩

end Corruption

namespace Error

/-- The message of an error quotes the text of its cause, and keeps printable texts apart. -/
theorem corruptRow_message_inj {cause cause' : Corruption}
    (hcause : ∀ c ∈ cause.message.toList, IsPrintableAscii c)
    (hcause' : ∀ c ∈ cause'.message.toList, IsPrintableAscii c)
    (h : message (.corruptRow cause) = message (.corruptRow cause')) :
    cause.message = cause'.message := by
  have hmessage : ∀ cause : Corruption, message (.corruptRow cause) =
      "CorruptRow" ++ " \x7b " ++ ("context" ++ ": " ++ Text.quote cause.message) ++ " \x7d" :=
    fun _ => rfl
  rw [hmessage, hmessage] at h
  have hquote := (String.append_right_inj _).1 ((String.append_right_inj _).1
    ((String.append_left_inj _).1 h))
  exact Text.quote_inj hcause hcause' hquote

end Error

end StoreBench
