import Mathlib.Algebra.Order.Ring.Int
import StoreBench.Proofs.Columns
import StoreBench.Properties
/-!
# Literals

What a text has to look like to stand for a value of a type, and for which value, said without the
readers. Every reader accepts exactly the texts of its grammar and answers with their value.
-/

namespace StoreBench.Text

variable {s : List Char} {text : String} {bits n : Nat} {i : Int} {x : Float}

/-! ## Whole numbers -/

/-- Decimal digits, at least one of them. -/
def IsNumeral (s : List Char) : Prop := s ≠ [] ∧ ∀ c ∈ s, c.isDigit

/-- The number that decimal digits stand for. -/
def numeralValue (s : List Char) : Nat := Nat.ofDigitChars 10 s 0

/-- A numeral that may have a plus sign. -/
def SpellsNatural (s : List Char) (n : Nat) : Prop :=
  ∃ digits, (s = digits ∨ s = '+' :: digits) ∧ IsNumeral digits ∧ n = numeralValue digits

/-- A numeral that may have either sign. -/
def SpellsInteger (s : List Char) (i : Int) : Prop :=
  (∃ n, SpellsNatural s n ∧ i = n) ∨
    ∃ digits, s = '-' :: digits ∧ IsNumeral digits ∧ i = -(numeralValue digits)

/-- A number of so many bits. -/
def SpellsUnsigned (bits : Nat) (text : String) (n : Nat) : Prop :=
  SpellsNatural text.toList n ∧ n < 2 ^ bits

/-- A number of so many bits in two's complement. -/
def SpellsSigned (bits : Nat) (text : String) (i : Int) : Prop :=
  SpellsInteger text.toList i ∧ -2 ^ (bits - 1) ≤ i ∧ i < 2 ^ (bits - 1)

theorem IsNumeral.head?_isDigit {c : Char} (h : IsNumeral s) (hc : s.head? = some c) :
    c.isDigit := h.2 c (List.mem_of_head? hc)

theorem isDigit_of_digitsValue?_eq_some {m : Nat} (h : s.foldlM nextDigit? m = some n) :
    ∀ c ∈ s, c.isDigit := by
  induction s generalizing m with
  | nil => simp
  | cons c s ih =>
    by_cases hc : c.isDigit
    · rw [List.foldlM_cons, nextDigit?, if_pos hc] at h
      exact List.forall_mem_cons.2 ⟨hc, ih h⟩
    · rw [List.foldlM_cons, nextDigit?, if_neg hc] at h
      cases h

theorem digitsValue?_eq_some_iff :
    digitsValue? s = some n ↔ (∀ c ∈ s, c.isDigit) ∧ n = numeralValue s := by
  constructor
  · intro h
    have hdigits := isDigit_of_digitsValue?_eq_some h
    have hvalue := (foldlM_nextDigit?_of_isDigit hdigits 0).symm.trans h
    exact ⟨hdigits, (Option.some.inj hvalue).symm⟩
  · rintro ⟨hdigits, rfl⟩
    exact foldlM_nextDigit?_of_isDigit hdigits 0

theorem digitsValue?_eq_some_iff_of_ne_nil (h : s ≠ []) :
    digitsValue? s = some n ↔ IsNumeral s ∧ n = numeralValue s := by
  rw [digitsValue?_eq_some_iff, IsNumeral, and_iff_right h]

theorem spellsNatural_cons_plus :
    SpellsNatural ('+' :: s) n ↔ IsNumeral s ∧ n = numeralValue s := by
  constructor
  · rintro ⟨digits, rfl | hplus, hdigits, rfl⟩
    · exact absurd (hdigits.head?_isDigit rfl) (by decide)
    · cases hplus
      exact ⟨hdigits, rfl⟩
  · intro h
    exact ⟨s, .inr rfl, h⟩

theorem spellsNatural_iff_of_ne (h : ∀ rest, s ≠ '+' :: rest) :
    SpellsNatural s n ↔ IsNumeral s ∧ n = numeralValue s := by
  constructor
  · rintro ⟨digits, rfl | hplus, hdigits⟩
    · exact hdigits
    · exact absurd hplus (h digits)
  · intro hs
    exact ⟨s, .inl rfl, hs⟩

theorem unsignedLiteral?_eq_some_iff : unsignedLiteral? s = some n ↔ SpellsNatural s n := by
  unfold unsignedLiteral?
  split
  · rw [spellsNatural_iff_of_ne (by simp)]
    simp [IsNumeral]
  · rw [spellsNatural_cons_plus]
    simp [IsNumeral]
  · next digits hne =>
    rw [spellsNatural_cons_plus]
    exact digitsValue?_eq_some_iff_of_ne_nil hne
  · next hne _ hplus =>
    rw [spellsNatural_iff_of_ne hplus]
    exact digitsValue?_eq_some_iff_of_ne_nil hne

theorem SpellsNatural.head?_ne_minus (h : SpellsNatural s n) (rest : List Char) :
    s ≠ '-' :: rest := by
  rintro rfl
  obtain ⟨digits, rfl | hplus, hdigits, -⟩ := h
  · exact absurd (hdigits.head?_isDigit rfl) (by decide)
  · cases hplus

theorem spellsInteger_cons_minus :
    SpellsInteger ('-' :: s) i ↔ IsNumeral s ∧ i = -(numeralValue s) := by
  constructor
  · rintro (⟨n, hn, -⟩ | ⟨digits, hminus, hdigits⟩)
    · exact absurd rfl (hn.head?_ne_minus s)
    · cases hminus
      exact hdigits
  · intro h
    exact .inr ⟨s, rfl, h⟩

theorem signedLiteral?_eq_some_iff : signedLiteral? s = some i ↔ SpellsInteger s i := by
  unfold signedLiteral?
  split
  · rw [spellsInteger_cons_minus]
    simp [IsNumeral]
  · next digits hne =>
    have hvalue : (∃ n, digitsValue? digits = some n ∧ i = -(n : Int)) ↔
        IsNumeral digits ∧ i = -(numeralValue digits) := by
      simp only [digitsValue?_eq_some_iff_of_ne_nil hne]
      constructor
      · rintro ⟨n, ⟨hdigits, rfl⟩, hi⟩
        exact ⟨hdigits, hi⟩
      · rintro ⟨hdigits, hi⟩
        exact ⟨_, ⟨hdigits, rfl⟩, hi⟩
    rw [spellsInteger_cons_minus, ← hvalue]
    cases digitsValue? digits <;> simp [eq_comm]
  · next hminus =>
    rw [Option.map_eq_some_iff]
    simp only [unsignedLiteral?_eq_some_iff]
    constructor
    · rintro ⟨n, hn, rfl⟩
      exact .inl ⟨n, hn, rfl⟩
    · rintro (⟨n, hn, rfl⟩ | ⟨digits, rfl, -⟩)
      · exact ⟨n, hn, rfl⟩
      · exact absurd rfl (hminus digits)

theorem parseUnsigned?_eq_some_iff :
    parseUnsigned? bits text = some n ↔ SpellsUnsigned bits text n := by
  rw [parseUnsigned?, Option.filter_eq_some_iff, unsignedLiteral?_eq_some_iff, SpellsUnsigned,
    decide_eq_true_eq]
  rfl

theorem parseSigned?_eq_some_iff :
    parseSigned? bits text = some i ↔ SpellsSigned bits text i := by
  rw [parseSigned?, Option.filter_eq_some_iff, signedLiteral?_eq_some_iff, SpellsSigned,
    decide_eq_true_eq]
  have hbound : ((Nat.pow 2 (bits - 1) : Nat) : Int) = 2 ^ (bits - 1) := by
    norm_cast
  rw [hbound]

/-! ## Numbers with a point -/

/-- An exponent that may be left out. -/
def SpellsExponent (s : List Char) (i : Int) : Prop :=
  s = [] ∧ i = 0 ∨ ∃ c rest, s = c :: rest ∧ (c = 'e' ∨ c = 'E') ∧ SpellsInteger rest i

/-- Digits with at most one point among them, at least one digit, and an exponent. -/
def SpellsDecimal (s : List Char) (x : Float) : Prop :=
  ∃ whole fraction tail exponent,
    (s = whole ++ tail ∧ fraction = [] ∨ s = whole ++ '.' :: (fraction ++ tail)) ∧
      IsNumeral (whole ++ fraction) ∧ SpellsExponent tail exponent ∧
      x = nearestFloat (numeralValue (whole ++ fraction)) (exponent - fraction.length)

/-- A decimal, or a word for one of the special values in any case. -/
def SpellsMagnitude (s : List Char) (x : Float) : Prop :=
  (s.map Char.toLower = "inf".toList ∨ s.map Char.toLower = "infinity".toList) ∧ x = 1.0 / 0.0 ∨
    s.map Char.toLower = "nan".toList ∧ x = 0.0 / 0.0 ∨ SpellsDecimal s x

/-- A magnitude that may have either sign. -/
def SpellsFloat (text : String) (x : Float) : Prop :=
  (∃ s, (text.toList = s ∨ text.toList = '+' :: s) ∧ SpellsMagnitude s x) ∨
    ∃ s y, text.toList = '-' :: s ∧ SpellsMagnitude s y ∧ x = -y

theorem exponentPart?_eq_some_iff : exponentPart? s = some i ↔ SpellsExponent s i := by
  cases s with
  | nil => simp [exponentPart?, SpellsExponent, eq_comm]
  | cons c rest =>
    by_cases hc : c = 'e' ∨ c = 'E'
    · rw [exponentPart?, if_pos hc, signedLiteral?_eq_some_iff]
      constructor
      · intro hi
        exact .inr ⟨c, rest, rfl, hc, hi⟩
      · rintro (⟨hnil, -⟩ | ⟨c', rest', hcons, -, hi⟩)
        · cases hnil
        · cases hcons
          exact hi
    · rw [exponentPart?, if_neg hc]
      refine iff_of_false nofun ?_
      rintro (⟨hnil, -⟩ | ⟨c', rest', hcons, hc', -⟩)
      · cases hnil
      · cases hcons
        exact hc hc'

/-- The value of a decimal from its parts. -/
def decimalOf? (whole fraction tail : List Char) : Option Float :=
  if whole.isEmpty && fraction.isEmpty then none
  else do
    let mantissa ← digitsValue? (whole ++ fraction)
    let exponent ← exponentPart? tail
    return nearestFloat mantissa (exponent - fraction.length)

theorem decimalLiteral?_of_point {more : List Char}
    (h : s.dropWhile Char.isDigit = '.' :: more) : decimalLiteral? s =
      decimalOf? (s.takeWhile Char.isDigit) (more.takeWhile Char.isDigit)
        (more.dropWhile Char.isDigit) := by
  simp only [decimalLiteral?, h]
  rfl

theorem decimalLiteral?_of_no_point (h : ∀ more, s.dropWhile Char.isDigit ≠ '.' :: more) :
    decimalLiteral? s =
      decimalOf? (s.takeWhile Char.isDigit) [] (s.dropWhile Char.isDigit) := by
  unfold decimalLiteral?
  dsimp only
  split
  · next hpoint => exact absurd hpoint (h _)
  · rfl

theorem decimalOf?_eq_some_iff {whole fraction tail : List Char} :
    decimalOf? whole fraction tail = some x ↔ ∃ exponent,
      IsNumeral (whole ++ fraction) ∧ SpellsExponent tail exponent ∧
        x = nearestFloat (numeralValue (whole ++ fraction)) (exponent - fraction.length) := by
  by_cases hempty : whole ++ fraction = []
  · obtain ⟨rfl, rfl⟩ := List.append_eq_nil_iff.1 hempty
    simp [decimalOf?, IsNumeral]
  · have hcond : ¬(whole.isEmpty && fraction.isEmpty) := by
      simpa using hempty
    simp only [decimalOf?, if_neg hcond, Option.bind_eq_bind, Option.bind_eq_some_iff,
      digitsValue?_eq_some_iff_of_ne_nil hempty, exponentPart?_eq_some_iff]
    constructor
    · rintro ⟨n, ⟨hdigits, rfl⟩, exponent, hexponent, hx⟩
      exact ⟨exponent, hdigits, hexponent, (Option.some.inj hx).symm⟩
    · rintro ⟨exponent, hdigits, hexponent, rfl⟩
      exact ⟨_, ⟨hdigits, rfl⟩, exponent, hexponent, rfl⟩

/-- Digits in front of anything else are told apart from it. -/
theorem takeWhile_isDigit_append {digits rest : List Char} (hdigits : ∀ c ∈ digits, c.isDigit)
    (hrest : ∀ c ∈ rest.head?, ¬c.isDigit) :
    (digits ++ rest).takeWhile Char.isDigit = digits ∧
      (digits ++ rest).dropWhile Char.isDigit = rest := by
  rw [List.takeWhile_append_of_pos hdigits, List.dropWhile_append_of_pos hdigits]
  cases rest with
  | nil => simp
  | cons c rest =>
    have hc := hrest c rfl
    rw [List.takeWhile_cons_of_neg hc, List.dropWhile_cons_of_neg hc, List.append_nil]
    exact ⟨rfl, rfl⟩

theorem SpellsExponent.head?_not_isDigit (h : SpellsExponent s i) :
    ∀ c ∈ s.head?, ¬c.isDigit := by
  rcases h with ⟨rfl, -⟩ | ⟨c, rest, rfl, rfl | rfl, -⟩
  · simp
  · simp +decide
  · simp +decide

theorem SpellsExponent.ne_point (h : SpellsExponent s i) (rest : List Char) : s ≠ '.' :: rest := by
  rintro rfl
  rcases h with ⟨hnil, -⟩ | ⟨c, rest', hcons, hc, -⟩
  · cases hnil
  · cases hcons
    simp at hc

theorem decimalLiteral?_eq_some_iff : decimalLiteral? s = some x ↔ SpellsDecimal s x := by
  have hs := (List.takeWhile_append_dropWhile (p := Char.isDigit) (l := s)).symm
  constructor
  · intro h
    by_cases hpoint : ∃ more, s.dropWhile Char.isDigit = '.' :: more
    · obtain ⟨more, hmore⟩ := hpoint
      rw [decimalLiteral?_of_point hmore] at h
      obtain ⟨exponent, hx⟩ := decimalOf?_eq_some_iff.1 h
      refine ⟨_, _, _, exponent, .inr ?_, hx⟩
      rw [List.takeWhile_append_dropWhile, ← hmore]
      exact hs
    · rw [decimalLiteral?_of_no_point (not_exists.1 hpoint)] at h
      obtain ⟨exponent, hx⟩ := decimalOf?_eq_some_iff.1 h
      exact ⟨_, [], _, exponent, .inl ⟨hs, rfl⟩, hx⟩
  · rintro ⟨whole, fraction, tail, exponent, hparts, hdigits, htail, hx⟩
    obtain ⟨hwhole, hfraction⟩ := List.forall_mem_append.1 hdigits.2
    have hsome : decimalOf? whole fraction tail = some x :=
      decimalOf?_eq_some_iff.2 ⟨exponent, hdigits, htail, hx⟩
    rcases hparts with ⟨rfl, rfl⟩ | rfl
    · obtain ⟨htake, hdrop⟩ := takeWhile_isDigit_append hwhole htail.head?_not_isDigit
      have hpoint : ∀ more, (whole ++ tail).dropWhile Char.isDigit ≠ '.' :: more := by
        rw [hdrop]
        exact htail.ne_point
      rw [decimalLiteral?_of_no_point hpoint, htake, hdrop]
      exact hsome
    · have hpoint : ∀ c ∈ ('.' :: (fraction ++ tail)).head?, ¬c.isDigit := by
        simp +decide
      obtain ⟨htake, hdrop⟩ := takeWhile_isDigit_append hwhole hpoint
      obtain ⟨htake', hdrop'⟩ := takeWhile_isDigit_append hfraction htail.head?_not_isDigit
      rw [decimalLiteral?_of_point hdrop, htake, htake', hdrop']
      exact hsome

/-- A decimal starts with a digit or with its point. -/
theorem SpellsDecimal.exists_head? (h : SpellsDecimal s x) :
    ∃ c, s.head? = some c ∧ (c.isDigit ∨ c = '.') := by
  obtain ⟨whole, fraction, tail, exponent, hs, hdigits, -⟩ := h
  cases whole with
  | nil =>
    rcases hs with ⟨-, rfl⟩ | rfl
    · exact absurd rfl hdigits.1
    · exact ⟨'.', rfl, .inr rfl⟩
  | cons c whole =>
    refine ⟨c, ?_, .inl (hdigits.2 c (by simp))⟩
    rcases hs with ⟨rfl, -⟩ | rfl <;> rfl

theorem toLower_of_isDigit {c : Char} (h : c.isDigit) : c.toLower = c := by
  have hrange : 48 ≤ c.toNat ∧ c.toNat ≤ 57 := by
    simpa [Char.isDigit, UInt32.le_iff_toNat_le] using h
  refine dif_neg ?_
  rintro ⟨hlow, -⟩
  have hlow' : 65 ≤ c.toNat := UInt32.le_iff_toNat_le.1 hlow
  omega

/-- No decimal is a word that starts with a letter. -/
theorem SpellsDecimal.map_toLower_ne (h : SpellsDecimal s x) {c : Char} (hdigit : ¬c.isDigit)
    (hpoint : c ≠ '.') (rest : List Char) : s.map Char.toLower ≠ c :: rest := by
  obtain ⟨first, hfirst, hkind⟩ := h.exists_head?
  have hsame : first.toLower = first := by
    rcases hkind with hfirst | rfl
    · exact toLower_of_isDigit hfirst
    · rfl
  intro hword
  have hhead : (s.map Char.toLower).head? = some first := by
    rw [List.head?_map, hfirst, Option.map_some, hsame]
  rw [hword] at hhead
  cases hhead
  rcases hkind with hfirst | rfl
  · exact hdigit hfirst
  · exact hpoint rfl

theorem magnitudeLiteral?_eq_some_iff : magnitudeLiteral? s = some x ↔ SpellsMagnitude s x := by
  have hinf : "inf".toList = 'i' :: "nf".toList := by decide
  have hinfinity : "infinity".toList = 'i' :: "nfinity".toList := by decide
  have hnan : "nan".toList = 'n' :: "an".toList := by decide
  unfold magnitudeLiteral? SpellsMagnitude
  dsimp only
  split
  · next hword =>
    constructor
    · intro h
      exact .inl ⟨hword, (Option.some.inj h).symm⟩
    · rintro (⟨-, rfl⟩ | ⟨hword', -⟩ | hdecimal)
      · rfl
      · rw [hword'] at hword
        exact absurd hword (by decide)
      · rw [hinf, hinfinity] at hword
        have hne := hdecimal.map_toLower_ne (c := 'i') (by decide) (by decide)
        exact absurd hword (not_or.2 ⟨hne _, hne _⟩)
  · next hother =>
    split
    · next hword =>
      constructor
      · intro h
        exact .inr (.inl ⟨hword, (Option.some.inj h).symm⟩)
      · rintro (⟨hword', -⟩ | ⟨-, rfl⟩ | hdecimal)
        · exact absurd hword' hother
        · rfl
        · rw [hnan] at hword
          exact absurd hword (hdecimal.map_toLower_ne (by decide) (by decide) _)
    · next hother' =>
      rw [decimalLiteral?_eq_some_iff]
      constructor
      · intro h
        exact .inr (.inr h)
      · rintro (⟨hword', -⟩ | ⟨hword', -⟩ | hdecimal)
        · exact absurd hword' hother
        · exact absurd hword' hother'
        · exact hdecimal

/-- No magnitude starts with a sign. -/
theorem SpellsMagnitude.ne_sign (h : SpellsMagnitude s x) {c : Char} (hc : c = '+' ∨ c = '-')
    (rest : List Char) : s ≠ c :: rest := by
  rintro rfl
  rcases h with ⟨hword, -⟩ | ⟨hword, -⟩ | hdecimal
  · rcases hc with rfl | rfl <;> simp +decide at hword
  · rcases hc with rfl | rfl <;> simp +decide at hword
  · obtain ⟨first, hfirst, hkind⟩ := hdecimal.exists_head?
    cases hfirst
    rcases hc with rfl | rfl <;> simp +decide at hkind

theorem parseFloat?_eq_some_iff : parseFloat? text = some x ↔ SpellsFloat text x := by
  unfold parseFloat? SpellsFloat
  split
  · next rest htext =>
    rw [htext, Option.map_eq_some_iff]
    simp only [magnitudeLiteral?_eq_some_iff]
    constructor
    · rintro ⟨y, hy, rfl⟩
      exact .inr ⟨rest, y, rfl, hy, rfl⟩
    · rintro (⟨s, rfl | hsign, hs⟩ | ⟨s, y, hsign, hy, rfl⟩)
      · exact absurd rfl (hs.ne_sign (.inr rfl) rest)
      · cases hsign
      · cases hsign
        exact ⟨y, hy, rfl⟩
  · next rest htext =>
    rw [htext, magnitudeLiteral?_eq_some_iff]
    constructor
    · intro hx
      exact .inl ⟨rest, .inr rfl, hx⟩
    · rintro (⟨s, rfl | hsign, hs⟩ | ⟨s, y, hsign, -⟩)
      · exact absurd rfl (hs.ne_sign (.inl rfl) rest)
      · cases hsign
        exact hs
      · cases hsign
  · next hminus hplus =>
    rw [magnitudeLiteral?_eq_some_iff]
    constructor
    · intro hx
      exact .inl ⟨_, .inl rfl, hx⟩
    · rintro (⟨s, rfl | hsign, hs⟩ | ⟨s, y, hsign, -⟩)
      · exact hs
      · exact absurd hsign (hplus s)
      · exact absurd hsign (hminus s)

/-! ## Words -/

/-- A text in lower case. -/
def lower (text : String) : String := String.ofList (text.toList.map Char.toLower)

/-- A word for a truth value, in any case. -/
def SpellsBool (text : String) (b : Bool) : Prop :=
  lower text ∈ if b then ["true", "yes", "on", "1"] else ["false", "no", "off", "0"]

theorem parseBool?_eq_some_iff {b : Bool} :
    Properties.parseBool? text = some b ↔ SpellsBool text b := by
  unfold Properties.parseBool? SpellsBool lower
  split <;> cases b <;> simp_all

end StoreBench.Text
