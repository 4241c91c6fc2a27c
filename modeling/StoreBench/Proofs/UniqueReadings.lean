import Mathlib.Data.List.Induction
/-!
# Texts with one reading

Ways to put parts side by side so that they are found again. The words of a code follow each other,
and none starts another; or separators stand between the parts, and the parts hold none.
-/

namespace StoreBench

variable {α β : Type}

/-! ## Codes -/

/-- A code none of whose words, on the inputs of a set, starts another. -/
structure PrefixFree (S : α → Prop) (code : α → List β) : Prop where
  ne_nil : ∀ x, S x → code x ≠ []
  inj : ∀ x y s t, S x → S y → code x ++ s = code y ++ t → x = y ∧ s = t

/-- Words of such a code are read back from their concatenation. -/
theorem PrefixFree.flatMap_inj {S : α → Prop} {code : α → List β}
    (h : PrefixFree S code) {xs ys : List α} (hxs : ∀ x ∈ xs, S x) (hys : ∀ y ∈ ys, S y)
    (heq : xs.flatMap code = ys.flatMap code) : xs = ys := by
  induction xs generalizing ys with
  | nil =>
    cases ys with
    | nil => rfl
    | cons y ys =>
      obtain ⟨hy, -⟩ := List.forall_mem_cons.1 hys
      exact absurd (List.append_eq_nil_iff.1 heq.symm).1 (h.ne_nil y hy)
  | cons x xs ih =>
    obtain ⟨hx, hxs⟩ := List.forall_mem_cons.1 hxs
    cases ys with
    | nil => exact absurd (List.append_eq_nil_iff.1 heq).1 (h.ne_nil x hx)
    | cons y ys =>
      obtain ⟨hy, hys'⟩ := List.forall_mem_cons.1 hys
      obtain ⟨rfl, htail⟩ := h.inj x y _ _ hx hy heq
      exact congrArg (x :: ·) (ih hxs hys' htail)

/-! ## Separators -/

/-- A list is cut at its last separator in one way. -/
theorem append_cons_inj_of_notMem_right {a b s t : List α} {c : α} (hs : c ∉ s)
    (ht : c ∉ t) (h : a ++ c :: s = b ++ c :: t) : a = b ∧ s = t := by
  rcases List.append_eq_append_iff.1 h with ⟨as, hb, hs'⟩ | ⟨as, ha, ht'⟩
  · cases as with
    | nil => exact ⟨by simp [hb], (List.cons.inj hs').2⟩
    | cons d as => exact absurd ((List.cons.inj hs').2 ▸ by simp) hs
  · cases as with
    | nil => exact ⟨by simp [ha], (List.cons.inj ht').2.symm⟩
    | cons d as => exact absurd ((List.cons.inj ht').2 ▸ by simp) ht

/-- A list is cut at its first separator in one way. -/
theorem append_cons_inj_of_notMem_left {a b s t : List α} {c : α} (ha : c ∉ a)
    (hb : c ∉ b) (h : a ++ c :: s = b ++ c :: t) : a = b ∧ s = t := by
  have hreverse : s.reverse ++ c :: a.reverse = t.reverse ++ c :: b.reverse := by
    simpa using congrArg List.reverse h
  obtain ⟨hst, hab⟩ :=
    append_cons_inj_of_notMem_right (by simpa using ha) (by simpa using hb) hreverse
  exact ⟨List.reverse_inj.1 hab, List.reverse_inj.1 hst⟩

/-- Parts that each follow a separator are read back, the last one first. -/
theorem flatMap_cons_inj {c : α} {parts parts' : List (List α)} (hparts : ∀ part ∈ parts, c ∉ part)
    (hparts' : ∀ part ∈ parts', c ∉ part) (h : parts.flatMap (c :: ·) = parts'.flatMap (c :: ·)) :
    parts = parts' := by
  induction parts using List.reverseRecOn generalizing parts' with
  | nil =>
    cases parts' with
    | nil => rfl
    | cons part parts' => cases h
  | append_singleton parts part ih =>
    rcases List.eq_nil_or_concat parts' with rfl | ⟨init, last, rfl⟩
    · simp at h
    · rw [List.concat_eq_append] at hparts' h ⊢
      simp only [List.flatMap_append, List.flatMap_singleton] at h
      obtain ⟨hinit, rfl⟩ := append_cons_inj_of_notMem_right (hparts part (by simp))
        (hparts' last (by simp)) h
      rw [ih (fun x hx => hparts x (by simp [hx])) (fun x hx => hparts' x (by simp [hx])) hinit]

theorem cons_intercalate_singleton (c : α) {parts : List (List α)} (h : parts ≠ []) :
    c :: [c].intercalate parts = parts.flatMap (c :: ·) := by
  induction parts with
  | nil => exact absurd rfl h
  | cons part parts ih =>
    cases parts with
    | nil => simp
    | cons next parts =>
      rw [List.intercalate_cons_of_ne_nil (by simp), List.flatMap_cons, ← ih (by simp)]
      simp

theorem mem_intercalate_singleton {c d : α} {parts : List (List α)}
    (h : d ∈ [c].intercalate parts) : d = c ∨ ∃ part ∈ parts, d ∈ part := by
  by_cases hparts : parts = []
  · subst hparts
    cases h
  · have hmem := List.mem_cons_of_mem c h
    rw [cons_intercalate_singleton c hparts, List.mem_flatMap] at hmem
    obtain ⟨part, hpart, hd⟩ := hmem
    exact (List.mem_cons.1 hd).imp_right fun hd => ⟨part, hpart, hd⟩

theorem eq_nil_of_intercalate_singleton {c : α} {parts : List (List α)}
    (hparts : ∀ part ∈ parts, part ≠ []) (h : [c].intercalate parts = []) : parts = [] := by
  cases parts with
  | nil => rfl
  | cons part parts =>
    have hall := cons_intercalate_singleton c (List.cons_ne_nil part parts)
    rw [h, List.flatMap_cons, List.cons_append, List.cons.injEq] at hall
    exact absurd (List.append_eq_nil_iff.1 hall.2.symm).1 (hparts part List.mem_cons_self)

/-- Parts between which separators stand are read back, if there is something of each. -/
theorem intercalate_singleton_inj {c : α} {parts parts' : List (List α)}
    (hparts : ∀ part ∈ parts, part ≠ [] ∧ c ∉ part)
    (hparts' : ∀ part ∈ parts', part ≠ [] ∧ c ∉ part)
    (h : [c].intercalate parts = [c].intercalate parts') : parts = parts' := by
  by_cases hempty : parts = []
  · subst hempty
    exact (eq_nil_of_intercalate_singleton (fun part hpart => (hparts' part hpart).1) h.symm).symm
  · have hempty' : parts' ≠ [] := by
      rintro rfl
      exact hempty (eq_nil_of_intercalate_singleton (fun part hpart => (hparts part hpart).1) h)
    refine flatMap_cons_inj (fun part hpart => (hparts part hpart).2)
      (fun part hpart => (hparts' part hpart).2) ?_
    rw [← cons_intercalate_singleton c hempty, ← cons_intercalate_singleton c hempty', h]

end StoreBench
