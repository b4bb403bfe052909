import Mathlib.Data.List.Basic

/-!
# Delimited records

Texts of records, each ended by a terminator, and records of fields with a separator between them.
`splitOn_terminated_iff` says when splitting at the terminator gives the records back, and
`splitFirst_intercalate` that splitting at the first separators gives the fields back, whatever the
last field holds.  Records of one length are the chunks of a list; `flatMap_chunk` puts them
together again.
-/

namespace LocTag.Lib

variable {α : Type} [DecidableEq α]

/-! ### Records -/

/-- The records with the terminator behind each. -/
def terminated (t : α) (rs : List (List α)) : List α := rs.flatMap (· ++ [t])

/-- The parts of a split do not contain what was split at. -/
theorem not_mem_of_mem_splitOn {t : α} {s l : List α} (h : l ∈ s.splitOn t) : t ∉ l := by
  induction s generalizing l with
  | nil =>
    obtain rfl : l = [] := by simpa using h
    exact List.not_mem_nil
  | cons c s ih =>
    obtain ⟨x, xs, hx⟩ := List.exists_cons_of_ne_nil (List.splitOn_ne_nil t s)
    rw [List.splitOn_cons_eq_if_modifyHead, hx] at h
    rw [hx] at ih
    split at h
    · rcases List.mem_cons.1 h with rfl | h
      · exact List.not_mem_nil
      · exact ih h
    · rename_i hc
      rw [List.modifyHead_cons] at h
      rcases List.mem_cons.1 h with rfl | h
      · rw [List.mem_cons, not_or]
        exact ⟨fun hct => hc (by simp [hct]), ih List.mem_cons_self⟩
      · exact ih (List.mem_cons_of_mem _ h)

/-- **Splitting at the terminator gives the records back** iff none of them contains it. -/
theorem splitOn_terminated_iff {t : α} {rs : List (List α)} :
    (terminated t rs).splitOn t = rs ++ [[]] ↔ ∀ r ∈ rs, t ∉ r := by
  constructor
  · intro h r hr
    apply not_mem_of_mem_splitOn (s := terminated t rs)
    rw [h]
    exact List.mem_append_left _ hr
  · intro h
    induction rs with
    | nil => simp [terminated]
    | cons r rs ih =>
      obtain ⟨hr, hrs⟩ := List.forall_mem_cons.1 h
      have hsplit : terminated t (r :: rs) = r ++ t :: terminated t rs := by
        simp [terminated]
      rw [hsplit, List.splitOn_append_cons_self_of_not_mem hr, ih hrs, List.cons_append]

/-! ### Chunks -/

section Chunks

variable {β : Type} {w k : ℕ} {l t : List β}

/-- The `k`-th of the chunks of `w` elements. -/
def chunk (w : ℕ) (l : List β) (k : ℕ) : List β := (l.drop (w * k)).take w

theorem length_chunk : (chunk w l k).length = min w (l.length - w * k) := by
  rw [chunk, List.length_take, List.length_drop]

theorem getElem?_chunk {j : ℕ} (h : j < w) : (chunk w l k)[j]? = l[w * k + j]? := by
  rw [chunk, List.getElem?_take_of_lt h, List.getElem?_drop]

/-- What follows a full chunk does not change it. -/
theorem chunk_append_left (h : w * k + w ≤ l.length) : chunk w (l ++ t) k = chunk w l k := by
  rw [chunk, List.drop_append_of_le_length (by omega), List.take_append_of_le_length, chunk]
  rw [List.length_drop]
  omega

/-- The chunk behind full ones. -/
theorem chunk_append_right (hl : l.length = w * k) (ht : t.length ≤ w) :
    chunk w (l ++ t) k = t := by
  rw [chunk, ← hl, List.drop_left, List.take_of_length_le ht]

/-- **The chunks are the list.** -/
theorem flatMap_chunk (m : ℕ) : (List.range m).flatMap (chunk w l) = l.take (w * m) := by
  induction m with
  | zero => simp
  | succ m ih =>
    rw [List.range_succ, List.flatMap_append, ih, List.flatMap_singleton, chunk, Nat.mul_succ,
      List.take_add]

end Chunks

/-! ### Fields -/

omit [DecidableEq α] in
/-- What is in joined fields is a separator or in one of them. -/
theorem mem_intercalate {sep c : α} (hc : c ≠ sep) {fields : List (List α)} :
    c ∈ [sep].intercalate fields ↔ ∃ f ∈ fields, c ∈ f := by
  induction fields with
  | nil => simp
  | cons f fields ih =>
    cases fields with
    | nil => simp
    | cons g fields =>
      rw [List.intercalate_cons_cons, List.append_assoc, List.mem_append, List.singleton_append,
        List.mem_cons, ih]
      simp [hc]

omit [DecidableEq α] in
/-- There is a separator in joined fields iff there are two fields. -/
theorem sep_mem_intercalate {sep : α} {fields : List (List α)} (h : ∀ f ∈ fields, sep ∉ f) :
    sep ∈ [sep].intercalate fields ↔ 2 ≤ fields.length := by
  match fields with
  | [] => simp
  | [f] => simpa using h f List.mem_cons_self
  | f :: g :: fields =>
    rw [List.intercalate_cons_cons]
    simp

omit [DecidableEq α] in
theorem intercalate_ne_nil {sep : α} {f : List α} (hf : f ≠ []) (fields : List (List α)) :
    [sep].intercalate (f :: fields) ≠ [] := by
  cases fields with
  | nil => simpa using hf
  | cons g fields => simp [List.intercalate_cons_cons, hf]

omit [DecidableEq α] in
/-- Joined fields do not end with a separator. -/
theorem getLast?_intercalate_ne {sep : α} {fields : List (List α)} (h : ∀ f ∈ fields, sep ∉ f)
    (hne : ∀ f ∈ fields, f ≠ []) : ([sep].intercalate fields).getLast? ≠ some sep := by
  induction fields with
  | nil => simp
  | cons f fields ih =>
    obtain ⟨hf, hfields⟩ := List.forall_mem_cons.1 h
    obtain ⟨-, hnes⟩ := List.forall_mem_cons.1 hne
    cases fields with
    | nil =>
      rw [List.intercalate_singleton]
      exact fun hl => hf (List.mem_of_getLast? hl)
    | cons g fields =>
      have hrest : [sep].intercalate (g :: fields) ≠ [] :=
        intercalate_ne_nil (hnes g List.mem_cons_self) fields
      rw [List.intercalate_cons_cons, List.getLast?_append_of_ne_nil _ hrest]
      exact ih hfields hnes

/-- A field ends at the first separator. -/
theorem takeWhile_append_sep {sep : α} {f : List α} (h : sep ∉ f) (s : List α) :
    (f ++ sep :: s).takeWhile (· ≠ sep) = f := by
  have hne : ∀ c ∈ f, decide (c ≠ sep) = true := by
    intro c hc
    exact decide_eq_true fun hcs => h (hcs ▸ hc)
  rw [List.takeWhile_append_of_pos hne, List.takeWhile_cons_of_neg (by simp), List.append_nil]

theorem dropWhile_append_sep {sep : α} {f : List α} (h : sep ∉ f) (s : List α) :
    (f ++ sep :: s).dropWhile (· ≠ sep) = sep :: s := by
  have hsplit := List.takeWhile_append_dropWhile (p := (· ≠ sep)) (l := f ++ sep :: s)
  rw [takeWhile_append_sep h] at hsplit
  exact List.append_cancel_left hsplit

/-- Splits at the first `n` separators. -/
def splitFirst (sep : α) : ℕ → List α → List (List α)
  | 0, s => [s]
  | n + 1, s => s.takeWhile (· ≠ sep) :: splitFirst sep n (s.dropWhile (· ≠ sep)).tail

/-- **Splitting at the first separators gives the fields back**; the last may contain more. -/
theorem splitFirst_intercalate {sep : α} {fields : List (List α)} (last : List α)
    (h : ∀ f ∈ fields, sep ∉ f) :
    splitFirst sep fields.length ([sep].intercalate (fields ++ [last])) = fields ++ [last] := by
  induction fields with
  | nil => simp [splitFirst]
  | cons f fields ih =>
    obtain ⟨hf, hfields⟩ := List.forall_mem_cons.1 h
    obtain ⟨x, xs, hx⟩ := List.exists_cons_of_ne_nil (List.append_ne_nil_of_right_ne_nil fields
      (List.cons_ne_nil last []))
    have hjoin : [sep].intercalate (f :: fields ++ [last]) =
        f ++ sep :: [sep].intercalate (fields ++ [last]) := by
      rw [List.cons_append, hx, List.intercalate_cons_cons, List.append_assoc,
        List.singleton_append]
    rw [hjoin, List.length_cons, splitFirst, takeWhile_append_sep hf, dropWhile_append_sep hf,
      List.tail_cons, ih hfields, List.cons_append]

end LocTag.Lib
