import ExprTyping.Source
import Mathlib.Data.List.DropRight

namespace ExprTyping

def Location.Before (l m : Location) : Prop :=
  l.line < m.line ∨ l.line = m.line ∧ l.column < m.column

instance (l m : Location) : Decidable (l.Before m) := inferInstanceAs (Decidable (_ ∨ _))

namespace Source

def lineStart (cs : List Char) : Nat := (cs.rdropWhile (· != '\n')).length

theorem lineStart_snoc (cs : List Char) (c : Char) :
    lineStart (cs ++ [c]) = if c = '\n' then cs.length + 1 else lineStart cs := by
  by_cases hc : c = '\n' <;> simp [lineStart, hc]

theorem lineStart_le_length (cs : List Char) : lineStart cs ≤ cs.length :=
  (List.rdropWhile_prefix _ cs).length_le

theorem lineStart_append {ys : List Char} (xs : List Char) (hys : '\n' ∉ ys) :
    lineStart (xs ++ ys) = lineStart xs := by
  induction ys using List.reverseRecOn with
  | nil => simp
  | append_singleton ys c ih =>
    simp only [List.mem_append, List.mem_singleton, not_or] at hys
    rw [← List.append_assoc, lineStart_snoc, if_neg (Ne.symm hys.2), ih hys.1]

section Table

variable {n : Nat} {xs ys : List Char}

theorem lineStarts_newline (h : n + 1 ≤ 2147483647) :
    lineStarts n ('\n' :: xs) = ((n + 1 : Nat) : Int) :: lineStarts (n + 1) xs := by
  rw [lineStarts, if_pos rfl, Int32.toInt_ofNat_of_lt (by omega)]

theorem lineStarts_cons_of_ne {c : Char} (hc : c ≠ '\n') :
    lineStarts n (c :: xs) = lineStarts (n + 1) xs := by
  rw [lineStarts, if_neg hc]

theorem lineStarts_append (n : Nat) (xs ys : List Char) :
    lineStarts n (xs ++ ys) = lineStarts n xs ++ lineStarts (n + xs.length) ys := by
  induction xs generalizing n with
  | nil => rfl
  | cons c xs ih =>
    have hlen : n + 1 + xs.length = n + (xs.length + 1) := by omega
    by_cases hc : c = '\n' <;> simp [lineStarts, hc, ih, hlen]

@[simp] theorem length_lineStarts (n : Nat) (xs : List Char) :
    (lineStarts n xs).length = xs.count '\n' := by
  induction xs generalizing n with
  | nil => rfl
  | cons c xs ih => by_cases hc : c = '\n' <;> simp [lineStarts, hc, ih]

theorem mem_lineStarts_bounds (h : n + xs.length ≤ 2147483647) {start : Int}
    (hstart : start ∈ lineStarts n xs) : n < start ∧ start ≤ n + xs.length := by
  induction xs generalizing n with
  | nil => simp [lineStarts] at hstart
  | cons c xs ih =>
    rw [List.length_cons] at h ⊢
    have hrest : start ∈ lineStarts (n + 1) xs → n < start ∧ start ≤ n + ↑(xs.length + 1) := by
      intro hmem
      have := ih (by omega) hmem
      omega
    by_cases hc : c = '\n'
    · rw [hc, lineStarts_newline (by omega), List.mem_cons] at hstart
      cases hstart with
      | inl heq => omega
      | inr hmem => exact hrest hmem
    · rw [lineStarts_cons_of_ne hc] at hstart
      exact hrest hstart

theorem pairwise_lineStarts (h : n + xs.length ≤ 2147483647) :
    (lineStarts n xs).Pairwise (· < ·) := by
  induction xs generalizing n with
  | nil => exact List.Pairwise.nil
  | cons c xs ih =>
    rw [List.length_cons] at h
    have htail := ih (n := n + 1) (by omega)
    by_cases hc : c = '\n'
    · rw [hc, lineStarts_newline (by omega), List.pairwise_cons]
      refine ⟨?_, htail⟩
      intro start hstart
      exact (mem_lineStarts_bounds (by omega) hstart).1
    · rw [lineStarts_cons_of_ne hc]
      exact htail

theorem pairwise_lineOffsets (h : xs.length ≤ 2147483647) :
    (0 :: lineStarts 0 xs).Pairwise (· < ·) := by
  have hlen : 0 + xs.length ≤ 2147483647 := by omega
  rw [List.pairwise_cons]
  refine ⟨?_, pairwise_lineStarts hlen⟩
  intro start hstart
  exact (mem_lineStarts_bounds hlen hstart).1

theorem lineOffsets_eq_snoc (h : xs.length ≤ 2147483647) :
    ∃ before : List Int, 0 :: lineStarts 0 xs = before ++ [(lineStart xs : Int)] ∧
      before.length = xs.count '\n' := by
  induction xs using List.reverseRecOn with
  | nil => exact ⟨[], rfl, rfl⟩
  | append_singleton xs c ih =>
    rw [List.length_append, List.length_singleton] at h
    rw [lineStarts_append, Nat.zero_add, lineStart_snoc]
    by_cases hc : c = '\n'
    · subst hc
      refine ⟨0 :: lineStarts 0 xs, ?_, ?_⟩
      · rw [lineStarts_newline h, if_pos rfl]
        rfl
      · simp
    · obtain ⟨before, heq, hlen⟩ := ih (by omega)
      refine ⟨before, ?_, ?_⟩
      · rw [lineStarts_cons_of_ne hc, if_neg hc, ← heq]
        simp [lineStarts]
      · simp [hlen, hc]

theorem le_of_mem_lineOffsets (h : xs.length ≤ 2147483647) {start : Int}
    (hstart : start ∈ 0 :: lineStarts 0 xs) : start ≤ xs.length := by
  cases List.mem_cons.1 hstart with
  | inl heq => omega
  | inr hmem =>
    have hb := mem_lineStarts_bounds (by omega) hmem
    omega

theorem takeWhile_lineOffsets (h : xs.length + ys.length ≤ 2147483647) :
    (0 :: lineStarts 0 (xs ++ ys)).takeWhile (· ≤ (xs.length : Int)) = 0 :: lineStarts 0 xs := by
  rw [lineStarts_append, ← List.cons_append, List.takeWhile_append_of_pos, Nat.zero_add]
  · have hafter : (lineStarts xs.length ys).takeWhile (· ≤ (xs.length : Int)) = [] := by
      rw [List.takeWhile_eq_nil_iff]
      intro hpos
      have hb := mem_lineStarts_bounds h (List.getElem_mem hpos)
      simpa using hb.1
    rw [hafter, List.append_nil]
  · intro start hstart
    rw [decide_eq_true_iff]
    exact le_of_mem_lineOffsets (Nat.le_of_add_right_le h) hstart

theorem lineOffsets_parted (h : xs.length + ys.length ≤ 2147483647) :
    (∀ start ∈ (0 :: lineStarts 0 (xs ++ ys)).take (1 + xs.count '\n'), start ≤ xs.length) ∧
      ∀ start ∈ (0 :: lineStarts 0 (xs ++ ys)).drop (1 + xs.count '\n'), xs.length < start := by
  have hlen : (0 :: lineStarts 0 xs).length = 1 + xs.count '\n' := by
    rw [List.length_cons, length_lineStarts, Nat.add_comm]
  rw [lineStarts_append, ← List.cons_append, List.take_left' hlen, List.drop_left' hlen,
    Nat.zero_add]
  refine ⟨?_, ?_⟩
  · intro start hstart
    exact le_of_mem_lineOffsets (Nat.le_of_add_right_le h) hstart
  · intro start hstart
    exact (mem_lineStarts_bounds h hstart).1

theorem getElem?_lineOffsets (ys : List Char) (h : xs.length ≤ 2147483647) :
    (0 :: lineStarts 0 (xs ++ ys))[xs.count '\n']? = some (lineStart xs : Int) := by
  obtain ⟨before, heq, hlen⟩ := lineOffsets_eq_snoc h
  rw [lineStarts_append, ← List.cons_append, heq, List.append_assoc, ← hlen]
  simp

end Table

def locationAfter (cs : List Char) : Location := ⟨1 + cs.count '\n', cs.length - lineStart cs⟩

theorem before_locationAfter_append (xs : List Char) {ys : List Char} (hys : ys ≠ []) :
    (locationAfter xs).Before (locationAfter (xs ++ ys)) := by
  simp only [Location.Before, locationAfter, List.count_append, List.length_append]
  by_cases hnl : '\n' ∈ ys
  · have := List.count_pos_iff.2 hnl
    left
    omega
  · have := List.length_pos_iff.2 hys
    have := lineStart_le_length xs
    rw [lineStart_append xs hnl, List.count_eq_zero_of_not_mem hnl]
    right
    omega

section Cut

variable {text : String} {xs ys : List Char} (htext : text.toList = xs ++ ys)
  (h : text.length < 2147483647)

include htext h

theorem length_of_cut : xs.length + ys.length ≤ 2147483647 := by
  rw [← List.length_append, ← htext, String.length_toList]
  omega

theorem locate_ofText_cut : (ofText text).locate xs.length = locationAfter xs := by
  have hcut := length_of_cut htext h
  obtain ⟨before, heq, hbefore⟩ := lineOffsets_eq_snoc (Nat.le_of_add_right_le hcut)
  have hlines := List.count_le_length (a := '\n') (l := xs)
  have hword : (UInt32.ofNat (before.length + 1)).toNat = before.length + 1 :=
    UInt32.toNat_ofNat_of_lt' (by rw [UInt32.size]; omega)
  simp only [locate, ofText, lineOffsetsOf, htext, takeWhile_lineOffsets hcut, heq,
    List.reverse_append, List.reverse_singleton, List.singleton_append, List.length_reverse, hword,
    locationAfter, Location.mk.injEq]
  omega

theorem lineOffsets_ofText_cut :
    ∃ start, (ofText text).lineOffsets[(locationAfter xs).line - 1]? = some start ∧
      start + (locationAfter xs).column = (xs.length : Int) := by
  refine ⟨lineStart xs, ?_, ?_⟩
  · have hget := getElem?_lineOffsets ys (Nat.le_of_add_right_le (length_of_cut htext h))
    simpa [ofText, lineOffsetsOf, htext, locationAfter] using hget
  · have hstart := lineStart_le_length xs
    simp only [locationAfter]
    omega

end Cut

/-- In a text of fewer than 2147483647 characters the line starts increase, and an offset is located
by the newlines before it: their number gives the line, and the column counts from the last of them.
The line is where the table passes from starts up to the offset to starts after it. The table leads
back from a location to its offset, and later offsets have later locations. -/
theorem locate_ofText {text : String} (h : text.length < 2147483647) :
    (ofText text).lineOffsets.Pairwise (· < ·) ∧
    ∀ o ≤ text.length,
      ((ofText text).locate o).line = 1 + (text.toList.take o).count '\n' ∧
      ((ofText text).locate o).column = o - lineStart (text.toList.take o) ∧
      (∀ start ∈ (ofText text).lineOffsets.take ((ofText text).locate o).line, start ≤ o) ∧
      (∀ start ∈ (ofText text).lineOffsets.drop ((ofText text).locate o).line, o < start) ∧
      (∃ start, (ofText text).lineOffsets[((ofText text).locate o).line - 1]? = some start ∧
        start + ((ofText text).locate o).column = (o : Int)) ∧
      ∀ o' ≤ text.length, o < o' →
        ((ofText text).locate o).Before ((ofText text).locate o') := by
  have hlength : text.toList.length = text.length := String.length_toList
  have hlocate : ∀ o ≤ text.length,
      (ofText text).locate o = locationAfter (text.toList.take o) := by
    intro o ho
    have hcut := locate_ofText_cut (List.take_append_drop o text.toList).symm h
    rwa [List.length_take_of_le (ho.trans_eq hlength.symm)] at hcut
  refine ⟨pairwise_lineOffsets (by omega), ?_⟩
  intro o ho
  have htext := (List.take_append_drop o text.toList).symm
  have htake : (text.toList.take o).length = o := List.length_take_of_le (by omega)
  have hparted := lineOffsets_parted (length_of_cut htext h)
  have hback := lineOffsets_ofText_cut htext h
  rw [← htext] at hparted
  rw [htake] at hparted hback
  rw [hlocate o ho]
  refine ⟨rfl, ?_, hparted.1, hparted.2, hback, ?_⟩
  · rw [locationAfter, htake]
  · intro o' ho' hlt
    have hsplit : text.toList.take o' =
        text.toList.take o ++ (text.toList.drop o).take (o' - o) := by
      rw [← List.take_add, Nat.add_sub_cancel' hlt.le]
    rw [hlocate o' ho', hsplit]
    apply before_locationAfter_append
    rw [← List.length_pos_iff, List.length_take, List.length_drop]
    omega

theorem locate_ofText_of_empty_line :
    (ofText "é &&\n\n").lineOffsets = [0, 5, 6] ∧ (ofText "é &&\n\n").locate 4 = ⟨1, 4⟩ ∧
      (ofText "é &&\n\n").locate 6 = ⟨3, 0⟩ ∧
      ((ofText "é &&\n\n").locate 4).Before ((ofText "é &&\n\n").locate 6) := by
  have h : ("é &&\n\n" : String).length < 2147483647 := by decide
  refine ⟨by decide, by decide, by decide, ?_⟩
  exact ((locate_ofText h).2 4 (by decide)).2.2.2.2.2 6 (by decide) (by decide)

end Source

end ExprTyping
