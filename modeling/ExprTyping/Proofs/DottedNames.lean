import ExprTyping.Text.Dotted
import Mathlib.Data.List.Infix
import Mathlib.Data.List.TakeWhile

namespace ExprTyping.Text.Dotted

variable {name front rest s : String}

def parts (name : String) : List String := (name.toList.splitOn '.').map String.ofList

def firstPart (name : String) : String := (parts name).headD ""

def lastPart (name : String) : String := (parts name).getLastD ""

theorem toList_dot (front rest : String) :
    (front ++ "." ++ rest).toList = front.toList ++ '.' :: rest.toList := by
  simp

theorem parts_of_not_mem (hs : '.' ∉ s.toList) : parts s = [s] := by
  simp [parts, List.splitOn_eq_singleton hs]

theorem parts_dot (front rest : String) :
    parts (front ++ "." ++ rest) = parts front ++ parts rest := by
  simp only [parts, toList_dot, List.splitOn_append_cons_self, List.map_append]

theorem parts_ne_nil (name : String) : parts name ≠ [] := by
  simp [parts, List.splitOn_ne_nil]

theorem intercalate_parts (name : String) : ".".intercalate (parts name) = name := by
  rw [← String.toList_inj, String.toList_intercalate, parts, List.map_map]
  simp

theorem intercalate_snoc {ps : List String} (hps : ps ≠ []) (s : String) :
    ".".intercalate (ps ++ [s]) = join (".".intercalate ps) s := by
  rw [String.intercalate_append_of_ne_nil hps (List.cons_ne_nil s []),
    String.intercalate_singleton, join]

section Decomposition

theorem exists_first_dot (h : '.' ∈ name.toList) :
    ∃ s rest : String, '.' ∉ s.toList ∧ name = s ++ "." ++ rest := by
  obtain ⟨xs, ys, heq, hxs⟩ := List.eq_append_cons_of_mem h
  refine ⟨String.ofList xs, String.ofList ys, ?_, ?_⟩
  · simpa using hxs
  · rw [← String.toList_inj, toList_dot, heq]
    simp

theorem exists_last_dot (h : '.' ∈ name.toList) :
    ∃ front s : String, '.' ∉ s.toList ∧ name = front ++ "." ++ s := by
  obtain ⟨xs, ys, heq, hxs⟩ := List.eq_append_cons_of_mem (List.mem_reverse.2 h)
  refine ⟨String.ofList ys.reverse, String.ofList xs.reverse, ?_, ?_⟩
  · simpa using hxs
  · rw [← String.toList_inj, toList_dot, ← List.reverse_reverse name.toList, heq]
    simp

theorem lastInduction {P : String → Prop} (single : ∀ s : String, '.' ∉ s.toList → P s)
    (dot : ∀ front s : String, '.' ∉ s.toList → P front → P (front ++ "." ++ s))
    (name : String) : P name := by
  by_cases h : '.' ∈ name.toList
  · obtain ⟨front, s, hs, heq⟩ := exists_last_dot h
    have hlt : front.length < name.length := by
      rw [heq, ← String.length_toList, ← String.length_toList, toList_dot]
      simp
    rw [heq]
    exact dot front s hs (lastInduction single dot front)
  · exact single name h
termination_by name.length

end Decomposition

section Ends

theorem takeWhile_of_not_mem {xs : List Char} (h : '.' ∉ xs) :
    xs.takeWhile (· != '.') = xs := by
  rw [List.takeWhile_eq_self_iff]
  intro c hc
  simpa using ne_of_mem_of_not_mem hc h

theorem takeWhile_dot {xs : List Char} (h : '.' ∉ xs) (ys : List Char) :
    (xs ++ '.' :: ys).takeWhile (· != '.') = xs := by
  rw [List.takeWhile_append_of_pos]
  · simp
  · intro c hc
    simpa using ne_of_mem_of_not_mem hc h

theorem head_of_not_mem (hs : '.' ∉ s.toList) : head s = s := by
  rw [head, takeWhile_of_not_mem hs, String.ofList_toList]

theorem head_dot (hs : '.' ∉ s.toList) (rest : String) : head (s ++ "." ++ rest) = s := by
  rw [head, toList_dot, takeWhile_dot hs, String.ofList_toList]

theorem head_append_tail (name : String) : head name ++ tail name = name := by
  rw [← String.toList_inj, head, tail]
  simp

theorem tail_of_not_mem (hs : '.' ∉ s.toList) : tail s = "" := by
  have h := head_append_tail s
  rw [head_of_not_mem hs] at h
  simpa using h

theorem tail_dot (hs : '.' ∉ s.toList) (rest : String) : tail (s ++ "." ++ rest) = "." ++ rest := by
  have h := head_append_tail (s ++ "." ++ rest)
  rw [head_dot hs] at h
  rw [← String.append_right_inj s, h, String.append_assoc]

theorem last_of_not_mem (hs : '.' ∉ s.toList) : last s = s := by
  rw [last, takeWhile_of_not_mem (List.mem_reverse.not.2 hs), List.reverse_reverse,
    String.ofList_toList]

theorem last_dot (front : String) (hs : '.' ∉ s.toList) : last (front ++ "." ++ s) = s := by
  rw [last, toList_dot, List.reverse_append, List.reverse_cons, List.append_assoc,
    List.singleton_append, takeWhile_dot (List.mem_reverse.not.2 hs), List.reverse_reverse,
    String.ofList_toList]

theorem dot_not_mem_last (name : String) : '.' ∉ (last name).toList := by
  by_cases h : '.' ∈ name.toList
  · obtain ⟨front, s, hs, rfl⟩ := exists_last_dot h
    rwa [last_dot front hs]
  · rwa [last_of_not_mem h]

theorem firstPart_eq_head (name : String) : firstPart name = head name := by
  by_cases h : '.' ∈ name.toList
  · obtain ⟨s, rest, hs, rfl⟩ := exists_first_dot h
    rw [firstPart, parts_dot, parts_of_not_mem hs, head_dot hs]
    rfl
  · rw [firstPart, parts_of_not_mem h, head_of_not_mem h]
    rfl

theorem lastPart_eq_last (name : String) : lastPart name = last name := by
  by_cases h : '.' ∈ name.toList
  · obtain ⟨front, s, hs, rfl⟩ := exists_last_dot h
    rw [lastPart, parts_dot, parts_of_not_mem hs, last_dot front hs]
    simp
  · rw [lastPart, parts_of_not_mem h, last_of_not_mem h]
    rfl

end Ends

section Rooted

@[simp] theorem rooted?_dot (name : String) : rooted? ("." ++ name) = some name := by
  simp [rooted?]

theorem rooted?_eq_none_iff : rooted? name = none ↔ name.toList.head? ≠ some '.' := by
  rw [rooted?]
  split
  · next rest heq => simp [heq]
  · next hne =>
    simp only [ne_eq, true_iff]
    intro hhead
    obtain ⟨rest, heq⟩ := List.head?_eq_some_iff.1 hhead
    exact hne rest heq

theorem rooted?_of_not_mem (hs : '.' ∉ s.toList) : rooted? s = none := by
  rw [rooted?_eq_none_iff]
  intro hhead
  exact hs (List.mem_of_head? hhead)

theorem rooted?_append {p : String} (hne : p ≠ "") (hp : rooted? p = none) (t : String) :
    rooted? (p ++ t) = none := by
  rw [rooted?_eq_none_iff] at hp ⊢
  rwa [String.toList_append, List.head?_append_of_ne_nil _ (String.toList_eq_nil_iff.not.2 hne)]

end Rooted

section Packages

theorem properPackages_of_not_mem {xs : List Char} (h : '.' ∉ xs) : properPackages xs = [] := by
  induction xs with
  | nil => rfl
  | cons c xs ih =>
    rw [List.mem_cons, not_or] at h
    simp [properPackages, ih h.2, Ne.symm h.1]

theorem properPackages_dot (xs : List Char) {ys : List Char} (h : '.' ∉ ys) :
    properPackages (xs ++ '.' :: ys) = properPackages xs ++ [xs] := by
  induction xs with
  | nil => simp [properPackages, properPackages_of_not_mem h]
  | cons c xs ih => by_cases hc : c = '.' <;> simp [properPackages, ih, hc]

theorem packages_of_not_mem (hs : '.' ∉ s.toList) : packages s = [s] := by
  simp [packages, properPackages_of_not_mem hs]

theorem packages_dot (front : String) (hs : '.' ∉ s.toList) :
    packages (front ++ "." ++ s) = (front ++ "." ++ s) :: packages front := by
  simp [packages, properPackages_dot _ hs, String.ofList_append, String.append_assoc]

theorem packages_eq (name : String) :
    packages name = ((parts name).inits.tail.reverse).map (".".intercalate ·) := by
  induction name using lastInduction with
  | single s hs => simp [packages_of_not_mem hs, parts_of_not_mem hs]
  | dot front s hs ih =>
    have hinits : (parts front).inits ≠ [] := List.ne_nil_of_length_pos (by simp)
    have hjoin := intercalate_snoc (parts_ne_nil front) s
    rw [intercalate_parts, join] at hjoin
    rw [packages_dot front hs, ih, parts_dot, parts_of_not_mem hs, List.inits_append]
    simp [List.tail_append_of_ne_nil hinits, hjoin]

end Packages

end ExprTyping.Text.Dotted
