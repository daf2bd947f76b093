import ExprTyping.Container
import ExprTyping.Proofs.DottedNames

namespace ExprTyping

open Text

namespace Text.Dotted

section Measure

variable {μ : String → Nat} (hμ : ∀ x y, μ (x ++ y) = μ x + μ y) (name : String)

include hμ

theorem measure_cons (s : String) (p : List String) :
    μ (".".intercalate (s :: p ++ [name])) =
      μ s + μ "." + μ (".".intercalate (p ++ [name])) := by
  rw [List.cons_append, String.intercalate_cons_of_ne_nil (by simp), hμ, hμ]

theorem measure_le (p : List String) : μ name ≤ μ (".".intercalate (p ++ [name])) := by
  induction p with
  | nil => simp
  | cons s p ih =>
    rw [measure_cons hμ]
    omega

theorem pairwise_inits (hdot : 0 < μ ".") (ps : List String) :
    ps.inits.Pairwise fun p q =>
      μ (".".intercalate (p ++ [name])) < μ (".".intercalate (q ++ [name])) := by
  induction ps with
  | nil => simp
  | cons s ps ih =>
    rw [List.inits_cons, List.pairwise_cons, List.pairwise_map]
    refine ⟨?_, ?_⟩
    · intro q hq
      obtain ⟨p, -, rfl⟩ := List.mem_map.1 hq
      have := measure_le hμ name p
      rw [measure_cons hμ, List.nil_append, String.intercalate_singleton]
      omega
    · apply ih.imp
      intro p q hlt
      rw [measure_cons hμ, measure_cons hμ]
      omega

end Measure

end Text.Dotted

namespace Container

open Dotted

variable {c : Container} {name : String}

theorem expand?_of_firstPart (halias : c.aliases.find? (firstPart name) = none) :
    c.expand? name = none := by
  rw [expand?, ← firstPart_eq_head, halias, Option.map_none]

theorem candidates_eq_packages (hc : c.name ≠ "") (hname : name.toList.head? ≠ some '.')
    (halias : c.aliases.find? (firstPart name) = none) :
    c.candidates name =
      (parts c.name).inits.reverse.map fun p => ".".intercalate (p ++ [name]) := by
  rw [candidates, rooted?_eq_none_iff.2 hname]
  simp only [expand?_of_firstPart halias, if_neg hc, packages_eq]
  cases hparts : parts c.name with
  | nil => exact absurd hparts (parts_ne_nil c.name)
  | cons s ps =>
    rw [List.inits_cons, List.tail_cons, List.reverse_cons, List.map_append, List.map_map]
    congr 1
    apply List.map_congr_left
    intro p hp
    obtain ⟨q, -, rfl⟩ := List.mem_map.1 (List.mem_reverse.1 hp)
    exact (intercalate_snoc (List.cons_ne_nil s q) name).symm

/-- The candidates of a name that is no abbreviation are the name in the container and in each
package around it, the most specific first, and the bare name last. There is one more than the
container has segments, and each is longer than the next, in characters and in bytes. -/
theorem candidates_enclosing (hc : c.name ≠ "") (hname : name.toList.head? ≠ some '.')
    (halias : c.aliases.find? (firstPart name) = none) :
    (c.candidates name =
      (parts c.name).inits.reverse.map fun p => ".".intercalate (p ++ [name])) ∧
    (c.candidates name).length = (parts c.name).length + 1 ∧
    (c.candidates name).Pairwise (fun x y =>
      y.length < x.length ∧ y.utf8ByteSize < x.utf8ByteSize) ∧
    (c.candidates name).Nodup := by
  have heq := candidates_eq_packages hc hname halias
  have hshorter : (c.candidates name).Pairwise fun x y =>
      y.length < x.length ∧ y.utf8ByteSize < x.utf8ByteSize := by
    rw [heq, List.pairwise_map, List.pairwise_reverse, List.pairwise_and_iff]
    refine ⟨?_, ?_⟩
    · exact pairwise_inits String.length_append name (by decide) _
    · exact pairwise_inits (fun _ _ => String.utf8ByteSize_append) name (by decide) _
  refine ⟨heq, ?_, hshorter, ?_⟩
  · rw [heq, List.length_map, List.length_reverse, List.length_inits]
  · apply hshorter.imp
    intro x y hlt hxy
    rw [hxy] at hlt
    exact lt_irrefl _ hlt.1

theorem candidates_enclosing_of_empty_segments :
    let c : Container := { name := "a..b.", aliases := Table.empty.insert "Z" "x.Z" }
    c.candidates "R.f" = ["a..b..R.f", "a..b.R.f", "a..R.f", "a.R.f", "R.f"] ∧
      (c.candidates "R.f").length = 5 ∧ (c.candidates "R.f").Nodup := by
  intro c
  have h := @candidates_enclosing c "R.f" (by decide) (by decide) (by decide)
  have hparts : parts c.name = ["a", "", "b", ""] := by decide
  rw [hparts] at h
  exact ⟨h.1, h.2.1, h.2.2.2⟩

end Container

end ExprTyping
