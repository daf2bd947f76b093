import ExprTyping.Proofs.Candidates

namespace ExprTyping

open Text

namespace Table

variable {κ α : Type} [DecidableEq κ] {es fs : List (κ × α)} {k : κ}

theorem find?_insert_eq_none_iff (t : Table κ α) {j : κ} {a : α} :
    (t.insert k a).find? j = none ↔ k ≠ j ∧ t.find? j = none := by
  by_cases h : k = j <;> simp [find?_insert, h]

theorem find?_insertAll_of_not_mem (t : Table κ α) (h : k ∉ es.map Prod.fst) :
    (t.insertAll es).find? k = t.find? k := by
  induction es generalizing t with
  | nil => rfl
  | cons e es ih =>
    simp only [List.map_cons, List.mem_cons, not_or] at h
    rw [insertAll, List.foldl_cons, ← insertAll, ih _ h.2, find?_insert_of_ne t e.2 (Ne.symm h.1)]

theorem find?_insertAll_of_mem (t : Table κ α) (hnd : (es.map Prod.fst).Nodup) {a : α}
    (h : (k, a) ∈ es) : (t.insertAll es).find? k = some a := by
  induction es generalizing t with
  | nil => cases h
  | cons e es ih =>
    rw [List.map_cons, List.nodup_cons] at hnd
    rw [insertAll, List.foldl_cons, ← insertAll]
    cases h with
    | head => rw [find?_insertAll_of_not_mem _ hnd.1, find?_insert_self]
    | tail _ h => exact ih _ hnd.2 h

theorem find?_insertAll_perm (t : Table κ α) (hnd : (es.map Prod.fst).Nodup) (hp : es.Perm fs)
    (k : κ) : (t.insertAll fs).find? k = (t.insertAll es).find? k := by
  have hkeys := hp.map Prod.fst
  by_cases hk : k ∈ es.map Prod.fst
  · obtain ⟨e, he, rfl⟩ := List.mem_map.1 hk
    rw [find?_insertAll_of_mem t hnd he,
      find?_insertAll_of_mem t (hkeys.nodup_iff.1 hnd) (hp.mem_iff.1 he)]
  · rw [find?_insertAll_of_not_mem t hk, find?_insertAll_of_not_mem t (hkeys.mem_iff.not.1 hk)]

end Table

namespace Container

open Dotted

variable {c c' : Container} {q s name rest : String} {qs names : List String}

structure Abbreviable (container q : String) : Prop where
  head_ne_dot : q.toList.head? ≠ some '.'
  dot_mem : '.' ∈ q.toList
  last_ne_dot : q.toList.getLast? ≠ some '.'
  ne_container : lastPart q ≠ container
  ne_package : lastPart q ≠ firstPart container

instance (container q : String) : Decidable (Abbreviable container q) :=
  decidable_of_iff (q.toList.head? ≠ some '.' ∧ '.' ∈ q.toList ∧ q.toList.getLast? ≠ some '.' ∧
      lastPart q ≠ container ∧ lastPart q ≠ firstPart container)
    ⟨fun h => ⟨h.1, h.2.1, h.2.2.1, h.2.2.2.1, h.2.2.2.2⟩,
      fun h => ⟨h.head_ne_dot, h.dot_mem, h.last_ne_dot, h.ne_container, h.ne_package⟩⟩

theorem isQualified_iff :
    isQualified q = true ↔ '.' ∈ q.toList ∧ q.toList.getLast? ≠ some '.' := by
  rw [isQualified, Bool.and_eq_true, List.contains_iff_mem, bne_iff_ne]
  apply and_congr_right
  intro hdot
  obtain ⟨front, s, hs, rfl⟩ := exists_last_dot hdot
  rw [last_dot front hs, toList_dot, ne_eq, ← String.toList_eq_nil_iff]
  cases List.eq_nil_or_concat' s.toList with
  | inl hnil => simp [hnil]
  | inr hsnoc =>
    obtain ⟨xs, x, hx⟩ := hsnoc
    rw [hx] at hs ⊢
    have hne : x ≠ '.' := by
      rintro rfl
      simp at hs
    rw [← List.cons_append, ← List.append_assoc, List.getLast?_concat]
    simp [hne]

theorem head_ne_last_iff {container : String} :
    head container ≠ last q ↔ lastPart q ≠ container ∧ lastPart q ≠ firstPart container := by
  rw [lastPart_eq_last, firstPart_eq_head, ne_comm]
  refine ⟨?_, And.right⟩
  intro hne
  refine ⟨?_, hne⟩
  intro heq
  apply hne
  rw [← heq, head_of_not_mem (dot_not_mem_last q)]

theorem abbreviate_eq_ok_iff :
    c.abbreviate q = .ok c' ↔ Abbreviable c.name q ∧ c.aliases.find? (lastPart q) = none ∧
      c' = { c with aliases := c.aliases.insert (lastPart q) q } := by
  have habbr : Abbreviable c.name q ↔ rooted? q = none ∧ isQualified q = true ∧
      head c.name ≠ last q := by
    rw [rooted?_eq_none_iff, isQualified_iff, head_ne_last_iff]
    refine ⟨?_, ?_⟩
    · intro h
      exact ⟨h.head_ne_dot, ⟨h.dot_mem, h.last_ne_dot⟩, h.ne_container, h.ne_package⟩
    · intro h
      exact ⟨h.1, h.2.1.1, h.2.1.2, h.2.2.1, h.2.2.2⟩
  rw [habbr, lastPart_eq_last, abbreviate]
  cases rooted? q <;> cases isQualified q <;> cases c.aliases.find? (last q) <;>
    by_cases hhead : head c.name = last q <;> simp [hhead, eq_comm]

def register (c : Container) (qs : List String) : Container :=
  { c with aliases := c.aliases.insertAll (qs.map fun q => (lastPart q, q)) }

structure Accepts (c : Container) (qs : List String) : Prop where
  abbreviable : ∀ q ∈ qs, Abbreviable c.name q
  distinct : (qs.map lastPart).Nodup
  fresh : ∀ q ∈ qs, c.aliases.find? (lastPart q) = none

theorem accepts_nil (c : Container) : c.Accepts [] := ⟨by simp, by simp, by simp⟩

theorem accepts_cons_iff : c.Accepts (q :: qs) ↔
    Abbreviable c.name q ∧ c.aliases.find? (lastPart q) = none ∧
      ({ c with aliases := c.aliases.insert (lastPart q) q } : Container).Accepts qs := by
  -- a name is fresh for the longer table if it is for the shorter and has another last segment
  have hfresh : (∀ r ∈ qs, (c.aliases.insert (lastPart q) q).find? (lastPart r) = none) ↔
      lastPart q ∉ qs.map lastPart ∧ ∀ r ∈ qs, c.aliases.find? (lastPart r) = none := by
    simp only [Table.find?_insert_eq_none_iff, ne_comm (a := lastPart q), List.mem_map,
      not_exists, not_and, ← forall_and, ne_eq]
  refine ⟨?_, ?_⟩
  · rintro ⟨habbr, hnd, hnone⟩
    rw [List.map_cons, List.nodup_cons] at hnd
    rw [List.forall_mem_cons] at habbr hnone
    exact ⟨habbr.1, hnone.1, habbr.2, hnd.2, hfresh.2 ⟨hnd.1, hnone.2⟩⟩
  · rintro ⟨hq, hnone, hqs⟩
    obtain ⟨hmem, hold⟩ := hfresh.1 hqs.fresh
    refine ⟨?_, ?_, ?_⟩
    · exact List.forall_mem_cons.2 ⟨hq, hqs.abbreviable⟩
    · exact List.nodup_cons.2 ⟨hmem, hqs.distinct⟩
    · exact List.forall_mem_cons.2 ⟨hnone, hold⟩

theorem Accepts.perm {rs : List String} (h : c.Accepts qs) (hp : qs.Perm rs) : c.Accepts rs := by
  refine ⟨?_, (hp.map lastPart).nodup_iff.1 h.distinct, ?_⟩
  · intro q hq
    exact h.abbreviable q (hp.mem_iff.2 hq)
  · intro q hq
    exact h.fresh q (hp.mem_iff.2 hq)

theorem foldlM_abbreviate_eq_ok_iff :
    qs.foldlM abbreviate c = .ok c' ↔ c.Accepts qs ∧ c' = c.register qs := by
  induction qs generalizing c with
  | nil => simp [accepts_nil, register, Table.insertAll, pure, Except.pure, eq_comm]
  | cons q qs ih =>
    have hstep : (q :: qs).foldlM abbreviate c = .ok c' ↔
        ∃ c₁, c.abbreviate q = .ok c₁ ∧ qs.foldlM abbreviate c₁ = .ok c' := by
      rw [List.foldlM_cons]
      cases c.abbreviate q <;> simp [bind, Except.bind]
    simp only [hstep, abbreviate_eq_ok_iff, ih, accepts_cons_iff]
    refine ⟨?_, ?_⟩
    · rintro ⟨c₁, ⟨hq, hnone, rfl⟩, hqs, rfl⟩
      exact ⟨⟨hq, hnone, hqs⟩, rfl⟩
    · rintro ⟨⟨hq, hnone, hqs⟩, rfl⟩
      exact ⟨_, ⟨hq, hnone, rfl⟩, hqs, rfl⟩

theorem abbreviateAll_eq_ok_iff : c.abbreviateAll names = .ok c' ↔
    c.Accepts (names.map trim) ∧ c' = c.register (names.map trim) := by
  rw [← foldlM_abbreviate_eq_ok_iff, List.foldlM_map, abbreviateAll]

section Resolution

/-- A segment stands for a name, alone and before further segments, with a leading dot or not. -/
structure StandsFor (c : Container) (s q : String) : Prop where
  alone : c.candidates s = [q]
  qualified : ∀ rest, c.candidates (s ++ "." ++ rest) = [q ++ "." ++ rest]
  rooted : c.candidates ("." ++ s) = [q]
  rooted_qualified : ∀ rest, c.candidates ("." ++ (s ++ "." ++ rest)) = [q ++ "." ++ rest]

theorem candidates_dot (c : Container) (name : String) :
    c.candidates ("." ++ name) = [(c.expand? name).getD name] := by
  simp [candidates]

theorem candidates_of_expand? (hname : rooted? name = none) (h : c.expand? name = some q) :
    c.candidates name = [q] := by
  simp [candidates, hname, h]

theorem standsFor_of_find? (hs : '.' ∉ s.toList) (hne : s ≠ "")
    (h : c.aliases.find? s = some q) : c.StandsFor s q := by
  have halone : c.expand? s = some q := by
    simp [expand?, head_of_not_mem hs, tail_of_not_mem hs, h]
  have hqualified : ∀ rest, c.expand? (s ++ "." ++ rest) = some (q ++ "." ++ rest) := by
    intro rest
    rw [expand?, head_dot hs, tail_dot hs, h, Option.map_some, String.append_assoc]
  have hroot := rooted?_of_not_mem hs
  refine ⟨?_, ?_, ?_, ?_⟩
  · exact candidates_of_expand? hroot halone
  · intro rest
    apply candidates_of_expand? _ (hqualified rest)
    rw [String.append_assoc]
    exact rooted?_append hne hroot _
  · rw [candidates_dot, halone, Option.getD_some]
  · intro rest
    rw [candidates_dot, hqualified, Option.getD_some]

theorem candidates_eq_of_find? (hc : c'.name = c.name)
    (h : c'.aliases.find? (firstPart name) = c.aliases.find? (firstPart name)) :
    (name.toList.head? ≠ some '.' → c'.candidates name = c.candidates name) ∧
      c'.candidates ("." ++ name) = c.candidates ("." ++ name) := by
  have hexpand : c'.expand? name = c.expand? name := by
    rw [expand?, expand?, ← firstPart_eq_head, h]
  refine ⟨?_, ?_⟩
  · intro hname
    simp only [candidates, rooted?_eq_none_iff.2 hname, hexpand, hc]
  · rw [candidates_dot, candidates_dot, hexpand]

theorem candidates_congr (hc : c'.name = c.name)
    (h : ∀ k, c'.aliases.find? k = c.aliases.find? k) (name : String) :
    c'.candidates name = c.candidates name := by
  simp only [candidates, expand?, h, hc]

end Resolution

section Made

inductive Made : Container → Prop
  | make {c : Container} {name : String} : Container.make name = .ok c → Made c
  | abbreviateAll {c c' : Container} {names : List String} : Made c →
      c.abbreviateAll names = .ok c' → Made c'

def Registered (c : Container) (q : String) : Prop := ∃ s, c.aliases.find? s = some q

theorem Abbreviable.lastPart_ne_empty {container : String} (h : Abbreviable container q) :
    lastPart q ≠ "" := by
  have hq := isQualified_iff.2 ⟨h.dot_mem, h.last_ne_dot⟩
  rw [isQualified, Bool.and_eq_true, bne_iff_ne] at hq
  rw [lastPart_eq_last]
  exact hq.2

theorem find?_register_of_mem (c : Container) (hnd : (qs.map lastPart).Nodup) (hq : q ∈ qs) :
    (c.register qs).aliases.find? (lastPart q) = some q := by
  apply Table.find?_insertAll_of_mem
  · rwa [List.map_map]
  · exact List.mem_map_of_mem hq

theorem find?_register_of_not_mem (c : Container) (hs : s ∉ qs.map lastPart) :
    (c.register qs).aliases.find? s = c.aliases.find? s := by
  apply Table.find?_insertAll_of_not_mem
  rwa [List.map_map]

/-- Abbreviations are found by their last segment. -/
theorem Made.keyed (hc : c.Made) (h : c.aliases.find? s = some q) : s = lastPart q ∧ s ≠ "" := by
  induction hc with
  | make hmake =>
    rw [Container.make] at hmake
    split at hmake
    · cases hmake
    · cases hmake
      cases h
  | @abbreviateAll c c' names hc hnames ih =>
    obtain ⟨hacc, rfl⟩ := abbreviateAll_eq_ok_iff.1 hnames
    by_cases hs : s ∈ (names.map trim).map lastPart
    · obtain ⟨r, hr, rfl⟩ := List.mem_map.1 hs
      rw [find?_register_of_mem c hacc.distinct hr] at h
      cases h
      exact ⟨rfl, (hacc.abbreviable q hr).lastPart_ne_empty⟩
    · rw [find?_register_of_not_mem c hs] at h
      exact ih h

theorem Made.standsFor (hc : c.Made) (hq : c.Registered q) : c.StandsFor (lastPart q) q := by
  obtain ⟨s, hs⟩ := hq
  obtain ⟨rfl, hne⟩ := hc.keyed hs
  apply standsFor_of_find? _ hne hs
  rw [lastPart_eq_last]
  exact dot_not_mem_last q

theorem Accepts.registered (h : c.Accepts qs) (hq : q ∈ qs ∨ c.Registered q) :
    (c.register qs).Registered q := by
  cases hq with
  | inl hq => exact ⟨lastPart q, find?_register_of_mem c h.distinct hq⟩
  | inr hq =>
    obtain ⟨s, hs⟩ := hq
    refine ⟨s, ?_⟩
    rwa [find?_register_of_not_mem]
    intro hmem
    obtain ⟨r, hr, rfl⟩ := List.mem_map.1 hmem
    rw [h.fresh r hr] at hs
    cases hs

theorem candidates_register_perm {rs : List String} (hnd : (qs.map lastPart).Nodup)
    (hp : qs.Perm rs) (name : String) :
    (c.register rs).candidates name = (c.register qs).candidates name := by
  have hname : (c.register rs).name = (c.register qs).name := rfl
  refine candidates_congr hname ?_ name
  apply Table.find?_insertAll_perm
  · rwa [List.map_map]
  · exact hp.map _

theorem Made.fresh_iff (hc : c.Made) :
    c.aliases.find? (lastPart q) = none ↔ ∀ r, c.Registered r → lastPart q ≠ lastPart r := by
  rw [Option.eq_none_iff_forall_ne_some]
  refine ⟨?_, ?_⟩
  · rintro hnone r ⟨s, hs⟩ heq
    obtain ⟨rfl, -⟩ := hc.keyed hs
    rw [← heq] at hs
    exact hnone r hs
  · intro hne r hr
    exact hne r ⟨lastPart q, hr⟩ (hc.keyed hr).1

end Made

/-- Names, without the blanks around them, are accepted as abbreviations exactly if each could be
one and their last segments differ from each other and from those of the abbreviations there are.
Then each of them, and each abbreviation there was, is what its last segment stands for; a name
that does not begin with a new abbreviation has the candidates it had; and the order of the list
does not matter. -/
theorem abbreviateAll_exact (hc : c.Made) (names : List String) :
    ((∃ c', c.abbreviateAll names = .ok c') ↔
      (∀ q ∈ names.map trim, Abbreviable c.name q) ∧ ((names.map trim).map lastPart).Nodup ∧
      ∀ q ∈ names.map trim, ∀ r, c.Registered r → lastPart q ≠ lastPart r) ∧
    ∀ c', c.abbreviateAll names = .ok c' →
      (∀ q, q ∈ names.map trim ∨ c.Registered q → c'.StandsFor (lastPart q) q) ∧
      (∀ name, (∀ q ∈ names.map trim, lastPart q ≠ firstPart name) →
        (name.toList.head? ≠ some '.' → c'.candidates name = c.candidates name) ∧
        c'.candidates ("." ++ name) = c.candidates ("." ++ name)) ∧
      ∀ names', names.Perm names' → ∃ c'', c.abbreviateAll names' = .ok c'' ∧
        ∀ name, c''.candidates name = c'.candidates name := by
  refine ⟨?_, ?_⟩
  · simp only [← hc.fresh_iff, abbreviateAll_eq_ok_iff, exists_and_left, exists_eq, and_true]
    exact ⟨fun h => ⟨h.abbreviable, h.distinct, h.fresh⟩, fun h => ⟨h.1, h.2.1, h.2.2⟩⟩
  · intro c' h
    obtain ⟨hacc, rfl⟩ := abbreviateAll_eq_ok_iff.1 h
    refine ⟨?_, ?_, ?_⟩
    · intro q hq
      exact (hc.abbreviateAll h).standsFor (hacc.registered hq)
    · intro name hname
      have hnew : firstPart name ∉ (names.map trim).map lastPart := by
        intro hmem
        obtain ⟨q, hq, heq⟩ := List.mem_map.1 hmem
        exact hname q hq heq
      exact candidates_eq_of_find? rfl (find?_register_of_not_mem c hnew)
    · intro names' hp
      have hp := hp.map trim
      refine ⟨c.register (names'.map trim), ?_, candidates_register_perm hacc.distinct hp⟩
      exact abbreviateAll_eq_ok_iff.2 ⟨hacc.perm hp, rfl⟩

theorem abbreviateAll_exact_of_two_names :
    let c := Container.register { name := "example.pkg" } ["k.K"]
    ∃ c', c.abbreviateAll [" my.types.Payload", "x.Z\t"] = .ok c' ∧
      c'.candidates ".Payload.Kind" = ["my.types.Payload.Kind"] ∧ c'.candidates "K" = ["k.K"] ∧
      c'.candidates "my.Z" = ["example.pkg.my.Z", "example.my.Z", "my.Z"] ∧
      ∃ c'', c.abbreviateAll ["x.Z\t", " my.types.Payload"] = .ok c'' ∧
        ∀ name, c''.candidates name = c'.candidates name := by
  intro c
  have hmade : c.Made := by
    have hmake : Container.make "example.pkg" = .ok { name := "example.pkg" } :=
      if_neg (by decide)
    have hadd : Container.abbreviateAll { name := "example.pkg" } ["k.K"] = .ok c := by
      refine abbreviateAll_eq_ok_iff.2 ⟨⟨by decide, by decide, by decide⟩, ?_⟩
      exact congrArg (register _) (by decide : _ = ["k.K"].map trim)
    exact (Made.make hmake).abbreviateAll hadd
  have hexact := abbreviateAll_exact hmade [" my.types.Payload", "x.Z\t"]
  simp only [← hmade.fresh_iff] at hexact
  obtain ⟨c', h⟩ := hexact.1.2 (by decide)
  obtain ⟨hstands, hother, hperm⟩ := hexact.2 c' h
  refine ⟨c', h, ?_, ?_, ?_, hperm _ (by decide)⟩
  · exact (hstands "my.types.Payload" (.inl (by decide))).rooted_qualified "Kind"
  · exact (hstands "k.K" (.inr ⟨"K", by decide⟩)).alone
  · rw [(hother "my.Z" (by decide)).1 (by decide)]
    decide

end Container

end ExprTyping
