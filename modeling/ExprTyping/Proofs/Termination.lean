import ExprTyping.Proofs.Depth

/-!
# Assignability comes to an end

The recursion of assignability goes from a pair of types, in bindings, to further pairs in bindings
that earlier pairs have changed. `Call.Awaits` is this relation between calls, read off the rules:
a call awaits another one if it has no answer unless the other one has. Each call takes less effort
than the one that awaits it, so that no chain of calls goes on for ever, and every call is answered
(`assign_terminates`).
-/

namespace ExprTyping.Bindings

open Relation

/-- What the recursion of assignability is called with. -/
structure Call where
  bindings : Bindings
  left : Ty
  right : Ty

open Classical in
/-- Assignability where one call is left without an answer. -/
noncomputable def assignBut (c : Call) (m : Bindings) (t u : Ty) : Outcome :=
  if c = ⟨m, t, u⟩ then .exhausted else m.assign t u

/-- One step of `a` gives no answer as long as `c` has none. -/
def Call.Awaits (a c : Call) : Prop :=
  step (assignBut c) a.bindings a.left a.right = .exhausted

def AwaitsAll (m : Bindings) (ts us : List Ty) (c : Call) : Prop :=
  pairwise (assignBut c) m ts us = .exhausted

def Call.Ends (a : Call) : Prop := Acc (fun c a => Awaits a c) a

/-- The occurs check comes to an end: it goes down to the parts of a type and to what a parameter
stands for, and so has no need of more rounds than it is given. -/
structure OccursEnds (m : Bindings) : Prop where
  wellFounded : WellFounded fun u t => m.Step t u
  unbounded : ∀ n, m.size ≤ n → ∀ p t, mentionsIn n m (.param p) t = m.mentions (.param p) t

variable {m m' : Bindings} {S : Finset Ty} {t u : Ty} {a c : Call}

theorem Wf.occursEnds (hm : m.Wf) : m.OccursEnds where
  wellFounded := hm.wellFounded
  unbounded n hn p t := by
    rw [Bool.eq_iff_iff, hm.mentions_iff]
    exact hm.mentionsIn_iff (Nat.le_trans (rounds_le_size m t) hn)

theorem assignBut_rewrites {A : Ty → Prop} (hA : m.Closed A) (ht : A t) (hu : A u)
    (h : assignBut c m t u = .assigned m') : Rewrites A m m' := by
  rw [assignBut] at h
  split at h
  · cases h
  · exact assignIn_rewrites hA ht hu h

theorem Wf.eq_of_assignBut (hm : m.Wf) (h : assignBut c m t u = .exhausted) : c = ⟨m, t, u⟩ := by
  by_contra hne
  rw [assignBut, if_neg hne] at h
  exact hm.assign_ne_exhausted t u h

theorem Call.Awaits.effort_lt (h : a.Awaits c) (ha : a.bindings.Wf)
    (hS : a.bindings.Closed (· ∈ S)) (hl : a.left ∈ S) (hr : a.right ∈ S) :
    c.bindings.Wf ∧ c.bindings.Closed (· ∈ S) ∧ c.left ∈ S ∧ c.right ∈ S ∧
      c.bindings.effort S c.left c.right < a.bindings.effort S a.left a.right := by
  by_contra hne
  refine ha.step_ne_exhausted hS hl hr (fun _ _ _ _ _ => assignBut_rewrites) ?_ h
  intro m' x y hm' hS' hx hy hlt hex
  obtain rfl := hm'.eq_of_assignBut hex
  exact hne ⟨hm', hS', hx, hy, hlt⟩

theorem Call.closed_allParts (a : Call) :
    a.bindings.Closed (· ∈ a.bindings.allParts [a.left] [a.right]) ∧
      a.left ∈ a.bindings.allParts [a.left] [a.right] ∧
      a.right ∈ a.bindings.allParts [a.left] [a.right] :=
  ⟨Bindings.closed_allParts _ _ _, mem_allParts_left (by simp), mem_allParts_right (by simp)⟩

theorem Call.Awaits.wf (h : a.Awaits c) (ha : a.bindings.Wf) : c.bindings.Wf :=
  (h.effort_lt ha a.closed_allParts.1 a.closed_allParts.2.1 a.closed_allParts.2.2).1

theorem Call.wf_of_reaches (h : ReflTransGen Awaits a c) (ha : a.bindings.Wf) :
    c.bindings.Wf := by
  induction h with
  | refl => exact ha
  | tail _ hstep ih => exact hstep.wf ih

theorem Call.ends (ha : a.bindings.Wf) : a.Ends := by
  obtain ⟨hS, hl, hr⟩ := a.closed_allParts
  generalize a.bindings.allParts [a.left] [a.right] = S at hS hl hr
  induction hn : a.bindings.effort S a.left a.right using Nat.strong_induction_on
    generalizing a with
  | _ n ih =>
    refine Acc.intro a fun c hc => ?_
    obtain ⟨hwf, hS', hl', hr', hlt⟩ := hc.effort_lt ha hS hl hr
    exact ih _ (hn ▸ hlt) hwf hS' hl' hr' rfl

theorem AwaitsAll.wf {ts us : List Ty} (h : AwaitsAll m ts us c) (hm : m.Wf) :
    c.bindings.Wf := by
  by_contra hne
  refine pairwise_ne_exhausted (fun _ _ _ _ => assignBut_rewrites) ?_ (.all m)
    (fun _ _ => trivial) (fun _ _ => trivial) h
  intro m' hm' t _ u _ hex
  obtain rfl := (hm'.wf hm).eq_of_assignBut hex
  exact hne (hm'.wf hm)

theorem Outcome.answered {o : Outcome} (h : o ≠ .exhausted) :
    (∃ m, o = .assigned m) ∨ o = .refused := by
  cases o with
  | assigned m => exact .inl ⟨m, rfl⟩
  | refused => exact .inr rfl
  | exhausted => exact absurd rfl h

/-- In acyclic bindings of parameters the recursion of assignability ends, for two types and for two
lists of types: no chain of calls goes on for ever, the occurs checks of all calls end, before and
after what they bind, and the answer of the recursion is always that the types are assigned or that
they are refused. -/
theorem assign_terminates {m : Bindings} (hk : m.ParamKeys) (ha : m.Acyclic) :
    (∀ t u, Call.Ends ⟨m, t, u⟩ ∧
      (∀ c, ReflTransGen Call.Awaits ⟨m, t, u⟩ c → c.bindings.OccursEnds ∧
        ∀ m', c.bindings.assign c.left c.right = .assigned m' → m'.OccursEnds) ∧
      m.assign t u = step assign m t u ∧
      ((∃ m', m.assign t u = .assigned m') ∨ m.assign t u = .refused)) ∧
    ∀ ts us, (∀ c, AwaitsAll m ts us c → c.bindings.ParamKeys ∧ c.bindings.Acyclic ∧ c.Ends) ∧
      m.assignAll ts us = pairwise assign m ts us ∧
      ((∃ m', m.assignAll ts us = .assigned m') ∨ m.assignAll ts us = .refused) := by
  have hm : m.Wf := ⟨hk, ha⟩
  refine ⟨fun t u => ⟨Call.ends hm, fun c hc => ?_, hm.assign_eq_step t u,
      Outcome.answered (hm.assign_ne_exhausted t u)⟩,
    fun ts us => ⟨fun c hc => ?_, hm.assignAll_eq_pairwise ts us,
      Outcome.answered (hm.assignAll_ne_exhausted ts us)⟩⟩
  · have hwf := Call.wf_of_reaches hc hm
    exact ⟨hwf.occursEnds, fun m' h => (assignIn_wf _ _ _ _ m' hwf h).occursEnds⟩
  · have hwf := hc.wf hm
    exact ⟨hwf.keys, hwf.acyclic, Call.ends hwf⟩

theorem assign_terminates_of_rebound :
    let m : Bindings := Table.insert {} (.param "P") .error
    let t : Ty := .map (.param "P") (.param "P")
    let u : Ty := .map (.list (.param "Q")) (.list (.list .string))
    let c : Call := ⟨m.insert (.param "P") (.list (.param "Q")), .param "P", .list (.list .string)⟩
    m.ParamKeys ∧ m.Acyclic ∧ Call.Awaits ⟨m, t, u⟩ c ∧ Call.Ends ⟨m, t, u⟩ ∧
      ∃ m', m.assign t u = .assigned m' ∧ m'.find? (.param "P") = some (.list (.param "Q")) ∧
        m'.find? (.param "Q") = some (.list .string) := by
  intro m t u c
  have hm : m.Wf := Wf.empty.insert (Wf.empty.mentions_eq_false_iff.1 (by decide))
  have hkeys : assignBut c m (.param "P") (.list (.param "Q")) = .assigned c.bindings := by
    rw [assignBut, if_neg (by simp [c])]
    rfl
  have hawaits : Call.Awaits ⟨m, t, u⟩ c := by
    change pairwise (assignBut c) m [_, _] [_, _] = .exhausted
    simp only [pairwise, hkeys]
    simp [assignBut, c]
  exact ⟨hm.keys, hm.acyclic, hawaits, ((assign_terminates hm.keys hm.acyclic).1 t u).1,
    _, rfl, rfl, rfl⟩

end ExprTyping.Bindings
