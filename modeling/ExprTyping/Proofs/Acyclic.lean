import ExprTyping.Proofs.Parameters
import Mathlib.Data.Finset.Card
import Mathlib.Logic.Relation
import Mathlib.Order.WellFounded

/-!
# The binding graph

A bound parameter points to the parameters of the type it stands for; bindings are well formed if
only parameters are bound and this graph has no cycle. `Bindings.Below` is the same reachability
between types, through children and through bindings. In well-formed bindings a bound parameter is
not below its own binding, so what is below a type can be exhausted: by induction
(`Wf.wellFounded`) and within as many rounds as there are bindings (`rounds_le_size`).
-/

namespace ExprTyping

open Relation

theorem Table.mem_entries_of_find? {κ α : Type} [DecidableEq κ] {t : Table κ α} {k : κ} {a : α}
    (h : t.find? k = some a) : (k, a) ∈ t.entries := by
  obtain ⟨es⟩ := t
  simp only [find?] at h
  induction es with
  | nil => simp [lookup] at h
  | cons e rest ih =>
    obtain ⟨i, b⟩ := e
    by_cases hik : i = k
    · simp_all [lookup]
    · exact List.mem_cons_of_mem _ (ih (by simpa [lookup, hik] using h))

namespace Bindings

def Points (m : Bindings) (p q : String) : Prop := ∃ t, m.find? (.param p) = some t ∧ q ∈ t.params

def Acyclic (m : Bindings) : Prop := ∀ p, ¬ TransGen m.Points p p

def ParamKeys (m : Bindings) : Prop := ∀ k t, m.find? k = some t → ∃ p, k = .param p

structure Wf (m : Bindings) : Prop where
  keys : m.ParamKeys
  acyclic : m.Acyclic

/-- One step down from a type: to a child, or to what the type is bound to. -/
def Step (m : Bindings) (t u : Ty) : Prop := u ∈ t.children ∨ m.find? t = some u

def Below (m : Bindings) : Ty → Ty → Prop := ReflTransGen m.Step

variable {m : Bindings} {p q : String} {s t u : Ty}

theorem Below.refl (m : Bindings) (t : Ty) : m.Below t t := ReflTransGen.refl

theorem Below.trans (h : m.Below s t) (h' : m.Below t u) : m.Below s u := ReflTransGen.trans h h'

theorem Below.child (h : u ∈ t.children) : m.Below t u := .single (.inl h)

theorem Below.bound (h : m.find? t = some u) : m.Below t u := .single (.inr h)

theorem Below.of_mem_params (h : p ∈ t.params) : m.Below t (.param p) := by
  induction t using WellFounded.induction (measure Ty.size).wf with
  | _ t ih =>
    rcases Ty.mem_params_iff.1 h with rfl | ⟨c, hc, hp⟩
    · exact .refl m _
    · exact .trans (.child hc) (ih c (Ty.size_lt_of_mem_children hc) hp)

theorem step_param_iff : m.Step (.param p) t ↔ m.find? (.param p) = some t := by
  simp [Step, Ty.children]

theorem Below.of_reaches (h : ReflTransGen m.Points p q) : m.Below (.param p) (.param q) := by
  induction h with
  | refl => exact .refl m _
  | tail _ hpq ih =>
    obtain ⟨t, ht, hq⟩ := hpq
    exact ih.trans (.trans (.bound ht) (.of_mem_params hq))

theorem Below.exists_reaches (hk : m.ParamKeys) (h : m.Below t (.param p)) :
    ∃ q ∈ t.params, ReflTransGen m.Points q p := by
  induction h using ReflTransGen.head_induction_on with
  | refl => exact ⟨p, by simp [Ty.params], .refl⟩
  | head hstep _ ih =>
    obtain ⟨q, hq, hqp⟩ := ih
    rcases hstep with hc | hb
    · exact ⟨q, Ty.mem_params_of_mem_children hc hq, hqp⟩
    · obtain ⟨r, rfl⟩ := hk _ _ hb
      exact ⟨r, by simp [Ty.params], .head ⟨_, hb, hq⟩ hqp⟩

theorem not_below_of_closed (hk : m.ParamKeys) (ht : t.params = []) :
    ¬ m.Below t (.param p) := by
  intro hb
  obtain ⟨q, hq, -⟩ := hb.exists_reaches hk
  simp [ht] at hq

theorem acyclic_iff (hk : m.ParamKeys) :
    m.Acyclic ↔ ∀ p t, m.find? (.param p) = some t → ¬ m.Below t (.param p) := by
  constructor
  · intro ha p t ht hb
    obtain ⟨q, hq, hqp⟩ := hb.exists_reaches hk
    exact ha p (.head' ⟨t, ht, hq⟩ hqp)
  · intro h p hp
    obtain ⟨q, ⟨t, ht, hq⟩, hqp⟩ := TransGen.head'_iff.1 hp
    exact h p t ht (.trans (.of_mem_params hq) (.of_reaches hqp))

theorem Wf.not_below (hm : m.Wf) (h : m.find? (.param p) = some t) : ¬ m.Below t (.param p) :=
  (acyclic_iff hm.keys).1 hm.acyclic p t h

theorem Wf.empty : Wf {} where
  keys _ _ h := by simp [Table.find?, Table.lookup] at h
  acyclic p hp := by
    obtain ⟨q, ⟨t, ht, _⟩, _⟩ := TransGen.head'_iff.1 hp
    simp [Table.find?, Table.lookup] at ht

section Rounds

variable {S : Finset Ty}

open Classical in
/-- The types of a finite set that are below a type. -/
noncomputable def reach (m : Bindings) (S : Finset Ty) (t : Ty) : Finset Ty := S.filter (m.Below t)

theorem mem_reach : u ∈ m.reach S t ↔ u ∈ S ∧ m.Below t u := by
  simp [reach]

theorem card_reach_le (m : Bindings) (S : Finset Ty) (t : Ty) : (m.reach S t).card ≤ S.card :=
  Finset.card_le_card fun _ hx => (mem_reach.1 hx).1

theorem reach_mono (h : m.Below t u) : m.reach S u ⊆ m.reach S t := by
  intro x hx
  rw [mem_reach] at hx ⊢
  exact ⟨hx.1, h.trans hx.2⟩

theorem card_reach_lt (h : m.Below t u) (hn : ¬ m.Below u t) (ht : t ∈ S) :
    (m.reach S u).card < (m.reach S t).card := by
  apply Finset.card_lt_card
  refine (Finset.ssubset_iff_of_subset (reach_mono h)).2 ⟨t, ?_, ?_⟩
  · exact mem_reach.2 ⟨ht, .refl m t⟩
  · exact fun hx => hn (mem_reach.1 hx).2

noncomputable def rounds (m : Bindings) (t : Ty) : Nat := (m.reach m.keys.toFinset t).card

theorem rounds_le_size (m : Bindings) (t : Ty) : m.rounds t ≤ m.size := by
  calc m.rounds t ≤ m.keys.toFinset.card := card_reach_le m _ t
    _ ≤ m.keys.length := List.toFinset_card_le _
    _ = m.size := by simp [Table.keys, Table.size]

theorem rounds_mono (h : m.Below t u) : m.rounds u ≤ m.rounds t :=
  Finset.card_le_card (reach_mono h)

theorem Wf.rounds_lt (hm : m.Wf) (h : m.find? (.param p) = some t) :
    m.rounds t < m.rounds (.param p) := by
  refine card_reach_lt (.bound h) (hm.not_below h) (List.mem_toFinset.2 ?_)
  exact List.mem_map.2 ⟨_, Table.mem_entries_of_find? h, rfl⟩

theorem Wf.rounds_lt_of_mem_params (hm : m.Wf) (hp : p ∈ t.params)
    (h : m.find? (.param p) = some s) : m.rounds s < m.rounds t :=
  Nat.lt_of_lt_of_le (hm.rounds_lt h) (rounds_mono (.of_mem_params hp))

/-- Steps down in well-formed bindings come to an end: a binding uses up a round, and a child is
smaller. -/
theorem Wf.wellFounded (hm : m.Wf) : WellFounded fun u t => m.Step t u := by
  refine Subrelation.wf ?_ (InvImage.wf (fun t => (m.rounds t, t.size))
    (WellFounded.prod_lex Nat.lt_wfRel.wf Nat.lt_wfRel.wf))
  intro u t h
  rcases h with hc | hb
  · rcases Nat.lt_or_eq_of_le (rounds_mono (m := m) (.child hc)) with hlt | heq
    · exact .left _ _ hlt
    · simp only [InvImage, heq]
      exact .right _ (Ty.size_lt_of_mem_children hc)
  · obtain ⟨p, rfl⟩ := hm.keys _ _ hb
    exact .left _ _ (hm.rounds_lt hb)

theorem Wf.not_below_of_step (hm : m.Wf) (h : m.Step t u) : ¬ m.Below u t := by
  intro hb
  have hcycle : TransGen (fun u t => m.Step t u) t t :=
    transGen_swap.2 (TransGen.head' h hb)
  exact hm.wellFounded.transGen.asymmetric t t hcycle hcycle

end Rounds

section Insert

theorem below_insert_of_not_below (hs : ¬ m.Below s (.param p)) :
    Below (m.insert (.param p) t) s u ↔ m.Below s u := by
  constructor
  · intro h
    induction h with
    | refl => exact .refl m _
    | tail _ hstep ih =>
      refine ih.tail (hstep.imp_right fun hb => ?_)
      rwa [Table.find?_insert_of_ne] at hb
      rintro rfl
      exact hs ih
  · intro h
    induction h with
    | refl => exact .refl _ _
    | tail hb hstep ih =>
      refine ih.tail (hstep.imp_right fun hb' => ?_)
      rwa [Table.find?_insert_of_ne]
      rintro rfl
      exact hs hb

theorem below_insert (h : Below (m.insert (.param p) t) s u) :
    m.Below s u ∨ m.Below s (.param p) ∧ Below (m.insert (.param p) t) t u := by
  induction h with
  | refl => exact .inl (.refl m _)
  | @tail x y _ hstep ih =>
    rcases ih with ih | ⟨hp, ih⟩
    · by_cases hx : .param p = x
      · subst hx
        rw [step_param_iff, Table.find?_insert_self, Option.some_inj] at hstep
        exact .inr ⟨ih, hstep ▸ .refl _ _⟩
      · refine .inl (ih.tail (hstep.imp_right fun hb => ?_))
        rwa [Table.find?_insert_of_ne _ _ hx] at hb
    · exact .inr ⟨hp, ih.tail hstep⟩

theorem ParamKeys.insert (hk : m.ParamKeys) (p : String) (t : Ty) :
    ParamKeys (m.insert (.param p) t) := by
  intro k u h
  by_cases hp : .param p = k
  · exact ⟨p, hp.symm⟩
  · exact hk k u (by rwa [Table.find?_insert_of_ne _ _ hp] at h)

theorem Wf.insert (hm : m.Wf) (ht : ¬ m.Below t (.param p)) : Wf (m.insert (.param p) t) := by
  have hk := hm.keys.insert p t
  refine ⟨hk, (acyclic_iff hk).2 fun q s hs hb => ?_⟩
  by_cases hpq : Ty.param p = .param q
  · rw [hpq] at hs ht hb
    rw [Table.find?_insert_self, Option.some_inj] at hs
    subst hs
    exact ht ((below_insert_of_not_below ht).1 hb)
  · rw [Table.find?_insert_of_ne _ _ hpq] at hs
    rcases below_insert hb with hb | ⟨hp, hb⟩
    · exact hm.not_below hs hb
    · -- the detour through `p` would lead from `t` over `q` back to `p`
      exact ht (((below_insert_of_not_below ht).1 hb).trans (.trans (.bound hs) hp))

end Insert

end Bindings

end ExprTyping
