import ExprTyping.Proofs.Instantiation

/-!
# Overload resolution on closed arguments

Arguments that mention no parameter can only bind the variables that an overload is tried with. So
whether an overload takes them, and with which result, is settled by the overload alone
(`Overload.resultOn?`), and a call resolves to the overloads that take its arguments, whatever was
bound before it and in whatever order they are declared. A result that leaves a type parameter open
is the result of no other overload, since each trial has variables of its own (`Ty.widen`).
-/

namespace ExprTyping

namespace Bindings

variable {m : Bindings} {t : Ty}

structure FreshFrom (m : Bindings) (n : Nat) : Prop where
  key : ∀ k, n ≤ k → m.find? (freshVar k) = none
  bound : ∀ t u, m.find? t = some u → ∀ k, n ≤ k → varName k ∉ u.params

theorem FreshFrom.empty (n : Nat) : FreshFrom {} n :=
  ⟨fun _ _ => rfl, fun _ _ hu => by cases hu⟩

theorem FreshFrom.mono {n k : Nat} (h : m.FreshFrom n) (hnk : n ≤ k) : m.FreshFrom k :=
  ⟨fun j hj => h.key j (by omega), fun t u hu j hj => h.bound t u hu j (by omega)⟩

structure BindsOnly (n k : Nat) (m m' : Bindings) : Prop where
  wf : m'.Wf
  fresh : m'.FreshFrom k
  kept : ∀ p, p ∉ vars n k → m'.find? (.param p) = m.find? (.param p)

theorem FreshFrom.bindsOnly {m' : Bindings} {n k : Nat} {ts us : List Ty} (hm : m.Wf)
    (hfresh : m.FreshFrom n) (hnk : n ≤ k) (hts : ∀ t ∈ ts, t.params = [])
    (hus : ∀ u ∈ us, u.Over (vars n k)) (h : m.assignAll? ts us = some m') :
    BindsOnly n k m m' := by
  have hclosed : m.Closed (Ty.Over (vars n k)) := by
    refine ⟨fun t c ht _ hc => ht.of_mem_children hc, fun t u ht hu => ?_⟩
    obtain ⟨p, rfl⟩ := hm.keys t u hu
    obtain ⟨j, hj, -, rfl⟩ := ht p (by simp [Ty.params])
    rw [← freshVar, hfresh.key j hj] at hu
    cases hu
  have hrewrites := assignAll?_rewrites hclosed (fun t ht => by simp [Ty.Over, hts t ht]) hus h
  refine ⟨hrewrites.wf hm, ⟨fun j hj => ?_, fun t u hu j hj hmem => ?_⟩, fun p hp => ?_⟩
  · have hout : ¬ (freshVar j).Over (vars n k) := by
      intro hover
      have := varName_mem_vars.1 (hover (varName j) (by simp [freshVar, Ty.params]))
      omega
    rw [hrewrites.find?_eq hout, hfresh.key j (by omega)]
  · rcases hrewrites.find?_cases hu with hu | ⟨-, hover⟩
    · exact hfresh.bound t u hu j (by omega) hmem
    · have := varName_mem_vars.1 (hover (varName j) hmem)
      omega
  · refine hrewrites.find?_eq fun hover => hp (hover p ?_)
    simp [Ty.params]

end Bindings

namespace Overload

open Bindings

variable {o : Overload} {os : List Overload} {args : List Ty}

/-- What the overload makes of the arguments, over its own type parameters. -/
def resultOn? (o : Overload) (args : List Ty) : Option Ty :=
  (assignAll? {} args o.params).map (·.subst false o.result)

def taking (args : List Ty) (os : List Overload) : List Overload :=
  os.filter fun o => (o.resultOn? args).isSome

def resultsOn (args : List Ty) (os : List Overload) : List Ty :=
  os.filterMap (·.resultOn? args)

theorem resultsOn_eq_nil_iff : resultsOn args os = [] ↔ ∀ o ∈ os, o.resultOn? args = none :=
  List.filterMap_eq_nil_iff

theorem taking_eq_nil (h : resultsOn args os = []) : taking args os = [] := by
  simpa [taking, List.filter_eq_nil_iff] using resultsOn_eq_nil_iff.1 h

theorem concat_of_none (h : o.resultOn? args = none) :
    taking args (os ++ [o]) = taking args os ∧ resultsOn args (os ++ [o]) = resultsOn args os := by
  simp [taking, resultsOn, h]

theorem concat_of_some {r : Ty} (h : o.resultOn? args = some r) :
    taking args (os ++ [o]) = taking args os ++ [o] ∧
      resultsOn args (os ++ [o]) = resultsOn args os ++ [r] := by
  simp [taking, resultsOn, List.filter_append, h]

end Overload

namespace Ty

/-- The type of a call that has type `c` so far and one more overload with result `r`. A result that
leaves a type parameter open is the same as no other. -/
def widen (c r : Ty) : Ty := if c.params = [] ∧ r = c then c else .dyn

def joint : List Ty → Ty
  | [] => .dyn
  | r :: rs => rs.foldl widen r

theorem widen_comm (c r : Ty) : c.widen r = r.widen c := by
  by_cases h : r = c
  · rw [h]
  · simp [widen, h, Ne.symm h]

theorem widen_right_comm (c r s : Ty) : (c.widen r).widen s = (c.widen s).widen r := by
  by_cases hr : r = c <;> by_cases hs : s = c <;> by_cases hc : c.params = [] <;>
    simp [widen, hr, hs, hc, params]

theorem joint_perm {rs rs' : List Ty} (h : rs.Perm rs') : joint rs = joint rs' := by
  induction h with
  | nil => rfl
  | cons r h => exact h.foldl_eq' (fun r _ s _ c => widen_right_comm c r s) r
  | swap r s rs => simp only [joint, List.foldl_cons, widen_comm]
  | trans _ _ ih ih' => exact ih.trans ih'

theorem joint_concat {rs : List Ty} (h : rs ≠ []) (r : Ty) :
    joint (rs ++ [r]) = (joint rs).widen r := by
  cases rs with
  | nil => exact absurd rfl h
  | cons s rs => simp [joint]

end Ty

section Widening

open Bindings

variable {c r : Ty} {φ ψ : String → String} {n k : Nat}

theorem rename_eq_rename_iff (hc : (c.rename φ).Over (vars 0 n))
    (hr : (r.rename ψ).Over (vars n k)) : c.rename φ = r.rename ψ ↔ c.params = [] ∧ r = c := by
  constructor
  · intro h
    have hnil : (c.rename φ).params = [] := by
      rw [List.eq_nil_iff_forall_not_mem]
      intro p hp
      obtain ⟨j, -, hj, rfl⟩ := hc p hp
      have := varName_mem_vars.1 (hr _ (h ▸ hp))
      omega
    have hcnil := Ty.params_rename_eq_nil_iff.1 hnil
    have hrnil := Ty.params_rename_eq_nil_iff.1 (h ▸ hnil)
    rw [Ty.rename_of_params_eq_nil hcnil, Ty.rename_of_params_eq_nil hrnil] at h
    exact ⟨hcnil, h.symm⟩
  · rintro ⟨hnil, rfl⟩
    rw [Ty.rename_of_params_eq_nil hnil, Ty.rename_of_params_eq_nil hnil]

theorem Resolution.add_rename (hc : (c.rename φ).Over (vars 0 n))
    (hr : (r.rename ψ).Over (vars n k)) (ids : List String) (id : String) :
    Resolution.add (some ⟨ids, c.rename φ⟩) id (r.rename ψ) =
      ⟨ids ++ [id], (c.widen r).rename φ⟩ := by
  have hiff := rename_eq_rename_iff hc hr
  rw [Resolution.add, Ty.widen]
  by_cases hsame : c.params = [] ∧ r = c
  · rw [if_pos hsame, if_neg]
    exact fun h => h.2 (hiff.2 hsame)
  · rw [if_neg hsame]
    by_cases hdyn : c.rename φ = .dyn
    · rw [if_neg (fun h => h.1 hdyn), hdyn]
      rfl
    · rw [if_pos ⟨hdyn, fun h => hsame (hiff.1 h)⟩]
      rfl

end Widening

namespace Trial

open Bindings Overload

variable {t : Trial} {args : List Ty} {o : Overload} {os : List Overload}

/-- No variable that is still to be given out is in use already: neither in the bindings nor as the
name of a type parameter. -/
structure Ready (t : Trial) (os : List Overload) : Prop where
  wf : t.bindings.Wf
  fresh : t.bindings.FreshFrom t.nextVar
  own : ∀ o ∈ os, ∀ k, t.nextVar ≤ k → varName k ∉ o.typeParams

theorem Ready.agree (h : t.Ready os) (o : Overload) :
    Agree {p | p ∈ o.typeParams} (freshName t.nextVar o.typeParams) {} t.bindings where
  wf := .empty
  wf' := h.wf
  inj := injOn_freshName t.nextVar o.typeParams
  find? p hp := by
    obtain ⟨k, hk, -, hname⟩ := freshName_mem_vars (n := t.nextVar) hp
    rw [← hname]
    exact h.fresh.key k hk
  closed _ _ _ ht := by cases ht

theorem Ready.assignAll? (h : t.Ready os) (ho : o.Scoped) (hargs : ∀ a ∈ args, a.params = []) :
    Option.Rel (Agree {p | p ∈ o.typeParams} (freshName t.nextVar o.typeParams))
      (Bindings.assignAll? {} args o.params) (t.bindings.assignAll? args
        (o.params.map (Ty.rename (freshName t.nextVar o.typeParams)))) := by
  have hover : ∀ a ∈ args, a.Over {p | p ∈ o.typeParams} := by
    intro a ha
    simp [Ty.Over, hargs a ha]
  have hsame : args.map (Ty.rename (freshName t.nextVar o.typeParams)) = args := by
    rw [List.map_congr_left fun a ha => Ty.rename_of_params_eq_nil (hargs a ha), List.map_id']
  have hrel := (h.agree o).assignAll? hover (List.forall_mem_cons.1 ho).2
  rwa [hsame] at hrel

theorem Ready.overload_cases (h : t.Ready os) (hos : o ∈ os) (ho : o.Scoped)
    (hargs : ∀ a ∈ args, a.params = []) :
    (o.resultOn? args = none ∧
      t.overload args o = { t with nextVar := t.nextVar + o.typeParams.length }) ∨
    ∃ r m, o.resultOn? args = some r ∧
      t.overload args o = ⟨m, t.nextVar + o.typeParams.length,
        some (.add t.found o.id (r.rename (freshName t.nextVar o.typeParams)))⟩ ∧
      BindsOnly t.nextVar (t.nextVar + o.typeParams.length) t.bindings m ∧
      ∀ p ∈ (r.rename (freshName t.nextVar o.typeParams)).params,
        p ∈ vars t.nextVar (t.nextVar + o.typeParams.length) ∧ m.find? (.param p) = none := by
  have hrel := h.assignAll? ho hargs
  have hbinds : ∀ m, t.bindings.assignAll? args
      (o.params.map (Ty.rename (freshName t.nextVar o.typeParams))) = some m →
      BindsOnly t.nextVar (t.nextVar + o.typeParams.length) t.bindings m :=
    fun m => h.fresh.bindsOnly h.wf (Nat.le_add_right _ _) hargs (ho.over_vars t.nextVar)
  simp only [overload, instantiate_eq (h.own o hos), resultOn?]
  generalize Bindings.assignAll? {} args o.params = a₀,
    t.bindings.assignAll? args (o.params.map _) = a at hrel hbinds ⊢
  cases hrel with
  | none => exact .inl ⟨rfl, rfl⟩
  | @some m₀ m hagree =>
    have hresult := ho o.result List.mem_cons_self
    have hsubst := hagree.subst false hresult
    refine .inr ⟨m₀.subst false o.result, m, rfl, ?_, hbinds m rfl, fun p hp => ⟨?_, ?_⟩⟩
    · simp only [hsubst]
    · obtain ⟨q, hq, rfl⟩ := Ty.mem_params_rename.1 hp
      exact freshName_mem_vars (hagree.over_subst hresult q hq)
    · rw [← hsubst] at hp
      exact (hagree.wf'.mem_params_subst p hp).2

structure After (args : List Ty) (os : List Overload) (t : Trial) : Prop where
  wf : t.bindings.Wf
  fresh : t.bindings.FreshFrom t.nextVar
  free : ∀ r, t.found = some r → ∀ p ∈ r.result.params,
    p ∈ vars 0 t.nextVar ∧ t.bindings.find? (.param p) = none
  found : ∃ φ, t.found = if resultsOn args os = [] then none else
    some ⟨(taking args os).map Overload.id, (Ty.joint (resultsOn args os)).rename φ⟩

section Steps

variable {m : Bindings} {n : Nat} {r : Ty} {φ : String → String}

theorem After.refused (h : t.After args os) (ho : o.resultOn? args = none) (hn : t.nextVar ≤ n) :
    After args (os ++ [o]) { t with nextVar := n } where
  wf := h.wf
  fresh := h.fresh.mono hn
  free r hr p hp := ⟨vars_mono hn (h.free r hr p hp).1, (h.free r hr p hp).2⟩
  found := by
    rw [(concat_of_none ho).1, (concat_of_none ho).2]
    exact h.found

theorem After.first (hnil : resultsOn args os = []) (ho : o.resultOn? args = some r)
    (hbinds : BindsOnly t.nextVar n t.bindings m)
    (hfree : ∀ p ∈ (r.rename φ).params, p ∈ vars t.nextVar n ∧ m.find? (.param p) = none) :
    After args (os ++ [o]) ⟨m, n, some (.add none o.id (r.rename φ))⟩ where
  wf := hbinds.wf
  fresh := hbinds.fresh
  free r' hr p hp := by
    cases hr
    obtain ⟨⟨j, -, hlt, heq⟩, hnone⟩ := hfree p hp
    exact ⟨⟨j, Nat.zero_le j, hlt, heq⟩, hnone⟩
  found := by
    refine ⟨φ, ?_⟩
    rw [(concat_of_some ho).1, (concat_of_some ho).2, hnil, taking_eq_nil hnil]
    simp [Resolution.add, Ty.joint]

theorem After.further (h : t.After args os) (hnil : resultsOn args os ≠ [])
    (ho : o.resultOn? args = some r) (hn : t.nextVar ≤ n)
    (hbinds : BindsOnly t.nextVar n t.bindings m)
    (hover : (r.rename φ).Over (vars t.nextVar n)) :
    After args (os ++ [o]) ⟨m, n, some (.add t.found o.id (r.rename φ))⟩ := by
  obtain ⟨ψ, hfound⟩ := h.found
  rw [if_neg hnil] at hfound
  have hfree := h.free _ hfound
  rw [hfound, Resolution.add_rename (fun p hp => (hfree p hp).1) hover]
  refine ⟨hbinds.wf, hbinds.fresh, fun r' hr p hp => ?_, ψ, ?_⟩
  · cases hr
    have hp : p ∈ ((Ty.joint (resultsOn args os)).rename ψ).params := by
      rw [Ty.widen] at hp
      split at hp
      · exact hp
      · cases hp
    obtain ⟨hvar, hnone⟩ := hfree p hp
    refine ⟨vars_mono hn hvar, ?_⟩
    rw [hbinds.kept p fun hmem => ?_, hnone]
    -- the variables of this trial are not among those of the trials before
    obtain ⟨j, -, hlt, rfl⟩ := hvar
    have := varName_mem_vars.1 hmem
    omega
  · rw [(concat_of_some ho).1, (concat_of_some ho).2, Ty.joint_concat hnil]
    simp

theorem After.overload (h : t.After args os) (ho : o.Scoped)
    (hown : ∀ k, t.nextVar ≤ k → varName k ∉ o.typeParams) (hargs : ∀ a ∈ args, a.params = []) :
    (t.overload args o).After args (os ++ [o]) := by
  have hready : t.Ready [o] := ⟨h.wf, h.fresh, by simpa using hown⟩
  rcases hready.overload_cases (List.mem_singleton_self o) ho hargs with
    ⟨hnone, heq⟩ | ⟨r, m, hsome, heq, hbinds, hfree⟩
  · rw [heq]
    exact h.refused hnone (Nat.le_add_right _ _)
  · rw [heq]
    by_cases hnil : resultsOn args os = []
    · obtain ⟨ψ, hfound⟩ := h.found
      rw [hfound, if_pos hnil]
      exact .first hnil hsome hbinds hfree
    · exact h.further hnil hsome (Nat.le_add_right _ _) hbinds fun p hp => (hfree p hp).1

end Steps

theorem le_nextVar_overload (t : Trial) (args : List Ty) (o : Overload) :
    t.nextVar ≤ (t.overload args o).nextVar := by
  rcases t.overload_case args o with h | ⟨m, -, h⟩
  · rw [h]
    exact o.nextVar_instantiate t.nextVar
  · rw [h]
    exact o.nextVar_instantiate t.nextVar

theorem After.foldl {os' : List Overload} (h : t.After args os)
    (hown : ∀ o ∈ os', ∀ k, t.nextVar ≤ k → varName k ∉ o.typeParams)
    (hos : ∀ o ∈ os', o.Scoped) (hargs : ∀ a ∈ args, a.params = []) :
    (os'.foldl (·.overload args ·) t).After args (os ++ os') := by
  induction os' generalizing t os with
  | nil => rwa [List.append_nil]
  | cons o os' ih =>
    rw [List.forall_mem_cons] at hown hos
    have hle := t.le_nextVar_overload args o
    have hnext := ih (h.overload hos.1 hown.1 hargs)
      (fun o ho k hk => hown.2 o ho k (hle.trans hk)) hos.2
    rwa [List.append_assoc] at hnext

theorem Ready.after_all (h : t.Ready os) (ht : t.found = none) (hos : ∀ o ∈ os, o.Scoped)
    (hargs : ∀ a ∈ args, a.params = []) (enabled : String → Bool) (receiver : Bool) :
    (t.all enabled receiver args os).After args
      (os.filter fun o => enabled o.id && o.receiver == receiver) := by
  have hstart : t.After args [] := ⟨h.wf, h.fresh, by simp [ht], id, by simp [ht, resultsOn]⟩
  have hmem : ∀ o ∈ os.filter fun o => enabled o.id && o.receiver == receiver, o ∈ os :=
    fun o ho => List.mem_of_mem_filter ho
  exact hstart.foldl (fun o ho => h.own o (hmem o ho)) (fun o ho => hos o (hmem o ho)) hargs

theorem After.found_eq_none_iff (h : t.After args os) :
    t.found = none ↔ ∀ o ∈ os, o.resultOn? args = none := by
  obtain ⟨φ, hfound⟩ := h.found
  rw [hfound, ← resultsOn_eq_nil_iff]
  simp

theorem After.overloads_eq {r : Resolution} (h : t.After args os) (hr : t.found = some r) :
    r.overloads = (taking args os).map Overload.id := by
  obtain ⟨φ, hfound⟩ := h.found
  rw [hr] at hfound
  split at hfound
  · cases hfound
  · cases hfound
    rfl

theorem After.subst_result {r : Resolution} (h : t.After args os) (hr : t.found = some r) :
    t.bindings.subst true r.result =
      (Ty.joint (resultsOn args os)).inst fun _ => .dyn := by
  obtain ⟨φ, hfound⟩ := h.found
  have hfree := h.free r hr
  rw [hr] at hfound
  split at hfound
  · cases hfound
  · cases hfound
    rw [h.wf.keys.subst_eq_inst]
    calc _ = ((Ty.joint (resultsOn args os)).rename φ).inst fun _ => .dyn :=
          Ty.inst_congr fun p hp => h.wf.keys.subst_free (hfree p hp).2
      _ = _ := Ty.inst_inst _ _ _

/-- If the arguments mention no parameter and the overloads only their own, then the resolution of a
call depends neither on the bindings and the next number it starts with nor on the order in which
the overloads are declared. -/
theorem all_contextFree {m m' : Bindings} {n n' : Nat} {os' : List Overload}
    (enabled : String → Bool) (receiver : Bool) (hperm : os.Perm os')
    (hos : ∀ o ∈ os, o.Scoped) (hargs : ∀ a ∈ args, a.params = [])
    (h : Ready ⟨m, n, none⟩ os) (h' : Ready ⟨m', n', none⟩ os) :
    let t := all ⟨m, n, none⟩ enabled receiver args os
    let t' := all ⟨m', n', none⟩ enabled receiver args os'
    (t.found = none ↔ t'.found = none) ∧
      ∃ matched : Overload → Bool, ∀ r r', t.found = some r → t'.found = some r' →
        r.overloads = (os.filter matched).map Overload.id ∧
        r'.overloads = (os'.filter matched).map Overload.id ∧
        t.bindings.subst true r.result = t'.bindings.subst true r'.result := by
  intro t t'
  have hmem : ∀ o ∈ os', o ∈ os := fun o ho => hperm.mem_iff.2 ho
  have hready : Ready ⟨m', n', none⟩ os' := ⟨h'.wf, h'.fresh, fun o ho => h'.own o (hmem o ho)⟩
  have hafter := h.after_all rfl hos hargs enabled receiver
  have hafter' := hready.after_all rfl (fun o ho => hos o (hmem o ho)) hargs enabled receiver
  have hfilter := hperm.filter fun o => enabled o.id && o.receiver == receiver
  refine ⟨?_, fun o => (o.resultOn? args).isSome && (enabled o.id && o.receiver == receiver), ?_⟩
  · rw [hafter.found_eq_none_iff, hafter'.found_eq_none_iff]
    simp only [hfilter.mem_iff]
  · intro r r' hr hr'
    refine ⟨?_, ?_, ?_⟩
    · rw [hafter.overloads_eq hr, taking, List.filter_filter]
    · rw [hafter'.overloads_eq hr', taking, List.filter_filter]
    · have hresults : (resultsOn args _).Perm (resultsOn args _) := hfilter.filterMap _
      rw [hafter.subst_result hr, hafter'.subst_result hr', Ty.joint_perm hresults]

theorem all_contextFree_of_swapped :
    let elem : Overload :=
      { id := "elem", params := [.list (.param "A")], result := .param "A", typeParams := ["A"] }
    let size : Overload := { id := "size", params := [.list .dyn], result := .int }
    let m : Bindings := Table.insert {} (.param "_var0") (.list (.param "_var1"))
    let t := all ⟨{}, 0, none⟩ (fun _ => true) false [.list .int] [elem, size]
    let t' := all ⟨m, 2, none⟩ (fun _ => true) false [.list .int] [size, elem]
    Ready ⟨{}, 0, none⟩ [elem, size] ∧ Ready ⟨m, 2, none⟩ [elem, size] ∧
      ∃ r r', t.found = some r ∧ t'.found = some r' ∧ r.overloads = ["elem", "size"] ∧
        r'.overloads = ["size", "elem"] ∧
        t.bindings.subst true r.result = t'.bindings.subst true r'.result := by
  intro elem size m t t'
  have hwf : m.Wf := Wf.empty.insert (Wf.empty.mentions_eq_false_iff.1 rfl)
  have hfresh : m.FreshFrom 2 := by
    have h0 : "_var0" = varName 0 := rfl
    have h1 : "_var1" = varName 1 := rfl
    refine ⟨fun k hk => ?_, fun t u hu k hk => ?_⟩
    · rw [Table.find?_insert_of_ne]
      · rfl
      · rw [h0, freshVar, ne_eq, Ty.param.injEq, varName_injective.eq_iff]
        omega
    · rw [Table.find?_insert] at hu
      split at hu
      · cases hu
        rw [Ty.params, Ty.params, h1, List.mem_singleton, varName_injective.eq_iff]
        omega
      · cases hu
  have hown : ∀ n, ∀ o ∈ [elem, size], ∀ k, n ≤ k → varName k ∉ o.typeParams := by
    simp [elem, size, varName, ← String.toList_inj]
  have hready : Ready ⟨{}, 0, none⟩ [elem, size] := ⟨.empty, .empty 0, hown 0⟩
  have hready' : Ready ⟨m, 2, none⟩ [elem, size] := ⟨hwf, hfresh, hown 2⟩
  have hscoped : ∀ o ∈ [elem, size], o.Scoped := by
    simp [elem, size, Scoped, Ty.Over, Ty.params]
  have hargs : ∀ a ∈ [Ty.list .int], a.params = [] := by
    simp [Ty.params]
  obtain ⟨-, matched, hmatched⟩ := all_contextFree (fun _ => true) false (.swap size elem [])
    hscoped hargs hready hready'
  have hr : t.found = some ⟨["elem", "size"], .int⟩ := by decide +zetaReduce
  have hr' : t'.found = some ⟨["size", "elem"], .int⟩ := by decide +zetaReduce
  exact ⟨hready, hready', _, _, hr, hr', rfl, rfl, (hmatched _ _ hr hr').2.2⟩

/-- A type parameter that has the name of a variable still to be given out is taken for it. If the
next number is 0 then `_var1` and `A` both become `_var0`, and if it is 2 they stay apart. -/
theorem all_found_of_reserved_name :
    let o : Overload :=
      { id := "f_pair", params := [.param "A", .param "_var1"], result := .bool,
        typeParams := ["_var1", "A"] }
    let args : List Ty := [.int, .string]
    o.Scoped ∧ (∀ a ∈ args, a.params = []) ∧ Wf {} ∧ FreshFrom {} 0 ∧ FreshFrom {} 2 ∧
      (all ⟨{}, 0, none⟩ (fun _ => true) false args [o]).found = none ∧
      (all ⟨{}, 2, none⟩ (fun _ => true) false args [o]).found = some ⟨["f_pair"], .bool⟩ := by
  intro o args
  refine ⟨?_, ?_, .empty, .empty 0, .empty 2, rfl, rfl⟩
  · simp [Scoped, o, Ty.Over, Ty.params]
  · simp [args, Ty.params]

end Trial

end ExprTyping
