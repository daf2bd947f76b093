import ExprTyping.Bindings.Basic

namespace ExprTyping.Ty

@[elab_as_elim, induction_eliminator]
theorem induction {motive : Ty → Prop}
    (prim : ∀ p, motive (.prim p)) (wellKnown : ∀ w, motive (.wellKnown w)) (null : motive .null)
    (dyn : motive .dyn) (error : motive .error) (type : motive .type)
    (typeOf : ∀ t, motive t → motive (.typeOf t)) (wrapper : ∀ p, motive (.wrapper p))
    (list : ∀ t, motive t → motive (.list t))
    (map : ∀ k v, motive k → motive v → motive (.map k v)) (message : ∀ n, motive (.message n))
    (abstract : ∀ n ts, (∀ t ∈ ts, motive t) → motive (.abstract n ts))
    (function : ∀ r ts, motive r → (∀ t ∈ ts, motive t) → motive (.function r ts))
    (param : ∀ n, motive (.param n)) (t : Ty) : motive t :=
  Ty.rec prim wellKnown null dyn error type typeOf wrapper list map message abstract function param
    (by simp) (fun t ts ht hts => by simpa using ⟨ht, hts⟩) t

mutual
def params : Ty → List String
  | param n => [n]
  | typeOf t => t.params
  | list t => t.params
  | map k v => k.params ++ v.params
  | abstract _ ts => paramsAll ts
  | function r ts => r.params ++ paramsAll ts
  | _ => []

def paramsAll : List Ty → List String
  | [] => []
  | t :: ts => t.params ++ paramsAll ts
end

mutual
def inst (σ : String → Ty) : Ty → Ty
  | param n => σ n
  | typeOf t => typeOf (t.inst σ)
  | list t => list (t.inst σ)
  | map k v => map (k.inst σ) (v.inst σ)
  | abstract n ts => abstract n (instAll σ ts)
  | function r ts => function (r.inst σ) (instAll σ ts)
  | t => t

def instAll (σ : String → Ty) : List Ty → List Ty
  | [] => []
  | t :: ts => t.inst σ :: instAll σ ts
end

def children : Ty → List Ty
  | typeOf t => [t]
  | wrapper p => [prim p]
  | list t => [t]
  | map k v => [k, v]
  | abstract _ ts => ts
  | function r ts => ts ++ [r]
  | _ => []

def isAtom : Ty → Bool
  | typeOf _ | list _ | map _ _ | abstract _ _ | function _ _ | param _ => false
  | _ => true

-- makes the equations once, before the lemmas below ask for them
attribute [local simp] params paramsAll inst instAll

theorem mem_paramsAll {n : String} {ts : List Ty} :
    n ∈ paramsAll ts ↔ ∃ t ∈ ts, n ∈ t.params := by
  induction ts with
  | nil => simp [paramsAll]
  | cons t ts ih => simp [paramsAll, ih]

@[simp] theorem instAll_eq_map (σ : String → Ty) (ts : List Ty) :
    instAll σ ts = ts.map (inst σ) := by
  induction ts with
  | nil => rfl
  | cons t ts ih => simp [instAll, ih]

@[simp] theorem replaceAll_eq_map (f : Ty → Option Ty) (ts : List Ty) :
    replaceAll f ts = ts.map (replace f) := by
  induction ts with
  | nil => rfl
  | cons t ts ih => simp [replaceAll, ih]

@[simp] theorem partOfAny_eq_any (x : Ty) (inside : String → Bool) (ts : List Ty) :
    x.partOfAny inside ts = ts.any (x.partOf inside) := by
  induction ts with
  | nil => rfl
  | cons t ts ih => simp [partOfAny, ih]

theorem sizeAll_append (ts us : List Ty) : sizeAll (ts ++ us) = sizeAll ts + sizeAll us := by
  induction ts with
  | nil => simp [sizeAll]
  | cons t ts ih => simp [sizeAll, ih]; omega

theorem size_le_sizeAll {t : Ty} {ts : List Ty} (h : t ∈ ts) : t.size ≤ sizeAll ts := by
  induction ts with
  | nil => simp at h
  | cons u us ih =>
    rcases List.mem_cons.1 h with rfl | h
    · simp [sizeAll]
    · have := ih h
      simp only [sizeAll]
      omega

theorem sizeAll_children (t : Ty) : sizeAll t.children + 1 = t.size := by
  cases t <;> simp [children, size, sizeAll, sizeAll_append]

theorem size_lt_of_mem_children {c t : Ty} (h : c ∈ t.children) : c.size < t.size := by
  have := size_le_sizeAll h
  have := sizeAll_children t
  omega

theorem isParam_iff {t : Ty} : t.isParam = true ↔ ∃ p, t = .param p := by
  cases t <;> simp [isParam]

theorem ne_param {t : Ty} (h : t.isParam = false) (p : String) : t ≠ .param p := by
  rintro rfl
  cases h

theorem isParam_eq_false_of_closed {t : Ty} (h : t.params = []) : t.isParam = false := by
  cases t <;> simp_all [isParam]

theorem mem_params_iff {n : String} {t : Ty} :
    n ∈ t.params ↔ t = .param n ∨ ∃ c ∈ t.children, n ∈ c.params := by
  cases t <;> simp [params, children, mem_paramsAll, or_and_right, exists_or, or_comm, eq_comm]

theorem mem_params_of_mem_children {n : String} {c t : Ty} (hc : c ∈ t.children)
    (hn : n ∈ c.params) : n ∈ t.params :=
  mem_params_iff.2 (.inr ⟨c, hc, hn⟩)

theorem inst_congr {σ τ : String → Ty} {t : Ty} (h : ∀ n ∈ t.params, σ n = τ n) :
    t.inst σ = t.inst τ := by
  induction t with
  | typeOf t ih => simp [inst, ih h]
  | list t ih => simp [inst, ih h]
  | map k v ihk ihv =>
    simp only [params, List.mem_append] at h
    simp [inst, ihk fun n hn => h n (.inl hn), ihv fun n hn => h n (.inr hn)]
  | abstract n ts ih =>
    simp only [params, mem_paramsAll] at h
    simp only [inst, instAll_eq_map, abstract.injEq, true_and]
    exact List.map_congr_left fun t ht => ih t ht fun n hn => h n ⟨t, ht, hn⟩
  | function r ts ihr ih =>
    simp only [params, List.mem_append, mem_paramsAll] at h
    simp only [inst, instAll_eq_map, function.injEq, ihr fun n hn => h n (.inl hn), true_and]
    exact List.map_congr_left fun t ht => ih t ht fun n hn => h n (.inr ⟨t, ht, hn⟩)
  | param n => exact h n (by simp [params])
  | _ => rfl

theorem inst_inst (σ τ : String → Ty) (t : Ty) :
    (t.inst σ).inst τ = t.inst fun n => (σ n).inst τ := by
  induction t with
  | typeOf t ih => simp [inst, ih]
  | list t ih => simp [inst, ih]
  | map k v ihk ihv => simp [inst, ihk, ihv]
  | abstract n ts ih => simpa [inst] using ih
  | function r ts ihr ih => simpa [inst, ihr] using ih
  | _ => rfl

@[simp] theorem inst_param (t : Ty) : t.inst param = t := by
  induction t with
  | typeOf t ih => simp [inst, ih]
  | list t ih => simp [inst, ih]
  | map k v ihk ihv => simp [inst, ihk, ihv]
  | abstract n ts ih =>
    rw [inst, instAll_eq_map, List.map_congr_left ih, List.map_id']
  | function r ts ihr ih =>
    rw [inst, instAll_eq_map, ihr, List.map_congr_left ih, List.map_id']
  | _ => rfl

theorem inst_eq_self {t : Ty} (h : t.params = []) (σ : String → Ty) : t.inst σ = t := by
  calc t.inst σ = t.inst param := inst_congr (by simp [h])
    _ = t := inst_param t

theorem inst_of_isAtom {t : Ty} (h : t.isAtom = true) (σ : String → Ty) : t.inst σ = t := by
  cases t <;> simp_all [isAtom, inst]

theorem mem_params_inst {n : String} {σ : String → Ty} {t : Ty} :
    n ∈ (t.inst σ).params ↔ ∃ k ∈ t.params, n ∈ (σ k).params := by
  induction t with
  | typeOf t ih => simpa [inst, params] using ih
  | list t ih => simpa [inst, params] using ih
  | map k v ihk ihv => simp [inst, params, ihk, ihv, or_and_right, exists_or]
  | abstract m ts ih =>
    simp only [inst, params, instAll_eq_map, mem_paramsAll, List.mem_map]
    grind
  | function r ts ihr ih =>
    simp only [inst, params, instAll_eq_map, mem_paramsAll, List.mem_map, List.mem_append]
    grind
  | _ => simp [inst, params]

theorem children_inst {t : Ty} (ht : t.isParam = false) (σ : String → Ty) :
    (t.inst σ).children = t.children.map (inst σ) := by
  cases t <;> simp_all [children, inst, isParam]

theorem inst_mem_children {σ : String → Ty} {c t : Ty} (h : c ∈ t.children) :
    c.inst σ ∈ (t.inst σ).children := by
  have ht : t.isParam = false := by cases t <;> simp_all [children, isParam]
  rw [children_inst ht]
  exact List.mem_map_of_mem h

section Parts

mutual
/-- A type with all types it is made of, one for each unit of its size. -/
def parts : Ty → List Ty
  | typeOf t => typeOf t :: t.parts
  | wrapper p => [wrapper p, prim p]
  | list t => list t :: t.parts
  | map k v => map k v :: (k.parts ++ v.parts)
  | abstract n ts => abstract n ts :: partsAll ts
  | function r ts => function r ts :: (partsAll ts ++ r.parts)
  | t => [t]

def partsAll : List Ty → List Ty
  | [] => []
  | t :: ts => t.parts ++ partsAll ts
end

theorem mem_partsAll {x : Ty} {ts : List Ty} : x ∈ partsAll ts ↔ ∃ t ∈ ts, x ∈ t.parts := by
  induction ts with
  | nil => simp [partsAll]
  | cons t ts ih => simp [partsAll, ih]

theorem partsAll_append (ts us : List Ty) : partsAll (ts ++ us) = partsAll ts ++ partsAll us := by
  induction ts with
  | nil => rfl
  | cons t ts ih => simp [partsAll, ih]

theorem parts_eq (t : Ty) : t.parts = t :: partsAll t.children := by
  cases t <;> simp [parts, children, partsAll, partsAll_append]

theorem length_partsAll_of {ts : List Ty} (h : ∀ t ∈ ts, t.parts.length = t.size) :
    (partsAll ts).length = sizeAll ts := by
  induction ts with
  | nil => rfl
  | cons t ts ih =>
    simp only [List.forall_mem_cons] at h
    simp [partsAll, sizeAll, h.1, ih h.2]

theorem length_parts (t : Ty) : t.parts.length = t.size := by
  induction t using WellFounded.induction (measure Ty.size).wf with
  | _ t ih =>
    rw [parts_eq, List.length_cons, length_partsAll_of, sizeAll_children]
    exact fun c hc => ih c (size_lt_of_mem_children hc)

theorem length_partsAll (ts : List Ty) : (partsAll ts).length = sizeAll ts :=
  length_partsAll_of fun t _ => length_parts t

theorem mem_parts_self (t : Ty) : t ∈ t.parts := by
  rw [parts_eq]
  exact List.mem_cons_self

theorem mem_parts_of_mem_children {x c t : Ty} (hc : c ∈ t.children) (hx : x ∈ c.parts) :
    x ∈ t.parts := by
  rw [parts_eq]
  exact List.mem_cons_of_mem _ (mem_partsAll.2 ⟨c, hc, hx⟩)

theorem children_mem_parts {t x c : Ty} (hx : x ∈ t.parts) (hc : c ∈ x.children) :
    c ∈ t.parts := by
  induction t using WellFounded.induction (measure Ty.size).wf with
  | _ t ih =>
    rw [parts_eq, List.mem_cons, mem_partsAll] at hx
    rcases hx with rfl | ⟨d, hd, hx⟩
    · exact mem_parts_of_mem_children hc (mem_parts_self c)
    · exact mem_parts_of_mem_children hd (ih d (size_lt_of_mem_children hd) hx)

theorem children_mem_partsAll {x c : Ty} {ts : List Ty} (hx : x ∈ partsAll ts)
    (hc : c ∈ x.children) : c ∈ partsAll ts := by
  rw [mem_partsAll] at hx ⊢
  obtain ⟨t, ht, hx⟩ := hx
  exact ⟨t, ht, children_mem_parts hx hc⟩

theorem mem_parts_inst {x t : Ty} {σ : String → Ty} (hx : x.isAtom = true)
    (h : x ∈ (t.inst σ).parts) : x ∈ t.parts ∨ ∃ p ∈ t.params, x ∈ (σ p).parts := by
  induction t using WellFounded.induction (measure Ty.size).wf with
  | _ t ih =>
    cases hp : t.isParam with
    | true =>
      obtain ⟨p, rfl⟩ := isParam_iff.1 hp
      exact .inr ⟨p, by simp [params], h⟩
    | false =>
      rw [parts_eq, List.mem_cons, mem_partsAll, children_inst hp] at h
      rcases h with rfl | ⟨c', hc', h⟩
      · have ht : t.inst σ = t := by cases t <;> simp_all [isAtom, inst, isParam]
        rw [ht]
        exact .inl (mem_parts_self t)
      · obtain ⟨c, hc, rfl⟩ := List.mem_map.1 hc'
        refine (ih c (size_lt_of_mem_children hc) h).imp (mem_parts_of_mem_children hc) ?_
        exact fun ⟨p, hp, hx⟩ => ⟨p, mem_params_of_mem_children hc hp, hx⟩

end Parts

end ExprTyping.Ty
