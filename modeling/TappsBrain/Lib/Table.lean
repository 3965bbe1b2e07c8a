import Mathlib.Data.List.Nodup
import Mathlib.Data.List.Basic

namespace Lib
set_option autoImplicit true
set_option relaxedAutoImplicit false

/-- An insertion-ordered dictionary whose values carry their own key. -/
structure Table (keyOf : β → α) where
  values : List β
  nodup : (values.map keyOf).Nodup

namespace Table
variable {α β : Type} {keyOf : β → α}

theorem ext_values {t u : Table keyOf} (h : t.values = u.values) : t = u := by
  cases t
  cases u
  cases h
  rfl

instance [DecidableEq β] : DecidableEq (Table keyOf) := fun t u =>
  decidable_of_iff (t.values = u.values) ⟨ext_values, fun h => by rw [h]⟩

def empty : Table keyOf := ⟨[], List.nodup_nil⟩

def size (t : Table keyOf) : Nat := t.values.length

/-- Rewrite every value under its own key. -/
def mapValues (t : Table keyOf) (f : β → β) (hf : ∀ v, keyOf (f v) = keyOf v) : Table keyOf :=
  ⟨t.values.map f, by
    rw [List.map_map, show keyOf ∘ f = keyOf from funext hf]
    exact t.nodup⟩

variable [DecidableEq α]

def get? (t : Table keyOf) (k : α) : Option β := t.values.find? (fun v => keyOf v = k)

def contains (t : Table keyOf) (k : α) : Bool := (t.get? k).isSome

/-- Overwriting keeps the position of the key, as Python's `dict` does. -/
def put (keyOf : β → α) (v : β) : List β → List β
  | [] => [v]
  | w :: rest => if keyOf w = keyOf v then v :: rest else w :: put keyOf v rest

theorem mem_put {v w : β} {l : List β} (h : w ∈ put keyOf v l) : w = v ∨ w ∈ l := by
  induction l with
  | nil => exact .inl (by simpa only [put, List.mem_singleton] using h)
  | cons x rest ih =>
    simp only [put] at h
    split at h
    · rcases List.mem_cons.1 h with rfl | hr
      · exact .inl rfl
      · exact .inr (List.mem_cons_of_mem _ hr)
    · rcases List.mem_cons.1 h with rfl | hr
      · exact .inr List.mem_cons_self
      · exact (ih hr).imp id (List.mem_cons_of_mem _)

theorem nodup_put (v : β) (l : List β) (h : (l.map keyOf).Nodup) :
    ((put keyOf v l).map keyOf).Nodup := by
  induction l with
  | nil => simp only [put, List.map_cons, List.map_nil, List.nodup_singleton]
  | cons x rest ih =>
    simp only [List.map_cons, List.nodup_cons] at h
    simp only [put]
    split
    · next heq => simpa only [List.map_cons, List.nodup_cons, ← heq] using h
    · next hne =>
      simp only [List.map_cons, List.nodup_cons]
      refine ⟨fun hm => ?_, ih h.2⟩
      obtain ⟨w, hw, hk⟩ := List.mem_map.1 hm
      rcases mem_put hw with rfl | hr
      · exact hne hk.symm
      · exact h.1 (hk ▸ List.mem_map_of_mem hr)

theorem find?_put (v : β) (l : List β) (k : α) :
    (put keyOf v l).find? (fun w => keyOf w = k) =
      if keyOf v = k then some v else l.find? (fun w => keyOf w = k) := by
  induction l with
  | nil => simp only [put, List.find?_cons, List.find?_nil]; split <;> simp_all
  | cons x rest ih =>
    simp only [put]
    split
    · next heq =>
      simp only [List.find?_cons, heq]
      split <;> simp_all
    · next hne =>
      simp only [List.find?_cons, ih]
      by_cases hx : keyOf x = k
      · have hv : keyOf v ≠ k := fun hv => hne (hx.trans hv.symm)
        simp only [hx, hv, decide_true, ↓reduceIte]
      · simp only [hx, decide_false]

def set (t : Table keyOf) (v : β) : Table keyOf := ⟨put keyOf v t.values, nodup_put v _ t.nodup⟩

def pop (t : Table keyOf) (k : α) : Table keyOf :=
  ⟨t.values.filter (fun v => keyOf v ≠ k), (t.nodup.sublist (List.filter_sublist.map keyOf))⟩

def filter (t : Table keyOf) (p : β → Bool) : Table keyOf :=
  ⟨t.values.filter p, t.nodup.sublist (List.filter_sublist.map keyOf)⟩

theorem key_of_get? {t : Table keyOf} {k : α} {v : β} (h : t.get? k = some v) : keyOf v = k := by
  simpa only [decide_eq_true_eq] using List.find?_some h

theorem mem_of_get? {t : Table keyOf} {k : α} {v : β} (h : t.get? k = some v) : v ∈ t.values :=
  List.mem_of_find?_eq_some h

theorem find?_of_mem (l : List β) (h : (l.map keyOf).Nodup) {v : β} (hv : v ∈ l) :
    l.find? (fun w => keyOf w = keyOf v) = some v := by
  induction l with
  | nil => cases hv
  | cons x rest ih =>
    simp only [List.map_cons, List.nodup_cons] at h
    rcases List.mem_cons.1 hv with rfl | hr
    · simp only [List.find?_cons, decide_true]
    · have hne : keyOf x ≠ keyOf v := fun he => h.1 (he ▸ List.mem_map_of_mem hr)
      simpa only [List.find?_cons, hne, decide_false] using ih h.2 hr

theorem get?_of_mem {t : Table keyOf} {v : β} (h : v ∈ t.values) : t.get? (keyOf v) = some v :=
  find?_of_mem _ t.nodup h

theorem eq_of_key {t : Table keyOf} {v w : β} (hv : v ∈ t.values) (hw : w ∈ t.values)
    (h : keyOf v = keyOf w) : v = w :=
  Option.some.inj ((get?_of_mem hv).symm.trans ((congrArg t.get? h).trans (get?_of_mem hw)))

theorem mem_iff_get? {t : Table keyOf} {v : β} : v ∈ t.values ↔ t.get? (keyOf v) = some v :=
  ⟨get?_of_mem, mem_of_get?⟩

@[simp] theorem get?_empty (k : α) : (empty : Table keyOf).get? k = none := rfl

@[simp] theorem get?_set (t : Table keyOf) (v : β) (k : α) :
    (t.set v).get? k = if keyOf v = k then some v else t.get? k :=
  find?_put v t.values k

theorem get?_set_self (t : Table keyOf) (v : β) : (t.set v).get? (keyOf v) = some v := by
  rw [get?_set, if_pos rfl]

theorem get?_set_ne (t : Table keyOf) {v : β} {k : α} (h : keyOf v ≠ k) :
    (t.set v).get? k = t.get? k := by
  rw [get?_set, if_neg h]

theorem contains_of_mem {t : Table keyOf} {v : β} (h : v ∈ t.values) :
    t.contains (keyOf v) = true := by
  rw [contains, get?_of_mem h, Option.isSome_some]

theorem contains_set_self (t : Table keyOf) (v : β) : (t.set v).contains (keyOf v) = true := by
  rw [contains, get?_set_self, Option.isSome_some]

theorem contains_set {t : Table keyOf} {v : β} {k : α} (h : t.contains k = true) :
    (t.set v).contains k = true := by
  rw [contains, get?_set]
  split
  · rfl
  · exact h

theorem put_put {v w : β} (h : keyOf v = keyOf w) (l : List β) :
    put keyOf w (put keyOf v l) = put keyOf w l := by
  induction l with
  | nil => simp only [put, h, ↓reduceIte]
  | cons x rest ih =>
    by_cases hx : keyOf x = keyOf w
    · simp only [put, h, hx, ↓reduceIte]
    · simp only [put, h, hx, ↓reduceIte, ih]

theorem put_of_find? (v : β) (l : List β) (h : l.find? (fun w => keyOf w = keyOf v) = some v) :
    put keyOf v l = l := by
  induction l with
  | nil => cases h
  | cons x rest ih =>
    by_cases hx : keyOf x = keyOf v
    · rw [List.find?_cons_of_pos (by simpa using hx)] at h
      cases h
      simp only [put, ↓reduceIte]
    · rw [List.find?_cons_of_neg (by simpa using hx)] at h
      simp only [put, hx, ↓reduceIte, ih h]

/-- Of two values set under one key the later stays. -/
theorem set_set (t : Table keyOf) {v w : β} (h : keyOf v = keyOf w) : (t.set v).set w = t.set w :=
  ext_values (put_put h t.values)

theorem set_of_get? {t : Table keyOf} {v : β} (h : t.get? (keyOf v) = some v) : t.set v = t :=
  ext_values (put_of_find? v t.values h)

theorem find?_drop (j k : α) (l : List β) :
    (l.filter (fun v => keyOf v ≠ j)).find? (fun v => keyOf v = k) =
      if j = k then none else l.find? (fun v => keyOf v = k) := by
  induction l with
  | nil => simp only [List.filter_nil, List.find?_nil, ite_self]
  | cons x rest ih =>
    by_cases hx : keyOf x = j
    · rw [List.filter_cons_of_neg (by simpa using hx), ih]
      split
      · rfl
      · next h => rw [List.find?_cons_of_neg (by simpa [hx] using h)]
    · rw [List.filter_cons_of_pos (by simpa using hx)]
      by_cases hk : keyOf x = k
      · have hj : j ≠ k := fun h => hx (hk.trans h.symm)
        simp only [List.find?_cons, hk, decide_true, hj, ↓reduceIte]
      · simp only [List.find?_cons, hk, decide_false, ih]

@[simp] theorem get?_pop (t : Table keyOf) (j k : α) :
    (t.pop j).get? k = if j = k then none else t.get? k :=
  find?_drop j k t.values

theorem get?_pop_ne (t : Table keyOf) {j k : α} (h : j ≠ k) : (t.pop j).get? k = t.get? k := by
  rw [get?_pop, if_neg h]

/-- Putting back what was popped changes nothing that `get?` sees. -/
theorem get?_set_pop {t : Table keyOf} {v : β} (h : t.get? (keyOf v) = some v) (k : α) :
    ((t.pop (keyOf v)).set v).get? k = t.get? k := by
  rw [get?_set, get?_pop]
  split
  · next heq => rw [← heq, h]
  · rfl

theorem find?_filter (p : β → Bool) (k : α) (l : List β) (h : (l.map keyOf).Nodup) :
    (l.filter p).find? (fun v => keyOf v = k) = (l.find? (fun v => keyOf v = k)).filter p := by
  induction l with
  | nil => rfl
  | cons x rest ih =>
    simp only [List.map_cons, List.nodup_cons] at h
    by_cases hk : keyOf x = k
    · have hrest : rest.find? (fun v => keyOf v = k) = none := by
        rw [List.find?_eq_none]
        intro v hv hvk
        exact h.1 (hk.trans (by simpa using hvk : keyOf v = k).symm ▸ List.mem_map_of_mem hv)
      rw [List.find?_cons_of_pos (by simpa using hk), Option.filter_some]
      cases hp : p x with
      | true =>
        rw [List.filter_cons_of_pos hp, List.find?_cons_of_pos (by simpa using hk), if_pos rfl]
      | false =>
        rw [List.filter_cons_of_neg (by simp [hp]), ih h.2, hrest]
        rfl
    · rw [List.find?_cons_of_neg (by simpa using hk)]
      cases hp : p x with
      | true =>
        rw [List.filter_cons_of_pos hp, List.find?_cons_of_neg (by simpa using hk), ih h.2]
      | false => rw [List.filter_cons_of_neg (by simp [hp]), ih h.2]

@[simp] theorem get?_filter (t : Table keyOf) (p : β → Bool) (k : α) :
    (t.filter p).get? k = (t.get? k).filter p :=
  find?_filter p k t.values t.nodup

theorem find?_map (f : β → β) (hf : ∀ v, keyOf (f v) = keyOf v) (k : α) (l : List β) :
    (l.map f).find? (fun v => keyOf v = k) = (l.find? (fun v => keyOf v = k)).map f := by
  rw [List.find?_map]
  congr 2
  funext v
  simp only [Function.comp_apply, hf]

@[simp] theorem get?_mapValues (t : Table keyOf) (f : β → β) (hf : ∀ v, keyOf (f v) = keyOf v)
    (k : α) : (t.mapValues f hf).get? k = (t.get? k).map f :=
  find?_map f hf k t.values

theorem mem_set {t : Table keyOf} {v w : β} (h : w ∈ (t.set v).values) : w = v ∨ w ∈ t.values :=
  mem_put h

theorem mem_pop {t : Table keyOf} {k : α} {w : β} (h : w ∈ (t.pop k).values) : w ∈ t.values :=
  List.mem_of_mem_filter h

theorem mem_set_self (t : Table keyOf) (v : β) : v ∈ (t.set v).values :=
  mem_of_get? (get?_set_self t v)

theorem mem_set_of_ne {t : Table keyOf} {v w : β} (hw : w ∈ t.values) (h : keyOf w ≠ keyOf v) :
    w ∈ (t.set v).values := by
  rw [mem_iff_get?, get?_set_ne t (Ne.symm h)]
  exact get?_of_mem hw

theorem mem_pop_of_ne {t : Table keyOf} {k : α} {w : β} (hw : w ∈ t.values) (h : keyOf w ≠ k) :
    w ∈ (t.pop k).values := by
  rw [mem_iff_get?, get?_pop_ne t (Ne.symm h)]
  exact get?_of_mem hw

theorem ne_of_mem_pop {t : Table keyOf} {k : α} {w : β} (h : w ∈ (t.pop k).values) :
    keyOf w ≠ k := by
  simpa using List.of_mem_filter h

theorem put_of_fresh {v : β} {l : List β} (h : l.find? (fun w => keyOf w = keyOf v) = none) :
    put keyOf v l = l ++ [v] := by
  induction l with
  | nil => rfl
  | cons x rest ih =>
    rw [List.find?_cons] at h
    split at h
    · cases h
    · next hx =>
      have hne : keyOf x ≠ keyOf v := by simpa using hx
      simp only [put, hne, ↓reduceIte, ih h, List.cons_append]

/-- A new key goes to the end. -/
theorem values_set_of_fresh {t : Table keyOf} {v : β} (h : t.get? (keyOf v) = none) :
    (t.set v).values = t.values ++ [v] :=
  put_of_fresh h

/-- New keys, each other's included, go to the end in order. -/
theorem values_foldl_set {l : List β} {t : Table keyOf} (h : ((t.values ++ l).map keyOf).Nodup) :
    (l.foldl set t).values = t.values ++ l := by
  induction l generalizing t with
  | nil => exact (List.append_nil _).symm
  | cons v rest ih =>
    have hfresh : t.get? (keyOf v) = none := by
      rw [List.map_append, List.map_cons] at h
      apply List.find?_eq_none.2
      intro w hw heq
      rw [decide_eq_true_eq] at heq
      have hmem : keyOf v ∈ t.values.map keyOf := by
        rw [← heq]
        exact List.mem_map_of_mem hw
      exact (List.nodup_append.1 h).2.2 _ hmem _ List.mem_cons_self rfl
    have hvalues := values_set_of_fresh hfresh
    rw [List.foldl_cons, ih, hvalues, List.append_assoc, List.singleton_append]
    rwa [hvalues, List.append_assoc, List.singleton_append]

/-- The rows of `t` overwritten by those of `u`. -/
def merge (t u : Table keyOf) : Table keyOf := u.values.foldl set t

theorem get?_foldl_set (l : List β) (h : (l.map keyOf).Nodup) (t : Table keyOf) (k : α) :
    (l.foldl set t).get? k = (l.find? (fun v => keyOf v = k)).or (t.get? k) := by
  induction l generalizing t with
  | nil => rfl
  | cons v rest ih =>
    rw [List.map_cons, List.nodup_cons] at h
    rw [List.foldl_cons, ih h.2, get?_set]
    by_cases hk : keyOf v = k
    · rw [List.find?_cons_of_pos (by simpa using hk), if_pos hk]
      have hrest : rest.find? (fun w => keyOf w = k) = none := by
        rw [List.find?_eq_none]
        intro w hw hwk
        exact h.1 (hk.trans (by simpa using hwk : keyOf w = k).symm ▸ List.mem_map_of_mem hw)
      rw [hrest]
      rfl
    · rw [List.find?_cons_of_neg (by simpa using hk), if_neg hk]

@[simp] theorem get?_merge (t u : Table keyOf) (k : α) :
    (t.merge u).get? k = (u.get? k).or (t.get? k) :=
  get?_foldl_set u.values u.nodup t k

theorem mem_merge {t u : Table keyOf} {v : β} :
    v ∈ (t.merge u).values ↔ v ∈ u.values ∨ v ∈ t.values ∧ u.get? (keyOf v) = none := by
  simp only [mem_iff_get?, get?_merge]
  cases hu : u.get? (keyOf v) with
  | none => simp only [Option.none_or, reduceCtorEq, false_or, and_true]
  | some w => simp only [Option.some_or, Option.some.injEq, reduceCtorEq, and_false, or_false]

theorem filter_put {p : β → Bool} {v : β} {l : List β}
    (h : ∀ w ∈ l, keyOf w = keyOf v → p w = p v) :
    (put keyOf v l).filter p = if p v then put keyOf v (l.filter p) else l.filter p := by
  induction l with
  | nil =>
    simp only [put]
    exact List.filter_cons
  | cons x rest ih =>
    have hrest := ih (fun w hw => h w (List.mem_cons_of_mem x hw))
    by_cases hx : keyOf x = keyOf v
    · have hp : p x = p v := h x List.mem_cons_self hx
      cases hv : p v with
      | true => simp only [put, hx, ↓reduceIte, List.filter_cons, hp, hv]
      | false => simp only [put, hx, ↓reduceIte, List.filter_cons, hp, hv, Bool.false_eq_true]
    · cases hp : p x with
      | true =>
        simp only [put, hx, ↓reduceIte, List.filter_cons, hp, hrest]
        split <;> rfl
      | false =>
        simp only [put, hx, ↓reduceIte, List.filter_cons, hp, hrest, Bool.false_eq_true]

/-- A filter that does not tell a new value from the one it replaces. -/
theorem filter_set {p : β → Bool} {t : Table keyOf} {v : β}
    (h : ∀ w ∈ t.values, keyOf w = keyOf v → p w = p v) :
    (t.set v).filter p = if p v then (t.filter p).set v else t.filter p := by
  apply ext_values
  rw [show ((t.set v).filter p).values = (put keyOf v t.values).filter p from rfl, filter_put h]
  split <;> rfl

omit [DecidableEq α] in
theorem filter_filter (p q : β → Bool) (t : Table keyOf) :
    (t.filter p).filter q = t.filter (fun v => q v && p v) :=
  ext_values (by simpa only [filter] using List.filter_filter)

theorem get?_foldl_pop (ks : List α) (t : Table keyOf) (k : α) :
    (ks.foldl pop t).get? k = if k ∈ ks then none else t.get? k := by
  induction ks generalizing t with
  | nil => simp only [List.foldl_nil, List.not_mem_nil, ↓reduceIte]
  | cons j rest ih =>
    rw [List.foldl_cons, ih, get?_pop]
    by_cases hk : k ∈ rest
    · simp only [hk, List.mem_cons, or_true, ↓reduceIte]
    · simp only [hk, List.mem_cons, or_false, ↓reduceIte, eq_comm]

end Table
end Lib
