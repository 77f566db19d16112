/-
PrototypeLisp.Scope.Lemmas — what each operation on frames does to its views.

Bindings are viewed as a partial function from names (`get?`) and as the list
of bound names in order (`names`); frames as their own bindings (`bindings`)
and their outer links (`outer?`). Binding a name changes one value and never
the order of the names; no operation changes the outer link of a frame that
already exists.
-/
import PrototypeLisp.Scope.Basic

namespace PrototypeLisp

/-! ## Bindings -/

namespace Bindings

variable {α : Type}

@[simp] theorem get?_nil (name : String) : get? ([] : Bindings α) name = none := rfl

theorem get?_cons (other name : String) (value : α) (rest : Bindings α) :
    get? ((other, value) :: rest) name = if name = other then some value else get? rest name := by
  unfold get?
  rw [List.lookup_cons]
  by_cases h : name = other
  · subst h
    simp
  · rw [if_neg h, beq_false_of_ne h]

/-- A bound name has the value bound last; every other name keeps its value. -/
theorem get?_set (bindings : Bindings α) (name other : String) (value : α) :
    get? (set bindings name value) other =
      if other = name then some value else get? bindings other := by
  induction bindings with
  | nil => rw [set, get?_cons]
  | cons binding rest ih =>
    obtain ⟨bound, old⟩ := binding
    rw [set]
    by_cases h : bound = name
    · subst h
      rw [if_pos rfl, get?_cons, get?_cons]
      split <;> rfl
    · rw [if_neg h, get?_cons, get?_cons, ih]
      by_cases hb : other = bound
      · subst hb
        rw [if_pos rfl, if_pos rfl, if_neg h]
      · rw [if_neg hb, if_neg hb]

@[simp] theorem names_cons (name : String) (value : α) (rest : Bindings α) :
    names ((name, value) :: rest) = name :: names rest := rfl

/-- A new name comes last; a bound one keeps its place. -/
theorem names_set (bindings : Bindings α) (name : String) (value : α) :
    names (set bindings name value) =
      if name ∈ names bindings then names bindings else names bindings ++ [name] := by
  induction bindings with
  | nil => rfl
  | cons binding rest ih =>
    obtain ⟨bound, old⟩ := binding
    rw [set]
    by_cases h : bound = name
    · subst h
      simp
    · have hne : ¬ name = bound := fun h' => h h'.symm
      rw [if_neg h, names_cons, names_cons, ih]
      by_cases hm : name ∈ names rest
      · rw [if_pos hm, if_pos (List.mem_cons_of_mem _ hm)]
      · rw [if_neg hm, if_neg (by simp [hne, hm]), List.cons_append]

/-- A name is bound exactly when it has a value. -/
theorem isSome_get?_iff (bindings : Bindings α) (name : String) :
    (get? bindings name).isSome = true ↔ name ∈ names bindings := by
  induction bindings with
  | nil => simp [names]
  | cons binding rest ih =>
    obtain ⟨bound, old⟩ := binding
    rw [get?_cons, names_cons, List.mem_cons]
    by_cases h : name = bound
    · simp [h]
    · rw [if_neg h, ih]
      simp [h]

/-- Binding a name keeps the names distinct. -/
theorem nodup_names_set {bindings : Bindings α} (h : (names bindings).Nodup) (name : String)
    (value : α) : (names (set bindings name value)).Nodup := by
  rw [names_set]
  split
  · exact h
  · rename_i hn
    rw [List.nodup_append]
    refine ⟨h, by simp, ?_⟩
    intro a ha b hb hab
    simp only [List.mem_singleton] at hb
    subst hb
    subst hab
    exact hn ha

end Bindings

/-! ## Frames -/

namespace Scopes

variable {α : Type}

@[simp] theorem size_empty : (empty : Scopes α).size = 0 := rfl

@[simp] theorem size_push (s : Scopes α) (outer : Option FrameId) :
    (s.push outer).2.size = s.size + 1 := by
  simp [push, size]

@[simp] theorem fst_push (s : Scopes α) (outer : Option FrameId) :
    (s.push outer).1 = s.size := rfl

/-- A new frame has no bindings, and the others keep theirs. -/
theorem bindings_push (s : Scopes α) (outer : Option FrameId) (f : FrameId) :
    (s.push outer).2.bindings f = s.bindings f := by
  unfold bindings push
  simp only [Array.getElem?_push]
  by_cases h : f = s.frames.size
  · subst h
    simp
  · rw [if_neg h]

/-- A new frame has the outer link it was given, and the others keep theirs. -/
theorem outer?_push (s : Scopes α) (outer : Option FrameId) (f : FrameId) :
    (s.push outer).2.outer? f =
      if f = s.size then outer.filter (· < s.size) else s.outer? f := by
  unfold outer? push
  simp only [Array.getElem?_push, size]
  split <;> simp_all

@[simp] theorem size_update (s : Scopes α) (f : FrameId) (change : Bindings α → Bindings α) :
    (s.update f change).size = s.size := by
  simp [update, size]

/-- A change reaches the bindings of its own frame only. -/
theorem bindings_update (s : Scopes α) (f g : FrameId) (change : Bindings α → Bindings α) :
    (s.update f change).bindings g =
      if f = g ∧ g < s.size then change (s.bindings g) else s.bindings g := by
  unfold bindings update size
  simp only [Array.getElem?_modify]
  by_cases hg : g < s.frames.size
  · by_cases hf : f = g <;> simp [hf, hg]
  · simp [hg]

@[simp] theorem outer?_update (s : Scopes α) (f g : FrameId)
    (change : Bindings α → Bindings α) : (s.update f change).outer? g = s.outer? g := by
  unfold outer? update
  simp only [Array.getElem?_modify]
  split
  · cases s.frames[g]? <;> rfl
  · rfl

@[simp] theorem size_define (s : Scopes α) (f : FrameId) (name : String) (value : α) :
    (s.define f name value).size = s.size :=
  size_update s f _

@[simp] theorem outer?_define (s : Scopes α) (f g : FrameId) (name : String) (value : α) :
    (s.define f name value).outer? g = s.outer? g :=
  outer?_update s f g _

/-- Binding a name in a frame changes what that frame has under that name, and
nothing else. -/
theorem own?_define (s : Scopes α) (f g : FrameId) (name other : String) (value : α) :
    (s.define f name value).own? g other =
      if f = g ∧ other = name ∧ g < s.size then some value else s.own? g other := by
  unfold own? define
  rw [bindings_update]
  by_cases h : f = g ∧ g < s.size
  · rw [if_pos h, Bindings.get?_set]
    by_cases ho : other = name <;> simp [ho, h.1, h.2]
  · rw [if_neg h, if_neg]
    intro hc
    exact h ⟨hc.1, hc.2.2⟩

end Scopes

end PrototypeLisp
