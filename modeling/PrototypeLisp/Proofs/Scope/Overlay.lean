/-
PrototypeLisp.Proofs.Scope.Overlay — binding several names at once.

A call binds its parameters one after the other in a new frame. What a name
means there is what was bound to it last, and a name that is not bound there
means what it means in the frame around.
-/
import Mathlib.Data.List.Forall2
import PrototypeLisp.Proofs.Eval.Course

namespace PrototypeLisp

/-! ## Bindings -/

namespace Bindings

variable {α : Type}

/-- Names that are not bound anew keep their values. -/
theorem get?_overlay_of_not_mem {outer inner : Bindings α} {name : String}
    (hname : name ∉ inner.names) : (outer.overlay inner).get? name = outer.get? name := by
  induction inner generalizing outer with
  | nil => rfl
  | cons binding inner ih =>
    obtain ⟨hne, hrest⟩ := not_or.1 (mt List.mem_cons.2 hname)
    rw [overlay, List.foldl_cons]
    exact (ih hrest).trans (by rw [get?_set, if_neg hne])

/-- A name that is bound once has the value it is bound to. -/
theorem get?_overlay_of_mem {outer inner : Bindings α} (hnodup : inner.names.Nodup)
    {name : String} {value : α} (hmem : (name, value) ∈ inner) :
    (outer.overlay inner).get? name = some value := by
  induction inner generalizing outer with
  | nil => cases hmem
  | cons binding inner ih =>
    obtain ⟨hfirst, hnodup⟩ := List.nodup_cons.1 hnodup
    rw [overlay, List.foldl_cons]
    rcases List.mem_cons.1 hmem with rfl | hmem
    · exact (get?_overlay_of_not_mem hfirst).trans (by rw [get?_set, if_pos rfl])
    · exact ih hnodup hmem

theorem names_zip {names : List String} {values : List α}
    (hlength : values.length = names.length) : Bindings.names (names.zip values) = names :=
  List.map_fst_zip (Nat.le_of_eq hlength.symm)

/-- Distinct names are bound place by place. -/
theorem forall₂_get?_overlay (outer : Bindings α) {names : List String} {values : List α}
    (hlength : values.length = names.length) (hnodup : names.Nodup) :
    List.Forall₂ (fun name value => (outer.overlay (names.zip values)).get? name = some value)
      names values := by
  refine List.forall₂_iff_zip.2 ⟨hlength.symm, fun hmem => get?_overlay_of_mem ?_ hmem⟩
  rwa [names_zip hlength]

end Bindings

/-! ## Frames -/

namespace Scopes

variable {α : Type}

theorem bindings_defineAll (s : Scopes α) {f : FrameId} (hf : f < s.size)
    (bindings : Bindings α) :
    (s.defineAll f bindings).bindings f = (s.bindings f).overlay bindings := by
  induction bindings generalizing s with
  | nil => rfl
  | cons binding bindings ih =>
    have hdefine : (s.define f binding.1 binding.2).bindings f =
        (s.bindings f).set binding.1 binding.2 := by
      rw [bindings_define, if_pos ⟨rfl, hf⟩]
    refine (ih _ (by rwa [size_define])).trans ?_
    rw [hdefine]
    rfl

theorem outer?_defineAll (s : Scopes α) (f g : FrameId) (bindings : Bindings α) :
    (s.defineAll f bindings).outer? g = s.outer? g := by
  induction bindings generalizing s with
  | nil => rfl
  | cons binding bindings ih => exact (ih _).trans (s.outer?_define f g _ _)

end Scopes

/-! ## The frame of a call -/

namespace Heap

variable (h : Heap) {outer : FrameId} (ho : outer < h.scopes.size) (bindings : Bindings Value)

include ho in
theorem outer?_extended (f : FrameId) : (h.extended outer bindings).scopes.outer? f =
    if f = h.scopes.size then some outer else h.scopes.outer? f := by
  have hfilter : (some outer).filter (· < h.scopes.size) = some outer := by simp [ho]
  rw [extended, Scopes.outer?_defineAll, newFrame, Scopes.outer?_push, hfilter]

include ho in
/-- In the frames that were there already, names mean what they meant. -/
theorem resolve?_extended_of_lt {f : FrameId} (hf : f < h.scopes.size) (name : String) :
    (h.extended outer bindings).scopes.resolve? f name = h.scopes.resolve? f name := by
  induction f using Nat.strongRecOn with
  | _ f ih =>
    have hown : (h.extended outer bindings).scopes.own? f name = h.scopes.own? f name := by
      rw [Scopes.own?, Scopes.own?, bindings_extended h outer bindings hf]
    rw [Scopes.resolve?_eq, Scopes.resolve?_eq h.scopes, hown, outer?_extended h ho,
      if_neg (Nat.ne_of_lt hf)]
    cases hg : h.scopes.outer? f with
    | none => rfl
    | some g =>
      have hlt := Scopes.lt_of_outer? hg
      rw [Option.bind_some, Option.bind_some, ih g hlt (Nat.lt_trans hlt hf)]

include ho in
/-- In the new frame a name means what it is bound to there, else what it means
in the frame around. -/
theorem resolve?_extended (name : String) :
    (h.extended outer bindings).scopes.resolve? h.scopes.size name =
      ((Bindings.overlay [] bindings).get? name).or (h.scopes.resolve? outer name) := by
  have hown : (h.extended outer bindings).scopes.own? h.scopes.size name =
      (Bindings.overlay [] bindings).get? name := by
    rw [Scopes.own?, extended, Scopes.bindings_defineAll _ (by simp), bindings_scopes_newFrame,
      Scopes.bindings_of_size_le _ (Nat.le_refl _)]
  rw [Scopes.resolve?_eq, hown, outer?_extended h ho, if_pos rfl, Option.bind_some,
    resolve?_extended_of_lt h ho bindings ho]

end Heap

end PrototypeLisp
