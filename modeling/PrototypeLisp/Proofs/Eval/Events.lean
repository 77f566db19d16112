/-
PrototypeLisp.Proofs.Eval.Events — evaluation does not look at the log.

A computation is blind when the events noted before it make no difference to
what it does: it ends in the same way, changes the heap in the same way and
notes the same events on top of the earlier ones. Blind computations compose
and every operation on the store is blind, so evaluation is (`blind_eval`).
-/
import PrototypeLisp.Proofs.Eval.Compositional

namespace PrototypeLisp

namespace Eval

variable {α β : Type}

/-- An outcome with earlier events below its own. -/
def noting (events : List Event) :
    EStateM.Result Failure Store α → EStateM.Result Failure Store α
  | .ok a s => .ok a ⟨s.heap, s.events ++ events⟩
  | .error failure s => .error failure ⟨s.heap, s.events ++ events⟩

theorem noting_noting (earlier later : List Event) (r : EStateM.Result Failure Store α) :
    noting earlier (noting later r) = noting (later ++ earlier) r := by
  cases r <;> simp [noting]

/-- The events noted before make no difference. -/
def Blind (x : Eval α) : Prop :=
  ∀ h events, x ⟨h, events⟩ = noting events (x ⟨h, []⟩)

namespace Blind

theorem pure (a : α) : Blind (Pure.pure a) := fun _ _ => rfl

theorem throw (failure : Failure) : Blind (MonadExcept.throw failure : Eval α) :=
  fun _ _ => rfl

theorem heap : Blind heap := fun _ _ => rfl

theorem withHeap (change : Heap → α × Heap) : Blind (withHeap change) := fun _ _ => rfl

theorem modifyHeap (change : Heap → Heap) : Blind (modifyHeap change) := fun _ _ => rfl

theorem note (event : Event) : Blind (note event) := fun _ _ => rfl

theorem bind {x : Eval α} {y : α → Eval β} (hx : Blind x) (hy : ∀ a, Blind (y a)) :
    Blind (x >>= y) := by
  intro h events
  simp only [bind_apply]
  rw [hx h events]
  cases hr : x ⟨h, []⟩ with
  | error failure s => rfl
  | ok a s =>
    -- both sides go on from the same heap, with and without the earlier events
    show y a ⟨s.heap, s.events ++ events⟩ = noting events (y a s)
    rw [hy a s.heap (s.events ++ events), ← noting_noting, ← hy a s.heap s.events]

end Blind

theorem compositional_blind : Compositional Blind where
  pure := .pure
  throw {_ failure} _ := .throw failure
  heap := .heap
  withHeap := .withHeap
  modifyHeap := .modifyHeap
  note := .note
  bind := .bind

/-- Evaluation is blind. -/
theorem blind_eval (limit : Nat) (e : Expr) (f : FrameId) : Blind (eval limit e f) :=
  compositional_blind.eval limit e f

/-- From a store with the same heap, blind evaluation gives the same values
and the same heap. -/
theorem evalAll_of_heap_eq {recur : Evaluator} (hr : ∀ e f, Blind (recur e f)) {f : FrameId}
    {es : List Expr} {values : List Value} {s s' t : Store}
    (h : evalAll recur f es s = .ok values t) (hheap : s'.heap = s.heap) :
    ∃ t', evalAll recur f es s' = .ok values t' ∧ t'.heap = t.heap := by
  obtain ⟨heap, events⟩ := s
  obtain ⟨heap', events'⟩ := s'
  obtain rfl : heap' = heap := hheap
  have hblind := compositional_blind.evalAll hr f es
  rw [hblind heap' events] at h
  rw [hblind heap' events']
  cases hquiet : evalAll recur f es ⟨heap', []⟩ with
  | error failure u => simp [hquiet, noting] at h
  | ok values' u =>
    obtain ⟨rfl, rfl⟩ : values' = values ∧ ⟨u.heap, u.events ++ events⟩ = t := by
      simpa [hquiet, noting] using h
    exact ⟨_, rfl, rfl⟩

end Eval

end PrototypeLisp
