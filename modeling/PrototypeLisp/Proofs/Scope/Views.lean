/-
PrototypeLisp.Proofs.Scope.Views — three views of a chain of frames.

What a name means in a frame can be found by walking outwards until a frame
binds it (`find?`, `resolve?`), by listing the frames first (`chain`), or by
merging the bindings of all these frames from the outermost one inwards
(`snapshot`). The three agree for every name, and the merged names come in the
order in which an outside reader would list them: frame by frame from the
outermost one, each name where it is new.

Frames come about by edits: a frame is created or a name is bound in one. The
history of edits is what the bindings of a frame are compared with. A frame
has the names ever bound in it, each at its first place and with its last
value.
-/
import Mathlib.Data.List.Induction
import PrototypeLisp.Proofs.Scope.Overlay

namespace PrototypeLisp

/-! ## Merged bindings -/

namespace Bindings

variable {α : Type}

/-- A name has the inner value if there is one, else the outer one. -/
theorem get?_overlay (outer : Bindings α) {inner : Bindings α} (hnodup : inner.names.Nodup)
    (name : String) :
    (outer.overlay inner).get? name = (inner.get? name).or (outer.get? name) := by
  cases hvalue : inner.get? name with
  | none =>
    have hname : name ∉ inner.names := by
      intro hmem
      have hsome := (isSome_get?_iff inner name).2 hmem
      simp [hvalue] at hsome
    simp [get?_overlay_of_not_mem hname]
  | some value =>
    obtain ⟨before, after, hinner, -⟩ := List.lookup_eq_some_iff.1 hvalue
    simp [get?_overlay_of_mem hnodup (show (name, value) ∈ inner by simp [hinner])]

/-- The outer names stay where they are, and the inner names that are new come
after them. -/
theorem names_overlay (outer : Bindings α) {inner : Bindings α} (hnodup : inner.names.Nodup) :
    (outer.overlay inner).names =
      outer.names ++ inner.names.filter fun name => decide (name ∉ outer.names) := by
  induction inner generalizing outer with
  | nil => simp [overlay, names]
  | cons binding inner ih =>
    obtain ⟨name, value⟩ := binding
    obtain ⟨hname, hnodup⟩ := List.nodup_cons.1 hnodup
    show ((outer.set name value).overlay inner).names = _
    rw [ih (outer.set name value) hnodup, names_set, names_cons]
    by_cases hmem : name ∈ outer.names
    · simp [hmem]
    · -- the new name occurs once, so it hides none of the names after it
      have hkeep : (names inner).filter (fun other => decide (other ∉ outer.names ++ [name])) =
          (names inner).filter fun other => decide (other ∉ outer.names) := by
        refine List.filter_congr fun other hother => ?_
        have hne : other ≠ name := by
          rintro rfl
          exact hname hother
        simp [hne]
      rw [if_neg hmem, hkeep]
      simp [hmem]

theorem overlay_concat (outer inner : Bindings α) (name : String) (value : α) :
    outer.overlay (inner ++ [(name, value)]) = (outer.overlay inner).set name value := by
  simp [overlay]

/-- Binding one name after the other keeps each name at its first place. -/
theorem names_overlay_nil (bindings : Bindings α) :
    (overlay [] bindings).names = bindings.names.eraseDups := by
  induction bindings using List.reverseRecOn with
  | nil => rfl
  | append_singleton bindings binding ih =>
    obtain ⟨name, value⟩ := binding
    have hnames : names (bindings ++ [(name, value)]) = names bindings ++ [name] := by
      simp [names]
    rw [overlay_concat, names_set, ih, hnames, List.eraseDups_append]
    by_cases hmem : name ∈ names bindings <;> simp [hmem, List.removeAll, List.eraseDups_cons]

/-- It leaves each name with its last value. -/
theorem get?_overlay_nil (bindings : Bindings α) (name : String) :
    (overlay [] bindings).get? name = bindings.reverse.lookup name := by
  induction bindings using List.reverseRecOn with
  | nil => rfl
  | append_singleton bindings binding ih =>
    obtain ⟨other, value⟩ := binding
    rw [overlay_concat, get?_set, ih, List.reverse_append, List.reverse_singleton,
      List.singleton_append]
    exact (get?_cons other name value bindings.reverse).symm

end Bindings

namespace Scopes

variable {α : Type}

/-! ## Histories -/

/-- One change of a collection of frames. -/
inductive Edit (α : Type) where
  /-- A new frame, perhaps inside another one. -/
  | create (outer : Option FrameId)
  /-- A name is bound in a frame. -/
  | define (frame : FrameId) (name : String) (value : α)

/-- The collections that edits lead to, starting from no frames. A new frame
has no frame around it or one that exists, and names are bound in frames that
exist. -/
inductive Built : List (Edit α) → Scopes α → Prop where
  | start : Built [] empty
  | create {edits : List (Edit α)} {s : Scopes α} {outer : Option FrameId} (h : Built edits s)
      (houter : ∀ o ∈ outer, o < s.size) : Built (edits ++ [.create outer]) (s.push outer).2
  | define {edits : List (Edit α)} {s : Scopes α} {f : FrameId} {name : String} {value : α}
      (h : Built edits s) (hf : f < s.size) :
      Built (edits ++ [.define f name value]) (s.define f name value)

/-- What an edit binds in a frame. -/
def Edit.bindingIn? (f : FrameId) : Edit α → Option (String × α)
  | .create _ => none
  | .define frame name value => if frame = f then some (name, value) else none

/-- Everything that was ever bound in a frame, in the order of the edits. -/
def defined (edits : List (Edit α)) (f : FrameId) : Bindings α :=
  edits.filterMap (Edit.bindingIn? f)

/-- The bindings of a frame are what was bound there, put one over the other. -/
theorem Built.bindings_eq {edits : List (Edit α)} {s : Scopes α} (h : Built edits s)
    (f : FrameId) : s.bindings f = Bindings.overlay [] (defined edits f) := by
  induction h with
  | start => rfl
  | @create edits s outer h houter ih =>
    have hdefined : defined (edits ++ [.create outer]) f = defined edits f := by
      simp [defined, List.filterMap_cons, Edit.bindingIn?]
    rw [bindings_push, ih, hdefined]
  | @define edits s g name value h hg ih =>
    rw [bindings_define, ih]
    by_cases hfg : g = f
    · subst hfg
      have hdefined : defined (edits ++ [.define g name value]) g =
          defined edits g ++ [(name, value)] := by
        simp [defined, Edit.bindingIn?]
      rw [if_pos ⟨rfl, hg⟩, hdefined, Bindings.overlay_concat]
    · have hdefined : defined (edits ++ [.define g name value]) f = defined edits f := by
        simp [defined, Edit.bindingIn?, hfg]
      rw [if_neg (fun hand => hfg hand.1), hdefined]

theorem Built.names_eq {edits : List (Edit α)} {s : Scopes α} (h : Built edits s)
    (f : FrameId) : (s.bindings f).names = (defined edits f).names.eraseDups := by
  rw [h.bindings_eq, Bindings.names_overlay_nil]

theorem Built.own?_eq {edits : List (Edit α)} {s : Scopes α} (h : Built edits s)
    (f : FrameId) (name : String) : s.own? f name = (defined edits f).reverse.lookup name := by
  rw [own?, h.bindings_eq, Bindings.get?_overlay_nil]

/-- No frame has a name twice. -/
theorem Built.nodup_names {edits : List (Edit α)} {s : Scopes α} (h : Built edits s)
    (f : FrameId) : (s.bindings f).names.Nodup := by
  induction h with
  | start => exact List.nodup_nil
  | create h houter ih => rwa [bindings_push]
  | define h hg ih =>
    rw [bindings_define]
    split
    · exact Bindings.nodup_names_set ih _ _
    · exact ih

/-! ## The walk outwards and the chain -/

theorem find?_eq_find?_chain (s : Scopes α) (f : FrameId) (name : String) :
    s.find? f name = (s.chain f).find? (s.contains · name) := by
  induction f using Nat.strongRecOn with
  | _ f ih =>
    rw [find?]
    by_cases hown : s.contains f name = true
    · cases ho : s.outer? f with
      | none => simp [chain_of_none ho, hown]
      | some o => simp [chain_of_some ho, hown]
    · rw [if_neg hown]
      split
      · rename_i ho
        simp [chain_of_none ho, hown]
      · rename_i o ho
        have hskip : (s.contains f name) = false := by simpa using hown
        rw [chain_of_some ho, List.find?_cons, hskip]
        exact ih o (lt_of_outer? ho)

theorem getLast?_chain (s : Scopes α) (f : FrameId) :
    (s.chain f).getLast? = some (s.root f) := by
  induction f using Nat.strongRecOn with
  | _ f ih =>
    rw [root]
    split
    · rename_i ho
      simp [chain_of_none ho]
    · rename_i o ho
      rw [chain_of_some ho, List.getLast?_cons, ih o (lt_of_outer? ho), Option.getD_some]

/-- A name is bound nowhere on the chain exactly when it means nothing. -/
theorem find?_eq_none_iff (s : Scopes α) (f : FrameId) (name : String) :
    s.find? f name = none ↔ s.resolve? f name = none := by
  constructor
  · intro hfind
    simp [resolve?, hfind]
  · intro hresolve
    cases hfind : s.find? f name with
    | none => rfl
    | some g =>
      have hfirst : (s.chain f).find? (s.contains · name) = some g := by
        rw [← find?_eq_find?_chain, hfind]
      have hbound : s.contains g name = true := by simpa using List.find?_some hfirst
      have hnone : s.own? g name = none := by simpa [resolve?, hfind] using hresolve
      simp [contains, hnone] at hbound

/-! ## The merged bindings -/

/-- The names of frames that are listed innermost first: those of the outermost
frame, and then of each frame inwards the names that are new. -/
def listed (names : FrameId → List String) : List FrameId → List String
  | [] => []
  | f :: around =>
    listed names around ++
      (names f).filter fun name => decide (name ∉ listed names around)

theorem nodup_listed {names : FrameId → List String} (h : ∀ f, (names f).Nodup)
    (frames : List FrameId) : (listed names frames).Nodup := by
  induction frames with
  | nil => exact List.nodup_nil
  | cons f around ih =>
    refine List.nodup_append.2 ⟨ih, (h f).filter _, ?_⟩
    rintro name hname other hother rfl
    simp [hname] at hother

theorem snapshot_of_none {s : Scopes α} {f : FrameId} (hf : s.outer? f = none) :
    s.snapshot f = s.bindings f := by
  rw [snapshot]
  split <;> simp_all

theorem snapshot_of_some {s : Scopes α} {f o : FrameId} (hf : s.outer? f = some o) :
    s.snapshot f = (s.snapshot o).overlay (s.bindings f) := by
  rw [snapshot]
  split <;> simp_all

/-- Looking a name up in the merged bindings is walking outwards. -/
theorem get?_snapshot {s : Scopes α} (hnodup : ∀ f, (s.bindings f).names.Nodup) (f : FrameId)
    (name : String) : (s.snapshot f).get? name = s.resolve? f name := by
  induction f using Nat.strongRecOn with
  | _ f ih =>
    rw [resolve?_eq]
    cases ho : s.outer? f with
    | none => simp [snapshot_of_none ho, own?]
    | some o =>
      rw [snapshot_of_some ho, Bindings.get?_overlay _ (hnodup f), ih o (lt_of_outer? ho)]
      rfl

theorem names_snapshot {s : Scopes α} (hnodup : ∀ f, (s.bindings f).names.Nodup)
    (f : FrameId) :
    (s.snapshot f).names = listed (fun g => (s.bindings g).names) (s.chain f) := by
  induction f using Nat.strongRecOn with
  | _ f ih =>
    cases ho : s.outer? f with
    | none => simp [snapshot_of_none ho, chain_of_none ho, listed]
    | some o =>
      rw [snapshot_of_some ho, chain_of_some ho, Bindings.names_overlay _ (hnodup f),
        ih o (lt_of_outer? ho)]
      rfl

/-! ## Binding a name -/

/-- From the frame `f` the name is looked for in the frame `g`: `g` is on the
chain of `f`, and no nearer frame binds the name. -/
def InSight (s : Scopes α) (f g : FrameId) (name : String) : Prop :=
  ∃ nearer farther, s.chain f = nearer ++ g :: farther ∧
    ∀ h ∈ nearer, s.contains h name = false

theorem chain_define (s : Scopes α) (g f : FrameId) (name : String) (value : α) :
    (s.define g name value).chain f = s.chain f := by
  induction f using Nat.strongRecOn with
  | _ f ih =>
    cases ho : s.outer? f with
    | none => rw [chain_of_none ho, chain_of_none (by rwa [outer?_define])]
    | some o =>
      rw [chain_of_some ho, chain_of_some (by rwa [outer?_define]), ih o (lt_of_outer? ho)]

/-- A name bound in sight of a frame means the new value there. -/
theorem resolve?_define_of_inSight {s : Scopes α} {f g : FrameId} (hg : g < s.size)
    {name : String} (h : s.InSight f g name) (value : α) :
    (s.define g name value).resolve? f name = some value := by
  obtain ⟨nearer, farther, hchain, hnearer⟩ := h
  rw [resolve?_eq_findSome?, chain_define, hchain]
  clear hchain
  induction nearer with
  | nil => simp [own?_define, hg]
  | cons h nearer ih =>
    obtain ⟨hfirst, hnearer⟩ := List.forall_mem_cons.1 hnearer
    rw [List.cons_append, List.findSome?_cons, own?_define]
    by_cases hgh : g = h
    · subst hgh
      simp [hg]
    · have hnone : s.own? h name = none := by simpa [contains] using hfirst
      simpa [hgh, hnone] using ih hnearer

/-- What a frame resolves changes in no other way. -/
theorem resolve?_define_of_not_inSight {s : Scopes α} {f g : FrameId} {name other : String}
    (value : α) (h : other = name → ¬ s.InSight f g name) :
    (s.define g name value).resolve? f other = s.resolve? f other := by
  rw [resolve?_eq_findSome?, resolve?_eq_findSome?, chain_define]
  unfold InSight at h
  generalize s.chain f = frames at h
  induction frames with
  | nil => rfl
  | cons first frames ih =>
    have hown : (s.define g name value).own? first other = s.own? first other := by
      rw [own?_define, if_neg]
      rintro ⟨rfl, hname, -⟩
      exact h hname ⟨[], frames, rfl, by simp⟩
    rw [List.findSome?_cons, List.findSome?_cons, hown]
    cases hfirst : s.own? first other with
    | some found => rfl
    | none =>
      -- only now does the rest of the chain count, and the first frame does not hide it
      refine ih ?_
      rintro hname ⟨nearer, farther, rfl, hnearer⟩
      subst hname
      refine h rfl ⟨first :: nearer, farther, rfl, ?_⟩
      exact List.forall_mem_cons.2 ⟨by simp [contains, hfirst], hnearer⟩

/-! ## Agreement -/

/-- After a history of edits the views of a frame's chain agree. -/
structure ViewsAgree (edits : List (Edit α)) (s : Scopes α) (f : FrameId) : Prop where
  /-- Walking outwards ends at the first frame of the chain that binds the
  name. -/
  nearest : ∀ name, s.find? f name = (s.chain f).find? (s.contains · name)
  /-- The name means what that frame has. -/
  walked : ∀ name,
    s.resolve? f name = ((s.chain f).find? (s.contains · name)).bind (s.own? · name)
  /-- It means what the merged bindings have. -/
  merged : ∀ name, s.resolve? f name = (s.snapshot f).get? name
  /-- If one view has nothing, none has. -/
  absent : ∀ name, (s.find? f name = none ↔ s.resolve? f name = none) ∧
    (s.resolve? f name = none ↔ name ∉ (s.snapshot f).names)
  /-- The merged names are distinct. -/
  distinct : (s.snapshot f).names.Nodup
  /-- They are listed from the outermost frame inwards, each where it is new
  and in the order in which its frame first had it. -/
  order : (s.snapshot f).names =
    listed (fun g => (defined edits g).names.eraseDups) (s.chain f)
  /-- The outermost frame ends the chain. -/
  root : (s.chain f).getLast? = some (s.root f)
  /-- The frame itself has the names ever bound in it, at their first
  places. -/
  places : (s.bindings f).names = (defined edits f).names.eraseDups
  /-- It has the last value of each. -/
  latest : ∀ name, s.own? f name = (defined edits f).reverse.lookup name
  /-- Binding a name in a frame changes what this one resolves only if the
  frame is on the chain and no nearer frame binds the name. -/
  shadowed : ∀ g name value other, g < s.size →
    (s.define g name value).resolve? f other ≠ s.resolve? f other →
      other = name ∧ s.InSight f g name
  /-- And then the name means the new value. -/
  seen : ∀ g name value, g < s.size → s.InSight f g name →
    (s.define g name value).resolve? f name = some value

/-- The views of every chain agree, whatever the history. -/
theorem views_agree {edits : List (Edit α)} {s : Scopes α} (h : Built edits s) (f : FrameId) :
    ViewsAgree edits s f where
  nearest name := s.find?_eq_find?_chain f name
  walked name := by rw [← find?_eq_find?_chain, resolve?]
  merged name := (get?_snapshot h.nodup_names f name).symm
  absent name := by
    refine ⟨s.find?_eq_none_iff f name, ?_⟩
    rw [← get?_snapshot h.nodup_names, ← Bindings.isSome_get?_iff]
    simp
  distinct := by
    rw [names_snapshot h.nodup_names]
    exact nodup_listed h.nodup_names _
  order := by
    rw [names_snapshot h.nodup_names]
    simp only [h.names_eq]
  root := s.getLast?_chain f
  places := h.names_eq f
  latest := h.own?_eq f
  shadowed g name value other _ hchanged := by
    by_contra hnot
    refine hchanged (resolve?_define_of_not_inSight value fun hname hsight => ?_)
    exact hnot ⟨hname, hsight⟩
  seen g name value hg hsight := resolve?_define_of_inSight hg hsight value

/-- Two frames, one inside the other. A name is hidden, and afterwards one is
bound anew and one is new outside. -/
def layered : Scopes Nat :=
  let outermost := ((empty.push none).2.define 0 "a" 1).define 0 "b" 2
  let inner := ((outermost.push (some 0)).2.define 1 "c" 3).define 1 "b" 4
  (inner.define 0 "d" 5).define 0 "a" 6

/-- The inner frame sees the outer names first, with the values that it does
not hide, and from there a further `"b"` outside would not be seen. -/
theorem views_agree_layered :
    let edits : List (Edit Nat) :=
      [.create none, .define 0 "a" 1, .define 0 "b" 2, .create (some 0), .define 1 "c" 3,
        .define 1 "b" 4, .define 0 "d" 5, .define 0 "a" 6]
    Built edits layered ∧ ViewsAgree edits layered 1 ∧
      layered.snapshot 1 = [("a", 6), ("b", 4), ("d", 5), ("c", 3)] ∧
      layered.resolve? 1 "a" = some 6 ∧
      (layered.define 0 "b" 7).resolve? 1 "b" = some 4 := by
  intro edits
  have hbuilt : Built ([] ++ [Edit.create none] ++ [.define 0 "a" 1] ++ [.define 0 "b" 2] ++
      [.create (some 0)] ++ [.define 1 "c" 3] ++ [.define 1 "b" 4] ++ [.define 0 "d" 5] ++
      [.define 0 "a" 6]) layered :=
    .define (.define (.define (.define (.create (.define (.define (.create .start
      (by decide)) (by decide)) (by decide)) (by decide)) (by decide)) (by decide)) (by decide))
      (by decide)
  have hagree : ViewsAgree edits layered 1 := views_agree hbuilt 1
  have hmerged : layered.snapshot 1 = [("a", 6), ("b", 4), ("d", 5), ("c", 3)] := by
    decide +kernel
  refine ⟨hbuilt, hagree, hmerged, ?_, by decide +kernel⟩
  rw [hagree.merged, hmerged]
  rfl

end Scopes

end PrototypeLisp
