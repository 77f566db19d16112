/-
PrototypeLisp.Proofs.Heap.Prototype — prototype chains on any graph of links.

Every object has at most one prototype link, but the links may run in cycles,
share prototypes and lead to values that are no objects. `IsPrototypeChain`
says what the chain of an object is on any such graph; one list only fits it,
and it is the one that the walk over the objects not yet seen gives
(`isPrototypeChain`). A chain is cut where it would repeat an object, and
nothing is lost by that: it has all objects that can be reached
(`mem_prototypeChain_iff`).

A member is found in the first object of the chain that has it, or in the
scopes around the receiver (`Found`).
-/
import Mathlib.Data.List.Chain
import Mathlib.Data.List.Perm.Subperm
import Mathlib.Logic.Relation
import PrototypeLisp.Proofs.Heap.WellFormed

namespace PrototypeLisp.Heap

/-! ## Links -/

/-- The prototype link of the first object leads to the second. -/
def Links (h : Heap) (o p : ObjectId) : Prop :=
  h.member? o prototypeName = some (.object p)

theorem prototypeOf?_eq_some_iff (h : Heap) (o p : ObjectId) :
    h.prototypeOf? o = some p ↔ h.Links o p := by
  unfold prototypeOf? Links
  cases h.member? o prototypeName with
  | none => simp
  | some v => cases v <;> simp [Value.asObject?]

theorem Links.unique {h : Heap} {o p q : ObjectId} (hp : h.Links o p) (hq : h.Links o q) :
    p = q :=
  Value.object.inj (Option.some.inj (hp.symm.trans hq))

/-- An object that does not exist links to nothing. -/
theorem Links.lt_size_left {h : Heap} {o p : ObjectId} (hp : h.Links o p) :
    o < h.objects.size := by
  obtain ⟨f, hf, -⟩ := Option.bind_eq_some_iff.1 hp
  exact (h.frameOf?_isSome_iff o).1 ⟨f, hf⟩

theorem Links.lt_size {h : Heap} (hw : h.WellFormed) {o p : ObjectId} (hp : h.Links o p) :
    p < h.objects.size :=
  hw.member?_allocated hp

/-! ## Chains -/

/-- Why a chain ends at an object. -/
inductive ChainEnd (h : Heap) (chain : List ObjectId) (o : ObjectId) : Prop where
  /-- The object has no prototype link. -/
  | absent (hm : h.member? o prototypeName = none)
  /-- Its link leads to no object. -/
  | noObject {v : Value} (hm : h.member? o prototypeName = some v) (hv : ∀ p, v ≠ .object p)
  /-- Its link leads back into the chain. -/
  | listed {p : ObjectId} (hm : h.member? o prototypeName = some (.object p)) (hp : p ∈ chain)

/-- The list is the prototype chain of the object. -/
structure IsPrototypeChain (h : Heap) (r : ObjectId) (chain : List ObjectId) : Prop where
  /-- It starts with the object. -/
  head : chain.head? = some r
  /-- No object is listed twice. -/
  nodup : chain.Nodup
  /-- Every object is followed by its prototype. -/
  linked : chain.IsChain h.Links
  /-- It ends where there is nothing to go on with. -/
  ended : ∀ o ∈ chain.getLast?, h.ChainEnd chain o

theorem chainEnd_of_links {h : Heap} {chain : List ObjectId} {o : ObjectId}
    (hlisted : ∀ p, h.Links o p → p ∈ chain) : h.ChainEnd chain o := by
  cases hm : h.member? o prototypeName with
  | none => exact .absent hm
  | some v =>
    cases v with
    | object p => exact .listed hm (hlisted p hm)
    | number _ | atom _ | null | function _ => exact .noObject hm (by simp)

theorem ChainEnd.mem {h : Heap} {chain : List ObjectId} {o p : ObjectId}
    (he : h.ChainEnd chain o) (hp : h.Links o p) : p ∈ chain := by
  cases he with
  | absent hm => exact absurd (hm.symm.trans hp) (by simp)
  | noObject hm hv => exact absurd (Option.some.inj (hm.symm.trans hp)) (hv p)
  | listed hm hq => rwa [hp.unique hm]

/-! ## The walk over unseen objects -/

section

variable {h : Heap} {unseen : List ObjectId} {o : ObjectId}

theorem chainFrom_subset : h.chainFrom unseen o ⊆ unseen := by
  fun_induction chainFrom h unseen o with
  | case1 unseen o hmem hnone => simpa using hmem
  | case2 unseen o hmem next hnext ih =>
    exact List.cons_subset.2 ⟨hmem, fun p hp => List.mem_of_mem_erase (ih hp)⟩
  | case3 unseen o hmem => simp

/-- The walk starts with its object, if that is unseen. -/
theorem head?_chainFrom :
    (h.chainFrom unseen o).head? = if o ∈ unseen then some o else none := by
  rw [chainFrom]
  by_cases hmem : o ∈ unseen
  · rw [dif_pos hmem, if_pos hmem]
    split <;> rfl
  · rw [dif_neg hmem, if_neg hmem]
    rfl

theorem nodup_chainFrom (hunseen : unseen.Nodup) : (h.chainFrom unseen o).Nodup := by
  fun_induction chainFrom h unseen o with
  | case1 unseen o hmem hnone => simp
  | case2 unseen o hmem next hnext ih =>
    refine List.nodup_cons.2 ⟨fun hagain => ?_, ih (hunseen.erase o)⟩
    exact hunseen.not_mem_erase (chainFrom_subset hagain)
  | case3 unseen o hmem => simp

theorem isChain_chainFrom : (h.chainFrom unseen o).IsChain h.Links := by
  fun_induction chainFrom h unseen o with
  | case1 unseen o hmem hnone => simp
  | case2 unseen o hmem next hnext ih =>
    refine ih.cons fun p hp => ?_
    rw [head?_chainFrom, Option.mem_def, Option.ite_none_right_eq_some] at hp
    obtain ⟨-, hp⟩ := hp
    obtain rfl := Option.some.inj hp
    exact (prototypeOf?_eq_some_iff h o next).1 hnext
  | case3 unseen o hmem => simp

/-- Nothing unseen is left out that an object on the walk links to. -/
theorem links_mem_chainFrom {q p : ObjectId} (hq : q ∈ h.chainFrom unseen o)
    (hp : h.Links q p) (hunseen : p ∈ unseen) : p ∈ h.chainFrom unseen o := by
  fun_induction chainFrom h unseen o with
  | case1 unseen o hmem hnone =>
    obtain rfl := List.mem_singleton.1 hq
    rw [(prototypeOf?_eq_some_iff h q p).2 hp] at hnone
    simp at hnone
  | case2 unseen o hmem next hnext ih =>
    by_cases hpo : p = o
    · exact hpo ▸ List.mem_cons_self
    · have hrest : p ∈ unseen.erase o := (List.mem_erase_of_ne hpo).2 hunseen
      refine List.mem_cons_of_mem _ ?_
      rcases List.mem_cons.1 hq with rfl | hq
      · -- the link of the first object is where the rest of the walk starts
        obtain rfl := hp.unique ((prototypeOf?_eq_some_iff h q next).1 hnext)
        refine List.mem_of_mem_head? ?_
        rw [head?_chainFrom, if_pos hrest]
        rfl
      · exact ih hq hrest
  | case3 unseen o hmem => simp at hq

end

/-! ## The chain of an object -/

theorem links_mem_prototypeChain {h : Heap} (hw : h.WellFormed) {r q p : ObjectId}
    (hq : q ∈ h.prototypeChain r) (hp : h.Links q p) : p ∈ h.prototypeChain r :=
  links_mem_chainFrom hq hp (List.mem_range.2 (hp.lt_size hw))

/-- The walk over all objects gives the prototype chain, whatever cycles the
links run in. -/
theorem isPrototypeChain {h : Heap} (hw : h.WellFormed) {r : ObjectId}
    (hr : r < h.objects.size) : h.IsPrototypeChain r (h.prototypeChain r) where
  head := by rw [prototypeChain, head?_chainFrom, if_pos (List.mem_range.2 hr)]
  nodup := nodup_chainFrom List.nodup_range
  linked := isChain_chainFrom
  ended o ho := by
    refine chainEnd_of_links fun p hp => ?_
    exact links_mem_prototypeChain hw (List.mem_of_mem_getLast? ho) hp

/-- The walk makes at most one step for each object there is. -/
theorem length_prototypeChain_le (h : Heap) (r : ObjectId) :
    (h.prototypeChain r).length ≤ h.objects.size := by
  have hnodup : (h.prototypeChain r).Nodup := nodup_chainFrom List.nodup_range
  have hlength := (List.subperm_of_subset hnodup chainFrom_subset).length_le
  rwa [List.length_range] at hlength

namespace IsPrototypeChain

variable {h : Heap} {r o p : ObjectId} {seen rest rest' chain chain' : List ObjectId}

theorem links (hc : h.IsPrototypeChain r (seen ++ o :: p :: rest)) : h.Links o p :=
  (List.isChain_append_cons_cons.1 hc.linked).2.1

/-- A chain that goes on does not end before. -/
theorem not_ended (hc : h.IsPrototypeChain r (seen ++ o :: p :: rest)) :
    ¬ h.IsPrototypeChain r (seen ++ [o]) := by
  intro hend
  have hmem : p ∈ seen ++ [o] := (hend.ended o (by simp)).mem hc.links
  have hnodup := hc.nodup
  rw [List.append_cons, List.nodup_append] at hnodup
  exact hnodup.2.2 p hmem p List.mem_cons_self rfl

theorem rest_eq (hc : h.IsPrototypeChain r (seen ++ o :: rest))
    (hc' : h.IsPrototypeChain r (seen ++ o :: rest')) : rest = rest' := by
  induction rest generalizing seen o rest' with
  | nil =>
    cases rest' with
    | nil => rfl
    | cons p rest' => exact absurd hc hc'.not_ended
  | cons p rest ih =>
    cases rest' with
    | nil => exact absurd hc' hc.not_ended
    | cons q rest' =>
      obtain rfl : p = q := hc.links.unique hc'.links
      rw [List.append_cons] at hc hc'
      rw [ih hc hc']

/-- An object has one prototype chain only. -/
theorem unique (hc : h.IsPrototypeChain r chain) (hc' : h.IsPrototypeChain r chain') :
    chain = chain' := by
  obtain ⟨rest, rfl⟩ := List.head?_eq_some_iff.1 hc.head
  obtain ⟨rest', rfl⟩ := List.head?_eq_some_iff.1 hc'.head
  rw [@rest_eq h r r [] rest rest' hc hc']

end IsPrototypeChain

/-! ## Reachability -/

/-- The chain of an object has the objects that its links lead to, and no
others. -/
theorem mem_prototypeChain_iff {h : Heap} (hw : h.WellFormed) {r : ObjectId}
    (hr : r < h.objects.size) (p : ObjectId) :
    p ∈ h.prototypeChain r ↔ Relation.ReflTransGen h.Links r p := by
  have hchain := isPrototypeChain hw hr
  constructor
  · refine hchain.linked.induction _ _ (fun _ _ hlink hreach => hreach.tail hlink) ?_ p
    intro hne
    have hhead := hchain.head
    rw [List.head?_eq_some_head hne] at hhead
    rw [Option.some.inj hhead]
  · intro hreach
    induction hreach with
    | refl => exact List.mem_of_mem_head? hchain.head
    | tail _ hlink ih => exact links_mem_prototypeChain hw ih hlink

/-- An object is an instance of the other objects that its links lead to. -/
theorem isInstance_object_iff {h : Heap} (hw : h.WellFormed) (r p : ObjectId) :
    h.isInstance (.object r) (.object p) = true ↔ r ≠ p ∧ Relation.TransGen h.Links r p := by
  have hcontains : h.isInstance (.object r) (.object p) = true ↔
      p ∈ (h.prototypeChain r).tail := by simp [isInstance]
  rw [hcontains]
  by_cases hr : r < h.objects.size
  · have hchain := isPrototypeChain hw hr
    have hmem := mem_prototypeChain_iff hw hr p
    obtain ⟨rest, hrest⟩ := List.head?_eq_some_iff.1 hchain.head
    have hnodup := hchain.nodup
    rw [hrest, List.nodup_cons] at hnodup
    rw [hrest, List.mem_cons, Relation.reflTransGen_iff_eq_or_transGen] at hmem
    rw [hrest, List.tail_cons]
    constructor
    · intro hp
      have hne : p ≠ r := fun heq => hnodup.1 (heq ▸ hp)
      exact ⟨hne.symm, (hmem.1 (.inr hp)).resolve_left hne⟩
    · rintro ⟨hne, hreach⟩
      exact (hmem.2 (.inr hreach)).resolve_left hne.symm
  · -- an object that does not exist has no chain and no link
    have hempty : h.prototypeChain r = [] := by
      rw [← List.head?_eq_none_iff, prototypeChain, head?_chainFrom,
        if_neg (mt List.mem_range.1 hr)]
    rw [hempty]
    refine ⟨by simp, fun ⟨_, hreach⟩ => ?_⟩
    obtain ⟨q, hq, -⟩ := Relation.TransGen.head'_iff.1 hreach
    exact absurd hq.lt_size_left hr

theorem isInstance_iff {h : Heap} (hw : h.WellFormed) (r p : Value) :
    h.isInstance r p = true ↔ ∃ a b, r = .object a ∧ p = .object b ∧ a ≠ b ∧
      Relation.TransGen h.Links a b := by
  constructor
  · intro hrp
    cases r with
    | object a =>
      cases p with
      | object b => exact ⟨a, b, rfl, rfl, (isInstance_object_iff hw a b).1 hrp⟩
      | number _ | atom _ | null | function _ => simp [isInstance] at hrp
    | number _ | atom _ | null | function _ => simp [isInstance] at hrp
  · rintro ⟨a, b, rfl, rfl, hreach⟩
    exact (isInstance_object_iff hw a b).2 hreach

/-- Prototypes of prototypes are prototypes, but for the object itself on a
cycle. -/
theorem isInstance_trans {h : Heap} (hw : h.WellFormed) {a b c : Value} (hac : a ≠ c)
    (hab : h.isInstance a b = true) (hbc : h.isInstance b c = true) :
    h.isInstance a c = true := by
  obtain ⟨x, y, rfl, rfl, -, hxy⟩ := (isInstance_iff hw a b).1 hab
  obtain ⟨y', z, hy, rfl, -, hyz⟩ := (isInstance_iff hw _ c).1 hbc
  obtain rfl : y = y' := Value.object.inj hy
  refine (isInstance_object_iff hw x z).2 ⟨fun hxz => hac (congrArg _ hxz), hxy.trans hyz⟩

/-! ## Members -/

/-- Where a member of an object with the chain `chain` and the frame `f` is
found. -/
inductive Found (h : Heap) (chain : List ObjectId) (f : FrameId) (name : String) :
    Option Value → Prop where
  /-- The first object of the chain with an own binding of the name has it. -/
  | own {before after : List ObjectId} {o : ObjectId} {v : Value}
      (hchain : chain = before ++ o :: after) (hbefore : ∀ q ∈ before, h.member? q name = none)
      (hv : h.member? o name = some v) : Found h chain f name (some v)
  /-- No object of the chain has one; the scopes from the frame outwards are
  asked. -/
  | scope (hnone : ∀ q ∈ chain, h.member? q name = none) :
      Found h chain f name (h.scopes.resolve? f name)

theorem found_lookup? {h : Heap} {r : ObjectId} {f : FrameId} (hf : h.frameOf? r = some f)
    (name : String) : h.Found (h.prototypeChain r) f name (h.lookup? r name) := by
  unfold lookup?
  cases hholder : h.holder? r name with
  | none =>
    simp only [hf, Option.bind_some]
    refine .scope fun q hq => ?_
    simpa using List.find?_eq_none.1 hholder q hq
  | some o =>
    obtain ⟨hsome, before, after, hchain, hbefore⟩ := List.find?_eq_some_iff_append.1 hholder
    obtain ⟨v, hv⟩ := Option.isSome_iff_exists.1 hsome
    simp only [hv]
    exact .own hchain (fun q hq => by simpa using hbefore q hq) hv

/-- A member is absent when no object of the chain has it and the scopes do
not have it either. -/
theorem Found.eq_none_iff {h : Heap} {chain : List ObjectId} {f : FrameId} {name : String}
    {result : Option Value} (hfound : h.Found chain f name result) :
    result = none ↔
      (∀ q ∈ chain, h.member? q name = none) ∧ h.scopes.resolve? f name = none := by
  cases hfound with
  | own hchain hbefore hv =>
    refine ⟨by simp, fun ⟨hnone, _⟩ => ?_⟩
    rw [hnone _ (by simp [hchain])] at hv
    simp at hv
  | scope hnone => exact ⟨fun h => ⟨hnone, h⟩, fun h => h.2⟩

/-- Without a prototype link a member is what its name means in the frame of
the object. -/
theorem lookup?_of_no_prototype {h : Heap} (hw : h.WellFormed) {r : ObjectId} {f : FrameId}
    (hf : h.frameOf? r = some f) (hm : h.member? r prototypeName = none) (name : String) :
    h.lookup? r name = h.scopes.resolve? f name := by
  have hr : r < h.objects.size := (h.frameOf?_isSome_iff r).1 ⟨f, hf⟩
  have halone : h.IsPrototypeChain r [r] := {
    head := rfl
    nodup := by simp
    linked := by simp
    ended := by
      intro o ho
      obtain rfl : r = o := by simpa using ho
      exact .absent hm }
  have hfound := found_lookup? hf name
  rw [(isPrototypeChain hw hr).unique halone] at hfound
  generalize h.lookup? r name = result at hfound
  cases hfound with
  | @own before after o v hchain _ hv =>
    obtain rfl : r = o := by
      have hmem : o ∈ [r] := by simp [hchain]
      exact (List.mem_singleton.1 hmem).symm
    have hown : h.scopes.own? f name = some v := by simpa [member?, hf] using hv
    rw [Scopes.resolve?_eq, hown, Option.some_or]
  | scope _ => rfl

end PrototypeLisp.Heap
