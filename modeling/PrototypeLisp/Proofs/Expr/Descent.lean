/-
PrototypeLisp.Proofs.Expr.Descent — reading a stream token by token.

The reader takes its tokens off a list and keeps the open forms on a stack. A
stream can also be read with `peek` and `advance` alone, by a descent into each
form: an expression starts with a token that is advanced over, and inside a
form a look at the next token tells whether it closes. `TakesExpr`,
`TakesItems` and `TakesAll` are this descent; they list the tokens that are
advanced over, also when a fault ends the reading inside many forms. Every
reading of a stream is such a descent and gives what the reader gives
(`TakesExpr.readExpr_eq`, `TakesAll.readAll_eq`). The tokens taken are the
first remaining ones, one for one, and the others remain as long as there is
room for the forms (`TakesExpr.leaves`).
-/
import PrototypeLisp.Expr.Stream

namespace PrototypeLisp

/-- Is the fault a lack of room for more open forms? -/
def ReadError.exhausts : ReadError → Bool
  | .tooDeep => true
  | _ => false

namespace TokenStream

/-! ## Single looks and steps -/

theorem advance_eq_some_iff {s t : TokenStream} {token : Token} :
    s.advance = (some token, t) ↔ s.remaining = token :: t.remaining ∧ t.ahead = none := by
  obtain ⟨ahead, upcoming⟩ := s
  obtain ⟨aheadT, upcomingT⟩ := t
  cases ahead <;> cases upcoming <;> cases aheadT <;> simp [advance, remaining]

theorem advance_eq_none_iff {s t : TokenStream} :
    s.advance = (none, t) ↔ s.remaining = [] ∧ t = ⟨none, []⟩ := by
  obtain ⟨ahead, upcoming⟩ := s
  cases ahead <;> cases upcoming <;> simp [advance, remaining, eq_comm]

theorem peek_eq_some_iff {s t : TokenStream} {token : Token} :
    s.peek = (some token, t) ↔ t.ahead = some token ∧ t.remaining = s.remaining := by
  obtain ⟨ahead, upcoming⟩ := s
  obtain ⟨aheadT, upcomingT⟩ := t
  cases ahead <;> cases upcoming <;> cases aheadT <;> grind [peek, remaining]

theorem peek_eq_none_iff {s t : TokenStream} :
    s.peek = (none, t) ↔ s.remaining = [] ∧ t = ⟨none, []⟩ := by
  obtain ⟨ahead, upcoming⟩ := s
  cases ahead <;> cases upcoming <;> simp [peek, remaining, eq_comm]

theorem eq_of_ahead {s : TokenStream} (h : s.ahead = none) : s = ⟨none, s.remaining⟩ := by
  obtain ⟨ahead, upcoming⟩ := s
  obtain rfl : ahead = none := h
  rfl

/-! ## The descent -/

mutual

/-- Reading one expression off the first stream takes the tokens listed, ends
in the result and leaves the second stream; `room` forms may be opened inside
one another. -/
inductive TakesExpr : (room : Nat) → TokenStream → List Token →
    Except ReadError (Option Expr) → TokenStream → Prop where
  | ended {room : Nat} {s t : TokenStream} (h : s.advance = (none, t)) :
      TakesExpr room s [] (.ok none) t
  | word {room : Nat} {s t : TokenStream} {text : String}
      (h : s.advance = (some (.word text), t)) :
      TakesExpr room s [.word text] ((Expr.ofWord text.toList).map some) t
  | stray {room : Nat} {s t : TokenStream} (h : s.advance = (some .closing, t)) :
      TakesExpr room s [.closing] (.error .unexpectedClosing) t
  /-- Without room the supply of tokens ends at the parenthesis. -/
  | tooDeep {s u : TokenStream} (h : s.advance = (some .opening, u)) :
      TakesExpr 0 s [.opening] (.error .tooDeep) ⟨none, []⟩
  | form {room : Nat} {s u t : TokenStream} {taken : List Token} {result : Except ReadError Expr}
      (h : s.advance = (some .opening, u)) (hitems : TakesItems room u [] taken result t) :
      TakesExpr (room + 1) s (.opening :: taken) (result.map some) t

/-- Reading on inside a form after the given items, the latest first, up to the
end of the form. -/
inductive TakesItems : (room : Nat) → TokenStream → (items : List Expr) → List Token →
    Except ReadError Expr → TokenStream → Prop where
  | unmatched {room : Nat} {s t : TokenStream} {items : List Expr} (h : s.peek = (none, t)) :
      TakesItems room s items [] (.error .unmatchedOpening) t
  | close {room : Nat} {s u t : TokenStream} {items : List Expr}
      (h : s.peek = (some .closing, u)) (hclose : u.advance = (some .closing, t)) :
      TakesItems room s items [.closing] (Expr.ofItems items.reverse) t
  | fault {room : Nat} {s u t : TokenStream} {items : List Expr} {token : Token}
      {taken : List Token} {fault : ReadError} (h : s.peek = (some token, u))
      (hne : token ≠ .closing) (hexpr : TakesExpr room u taken (.error fault) t) :
      TakesItems room s items taken (.error fault) t
  | item {room : Nat} {s u v t : TokenStream} {items : List Expr} {token : Token}
      {taken more : List Token} {e : Expr} {result : Except ReadError Expr}
      (h : s.peek = (some token, u)) (hne : token ≠ .closing)
      (hexpr : TakesExpr room u taken (.ok (some e)) v)
      (hrest : TakesItems room v (e :: items) more result t) :
      TakesItems room s items (taken ++ more) result t

end

/-- Reading expressions up to the end of the stream after those in `done`, the
latest first. -/
inductive TakesAll (limit : Nat) : TokenStream → (done : List Expr) → List Token →
    Except ReadError (List Expr) → TokenStream → Prop where
  | ended {s t : TokenStream} {done : List Expr} (h : s.peek = (none, t)) :
      TakesAll limit s done [] (.ok done.reverse) t
  | fault {s u t : TokenStream} {done : List Expr} {token : Token} {taken : List Token}
      {fault : ReadError} (h : s.peek = (some token, u))
      (hexpr : TakesExpr limit u taken (.error fault) t) :
      TakesAll limit s done taken (.error fault) t
  | item {s u v t : TokenStream} {done : List Expr} {token : Token} {taken more : List Token}
      {e : Expr} {result : Except ReadError (List Expr)} (h : s.peek = (some token, u))
      (hexpr : TakesExpr limit u taken (.ok (some e)) v)
      (hrest : TakesAll limit v (e :: done) more result t) :
      TakesAll limit s done (taken ++ more) result t

/-! ## What the descent takes -/

/-- Did a reading end for lack of room? -/
def exhausted {α : Type} : Except ReadError α → Bool
  | .ok _ => false
  | .error fault => fault.exhausts

theorem exhausted_map {α β : Type} (f : α → β) (result : Except ReadError α) :
    exhausted (result.map f) = exhausted result := by
  cases result <;> rfl

/-- What is left of a stream when these tokens are taken off its front; `whole`
says when nothing else is lost. -/
structure Leaves (s : TokenStream) (taken : List Token) (whole : Prop) (t : TokenStream) :
    Prop where
  /-- The tokens taken and those left stand at the front of the tokens that
  there were, in their order. -/
  ordered : taken ++ t.remaining <+: s.remaining
  /-- They are all the tokens that there were, if none is lost. -/
  kept : whole → taken ++ t.remaining = s.remaining

namespace Leaves

variable {s t u : TokenStream} {taken more : List Token} {p q : Prop}

theorem of_eq (h : taken ++ t.remaining = s.remaining) : Leaves s taken p t :=
  ⟨h ▸ List.prefix_refl _, fun _ => h⟩

theorem of_advance {token : Token} (h : s.advance = (some token, t)) : Leaves s [token] p t :=
  of_eq (advance_eq_some_iff.1 h).1.symm

theorem mono (h : Leaves s taken p t) (hpq : q → p) : Leaves s taken q t :=
  ⟨h.ordered, fun hq => h.kept (hpq hq)⟩

theorem append (h : Leaves s taken p u) (h' : Leaves u more q t) :
    Leaves s (taken ++ more) (p ∧ q) t where
  ordered := by
    rw [List.append_assoc]
    exact ((List.prefix_append_right_inj taken).2 h'.ordered).trans h.ordered
  kept hpq := by rw [List.append_assoc, h'.kept hpq.2, h.kept hpq.1]

/-- A look at the next token moves nothing. -/
theorem of_peek {token? : Option Token} (h : s.peek = (token?, u)) (h' : Leaves u taken p t) :
    Leaves s taken p t := by
  have hs : u.remaining = s.remaining := by rw [← remaining_peek s, h]
  exact ⟨hs ▸ h'.ordered, fun hp => hs ▸ h'.kept hp⟩

end Leaves

mutual

/-- The tokens taken are the first remaining ones, and the others are left as
long as there is room. -/
theorem TakesExpr.leaves {room : Nat} {s t : TokenStream} {taken : List Token}
    {result : Except ReadError (Option Expr)} : TakesExpr room s taken result t →
      Leaves s taken (exhausted result = false) t
  | .ended h => by
    obtain ⟨hs, rfl⟩ := advance_eq_none_iff.1 h
    exact .of_eq hs.symm
  | .word h => .of_advance h
  | .stray h => .of_advance h
  | .tooDeep h => by
    obtain ⟨hs, -⟩ := advance_eq_some_iff.1 h
    refine ⟨?_, nofun⟩
    rw [hs]
    exact List.prefix_append [Token.opening] _
  | .form h hitems => by
    have hopening : Leaves s [.opening] True _ := .of_advance h
    refine (hopening.append hitems.leaves).mono fun hresult => ⟨trivial, ?_⟩
    rwa [exhausted_map] at hresult

theorem TakesItems.leaves {room : Nat} {s t : TokenStream} {items : List Expr}
    {taken : List Token} {result : Except ReadError Expr} : TakesItems room s items taken result t →
      Leaves s taken (exhausted result = false) t
  | .unmatched h => .of_peek h (.of_eq rfl)
  | .close h hclose => .of_peek h (.of_advance hclose)
  | .fault h _ hexpr => .of_peek h hexpr.leaves
  | .item h _ hexpr hrest =>
    .of_peek h ((hexpr.leaves.append hrest.leaves).mono fun hresult => ⟨rfl, hresult⟩)

end

theorem TakesAll.leaves {limit : Nat} {s t : TokenStream} {done : List Expr}
    {taken : List Token} {result : Except ReadError (List Expr)}
    (h : TakesAll limit s done taken result t) : Leaves s taken (exhausted result = false) t := by
  induction h with
  | ended h => exact .of_peek h (.of_eq rfl)
  | fault h hexpr => exact .of_peek h hexpr.leaves
  | item h hexpr _ ih =>
    exact .of_peek h ((hexpr.leaves.append ih).mono fun hresult => ⟨rfl, hresult⟩)

mutual

/-- No look-ahead is left. -/
theorem TakesExpr.ahead_eq {room : Nat} {s t : TokenStream} {taken : List Token}
    {result : Except ReadError (Option Expr)} : TakesExpr room s taken result t → t.ahead = none
  | .ended h => by rw [(advance_eq_none_iff.1 h).2]
  | .word h => (advance_eq_some_iff.1 h).2
  | .stray h => (advance_eq_some_iff.1 h).2
  | .tooDeep _ => rfl
  | .form _ hitems => hitems.ahead_eq

theorem TakesItems.ahead_eq {room : Nat} {s t : TokenStream} {items : List Expr}
    {taken : List Token} {result : Except ReadError Expr} :
    TakesItems room s items taken result t → t.ahead = none
  | .unmatched h => by rw [(peek_eq_none_iff.1 h).2]
  | .close _ hclose => (advance_eq_some_iff.1 hclose).2
  | .fault _ _ hexpr => hexpr.ahead_eq
  | .item _ _ _ hrest => hrest.ahead_eq

end

theorem TakesAll.ahead_eq {limit : Nat} {s t : TokenStream} {done : List Expr}
    {taken : List Token} {result : Except ReadError (List Expr)}
    (h : TakesAll limit s done taken result t) : t.ahead = none := by
  induction h with
  | ended h => rw [(peek_eq_none_iff.1 h).2]
  | fault _ hexpr => exact hexpr.ahead_eq
  | item _ _ _ ih => exact ih

/-- As long as tokens remain at least one is taken, also for a fault. -/
theorem TakesExpr.taken_ne_nil {room : Nat} {s t : TokenStream} {taken : List Token}
    {result : Except ReadError (Option Expr)} (h : TakesExpr room s taken result t)
    (hs : s.remaining ≠ []) : taken ≠ [] := by
  cases h with
  | ended h => exact absurd (advance_eq_none_iff.1 h).1 hs
  | word _ | stray _ | tooDeep _ | form _ _ => exact List.cons_ne_nil _ _

theorem TakesExpr.length_lt {room : Nat} {s t : TokenStream} {taken : List Token}
    {result : Except ReadError (Option Expr)} (h : TakesExpr room s taken result t)
    (hs : s.remaining ≠ []) : t.remaining.length < s.remaining.length := by
  have hpos := List.length_pos_iff.2 (h.taken_ne_nil hs)
  have hle := h.leaves.ordered.length_le
  rw [List.length_append] at hle
  omega

theorem TakesAll.taken_ne_nil {limit : Nat} {s t : TokenStream} {done : List Expr}
    {taken : List Token} {result : Except ReadError (List Expr)}
    (h : TakesAll limit s done taken result t) (hs : s.remaining ≠ []) : taken ≠ [] := by
  cases h with
  | ended h => exact absurd (peek_eq_none_iff.1 h).1 hs
  | fault h hexpr =>
    rw [← (peek_eq_some_iff.1 h).2] at hs
    exact hexpr.taken_ne_nil hs
  | item h hexpr _ =>
    rw [← (peek_eq_some_iff.1 h).2] at hs
    exact List.append_ne_nil_of_left_ne_nil (hexpr.taken_ne_nil hs) _

/-- And there is no lack of an expression. -/
theorem TakesExpr.result_ne_none {room : Nat} {s t : TokenStream} {taken : List Token}
    {result : Except ReadError (Option Expr)} (h : TakesExpr room s taken result t)
    (hs : s.remaining ≠ []) : result ≠ .ok none := by
  cases h with
  | ended h => exact absurd (advance_eq_none_iff.1 h).1 hs
  | @word _ _ _ text _ => cases Expr.ofWord text.toList <;> simp [Except.map]
  | stray _ | tooDeep _ => simp
  | @form _ _ _ _ _ result _ _ => cases result <;> simp [Except.map]

/-! ## The descent and the reader -/

/-- How the reader goes on inside a form after one of its items. -/
def afterItem (room : Nat) (outer : List (List Expr)) (items : List Expr) :
    Except ReadError (Option Expr) → List Token → Except ReadError Expr × List Token
  | .error fault, rest => (.error fault, rest)
  | .ok none, rest => (.error .unmatchedOpening, rest)
  | .ok (some e), rest => Expr.readForm room outer (e :: items) rest

/-- How the reader goes on after the end of a form. -/
def afterForm (room : Nat) : List (List Expr) → Except ReadError Expr → List Token →
    Except ReadError Expr × List Token
  | _, .error fault, rest => (.error fault, rest)
  | [], .ok built, rest => (.ok built, rest)
  | above :: outer, .ok built, rest => Expr.readForm (room + 1) outer (built :: above) rest

mutual

/-- Inside a form the reader takes an item as the descent does. -/
theorem TakesExpr.readForm_eq {room : Nat} {s t : TokenStream} {taken : List Token}
    {result : Except ReadError (Option Expr)} (outer : List (List Expr)) (items : List Expr)
    (hs : s.remaining.head? ≠ some .closing) : TakesExpr room s taken result t →
      Expr.readForm room outer items s.remaining = afterItem room outer items result t.remaining
  | .ended h => by
    obtain ⟨hnil, rfl⟩ := advance_eq_none_iff.1 h
    rw [hnil]
    rfl
  | .word h => by
    obtain ⟨hcons, -⟩ := advance_eq_some_iff.1 h
    rw [hcons, Expr.readForm]
    split <;> simp_all [Except.map, afterItem]
  | .stray h => by
    obtain ⟨hcons, -⟩ := advance_eq_some_iff.1 h
    rw [hcons] at hs
    exact absurd rfl hs
  | .tooDeep h => by
    obtain ⟨hcons, -⟩ := advance_eq_some_iff.1 h
    rw [hcons]
    rfl
  | @TakesExpr.form room _ _ t _ result h hitems => by
    obtain ⟨hcons, -⟩ := advance_eq_some_iff.1 h
    rw [hcons, Expr.readForm, hitems.readForm_eq (items :: outer)]
    cases result <;> rfl

/-- The reader takes the rest of a form as the descent does. -/
theorem TakesItems.readForm_eq {room : Nat} {s t : TokenStream} {items : List Expr}
    {taken : List Token} {result : Except ReadError Expr} (outer : List (List Expr)) :
    TakesItems room s items taken result t →
      Expr.readForm room outer items s.remaining = afterForm room outer result t.remaining
  | .unmatched h => by
    obtain ⟨hnil, rfl⟩ := peek_eq_none_iff.1 h
    rw [hnil]
    rfl
  | .close h hclose => by
    obtain ⟨hcons, -⟩ := advance_eq_some_iff.1 hclose
    rw [← (peek_eq_some_iff.1 h).2, hcons]
    cases hbuilt : Expr.ofItems items.reverse with
    | error fault => simp [Expr.readForm, hbuilt, afterForm]
    | ok built => cases outer <;> simp [Expr.readForm, hbuilt, afterForm]
  | @TakesItems.fault _ _ u _ _ token _ _ h hne hexpr => by
    obtain ⟨hahead, hu⟩ := peek_eq_some_iff.1 h
    have hs : u.remaining.head? ≠ some .closing := by simpa [remaining, hahead] using hne
    rw [← hu, hexpr.readForm_eq outer items hs]
    rfl
  | @TakesItems.item _ _ u _ _ _ token _ _ _ _ h hne hexpr hrest => by
    obtain ⟨hahead, hu⟩ := peek_eq_some_iff.1 h
    have hs : u.remaining.head? ≠ some .closing := by simpa [remaining, hahead] using hne
    rw [← hu, hexpr.readForm_eq outer items hs]
    exact hrest.readForm_eq outer

end

/-- The reader gives what the descent gives. -/
theorem TakesExpr.readExpr_eq {limit : Nat} {s t : TokenStream} {taken : List Token}
    {result : Except ReadError (Option Expr)} (h : TakesExpr limit s taken result t) :
    s.readExpr limit = (result, t) := by
  rw [eq_of_ahead h.ahead_eq]
  cases h with
  | ended h =>
    obtain ⟨hnil, rfl⟩ := advance_eq_none_iff.1 h
    exact readExpr_of_none (by rw [hnil]; rfl)
  | word h => exact readExpr_of_some (by rw [(advance_eq_some_iff.1 h).1]; rfl)
  | stray h => exact readExpr_of_some (by rw [(advance_eq_some_iff.1 h).1]; rfl)
  | tooDeep h =>
    have hread : Expr.read? 0 s.remaining = some (.error .tooDeep, []) := by
      rw [(advance_eq_some_iff.1 h).1]
      rfl
    exact readExpr_of_some hread
  | @form _ _ _ _ _ result h hitems =>
    refine readExpr_of_some ?_
    rw [(advance_eq_some_iff.1 h).1, Expr.read?, hitems.readForm_eq []]
    cases result <;> rfl

theorem read?_of_readExpr_error {limit : Nat} {s t : TokenStream} {fault : ReadError}
    (h : s.readExpr limit = (.error fault, t)) :
    Expr.read? limit s.remaining = some (.error fault, t.remaining) := by
  unfold readExpr at h
  split at h
  · cases h
  · rename_i outcome rest hread
    cases outcome with
    | error fault' =>
      obtain ⟨rfl, rfl⟩ : fault' = fault ∧ ⟨none, rest⟩ = t := by simpa [Except.map] using h
      exact hread
    | ok e => cases h

theorem TakesAll.readAllFrom_eq {limit : Nat} {s t : TokenStream} {done : List Expr}
    {taken : List Token} {result : Except ReadError (List Expr)}
    (h : TakesAll limit s done taken result t) :
    Expr.readAllFrom limit done s.remaining = (result, t.remaining) := by
  induction h with
  | ended h =>
    obtain ⟨hnil, rfl⟩ := peek_eq_none_iff.1 h
    rw [hnil, Expr.readAllFrom]
    rfl
  | fault h hexpr =>
    have hread := read?_of_readExpr_error hexpr.readExpr_eq
    rw [← (peek_eq_some_iff.1 h).2, Expr.readAllFrom]
    split <;> simp_all
  | item h hexpr _ ih =>
    have hread := (readExpr_eq_ok_iff.1 hexpr.readExpr_eq).2
    rw [← (peek_eq_some_iff.1 h).2, Expr.readAllFrom]
    split <;> simp_all

/-- Reading all expressions gives what the descent gives. -/
theorem TakesAll.readAll_eq {limit : Nat} {s t : TokenStream} {taken : List Token}
    {result : Except ReadError (List Expr)} (h : TakesAll limit s [] taken result t) :
    s.readAll limit = (result, t) := by
  rw [eq_of_ahead h.ahead_eq, readAll, Expr.readAll, h.readAllFrom_eq]

/-! ## Every reading is a descent -/

/-- An expression can be read when shorter streams can be read inside a form. -/
theorem exists_takesExpr_of_items {s : TokenStream}
    (hitems : ∀ room u, u.remaining.length < s.remaining.length →
      ∃ taken result t, TakesItems room u [] taken result t) (room : Nat) :
    ∃ taken result t, TakesExpr room s taken result t := by
  cases hadvance : s.advance with
  | mk token? u =>
    cases token? with
    | none => exact ⟨_, _, _, .ended hadvance⟩
    | some token =>
      cases token with
      | word text => exact ⟨_, _, _, .word hadvance⟩
      | closing => exact ⟨_, _, _, .stray hadvance⟩
      | opening =>
        cases room with
        | zero => exact ⟨_, _, _, .tooDeep hadvance⟩
        | succ room =>
          have hlt : u.remaining.length < s.remaining.length := by
            rw [(advance_eq_some_iff.1 hadvance).1]
            exact Nat.lt_succ_self _
          obtain ⟨taken, result, t, hform⟩ := hitems room u hlt
          exact ⟨_, _, _, .form hadvance hform⟩

/-- A stream can be read on inside a form when it has an expression to read and
shorter streams can be read on. -/
theorem exists_takesItems_of_expr {room : Nat} {s : TokenStream}
    (hexpr : ∀ u, u.remaining = s.remaining → ∃ taken result t, TakesExpr room u taken result t)
    (hitems : ∀ v items, v.remaining.length < s.remaining.length →
      ∃ taken result t, TakesItems room v items taken result t) (items : List Expr) :
    ∃ taken result t, TakesItems room s items taken result t := by
  cases hpeek : s.peek with
  | mk token? u =>
    cases token? with
    | none => exact ⟨_, _, _, .unmatched hpeek⟩
    | some token =>
      obtain ⟨hahead, hu⟩ := peek_eq_some_iff.1 hpeek
      have hsome : u.remaining ≠ [] := by simp [remaining, hahead]
      by_cases hclosing : token = .closing
      · subst hclosing
        have hadvance : u.advance = (some .closing, ⟨none, u.upcoming⟩) :=
          advance_eq_some_iff.2 ⟨by simp [remaining, hahead], rfl⟩
        exact ⟨_, _, _, .close hpeek hadvance⟩
      · obtain ⟨taken, result, v, htakes⟩ := hexpr u hu
        match result, htakes with
        | .error fault, htakes => exact ⟨_, _, _, .fault hpeek hclosing htakes⟩
        | .ok none, htakes => exact absurd rfl (htakes.result_ne_none hsome)
        | .ok (some e), htakes =>
          obtain ⟨more, last, t, hrest⟩ := hitems v (e :: items) (hu ▸ htakes.length_lt hsome)
          exact ⟨_, _, _, .item hpeek hclosing htakes hrest⟩

theorem exists_takesItems (room : Nat) (s : TokenStream) (items : List Expr) :
    ∃ taken result t, TakesItems room s items taken result t := by
  induction hn : s.remaining.length using Nat.strongRecOn generalizing room s items with
  | _ n ih =>
    have hitems : ∀ room v items, v.remaining.length < s.remaining.length →
        ∃ taken result t, TakesItems room v items taken result t :=
      fun room v items hlt => ih _ (hn ▸ hlt) room v items rfl
    refine exists_takesItems_of_expr (fun u hu => ?_) (hitems room) items
    exact exists_takesExpr_of_items (fun room v hlt => hitems room v [] (hu ▸ hlt)) room

theorem exists_takesExpr (room : Nat) (s : TokenStream) :
    ∃ taken result t, TakesExpr room s taken result t :=
  exists_takesExpr_of_items (fun room u _ => exists_takesItems room u []) room

theorem exists_takesAll (limit : Nat) (s : TokenStream) (done : List Expr) :
    ∃ taken result t, TakesAll limit s done taken result t := by
  induction hn : s.remaining.length using Nat.strongRecOn generalizing s done with
  | _ n ih =>
    cases hpeek : s.peek with
    | mk token? u =>
      cases token? with
      | none => exact ⟨_, _, _, .ended hpeek⟩
      | some token =>
        obtain ⟨hahead, hu⟩ := peek_eq_some_iff.1 hpeek
        have hsome : u.remaining ≠ [] := by simp [remaining, hahead]
        obtain ⟨taken, result, v, htakes⟩ := exists_takesExpr limit u
        match result, htakes with
        | .error fault, htakes => exact ⟨_, _, _, .fault hpeek htakes⟩
        | .ok none, htakes => exact absurd rfl (htakes.result_ne_none hsome)
        | .ok (some e), htakes =>
          have hlt := htakes.length_lt hsome
          rw [hu, hn] at hlt
          obtain ⟨more, last, t, hrest⟩ := ih _ hlt v (e :: done) rfl
          exact ⟨_, _, _, .item hpeek htakes hrest⟩

/-- Reading an expression is a descent. -/
theorem takesExpr_readExpr (limit : Nat) (s : TokenStream) :
    ∃ taken, TakesExpr limit s taken (s.readExpr limit).1 (s.readExpr limit).2 := by
  obtain ⟨taken, result, t, h⟩ := exists_takesExpr limit s
  rw [h.readExpr_eq]
  exact ⟨taken, h⟩

/-- So is reading all expressions. -/
theorem takesAll_readAll (limit : Nat) (s : TokenStream) :
    ∃ taken, TakesAll limit s [] taken (s.readAll limit).1 (s.readAll limit).2 := by
  obtain ⟨taken, result, t, h⟩ := exists_takesAll limit s []
  rw [h.readAll_eq]
  exact ⟨taken, h⟩

end TokenStream

end PrototypeLisp
