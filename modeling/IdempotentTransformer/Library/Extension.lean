import Mathlib.Data.List.Basic

/-!
# IdempotentTransformer.Library.Extension

Trees of plain data with objects in them, written by a packer that knows
objects only through extensions: the extension that applies to an object
gives the data to pack in its place, and one of the same type gives the
object back when it is unpacked.

`Packs` and `Unpacks` are what such a packer does, whatever its buffers look
like; extensions are listed most recently added first.

* `Nested.roundTrip` — where every object's extension and the reader of its
  type undo each other, whole trees round-trip, however deep.
-/

namespace Library

variable {P O E B : Type}

/-! ## Values -/

/-- What holds its children together. -/
inductive Holder
  | array
  | object (keys : List String)
  | map
  | set
deriving DecidableEq, Repr

/-- Plain data, a holder of values, or an object. -/
inductive Value (P O : Type)
  | plain (p : P)
  | node (holder : Holder) (children : List (Value P O))
  | object (o : O)

/-- What a packer puts in its buffer. -/
inductive Packed (P : Type)
  | plain (p : P)
  | node (holder : Holder) (children : List (Packed P))
  | ext (type : Nat) (data : Packed P)

/-- How a kind of objects is packed. -/
structure Extension (P O E : Type) where
  type : Nat
  applies : O → Bool
  write : O → Except E (Value P O)
  read : Value P O → Except E (Value P O)

/-! ## Packing -/

/-- What a value is packed as: an object as what the first extension that
applies to it writes. -/
inductive Packs (exts : List (Extension P O E)) : Value P O → Packed P → Prop
  | plain (p : P) : Packs exts (.plain p) (.plain p)
  | node {holder : Holder} {vs : List (Value P O)} {ps : List (Packed P)}
      (hlen : vs.length = ps.length)
      (h : ∀ (i : Nat) v p, vs[i]? = some v → ps[i]? = some p → Packs exts v p) :
      Packs exts (.node holder vs) (.node holder ps)
  | object {o : O} {e : Extension P O E} {w : Value P O} {p : Packed P}
      (he : exts.find? (fun e => e.applies o) = some e) (hw : e.write o = .ok w)
      (h : Packs exts w p) : Packs exts (.object o) (.ext e.type p)

/-- What packed data is unpacked to: the first extension of its type reads it. -/
inductive Unpacks (exts : List (Extension P O E)) : Packed P → Value P O → Prop
  | plain (p : P) : Unpacks exts (.plain p) (.plain p)
  | node {holder : Holder} {vs : List (Value P O)} {ps : List (Packed P)}
      (hlen : vs.length = ps.length)
      (h : ∀ (i : Nat) v p, vs[i]? = some v → ps[i]? = some p → Unpacks exts p v) :
      Unpacks exts (.node holder ps) (.node holder vs)
  | ext {type : Nat} {e : Extension P O E} {data : Packed P} {w v : Value P O}
      (he : exts.find? (fun e => e.type = type) = some e) (h : Unpacks exts data w)
      (hr : e.read w = .ok v) : Unpacks exts (.ext type data) v

/-- Who rebuilt the objects of an unpacked value: `R w o` says what has to hold
of an object `o` read from `w`. -/
inductive Rebuilt (R : Value P O → O → Prop) : Packed P → Value P O → Prop
  | plain (p : P) : Rebuilt R (.plain p) (.plain p)
  | node {holder : Holder} {vs : List (Value P O)} {ps : List (Packed P)}
      (hlen : vs.length = ps.length)
      (h : ∀ (i : Nat) v p, vs[i]? = some v → ps[i]? = some p → Rebuilt R p v) :
      Rebuilt R (.node holder ps) (.node holder vs)
  | ext {type : Nat} {data : Packed P} {w : Value P O} {o : O} (h : Rebuilt R data w)
      (hr : R w o) : Rebuilt R (.ext type data) (.object o)

/-- A value nested to some depth, also inside what its objects are written as. -/
inductive Nested (W : O → Value P O → Prop) : Value P O → Prop
  | plain (p : P) : Nested W (.plain p)
  | node {holder : Holder} {vs : List (Value P O)} (h : ∀ v ∈ vs, Nested W v) :
      Nested W (.node holder vs)
  | object {o : O} {w : Value P O} (hw : W o w) (h : Nested W w) : Nested W (.object o)

theorem Nested.pair {W : O → Value P O → Prop} {holder : Holder} {v w : Value P O}
    (hv : Nested W v) (hw : Nested W w) : Nested W (.node holder [v, w]) := by
  refine .node ?_
  intro u hu
  rcases List.mem_pair.mp hu with rfl | rfl
  · exact hv
  · exact hw

/-! ## The round trip -/

/-- Children packed one by one are packed together. -/
theorem exists_children {α β : Type} {R : α → β → Prop} {xs : List α}
    (h : ∀ x ∈ xs, ∃ y, R x y) :
    ∃ ys : List β, xs.length = ys.length ∧
      ∀ (i : Nat) x y, xs[i]? = some x → ys[i]? = some y → R x y := by
  induction xs with
  | nil => exact ⟨[], rfl, by simp⟩
  | cons x xs ih =>
      obtain ⟨y, hy⟩ := h x List.mem_cons_self
      obtain ⟨ys, hlen, hys⟩ := ih fun x hx => h x (List.mem_cons_of_mem _ hx)
      refine ⟨y :: ys, by simp [hlen], ?_⟩
      intro i x' y' hx' hy'
      cases i with
      | zero =>
          simp only [List.getElem?_cons_zero, Option.some.injEq] at hx' hy'
          exact hx' ▸ hy' ▸ hy
      | succ i => exact hys i x' y' hx' hy'

/-- **Values round-trip**, if every object does: the extension that applies to
it writes what the reader of that type makes the object from again. -/
theorem Nested.roundTrip {exts exts' : List (Extension P O E)} {W : O → Value P O → Prop}
    {R : Value P O → O → Prop}
    (hobject : ∀ o w, W o w → ∃ e e', exts.find? (fun e => e.applies o) = some e ∧
      e.write o = .ok w ∧ exts'.find? (fun e' => e'.type = e.type) = some e' ∧
      e'.read w = .ok (.object o) ∧ R w o)
    {v : Value P O} (h : Nested W v) :
    ∃ p, Packs exts v p ∧ Unpacks exts' p v ∧ Rebuilt R p v := by
  induction h with
  | plain p => exact ⟨.plain p, .plain p, .plain p, .plain p⟩
  | @node holder vs h ih =>
      obtain ⟨ps, hlen, hps⟩ := exists_children ih
      exact ⟨.node holder ps, .node hlen fun i v p hv hp => (hps i v p hv hp).1,
        .node hlen fun i v p hv hp => (hps i v p hv hp).2.1,
        .node hlen fun i v p hv hp => (hps i v p hv hp).2.2⟩
  | @object o w hw h ih =>
      obtain ⟨p, hpacks, hunpacks, hrebuilt⟩ := ih
      obtain ⟨e, e', he, hwrite, he', hread, hR⟩ := hobject o w hw
      exact ⟨.ext e.type p, .object he hwrite hpacks, .ext he' hunpacks hread, .ext hrebuilt hR⟩

/-! ## Packers -/

/-- A packer of values, with the extensions added to it. -/
structure Packr (P O E B : Type) where
  pack : List (Extension P O E) → Value P O → Except E B
  unpack : List (Extension P O E) → B → Except E (Value P O)
  /-- The buffer of packed data. -/
  buffer : Packed P → B

/-- The packer packs and unpacks as it says. -/
structure Packr.Documented (m : Packr P O E B) : Prop where
  pack : ∀ {exts v p}, Packs exts v p → m.pack exts v = .ok (m.buffer p)
  unpack : ∀ {exts p v}, Unpacks exts p v → m.unpack exts (m.buffer p) = .ok v

/-- Lists whose members agree place by place are one list. -/
theorem children_unique {α β : Type} {xs : List α} {ys ys' : List β}
    (hlen : xs.length = ys.length) (hlen' : xs.length = ys'.length)
    (h : ∀ (i : Nat) x y y', xs[i]? = some x → ys[i]? = some y → ys'[i]? = some y' → y = y') :
    ys = ys' := by
  refine List.ext_getElem (hlen.symm.trans hlen') fun i hi hi' => ?_
  have hx : i < xs.length := hlen ▸ hi
  exact h i xs[i] _ _ (List.getElem?_eq_getElem hx) (List.getElem?_eq_getElem hi)
    (List.getElem?_eq_getElem hi')

/-- A value is packed in one way. -/
theorem Packs.unique {exts : List (Extension P O E)} {v : Value P O} {p p' : Packed P}
    (h : Packs exts v p) (h' : Packs exts v p') : p = p' := by
  induction h generalizing p' with
  | plain p =>
      cases h'
      rfl
  | node hlen h ih =>
      cases h' with
      | node hlen' h' =>
          rw [children_unique hlen hlen' fun i v p p' hv hp hp' => ih i v p hv hp
            (h' i v p' hv hp')]
  | object he hw h ih =>
      cases h' with
      | object he' hw' h' =>
          rw [he, Option.some.injEq] at he'
          subst he'
          rw [hw, Except.ok.injEq] at hw'
          rw [ih (hw' ▸ h')]

/-- Packed data is unpacked in one way. -/
theorem Unpacks.unique {exts : List (Extension P O E)} {p : Packed P} {v v' : Value P O}
    (h : Unpacks exts p v) (h' : Unpacks exts p v') : v = v' := by
  induction h generalizing v' with
  | plain p =>
      cases h'
      rfl
  | node hlen h ih =>
      cases h' with
      | node hlen' h' =>
          rw [children_unique hlen.symm hlen'.symm fun i p v v' hp hv hv' =>
            ih i v p hv hp (h' i v' p hv' hp)]
  | ext he h hr ih =>
      cases h' with
      | ext he' h' hr' =>
          rw [he, Option.some.injEq] at he'
          subst he'
          rw [ih h', hr', Except.ok.injEq] at hr
          exact hr.symm

open Classical in
/-- The packer whose buffers are the packed data; it gives an error `e` where
packing or unpacking does not come to an end or the code it calls throws. -/
noncomputable def Packr.reference (e : E) : Packr P O E (Packed P) where
  pack exts v := if h : ∃ p, Packs exts v p then .ok h.choose else .error e
  unpack exts p := if h : ∃ v, Unpacks exts p v then .ok h.choose else .error e
  buffer p := p

theorem Packr.documented_reference (e : E) :
    (Packr.reference e : Packr P O E (Packed P)).Documented where
  pack := by
    intro exts v p h
    have hex : ∃ p, Packs exts v p := ⟨p, h⟩
    simp only [Packr.reference, dif_pos hex]
    rw [hex.choose_spec.unique h]
  unpack := by
    intro exts p v h
    have hex : ∃ v, Unpacks exts p v := ⟨v, h⟩
    simp only [Packr.reference, dif_pos hex]
    rw [hex.choose_spec.unique h]

end Library
