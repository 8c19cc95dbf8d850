import IdempotentTransformer.Client.Adapter
import IdempotentTransformer.Library.Extension
import Mathlib.Data.List.Nodup

/-!
# IdempotentTransformer.Client.Decorator

The `Serialize` class decorator, and `decoratedModels`, the map it fills.

What the classes of a program are is its own: `Classes` has their prototype
chains and what their methods compute.  `Decorations` is what decorating them
adds: a static name on each class and the entries of the map, in insertion
order.

* `serialize_eq_ok` — what decorating a class under a new name does.
-/

namespace IdempotentTransformer

open Library

/-! ## Classes -/

/-- Plain data; the names the decorator gives are strings. -/
inductive Plain (D : Type)
  | undefined
  | string (s : String)
  | data (d : D)
deriving DecidableEq, Repr

/-- An object: its class and its fields, private ones too. -/
structure Instance (C S : Type) where
  Class : C
  fields : S
deriving DecidableEq, Repr

/-- Data with instances in it. -/
abbrev Datum (C S D : Type) := Value (Plain D) (Instance C S)

/-- The classes of a program.  A property lookup follows the prototype chain, so
`method` and `static` have the inherited ones too. -/
structure Classes (C S D : Type) where
  /-- A class and the classes it extends, nearest first. -/
  chain : C → List C
  mem_chain_self : ∀ c, c ∈ (chain c).head?
  /-- `target.prototype[name]`, where that is a function. -/
  method : C → String → Option (S → Except Thrown (Datum C S D))
  /-- `target[name]`, where that is a function. -/
  static : C → String → Option (Datum C S D → Except Thrown (Datum C S D))

variable {C S D : Type}

namespace Classes

variable (classes : Classes C S D)

/-- `object[name]()`. -/
def callMethod (object : Instance C S) (name : String) : Except Thrown (Datum C S D) :=
  match classes.method object.Class name with
  | some method => method object.fields
  | none => .error (.error "unBoxedObject[serializeMethodName] is not a function")

/-- `Class[name](value)`. -/
def callStatic (c : C) (name : String) (value : Datum C S D) : Except Thrown (Datum C S D) :=
  match classes.static c name with
  | some method => method value
  | none => .error (.error "ModelClass[deserializeMethodName] is not a function")

end Classes

/-! ## The decorator -/

structure TDecoratedModel (C : Type) where
  Class : C
  serializeMethodName : String
  deserializeMethodName : String
deriving DecidableEq, Repr

/-- `Map.prototype.set`: an entry keeps its place, a new one goes to the end. -/
def mapSet {V : Type} (key : String) (value : V) : List (String × V) → List (String × V)
  | [] => [(key, value)]
  | entry :: entries =>
    if entry.1 = key then (key, value) :: entries else entry :: mapSet key value entries

theorem mapSet_of_not_mem {V : Type} {key : String} {value : V} {entries : List (String × V)}
    (h : key ∉ entries.map Prod.fst) :
    mapSet key value entries = entries ++ [(key, value)] := by
  induction entries with
  | nil => rfl
  | cons entry entries ih =>
      simp only [List.map_cons, List.mem_cons, not_or] at h
      rw [mapSet, if_neg (Ne.symm h.1), ih h.2, List.cons_append]

/-- With each key once, looking up an entry's key finds its value. -/
theorem lookup_of_mem {V : Type} {key : String} {value : V} {entries : List (String × V)}
    (hnodup : (entries.map Prod.fst).Nodup) (h : (key, value) ∈ entries) :
    entries.lookup key = some value := by
  obtain ⟨earlier, later, rfl⟩ := List.append_of_mem h
  refine List.lookup_eq_some_iff.mpr ⟨earlier, later, rfl, ?_⟩
  intro entry hentry
  rw [List.map_append, List.nodup_append'] at hnodup
  have hne := hnodup.2.2 (List.mem_map_of_mem hentry)
  rw [bne_iff_ne]
  rintro rfl
  exact hne (by simp)

/-- What decorating classes has left behind. -/
structure Decorations (C : Type) where
  /-- A class's own `serialize_key`. -/
  serializeKey : C → Option String
  decoratedModels : List (String × TDecoratedModel C)

/-- No class is decorated yet. -/
def Decorations.empty (C : Type) : Decorations C :=
  { serializeKey := fun _ => none, decoratedModels := [] }

def throwIfTrue (condition : Bool) (exception : Thrown) : Except Thrown Unit :=
  if condition then .error exception else .ok ()

/-- `Object.defineProperty` of `serialize_key`, which can be defined once. -/
def Decorations.defineSerializeKey [DecidableEq C] (target : C) (name : String)
    (d : Decorations C) : Except Thrown (Decorations C) :=
  match d.serializeKey target with
  | none => .ok { d with serializeKey := Function.update d.serializeKey target (some name) }
  | some defined =>
    if defined = name then .ok d else .error (.error "Cannot redefine property: serialize_key")

namespace Classes

variable [DecidableEq C] (classes : Classes C S D)

/-- The `Serialize` decorator. -/
def serialize (name serializeMethodName deserializeMethodName : String) (target : C)
    (d : Decorations C) : Except Thrown (Decorations C) := do
  throwIfTrue (classes.method target serializeMethodName).isNone
    (.error ("Instance method \"" ++ serializeMethodName ++
      "\" is not implemented. Please implement Serializable interface on your Model."))
  throwIfTrue (classes.static target deserializeMethodName).isNone
    (.error ("Class static method \"" ++ deserializeMethodName ++
      "\" is not implemented. Please implement Deserializable interface on your Model and " ++
      "make sure this method is static."))
  let d ← d.defineSerializeKey target name
  return { d with
    decoratedModels := mapSet name
      { Class := target, serializeMethodName := serializeMethodName
        deserializeMethodName := deserializeMethodName } d.decoratedModels }

/-- Under a new name, a class whose methods are there and that has no other name
yet gets the name and goes to the end of the map. -/
theorem serialize_eq_ok {classes : Classes C S D}
    {name serializeMethodName deserializeMethodName : String} {target : C}
    {d d' : Decorations C} (hnew : name ∉ d.decoratedModels.map Prod.fst)
    (h : classes.serialize name serializeMethodName deserializeMethodName target d = .ok d') :
    d'.serializeKey target = some name ∧
      (∀ c ≠ target, d'.serializeKey c = d.serializeKey c) ∧
      (∀ old ∈ d.serializeKey target, old = name) ∧
      d'.decoratedModels = d.decoratedModels ++
        [(name, { Class := target, serializeMethodName := serializeMethodName
                  deserializeMethodName := deserializeMethodName })] := by
  have hdefined : ∃ d₁, d.defineSerializeKey target name = .ok d₁ ∧ d' =
      { d₁ with
        decoratedModels := mapSet name
          { Class := target, serializeMethodName := serializeMethodName
            deserializeMethodName := deserializeMethodName } d₁.decoratedModels } := by
    unfold serialize throwIfTrue at h
    split at h
    · contradiction
    · split at h
      · contradiction
      · cases hd : d.defineSerializeKey target name with
        | error err =>
            rw [hd] at h
            contradiction
        | ok d₁ =>
            rw [hd] at h
            exact ⟨d₁, rfl, (Except.ok.inj h).symm⟩
  obtain ⟨d₁, hd₁, rfl⟩ := hdefined
  unfold Decorations.defineSerializeKey at hd₁
  cases hkey : d.serializeKey target with
  | none =>
      rw [hkey] at hd₁
      cases hd₁
      exact ⟨Function.update_self _ _ _, fun c hc => Function.update_of_ne hc _ _, by simp,
        mapSet_of_not_mem hnew⟩
  | some defined =>
      rw [hkey] at hd₁
      dsimp only at hd₁
      split at hd₁
      · next heq =>
          cases hd₁
          subst heq
          exact ⟨hkey, fun _ _ => rfl, by simp, mapSet_of_not_mem hnew⟩
      · contradiction

end Classes

end IdempotentTransformer
