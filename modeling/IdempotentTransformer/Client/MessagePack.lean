import IdempotentTransformer.Client.Decorator

/-!
# IdempotentTransformer.Client.MessagePack

The MessagePack serializer.  Every decorated model is an extension of type 1
of the packer, which is a parameter: `write` leaves the class's name beside
what the instance serializes to, and any `read` finds the model by that name.

Decorating goes on while `configure` is called; `Setup` is what both have left
behind.

* `find_extension` — after `configure`, an instance is packed by the extension
  of its own class.
-/

namespace IdempotentTransformer

open Library

variable {C S D B : Type}

/-! ## Extensions -/

def modelIsNotDecorated (modelName : String) : Thrown :=
  .error (modelName ++ " is not decorated with @Serialize, please decorate it.")

/-- `data[i]`. -/
def element (data : Datum C S D) (i : Nat) : Datum C S D :=
  match data with
  | .node .array vs => vs[i]?.getD (.plain .undefined)
  | _ => .plain .undefined

namespace Classes

/-- `Model[SERIALIZE_NAME_METADATA_KEY]`: the name of the nearest class in the
chain that has its own. -/
def serializeKey (classes : Classes C S D) (d : Decorations C) (c : C) : Plain D :=
  match (classes.chain c).findSome? d.serializeKey with
  | some name => .string name
  | none => .undefined

/-- A class's own name is its static name. -/
theorem serializeKey_of_own {classes : Classes C S D} {d : Decorations C} {c : C}
    {name : String}
    (h : d.serializeKey c = some name) : classes.serializeKey d c = .string name := by
  obtain ⟨rest, hrest⟩ := List.head?_eq_some_iff.mp (classes.mem_chain_self c)
  rw [serializeKey, hrest, List.findSome?_cons, h]

theorem mem_chain (classes : Classes C S D) (c : C) : c ∈ classes.chain c :=
  List.mem_of_mem_head? (classes.mem_chain_self c)

variable [DecidableEq C] (classes : Classes C S D) (d : Decorations C)

/-- `write`: the name and what the instance serializes to. -/
def write (Model : C) (serializeMethodName : String) (object : Instance C S) :
    Except Thrown (Datum C S D) := do
  let key := classes.serializeKey d Model
  return .node .array [.plain key, ← classes.callMethod object serializeMethodName]

/-- `read`: the model is looked up by the name, whichever extension reads. -/
def read (data : Datum C S D) : Except Thrown (Datum C S D) :=
  match element data 0 with
  | .plain (.string key) =>
    match d.decoratedModels.lookup key with
    | none => .error (modelIsNotDecorated key)
    | some Model => classes.callStatic Model.Class Model.deserializeMethodName (element data 1)
  -- A class without a name is the only other thing `write` leaves.
  | _ => .error (modelIsNotDecorated "undefined")

/-- The extension `configure` adds for a model. -/
def extension (model : TDecoratedModel C) : Extension (Plain D) (Instance C S) Thrown where
  type := 1
  applies object := decide (model.Class ∈ classes.chain object.Class)
  write := classes.write d model.Class model.serializeMethodName
  read := classes.read d

end Classes

/-! ## MessagePack -/

/-- The decorations so far, and the models whose extensions were added, most
recent first. -/
structure Setup (C : Type) where
  decorations : Decorations C
  extensions : List (TDecoratedModel C)

/-- No class is decorated and nothing is configured. -/
def Setup.empty (C : Type) : Setup C := { decorations := .empty C, extensions := [] }

/-- `configure(decoratedModels)`. -/
def Setup.configure (s : Setup C) : Setup C :=
  { s with
    extensions :=
      (s.decorations.decoratedModels.map Prod.snd).foldl (fun added model => model :: added)
        s.extensions }

theorem Setup.extensions_configure (s : Setup C) :
    s.configure.extensions =
      (s.decorations.decoratedModels.map Prod.snd).reverse ++ s.extensions := by
  rw [configure, List.foldl_flip_cons_eq_append']

/-- What `deserialize` is given. -/
inductive SerializedData (B : Type)
  | blob (arrayBuffer : B)
  | uint8Array (buffer : B)
  | other

namespace MessagePack

variable [DecidableEq C] (classes : Classes C S D)
  (packr : Packr (Plain D) (Instance C S) Thrown B) (s : Setup C)

/-- The packer's extensions as they are now: they read the decorations when they
are called. -/
def extensions : List (Extension (Plain D) (Instance C S) Thrown) :=
  s.extensions.map (classes.extension s.decorations)

def serialize (data : Datum C S D) : Except Thrown B := packr.pack (extensions classes s) data

def deserialize : SerializedData B → Except Thrown (Datum C S D)
  | .blob arrayBuffer => packr.unpack (extensions classes s) arrayBuffer
  | .uint8Array buffer => packr.unpack (extensions classes s) buffer
  | .other => .error (.error "Input data must be either a Blob or Uint8Array")

/-- All extensions read alike. -/
theorem find_read {s : Setup C} {model : TDecoratedModel C} (h : model ∈ s.extensions) :
    ∃ e, (extensions classes s).find? (fun e => e.type = 1) = some e ∧
      e.read = classes.read s.decorations := by
  cases hs : s.extensions with
  | nil =>
      rw [hs] at h
      contradiction
  | cons latest rest =>
      refine ⟨classes.extension s.decorations latest, ?_, rfl⟩
      rw [extensions, hs, List.map_cons, List.find?_cons_of_pos]
      rfl

/-- **An instance is packed by its own class's extension** after `configure`, if
no class decorated later is one its class extends. -/
theorem find_extension {s : Setup C} {name : String} {model : TDecoratedModel C}
    (h : (name, model) ∈ s.decorations.decoratedModels)
    (horder : (s.decorations.decoratedModels.map Prod.snd).Pairwise fun earlier later =>
      later.Class ∉ classes.chain earlier.Class)
    (fields : S) :
    (extensions classes s.configure).find? (fun e => e.applies ⟨model.Class, fields⟩) =
      some (classes.extension s.decorations model) := by
  obtain ⟨earlier, later, hmodels⟩ := List.append_of_mem (List.mem_map_of_mem (f := Prod.snd) h)
  rw [hmodels, List.pairwise_append, List.pairwise_cons] at horder
  obtain ⟨-, ⟨hlater, -⟩, -⟩ := horder
  rw [List.find?_eq_some_iff_append]
  refine ⟨by simp [Classes.extension, classes.mem_chain], later.reverse.map
    (classes.extension s.decorations), (earlier.reverse ++ s.extensions).map
    (classes.extension s.decorations), ?_, ?_⟩
  · rw [extensions, Setup.extensions_configure, hmodels, ← List.map_cons, ← List.map_append,
      List.reverse_append, List.reverse_cons]
    simp only [List.append_assoc, List.singleton_append]
    rfl
  · intro e he
    obtain ⟨latest, hlatest, rfl⟩ := List.mem_map.mp he
    simp [Classes.extension, hlater latest (List.mem_reverse.mp hlatest)]

end MessagePack

end IdempotentTransformer
