import IdempotentTransformer.Client.MessagePack
import IdempotentTransformer.Library.Transition

/-!
# IdempotentTransformer.Serialization

Contract-based serialization, over every program that decorates its classes
and configures MessagePack as it loads.

* `Setup.Sound` — what loading keeps: every entry's class has the entry's
  name, and no class is decorated after one that extends it;
* `contract_round_trips` — what was serialized deserializes to itself, every
  instance rebuilt by its own class.
-/

namespace IdempotentTransformer

open Library

variable {C S D B : Type}

/-! ## Loading -/

/-- What a program does to the serializer while it loads. -/
inductive Loading (C : Type)
  /-- A class declaration with its decorator. -/
  | decorate (name serializeMethodName deserializeMethodName : String) (target : C)
  | configure

namespace Setup

variable [DecidableEq C]

def initial (s : Setup C) : Prop := s = .empty C

/-- One step; a decorator that throws ends the program. -/
def step (classes : Classes C S D) : Step (Setup C) (Loading C)
  | s, .decorate name serializeMethodName deserializeMethodName target =>
    match classes.serialize name serializeMethodName deserializeMethodName target
      s.decorations with
    | .ok decorations => some { s with decorations := decorations }
    | .error _ => none
  | s, .configure => some s.configure

/-- Names are used once, and a class is decorated before those that extend it. -/
def InOrder (classes : Classes C S D) (s : Setup C) : Loading C → Prop
  | .decorate name _ _ target =>
    name ∉ s.decorations.decoratedModels.map Prod.fst ∧
      ∀ model ∈ s.decorations.decoratedModels.map Prod.snd, target ∉ classes.chain model.Class
  | .configure => True

instance (classes : Classes C S D) (s : Setup C) (l : Loading C) :
    Decidable (s.InOrder classes l) := by
  unfold InOrder
  split <;> infer_instance

/-- The programs that decorate in order. -/
def Reached (classes : Classes C S D) (s : Setup C) : Prop :=
  Reachable (step classes) (InOrder classes) initial s

/-- What the decorations say about each other. -/
structure Sound (classes : Classes C S D) (s : Setup C) : Prop where
  named : ∀ name model, (name, model) ∈ s.decorations.decoratedModels →
    s.decorations.serializeKey model.Class = some name
  nodup : (s.decorations.decoratedModels.map Prod.fst).Nodup
  ordered : (s.decorations.decoratedModels.map Prod.snd).Pairwise fun earlier later =>
    later.Class ∉ classes.chain earlier.Class

variable {classes : Classes C S D} {s s' : Setup C}

theorem sound_step {l : Loading C} (h : s.Sound classes) (hok : s.InOrder classes l)
    (hs : step classes s l = some s') : s'.Sound classes := by
  cases l with
  | configure =>
      cases hs
      exact ⟨h.named, h.nodup, h.ordered⟩
  | decorate name serializeMethodName deserializeMethodName target =>
      obtain ⟨hnew, hlast⟩ := hok
      simp only [step] at hs
      split at hs
      · next d hd =>
          cases hs
          obtain ⟨htarget, hothers, -, hmodels⟩ := Classes.serialize_eq_ok hnew hd
          constructor
          case named =>
            intro name' model hmem
            rw [hmodels, List.mem_append, List.mem_singleton] at hmem
            rcases hmem with hold | hlatest
            · have hne : model.Class ≠ target := by
                intro heq
                exact hlast model (List.mem_map_of_mem (f := Prod.snd) hold)
                  (heq ▸ classes.mem_chain model.Class)
              rw [hothers _ hne]
              exact h.named name' model hold
            · cases hlatest
              exact htarget
          case nodup =>
            rw [hmodels, List.map_append, List.nodup_append']
            exact ⟨h.nodup, List.nodup_singleton _, by simpa using hnew⟩
          case ordered =>
            rw [hmodels, List.map_append, List.pairwise_append]
            exact ⟨h.ordered, List.pairwise_singleton _ _, by simpa using hlast⟩
      · contradiction

theorem Reached.sound (hr : s.Reached classes) : s.Sound classes := by
  refine hr.invariant (Sound classes) ?_ fun _ _ _ h hok hs => sound_step h hok hs
  rintro _ rfl
  exact ⟨by simp [empty, Decorations.empty], by simp [empty, Decorations.empty],
    by simp [empty, Decorations.empty]⟩

end Setup

/-! ## Values -/

namespace Classes

variable (classes : Classes C S D) (d : Decorations C)

/-- What an instance of a decorated class serializes to. -/
def SerializesTo (object : Instance C S) (value : Datum C S D) : Prop :=
  ∃ name model, (name, model) ∈ d.decoratedModels ∧ model.Class = object.Class ∧
    classes.callMethod object model.serializeMethodName = .ok value

/-- An instance rebuilt by its own class's `deserialize` method. -/
def RebuiltBy (data : Datum C S D) (object : Instance C S) : Prop :=
  ∃ name model value, (name, model) ∈ d.decoratedModels ∧ model.Class = object.Class ∧
    data = .node .array [.plain (.string name), value] ∧
    classes.callStatic object.Class model.deserializeMethodName value = .ok (.object object)

/-- Each class's `deserialize` method is inverse to its `serialize` method. -/
def Inverse : Prop :=
  ∀ name model, (name, model) ∈ d.decoratedModels → ∀ fields value,
    classes.callMethod ⟨model.Class, fields⟩ model.serializeMethodName = .ok value →
    classes.callStatic model.Class model.deserializeMethodName value =
      .ok (.object ⟨model.Class, fields⟩)

/-- Plain data and instances of decorated classes, nested to some depth, also
inside what `serialize` methods return. -/
def ValueTree (value : Datum C S D) : Prop := Nested (classes.SerializesTo d) value

/-- What is written for an instance: its class's name beside what it serializes to. -/
def Writes (object : Instance C S) (data : Datum C S D) : Prop :=
  ∃ name model value, (name, model) ∈ d.decoratedModels ∧ model.Class = object.Class ∧
    data = .node .array [.plain (.string name), value] ∧
    classes.callMethod object model.serializeMethodName = .ok value

variable {classes d}

/-- The names beside the values nest no deeper. -/
theorem ValueTree.writes {value : Datum C S D} (h : classes.ValueTree d value) :
    Nested (classes.Writes d) value := by
  induction h with
  | plain p => exact .plain p
  | node h ih => exact .node ih
  | object hw h ih =>
      obtain ⟨name, model, hmodel, hclass, hcall⟩ := hw
      exact .object ⟨name, model, _, hmodel, hclass, rfl, hcall⟩ (.pair (.plain _) ih)

end Classes

/-! ## The round trip -/

namespace MessagePack

variable [DecidableEq C] {classes : Classes C S D} {s : Setup C}

/-- **Its own class writes an instance and reads it back** after `configure`. -/
theorem object_round_trips (h : s.Sound classes) (hinverse : classes.Inverse s.decorations)
    {object : Instance C S} {data : Datum C S D}
    (hw : classes.Writes s.decorations object data) :
    ∃ e e', (extensions classes s.configure).find? (fun e => e.applies object) = some e ∧
      e.write object = .ok data ∧
      (extensions classes s.configure).find? (fun e' => e'.type = e.type) = some e' ∧
      e'.read data = .ok (.object object) ∧ classes.RebuiltBy s.decorations data object := by
  obtain ⟨name, model, value, hmodel, hclass, rfl, hcall⟩ := hw
  obtain ⟨Class, fields⟩ := object
  obtain rfl : model.Class = Class := hclass
  have hrebuild := hinverse name model hmodel fields value hcall
  have hmem : model ∈ s.configure.extensions := by
    rw [Setup.extensions_configure, List.mem_append, List.mem_reverse]
    exact .inl (List.mem_map_of_mem (f := Prod.snd) hmodel)
  obtain ⟨e', he', hread⟩ := find_read classes hmem
  refine ⟨_, e', find_extension classes hmodel h.ordered fields, ?_, he', ?_, ?_⟩
  · simp only [Classes.extension, Classes.write, hcall,
      Classes.serializeKey_of_own (h.named name model hmodel)]
    rfl
  · have hlookup : s.configure.decorations.decoratedModels.lookup name = some model :=
      lookup_of_mem h.nodup hmodel
    simp only [hread, Classes.read, element, List.getElem?_cons_zero, List.getElem?_cons_succ,
      Option.getD_some, hlookup]
    exact hrebuild
  · exact ⟨name, model, value, hmodel, rfl, rfl, hrebuild⟩

/-- **Value trees round-trip** once everything is configured. -/
theorem round_trips {packr : Packr (Plain D) (Instance C S) Thrown B}
    (hpackr : packr.Documented) (h : s.Sound classes) (hinverse : classes.Inverse s.decorations)
    {value : Datum C S D}
    (hvalue : classes.ValueTree s.decorations value) :
    ∃ packed, serialize classes packr s.configure value = .ok (packr.buffer packed) ∧
      deserialize classes packr s.configure (.uint8Array (packr.buffer packed)) = .ok value ∧
      Rebuilt (classes.RebuiltBy s.decorations) packed value := by
  obtain ⟨packed, hpacks, hunpacks, hrebuilt⟩ := hvalue.writes.roundTrip
    fun object data hw => object_round_trips h hinverse hw
  exact ⟨packed, hpackr.pack hpacks, hpackr.unpack hunpacks, hrebuilt⟩

end MessagePack

/-- **Contract-based serialization round-trips**: in every program that decorates
its classes under distinct names, each after those it extends, and configures
MessagePack any number of times, the last time when all are decorated. -/
theorem contract_round_trips [DecidableEq C] {classes : Classes C S D} {s : Setup C}
    {packr : Packr (Plain D) (Instance C S) Thrown B} (hpackr : packr.Documented)
    (hr : s.Reached classes) (hinverse : classes.Inverse s.decorations) {value : Datum C S D}
    (hvalue : classes.ValueTree s.decorations value) :
    ∃ packed, MessagePack.serialize classes packr s.configure value =
      .ok (packr.buffer packed) ∧
      Rebuilt (classes.RebuiltBy s.decorations) packed value ∧
      ∀ data ∈ [SerializedData.blob (packr.buffer packed), .uint8Array (packr.buffer packed)],
        MessagePack.deserialize classes packr s.configure data = .ok value := by
  obtain ⟨packed, hserialize, hdeserialize, hrebuilt⟩ :=
    MessagePack.round_trips hpackr hr.sound hinverse hvalue
  refine ⟨packed, hserialize, hrebuilt, ?_⟩
  intro data hdata
  rcases List.mem_pair.mp hdata with rfl | rfl
  · exact hdeserialize
  · exact hdeserialize

/-! ## A class and one that extends it -/

inductive PaymentClass
  | payment
  | refund
deriving DecidableEq

/-- A refund is a payment; it serializes with the payment it is for. -/
def paymentClasses : Classes PaymentClass (Nat × Nat) Nat where
  chain
    | .payment => [.payment]
    | .refund => [.refund, .payment]
  mem_chain_self c := by cases c <;> rfl
  method
    | .payment, "toJSON" => some fun fields =>
        .ok (.node (.object ["amount", "fee"]) [.plain (.data fields.1),
          .plain (.data fields.2)])
    | .refund, "toJSON" => some fun fields =>
        .ok (.node (.object ["amount", "payment"])
          [.plain (.data fields.1), .object ⟨.payment, (fields.1, fields.2)⟩])
    | _, _ => none
  static
    | .payment, "fromJSON" => some fun
        | .node _ [.plain (.data amount), .plain (.data fee)] =>
            .ok (.object ⟨.payment, (amount, fee)⟩)
        | _ => .error (.error "not a payment")
    | .refund, "fromJSON" => some fun
        | .node _ [.plain (.data amount), .object payment] =>
            .ok (.object ⟨.refund, (amount, payment.fields.2)⟩)
        | _ => .error (.error "not a refund")
    | _, _ => none

/-- MessagePack is configured before the second class is there, too. -/
def loadPayments : List (Loading PaymentClass) :=
  [.decorate "Payment" "toJSON" "fromJSON" .payment, .configure,
    .decorate "Refund" "toJSON" "fromJSON" .refund]

def refunded : Datum PaymentClass (Nat × Nat) Nat :=
  .node .array [.object ⟨.refund, (20, 1)⟩, .plain (.string "refunded")]

theorem refund_round_trips : ∃ s : Setup PaymentClass, s.Reached paymentClasses ∧
    ∃ packed, MessagePack.serialize paymentClasses
      (.reference (.error "RangeError")) s.configure
        refunded = .ok packed ∧
      MessagePack.deserialize paymentClasses (.reference (.error "RangeError")) s.configure
        (.uint8Array packed) = .ok refunded := by
  obtain ⟨s, hs⟩ : ∃ s, execOk (Setup.step paymentClasses) (Setup.InOrder paymentClasses)
    (.empty PaymentClass) loadPayments = some s := ⟨_, rfl⟩
  have hr : s.Reached paymentClasses := .of_execOk (.start rfl) hs
  have hmodels : s.decorations.decoratedModels =
      [("Payment", ⟨.payment, "toJSON", "fromJSON"⟩),
        ("Refund", ⟨.refund, "toJSON", "fromJSON"⟩)] :=
    eq_of_outcome hs (fun s => s.decorations.decoratedModels) rfl
  have hinverse : paymentClasses.Inverse s.decorations := by
    intro name model hmodel fields value hcall
    rw [hmodels] at hmodel
    rcases List.mem_pair.mp hmodel with heq | heq
    · cases heq
      cases hcall
      rfl
    · cases heq
      cases hcall
      rfl
  have hpayment : paymentClasses.SerializesTo s.decorations ⟨.payment, (20, 1)⟩ _ :=
    ⟨"Payment", _, by rw [hmodels]; exact List.mem_cons_self, rfl, rfl⟩
  have hrefund : paymentClasses.SerializesTo s.decorations ⟨.refund, (20, 1)⟩ _ :=
    ⟨"Refund", _, by rw [hmodels]; exact List.mem_cons_of_mem _ List.mem_cons_self, rfl, rfl⟩
  have hvalue : paymentClasses.ValueTree s.decorations refunded := by
    refine .pair (.object hrefund (.pair (.plain _) ?_)) (.plain _)
    exact .object hpayment (.pair (.plain _) (.plain _))
  obtain ⟨packed, hserialize, -, hdeserialize⟩ :=
    contract_round_trips (Packr.documented_reference (.error "RangeError")) hr hinverse hvalue
  exact ⟨s, hr, packed, hserialize, hdeserialize _ (List.mem_pair.mpr (.inr rfl))⟩

end IdempotentTransformer
