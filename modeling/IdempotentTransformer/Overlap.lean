import IdempotentTransformer.Requests

/-!
# IdempotentTransformer.Overlap

Any number of `execute` calls on one runner, none waiting for another.

They share the runner's position: every request reads it afresh and every
return moves it, so what a call stores goes where the runner then stands, not
where the call was granted its lease.  An `Overlap` remembers, beside the
network, the lease request each call's task started on.

* `Apart` — the steps that keep calls out of each other's way;
* `calls_keep_to_their_positions` — in the runs of such steps each call stores
  and releases at its own position, and no result is stored under a position
  or key of another's lease.
-/

namespace IdempotentTransformer

open Library

/-! ## Places -/

/-- Where a result is stored. -/
structure Place where
  workflowId : String
  position : Int
  idempotencyKey : String
deriving DecidableEq, Repr

def LeaseCheckpointInput.place (data : LeaseCheckpointInput) : Place :=
  { workflowId := data.workflowId, position := data.position,
    idempotencyKey := data.idempotencyKey }

def CheckpointInput.place (data : CheckpointInput) : Place :=
  { workflowId := data.workflowId, position := data.position,
    idempotencyKey := data.idempotencyKey }

/-- One position, or one key, of one workflow. -/
def Place.Meets (p q : Place) : Prop :=
  p.workflowId = q.workflowId ∧ (p.position = q.position ∨ p.idempotencyKey = q.idempotencyKey)

instance (p q : Place) : Decidable (p.Meets q) := inferInstanceAs (Decidable (_ ∧ _))

theorem Place.Meets.symm {p q : Place} (h : p.Meets q) : q.Meets p :=
  ⟨h.1.symm, h.2.imp Eq.symm Eq.symm⟩

/-- The place a handled request was granted a lease of, and to which call of the
runner. -/
def Served.grantedPlace (runner : Nat) (s : Served) : Option (Nat × Place) :=
  match s.sender, s.handled.request with
  | some sender, .leaseCheckpoint data =>
    if sender.runner = runner ∧ s.handled.reply = granted then some (sender.call, data.place)
    else none
  | _, _ => none

/-- The places granted to calls of the runner, latest first. -/
def grantedPlaces (runner : Nat) (served : List Served) : List (Nat × Place) :=
  served.filterMap (Served.grantedPlace runner)

/-- Every checkpoint was handled while its call's lease of that place was the last
lease of that position, and of that key, granted to a call of its runner. -/
def StoredByHolder (served : List Served) : Prop :=
  ∀ s earlier, s :: earlier <:+ served → ∀ sender data, s.sender = some sender →
    s.handled.request = .checkpoint data →
    Undisputed Place.Meets sender.call data.place (grantedPlaces sender.runner earlier)

/-! ## Overlapping calls -/

/-- The call works on its lease: it may still send a checkpoint or a release. -/
def Phase.holding {V : Type} : Phase V → Bool
  | .running _ => true
  | .serializing _ _ => true
  | .checkpointing _ _ _ => true
  | _ => false

def Phase.hasReturned {V : Type} : Phase V → Bool
  | .returned _ => true
  | _ => false

/-- A network with the lease requests the tasks of its calls started on. -/
structure Overlap (V : Type) where
  net : Net V
  held : Nat → Option LeaseCheckpointInput

/-- The lease request a call waits for, once it is granted. -/
def Net.grantFor {V : Type} (net : Net V) (call : Call V) : Option LeaseCheckpointInput :=
  match call.awaiting with
  | some n =>
    match net.rpcs[n]? with
    | some rpc =>
      match rpc.request with
      | .leaseCheckpoint data => if rpc.reply = some granted then some data else none
      | _ => none
    | none => none
  | none => none

/-- No call of the runner but `c` works on its lease. -/
def Net.OthersIdle {V : Type} (net : Net V) (c runner : Nat) : Prop :=
  ∀ c' < net.calls.length, ∀ call ∈ net.calls[c']?, c' ≠ c → call.runner = runner →
    call.phase.holding = false

instance {V : Type} (net : Net V) (c runner : Nat) : Decidable (net.OthersIdle c runner) :=
  inferInstanceAs (Decidable (∀ c' < net.calls.length, ∀ call ∈ net.calls[c']?, _ → _ → _))

/-- A checkpoint of the call that is on its way. -/
def Rpc.storesFor (c : Nat) (rpc : Rpc) : Option Place :=
  match rpc.request with
  | .checkpoint data => if rpc.call = c ∧ rpc.reply = none then some data.place else none
  | _ => none

/-- The call that takes a turn. -/
def NetLabel.mover? {V : Type} : NetLabel V → Option Nat
  | .deliver c _ => some c
  | .fail c _ _ => some c
  | .resume c _ => some c
  | _ => none

namespace Overlap

variable {V : Type}

def initial (t : Overlap V) : Prop := t.net.initial ∧ t.held = fun _ => none

def start (V : Type) : Overlap V := { net := .start V, held := fun _ => none }

/-- A grant that is delivered is what the task starts on. -/
def heldAfter (t : Overlap V) : NetLabel V → Nat → Option LeaseCheckpointInput
  | .deliver c _ =>
    match t.net.calls[c]? with
    | some call =>
      match call.phase, t.net.grantFor call with
      | .leasing _, some data => Function.update t.held c (some data)
      | _, _ => t.held
    | none => t.held
  | _ => t.held

def step (evictable : CachedLease → Int → Bool) (wire : Wire) : Step (Overlap V) (NetLabel V)
  | t, l => (Net.step evictable wire t.net l).map fun net =>
      { net := net, held := t.heldAfter l }

/-- Where a call may still store: under the lease it works on or is being granted,
and where a checkpoint of it is on its way. -/
def claims (t : Overlap V) (c : Nat) : List Place :=
  (match t.net.calls[c]? with
    | some call =>
      if call.phase.holding then ((t.held c).map LeaseCheckpointInput.place).toList
      else ((t.net.grantFor call).map LeaseCheckpointInput.place).toList
    | none => []) ++ t.net.rpcs.filterMap (Rpc.storesFor c)

/-- No call returns while another call of its runner works on its lease. -/
def ReturnsAlone (evictable : CachedLease → Int → Bool) (wire : Wire) (t : Overlap V)
    (l : NetLabel V) : Prop :=
  ∀ c ∈ l.mover?, ∀ net' ∈ Net.step evictable wire t.net l, ∀ call ∈ net'.calls[c]?,
    call.phase.hasReturned = true → t.net.OthersIdle c call.runner

/-- A grant arrives where it was asked for, and a lease is granted when no other
call of the runner may still store in its way. -/
def GrantsApart (t : Overlap V) : NetLabel V → Prop
  | .deliver c _ =>
    ∀ call ∈ t.net.calls[c]?, ∀ data ∈ t.net.grantFor call,
      ∀ runner ∈ t.net.runners[call.runner]?, data.position = runner.position
  | .handle n env =>
    ∀ rpc ∈ t.net.rpcs[n]?, ∀ call ∈ t.net.calls[rpc.call]?,
      (rpc.request.handle env t.net.world).1 = granted →
      match rpc.request with
      | .leaseCheckpoint data =>
        ∀ c < t.net.calls.length, ∀ other ∈ t.net.calls[c]?, c ≠ rpc.call →
          other.runner = call.runner → ∀ place ∈ t.claims c, ¬ data.place.Meets place
      | _ => True
  | _ => True

/-- The steps that keep calls out of each other's way. -/
def Apart (evictable : CachedLease → Int → Bool) (wire : Wire) (t : Overlap V)
    (l : NetLabel V) : Prop := ReturnsAlone evictable wire t l ∧ t.GrantsApart l

instance (evictable : CachedLease → Int → Bool) (wire : Wire) (t : Overlap V) (l : NetLabel V) :
    Decidable (ReturnsAlone evictable wire t l) := by
  unfold ReturnsAlone
  infer_instance

instance (t : Overlap V) (l : NetLabel V) : Decidable (t.GrantsApart l) := by
  unfold GrantsApart
  split
  · infer_instance
  · refine @Option.decidableForallMem _ _ (fun rpc => ?_) _
    refine @Option.decidableForallMem _ _ (fun call => ?_) _
    refine @instDecidableForall _ _ inferInstance ?_
    split <;> infer_instance
  · infer_instance

instance (evictable : CachedLease → Int → Bool) (wire : Wire) (t : Overlap V) (l : NetLabel V) :
    Decidable (Apart evictable wire t l) := inferInstanceAs (Decidable (_ ∧ _))

/-- What calls keep to that are kept apart. -/
structure OnOwnPositions (t : Overlap V) : Prop where
  /-- Every checkpoint and release a call sent is about the position of the lease
  its task started on. -/
  sent : ∀ rpc ∈ t.net.rpcs, rpc.request.endsLease = true →
    ∃ data, t.held rpc.call = some data ∧
      rpc.request.leasePosition = some (data.workflowId, data.position)
  /-- Every result is stored under the position and key leased to its call last. -/
  stored : StoredByHolder t.net.served
  /-- No two calls of a runner may store under one position or key. -/
  exclusive : ∀ (c c' : Nat) call call' place place', t.net.calls[c]? = some call →
    t.net.calls[c']? = some call' → call.runner = call'.runner → c ≠ c' → place ∈ t.claims c →
    place' ∈ t.claims c' → ¬ place.Meets place'

/-! ## What a run keeps -/

/-- The places a call may still store at. -/
inductive Claims (t : Overlap V) (c : Nat) : Place → Prop
  /-- under the lease it works on -/
  | works {call : Call V} {data : LeaseCheckpointInput} (hc : t.net.calls[c]? = some call)
      (hw : call.phase.holding = true) (hd : t.held c = some data) : Claims t c data.place
  /-- under the lease it is being granted -/
  | waits {call : Call V} {data : LeaseCheckpointInput} (hc : t.net.calls[c]? = some call)
      (hw : call.phase.holding = false) (hd : t.net.grantFor call = some data) :
        Claims t c data.place
  /-- where a checkpoint is on its way -/
  | stores {n : Nat} {rpc : Rpc} {data : CheckpointInput} (hn : t.net.rpcs[n]? = some rpc)
      (hcall : rpc.call = c) (hd : rpc.request = .checkpoint data) (hp : rpc.reply = none) :
      Claims t c data.place

theorem storesFor_eq_some {c : Nat} {rpc : Rpc} {place : Place} :
    rpc.storesFor c = some place ↔ ∃ data, rpc.request = .checkpoint data ∧ rpc.call = c ∧
      rpc.reply = none ∧ place = data.place := by
  unfold Rpc.storesFor
  cases hrequest : rpc.request with
  | checkpoint data =>
      simp only [Option.ite_none_right_eq_some, Option.some.injEq, Request.checkpoint.injEq,
        exists_eq_left', and_assoc]
      exact and_congr_right' (and_congr_right' eq_comm)
  | _ => simp

theorem mem_claims_iff {t : Overlap V} {c : Nat} {place : Place} :
    place ∈ t.claims c ↔ t.Claims c place := by
  unfold claims
  rw [List.mem_append, List.mem_filterMap]
  constructor
  · rintro (hmem | ⟨rpc, hrpc, hstores⟩)
    · split at hmem
      · next call hc =>
          split at hmem
          · next hw =>
              rw [Option.mem_toList, Option.map_eq_some_iff] at hmem
              obtain ⟨data, hd, rfl⟩ := hmem
              exact .works hc hw hd
          · next hw =>
              rw [Option.mem_toList, Option.map_eq_some_iff] at hmem
              obtain ⟨data, hd, rfl⟩ := hmem
              exact .waits hc (Bool.eq_false_of_not_eq_true hw) hd
      · contradiction
    · obtain ⟨n, hn⟩ := List.getElem?_of_mem hrpc
      obtain ⟨data, hd, hcall, hp, rfl⟩ := storesFor_eq_some.mp hstores
      exact .stores hn hcall hd hp
  · rintro (⟨hc, hw, hd⟩ | ⟨hc, hw, hd⟩ | ⟨hn, hcall, hd, hp⟩)
    · simp [hc, hw, hd]
    · simp [hc, hw, hd]
    · exact .inr ⟨_, List.mem_of_getElem? hn, storesFor_eq_some.mpr ⟨_, hd, hcall, hp, rfl⟩⟩

theorem grantFor_eq_some {net : Net V} {call : Call V} {data : LeaseCheckpointInput} :
    net.grantFor call = some data ↔ ∃ (n : Nat) (rpc : Rpc), call.awaiting = some n ∧
      net.rpcs[n]? = some rpc ∧ rpc.request = .leaseCheckpoint data ∧
        rpc.reply = some granted := by
  constructor
  · intro h
    unfold Net.grantFor at h
    split at h
    · next n ha =>
        split at h
        · next rpc hn =>
            split at h
            · next data' hd =>
                rw [Option.ite_none_right_eq_some, Option.some.injEq] at h
                obtain ⟨hreply, rfl⟩ := h
                exact ⟨n, rpc, ha, hn, hd, hreply⟩
            · contradiction
        · contradiction
    · contradiction
  · rintro ⟨n, rpc, ha, hn, hd, hreply⟩
    simp [Net.grantFor, ha, hn, hd, hreply]

/-- What holds of overlapping calls that are kept apart. -/
structure Kept (t : Overlap V) : Prop where
  /-- A call that works has the lease its runner stands at. -/
  holding : ∀ (c : Nat) (call : Call V), t.net.calls[c]? = some call →
    call.phase.holding = true →
    ∃ data runner, t.held c = some data ∧ t.net.runners[call.runner]? = some runner ∧
      data.workflowId = call.workflowId ∧ data.position = runner.position ∧
      data.idempotencyKey = call.execute.idempotencyKey
  sent : ∀ (n : Nat) (rpc : Rpc), t.net.rpcs[n]? = some rpc → rpc.request.endsLease = true →
    ∃ data, t.held rpc.call = some data ∧
      rpc.request.leasePosition = some (data.workflowId, data.position)
  claims : ∀ (c : Nat) (call : Call V) place, t.net.calls[c]? = some call → t.Claims c place →
    Undisputed Place.Meets c place (grantedPlaces call.runner t.net.served)
  stored : StoredByHolder t.net.served

theorem kept_initial {t : Overlap V} (h : t.initial) : t.Kept := by
  obtain ⟨⟨now, -, hnet⟩, -⟩ := h
  constructor
  case holding => simp [hnet]
  case sent => simp [hnet]
  case claims => simp [hnet]
  case stored =>
    intro s earlier hs
    rw [hnet] at hs
    exact absurd hs.length_le (by simp)

variable {t t' : Overlap V}

/-- Claims are about the calls, their requests and what they hold. -/
theorem Claims.congr {c : Nat} {place : Place} (h : t'.Claims c place)
    (hcalls : t'.net.calls = t.net.calls) (hrpcs : t'.net.rpcs = t.net.rpcs)
    (hheld : t'.held = t.held) : t.Claims c place := by
  rcases h with ⟨hc, hw, hd⟩ | ⟨hc, hw, hd⟩ | ⟨hn, hcall, hd, hp⟩
  · exact .works (hcalls ▸ hc) hw (hheld ▸ hd)
  · refine .waits (hcalls ▸ hc) hw ?_
    rw [grantFor_eq_some] at hd ⊢
    rw [← hrpcs]
    exact hd
  · exact .stores (hrpcs ▸ hn) hcall hd hp

theorem grantedPlace_eq_some {runner : Nat} {s : Served} {grant : Nat × Place} :
    s.grantedPlace runner = some grant ↔ ∃ sender data, s.sender = some sender ∧
      s.handled.request = .leaseCheckpoint data ∧ sender.runner = runner ∧
      s.handled.reply = granted ∧ grant = (sender.call, data.place) := by
  unfold Served.grantedPlace
  constructor
  · intro h
    split at h
    · next sender data hsender hdata =>
        split at h
        · next hreply =>
            exact ⟨sender, data, hsender, hdata, hreply.1, hreply.2, (Option.some.inj h).symm⟩
        · contradiction
    · contradiction
  · rintro ⟨sender, data, hsender, hdata, hrunner, hreply, rfl⟩
    rw [hsender, hdata]
    exact if_pos ⟨hrunner, hreply⟩

/-- A request that no call sent is granted nothing and stores nothing for a call. -/
theorem grantedPlaces_elsewhere (runner : Nat) (handled : Handled) (served : List Served) :
    grantedPlaces runner ({ handled := handled, sender := none } :: served) =
      grantedPlaces runner served := rfl

theorem storedByHolder_cons {s : Served} {served : List Served} (h : StoredByHolder served)
    (hs : ∀ sender data, s.sender = some sender → s.handled.request = .checkpoint data →
      Undisputed Place.Meets sender.call data.place (grantedPlaces sender.runner served)) :
    StoredByHolder (s :: served) := by
  intro s' earlier hsuffix sender data hsender hdata
  rcases List.suffix_cons_iff.mp hsuffix with heq | hold
  · obtain ⟨rfl, rfl⟩ := List.cons.inj heq
    exact hs sender data hsender hdata
  · exact h s' earlier hold sender data hsender hdata

/-- What leaves calls and requests alone keeps it. -/
theorem Kept.of_quiet (h : t.Kept) (hcalls : t'.net.calls = t.net.calls)
    (hrpcs : t'.net.rpcs = t.net.rpcs) (hheld : t'.held = t.held)
    (hrunners : ∀ (r : Nat) runner, t.net.runners[r]? = some runner →
      t'.net.runners[r]? = some runner)
    (hserved : t'.net.served = t.net.served ∨
      ∃ handled, t'.net.served = { handled := handled, sender := none } :: t.net.served) :
    t'.Kept := by
  have hgranted : ∀ r, grantedPlaces r t'.net.served = grantedPlaces r t.net.served := by
    intro r
    rcases hserved with heq | ⟨handled, heq⟩
    · rw [heq]
    · rw [heq, grantedPlaces_elsewhere]
  constructor
  case holding =>
    rw [hcalls, hheld]
    intro c call hc hw
    obtain ⟨data, runner, hd, hr, hrest⟩ := h.holding c call hc hw
    exact ⟨data, runner, hd, hrunners _ runner hr, hrest⟩
  case sent =>
    rw [hrpcs, hheld]
    exact h.sent
  case claims =>
    intro c call place hc hclaims
    rw [hgranted]
    exact h.claims c call place (hcalls ▸ hc) (hclaims.congr hcalls hrpcs hheld)
  case stored =>
    rcases hserved with heq | ⟨handled, heq⟩
    · rw [heq]
      exact h.stored
    · rw [heq]
      exact storedByHolder_cons h.stored nofun

/-- A grant a call waits for was there before a request without reply was sent. -/
theorem grantFor_append (net : Net V) {net' : Net V} {call : Call V}
    {data : LeaseCheckpointInput} {o : Option Rpc} (hrpcs : net'.rpcs = net.rpcs ++ o.toList)
    (ho : ∀ rpc, o = some rpc → rpc.reply = none) (h : net'.grantFor call = some data) :
    net.grantFor call = some data := by
  obtain ⟨n, rpc, ha, hn, hd, hreply⟩ := grantFor_eq_some.mp h
  rw [hrpcs] at hn
  rcases append_cases hn with hn | ⟨-, hnew⟩
  · exact grantFor_eq_some.mpr ⟨n, rpc, ha, hn, hd, hreply⟩
  · rw [ho rpc hnew] at hreply
    contradiction

/-- Who may still store is a call that was made. -/
theorem Claims.lt (hasked : t.net.Asked) {c : Nat} {place : Place} (h : t.Claims c place) :
    c < t.net.calls.length := by
  rcases h with ⟨hc, -, -⟩ | ⟨hc, -, -⟩ | ⟨hn, rfl, -, -⟩
  · exact (List.getElem?_eq_some_iff.mp hc).1
  · exact (List.getElem?_eq_some_iff.mp hc).1
  · obtain ⟨call, hc⟩ := hasked.sent _ _ hn
    exact (List.getElem?_eq_some_iff.mp hc).1

theorem kept_called (h : t.Kept) (hasked : t.net.Asked) {wire : Wire} {r : Nat}
    {runner : Runner} {execute : ExecuteCall} :
    ({ t with net := t.net.addCall wire r runner execute } : Overlap V).Kept := by
  constructor
  case holding =>
    intro c call hc hw
    rcases Net.calls_addCall hc with hc | ⟨-, rfl⟩
    · exact h.holding c call hc hw
    · contradiction
  case sent =>
    intro n rpc hn hends
    rcases Net.rpcs_addCall hn with hn | ⟨-, -, data, hdata, -⟩
    · exact h.sent n rpc hn hends
    · rw [hdata] at hends
      contradiction
  case claims =>
    intro c call place hc hclaims
    have hold : t.Claims c place := by
      rcases hclaims with ⟨hc, hw, hd⟩ | ⟨hc, hw, hd⟩ | ⟨hn, hcall, hd, hp⟩
      · rcases Net.calls_addCall hc with hc | ⟨-, rfl⟩
        · exact .works hc hw hd
        · contradiction
      · have hd := grantFor_append t.net (o := some _) rfl (by rintro rpc ⟨⟩; rfl) hd
        rcases Net.calls_addCall hc with hc | ⟨-, rfl⟩
        · exact .waits hc hw hd
        · obtain ⟨n, rpc, ha, hn, -⟩ := grantFor_eq_some.mp hd
          cases ha
          exact absurd (List.getElem?_eq_some_iff.mp hn).1 (lt_irrefl _)
      · rcases Net.rpcs_addCall hn with hn | ⟨-, -, data, hdata, -⟩
        · exact .stores hn hcall hd hp
        · rw [hdata] at hd
          contradiction
    rcases Net.calls_addCall hc with hc | ⟨rfl, -⟩
    · exact h.claims c call place hc hold
    · exact absurd (hold.lt hasked) (lt_irrefl _)
  case stored => exact h.stored

/-! ### A request is handled -/

section Answer

variable {env : Env} {n : Nat} {rpc : Rpc} {call : Call V}

theorem grantedPlaces_answer (r : Nat) :
    grantedPlaces r (t.net.answer env n rpc call).served =
      (Served.grantedPlace r
        { handled := Net.handledIn t.net.world env rpc.request
          sender := some { call := rpc.call, runner := call.runner } }).toList ++
        grantedPlaces r t.net.served := by
  simp only [grantedPlaces, Net.answer, Net.serve, List.filterMap_cons]
  split <;> simp_all

/-- The claims after a request was handled: those there were, and the lease it was
granted. -/
theorem claims_answer (hasked : t.net.Asked) (hn : t.net.rpcs[n]? = some rpc) {c : Nat}
    {place : Place}
    (hclaims : ({ t with net := t.net.answer env n rpc call } : Overlap V).Claims c place) :
    t.Claims c place ∨ (c = rpc.call ∧ ∃ data, rpc.request = .leaseCheckpoint data ∧
      (rpc.request.handle env t.net.world).1 = granted ∧ place = data.place) := by
  rcases hclaims with ⟨hc, hw, hd⟩ | ⟨hc, hw, hd⟩ | ⟨hm, hcall, hd, hp⟩
  · exact .inl (.works hc hw hd)
  · obtain ⟨m, rpc', ha, hm, hdata, hreply⟩ := grantFor_eq_some.mp hd
    obtain ⟨old, hold, hcall, hrequest, ⟨rfl, hnew⟩ | ⟨-, hsame⟩⟩ := Net.answer_cases hn hm
    · obtain ⟨asked, hasked', hself⟩ := hasked.awaiting c _ m hc ha
      rw [hn, Option.some.injEq] at hold hasked'
      subst hold hasked'
      rw [hreply, Option.some.injEq] at hnew
      exact .inr ⟨hself.symm, _, hrequest ▸ hdata, hnew.symm, rfl⟩
    · exact .inl (.waits hc hw (grantFor_eq_some.mpr
        ⟨m, old, ha, hold, hrequest ▸ hdata, hsame ▸ hreply⟩))
  · obtain ⟨old, hold, hcall', hrequest, ⟨rfl, hnew⟩ | ⟨-, hsame⟩⟩ := Net.answer_cases hn hm
    · rw [hp] at hnew
      contradiction
    · exact .inl (.stores hold (hcall'.symm.trans hcall) (hrequest ▸ hd) (hsame ▸ hp))

theorem kept_answered (h : t.Kept) (hasked : t.net.Asked)
    (hapart : t.GrantsApart (.handle n env)) (hn : t.net.rpcs[n]? = some rpc)
    (hc : t.net.calls[rpc.call]? = some call)
    (hp : rpc.reply = none) :
    ({ t with net := t.net.answer env n rpc call } : Overlap V).Kept := by
  constructor
  case holding => exact h.holding
  case sent =>
    intro m rpc' hm hends
    obtain ⟨old, hold, hcall, hrequest, -⟩ := Net.answer_cases hn hm
    rw [hcall, hrequest]
    exact h.sent m old hold (hrequest ▸ hends)
  case claims =>
    intro c call' place hc' hclaims
    rw [grantedPlaces_answer]
    cases hplace : Served.grantedPlace call'.runner
        { handled := Net.handledIn t.net.world env rpc.request
          sender := some { call := rpc.call, runner := call.runner } } with
    | none =>
        rcases claims_answer hasked hn hclaims with hold | ⟨rfl, data, hdata, hreply, -⟩
        · exact h.claims c call' place hc' hold
        · obtain rfl := Option.some.inj (hc.symm.trans hc')
          have hsome := hplace.symm.trans
            (grantedPlace_eq_some.mpr ⟨_, data, rfl, hdata, rfl, hreply, rfl⟩)
          contradiction
    | some grant =>
        obtain ⟨sender, data, hsender, hdata, hrunner, hreply, rfl⟩ :=
          grantedPlace_eq_some.mp hplace
        obtain rfl := Option.some.inj hsender
        have hdata : rpc.request = .leaseCheckpoint data := hdata
        have hothers := hapart rpc hn call hc hreply
        rw [hdata] at hothers
        rcases claims_answer hasked hn hclaims with hold | ⟨rfl, data', hdata', -, rfl⟩
        · refine .inr ⟨?_, h.claims c call' place hc' hold⟩
          by_cases hself : rpc.call = c
          · exact .inl hself
          · exact .inr (hothers c (hold.lt hasked) call' hc' (Ne.symm hself) hrunner.symm place
              (mem_claims_iff.mpr hold))
        · rw [hdata, Request.leaseCheckpoint.injEq] at hdata'
          exact .inl (by rw [hdata'])
  case stored =>
    refine storedByHolder_cons h.stored ?_
    intro sender data hsender hdata
    cases hsender
    exact h.claims _ _ _ hc (.stores hn rfl hdata hp)

end Answer

/-! ### A call takes a turn -/

section Turn

variable {wire : Wire} {l : NetLabel V} {c : Nat} {call : Call V} {runner : Runner}
  {input : Input V} {turn : Turn V}

/-- Only a call that waits for its lease gets a new one. -/
theorem heldAfter_of_prompts (hc : t.net.calls[c]? = some call)
    (hi : Net.Prompts t.net c call l input) {c' : Nat}
    (h : c' ≠ c ∨ ∀ k, call.phase ≠ .leasing k) : t.heldAfter l c' = t.held c' := by
  cases hi with
  | failed ha => rfl
  | resumed ha => rfl
  | delivered ho =>
      simp only [heldAfter, hc]
      cases hk : call.phase with
      | leasing k =>
          have hne : c' ≠ c := h.resolve_right fun hno => hno k hk
          cases t.net.grantFor call with
          | none => rfl
          | some data => exact Function.update_of_ne hne _ _
      | _ => rfl

/-- A call that works after a turn worked before, or was just granted its lease. -/
theorem holding_cases (ha : ExecuteCall.Advances call.execute runner call.phase input turn)
    (hw : turn.phase.holding = true) :
    turn.runner = runner ∧ (call.phase.holding = true ∨ ∃ k value remaining now,
      call.phase = .leasing k ∧ input = .reply (.ok (.leaseCheckpoint value remaining)) now ∧
      value.filter TSerialized.truthy = none ∧ remaining.filter (· ≠ 0) = none) := by
  constructor
  · rcases ha.runner_eq with hsame | ⟨-, v, hv⟩
    · exact hsame
    · rw [hv] at hw
      contradiction
  · cases hphase : turn.phase with
    | running now =>
        obtain ⟨k, value, remaining, hrest⟩ := ha.running_cases hphase
        exact .inr ⟨k, value, remaining, now, hrest⟩
    | serializing beforeExecution v =>
        rw [(ha.serializing_cases hphase).1]
        exact .inl rfl
    | checkpointing leaseExpiry v value =>
        rcases ha.checkpointing_cases hphase with ⟨_, _, hold, -⟩ | hold
        · exact .inl (by rw [hold]; rfl)
        · exact .inl (by rw [hold]; rfl)
    | _ =>
        rw [hphase] at hw
        contradiction

/-- A call that works after a turn holds a lease it could store under before. -/
theorem held_of_holding (h : t.Kept) (hasked : t.net.Asked) (hapart : t.GrantsApart l)
    (hc : t.net.calls[c]? = some call) (hr : t.net.runners[call.runner]? = some runner)
    (hi : Net.Prompts t.net c call l input)
    (ha : ExecuteCall.Advances call.execute runner call.phase input turn)
    (hw : turn.phase.holding = true) :
    ∃ data, t.heldAfter l c = some data ∧ t.Claims c data.place ∧
      data.workflowId = call.workflowId ∧ data.position = runner.position ∧
      data.idempotencyKey = call.execute.idempotencyKey := by
  rcases (holding_cases ha hw).2 with hold | ⟨k, value, remaining, now, hk, hinput, hv, hrem⟩
  · obtain ⟨data, runner', hd, hr', hworkflow, hposition, hkey⟩ := h.holding c call hc hold
    rw [hr, Option.some.injEq] at hr'
    subst hr'
    have hno : ∀ k, call.phase ≠ .leasing k := by
      intro k hk
      rw [hk] at hold
      contradiction
    exact ⟨data, (heldAfter_of_prompts hc hi (.inr hno)).trans hd, .works hc hold hd, hworkflow,
      hposition, hkey⟩
  · obtain ⟨rfl, n, data, hawaiting, hn, hworkflow, -, hkey⟩ :=
      Net.granted_of_reply hasked hc hk hi hinput hv hrem
    have hgrant : t.net.grantFor call = some data :=
      grantFor_eq_some.mpr ⟨n, _, hawaiting, hn, rfl, rfl⟩
    refine ⟨data, ?_, .waits hc (by rw [hk]; rfl) hgrant, hworkflow,
      hapart call hc data hgrant runner hr, hkey⟩
    simp only [heldAfter, hc, hk, hgrant, Function.update_self]

/-- The request a turn sends, if it ends a lease, is about the lease held. -/
theorem sent_of_endsLease (h : t.Kept) (hasked : t.net.Asked) (hapart : t.GrantsApart l)
    (hc : t.net.calls[c]? = some call) (hr : t.net.runners[call.runner]? = some runner)
    (hi : Net.Prompts t.net c call l input)
    (ha : ExecuteCall.Advances call.execute runner call.phase input turn)
    {adapterCall : AdapterCall} (hcall : turn.call = some adapterCall)
    (hends : (GrpcAdapter.request wire adapterCall).endsLease = true) :
    ∃ data, t.heldAfter l c = some data ∧ t.Claims c data.place ∧
      (GrpcAdapter.request wire adapterCall).leasePosition =
        some (data.workflowId, data.position) ∧
      ∀ checkpoint, GrpcAdapter.request wire adapterCall = .checkpoint checkpoint →
        checkpoint.place = data.place := by
  obtain ⟨runner', hr', hworkflow'⟩ := hasked.runners c call hc
  rw [hr, Option.some.injEq] at hr'
  subst hr'
  rcases ha.call_cases hcall with ⟨k, -, -, rfl⟩ | ⟨leaseExpiry, v, value, hphase, -, rfl⟩ |
    ⟨beforeExecution, err, -, hphase, -, rfl⟩
  · contradiction
  · obtain ⟨data, hd, hclaims, hworkflow, hposition, hkey⟩ :=
      held_of_holding h hasked hapart hc hr hi ha (by rw [hphase]; rfl)
    refine ⟨data, hd, hclaims, ?_, ?_⟩
    · rw [hworkflow, hposition, ← hworkflow']
      rfl
    · rintro checkpoint ⟨⟩
      simp [CheckpointInput.place, LeaseCheckpointInput.place, hworkflow, hposition,
        hkey, hworkflow']
  · obtain ⟨data, runner', hd, hr', hworkflow, hposition, -⟩ :=
      h.holding c call hc (by rw [hphase]; rfl)
    rw [hr, Option.some.injEq] at hr'
    subst hr'
    refine ⟨data, ?_, .works hc (by rw [hphase]; rfl) hd, ?_, nofun⟩
    · exact (heldAfter_of_prompts hc hi
        (.inr fun k hk => by rw [hphase] at hk; contradiction)).trans hd
    · rw [hworkflow, hposition, ← hworkflow']
      rfl

/-- A turn leaves the runner of every other call that works where it stands. -/
theorem runner_of_others (hr : t.net.runners[call.runner]? = some runner)
    (ha : ExecuteCall.Advances call.execute runner call.phase input turn)
    (hidle : turn.phase.hasReturned = true → t.net.OthersIdle c call.runner) {c' : Nat}
    (hne : c' ≠ c) {call' : Call V} (hc' : t.net.calls[c']? = some call')
    (hw : call'.phase.holding = true)
    {runner' : Runner} (hr' : t.net.runners[call'.runner]? = some runner') :
    (t.net.take wire c call runner input turn).runners[call'.runner]? = some runner' := by
  show (t.net.runners.set call.runner turn.runner)[call'.runner]? = some runner'
  by_cases hrr : call.runner = call'.runner
  · rcases ha.runner_eq with hsame | ⟨-, v, hv⟩
    · rw [← hrr, hr, Option.some.injEq] at hr'
      rw [← hrr, hsame, ← hr', List.getElem?_set_self (List.getElem?_eq_some_iff.mp hr).1]
    · have hlt := (List.getElem?_eq_some_iff.mp hc').1
      rw [hidle (by rw [hv]; rfl) c' hlt call' hc' hne hrr.symm] at hw
      contradiction
  · rw [List.getElem?_set_ne hrr]
    exact hr'

/-- The claims after a turn are claims there were. -/
theorem claims_turn (h : t.Kept) (hasked : t.net.Asked) (hapart : t.GrantsApart l)
    (hc : t.net.calls[c]? = some call) (hr : t.net.runners[call.runner]? = some runner)
    (hi : Net.Prompts t.net c call l input)
    (ha : ExecuteCall.Advances call.execute runner call.phase input turn) {c' : Nat}
    {place : Place}
    (hclaims : ({ net := t.net.take wire c call runner input turn
                  held := t.heldAfter l } : Overlap V).Claims c' place) :
    t.Claims c' place := by
  have hnone : ∀ rpc, turn.call.map (fun call =>
      ({ call := c, request := GrpcAdapter.request wire call, reply := none } : Rpc)) =
        some rpc →
      rpc.reply = none := by
    intro rpc hsent
    obtain ⟨adapterCall, -, rfl⟩ := Option.map_eq_some_iff.mp hsent
    rfl
  rcases hclaims with ⟨hc', hw, hd⟩ | ⟨hc', hw, hd⟩ | ⟨hn, hcall, hd, hp⟩
  · rcases set_cases hc' with ⟨rfl, rfl⟩ | ⟨hne, hc'⟩
    · obtain ⟨data, hheld, hold, -⟩ := held_of_holding h hasked hapart hc hr hi ha hw
      obtain rfl := Option.some.inj (hheld.symm.trans hd)
      exact hold
    · exact .works hc' hw ((heldAfter_of_prompts hc hi (.inl hne)).symm.trans hd)
  · have hgrant := grantFor_append t.net rfl hnone hd
    rcases set_cases hc' with ⟨rfl, rfl⟩ | ⟨-, hc'⟩
    · -- The request a turn sends has no reply yet.
      obtain ⟨n, rpc, hawaiting, hn, -⟩ := grantFor_eq_some.mp hgrant
      obtain ⟨adapterCall, -, rfl⟩ := Option.map_eq_some_iff.mp hawaiting
      exact absurd (List.getElem?_eq_some_iff.mp hn).1 (lt_irrefl _)
    · exact .waits hc' hw hgrant
  · rcases append_cases hn with hn | ⟨-, hsent⟩
    · exact .stores hn hcall hd hp
    · obtain ⟨adapterCall, hadapter, rfl⟩ := Option.map_eq_some_iff.mp hsent
      have hends : (GrpcAdapter.request wire adapterCall).endsLease = true := by
        rw [show GrpcAdapter.request wire adapterCall = _ from hd]
        rfl
      obtain ⟨data, -, hold, -, hplace⟩ :=
        sent_of_endsLease h hasked hapart hc hr hi ha hadapter hends
      obtain rfl : c = c' := hcall
      rw [hplace _ hd]
      exact hold

theorem kept_turned (h : t.Kept) (hasked : t.net.Asked) (hapart : t.GrantsApart l)
    (hidle : turn.phase.hasReturned = true → t.net.OthersIdle c call.runner)
    (hc : t.net.calls[c]? = some call) (hr : t.net.runners[call.runner]? = some runner)
    (hi : Net.Prompts t.net c call l input)
    (ha : ExecuteCall.Advances call.execute runner call.phase input turn) :
    ({ net := t.net.take wire c call runner input turn
       held := t.heldAfter l } : Overlap V).Kept := by
  constructor
  case holding =>
    intro c' call' hc' hw
    rcases set_cases hc' with ⟨rfl, rfl⟩ | ⟨hne, hc'⟩
    · obtain ⟨data, hd, -, hworkflow, hposition, hkey⟩ :=
        held_of_holding h hasked hapart hc hr hi ha hw
      refine ⟨data, turn.runner, hd, ?_, hworkflow, ?_, hkey⟩
      · exact List.getElem?_set_self (List.getElem?_eq_some_iff.mp hr).1
      · rw [(holding_cases ha hw).1, hposition]
    · obtain ⟨data, runner', hd, hr', hrest⟩ := h.holding c' call' hc' hw
      exact ⟨data, runner', (heldAfter_of_prompts hc hi (.inl hne)).trans hd,
        runner_of_others hr ha hidle hne hc' hw hr', hrest⟩
  case sent =>
    intro n rpc hn hends
    rcases append_cases hn with hn | ⟨-, hsent⟩
    · obtain ⟨data, hd, hposition⟩ := h.sent n rpc hn hends
      refine ⟨data, ?_, hposition⟩
      refine (heldAfter_of_prompts hc hi ?_).trans hd
      by_cases hself : rpc.call = c
      · refine .inr fun k hk => ?_
        rw [hasked.early c call hc (by rw [hk]; rfl) n rpc hn hself] at hends
        contradiction
      · exact .inl hself
    · obtain ⟨adapterCall, hadapter, rfl⟩ := Option.map_eq_some_iff.mp hsent
      obtain ⟨data, hd, -, hposition, -⟩ :=
        sent_of_endsLease h hasked hapart hc hr hi ha hadapter hends
      exact ⟨data, hd, hposition⟩
  case claims =>
    intro c' call' place hc' hclaims
    have hold := claims_turn h hasked hapart hc hr hi ha hclaims
    rcases set_cases hc' with ⟨rfl, rfl⟩ | ⟨-, hc'⟩
    · exact h.claims c' call place hc hold
    · exact h.claims c' call' place hc' hold
  case stored => exact h.stored

end Turn

/-- **Every step that keeps calls apart keeps it.** -/
theorem kept_step {evictable : CachedLease → Int → Bool} {wire : Wire} {l : NetLabel V}
    (h : t.Kept) (hasked : t.net.Asked) (hapart : Apart evictable wire t l)
    (hs : step evictable wire t l = some t') : t'.Kept := by
  obtain ⟨hreturns, hgrants⟩ := hapart
  simp only [step, Option.map_eq_some_iff] at hs
  obtain ⟨net', hnet, rfl⟩ := hs
  cases Net.step_cases hnet with
  | started hf ht =>
      exact h.of_quiet rfl rfl rfl (fun r runner hr => append_some hr) (.inr ⟨_, rfl⟩)
  | served hf hp => exact h.of_quiet rfl rfl rfl (fun _ _ hr => hr) (.inr ⟨_, rfl⟩)
  | ticked => exact h.of_quiet rfl rfl rfl (fun _ _ hr => hr) (.inl rfl)
  | evicted hc he => exact h.of_quiet rfl rfl rfl (fun _ _ hr => hr) (.inl rfl)
  | called hr => exact kept_called h hasked
  | answered hf hn hc hp => exact kept_answered h hasked hgrants hn hc hp
  | @turned _ c call runner input turn hc hr hi ht =>
      refine kept_turned h hasked hgrants ?_ hc hr hi (ExecuteCall.resume_cases ht)
      intro hreturned
      have hmover : c ∈ l.mover? := by cases hi <;> rfl
      refine hreturns c hmover _ hnet
        { call with phase := turn.phase, awaiting := t.net.awaited turn } ?_ hreturned
      exact List.getElem?_set_self (List.getElem?_eq_some_iff.mp hc).1

end Overlap

/-- **Overlapping calls keep to their positions** in every run whose steps keep them
apart. -/
theorem calls_keep_to_their_positions {V : Type} {evictable : CachedLease → Int → Bool}
    {wire : Wire} {t : Overlap V}
    (hr : Reachable (Overlap.step evictable wire)
      (Overlap.Apart evictable wire) Overlap.initial t) :
    t.OnOwnPositions := by
  have hkept : t.net.Asked ∧ t.Kept := by
    refine hr.invariant (fun t => t.net.Asked ∧ t.Kept) ?_ ?_
    · intro t h
      exact ⟨Net.asked_initial h.1, Overlap.kept_initial h⟩
    · rintro t l t' ⟨hasked, h⟩ hapart hs
      refine ⟨?_, Overlap.kept_step h hasked hapart hs⟩
      obtain ⟨net', hnet, rfl⟩ := Option.map_eq_some_iff.mp hs
      exact Net.asked_step (Net.step_cases hnet) hasked
  obtain ⟨-, h⟩ := hkept
  constructor
  case sent =>
    intro rpc hrpc hends
    obtain ⟨n, hn⟩ := List.getElem?_of_mem hrpc
    exact h.sent n rpc hn hends
  case stored => exact h.stored
  case exclusive =>
    intro c c' call call' place place' hc hc' hrunner hne hplace hplace'
    have hown := h.claims c call place hc (Overlap.mem_claims_iff.mp hplace)
    have hother := h.claims c' call' place' hc' (Overlap.mem_claims_iff.mp hplace')
    rw [hrunner] at hown
    exact hown.exclusive Place.Meets.symm hne hother

/-! ## Two calls on one runner -/

def payingWith (idempotencyKey : String) : ExecuteCall :=
  { idempotencyKey := idempotencyKey,
    options := { leaseTimeout := some 1000, onAbort := none } }

/-- The second call polls until the first has returned. -/
def takingTurns : List (NetLabel Unit) :=
  [.start "pay" none none (.calm "" true), .execute 0 (payingWith "a"),
    .execute 0 (payingWith "b"),
    .handle 0 (.calm "" true), .deliver 0 0, .handle 1 (.calm "" true), .deliver 1 0,
    .resume 0 (.taskSettled (.ok ())), .resume 0 (.serialized (.ok (.bytes [])) 0),
    .handle 2 (.calm "" true), .deliver 0 0, .resume 1 .wake, .handle 3 (.calm "" true),
    .deliver 1 0, .resume 1 (.taskSettled (.ok ())),
    .resume 1 (.serialized (.ok (.bytes [])) 0),
    .handle 4 (.calm "" true)]

/-- Each call stores at the position it was granted. -/
theorem taking_turns_keeps_positions :
    ∃ t, execOk (Overlap.step ttlPassed silentWire) (Overlap.Apart ttlPassed silentWire)
        (.start Unit) takingTurns = some t ∧
      t.OnOwnPositions ∧ (t.held 0).map LeaseCheckpointInput.position = some 0 ∧
      (t.held 1).map LeaseCheckpointInput.position = some 1 := by
  obtain ⟨t, ht⟩ : ∃ t, execOk (Overlap.step ttlPassed silentWire)
      (Overlap.Apart ttlPassed silentWire) (.start Unit) takingTurns = some t :=
    Option.isSome_iff_exists.mp (by decide +kernel)
  refine ⟨t, ht, calls_keep_to_their_positions
    (.of_execOk (.start ⟨Net.initial_start Unit, rfl⟩) ht), ?_, ?_⟩
  · exact eq_of_outcome ht (fun t => (t.held 0).map LeaseCheckpointInput.position)
      (by decide +kernel)
  · exact eq_of_outcome ht (fun t => (t.held 1).map LeaseCheckpointInput.position)
      (by decide +kernel)

/-- The lease of the first call expires and the second is granted the position;
the first then finds its own window over and returns, and the second stores at
the position after its lease. -/
def overtaken : List (NetLabel Unit) :=
  [.start "pay" none none (.calm "" true), .execute 0 (payingWith "a"),
    .execute 0 (payingWith "b"),
    .handle 0 (.calm "" true), .deliver 0 0, .tick 1000, .handle 1 (.calm "" true),
    .deliver 1 1000,
    .resume 0 (.taskSettled (.ok ())), .resume 0 (.serialized (.ok (.bytes [])) 1000),
    .resume 1 (.taskSettled (.ok ())), .resume 1 (.serialized (.ok (.bytes [])) 1000)]

theorem overtaken_stores_elsewhere :
    ∃ t, exec (Overlap.step ttlPassed silentWire) (.start Unit) overtaken = some t ∧
      Reachable (Overlap.step ttlPassed silentWire) anyStep Overlap.initial t ∧
      (t.held 1).map LeaseCheckpointInput.position = some 0 ∧
      t.net.rpcs[2]?.map Rpc.call = some 1 ∧
      t.net.rpcs[2]?.bind (fun rpc => rpc.request.leasePosition) = some ("pay", 1) ∧
      ¬ t.OnOwnPositions := by
  obtain ⟨t, ht⟩ : ∃ t, exec (Overlap.step ttlPassed silentWire)
    (.start Unit) overtaken = some t :=
    Option.isSome_iff_exists.mp (by decide +kernel)
  have hheld := eq_of_outcome ht (fun t => (t.held 1).map LeaseCheckpointInput.position)
    (a := some 0) (by decide +kernel)
  have hcall := eq_of_outcome ht (fun t => t.net.rpcs[2]?.map Rpc.call) (a := some 1)
    (by decide +kernel)
  have hends := eq_of_outcome ht (fun t => t.net.rpcs[2]?.map fun rpc => rpc.request.endsLease)
    (a := some true) (by decide +kernel)
  have hposition := eq_of_outcome ht
    (fun t => t.net.rpcs[2]?.bind fun rpc => rpc.request.leasePosition) (a := some ("pay", 1))
    (by decide +kernel)
  refine ⟨t, ht, .of_exec (.start ⟨Net.initial_start Unit, rfl⟩) ht, hheld, hcall,
    hposition, ?_⟩
  intro h
  obtain ⟨rpc, hrpc⟩ : ∃ rpc, t.net.rpcs[2]? = some rpc := by
    cases hrpc : t.net.rpcs[2]? with
    | none =>
        rw [hrpc] at hcall
        contradiction
    | some rpc => exact ⟨rpc, rfl⟩
  simp only [hrpc, Option.map_some, Option.bind_some,
    Option.some.injEq] at hcall hends hposition
  obtain ⟨data, hdata, hplace⟩ := h.sent rpc (List.mem_of_getElem? hrpc) hends
  rw [hcall] at hdata
  rw [hdata, Option.map_some, Option.some.injEq] at hheld
  rw [hplace, hheld, Option.some.injEq, Prod.mk.injEq] at hposition
  exact absurd hposition.2 (by decide)

end IdempotentTransformer
