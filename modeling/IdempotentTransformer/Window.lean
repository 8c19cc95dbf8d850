import IdempotentTransformer.Ownership
import IdempotentTransformer.Requests
import IdempotentTransformer.Visibility

/-!
# IdempotentTransformer.Window

The window in which a call still sends its checkpoint, against the lease it
was granted, under one clock.

`execute` counts the lease timeout from the arrival of the grant, the server
from the `created_at` it wrote.  The reply's time on its way is the
difference: that long the client still sends after the lease has expired at
the server.

A `Clocked` network remembers, beside the network, which lease each handled
request was granted and which grant each call's task started on.

* `window_held` — every checkpoint is sent in the client's own window, by a
  call whose task started on a grant;
* `window_inside_iff` — for which grants that window lies inside the server's.
-/

namespace IdempotentTransformer

open Library

/-! ## The client's window -/

section Client

variable {V : Type}

/-- When the window of a call ends, from the start of its task to its last
checkpoint. -/
def Phase.windowEnd? (leaseTimeout : Int) : Phase V → Option Int
  | .running beforeExecution => some (beforeExecution + leaseTimeout)
  | .serializing beforeExecution _ => some (beforeExecution + leaseTimeout)
  | .checkpointing leaseExpiry _ _ => some leaseExpiry
  | _ => none

/-- What `Date.now()` shows when the input comes, where the code reads it. -/
def Input.now? : Input V → Option Int
  | .reply _ now => some now
  | .serialized _ now => some now
  | _ => none

namespace ExecuteCall

variable {c : ExecuteCall} {r : Runner} {phase : Phase V} {input : Input V} {turn : Turn V}

/-- What follows the checkpoint loop is outside the window. -/
theorem windowEnd_afterCheckpoint (leaseTimeout : Int) (v : V) (abort : Option Bool) :
    (afterCheckpoint c r v abort).phase.windowEnd? leaseTimeout = none := by
  unfold afterCheckpoint
  split
  · rfl
  · split
    · unfold rollback
      split <;> rfl
    · rfl

/-- The loop sends a checkpoint before the window ends, or leaves it. -/
theorem windowEnd_checkpointLoop {leaseTimeout leaseExpiry now e : Int} {v : V}
    {value : TSerialized}
    (h : (checkpointLoop c r leaseExpiry v value now).phase.windowEnd? leaseTimeout = some e) :
    e = leaseExpiry ∧ now < leaseExpiry := by
  unfold checkpointLoop at h
  split at h
  · next hlt => exact ⟨(Option.some.inj h).symm, hlt⟩
  · rw [windowEnd_afterCheckpoint] at h
    contradiction

/-- A call that sends a checkpoint has been in its window since before. -/
theorem windowEnd_of_checkpointing (h : resume c r phase input = some turn) {leaseExpiry : Int}
    {v : V} {value : TSerialized} (ht : turn.phase = .checkpointing leaseExpiry v value) :
    phase.windowEnd? c.options.leaseMilliseconds = some leaseExpiry := by
  have he : turn.phase.windowEnd? c.options.leaseMilliseconds = some leaseExpiry := by
    rw [ht]; rfl
  rcases (resume_cases h).checkpointing_cases ht with ⟨beforeExecution, now, rfl, rfl⟩ | rfl
  · cases h
    rw [(windowEnd_checkpointLoop he).1]
    rfl
  · rfl

/-- **The window of a call** starts when the lease is granted and keeps its
end. -/
theorem windowEnd_resume (h : resume c r phase input = some turn) {e : Int}
    (he : turn.phase.windowEnd? c.options.leaseMilliseconds = some e) :
    phase.windowEnd? c.options.leaseMilliseconds = some e ∨
      ∃ k value remaining now, phase = .leasing k ∧
        input = .reply (.ok (.leaseCheckpoint value remaining)) now ∧
        value.filter TSerialized.truthy = none ∧ remaining.filter (· ≠ 0) = none ∧
        e = now + c.options.leaseMilliseconds := by
  cases hphase : turn.phase with
  | running now =>
      obtain ⟨k, value, remaining, hk, hinput, hv, hr⟩ := (resume_cases h).running_cases hphase
      rw [hphase] at he
      exact .inr ⟨k, value, remaining, now, hk, hinput, hv, hr, (Option.some.inj he).symm⟩
  | serializing beforeExecution v =>
      obtain ⟨rfl, -⟩ := (resume_cases h).serializing_cases hphase
      rw [hphase] at he
      exact .inl he
  | checkpointing leaseExpiry v value =>
      rw [hphase] at he
      cases he
      exact .inl (windowEnd_of_checkpointing h hphase)
  | _ =>
      rw [hphase] at he
      contradiction

/-- A checkpoint is sent before the window ends. -/
theorem now_lt_of_checkpointing (h : resume c r phase input = some turn)
    {leaseExpiry : Int} {v : V} {value : TSerialized}
    (ht : turn.phase = .checkpointing leaseExpiry v value) :
    ∃ now, input.now? = some now ∧ now < leaseExpiry := by
  have he : turn.phase.windowEnd? c.options.leaseMilliseconds = some leaseExpiry := by
    rw [ht]; rfl
  rcases (resume_cases h).checkpointing_cases ht with ⟨beforeExecution, now, rfl, rfl⟩ | rfl
  · cases h
    obtain ⟨rfl, hlt⟩ := windowEnd_checkpointLoop he
    exact ⟨now, rfl, hlt⟩
  · cases input with
    | reply result now =>
        cases result with
        | error err =>
            cases h
            exact ⟨now, rfl, (windowEnd_checkpointLoop he).2⟩
        | ok reply =>
            cases reply with
            | checkpoint abort =>
                cases h
                rw [windowEnd_afterCheckpoint] at he
                contradiction
            | _ => cases h
    | _ => cases h

end ExecuteCall

end Client

/-! ## Clocked networks -/

/-- A grant a task started on: the lease, and when the reply arrived. -/
structure Grant where
  lease : LeasedCheckpointValue
  arrivedAt : Int
deriving DecidableEq, Repr

/-- A network with the leases granted and the grants that started tasks. -/
structure Clocked (V : Type) where
  net : Net V
  /-- The lease each request was granted. -/
  leases : Nat → Option LeasedCheckpointValue
  /-- The grant each call goes on from. -/
  held : Nat → Option Grant

/-- The lease a request that was granted one left cached. -/
def Handled.lease? (h : Handled) : Option LeasedCheckpointValue :=
  match h.request with
  | .leaseCheckpoint data =>
    if h.reply = granted then h.after.leaseAt data.workflowId data.position else none
  | _ => none

/-- Workers and server read one clock. -/
def Net.OneClock {V : Type} (net : Net V) : NetLabel V → Prop
  | .deliver _ now => now = net.world.now
  | .fail _ _ now => now = net.world.now
  | .resume _ input => ∀ now ∈ input.now?, now = net.world.now
  | _ => True

/-- The step sends a checkpoint of the call. -/
def Net.SendsCheckpoint {V : Type} (net net' : Net V) (c : Nat) : Prop :=
  ∃ data, net'.rpcs = net.rpcs ++ [{ call := c, request := .checkpoint data, reply := none }]

namespace Clocked

variable {V : Type}

def initial (t : Clocked V) : Prop :=
  t.net.initial ∧ t.leases = (fun _ => none) ∧ t.held = fun _ => none

/-- A request that is handled may be granted a lease. -/
def leasesAfter (t : Clocked V) : NetLabel V → Nat → Option LeasedCheckpointValue
  | .handle n env =>
    match t.net.rpcs[n]? with
    | some rpc =>
        Function.update t.leases n (Net.handledIn t.net.world env rpc.request).lease?
    | none => t.leases
  | _ => t.leases

/-- The reply to a lease request may bring a grant. -/
def heldAfter (t : Clocked V) : NetLabel V → Nat → Option Grant
  | .deliver c now =>
    match t.net.calls[c]? with
    | some call =>
      match call.phase, call.awaiting with
      | .leasing _, some n =>
          Function.update t.held c ((t.leases n).map fun lease =>
            { lease := lease, arrivedAt := now })
      | _, _ => t.held
    | none => t.held
  | _ => t.held

/-- One step of the network, with what it grants. -/
def step (evictable : CachedLease → Int → Bool) (wire : Wire) : Step (Clocked V) (NetLabel V)
  | t, l => (Net.step evictable wire t.net l).map fun net =>
      { net := net, leases := t.leasesAfter l, held := t.heldAfter l }

/-- The runs under one clock. -/
def Reached (evictable : CachedLease → Int → Bool) (wire : Wire) (t : Clocked V) : Prop :=
  Reachable (step evictable wire) (fun t l => t.net.OneClock l) initial t

end Clocked

/-! ## What a clocked run keeps -/

namespace Clocked

variable {V : Type}

/-- What the grants and the calls say about each other. -/
structure Tracked (t : Clocked V) : Prop where
  /-- A lease is of its request's timeout, and has been created. -/
  leases : ∀ (n : Nat) lease, t.leases n = some lease → ∃ (rpc : Rpc) (data : _),
    t.net.rpcs[n]? = some rpc ∧ rpc.request = .leaseCheckpoint data ∧
      lease.leaseTimeout = data.leaseTimeout ∧ lease.createdAt ≤ t.net.world.now
  granted : ∀ (n : Nat) (rpc : Rpc), t.net.rpcs[n]? = some rpc → rpc.reply = some granted →
    t.leases n ≠ none
  /-- The window of a call is that of its grant, counted from its arrival. -/
  window : ∀ (c : Nat) (call : Call V) e, t.net.calls[c]? = some call →
    call.phase.windowEnd? call.execute.options.leaseMilliseconds = some e →
    ∃ g, t.held c = some g ∧ g.lease.leaseTimeout = call.execute.options.leaseMilliseconds ∧
      g.lease.createdAt ≤ g.arrivedAt ∧ g.arrivedAt ≤ t.net.world.now ∧
      e = g.arrivedAt + call.execute.options.leaseMilliseconds

theorem tracked_initial {t : Clocked V} (h : t.initial) : t.Tracked := by
  obtain ⟨⟨now, -, hnet⟩, hleases, -⟩ := h
  constructor <;> simp [hnet, hleases]

variable {t t' : Clocked V}

/-- What leaves calls and requests alone keeps it. -/
theorem Tracked.of_quiet (h : t.Tracked) (hcalls : t'.net.calls = t.net.calls)
    (hrpcs : t'.net.rpcs = t.net.rpcs) (hnow : t.net.world.now ≤ t'.net.world.now)
    (hleases : t'.leases = t.leases) (hheld : t'.held = t.held) : t'.Tracked := by
  constructor
  case leases =>
    rw [hrpcs, hleases]
    intro n lease hn
    obtain ⟨rpc, data, hrpc, hdata, htimeout, hcreated⟩ := h.leases n lease hn
    exact ⟨rpc, data, hrpc, hdata, htimeout, hcreated.trans hnow⟩
  case granted =>
    rw [hrpcs, hleases]
    exact h.granted
  case window =>
    rw [hcalls, hheld]
    intro c call e hc he
    obtain ⟨g, hg, htimeout, hcreated, harrived, hend⟩ := h.window c call e hc he
    exact ⟨g, hg, htimeout, hcreated, harrived.trans hnow, hend⟩

/-- A lease a handled request left is of its timeout, created then. -/
theorem lease_of_handledIn {w : World} {env : Env} (hf : env.fault = .none) {request : Request}
    {lease : LeasedCheckpointValue} (h : (Net.handledIn w env request).lease? = some lease) :
    ∃ data, request = .leaseCheckpoint data ∧ lease.leaseTimeout = data.leaseTimeout ∧
      lease.createdAt = w.now := by
  unfold Handled.lease? at h
  split at h
  · next data hdata =>
      obtain rfl : request = .leaseCheckpoint data := hdata
      split at h
      · next hg =>
          have hafter := handle_leaseCheckpoint_of_granted hf w data hg
          simp only [Net.handledIn, hafter, World.leaseAt, World.setCache_cache, if_true,
            Option.map_some, Option.some.injEq] at h
          exact ⟨data, rfl, by rw [← h]; rfl, by rw [← h]; rfl⟩
      · contradiction
  · contradiction

/-- A request that was granted a lease left one. -/
theorem lease_of_granted {w : World} {env : Env} (hf : env.fault = .none) {request : Request}
    (h : (request.handle env w).1 = granted) :
    (Net.handledIn w env request).lease? ≠ none := by
  obtain ⟨data, rfl⟩ := exists_of_leaseCheckpoint h
  have hafter := handle_leaseCheckpoint_of_granted hf w data h
  simp [Handled.lease?, Net.handledIn, h, hafter, World.leaseAt, World.setCache_cache]

theorem tracked_called (h : t.Tracked) {wire : Wire} {r : Nat} {runner : Runner}
    {execute : ExecuteCall} :
    ({ t with net := t.net.addCall wire r runner execute } : Clocked V).Tracked := by
  constructor
  case leases =>
    intro n lease hn
    obtain ⟨rpc, data, hrpc, hrest⟩ := h.leases n lease hn
    exact ⟨rpc, data, append_some hrpc, hrest⟩
  case granted =>
    intro n rpc hn hreply
    rcases Net.rpcs_addCall hn with hn | ⟨-, hnone, -⟩
    · exact h.granted n rpc hn hreply
    · rw [hnone] at hreply
      contradiction
  case window =>
    intro c call e hc he
    rcases Net.calls_addCall hc with hc | ⟨-, rfl⟩
    · exact h.window c call e hc he
    · contradiction

theorem tracked_answered (h : t.Tracked) {env : Env} (hf : env.fault = .none)
    {n : Nat} {rpc : Rpc} {call : Call V} (hn : t.net.rpcs[n]? = some rpc) :
    ({ t with net := t.net.answer env n rpc call
              leases := t.leasesAfter (.handle n env) } : Clocked V).Tracked := by
  have hnow : (t.net.answer env n rpc call).world.now = t.net.world.now :=
    handle_now env rpc.request t.net.world
  have hleases : t.leasesAfter (.handle n env) =
      Function.update t.leases n (Net.handledIn t.net.world env rpc.request).lease? := by
    simp only [leasesAfter, hn]
  constructor
  case leases =>
    intro m lease hm
    simp only [hleases, Function.update_apply] at hm
    split at hm
    · next heq =>
        subst heq
        obtain ⟨data, hdata, htimeout, hcreated⟩ := lease_of_handledIn hf hm
        obtain ⟨new, hnew, -, hrequest, -⟩ := Net.rpcs_answer hn hn
        exact ⟨new, data, hnew, hrequest.trans hdata, htimeout, by rw [hcreated, ← hnow]⟩
    · obtain ⟨old, data, hold, hdata, htimeout, hcreated⟩ := h.leases m lease hm
      obtain ⟨new, hnew, -, hrequest, -⟩ := Net.rpcs_answer hn hold
      exact ⟨new, data, hnew, hrequest.trans hdata, htimeout, hnow ▸ hcreated⟩
  case granted =>
    intro m rpc' hm hreply
    obtain ⟨old, hold, -, -, ⟨rfl, hnew⟩ | ⟨hne, hsame⟩⟩ := Net.answer_cases hn hm
    · rw [hreply, Option.some.injEq] at hnew
      simp only [hleases, Function.update_self]
      exact lease_of_granted hf hnew.symm
    · simp only [hleases, Function.update_of_ne hne]
      exact h.granted m old hold (hsame ▸ hreply)
  case window =>
    intro c call' e hc he
    obtain ⟨g, hg, htimeout, hcreated, harrived, hend⟩ := h.window c call' e hc he
    exact ⟨g, hg, htimeout, hcreated, by rw [hnow]; exact harrived, hend⟩

section Turn

variable {wire : Wire} {l : NetLabel V} {c : Nat} {call : Call V} {runner : Runner}
  {input : Input V} {turn : Turn V}

/-- Under one clock an input shows the time it comes at. -/
theorem now_of_prompts (hok : t.net.OneClock l)
    (hi : Net.Prompts t.net c call l input) {now : Int}
    (hnow : input.now? = some now) : now = t.net.world.now := by
  cases hi with
  | delivered ho =>
      cases hnow
      exact hok
  | failed ha =>
      cases hnow
      exact hok
  | resumed ha => exact hok now hnow

/-- Only the call that takes a turn may get a grant, and only where it waits for
its lease. -/
theorem heldAfter_of_prompts (hc : t.net.calls[c]? = some call)
    (hi : Net.Prompts t.net c call l input) {c' : Nat}
    (h : c' ≠ c ∨ ∀ k, call.phase ≠ .leasing k) : t.heldAfter l c' = t.held c' := by
  cases hi with
  | failed ha => rfl
  | resumed ha => rfl
  | delivered ho =>
      simp only [heldAfter, hc]
      cases hk : call.phase with
      | leasing k =>
          have hne : c' ≠ c := h.resolve_right fun hno => hno k hk
          cases call.awaiting with
          | none => rfl
          | some n => exact Function.update_of_ne hne _ _
      | _ => rfl

/-- **A task starts on a grant**: the lease the server granted the request its
call waited for. -/
theorem held_of_granted (h : t.Tracked) (hasked : t.net.Asked) (hok : t.net.OneClock l)
    (hc : t.net.calls[c]? = some call) {k : Nat} (hk : call.phase = .leasing k)
    (hi : Net.Prompts t.net c call l input) {value : Option TSerialized}
    {remaining : Option Int} {now : Int}
    (hinput : input = .reply (.ok (.leaseCheckpoint value remaining)) now)
    (hv : value.filter TSerialized.truthy = none) (hr : remaining.filter (· ≠ 0) = none) :
    ∃ lease, t.heldAfter l c = some { lease := lease, arrivedAt := now } ∧
      lease.leaseTimeout = call.execute.options.leaseMilliseconds ∧ lease.createdAt ≤ now ∧
      now = t.net.world.now := by
  have hnow : now = t.net.world.now := now_of_prompts hok hi (by rw [hinput]; rfl)
  obtain ⟨rfl, n, data, hawaiting, hn, -, htimeout, -⟩ :=
    Net.granted_of_reply hasked hc hk hi hinput hv hr
  obtain ⟨lease, hlease⟩ := Option.ne_none_iff_exists'.mp (h.granted n _ hn rfl)
  obtain ⟨rpc, data', hn', hdata', htimeout', hcreated⟩ := h.leases n lease hlease
  rw [hn, Option.some.injEq] at hn'
  subst hn'
  cases hdata'
  refine ⟨lease, ?_, htimeout'.trans htimeout, hnow ▸ hcreated, hnow⟩
  simp only [heldAfter, hc, hk, hawaiting, Function.update_self, hlease, Option.map_some]

theorem tracked_turned (h : t.Tracked) (hasked : t.net.Asked) (hok : t.net.OneClock l)
    (hc : t.net.calls[c]? = some call) (hi : Net.Prompts t.net c call l input)
    (ht : call.execute.resume runner call.phase input = some turn) :
    ({ net := t.net.take wire c call runner input turn, leases := t.leases
       held := t.heldAfter l } : Clocked V).Tracked := by
  constructor
  case leases =>
    intro n lease hn
    obtain ⟨rpc, data, hrpc, hrest⟩ := h.leases n lease hn
    exact ⟨rpc, data, append_some hrpc, hrest⟩
  case granted =>
    intro n rpc hn hreply
    rcases append_cases hn with hn | ⟨-, hsent⟩
    · exact h.granted n rpc hn hreply
    · obtain ⟨adapterCall, -, rfl⟩ := Option.map_eq_some_iff.mp hsent
      contradiction
  case window =>
    intro c' call' e hc' he
    rcases set_cases hc' with ⟨rfl, rfl⟩ | ⟨hne, hc'⟩
    · rcases ExecuteCall.windowEnd_resume ht he with
        hold | ⟨k, value, remaining, now, hk, hinput, hv, hr, rfl⟩
      · obtain ⟨g, hg, hrest⟩ := h.window c' call e hc hold
        refine ⟨g, ?_, hrest⟩
        have hno : ∀ k, call.phase ≠ .leasing k := by
          intro k hk
          rw [hk] at hold
          contradiction
        exact (heldAfter_of_prompts hc hi (.inr hno)).trans hg
      · obtain ⟨lease, hheld, htimeout, hcreated, hnow⟩ :=
          held_of_granted h hasked hok hc hk hi hinput hv hr
        exact ⟨_, hheld, htimeout, hcreated, le_of_eq hnow, rfl⟩
    · obtain ⟨g, hg, hrest⟩ := h.window c' call' e hc' he
      exact ⟨g, (heldAfter_of_prompts hc hi (.inl hne)).trans hg, hrest⟩

end Turn

/-- **Every step keeps it.** -/
theorem tracked_step {evictable : CachedLease → Int → Bool} {wire : Wire} {l : NetLabel V}
    (h : t.Tracked) (hasked : t.net.Asked) (hok : t.net.OneClock l)
    (hs : step evictable wire t l = some t') : t'.Tracked := by
  simp only [step, Option.map_eq_some_iff] at hs
  obtain ⟨net', hnet, rfl⟩ := hs
  have hstepped := Net.step_cases hnet
  have hnow := Net.now_le_of_stepped hstepped
  cases hstepped with
  | started hf ht => exact h.of_quiet rfl rfl hnow rfl rfl
  | served hf hp => exact h.of_quiet rfl rfl hnow rfl rfl
  | ticked => exact h.of_quiet rfl rfl hnow rfl rfl
  | evicted hc he => exact h.of_quiet rfl rfl hnow rfl rfl
  | called hr => exact tracked_called h
  | answered hf hn hc hp => exact tracked_answered h hf hn
  | turned hc hr hi ht =>
      have hleases : t.leasesAfter l = t.leases := by cases hi <;> rfl
      rw [hleases]
      exact tracked_turned h hasked hok hc hi ht

theorem Reached.tracked {evictable : CachedLease → Int → Bool} {wire : Wire}
    (hr : t.Reached evictable wire) : t.Tracked := by
  refine (hr.invariant (fun t => t.net.Asked ∧ t.Tracked) ?_ ?_).2
  · intro t h
    exact ⟨Net.asked_initial h.1, tracked_initial h⟩
  · rintro t l t' ⟨hasked, h⟩ hok hs
    refine ⟨?_, tracked_step h hasked hok hs⟩
    obtain ⟨net', hnet, rfl⟩ := Option.map_eq_some_iff.mp hs
    exact Net.asked_step (Net.step_cases hnet) hasked

/-- **Every checkpoint is sent in its call's own window**: by a call whose task
started on a grant, before the lease timeout has passed since the grant
arrived. -/
theorem window_held {evictable : CachedLease → Int → Bool} {wire : Wire}
    {l : NetLabel V} {c : Nat} (hr : t.Reached evictable wire) (hok : t.net.OneClock l)
    (hs : step evictable wire t l = some t') (hsends : t.net.SendsCheckpoint t'.net c) :
    ∃ g, t.held c = some g ∧ g.lease.createdAt ≤ g.arrivedAt ∧ g.arrivedAt ≤ t.net.world.now ∧
      t.net.world.now < g.arrivedAt + g.lease.leaseTimeout := by
  simp only [step, Option.map_eq_some_iff] at hs
  obtain ⟨net', hnet, rfl⟩ := hs
  obtain ⟨data, hrpcs⟩ := hsends
  cases Net.step_cases hnet with
  | started hf ht =>
      exact absurd (congrArg List.length hrpcs) (by simp [Net.addRunner, Net.serve])
  | served hf hp => exact absurd (congrArg List.length hrpcs) (by simp [Net.serve])
  | ticked => exact absurd (congrArg List.length hrpcs) (by simp)
  | evicted hc he => exact absurd (congrArg List.length hrpcs) (by simp)
  | answered hf hn hc hp =>
      exact absurd (congrArg List.length hrpcs) (by simp [Net.answer])
  | called hr =>
      have hsent := List.append_cancel_left hrpcs
      cases hsent
  | @turned _ c' call runner input turn hc _ hi ht =>
      have hsent := List.append_cancel_left hrpcs
      obtain ⟨adapterCall, hcall, hrpc⟩ : ∃ adapterCall, turn.call = some adapterCall ∧
          ({ call := c', request := GrpcAdapter.request wire adapterCall, reply := none } :
            Rpc) =
            { call := c, request := .checkpoint data, reply := none } := by
        cases hcall : turn.call with
        | none => simp [Net.sent, hcall] at hsent
        | some adapterCall => exact ⟨adapterCall, rfl, by simpa [Net.sent, hcall] using hsent⟩
      obtain ⟨rfl, hrequest, -⟩ := Rpc.mk.inj hrpc
      rcases (ExecuteCall.resume_cases ht).call_cases hcall with ⟨k, -, -, rfl⟩ |
        ⟨leaseExpiry, v, value, hphase, -, -⟩ | ⟨beforeExecution, err, -, -, -, rfl⟩
      · contradiction
      · obtain ⟨now, hinput, hlt⟩ := ExecuteCall.now_lt_of_checkpointing ht hphase
        have hend := ExecuteCall.windowEnd_of_checkpointing ht hphase
        obtain ⟨g, hg, htimeout, hcreated, harrived, rfl⟩ := hr.tracked.window c' call _ hc hend
        rw [now_of_prompts hok hi hinput] at hlt
        exact ⟨g, hg, hcreated, harrived, by rw [htimeout]; exact hlt⟩
      · contradiction

end Clocked

/-- Every checkpoint of a call whose task started on such a grant, created by the
server at `createdAt` and arrived at `arrivedAt`, is sent before the lease has
expired by the server's rule. -/
def WindowInside (evictable : CachedLease → Int → Bool) (wire : Wire) (V : Type)
    (createdAt arrivedAt leaseTimeout : Int) : Prop :=
  ∀ (t t' : Clocked V) (l : NetLabel V) (c : Nat), t.Reached evictable wire → t.net.OneClock l →
    Clocked.step evictable wire t l = some t' → t.net.SendsCheckpoint t'.net c →
    t.held c = some { lease := { leaseTimeout := leaseTimeout, createdAt := createdAt }
                      arrivedAt := arrivedAt } →
    ¬ LeasedCheckpointValue.Expired { leaseTimeout := leaseTimeout, createdAt := createdAt }
      t.net.world.now

/-! ## The run that is late -/

namespace Clocked

variable {V : Type} {evictable : CachedLease → Int → Bool} {wire : Wire} {t t' : Clocked V}

/-- A run of steps that read no clock goes on under one clock. -/
theorem Reached.exec {ls : List (NetLabel V)} (h : ∀ l ∈ ls, ∀ net : Net V, net.OneClock l)
    (hr : t.Reached evictable wire) (he : Library.exec (step evictable wire) t ls = some t') :
    t'.Reached evictable wire := by
  induction ls generalizing t with
  | nil =>
      cases he
      exact hr
  | cons l ls ih =>
      simp only [Library.exec, Option.bind_eq_some_iff] at he
      obtain ⟨t₁, ht₁, he⟩ := he
      exact ih (fun l hl => h l (List.mem_cons_of_mem _ hl))
        (.step hr (h l List.mem_cons_self _) ht₁) he

end Clocked

/-- Nothing has happened yet, at `now`. -/
def Clocked.start (V : Type) (now : Int) : Clocked V :=
  { net :=
      { world := .empty now, runners := [], calls := [], rpcs := [], served := [], ended := [],
        returned := [] }
    leases := fun _ => none
    held := fun _ => none }

/-- A payment that asks for a lease of that timeout. -/
def payFor (leaseTimeout : Int) : ExecuteCall :=
  { idempotencyKey := "k", options := { leaseTimeout := some leaseTimeout, onAbort := none } }

theorem payFor_leaseMilliseconds {leaseTimeout : Int} (h : 0 < leaseTimeout) :
    (payFor leaseTimeout).options.leaseMilliseconds = leaseTimeout := by
  simp [payFor, TaskOptions.leaseMilliseconds, orElse, h.ne']

section Late

variable (V : Type) (createdAt arrivedAt leaseTimeout : Int)

/-- A worker asks for a lease and is granted it; the reply is on its way until
`arrivedAt`. -/
def untilArrival : List (NetLabel V) :=
  [.start "pay" none none (.calm "" true), .execute 0 (payFor leaseTimeout),
    .handle 0 (.calm "" true), .tick (arrivedAt - createdAt).toNat]

/-- Then its task takes `elapsed` and returns. -/
def untilSent [Inhabited V] (elapsed : Nat) : List (NetLabel V) :=
  [.resume 0 (.taskSettled (.ok default)), .tick elapsed]

end Late

/-- When its task has taken `elapsed` and its result is serialized, the call holds
the lease of `createdAt` that arrived at `arrivedAt`. -/
theorem exists_serializing {V : Type} [Inhabited V] (evictable : CachedLease → Int → Bool)
    (wire : Wire) {createdAt arrivedAt : Int} (leaseTimeout : Int) (hcreated : 0 ≤ createdAt)
    (harrived : createdAt ≤ arrivedAt) (elapsed : Nat) :
    ∃ t : Clocked V, t.Reached evictable wire ∧ t.net.world.now = arrivedAt + elapsed ∧
      t.held 0 = some
        { lease := { leaseTimeout := (payFor leaseTimeout).options.leaseMilliseconds
                     createdAt := createdAt }
          arrivedAt := arrivedAt } ∧
      t.net.calls =
        [{ runner := 0, workflowId := "pay", position := 0, execute := payFor leaseTimeout
           phase := .serializing arrivedAt default, awaiting := none }] ∧
      t.net.runners = [.start "pay" none 1] := by
  obtain ⟨t₁, h₁⟩ : ∃ t₁, exec (Clocked.step evictable wire) (Clocked.start V createdAt)
    (untilArrival V createdAt arrivedAt leaseTimeout) = some t₁ := ⟨_, rfl⟩
  obtain ⟨t₂, h₂⟩ : ∃ t₂, exec (Clocked.step evictable wire) (Clocked.start V createdAt)
    (untilArrival V createdAt arrivedAt leaseTimeout ++ [.deliver 0 arrivedAt]) =
      some t₂ := ⟨_, rfl⟩
  obtain ⟨t₃, h₃⟩ : ∃ t₃, exec (Clocked.step evictable wire) (Clocked.start V createdAt)
    ((untilArrival V createdAt arrivedAt leaseTimeout ++ [.deliver 0 arrivedAt]) ++
      untilSent V elapsed) = some t₃ := ⟨_, rfl⟩
  -- The run is under one clock: only the delivery reads it.
  have hr₁ : t₁.Reached evictable wire := by
    refine Clocked.Reached.exec ?_ (.start ⟨⟨createdAt, hcreated, rfl⟩, rfl, rfl⟩) h₁
    simp [untilArrival, Net.OneClock]
  have hnow₁ : t₁.net.world.now = createdAt + (arrivedAt - createdAt).toNat :=
    eq_of_outcome h₁ (fun t => t.net.world.now) rfl
  have hr₂ : t₂.Reached evictable wire := by
    have hdeliver := exec_of_append h₁ h₂
    simp only [exec, Option.bind_eq_some_iff, Option.some.injEq, exists_eq_right] at hdeliver
    refine .step hr₁ ?_ hdeliver
    simp only [Net.OneClock, hnow₁]
    omega
  have hr₃ : t₃.Reached evictable wire := by
    refine Clocked.Reached.exec ?_ hr₂ (exec_of_append h₂ h₃)
    simp [untilSent, Net.OneClock, Input.now?]
  have hnow : t₃.net.world.now = createdAt + (arrivedAt - createdAt).toNat + elapsed :=
    eq_of_outcome h₃ (fun t => t.net.world.now) rfl
  refine ⟨t₃, hr₃, ?_, eq_of_outcome h₃ (fun t => t.held 0) rfl,
    eq_of_outcome h₃ (fun t => t.net.calls) rfl, eq_of_outcome h₃ (fun t => t.net.runners) rfl⟩
  rw [hnow]
  omega

/-- **However long the task takes**, its checkpoint is sent while the client's
window lasts. -/
theorem exists_late {V : Type} [Inhabited V]
    (evictable : CachedLease → Int → Bool) (wire : Wire)
    {createdAt arrivedAt leaseTimeout : Int} (hcreated : 0 ≤ createdAt)
    (harrived : createdAt ≤ arrivedAt) (elapsed : Nat) (helapsed : elapsed < leaseTimeout) :
    ∃ (t t' : Clocked V) (l : NetLabel V), t.Reached evictable wire ∧ t.net.OneClock l ∧
      Clocked.step evictable wire t l = some t' ∧ t.net.SendsCheckpoint t'.net 0 ∧
      t.held 0 = some { lease := { leaseTimeout := leaseTimeout, createdAt := createdAt }
                        arrivedAt := arrivedAt } ∧
      t.net.world.now = arrivedAt + elapsed := by
  have hms := payFor_leaseMilliseconds (show 0 < leaseTimeout by omega)
  obtain ⟨t, hr, hnow, hheld, hcalls, hrunners⟩ :=
    exists_serializing (V := V) evictable wire leaseTimeout hcreated harrived elapsed
  have hlt : arrivedAt + elapsed < arrivedAt + leaseTimeout := by omega
  have hturn : (payFor leaseTimeout).resume (.start "pay" none 1)
      (.serializing arrivedAt default) (.serialized (.ok (.bytes [])) (arrivedAt + elapsed)) =
      some
        { runner := .start "pay" none 1
          phase := .checkpointing (arrivedAt + leaseTimeout) (default : V) (.bytes [])
          call := some (.checkpoint "pay" (.bytes []) 1 0 "k") } := by
    simp only [ExecuteCall.resume, ExecuteCall.checkpointLoop, hms, if_pos hlt]
    rfl
  obtain ⟨net', hnet, data, hdata⟩ : ∃ net', Net.step evictable wire t.net
        (.resume 0 (.serialized (.ok (.bytes [])) (arrivedAt + elapsed))) = some net' ∧
      t.net.SendsCheckpoint net' 0 := by
    simp only [Net.step, hcalls, hrunners, Net.goOn, hturn, List.getElem?_cons_zero,
      Option.isNone_none, if_true, Option.map_some, Option.some.injEq, exists_eq_left']
    exact ⟨_, rfl⟩
  refine ⟨t, _, .resume 0 (.serialized (.ok (.bytes [])) (arrivedAt + elapsed)), hr, ?_,
    by simp only [Clocked.step, hnet, Option.map_some]; rfl, ⟨data, hdata⟩, ?_, hnow⟩
  · rintro now ⟨⟩
    exact hnow.symm
  · rw [hheld, hms]

/-- **The client's window lies inside the server's** exactly for the grants that
arrive in the millisecond the server created them in, with an expiry an `i64`
holds; a lease timeout that is not positive sends no checkpoint. -/
theorem window_inside_iff (evictable : CachedLease → Int → Bool) (wire : Wire) (V : Type)
    [Inhabited V] {createdAt arrivedAt leaseTimeout : Int} (hcreated : 0 ≤ createdAt)
    (harrived : createdAt ≤ arrivedAt) :
    WindowInside evictable wire V createdAt arrivedAt leaseTimeout ↔
      leaseTimeout ≤ 0 ∨ (arrivedAt = createdAt ∧ createdAt + leaseTimeout ≤ i64Max) := by
  constructor
  · intro hinside
    -- However long a task takes in the client's window, the lease is in force.
    have hlate : ∀ elapsed : Nat, elapsed < leaseTimeout →
        arrivedAt + elapsed < min (createdAt + leaseTimeout) i64Max := by
      intro elapsed helapsed
      obtain ⟨t, t', l, hr, hok, hs, hsends, hheld, hnow⟩ :=
        exists_late (V := V) evictable wire hcreated harrived elapsed helapsed
      by_contra hge
      refine hinside t t' l 0 hr hok hs hsends hheld (.of_le hcreated ?_ ?_)
      · exact (Int.natCast_nonneg elapsed).trans helapsed.le
      · exact hnow ▸ not_lt.mp hge
    by_contra hno
    simp only [not_or, not_le, not_and] at hno
    obtain ⟨hpos, hfits⟩ := hno
    rcases harrived.eq_or_lt with rfl | hlater
    · -- The expiry saturates, and the client's window goes on after it.
      have hend := hfits rfl
      have hlast := hlate (i64Max - createdAt).toNat (by omega)
      omega
    · -- The reply's time on its way is left when the lease has expired.
      have hlast := hlate (leaseTimeout - 1).toNat (by omega)
      omega
  · rintro h t t' l c hr hok hs hsends hheld
    obtain ⟨g, hg, -, harrives, hlt⟩ := Clocked.window_held hr hok hs hsends
    obtain rfl := Option.some.inj (hg.symm.trans hheld)
    simp only at harrives hlt
    rcases h with h | ⟨rfl, hfits⟩
    · omega
    · exact LeasedCheckpointValue.not_expired hlt (hlt.trans_le hfits)

/-- A grant whose reply took no time. -/
theorem window_inside_at_once : WindowInside leaseExpired silentWire Unit 0 0 30000 :=
  (window_inside_iff leaseExpired silentWire Unit (le_refl 0) (le_refl 0)).mpr
    (.inr ⟨rfl, by decide⟩)

/-- A reply a millisecond on its way: a task of the whole window but its last
millisecond sends its checkpoint when the lease has expired. -/
theorem window_outside_after_delay : ¬ WindowInside leaseExpired silentWire Unit 0 1 30000 := by
  intro hinside
  obtain ⟨t, t', l, hr, hok, hs, hsends, hheld, hnow⟩ :=
    exists_late (V := Unit) leaseExpired silentWire (le_refl 0) Int.one_nonneg 29999
      (show ((29999 : Nat) : Int) < 30000 by decide)
  refine hinside t t' l 0 hr hok hs hsends hheld ?_
  rw [hnow]
  decide

end IdempotentTransformer
