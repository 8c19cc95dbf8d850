import IdempotentTransformer.Requests
import IdempotentTransformer.Ownership
import IdempotentTransformer.Visibility
import IdempotentTransformer.Client.Transcript
import Mathlib.Data.Rat.Floor

/-!
# IdempotentTransformer.Polling

How long a call waits for the lease of its position.

`execute` sleeps a tenth of the remaining time the server tells it and asks
again.  Here one call of a network is watched with the clock: its replies
come, its values are deserialized and its timers fire with at most a given
delay, and all else is left open — who else asks for the position, starts
the workflow over, checkpoints, releases, completes or cleans up, and which
entries the cache drops.

* `lease_wait_bounded` — the call leaves its lease loop soon after it was made
  and the leases granted for what it asks have run out;
* `lease_wait_ends` — and it can, from wherever it stands, if only its own
  requests are handled.
-/

namespace IdempotentTransformer

open Library

/-! ## The client's timers -/

/-- `setTimeout`: a delay below one or above the greatest 32-bit integer becomes
one, and fractions are cut off. -/
def setTimeout (milliseconds : Rat) : Int :=
  if 1 ≤ milliseconds ∧ milliseconds ≤ 2 ^ 31 - 1 then milliseconds.floor else 1

theorem one_le_setTimeout (milliseconds : Rat) : 1 ≤ setTimeout milliseconds := by
  unfold setTimeout
  split
  · next h => exact Rat.le_floor_iff.mpr h.1
  · exact le_refl 1

/-- A tenth of the remaining time ends before it. -/
theorem setTimeout_tenth_le {remaining : Int} (h : 0 < remaining) :
    setTimeout (remaining / 10) ≤ remaining := by
  unfold setTimeout
  split
  · have hpos : (0 : Rat) < remaining := by exact_mod_cast h
    have hfloor : ((((remaining : Rat) / 10).floor : Int) : Rat) ≤ remaining :=
      (Rat.floor_le _).trans (by linarith)
    exact_mod_cast hfloor
  · omega

/-! ## The lease loop -/

namespace ExecuteCall

variable {V : Type} {c : ExecuteCall} {r : Runner} {phase : Phase V} {input : Input V}
  {turn : Turn V} {k : Nat}

/-- An error is caught once at the most. -/
theorem errorCount_of_leaseFailed {err : Thrown} {m : Nat}
    (h : (leaseFailed r m err : Turn V).phase.errorCount? = some k) :
    m = 0 ∧ k = 1 ∧ (leaseFailed r m err : Turn V).phase = .waiting 100 1 := by
  unfold leaseFailed at h ⊢
  split at h
  · next hretry =>
      obtain rfl : m = 0 := by omega
      cases h
      exact ⟨rfl, rfl, by rw [if_pos hretry]⟩
  · contradiction

/-- The turns that stay in the lease loop. -/
theorem resume_loop (h : c.resume r phase input = some turn)
    (hk : turn.phase.errorCount? = some k) :
    (∃ milliseconds, phase = .waiting milliseconds k ∧ turn.phase = .leasing k) ∨
      (∃ value remaining now, phase = .leasing k ∧
        input = .reply (.ok (.leaseCheckpoint value (some remaining))) now ∧
        value.filter TSerialized.truthy = none ∧ remaining ≠ 0 ∧
        turn.phase = .waiting (remaining / 10) k) ∨
      (∃ value, phase = .leasing k ∧ turn.phase = .deserializing value k) ∨
      (k = 1 ∧ turn.phase = .waiting 100 1 ∧
        (phase = .leasing 0 ∨ ∃ value, phase = .deserializing value 0)) := by
  have hadvances := resume_cases h
  rcases Taken.leaseError?_cases r h with ⟨err, m, herr, hm, rfl⟩ | ⟨-, hsame⟩
  · obtain ⟨rfl, rfl, hwaits⟩ := errorCount_of_leaseFailed hk
    refine .inr (.inr (.inr ⟨rfl, hwaits, ?_⟩))
    cases phase with
    | leasing k => exact .inl (by rw [Option.some.inj hm])
    | deserializing value k => exact .inr ⟨value, by rw [Option.some.inj hm]⟩
    | waiting milliseconds k =>
        -- Nothing is caught while the call sleeps.
        cases input <;> contradiction
    | _ => contradiction
  · have hold := hsame k hk
    cases hadvances with
    | asks =>
        cases hk
        exact .inl ⟨_, rfl, rfl⟩
    | @polls k' value remaining now n hv hr =>
        cases hk
        obtain ⟨hn, hne⟩ := Option.filter_eq_some_iff.mp hr
        subst hn
        exact .inr (.inl ⟨value, n, now, rfl, rfl, hv, by simpa using hne, rfl⟩)
    | finds hv =>
        cases hk
        exact .inr (.inr (.inl ⟨_, rfl, rfl⟩))
    | retries hp =>
        cases hk
        rcases hp with rfl | ⟨value, rfl⟩ <;> simp [Phase.errorCount?] at hold
    | compensates hp hp' => rcases hp' with ⟨i, rfl⟩ | ⟨milliseconds, i, rfl⟩ <;> contradiction
    | _ => contradiction

end ExecuteCall

/-- A lease reply makes the call sleep only where it told a remaining time. -/
theorem GrpcAdapter.leaseReply_sleeps {output : LeaseCheckpointOutput}
    {value : Option TSerialized} {remaining : Int}
    (h : leaseReply output = .leaseCheckpoint value (some remaining))
    (hv : value.filter TSerialized.truthy = none) (hne : remaining ≠ 0) :
    output = { response := some (.RemainingLeaseTimeout remaining) } := by
  obtain ⟨response⟩ := output
  unfold leaseReply at h
  split at h
  · cases h
    contradiction
  · next hresponse =>
      cases h
      exact congrArg LeaseCheckpointOutput.mk hresponse
  · cases h
    exact absurd rfl hne

/-- How long the `await` may last, in the lease loop. -/
def Phase.lasting? {V : Type} (delay : Nat) : Phase V → Option Int
  | .leasing _ => some delay
  | .waiting milliseconds _ => some (setTimeout milliseconds + delay)
  | .deserializing _ _ => some delay
  | _ => none

theorem Phase.lasting?_nonneg {V : Type} {delay : Nat} {phase : Phase V} {lasting : Int}
    (h : phase.lasting? delay = some lasting) : 0 ≤ lasting := by
  cases phase with
  | leasing k =>
      cases h
      exact Int.natCast_nonneg delay
  | waiting milliseconds k =>
      cases h
      have := one_le_setTimeout milliseconds
      omega
  | deserializing value k =>
      cases h
      exact Int.natCast_nonneg delay
  | _ => contradiction

/-! ## Watched networks -/

/-- A network with what the clock showed. -/
structure Watched (V : Type) where
  net : Net V
  /-- When each call was made. -/
  made : Nat → Int
  /-- When each call came to the `await` it is at. -/
  entered : Nat → Int

/-- The call that takes a turn. -/
def NetLabel.turn? {V : Type} : NetLabel V → Option Nat
  | .deliver call _ => some call
  | .fail call _ _ => some call
  | .resume call _ => some call
  | _ => none

/-- When the lease a request asks for runs out. -/
def Handled.leaseEnd (h : Handled) : Int :=
  match h.request with
  | .leaseCheckpoint data => h.before.now + data.leaseTimeout
  | _ => h.before.now

theorem Handled.leaseEnd_of_request {h : Handled} {data : LeaseCheckpointInput}
    (hd : h.request = .leaseCheckpoint data) :
    h.leaseEnd = h.before.now + data.leaseTimeout := by
  simp only [leaseEnd, hd]

namespace Net

variable {V : Type}

/-- The call has asked for the lease of the position. -/
def Asks (net : Net V) (c : Nat) (workflowId : String) (position : Int) : Prop :=
  ∃ (n : Nat) (rpc : Rpc), net.rpcs[n]? = some rpc ∧ rpc.call = c ∧
    rpc.request.leasePosition = some (workflowId, position)

/-- The leases granted so far for what the call has asked run out by then. -/
def LeasedUntil (net : Net V) (c : Nat) (deadline : Int) : Prop :=
  ∀ s ∈ net.served, ∀ data, s.handled.request = .leaseCheckpoint data →
    s.handled.reply = granted →
    net.Asks c data.workflowId data.position →
    s.handled.leaseEnd ≤ deadline

end Net

namespace Watched

variable {V : Type}

def initial (t : Watched V) : Prop :=
  t.net.initial ∧ t.made = (fun _ => 0) ∧ t.entered = fun _ => 0

/-- Nothing has happened yet, at time zero. -/
def start (V : Type) : Watched V :=
  { net := .start V, made := fun _ => 0, entered := fun _ => 0 }

def madeAfter (t : Watched V) : NetLabel V → Nat → Int
  | .execute _ _ => Function.update t.made t.net.calls.length t.net.world.now
  | _ => t.made

def enteredAfter (t : Watched V) : NetLabel V → Nat → Int
  | .execute _ _ => Function.update t.entered t.net.calls.length t.net.world.now
  | l =>
    match l.turn? with
    | some c => Function.update t.entered c t.net.world.now
    | none => t.entered

/-- One step of the network, with the times it sets. -/
def step (evictable : CachedLease → Int → Bool) (wire : Wire) : Step (Watched V) (NetLabel V)
  | t, l => (Net.step evictable wire t.net l).map fun net =>
      { net := net, made := t.madeAfter l, entered := t.enteredAfter l }

/-- The clock does not pass what the call's `await` may last. -/
def Prompt (delay : Nat) (c : Nat) (t : Watched V) : NetLabel V → Prop
  | .tick elapsed => ∀ call ∈ t.net.calls[c]?, ∀ lasting ∈ call.phase.lasting? delay,
      t.net.world.now + elapsed ≤ t.entered c + lasting
  | _ => True

instance (delay : Nat) (c : Nat) (t : Watched V) (l : NetLabel V) :
    Decidable (t.Prompt delay c l) :=
  match l with
  | .tick _ => Option.decidableForallMem _
  | .start .. => .isTrue trivial
  | .execute .. => .isTrue trivial
  | .handle .. => .isTrue trivial
  | .deliver .. => .isTrue trivial
  | .fail .. => .isTrue trivial
  | .resume .. => .isTrue trivial
  | .serve .. => .isTrue trivial
  | .evict .. => .isTrue trivial

/-- The runs in which that call is served promptly. -/
def Reached (evictable : CachedLease → Int → Bool) (wire : Wire) (delay : Nat) (c : Nat)
    (t : Watched V) : Prop :=
  Reachable (step evictable wire) (Prompt delay c) initial t

end Watched

/-! ## What the leases granted allow -/

section LeasedUntil

variable {V : Type} {net net' : Net V} {c : Nat} {deadline : Int}

/-- A remaining time told ends with the lease at the latest. -/
theorem remaining_le {leased : LeasedCheckpointValue} {now : Int} (hnow : 0 ≤ now)
    (hpos : 0 < remainingLeaseTimeout leased now) :
    now + remainingLeaseTimeout leased now ≤ leased.createdAt + leased.leaseTimeout := by
  simp only [remainingLeaseTimeout, saturatingSub, saturatingAdd, clampI64, i64Min, i64Max] at *
  omega

namespace Net

theorem LeasedUntil.of_subset (h : net'.LeasedUntil c deadline)
    (hserved : ∀ s ∈ net.served, s ∈ net'.served)
    (hasks : ∀ workflowId position, net.Asks c workflowId position →
      net'.Asks c workflowId position) : net.LeasedUntil c deadline :=
  fun s hs data hdata hg ha =>
    h s (hserved s hs) data hdata hg (hasks data.workflowId data.position ha)

/-- What bounds the leases after a step bounded them before. -/
theorem leasedUntil_of_stepped {evictable : CachedLease → Int → Bool} {wire : Wire}
    {l : NetLabel V} (hs : Stepped evictable wire net l net')
    (h : net'.LeasedUntil c deadline) :
    net.LeasedUntil c deadline := by
  cases hs with
  | started hf ht => exact h.of_subset (fun s hs => List.mem_cons_of_mem _ hs) fun _ _ ha => ha
  | served hf hp => exact h.of_subset (fun s hs => List.mem_cons_of_mem _ hs) fun _ _ ha => ha
  | ticked => exact h
  | evicted hc he => exact h
  | called hr =>
      refine h.of_subset (fun s hs => hs) ?_
      rintro workflowId position ⟨n, rpc, hn, hrest⟩
      exact ⟨n, rpc, append_some hn, hrest⟩
  | turned hc hr hi ht =>
      refine h.of_subset (fun s hs => hs) ?_
      rintro workflowId position ⟨n, rpc, hn, hrest⟩
      exact ⟨n, rpc, append_some hn, hrest⟩
  | answered hf hn hc hp =>
      refine h.of_subset (fun s hs => List.mem_cons_of_mem _ hs) ?_
      rintro workflowId position ⟨m, old, hm, hcall, hposition⟩
      obtain ⟨new, hnew, hcall', hrequest, -⟩ := rpcs_answer hn hm
      exact ⟨m, new, hnew, hcall'.trans hcall, hrequest ▸ hposition⟩

/-- **What a call is told to wait for** is over when the leases granted are. -/
theorem told_le (hserver : ∃ evictable, net.server.Reached evictable)
    (hclock : 0 ≤ net.world.now) (hleased : net.LeasedUntil c deadline) {env : Env}
    (hf : env.fault = .none)
    {data : LeaseCheckpointInput} (hasks : net.Asks c data.workflowId data.position)
    {remaining : Int} (h : ((Request.leaseCheckpoint data).handle env net.world).1 =
      .ok (.leaseCheckpoint { response := some (.RemainingLeaseTimeout remaining) })) :
    0 < remaining ∧ net.world.now + remaining ≤ deadline := by
  obtain ⟨evictable, hr⟩ := hserver
  have hpos := handle_leaseCheckpoint_of_remaining hf h
  refine ⟨hpos, ?_⟩
  cases hrow : net.world.checkpoints data.workflowId data.position with
  | some row =>
      rw [handle_leaseCheckpoint_of_row hf hrow, replayReply] at h
      split at h
      · contradiction
      · cases hv : row.value <;> simp [hv] at h
  | none =>
      rcases handle_leaseCheckpoint_without_row hf net.world data hrow with
        hg | ⟨leased, hl, hlr⟩ |
        ⟨e, he⟩
      · rw [hg] at h
        cases h
      · rw [hlr] at h
        obtain rfl : remainingLeaseTimeout leased net.world.now = remaining := by simpa using h
        obtain ⟨token, hlast⟩ := Server.lastGrant_of_cache hr (Option.mem_filter_iff.mp hl).1
        obtain ⟨handled, hmem, hgrant⟩ := List.exists_of_findSome?_eq_some hlast
        obtain ⟨s, hs, rfl⟩ := List.mem_map.mp hmem
        obtain ⟨asked, hrequest, hw, hp, hg, rfl⟩ := Server.grant_eq_some hgrant
        have hend := hleased s hs asked hrequest hg (by rw [hw, hp]; exact hasks)
        rw [Handled.leaseEnd_of_request hrequest] at hend
        exact (remaining_le hclock hpos).trans hend
      · rw [he] at h
        cases h

end Net

end LeasedUntil

/-! ## What a watched run keeps -/

namespace Watched

variable {V : Type} {t t' : Watched V} {delay c : Nat} {call : Call V} {deadline : Int}

/-- How much later than the deadline a call that caught so many errors may be. -/
def lateness (delay k : Nat) : Int := if k = 0 then 0 else 100 + 3 * delay

theorem lateness_nonneg (delay k : Nat) : 0 ≤ lateness delay k := by
  unfold lateness
  split <;> omega

theorem lateness_le (delay k : Nat) : lateness delay k ≤ 100 + 3 * delay := by
  unfold lateness
  split <;> omega

/-- How much later than the deadline the `await` may begin. -/
def latest? (delay : Nat) : Phase V → Option Int
  | .leasing k => some (2 * delay + lateness delay k)
  | .waiting milliseconds k => some (delay + lateness delay k - setTimeout milliseconds)
  | .deserializing _ k => some (3 * delay + lateness delay k)
  | _ => none

/-- Where a call of the lease loop stands to the deadline. -/
structure OnTime (t : Watched V) (delay c : Nat) (call : Call V) (deadline : Int) : Prop where
  entered : t.entered c ≤ t.net.world.now
  lasts : ∀ lasting ∈ call.phase.lasting? delay, t.net.world.now ≤ t.entered c + lasting
  begins : ∀ late ∈ latest? delay call.phase, t.entered c ≤ deadline + late
  told : ∀ (n : Nat) (rpc : Rpc) remaining, call.awaiting = some n → t.net.rpcs[n]? = some rpc →
    rpc.reply =
      some (.ok (.leaseCheckpoint { response := some (.RemainingLeaseTimeout remaining) })) →
    0 < remaining ∧ t.entered c + remaining ≤ deadline

/-- The call keeps to every deadline no lease granted goes beyond. -/
def Punctual (t : Watched V) (delay c : Nat) : Prop :=
  ∀ call deadline, t.net.calls[c]? = some call → t.made c ≤ deadline →
    t.net.LeasedUntil c deadline → t.OnTime delay c call deadline

theorem punctual_initial (h : t.initial) : t.Punctual delay c := by
  obtain ⟨⟨now, -, hnet⟩, -, -⟩ := h
  intro call deadline hc
  simp [hnet] at hc

/-- What leaves the call and its request alone keeps it on time. -/
theorem OnTime.of_quiet (h : t.OnTime delay c call deadline)
    (hrpcs : ∀ (n : Nat) (rpc : Rpc), t'.net.rpcs[n]? = some rpc → rpc.reply.isSome = true →
      t.net.rpcs[n]? = some rpc)
    (hentered : t'.entered c = t.entered c) (hnow : t.net.world.now ≤ t'.net.world.now)
    (hlasts : ∀ lasting ∈ call.phase.lasting? delay, t'.net.world.now ≤ t.entered c + lasting) :
    t'.OnTime delay c call deadline := by
  constructor
  case entered =>
    rw [hentered]
    exact h.entered.trans hnow
  case lasts =>
    rw [hentered]
    exact hlasts
  case begins =>
    rw [hentered]
    exact h.begins
  case told =>
    intro n rpc remaining hawaiting hn hreply
    rw [hentered]
    exact h.told n rpc remaining hawaiting (hrpcs n rpc hn (by rw [hreply]; rfl)) hreply

/-- A request just sent has no reply. -/
theorem rpcs_of_sent {rpcs : List Rpc} {o : Option Rpc} (ho : ∀ rpc ∈ o, rpc.reply = none)
    {n : Nat} {rpc : Rpc} (hn : (rpcs ++ o.toList)[n]? = some rpc)
    (hr : rpc.reply.isSome = true) :
    rpcs[n]? = some rpc := by
  rcases append_cases hn with hn | ⟨-, hsent⟩
  · exact hn
  · rw [ho rpc hsent] at hr
    contradiction

variable {evictable : CachedLease → Int → Bool} {wire : Wire}

/-- A call is made. -/
theorem punctual_called (h : t.Punctual delay c) {r : Nat} {runner : Runner}
    {execute : ExecuteCall} (hback : ∀ deadline,
      (t.net.addCall wire r runner execute).LeasedUntil c deadline →
        t.net.LeasedUntil c deadline) :
    ({ net := t.net.addCall wire r runner execute, made := t.madeAfter (.execute r execute)
       entered := t.enteredAfter (.execute r execute) } : Watched V).Punctual delay c := by
  intro call deadline hc hmade hleased
  have hold := hback deadline hleased
  rcases Net.calls_addCall hc with hc | ⟨rfl, rfl⟩
  · have hne : c ≠ t.net.calls.length := (List.getElem?_eq_some_iff.mp hc).1.ne
    simp only [madeAfter, Function.update_of_ne hne] at hmade
    have hcall := h call deadline hc hmade hold
    refine hcall.of_quiet ?_ (Function.update_of_ne hne _ _) (le_refl _) hcall.lasts
    exact fun n rpc hn hr => rpcs_of_sent (o := some _) (by rintro _ ⟨⟩; rfl) hn hr
  · have hnow : t.net.world.now ≤ deadline := by
      simpa only [madeAfter, Function.update_self] using hmade
    constructor
    case entered => exact (Function.update_self ..).le
    case lasts =>
      intro lasting hl
      have := Phase.lasting?_nonneg hl
      simp only [enteredAfter, Function.update_self, Net.addCall]
      omega
    case begins =>
      rintro late ⟨⟩
      simp only [enteredAfter, Function.update_self, lateness]
      omega
    case told =>
      rintro n rpc remaining ⟨⟩ hn hreply
      rcases Net.rpcs_addCall hn with hn | ⟨-, hnone, -⟩
      · exact absurd (List.getElem?_eq_some_iff.mp hn).1 (lt_irrefl _)
      · rw [hnone] at hreply
        contradiction

/-- A request is handled: where it is the call's own, its reply tells when the
lease in force ends. -/
theorem punctual_answered (h : t.Punctual delay c) (hr : t.net.server.Reached evictable)
    (hasked : t.net.Asked) (hclock : 0 ≤ t.net.world.now) {env : Env} (hf : env.fault = .none)
    {n : Nat} {rpc : Rpc} {call' : Call V} (hn : t.net.rpcs[n]? = some rpc)
    (hback : ∀ deadline, (t.net.answer env n rpc call').LeasedUntil c deadline →
      t.net.LeasedUntil c deadline) :
    ({ t with net := t.net.answer env n rpc call' } : Watched V).Punctual delay c := by
  intro call deadline hc hmade hleased
  have hold := hback deadline hleased
  have hcall := h call deadline hc hmade hold
  have hnow : (t.net.answer env n rpc call').world.now = t.net.world.now :=
    handle_now env rpc.request t.net.world
  constructor
  case entered => exact hnow ▸ hcall.entered
  case lasts => exact fun lasting hl => hnow ▸ hcall.lasts lasting hl
  case begins => exact hcall.begins
  case told =>
    intro m rpc' remaining hawaiting hm hreply
    obtain ⟨old, hm', -, -, ⟨rfl, hnew⟩ | ⟨-, hsame⟩⟩ := Net.answer_cases hn hm
    · -- The request the call waits for is its own, and asks for a lease.
      obtain ⟨own, hown, howner⟩ := hasked.awaiting c call m hc hawaiting
      obtain rfl : own = rpc := Option.some.inj (hown.symm.trans hn)
      rw [hreply, Option.some.injEq] at hnew
      obtain ⟨data, hdata⟩ := exists_of_leaseCheckpoint hnew.symm
      rw [hdata] at hnew
      have htold := Net.told_le ⟨evictable, hr⟩ hclock hold hf
        ⟨m, own, hn, howner, by rw [hdata]; rfl⟩ hnew.symm
      exact ⟨htold.1, (add_le_add_left hcall.entered remaining).trans htold.2⟩
    · exact hcall.told m old remaining hawaiting hm' (hsame ▸ hreply)

/-- A reply that makes its call sleep has told it how long to wait. -/
theorem told_of_prompts (hasked : t.net.Asked) (hc : t.net.calls[c]? = some call) {k : Nat}
    (hk : call.phase = .leasing k) {l : NetLabel V} {input : Input V}
    (hi : Net.Prompts t.net c call l input) {value : Option TSerialized} {remaining now : Int}
    (hinput : input = .reply (.ok (.leaseCheckpoint value (some remaining))) now)
    (hv : value.filter TSerialized.truthy = none) (hne : remaining ≠ 0) :
    ∃ (n : Nat) (rpc : Rpc), call.awaiting = some n ∧ t.net.rpcs[n]? = some rpc ∧ rpc.reply =
      some (.ok
        (.leaseCheckpoint { response := some (.RemainingLeaseTimeout remaining) })) := by
  obtain ⟨n, rpc, data, hawaiting, hn, -⟩ := hasked.leasing c call k hc hk
  cases hi with
  | failed ha => cases hinput
  | resumed ha =>
      rw [hawaiting] at ha
      contradiction
  | delivered ho =>
      cases hinput
      simp only [Net.outcome, hawaiting, hn, Option.bind_eq_some_iff] at ho
      obtain ⟨reply, hreply, hsettle⟩ := ho
      obtain ⟨output, rfl, houtput⟩ := GrpcAdapter.settle_lease hsettle
      exact ⟨n, rpc, hawaiting, hn,
        by rw [hreply, GrpcAdapter.leaseReply_sleeps houtput hv hne]⟩

/-- A turn of the call: it is in time to go on. -/
theorem OnTime.of_turn (h : t.OnTime delay c call deadline) (hasked : t.net.Asked)
    (hc : t.net.calls[c]? = some call) {l : NetLabel V} {input : Input V} {runner : Runner}
    {turn : Turn V} (hi : Net.Prompts t.net c call l input)
    (ht : call.execute.resume runner call.phase input = some turn) :
    ∀ late ∈ latest? delay turn.phase, t.net.world.now ≤ deadline + late := by
  have hlasts := h.lasts
  have hbegins := h.begins
  intro late hlate
  obtain ⟨k, hk⟩ : ∃ k, turn.phase.errorCount? = some k := by
    cases hphase : turn.phase <;> rw [hphase] at hlate
      <;> first | exact ⟨_, rfl⟩ | contradiction
  rcases ExecuteCall.resume_loop ht hk with ⟨milliseconds, hold, hnew⟩ |
    ⟨value, remaining, now, hold, hinput, hv, hne, hnew⟩ | ⟨value, hold, hnew⟩ |
    ⟨rfl, hnew, hold⟩
  · -- It slept no longer than its timer and asks again.
    rw [hnew] at hlate
    rw [hold] at hlasts hbegins
    have := hlasts _ rfl
    have := hbegins _ rfl
    cases hlate
    omega
  · -- It goes to sleep for less than it was told to wait.
    obtain ⟨n, rpc, hawaiting, hn, hreply⟩ := told_of_prompts hasked hc hold hi hinput hv hne
    obtain ⟨hpos, htold⟩ := h.told n rpc remaining hawaiting hn hreply
    have htimer := setTimeout_tenth_le hpos
    rw [hnew] at hlate
    rw [hold] at hlasts
    have := hlasts _ rfl
    have := lateness_nonneg delay k
    cases hlate
    omega
  · -- It found a value.
    rw [hnew] at hlate
    rw [hold] at hlasts hbegins
    have := hlasts _ rfl
    have := hbegins _ rfl
    cases hlate
    omega
  · -- It caught its one error.
    rw [hnew] at hlate
    have htimer : setTimeout 100 = 100 := by decide +kernel
    rcases hold with hold | ⟨value, hold⟩
    all_goals
      rw [hold] at hlasts hbegins
      have := hlasts _ rfl
      have := hbegins _ rfl
      cases hlate
      simp only [lateness, if_true, one_ne_zero, if_false] at *
      omega

/-- A call takes a turn. -/
theorem punctual_turned (h : t.Punctual delay c) (hasked : t.net.Asked) {l : NetLabel V}
    {c' : Nat} {call' : Call V} {runner : Runner} {input : Input V} {turn : Turn V}
    (hc' : t.net.calls[c']? = some call')
    (hi : Net.Prompts t.net c' call' l input)
    (ht : call'.execute.resume runner call'.phase input = some turn)
    (hback : ∀ deadline, (t.net.take wire c' call' runner input turn).LeasedUntil c deadline →
      t.net.LeasedUntil c deadline) :
    ({ net := t.net.take wire c' call' runner input turn, made := t.madeAfter l
       entered := t.enteredAfter l } : Watched V).Punctual delay c := by
  intro call deadline hc hmade hleased
  have hold := hback deadline hleased
  have hsame : t.madeAfter l = t.made := by cases hi <;> rfl
  have hentered : t.enteredAfter l = Function.update t.entered c' t.net.world.now := by
    cases hi <;> rfl
  simp only [hsame] at hmade
  have hsent : ∀ rpc ∈ turn.call.map fun call : AdapterCall =>
      ({ call := c', request := GrpcAdapter.request wire call, reply := none } : Rpc),
      rpc.reply = none := by
    intro rpc hrpc
    obtain ⟨adapterCall, -, rfl⟩ := Option.map_eq_some_iff.mp hrpc
    rfl
  rcases set_cases hc with ⟨rfl, rfl⟩ | ⟨hne, hc⟩
  · have hcall := h call' deadline hc' hmade hold
    simp only [hentered]
    constructor
    case entered => exact (Function.update_self ..).le
    case lasts =>
      intro lasting hl
      have := Phase.lasting?_nonneg hl
      simp only [Function.update_self, Net.take]
      omega
    case begins =>
      simp only [Function.update_self]
      exact hcall.of_turn hasked hc' hi ht
    case told =>
      intro n rpc remaining hawaiting hn hreply
      obtain ⟨adapterCall, -, rfl⟩ := Option.map_eq_some_iff.mp hawaiting
      have hrpc := rpcs_of_sent hsent hn (by rw [hreply]; rfl)
      exact absurd (List.getElem?_eq_some_iff.mp hrpc).1 (lt_irrefl _)
  · have hcall := h call deadline hc hmade hold
    refine hcall.of_quiet (fun n rpc hn hr => rpcs_of_sent hsent hn hr) ?_
      (le_refl _) hcall.lasts
    simp only [hentered, Function.update_of_ne hne]

/-- **Every step keeps the call punctual.** -/
theorem punctual_step {l : NetLabel V} (hr : t.net.server.Reached evictable)
    (hasked : t.net.Asked) (hclock : 0 ≤ t.net.world.now) (h : t.Punctual delay c)
    (hok : t.Prompt delay c l)
    (hs : step evictable wire t l = some t') : t'.Punctual delay c := by
  simp only [step, Option.map_eq_some_iff] at hs
  obtain ⟨net', hnet, rfl⟩ := hs
  have hstepped := Net.step_cases hnet
  have hback : ∀ deadline, net'.LeasedUntil c deadline → t.net.LeasedUntil c deadline :=
    fun deadline => Net.leasedUntil_of_stepped hstepped
  have hquiet (hcalls : net'.calls = t.net.calls) (hrpcs : net'.rpcs = t.net.rpcs)
      (hmade : t.madeAfter l = t.made) (hentered : t.enteredAfter l = t.entered)
      (hnow : net'.world.now = t.net.world.now) :
      ({ net := net', made := t.madeAfter l, entered := t.enteredAfter l } :
        Watched V).Punctual delay c := by
    intro call deadline hc hmade' hleased
    have hcall := h call deadline (hcalls ▸ hc) (hmade ▸ hmade') (hback deadline hleased)
    refine hcall.of_quiet (fun n rpc hn _ => hrpcs ▸ hn) ?_ hnow.ge (fun lasting hl => ?_)
    · exact congrFun hentered c
    · exact hnow.le.trans (hcall.lasts lasting hl)
  cases hstepped with
  | started hf ht => exact hquiet rfl rfl rfl rfl (handle_now ..)
  | served hf hp => exact hquiet rfl rfl rfl rfl (handle_now ..)
  | evicted hc he => exact hquiet rfl rfl rfl rfl rfl
  | called hcalled => exact punctual_called h hback
  | answered hf hn hc hp => exact punctual_answered h hr hasked hclock hf hn hback
  | turned hc hrunner hi ht => exact punctual_turned h hasked hc hi ht hback
  | @ticked elapsed =>
      intro call deadline hc hmade hleased
      have hcall := h call deadline hc hmade hleased
      exact hcall.of_quiet (fun n rpc hn _ => hn) rfl (by simp [World.tick])
        fun lasting hl => hok call hc lasting hl

theorem Reached.net (hr : t.Reached evictable wire delay c) :
    Reachable (Net.step evictable wire) anyStep Net.initial t.net := by
  refine Reachable.map Watched.net hr (fun t h => h.1) ?_
  intro t l t' _ _ hs
  obtain ⟨net', hnet, rfl⟩ := Option.map_eq_some_iff.mp hs
  exact .step (.start rfl) trivial hnet

theorem Reached.kept (hr : t.Reached evictable wire delay c) :
    t.net.Asked ∧ 0 ≤ t.net.world.now ∧ t.Punctual delay c := by
  refine hr.invariant_of_reachable
    (fun t => t.net.Asked ∧ 0 ≤ t.net.world.now ∧ t.Punctual delay c) ?_ ?_
  · intro t h
    obtain ⟨now, hnow, hnet⟩ := h.1
    exact ⟨Net.asked_initial h.1, hnet ▸ hnow, punctual_initial h⟩
  · rintro t l t' hr ⟨hasked, hclock, h⟩ hok hs
    refine ⟨?_, ?_, punctual_step (Net.server_reached (Reached.net hr)) hasked hclock h hok hs⟩
    all_goals
      obtain ⟨net', hnet, rfl⟩ := Option.map_eq_some_iff.mp hs
    · exact Net.asked_step (Net.step_cases hnet) hasked
    · exact hclock.trans (Net.now_le_of_stepped (Net.step_cases hnet))

/-- In the lease loop the clock is not far past the deadline. -/
theorem OnTime.now_le (h : t.OnTime delay c call deadline) {k : Nat}
    (hloop : call.phase.errorCount? = some k) :
    t.net.world.now ≤ deadline + 4 * delay + lateness delay k := by
  have hlasts := h.lasts
  have hbegins := h.begins
  cases hphase : call.phase with
  | leasing k' =>
      rw [hphase] at hloop hlasts hbegins
      have := hlasts _ rfl
      have := hbegins _ rfl
      cases hloop
      omega
  | waiting milliseconds k' =>
      rw [hphase] at hloop hlasts hbegins
      have := hlasts _ rfl
      have := hbegins _ rfl
      cases hloop
      omega
  | deserializing value k' =>
      rw [hphase] at hloop hlasts hbegins
      have := hlasts _ rfl
      have := hbegins _ rfl
      cases hloop
      omega
  | _ =>
      rw [hphase] at hloop
      contradiction

end Watched

/-- **The wait for a lease is bounded**: a call still in its lease loop has not
waited longer than the leases granted for what it asks, but for four delays,
and for three more and the pause of a tenth of a second where it has caught
an error. -/
theorem lease_wait_bounded {V : Type} {evictable : CachedLease → Int → Bool} {wire : Wire}
    {delay c k : Nat} {t : Watched V} {call : Call V} {deadline : Int}
    (hr : t.Reached evictable wire delay c) (hc : t.net.calls[c]? = some call)
    (hloop : call.phase.errorCount? = some k) (hmade : t.made c ≤ deadline)
    (hleased : t.net.LeasedUntil c deadline) :
    t.net.world.now ≤
      deadline + 4 * delay + (if k = 0 then 0 else 100 + 3 * delay : Int) :=
  (hr.kept.2.2 call deadline hc hmade hleased).now_le hloop

/-- A task under the default lease timeout. -/
def pollingExecute : ExecuteCall :=
  { idempotencyKey := "k", options := { leaseTimeout := none, onAbort := none } }

/-- A worker that asks again for the lease of one that crashed. -/
def asksAgain : List (NetLabel Unit) :=
  [.start "pay" none none (.calm "" true), .execute 0 pollingExecute, .handle 0 (.calm "" true),
    .start "pay" none none (.calm "" true), .execute 1 pollingExecute,
    .handle 1 (.calm "" true),
    .deliver 1 0, .tick 3000, .resume 1 .wake, .tick 5]

theorem exists_asksAgain :
    ∃ (t : Watched Unit) (call : Call Unit), t.Reached leaseExpired silentWire 5 1 ∧
      t.net.calls[1]? = some call ∧ call.phase = .leasing 0 ∧ t.net.world.now = 3005 ∧
      t.made 1 = 0 ∧ t.net.LeasedUntil 1 30000 := by
  obtain ⟨t, ht⟩ : ∃ t, execOk (Watched.step leaseExpired silentWire) (Watched.Prompt 5 1)
      (Watched.start Unit) asksAgain = some t := Option.isSome_iff_exists.mp (by decide +kernel)
  have hphase : t.net.calls[1]?.map Call.phase = some (.leasing 0) :=
    eq_of_outcome ht (fun t => t.net.calls[1]?.map Call.phase) (by decide +kernel)
  have hends : t.net.served.all (fun s => decide (s.handled.leaseEnd ≤ 30000)) = true :=
    eq_of_outcome ht (fun t => t.net.served.all fun s => decide (s.handled.leaseEnd ≤ 30000))
      (by decide +kernel)
  obtain ⟨call, hc, hleasing⟩ := Option.map_eq_some_iff.mp hphase
  exact ⟨t, call, .of_execOk (.start ⟨Net.initial_start Unit, rfl, rfl⟩) ht, hc, hleasing,
    eq_of_outcome ht (fun t => t.net.world.now) (by decide +kernel),
    eq_of_outcome ht (fun t => t.made 1) (by decide +kernel),
    fun s hs data hdata hg hasks => of_decide_eq_true (List.all_eq_true.mp hends s hs)⟩

/-- Half a minute's lease, of which three seconds have passed. -/
theorem asks_again_bounded :
    ∃ t : Watched Unit, t.Reached leaseExpired silentWire 5 1 ∧ t.net.world.now = 3005 ∧
      t.net.world.now ≤
        30000 + 4 * (5 : Nat) + (if 0 = 0 then 0 else 100 + 3 * (5 : Nat) : Int) := by
  obtain ⟨t, call, hr, hc, hleasing, hnow, hmade, hleased⟩ := exists_asksAgain
  exact ⟨t, hr, hnow, lease_wait_bounded hr hc (by rw [hleasing]; rfl) (by rw [hmade]; decide)
    hleased⟩

/-! ## That the wait ends -/

/-- The call waits for an answer about its lease, or for its timer to ask. -/
def Phase.asking {V : Type} : Phase V → Bool
  | .leasing _ | .waiting _ _ => true
  | _ => false

namespace Net

variable {V : Type} {net net' : Net V}

/-- Calls wait as their phases say, for replies of the kind they asked for. -/
structure Regular (net : Net V) : Prop where
  replied : ∀ (n : Nat) (rpc : Rpc) response, net.rpcs[n]? = some rpc →
    rpc.reply = some (.ok response) → rpc.request.Fits response
  awaiting : ∀ (c : Nat) (call : Call V), net.calls[c]? = some call →
    call.awaiting.isSome = call.phase.calling

theorem regular_initial (h : net.initial) : net.Regular := by
  obtain ⟨now, -, rfl⟩ := h
  constructor <;> simp

theorem regular_step {evictable : CachedLease → Int → Bool} {wire : Wire} {l : NetLabel V}
    (hs : Stepped evictable wire net l net') (h : net.Regular) : net'.Regular := by
  cases hs with
  | started hf ht => exact ⟨h.replied, h.awaiting⟩
  | served hf hp => exact ⟨h.replied, h.awaiting⟩
  | ticked => exact ⟨h.replied, h.awaiting⟩
  | evicted hc he => exact ⟨h.replied, h.awaiting⟩
  | called hr =>
      constructor
      case replied =>
        intro n rpc response hn hreply
        rcases rpcs_addCall hn with hn | ⟨-, hnone, -⟩
        · exact h.replied n rpc response hn hreply
        · rw [hnone] at hreply
          contradiction
      case awaiting =>
        intro c call hc
        rcases calls_addCall hc with hc | ⟨-, rfl⟩
        · exact h.awaiting c call hc
        · rfl
  | turned hc hr hi ht =>
      constructor
      case replied =>
        intro n rpc response hn hreply
        rcases append_cases hn with hn | ⟨-, hsent⟩
        · exact h.replied n rpc response hn hreply
        · obtain ⟨adapterCall, -, rfl⟩ := Option.map_eq_some_iff.mp hsent
          contradiction
      case awaiting =>
        intro c' call' hc'
        rcases set_cases hc' with ⟨rfl, rfl⟩ | ⟨-, hc'⟩
        · rw [← (ExecuteCall.resume_cases ht).call_isSome]
          exact Option.isSome_map
        · exact h.awaiting c' call' hc'
  | answered hf hn hc hp =>
      refine ⟨?_, h.awaiting⟩
      intro m rpc' response hm hreply
      obtain ⟨old, hold, -, hrequest, ⟨rfl, hnew⟩ | ⟨-, hsame⟩⟩ := answer_cases hn hm
      · obtain rfl := Option.some.inj (hold.symm.trans hn)
        rw [hrequest]
        rw [hreply, Option.some.injEq] at hnew
        exact handle_fits hnew.symm
      · rw [hrequest]
        exact h.replied m old response hold (hsame ▸ hreply)

/-- The leases granted so far run out by then, whoever asked for them. -/
def LeasesOver (net : Net V) (deadline : Int) : Prop :=
  ∀ s ∈ net.served, s.handled.reply = granted → s.handled.leaseEnd ≤ deadline

theorem exists_leasesOver (net : Net V) (least : Int) :
    ∃ deadline, least ≤ deadline ∧ net.LeasesOver deadline := by
  unfold LeasesOver
  induction net.served with
  | nil => exact ⟨least, le_refl _, by simp⟩
  | cons s served ih =>
      obtain ⟨deadline, hle, hover⟩ := ih
      refine ⟨max deadline s.handled.leaseEnd, hle.trans (le_max_left ..), ?_⟩
      intro s' hs' hg
      rcases List.mem_cons.mp hs' with rfl | hs'
      · exact le_max_right ..
      · exact (hover s' hs' hg).trans (le_max_left ..)

theorem LeasesOver.leasedUntil {deadline : Int} (h : net.LeasesOver deadline) (c : Nat) :
    net.LeasedUntil c deadline :=
  fun s hs _ _ hg _ => h s hs hg

end Net

namespace Watched

variable {V : Type} {t t' : Watched V} {delay c : Nat} {call : Call V} {deadline : Int}
  {evictable : CachedLease → Int → Bool} {wire : Wire}

/-- Nothing moves but the call, the handling of its requests and the clock; the
adapter does not give up. -/
def Alone (c : Nat) (t : Watched V) : NetLabel V → Prop
  | .handle n _ => ∃ rpc, t.net.rpcs[n]? = some rpc ∧ rpc.call = c
  | .deliver call _ => call = c
  | .resume call _ => call = c
  | .tick _ => True
  | _ => False

/-- The prompt runs of the call alone. -/
def Waits (evictable : CachedLease → Int → Bool) (wire : Wire) (delay c : Nat)
    (t t' : Watched V) : Prop :=
  Reachable (step evictable wire) (fun t l => t.Prompt delay c l ∧ t.Alone c l) (· = t) t'

theorem Waits.reached (h : Waits evictable wire delay c t t')
    (hr : t.Reached evictable wire delay c) : t'.Reached evictable wire delay c :=
  hr.trans (Reachable.mono h fun _ _ hok => hok.1)

theorem Waits.of_step (l : NetLabel V) (hprompt : t.Prompt delay c l) (halone : t.Alone c l)
    (hs : step evictable wire t l = some t') : Waits evictable wire delay c t t' :=
  .step (.start rfl) ⟨hprompt, halone⟩ hs

theorem Waits.trans {t'' : Watched V} (h : Waits evictable wire delay c t t')
    (h' : Waits evictable wire delay c t' t'') : Waits evictable wire delay c t t'' :=
  Reachable.trans h h'

theorem Reached.regular (hr : t.Reached evictable wire delay c) : t.net.Regular :=
  hr.net.invariant Net.Regular (fun _ h => Net.regular_initial h)
    fun _ _ _ h _ hs => Net.regular_step (Net.step_cases hs) h

/-- The turn a reply to a lease request allows; the call asks again only where
it was not granted the lease. -/
theorem exists_turn_of_reply (execute : ExecuteCall) (runner : Runner) (k : Nat)
    {data : LeaseCheckpointInput} {reply : Except HandlerError Response}
    (hfits : ∀ response, reply = .ok response → (Request.leaseCheckpoint data).Fits response) :
    ∃ result turn, GrpcAdapter.settle reply = some result ∧
      execute.resume runner (.leasing k : Phase V) (.reply result 0) = some turn ∧
      (turn.phase.asking = false ∨
        ∃ milliseconds k', turn.phase = .waiting milliseconds k' ∧ reply ≠ granted) := by
  cases reply with
  | error err =>
      refine ⟨_, _, rfl, rfl, ?_⟩
      unfold ExecuteCall.leaseFailed
      split
      · exact .inr ⟨_, _, rfl, nofun⟩
      · exact .inl rfl
  | ok response =>
      cases response with
      | leaseCheckpoint output =>
          obtain ⟨response⟩ := output
          cases response with
          | none => exact ⟨_, _, rfl, rfl, .inl rfl⟩
          | some told =>
              cases told with
              | CheckpointValue value => exact ⟨_, _, rfl, rfl, .inl rfl⟩
              | RemainingLeaseTimeout remaining =>
                  refine ⟨_, _, rfl, rfl, ?_⟩
                  by_cases hzero : remaining = 0
                  · subst hzero
                    exact .inl rfl
                  · refine .inr ⟨remaining / 10, k, ?_, nofun⟩
                    simp [ExecuteCall.leaseReplied, TSerialized.truthy, Option.filter, hzero]
      | _ => exact absurd (hfits _ rfl) id

section Cycle

variable (hr : t.Reached evictable wire delay c) (hc : t.net.calls[c]? = some call)
  (hover : t.net.LeasesOver deadline)

include hr hc hover

/-- The request the call waits for is handled, if it has not been. -/
theorem exists_replied {k : Nat} (hk : call.phase = .leasing k) :
    ∃ (t' : Watched V) (n : Nat) (rpc : Rpc) (data : LeaseCheckpointInput)
      (reply : Except HandlerError Response), Waits evictable wire delay c t t' ∧
      t'.net.calls = t.net.calls ∧ t'.made = t.made ∧ t'.net.world.now = t.net.world.now ∧
      call.awaiting = some n ∧ t'.net.rpcs[n]? = some rpc ∧
        rpc.request = .leaseCheckpoint data ∧
      rpc.reply = some reply ∧ (reply ≠ granted → t'.net.LeasesOver deadline) := by
  obtain ⟨n, rpc, data, hawaiting, hn, hcall, hdata, -⟩ := hr.kept.1.leasing c call k hc hk
  cases hreply : rpc.reply with
  | some reply =>
      exact ⟨t, n, rpc, data, reply, .start rfl, rfl, rfl, rfl, hawaiting, hn, hdata, hreply,
        fun _ => hover⟩
  | none =>
      have hs : step evictable wire t (.handle n (.calm "" true)) =
          some { t with net := t.net.answer (.calm "" true) n rpc call } := by
        simp [step, Net.step, hn, hcall, hc, hreply, Env.calm, madeAfter, enteredAfter,
          NetLabel.turn?]
      refine ⟨_, n, _, data, _,
        .of_step (.handle n (.calm "" true)) trivial ⟨rpc, hn, hcall⟩ hs,
        rfl, rfl, handle_now .., hawaiting,
        List.getElem?_set_self (List.getElem?_eq_some_iff.mp hn).1, hdata, rfl, ?_⟩
      intro hne s hserved hg
      rcases List.mem_cons.mp hserved with rfl | hserved
      · exact absurd hg hne
      · exact hover s hserved hg

/-- Its reply is delivered at once: the call has its answer, or goes to sleep. -/
theorem exists_answered {k : Nat} (hk : call.phase = .leasing k) :
    ∃ (t' : Watched V) (call' : Call V), Waits evictable wire delay c t t' ∧
      t'.net.calls[c]? = some call' ∧ t'.made = t.made ∧ t'.net.world.now = t.net.world.now ∧
      (call'.phase.asking = false ∨ ∃ milliseconds k', call'.phase = .waiting milliseconds k' ∧
        t'.entered c = t.net.world.now ∧ t'.net.LeasesOver deadline) := by
  obtain ⟨t₁, n, rpc, data, reply, hwaits, hcalls, hmade, hnow, hawaiting, hn, hdata, hreply,
    hleases⟩ := exists_replied hr hc hover hk
  have hr₁ := hwaits.reached hr
  have hc₁ : t₁.net.calls[c]? = some call := hcalls ▸ hc
  obtain ⟨runner, hrunner, -⟩ := hr₁.kept.1.runners c call hc₁
  obtain ⟨result, turn, hsettle, hturn, hphase⟩ := exists_turn_of_reply (V := V) call.execute
    runner k fun response h => hdata ▸ hr₁.regular.replied n rpc response hn (h ▸ hreply)
  have hs : step evictable wire t₁ (.deliver c 0) =
      some
        { net := t₁.net.take wire c call runner (.reply result 0) turn, made := t₁.made
          entered := Function.update t₁.entered c t₁.net.world.now } := by
    simp [step, Net.step, hc₁, Net.outcome, hawaiting, hn, hreply, hsettle,
      Net.goOn, hrunner, hk, hturn, madeAfter, enteredAfter, NetLabel.turn?]
  refine ⟨_, _, hwaits.trans (.of_step (.deliver c 0) trivial rfl hs),
    List.getElem?_set_self (List.getElem?_eq_some_iff.mp hc₁).1, hmade, hnow, ?_⟩
  rcases hphase with hdone | ⟨milliseconds, k', hwaiting, hne⟩
  · exact .inl hdone
  · refine .inr ⟨milliseconds, k', hwaiting, ?_, hleases hne⟩
    exact (Function.update_self ..).trans hnow

/-- Its timer fires when it is due: a millisecond has passed, and the call asks
again. -/
theorem exists_woken {milliseconds : Rat} {k : Nat} (hk : call.phase = .waiting milliseconds k)
    (hmade : t.made c ≤ deadline) :
    ∃ (t' : Watched V) (call' : Call V), Waits evictable wire delay c t t' ∧
      t'.net.calls[c]? = some call' ∧ call'.phase = .leasing k ∧ t'.made = t.made ∧
      t.entered c + 1 ≤ t'.net.world.now ∧ t'.net.LeasesOver deadline := by
  have hlasts := (hr.kept.2.2 call deadline hc hmade (hover.leasedUntil c)).lasts
  have htimer := one_le_setTimeout milliseconds
  rw [hk] at hlasts
  have hlate := hlasts _ rfl
  obtain ⟨runner, hrunner, -⟩ := hr.kept.1.runners c call hc
  have hawaiting : call.awaiting = none := by
    have h := hr.regular.awaiting c call hc
    rw [hk] at h
    exact Option.isSome_eq_false_iff.mp h |> Option.isNone_iff_eq_none.mp
  obtain ⟨elapsed, helapsed⟩ : ∃ elapsed : Nat,
      elapsed = (t.entered c + setTimeout milliseconds - t.net.world.now).toNat :=
    ⟨_, rfl⟩
  have hticks : step evictable wire t (.tick elapsed) =
      some { t with net := { t.net with world := t.net.world.tick elapsed } } := rfl
  have hs : step evictable wire
      { t with net := { t.net with world := t.net.world.tick elapsed } } (.resume c .wake) =
      some
        { net := ({ t.net with world := t.net.world.tick elapsed } : Net V).take wire c call
            runner .wake (call.execute.lease runner k)
          made := t.made
          entered := Function.update t.entered c (t.net.world.now + elapsed) } := by
    simp [step, Net.step, hc, hawaiting, Net.goOn, hrunner, hk, ExecuteCall.resume, madeAfter,
      enteredAfter, NetLabel.turn?, World.tick]
  refine ⟨_, _, (Waits.of_step (.tick elapsed) ?_ trivial hticks).trans
      (.of_step (.resume c .wake) trivial rfl hs),
      List.getElem?_set_self (List.getElem?_eq_some_iff.mp hc).1, rfl, rfl, ?_, hover⟩
  · intro call' hc' lasting hl
    obtain rfl := Option.some.inj (hc.symm.trans hc')
    rw [hk] at hl
    cases hl
    omega
  · show t.entered c + 1 ≤ t.net.world.now + elapsed
    omega

end Cycle

/-- From where it asks for the lease, round after round, the call comes to an
answer: every round takes a millisecond, and the rounds have no more time than
the leases. -/
theorem exists_end_of_leasing (fuel : Nat) {k : Nat} (hr : t.Reached evictable wire delay c)
    (hc : t.net.calls[c]? = some call) (hk : call.phase = .leasing k)
    (hmade : t.made c ≤ deadline) (hover : t.net.LeasesOver deadline)
    (hfuel : deadline + 7 * delay + 100 < t.net.world.now + fuel) :
    ∃ (t' : Watched V) (call' : Call V), Waits evictable wire delay c t t' ∧
      t'.net.calls[c]? = some call' ∧ call'.phase.asking = false := by
  induction fuel generalizing t call k with
  | zero =>
      have hnow := (hr.kept.2.2 call deadline hc hmade (hover.leasedUntil c)).now_le
        (k := k) (by rw [hk]; rfl)
      have := lateness_le delay k
      omega
  | succ fuel ih =>
      obtain ⟨t₁, call₁, hwaits₁, hc₁, hmade₁, hnow₁, hdone | ⟨milliseconds, k', hk₁, hentered₁,
        hover₁⟩⟩ := exists_answered hr hc hover hk
      · exact ⟨t₁, call₁, hwaits₁, hc₁, hdone⟩
      · have hr₁ := hwaits₁.reached hr
        obtain ⟨t₂, call₂, hwaits₂, hc₂, hk₂, hmade₂, hnow₂, hover₂⟩ :=
          exists_woken hr₁ hc₁ hover₁ hk₁ (hmade₁ ▸ hmade)
        obtain ⟨t₃, call₃, hwaits₃, hend⟩ := ih (hwaits₂.reached hr₁) hc₂ hk₂
          (hmade₂ ▸ hmade₁ ▸ hmade) hover₂ (by omega)
        exact ⟨t₃, call₃, (hwaits₁.trans hwaits₂).trans hwaits₃, hend⟩

end Watched

/-- **The wait can always end**: wherever a call of a prompt run stands, it comes
to an answer about its lease by its own turns and requests, and promptly. -/
theorem lease_wait_ends {V : Type} {evictable : CachedLease → Int → Bool} {wire : Wire}
    {delay c : Nat} {t : Watched V} {call : Call V} (hr : t.Reached evictable wire delay c)
    (hc : t.net.calls[c]? = some call) :
    ∃ (t' : Watched V) (call' : Call V), Watched.Waits evictable wire delay c t t' ∧
      t'.net.calls[c]? = some call' ∧ call'.phase.asking = false := by
  obtain ⟨deadline, hmade, hover⟩ := t.net.exists_leasesOver (t.made c)
  cases hphase : call.phase with
  | leasing k =>
      exact Watched.exists_end_of_leasing
        (deadline + 7 * delay + 101 - t.net.world.now).toNat hr hc hphase hmade hover (by omega)
  | waiting milliseconds k =>
      obtain ⟨t₁, call₁, hwaits, hc₁, hleasing, hmade₁, -, hover₁⟩ :=
        Watched.exists_woken hr hc hover hphase hmade
      obtain ⟨t₂, call₂, hwaits₂, hend⟩ := Watched.exists_end_of_leasing
        (deadline + 7 * delay + 101 - t₁.net.world.now).toNat (hwaits.reached hr) hc₁ hleasing
        (hmade₁ ▸ hmade) hover₁ (by omega)
      exact ⟨t₂, call₂, hwaits.trans hwaits₂, hend⟩
  | _ => exact ⟨t, call, .start rfl, hc, by rw [hphase]; rfl⟩

/-- The worker that asks again comes to its answer. -/
theorem asks_again_ends :
    ∃ (t t' : Watched Unit) (call' : Call Unit), t.Reached leaseExpired silentWire 5 1 ∧
      t.net.world.now = 3005 ∧ Watched.Waits leaseExpired silentWire 5 1 t t' ∧
      t'.net.calls[1]? = some call' ∧ call'.phase.asking = false := by
  obtain ⟨t, call, hr, hc, -, hnow, -, -⟩ := exists_asksAgain
  obtain ⟨t', call', hwaits, hc', hend⟩ := lease_wait_ends hr hc
  exact ⟨t, t', call', hr, hnow, hwaits, hc', hend⟩

end IdempotentTransformer
